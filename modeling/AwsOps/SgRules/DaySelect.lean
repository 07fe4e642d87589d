import AwsOps.Foundation.Splits
import AwsOps.SgRules.Scannable

/-!
# What the query of a day reads

A query of a day is confined when no name and no value in it can close its quote, and its partition
predicate covers the day when it admits each partition into which records of the day may have been
delivered: those of the day and those of the day after. The predicate is read as a condition on
partitions. `day_select_confined_iff` says for which sources the query is refused or has both
properties. A date key with the empty name is the gap: it counts as a resolved strategy, and no
predicate is built for it.
-/

namespace AwsOps.SgRules

open List AwsOps.Text AwsOps.Calendar

/-! ## Quotes -/

/-- A quote character. -/
def isQuote (c : Char) : Bool :=
  c == Char.ofNat 34 || c == Char.ofNat 39

def NoQuote (text : String) : Prop :=
  ∀ c ∈ text.toList, isQuote c = false

instance (text : String) : Decidable (NoQuote text) :=
  decidable_of_iff (text.toList.all (fun c => !isQuote c) = true) (by simp [NoQuote])

/-- What is quoted in the piece cannot close the quote. -/
def SqlPiece.Confined : SqlPiece → Prop
  | .code _ => True
  | .ident name => NoQuote name
  | .literal value => NoQuote value

/-- No piece closes its quote. -/
def Confined (pieces : List SqlPiece) : Prop :=
  ∀ piece ∈ pieces, piece.Confined

section Quotes

variable {U : Unicode}

@[simp] theorem confined_nil : Confined [] :=
  forall_mem_nil _

@[simp] theorem confined_cons {piece : SqlPiece} {pieces : List SqlPiece} :
    Confined (piece :: pieces) ↔ piece.Confined ∧ Confined pieces :=
  forall_mem_cons

@[simp] theorem confined_append {left right : List SqlPiece} :
    Confined (left ++ right) ↔ Confined left ∧ Confined right :=
  forall_mem_append

@[simp] theorem confined_code (text : String) : (SqlPiece.code text).Confined :=
  trivial

theorem not_quote_of_ident {c : Char} (h : (c.isAlphanum || c == '_' || c == '-') = true) :
    isQuote c = false := by
  rw [Bool.eq_false_iff]
  intro hquote
  simp only [isQuote, Bool.or_eq_true, beq_iff_eq] at hquote
  rcases hquote with rfl | rfl <;> revert h <;> decide

theorem not_quote_of_digit {c : Char} (h : (U.digit c).isSome) : isQuote c = false := by
  rw [Bool.eq_false_iff]
  intro hquote
  simp only [isQuote, Bool.or_eq_true, beq_iff_eq] at hquote
  rcases hquote with rfl | rfl <;> rw [U.digit_ascii _ (by decide)] at h <;> revert h <;> decide

theorem no_quote_of_before_end {text : String}
    (h : ∀ c ∈ beforeEnd text.toList, isQuote c = false) : NoQuote text := by
  intro c hmem
  rcases mem_before_end hmem with hfront | rfl
  · exact h c hfront
  · decide

theorem ident_no_quote {name : String} (h : identPattern name) : NoQuote name := by
  refine no_quote_of_before_end fun c hmem => ?_
  simp only [identPattern, matchesIdentifier] at h
  cases hname : beforeEnd name.toList with
  | nil =>
    rw [hname] at hmem
    cases hmem
  | cons first rest =>
    rw [hname] at hmem
    simp only [hname, Bool.and_eq_true, all_eq_true] at h
    obtain ⟨⟨hfirst, hrest⟩, -⟩ := h
    rcases mem_cons.mp hmem with rfl | hin
    · refine not_quote_of_ident ?_
      simp only [Bool.or_eq_true] at hfirst ⊢
      exact .inl (hfirst.imp_left (by simp +contextual [Char.isAlphanum]))
    · exact not_quote_of_ident (hrest c hin)

theorem safe_ident_fallback (name : Option String) {fallback : String} (h : NoQuote fallback) :
    ∃ column, safeIdent U name (some fallback) = .ok column ∧ NoQuote column := by
  unfold safeIdent
  cases hfilter : name.filter identPattern with
  | none => exact ⟨fallback, rfl, h⟩
  | some n => exact ⟨n, rfl, ident_no_quote (Option.filter_eq_some_iff.mp hfilter).2⟩

theorem safe_ident_refused {name : String} (h : identPattern name = false) :
    ∃ message, safeIdent U (some name) none = .error (.unsafeIdentifier message) := by
  simp [safeIdent, Option.filter, h]

theorem account_no_quote {value : String} (h : accountIdPattern U value) : NoQuote value := by
  simp only [accountIdPattern, Bool.and_eq_true, all_eq_true] at h
  exact no_quote_of_before_end fun c hmem => not_quote_of_digit (h.2 c hmem)

theorem region_no_quote {value : String} (h : regionPattern U value) : NoQuote value := by
  have hlower : ∀ c : Char, c.isLower = true → isQuote c = false := fun c hc =>
    not_quote_of_ident (by simp [Text.alphanum_iff, hc])
  refine no_quote_of_before_end fun c hmem => ?_
  by_cases hhyphen : c = '-'
  · rw [hhyphen]
    decide
  obtain ⟨piece, hpiece, hin⟩ := mem_split hhyphen hmem
  unfold regionPattern at h
  cases hsplit : split ['-'] (beforeEnd value.toList) with
  | nil =>
    rw [hsplit] at hpiece
    cases hpiece
  | cons head parts =>
    rw [hsplit] at h hpiece
    simp only [Bool.and_eq_true, all_eq_true] at h
    obtain ⟨⟨⟨⟨⟨hhead, -⟩, -⟩, -⟩, hparts⟩, hlast⟩ := h
    rcases mem_cons.mp hpiece with rfl | hpart
    · exact hlower c (hhead c hin)
    · cases hend : parts.getLast? with
      | none =>
        rw [List.getLast?_eq_none_iff] at hend
        rw [hend] at hpart
        cases hpart
      | some last =>
        obtain ⟨front, rfl⟩ := List.getLast?_eq_some_iff.mp hend
        rw [dropLast_concat] at hparts
        rcases mem_append.mp hpart with hfront | hin_last
        · exact hlower c ((hparts piece hfront).2 c hin)
        · rw [mem_singleton.mp hin_last] at hin
          rw [hend] at hlast
          split at hlast
          · rename_i d hd
            cases hd
            rw [mem_singleton.mp hin]
            exact not_quote_of_digit hlast
          · cases hlast

theorem numeral_no_quote (width n : Nat) : ∀ c ∈ numeral 10 width n, isQuote c = false := by
  intro c hmem
  rcases mem_append.mp hmem with hzero | hdigit
  · rw [eq_of_mem_replicate hzero]
    decide
  · have hd : c.isDigit := Nat.isDigit_of_mem_toDigits (by decide) (by decide) hdigit
    exact not_quote_of_ident (by simp [Char.isAlphanum, hd])

theorem padded_no_quote (width : Nat) (n : Int) : NoQuote (padded width n) := by
  intro c hmem
  rw [padded, String.toList_ofList] at hmem
  exact numeral_no_quote width n.toNat c hmem

theorem iso_format_no_quote (day : Int) : NoQuote (isoFormat day) := by
  intro c hmem
  simp only [isoFormat, String.toList_ofList, mem_append, mem_cons] at hmem
  rcases hmem with (hyear | rfl | hmonth) | rfl | hday
  · exact numeral_no_quote _ _ c hyear
  · decide
  · exact numeral_no_quote _ _ c hmonth
  · decide
  · exact numeral_no_quote _ _ c hday

theorem midnight_no_quote (day : Int) : NoQuote (isoFormat day ++ " 00:00:00") := by
  intro c hmem
  rw [String.toList_append] at hmem
  rcases mem_append.mp hmem with hdate | htime
  · exact iso_format_no_quote day c hdate
  · have hnone : NoQuote " 00:00:00" := by decide
    exact hnone c htime

end Quotes

/-! ## Partitions and the conditions on them -/

/-- The value of a partition key: a text, a date or an instant. -/
inductive PartitionValue where
  | text (value : String)
  | date (day : Int)
  | timestamp (instant : Int)
  deriving DecidableEq

/-- A partition: the values of its keys by lower-case name. -/
abbrev Partition := String → Option PartitionValue

/-- A constant in a condition; an instant is always a midnight. -/
inductive Literal where
  | text (value : String)
  | date (day : Int)
  | midnight (day : Int)
  deriving DecidableEq

/-- The value that a constant stands for. -/
def Literal.value : Literal → PartitionValue
  | .text value => .text value
  | .date day => .date day
  | .midnight day => .timestamp (dayStart day)

/-- How a constant is written. -/
def Literal.pieces : Literal → List SqlPiece
  | .text value => [.literal value]
  | .date day => [.code "DATE ", .literal (isoFormat day)]
  | .midnight day => [.code "TIMESTAMP ", .literal (isoFormat day ++ " 00:00:00")]

/-- A condition on the keys of a partition. -/
inductive Condition where
  | equals (column : String) (value : Literal)
  | oneOf (column : String) (first second : Literal)
  | within (column : String) (first after : Int)
  | both (left right : Condition)
  | either (left right : Condition)
  deriving DecidableEq

/-- How a condition is written. -/
def Condition.pieces : Condition → List SqlPiece
  | .equals column value => .ident column :: .code " = " :: value.pieces
  | .oneOf column first second =>
    .ident column :: .code " IN (" :: (first.pieces ++
      .code ", " :: (second.pieces ++ [.code ")"]))
  | .within column first after =>
    .ident column :: .code " >= " :: ((Literal.midnight first).pieces ++
      .code " AND " :: .ident column :: .code " < " :: (Literal.midnight after).pieces)
  | .both left right => left.pieces ++ .code " AND " :: right.pieces
  | .either left right =>
    .code "((" :: (left.pieces ++ .code ") OR (" :: (right.pieces ++ [.code "))"]))

/-- The condition holds of the partition. Column names are read without regard to case. -/
def Condition.Holds (U : Unicode) (partition : Partition) : Condition → Prop
  | .equals column value => partition (lower U column) = some value.value
  | .oneOf column first second =>
    partition (lower U column) = some first.value ∨
      partition (lower U column) = some second.value
  | .within column first after =>
    ∃ instant, partition (lower U column) = some (.timestamp instant) ∧
      dayStart first ≤ instant ∧ instant < dayStart after
  | .both left right => left.Holds U partition ∧ right.Holds U partition
  | .either left right => left.Holds U partition ∨ right.Holds U partition

/-- The value of a key of the type for a partition of the day. -/
def OfDay (type : String) (day : Int) : PartitionValue → Prop
  | .text value => type ≠ "date" ∧ type ≠ "timestamp" ∧ value = isoFormat day
  | .date date => type = "date" ∧ date = day
  | .timestamp instant => type = "timestamp" ∧ dayOf instant = day

/-- The partition holds records that were delivered on the day. -/
def PartitionOf (U : Unicode) (v : Validation) (day : Int) (partition : Partition) : Prop :=
  if holdsHiveKeys U v.partitionKeys then
    partition "year" = some (.text (padded 4 (dateOf day).year)) ∧
      partition "month" = some (.text (padded 2 (dateOf day).month)) ∧
      partition "day" = some (.text (padded 2 (dateOf day).day))
  else
    ∃ key type value, singlePartitionKeyAndType U v = some (key, type) ∧
      partition (lower U key) = some value ∧ OfDay type day value

/-- The predicate is a condition that every partition of the day and of the day after meets. -/
def Covers (U : Unicode) (v : Validation) (day : Int) (predicate : List SqlPiece) : Prop :=
  ∃ condition : Condition, render predicate = " AND ".toList ++ render condition.pieces ∧
    ∀ delivered, delivered = day ∨ delivered = day + 1 → ∀ partition,
      PartitionOf U v delivered partition → condition.Holds U partition

section Covers

variable {U : Unicode}

@[simp] theorem render_cons (piece : SqlPiece) (pieces : List SqlPiece) :
    render (piece :: pieces) = piece.chars ++ render pieces :=
  rfl

@[simp] theorem render_append (left right : List SqlPiece) :
    render (left ++ right) = render left ++ render right := by
  simp [render]

variable {keys : List String} {v : Validation} {type : String}

theorem key_by_lower_of_hive (h : holdsHiveKeys U keys) {name : String}
    (hname : name ∈ hiveKeys) : ∃ key, keyByLower U keys name = some key := by
  have hcontains := all_eq_true.mp h name hname
  rw [contains_iff_mem] at hcontains
  obtain ⟨key, hkey, hlower⟩ := mem_map.mp hcontains
  refine Option.isSome_iff_exists.mp (List.find?_isSome.mpr ⟨key, mem_reverse.mpr hkey, ?_⟩)
  exact beq_iff_eq.mpr hlower

theorem hive_of_key_by_lower {y mo d : String} (hy : keyByLower U keys "year" = some y)
    (hmo : keyByLower U keys "month" = some mo)
    (hd : keyByLower U keys "day" = some d) : holdsHiveKeys U keys := by
  have hmem : ∀ {name key}, keyByLower U keys name = some key → name ∈ keys.map (lower U) :=
    fun h => mem_map.mpr ⟨_, key_by_lower_eq h⟩
  simp only [holdsHiveKeys, hiveKeys, all_cons, all_nil, Bool.and_true, Bool.and_eq_true,
    contains_iff_mem]
  exact ⟨hmem hy, hmem hmo, hmem hd⟩

theorem hive_keys_plain : ∀ name ∈ hiveKeys, NoQuote name ∧ name.toList.all isAscii = true ∧
    name.toList.map Char.toLower = name.toList := by
  decide

theorem hive_column {name key : String} (h : keyByLower U keys name = some key)
    (hname : name ∈ hiveKeys) :
    ∃ column, safeIdent U (some key) (some name) = .ok column ∧ NoQuote column ∧
      lower U column = name := by
  obtain ⟨hquote, hascii, hlower⟩ := hive_keys_plain name hname
  unfold safeIdent
  cases hfilter : (some key).filter identPattern with
  | none =>
    refine ⟨name, rfl, hquote, ?_⟩
    rw [lower, U.lower_ascii _ hascii, hlower, String.ofList_toList]
  | some column =>
    obtain ⟨hcolumn, hident⟩ := Option.filter_eq_some_iff.mp hfilter
    cases hcolumn
    exact ⟨key, rfl, ident_no_quote hident, (key_by_lower_eq h).2⟩

/-- The three keys have the parts of the date. -/
def hiveDay (year month day : String) (date : Date) : Condition :=
  .both (.equals year (.text (padded 4 date.year)))
    (.both (.equals month (.text (padded 2 date.month)))
      (.equals day (.text (padded 2 date.day))))

theorem covers_hive (hhive : holdsHiveKeys U v.partitionKeys) {y mo d : String}
    (hy : lower U y = "year") (hmo : lower U mo = "month") (hd : lower U d = "day") (day : Int) :
    Covers U v day (hivePredicate y mo d (dateOf day) (dateOf (day + 1))) := by
  refine ⟨.either (hiveDay y mo d (dateOf day)) (hiveDay y mo d (dateOf (day + 1))), ?_, ?_⟩
  · have hopen : " AND ((".toList = " AND ".toList ++ "((".toList := by decide
    simp [hivePredicate, hiveDayEquals, hiveDay, Condition.pieces, Literal.pieces, SqlPiece.chars,
      hopen]
  · intro delivered hdelivered partition hpartition
    rw [PartitionOf, if_pos hhive] at hpartition
    have hholds : (hiveDay y mo d (dateOf delivered)).Holds U partition := by
      simpa [hiveDay, Condition.Holds, Literal.value, hy, hmo, hd] using hpartition
    rcases hdelivered with rfl | rfl
    · exact .inl hholds
    · exact .inr hholds

/-- The constant that a day is compared with. -/
def dayLiteral (type : String) (day : Int) : Literal :=
  if type = "date" then .date day
  else if type = "timestamp" then .midnight day
  else .text (isoFormat day)

theorem single_key_type {key : String}
    (h : singlePartitionKeyAndType U v = some (key, type)) : type ∈ dateLikePartitionTypes := by
  unfold singlePartitionKeyAndType at h
  split at h
  · split_ifs at h
    obtain ⟨idx, -, hidx⟩ := Option.bind_eq_some_iff.mp h
    dsimp only at hidx
    split_ifs at hidx with htype
    cases hidx
    exact contains_iff_mem.mp htype
  · cases h

theorem date_like_types_plain : ∀ type ∈ dateLikePartitionTypes,
    type.toList.all isAscii = true ∧ type.toList.map Char.toLower = type.toList := by
  decide

theorem date_literal_pieces (h : type ∈ dateLikePartitionTypes) (day : Int) :
    dateLiteral U (isoFormat day) (some type) = (dayLiteral type day).pieces := by
  obtain ⟨hascii, hlower⟩ := date_like_types_plain type h
  have htype : lower U type = type := by
    rw [lower, U.lower_ascii _ hascii, hlower, String.ofList_toList]
  simp only [dateLiteral, Option.getD_some, htype, dayLiteral]
  split_ifs <;> rfl

/-- A date key other than an instant has the value of the constant. -/
theorem of_day_literal (htype : type ≠ "timestamp") {day : Int} {value : PartitionValue}
    (h : OfDay type day value) :
    value = (dayLiteral type day).value := by
  cases value with
  | text value =>
    obtain ⟨hdate, -, rfl⟩ := h
    rw [dayLiteral, if_neg hdate, if_neg htype]
    rfl
  | date date =>
    obtain ⟨rfl, rfl⟩ := h
    rfl
  | timestamp instant => exact absurd h.1 htype

theorem covers_in (hhive : holdsHiveKeys U v.partitionKeys = false) {key : String}
    (h : singlePartitionKeyAndType U v = some (key, type)) (htype : type ≠ "timestamp")
    (day : Int) :
    Covers U v day (inPredicate key (dateLiteral U (isoFormat day) (some type))
      (dateLiteral U (isoFormat (day + 1)) (some type))) := by
  have hmem := single_key_type h
  refine ⟨.oneOf key (dayLiteral type day) (dayLiteral type (day + 1)), ?_, ?_⟩
  · simp [inPredicate, Condition.pieces, date_literal_pieces hmem, SqlPiece.chars]
  · intro delivered hdelivered partition hpartition
    rw [PartitionOf, if_neg (by rw [hhive]; exact Bool.false_ne_true)] at hpartition
    obtain ⟨key', type', value, hkey, hvalue, hday⟩ := hpartition
    rw [h] at hkey
    cases hkey
    rw [of_day_literal htype hday] at hvalue
    rcases hdelivered with rfl | rfl
    · exact .inl hvalue
    · exact .inr hvalue

theorem covers_range (hhive : holdsHiveKeys U v.partitionKeys = false) {key : String}
    (h : singlePartitionKeyAndType U v = some (key, "timestamp")) (day : Int) :
    Covers U v day (rangePredicate key (dateLiteral U (isoFormat day) (some "timestamp"))
      (dateLiteral U (isoFormat (day + 1 + 1)) (some "timestamp"))) := by
  have hmem := single_key_type h
  have hmidnight : ∀ d, dayLiteral "timestamp" d = .midnight d := fun d => rfl
  refine ⟨.within key day (day + 1 + 1), ?_, ?_⟩
  · simp [rangePredicate, Condition.pieces, date_literal_pieces hmem, hmidnight, SqlPiece.chars]
  · intro delivered hdelivered partition hpartition
    rw [PartitionOf, if_neg (by rw [hhive]; exact Bool.false_ne_true)] at hpartition
    obtain ⟨key', type', value, hkey, hvalue, hday⟩ := hpartition
    rw [h] at hkey
    cases hkey
    cases value with
    | text value => exact absurd rfl hday.2.1
    | date date => exact absurd hday.1 (by decide)
    | timestamp instant =>
      have hof : dayOf instant = delivered := hday.2
      refine ⟨instant, hvalue, ?_⟩
      simp only [dayOf, dayStart, dayMicros] at hof ⊢
      rcases hdelivered with rfl | rfl
      · omega
      · omega

end Covers

/-! ## The query of a day -/

/-- The query was refused, or nothing in it closes its quote and, if a strategy is resolved, it
holds a partition predicate that covers the day. -/
def SelectConfined (U : Unicode) (source : SourceRow) (day : Int) :
    Except SelectError (List SqlPiece) → Prop
  | .error (.unsafeIdentifier _) => True
  | .error .overflow => False
  | .ok pieces => Confined pieces ∧
      (hasResolvedPartitionStrategy U source.validation = true →
        ∃ before predicate after, pieces = before ++ predicate ++ after ∧
          buildPartitionPredicate U source.validation day = .ok predicate ∧
          Covers U source.validation day predicate)

/-- A scope field that the query would compare has a value that is refused. -/
def ScopeUnsafe (U : Unicode) (source : SourceRow) : Prop :=
  ((source.validation.columnMap.lookup "account_id").isSome ∧
      accountIdPattern U source.accountId = false) ∨
    ((source.validation.columnMap.lookup "region").isSome ∧
      regionPattern U source.region = false)

/-- The date key has a name, unless the query is refused for its scope; and if it is an instant, the
calendar has two more days. -/
def DateKeyUsable (U : Unicode) (source : SourceRow) (day : Int) : Prop :=
  ∀ key type, singlePartitionKeyAndType U source.validation = some (key, type) →
    (key = "" ∧ ScopeUnsafe U source) ∨
      (key ≠ "" ∧ (identPattern key = false ∨ type ≠ "timestamp" ∨ day + 2 ≤ lastDay))

/-- When the query of a day is refused or confined. -/
def QueryUsable (U : Unicode) (source : SourceRow) (day : Int) : Prop :=
  day + 1 ≤ lastDay ∧
    (identPattern source.databaseName = false ∨ identPattern source.tableName = false ∨
      holdsHiveKeys U source.validation.partitionKeys = true ∨ DateKeyUsable U source day)

section DaySelect

variable {U : Unicode}

variable {day : Int} {v : Validation}

theorem next_day_overflow (h : lastDay < day + 1) : nextDay day = .error .overflow := by
  have hchecked : checked (day + 1) = none := if_neg (by omega)
  simp only [nextDay, hchecked]

theorem literal_confined (type : String) (day : Int) : Confined (dayLiteral type day).pieces := by
  unfold dayLiteral
  split_ifs
  · exact confined_cons.mpr ⟨trivial, confined_cons.mpr ⟨iso_format_no_quote day, confined_nil⟩⟩
  · exact confined_cons.mpr ⟨trivial, confined_cons.mpr ⟨midnight_no_quote day, confined_nil⟩⟩
  · exact confined_cons.mpr ⟨iso_format_no_quote day, confined_nil⟩

theorem hive_day_confined {y mo d : String} (hy : NoQuote y) (hmo : NoQuote mo) (hd : NoQuote d)
    (date : Date) : Confined (hiveDayEquals y mo d date) := by
  simp [hiveDayEquals, SqlPiece.Confined, hy, hmo, hd, padded_no_quote]

theorem hive_predicate_ok (hhive : holdsHiveKeys U v.partitionKeys)
    (hnext : nextDay day = .ok (day + 1)) :
    ∃ predicate, buildPartitionPredicate U v day = .ok predicate ∧ Confined predicate ∧
      Covers U v day predicate := by
  obtain ⟨y, hy⟩ := key_by_lower_of_hive hhive (show "year" ∈ hiveKeys by decide)
  obtain ⟨mo, hmo⟩ := key_by_lower_of_hive hhive (show "month" ∈ hiveKeys by decide)
  obtain ⟨d, hd⟩ := key_by_lower_of_hive hhive (show "day" ∈ hiveKeys by decide)
  obtain ⟨yCol, hyCol, hyQuote, hyLower⟩ := hive_column hy (by decide)
  obtain ⟨moCol, hmoCol, hmoQuote, hmoLower⟩ := hive_column hmo (by decide)
  obtain ⟨dCol, hdCol, hdQuote, hdLower⟩ := hive_column hd (by decide)
  refine ⟨hivePredicate yCol moCol dCol (dateOf day) (dateOf (day + 1)), ?_, ?_,
    covers_hive hhive hyLower hmoLower hdLower day⟩
  · simp only [buildPartitionPredicate, hnext, ok_bind, hy, hmo, hd, hyCol, hmoCol, hdCol]
    rfl
  · simp [hivePredicate, hive_day_confined hyQuote hmoQuote hdQuote]

theorem single_key_predicate (hhive : holdsHiveKeys U v.partitionKeys = false)
    (hnext : nextDay day = .ok (day + 1)) :
    (dateKey U v = none → buildPartitionPredicate U v day = .ok []) ∧
      ∀ key, dateKey U v = some key → buildPartitionPredicate U v day =
        safeIdent U (some key) none >>= fun dk =>
          let keyType := singleDatePartitionKeyType U v
          if keyType = some "timestamp" then
            nextDay (day + 1) >>= fun afterNext =>
              pure (rangePredicate dk (dateLiteral U (isoFormat day) keyType)
                (dateLiteral U (isoFormat afterNext) keyType))
          else
            pure (inPredicate dk (dateLiteral U (isoFormat day) keyType)
              (dateLiteral U (isoFormat (day + 1)) keyType)) := by
  have hnot : ∀ y mo d, keyByLower U v.partitionKeys "year" = some y →
      keyByLower U v.partitionKeys "month" = some mo →
      keyByLower U v.partitionKeys "day" = some d → False := by
    intro y mo d hy hmo hd
    rw [hive_of_key_by_lower hy hmo hd] at hhive
    cases hhive
  unfold buildPartitionPredicate
  rw [hnext, ok_bind]
  dsimp only
  constructor
  · intro hkey
    split
    · rename_i y mo d hy hmo hd
      exact (hnot y mo d hy hmo hd).elim
    · rw [hkey]
      rfl
  · intro key hkey
    split
    · rename_i y mo d hy hmo hd
      exact (hnot y mo d hy hmo hd).elim
    · rw [hkey]

theorem date_key_of_single {key type : String}
    (h : singlePartitionKeyAndType U v = some (key, type)) (hne : key ≠ "") :
    dateKey U v = some key ∧ singleDatePartitionKeyType U v = some type := by
  simp [dateKey, singleDatePartitionKey, singleDatePartitionKeyType, h, hne]

theorem key_refused (hhive : holdsHiveKeys U v.partitionKeys = false)
    (hnext : nextDay day = .ok (day + 1)) {key type : String}
    (h : singlePartitionKeyAndType U v = some (key, type)) (hne : key ≠ "")
    (hident : identPattern key = false) :
    ∃ message, buildPartitionPredicate U v day = .error (.unsafeIdentifier message) := by
  obtain ⟨hkey, -⟩ := date_key_of_single h hne
  obtain ⟨message, hrefused⟩ := safe_ident_refused (U := U) hident
  refine ⟨message, ?_⟩
  rw [(single_key_predicate hhive hnext).2 key hkey, hrefused]
  rfl

theorem key_predicate_ok (hhive : holdsHiveKeys U v.partitionKeys = false)
    (hnext : nextDay day = .ok (day + 1)) {key type : String}
    (h : singlePartitionKeyAndType U v = some (key, type)) (hident : identPattern key = true)
    (hroom : type = "timestamp" → nextDay (day + 1) = .ok (day + 1 + 1)) :
    ∃ predicate, buildPartitionPredicate U v day = .ok predicate ∧ Confined predicate ∧
      Covers U v day predicate := by
  have hne : key ≠ "" := by
    rintro rfl
    revert hident
    decide
  obtain ⟨hkey, hkeyType⟩ := date_key_of_single h hne
  have hquote := ident_no_quote hident
  have hpieces := date_literal_pieces (U := U) (single_key_type h)
  rw [(single_key_predicate hhive hnext).2 key hkey, safe_ident_ok hident, ok_bind, hkeyType]
  dsimp only
  by_cases htype : type = "timestamp"
  · rw [if_pos (congrArg some htype), hroom htype, ok_bind]
    refine ⟨_, rfl, ?_, ?_⟩
    · simp [rangePredicate, hpieces, SqlPiece.Confined, hquote, literal_confined]
    · subst htype
      exact covers_range hhive h day
  · rw [if_neg (fun heq => htype (Option.some.inj heq))]
    refine ⟨_, rfl, ?_, covers_in hhive h htype day⟩
    simp [inPredicate, hpieces, SqlPiece.Confined, hquote, literal_confined]

theorem key_predicate_overflow (hhive : holdsHiveKeys U v.partitionKeys = false)
    (hnext : nextDay day = .ok (day + 1)) {key : String}
    (h : singlePartitionKeyAndType U v = some (key, "timestamp")) (hne : key ≠ "")
    (hident : identPattern key = true) (hover : nextDay (day + 1) = .error .overflow) :
    buildPartitionPredicate U v day = .error .overflow := by
  obtain ⟨hkey, hkeyType⟩ := date_key_of_single h hne
  rw [(single_key_predicate hhive hnext).2 key hkey, safe_ident_ok hident, ok_bind, hkeyType]
  dsimp only
  rw [if_pos rfl, hover]
  rfl

theorem scope_clause_cases (v : Validation) {canonical value : String} {pattern : String → Bool}
    (hcanonical : NoQuote canonical) (hpattern : pattern value = true → NoQuote value) :
    ((v.columnMap.lookup canonical).isSome ∧ pattern value = false →
        ∃ message, scopeClause U v canonical value pattern = .error (.unsafeIdentifier message)) ∧
      (¬((v.columnMap.lookup canonical).isSome ∧ pattern value = false) →
        ∃ pieces, scopeClause U v canonical value pattern = .ok pieces ∧ Confined pieces) := by
  unfold scopeClause
  cases hlookup : v.columnMap.lookup canonical with
  | none => exact ⟨fun h => absurd h.1 (by simp), fun _ => ⟨[], rfl, confined_nil⟩⟩
  | some column =>
    obtain ⟨col, hcol, hquote⟩ := safe_ident_fallback (U := U) (some column) hcanonical
    dsimp only
    rw [hcol, ok_bind]
    cases hvalue : pattern value with
    | false =>
      refine ⟨fun _ => ⟨"unsafe scope value: " ++ repr U value, ?_⟩,
        fun h => absurd ⟨rfl, rfl⟩ h⟩
      simp only [safeScopeValue, hvalue, Bool.false_eq_true, if_false]
      rfl
    | true =>
      refine ⟨fun h => absurd h.2 (by decide), fun _ => ?_⟩
      have hsafe : safeScopeValue U value pattern = .ok value := if_pos hvalue
      rw [hsafe, ok_bind]
      refine ⟨_, rfl, ?_⟩
      simp [SqlPiece.Confined, hquote, hpattern hvalue]

variable (source : SourceRow)

theorem scope_predicate_cases : (ScopeUnsafe U source →
        ∃ message, buildScopePredicate U source = .error (.unsafeIdentifier message)) ∧
      (¬ScopeUnsafe U source →
        ∃ pieces, buildScopePredicate U source = .ok pieces ∧ Confined pieces) := by
  have haccount := scope_clause_cases (U := U) source.validation
    (show NoQuote "account_id" by decide)
    (account_no_quote : accountIdPattern U source.accountId = true → _)
  have hregion := scope_clause_cases (U := U) source.validation (show NoQuote "region" by decide)
    (region_no_quote : regionPattern U source.region = true → _)
  unfold buildScopePredicate
  constructor
  · intro hrejected
    by_cases hfirst : (source.validation.columnMap.lookup "account_id").isSome ∧
        accountIdPattern U source.accountId = false
    · obtain ⟨message, hmessage⟩ := haccount.1 hfirst
      rw [hmessage]
      exact ⟨message, rfl⟩
    · obtain ⟨account, hok, -⟩ := haccount.2 hfirst
      obtain ⟨message, hmessage⟩ := hregion.1 (hrejected.resolve_left hfirst)
      rw [hok, ok_bind, hmessage]
      exact ⟨message, rfl⟩
  · intro hsafe
    obtain ⟨account, hok, hconfined⟩ := haccount.2 fun h => hsafe (.inl h)
    obtain ⟨region, hok', hconfined'⟩ := hregion.2 fun h => hsafe (.inr h)
    rw [hok, ok_bind, hok', ok_bind]
    exact ⟨_, rfl, confined_append.mpr ⟨hconfined, hconfined'⟩⟩

/-- The sum of the bytes, if the table has them. -/
def bytesSelect (v : Validation) : String :=
  let hasOptionalInfo := !v.columnMap.isEmpty || !v.optionalFields.isEmpty
  let hasBytes := if hasOptionalInfo then v.optionalFields.contains "bytes" else true
  if hasBytes then ", sum(\"bytes\") as bytes" else ""

/-- The columns of a query are always written. What may fail are the day after, the names of the
table and the two predicates, in this order. -/
theorem day_select_steps (day : Int) : ∃ interfaceCol logStatusCol startCol,
      NoQuote interfaceCol ∧ NoQuote logStatusCol ∧ NoQuote startCol ∧
      buildDaySelect U source day = (nextDay day >>= fun dayAfter =>
          safeIdent U (some source.databaseName) none >>= fun database =>
            safeIdent U (some source.tableName) none >>= fun table =>
              buildPartitionPredicate U source.validation day >>= fun predicate =>
                buildScopePredicate U source >>= fun scope =>
                  pure (daySelectHead ⟨interfaceCol, logStatusCol, startCol, database, table,
                      bytesSelect source.validation⟩ day dayAfter ++ predicate ++ scope ++
                    [.code " GROUP BY ", .ident interfaceCol] ++ [daySelectTail])) := by
  obtain ⟨interfaceCol, hinterface, hinterfaceQuote⟩ := safe_ident_fallback (U := U)
    (source.validation.columnMap.lookup "interface_id") (show NoQuote "interface_id" by decide)
  obtain ⟨logStatusCol, hstatus, hstatusQuote⟩ := safe_ident_fallback (U := U)
    (source.validation.columnMap.lookup "log_status") (show NoQuote "log_status" by decide)
  obtain ⟨startCol, hstart, hstartQuote⟩ := safe_ident_fallback (U := U)
    (source.validation.columnMap.lookup "start") (show NoQuote "start" by decide)
  refine ⟨interfaceCol, logStatusCol, startCol, hinterfaceQuote, hstatusQuote, hstartQuote, ?_⟩
  unfold buildDaySelect
  dsimp only
  rw [hinterface, ok_bind, hstatus, ok_bind, hstart, ok_bind]
  rfl

theorem day_select_outcome (hnext : nextDay day = .ok (day + 1))
    (hdatabase : identPattern source.databaseName = true)
    (htable : identPattern source.tableName = true) :
    (∀ e, buildPartitionPredicate U source.validation day = .error e →
        buildDaySelect U source day = .error e) ∧
      ∀ predicate, buildPartitionPredicate U source.validation day = .ok predicate →
        (∀ e, buildScopePredicate U source = .error e → buildDaySelect U source day = .error e) ∧
        ∀ scope, buildScopePredicate U source = .ok scope → Confined predicate → Confined scope →
          ∃ before after, buildDaySelect U source day = .ok (before ++ predicate ++ after) ∧
            Confined (before ++ predicate ++ after) := by
  obtain ⟨interfaceCol, logStatusCol, startCol, hinterface, hstatus, hstart, hselect⟩ :=
    day_select_steps (U := U) source day
  rw [hselect, hnext, ok_bind, safe_ident_ok hdatabase, ok_bind, safe_ident_ok htable, ok_bind]
  refine ⟨fun e he => by rw [he]; rfl, fun predicate hpredicate => ?_⟩
  rw [hpredicate, ok_bind]
  refine ⟨fun e he => by rw [he]; rfl, fun scope hscope hconfined hconfined' => ?_⟩
  rw [hscope, ok_bind]
  refine ⟨daySelectHead ⟨interfaceCol, logStatusCol, startCol, source.databaseName,
      source.tableName, bytesSelect source.validation⟩ day (day + 1),
    scope ++ [.code " GROUP BY ", .ident interfaceCol] ++ [daySelectTail], ?_, ?_⟩
  · simp [pure, Except.pure]
  · simp [daySelectHead, daySelectTail, SqlPiece.Confined, hinterface, hstatus, hstart,
      ident_no_quote hdatabase, ident_no_quote htable, hconfined, hconfined']

theorem table_refused (hnext : nextDay day = .ok (day + 1))
    (h : identPattern source.databaseName = false ∨ identPattern source.tableName = false) :
    ∃ message, buildDaySelect U source day = .error (.unsafeIdentifier message) := by
  obtain ⟨interfaceCol, logStatusCol, startCol, -, -, -, hselect⟩ :=
    day_select_steps (U := U) source day
  rw [hselect, hnext, ok_bind]
  cases hdatabase : identPattern source.databaseName with
  | false =>
    obtain ⟨message, hrefused⟩ := safe_ident_refused (U := U) hdatabase
    rw [hrefused]
    exact ⟨message, rfl⟩
  | true =>
    have htable := h.resolve_left (by rw [hdatabase]; decide)
    obtain ⟨message, hrefused⟩ := safe_ident_refused (U := U) htable
    rw [safe_ident_ok hdatabase, ok_bind, hrefused]
    exact ⟨message, rfl⟩

theorem day_select_overflow (h : lastDay < day + 1) :
    buildDaySelect U source day = .error .overflow := by
  obtain ⟨interfaceCol, logStatusCol, startCol, -, -, -, hselect⟩ :=
    day_select_steps (U := U) source day
  rw [hselect, next_day_overflow h]
  rfl

theorem resolved_iff : hasResolvedPartitionStrategy U v = true ↔
      holdsHiveKeys U v.partitionKeys = true ∨
        ∃ key type, singlePartitionKeyAndType U v = some (key, type) := by
  unfold hasResolvedPartitionStrategy singleDatePartitionKey
  cases holdsHiveKeys U v.partitionKeys with
  | true => simp
  | false =>
    cases singlePartitionKeyAndType U v with
    | none => simp
    | some found => exact ⟨fun _ => .inr ⟨found.1, found.2, rfl⟩, fun _ => rfl⟩

theorem confined_of_predicate (hnext : nextDay day = .ok (day + 1))
    (hdatabase : identPattern source.databaseName = true)
    (htable : identPattern source.tableName = true) {predicate : List SqlPiece}
    (hpredicate : buildPartitionPredicate U source.validation day = .ok predicate)
    (hconfined : Confined predicate)
    (hcovers : hasResolvedPartitionStrategy U source.validation = true →
      Covers U source.validation day predicate) :
    SelectConfined U source day (buildDaySelect U source day) := by
  have hselect := (day_select_outcome source hnext hdatabase htable).2 predicate hpredicate
  by_cases hrejected : ScopeUnsafe U source
  · obtain ⟨message, hrefused⟩ := (scope_predicate_cases source).1 hrejected
    rw [hselect.1 _ hrefused]
    trivial
  · obtain ⟨scope, hscope, hscopeConfined⟩ := (scope_predicate_cases source).2 hrejected
    obtain ⟨before, after, hok, hall⟩ := hselect.2 scope hscope hconfined hscopeConfined
    rw [hok]
    exact ⟨hall, fun hresolved => ⟨before, predicate, after, rfl, hpredicate, hcovers hresolved⟩⟩

theorem unnamed_key_confined_iff (hnext : nextDay day = .ok (day + 1))
    (hdatabase : identPattern source.databaseName = true)
    (htable : identPattern source.tableName = true)
    (hhive : holdsHiveKeys U source.validation.partitionKeys = false) {type : String}
    (h : singlePartitionKeyAndType U source.validation = some ("", type)) :
    SelectConfined U source day (buildDaySelect U source day) ↔ ScopeUnsafe U source := by
  have hkey : dateKey U source.validation = none := by
    simp [dateKey, singleDatePartitionKey, h]
  have hempty := (single_key_predicate hhive hnext).1 hkey
  have hselect := (day_select_outcome source hnext hdatabase htable).2 [] hempty
  constructor
  · intro hconfined
    by_contra hsafe
    obtain ⟨scope, hscope, hscopeConfined⟩ := (scope_predicate_cases source).2 hsafe
    obtain ⟨before, after, hok, -⟩ := hselect.2 scope hscope confined_nil hscopeConfined
    rw [hok] at hconfined
    obtain ⟨_, predicate, _, -, hbuilt, condition, hrender, -⟩ :=
      hconfined.2 (resolved_iff.mpr (.inr ⟨"", type, h⟩))
    rw [hempty] at hbuilt
    cases hbuilt
    have hlength := congrArg List.length hrender
    simp [render] at hlength
  · intro hrejected
    obtain ⟨message, hrefused⟩ := (scope_predicate_cases source).1 hrejected
    rw [hselect.1 _ hrefused]
    trivial

theorem keyed_confined_iff (hfirst : firstDay ≤ day) (hroom : day + 1 ≤ lastDay)
    (hdatabase : identPattern source.databaseName = true)
    (htable : identPattern source.tableName = true)
    (hhive : holdsHiveKeys U source.validation.partitionKeys = false) :
    SelectConfined U source day (buildDaySelect U source day) ↔ DateKeyUsable U source day := by
  have hnext := next_day_ok hfirst hroom
  unfold DateKeyUsable
  cases h : singlePartitionKeyAndType U source.validation with
  | none =>
    have hkey : dateKey U source.validation = none := by
      simp [dateKey, singleDatePartitionKey, h]
    have hunresolved : ¬hasResolvedPartitionStrategy U source.validation = true := by
      rw [resolved_iff]
      simp [hhive, h]
    refine ⟨fun _ key type hsome => (by cases hsome), fun _ => ?_⟩
    exact confined_of_predicate source hnext hdatabase htable
      ((single_key_predicate hhive hnext).1 hkey) confined_nil
      fun hresolved => absurd hresolved hunresolved
  | some found =>
    obtain ⟨key, type⟩ := found
    by_cases hname : key = ""
    · subst hname
      rw [unnamed_key_confined_iff source hnext hdatabase htable hhive h]
      constructor
      · intro hrejected key' type' hsome
        cases hsome
        exact .inl ⟨rfl, hrejected⟩
      · intro husable
        exact ((husable "" type rfl).resolve_right fun hnamed => hnamed.1 rfl).2
    have husable : (∀ key' type', some (key, type) = some (key', type') →
        (key' = "" ∧ ScopeUnsafe U source) ∨ (key' ≠ "" ∧
          (identPattern key' = false ∨ type' ≠ "timestamp" ∨ day + 2 ≤ lastDay))) ↔
        identPattern key = false ∨ type ≠ "timestamp" ∨ day + 2 ≤ lastDay := by
      constructor
      · intro hall
        exact ((hall key type rfl).resolve_left fun hunnamed => hname hunnamed.1).2
      · intro hkey key' type' hsome
        cases hsome
        exact .inr ⟨hname, hkey⟩
    rw [husable]
    cases hident : identPattern key with
    | false =>
      obtain ⟨message, hrefused⟩ := key_refused hhive hnext h hname hident
      rw [(day_select_outcome source hnext hdatabase htable).1 _ hrefused]
      exact ⟨fun _ => .inl rfl, fun _ => trivial⟩
    | true =>
      by_cases hbounds : type ≠ "timestamp" ∨ day + 2 ≤ lastDay
      · refine ⟨fun _ => .inr hbounds, fun _ => ?_⟩
        obtain ⟨predicate, hok, hconfined, hcovers⟩ := key_predicate_ok hhive hnext h hident
          fun htype => next_day_ok (by omega)
            (by have := hbounds.resolve_left (not_not_intro htype); omega)
        exact confined_of_predicate source hnext hdatabase htable hok hconfined fun _ => hcovers
      · rw [not_or, not_not, not_le] at hbounds
        obtain ⟨rfl, hend⟩ := hbounds
        rw [(day_select_outcome source hnext hdatabase htable).1 _
          (key_predicate_overflow hhive hnext h hname hident (next_day_overflow (by omega)))]
        constructor
        · intro hnever
          exact hnever.elim
        · rintro (hfalse | htype | hlast)
          · cases hfalse
          · exact absurd rfl htype
          · omega

/-- The query of a day is refused or confined exactly when the calendar has the days it names and
the date key, if it is used, has a name. -/
theorem day_select_confined_iff (source : SourceRow) (day : Int) (hday : (checked day).isSome) :
    SelectConfined U source day (buildDaySelect U source day) ↔ QueryUsable U source day := by
  have hfirst : firstDay ≤ day := by
    unfold checked at hday
    split at hday
    · rename_i hin
      exact hin.1
    · cases hday
  unfold QueryUsable
  by_cases hroom : day + 1 ≤ lastDay
  · have hnext := next_day_ok hfirst hroom
    refine Iff.trans ?_ (and_iff_right hroom).symm
    cases hdatabase : identPattern source.databaseName with
    | false =>
      obtain ⟨message, hrefused⟩ := table_refused (U := U) source hnext (.inl hdatabase)
      rw [hrefused]
      exact ⟨fun _ => .inl rfl, fun _ => trivial⟩
    | true =>
      cases htable : identPattern source.tableName with
      | false =>
        obtain ⟨message, hrefused⟩ := table_refused (U := U) source hnext (.inr htable)
        rw [hrefused]
        exact ⟨fun _ => .inr (.inl rfl), fun _ => trivial⟩
      | true =>
        cases hhive : holdsHiveKeys U source.validation.partitionKeys with
        | true =>
          obtain ⟨predicate, hok, hconfined, hcovers⟩ := hive_predicate_ok hhive hnext
          exact ⟨fun _ => .inr (.inr (.inl rfl)), fun _ => confined_of_predicate source hnext
            hdatabase htable hok hconfined fun _ => hcovers⟩
        | false =>
          have hcases := keyed_confined_iff source hfirst hroom hdatabase htable hhive
          simpa using hcases
  · rw [day_select_overflow source (by omega)]
    exact ⟨fun h => h.elim, fun h => absurd h.1 hroom⟩

end DaySelect

/-- A source whose table has the one date key. -/
def keyedSource (key : String) : SourceRow where
  accountId := "111122223333"
  region := "ap-northeast-2"
  workgroup := "primary"
  databaseName := "logs"
  tableName := "flow"
  validation := { datedValidation with partitionKeys := [key] }

/-- The query of a table with a named date key. -/
theorem day_select_confined_dated : (checked 20574).isSome ∧
      (SelectConfined Unicode.ascii (keyedSource "dt") 20574
          (buildDaySelect Unicode.ascii (keyedSource "dt") 20574) ↔
        QueryUsable Unicode.ascii (keyedSource "dt") 20574) :=
  ⟨by decide, day_select_confined_iff (keyedSource "dt") 20574 (by decide)⟩

/-- A date key without a name is a resolved strategy, and the query reads every partition. -/
theorem unnamed_key_unbounded :
    ¬∀ (U : Unicode) (source : SourceRow) (day : Int), (checked day).isSome →
      SelectConfined U source day (buildDaySelect U source day) := by
  intro h
  have hconfined := h Unicode.ascii (keyedSource "") 20574 (by decide)
  rw [unnamed_key_confined_iff (keyedSource "") (by decide) (by decide) (by decide) (by decide)
    (show singlePartitionKeyAndType Unicode.ascii (keyedSource "").validation = some ("", "string")
      by decide)] at hconfined
  rcases hconfined with ⟨hmapped, -⟩ | ⟨hmapped, -⟩
  · cases hmapped
  · cases hmapped

end AwsOps.SgRules
