import AwsOps.Foundation.Fallible
import AwsOps.SgRules.QueryKeywords

/-!
# Validated sources and their scans

When the scan of a day refuses a source that `validate` accepted. Validation does not look at the
text of the query, so a name that the query cannot hold is found out only by the scan: a date key
outside the identifier pattern, or a forbidden keyword in a name. And it asks only that a range is
declared, while the scan needs both of its bounds. `validated_source_scannable` says that these are
the only ways.
-/

namespace AwsOps.SgRules

open List AwsOps.Text AwsOps.Calendar Bool

variable {U : Unicode}

section Query

def InCalendar (day : Int) : Prop :=
  firstDay ≤ day ∧ day + 2 ≤ lastDay

theorem next_day_ok {day : Int} (hfirst : firstDay ≤ day) (hlast : day + 1 ≤ lastDay) :
    nextDay day = .ok (day + 1) := by
  have hchecked : checked (day + 1) = some (day + 1) := if_pos (by omega)
  simp only [nextDay, hchecked]

theorem key_by_lower_eq {keys : List String} {name key : String}
    (h : keyByLower U keys name = some key) : key ∈ keys ∧ lower U key = name := by
  unfold keyByLower at h
  have hlower := List.find?_some h
  exact ⟨mem_reverse.mp (mem_of_find?_eq_some h), beq_iff_eq.mp hlower⟩

theorem key_by_lower_plain {keys : List String} {name key : String}
    (h : keyByLower U keys name = some key) (hname : plainText name) :
    ∀ n ∈ some key, plainText (lower U n) := by
  intro n hmem
  rw [Option.mem_def, Option.some.injEq] at hmem
  rw [← hmem, (key_by_lower_eq h).2]
  exact hname

theorem safe_ident_ok {name : String} (h : identPattern name) :
    safeIdent U (some name) none = .ok name := by
  simp [safeIdent, Option.filter, h]

theorem partition_predicate_ok (v : Validation) {day : Int} (hday : InCalendar day)
    (hkey : ∀ key ∈ dateKey U v, identPattern key) (hhive : ∀ y mo,
      keyByLower U v.partitionKeys "year" = some y → keyByLower U v.partitionKeys "month" = some mo →
      dateKey U v = none) :
    ∃ pieces, buildPartitionPredicate U v day = .ok pieces ∧
      Pieces U pieces (dateKey U v).toList := by
  obtain ⟨hfirst, hlast⟩ := hday
  have hnil : Pieces U [] [] := Pieces.nil
  unfold buildPartitionPredicate
  rw [next_day_ok hfirst (by omega), ok_bind]
  dsimp only
  split
  · rename_i y mo d hy hmo hd
    obtain ⟨yCol, hyCol, hyPlain⟩ := safe_ident_plain "year" (by decide)
      (key_by_lower_plain hy (by decide))
    obtain ⟨moCol, hmoCol, hmoPlain⟩ := safe_ident_plain "month" (by decide)
      (key_by_lower_plain hmo (by decide))
    obtain ⟨dCol, hdCol, hdPlain⟩ := safe_ident_plain "day" (by decide)
      (key_by_lower_plain hd (by decide))
    rw [hyCol, hmoCol, hdCol, hhive y mo hy hmo]
    refine ⟨_, rfl, ?_⟩
    have hsecond := ((hnil.const "))" (by decide)).hive_day_equals hyPlain hmoPlain hdPlain
      (dateOf (day + 1))).const ") OR (" (by decide)
    exact (hsecond.hive_day_equals hyPlain hmoPlain hdPlain (dateOf day)).const " AND ((" (by decide)
  · cases hdate : dateKey U v with
    | none => exact ⟨[], rfl, Pieces.nil⟩
    | some key =>
      rw [hdate] at hkey
      dsimp only
      rw [safe_ident_ok (hkey key rfl), ok_bind]
      split_ifs with htimestamp
      · rw [next_day_ok (by omega) (by omega), ok_bind]
        have hhigh := (hnil.date_literal (day + 1 + 1)
          (singleDatePartitionKeyType U v)).const " < " (by decide)
        have hlow := (((hhigh.ident key).const " AND " (by decide)).date_literal day
          (singleDatePartitionKeyType U v)).const " >= " (by decide)
        have hrange := ((hlow.ident key).const " AND " (by decide)).merge
        rw [append_nil] at hrange
        exact ⟨_, rfl, hrange⟩
      · have hsecond := (((hnil.const ")" (by decide)).date_literal (day + 1)
          (singleDatePartitionKeyType U v)).const ", " (by decide)).date_literal day
          (singleDatePartitionKeyType U v)
        exact ⟨_, rfl, ((hsecond.const " IN (" (by decide)).ident key).const " AND " (by decide)⟩

theorem partition_predicate_ident (v : Validation) {day : Int} {pieces : List SqlPiece}
    (h : buildPartitionPredicate U v day = .ok pieces) (hhive : ∀ y mo,
      keyByLower U v.partitionKeys "year" = some y → keyByLower U v.partitionKeys "month" = some mo →
      dateKey U v = none) :
    ∀ key ∈ dateKey U v, identPattern key := by
  intro key hkey
  rw [Option.mem_def] at hkey
  unfold buildPartitionPredicate at h
  obtain ⟨next, -, h⟩ := bind_eq_ok.mp h
  dsimp only at h
  split at h
  · rename_i y mo d hy hmo hd
    rw [hhive y mo hy hmo] at hkey
    simp at hkey
  · rw [hkey] at h
    obtain ⟨dk, hdk, -⟩ := bind_eq_ok.mp h
    by_contra hident
    simp [safeIdent, Option.filter, hident] at hdk

theorem scope_clause_ok (v : Validation) {canonical value : String} {pattern : String → Bool}
    (hcolumn : ∀ column ∈ v.columnMap.lookup canonical, plainText (lower U column))
    (hcanonical : plainText canonical) (hvalue : pattern value) :
    ∃ pieces, scopeClause U v canonical value pattern = .ok pieces ∧
      Pieces U pieces ((v.columnMap.lookup canonical).toList.map fun _ => value) := by
  unfold scopeClause
  have hnil : Pieces U [] [] := Pieces.nil
  cases hlookup : v.columnMap.lookup canonical with
  | none => exact ⟨[], rfl, hnil⟩
  | some column =>
    rw [hlookup] at hcolumn
    obtain ⟨col, hcol, hplain⟩ := safe_ident_plain canonical hcanonical hcolumn
    have hsafe : safeScopeValue U value pattern = .ok value := if_pos hvalue
    dsimp only
    rw [hcol, ok_bind, hsafe, ok_bind]
    have hname := ((hnil.literal value).const " = " (by decide)).ident col |>.drop hplain
    exact ⟨_, rfl, hname.const " AND " (by decide)⟩

theorem account_id_plain {value : String} (h : accountIdPattern U value) :
    holdsKeyword U value = false := by
  simp only [accountIdPattern, and_eq_true, all_eq_true] at h
  refine search_no_letter fun c hmem => ?_
  have hdigit : ∀ d ∈ beforeEnd value.toList, (foldCase d).isUpper = false :=
    fun d hd => U.digit_not_letter d (h.2 d hd)
  simp only [beforeEnd] at hdigit
  split at hdigit
  · rename_i hnewline
    obtain ⟨front, hfront⟩ := List.getLast?_eq_some_iff.mp (beq_iff_eq.mp hnewline)
    rw [hfront, dropLast_concat] at hdigit
    rw [hfront] at hmem
    rcases mem_append.mp hmem with hfrontMem | hend
    · exact hdigit c hfrontMem
    · rw [mem_singleton.mp hend]
      decide
  · exact hdigit c hmem

/-- The names and values of a source in which the read-only check may find a keyword. -/
def queryNames (U : Unicode) (source : SourceRow) : List String :=
  source.databaseName :: source.tableName :: ((dateKey U source.validation).toList ++
    (source.validation.columnMap.lookup "region").toList.map fun _ => source.region)

/-- What the names of a source must satisfy for its query to be built. -/
structure QueryBuildable (U : Unicode) (source : SourceRow) : Prop where
  account : accountIdPattern U source.accountId
  region : regionPattern U source.region
  database : identPattern source.databaseName
  table : identPattern source.tableName
  columns : ∀ canonical, ∀ column ∈ source.validation.columnMap.lookup canonical,
    plainText (lower U column)
  hive : ∀ y mo, keyByLower U source.validation.partitionKeys "year" = some y →
    keyByLower U source.validation.partitionKeys "month" = some mo →
    dateKey U source.validation = none

theorem Pieces.head {n : QueryNames} (hinterface : holdsKeyword U n.interfaceCol = false)
    (hstart : holdsKeyword U n.startCol = false) (hstatus : holdsKeyword U n.logStatusCol = false)
    (hbytes : n.bytesSelect = "" ∨ n.bytesSelect = ", sum(\"bytes\") as bytes")
    (day dayAfter : Int) {pieces : List SqlPiece} {names : List String}
    (h : Pieces U pieces names) :
    Pieces U (daySelectHead n day dayAfter ++ pieces) (n.database :: n.table :: names) := by
  have hbound : ∀ front back : String, ∀ f b : List Char, ∀ k : Int,
      front.toList = f ++ [' '] → back.toList = ' ' :: b → plainText front → plainText back →
      back.toList.getLast? = some ' ' → ∀ {pieces : List SqlPiece} {names : List String},
      Pieces U pieces names → Pieces U (.code (front ++ toString k ++ back) :: pieces) names := by
    intro front back f b k hfront hback hpfront hpback hlast pieces names hpieces
    have hend : (front ++ toString k ++ back).toList.getLast? = some ' ' := by
      rw [String.toList_append, List.getLast?_append, hlast]
      rfl
    refine hpieces.code hend (by decide) ?_
    rw [holds_keyword_number hfront hback, holds_keyword_plain hpfront,
      holds_keyword_plain hpback, Bool.or_false]
  have hselected : ∀ {pieces : List SqlPiece} {names : List String}, Pieces U pieces names →
      Pieces U (.code (" as interface_id, srcaddr, dstaddr, dstport, protocol, action" ++
        n.bytesSelect ++ ", count(*) as cnt, max(") :: pieces) names := by
    intro pieces names hpieces
    rcases hbytes with hbytes | hbytes <;> rw [hbytes]
    · exact hpieces.const _ (by decide)
    · exact hpieces.const _ (by decide)
  -- from the end of the list to its front
  have hstatusCol := ((h.const " = 'OK'" (by decide)).ident n.logStatusCol).drop hstatus
  have hbefore := hbound " < " " AND action = 'ACCEPT' AND " [' ', '<'] _ (daySeconds dayAfter) rfl
    rfl (by decide) (by decide) (by decide) hstatusCol
  have hsince := hbound " >= " " AND " [' ', '>', '='] _ (daySeconds day) rfl rfl (by decide)
    (by decide) (by decide) ((hbefore.ident n.startCol).drop hstart)
  have htable := (((hsince.ident n.startCol).drop hstart).const " WHERE " (by decide)).ident n.table
  have hdatabase := (htable.const "." (by decide)).ident n.database
  have hlast := ((hdatabase.const ") as last_start FROM " (by decide)).ident n.startCol).drop hstart
  exact (((hselected hlast).ident n.interfaceCol).drop hinterface).const "SELECT " (by decide)

theorem day_select_ok {source : SourceRow} (h : QueryBuildable U source) {day : Int}
    (hday : InCalendar day) (hkey : ∀ key ∈ dateKey U source.validation, identPattern key) :
    ∃ rest, buildDaySelect U source day = .ok (.code "SELECT " :: rest) ∧
      searchKeyword U forbiddenKeywords (render (.code "SELECT " :: rest)) =
        (queryNames U source).any (holdsKeyword U) := by
  have hcolumn : ∀ canonical, plainText canonical → ∃ column,
      safeIdent U (source.validation.columnMap.lookup canonical) (some canonical) = .ok column ∧
        holdsKeyword U column = false :=
    fun canonical hplain => safe_ident_plain canonical hplain (h.columns canonical)
  obtain ⟨interfaceCol, hinterface, hinterfacePlain⟩ := hcolumn "interface_id" (by decide)
  obtain ⟨statusCol, hstatus, hstatusPlain⟩ := hcolumn "log_status" (by decide)
  obtain ⟨startCol, hstart, hstartPlain⟩ := hcolumn "start" (by decide)
  obtain ⟨predicate, hpredicate, hpieces⟩ := partition_predicate_ok source.validation hday hkey h.hive
  obtain ⟨account, haccount, haccountPieces⟩ := scope_clause_ok source.validation
    (h.columns "account_id") (by decide) h.account
  obtain ⟨region, hregion, hregionPieces⟩ := scope_clause_ok source.validation
    (h.columns "region") (by decide) h.region
  have haccountPieces' : Pieces U account [] := by
    cases hlookup : source.validation.columnMap.lookup "account_id" with
    | none => simpa [hlookup] using haccountPieces
    | some column =>
      rw [hlookup] at haccountPieces
      exact haccountPieces.drop (account_id_plain h.account)
  have hscope : buildScopePredicate U source = .ok (account ++ region) := by
    rw [buildScopePredicate, haccount, ok_bind, hregion, ok_bind]
    rfl
  have hbody : Pieces U (predicate ++ (account ++ region) ++ [.code " GROUP BY ",
      .ident interfaceCol]) ((dateKey U source.validation).toList ++
        (source.validation.columnMap.lookup "region").toList.map fun _ => source.region) := by
    have hgroup : Pieces U [.code " GROUP BY ", .ident interfaceCol] [] :=
      ((Pieces.nil.ident interfaceCol).drop hinterfacePlain).const " GROUP BY " (by decide)
    have happend := (hpieces.append (haccountPieces'.append hregionPieces)).append hgroup
    simpa using happend
  unfold buildDaySelect
  dsimp only
  rw [hinterface, hstatus, hstart, next_day_ok hday.1 (by have := hday.2; omega),
    safe_ident_ok h.database, safe_ident_ok h.table, hpredicate, hscope]
  simp only [ok_bind]
  generalize hbytes : (if (if (!source.validation.columnMap.isEmpty ||
    !source.validation.optionalFields.isEmpty) = true then
      source.validation.optionalFields.contains "bytes" else true) = true then
        ", sum(\"bytes\") as bytes" else "") = bytesSelect
  have hbytes' : bytesSelect = "" ∨ bytesSelect = ", sum(\"bytes\") as bytes" := by
    rw [← hbytes]
    split_ifs <;> simp
  have hhead := @Pieces.head U
    { interfaceCol, logStatusCol := statusCol, startCol, database := source.databaseName
      table := source.tableName, bytesSelect } hinterfacePlain hstartPlain hstatusPlain hbytes' day
    (day + 1) _ _ hbody
  have htail : holdsKeyword U
      (", srcaddr, dstaddr, dstport, protocol, action LIMIT " ++ toString rowLimit) = false :=
    holds_keyword_plain (by decide)
  have hsearch := @render_search U _ _ hhead daySelectTail htail
  refine ⟨_, ?_, hsearch⟩
  simp only [daySelectHead, cons_append, append_eq, append_assoc]
  rfl

end Query

section Gates

theorem reject_non_select_ok (rest : List SqlPiece) :
    rejectNonSelect U (render (.code "SELECT " :: rest)) = .ok () ↔
      searchKeyword U forbiddenKeywords (render (.code "SELECT " :: rest)) = false := by
  have hrender : render (.code "SELECT " :: rest) = "SELECT ".toList ++ render rest := by
    simp [render, SqlPiece.chars]
  have hspace : (render (.code "SELECT " :: rest)).dropWhile isSpace =
      render (.code "SELECT " :: rest) := by
    rw [hrender]
    rfl
  have hword : isWord U 'T' = true := by
    rw [isWord, U.alnum_ascii 'T' (by decide)]
    decide
  have hblank : isWord U ' ' = false := by
    rw [isWord, U.alnum_ascii ' ' (by decide)]
    decide
  have hselect : keywordHere U "SELECT".toList none (render (.code "SELECT " :: rest)) = true := by
    have hboundary : boundary U (some 'T') (some ' ') = true := by
      simp [boundary, hword, hblank]
    rw [hrender]
    exact hboundary
  rw [rejectNonSelect, hspace, hselect]
  cases searchKeyword U forbiddenKeywords (render (.code "SELECT " :: rest)) <;> simp

/-- The two bounds of a declared range, if both are days. -/
def dateBounds (U : Unicode) (range : String) (now : Clock) : Option (Int × Int) :=
  match cutFirst ',' range.toList with
  | none => none
  | some (lower, upper) =>
    match projectionRangeBoundDate U lower now, projectionRangeBoundDate U upper now with
    | .ok (some lo), .ok (some hi) => some (lo, hi)
    | _, _ => none

/-- The two bounds of a declared range, if both are numbers. -/
def integerBounds (U : Unicode) (range : String) : Option (Int × Int) :=
  match cutFirst ',' range.toList with
  | none => none
  | some (lower, upper) =>
    match int U lower, int U upper with
    | some lo, some hi => some (lo, hi)
    | _, _ => none

/-- The value lies between two bounds that are known. -/
def Between (bounds : Option (Int × Int)) (value : Int) : Prop :=
  ∃ lo hi, bounds = some (lo, hi) ∧ lo ≤ value ∧ value ≤ hi

/-- The declared ranges that the scan of a day reads have two bounds that resolve, and cover the
day and the day after. -/
structure RangesCover (U : Unicode) (params : List (String × String)) (v : Validation) (day : Int)
    (now : Clock) : Prop where
  date : ∀ key range, dateKey U v = some key → projectionRange params key = some range →
    Between (dateBounds U range now) day ∧ Between (dateBounds U range now) (day + 1)
  hive : isHiveStyle U (partitionKeysExcludingScope U v) → ∀ name key range,
    keyByLower U (partitionKeysExcludingScope U v) name = some key →
    projectionRange params key = some range → ∀ d ∈ [day, day + 1], ∀ value,
    (name, value) ∈ dateComponents (dateOf d) → Between (integerBounds U range) value

/-- A range contains a value when both bounds resolve and the value lies between them. -/
theorem range_status_inside {lower upper : Option Int} {value : Int} :
    rangeStatus lower upper value = .inside ↔
      ∃ lo hi, lower = some lo ∧ upper = some hi ∧ lo ≤ value ∧ value ≤ hi := by
  unfold rangeStatus
  cases lower with
  | none =>
    cases upper with
    | none => simp
    | some hi => by_cases h : hi < value <;> simp [h]
  | some lo =>
    cases upper with
    | none => by_cases h : value < lo <;> simp [h]
    | some hi =>
      simp only [Option.any_some, decide_eq_true_eq, Option.isNone_some, Bool.or_self,
        false_eq_true, if_false, Option.some.injEq]
      constructor
      · intro h
        by_cases hlo : value < lo
        · simp [hlo] at h
        · by_cases hhi : hi < value
          · simp [hlo, hhi] at h
          · exact ⟨lo, hi, rfl, rfl, by omega, by omega⟩
      · rintro ⟨_, _, rfl, rfl, hlo, hhi⟩
        rw [if_neg (by omega), if_neg (by omega)]

/-- Several ranges contain a value when each of them does. -/
theorem all_inside {statuses : List RangeStatus} :
    RangeStatus.all statuses = .inside ↔ ∀ status ∈ statuses, status = .inside := by
  unfold RangeStatus.all
  constructor
  · intro h status hmem
    cases status with
    | inside => rfl
    | outside => simp [hmem] at h
    | unresolved =>
      split_ifs at h with houtside hunresolved
      simp [hmem] at hunresolved
  · intro h
    have hnot : ∀ status ≠ RangeStatus.inside, statuses.contains status = false := by
      intro status hne
      rw [contains_eq_mem, decide_eq_false_iff_not]
      exact fun hmem => hne (h status hmem)
    rw [hnot .outside (by decide), hnot .unresolved (by decide)]
    rfl

variable {day : Int} {params : List (String × String)}

theorem range_day_inside {range : String} {now : Clock} :
    projectionRangeDayStatus U range day now = .ok .inside ↔
      Between (dateBounds U range now) day := by
  unfold projectionRangeDayStatus dateBounds Between
  cases hcut : cutFirst ',' range.toList with
  | none => simp
  | some bounds =>
    obtain ⟨lower, upper⟩ := bounds
    dsimp only
    cases hlower : projectionRangeBoundDate U lower now with
    | error error => simp [bind, Except.bind]
    | ok lo =>
      cases hupper : projectionRangeBoundDate U upper now with
      | error error => cases lo <;> simp [bind, Except.bind]
      | ok hi =>
        rw [ok_bind, ok_bind]
        show Except.ok (rangeStatus lo hi day) = .ok .inside ↔ _
        rw [Except.ok.injEq, range_status_inside]
        cases lo <;> cases hi <;> simp

theorem range_integer_inside {range : String} {value : Int} :
    projectionIntegerRangeExcludes U range value = .inside ↔
      Between (integerBounds U range) value := by
  unfold projectionIntegerRangeExcludes integerBounds Between
  cases hcut : cutFirst ',' range.toList with
  | none => simp
  | some bounds =>
    obtain ⟨lower, upper⟩ := bounds
    simp only [range_status_inside]
    cases int U lower <;> cases int U upper <;> simp

theorem date_key_not_hive {v : Validation} {key : String} (h : dateKey U v = some key) :
    partitionKeysExcludingScope U v = [key] := by
  obtain ⟨hsingle, -⟩ := Option.filter_eq_some_iff.mp h
  rw [singleDatePartitionKey, Option.map_eq_some_iff] at hsingle
  obtain ⟨⟨found, type⟩, hfound, rfl⟩ := hsingle
  unfold singlePartitionKeyAndType at hfound
  split at hfound
  · rename_i only types hremaining htypes
    split_ifs at hfound
    obtain ⟨idx, -, hidx⟩ := Option.bind_eq_some_iff.mp hfound
    dsimp only at hidx
    split_ifs at hidx
    rw [Option.some.injEq, Prod.mk.injEq] at hidx
    rw [hremaining, hidx.1]
  · simp at hfound

theorem singleton_not_hive (key : String) : holdsHiveKeys U [key] = false := by
  rw [eq_false_iff]
  intro h
  simp only [holdsHiveKeys, hiveKeys, map_singleton, all_cons, contains_cons,
    contains_nil, Bool.or_false, and_eq_true, beq_iff_eq] at h
  obtain ⟨hyear, hmonth, -⟩ := h
  exact absurd (hyear.trans hmonth.symm) (by decide)

/-- The ranges of the Hive-style keys cover a day when each of them covers its part of the date. -/
theorem hive_day_inside {keys : List String} :
    hiveDayExcluded U keys params day = .inside ↔ ∀ name key range,
      keyByLower U keys name = some key → projectionRange params key = some range →
      ∀ value, (name, value) ∈ dateComponents (dateOf day) → Between (integerBounds U range) value := by
  simp only [hiveDayExcluded, all_inside, mem_filterMap]
  constructor
  · intro h name key range hkey hrange value hmem
    refine range_integer_inside.mp (h _ ⟨(name, value), hmem, ?_⟩)
    simp [hkey, hrange]
  · rintro h status ⟨⟨name, value⟩, hmem, hstatus⟩
    obtain ⟨key, hkey, hstatus⟩ := Option.bind_eq_some_iff.mp hstatus
    obtain ⟨range, hrange, hstatus⟩ := Option.bind_eq_some_iff.mp hstatus
    rw [← Option.some.inj hstatus]
    exact range_integer_inside.mpr (h name key range hkey hrange value hmem)

theorem day_out_of_range_inside {v : Validation} {now : Clock} (hday : InCalendar day) :
    projectionDayOutOfRange U params v day now = .ok .inside ↔ RangesCover U params v day now := by
  obtain ⟨hfirst, hlast⟩ := hday
  have hnext : shiftDays day (-1) = .ok (day + 1) := by
    have hchecked : checked (day - -1) = some (day + 1) := by
      rw [Int.sub_neg]
      exact if_pos (by omega)
    simp only [shiftDays, hchecked]
  unfold projectionDayOutOfRange
  rw [hnext, ok_bind]
  cases hkey : dateKey U v with
  | none =>
    have hiff : RangesCover U params v day now ↔
        (isHiveStyle U (partitionKeysExcludingScope U v) = true →
          hiveDayExcluded U (partitionKeysExcludingScope U v) params day = .inside ∧
          hiveDayExcluded U (partitionKeysExcludingScope U v) params (day + 1) = .inside) := by
      rw [hive_day_inside, hive_day_inside]
      constructor
      · intro h hhive
        exact ⟨fun name key range hk hr => h.hive hhive name key range hk hr day (by simp),
          fun name key range hk hr => h.hive hhive name key range hk hr (day + 1) (by simp)⟩
      · intro h
        refine ⟨fun key range hk => absurd hk (by simp [hkey]), ?_⟩
        intro hhive name key range hk hr d hd
        rcases mem_pair.mp hd with rfl | rfl
        · exact (h hhive).1 name key range hk hr
        · exact (h hhive).2 name key range hk hr
    rw [hiff]
    dsimp only
    split_ifs with hhive
    · show Except.ok _ = Except.ok _ ↔ _
      rw [Except.ok.injEq, all_inside]
      simp [hhive]
    · exact ⟨fun _ h => absurd h hhive, fun _ => rfl⟩
  | some key =>
    have hremaining := date_key_not_hive hkey
    have hnot : isHiveStyle U (partitionKeysExcludingScope U v) = false := by
      rw [hremaining, isHiveStyle, singleton_not_hive, Bool.false_and]
    have hiff : RangesCover U params v day now ↔ ∀ range, projectionRange params key = some range →
        Between (dateBounds U range now) day ∧ Between (dateBounds U range now) (day + 1) := by
      constructor
      · exact fun h range hrange => h.date key range hkey hrange
      · intro h
        refine ⟨fun other range hother hrange => ?_, fun hhive => by simp [hnot] at hhive⟩
        rw [hkey, Option.some.injEq] at hother
        exact h range (hother ▸ hrange)
    rw [hiff]
    dsimp only
    cases hrange : projectionRange params key with
    | none => exact ⟨fun _ => nofun, fun _ => rfl⟩
    | some range =>
      simp only [Option.some.injEq, forall_eq', ← range_day_inside]
      cases hstatus : projectionRangeDayStatus U range day now with
      | error error => simp [bind, Except.bind]
      | ok status =>
        cases hstatusNext : projectionRangeDayStatus U range (day + 1) now with
        | error error => simp [bind, Except.bind]
        | ok statusNext =>
          rw [ok_bind, ok_bind]
          show Except.ok _ = Except.ok _ ↔ _
          rw [Except.ok.injEq, all_inside]
          simp

end Gates

section Accepted

/-- The names that a table may give its columns and scope keys. -/
def columnAliases : List String :=
  (requiredFields ++ scopeAliases).flatMap (·.2)

theorem column_aliases_plain :
    ∀ a ∈ columnAliases, plainText a ∧ a ∉ hiveKeys ∧ a.toList.map Char.toLower = a.toList := by
  decide

theorem lower_alias {a : String} (h : a ∈ columnAliases) : lower U a = a := by
  obtain ⟨hplain, -, hlower⟩ := column_aliases_plain a h
  rw [plainText, and_eq_true] at hplain
  rw [lower, U.lower_ascii _ hplain.1, hlower, String.ofList_toList]

theorem scope_field_alias {columns keys aliases : List String} {kind : ScopeKind} {column : String}
    (h : resolveScopeField U columns keys aliases = some (kind, column))
    (haliases : ∀ a ∈ aliases, a ∈ columnAliases) : lower U column ∈ columnAliases := by
  unfold resolveScopeField at h
  split at h
  · rename_i key hkey
    obtain ⟨a, hmem, hfound⟩ := exists_of_findSome?_eq_some hkey
    rw [Option.some.injEq, Prod.mk.injEq] at h
    rw [← h.2, (key_by_lower_eq hfound).2]
    exact haliases a hmem
  · obtain ⟨found, hfound, hpair⟩ := Option.map_eq_some_iff.mp h
    rw [Prod.mk.injEq] at hpair
    have hmem := haliases found (mem_of_find?_eq_some hfound)
    rw [← hpair.2, lower_alias hmem]
    exact hmem

/-- The scope fields of the layout are carried by aliases. -/
def ScopesAliased (U : Unicode) (l : Layout) : Prop :=
  ∀ scope ∈ [l.accountScope, l.regionScope], ∀ kind column, scope = some (kind, column) →
    lower U column ∈ columnAliases

theorem mem_of_lookup {entries : List (String × String)} {key value : String}
    (h : entries.lookup key = some value) : (key, value) ∈ entries := by
  obtain ⟨front, back, rfl, -⟩ := lookup_eq_some_iff.mp h
  simp

variable {l : Layout}

theorem layout_columns (h : ScopesAliased U l) :
    ∀ entry ∈ (l.validation U).columnMap, lower U entry.2 ∈ columnAliases := by
  rintro ⟨canonical, column⟩ hmem
  simp only [Layout.validation, mem_append, Option.mem_toList, Option.map_eq_some_iff,
    Prod.mk.injEq] at hmem
  rcases hmem with (hrequired | ⟨⟨kind, found⟩, hscope, -, hcolumn⟩) |
    ⟨⟨kind, found⟩, hscope, -, hcolumn⟩
  · obtain ⟨⟨name, aliases⟩, hfield, hfound⟩ := mem_filterMap.mp hrequired
    obtain ⟨named, hnamed, hpair⟩ := Option.map_eq_some_iff.mp hfound
    rw [Prod.mk.injEq] at hpair
    have hcolumn : column ∈ columnAliases := by
      rw [← hpair.2, columnAliases, mem_flatMap]
      exact ⟨(name, aliases), mem_append_left _ hfield, mem_of_find?_eq_some hnamed⟩
    rw [lower_alias hcolumn]
    exact hcolumn
  · exact hcolumn ▸ h l.accountScope (by simp) kind found hscope
  · exact hcolumn ▸ h l.regionScope (by simp) kind found hscope

theorem mem_excluding_scope (h : ScopesAliased U l) {key : String} (hmem : key ∈ l.table.keyNames)
    (hkey : lower U key ∉ columnAliases) :
    key ∈ partitionKeysExcludingScope U (l.validation U) := by
  unfold partitionKeysExcludingScope
  refine mem_filter.mpr ⟨hmem, ?_⟩
  rw [not_eq_true', contains_eq_mem, decide_eq_false_iff_not]
  intro hexcluded
  obtain ⟨⟨canonical, kind⟩, -, hentry⟩ := mem_filterMap.mp hexcluded
  dsimp only at hentry
  split_ifs at hentry
  obtain ⟨column, hcolumn, hlower⟩ := Option.map_eq_some_iff.mp hentry
  obtain ⟨hlookup, -⟩ := Option.filter_eq_some_iff.mp hcolumn
  have hcolumnAlias := layout_columns h (canonical, column) (mem_of_lookup hlookup)
  exact hkey (hlower ▸ hcolumnAlias)

theorem hive_no_date_key (h : ScopesAliased U l) {y mo : String}
    (hy : keyByLower U (l.validation U).partitionKeys "year" = some y)
    (hmo : keyByLower U (l.validation U).partitionKeys "month" = some mo) :
    dateKey U (l.validation U) = none := by
  rw [Option.eq_none_iff_forall_ne_some]
  intro key hkey
  have hremaining := date_key_not_hive hkey
  have hlower : ∀ {name found : String}, name ∈ hiveKeys →
      keyByLower U (l.validation U).partitionKeys name = some found → lower U key = name := by
    intro name found hname hfound
    obtain ⟨hfoundMem, hfoundLower⟩ := key_by_lower_eq hfound
    have hnot : name ∉ columnAliases := fun hmem => (column_aliases_plain name hmem).2.1 hname
    have hmem : found ∈ partitionKeysExcludingScope U (l.validation U) :=
      mem_excluding_scope h hfoundMem (hfoundLower ▸ hnot)
    rw [hremaining, mem_singleton] at hmem
    rw [← hmem, hfoundLower]
  have hyear := hlower (by decide) hy
  have hmonth := hlower (by decide) hmo
  exact absurd (hyear.symm.trans hmonth) (by decide)

theorem key_type_at {keys : List GlueColumn} {name : String} {idx : Nat}
    (h : (keys.map (·.name)).idxOf? name = some idx) :
    (keys.map (·.type)).getD idx "" = keyType keys name := by
  induction keys generalizing idx with
  | nil => simp at h
  | cons key keys ih =>
    rw [map_cons, List.idxOf?_cons] at h
    by_cases hname : key.name = name
    · simp only [hname, beq_self_eq_true, if_true, Option.some.injEq] at h
      simp [← h, keyType, hname]
    · rw [if_neg (by simpa using hname), Option.map_eq_some_iff] at h
      obtain ⟨i, hi, rfl⟩ := h
      have hrest := ih hi
      simp only [keyType, map_cons, getD_cons_succ] at hrest ⊢
      rw [hrest, List.find?_cons_of_neg (by simpa using hname)]

theorem single_key_of_remaining {key : String}
    (h : partitionKeysExcludingScope U (l.validation U) = [key])
    (htype : isDateLikePartitionType U (keyType l.table.partitionKeys key)) :
    singleDatePartitionKey U (l.validation U) = some key := by
  have hmem : key ∈ l.table.keyNames := by
    have hremaining : key ∈ partitionKeysExcludingScope U (l.validation U) := by
      rw [h]
      exact mem_singleton_self key
    exact (mem_filter.mp hremaining).1
  have htypes : (l.validation U).partitionKeyTypes = some (l.table.partitionKeys.map (·.type)) := rfl
  have hkeys : (l.validation U).partitionKeys = l.table.partitionKeys.map (·.name) := rfl
  have hlength : ¬((l.table.partitionKeys.map (·.type)).isEmpty = true ∨
      (l.table.partitionKeys.map (·.type)).length ≠
        (l.table.partitionKeys.map (·.name)).length) := by
    have hne : l.table.partitionKeys ≠ [] := by
      rintro hnil
      simp [GlueTable.keyNames, hnil] at hmem
    simp [hne]
  obtain ⟨idx, hidx⟩ := Option.isSome_iff_exists.mp (isSome_idxOf?.mpr hmem)
  have hat : (l.table.partitionKeys.map (·.type)).getD idx "" =
      keyType l.table.partitionKeys key := key_type_at hidx
  have hlookup : (l.table.partitionKeys.map (·.name)).idxOf? key = some idx := hidx
  rw [singleDatePartitionKey, singlePartitionKeyAndType, h, htypes, hkeys]
  dsimp only
  rw [if_neg hlength, hlookup, Option.bind_some, hat]
  rw [isDateLikePartitionType] at htype
  rw [if_pos htype]
  rfl

theorem resolved_of_checked {now : Clock} (h : checkDateLayout U l now = .ok ()) :
    hasResolvedPartitionStrategy U (l.validation U) = true := by
  unfold checkDateLayout at h
  dsimp only at h
  unfold hasResolvedPartitionStrategy
  have hsub : ∀ key ∈ partitionKeysExcludingScope U (l.validation U),
      key ∈ (l.validation U).partitionKeys := fun key hmem => (mem_filter.mp hmem).1
  by_cases hhive : isHiveStyle U (partitionKeysExcludingScope U (l.validation U)) = true
  · -- every Hive-style key that remains is one of all the keys
    rw [isHiveStyle, and_eq_true] at hhive
    have hholds : holdsHiveKeys U (l.validation U).partitionKeys = true := by
      simp only [holdsHiveKeys, all_eq_true, contains_eq_mem, decide_eq_true_eq, mem_map] at hhive ⊢
      intro name hname
      obtain ⟨key, hmem, hlower⟩ := hhive.1 name hname
      exact ⟨key, hsub key hmem, hlower⟩
    rw [if_pos hholds]
  · rw [if_neg hhive] at h
    split at h
    · rename_i key hremaining
      obtain ⟨_, hchecked, -⟩ := bind_eq_ok.mp h
      have htype : isDateLikePartitionType U (keyType l.table.partitionKeys key) = true := by
        by_contra hnot
        simp [checkDateKey, hnot] at hchecked
      rw [single_key_of_remaining hremaining htype]
      split_ifs <;> rfl
    · simp at h

theorem require_text_ok {value : Option String} {pattern : String → Bool} {message text : String} :
    requireText value pattern message = .ok text ↔ value = some text ∧ pattern text = true := by
  unfold requireText
  cases value with
  | none => simp
  | some found =>
    by_cases h : pattern found
    · simp only [Option.filter, h, if_true, Except.ok.injEq, Option.some.injEq]
      exact ⟨fun heq => ⟨heq, heq ▸ h⟩, fun heq => heq.1⟩
    · simp only [Option.filter, h, false_eq_true, if_false, reduceCtorEq, Option.some.injEq,
        false_iff]
      exact fun heq => h (heq.1 ▸ heq.2)

/-- The identifiers that the check passes match their patterns, and are those of the request. -/
structure IdentifiersMatch (U : Unicode) (ids : Identifiers) : Prop where
  account : accountIdPattern U ids.accountId
  region : regionPattern U ids.region
  workgroup : workgroupPattern ids.workgroup
  database : glueIdentPattern ids.database
  table : glueIdentPattern ids.table

variable {request : ValidateRequest} {ids : Identifiers}

theorem identifiers_match
    (h : validateIdentifiers U request = .ok ids) : IdentifiersMatch U ids := by
  simp only [validateIdentifiers, bind_eq_ok, require_text_ok] at h
  obtain ⟨_, ⟨-, haccount⟩, _, ⟨-, hregion⟩, _, ⟨-, hworkgroup⟩, _, ⟨-, hdatabase⟩, _,
    ⟨-, htable⟩, hids⟩ := h
  rw [← Except.ok.inj hids]
  exact ⟨haccount, hregion, hworkgroup, hdatabase, htable⟩

theorem validate_identifiers_ok (v : Validation)
    (h : IdentifiersMatch U ids) : validateIdentifiers U (storedSource ids v).request = .ok ids := by
  simp only [validateIdentifiers, bind_eq_ok, require_text_ok]
  exact ⟨_, ⟨rfl, h.account⟩, _, ⟨rfl, h.region⟩, _, ⟨rfl, h.workgroup⟩, _, ⟨rfl, h.database⟩, _,
    ⟨rfl, h.table⟩, rfl⟩

theorem validate_ok {accounts : String → Option (Option String)} {workgroup : WorkgroupConfig}
    {table : GlueTable} {now : Clock} {v : Validation}
    (h : validate U accounts workgroup table request now = .ok (ids, v)) :
    ∃ l : Layout, v = l.validation U ∧ l.table = table ∧ ScopesAliased U l ∧
      checkDateLayout U l now = .ok () ∧ IdentifiersMatch U ids := by
  unfold validate at h
  obtain ⟨identifiers, hids, h⟩ := bind_eq_ok.mp h
  obtain ⟨_, -, h⟩ := bind_eq_ok.mp h
  obtain ⟨_, -, h⟩ := bind_eq_ok.mp h
  obtain ⟨_, -, h⟩ := bind_eq_ok.mp h
  dsimp only at h
  obtain ⟨_, -, h⟩ := bind_eq_ok.mp h
  obtain ⟨_, -, h⟩ := bind_eq_ok.mp h
  obtain ⟨_, hlayout, h⟩ := bind_eq_ok.mp h
  obtain ⟨hidsEq, hv⟩ := Prod.mk.inj (Except.ok.inj h)
  refine ⟨_, hv.symm, rfl, ?_, ?_, hidsEq ▸ identifiers_match hids⟩
  · intro scope hmem kind column hscope
    rcases mem_pair.mp hmem with rfl | rfl
    · exact scope_field_alias hscope (by decide)
    · exact scope_field_alias hscope (by decide)
  · obtain ⟨_, -, hlayout⟩ := bind_eq_ok.mp hlayout
    obtain ⟨_, -, hlayout⟩ := bind_eq_ok.mp hlayout
    obtain ⟨_, -, hlayout⟩ := bind_eq_ok.mp hlayout
    exact hlayout

end Accepted

section Scannable

theorem raise_if_ok {ε : Type} {condition : Prop} [Decidable condition] {error : ε} :
    raiseIf condition error = .ok () ↔ ¬condition := by
  unfold raiseIf
  split_ifs with h <;> simp [h]

theorem map_error_ok {ε ε' α : Type} {f : ε → ε'} {x : Except ε α} {a : α} :
    x.mapError f = .ok a ↔ x = .ok a := by
  cases x <;> simp [Except.mapError]

theorem ident_of_glue {name : String} (h : glueIdentPattern name) : identPattern name := by
  unfold glueIdentPattern matchesIdentifier at h
  unfold identPattern matchesIdentifier
  split at h
  · exact absurd h false_ne_true
  · rename_i c rest hname
    simp only [and_eq_true, all_eq_true] at h ⊢
    exact ⟨⟨h.1.1, fun d hmem => by rw [h.1.2 d hmem, Bool.true_or]⟩, h.2⟩

/-- The names that a source puts into its query are fit for it: the date key is an identifier, and
no name holds a forbidden keyword. -/
structure NamesScannable (U : Unicode) (source : SourceRow) : Prop where
  ident : ∀ key ∈ dateKey U source.validation, identPattern key
  plain : ∀ name ∈ queryNames U source, holdsKeyword U name = false

theorem stored_source_buildable {l : Layout} {ids : Identifiers} (hscopes : ScopesAliased U l)
    (hids : IdentifiersMatch U ids) : QueryBuildable U (storedSource ids (l.validation U)) where
  account := hids.account
  region := hids.region
  database := ident_of_glue hids.database
  table := ident_of_glue hids.table
  columns _ _ hcolumn :=
    (column_aliases_plain _ (layout_columns hscopes _ (mem_of_lookup hcolumn))).1
  hive _ _ hy hmo := hive_no_date_key hscopes hy hmo

theorem query_gates_ok {source : SourceRow} (hsource : QueryBuildable U source) {day : Int}
    (hday : InCalendar day) (sql : List SqlPiece) :
    buildDaySelect U source day = .ok sql ∧ rejectNonSelect U (render sql) = .ok () ↔
      buildDaySelect U source day = .ok sql ∧ NamesScannable U source := by
  refine and_congr_right fun hbuild => ?_
  have hident : ∀ key ∈ dateKey U source.validation, identPattern key := by
    simp only [buildDaySelect, bind_eq_ok] at hbuild
    obtain ⟨_, -, _, -, _, -, _, -, _, -, _, -, _, hpredicate, -⟩ := hbuild
    exact partition_predicate_ident source.validation hpredicate hsource.hive
  obtain ⟨rest, hrest, hsearch⟩ := day_select_ok hsource hday hident
  rw [hbuild, Except.ok.injEq] at hrest
  subst hrest
  rw [reject_non_select_ok, hsearch, any_eq_false]
  constructor
  · exact fun h => ⟨hident, fun name hmem => eq_false_iff.mpr (h name hmem)⟩
  · exact fun h name hmem => eq_false_iff.mp (h.plain name hmem)

theorem range_gate_ok {params : List (String × String)} {v : Validation} {day : Int} {now : Clock}
    (hday : InCalendar day) : checkProjectionRange U params v day now = .ok () ↔
      (v.partitionStrategy = some .projection → RangesCover U params v day now) := by
  rw [← day_out_of_range_inside hday, checkProjectionRange]
  by_cases hprojection : v.partitionStrategy = some .projection
  · rw [if_pos hprojection]
    cases projectionDayOutOfRange U params v day now with
    | error error => simp [hprojection]
    | ok status => cases status <;> simp [hprojection]
  · rw [if_neg hprojection]
    exact ⟨fun _ h => absurd h hprojection, fun _ => rfl⟩

/-- The source is fit for the scan of the day: its names are, and its declared ranges, if it is
projected, have bounds that resolve and cover the day and the day after. -/
structure ScannableOn (U : Unicode) (params : List (String × String)) (source : SourceRow)
    (day : Int) (now : Clock) : Prop where
  names : NamesScannable U source
  ranges : source.validation.partitionStrategy = some .projection →
    RangesCover U params source.validation day now

theorem scan_gates_ok {params : List (String × String)} {l : Layout} {ids : Identifiers}
    (hids : IdentifiersMatch U ids)
    (hresolved : hasResolvedPartitionStrategy U (l.validation U) = true) {day : Int} {now : Clock}
    (sql : List SqlPiece) :
    scanGates U params (storedSource ids (l.validation U)) day now = .ok sql ↔
      (buildDaySelect U (storedSource ids (l.validation U)) day = .ok sql ∧
        rejectNonSelect U (render sql) = .ok ()) ∧
        checkProjectionRange U params (storedSource ids (l.validation U)).validation day now =
          .ok () := by
  have hstored : hasResolvedPartitionStrategy U (storedSource ids (l.validation U)).validation =
      true := hresolved
  constructor
  · intro h
    obtain ⟨_, -, h⟩ := bind_eq_ok.mp h
    obtain ⟨_, -, h⟩ := bind_eq_ok.mp h
    obtain ⟨_, -, h⟩ := bind_eq_ok.mp h
    obtain ⟨_, -, h⟩ := bind_eq_ok.mp h
    obtain ⟨built, hbuild, h⟩ := bind_eq_ok.mp h
    obtain ⟨_, hreject, h⟩ := bind_eq_ok.mp h
    obtain ⟨_, hrange, h⟩ := bind_eq_ok.mp h
    rw [← Except.ok.inj h]
    exact ⟨⟨map_error_ok.mp hbuild, hreject⟩, hrange⟩
  · rintro ⟨⟨hbuild, hreject⟩, hrange⟩
    have hidentifiers := validate_identifiers_ok (l.validation U) hids
    refine bind_eq_ok.mpr ⟨ids, map_error_ok.mpr hidentifiers, ?_⟩
    refine bind_eq_ok.mpr ⟨(), raise_if_ok.mpr (not_not.mpr rfl), ?_⟩
    refine bind_eq_ok.mpr ⟨(), raise_if_ok.mpr (by rw [hstored]; exact false_ne_true), ?_⟩
    refine bind_eq_ok.mpr ⟨(), raise_if_ok.mpr (by exact false_ne_true), ?_⟩
    refine bind_eq_ok.mpr ⟨sql, map_error_ok.mpr hbuild, ?_⟩
    exact bind_eq_ok.mpr ⟨(), hreject, bind_eq_ok.mpr ⟨(), hrange, rfl⟩⟩

/-- The scan of a past day passes the configuration gates of an accepted source exactly when the
source is fit for it. -/
theorem validated_source_scannable (U : Unicode) (accounts : String → Option (Option String))
    (workgroup : WorkgroupConfig) (table : GlueTable) (request : ValidateRequest)
    (checkedAt now : Clock) (ids : Identifiers) (v : Validation) (day : Int)
    (hvalid : validate U accounts workgroup table request checkedAt = .ok (ids, v))
    (hfirst : firstDay ≤ day) (hpast : day < now.day) :
    (∃ sql, scanGates U table.parameters (storedSource ids v) day now = .ok sql) ↔
      ScannableOn U table.parameters (storedSource ids v) day now := by
  obtain ⟨l, rfl, rfl, hscopes, hchecked, hids⟩ := validate_ok hvalid
  have hday : InCalendar day := by
    have hclock : now.day < lastDay := now.in_calendar.2
    exact ⟨hfirst, by omega⟩
  have hsource := stored_source_buildable hscopes hids
  have hgates := @scan_gates_ok U l.table.parameters l ids hids (resolved_of_checked hchecked) day
    now
  constructor
  · rintro ⟨sql, hsql⟩
    obtain ⟨hquery, hrange⟩ := (hgates sql).mp hsql
    exact ⟨((query_gates_ok hsource hday sql).mp hquery).2, (range_gate_ok hday).mp hrange⟩
  · rintro ⟨hnames, hranges⟩
    obtain ⟨rest, hbuild, -⟩ := day_select_ok hsource hday hnames.ident
    have hquery := (query_gates_ok hsource hday _).mpr ⟨hbuild, hnames⟩
    exact ⟨_, (hgates _).mpr ⟨hquery, (range_gate_ok hday).mpr hranges⟩⟩

/-- A table with one text partition key and no projection. -/
def keyedTable (key : String) : GlueTable where
  columns := ["interface-id", "srcaddr", "dstaddr", "srcport", "dstport", "protocol", "action",
    "log-status", "start", "end", "bytes"].map fun name => { name := name, type := "string" }
  partitionKeys := [{ name := key, type := "string" }]
  parameters := []

/-- A request for such a table. -/
def keyedRequest : ValidateRequest where
  accountId := some "123456789012"
  region := some "ap-northeast-2"
  workgroup := some "primary"
  database := some "flow_logs"
  table := some "vpc_flow"

/-- The identifiers of the request. -/
def keyedIdentifiers : Identifiers where
  accountId := "123456789012"
  region := "ap-northeast-2"
  workgroup := "primary"
  database := "flow_logs"
  table := "vpc_flow"

/-- The layout of such a table. -/
def keyedLayout (key : String) : Layout where
  table := keyedTable key
  identifiers := keyedIdentifiers
  strategy := .partitionKeys
  accountScope := none
  regionScope := none

/-- Midday of 1 May 2026. -/
def keyedClock : Clock where
  instant := 1777636800000000
  in_calendar := by decide

/-- A request for such a table is accepted, whatever the key is called. -/
theorem validated_source_scannable_plain_key : (∃ sql, scanGates .ascii (keyedTable "dt").parameters
      (storedSource keyedIdentifiers ((keyedLayout "dt").validation .ascii)) 20570 keyedClock =
        .ok sql) ↔
      ScannableOn .ascii (keyedTable "dt").parameters
        (storedSource keyedIdentifiers ((keyedLayout "dt").validation .ascii)) 20570 keyedClock :=
  validated_source_scannable .ascii (fun _ => some none)
    { outputLocation := some "s3://results/", bytesScannedCutoffPerQuery := some 1000000000 }
    (keyedTable "dt") keyedRequest keyedClock keyedClock keyedIdentifiers
    ((keyedLayout "dt").validation .ascii) 20570 (by decide +kernel) (by decide) (by decide)

/-- A source is accepted whose date key is called `create-date`, and the scan of a past day is
refused. -/
theorem validated_source_refused : 20570 < keyedClock.day ∧ validate .ascii (fun _ => some none)
      { outputLocation := some "s3://results/", bytesScannedCutoffPerQuery := some 1000000000 }
      (keyedTable "create-date") keyedRequest keyedClock =
        .ok (keyedIdentifiers, (keyedLayout "create-date").validation .ascii) ∧
    scanGates .ascii (keyedTable "create-date").parameters
      (storedSource keyedIdentifiers ((keyedLayout "create-date").validation .ascii)) 20570
        keyedClock = .error (.refused "query contains a forbidden (mutating) keyword") := by
  decide +kernel

end Scannable

end AwsOps.SgRules
