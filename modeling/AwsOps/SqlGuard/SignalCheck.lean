import AwsOps.Foundation.Fallible
import AwsOps.SqlGuard.ClickHouseGuard

/-!
# The check of generated queries

`_static_check` of the signal catalog searches the raw text of a generated query; the guard of the
connector searches what its scanner leaves of it, for more words. What passes the one passes the
other exactly under a condition on the text (`pre_check_iff`).
-/

namespace AwsOps.SqlGuard.SignalCatalog

open Text

def forbiddenSqlKeywords : List String :=
  ["insert", "update", "delete", "drop", "alter", "create", "truncate", "grant", "revoke", "attach",
    "detach", "rename", "optimize", "system", "kill", "exchange"]

/-- The families of `_TABLE_FN`, in upper case. -/
def tableFunctions : List String :=
  ["URL", "FILE", "REMOTE", "HDFS", "S3", "GCS", "ICEBERG", "HUDI", "DELTALAKE", "AZUREBLOBSTORAGE",
    "MONGODB", "MYSQL", "POSTGRESQL", "REDIS", "SQLITE", "JDBC", "ODBC", "INPUT", "CLUSTER",
    "EXECUTABLE", "NUMBERS", "GENERATERANDOM", "ZEROS"]

/-- A keyword between word boundaries, in the case in which it is written. -/
def plainWord (keyword : String) : List Item :=
  .boundary :: keyword.toList.map (fun k => .one (· == k)) ++ [.boundary]

def settingsClause : List Item :=
  .boundary :: letters "SETTINGS" ++ [.boundary]

variable (U : Unicode)

def tableFn : List (List Item) :=
  tableFunctions.map fun stem => .boundary :: letters stem ++ ClickHouse.callItems U

/-- `_static_check`, of a text. -/
def staticCheck (kind : String) (expr : List Char) : Bool :=
  if (strip expr).isEmpty then false
  else if kind == "clickhouse" then
    let lowered := U.lower expr
    if expr.contains ';' then false
    else if !"select".toList.isPrefixOf (lowered.dropWhile isSpace) then false
    else if searchPhrase U (tableFn U) lowered then false
    else if searchPhrase U [settingsClause] lowered then false
    else forbiddenSqlKeywords.all fun kw => !searchPhrase U [plainWord kw] lowered
  else true

/-- `still_relevant`, for any test whether the expression is a constant and any test whether it
mentions the schema. -/
def stillRelevant {σ : Type}
    (isConstantExpr mentionsSchemaVocabulary : String → σ → List Char → Bool)
    (kind : String) (schema : σ) (expr : List Char) : Bool :=
  staticCheck U kind expr && !isConstantExpr kind schema expr &&
    mentionsSchemaVocabulary kind schema expr

/-! ## What the connector asks for -/

/-- A text in ASCII in which nothing opens or closes a comment, a string or a quoted identifier. -/
def isPlain (expr : List Char) : Bool :=
  expr.all isAscii && untouched U [] expr [] && !contains ['*', '/'] expr

/-- The pre-check knows the word of an alternative of `DANGER`. -/
def isListed (entry : String × Ending) : Bool :=
  forbiddenSqlKeywords.any fun kw => kw.toList.map Char.toUpper == entry.1.toList

/-- The alternatives of `DANGER` that the pre-check does not know. -/
def unlisted : List (List Item) :=
  (dangerWords.filter fun entry => !isListed entry).map (wordPhrase U) ++
    replaceTargets.map replacePhrase

/-- A stripped text that opens with a read verb and holds nothing that is forbidden. -/
structure Readable (stripped : List Char) : Prop where
  verb : U.upper (firstWord stripped) ∈ readVerbs.map String.toList
  danger : searchPhrase U (danger U) stripped = false
  table_fn : searchPhrase U (ClickHouse.tableFn U) stripped = false
  settings : searchPhrase U ClickHouse.settingsClause stripped = false

/-- When the connector takes what the pre-check takes. Of a plain text `SELECT` is a word of its own
and none of the unlisted words stands in it; of any other text this is asked of what the scanner
leaves. -/
def Agrees (expr : List Char) : Prop :=
  if isPlain U expr = true then
    U.upper (firstWord expr) = "SELECT".toList ∧ searchPhrase U (unlisted U) expr = false
  else ∃ stripped, stripSql U ClickHouse.dialect expr = .ok stripped ∧ Readable U stripped

variable {U}

/-! ## Statements -/

variable {text expr : List Char} {d : Dialect}

theorem mem_of_identifier {quote : Char} : ∀ e ∈ (identifier quote text).1, e ∈ text := by
  fun_induction identifier quote text with
  | case1 => simp
  | case2 c => split <;> simp
  | case3 c d rest hescape out consumed heq ih =>
    rw [heq] at ih
    intro e he
    simp only [List.mem_cons] at he ⊢
    exact he.imp id (Or.imp id (ih e))
  | case4 c d rest hescape hquote hdouble out consumed heq ih =>
    rw [heq] at ih
    intro e he
    simp only [List.mem_cons] at he ⊢
    exact he.imp id fun h => .inr (ih e h)
  | case5 => simp
  | case6 c d rest hescape hquote out consumed heq ih =>
    rw [heq] at ih
    intro e he
    simp only [List.mem_cons] at he ⊢
    exact he.imp id fun h => List.mem_cons.mp (ih e h)

/-- The scanner keeps nothing but blanks and what is in the text. -/
theorem mem_of_piece {before rest out consumed : List Char} {c : Char}
    (h : piece U d before c rest = .ok (out, consumed)) : ∀ e ∈ out, e = ' ' ∨ e ∈ c :: rest := by
  have hblank : ∀ {more : List Char},
      (Except.ok ([' '], more) : Except String _) = .ok (out, consumed) →
        ∀ e ∈ out, e = ' ' ∨ e ∈ c :: rest := by
    intro more heq e he
    obtain ⟨rfl, -⟩ := Prod.mk.inj (Except.ok.inj heq)
    exact .inl (List.mem_singleton.mp he)
  unfold piece at h
  split at h
  · split at h
    · cases h
    · exact hblank h
  · split at h
    · exact hblank h
    · split at h
      · split at h
        · cases h
        · exact hblank h
      · split at h
        · dsimp only at h
          split at h
          · cases h
          · exact hblank h
        · split at h
          · split at h
            · cases h
            · obtain ⟨rfl, -⟩ := Prod.mk.inj (Except.ok.inj h)
              exact fun e he => .inr (List.mem_cons_of_mem c (mem_of_identifier e he))
          · obtain ⟨rfl, -⟩ := Prod.mk.inj (Except.ok.inj h)
            exact fun e he => .inr (by simp_all)

theorem mem_of_scan {skip : Nat} {before result : List Char}
    (h : scan U d skip before text = .ok result) : ∀ e ∈ result, e = ' ' ∨ e ∈ text := by
  induction text generalizing skip before result with
  | nil =>
    cases skip <;> cases h <;> simp
  | cons c rest ih =>
    cases skip with
    | succ skip => exact fun e he => (ih h e he).imp id (List.mem_cons_of_mem c)
    | zero =>
      obtain ⟨⟨out, consumed⟩, hpiece, h⟩ := bind_eq_ok.mp h
      obtain ⟨more, hmore, h⟩ := bind_eq_ok.mp h
      rw [← pure_eq_ok.mp h]
      intro e he
      obtain hout | hin := List.mem_append.mp he
      · exact mem_of_piece hpiece e hout
      · exact (ih hmore e hin).imp id (List.mem_cons_of_mem c)

theorem split_of_not_mem {sep : Char} (h : sep ∉ text) : split [sep] text = [text] := by
  induction text with
  | nil => rfl
  | cons c text ih =>
    rw [List.mem_cons, not_or] at h
    obtain ⟨first, others, htext, hcons⟩ := split_cons (Ne.symm h.1) text
    rw [ih h.2] at htext
    obtain ⟨rfl, rfl⟩ := List.cons.inj htext
    exact hcons

theorem statements_of_no_semicolon {stripped : List Char} (h : ';' ∉ expr)
    (hstrip : stripSql U ClickHouse.dialect expr = .ok stripped) :
    (statements stripped).length ≤ 1 := by
  have hnot : ';' ∉ stripped := by
    intro hmem
    obtain heq | hin := mem_of_scan (scan_of_strip_sql hstrip) _ hmem
    · exact absurd heq (by decide)
    · exact h hin
  unfold statements
  rw [split_of_not_mem hnot]
  exact List.length_filter_le _ _

/-- The guard of the connector takes a text without a semicolon exactly when what its scanner leaves
is readable. -/
theorem assert_read_only_iff (h : ';' ∉ expr) : ClickHouse.assertReadOnly U expr = .ok () ↔
      ∃ stripped, stripSql U ClickHouse.dialect expr = .ok stripped ∧ Readable U stripped := by
  unfold ClickHouse.assertReadOnly
  constructor
  · intro hok
    obtain ⟨stripped, hstrip, hok⟩ := bind_eq_ok.mp hok
    cases hsettings : searchPhrase U ClickHouse.settingsClause stripped with
    | true =>
      rw [hsettings] at hok
      cases hok
    | false =>
      rw [hsettings] at hok
      have hrest : SqlGuard.assertReadOnly U ClickHouse.dialect (some (ClickHouse.tableFn U, _))
          expr = .ok () := hok
      obtain ⟨stripped', hstrip', -, hverb, hdanger, hextra⟩ := checks_of_assert_read_only hrest
      cases hstrip.symm.trans hstrip'
      exact ⟨stripped, hstrip, hverb, hdanger, hextra (ClickHouse.tableFn U, _) rfl, hsettings⟩
  · rintro ⟨stripped, hstrip, hverb, hdanger, htable, hsettings⟩
    have hcount : ¬(statements stripped).length > 1 :=
      Nat.not_lt.mpr (statements_of_no_semicolon h hstrip)
    have hknown : (readVerbs.map String.toList).contains (U.upper (firstWord stripped)) = true := by
      simpa using hverb
    refine bind_eq_ok.mpr ⟨stripped, hstrip, ?_⟩
    rw [hsettings]
    refine bind_eq_ok.mpr ⟨stripped, hstrip, ?_⟩
    simp only [if_neg hcount, hknown, hdanger, htable, Bool.not_true, Bool.false_eq_true, if_false]
    rfl

/-! ## Plain texts -/

theorem scan_untouched {before : List Char}
    (h : untouched U before text [] = true) : scan U d 0 before text = .ok text := by
  induction text generalizing before with
  | nil => rfl
  | cons c text ih =>
    obtain ⟨hpiece, hrest⟩ := piece_untouched h
    rw [List.append_nil] at hpiece
    refine bind_eq_ok.mpr ⟨([c], [c]), hpiece, ?_⟩
    exact bind_eq_ok.mpr ⟨text, ih hrest, rfl⟩

theorem no_comment_of_untouched {before : List Char} (h : untouched U before text [] = true) :
    contains ['/', '*'] text = false := by
  induction text generalizing before with
  | nil => decide
  | cons c text ih =>
    have hopen : ¬(c = '/' ∧ text.head? = some '*') := by
      simp only [untouched, List.append_nil, Bool.and_eq_true, Bool.not_eq_true',
        Bool.and_eq_false_iff, beq_eq_false_iff_ne] at h
      exact fun hopen => h.1.1.2.elim (absurd hopen.1) (absurd hopen.2)
    have hrest : ¬['/', '*'] <:+: text := by
      simpa [contains] using ih (piece_untouched (d := ClickHouse.dialect) h).2
    unfold contains
    rw [decide_eq_false_iff_not, List.infix_cons_iff]
    rintro (⟨more, heq⟩ | hin)
    · obtain ⟨rfl, rfl⟩ := List.cons.inj heq
      exact hopen ⟨rfl, rfl⟩
    · exact hrest hin

theorem strip_sql_plain (h : isPlain U expr = true) :
    stripSql U ClickHouse.dialect expr = .ok expr := by
  simp only [isPlain, Bool.and_eq_true, Bool.not_eq_true'] at h
  obtain ⟨⟨-, huntouched⟩, hclose⟩ := h
  unfold stripSql
  rw [scan_untouched huntouched, ok_bind, no_comment_of_untouched huntouched, hclose]
  rfl

/-- An ASCII character and its lower case. -/
def Lowers (c d : Char) : Prop :=
  isAscii c = true ∧ d = c.toLower

theorem lowers_map (h : expr.all isAscii = true) :
    List.Forall₂ Lowers expr (expr.map Char.toLower) := by
  rw [List.forall₂_map_right_iff, List.forall₂_same]
  exact fun c hc => ⟨List.all_eq_true.mp h c hc, rfl⟩

theorem of_lowers {p : Char → Char → Prop}
    (h : ∀ n : Fin 128, p (Char.ofNat n) (Char.ofNat n).toLower) {c d : Char}
    (hcd : Lowers c d) : p c d := by
  obtain ⟨hascii, rfl⟩ := hcd
  exact forall_ascii (fun c => p c c.toLower) h c hascii

theorem lower_ascii {c d : Char} (h : Lowers c d) : isAscii d = true :=
  of_lowers (p := fun _ d => isAscii d = true) (by decide) h

theorem lower_word {c d : Char} (h : Lowers c d) : isWord U c = isWord U d := by
  have hsame : c.isAlphanum = d.isAlphanum ∧ (c == '_') = (d == '_') :=
    of_lowers (p := fun c d => c.isAlphanum = d.isAlphanum ∧ (c == '_') = (d == '_')) (by decide) h
  rw [isWord, isWord, U.alnum_ascii c h.1, U.alnum_ascii d (lower_ascii h), hsame.1, hsame.2]

theorem lower_fold {c d : Char} (h : Lowers c d) : foldCase c = foldCase d :=
  of_lowers (p := fun c d => foldCase c = foldCase d) (by decide) h

theorem lower_space {c d : Char} (h : Lowers c d) : isSpace c = isSpace d :=
  of_lowers (p := fun c d => isSpace c = isSpace d) (by decide) h

theorem lower_char (p : Char → Bool)
    (h : ∀ n : Fin 128, p (Char.ofNat n) = p (Char.ofNat n).toLower) {c d : Char}
    (hcd : Lowers c d) : p c = p d :=
  of_lowers (p := fun c d => p c = p d) h hcd

theorem alike_letters (keyword : String) :
    List.Forall₂ (Alike Lowers) (letters keyword) (letters keyword) :=
  List.forall₂_same.mpr fun item hitem => by
    obtain ⟨k, -, rfl⟩ := List.mem_map.mp hitem
    exact .letter fun c d => lower_fold

theorem fold_eq_upper {c d k : Char} (hcd : Lowers c d) (hk : isAscii k = true)
    (hlower : k.toLower = k) : (foldCase c == k.toUpper) = (d == k) := by
  have hfold : foldCase c = c.toUpper :=
    of_lowers (p := fun c _ => foldCase c = c.toUpper) (by decide) hcd
  have hback : c.toUpper.toLower = d ∧ d.toUpper = c.toUpper :=
    of_lowers (p := fun c d => c.toUpper.toLower = d ∧ d.toUpper = c.toUpper) (by decide) hcd
  have hkback : k.toUpper.toLower = k.toLower :=
    forall_ascii (fun k => k.toUpper.toLower = k.toLower) (by decide) k hk
  rw [Bool.eq_iff_iff, beq_iff_eq, beq_iff_eq, hfold]
  constructor
  · intro h
    rw [← hback.1, h, hkback, hlower]
  · rintro rfl
    exact hback.2.symm

theorem keywords_lower : ∀ kw ∈ forbiddenSqlKeywords, ∀ k ∈ kw.toList,
    isAscii k = true ∧ k.toLower = k := by
  have hall : (forbiddenSqlKeywords.all fun kw =>
      kw.toList.all fun k => isAscii k && k.toLower == k) = true := by decide
  simpa using hall

theorem alike_word {kw w : String} (hkw : kw ∈ forbiddenSqlKeywords)
    (hw : kw.toList.map Char.toUpper = w.toList) :
    List.Forall₂ (Alike Lowers) (wordPhrase U (w, .exact)) (plainWord kw) := by
  have hletters : List.Forall₂ (Alike Lowers) (letters w)
      (kw.toList.map fun k => .one (· == k)) := by
    rw [letters, ← hw, List.map_map, List.forall₂_map_left_iff, List.forall₂_map_right_iff,
      List.forall₂_same]
    intro k hk
    obtain ⟨hascii, hlower⟩ := keywords_lower kw hkw k hk
    exact .exact fun c d hcd => fold_eq_upper hcd hascii hlower
  unfold wordPhrase plainWord Ending.items
  rw [List.append_nil]
  exact .cons .boundary (List.rel_append hletters (.cons .boundary .nil))

theorem listed_exact : ∀ entry ∈ dangerWords, isListed entry = true → entry.2 = .exact := by
  decide

section Plain

variable (hascii : expr.all isAscii = true)

include hascii

/-- On an ASCII text the guard finds no table function where the pre-check finds none. -/
theorem no_table_fn (h : searchPhrase U (tableFn U) (U.lower expr) = false) :
    searchPhrase U (ClickHouse.tableFn U) expr = false := by
  rw [U.lower_ascii expr hascii] at h
  have hcall : List.Forall₂ (Alike Lowers) (ClickHouse.callItems U) (ClickHouse.callItems U) :=
    .cons (.many fun _ _ => lower_word) (.cons (.many fun _ _ => lower_space)
      (.cons (.one fun _ _ => lower_char (· == '(') (by decide)) .nil))
  have halike : List.Forall₂ (List.Forall₂ (Alike Lowers)) (ClickHouse.tableFn U)
      (ClickHouse.tableFn U) := by
    refine List.forall₂_same.mpr fun phrase hphrase => ?_
    obtain ⟨stem, -, rfl⟩ := List.mem_map.mp hphrase
    exact .cons .boundary (List.rel_append (alike_letters stem) hcall)
  rw [search_phrase_alike halike (fun _ _ => lower_word) (lowers_map hascii)]
  rw [search_phrase_none] at h ⊢
  intro phrase hphrase
  obtain ⟨stem, hstem, rfl⟩ := List.mem_map.mp hphrase
  have hsub : ClickHouse.tableFunctions ⊆ tableFunctions := by decide
  exact h _ (List.mem_map_of_mem (hsub hstem))

/-- Nor does it find a setting where the pre-check finds no clause. -/
theorem no_settings (h : searchPhrase U [settingsClause] (U.lower expr) = false) :
    searchPhrase U ClickHouse.settingsClause expr = false := by
  rw [U.lower_ascii expr hascii] at h
  have halike : List.Forall₂ (List.Forall₂ (Alike Lowers)) [settingsClause] [settingsClause] :=
    .cons (.cons .boundary (List.rel_append (alike_letters _) (.cons .boundary .nil))) .nil
  rw [← search_phrase_alike halike (fun _ _ => lower_word) (lowers_map hascii)] at h
  rw [search_phrase_none]
  intro phrase hphrase
  obtain ⟨setting, -, rfl⟩ := List.mem_map.mp hphrase
  have hopens : .boundary :: letters "SETTINGS" ++ ClickHouse.settingItems setting =
      settingsClause ++ (.many (· != ';') :: .boundary :: letters setting ++ [.boundary]) := by
    simp [settingsClause, ClickHouse.settingItems]
  rw [hopens, ← Bool.not_eq_true]
  exact fun hfound => Bool.false_ne_true (h.symm.trans (search_phrase_beginning hfound))

theorem danger_iff_unlisted (h : ∀ kw ∈ forbiddenSqlKeywords,
      searchPhrase U [plainWord kw] (U.lower expr) = false) :
    searchPhrase U (danger U) expr = false ↔ searchPhrase U (unlisted U) expr = false := by
  rw [U.lower_ascii expr hascii] at h
  rw [search_phrase_none, search_phrase_none]
  constructor
  · intro hdanger phrase hphrase
    refine hdanger phrase ?_
    obtain hword | hreplace := List.mem_append.mp hphrase
    · obtain ⟨entry, hentry, rfl⟩ := List.mem_map.mp hword
      exact List.mem_append_left _ (List.mem_map_of_mem (List.mem_of_mem_filter hentry))
    · exact List.mem_append_right _ hreplace
  · intro hunlisted phrase hphrase
    obtain hword | hreplace := List.mem_append.mp hphrase
    · obtain ⟨entry, hentry, rfl⟩ := List.mem_map.mp hword
      cases hlisted : isListed entry with
      | false =>
        have hin : entry ∈ dangerWords.filter fun entry => !isListed entry :=
          List.mem_filter.mpr ⟨hentry, by rw [hlisted]; rfl⟩
        exact hunlisted _ (List.mem_append_left _ (List.mem_map_of_mem hin))
      | true =>
        -- the pre-check has searched the lower-case text for this word
        obtain ⟨kw, hkw, hupper⟩ := List.any_eq_true.mp hlisted
        have hexact := listed_exact entry hentry hlisted
        obtain ⟨w, ending⟩ := entry
        cases hexact
        rw [← h kw hkw]
        exact search_phrase_alike (.cons (alike_word hkw (eq_of_beq hupper)) .nil)
          (fun _ _ => lower_word) (lowers_map hascii)
    · exact hunlisted _ (List.mem_append_right _ hreplace)

theorem verb_iff (h : "select".toList.isPrefixOf ((U.lower expr).dropWhile isSpace) = true) :
    U.upper (firstWord expr) ∈ readVerbs.map String.toList ↔
      U.upper (firstWord expr) = "SELECT".toList := by
  constructor
  · intro hverb
    have hdrop : (expr.map Char.toLower).dropWhile isSpace =
        (expr.dropWhile isSpace).map Char.toLower := by
      generalize expr = text at hascii
      induction text with
      | nil => rfl
      | cons c text ih =>
        rw [List.all_cons, Bool.and_eq_true] at hascii
        have hc : isSpace c = isSpace c.toLower := lower_space ⟨hascii.1, rfl⟩
        rw [List.map_cons, List.dropWhile_cons, List.dropWhile_cons, ← hc]
        split
        · exact ih hascii.2
        · rfl
    rw [U.lower_ascii expr hascii, hdrop, List.isPrefixOf_iff_prefix] at h
    obtain ⟨more, hmore⟩ := h
    obtain ⟨six, rest, hsplit, hsix, -⟩ := List.map_eq_append_iff.mp hmore.symm
    have hall : ∀ c ∈ expr.dropWhile isSpace, isAscii c = true := fun c hc =>
      List.all_eq_true.mp hascii c ((List.dropWhile_suffix isSpace).subset hc)
    have hvisible : ∀ c ∈ six, isSpace c = false := by
      intro c hc
      have hin : c.toLower ∈ "select".toList := by
        rw [← hsix]
        exact List.mem_map_of_mem hc
      have hnone : ("select".toList.all fun k => !isSpace k) = true := by decide
      rw [lower_space ⟨hall c (by rw [hsplit]; exact List.mem_append_left _ hc), rfl⟩]
      simpa using List.all_eq_true.mp hnone _ hin
    have hfirst : firstWord expr = six ++ rest.takeWhile fun c => !isSpace c := by
      rw [first_word_eq, hsplit, List.takeWhile_append_of_pos fun c hc => by simp [hvisible c hc]]
    have hword : (firstWord expr).all isAscii = true := by
      rw [List.all_eq_true, first_word_eq]
      exact fun c hc => hall c ((List.takeWhile_prefix _).subset hc)
    have hupper : six.map Char.toUpper = "SELECT".toList := by
      have hsame : six.map Char.toUpper = (six.map Char.toLower).map Char.toUpper := by
        rw [List.map_map]
        refine List.map_congr_left fun c hc => ?_
        have hc' : isAscii c = true := hall c (by rw [hsplit]; exact List.mem_append_left _ hc)
        exact of_lowers (p := fun c d => c.toUpper = d.toUpper) (by decide) ⟨hc', rfl⟩
      rw [hsame, hsix]
      decide
    have hopens : "SELECT".toList <+: U.upper (firstWord expr) := by
      rw [U.upper_ascii _ hword, hfirst, List.map_append, hupper]
      exact List.prefix_append _ _
    have honly : ∀ verb ∈ readVerbs.map String.toList, "SELECT".toList <+: verb →
        verb = "SELECT".toList := by decide
    exact honly _ hverb hopens
  · intro heq
    rw [heq]
    decide

end Plain

/-! ## The pre-check and the connector -/

theorem of_static_check (h : staticCheck U "clickhouse" expr = true) :
    ';' ∉ expr ∧ "select".toList.isPrefixOf ((U.lower expr).dropWhile isSpace) = true ∧
      searchPhrase U (tableFn U) (U.lower expr) = false ∧
      searchPhrase U [settingsClause] (U.lower expr) = false ∧
      ∀ kw ∈ forbiddenSqlKeywords, searchPhrase U [plainWord kw] (U.lower expr) = false := by
  unfold staticCheck at h
  split at h
  · cases h
  · rw [if_pos (by rfl)] at h
    dsimp only at h
    split_ifs at h with hsemicolon hselect htable hsettings
    refine ⟨by simpa using hsemicolon, by simpa using hselect, by simpa using htable,
      by simpa using hsettings, ?_⟩
    simpa using h

/-- The connector takes a text that the pre-check takes exactly then. -/
theorem accepts_iff (h : staticCheck U "clickhouse" expr = true) :
    ClickHouse.assertReadOnly U expr = .ok () ↔ Agrees U expr := by
  obtain ⟨hsemicolon, hselect, htable, hsettings, hkeywords⟩ := of_static_check h
  rw [assert_read_only_iff hsemicolon]
  unfold Agrees
  by_cases hplain : isPlain U expr = true
  · rw [if_pos hplain]
    have hascii : expr.all isAscii = true := by
      simp only [isPlain, Bool.and_eq_true] at hplain
      exact hplain.1.1
    constructor
    · rintro ⟨stripped, hstrip, hreadable⟩
      cases (strip_sql_plain hplain).symm.trans hstrip
      exact ⟨(verb_iff hascii hselect).mp hreadable.verb,
        (danger_iff_unlisted hascii hkeywords).mp hreadable.danger⟩
    · rintro ⟨hverb, hunlisted⟩
      exact ⟨expr, strip_sql_plain hplain,
        { verb := (verb_iff hascii hselect).mpr hverb
          danger := (danger_iff_unlisted hascii hkeywords).mpr hunlisted
          table_fn := no_table_fn hascii htable
          settings := no_settings hascii hsettings }⟩
  · rw [if_neg hplain]

end AwsOps.SqlGuard.SignalCatalog
