import AwsOps.SqlGuard.ClickHouseGuard

/-!
# Statements that ClickHouse runs

What the guard promises of the tokens of ClickHouse: one statement that opens with a read verb,
without forbidden words, identifiers that are `system`, calls of the families of table functions and
overrides of the bounding settings (`clickhouse_guard_sound`). The names are compared by their values
in the tokens, while the guard sees them as they are written.
-/

namespace AwsOps.SqlGuard.ClickHouse

open List Text Tokens AwsOps.ClickHouse

instance : Lexicon Kind where
  word := .word
  symbol := .symbol
  gap k := k == .blank || k == .line || k == .block || k == .foreign

@[simp] theorem clickhouse_word : (Lexicon.word : Kind) = .word :=
  rfl

/-! ## What must not be read -/

/-- `system`. -/
def systemName : List Char :=
  "system".toList

/-- Some identifier is `system`. -/
def HasSystem (tokens : List (Token Kind)) : Prop :=
  ∃ t ∈ tokens, identifierValue t = some systemName

/-- A name of a family of table functions. -/
def IsFamilyName (name : List Char) : Prop :=
  ∃ stem ∈ tableFunctions, stem.toList <+: name.map Char.toUpper ∧ name.all isWordChar = true

/-- `Calls before t after name`: the token is a name, and an opening bracket follows it. -/
def Calls (t : Token Kind) (after : List (Token Kind)) (name : List Char) : Prop :=
  identifierValue t = some name ∧
    ∃ gap rest, after = gap ++ ⟨.symbol, ['(']⟩ :: rest ∧ gap.all isGap = true

def HasTableFunction (tokens : List (Token Kind)) : Prop :=
  ∃ before t after name, tokens = before ++ t :: after ∧ Calls t after name ∧ IsFamilyName name

/-- `Sets before t after setting`: the token is a setting of a `SETTINGS` clause, the first word of
which stands before `middle`, and is given a value. -/
structure Sets (settings : List Char) (middle : List (Token Kind)) (t : Token Kind)
    (after : List (Token Kind)) (setting : List Char) : Prop where
  keyword : settings.map Char.toUpper = "SETTINGS".toList
  clause : ⟨.symbol, [';']⟩ ∉ middle
  value : identifierValue t = some setting
  assigned : ∃ gap rest, after = gap ++ ⟨.symbol, ['=']⟩ :: rest ∧ gap.all isGap = true

def IsBounding (setting : List Char) : Prop :=
  ∃ name ∈ boundingSettings, setting.map Char.toUpper = name.toList

/-- A bounding setting is overridden in a `SETTINGS` clause. -/
def HasOverride (tokens : List (Token Kind)) : Prop :=
  ∃ before settings middle t after setting,
    tokens = before ++ ⟨.word, settings⟩ :: (middle ++ t :: after) ∧
      Sets settings middle t after setting ∧ IsBounding setting

/-- The first token that is no gap is a read verb. -/
def OpensWithVerb (tokens : List (Token Kind)) : Prop :=
  ∃ gap verb rest, tokens = gap ++ ⟨.word, verb⟩ :: rest ∧ gap.all isGap = true ∧
    verb.map Char.toUpper ∈ readVerbs.map String.toList

structure ReadsOnly (U : Unicode) (tokens : List (Token Kind)) : Prop where
  single : ¬ HasSecondStatement tokens
  verb : OpensWithVerb tokens
  no_system : ¬ HasSystem tokens
  no_forbidden : ¬ HasForbidden U tokens
  no_table_function : ¬ HasTableFunction tokens
  no_override : ¬ HasOverride tokens

/-! ## What the guard can see -/

variable (U : Unicode)

/-- What is kept of the token ends in a word character, or is empty. -/
def endsInWord (t : Token Kind) : Bool :=
  (kept t).getLast?.all (isWord U)

/-- What is kept of the token opens with a word character, or is empty. -/
def startsInWord (t : Token Kind) : Bool :=
  (kept t).head?.all (isWord U)

/-- A name is spelled out: it is what is kept of its token, with no word character beside it, or it
stands between curly quotes. -/
def Spelled (before : List (Token Kind)) (t : Token Kind) (after : List (Token Kind))
    (name : List Char) : Prop :=
  (kept t = name ∧ before.getLast?.any (endsInWord U) = false ∧
      after.head?.any (startsInWord U) = false) ∨
    (kept t = openDouble :: name ++ [closeDouble] ∧ isWord U openDouble = false ∧
      isWord U closeDouble = false)

/-- A token that is a string or an identifier in quotes. -/
def inQuotes (t : Token Kind) : Bool :=
  t.kind == .constant || t.kind == .heredoc || t.kind == .curlyConstant || t.kind == .quoted ||
    t.kind == .curlyQuoted

def keptQuotes (t : Token Kind) : Bool :=
  t.kind == .curlyConstant || t.kind == .quoted || t.kind == .curlyQuoted

/-- The names that matter are spelled out, and so is the word that opens the statement. -/
structure Legible (tokens : List (Token Kind)) : Prop where
  opening : ∀ gap t rest, tokens = gap ++ t :: rest → gap.all isGap = true → isGap t = false →
    inQuotes t = false ∧ rest.head?.any keptQuotes = false
  system : ∀ before t after, tokens = before ++ t :: after →
    identifierValue t = some systemName → Spelled U before t after systemName
  forbidden : ∀ before phrase exact after, tokens = before ++ phrase ++ after →
    Forbidden U phrase exact → before.getLast?.any (endsInWord U) = false ∧
      (exact = true → after.head?.any (startsInWord U) = false)
  table_function : ∀ before t after name, tokens = before ++ t :: after → Calls t after name →
    IsFamilyName name → kept t = name ∧ before.getLast?.any (endsInWord U) = false
  override : ∀ before settings middle t after setting,
    tokens = before ++ ⟨.word, settings⟩ :: (middle ++ t :: after) →
      Sets settings middle t after setting → IsBounding setting →
        before.getLast?.any (endsInWord U) = false ∧
          (middle ++ [t]).head?.any (startsInWord U) = false ∧
            Spelled U (before ++ ⟨.word, settings⟩ :: middle) t after setting

variable {U}

variable {before : List (Token Kind)} {text : List Char}

theorem left_free (h : before.getLast?.any (endsInWord U) = false) :
    (lastOf none (before.flatMap kept)).any (isWord U) = false := by
  cases before using List.reverseRecOn with
  | nil => rfl
  | append_singleton front t =>
    have hend : (kept t).getLast?.all (isWord U) = false := by simpa [endsInWord] using h
    cases hlast : (kept t).getLast? with
    | none => simp [hlast] at hend
    | some c =>
      rw [flatMap_append, flatMap_singleton, lastOf, List.getLast?_append, hlast]
      simpa [hlast] using hend

variable {after : List (Token Kind)}

/-- What is kept after a token opens with no word character, if what is kept of its neighbour does
not. -/
theorem right_free (h : after.head?.any (startsInWord U) = false) :
    (after.flatMap kept).head?.any (isWord U) = false := by
  cases after with
  | nil => rfl
  | cons t rest =>
    have hstart : (kept t).head?.all (isWord U) = false := by simpa [startsInWord] using h
    cases hhead : (kept t).head? with
    | none => simp [hhead] at hstart
    | some c =>
      rw [flatMap_cons, List.head?_append, hhead]
      simpa [hhead] using hstart

theorem spelled_free {t : Token Kind} {name : List Char} (h : Spelled U before t after name) :
    ∃ left right, kept t ++ after.flatMap kept = left ++ (name ++ right) ∧ ';' ∉ left ∧
      (lastOf none (before.flatMap kept ++ left)).any (isWord U) = false ∧
      right.head?.any (isWord U) = false := by
  rcases h with ⟨hkept, hbefore, hafter⟩ | ⟨hkept, hopen, hclose⟩
  · refine ⟨[], after.flatMap kept, by rw [hkept, nil_append], not_mem_nil, ?_,
      right_free hafter⟩
    rw [append_nil]
    exact left_free hbefore
  · refine ⟨[openDouble], closeDouble :: after.flatMap kept, by rw [hkept]; simp, by decide, ?_, ?_⟩
    · rw [lastOf, List.getLast?_concat]
      simpa using hopen
    · simpa using hclose

/-! ## Shapes of tokens -/

/-- What the text of a token is made of. -/
def Shaped (t : Token Kind) : Prop :=
  match t.kind with
  | .blank => ∃ c, t.text = [c] ∧ isSpace c = true
  | .word => t.text ≠ [] ∧ ∀ c ∈ t.text, isWordCont c = true
  | .number => ∃ c more, t.text = c :: more ∧ c.isDigit = true
  | .symbol => ∃ c, t.text = [c] ∧ isAscii c = true ∧ c.isAlphanum = false
  | .foreign => ∃ c, t.text = [c]
  | _ => True

/-- The longest run of characters is read: what follows a word does not continue it. -/
def Follows (t : Token Kind) (next : Option Char) : Prop :=
  t.kind = .word → next.all (fun c => !isWordCont c) = true

/-- A token of a text has its shape, and what follows it does not continue it. -/
def ShapedIn (text after : List Char) (t : Token Kind) : Prop :=
  text = t.text ++ after → Shaped t ∧ Follows t after.head?

theorem shaped_word {c : Char} {rest after : List Char} (hc : isWordCont c = true) :
    ShapedIn (c :: rest) after ⟨.word, c :: rest.takeWhile isWordCont⟩ := by
  intro htext
  refine ⟨⟨cons_ne_nil _ _, fun e he => ?_⟩, fun _ =>
    all_not_of_take_while (List.cons.inj htext).2⟩
  rcases mem_cons.mp he with rfl | hmem
  · exact hc
  · exact mem_takeWhile_imp hmem

theorem dollar_token_shaped (rest after : List Char) :
    ShapedIn ('$' :: rest) after (dollarToken rest) := by
  unfold dollarToken
  dsimp only
  split
  · exact fun _ => ⟨trivial, nofun⟩
  · split
    · exact shaped_word rfl
    · exact fun _ => ⟨⟨'$', rfl, by decide⟩, nofun⟩

theorem blank_space {c : Char} (h : isBlank c = true) : isSpace c = true := by
  simp only [isBlank, Bool.or_eq_true, Bool.and_eq_true, decide_eq_true_eq, beq_iff_eq] at h
  rcases h with rfl | h
  · decide
  · simp [isSpace, h]

theorem first_token_shaped (c : Char) (rest after : List Char) :
    ShapedIn (c :: rest) after (firstToken c rest) := by
  have hfree : ∀ kind text, (∀ t : Token Kind, t.kind = kind → Shaped t) → kind ≠ .word →
      ShapedIn (c :: rest) after ⟨kind, text⟩ :=
    fun kind text hshape hkind _ => ⟨hshape _ rfl, fun h => absurd h hkind⟩
  have htrue : ∀ kind, kind ∈ [Kind.line, .block, .constant, .quoted, .curlyConstant, .curlyQuoted] →
      ∀ t : Token Kind, t.kind = kind → Shaped t := by
    intro kind hkind t ht
    unfold Shaped
    rw [ht]
    simp only [mem_cons, not_mem_nil, or_false] at hkind
    rcases hkind with rfl | rfl | rfl | rfl | rfl | rfl <;> trivial
  unfold firstToken
  refine iteInduction (fun hblank _ => ⟨⟨c, rfl, blank_space hblank⟩, nofun⟩) fun _ => ?_
  refine iteInduction (fun _ => hfree _ _ (htrue _ (by simp)) (by decide)) fun _ => ?_
  refine iteInduction (fun _ => hfree _ _ (htrue _ (by simp)) (by decide)) fun _ => ?_
  refine iteInduction (fun _ => hfree _ _ (htrue _ (by simp)) (by decide)) fun _ => ?_
  refine iteInduction (fun _ => hfree _ _ (htrue _ (by simp)) (by decide)) fun _ => ?_
  refine iteInduction (fun hdollar => ?_) fun _ => ?_
  · obtain rfl := eq_of_beq hdollar
    exact dollar_token_shaped rest after
  refine iteInduction (fun _ => hfree _ _ (htrue _ (by simp)) (by decide)) fun _ => ?_
  refine iteInduction (fun _ => hfree _ _ (htrue _ (by simp)) (by decide)) fun _ => ?_
  refine iteInduction (fun hword => shaped_word ?_) fun hword => ?_
  · simp only [Bool.or_eq_true] at hword
    simp only [isWordCont, isWordChar, Char.isAlphanum, Bool.or_eq_true]
    tauto
  refine iteInduction (fun hdigit _ => ⟨⟨c, _, rfl, hdigit⟩, nofun⟩) fun hdigit => ?_
  refine iteInduction (fun hsymbol _ => ⟨⟨c, rfl, ?_, ?_⟩, nofun⟩) fun _ _ => ⟨⟨c, rfl⟩, nofun⟩
  · exact (Bool.and_eq_true _ _ ▸ hsymbol).1
  · simp only [Bool.or_eq_true, not_or] at hword
    simp [Char.isAlphanum, hword.1, hdigit]

theorem shaped_of_mem {t : Token Kind} (h : tokens text = before ++ t :: after) :
    Shaped t ∧ Follows t (after.flatMap Token.text).head? := by
  have hevery : Every (fun _ t after => Shaped t ∧ Follows t after.head?) [] (tokens text) :=
    every_tokens (fun _ _ c rest after htext _ => first_token_shaped c rest after htext)
      (every_true _ _)
  rw [h] at hevery
  exact every_append hevery

theorem words_apart {first second : List Char} :
    tokens text ≠ before ++ ⟨.word, first⟩ :: ⟨.word, second⟩ :: after := by
  intro h
  have hnext : tokens text = (before ++ [⟨.word, first⟩]) ++ ⟨.word, second⟩ :: after := by
    rw [h, append_assoc, singleton_append]
  obtain ⟨hne, hcont⟩ := (shaped_of_mem hnext).1
  have hfollows := (shaped_of_mem h).2 rfl
  obtain ⟨c, more, rfl⟩ := exists_cons_of_ne_nil hne
  rw [flatMap_cons, cons_append, List.head?_cons, Option.all_some,
    hcont c mem_cons_self] at hfollows
  cases hfollows

theorem keeps_tokens (hclean : Every (Clean U) [] (tokens text)) : Keeps kept (tokens text) := by
  have hgap : ∀ t ∈ tokens text, isGap t = true → kept t ≠ [] ∧ ∀ c ∈ kept t, isSpace c = true := by
    intro t ht hgap
    obtain ⟨front, back, hsplit⟩ := append_of_mem ht
    have hshape := (shaped_of_mem hsplit).1
    rw [hsplit] at hclean
    have hc := every_append hclean
    obtain ⟨kind, text⟩ := t
    cases kind with
    | line | block => exact single_blank (c := ' ') rfl
    | blank =>
      obtain ⟨c, rfl, hblank⟩ := hshape
      exact single_blank hblank
    | foreign =>
      obtain ⟨c, rfl⟩ := hshape
      exact single_blank (by simpa using hc.2)
    | _ => cases hgap
  exact ⟨fun _ => rfl, fun _ => rfl, fun t ht hg => (hgap t ht hg).1, fun t ht hg => (hgap t ht hg).2⟩

/-! ## What is found -/

theorem danger_of_legible (hclean : Every (Clean U) [] (tokens text))
    (hlegible : Legible U (tokens text)) (h : HasForbidden U (tokens text)) :
    searchPhrase U (danger U) ((tokens text).flatMap kept) = true := by
  refine danger_of_forbidden (keeps_tokens hclean) (fun _ _ _ _ => words_apart) ?_ ?_ h
  · intro before phrase exact_ after htokens hphrase
    exact left_free (hlegible.forbidden before phrase exact_ after htokens hphrase).1
  · intro before phrase after htokens hphrase
    exact right_free ((hlegible.forbidden before phrase true after htokens hphrase).2 rfl)

theorem danger_of_system {tokens : List (Token Kind)} (hlegible : Legible U tokens)
    (h : HasSystem tokens) : searchPhrase U (danger U) (tokens.flatMap kept) = true := by
  obtain ⟨t, ht, hvalue⟩ := h
  obtain ⟨before, after, rfl⟩ := append_of_mem ht
  obtain ⟨left, right, hsplit, -, hleft, hright⟩ :=
    spelled_free (hlegible.system before t after rfl hvalue)
  rw [flatMap_append, flatMap_cons, hsplit, ← append_assoc]
  have hbears : Bears U ("SYSTEM", .exact) systemName := by
    show systemName.map Char.toUpper = "SYSTEM".toList
    decide
  have hentry : ("SYSTEM", Ending.exact) ∈ dangerWords := by decide
  exact danger_of_word hentry hbears hleft fun _ => hright

theorem families_shaped : ∀ stem ∈ tableFunctions,
    stem.toList ≠ [] ∧ stem.toList.all isStemChar = true := by
  decide

theorem word_of_word_char {c : Char} (h : isWordChar c = true) : isWord U c = true := by
  rw [isWordChar, Bool.or_eq_true] at h
  rcases h with h | h
  · simp [isWord, U.alnum_ascii c (ascii_of_alphanum h), h]
  · simp [isWord, h]

theorem call_items_here {more gap rest : List Char} (hmore : ∀ c ∈ more, isWord U c = true)
    (hgap : ∀ c ∈ gap, isSpace c = true) (before : Option Char) :
    phraseHere U (callItems U) before (more ++ (gap ++ '(' :: rest)) = true := by
  refine star_of_run hmore before ?_
  exact star_of_run hgap _ rfl

theorem table_fn_of_call {tokens : List (Token Kind)} (hkeeps : Keeps kept tokens)
    (hlegible : Legible U tokens) (h : HasTableFunction tokens) :
    searchPhrase U (tableFn U) (tokens.flatMap kept) = true := by
  obtain ⟨before, t, after, name, htokens, hcalls, hfamily⟩ := h
  obtain ⟨hkept, hbefore⟩ := hlegible.table_function before t after name htokens hcalls hfamily
  obtain ⟨-, gap, rest, hafter, hgap⟩ := hcalls
  obtain ⟨stem, hstem, ⟨more, hmore⟩, hword⟩ := hfamily
  obtain ⟨front, back, rfl, hfront, -⟩ := map_eq_append_iff.mp hmore.symm
  obtain ⟨hne, hshaped⟩ := families_shaped stem hstem
  have hback : ∀ c ∈ back, isWord U c = true := fun c hc =>
    word_of_word_char (all_eq_true.mp hword c (mem_append_right _ hc))
  have hblank : ∀ c ∈ gap.flatMap kept, isSpace c = true := by
    refine fun c hc => kept_gaps hkeeps (fun u hu => ?_) hgap hc
    rw [htokens, hafter]
    simp [hu]
  have hall : tokens.flatMap kept = before.flatMap kept ++
      (front ++ (back ++ (gap.flatMap kept ++ '(' :: rest.flatMap kept))) := by
    rw [htokens, hafter]
    simp only [flatMap_append, flatMap_cons, hkept, append_assoc]
    rfl
  rw [hall]
  refine has_phrase_append (mem_map_of_mem hstem) none _ _ ?_
  exact phrase_here_stem hne hshaped hfront (left_free hbefore) _ _ fun before _ =>
    call_items_here hback hblank before

theorem settings_shaped : ∀ name ∈ boundingSettings,
    name.toList ≠ [] ∧ name.toList.all isStemChar = true := by
  decide

theorem settings_found {left settings between name right : List Char} {setting : String}
    (hsetting : setting ∈ boundingSettings)
    (hsettings : settings.map Char.toUpper = "SETTINGS".toList)
    (hname : name.map Char.toUpper = setting.toList) (hbetween : ';' ∉ between)
    (hleft : (lastOf none left).any (isWord U) = false)
    (hnext : (between ++ (name ++ right)).head?.any (isWord U) = false)
    (hlast : (lastOf none (left ++ settings ++ between)).any (isWord U) = false)
    (hright : right.head?.any (isWord U) = false) :
    searchPhrase U settingsClause (left ++ (settings ++ (between ++ (name ++ right)))) = true := by
  obtain ⟨hne, hshaped⟩ := settings_shaped setting hsetting
  obtain ⟨-, hword⟩ := stem_text (U := U) (by decide) hsettings
  have hsettingsNe : settings ≠ [] := by
    rintro rfl
    cases hsettings
  refine has_phrase_append (mem_map_of_mem hsetting) none left _ ?_
  refine phrase_here_stem (by decide) (by decide) hsettings hleft _ _ fun before hbefore => ?_
  -- The clause goes on at a boundary, takes the text up to the name, and ends at boundaries.
  have hend : (lastOf before between).any (isWord U) = false := by
    cases between using List.reverseRecOn with
    | nil =>
      rw [append_nil, last_of_append] at hlast
      rw [last_of_word hsettingsNe hword] at hlast
      cases hlast
    | append_singleton front c =>
      rw [lastOf, ← append_assoc, List.getLast?_concat] at hlast
      rw [lastOf, List.getLast?_concat]
      exact hlast
  have hrun : ∀ c ∈ between, (c != ';') = true := by
    intro c hc
    rw [bne_iff_ne]
    rintro rfl
    exact hbetween hc
  have hhere : phraseHere U (.boundary :: letters setting ++ [.boundary]) (lastOf before between)
      (name ++ right) = true :=
    phrase_here_stem hne hshaped hname hend _ _ fun last hword => by
      simp [phraseHere, boundary, hword, hright]
  show (boundary U before (between ++ (name ++ right)).head? &&
    star (· != ';') (phraseHere U (.boundary :: letters setting ++ [.boundary])) before
      (between ++ (name ++ right))) = true
  rw [star_of_run hrun before hhere, Bool.and_true, boundary, hbefore, hnext]
  rfl

theorem visible_of_stem {stem name : List Char} (hne : stem ≠ [])
    (hstem : stem.all isStemChar = true) (hname : name.map Char.toUpper = stem) :
    ∃ c ∈ name, isSpace c = false ∧ c ≠ ';' := by
  cases name with
  | nil => exact absurd hname.symm hne
  | cons c name =>
    have hc : isStemChar c.toUpper = true := by
      refine all_eq_true.mp hstem _ ?_
      rw [← hname]
      exact mem_cons_self
    have key : isStemChar c.toUpper = true → isSpace c = false ∧ c ≠ ';' :=
      forall_ascii (fun c => isStemChar c.toUpper = true → isSpace c = false ∧ c ≠ ';')
        (by decide) c (ascii_of_upper (ascii_of_stem_char hc))
    exact ⟨c, mem_cons_self, key hc⟩

/-- An override of a bounding setting is found, or a semicolon is kept between two statements. -/
theorem settings_of_override {tokens : List (Token Kind)} (hlegible : Legible U tokens)
    (hstatements : (statements (tokens.flatMap kept)).length ≤ 1) (h : HasOverride tokens) :
    searchPhrase U settingsClause (tokens.flatMap kept) = true := by
  obtain ⟨before, settings, middle, t, after, name, htokens, hsets, setting, hsetting, hname⟩ := h
  obtain ⟨hbefore, hnext, hspelled⟩ :=
    hlegible.override before settings middle t after name htokens hsets ⟨setting, hsetting, hname⟩
  obtain ⟨left, right, hsplit, hleft, hlast, hright⟩ := spelled_free hspelled
  have hall : tokens.flatMap kept = before.flatMap kept ++
      (settings ++ (middle.flatMap kept ++ left ++ (name ++ right))) := by
    rw [htokens]
    simp only [flatMap_append, flatMap_cons, hsplit, append_assoc]
    rfl
  have hbetween : ';' ∉ middle.flatMap kept ++ left := by
    intro hmem
    obtain ⟨x, y, hxy⟩ := append_of_mem hmem
    obtain ⟨c, hc, hcVisible⟩ :=
      visible_of_stem (by decide) (by decide) hsets.keyword
    obtain ⟨hne, hshaped⟩ := settings_shaped setting hsetting
    obtain ⟨e, he, heVisible⟩ := visible_of_stem hne hshaped hname
    have htwo : 1 < (statements ((before.flatMap kept ++ (settings ++ x)) ++
        ';' :: (y ++ (name ++ right)))).length :=
      two_statements (by simp [hc]) (by simp [he]) hcVisible heVisible
    rw [hall, hxy] at hstatements
    have hsame : before.flatMap kept ++ (settings ++ (x ++ ';' :: y ++ (name ++ right))) =
        (before.flatMap kept ++ (settings ++ x)) ++ ';' :: (y ++ (name ++ right)) := by
      simp
    rw [hsame] at hstatements
    omega
  have hhead : (middle.flatMap kept ++ left ++ (name ++ right)).head?.any (isWord U) = false := by
    have hstart : (middle ++ t :: after).head?.any (startsInWord U) = false := by
      cases middle with
      | nil => exact hnext
      | cons u middle => exact hnext
    have hfree := right_free hstart
    rw [flatMap_append, flatMap_cons, hsplit, ← append_assoc] at hfree
    exact hfree
  have hkept : (before ++ ⟨.word, settings⟩ :: middle).flatMap kept ++ left =
      before.flatMap kept ++ settings ++ (middle.flatMap kept ++ left) := by
    simp only [flatMap_append, flatMap_cons, append_assoc]
    rfl
  rw [hkept] at hlast
  rw [hall]
  exact settings_found hsetting hsets.keyword hname hbetween (left_free hbefore) hhead hlast hright

/-! ## The read verb -/

/-- The upper case of a text is that of its parts, one after the other. -/
def UpperByParts (U : Unicode) : Prop :=
  ∀ left right, U.upper (left ++ right) = U.upper left ++ U.upper right

theorem alpha_of_verb (hupper : UpperByParts U) {word : List Char}
    (hverb : U.upper word ∈ readVerbs.map String.toList) {c : Char} (hc : c ∈ word)
    (hascii : isAscii c = true) : c.isAlpha = true := by
  obtain ⟨left, right, rfl⟩ := append_of_mem hc
  have hone : U.upper [c] = [c.toUpper] := by
    rw [U.upper_ascii [c] (by simpa using hascii)]
    rfl
  have hmem : c.toUpper ∈ U.upper (left ++ c :: right) := by
    rw [hupper, show c :: right = [c] ++ right from rfl, hupper, hone]
    simp
  have hletters : ∀ verb ∈ readVerbs.map String.toList, verb.all Char.isUpper = true := by decide
  have key : c.toUpper.isUpper = true → c.isAlpha = true :=
    forall_ascii (fun c => c.toUpper.isUpper = true → c.isAlpha = true) (by decide) c hascii
  exact key (all_eq_true.mp (hletters _ hverb) _ hmem)

theorem word_cont {c : Char} (h : isWordCont c = true) : isAscii c = true ∧ isSpace c = false := by
  have hascii : isAscii c = true := by
    simp only [isWordCont, isWordChar, Bool.or_eq_true, beq_iff_eq] at h
    rcases h with (h | rfl) | rfl
    · exact ascii_of_alphanum h
    · decide
    · decide
  have key : isWordCont c = true → isSpace c = false :=
    forall_ascii (fun c => isWordCont c = true → isSpace c = false) (by decide) c hascii
  exact ⟨hascii, key h⟩

/-- What opens a kept text that is accepted, after blanks, is a word that no symbol goes on. -/
theorem visible_alpha (hupper : UpperByParts U) {blanks shown rest : List Char} {c : Char}
    (hblanks : ∀ e ∈ blanks, isSpace e = true)
    (hshown : ∀ e ∈ shown, isSpace e = false) (hc : isSpace c = false) (hascii : isAscii c = true)
    (hverb : U.upper (firstWord (blanks ++ (shown ++ c :: rest))) ∈ readVerbs.map String.toList) :
    c.isAlpha = true := by
  refine alpha_of_verb hupper hverb ?_ hascii
  have hshown' : ∀ e ∈ shown ++ [c], isSpace e = false := by
    intro e he
    rcases mem_append.mp he with he | he
    · exact hshown e he
    · rw [mem_singleton.mp he]
      exact hc
  rw [show shown ++ c :: rest = (shown ++ [c]) ++ rest by simp,
    first_word_append hblanks (by simp) hshown']
  simp

theorem split_gap (tokens : List (Token Kind)) :
    tokens.all isGap = true ∨ ∃ gap t rest, tokens = gap ++ t :: rest ∧ gap.all isGap = true ∧
      isGap t = false := by
  induction tokens with
  | nil => exact .inl rfl
  | cons t tokens ih =>
    cases ht : isGap t with
    | false => exact .inr ⟨[], t, tokens, rfl, rfl, ht⟩
    | true =>
      rcases ih with hall | ⟨gap, u, rest, rfl, hgap, hu⟩
      · exact .inl (by simp [ht, hall])
      · exact .inr ⟨t :: gap, u, rest, rfl, by simp [ht, hgap], hu⟩

/-- Nothing visible is kept right after a word that opens a statement that is accepted. -/
theorem blank_after_verb (hupper : UpperByParts U) {blanks word : List Char}
    {rest : List (Token Kind)} (hclean : Every (Clean U) [] (tokens text))
    (htokens : tokens text = before ++ ⟨.word, word⟩ :: rest)
    (hnext : rest.head?.any keptQuotes = false) (hblanks : ∀ c ∈ blanks, isSpace c = true)
    (hword : ∀ c ∈ word, isSpace c = false)
    (hverb : U.upper (firstWord (blanks ++ (word ++ rest.flatMap kept))) ∈
      readVerbs.map String.toList) : (rest.flatMap kept).head?.all isSpace = true := by
  cases rest with
  | nil => rfl
  | cons u rest =>
    have hsplit : tokens text = (before ++ [⟨.word, word⟩]) ++ u :: rest := by
      rw [htokens, append_assoc, singleton_append]
    have hshape := (shaped_of_mem hsplit).1
    have hfollows := (shaped_of_mem htokens).2 rfl
    rw [hsplit] at hclean
    have hc := every_append hclean
    obtain ⟨kind, text⟩ := u
    rw [flatMap_cons] at hverb hfollows ⊢
    cases kind with
    | line | block | constant | heredoc => rfl
    | blank =>
      obtain ⟨c, rfl, hspace⟩ := hshape
      exact hspace
    | foreign =>
      obtain ⟨c, rfl⟩ := hshape
      simpa [kept] using hc.2
    | word =>
      obtain ⟨hne, hcont⟩ := hshape
      obtain ⟨c, more, rfl⟩ := exists_cons_of_ne_nil hne
      have hcWord : isWordCont c = true := hcont c mem_cons_self
      simp [hcWord] at hfollows
    | number =>
      obtain ⟨c, more, rfl, hdigit⟩ := hshape
      have hcWord : isWordCont c = true := by
        simp [isWordCont, isWordChar, Char.isAlphanum, hdigit]
      simp [hcWord] at hfollows
    | symbol =>
      obtain ⟨c, rfl, hascii, halnum⟩ := hshape
      have hspace : isSpace c = false := by simpa using hc.2
      have halpha := visible_alpha hupper hblanks hword hspace hascii hverb
      simp [Char.isAlphanum, halpha] at halnum
    | quoted | curlyConstant | curlyQuoted => cases hnext

theorem opens_with_verb (hupper : UpperByParts U) (hclean : Every (Clean U) [] (tokens text))
    (hlegible : Legible U (tokens text))
    (hverb : U.upper (firstWord ((tokens text).flatMap kept)) ∈ readVerbs.map String.toList) :
    OpensWithVerb (tokens text) := by
  have hkeeps := keeps_tokens hclean
  have hnil : U.upper [] ∉ readVerbs.map String.toList := by
    rw [U.upper_ascii [] rfl]
    decide
  rcases split_gap (tokens text) with hall | ⟨gap, t, rest, htokens, hgap, ht⟩
  · have hempty : firstWord ((tokens text).flatMap kept) = [] := by
      have hdrop : ((tokens text).flatMap kept).dropWhile isSpace = [] :=
        dropWhile_eq_nil_iff.mpr fun c hc => kept_gaps hkeeps (fun _ h => h) hall hc
      rw [first_word_eq, hdrop]
      rfl
    rw [hempty] at hverb
    exact absurd hverb hnil
  · obtain ⟨hquotes, hnext⟩ := hlegible.opening gap t rest htokens hgap ht
    have hshape := (shaped_of_mem htokens).1
    have hblanks : ∀ c ∈ gap.flatMap kept, isSpace c = true := by
      refine fun c hc => kept_gaps hkeeps (fun u hu => ?_) hgap hc
      rw [htokens]
      exact mem_append_left _ hu
    have hsplit : (tokens text).flatMap kept =
        gap.flatMap kept ++ (kept t ++ rest.flatMap kept) := by
      rw [htokens, flatMap_append, flatMap_cons]
    have hc : Clean U _ t _ := every_append (htokens ▸ hclean)
    rw [hsplit] at hverb
    obtain ⟨kind, word⟩ := t
    cases kind with
    | blank | line | block | foreign => cases ht
    | constant | heredoc | curlyConstant | quoted | curlyQuoted => cases hquotes
    | number =>
      obtain ⟨c, more, rfl, hdigit⟩ := hshape
      have hcWord : isWordCont c = true := by
        simp [isWordCont, isWordChar, Char.isAlphanum, hdigit]
      have halpha := @visible_alpha U hupper _ [] _ _ hblanks (by simp) (word_cont hcWord).2
        (word_cont hcWord).1 hverb
      have key : c.isDigit = true → c.isAlpha = false :=
        forall_ascii (fun c => c.isDigit = true → c.isAlpha = false) (by decide) c
          (word_cont hcWord).1
      rw [key hdigit] at halpha
      cases halpha
    | symbol =>
      obtain ⟨c, rfl, hascii, halnum⟩ := hshape
      have hspace : isSpace c = false := by simpa using hc.2
      have halpha := @visible_alpha U hupper _ [] _ _ hblanks (by simp) hspace hascii hverb
      simp [Char.isAlphanum, halpha] at halnum
    | word =>
      obtain ⟨hne, hcont⟩ := hshape
      have hvisible : ∀ c ∈ word, isSpace c = false := fun c hc => (word_cont (hcont c hc)).2
      have hblank := blank_after_verb hupper hclean htokens hnext hblanks hvisible hverb
      refine ⟨gap, word, rest, htokens, hgap, ?_⟩
      have hfirst : firstWord (gap.flatMap kept ++ (word ++ rest.flatMap kept)) = word :=
        first_word_of_run hblanks hne hvisible hblank
      have hword : kept ⟨.word, word⟩ = word := rfl
      rw [hword, hfirst, U.upper_ascii word
        (all_eq_true.mpr fun c hc => (word_cont (hcont c hc)).1)] at hverb
      exact hverb

/-! ## The guard -/

/-- What the guard of the connector accepts has passed the search for settings, and the checks of the
shared guard. -/
theorem checks_of_clickhouse {sql : List Char} (h : assertReadOnly U sql = .ok ()) :
    ∃ stripped, stripSql U dialect sql = .ok stripped ∧ (statements stripped).length ≤ 1 ∧
      U.upper (firstWord stripped) ∈ readVerbs.map String.toList ∧
      searchPhrase U (danger U) stripped = false ∧ searchPhrase U (tableFn U) stripped = false ∧
      searchPhrase U settingsClause stripped = false := by
  unfold assertReadOnly at h
  cases hstrip : stripSql U dialect sql with
  | error e =>
    rw [hstrip] at h
    cases h
  | ok stripped =>
    rw [hstrip] at h
    replace h : (if searchPhrase U settingsClause stripped = true then throw _
      else SqlGuard.assertReadOnly U dialect _ sql) = .ok () := h
    split at h
    · cases h
    · next hsettings =>
        obtain ⟨same, hsame, hstatements, hverb, hdanger, hextra⟩ := checks_of_assert_read_only h
        rw [hstrip] at hsame
        obtain rfl := Except.ok.inj hsame
        exact ⟨stripped, rfl, hstatements, hverb, hdanger, hextra _ rfl, by simpa using hsettings⟩

/-- The guard is sound for a text on which its scanner agrees with the lexer token by token, and in
which the names that matter are spelled out: what it accepts is one statement that only reads. -/
theorem clickhouse_guard_sound (U : Unicode) (hupper : UpperByParts U) (text : List Char)
    (hclean : Every (Clean U) [] (tokens text)) (hlegible : Legible U (tokens text))
    (haccepted : assertReadOnly U text = .ok ()) : ReadsOnly U (tokens text) := by
  obtain ⟨stripped, hstrip, hstatements, hverb, hdanger, htable, hsettings⟩ :=
    checks_of_clickhouse haccepted
  obtain rfl := strip_sql_eq_kept hclean hstrip
  have hkeeps := keeps_tokens hclean
  constructor
  · intro hsecond
    have := statements_of_second hkeeps hsecond
    omega
  · exact opens_with_verb hupper hclean hlegible hverb
  · intro hsystem
    rw [danger_of_system hlegible hsystem] at hdanger
    cases hdanger
  · intro hforbidden
    rw [danger_of_legible hclean hlegible hforbidden] at hdanger
    cases hdanger
  · intro hcall
    rw [table_fn_of_call hkeeps hlegible hcall] at htable
    cases htable
  · intro hoverride
    rw [settings_of_override hlegible hstatements hoverride] at hsettings
    cases hsettings

/-- Names that matter in constants and comments only. -/
def guardedSample : List Char :=
  "SELECT 'system', $$; DROP$$ FROM t /* url( */ # SETTINGS readonly = 0".toList

theorem clickhouse_guard_sound_sample :
    assertReadOnly .ascii guardedSample = .ok () ∧ ReadsOnly .ascii (tokens guardedSample) := by
  have hsystem : ∀ t ∈ tokens guardedSample, identifierValue t ≠ some systemName := by
    decide +kernel
  have hwords : ∀ t ∈ tokens guardedSample, t.kind = .word →
      (∀ entry ∈ dangerWords, ¬ Bears .ascii entry t.text) ∧
        t.text.map Char.toUpper ≠ "REPLACE".toList ∧
        t.text.map Char.toUpper ≠ "SETTINGS".toList := by
    decide +kernel
  have hnames : ∀ t ∈ tokens guardedSample, ∀ name ∈ identifierValue t,
      ∀ stem ∈ tableFunctions, ¬ stem.toList <+: name.map Char.toUpper := by
    decide +kernel
  have hopening : ∃ rest, tokens guardedSample = ⟨.word, "SELECT".toList⟩ :: rest ∧
      rest.head?.any keptQuotes = false :=
    ⟨(tokens guardedSample).tail, by decide +kernel, by decide +kernel⟩
  have hlegible : Legible .ascii (tokens guardedSample) := by
    refine ⟨?_, ?_, ?_, ?_, ?_⟩
    · intro gap t rest htokens hgap ht
      obtain ⟨others, hothers, hnext⟩ := hopening
      rw [hothers] at htokens
      cases gap with
      | nil =>
        obtain ⟨rfl, rfl⟩ := List.cons.inj htokens
        exact ⟨rfl, hnext⟩
      | cons u gap =>
        obtain ⟨rfl, -⟩ := List.cons.inj htokens
        cases hgap
    · intro before t after htokens hvalue
      exact absurd hvalue (hsystem t (by simp [htokens]))
    · intro before phrase exact_ after htokens hphrase
      cases hphrase with
      | word word entry hmem hbears =>
        have hword := hwords ⟨.word, word⟩ (by simp [htokens]) rfl
        exact absurd hbears (hword.1 entry hmem)
      | replace first gap second target hfirst hgap htarget hsecond =>
        have hword := hwords ⟨.word, first⟩ (by simp [htokens]) rfl
        exact absurd hfirst hword.2.1
    · intro before t after name htokens hcalls hfamily
      obtain ⟨stem, hstem, hstarts, -⟩ := hfamily
      exact absurd hstarts (hnames t (by simp [htokens]) name hcalls.1 stem hstem)
    · intro before settings middle t after setting htokens hsets hbounding
      have hword := hwords ⟨.word, settings⟩ (by simp [htokens]) rfl
      exact absurd hsets.keyword hword.2.2
  have hupper : UpperByParts .ascii := fun left right => map_append
  have haccepted : assertReadOnly .ascii guardedSample = .ok () := by decide +kernel
  exact ⟨haccepted, clickhouse_guard_sound .ascii hupper guardedSample (by decide +kernel) hlegible
    haccepted⟩

/-- The name of the database is written with an escape, which the server decodes. -/
def escapedSystem : List Char :=
  "SELECT create_table_query FROM \"\\x73ystem\".tables".toList

theorem clickhouse_guard_accepts_system :
    assertReadOnly .ascii escapedSystem = .ok () ∧ HasSystem (tokens escapedSystem) := by
  exact ⟨by decide +kernel, ⟨.quoted, "\"\\x73ystem\"".toList⟩, by decide +kernel,
    by decide +kernel⟩

end AwsOps.SqlGuard.ClickHouse
