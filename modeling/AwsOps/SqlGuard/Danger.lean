import Mathlib.Data.List.DropRight
import AwsOps.SqlGuard.Strip

/-!
# What the guard finds

The searches of the guard on a text in which a forbidden word or a second statement stands free: the
phrases of `DANGER` match between characters that belong to no word, and two texts with visible
characters on both sides of a semicolon are two statements.
-/

namespace AwsOps.SqlGuard

open List Text

variable (U : Unicode)

/-- A word is one of an alternative of `DANGER`, compared without regard to the case of ASCII. -/
def Bears (entry : String × Ending) (word : List Char) : Prop :=
  match entry.2 with
  | .exact => word.map Char.toUpper = entry.1.toList
  | .any => entry.1.toList <+: word.map Char.toUpper
  | .more => entry.1.toList <+: word.map Char.toUpper ∧
      (word.drop entry.1.toList.length).head?.any (isWord U) = true

instance (entry : String × Ending) (word : List Char) : Decidable (Bears U entry word) := by
  unfold Bears
  split <;> infer_instance

variable {U}

/-- An upper-case letter, a digit or an underscore. -/
def isStemChar (c : Char) : Bool :=
  c.isUpper || c.isDigit || c == '_'

variable {c : Char} {word text : List Char} {before : Option Char}

theorem ascii_of_stem_char (h : isStemChar c = true) : isAscii c = true := by
  rw [isStemChar, Bool.or_eq_true, Bool.or_eq_true] at h
  rcases h with (hupper | hdigit) | hunderscore
  · exact ascii_of_alphanum (alphanum_iff.mpr (.inl (.inl hupper)))
  · exact ascii_of_digit hdigit
  · rw [eq_of_beq hunderscore]
    decide

theorem stem_char (h : isStemChar c.toUpper = true) :
    foldCase c = c.toUpper ∧ isWord U c = true := by
  have hascii : isAscii c = true := ascii_of_upper (ascii_of_stem_char h)
  have key : isStemChar c.toUpper = true →
      foldCase c = c.toUpper ∧ (c.isAlphanum || c == '_') = true :=
    forall_ascii (fun c => isStemChar c.toUpper = true →
      foldCase c = c.toUpper ∧ (c.isAlphanum || c == '_') = true) (by decide) c hascii
  obtain ⟨hfold, hword⟩ := key h
  exact ⟨hfold, by rw [isWord, U.alnum_ascii c hascii]; exact hword⟩

theorem stem_text {stem : List Char} (hstem : stem.all isStemChar = true)
    (h : word.map Char.toUpper = stem) :
    word.map foldCase = stem ∧ ∀ c ∈ word, isWord U c = true := by
  have hchar : ∀ c ∈ word, foldCase c = c.toUpper ∧ isWord U c = true := by
    intro c hc
    refine stem_char (all_eq_true.mp hstem _ ?_)
    rw [← h]
    exact mem_map_of_mem hc
  refine ⟨?_, fun c hc => (hchar c hc).2⟩
  rw [← h]
  exact map_congr_left fun c hc => (hchar c hc).1

theorem stems_shaped : ∀ entry ∈ dangerWords,
    entry.1.toList ≠ [] ∧ entry.1.toList.all isStemChar = true := by
  decide

/-! ## Boundaries -/

theorem last_of_word (hne : word ≠ [])
    (hword : ∀ c ∈ word, isWord U c = true) : (lastOf before word).any (isWord U) = true := by
  induction word generalizing before with
  | nil => exact absurd rfl hne
  | cons c rest ih =>
    rw [last_of_cons]
    cases rest with
    | nil => simpa using hword c mem_cons_self
    | cons e rest => exact ih (by simp) fun f hf => hword f (mem_cons_of_mem c hf)

theorem star_word_boundary (hbefore : before.any (isWord U) = true) (text : List Char) :
    star (isWord U) (phraseHere U [.boundary]) before text = true := by
  induction text generalizing before with
  | nil => simp [Text.star, phraseHere, boundary, hbefore]
  | cons c text ih =>
    rw [Text.star]
    cases hc : isWord U c with
    | true => rw [ih (by simpa using hc), Bool.true_and, Bool.or_true]
    | false => simp [phraseHere, boundary, hbefore, hc]

theorem phrase_here_stem {stem : String} (hne : stem.toList ≠ [])
    (hstem : stem.toList.all isStemChar = true) {front : List Char}
    (hfront : front.map Char.toUpper = stem.toList) (hbefore : before.any (isWord U) = false)
    (items : List Item) (text : List Char)
    (h : ∀ before : Option Char, before.any (isWord U) = true → phraseHere U items before text = true) :
    phraseHere U (.boundary :: letters stem ++ items) before (front ++ text) = true := by
  obtain ⟨hfold, hword⟩ := stem_text (U := U) hstem hfront
  have hfrontNe : front ≠ [] := by
    rintro rfl
    exact hne hfront.symm
  obtain ⟨c, rest, rfl⟩ := exists_cons_of_ne_nil hfrontNe
  have hc : isWord U c = true := hword c mem_cons_self
  rw [cons_append, phraseHere, letters, phrase_here_letters hfold,
    h _ (last_of_word hfrontNe hword), Bool.and_true]
  simp [boundary, hbefore, hc]

theorem danger_of_word {entry : String × Ending} (hmem : entry ∈ dangerWords)
    {left right : List Char} (hbears : Bears U entry word)
    (hleft : (lastOf none left).any (isWord U) = false)
    (hright : entry.2 = .exact → right.head?.any (isWord U) = false) :
    searchPhrase U (danger U) (left ++ (word ++ right)) = true := by
  obtain ⟨hne, hstem⟩ := stems_shaped entry hmem
  refine has_phrase_append (mem_append_left _ (mem_map_of_mem hmem)) none left _ ?_
  obtain ⟨stem, ending⟩ := entry
  rw [wordPhrase, append_assoc]
  cases ending with
  | exact =>
    refine phrase_here_stem hne hstem hbears hleft _ right fun before hbefore => ?_
    simp [Ending.items, phraseHere, boundary, hbefore, hright rfl]
  | any =>
    obtain ⟨more, hmore⟩ := hbears
    obtain ⟨front, rest, rfl, hfront, -⟩ := map_eq_append_iff.mp hmore.symm
    rw [append_assoc]
    exact phrase_here_stem hne hstem hfront hleft _ _ fun before hbefore =>
      star_word_boundary hbefore _
  | more =>
    obtain ⟨⟨more, hmore⟩, hnext⟩ := hbears
    obtain ⟨front, rest, rfl, hfront, -⟩ := map_eq_append_iff.mp hmore.symm
    have hlength : stem.toList.length = front.length := by
      rw [← hfront, length_map]
    rw [hlength, drop_left] at hnext
    rw [append_assoc]
    refine phrase_here_stem hne hstem hfront hleft _ _ fun before hbefore => ?_
    cases rest with
    | nil => cases hnext
    | cons c rest =>
      have hc : isWord U c = true := hnext
      show (isWord U c && star (isWord U) (phraseHere U [.boundary]) (some c) _) = true
      have hstar : star (isWord U) (phraseHere U [.boundary]) (some c) (rest ++ right) = true :=
        star_word_boundary (by simpa using hc) _
      rw [hc, Bool.true_and]
      exact hstar

/-- `REPLACE` and one of its targets, with blanks between them, are found where they stand free. -/
theorem danger_of_replace {target : String} (hmem : target ∈ replaceTargets)
    {left first gap second right : List Char}
    (hfirst : first.map Char.toUpper = "REPLACE".toList)
    (hsecond : second.map Char.toUpper = target.toList) (hgap : gap ≠ [])
    (hblank : ∀ c ∈ gap, isSpace c = true) (hleft : (lastOf none left).any (isWord U) = false)
    (hright : right.head?.any (isWord U) = false) :
    searchPhrase U (danger U) (left ++ (first ++ (gap ++ (second ++ right)))) = true := by
  refine has_phrase_append (mem_append_right _ (mem_map_of_mem hmem)) none left _ ?_
  rw [replacePhrase, append_assoc, append_assoc]
  refine phrase_here_stem (by decide) (by decide) hfirst hleft _ _ fun before hbefore => ?_
  obtain ⟨g, gaps, rfl⟩ := exists_cons_of_ne_nil hgap
  have htarget : target.toList ≠ [] ∧ target.toList.all isStemChar = true := by
    have hall : ∀ target ∈ replaceTargets,
        target.toList ≠ [] ∧ target.toList.all isStemChar = true := by decide
    exact hall target hmem
  obtain ⟨hfold, hword⟩ := stem_text (U := U) htarget.2 hsecond
  have hsecondNe : second ≠ [] := by
    rintro rfl
    exact htarget.1 hsecond.symm
  show (isSpace g && star isSpace (phraseHere U (letters target ++ [.boundary])) (some g)
    (gaps ++ (second ++ right))) = true
  rw [hblank g mem_cons_self, Bool.true_and]
  refine star_of_run (fun c hc => hblank c (mem_cons_of_mem g hc)) _ ?_
  have hlast : (lastOf (lastOf (some g) gaps) second).any (isWord U) = true :=
    last_of_word hsecondNe hword
  rw [letters, phrase_here_letters hfold]
  simp [phraseHere, boundary, hlast, hright]

/-! ## Statements -/

theorem split_append (sep : Char) (left right : List Char) :
    split [sep] (left ++ sep :: right) = split [sep] left ++ split [sep] right := by
  induction left with
  | nil => exact split_separator sep right
  | cons c left ih =>
    by_cases hc : c = sep
    · rw [hc, cons_append, split_separator, split_separator, ih, cons_append]
    · obtain ⟨first, others, hleft, hcons⟩ := split_cons hc left
      obtain ⟨piece, pieces, hall, hconsAll⟩ := split_cons hc (left ++ sep :: right)
      rw [ih, hleft, cons_append] at hall
      obtain ⟨rfl, rfl⟩ := List.cons.inj hall
      rw [cons_append, hconsAll, hcons, cons_append]

theorem mem_split {sep : Char} (hmem : c ∈ text) (hc : c ≠ sep) :
    ∃ piece ∈ split [sep] text, c ∈ piece := by
  induction text with
  | nil => cases hmem
  | cons e text ih =>
    by_cases he : e = sep
    · rcases mem_cons.mp hmem with rfl | hmem
      · exact absurd he hc
      · obtain ⟨piece, hpiece, hin⟩ := ih hmem
        rw [he, split_separator]
        exact ⟨piece, mem_cons_of_mem _ hpiece, hin⟩
    · obtain ⟨first, others, htext, hcons⟩ := split_cons he text
      rw [hcons]
      rcases mem_cons.mp hmem with rfl | hmem
      · exact ⟨c :: first, mem_cons_self, mem_cons_self⟩
      · obtain ⟨piece, hpiece, hin⟩ := ih hmem
        rw [htext] at hpiece
        rcases mem_cons.mp hpiece with rfl | hpiece
        · exact ⟨e :: piece, mem_cons_self, mem_cons_of_mem e hin⟩
        · exact ⟨piece, mem_cons_of_mem _ hpiece, hin⟩

theorem strip_nonempty (hmem : c ∈ text)
    (hc : isSpace c = false) : (strip text).isEmpty = false := by
  have hkeep : ∀ {text : List Char}, c ∈ text → c ∈ text.dropWhile isSpace := by
    intro text hmem
    rw [← takeWhile_append_dropWhile (p := isSpace) (l := text)] at hmem
    rcases mem_append.mp hmem with htake | hdrop
    · rw [mem_takeWhile_imp htake] at hc
      cases hc
    · exact hdrop
  have hstrip : c ∈ strip text :=
    mem_reverse.mpr (hkeep (mem_reverse.mpr (hkeep hmem)))
  rw [isEmpty_eq_false_iff]
  exact ne_nil_of_mem hstrip

theorem statements_nonempty (hmem : c ∈ text) (hspace : isSpace c = false)
    (hsemicolon : c ≠ ';') : 0 < (statements text).length := by
  obtain ⟨piece, hpiece, hc⟩ := mem_split hmem hsemicolon
  refine length_pos_of_mem (mem_filter.mpr ⟨hpiece, ?_⟩)
  rw [strip_nonempty hc hspace]
  rfl

theorem two_statements {left right : List Char} {e : Char} (hleft : c ∈ left) (hright : e ∈ right)
    (hc : isSpace c = false ∧ c ≠ ';') (he : isSpace e = false ∧ e ≠ ';') :
    1 < (statements (left ++ ';' :: right)).length := by
  have hsplit : (statements (left ++ ';' :: right)).length =
      (statements left).length + (statements right).length := by
    rw [statements, split_append, filter_append, length_append]
    rfl
  have := statements_nonempty hleft hc.1 hc.2
  have := statements_nonempty hright he.1 he.2
  omega

theorem letter_visible (h : c.isAlpha = true) : isSpace c = false ∧ c ≠ ';' := by
  have key : c.isAlpha = true → isSpace c = false ∧ c ≠ ';' :=
    forall_ascii (fun c => c.isAlpha = true → isSpace c = false ∧ c ≠ ';') (by decide) c
      (ascii_of_alphanum (by simp [Char.isAlphanum, h]))
  exact key h

/-! ## The first word -/

theorem single_blank (hc : isSpace c = true) : [c] ≠ [] ∧ ∀ e ∈ [c], isSpace e = true := by
  refine ⟨cons_ne_nil _ _, ?_⟩
  intro e he
  rw [mem_singleton.mp he]
  exact hc

theorem take_while_append_blanks {front back : List Char} (hback : ∀ c ∈ back, isSpace c = true) :
    (front ++ back).takeWhile (fun c => !isSpace c) = front.takeWhile fun c => !isSpace c := by
  have hnone : back.takeWhile (fun c => !isSpace c) = [] := by
    cases back with
    | nil => rfl
    | cons c back => rw [takeWhile_cons_of_neg (by simp [hback c mem_cons_self])]
  rw [takeWhile_append, hnone, append_nil]
  split
  · next hlength => exact (( takeWhile_prefix _).eq_of_length hlength).symm
  · rfl

theorem first_word_eq (text : List Char) :
    firstWord text = (text.dropWhile isSpace).takeWhile fun c => !isSpace c := by
  have hsplit : strip text ++ (text.dropWhile isSpace).rtakeWhile isSpace =
      text.dropWhile isSpace := rdropWhile_append_rtakeWhile
  have hstart : (strip text).dropWhile isSpace = strip text := by
    cases hstrip : strip text with
    | nil => rfl
    | cons c rest =>
      rw [hstrip, cons_append] at hsplit
      have hc : ¬ isSpace c = true := by
        have hhead := List.head?_dropWhile_not isSpace text
        rw [← hsplit] at hhead
        simpa using hhead
      rw [dropWhile_cons_of_neg hc]
  rw [firstWord, hstart, ← hsplit, take_while_append_blanks fun c hc => mem_rtakeWhile_imp hc]

theorem first_word_append {blanks rest : List Char} (hblanks : ∀ c ∈ blanks, isSpace c = true)
    (hne : word ≠ []) (hword : ∀ c ∈ word, isSpace c = false) :
    firstWord (blanks ++ (word ++ rest)) = word ++ rest.takeWhile fun c => !isSpace c := by
  have hstart : (word ++ rest).dropWhile isSpace = word ++ rest := by
    obtain ⟨c, more, rfl⟩ := exists_cons_of_ne_nil hne
    rw [cons_append, dropWhile_cons_of_neg (by simp [hword c mem_cons_self])]
  rw [first_word_eq, dropWhile_append_of_pos hblanks, hstart,
    takeWhile_append_of_pos fun e he => by simp [hword e he]]

theorem first_word_of_run {blanks rest : List Char} (hblanks : ∀ c ∈ blanks, isSpace c = true)
    (hne : word ≠ []) (hword : ∀ c ∈ word, isSpace c = false)
    (hrest : rest.head?.all isSpace = true) : firstWord (blanks ++ (word ++ rest)) = word := by
  have hstop : rest.takeWhile (fun c => !isSpace c) = [] := by
    cases rest with
    | nil => rfl
    | cons e rest => rw [takeWhile_cons_of_neg (by simpa using hrest)]
  rw [first_word_append hblanks hne hword, hstop, append_nil]

/-! ## The checks -/

theorem checks_of_assert_read_only {d : Dialect} {extra : Option (List (List Item) × Option String)}
    {sql : List Char} (h : assertReadOnly U d extra sql = .ok ()) :
    ∃ stripped, stripSql U d sql = .ok stripped ∧ (statements stripped).length ≤ 1 ∧
      U.upper (firstWord stripped) ∈ readVerbs.map String.toList ∧
      searchPhrase U (danger U) stripped = false ∧
      ∀ e ∈ extra, searchPhrase U e.1 stripped = false := by
  unfold assertReadOnly at h
  cases hstrip : stripSql U d sql with
  | error e =>
    rw [hstrip] at h
    cases h
  | ok stripped =>
    rw [hstrip] at h
    refine ⟨stripped, rfl, ?_⟩
    simp only [bind, Except.bind, pure, Except.pure] at h
    split at h
    · cases h
    · split at h
      · cases h
      · split at h
        · cases h
        · next hcount hverb hdanger =>
            refine ⟨by omega, by simpa using hverb, by simpa using hdanger, ?_⟩
            intro e he
            rw [Option.mem_def.mp he] at h
            cases hfound : searchPhrase U e.1 stripped with
            | false => rfl
            | true =>
              simp only [hfound, if_true] at h
              cases h

end AwsOps.SqlGuard
