import AwsOps.Incident.Anonymize
import AwsOps.Redaction.Escapes

/-!
# What a reversal restores

A text that the passes cut up without touching a token of an earlier pass is a list of cells:
characters that were left and stretches that a token stands for. When every token stands free and no
other word looks like one, the scan for tokens finds the cells again, so that the reversal gives the
text back (`reversible_and_complete_iff`).
-/

namespace AwsOps.Incident.Anonymize

open List Backtracking Substitute Redaction
open Text (lastOf)

/-! ## The claim -/

/-- The identifiers that the patterns match in a text. -/
def identifiers (E : Classes) (text : List Char) : List (List Char) :=
  (patterns E).flatMap fun pat => (piecesOf pat text).filterMap fun
    | .cut orig => some orig
    | .keep _ => none

/-- The reversal gives the text back. -/
def Reversible (E : Classes) (text : List Char) : Prop :=
  deanonymize E (anonymize E text).1 (mapping (anonymize E text).2) = text

/-- No identifier of the text occurs outside the tokens of the masked text. -/
def Complete (E : Classes) (text : List Char) : Prop :=
  ∀ orig ∈ identifiers E text,
    ¬ orig.map .keep <:+: tokenPieces E (mapping (anonymize E text).2) (anonymize E text).1

/-! ## Cells -/

/-- A character that was left, or a stretch that a token stands for. -/
inductive Cell
  | char (c : Char)
  | entity (orig : List Char)
  deriving DecidableEq

def Cell.source : Cell → List Char
  | .char c => [c]
  | .entity orig => orig

def Cell.masked (seen : Seen) : Cell → List Char
  | .char c => [c]
  | .entity orig => tokenOf seen orig

/-- The text that the cells are made from. -/
def original (cells : List Cell) : List Char :=
  cells.flatMap Cell.source

def masked (seen : Seen) (cells : List Cell) : List Char :=
  cells.flatMap (Cell.masked seen)

/-- The pieces that a pattern makes of the masked cells touch no token; `next` are the cells behind
the pass. -/
inductive Covers (seen : Seen) : List Piece → List Cell → List Cell → Prop
  | nil : Covers seen [] [] []
  | keep {c pieces cells next} : Covers seen pieces cells next →
      Covers seen (.keep c :: pieces) (.char c :: cells) (.char c :: next)
  | entity {orig pieces cells next} : Covers seen pieces cells next →
      Covers seen ((tokenOf seen orig).map .keep ++ pieces) (.entity orig :: cells)
        (.entity orig :: next)
  | cut {orig pieces cells next} : Covers seen pieces cells next →
      Covers seen (.cut orig :: pieces) (orig.map .char ++ cells) (.entity orig :: next)

/-- The patterns, one after the other, touch no token; `cells'` are the cells behind the last. -/
def Layered : List Regex → Seen → List Cell → Seen → List Cell → Prop
  | [], seen, cells, seen', cells' => seen' = seen ∧ cells' = cells
  | pat :: more, seen, cells, seen', cells' =>
    ∃ next, Covers seen (piecesOf pat (masked seen cells)) cells next ∧
      Layered more (replace seen (piecesOf pat (masked seen cells))).2 next seen' cells'

/-- The word at the start of the cells, as far as it was left. -/
def plainWord (E : Classes) : List Cell → List Char
  | .char c :: cells => if E.word c then c :: plainWord E cells else []
  | _ => []

/-- The cells begin with a word character or with a token. -/
def beginsWord (E : Classes) : List Cell → Bool
  | .char c :: _ => E.word c
  | .entity _ :: _ => true
  | [] => false

/-- No token has a word character or another token beside it, and no word that was left is a
token. `inWord` tells whether a word character stands before the cells. -/
def Free (E : Classes) (tokens : List (List Char)) : Bool → List Cell → Prop
  | _, [] => True
  | inWord, .char c :: cells =>
    (inWord = false → plainWord E (.char c :: cells) ∉ tokens) ∧ Free E tokens (E.word c) cells
  | inWord, .entity _ :: cells =>
    inWord = false ∧ beginsWord E cells = false ∧ Free E tokens true cells

/-- The passes cut the text up into cells, and the tokens can be told from the rest. -/
structure Legible (E : Classes) (text : List Char) (seen : Seen) (cells : List Cell) : Prop where
  layered : Layered (patterns E) [] (text.map .char) seen cells
  free : Free E (sortedTokens (mapping seen)) false cells

/-! ## Tokens -/

section Tokens

variable {E : Classes} {seen seen' : Seen} {orig : List Char}

theorem token_injective {m n : Nat} (h : token m = token n) : m = n := by
  have hdigits : Nat.toDigits 10 m = Nat.toDigits 10 n := append_cancel_left h
  rw [← Nat.ofDigitChars_ten_toDigits (n := m), hdigits, Nat.ofDigitChars_ten_toDigits]

theorem token_word (n : Nat) : token n ≠ [] ∧ ∀ c ∈ token n, E.word c = true := by
  refine ⟨cons_ne_nil _ _, fun c hc => ?_⟩
  rcases mem_append.mp hc with hc | hc
  · have hplain : ("ENT_".toList.all fun c => Text.isAscii c && (c.isAlphanum || c == '_')) = true := by
      decide
    obtain ⟨hascii, hword⟩ := Bool.and_eq_true _ _ ▸ all_eq_true.mp hplain c hc
    rw [E.word_ascii c hascii, hword]
  · have hdigit := Nat.isDigit_of_mem_toDigits (by decide) (by decide) hc
    exact E.word_of_digit c (by rw [E.digit_ascii c (Text.ascii_of_digit hdigit)]; exact hdigit)

theorem token_of_grown (hmem : orig ∈ seen) (hseen : seen <+: seen') :
    tokenOf seen' orig = tokenOf seen orig := by
  obtain ⟨more, rfl⟩ := hseen
  rw [tokenOf, idxOf_append_of_mem hmem, tokenOf]

theorem mem_register (seen : Seen) (orig : List Char) :
    seen <+: register seen orig ∧ orig ∈ register seen orig := by
  unfold register
  split
  · exact ⟨prefix_refl _, ‹_›⟩
  · exact ⟨prefix_append _ _, by simp⟩

theorem lookup_mapping (hmem : orig ∈ seen) :
    (mapping seen).lookup (tokenOf seen orig) = some orig := by
  suffices ∀ n, ((seen.zipIdx n).map fun p => (token (p.2 + 1), p.1)).lookup
      (token (n + seen.idxOf orig + 1)) = some orig by
    simpa [mapping, tokenOf] using this 0
  induction seen with
  | nil => cases hmem
  | cons first seen ih =>
    intro n
    rw [zipIdx_cons, map_cons]
    by_cases hfirst : first = orig
    · subst hfirst
      simp
    · have hmore := ih ((mem_cons.mp hmem).resolve_left (Ne.symm hfirst)) (n + 1)
      have hne : token (n + (seen.idxOf orig + 1) + 1) ≠ token (n + 1) :=
        fun h => by have := token_injective h; omega
      rw [idxOf_cons_ne _ hfirst, lookup_cons, beq_eq_false_iff_ne.mpr hne]
      rw [show n + (seen.idxOf orig + 1) + 1 = n + 1 + seen.idxOf orig + 1 by omega]
      exact hmore

theorem mem_tokens (hmem : orig ∈ seen) : tokenOf seen orig ∈ sortedTokens (mapping seen) := by
  have hentry : (tokenOf seen orig, orig) ∈ mapping seen := by
    refine mem_map.mpr ⟨(orig, seen.idxOf orig), ?_, rfl⟩
    exact mk_mem_zipIdx_iff_getElem?.mpr (List.getElem?_idxOf hmem)
  exact (mem_insertionSort _).mpr (mem_map_of_mem hentry)

theorem tokens_word : ∀ t ∈ sortedTokens (mapping seen), t ≠ [] ∧ ∀ c ∈ t, E.word c = true := by
  intro t ht
  obtain ⟨entry, hentry, rfl⟩ := mem_map.mp ((mem_insertionSort _).mp ht)
  obtain ⟨⟨orig, i⟩, -, rfl⟩ := mem_map.mp hentry
  exact token_word (i + 1)

theorem fits_iff {t text : List Char} (hne : t ≠ []) (hword : ∀ c ∈ t, E.word c = true) :
    fits E text t = true ↔ text.takeWhile E.word = t := by
  have hlast : t.getLast?.any E.word = true := by
    rw [List.getLast?_eq_getLast_of_ne_nil hne]
    exact hword _ (getLast_mem hne)
  rw [fits, Bool.and_eq_true, isPrefixOf_iff_prefix, Classes.boundary, hlast]
  constructor
  · rintro ⟨⟨rest, rfl⟩, hbound⟩
    rw [drop_left] at hbound
    rw [takeWhile_append_of_pos hword]
    cases rest with
    | nil => simp
    | cons c rest => simp_all
  · intro h
    refine ⟨h ▸ takeWhile_prefix _, ?_⟩
    have hdrop : text.drop t.length = text.dropWhile E.word := by
      conv_lhs => rw [← takeWhile_append_dropWhile (p := E.word) (l := text), h, drop_left]
    rw [hdrop]
    cases hrest : text.dropWhile E.word with
    | nil => rfl
    | cons c rest =>
      have hc := List.head?_dropWhile_not E.word text
      rw [hrest] at hc
      simpa using hc

theorem token_length_eq {tokens : List (List Char)}
    (hwords : ∀ t ∈ tokens, t ≠ [] ∧ ∀ c ∈ t, E.word c = true) (before : Option Char)
    (text : List Char) : tokenLength E tokens before text =
      if before.any E.word = false ∧ text.takeWhile E.word ∈ tokens then
        some (text.takeWhile E.word).length else none := by
  unfold tokenLength
  by_cases hmem : text.takeWhile E.word ∈ tokens
  · have hhead : text.head?.any E.word = true := by
      cases text with
      | nil => exact absurd rfl (hwords _ hmem).1
      | cons c text =>
        by_contra hc
        rw [takeWhile_cons_of_neg (by simpa using hc)] at hmem
        exact (hwords _ hmem).1 rfl
    have hfind : tokens.find? (fits E text) = some (text.takeWhile E.word) := by
      obtain ⟨t, ht⟩ := Option.isSome_iff_exists.mp (List.find?_isSome.mpr ⟨_, hmem,
        (fits_iff (hwords _ hmem).1 (hwords _ hmem).2).mpr rfl⟩)
      have hwordT := hwords t (mem_of_find?_eq_some ht)
      rw [ht, (fits_iff hwordT.1 hwordT.2).mp (List.find?_some ht)]
    rw [hfind, Classes.boundary, hhead]
    cases before.any E.word <;> simp [hmem]
  · have hfind : tokens.find? (fits E text) = none := by
      refine List.find?_eq_none.mpr fun t ht hfits => hmem ?_
      rwa [(fits_iff (hwords t ht).1 (hwords t ht).2).mp hfits]
    rw [hfind]
    simp [hmem]

end Tokens

/-! ## The passes -/

section Passes

variable {seen seen' base : Seen} {pieces : List Piece} {cells cells' next : List Cell}

theorem replace_kept (seen : Seen) (text : List Char) (pieces : List Piece) :
    replace seen (text.map .keep ++ pieces) =
      (text ++ (replace seen pieces).1, (replace seen pieces).2) := by
  induction text with
  | nil => rfl
  | cons c text ih => rw [map_cons, cons_append, replace, ih]; rfl

theorem replace_of_covers (h : Covers base pieces cells next)
    (hcells : ∀ orig, .entity orig ∈ cells → orig ∈ base) (hseen : base <+: seen) :
    (replace seen pieces).1 = masked (replace seen pieces).2 next ∧
      seen <+: (replace seen pieces).2 ∧ ∀ orig, .entity orig ∈ next → orig ∈ (replace seen pieces).2 := by
  induction h generalizing seen with
  | nil => exact ⟨rfl, prefix_refl _, nofun⟩
  | @keep c pieces cells next _ ih =>
    obtain ⟨hmasked, hgrown, hmem⟩ := ih (fun o ho => hcells o (mem_cons_of_mem _ ho)) hseen
    refine ⟨congrArg (c :: ·) hmasked, hgrown, fun o ho => ?_⟩
    exact hmem o ((mem_cons.mp ho).resolve_left nofun)
  | @entity orig pieces cells next _ ih =>
    obtain ⟨hmasked, hgrown, hmem⟩ := ih (fun o ho => hcells o (mem_cons_of_mem _ ho)) hseen
    have horig := hcells orig mem_cons_self
    rw [replace_kept]
    refine ⟨?_, hgrown, fun o ho => ?_⟩
    · show tokenOf base orig ++ _ = tokenOf _ orig ++ masked _ next
      rw [← hmasked, token_of_grown horig (hseen.trans hgrown)]
    · rcases mem_cons.mp ho with ho | ho
      · cases ho
        exact (hseen.trans hgrown).subset horig
      · exact hmem o ho
  | @cut orig pieces cells next _ ih =>
    obtain ⟨hregister, horig⟩ := mem_register seen orig
    obtain ⟨hmasked, hgrown, hmem⟩ := ih
      (fun o ho => hcells o (mem_append_right _ ho)) (hseen.trans hregister)
    refine ⟨?_, hregister.trans hgrown, fun o ho => ?_⟩
    · show tokenOf (register seen orig) orig ++ _ = tokenOf _ orig ++ masked _ next
      rw [← token_of_grown horig hgrown, hmasked]
      rfl
    · rcases mem_cons.mp ho with ho | ho
      · cases ho
        exact hgrown.subset horig
      · exact hmem o ho

theorem original_chars (text : List Char) : original (text.map .char) = text := by
  simp [original, flatMap_map, Cell.source]

theorem original_of_covers (h : Covers seen pieces cells next) : original next = original cells := by
  induction h with
  | nil => rfl
  | keep _ ih => exact congrArg (_ :: ·) ih
  | entity _ ih => exact congrArg (_ ++ ·) ih
  | @cut orig _ cells _ _ ih =>
    show orig ++ original _ = (orig.map Cell.char ++ cells).flatMap Cell.source
    rw [flatMap_append, ih]
    show _ = original (orig.map .char) ++ original cells
    rw [original_chars]

theorem covers_kept (seen : Seen) (cells : List Cell) :
    Covers seen ((masked seen cells).map .keep) cells cells := by
  induction cells with
  | nil => exact .nil
  | cons cell cells ih =>
    cases cell with
    | char c => exact .keep ih
    | entity orig =>
      show Covers seen ((tokenOf seen orig ++ masked seen cells).map .keep) _ _
      rw [map_append]
      exact .entity ih

theorem layered_quiet {pat : Regex} {pats : List Regex}
    (hquiet : piecesOf pat (masked seen cells) = (masked seen cells).map .keep)
    (h : Layered pats seen cells seen' cells') : Layered (pat :: pats) seen cells seen' cells' := by
  have hsame := replace_kept seen (masked seen cells) []
  rw [append_nil] at hsame
  refine ⟨cells, ?_, ?_⟩
  · rw [hquiet]
    exact covers_kept seen cells
  · rw [hquiet, hsame]
    exact h

theorem passes_of_layered {pats : List Regex} (h : Layered pats seen cells seen' cells')
    (hcells : ∀ orig, .entity orig ∈ cells → orig ∈ seen) :
    passes pats (masked seen cells, seen) = (masked seen' cells', seen') ∧
      original cells' = original cells ∧ ∀ orig, .entity orig ∈ cells' → orig ∈ seen' := by
  induction pats generalizing seen cells with
  | nil =>
    obtain ⟨rfl, rfl⟩ := h
    exact ⟨rfl, rfl, hcells⟩
  | cons pat pats ih =>
    obtain ⟨next, hcovers, hmore⟩ := h
    obtain ⟨hmasked, -, hmem⟩ := replace_of_covers hcovers hcells (prefix_refl seen)
    obtain ⟨hpasses, horiginal, hrest⟩ := ih hmore hmem
    refine ⟨?_, horiginal.trans (original_of_covers hcovers), hrest⟩
    rw [passes, ← hpasses, ← hmasked]

end Passes

/-! ## The reversal -/

section Reversal

variable {E : Classes} {tokens : List (List Char)} {seen : Seen} {cells : List Cell}

/-- The piece that the scan for tokens makes of a cell. -/
def Cell.piece (seen : Seen) : Cell → Piece
  | .char c => .keep c
  | .entity orig => .cut (tokenOf seen orig)

theorem plain_word_eq (seen : Seen) (h : Free E tokens true cells) :
    (masked seen cells).takeWhile E.word = plainWord E cells := by
  induction cells with
  | nil => rfl
  | cons cell cells ih =>
    cases cell with
    | entity orig => exact absurd h.1 (by decide)
    | char c =>
      show (c :: masked seen cells).takeWhile E.word = _
      rw [plainWord, takeWhile_cons]
      split
      · rename_i hc
        rw [ih (hc ▸ h.2)]
      · rfl

theorem not_word_behind (h : beginsWord E cells = false) :
    (masked seen cells).takeWhile E.word = [] := by
  cases cells with
  | nil => rfl
  | cons cell cells =>
    cases cell with
    | entity orig => cases h
    | char c => exact takeWhile_cons_of_neg (by simpa [beginsWord] using h)

theorem scan_masked (hwords : ∀ t ∈ tokens, t ≠ [] ∧ ∀ c ∈ t, E.word c = true)
    (hcells : ∀ orig, .entity orig ∈ cells → tokenOf seen orig ∈ tokens) {before : Option Char}
    (hfree : Free E tokens (before.any E.word) cells) :
    scan (tokenLength E tokens) before 0 (masked seen cells) = cells.map (Cell.piece seen) := by
  induction cells generalizing before with
  | nil => rfl
  | cons cell cells ih =>
    have hmore : ∀ orig, .entity orig ∈ cells → tokenOf seen orig ∈ tokens :=
      fun o ho => hcells o (mem_cons_of_mem _ ho)
    cases cell with
    | char c =>
      have hnone : tokenLength E tokens before (c :: masked seen cells) = none := by
        rw [token_length_eq hwords, if_neg]
        rintro ⟨hbefore, hmem⟩
        refine hfree.1 hbefore ?_
        rw [takeWhile_cons] at hmem
        rw [plainWord]
        split at hmem
        · rename_i hc
          rwa [if_pos hc, ← plain_word_eq seen (hc ▸ hfree.2)]
        · rename_i hc
          rwa [if_neg hc]
      have hfree' : Free E tokens ((some c).any E.word) cells := hfree.2
      show scan _ before 0 (c :: masked seen cells) = .keep c :: _
      rw [scan, hnone, ih hmore hfree']
    | entity orig =>
      obtain ⟨hbefore, hbehind, hrest⟩ := hfree
      have htoken := hcells orig mem_cons_self
      obtain ⟨hne, hword⟩ := hwords _ htoken
      have hrun : (tokenOf seen orig ++ masked seen cells).takeWhile E.word = tokenOf seen orig := by
        rw [takeWhile_append_of_pos hword, not_word_behind hbehind, append_nil]
      have hsome : tokenLength E tokens before (tokenOf seen orig ++ masked seen cells) =
          some (tokenOf seen orig).length := by
        rw [token_length_eq hwords, hrun, if_pos ⟨hbefore, htoken⟩]
      have hlast : (lastOf before (tokenOf seen orig)).any E.word = true := by
        rw [lastOf, List.getLast?_eq_getLast_of_ne_nil hne]
        exact hword _ (getLast_mem hne)
      have hfree' : Free E tokens ((lastOf before (tokenOf seen orig)).any E.word) cells := by
        rwa [hlast]
      have hscan := ih hmore hfree'
      show scan _ before 0 (tokenOf seen orig ++ masked seen cells) = .cut (tokenOf seen orig) :: _
      obtain ⟨c, rest, htok⟩ := exists_cons_of_ne_nil hne
      rw [htok] at hsome hscan ⊢
      rw [cons_append, scan, ← cons_append, hsome]
      simp only [length_cons, scan_skip, ← Text.last_of_cons before, hscan]
      simp

theorem restore_pieces (hmem : ∀ orig, .entity orig ∈ cells → orig ∈ seen) :
    (cells.map (Cell.piece seen)).flatMap (restore (mapping seen)) = original cells := by
  rw [flatMap_map]
  refine flatMap_congr fun cell hcell => ?_
  cases cell with
  | char c => rfl
  | entity orig =>
    show ((mapping seen).lookup (tokenOf seen orig)).getD _ = orig
    rw [lookup_mapping (hmem orig hcell)]
    rfl

theorem kept_cells {orig : List Char} (h : cells.map (Cell.piece seen) = orig.map .keep) :
    cells = orig.map .char := by
  induction cells generalizing orig with
  | nil => simpa using h
  | cons cell cells ih =>
    cases orig with
    | nil => cases h
    | cons c orig =>
      rw [map_cons, map_cons, List.cons.injEq] at h
      rw [map_cons, ih h.2]
      cases cell with
      | char d => rw [Piece.keep.inj h.1]
      | entity found => exact absurd h.1 nofun

theorem kept_infix_iff {orig : List Char} :
    orig.map .keep <:+: cells.map (Cell.piece seen) ↔ orig.map .char <:+: cells := by
  constructor
  · rintro ⟨left, right, h⟩
    obtain ⟨front, back, rfl, hfront, -⟩ := map_eq_append_iff.mp h.symm
    obtain ⟨before, middle, rfl, -, hmiddle⟩ := map_eq_append_iff.mp hfront
    exact ⟨before, back, by rw [kept_cells hmiddle]⟩
  · rintro ⟨left, right, rfl⟩
    exact ⟨left.map (Cell.piece seen), right.map (Cell.piece seen), by
      simp [Cell.piece]⟩

variable {text : List Char}

/-- When the tokens can be told from the rest, the reversal gives the text back and no identifier is
left exactly when none occurs in what the passes left of the text. -/
theorem reversible_and_complete_iff (h : Legible E text seen cells) :
    (Reversible E text ∧ Complete E text) ↔
      ∀ orig ∈ identifiers E text, ¬ orig.map .char <:+: cells := by
  have hstart : masked [] (text.map .char) = text := by
    simp [masked, flatMap_map, Cell.masked]
  obtain ⟨hpasses, horiginal, hmem⟩ := passes_of_layered h.layered fun orig ho => by simp at ho
  have hanonymize : anonymize E text = (masked seen cells, seen) := by
    rw [anonymize, ← hpasses, hstart]
  have hpieces : tokenPieces E (mapping seen) (masked seen cells) = cells.map (Cell.piece seen) :=
    scan_masked tokens_word (fun orig ho => mem_tokens (hmem orig ho)) h.free
  have hreversible : Reversible E text := by
    rw [Reversible, hanonymize, deanonymize, hpieces, restore_pieces hmem, horiginal, original_chars]
    split
    · rename_i hnone
      -- without a mapping no token was put in
      have hplain : masked seen cells = original cells := by
        refine flatMap_congr fun cell hcell => ?_
        cases cell with
        | char c => rfl
        | entity orig =>
          have hlookup := lookup_mapping (hmem orig hcell)
          rw [hnone] at hlookup
          cases hlookup
      rw [hplain, horiginal, original_chars]
    · rfl
  unfold Complete
  rw [hanonymize, hpieces]
  simp [kept_infix_iff, hreversible]

/-- An address in a text is masked and read back. -/
theorem reversible_and_complete_address : Reversible hangul "10.0.0.1 up".toList ∧
    Complete hangul "10.0.0.1 up".toList := by
  let cells : List Cell := .entity "10.0.0.1".toList :: " up".toList.map .char
  have hipv4 : piecesOf (ipv4 hangul) "10.0.0.1 up".toList =
      .cut "10.0.0.1".toList :: (masked [] (" up".toList.map .char)).map .keep := by
    decide +kernel
  have hlayered : Layered (patterns hangul) [] ("10.0.0.1 up".toList.map .char)
      ["10.0.0.1".toList] cells := by
    refine layered_quiet (by decide +kernel) (layered_quiet (by decide +kernel)
      (layered_quiet (by decide +kernel) (layered_quiet (by decide +kernel) ⟨cells, ?_, ?_⟩)))
    · show Covers [] (piecesOf (ipv4 hangul) "10.0.0.1 up".toList) _ _
      rw [hipv4]
      exact .cut (covers_kept [] _)
    · show Layered _ (replace [] (piecesOf (ipv4 hangul) "10.0.0.1 up".toList)).2 _ _ _
      rw [hipv4]
      exact layered_quiet (by decide +kernel) ⟨rfl, rfl⟩
  have hfree : Free hangul (sortedTokens (mapping ["10.0.0.1".toList])) false cells :=
    ⟨rfl, rfl, nofun, fun _ => by decide +kernel, nofun, trivial⟩
  exact (reversible_and_complete_iff ⟨hlayered, hfree⟩).mpr (by decide +kernel)

theorem token_in_text : ¬ Reversible hangul "ENT_1 10.0.0.1".toList := by
  unfold Reversible
  decide +kernel

end Reversal

end AwsOps.Incident.Anonymize
