import AwsOps.Foundation.Phrases

/-!
# Substitution of the matches of a pattern

`re.sub` with a fixed replacement: the text is scanned from the left, a match is cut out and
replaced, and the scan goes on behind it. A pattern tells how long its match at a place is, given
the character before the place. `Scanned` says which pieces a scan leaves, `sub_window` reads a
window of the result back into the text, and `sub_keeps` says that a window which no match touches
stays. Both tell whether the neighbours of the window are those it had.
-/

namespace AwsOps.Substitute

open List Option

open Text (lastOf isAscii last_of_append)

/-- The classes of characters that a regular expression engine knows as `\w`, `\d` and `\s`. On
ASCII the first two have their usual values. -/
structure Classes where
  word : Char → Bool
  digit : Char → Bool
  space : Char → Bool
  word_ascii : ∀ c, isAscii c → word c = (c.isAlphanum || c == '_')
  digit_ascii : ∀ c, isAscii c → digit c = c.isDigit
  word_of_digit : ∀ c, digit c → word c
  not_space_of_word : ∀ c, word c → space c = false
  space_ascii : ∀ c, isAscii c → space c → c.toNat ≤ 32

/-- `\b`: a word character stands on one side only. -/
def Classes.boundary (E : Classes) (before after : Option Char) : Bool :=
  before.any E.word != after.any E.word

/-- A pattern: the length of its match at a place of a text, of which the character before the
place is given. No match is empty. -/
structure Pattern where
  length : Option Char → List Char → Option Nat
  bounded : ∀ {before text n}, length before text = some n → 0 < n ∧ n ≤ text.length

/-- What a scan makes of a text: a character that it keeps or a match that it cuts out. -/
inductive Piece
  | keep (c : Char)
  | cut (found : List Char)
  deriving DecidableEq

/-- The characters that the piece had in the text. -/
def Piece.source : Piece → List Char
  | .keep c => [c]
  | .cut found => found

/-- The pieces of a text, behind as many characters as belong to the last match. -/
def scan (length : Option Char → List Char → Option Nat) :
    Option Char → Nat → List Char → List Piece
  | _, _, [] => []
  | _, skip + 1, c :: text => scan length (some c) skip text
  | before, 0, c :: text =>
    match length before (c :: text) with
    | some (n + 1) => .cut ((c :: text).take (n + 1)) :: scan length (some c) n text
    | _ => .keep c :: scan length (some c) 0 text

/-- The text of the pieces with the replacement in the place of each match. -/
def render (replacement : List Char) (pieces : List Piece) : List Char :=
  pieces.flatMap fun
    | .keep c => [c]
    | .cut _ => replacement

/-- `re.sub` with a fixed replacement. -/
def Pattern.sub (p : Pattern) (replacement text : List Char) : List Char :=
  render replacement (scan p.length none 0 text)

/-- The characters of the pieces in the text. -/
def source (pieces : List Piece) : List Char :=
  pieces.flatMap Piece.source

/-- The pieces are those that a scan leaves of their text. -/
inductive Scanned (p : Pattern) : Option Char → List Piece → Prop
  | nil {before} : Scanned p before []
  | keep {before c pieces} : p.length before (c :: source pieces) = none →
      Scanned p (some c) pieces → Scanned p before (.keep c :: pieces)
  | cut {before found pieces} : found ≠ [] →
      p.length before (found ++ source pieces) = some found.length →
      Scanned p (lastOf before found) pieces → Scanned p before (.cut found :: pieces)

@[simp] theorem source_nil : source [] = [] :=
  rfl

@[simp] theorem source_keep (c : Char) (pieces : List Piece) :
    source (.keep c :: pieces) = c :: source pieces :=
  rfl

@[simp] theorem source_cut (found : List Char) (pieces : List Piece) :
    source (.cut found :: pieces) = found ++ source pieces :=
  rfl

@[simp] theorem source_append (left right : List Piece) :
    source (left ++ right) = source left ++ source right :=
  flatMap_append

@[simp] theorem source_kept (text : List Char) : source (text.map .keep) = text := by
  induction text with
  | nil => rfl
  | cons c text ih => rw [map_cons, source_keep, ih]

variable {replacement : List Char}

@[simp] theorem render_nil : render replacement [] = [] :=
  rfl

@[simp] theorem render_keep (c : Char) (pieces : List Piece) :
    render replacement (.keep c :: pieces) = c :: render replacement pieces :=
  rfl

@[simp] theorem render_cut (found : List Char) (pieces : List Piece) :
    render replacement (.cut found :: pieces) = replacement ++ render replacement pieces :=
  rfl

@[simp] theorem render_append (left right : List Piece) :
    render replacement (left ++ right) = render replacement left ++ render replacement right :=
  flatMap_append

@[simp] theorem render_kept (text : List Char) : render replacement (text.map .keep) = text := by
  induction text with
  | nil => rfl
  | cons c text ih => rw [map_cons, render_keep, ih]

variable {p : Pattern} {before : Option Char} {pieces left right : List Piece}

theorem scan_skip (length : Option Char → List Char → Option Nat) (before : Option Char)
    (skipped text : List Char) :
    scan length before skipped.length (skipped ++ text) =
      scan length (lastOf before skipped) 0 text := by
  induction skipped generalizing before with
  | nil => rfl
  | cons c skipped ih =>
    rw [length_cons, cons_append, scan, ih, Text.last_of_cons]

/-- A scan leaves pieces that make up the text, and they are those that it ought to leave. -/
theorem scanned_scan (p : Pattern) (before : Option Char) (text : List Char) :
    Scanned p before (scan p.length before 0 text) ∧ source (scan p.length before 0 text) = text := by
  induction h : text.length using Nat.strong_induction_on generalizing before text with
  | _ size ih =>
    subst h
    cases text with
    | nil => exact ⟨.nil, rfl⟩
    | cons c text =>
      cases hlength : p.length before (c :: text) with
      | none =>
        obtain ⟨hscan, hsource⟩ := ih text.length (by simp) (some c) text rfl
        rw [scan, hlength]
        simp only [source_keep, hsource, and_true]
        exact .keep (by rw [hsource, hlength]) hscan
      | some n =>
        obtain ⟨hpos, hle⟩ := p.bounded hlength
        obtain ⟨m, rfl⟩ : ∃ m, n = m + 1 := ⟨n - 1, by omega⟩
        have hm : m ≤ text.length := by simpa using hle
        have htake : (text.take m).length = m := length_take_of_le hm
        have hrest : scan p.length (some c) m text =
            scan p.length (lastOf before (c :: text.take m)) 0 (text.drop m) := by
          rw [Text.last_of_cons, ← scan_skip, htake, take_append_drop]
        obtain ⟨hscan, hsource⟩ := ih (text.drop m).length
          (by rw [length_drop, length_cons]; omega)
          (lastOf before (c :: text.take m)) (text.drop m) rfl
        have hsplit : (c :: text.take m) ++ text.drop m = c :: text := by
          rw [cons_append, take_append_drop]
        rw [scan, hlength]
        simp only [take_succ_cons, hrest, source_cut, hsource, hsplit, and_true]
        refine .cut (cons_ne_nil _ _) ?_ hscan
        rw [hsource, hsplit, hlength, length_cons, htake]

theorem Scanned.rest (h : Scanned p before (left ++ right)) :
    Scanned p (lastOf before (source left)) right := by
  induction left generalizing before with
  | nil => exact h
  | cons piece left ih =>
    rw [cons_append] at h
    cases h with
    | keep hnone hrest => rw [source_keep, Text.last_of_cons]; exact ih hrest
    | cut hne hsome hrest => rw [source_cut, last_of_append]; exact ih hrest

theorem Scanned.not_match {c : Char} (h : Scanned p before (left ++ .keep c :: right)) :
    p.length (lastOf before (source left)) (c :: source right) = none := by
  cases h.rest with
  | keep hnone _ => exact hnone

theorem Scanned.is_match {found : List Char} (h : Scanned p before (left ++ .cut found :: right)) :
    found ≠ [] ∧
      p.length (lastOf before (source left)) (found ++ source right) = some found.length := by
  cases h.rest with
  | cut hne hsome _ => exact ⟨hne, hsome⟩

def Pattern.Nowhere (p : Pattern) (text : List Char) : Prop :=
  ∀ before after, text = before ++ after → p.length (lastOf none before) after = none

theorem render_of_no_cut (h : ∀ found, .cut found ∉ pieces) :
    render replacement pieces = source pieces := by
  induction pieces with
  | nil => rfl
  | cons piece pieces ih =>
    have htail := ih fun found hmem => h found (mem_cons_of_mem piece hmem)
    cases piece with
    | keep c => rw [render_keep, source_keep, htail]
    | cut found => exact absurd mem_cons_self (h found)

theorem sub_of_nowhere {text : List Char} (h : p.Nowhere text) : p.sub replacement text = text := by
  obtain ⟨hscan, hsource⟩ := scanned_scan p none text
  rw [Pattern.sub, render_of_no_cut ?_, hsource]
  intro found hmem
  obtain ⟨left, right, hsplit⟩ := append_of_mem hmem
  rw [hsplit] at hscan hsource
  rw [source_append, source_cut] at hsource
  have hsome := hscan.is_match.2
  rw [h _ _ hsource.symm] at hsome
  exact absurd hsome (by simp)

/-- A replacement between two marks. -/
structure Tag where
  opening : Char
  name : List Char
  closing : Char

/-- The characters of the tag. -/
def Tag.chars (tag : Tag) : List Char :=
  tag.opening :: (tag.name ++ [tag.closing])

/-- The tag and the window have nothing in common: the window has neither of the marks and some
character that is not in the name. -/
structure Tag.Foreign (tag : Tag) (window : List Char) : Prop where
  opening : tag.opening ∉ window
  closing : tag.closing ∉ window
  letter : ∃ c ∈ window, c ∉ tag.name

variable {tag : Tag} {window front back : List Char}

theorem render_starts (hopen : tag.opening ∉ window)
    (h : render tag.chars pieces = window ++ back) :
    ∃ later, pieces = window.map .keep ++ later ∧ render tag.chars later = back := by
  induction window generalizing pieces with
  | nil => exact ⟨pieces, rfl, h⟩
  | cons c window ih =>
    simp only [mem_cons, not_or] at hopen
    cases pieces with
    | nil => exact absurd h (cons_ne_nil _ _).symm
    | cons piece pieces =>
      cases piece with
      | keep d =>
        rw [render_keep, cons_append, List.cons.injEq] at h
        obtain ⟨rfl, hrest⟩ := h
        obtain ⟨later, rfl, hlater⟩ := ih hopen.2 hrest
        exact ⟨later, rfl, hlater⟩
      | cut found =>
        rw [render_cut, Tag.chars, cons_append, cons_append, List.cons.injEq] at h
        exact absurd h.1 hopen.1

theorem Tag.Foreign.starts_behind (hw : tag.Foreign window) {inner rest : List Char}
    (htag : tag.name ++ [tag.closing] = front ++ inner) (h : inner ++ rest = window ++ back) :
    inner = [] := by
  obtain rfl | ⟨inner, last, rfl⟩ := eq_nil_or_concat inner
  · rfl
  rw [concat_eq_append] at h htag
  rw [← append_assoc] at htag
  obtain ⟨hname, hlast⟩ := append_inj' htag rfl
  rw [List.cons.injEq] at hlast
  rw [append_assoc] at h
  obtain ⟨c, hmem, hletter⟩ := hw.letter
  have houtside : c ∉ inner := by
    intro hin
    rw [hname] at hletter
    exact hletter (mem_append_right front hin)
  -- The window would lie in the name or reach over the closing mark.
  rcases append_eq_append_iff.mp h with ⟨more, rfl, hmore⟩ | ⟨more, rfl, -⟩
  · cases more with
    | nil =>
      rw [append_nil] at hmem
      exact absurd hmem houtside
    | cons d more =>
      rw [cons_append, cons_append, List.cons.injEq] at hmore
      have hclosing := hw.closing
      rw [hlast.1, hmore.1] at hclosing
      exact absurd (mem_append_right inner mem_cons_self) hclosing
  · exact absurd (mem_append_left more hmem) houtside

theorem render_window (hw : tag.Foreign window)
    (h : render tag.chars pieces = front ++ (window ++ back)) :
    ∃ earlier later, pieces = earlier ++ (window.map .keep ++ later) ∧
      render tag.chars earlier = front ∧ render tag.chars later = back := by
  induction pieces generalizing front with
  | nil =>
    obtain ⟨c, hmem, -⟩ := hw.letter
    rw [render_nil] at h
    have hin : c ∈ front ++ (window ++ back) :=
      mem_append_right front (mem_append_left back hmem)
    rw [← h] at hin
    exact absurd hin not_mem_nil
  | cons piece pieces ih =>
    cases front with
    | nil =>
      obtain ⟨later, hpieces, hlater⟩ := render_starts hw.opening h
      exact ⟨[], later, hpieces, rfl, hlater⟩
    | cons d front =>
      cases piece with
      | keep c =>
        rw [render_keep, cons_append, List.cons.injEq] at h
        obtain ⟨rfl, hrest⟩ := h
        obtain ⟨earlier, later, rfl, hearlier, hlater⟩ := ih hrest
        exact ⟨.keep c :: earlier, later, rfl, by rw [render_keep, hearlier], hlater⟩
      | cut found =>
        have hbehind : ∃ more, d :: front = tag.chars ++ more ∧
            render tag.chars pieces = more ++ (window ++ back) := by
          rw [render_cut] at h
          rcases append_eq_append_iff.mp h with ⟨more, hfront, hmore⟩ | ⟨inner, htag, hmore⟩
          · exact ⟨more, hfront, hmore⟩
          · rw [Tag.chars, cons_append, List.cons.injEq] at htag
            have hnil := hw.starts_behind htag.2 hmore.symm
            subst hnil
            refine ⟨[], ?_, ?_⟩
            · rw [Tag.chars, htag.1, htag.2, append_nil, append_nil]
            · rw [nil_append, hmore, nil_append]
        obtain ⟨more, hfront, hmore⟩ := hbehind
        obtain ⟨earlier, later, rfl, hearlier, hlater⟩ := ih hmore
        exact ⟨.cut found :: earlier, later, rfl, by rw [render_cut, hearlier, hfront], hlater⟩

/-- The pattern matches at no character of the window between the two parts. -/
def Pattern.Quiet (p : Pattern) (before window after : List Char) : Prop :=
  ∀ x c y, window = x ++ c :: y → p.length (lastOf none (before ++ x)) (c :: (y ++ after)) = none

/-- The scan of the text comes to the place behind `before`. -/
def Pattern.Reaches (p : Pattern) (text before : List Char) : Prop :=
  ∃ left right, scan p.length none 0 text = left ++ right ∧ source left = before

/-- The scan of the text cuts out the match between the two parts. -/
def Pattern.Cuts (p : Pattern) (text before found after : List Char) : Prop :=
  ∃ left right, scan p.length none 0 text = left ++ .cut found :: right ∧
    source left = before ∧ source right = after

/-- A match stands at the end of what comes before a place. -/
def Pattern.EndsBefore (p : Pattern) (before after : List Char) : Prop :=
  ∃ earlier found, before = earlier ++ found ∧ found ≠ [] ∧
    p.length (lastOf none earlier) (found ++ after) = some found.length

/-- A window of the result that has nothing in common with the tag stands in the text, where the
pattern matches at none of its characters. A neighbour of the window is the one that it had, or
else there was a match. -/
theorem sub_window {text : List Char} (hw : tag.Foreign window)
    (h : p.sub tag.chars text = front ++ (window ++ back)) :
    ∃ before after, text = before ++ (window ++ after) ∧ p.Reaches text before ∧
      p.Quiet before window after ∧
      (lastOf none before = lastOf none front ∨ p.EndsBefore before (window ++ after)) ∧
      (after.head? = back.head? ∨ (p.length (lastOf none (before ++ window)) after).isSome) := by
  obtain ⟨hscan, hsource⟩ := scanned_scan p none text
  obtain ⟨earlier, later, hpieces, rfl, rfl⟩ := render_window hw h
  have hreaches : p.Reaches text (source earlier) := ⟨earlier, _, hpieces, rfl⟩
  rw [hpieces] at hscan hsource
  refine ⟨source earlier, source later, ?_, hreaches, ?_, ?_, ?_⟩
  · rw [← hsource, source_append, source_append, source_kept]
  · intro x c y hwindow
    rw [hwindow, map_append, map_cons, append_assoc, cons_append, ← append_assoc] at hscan
    have hnone := hscan.not_match
    rwa [source_append, source_append, source_kept, source_kept] at hnone
  · rcases eq_nil_or_concat earlier with rfl | ⟨earlier, piece, rfl⟩
    · exact .inl rfl
    rw [concat_eq_append] at hscan ⊢
    cases piece with
    | keep c =>
      refine .inl ?_
      rw [source_append, render_append, last_of_append, last_of_append]
      rfl
    | cut found =>
      rw [append_assoc, singleton_append] at hscan
      obtain ⟨hne, hsome⟩ := hscan.is_match
      refine .inr ⟨source earlier, found, ?_, hne, ?_⟩
      · rw [source_append, source_cut, source_nil, append_nil]
      · rwa [source_append, source_kept] at hsome
  · cases later with
    | nil => exact .inl rfl
    | cons piece later =>
      cases piece with
      | keep c => exact .inl rfl
      | cut found =>
        rw [← append_assoc] at hscan
        have hsome := hscan.is_match.2
        rw [source_append, source_kept] at hsome
        refine .inr ?_
        rw [source_cut, hsome]
        rfl

/-- No character of the class stands beside a match. -/
def Pattern.Apart (p : Pattern) (member : Char → Bool) : Prop :=
  ∀ before found after, p.length before (found ++ after) = some found.length →
    before.any member = false ∧ after.head?.any member = false

/-- Under a pattern whose matches stand apart from the class, a window that starts and ends with a
member of it keeps its neighbours. -/
theorem sub_window_apart {text : List Char} {member : Char → Bool} (hapart : p.Apart member)
    (hfirst : window.head?.any member) (hlast : window.getLast?.any member)
    (hw : tag.Foreign window) (h : p.sub tag.chars text = front ++ (window ++ back)) :
    ∃ before after, text = before ++ (window ++ after) ∧ p.Reaches text before ∧
      p.Quiet before window after ∧ lastOf none before = lastOf none front ∧
      after.head? = back.head? := by
  obtain ⟨before, after, htext, hreaches, hquiet, hbefore, hafter⟩ := sub_window hw h
  refine ⟨before, after, htext, hreaches, hquiet, ?_, ?_⟩
  · refine hbefore.resolve_right ?_
    rintro ⟨earlier, found, -, -, hsome⟩
    have hout := (hapart _ _ _ hsome).2
    rw [List.head?_append] at hout
    cases hhead : window.head? with
    | none => rw [hhead] at hfirst; exact absurd hfirst (by simp)
    | some c =>
      rw [hhead] at hfirst hout
      rw [some_or, hfirst] at hout
      exact absurd hout (by simp)
  · refine hafter.resolve_right fun hsome => ?_
    obtain ⟨n, hn⟩ := isSome_iff_exists.mp hsome
    have hle := (p.bounded hn).2
    have hout := (hapart _ (after.take n) (after.drop n) (by
      rw [take_append_drop, hn, length_take_of_le hle])).1
    cases hback : window.getLast? with
    | none => rw [hback] at hlast; exact absurd hlast (by simp)
    | some c =>
      rw [hback] at hlast
      rw [last_of_append, lastOf, hback, some_or, hlast] at hout
      exact absurd hout (by simp)

variable {text earlier found later place after : List Char}

theorem Pattern.Cuts.is_match (h : p.Cuts text earlier found later) :
    text = earlier ++ (found ++ later) ∧ found ≠ [] ∧
      p.length (lastOf none earlier) (found ++ later) = some found.length := by
  obtain ⟨left, right, hpieces, rfl, rfl⟩ := h
  obtain ⟨hscan, hsource⟩ := scanned_scan p none text
  rw [hpieces] at hscan hsource
  rw [← source_cut, ← source_append]
  exact ⟨hsource.symm, hscan.is_match⟩

theorem split_pieces (h : source pieces = place ++ after) :
    (∃ left right, pieces = left ++ right ∧ source left = place) ∨
      ∃ left inner outer right, pieces = left ++ .cut (inner ++ outer) :: right ∧ inner ≠ [] ∧
        outer ≠ [] ∧ place = source left ++ inner ∧ after = outer ++ source right := by
  induction pieces generalizing place with
  | nil =>
    rw [source_nil, eq_comm, append_eq_nil_iff] at h
    exact .inl ⟨[], [], rfl, h.1.symm⟩
  | cons piece pieces ih =>
    cases place with
    | nil => exact .inl ⟨[], piece :: pieces, rfl, rfl⟩
    | cons d place =>
      have hcons : ∀ rest, d :: place = piece.source ++ rest → source pieces = rest ++ after →
          (∃ left right, piece :: pieces = left ++ right ∧ source left = d :: place) ∨
            ∃ left inner outer right, piece :: pieces = left ++ .cut (inner ++ outer) :: right ∧
              inner ≠ [] ∧ outer ≠ [] ∧ d :: place = source left ++ inner ∧
              after = outer ++ source right := by
        intro rest hrest hsource
        rcases ih hsource with ⟨left, right, rfl, rfl⟩ |
          ⟨left, inner, outer, right, rfl, hinner, houter, rfl, hafter⟩
        · exact .inl ⟨piece :: left, right, rfl, hrest.symm⟩
        · refine .inr ⟨piece :: left, inner, outer, right, rfl, hinner, houter, ?_, hafter⟩
          rw [hrest, ← append_assoc]
          rfl
      cases piece with
      | keep c =>
        rw [source_keep, cons_append, List.cons.injEq] at h
        exact hcons place (by rw [h.1]; rfl) h.2
      | cut found =>
        rw [source_cut] at h
        rcases append_eq_append_iff.mp h with ⟨rest, hrest, hsource⟩ | ⟨outer, hfound, hafter⟩
        · exact hcons rest hrest hsource
        · cases outer with
          | nil =>
            rw [append_nil] at hfound
            refine hcons [] (by rw [hfound, append_nil]; rfl) ?_
            rw [nil_append] at hafter ⊢
            exact hafter.symm
          | cons c outer =>
            exact .inr ⟨[], d :: place, c :: outer, pieces, by rw [hfound]; rfl,
              cons_ne_nil _ _, cons_ne_nil _ _, rfl, hafter⟩

theorem Pattern.reaches_or_cuts (p : Pattern) (h : text = place ++ after) :
    p.Reaches text place ∨ ∃ earlier inner outer later, inner ≠ [] ∧ outer ≠ [] ∧
      place = earlier ++ inner ∧ after = outer ++ later ∧
      p.Cuts text earlier (inner ++ outer) later := by
  have hsource := (scanned_scan p none text).2.trans h
  rcases split_pieces hsource with ⟨left, right, hpieces, hleft⟩ |
    ⟨left, inner, outer, right, hpieces, hinner, houter, houtside, hafter⟩
  · exact .inl ⟨left, right, hpieces, hleft⟩
  · exact .inr ⟨_, inner, outer, _, hinner, houter, houtside, hafter, left, right, hpieces, rfl, rfl⟩

theorem Pattern.Reaches.cuts (h : p.Reaches text place) (htext : text = place ++ (found ++ after))
    (hne : found ≠ []) (hsome : p.length (lastOf none place) (found ++ after) = some found.length) :
    p.Cuts text place found after := by
  obtain ⟨left, right, hpieces, rfl⟩ := h
  obtain ⟨hscan, hsource⟩ := scanned_scan p none text
  rw [hpieces] at hscan hsource
  rw [source_append, htext, append_cancel_left_eq] at hsource
  cases right with
  | nil =>
    rw [source_nil, eq_comm, append_eq_nil_iff] at hsource
    exact absurd hsource.1 hne
  | cons piece right =>
    cases piece with
    | keep c =>
      have hnone := hscan.not_match
      rw [← source_keep, hsource, hsome] at hnone
      exact absurd hnone (by simp)
    | cut other =>
      obtain ⟨-, hother⟩ := hscan.is_match
      rw [← source_cut, hsource, hsome, Option.some.injEq] at hother
      rw [source_cut] at hsource
      obtain ⟨rfl, rfl⟩ := append_inj hsource hother.symm
      exact ⟨left, right, hpieces, rfl, rfl⟩

theorem Pattern.Cuts.reaches (h : p.Cuts text earlier found later) :
    p.Reaches text (earlier ++ found) := by
  obtain ⟨left, right, hpieces, rfl, rfl⟩ := h
  refine ⟨left ++ [.cut found], right, by rw [hpieces, append_assoc]; rfl, ?_⟩
  rw [source_append, source_cut, source_nil, append_nil]

/-- Without a match the scan goes on by one character. -/
theorem Pattern.Reaches.next (h : p.Reaches text place) {c : Char} (htext : text = place ++ c :: after)
    (hnone : p.length (lastOf none place) (c :: after) = none) :
    p.Reaches text (place ++ [c]) := by
  obtain ⟨left, right, hpieces, rfl⟩ := h
  obtain ⟨hscan, hsource⟩ := scanned_scan p none text
  rw [hpieces] at hscan hsource
  rw [source_append, htext, append_cancel_left_eq] at hsource
  cases right with
  | nil => exact absurd hsource (by simp)
  | cons piece right =>
    cases piece with
    | keep d =>
      rw [source_keep, List.cons.injEq] at hsource
      refine ⟨left ++ [.keep d], right, by rw [hpieces, append_assoc]; rfl, ?_⟩
      rw [source_append, hsource.1]
      rfl
    | cut other =>
      obtain ⟨-, hother⟩ := hscan.is_match
      rw [← source_cut, hsource, hnone] at hother
      exact absurd hother (by simp)

theorem Pattern.Reaches.outside (h : p.Reaches text place) (hcut : p.Cuts text earlier found later) :
    place.length ≤ earlier.length ∨ earlier.length + found.length ≤ place.length := by
  obtain ⟨left, right, hpieces, rfl⟩ := h
  obtain ⟨first, second, hcuts, rfl, rfl⟩ := hcut
  rw [hcuts] at hpieces
  rcases append_eq_append_iff.mp hpieces with ⟨more, rfl, hmore⟩ | ⟨more, rfl, -⟩
  · cases more with
    | nil => exact .inl (by simp)
    | cons piece more =>
      rw [cons_append, List.cons.injEq] at hmore
      refine .inr ?_
      rw [← hmore.1, source_append, source_cut, length_append, length_append]
      omega
  · refine .inl ?_
    rw [source_append, length_append]
    omega

theorem pieces_start (h : source pieces = window ++ after)
    (hfree : ∀ left found right, pieces = left ++ .cut found :: right →
      window.length ≤ (source left).length) :
    ∃ right, pieces = window.map .keep ++ right ∧ source right = after := by
  induction window generalizing pieces with
  | nil => exact ⟨pieces, rfl, h⟩
  | cons c window ih =>
    cases pieces with
    | nil => exact absurd h (cons_ne_nil _ _).symm
    | cons piece pieces =>
      cases piece with
      | keep d =>
        rw [source_keep, cons_append, List.cons.injEq] at h
        obtain ⟨rfl, hrest⟩ := h
        obtain ⟨right, rfl, hright⟩ := ih hrest (by
          intro left found right hpieces
          have hle := hfree (.keep d :: left) found right (by rw [hpieces]; rfl)
          rw [source_keep, length_cons, length_cons] at hle
          omega)
        exact ⟨right, rfl, hright⟩
      | cut found =>
        have hle := hfree [] found pieces rfl
        rw [source_nil, length_cons, length_nil] at hle
        omega

theorem last_of_render (pieces : List Piece) :
    lastOf none (render tag.chars pieces) = lastOf none (source pieces) ∨
      lastOf none (render tag.chars pieces) = some tag.closing := by
  rcases eq_nil_or_concat pieces with rfl | ⟨pieces, piece, rfl⟩
  · exact .inl rfl
  rw [concat_eq_append, render_append, source_append, last_of_append, last_of_append]
  cases piece with
  | keep c => exact .inl rfl
  | cut found =>
    refine .inr ?_
    rw [render_cut, render_nil, append_nil, Tag.chars, Text.last_of_cons, last_of_append]
    rfl

theorem head_render (pieces : List Piece) :
    (render tag.chars pieces).head? = (source pieces).head? ∨
      (render tag.chars pieces).head? = some tag.opening := by
  cases pieces with
  | nil => exact .inl rfl
  | cons piece pieces =>
    cases piece with
    | keep c => exact .inl rfl
    | cut found => exact .inr rfl

/-- A window that the scan cuts nothing out of is kept. A neighbour of it is the one that it had,
or else the mark of a tag. -/
theorem sub_keeps (tag : Tag) (htext : text = place ++ (window ++ after)) (hne : window ≠ [])
    (hfree : ∀ earlier found later, p.Cuts text earlier found later →
      earlier.length + found.length ≤ place.length ∨
        place.length + window.length ≤ earlier.length) :
    ∃ front back, p.sub tag.chars text = front ++ (window ++ back) ∧
      (lastOf none front = lastOf none place ∨ lastOf none front = some tag.closing) ∧
      (back.head? = after.head? ∨ back.head? = some tag.opening) := by
  have hsource := (scanned_scan p none text).2
  have hpos := length_pos_iff.mpr hne
  rcases p.reaches_or_cuts htext with ⟨left, right, hpieces, rfl⟩ |
    ⟨earlier, inner, outer, later, hinner, houter, hplace, -, hcut⟩
  · rw [hpieces, source_append, htext, append_cancel_left_eq] at hsource
    obtain ⟨right, rfl, rfl⟩ := pieces_start hsource (by
      intro first found second hright
      have hdisjoint := hfree (source (left ++ first)) found (source second)
        ⟨left ++ first, second, by rw [hpieces, hright, append_assoc], rfl, rfl⟩
      have hfound : found ≠ [] := by
        have hscan := (scanned_scan p none text).1
        rw [hpieces, hright, ← append_assoc] at hscan
        exact hscan.is_match.1
      have hlength := length_pos_iff.mpr hfound
      rw [source_append, length_append] at hdisjoint
      omega)
    refine ⟨render tag.chars left, render tag.chars right, ?_, last_of_render left,
      head_render right⟩
    rw [Pattern.sub, hpieces, render_append, render_append, render_kept]
  · have hdisjoint := hfree _ _ _ hcut
    have hi := length_pos_iff.mpr hinner
    have ho := length_pos_iff.mpr houter
    rw [hplace] at hdisjoint
    simp only [length_append] at hdisjoint
    omega

theorem sub_keeps_of_apart (tag : Tag) (htext : text = place ++ (window ++ after))
    (hne : window ≠ [])
    (hfree : ∀ earlier found later, text = earlier ++ (found ++ later) → found ≠ [] →
      p.length (lastOf none earlier) (found ++ later) = some found.length →
      earlier.length + found.length ≤ place.length ∨
        place.length + window.length ≤ earlier.length) :
    ∃ front back, p.sub tag.chars text = front ++ (window ++ back) ∧
      (lastOf none front = lastOf none place ∨ lastOf none front = some tag.closing) ∧
      (back.head? = after.head? ∨ back.head? = some tag.opening) :=
  sub_keeps tag htext hne fun earlier found later hcut =>
    hfree earlier found later hcut.is_match.1 hcut.is_match.2.1 hcut.is_match.2.2

theorem sub_keeps_of_quiet (tag : Tag) (htext : text = place ++ (window ++ after))
    (hne : window ≠ []) (hreaches : p.Reaches text place) (hquiet : p.Quiet place window after) :
    ∃ front back, p.sub tag.chars text = front ++ (window ++ back) ∧
      (lastOf none front = lastOf none place ∨ lastOf none front = some tag.closing) ∧
      (back.head? = after.head? ∨ back.head? = some tag.opening) := by
  refine sub_keeps tag htext hne fun earlier found later hcut => ?_
  rcases hreaches.outside hcut with hle | hle
  · refine .inr ?_
    by_contra hlt
    obtain ⟨hsplit, hfound, hsome⟩ := hcut.is_match
    rw [htext] at hsplit
    -- The match would start at a character of the window.
    obtain ⟨x, rfl, hx⟩ : ∃ x, earlier = place ++ x ∧ window ++ after = x ++ (found ++ later) := by
      rcases append_eq_append_iff.mp hsplit with ⟨x, hx, hrest⟩ | ⟨x, hx, hrest⟩
      · exact ⟨x, hx, hrest⟩
      · rw [hx, length_append] at hle
        have hnil : x = [] := length_eq_zero_iff.mp (by omega)
        subst hnil
        exact ⟨[], by rw [hx, append_nil, append_nil], by rw [hrest]; rfl⟩
    rw [length_append] at hlt
    rcases append_eq_append_iff.mp hx with ⟨y, rfl, -⟩ | ⟨y, hy, hafter⟩
    · rw [length_append] at hlt
      omega
    · cases y with
      | nil => rw [hy, append_nil] at hlt; omega
      | cons c y =>
        have hnone := hquiet x c y hy
        rw [cons_append] at hafter
        rw [← hafter, hsome] at hnone
        exact absurd hnone (by simp)
  · exact .inl hle

/-- Characters before a match are passed by. -/
theorem Pattern.Reaches.walk (h : p.Reaches text place) (htext : text = place ++ (window ++ after))
    (hquiet : p.Quiet place window after) : p.Reaches text (place ++ window) := by
  induction window generalizing place with
  | nil => rwa [append_nil]
  | cons c window ih =>
    have hnext := h.next htext (by simpa using hquiet [] c window rfl)
    have hrest := ih hnext (by rw [htext, append_assoc]; rfl) (by
      intro x d y hwindow
      have hnone := hquiet (c :: x) d y (by rw [hwindow]; rfl)
      rwa [append_assoc])
    rwa [append_assoc] at hrest

theorem Pattern.Quiet.append {first second : List Char} (hfirst : p.Quiet place first (second ++ after))
    (hsecond : p.Quiet (place ++ first) second after) : p.Quiet place (first ++ second) after := by
  intro x c y hsplit
  rcases append_eq_append_iff.mp hsplit with ⟨z, rfl, hz⟩ | ⟨z, hz, hrest⟩
  · have hnone := hsecond z c y hz
    rwa [append_assoc] at hnone
  · cases z with
    | nil =>
      rw [append_nil] at hz
      have hnone := hsecond [] c y hrest.symm
      rwa [append_nil, hz] at hnone
    | cons d z =>
      rw [cons_append, List.cons.injEq] at hrest
      obtain ⟨rfl, rfl⟩ := hrest
      have hnone := hfirst x c z hz
      rwa [append_assoc]

section Runs

theorem mem_of_place {left part right : List Char} {i : Nat} (htext : text = left ++ (part ++ right))
    (hleft : left.length ≤ i) (hright : i < left.length + part.length) :
    ∃ c ∈ part, text[i]? = some c := by
  refine ⟨part[i - left.length], getElem_mem _, ?_⟩
  rw [htext, List.getElem?_append_right hleft, List.getElem?_append_left (by omega),
    List.getElem?_eq_getElem]

theorem common_of_overlap {left part right other : List Char} (htext : text = left ++ (part ++ right))
    (hother : text = place ++ (other ++ after)) (hpart : part ≠ []) (hne : other ≠ [])
    (hlt : left.length < place.length + other.length)
    (hgt : place.length < left.length + part.length) : ∃ c ∈ part, c ∈ other := by
  have hi := length_pos_iff.mpr hpart
  have ho := length_pos_iff.mpr hne
  obtain ⟨c, hc, hat⟩ := mem_of_place (i := max left.length place.length) htext (by omega) (by omega)
  obtain ⟨d, hd, hat'⟩ := mem_of_place (i := max left.length place.length) hother (by omega) (by omega)
  rw [hat, Option.some.injEq] at hat'
  exact ⟨c, hc, hat' ▸ hd⟩

theorem within_run {left run right part : List Char} {member : Char → Bool}
    (htext : text = left ++ (run ++ right)) (hpart : text = place ++ (part ++ after))
    (hleft : (lastOf none left).any member = false) (hright : right.head?.any member = false)
    (hall : ∀ c ∈ part, member c) (hlt : left.length < place.length + part.length)
    (hgt : place.length < left.length + run.length) :
    left.length ≤ place.length ∧ place.length + part.length ≤ left.length + run.length := by
  refine ⟨?_, ?_⟩
  · by_contra hle
    obtain ⟨c, hc, hat⟩ := mem_of_place (i := left.length - 1) hpart (by omega) (by omega)
    rw [htext, List.getElem?_append_left (by omega), ← List.getLast?_eq_getElem?] at hat
    rw [lastOf, hat, some_or, any_some, hall c hc] at hleft
    exact absurd hleft (by simp)
  · by_contra hle
    obtain ⟨c, hc, hat⟩ := mem_of_place (i := left.length + run.length) hpart (by omega) (by omega)
    rw [htext, List.getElem?_append_right (by omega), List.getElem?_append_right (by omega),
      show left.length + run.length - left.length - run.length = 0 by omega,
      ← List.head?_eq_getElem?] at hat
    rw [hat, any_some, hall c hc] at hright
    exact absurd hright (by simp)

/-- At the start of a text a part that consists of members is no longer than a whole run of them. -/
theorem length_le_run {run right part : List Char} {member : Char → Bool}
    (h : run ++ right = part ++ after) (hright : right.head?.any member = false)
    (hall : ∀ c ∈ part, member c) (hrun : run ≠ []) : part.length ≤ run.length := by
  have hpos := length_pos_iff.mpr hrun
  by_cases hpart : part = []
  · rw [hpart, length_nil]
    exact Nat.zero_le _
  · have hsome := length_pos_iff.mpr hpart
    have htext : run ++ right = [] ++ (run ++ right) := rfl
    have hother : run ++ right = [] ++ (part ++ after) := h
    have hwithin := within_run htext hother rfl hright hall
      (by rw [length_nil]; omega) (by rw [length_nil]; omega)
    simpa using hwithin.2

end Runs

/-! ## Texts cut beforehand -/

/-- Consecutive parts of a text: each is one match of the pattern or has no match in it. -/
def Pattern.Parted (p : Pattern) : Option Char → List (Bool × List Char) → Prop
  | _, [] => True
  | before, (true, part) :: rest =>
    part ≠ [] ∧ p.length before (part ++ rest.flatMap Prod.snd) = some part.length ∧
      Pattern.Parted p (lastOf before part) rest
  | before, (false, part) :: rest =>
    (∀ x c y, part = x ++ c :: y →
      p.length (lastOf before x) (c :: (y ++ rest.flatMap Prod.snd)) = none) ∧
      Pattern.Parted p (lastOf before part) rest

theorem scan_quiet {part : List Char}
    (h : ∀ x c y, part = x ++ c :: y → p.length (lastOf before x) (c :: (y ++ after)) = none) :
    scan p.length before 0 (part ++ after) =
      part.map .keep ++ scan p.length (lastOf before part) 0 after := by
  induction part generalizing before with
  | nil => rfl
  | cons c part ih =>
    have hhere : p.length before (c :: (part ++ after)) = none := h [] c part rfl
    rw [cons_append, scan, hhere, Text.last_of_cons, map_cons, cons_append]
    refine congrArg _ (ih fun x d y hpart => ?_)
    rw [← Text.last_of_cons before]
    exact h (c :: x) d y (by rw [hpart, cons_append])

theorem scan_match {part : List Char} (hne : part ≠ [])
    (h : p.length before (part ++ after) = some part.length) :
    scan p.length before 0 (part ++ after) =
      .cut part :: scan p.length (lastOf before part) 0 after := by
  cases part with
  | nil => exact absurd rfl hne
  | cons c part =>
    rw [cons_append] at h ⊢
    rw [scan, h, Text.last_of_cons, ← scan_skip]
    show Piece.cut ((c :: (part ++ after)).take (part.length + 1)) :: _ = _
    rw [← cons_append, ← length_cons, take_left]

theorem sub_parted {parts : List (Bool × List Char)}
    (h : p.Parted none parts) : p.sub replacement (parts.flatMap Prod.snd) =
      parts.flatMap fun part => if part.1 then replacement else part.2 := by
  unfold Pattern.sub
  generalize hbefore : (none : Option Char) = before at h
  clear hbefore
  induction parts generalizing before with
  | nil => rfl
  | cons part rest ih =>
    obtain ⟨cuts, part⟩ := part
    cases cuts with
    | true =>
      obtain ⟨hne, hlength, hrest⟩ := h
      rw [flatMap_cons, scan_match hne hlength, render_cut, ih _ hrest]
      rfl
    | false =>
      obtain ⟨hquiet, hrest⟩ := h
      rw [flatMap_cons, scan_quiet hquiet, render_append, render_kept, ih _ hrest]
      rfl

end AwsOps.Substitute
