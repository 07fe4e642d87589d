import AwsOps.Foundation.Substitute
import AwsOps.Foundation.Tokens

/-!
# Blanking comments and literals by substitution

The comments of a text and then its literals are replaced by substitution with two patterns, beside a
lexer that tells which tokens are comments and which are literals. `strip_eq` says when the two
passes leave what the lexer leaves: no match may begin in a token that is to stay. What is left has
the occurrences of a name that lie in the tokens that stay (`stands_iff`).
-/

namespace AwsOps.Blanking

open List Substitute

open Substitute (Classes Pattern)
open Text (isAscii lastOf last_of_append)
open Tokens (Lexer Token Every apostrophe)

/-- A character that is no part of a word. -/
def Mark (c : Char) : Prop :=
  isAscii c ∧ c.isAlphanum = false ∧ c ≠ '_'

theorem Mark.not_word {c : Char} (h : Mark c) (E : Classes) : E.word c = false := by
  rw [E.word_ascii c h.1, h.2.1, Bool.false_or]
  exact beq_false_of_ne h.2.2

/-- What stands in the place of a comment, and in the place of a literal. -/
def gap : List Char := [' ']

def emptyLiteral : List Char := [' ', apostrophe, apostrophe, ' ']

/-- Two patterns beside a lexer. The patterns match the comments and the literals of the lexer. A
comment or literal begins and ends with a mark, or runs to the end of its line. -/
structure Dialect (κ : Type) where
  lexer : Lexer κ Unit
  isComment : Token κ → Bool
  isLiteral : Token κ → Bool
  comment : Pattern
  literal : Pattern
  comment_context : ∀ before text, comment.length before text = comment.length none text
  literal_context : ∀ before text, literal.length before text = literal.length none text
  literal_gap : ∀ rest, literal.length none (' ' :: rest) = none
  match_comment : ∀ c rest after, c :: rest = (lexer.first () c rest).text ++ after →
    isComment (lexer.first () c rest) →
      comment.length none ((lexer.first () c rest).text ++ after) =
        some (lexer.first () c rest).text.length
  match_literal : ∀ c rest after, c :: rest = (lexer.first () c rest).text ++ after →
    isLiteral (lexer.first () c rest) → ∀ later,
      later.head? = after.head? ∨ later.head? = some ' ' →
        literal.length none ((lexer.first () c rest).text ++ later) =
          some (lexer.first () c rest).text.length
  opens : ∀ c rest, isComment (lexer.first () c rest) ∨ isLiteral (lexer.first () c rest) → Mark c
  closes : ∀ c rest after, c :: rest = (lexer.first () c rest).text ++ after →
    isComment (lexer.first () c rest) ∨ isLiteral (lexer.first () c rest) →
      (∀ d, (lexer.first () c rest).text.getLast? = some d → Mark d) ∨ after.head? = some '\n' ∨
        after = []

variable {κ : Type} (D : Dialect κ)

/-- Both passes. -/
def Dialect.strip (text : List Char) : List Char :=
  D.literal.sub emptyLiteral (D.comment.sub gap text)

/-- What is left of a token after the first pass, and after both. -/
def Dialect.uncommented (t : Token κ) : List Char :=
  if D.isComment t then gap else t.text

def Dialect.blanked (t : Token κ) : List Char :=
  if D.isComment t then gap else if D.isLiteral t then emptyLiteral else t.text

def Dialect.stays (t : Token κ) : Bool :=
  !D.isComment t && !D.isLiteral t

/-- No match of the first pattern begins in a token that is no comment, and after the first pass
none of the second begins in a token that stays. -/
def Dialect.Undisturbed : List (Token κ) → Prop
  | [] => True
  | t :: rest =>
    (D.isComment t = false → ∀ x c y, t.text = x ++ c :: y →
      D.comment.length none (c :: (y ++ rest.flatMap Token.text)) = none) ∧
    (D.stays t → ∀ x c y, t.text = x ++ c :: y →
      D.literal.length none (c :: (y ++ rest.flatMap D.uncommented)) = none) ∧
    Dialect.Undisturbed rest

/-- No match of the pattern begins in the text. -/
def quiet (p : Pattern) (text after : List Char) : Bool :=
  text.tails.all fun y => y.isEmpty || (p.length none (y ++ after)).isNone

theorem quiet_iff {p : Pattern} {text after : List Char} : quiet p text after ↔
    ∀ x c y, text = x ++ c :: y → p.length none (c :: (y ++ after)) = none := by
  unfold quiet
  rw [all_eq_true]
  constructor
  · intro h x c y htext
    have hnone := h (c :: y) ((mem_tails _ _).mpr ⟨x, htext.symm⟩)
    simpa using hnone
  · intro h tail htail
    obtain ⟨x, hx⟩ := (mem_tails _ _).mp htail
    cases tail with
    | nil => rfl
    | cons c y =>
      have hnone := h x c y hx.symm
      simpa using hnone

/-- The condition can be checked. -/
instance Dialect.undisturbedDecidable : (ts : List (Token κ)) → Decidable (D.Undisturbed ts)
  | [] => isTrue trivial
  | t :: rest =>
    haveI := Dialect.undisturbedDecidable rest
    decidable_of_iff
      ((D.isComment t = false → quiet D.comment t.text (rest.flatMap Token.text)) ∧
        (D.stays t → quiet D.literal t.text (rest.flatMap D.uncommented)) ∧
        D.Undisturbed rest)
      (by rw [quiet_iff, quiet_iff, Dialect.Undisturbed])

/-- What is known of a token that is read, given the text after it. -/
structure Dialect.Read (t : Token κ) (after : List Char) : Prop where
  nonempty : t.text ≠ []
  comment : D.isComment t → D.comment.length none (t.text ++ after) = some t.text.length
  literal : D.isLiteral t → ∀ later, later.head? = after.head? ∨ later.head? = some ' ' →
    D.literal.length none (t.text ++ later) = some t.text.length
  opens : D.stays t = false → ∀ c, t.text.head? = some c → Mark c
  closes : D.stays t = false → (∀ c, t.text.getLast? = some c → Mark c) ∨
    after.head? = some '\n' ∨ after = []

variable {D}

theorem stays_eq_false {t : Token κ} : D.stays t = false ↔ D.isComment t ∨ D.isLiteral t := by
  unfold Dialect.stays
  cases D.isComment t <;> cases D.isLiteral t <;> simp

theorem every_read (text : List Char) :
    Every (fun _ t after => D.Read t after) [] (D.lexer.tokens () text) := by
  refine Tokens.every_tokens ?_ (Tokens.every_true [] _)
  intro s _ c rest after htext _
  obtain ⟨more, hfirst, -⟩ := D.lexer.reads () c rest
  refine ⟨?_, D.match_comment c rest after htext, D.match_literal c rest after htext, ?_, ?_⟩
  · rw [hfirst]
    exact cons_ne_nil _ _
  · intro hstays d hd
    rw [hfirst, List.head?_cons] at hd
    rw [← Option.some.inj hd]
    exact D.opens c rest (stays_eq_false.mp hstays)
  · intro hstays
    exact D.closes c rest after htext (stays_eq_false.mp hstays)

variable {ts : List (Token κ)} {before : List Char}

theorem parted_comment (hread : Every (fun _ t after => D.Read t after) before ts)
    (h : D.Undisturbed ts) (last : Option Char) :
    D.comment.Parted last (ts.map fun t => (D.isComment t, t.text)) := by
  induction ts generalizing before last with
  | nil => trivial
  | cons t rest ih =>
    have htexts : (rest.map fun t => (D.isComment t, t.text)).flatMap Prod.snd =
        rest.flatMap Token.text := by rw [flatMap_map]
    have hrest := ih hread.2 h.2.2 (lastOf last t.text)
    cases hcomment : D.isComment t with
    | true =>
      rw [map_cons, hcomment]
      refine ⟨hread.1.nonempty, ?_, hrest⟩
      rw [D.comment_context, htexts]
      exact hread.1.comment hcomment
    | false =>
      rw [map_cons, hcomment]
      refine ⟨fun x c y hxy => ?_, hrest⟩
      rw [D.comment_context, htexts]
      exact h.1 hcomment x c y hxy

/-- After the first pass a text begins as it did, or with a blank. -/
theorem head_uncommented (hread : Every (fun _ t after => D.Read t after) before ts) :
    (ts.flatMap D.uncommented).head? = (ts.flatMap Token.text).head? ∨
      (ts.flatMap D.uncommented).head? = some ' ' := by
  cases ts with
  | nil => exact Or.inl rfl
  | cons t rest =>
    rw [flatMap_cons, flatMap_cons, Dialect.uncommented]
    split
    · exact Or.inr rfl
    · left
      obtain ⟨c, more, hmore⟩ := exists_cons_of_ne_nil hread.1.nonempty
      rw [hmore]
      rfl

/-- The second pass cuts what the first has left into the literals and the rest. -/
theorem parted_literal (hread : Every (fun _ t after => D.Read t after) before ts)
    (h : D.Undisturbed ts) (last : Option Char) :
    D.literal.Parted last
      (ts.map fun t => (!D.isComment t && D.isLiteral t, D.uncommented t)) := by
  induction ts generalizing before last with
  | nil => trivial
  | cons t rest ih =>
    have htexts : (rest.map fun t => (!D.isComment t && D.isLiteral t, D.uncommented t)).flatMap
        Prod.snd = rest.flatMap D.uncommented := by rw [flatMap_map]
    have hrest := ih hread.2 h.2.2
    cases hcomment : D.isComment t with
    | true =>
      have hout : D.uncommented t = gap := if_pos hcomment
      rw [map_cons, hcomment, hout]
      refine ⟨fun x c y hxy => ?_, hrest _⟩
      rw [D.literal_context]
      cases x with
      | nil =>
        obtain rfl := (List.cons.inj hxy).1
        exact D.literal_gap _
      | cons d x => cases x <;> cases (List.cons.inj hxy).2
    | false =>
      have hout : D.uncommented t = t.text := if_neg (by simp [hcomment])
      cases hliteral : D.isLiteral t with
      | true =>
        rw [map_cons, hcomment, hliteral, hout]
        refine ⟨hread.1.nonempty, ?_, hrest _⟩
        rw [D.literal_context, htexts]
        exact hread.1.literal hliteral _ (head_uncommented hread.2)
      | false =>
        rw [map_cons, hcomment, hliteral, hout]
        refine ⟨fun x c y hxy => ?_, hrest _⟩
        rw [D.literal_context, htexts]
        exact h.2.1 (by simp [Dialect.stays, hcomment, hliteral]) x c y hxy

theorem strip_eq {text : List Char} (h : D.Undisturbed (D.lexer.tokens () text)) :
    D.strip text = (D.lexer.tokens () text).flatMap D.blanked := by
  have hread := every_read (D := D) text
  have htext : text = ((D.lexer.tokens () text).map fun t => (D.isComment t, t.text)).flatMap
      Prod.snd := by
    rw [flatMap_map]
    exact (Lexer.flat_map_tokens () text).symm
  have hfirst : D.comment.sub gap text = (D.lexer.tokens () text).flatMap D.uncommented := by
    conv_lhs => rw [htext]
    rw [sub_parted (parted_comment hread h none), flatMap_map]
    rfl
  have hsnd : (D.lexer.tokens () text).flatMap D.uncommented =
      ((D.lexer.tokens () text).map fun t =>
        (!D.isComment t && D.isLiteral t, D.uncommented t)).flatMap Prod.snd := by
    rw [flatMap_map]
  rw [Dialect.strip, hfirst, hsnd, sub_parted (parted_literal hread h none), flatMap_map]
  refine flatMap_congr fun t _ => ?_
  unfold Dialect.blanked Dialect.uncommented
  cases D.isComment t <;> cases D.isLiteral t <;> rfl

/-! ## Names -/

/-- The name stands in the text between characters that are no part of a word. -/
def Stands (E : Classes) (name text : List Char) : Prop :=
  ∃ front back, text = front ++ (name ++ back) ∧ (lastOf none front).any E.word = false ∧
    back.head?.any E.word = false

variable (D) in
/-- The name stands in the text of the tokens, within tokens that stay. -/
def Dialect.StandsOutside (E : Classes) (name : List Char) (ts : List (Token κ)) : Prop :=
  ∃ earlier run later front back, ts = earlier ++ (run ++ later) ∧ (∀ t ∈ run, D.stays t) ∧
    run.flatMap Token.text = front ++ (name ++ back) ∧
    (lastOf none (earlier.flatMap Token.text ++ front)).any E.word = false ∧
    (back ++ later.flatMap Token.text).head?.any E.word = false

/-- The name has no character of what comments and literals are replaced by, and no line break. -/
def Proper (name : List Char) : Prop :=
  name ≠ [] ∧ ∀ c ∈ name, c ≠ ' ' ∧ c ≠ apostrophe ∧ c ≠ '\n'

theorem blanked_of_stays {t : Token κ} (h : D.stays t) : D.blanked t = t.text := by
  simp only [Dialect.stays, Bool.and_eq_true, Bool.not_eq_true'] at h
  simp [Dialect.blanked, h.1, h.2]

theorem blanked_of_not_stays {t : Token κ} (h : D.stays t = false) :
    D.blanked t = gap ∨ D.blanked t = emptyLiteral := by
  unfold Dialect.blanked
  split
  · exact Or.inl rfl
  · have hliteral : D.isLiteral t := (stays_eq_false.mp h).resolve_left ‹_›
    exact Or.inr (if_pos hliteral)

/-- No part of a proper name begins in the place of a comment or literal. -/
theorem stays_of_start {t : Token κ} {c : Char} {name rest after : List Char}
    (hname : ∀ d ∈ c :: name, d ≠ ' ' ∧ d ≠ apostrophe ∧ d ≠ '\n')
    (h : D.blanked t ++ rest = c :: name ++ after) : D.stays t := by
  cases hstays : D.stays t with
  | true => rfl
  | false =>
    have hc := (hname c mem_cons_self).1
    rcases blanked_of_not_stays hstays with hout | hout
    all_goals
      rw [hout] at h
      exact absurd (List.cons.inj h).1.symm hc

theorem run_of_start {more name after : List Char}
    (hname : ∀ c ∈ name, c ≠ ' ' ∧ c ≠ apostrophe ∧ c ≠ '\n')
    (h : more ++ ts.flatMap D.blanked = name ++ after) :
    ∃ run later back, ts = run ++ later ∧ (∀ t ∈ run, D.stays t) ∧
      more ++ run.flatMap Token.text = name ++ back ∧ after = back ++ later.flatMap D.blanked := by
  induction ts generalizing more name with
  | nil =>
    refine ⟨[], [], after, rfl, fun _ ht => absurd ht not_mem_nil, ?_, ?_⟩
    · simpa using h
    · simp
  | cons t ts ih =>
    rcases append_eq_append_iff.mp h with ⟨tail, rfl, hrest⟩ | ⟨back, rfl, hafter⟩
    · cases tail with
      | nil =>
        refine ⟨[], t :: ts, [], rfl, fun _ ht => absurd ht not_mem_nil, ?_, ?_⟩
        · simp
        · simpa using hrest.symm
      | cons c tail =>
        have htail : ∀ d ∈ c :: tail, d ≠ ' ' ∧ d ≠ apostrophe ∧ d ≠ '\n' := fun d hd =>
          hname d (mem_append_right more hd)
        rw [flatMap_cons] at hrest
        have hstays := stays_of_start htail hrest
        rw [blanked_of_stays hstays] at hrest
        obtain ⟨run, later, back, rfl, hrun, htext, hafter⟩ := ih htail hrest
        refine ⟨t :: run, later, back, rfl, forall_mem_cons.mpr ⟨hstays, hrun⟩, ?_, hafter⟩
        rw [flatMap_cons, htext, append_assoc]
    · exact ⟨[], t :: ts, back, rfl, fun _ ht => absurd ht not_mem_nil, by simp, hafter⟩

theorem run_of_blanked {front name back : List Char} (hname : Proper name)
    (h : ts.flatMap D.blanked = front ++ (name ++ back)) :
    ∃ earlier run later left right, ts = earlier ++ (run ++ later) ∧ (∀ t ∈ run, D.stays t) ∧
      run.flatMap Token.text = left ++ (name ++ right) ∧
      front = earlier.flatMap D.blanked ++ left ∧ back = right ++ later.flatMap D.blanked := by
  obtain ⟨c, name', hcons⟩ := exists_cons_of_ne_nil hname.1
  induction ts generalizing front with
  | nil =>
    rw [hcons] at h
    simp at h
  | cons t ts ih =>
    rw [flatMap_cons] at h
    have hbehind : ∀ more, front = D.blanked t ++ more →
        ts.flatMap D.blanked = more ++ (name ++ back) →
          ∃ earlier run later left right, t :: ts = earlier ++ (run ++ later) ∧
            (∀ t ∈ run, D.stays t) ∧ run.flatMap Token.text = left ++ (name ++ right) ∧
            front = earlier.flatMap D.blanked ++ left ∧
            back = right ++ later.flatMap D.blanked := by
      intro more hfront hrest
      obtain ⟨earlier, run, later, left, right, hts, hrun, htext, hmore, hback⟩ := ih hrest
      refine ⟨t :: earlier, run, later, left, right, by rw [hts, cons_append], hrun, htext,
        ?_, hback⟩
      rw [hfront, hmore, flatMap_cons, append_assoc]
    rcases append_eq_append_iff.mp h with ⟨more, hfront, hrest⟩ | ⟨more, hout, hrest⟩
    · exact hbehind more hfront hrest
    · cases more with
      | nil => exact hbehind [] (by rw [hout, append_nil, append_nil]) hrest.symm
      | cons d more =>
        -- The name begins in this token.
        have hd : d = c := by
          rw [hcons] at hrest
          exact (List.cons.inj hrest).1.symm
        have hstays : D.stays t := by
          cases hstays : D.stays t with
          | true => rfl
          | false =>
            have hc := hname.2 c (by rw [hcons]; exact mem_cons_self)
            have hmem : d ∈ D.blanked t := by
              rw [hout]
              exact mem_append_right front mem_cons_self
            rcases blanked_of_not_stays hstays with hgap | hgap
            all_goals
              rw [hgap, hd] at hmem
              simp [gap, emptyLiteral, hc.1, hc.2.1] at hmem
        obtain ⟨run, later, right, rfl, hrun, htext, hback⟩ := run_of_start hname.2 hrest.symm
        refine ⟨[], t :: run, later, front, right, rfl, forall_mem_cons.mpr ⟨hstays, hrun⟩,
          ?_, rfl, hback⟩
        rw [flatMap_cons, ← blanked_of_stays hstays, hout, append_assoc, htext]

theorem blank_mark : Mark ' ' := by
  unfold Mark
  decide

theorem blanked_ends {t : Token κ} (h : D.stays t = false) :
    (D.blanked t).head? = some ' ' ∧ (D.blanked t).getLast? = some ' ' := by
  rcases blanked_of_not_stays h with hout | hout <;> rw [hout] <;> exact ⟨rfl, rfl⟩

/-- Before a text that does not begin with a line break, a word ends in what is left where it ends
in the text. -/
theorem left_boundary (E : Classes) {earlier rest : List (Token κ)}
    (hread : Every (fun _ t after => D.Read t after) before (earlier ++ rest)) {c : Char}
    (hhead : (rest.flatMap Token.text).head? = some c) (hc : c ≠ '\n') :
    (lastOf none (earlier.flatMap Token.text)).any E.word =
      (lastOf none (earlier.flatMap D.blanked)).any E.word := by
  rcases eq_nil_or_concat earlier with rfl | ⟨init, t, rfl⟩
  · rfl
  rw [concat_eq_append] at hread ⊢
  rw [append_assoc, singleton_append] at hread
  have ht := Tokens.every_append hread
  rw [flatMap_append, flatMap_append, flatMap_singleton, flatMap_singleton,
    last_of_append, last_of_append]
  have hlast : ∀ text : List Char, ∀ o : Option Char, text ≠ [] → lastOf o text = text.getLast? := by
    intro text o hne
    rw [lastOf, List.getLast?_eq_some_getLast hne, Option.some_or]
  rw [hlast _ _ ht.nonempty]
  cases hstays : D.stays t with
  | true => rw [blanked_of_stays hstays, hlast _ _ ht.nonempty]
  | false =>
    have hout := (blanked_ends hstays).2
    rw [hlast _ _ (by intro hnil; rw [hnil] at hout; cases hout), hout, Option.any_some,
      blank_mark.not_word E]
    rcases ht.closes hstays with hmark | hline | hnil
    · cases hend : t.text.getLast? with
      | none => rfl
      | some d => exact (hmark d hend).not_word E
    · rw [hhead] at hline
      exact absurd (Option.some.inj hline) hc
    · rw [hnil] at hhead
      cases hhead

theorem right_boundary (E : Classes) {later : List (Token κ)}
    (hread : Every (fun _ t after => D.Read t after) before later) :
    (later.flatMap Token.text).head?.any E.word = (later.flatMap D.blanked).head?.any E.word := by
  cases later with
  | nil => rfl
  | cons t later =>
    have hhead : ∀ text more : List Char, text ≠ [] → (text ++ more).head? = text.head? := by
      intro text more hne
      obtain ⟨c, rest, rfl⟩ := exists_cons_of_ne_nil hne
      rfl
    rw [flatMap_cons, flatMap_cons, hhead _ _ hread.1.nonempty]
    cases hstays : D.stays t with
    | true => rw [blanked_of_stays hstays, hhead _ _ hread.1.nonempty]
    | false =>
      have hout := (blanked_ends hstays).1
      rw [hhead _ _ (by intro hnil; rw [hnil] at hout; cases hout), hout, Option.any_some,
        blank_mark.not_word E]
      cases hfirst : t.text.head? with
      | none => rfl
      | some d => exact (hread.1.opens hstays d hfirst).not_word E

theorem every_right {P : List Char → Token κ → List Char → Prop} {left right : List (Token κ)}
    (h : Every P before (left ++ right)) :
    Every P ((left.flatMap Token.text).reverse ++ before) right := by
  induction left generalizing before with
  | nil => exact h
  | cons t left ih =>
    rw [flatMap_cons, reverse_append, append_assoc]
    exact ih h.2

theorem stands_iff (E : Classes) {name : List Char} (hname : Proper name)
    (hread : Every (fun _ t after => D.Read t after) before ts) :
    Stands E name (ts.flatMap D.blanked) ↔ D.StandsOutside E name ts := by
  obtain ⟨c, name', hcons⟩ := exists_cons_of_ne_nil hname.1
  have hc : c ≠ '\n' := (hname.2 c (by rw [hcons]; exact mem_cons_self)).2.2
  -- The neighbours of the name are told apart alike in the text and in what is left.
  have hedges : ∀ {earlier run later : List (Token κ)} {left right : List Char},
      ts = earlier ++ (run ++ later) → run.flatMap Token.text = left ++ (name ++ right) →
      (lastOf none (earlier.flatMap Token.text ++ left)).any E.word =
          (lastOf none (earlier.flatMap D.blanked ++ left)).any E.word ∧
        (right ++ later.flatMap Token.text).head?.any E.word =
          (right ++ later.flatMap D.blanked).head?.any E.word := by
    intro earlier run later left right hts htext
    constructor
    · rcases eq_nil_or_concat left with rfl | ⟨init, d, rfl⟩
      · rw [hts] at hread
        rw [append_nil, append_nil]
        refine left_boundary E hread ?_ hc
        rw [flatMap_append, htext, hcons]
        rfl
      · rw [concat_eq_append]
        simp only [last_of_append]
        rfl
    · cases right with
      | nil =>
        rw [hts, ← append_assoc] at hread
        exact right_boundary E (every_right hread)
      | cons d right => rfl
  constructor
  · rintro ⟨front, back, hblanked, hfront, hback⟩
    obtain ⟨earlier, run, later, left, right, hts, hrun, htext, rfl, rfl⟩ :=
      run_of_blanked hname hblanked
    obtain ⟨hleft, hright⟩ := hedges hts htext
    exact ⟨earlier, run, later, left, right, hts, hrun, htext, hleft.trans hfront,
      hright.trans hback⟩
  · rintro ⟨earlier, run, later, left, right, hts, hrun, htext, hfront, hback⟩
    obtain ⟨hleft, hright⟩ := hedges hts htext
    have hkept : run.flatMap D.blanked = run.flatMap Token.text :=
      flatMap_congr fun t ht => blanked_of_stays (hrun t ht)
    refine ⟨earlier.flatMap D.blanked ++ left, right ++ later.flatMap D.blanked, ?_,
      hleft.symm.trans hfront, hright.symm.trans hback⟩
    rw [hts, flatMap_append, flatMap_append, hkept, htext]
    simp

end AwsOps.Blanking
