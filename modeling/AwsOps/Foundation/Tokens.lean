import Mathlib.Data.List.TakeWhile

/-!
# Tokens of a text

Lexers that read a text from the left, one token at a time, with a state between the tokens. The
tokens of a text put together are the text (`flat_map_tokens`), and what holds of the empty text and
is kept by a token in front holds of every text (`Lexer.induct`).
-/

namespace AwsOps.Tokens

open List

/-- A token: its kind and its text. -/
structure Token (κ : Type) where
  kind : κ
  text : List Char
  deriving DecidableEq

/-- A lexer: the token that opens a text, and the state after a token. -/
structure Lexer (κ σ : Type) where
  first : σ → Char → List Char → Token κ
  after : σ → Token κ → σ
  reads : ∀ s c rest, ∃ more, (first s c rest).text = c :: more ∧ more <+: rest

variable {κ σ : Type} (L : Lexer κ σ)

/-- The tokens of a text, of which the first characters are still to be skipped. -/
def Lexer.tokensFrom : σ → Nat → List Char → List (Token κ)
  | _, _, [] => []
  | s, skip + 1, _ :: rest => Lexer.tokensFrom s skip rest
  | s, 0, c :: rest =>
    let t := L.first s c rest
    t :: Lexer.tokensFrom (L.after s t) (t.text.length - 1) rest

def Lexer.tokens (s : σ) (text : List Char) : List (Token κ) :=
  L.tokensFrom s 0 text

variable {L}

theorem Lexer.tokens_from_append (s : σ) (skipped text : List Char) :
    L.tokensFrom s skipped.length (skipped ++ text) = L.tokens s text := by
  induction skipped with
  | nil => rfl
  | cons c skipped ih => exact ih

theorem Lexer.tokens_cons (s : σ) (c : Char) (rest : List Char) :
    ∃ tail, c :: rest = (L.first s c rest).text ++ tail ∧ L.tokens s (c :: rest) =
        L.first s c rest :: L.tokens (L.after s (L.first s c rest)) tail := by
  obtain ⟨more, htext, tail, hrest⟩ := L.reads s c rest
  refine ⟨tail, by rw [htext, ← hrest, cons_append], ?_⟩
  show L.first s c rest :: _ = _
  have hskip : (L.first s c rest).text.length - 1 = more.length := by rw [htext]; rfl
  have hfrom : L.tokensFrom (L.after s (L.first s c rest)) more.length rest =
      L.tokens (L.after s (L.first s c rest)) tail := by
    rw [← hrest]
    exact Lexer.tokens_from_append _ more tail
  rw [hskip, hfrom]

theorem Lexer.induct {P : σ → List Char → List (Token κ) → Prop} (nil : ∀ s, P s [] [])
    (cons : ∀ s c rest tail, c :: rest = (L.first s c rest).text ++ tail →
      P (L.after s (L.first s c rest)) tail (L.tokens (L.after s (L.first s c rest)) tail) →
      P s (c :: rest) (L.first s c rest :: L.tokens (L.after s (L.first s c rest)) tail))
    (s : σ) (text : List Char) : P s text (L.tokens s text) := by
  induction hlen : text.length using Nat.strongRecOn generalizing s text with
  | ind n ih =>
    cases text with
    | nil => exact nil s
    | cons c rest =>
      obtain ⟨tail, htext, htokens⟩ := L.tokens_cons s c rest
      rw [htokens]
      refine cons s c rest tail htext (ih tail.length ?_ _ tail rfl)
      obtain ⟨more, hmore, -⟩ := L.reads s c rest
      have hlength := congrArg List.length htext
      rw [hmore, length_append, hlen, length_cons] at hlength
      omega

theorem Lexer.flat_map_tokens (s : σ) (text : List Char) :
    (L.tokens s text).flatMap Token.text = text := by
  refine L.induct (P := fun _ text tokens => tokens.flatMap Token.text = text) (fun _ => rfl) ?_ s
    text
  intro s c rest tail htext ih
  rw [flatMap_cons, ih, htext]

/-- Each token, with the text before it in reverse and the text after it. -/
def Every (P : List Char → Token κ → List Char → Prop) : List Char → List (Token κ) → Prop
  | _, [] => True
  | before, t :: rest =>
    P before t (rest.flatMap Token.text) ∧ Every P (t.text.reverse ++ before) rest

/-- Whether it holds of each token can be computed where it can for one. -/
def decideEvery (P : List Char → Token κ → List Char → Prop) [∀ b t a, Decidable (P b t a)] :
    ∀ before tokens, Decidable (Every P before tokens)
  | _, [] => .isTrue trivial
  | before, t :: rest =>
    have := decideEvery P (t.text.reverse ++ before) rest
    inferInstanceAs (Decidable (P before t (rest.flatMap Token.text) ∧
      Every P (t.text.reverse ++ before) rest))

instance (P : List Char → Token κ → List Char → Prop) [∀ b t a, Decidable (P b t a)]
    (before : List Char) (tokens : List (Token κ)) : Decidable (Every P before tokens) :=
  decideEvery P before tokens

theorem every_true (before : List Char) (tokens : List (Token κ)) :
    Every (fun _ _ _ => True) before tokens := by
  induction tokens generalizing before with
  | nil => trivial
  | cons t tokens ih => exact ⟨trivial, ih _⟩

theorem every_tokens {P Q : List Char → Token κ → List Char → Prop}
    (h : ∀ s before c rest after, c :: rest = (L.first s c rest).text ++ after →
      Q before (L.first s c rest) after → P before (L.first s c rest) after)
    {s : σ} {before text : List Char} (hQ : Every Q before (L.tokens s text)) :
    Every P before (L.tokens s text) := by
  refine L.induct (P := fun _ _ tokens => ∀ before, Every Q before tokens → Every P before tokens)
    (fun _ _ _ => trivial) ?_ s text before hQ
  intro s c rest tail htext ih before hknown
  obtain ⟨hfirst, hrest⟩ := hknown
  refine ⟨?_, ih _ hrest⟩
  rw [Lexer.flat_map_tokens] at hfirst ⊢
  exact h s before c rest tail htext hfirst

theorem every_append {P : List Char → Token κ → List Char → Prop} {before : List Char}
    {left right : List (Token κ)} {t : Token κ} (h : Every P before (left ++ t :: right)) :
    P ((left.flatMap Token.text).reverse ++ before) t (right.flatMap Token.text) := by
  induction left generalizing before with
  | nil => exact h.1
  | cons u left ih =>
    rw [flatMap_cons, reverse_append, append_assoc]
    exact ih h.2

/-! ## Stretches of text -/

/-- The quote of a constant. -/
def apostrophe : Char := Char.ofNat 39

/-- The quotes of identifiers. -/
def doubleQuote : Char := Char.ofNat 34

def backtick : Char := Char.ofNat 96

/-- The escape character. -/
def backslash : Char := Char.ofNat 92

/-- What is read of a quoted text after its opening quote: up to the quote that closes it, or all
of it. A doubled quote does not close it, nor one that is escaped where the text has escapes. -/
def quotedText (escape : Option Char) (quote : Char) : List Char → List Char
  | [] => []
  | [c] => [c]
  | c :: d :: rest =>
    if escape = some c then c :: d :: quotedText escape quote rest
    else if c = quote then if d = quote then c :: d :: quotedText escape quote rest else [c]
    else c :: quotedText escape quote (d :: rest)

/-- What is read up to the end of the first occurrence of a mark, or all of it. -/
def throughText (mark : List Char) : List Char → List Char
  | [] => []
  | c :: rest => if mark.isPrefixOf (c :: rest) then mark else c :: throughText mark rest

/-- What is read of nested block comments after the opening mark, up to the end of the outermost
one, or all of it. -/
def nestedText : Nat → List Char → List Char
  | _, [] => []
  | depth, '/' :: '*' :: rest => '/' :: '*' :: nestedText (depth + 1) rest
  | depth, '*' :: '/' :: rest =>
    if depth ≤ 1 then ['*', '/'] else '*' :: '/' :: nestedText (depth - 1) rest
  | depth, c :: rest => c :: nestedText depth rest

theorem quoted_text_starts (escape : Option Char) (quote : Char) (text : List Char) :
    quotedText escape quote text <+: text := by
  fun_induction quotedText escape quote text <;> simp_all

theorem quoted_text_head (escape : Option Char) (quote c : Char) (text : List Char) :
    ∃ more, quotedText escape quote (c :: text) = c :: more := by
  cases text with
  | nil => exact ⟨[], rfl⟩
  | cons e text =>
    rw [quotedText]
    split
    · exact ⟨_, rfl⟩
    · split
      · split <;> exact ⟨_, rfl⟩
      · exact ⟨_, rfl⟩

theorem through_text_starts (mark text : List Char) : throughText mark text <+: text := by
  fun_induction throughText mark text with
  | case1 => exact prefix_rfl
  | case2 c rest h => exact isPrefixOf_iff_prefix.mp h
  | case3 c rest h ih => exact (prefix_cons_inj c).mpr ih

theorem nested_text_starts (depth : Nat) (text : List Char) : nestedText depth text <+: text := by
  fun_induction nestedText depth text <;> simp_all

/-- A run ends before a character that is not of the class. -/
theorem stop_of_take_while {p : Char → Bool} {text after : List Char}
    (htext : text = text.takeWhile p ++ after) {c : Char} (hc : after.head? = some c) :
    p c = false := by
  induction text with
  | nil =>
    obtain rfl : after = [] := htext.symm
    cases hc
  | cons e text ih =>
    cases he : p e with
    | true =>
      rw [takeWhile_cons_of_pos he, cons_append] at htext
      exact ih (List.cons.inj htext).2
    | false =>
      rw [takeWhile_cons_of_neg (by simp [he]), nil_append] at htext
      rw [← htext] at hc
      rw [← Option.some.inj hc, he]

theorem all_not_of_take_while {p : Char → Bool} {text after : List Char}
    (htext : text = text.takeWhile p ++ after) : after.head?.all (fun c => !p c) = true := by
  cases hhead : after.head? with
  | none => rfl
  | some c => simp [stop_of_take_while htext hhead]

/-- A run of a class is one of a larger class that stops at the same place. -/
theorem take_while_eq_of_stop {p q : Char → Bool} {text after : List Char}
    (htext : text = text.takeWhile p ++ after) (hpq : ∀ c, p c = true → q c = true)
    (hstop : ∀ c, after.head? = some c → q c = false) : text.takeWhile q = text.takeWhile p := by
  induction text with
  | nil => rfl
  | cons e text ih =>
    cases he : p e with
    | true =>
      rw [takeWhile_cons_of_pos he, cons_append] at htext
      rw [takeWhile_cons_of_pos he, takeWhile_cons_of_pos (hpq e he), ih (List.cons.inj htext).2]
    | false =>
      rw [takeWhile_cons_of_neg (by simp [he]), nil_append] at htext
      have hq : q e = false := hstop e (by rw [← htext]; rfl)
      rw [takeWhile_cons, if_neg (by rw [hq]; exact Bool.false_ne_true),
        takeWhile_cons, if_neg (by rw [he]; exact Bool.false_ne_true)]

end AwsOps.Tokens
