import Mathlib.Data.List.Forall2
import AwsOps.Foundation.Text

/-!
# Keyword search

The search of a text for keywords that stand between word boundaries and are compared without
regard to case, as `re.search` does with `\b(…|…)\b` and `IGNORECASE`. The main fact is
`has_keyword_append`: a character that neither belongs to a word nor occurs in a keyword cuts the
search in two. So a text that is put together from delimited parts holds a keyword when and only
when one of its parts does (`search_keyword_flatten`).
-/

namespace AwsOps.Text

open List

/-- There is a word boundary `\b` between two neighbours, of which the ends of the text have
one. -/
def boundary (U : Unicode) (before after : Option Char) : Bool :=
  before.any (isWord U) != after.any (isWord U)

/-- The upper-case keyword stands at the start of the text and a word boundary follows it. -/
def keywordHere (U : Unicode) : List Char → Option Char → List Char → Bool
  | [], before, text => boundary U before text.head?
  | k :: keyword, _, c :: text => foldCase c == k && keywordHere U keyword (some c) text
  | _ :: _, _, [] => false

/-- Some keyword stands between word boundaries in the text, of which the character before it is
given. -/
def hasKeyword (U : Unicode) (keywords : List (List Char)) : Option Char → List Char → Bool
  | _, [] => false
  | before, c :: text =>
    (boundary U before (some c) &&
        keywords.any fun keyword => keywordHere U keyword before (c :: text)) ||
      hasKeyword U keywords (some c) text

/-- `\b(…|…)\b` finds a match in the text. -/
def searchKeyword (U : Unicode) (keywords : List (List Char)) (text : List Char) : Bool :=
  hasKeyword U keywords none text

/-- The character belongs to no word and to no keyword, and no keyword is empty. -/
structure Separates (U : Unicode) (keywords : List (List Char)) (q : Char) : Prop where
  not_word : isWord U q = false
  not_letter : ∀ keyword ∈ keywords, foldCase q ∉ keyword
  nonempty : ∀ keyword ∈ keywords, keyword ≠ []

variable {U : Unicode} {keywords : List (List Char)} {q : Char}

theorem keyword_here_append (hq : isWord U q = false) (keyword : List Char)
    (hletter : foldCase q ∉ keyword) (before : Option Char) (left right : List Char) :
    keywordHere U keyword before (left ++ q :: right) = keywordHere U keyword before left := by
  induction keyword generalizing before left with
  | nil => cases left <;> simp [keywordHere, boundary, hq]
  | cons k keyword ih =>
    simp only [mem_cons, not_or] at hletter
    cases left with
    | nil => simp [keywordHere, beq_eq_false_iff_ne.mpr hletter.1]
    | cons c left =>
      simp only [cons_append, keywordHere]
      rw [ih hletter.2]

theorem has_keyword_before (hnonempty : ∀ keyword ∈ keywords, keyword ≠ [])
    {before other : Option Char} (h : before.any (isWord U) = other.any (isWord U))
    (text : List Char) :
    hasKeyword U keywords before text = hasKeyword U keywords other text := by
  cases text with
  | nil => rfl
  | cons c text =>
    have hhere : ∀ keyword ∈ keywords,
        keywordHere U keyword before (c :: text) = keywordHere U keyword other (c :: text) := by
      intro keyword hmem
      obtain ⟨k, rest, rfl⟩ := exists_cons_of_ne_nil (hnonempty keyword hmem)
      rfl
    have hany : (keywords.any fun keyword => keywordHere U keyword before (c :: text)) =
        keywords.any fun keyword => keywordHere U keyword other (c :: text) := by
      rw [Bool.eq_iff_iff]
      simp only [any_eq_true]
      exact exists_congr fun keyword => and_congr_right fun hmem => by rw [hhere keyword hmem]
    simp only [hasKeyword, boundary, h, hany]

theorem has_keyword_append (hq : Separates U keywords q) (before : Option Char)
    (left right : List Char) :
    hasKeyword U keywords before (left ++ q :: right) =
      (hasKeyword U keywords before left || searchKeyword U keywords right) := by
  have hhere : ∀ (before : Option Char) (left : List Char),
      (keywords.any fun keyword => keywordHere U keyword before (left ++ q :: right)) =
        keywords.any fun keyword => keywordHere U keyword before left := by
    intro before left
    rw [Bool.eq_iff_iff]
    simp only [any_eq_true]
    exact exists_congr fun keyword => and_congr_right fun hmem => by
      rw [keyword_here_append hq.not_word keyword (hq.not_letter keyword hmem)]
  induction left generalizing before with
  | nil =>
    have hnone : (keywords.any fun keyword => keywordHere U keyword before []) = false := by
      rw [any_eq_false]
      intro keyword hmem
      obtain ⟨k, rest, rfl⟩ := exists_cons_of_ne_nil (hq.nonempty keyword hmem)
      simp [keywordHere]
    have hright : hasKeyword U keywords (some q) right = searchKeyword U keywords right :=
      has_keyword_before hq.nonempty (by simp [hq.not_word]) right
    simp only [nil_append, hasKeyword, Bool.false_or, hright]
    rw [show q :: right = [] ++ q :: right from rfl, hhere, hnone, Bool.and_false, Bool.false_or]
  | cons c left ih =>
    simp only [cons_append, hasKeyword]
    rw [ih, ← cons_append, hhere, Bool.or_assoc]

theorem search_keyword_cons (hq : Separates U keywords q) (text : List Char) :
    searchKeyword U keywords (q :: text) = searchKeyword U keywords text := by
  have h := has_keyword_append hq none [] text
  simpa [searchKeyword, hasKeyword] using h

theorem search_keyword_append (hq : Separates U keywords q) (left right : List Char) :
    searchKeyword U keywords (left ++ q :: right) =
      (searchKeyword U keywords left || searchKeyword U keywords right) :=
  has_keyword_append hq none left right

/-- The text ends in a separator. -/
def Closed (U : Unicode) (keywords : List (List Char)) (text : List Char) : Prop :=
  ∃ front q, text = front ++ [q] ∧ Separates U keywords q

theorem search_keyword_flatten (parts : List (List Char)) (last : List Char)
    (h : ∀ part ∈ parts, Closed U keywords part) :
    searchKeyword U keywords (parts.flatten ++ last) =
      (parts.any (searchKeyword U keywords) || searchKeyword U keywords last) := by
  induction parts with
  | nil => simp
  | cons part parts ih =>
    have hrest := ih fun other hmem => h other (mem_cons_of_mem part hmem)
    obtain ⟨front, q, rfl, hq⟩ := h part mem_cons_self
    have hpart : searchKeyword U keywords (front ++ [q]) = searchKeyword U keywords front := by
      rw [search_keyword_append hq]
      simp [searchKeyword, hasKeyword]
    rw [flatten_cons, any_cons, hpart, Bool.or_assoc, ← hrest]
    simp only [append_assoc, cons_append, nil_append]
    exact search_keyword_append hq front _

theorem search_keyword_quoted (hq : Separates U keywords q) (text : List Char) :
    searchKeyword U keywords (q :: (text ++ [q])) = searchKeyword U keywords text := by
  rw [search_keyword_cons hq, search_keyword_append hq]
  simp [searchKeyword, hasKeyword]

theorem search_keyword_of_no_letter (hnonempty : ∀ keyword ∈ keywords, keyword ≠ [])
    (text : List Char) (h : ∀ c ∈ text, ∀ keyword ∈ keywords, foldCase c ∉ keyword) :
    searchKeyword U keywords text = false := by
  suffices ∀ before, hasKeyword U keywords before text = false from this none
  induction text with
  | nil => intro before; rfl
  | cons c text ih =>
    intro before
    have hnone : (keywords.any fun keyword => keywordHere U keyword before (c :: text)) =
        false := by
      rw [any_eq_false]
      intro keyword hmem
      have hletter := h c mem_cons_self keyword hmem
      obtain ⟨k, rest, rfl⟩ := exists_cons_of_ne_nil (hnonempty keyword hmem)
      simp only [mem_cons, not_or] at hletter
      simp [keywordHere, hletter.1]
    have hrest := ih (fun d hmem => h d (mem_cons_of_mem c hmem)) (some c)
    simp [hasKeyword, hnone, hrest]

section Similar

/-- The two characters are the same to the search. -/
structure SameLetter (U V : Unicode) (c d : Char) : Prop where
  fold : foldCase c = foldCase d
  word : isWord U c = isWord V d

variable {V : Unicode}

/-- A keyword stands at the start of two texts alike. -/
theorem keyword_here_similar {left right : List Char} (h : List.Forall₂ (SameLetter U V) left right)
    (keyword : List Char) {before other : Option Char}
    (hbefore : before.any (isWord U) = other.any (isWord V)) :
    keywordHere U keyword before left = keywordHere V keyword other right := by
  induction keyword generalizing before other left right with
  | nil =>
    cases h with
    | nil => simp [keywordHere, boundary, hbefore]
    | cons hhead htail => simp [keywordHere, boundary, hbefore, hhead.word]
  | cons k keyword ih =>
    cases h with
    | nil => rfl
    | cons hhead htail =>
      have hword : (some _).any (isWord U) = (some _).any (isWord V) := hhead.word
      simp only [keywordHere, hhead.fold]
      rw [ih htail hword]

theorem search_keyword_similar {left right : List Char}
    (h : List.Forall₂ (SameLetter U V) left right) :
    searchKeyword U keywords left = searchKeyword V keywords right := by
  suffices ∀ before other : Option Char, before.any (isWord U) = other.any (isWord V) →
      hasKeyword U keywords before left = hasKeyword V keywords other right from
    this none none rfl
  induction h with
  | nil => intros; rfl
  | cons hhead htail ih =>
    intro before other hbefore
    simp only [hasKeyword, boundary, Option.any_some, hbefore, hhead.word,
      keyword_here_similar (.cons hhead htail) _ hbefore]
    rw [ih (some _) (some _) hhead.word]

theorem search_keyword_ascii (U : Unicode) (keywords : List (List Char)) {text : List Char}
    (h : text.all isAscii) : searchKeyword U keywords text = searchKeyword .ascii keywords text := by
  refine search_keyword_similar (List.forall₂_same.2 fun c hmem => ⟨rfl, ?_⟩)
  have hascii := all_eq_true.mp h c hmem
  simp [isWord, U.alnum_ascii c hascii, Unicode.ascii]

end Similar

end AwsOps.Text
