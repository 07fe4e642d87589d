import AwsOps.Foundation.Words

/-!
# Phrase search

The search of a text for patterns of letters, classes of characters and word boundaries, as
`re.search` does with `IGNORECASE`. An alternative of a pattern is a list of items, matched with
backtracking. The main fact is `has_phrase_append`: a phrase that matches somewhere is found,
whatever stands before it.
-/

namespace AwsOps.Text

open List Bool

/-- An item of a phrase: an upper-case letter compared without regard to case, one character of a
class, any number of them, or a word boundary. -/
inductive Item
  | letter (upper : Char)
  | one (member : Char → Bool)
  | many (member : Char → Bool)
  | boundary

def letters (keyword : String) : List Item :=
  keyword.toList.map .letter

/-- Any number of characters of a class, and then what `next` asks for. -/
def star (member : Char → Bool) (next : Option Char → List Char → Bool) :
    Option Char → List Char → Bool
  | before, [] => next before []
  | before, c :: text => next before (c :: text) || member c && star member next (some c) text

/-- The phrase stands at the start of the text, of which the character before it is given. -/
def phraseHere (U : Unicode) : List Item → Option Char → List Char → Bool
  | [], _, _ => true
  | .boundary :: items, before, text => boundary U before text.head? && phraseHere U items before text
  | .many member :: items, before, text => star member (phraseHere U items) before text
  | .letter k :: items, _, c :: text => foldCase c == k && phraseHere U items (some c) text
  | .one member :: items, _, c :: text => member c && phraseHere U items (some c) text
  | .letter _ :: _, _, [] => false
  | .one _ :: _, _, [] => false

/-- Some phrase stands in the text, of which the character before it is given. -/
def hasPhrase (U : Unicode) (phrases : List (List Item)) : Option Char → List Char → Bool
  | before, [] => phrases.any fun phrase => phraseHere U phrase before []
  | before, c :: text =>
    (phrases.any fun phrase => phraseHere U phrase before (c :: text)) ||
      hasPhrase U phrases (some c) text

/-- The search finds a match in the text. -/
def searchPhrase (U : Unicode) (phrases : List (List Item)) (text : List Char) : Bool :=
  hasPhrase U phrases none text

variable {U : Unicode}

/-- The character before what follows a text. -/
def lastOf (before : Option Char) (text : List Char) : Option Char :=
  text.getLast?.or before

@[simp] theorem last_of_nil (before : Option Char) : lastOf before [] = before :=
  rfl

@[simp] theorem last_of_append (before : Option Char) (left right : List Char) :
    lastOf before (left ++ right) = lastOf (lastOf before left) right := by
  simp only [lastOf, List.getLast?_append, Option.or_assoc]

@[simp] theorem last_of_cons (before : Option Char) (c : Char) (text : List Char) :
    lastOf before (c :: text) = lastOf (some c) text := by
  simp only [lastOf, List.getLast?_cons]
  cases text.getLast? <;> rfl

theorem phrase_here_letters {word keyword : List Char} (h : word.map foldCase = keyword)
    (items : List Item) (before : Option Char) (text : List Char) :
    phraseHere U (keyword.map .letter ++ items) before (word ++ text) =
      phraseHere U items (lastOf before word) text := by
  subst h
  induction word generalizing before with
  | nil => rfl
  | cons c word ih =>
    simp only [map_cons, cons_append, phraseHere, beq_self_eq_true, Bool.true_and, last_of_cons]
    exact ih (some c)

variable {text : List Char} {phrases : List (List Item)} {before : Option Char}

theorem star_of_run {member : Char → Bool} {next : Option Char → List Char → Bool} {run : List Char}
    (hrun : ∀ c ∈ run, member c = true) (before : Option Char)
    (h : next (lastOf before run) text = true) :
    star member next before (run ++ text) = true := by
  induction run generalizing before with
  | nil => cases text <;> simp_all [star]
  | cons c run ih =>
    rw [cons_append, star]
    have htail : star member next (some c) (run ++ text) = true :=
      ih (fun d hd => hrun d (mem_cons_of_mem c hd)) (some c) (by rwa [last_of_cons] at h)
    rw [hrun c mem_cons_self, htail, Bool.true_and, Bool.or_true]

theorem has_phrase_append {phrase : List Item} (hmem : phrase ∈ phrases) (before : Option Char)
    (left text : List Char) (hhere : phraseHere U phrase (lastOf before left) text = true) :
    hasPhrase U phrases before (left ++ text) = true := by
  have hany : ∀ before, phraseHere U phrase before text = true →
      (phrases.any fun phrase => phraseHere U phrase before text) = true :=
    fun before h => any_eq_true.mpr ⟨phrase, hmem, h⟩
  induction left generalizing before with
  | nil =>
    rw [nil_append]
    cases text with
    | nil => exact hany before hhere
    | cons c text => rw [hasPhrase, hany before hhere, Bool.true_or]
  | cons d left ih =>
    rw [last_of_cons] at hhere
    rw [cons_append, hasPhrase, ih (some d) hhere, Bool.or_true]

/-! ## Phrases alone and their beginnings -/

theorem search_phrase_iff :
    searchPhrase U phrases text = true ↔ ∃ phrase ∈ phrases, searchPhrase U [phrase] text = true := by
  have hall : ∀ before, hasPhrase U phrases before text = true ↔
      ∃ phrase ∈ phrases, hasPhrase U [phrase] before text = true := by
    induction text with
    | nil => simp [hasPhrase]
    | cons c text ih =>
      intro before
      simp only [hasPhrase, or_eq_true, any_eq_true, any_cons, any_nil, Bool.or_false, ih]
      constructor
      · rintro (⟨phrase, hmem, h⟩ | ⟨phrase, hmem, h⟩)
        · exact ⟨phrase, hmem, .inl h⟩
        · exact ⟨phrase, hmem, .inr h⟩
      · rintro ⟨phrase, hmem, h | h⟩
        · exact .inl ⟨phrase, hmem, h⟩
        · exact .inr ⟨phrase, hmem, h⟩
  exact hall none

theorem search_phrase_none : searchPhrase U phrases text = false ↔
      ∀ phrase ∈ phrases, searchPhrase U [phrase] text = false := by
  rw [← not_eq_true, search_phrase_iff]
  simp

theorem star_mono {member : Char → Bool} {next next' : Option Char → List Char → Bool}
    (hnext : ∀ before text, next before text = true → next' before text = true)
    (h : star member next before text = true) :
    star member next' before text = true := by
  induction text generalizing before with
  | nil => exact hnext before [] h
  | cons c text ih =>
    rw [star, or_eq_true, and_eq_true] at h ⊢
    exact h.imp (hnext before _) fun ⟨hc, htext⟩ => ⟨hc, ih htext⟩

theorem phrase_here_beginning {items more : List Item}
    (h : phraseHere U (items ++ more) before text = true) :
    phraseHere U items before text = true := by
  induction items generalizing before text with
  | nil => simp [phraseHere]
  | cons item items ih =>
    cases item with
    | boundary =>
      rw [cons_append, phraseHere, and_eq_true] at h
      rw [phraseHere, and_eq_true]
      exact ⟨h.1, ih h.2⟩
    | many member =>
      rw [cons_append, phraseHere] at h
      rw [phraseHere]
      exact star_mono (fun _ _ => ih) h
    | letter k =>
      cases text with
      | nil => exact absurd h (by simp [phraseHere])
      | cons c text =>
        rw [cons_append, phraseHere, and_eq_true] at h
        rw [phraseHere, and_eq_true]
        exact ⟨h.1, ih h.2⟩
    | one member =>
      cases text with
      | nil => exact absurd h (by simp [phraseHere])
      | cons c text =>
        rw [cons_append, phraseHere, and_eq_true] at h
        rw [phraseHere, and_eq_true]
        exact ⟨h.1, ih h.2⟩

theorem has_phrase_beginning {items more : List Item}
    (h : hasPhrase U [items ++ more] before text = true) :
    hasPhrase U [items] before text = true := by
  induction text generalizing before with
  | nil =>
    simp only [hasPhrase, any_cons, any_nil, Bool.or_false] at h ⊢
    exact phrase_here_beginning h
  | cons c text ih =>
    simp only [hasPhrase, any_cons, any_nil, Bool.or_false, or_eq_true] at h ⊢
    exact h.imp phrase_here_beginning ih

theorem search_phrase_beginning {items more : List Item}
    (h : searchPhrase U [items ++ more] text = true) : searchPhrase U [items] text = true :=
  has_phrase_beginning h

/-! ## Texts that are alike -/

section Alike

/-- Two items that take related characters alike. -/
inductive Alike (R : Char → Char → Prop) : Item → Item → Prop
  | boundary : Alike R .boundary .boundary
  | letter {k : Char} (h : ∀ c d, R c d → foldCase c = foldCase d) : Alike R (.letter k) (.letter k)
  | exact {k : Char} {member : Char → Bool} (h : ∀ c d, R c d → (foldCase c == k) = member d) :
      Alike R (.letter k) (.one member)
  | one {member member' : Char → Bool} (h : ∀ c d, R c d → member c = member' d) :
      Alike R (.one member) (.one member')
  | many {member member' : Char → Bool} (h : ∀ c d, R c d → member c = member' d) :
      Alike R (.many member) (.many member')

variable {R : Char → Char → Prop} {left right : List Char}

theorem star_alike {member member' : Char → Bool} {next next' : Option Char → List Char → Bool}
    (hmember : ∀ c d, R c d → member c = member' d) (hword : ∀ c d, R c d → isWord U c = isWord U d)
    (hnext : ∀ {before other left right}, List.Forall₂ R left right →
      Option.any (isWord U) before = Option.any (isWord U) other →
        next before left = next' other right) (htext : List.Forall₂ R left right)
    {other : Option Char} (hbefore : before.any (isWord U) = other.any (isWord U)) :
    star member next before left = star member' next' other right := by
  induction htext generalizing before other with
  | nil => exact hnext .nil hbefore
  | cons hcd hrest ih =>
    have hsome : (some _).any (isWord U) = (some _).any (isWord U) := hword _ _ hcd
    rw [star, star, hnext (.cons hcd hrest) hbefore, hmember _ _ hcd, ih hsome]

theorem phrase_here_alike {items items' : List Item} (hitems : List.Forall₂ (Alike R) items items')
    (hword : ∀ c d, R c d → isWord U c = isWord U d) (htext : List.Forall₂ R left right)
    {other : Option Char} (hbefore : before.any (isWord U) = other.any (isWord U)) :
    phraseHere U items before left = phraseHere U items' other right := by
  induction hitems generalizing left right before other with
  | nil => simp [phraseHere]
  | cons hitem hrest ih =>
    cases hitem with
    | boundary =>
      have hhead : left.head?.any (isWord U) = right.head?.any (isWord U) := by
        cases htext with
        | nil => rfl
        | cons hcd _ => exact hword _ _ hcd
      rw [phraseHere, phraseHere, boundary, boundary, hbefore, hhead, ih htext hbefore]
    | many hmember =>
      rw [phraseHere, phraseHere]
      exact star_alike hmember hword (fun htext hbefore => ih htext hbefore) htext hbefore
    | letter hletter =>
      cases htext with
      | nil => rfl
      | cons hcd htext =>
        have hsome : (some _).any (isWord U) = (some _).any (isWord U) := hword _ _ hcd
        rw [phraseHere, phraseHere, hletter _ _ hcd, ih htext hsome]
    | exact hletter =>
      cases htext with
      | nil => rfl
      | cons hcd htext =>
        have hsome : (some _).any (isWord U) = (some _).any (isWord U) := hword _ _ hcd
        rw [phraseHere, phraseHere, hletter _ _ hcd, ih htext hsome]
    | one hmember =>
      cases htext with
      | nil => rfl
      | cons hcd htext =>
        have hsome : (some _).any (isWord U) = (some _).any (isWord U) := hword _ _ hcd
        rw [phraseHere, phraseHere, hmember _ _ hcd, ih htext hsome]

theorem search_phrase_alike {phrases' : List (List Item)}
    (hphrases : List.Forall₂ (List.Forall₂ (Alike R)) phrases phrases')
    (hword : ∀ c d, R c d → isWord U c = isWord U d) (htext : List.Forall₂ R left right) :
    searchPhrase U phrases left = searchPhrase U phrases' right := by
  have hany : ∀ {left right : List Char} {before other : Option Char}, List.Forall₂ R left right →
      before.any (isWord U) = other.any (isWord U) →
        (phrases.any fun phrase => phraseHere U phrase before left) =
          phrases'.any fun phrase => phraseHere U phrase other right := by
    intro left right before other htext hbefore
    induction hphrases with
    | nil => rfl
    | cons hitems _ ih =>
      rw [any_cons, any_cons, ih, phrase_here_alike hitems hword htext hbefore]
  have hall : ∀ before other : Option Char, before.any (isWord U) = other.any (isWord U) →
      hasPhrase U phrases before left = hasPhrase U phrases' other right := by
    induction htext with
    | nil => exact fun before other hbefore => hany .nil hbefore
    | cons hcd hrest ih =>
      intro before other hbefore
      have hsome : (some _).any (isWord U) = (some _).any (isWord U) := hword _ _ hcd
      rw [hasPhrase, hasPhrase, hany (.cons hcd hrest) hbefore, ih _ _ hsome]
  exact hall none none rfl

end Alike

end AwsOps.Text
