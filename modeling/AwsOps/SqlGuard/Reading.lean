import AwsOps.SqlGuard.Danger

/-!
# What a server reads

Second statements and forbidden phrases among the tokens of a server, for any lexer that tells words,
symbols and gaps apart. What the guard keeps of such tokens holds a second statement or a forbidden
phrase where they do, if no word character stands right beside the phrase.
-/

namespace AwsOps.SqlGuard

open List Text Tokens

/-- Kinds of tokens with words, symbols and gaps: white space and comments. -/
class Lexicon (κ : Type) where
  word : κ
  symbol : κ
  gap : κ → Bool

variable {κ : Type} [Lexicon κ]

/-- White space and comments. -/
def isGap (t : Token κ) : Bool :=
  Lexicon.gap t.kind

/-- `Forbidden phrase exact`: the tokens are a word of `DANGER`, or `REPLACE` and one of its targets;
`exact` tells whether no more letters may follow. -/
inductive Forbidden (U : Unicode) : List (Token κ) → Bool → Prop
  | word (text entry) : entry ∈ dangerWords → Bears U entry text →
      Forbidden U [⟨Lexicon.word, text⟩] (entry.2 == .exact)
  | replace (first gap second target) : first.map Char.toUpper = "REPLACE".toList →
      gap.all isGap = true → target ∈ replaceTargets →
      second.map Char.toUpper = target.toList →
      Forbidden U (⟨Lexicon.word, first⟩ :: gap ++ [⟨Lexicon.word, second⟩]) true

/-- The tokens hold a forbidden phrase. -/
def HasForbidden (U : Unicode) (tokens : List (Token κ)) : Prop :=
  ∃ before phrase exact after, tokens = before ++ phrase ++ after ∧ Forbidden U phrase exact

variable {U : Unicode} {kept : Token κ → List Char} {tokens : List (Token κ)}

/-- The guard keeps words and symbols as they are, and of a gap blanks, but not nothing. -/
structure Keeps (kept : Token κ → List Char) (tokens : List (Token κ)) : Prop where
  word : ∀ text, kept ⟨Lexicon.word, text⟩ = text
  symbol : ∀ text, kept ⟨Lexicon.symbol, text⟩ = text
  gap_nonempty : ∀ t ∈ tokens, isGap t = true → kept t ≠ []
  gap_blank : ∀ t ∈ tokens, isGap t = true → ∀ c ∈ kept t, isSpace c = true

theorem kept_gaps (hkeeps : Keeps kept tokens) {gap : List (Token κ)} (hsub : ∀ t ∈ gap, t ∈ tokens)
    (hgap : gap.all isGap = true) {c : Char} (hc : c ∈ gap.flatMap kept) : isSpace c = true := by
  obtain ⟨t, ht, hc⟩ := mem_flatMap.mp hc
  exact hkeeps.gap_blank t (hsub t ht) (all_eq_true.mp hgap t ht) c hc

theorem danger_of_forbidden (hkeeps : Keeps kept tokens)
    (hwords : ∀ before first second after,
      tokens ≠ before ++ ⟨Lexicon.word, first⟩ :: ⟨Lexicon.word, second⟩ :: after)
    (hleft : ∀ before phrase exact after, tokens = before ++ phrase ++ after →
      Forbidden U phrase exact → (lastOf none (before.flatMap kept)).any (isWord U) = false)
    (hright : ∀ before phrase after, tokens = before ++ phrase ++ after →
      Forbidden U phrase true → (after.flatMap kept).head?.any (isWord U) = false)
    (h : HasForbidden U tokens) : searchPhrase U (danger U) (tokens.flatMap kept) = true := by
  obtain ⟨before, phrase, exact_, after, htokens, hphrase⟩ := h
  have hbefore := hleft before phrase exact_ after htokens hphrase
  have hafter : exact_ = true → (after.flatMap kept).head?.any (isWord U) = false :=
    fun he => hright before phrase after htokens (he ▸ hphrase)
  cases hphrase with
  | word word entry hmem hbears =>
    rw [htokens, append_assoc, flatMap_append, flatMap_append, flatMap_singleton, hkeeps.word]
    exact danger_of_word hmem hbears hbefore fun hexact => hafter (by simp [hexact])
  | replace first gap second target hfirst hgap htarget hsecond =>
    have hsub : ∀ t ∈ gap, t ∈ tokens := by
      intro t ht
      rw [htokens]
      simp [ht]
    have hne : gap.flatMap kept ≠ [] := by
      cases gap with
      | nil => exact absurd (by simpa using htokens) (hwords before first second after)
      | cons t gap =>
        rw [flatMap_cons]
        exact append_ne_nil_of_left_ne_nil (hkeeps.gap_nonempty t
          (hsub t mem_cons_self) (all_eq_true.mp hgap t mem_cons_self)) _
    have hall : tokens.flatMap kept =
        before.flatMap kept ++ (first ++ (gap.flatMap kept ++ (second ++ after.flatMap kept))) := by
      rw [htokens]
      simp [hkeeps.word]
    rw [hall]
    exact danger_of_replace htarget hfirst hsecond hne (fun c hc => kept_gaps hkeeps hsub hgap hc)
      hbefore (hafter rfl)

variable [DecidableEq κ]

/-- A word that opens with a letter: every statement begins with one. -/
def isKeyword (t : Token κ) : Bool :=
  t.kind == Lexicon.word && t.text.head?.any Char.isAlpha

/-- A semicolon stands between two keywords. -/
def HasSecondStatement (tokens : List (Token κ)) : Prop :=
  ∃ before after, tokens = before ++ ⟨Lexicon.symbol, [';']⟩ :: after ∧
    before.any isKeyword = true ∧ after.any isKeyword = true

theorem visible_of_keyword (hkeeps : Keeps kept tokens) {list : List (Token κ)}
    (h : list.any isKeyword = true) : ∃ c ∈ list.flatMap kept, isSpace c = false ∧ c ≠ ';' := by
  obtain ⟨⟨kind, text⟩, ht, hkeyword⟩ := any_eq_true.mp h
  simp only [isKeyword, Bool.and_eq_true, beq_iff_eq] at hkeyword
  obtain ⟨rfl, hhead⟩ := hkeyword
  cases text with
  | nil => cases hhead
  | cons c more =>
    refine ⟨c, mem_flatMap.mpr ⟨_, ht, ?_⟩, letter_visible hhead⟩
    rw [hkeeps.word]
    exact mem_cons_self

theorem statements_of_second (hkeeps : Keeps kept tokens) (h : HasSecondStatement tokens) :
    1 < (statements (tokens.flatMap kept)).length := by
  obtain ⟨before, after, htokens, hbefore, hafter⟩ := h
  obtain ⟨c, hc, hcVisible⟩ := visible_of_keyword hkeeps hbefore
  obtain ⟨e, he, heVisible⟩ := visible_of_keyword hkeeps hafter
  rw [htokens, flatMap_append, flatMap_cons, hkeeps.symbol]
  exact two_statements hc he hcVisible heVisible

end AwsOps.SqlGuard
