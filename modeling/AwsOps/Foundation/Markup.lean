import Mathlib.Data.List.Chain
import AwsOps.Foundation.Tokens

/-!
# Markup under an allowlist

Markup as a sequence of pieces: text, tags, and the content of the one element whose content is not
markup. A `Policy` lists the tags, their attributes and the values the attributes may have. Walking
over the pieces (`Walk`) keeps the open elements; a walk from no open element to none says that the
pieces are balanced and stay within the policy. The place a walk arrives at is determined by its
pieces (`Walk.unique`).
-/

namespace AwsOps.Markup

open List

open Tokens (apostrophe doubleQuote)

/-! ## Escaping -/

/-- One character of an escaped text. -/
def escapeChar (quote : Bool) (c : Char) : List Char :=
  if c = '&' then ['&', 'a', 'm', 'p', ';']
  else if c = '<' then ['&', 'l', 't', ';']
  else if c = '>' then ['&', 'g', 't', ';']
  else if quote && c == doubleQuote then ['&', 'q', 'u', 'o', 't', ';']
  else if quote && c == apostrophe then ['&', '#', 'x', '2', '7', ';']
  else [c]

def escape (quote : Bool) (text : List Char) : List Char :=
  text.flatMap (escapeChar quote)

theorem mem_escape {quote : Bool} {c : Char} {text : List Char} (h : c ∈ escape quote text) :
    c ≠ '<' ∧ c ≠ '>' ∧ (quote → c ≠ doubleQuote) := by
  obtain ⟨d, -, hc⟩ := mem_flatMap.mp h
  unfold escapeChar at hc
  split_ifs at hc with hamp hlt hgt hdouble hsingle
  case neg =>
    have hsame : c = d := by simpa using hc
    subst hsame
    exact ⟨hlt, hgt, fun hquote hd => hdouble (by simp [hquote, hd])⟩
  all_goals
    simp only [mem_cons, not_mem_nil, or_false] at hc
    rcases hc with rfl | rfl | rfl | rfl | rfl | rfl <;>
      exact ⟨by decide, by decide, fun _ => by decide⟩

theorem escape_char_append {quote : Bool} {c d : Char} {xs ys : List Char}
    (h : escapeChar quote c ++ xs = escapeChar quote d ++ ys) : c = d ∧ xs = ys := by
  unfold escapeChar at h
  split_ifs at h <;>
    simp only [cons_append, nil_append, List.cons.injEq] at h <;> grind

theorem escape_char_ne_nil (quote : Bool) (c : Char) : escapeChar quote c ≠ [] := by
  unfold escapeChar
  split_ifs <;> exact cons_ne_nil _ _

theorem escape_injective {quote : Bool} :
    ∀ {text other : List Char}, escape quote text = escape quote other → text = other
  | [], [], _ => rfl
  | [], d :: other, h => by
    have hnil : escapeChar quote d = [] := (append_eq_nil_iff.mp h.symm).1
    exact absurd hnil (escape_char_ne_nil quote d)
  | c :: text, [], h => by
    have hnil : escapeChar quote c = [] := (append_eq_nil_iff.mp h).1
    exact absurd hnil (escape_char_ne_nil quote c)
  | c :: text, d :: other, h => by
    obtain ⟨rfl, hrest⟩ := escape_char_append (by simpa [escape] using h)
    rw [escape_injective hrest]

/-! ## Tags -/

/-- ` name="value"`, the value escaped. -/
def assignment (attr : String × List Char) : List Char :=
  ' ' :: attr.1.toList ++ '=' :: doubleQuote :: escape true attr.2 ++ [doubleQuote]

/-- What follows the name in an opening tag. -/
def attributes (attrs : List (String × List Char)) : List Char :=
  attrs.flatMap assignment ++ ['>']

/-- An opening tag. -/
def opening (name : String) (attrs : List (String × List Char)) : List Char :=
  '<' :: name.toList ++ attributes attrs

/-- A closing tag. -/
def closing (name : String) : List Char :=
  '<' :: '/' :: name.toList ++ ['>']

/-- Letters and digits only, and at least one. -/
def Clean (name : String) : Prop :=
  name.toList ≠ [] ∧ name.toList.all Char.isAlphanum

instance (name : String) : Decidable (Clean name) :=
  inferInstanceAs (Decidable (_ ∧ _))

theorem Clean.alphanum {name : String} (h : Clean name) : ∀ c ∈ name.toList, c.isAlphanum :=
  all_eq_true.mp h.2

/-- A text is cut in one way into characters of a class and a rest that starts outside it. -/
theorem cut_unique {p : Char → Bool} {left right left' right' : List Char}
    (hleft : ∀ c ∈ left, p c) (hleft' : ∀ c ∈ left', p c)
    (hright : ∀ c ∈ right.head?, p c = false) (hright' : ∀ c ∈ right'.head?, p c = false)
    (h : left ++ right = left' ++ right') : left = left' ∧ right = right' := by
  have hread : ∀ {xs ys : List Char}, (∀ c ∈ xs, p c) → (∀ c ∈ ys.head?, p c = false) →
      (xs ++ ys).takeWhile p = xs := by
    intro xs ys hxs hys
    rw [takeWhile_append_of_pos hxs]
    cases ys with
    | nil => simp
    | cons c ys => simp [hys c rfl]
  have hsame : left = left' := by
    rw [← hread hleft hright, h, hread hleft' hright']
  subst hsame
  exact ⟨rfl, append_cancel_left h⟩

theorem attributes_head (attrs : List (String × List Char)) :
    ∀ c ∈ (attributes attrs).head?, c.isAlphanum = false := by
  cases attrs with
  | nil => intro c hc; cases hc; decide
  | cons attr attrs => intro c hc; cases hc; decide

theorem attributes_injective : ∀ {attrs others : List (String × List Char)},
    (∀ attr ∈ attrs, Clean attr.1) → (∀ attr ∈ others, Clean attr.1) →
    attributes attrs = attributes others → attrs = others
  | [], [], _, _, _ => rfl
  | [], other :: others, _, _, h => by
    have hhead := congrArg List.head? h
    simp [attributes, assignment] at hhead
  | attr :: attrs, [], _, _, h => by
    have hhead := congrArg List.head? h
    simp [attributes, assignment] at hhead
  | (name, value) :: attrs, (name', value') :: others, hattrs, hothers, h => by
    have hcut : name.toList ++ '=' :: doubleQuote :: (escape true value ++
        doubleQuote :: attributes attrs) =
        name'.toList ++ '=' :: doubleQuote :: (escape true value' ++
        doubleQuote :: attributes others) := by
      simpa [attributes, assignment] using h
    obtain ⟨hname, hrest⟩ := cut_unique
      (hattrs _ mem_cons_self).alphanum (hothers _ mem_cons_self).alphanum
      (by simp) (by simp) hcut
    have hvalues : escape true value ++ doubleQuote :: attributes attrs =
        escape true value' ++ doubleQuote :: attributes others := by simpa using hrest
    have hquoted : ∀ text : List Char, ∀ c ∈ escape true text, (c != doubleQuote) = true := by
      intro text c hc
      simpa using (mem_escape hc).2.2 rfl
    obtain ⟨hvalue, htail⟩ := cut_unique (hquoted value) (hquoted value')
      (by simp) (by simp) hvalues
    have htail' : attributes attrs = attributes others := by simpa using htail
    have hsame : name = name' := String.toList_injective hname
    rw [hsame, escape_injective hvalue,
      attributes_injective (fun a ha => hattrs a (mem_cons_of_mem _ ha))
        (fun a ha => hothers a (mem_cons_of_mem _ ha)) htail']

theorem opening_injective {name name' : String} {attrs others : List (String × List Char)}
    (hname : Clean name) (hname' : Clean name') (hattrs : ∀ attr ∈ attrs, Clean attr.1)
    (hothers : ∀ attr ∈ others, Clean attr.1) (h : opening name attrs = opening name' others) :
    name = name' ∧ attrs = others := by
  have hcut : name.toList ++ attributes attrs = name'.toList ++ attributes others := by
    simpa [opening] using h
  obtain ⟨hsame, htail⟩ := cut_unique hname.alphanum hname'.alphanum (attributes_head attrs)
    (attributes_head others) hcut
  exact ⟨String.toList_injective hsame, attributes_injective hattrs hothers htail⟩

theorem opening_ne_closing {name name' : String} {attrs : List (String × List Char)}
    (hname : Clean name) : opening name attrs ≠ closing name' := by
  intro h
  obtain ⟨c, rest, hc⟩ := exists_cons_of_ne_nil hname.1
  have hslash : c = '/' := by
    have hsecond := congrArg (fun text : List Char => text[1]?) h
    simpa [opening, closing, hc] using hsecond
  have halnum := hname.alphanum c (by rw [hc]; exact mem_cons_self)
  rw [hslash] at halnum
  exact absurd halnum (by decide)

/-! ## Walks -/

/-- What markup may consist of. The content of a `raw` element is no markup. -/
structure Policy where
  tags : List String
  void : List String
  raw : String
  attrs : String → List String
  permits : String → List Char → Prop
  tags_clean : ∀ tag ∈ tags, Clean tag
  attrs_clean : ∀ tag, ∀ name ∈ attrs tag, Clean name
  raw_tag : raw ∈ tags
  raw_open : raw ∉ void

variable {P : Policy}

/-- The attributes may stand in the tag. -/
def Policy.Permits (P : Policy) (tag : String) (attrs : List (String × List Char)) : Prop :=
  ∀ attr ∈ attrs, attr.1 ∈ P.attrs tag ∧ P.permits attr.1 attr.2

theorem Policy.Permits.clean {tag : String} {attrs : List (String × List Char)}
    (h : P.Permits tag attrs) : ∀ attr ∈ attrs, Clean attr.1 :=
  fun attr hattr => P.attrs_clean tag _ (h attr hattr).1

/-- Between two pieces: the open elements, the last opened first, or inside a raw element, the
content of which begins with `css`. -/
inductive Place
  | content (stack : List String)
  | inside (below : List String) (css : List Char)

/-- No closing tag begins in the content of a raw element. -/
def Sealed (css : List Char) : Prop :=
  css.IsChain fun c d => ¬(c = '<' ∧ d = '/')

/-- What one piece is at a place. -/
inductive Step (P : Policy) : Place → List Char → Place → Prop
  | text {stack piece} : '<' ∉ piece → '>' ∉ piece → Step P (.content stack) piece (.content stack)
  | void {stack tag attrs} : tag ∈ P.tags → tag ∈ P.void → P.Permits tag attrs →
      Step P (.content stack) (opening tag attrs) (.content stack)
  | element {stack tag attrs} : tag ∈ P.tags → tag ∉ P.void → tag ≠ P.raw → P.Permits tag attrs →
      Step P (.content stack) (opening tag attrs) (.content (tag :: stack))
  | close {stack tag} : tag ∈ P.tags → Step P (.content (tag :: stack)) (closing tag) (.content stack)
  | raw {stack attrs} : P.Permits P.raw attrs →
      Step P (.content stack) (opening P.raw attrs) (.inside stack [])
  | within {below css piece} : piece ≠ closing P.raw →
      Step P (.inside below css) piece (.inside below (css ++ piece))
  | leave {below css} : Sealed css → Step P (.inside below css) (closing P.raw) (.content below)

/-- What consecutive pieces are, from one place to another. -/
inductive Walk (P : Policy) : Place → List (List Char) → Place → Prop
  | nil {place} : Walk P place [] place
  | cons {here piece there pieces last} : Step P here piece there → Walk P there pieces last →
      Walk P here (piece :: pieces) last

def Balanced (P : Policy) (pieces : List (List Char)) : Prop :=
  Walk P (.content []) pieces (.content [])

theorem Walk.single {here there : Place} {piece : List Char} (h : Step P here piece there) :
    Walk P here [piece] there :=
  .cons h .nil

theorem Walk.append {here there last : Place} {pieces others : List (List Char)}
    (h : Walk P here pieces there) (hothers : Walk P there others last) :
    Walk P here (pieces ++ others) last := by
  induction h with
  | nil => exact hothers
  | cons hstep _ ih => exact .cons hstep (ih hothers)

theorem Walk.split {here last : Place} {pieces others : List (List Char)}
    (h : Walk P here (pieces ++ others) last) :
    ∃ there, Walk P here pieces there ∧ Walk P there others last := by
  induction pieces generalizing here with
  | nil => exact ⟨here, .nil, h⟩
  | cons piece pieces ih =>
    cases h with
    | cons hstep hrest =>
      obtain ⟨there, hpieces, hothers⟩ := ih hrest
      exact ⟨there, .cons hstep hpieces, hothers⟩

theorem Step.of_opening {stack : List String} {tag : String} {attrs : List (String × List Char)}
    {there : Place} (htag : Clean tag) (hattrs : ∀ attr ∈ attrs, Clean attr.1)
    (h : Step P (.content stack) (opening tag attrs) there) :
    P.Permits tag attrs ∧ there =
      if tag ∈ P.void then .content stack
      else if tag = P.raw then .inside stack [] else .content (tag :: stack) := by
  generalize hpiece : opening tag attrs = piece at h
  cases h with
  | text hlt => exact absurd (hpiece ▸ mem_cons_self) hlt
  | void hmem hvoid hpermits =>
    obtain ⟨rfl, rfl⟩ := opening_injective htag (P.tags_clean _ hmem) hattrs hpermits.clean hpiece
    exact ⟨hpermits, (if_pos hvoid).symm⟩
  | element hmem hvoid hraw hpermits =>
    obtain ⟨rfl, rfl⟩ := opening_injective htag (P.tags_clean _ hmem) hattrs hpermits.clean hpiece
    exact ⟨hpermits, by rw [if_neg hvoid, if_neg hraw]⟩
  | close => exact absurd hpiece (opening_ne_closing htag)
  | raw hpermits =>
    obtain ⟨rfl, rfl⟩ := opening_injective htag (P.tags_clean _ P.raw_tag) hattrs hpermits.clean
      hpiece
    exact ⟨hpermits, by rw [if_neg P.raw_open, if_pos rfl]⟩

theorem Step.unique {here there there' : Place} {piece : List Char} (h : Step P here piece there)
    (h' : Step P here piece there') : there = there' := by
  cases h with
  | text hlt =>
    cases h' with
    | text => rfl
    | void | element | close | raw => exact absurd mem_cons_self hlt
  | void hmem hvoid hpermits =>
    rw [(h'.of_opening (P.tags_clean _ hmem) hpermits.clean).2, if_pos hvoid]
  | element hmem hvoid hraw hpermits =>
    rw [(h'.of_opening (P.tags_clean _ hmem) hpermits.clean).2, if_neg hvoid, if_neg hraw]
  | raw hpermits =>
    rw [(h'.of_opening (P.tags_clean _ P.raw_tag) hpermits.clean).2, if_neg P.raw_open, if_pos rfl]
  | @close stack tag hmem =>
    generalize hpiece : closing tag = piece at h'
    cases h' with
    | text hlt => exact absurd (hpiece ▸ mem_cons_self) hlt
    | void hmem' => exact absurd hpiece.symm (opening_ne_closing (P.tags_clean _ hmem'))
    | element hmem' => exact absurd hpiece.symm (opening_ne_closing (P.tags_clean _ hmem'))
    | raw => exact absurd hpiece.symm (opening_ne_closing (P.tags_clean _ P.raw_tag))
    | close => rfl
  | within hne =>
    cases h' with
    | within => rfl
    | leave => exact absurd rfl hne
  | leave =>
    generalize hpiece : closing P.raw = piece at h'
    cases h' with
    | within hne => exact absurd hpiece.symm hne
    | leave => rfl

theorem Walk.unique {here there there' : Place} {pieces : List (List Char)}
    (h : Walk P here pieces there) (h' : Walk P here pieces there') : there = there' := by
  induction h with
  | nil => cases h'; rfl
  | cons hstep _ ih =>
    cases h' with
    | cons hstep' hrest' =>
      have hsame := hstep.unique hstep'
      subst hsame
      exact ih hrest'

end AwsOps.Markup
