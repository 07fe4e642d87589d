import Mathlib.Data.List.TakeWhile
import AwsOps.Foundation.Text

/-!
# Cutting texts apart

What `split` makes of a text that was put together from pieces around a separator, and what `strip`
leaves of a text with something around it.
-/

namespace AwsOps.Text

open List

/-! ## Pieces -/

/-- The separator does not occur at any place of the piece, with this text behind the piece. -/
def Apart (sep piece rest : List Char) : Prop :=
  ∀ suffix, suffix <:+ piece → suffix ≠ [] → ¬sep <+: suffix ++ rest

variable {sep piece rest : List Char}

variable {c : Char} {text : List Char}

theorem Apart.tail (h : Apart sep (c :: piece) rest) : Apart sep piece rest :=
  fun suffix hsuffix => h suffix (hsuffix.trans (suffix_cons c piece))

theorem Apart.head (h : Apart sep (c :: piece) rest) :
    ¬sep.isPrefixOf (c :: (piece ++ rest)) = true := by
  rw [ isPrefixOf_iff_prefix]
  exact h (c :: piece) (suffix_refl _) (cons_ne_nil c piece)

theorem cut_on_skip (skipped : List Char) :
    cutOn sep skipped.length (skipped ++ rest) = cutOn sep 0 rest := by
  induction skipped with
  | nil => rfl
  | cons c skipped ih => exact ih

theorem split_sep (hsep : sep ≠ []) : split sep (sep ++ rest) = [] :: split sep rest := by
  obtain ⟨c, others, rfl⟩ := exists_cons_of_ne_nil hsep
  have hpos : (c :: others).isPrefixOf (c :: (others ++ rest)) = true :=
    isPrefixOf_iff_prefix.mpr (prefix_append (c :: others) rest)
  show cutOn (c :: others) 0 (c :: (others ++ rest)) = _
  rw [cutOn, if_pos hpos, length_cons, Nat.add_sub_cancel, cut_on_skip]
  rfl

theorem split_append (hsep : sep ≠ []) (h : Apart sep piece (sep ++ rest)) :
    split sep (piece ++ (sep ++ rest)) = piece :: split sep rest := by
  induction piece with
  | nil => exact split_sep hsep
  | cons c piece ih =>
    have htail := ih h.tail
    unfold split at htail ⊢
    rw [cons_append, cutOn, if_neg h.head, htail]

/-- A character that does not separate pieces stands in one of them. -/
theorem mem_split {sep : Char} (hc : c ≠ sep) (h : c ∈ text) :
    ∃ piece ∈ split [sep] text, c ∈ piece := by
  induction text with
  | nil => cases h
  | cons d rest ih =>
    by_cases hd : d = sep
    · have hrest : c ∈ rest := (mem_cons.mp h).resolve_left fun heq => hc (heq.trans hd)
      obtain ⟨piece, hpiece, hmem⟩ := ih hrest
      rw [hd, split_separator]
      exact ⟨piece, mem_cons_of_mem [] hpiece, hmem⟩
    · obtain ⟨first, others, hrest, hsplit⟩ := split_cons hd rest
      rw [hsplit]
      rcases mem_cons.mp h with rfl | hmem
      · exact ⟨_, mem_cons_self, mem_cons_self⟩
      · obtain ⟨piece, hpiece, hin⟩ := ih hmem
        rw [hrest] at hpiece
        rcases mem_cons.mp hpiece with rfl | hothers
        · exact ⟨_, mem_cons_self, mem_cons_of_mem d hin⟩
        · exact ⟨piece, mem_cons_of_mem _ hothers, hin⟩

theorem mem_before_end (h : c ∈ text) : c ∈ beforeEnd text ∨ c = '\n' := by
  unfold beforeEnd
  split
  · rename_i hnewline
    obtain ⟨front, rfl⟩ := List.getLast?_eq_some_iff.mp (beq_iff_eq.mp hnewline)
    rw [dropLast_concat]
    exact (mem_append.mp h).imp_right mem_singleton.mp
  · exact .inl h

theorem split_piece (h : Apart sep piece []) : split sep piece = [piece] := by
  induction piece with
  | nil => rfl
  | cons c piece ih =>
    have hhead := h.head
    have htail := ih h.tail
    rw [append_nil] at hhead
    unfold split at htail ⊢
    rw [cutOn, if_neg hhead, htail]

theorem apart_append {left right : List Char} (hleft : Apart sep left (right ++ rest))
    (hright : Apart sep right rest) : Apart sep (left ++ right) rest := by
  intro suffix hsuffix hne hprefix
  rcases suffix_or_suffix_of_suffix hsuffix (suffix_append left right) with hin | hover
  · exact hright suffix hin hne hprefix
  · obtain ⟨front, rfl⟩ := hover
    have hfront : front <:+ left := suffix_append_self_iff.mp hsuffix
    cases front with
    | nil => exact hright right (suffix_refl _) hne hprefix
    | cons c front =>
      refine hleft (c :: front) hfront (cons_ne_nil c front) ?_
      rwa [← append_assoc]

theorem apart_of_not_mem {others : List Char} (h : c ∉ piece) : Apart (c :: others) piece rest := by
  intro suffix hsuffix hne hstarts
  obtain ⟨first, behind, rfl⟩ := exists_cons_of_ne_nil hne
  rw [cons_append, cons_prefix_cons] at hstarts
  exact h (hstarts.1 ▸ hsuffix.subset mem_cons_self)

theorem apart_of_no_pair {d : Char} (hpair : ¬[c, c] <:+: piece) (hd : d ≠ c) :
    Apart [c, c] piece (d :: rest) := by
  intro suffix hsuffix hne hprefix
  obtain ⟨before, rfl⟩ := hsuffix
  match suffix with
  | [] => exact hne rfl
  | [e] =>
    rw [singleton_append, cons_prefix_cons, cons_prefix_cons] at hprefix
    exact hd hprefix.2.1.symm
  | e :: f :: others =>
    rw [cons_append, cons_append, cons_prefix_cons, cons_prefix_cons]
      at hprefix
    obtain ⟨rfl, rfl, -⟩ := hprefix
    exact hpair ⟨before, others, by simp⟩

theorem split_intercalate {sep : Char} {texts : List (List Char)} (hne : texts ≠ [])
    (h : ∀ text ∈ texts, sep ∉ text) : split [sep] ([sep].intercalate texts) = texts := by
  induction texts with
  | nil => exact absurd rfl hne
  | cons text texts ih =>
    have htext : sep ∉ text := h text mem_cons_self
    cases texts with
    | nil => simpa using split_piece (apart_of_not_mem htext)
    | cons next more =>
      have hmore := ih (cons_ne_nil _ _) fun t ht => h t (mem_cons_of_mem _ ht)
      have hapart : Apart [sep] text ([sep] ++ [sep].intercalate (next :: more)) :=
        apart_of_not_mem htext
      have hfirst := split_append (cons_ne_nil sep []) hapart
      rw [hmore] at hfirst
      simpa using hfirst

/-- A separator that the fronts do not have tells where they end. -/
theorem append_sep_inj {sep : Char} {front front' back back' : List Char} (h : sep ∉ front)
    (h' : sep ∉ front') (heq : front ++ sep :: back = front' ++ sep :: back') :
    front = front' ∧ back = back' := by
  induction front generalizing front' with
  | nil =>
    cases front' with
    | nil => exact ⟨rfl, (List.cons.inj heq).2⟩
    | cons c front' => exact absurd ((List.cons.inj heq).1 ▸ mem_cons_self) h'
  | cons c front ih =>
    cases front' with
    | nil => exact absurd ((List.cons.inj heq).1 ▸ mem_cons_self) h
    | cons d front' =>
      obtain ⟨rfl, hrest⟩ := List.cons.inj heq
      obtain ⟨rfl, hback⟩ := ih (fun hmem => h (mem_cons_of_mem c hmem))
        (fun hmem => h' (mem_cons_of_mem c hmem)) hrest
      exact ⟨rfl, hback⟩

/-! ## Ends -/

theorem strip_by_around {p : Char → Bool} {before after : List Char}
    (hbefore : ∀ c ∈ before, p c = true) (hafter : ∀ c ∈ after, p c = true)
    (hhead : ∀ c, text.head? = some c → p c = false)
    (hlast : ∀ c, text.getLast? = some c → p c = false) :
    stripBy p (before ++ (text ++ after)) = text := by
  have hdrop : ∀ (outer : List Char) {around inner : List Char}, (∀ c ∈ around, p c = true) →
      (∀ c, inner.head? = some c → p c = false) → inner ≠ [] →
      (around ++ (inner ++ outer)).dropWhile p = inner ++ outer := by
    intro outer around inner haround hinner hne
    obtain ⟨c, others, rfl⟩ := exists_cons_of_ne_nil hne
    rw [dropWhile_append_of_pos haround, cons_append,
      dropWhile_cons_of_neg (by simp [hinner c rfl])]
  cases text with
  | nil =>
    have hall : ∀ c ∈ before ++ after, p c = true := by
      intro c hc
      exact (mem_append.mp hc).elim (hbefore c) (hafter c)
    have hnil : (before ++ after).dropWhile p = [] := dropWhile_eq_nil_iff.mpr hall
    rw [nil_append, stripBy, hnil]
    rfl
  | cons c text =>
    have hne : (c :: text).reverse ≠ [] := by simp
    have hreverse := hdrop [] (fun c hc => hafter c (mem_reverse.mp hc))
      (by rw [List.head?_reverse]; exact hlast) hne
    rw [append_nil] at hreverse
    rw [stripBy, hdrop after hbefore hhead (cons_ne_nil c text), reverse_append, hreverse,
      reverse_reverse]

end AwsOps.Text
