import Mathlib.Data.List.Sort
import Mathlib.Data.String.Basic
import AwsOps.Foundation.JsonText

/-!
# The order of fields and items

JSON documents that are equal up to the order of the fields of objects, or up to that and the order
of the items of arrays. A text determines the document that it was written from, so the text with
sorted keys determines it up to the order of the fields.
-/

namespace AwsOps.Doc

open List

variable {ν : Type} {lists : Prop}

/-! ## Equality up to order -/

/-- The documents are equal up to the order of fields and, if `lists`, of the items of arrays, at
any depth. -/
inductive Alike (lists : Prop) : Doc ν → Doc ν → Prop
  | refl (v) : Alike lists v v
  | trans {u v w} : Alike lists u v → Alike lists v w → Alike lists u w
  | items {xs ys} : lists → xs.Perm ys → Alike lists (.arr xs) (.arr ys)
  | fields {xs ys} : xs.Perm ys → Alike lists (.obj xs) (.obj ys)
  | item {v w} (before after) :
      Alike lists v w → Alike lists (.arr (before ++ v :: after)) (.arr (before ++ w :: after))
  | field {v w} (before key after) : Alike lists v w →
      Alike lists (.obj (before ++ (key, v) :: after)) (.obj (before ++ (key, w) :: after))

theorem Alike.symm {v w : Doc ν} (h : Alike lists v w) : Alike lists w v := by
  induction h with
  | refl v => exact .refl v
  | trans _ _ hu hv => exact hv.trans hu
  | items hlists h => exact .items hlists h.symm
  | fields h => exact .fields h.symm
  | item before after _ ih => exact .item before after ih
  | field before key after _ ih => exact .field before key after ih

theorem Alike.weaken {v w : Doc ν} (h : Alike False v w) : Alike lists v w := by
  induction h with
  | refl v => exact .refl v
  | trans _ _ hu hv => exact hu.trans hv
  | items hlists => exact hlists.elim
  | fields h => exact .fields h
  | item before after _ ih => exact .item before after ih
  | field before key after _ ih => exact .field before key after ih

/-- What may be replaced one at a time may be replaced everywhere. -/
theorem alike_of_forall₂ {α : Type} {R : α → α → Prop} {wrap : List α → Doc ν} {xs ys : List α}
    (step : ∀ before after a b, R a b →
      Alike lists (wrap (before ++ a :: after)) (wrap (before ++ b :: after)))
    (h : Forall₂ R xs ys) : ∀ before, Alike lists (wrap (before ++ xs)) (wrap (before ++ ys)) := by
  induction h with
  | nil => exact fun _ => .refl _
  | @cons a b xs ys hab _ ih =>
    intro before
    have hrest := ih (before ++ [b])
    rw [append_assoc, append_assoc] at hrest
    exact (step before xs a b hab).trans hrest

theorem alike_items {xs ys : List (Doc ν)} (h : Forall₂ (Alike lists) xs ys) :
    Alike lists (.arr xs) (.arr ys) :=
  alike_of_forall₂ (fun before after _ _ hab => .item before after hab) h []

theorem alike_fields {xs ys : Fields ν}
    (h : Forall₂ (fun f g => f.1 = g.1 ∧ Alike lists f.2 g.2) xs ys) :
    Alike lists (.obj xs) (.obj ys) := by
  refine @alike_of_forall₂ ν lists _ _ .obj xs ys (fun before after f g hfg => ?_) h []
  obtain ⟨key, v⟩ := f
  obtain ⟨_, w⟩ := g
  obtain ⟨rfl, hvw⟩ := hfg
  exact .field before key after hvw

/-- No object has a key twice. -/
inductive Distinct : Doc ν → Prop
  | atom {v} : (∀ items, v ≠ .arr items) → (∀ fields, v ≠ .obj fields) → Distinct v
  | arr {items} : (∀ item ∈ items, Distinct item) → Distinct (.arr items)
  | obj {fields} : (fields.map Prod.fst).Nodup → (∀ field ∈ fields, Distinct field.2) →
      Distinct (.obj fields)

theorem distinct_arr {items : List (Doc ν)} :
    Distinct (.arr items) ↔ ∀ item ∈ items, Distinct item := by
  refine ⟨fun h => ?_, .arr⟩
  cases h with
  | atom h _ => exact absurd rfl (h _)
  | arr h => exact h

theorem distinct_obj {fields : Fields ν} : Distinct (.obj fields) ↔
    (fields.map Prod.fst).Nodup ∧ ∀ field ∈ fields, Distinct field.2 := by
  refine ⟨fun h => ?_, fun h => .obj h.1 h.2⟩
  cases h with
  | atom _ h => exact absurd rfl (h _)
  | obj hkeys h => exact ⟨hkeys, h⟩

theorem Alike.distinct {v w : Doc ν} (h : Alike lists v w) (hv : Distinct v) : Distinct w := by
  induction h with
  | refl => exact hv
  | trans _ _ hu hv' => exact hv' (hu hv)
  | items _ h => exact distinct_arr.mpr fun item hitem => distinct_arr.mp hv item (h.mem_iff.mpr hitem)
  | fields h =>
    obtain ⟨hkeys, hall⟩ := distinct_obj.mp hv
    exact .obj ((h.map _).nodup_iff.mp hkeys) fun field hfield => hall field (h.mem_iff.mpr hfield)
  | item before after _ ih =>
    simp only [distinct_arr, forall_mem_append, forall_mem_cons] at hv ⊢
    exact ⟨hv.1, ih hv.2.1, hv.2.2⟩
  | field before key after _ ih =>
    simp only [distinct_obj, map_append, map_cons, forall_mem_append, forall_mem_cons] at hv ⊢
    exact ⟨hv.1, hv.2.1, ih hv.2.2.1, hv.2.2.2⟩

/-! ## Rearranging a document -/

mutual
/-- Rearrange the items of each array and the fields of each object, from the inside out. -/
def arrange (order : List (Doc ν) → List (Doc ν)) (keys : Fields ν → Fields ν) : Doc ν → Doc ν
  | .arr items => .arr (order (arrangeItems order keys items))
  | .obj fields => .obj (keys (arrangeFields order keys fields))
  | v => v

/-- Each item rearranged. -/
def arrangeItems (order : List (Doc ν) → List (Doc ν)) (keys : Fields ν → Fields ν) :
    List (Doc ν) → List (Doc ν)
  | [] => []
  | first :: rest => arrange order keys first :: arrangeItems order keys rest

/-- Each value rearranged. -/
def arrangeFields (order : List (Doc ν) → List (Doc ν)) (keys : Fields ν → Fields ν) :
    Fields ν → Fields ν
  | [] => []
  | (key, value) :: rest => (key, arrange order keys value) :: arrangeFields order keys rest
end

section Arrange

variable {order : List (Doc ν) → List (Doc ν)} {keys : Fields ν → Fields ν}

@[simp] theorem arrange_arr (items : List (Doc ν)) :
    arrange order keys (.arr items) = .arr (order (items.map (arrange order keys))) := by
  have hmap : arrangeItems order keys items = items.map (arrange order keys) := by
    induction items with
    | nil => rfl
    | cons first rest ih => rw [arrangeItems, ih, map_cons]
  rw [arrange, hmap]

@[simp] theorem arrange_obj (fields : Fields ν) : arrange order keys (.obj fields) =
    .obj (keys (fields.map fun field => (field.1, arrange order keys field.2))) := by
  have hmap : arrangeFields order keys fields =
      fields.map fun field => (field.1, arrange order keys field.2) := by
    induction fields with
    | nil => rfl
    | cons first rest ih => rw [arrangeFields, ih, map_cons]
  rw [arrange, hmap]

/-- A document is its rearrangement, up to what was rearranged. -/
theorem alike_arrange (horder : ∀ items, order items = items ∨ (lists ∧ (order items).Perm items))
    (hkeys : ∀ fields, (keys fields).Perm fields) (v : Doc ν) :
    Alike lists v (arrange order keys v) := by
  induction v using ind with
  | null | bool | num | str => exact .refl _
  | arr items ih =>
    rw [arrange_arr]
    have hitems : Alike lists (.arr items) (.arr (items.map (arrange order keys))) :=
      alike_items (forall₂_map_right_iff.mpr (forall₂_same.mpr ih))
    refine hitems.trans ?_
    obtain heq | ⟨hlists, hperm⟩ := horder (items.map (arrange order keys))
    · rw [heq]
      exact .refl _
    · exact .items hlists hperm.symm
  | obj fields ih =>
    rw [arrange_obj]
    refine Alike.trans (alike_fields ?_) (.fields (hkeys _).symm)
    exact forall₂_map_right_iff.mpr (forall₂_same.mpr fun field hfield => ⟨rfl, ih field hfield⟩)

end Arrange

/-- The fields in the order of their keys. -/
def sortFields (fields : Fields ν) : Fields ν :=
  fields.insertionSort fun f g => f.1 ≤ g.1

def sortKeys : Doc ν → Doc ν :=
  arrange id sortFields

theorem alike_sort_keys (v : Doc ν) : Alike False v (sortKeys v) :=
  alike_arrange (fun _ => .inl rfl) (fun fields => perm_insertionSort _ fields) v

theorem sort_fields_eq {xs ys : Fields ν} (hperm : xs.Perm ys) (hkeys : (xs.map Prod.fst).Nodup) :
    sortFields xs = sortFields ys := by
  have hxs := perm_insertionSort (fun f g : String × Doc ν => f.1 ≤ g.1) xs
  have hys := perm_insertionSort (fun f g : String × Doc ν => f.1 ≤ g.1) ys
  refine Perm.eq_of_pairwise (fun f g hf hg hle hge => ?_)
    (pairwise_insertionSort (fun f g : String × Doc ν => f.1 ≤ g.1) xs)
    (pairwise_insertionSort (fun f g : String × Doc ν => f.1 ≤ g.1) ys)
    (hxs.trans (hperm.trans hys.symm))
  have hf' : f ∈ xs := hxs.mem_iff.mp hf
  have hg' : g ∈ xs := hperm.mem_iff.mpr (hys.mem_iff.mp hg)
  exact inj_on_of_nodup_map hkeys hf' hg' (le_antisymm hle hge)

theorem Alike.sort_keys_eq {v w : Doc ν} (h : Alike False v w) (hv : Distinct v) :
    sortKeys v = sortKeys w := by
  induction h with
  | refl => rfl
  | trans hu _ hu' hv' => exact (hu' hv).trans (hv' (hu.distinct hv))
  | items hlists => exact hlists.elim
  | @fields xs ys h =>
    rw [sortKeys, arrange_obj, arrange_obj, sort_fields_eq (h.map _)]
    simpa [Function.comp_def] using (distinct_obj.mp hv).1
  | @item v w before after _ ih =>
    have hitem := ih (distinct_arr.mp hv v (by simp))
    rw [sortKeys] at hitem ⊢
    simp [hitem]
  | @field v w before key after _ ih =>
    have hfield := ih ((distinct_obj.mp hv).2 (key, v) (by simp))
    rw [sortKeys] at hfield ⊢
    simp [hfield]

end AwsOps.Doc
