import Mathlib.Algebra.Order.BigOperators.Group.List
import Mathlib.Algebra.Order.Group.Nat
import Mathlib.Data.List.Nodup
import AwsOps.Foundation.Json

/-!
# JSON values in JavaScript

The value that `JSON.parse` gives, with objects as lists of properties in insertion order: looking
up and setting a property, and the length of `JSON.stringify`. How a number is written is left
open. Two objects are deeply equal when their properties are, in whatever order; for objects that
differ in the order of their properties only, lookups and the length of the text agree.
-/

namespace AwsOps

open List Json

/-- A number that is not NaN. -/
inductive JsNumber
  | finite (value : Rat)
  | infinite (negative : Bool)
  deriving DecidableEq

/-- A JSON value. -/
inductive Js
  | null
  | bool (value : Bool)
  | num (value : JsNumber)
  | str (value : String)
  | arr (items : List Js)
  | obj (fields : List (String × Js))

namespace Js

/-- The properties of an object, in insertion order. -/
abbrev Fields : Type :=
  List (String × Js)

/-- The integer as a number. -/
def ofNat (n : Nat) : Js :=
  .num (.finite n)

/-! ## Properties -/

/-- The value of a property, if there is one. -/
def get (fields : Fields) (key : String) : Option Js :=
  (fields.find? fun field => field.1 == key).map Prod.snd

/-- Set a property. A new one comes last. -/
def set : Fields → String → Js → Fields
  | [], key, value => [(key, value)]
  | (name, old) :: rest, key, value =>
    if name == key then (name, value) :: rest else (name, old) :: set rest key value

/-- The names of the properties. -/
def keys (fields : Fields) : List String :=
  fields.map Prod.fst

@[simp] theorem get_nil (key : String) : get [] key = none :=
  rfl

theorem get_cons (name : String) (value : Js) (rest : Fields) (key : String) :
    get ((name, value) :: rest) key = if name = key then some value else get rest key := by
  unfold get
  by_cases h : name = key
  · rw [List.find?_cons_of_pos (by simpa using h), if_pos h]
    rfl
  · rw [List.find?_cons_of_neg (by simpa using h), if_neg h]

variable {fields : Fields} {key : String} {value : Js}

/-- A property that is there has its name among the names. -/
theorem get_eq_none_iff : get fields key = none ↔ key ∉ keys fields := by
  induction fields with
  | nil => simp [keys]
  | cons field rest ih =>
    obtain ⟨name, value⟩ := field
    rw [get_cons, keys, map_cons, mem_cons, not_or]
    by_cases h : name = key
    · simp [h]
    · rw [if_neg h, ih]
      exact (and_iff_right fun hkey => h hkey.symm).symm

/-- Where no name occurs twice, a property is looked up. -/
theorem get_eq_some_iff (h : (keys fields).Nodup) :
    get fields key = some value ↔ (key, value) ∈ fields := by
  induction fields with
  | nil => simp
  | cons field rest ih =>
    obtain ⟨name, old⟩ := field
    rw [keys, map_cons, nodup_cons] at h
    rw [get_cons, mem_cons]
    by_cases hname : name = key
    · rw [if_pos hname, Option.some.injEq, Prod.mk.injEq]
      constructor
      · rintro rfl
        exact .inl ⟨hname.symm, rfl⟩
      · rintro (⟨-, rfl⟩ | hmem)
        · rfl
        · exact absurd (mem_map_of_mem (f := Prod.fst) hmem) (hname ▸ h.1)
    · rw [if_neg hname, ih h.2]
      exact (or_iff_right fun heq => hname (Prod.mk.inj heq).1.symm).symm

theorem mem_of_get (h : get fields key = some value) : (key, value) ∈ fields := by
  obtain ⟨⟨name, found⟩, hfind, rfl⟩ := Option.map_eq_some_iff.mp h
  have hname := List.find?_some hfind
  rw [beq_iff_eq] at hname
  exact hname ▸ mem_of_find?_eq_some hfind

theorem get_append {before after : Fields} (h : key ∉ keys before) :
    get (before ++ after) key = get after key := by
  have hnone := get_eq_none_iff.mpr h
  unfold get at hnone ⊢
  rw [Option.map_eq_none_iff] at hnone
  rw [List.find?_append, hnone, Option.none_or]

theorem get_append_left {before after : Fields} (h : key ∉ keys after) :
    get (before ++ after) key = get before key := by
  have hnone := get_eq_none_iff.mpr h
  unfold get at hnone ⊢
  rw [Option.map_eq_none_iff] at hnone
  rw [List.find?_append, hnone, Option.or_none]

theorem set_of_not_mem (h : key ∉ keys fields) (value : Js) :
    set fields key value = fields ++ [(key, value)] := by
  induction fields with
  | nil => rfl
  | cons field rest ih =>
    obtain ⟨name, old⟩ := field
    rw [keys, map_cons, mem_cons, not_or] at h
    have hname : ¬(name == key) = true := fun hname => h.1 (beq_iff_eq.mp hname).symm
    rw [set, if_neg hname, ih h.2, cons_append]

theorem mem_keys_set {name : String} :
    name ∈ keys (set fields key value) ↔ name ∈ keys fields ∨ name = key := by
  induction fields with
  | nil => simp [set, keys]
  | cons field rest ih =>
    obtain ⟨first, old⟩ := field
    rw [set]
    split
    · rename_i hfirst
      rw [beq_iff_eq] at hfirst
      simp only [keys, map_cons, mem_cons, hfirst]
      tauto
    · simp only [keys, map_cons, mem_cons] at ih ⊢
      rw [ih]
      tauto

/-- Setting a property keeps the names distinct. -/
theorem nodup_keys_set (h : (keys fields).Nodup) (key : String) (value : Js) :
    (keys (set fields key value)).Nodup := by
  induction fields with
  | nil => simp [set, keys]
  | cons field rest ih =>
    obtain ⟨first, old⟩ := field
    rw [keys, map_cons, nodup_cons] at h
    rw [set]
    split
    · exact nodup_cons.mpr h
    · rename_i hfirst
      refine nodup_cons.mpr ⟨fun hmem => ?_, ih h.2⟩
      rcases mem_keys_set.mp hmem with hmem | rfl
      · exact h.1 hmem
      · exact hfirst (beq_self_eq_true _)

theorem get_set (fields : Fields) (key : String) (value : Js) (name : String) :
    get (set fields key value) name = if key = name then some value else get fields name := by
  induction fields with
  | nil => rw [set, get_cons]
  | cons field rest ih =>
    obtain ⟨first, old⟩ := field
    rw [set]
    split
    · rename_i hfirst
      rw [beq_iff_eq] at hfirst
      rw [get_cons, get_cons, hfirst]
      split <;> rfl
    · rename_i hfirst
      rw [get_cons, get_cons, ih]
      have hne : first ≠ key := fun heq => hfirst (beq_iff_eq.mpr heq)
      by_cases hname : first = name
      · rw [if_pos hname, if_pos hname, if_neg fun heq => hne (hname.trans heq.symm)]
      · rw [if_neg hname, if_neg hname]

theorem get_map_values (f : Js → Js) (fields : Fields) (key : String) :
    get (fields.map fun field => (field.1, f field.2)) key = (get fields key).map f := by
  induction fields with
  | nil => rfl
  | cons field rest ih =>
    rw [map_cons, get_cons, ih, get_cons]
    split <;> rfl

/-- `{ ...base, ...fields }`. -/
def spread (base fields : Fields) : Fields :=
  fields.foldl (fun acc field => set acc field.1 field.2) base

theorem get_spread {base : Fields} (h : (keys fields).Nodup) (key : String) :
    get (spread base fields) key = (get fields key).or (get base key) := by
  induction fields generalizing base with
  | nil => rfl
  | cons field rest ih =>
    obtain ⟨name, value⟩ := field
    rw [keys, map_cons, nodup_cons] at h
    show get (spread (set base name value) rest) key = _
    rw [ih h.2, get_set, get_cons]
    by_cases hname : name = key
    · have hnone : get rest key = none := get_eq_none_iff.mpr (hname ▸ h.1)
      rw [hnone, if_pos hname, if_pos hname]
      rfl
    · rw [if_neg hname, if_neg hname]

theorem forall_mem_set {p : String × Js → Prop} (h : ∀ field ∈ fields, p field)
    (hvalue : p (key, value)) :
    ∀ field ∈ set fields key value, p field := by
  induction fields with
  | nil =>
    intro field hfield
    rw [mem_singleton.mp hfield]
    exact hvalue
  | cons first rest ih =>
    obtain ⟨name, old⟩ := first
    rw [forall_mem_cons] at h
    rw [set]
    split
    · rename_i hname
      exact forall_mem_cons.mpr ⟨beq_iff_eq.mp hname ▸ hvalue, h.2⟩
    · exact forall_mem_cons.mpr ⟨h.1, ih h.2⟩

/-- The properties in the order of a list of names. -/
def sorted (order : List String) (fields : Fields) : Fields :=
  order.filterMap fun key => (get fields key).map fun value => (key, value)

theorem sorted_perm {order : List String} (horder : order.Nodup) (hfields : (keys fields).Nodup)
    (h : ∀ key ∈ keys fields, key ∈ order) :
    (sorted order fields).Perm fields := by
  refine (perm_ext_iff_of_nodup ?_ (List.Nodup.of_map _ hfields)).mpr fun field => ?_
  · refine horder.filterMap fun a b field ha hb => ?_
    simp only [Option.mem_def, Option.map_eq_some_iff] at ha hb
    obtain ⟨_, -, rfl⟩ := ha
    obtain ⟨_, -, heq⟩ := hb
    exact (Prod.mk.inj heq).1.symm
  · obtain ⟨key, value⟩ := field
    simp only [sorted, mem_filterMap, Option.map_eq_some_iff, Prod.mk.injEq]
    constructor
    · rintro ⟨_, -, _, hget, rfl, rfl⟩
      exact mem_of_get hget
    · intro hmem
      exact ⟨key, h key (mem_map_of_mem hmem), value, (get_eq_some_iff hfields).mpr hmem, rfl, rfl⟩

theorem get_perm {f g : Fields} (h : f.Perm g) (hf : (keys f).Nodup) (key : String) :
    get f key = get g key := by
  have hg : (keys g).Nodup := (h.map Prod.fst).nodup hf
  refine Option.ext fun value => ?_
  rw [get_eq_some_iff hf, get_eq_some_iff hg]
  exact h.mem_iff

/-! ## The length of the text -/

/-- The number of UTF-16 code units of a text. -/
def units (text : List Char) : Nat :=
  (text.map fun c => if c.toNat < 0x10000 then 1 else 2).sum

mutual
def stringify (number : JsNumber → List Char) : Js → List Char
  | .null => "null".toList
  | .bool b => if b then "true".toList else "false".toList
  | .num n => number n
  | .str s => quoted stringifyChar s
  | .arr items => '[' :: List.intercalate [','] (stringifyItems number items) ++ [']']
  | .obj fields => '{' :: List.intercalate [','] (stringifyFields number fields) ++ ['}']

/-- The texts of the items of an array. -/
def stringifyItems (number : JsNumber → List Char) : List Js → List (List Char)
  | [] => []
  | first :: rest => stringify number first :: stringifyItems number rest

/-- The texts of the properties of an object. -/
def stringifyFields (number : JsNumber → List Char) : Fields → List (List Char)
  | [] => []
  | (name, value) :: rest =>
    (quoted stringifyChar name ++ ':' :: stringify number value) ::
      stringifyFields number rest
end

variable {number : JsNumber → List Char}

/-- The length of `JSON.stringify` of a value. -/
def textLength (number : JsNumber → List Char) (value : Js) : Nat :=
  units (stringify number value)

theorem units_append (a b : List Char) : units (a ++ b) = units a + units b := by
  simp [units]

theorem stringify_items_eq_map (items : List Js) :
    stringifyItems number items = items.map (stringify number) := by
  induction items with
  | nil => rfl
  | cons first rest ih => rw [stringifyItems, ih, map_cons]

theorem stringify_fields_eq_map (fields : Fields) :
    stringifyFields number fields = fields.map fun field =>
      quoted stringifyChar field.1 ++ ':' :: stringify number field.2 := by
  induction fields with
  | nil => rfl
  | cons field rest ih => rw [stringifyFields, ih, map_cons]

theorem units_intercalate (texts : List (List Char)) :
    units (List.intercalate [','] texts) = (texts.map units).sum + (texts.length - 1) := by
  have hcomma : units [','] = 1 := rfl
  induction texts with
  | nil => rfl
  | cons first rest ih =>
    cases rest with
    | nil => simp
    | cons second rest =>
      have hjoin : List.intercalate [','] (first :: second :: rest) =
          first ++ ([','] ++ List.intercalate [','] (second :: rest)) := by
        simp
      rw [hjoin, units_append, units_append, ih, hcomma]
      simp only [map_cons, sum_cons, length_cons]
      omega

theorem text_length_arr (items : List Js) : textLength number (.arr items) =
      2 + (items.map (textLength number)).sum + (items.length - 1) := by
  have hopen : units ['['] = 1 := rfl
  have hclose : units [']'] = 1 := rfl
  have hmap : (items.map (stringify number)).map units = items.map (textLength number) :=
    map_map
  rw [textLength, stringify, ← singleton_append, units_append, units_append, hopen, hclose,
    units_intercalate, stringify_items_eq_map, hmap, length_map]
  omega

theorem text_length_arr_le {items items' : List Js} (h : items.Sublist items') :
    textLength number (.arr items) ≤ textLength number (.arr items') := by
  have hsum := (h.map (textLength number)).sum_le_sum fun _ _ => Nat.zero_le _
  have hlength := h.length_le
  rw [text_length_arr, text_length_arr]
  omega

theorem text_length_obj (fields : Fields) :
    textLength number (.obj fields) = 2 + (fields.map fun field =>
      units (quoted stringifyChar field.1 ++ ':' :: stringify number field.2)).sum +
        (fields.length - 1) := by
  have hopen : units ['{'] = 1 := rfl
  have hclose : units ['}'] = 1 := rfl
  rw [textLength, stringify, ← singleton_append, units_append, units_append, hopen, hclose,
    units_intercalate, stringify_fields_eq_map, length_map, map_map]
  simp only [Function.comp_def]
  omega

theorem text_length_obj_perm {f g : Fields} (h : f.Perm g) :
    textLength number (.obj f) = textLength number (.obj g) := by
  rw [text_length_obj, text_length_obj, h.length_eq, (h.map _).sum_eq]

theorem text_length_obj_last {value' : Js}
    (h : textLength number value = textLength number value') :
    textLength number (.obj (fields ++ [(key, value)])) =
      textLength number (.obj (fields ++ [(key, value')])) := by
  have hfield : ∀ value : Js, units (quoted stringifyChar key ++ ':' :: stringify number value) =
        units (quoted stringifyChar key ++ [':']) + textLength number value := by
    intro value
    rw [textLength, ← units_append, append_assoc]
    rfl
  rw [text_length_obj, text_length_obj]
  simp [hfield, h]

/-! ## Deep equality -/

mutual
/-- Deep equality: the order of the properties of an object does not matter. -/
inductive DeepEq : Js → Js → Prop
  | null : DeepEq .null .null
  | bool (b : Bool) : DeepEq (.bool b) (.bool b)
  | num (n : JsNumber) : DeepEq (.num n) (.num n)
  | str (s : String) : DeepEq (.str s) (.str s)
  | arr {items items' : List Js} (hitems : DeepItems items items') :
      DeepEq (.arr items) (.arr items')
  | obj {f g g' : Fields} (hfields : DeepFields f g) (hperm : g.Perm g') :
      DeepEq (.obj f) (.obj g')

inductive DeepItems : List Js → List Js → Prop
  | nil : DeepItems [] []
  | cons {x y : Js} {xs ys : List Js} (hfirst : DeepEq x y) (hrest : DeepItems xs ys) :
      DeepItems (x :: xs) (y :: ys)

/-- Properties of the same names whose values are deeply equal, one by one. -/
inductive DeepFields : Fields → Fields → Prop
  | nil : DeepFields [] []
  | cons (key : String) {v w : Js} {f g : Fields} (hfirst : DeepEq v w) (hrest : DeepFields f g) :
      DeepFields ((key, v) :: f) ((key, w) :: g)
end

mutual
theorem DeepEq.refl : ∀ x, DeepEq x x
  | .null => .null
  | .bool b => .bool b
  | .num n => .num n
  | .str s => .str s
  | .arr items => .arr (DeepItems.refl items)
  | .obj fields => .obj (DeepFields.refl fields) (List.Perm.refl fields)

theorem DeepItems.refl : ∀ items, DeepItems items items
  | [] => .nil
  | first :: rest => .cons (DeepEq.refl first) (DeepItems.refl rest)

theorem DeepFields.refl : ∀ fields, DeepFields fields fields
  | [] => .nil
  | (key, value) :: rest => .cons key (DeepEq.refl value) (DeepFields.refl rest)
end

theorem DeepItems.map {α : Type} {f g : α → Js} {xs : List α}
    (h : ∀ x ∈ xs, DeepEq (f x) (g x)) : DeepItems (xs.map f) (xs.map g) := by
  induction xs with
  | nil => exact .nil
  | cons x rest ih =>
    rw [forall_mem_cons] at h
    exact .cons h.1 (ih h.2)

theorem DeepFields.append {f f' g g' : Fields} (h : DeepFields f f') (h' : DeepFields g g') :
    DeepFields (f ++ g) (f' ++ g') := by
  induction f generalizing f' with
  | nil =>
    cases h
    exact h'
  | cons field rest ih =>
    cases h with
    | cons key hfirst hrest => exact .cons key hfirst (ih hrest)

end Js

end AwsOps
