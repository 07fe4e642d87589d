import AwsOps.Foundation.Text

/-!
# Domain names

Names as texts whose labels are separated by dots. A name lies at or below another when it is the
other with labels and a dot in front. `mem_ancestors_iff` connects this to the list of ancestors
that is computed from the labels, and `ancestors_of_split` says that the list runs from the name
upwards, so that the first ancestor with a property is the closest one.
-/

namespace AwsOps.DnsNames

open List

abbrev Name : Type :=
  List Char

def labels (name : Name) : List (List Char) :=
  Text.split ['.'] name

def joined (labels : List (List Char)) : Name :=
  List.intercalate ['.'] labels

/-- The names that the labels end with, the longest first. -/
def suffixes (labels : List (List Char)) : List Name :=
  (List.range labels.length).map fun i => joined (labels.drop i)

def ancestors (name : Name) : List Name :=
  suffixes (labels name)

/-- The ancestors without the name itself. -/
def strictAncestors (name : Name) : List Name :=
  (ancestors name).tail

/-- A name is another name or lies below it. -/
def AtOrBelow (name above : Name) : Prop :=
  name = above ∨ ∃ front, name = front ++ '.' :: above

/-! ## Labels -/

theorem labels_dot (rest : List Char) : labels ('.' :: rest) = [] :: labels rest :=
  Text.split_separator '.' rest

theorem labels_ne_nil (name : Name) : labels name ≠ [] :=
  Text.split_ne_nil '.' name

variable {c : Char} {name : Name}

theorem labels_cons (hc : c ≠ '.') (rest : List Char) :
    ∃ first others, labels rest = first :: others ∧ labels (c :: rest) = (c :: first) :: others :=
  Text.split_cons hc rest

theorem joined_cons (first : List Char) {others : List (List Char)} (h : others ≠ []) :
    joined (first :: others) = first ++ '.' :: joined others := by
  obtain ⟨second, rest, rfl⟩ := exists_cons_of_ne_nil h
  simp [joined]

theorem joined_labels (name : Name) : joined (labels name) = name := by
  induction name with
  | nil => rfl
  | cons c rest ih =>
    by_cases hc : c = '.'
    · rw [hc, labels_dot, joined_cons _ (labels_ne_nil rest), ih]
      rfl
    · obtain ⟨first, others, hrest, hcons⟩ := labels_cons hc rest
      rw [hrest] at ih
      rw [hcons]
      cases others with
      | nil =>
        rw [← ih]
        simp [joined]
      | cons second others =>
        rw [joined_cons _ (cons_ne_nil _ _)] at ih ⊢
        rw [cons_append, ih]

/-! ## Ancestors -/

theorem suffixes_cons (first : List Char) (others : List (List Char)) :
    suffixes (first :: others) = joined (first :: others) :: suffixes others := by
  simp [suffixes, range_succ_eq_map, Function.comp_def]

theorem ancestors_nil : ancestors [] = [[]] :=
  rfl

theorem ancestors_dot (rest : List Char) :
    ancestors ('.' :: rest) = ('.' :: rest) :: ancestors rest := by
  rw [ancestors, labels_dot, suffixes_cons, ← labels_dot, joined_labels]
  rfl

theorem ancestors_cons (hc : c ≠ '.') (rest : List Char) :
    ancestors (c :: rest) = (c :: rest) :: (ancestors rest).tail := by
  obtain ⟨first, others, hrest, hcons⟩ := labels_cons hc rest
  rw [ancestors, hcons, suffixes_cons, ← hcons, joined_labels, ancestors, hrest, suffixes_cons]
  rfl

theorem ancestors_eq_cons (name : Name) : ancestors name = name :: strictAncestors name := by
  unfold strictAncestors
  cases name with
  | nil => rfl
  | cons c rest =>
    by_cases hc : c = '.'
    · rw [hc, ancestors_dot]
      rfl
    · rw [ancestors_cons hc]
      rfl

theorem strictAncestors_dot (rest : List Char) :
    strictAncestors ('.' :: rest) = rest :: strictAncestors rest := by
  rw [strictAncestors, ancestors_dot, tail_cons, ancestors_eq_cons]

theorem strictAncestors_cons (hc : c ≠ '.') (rest : List Char) :
    strictAncestors (c :: rest) = strictAncestors rest := by
  rw [strictAncestors, ancestors_cons hc, tail_cons]
  rfl

variable {above : Name} {p : Name → Bool}

theorem mem_strictAncestors_iff :
    above ∈ strictAncestors name ↔ ∃ front, name = front ++ '.' :: above := by
  induction name with
  | nil =>
    constructor
    · intro h
      cases h
    · intro ⟨front, h⟩
      exact absurd h (by simp)
  | cons c rest ih =>
    by_cases hc : c = '.'
    · rw [hc, strictAncestors_dot, mem_cons, ih]
      constructor
      · intro h
        rcases h with h | ⟨front, h⟩
        · exact ⟨[], by rw [h]; rfl⟩
        · exact ⟨'.' :: front, by rw [h]; rfl⟩
      · intro ⟨front, h⟩
        cases front with
        | nil => exact .inl (List.cons.inj h).2.symm
        | cons _ front => exact .inr ⟨front, (List.cons.inj h).2⟩
    · rw [strictAncestors_cons hc, ih]
      constructor
      · intro ⟨front, h⟩
        exact ⟨c :: front, by rw [h]; rfl⟩
      · intro ⟨front, h⟩
        cases front with
        | nil => exact absurd (List.cons.inj h).1 hc
        | cons _ front => exact ⟨front, (List.cons.inj h).2⟩

theorem mem_ancestors_iff : above ∈ ancestors name ↔ AtOrBelow name above := by
  rw [ancestors_eq_cons, mem_cons, mem_strictAncestors_iff]
  unfold AtOrBelow
  exact or_congr_left eq_comm

theorem strictAncestors_of_split {nearer farther : List Name}
    (h : strictAncestors name = nearer ++ above :: farther) :
    strictAncestors above = farther := by
  induction name generalizing nearer with
  | nil => exact absurd h.symm (by simp [strictAncestors, ancestors_nil])
  | cons c rest ih =>
    by_cases hc : c = '.'
    · rw [hc, strictAncestors_dot] at h
      cases nearer with
      | nil =>
        have hparts := List.cons.inj h
        rw [← hparts.1]
        exact hparts.2
      | cons _ nearer => exact ih (List.cons.inj h).2
    · rw [strictAncestors_cons hc] at h
      exact ih h

/-- The closest strict ancestor with a property: every strict ancestor with the property is this
one or lies above it. -/
def Closest (p : Name → Prop) (name above : Name) : Prop :=
  (∃ front, name = front ++ '.' :: above) ∧ p above ∧
    ∀ front other, name = front ++ '.' :: other → p other → AtOrBelow above other

theorem closest_of_find
    (h : (strictAncestors name).find? p = some above) : Closest (fun n => p n = true) name above := by
  obtain ⟨hp, nearer, farther, hsplit, hnot⟩ := List.find?_eq_some_iff_append.mp h
  have hmem : above ∈ strictAncestors name := by
    rw [hsplit]
    exact mem_append_right _ mem_cons_self
  refine ⟨mem_strictAncestors_iff.mp hmem, hp, fun front other hother hpother => ?_⟩
  have hother : other ∈ strictAncestors name := mem_strictAncestors_iff.mpr ⟨front, hother⟩
  rw [hsplit] at hother
  rcases mem_append.mp hother with hother | hother
  · have hfalse := hnot other hother
    rw [hpother] at hfalse
    cases hfalse
  · rw [← mem_ancestors_iff, ancestors_eq_cons, strictAncestors_of_split hsplit]
    exact hother

theorem not_closest_of_find (h : (strictAncestors name).find? p = none) (above : Name) :
    ¬Closest (fun n => p n = true) name above := by
  intro ⟨hbelow, hp, _⟩
  exact List.find?_eq_none.mp h above (mem_strictAncestors_iff.mpr hbelow) hp

theorem Closest.unique {p : Name → Prop} {above' : Name} (h : Closest p name above)
    (h' : Closest p name above') : above = above' := by
  obtain ⟨⟨front, hfront⟩, hp, hclosest⟩ := h
  obtain ⟨⟨front', hfront'⟩, hp', hclosest'⟩ := h'
  have hlength : ∀ {a b : Name}, AtOrBelow a b → b.length ≤ a.length := by
    intro a b hab
    rcases hab with rfl | ⟨front, rfl⟩
    · exact Nat.le_refl _
    · rw [length_append, length_cons]
      omega
  have hge := hlength (hclosest' front above hfront hp)
  rcases hclosest front' above' hfront' hp' with heq | ⟨between, hbetween⟩
  · exact heq
  · rw [hbetween, length_append, length_cons] at hge
    omega

end AwsOps.DnsNames
