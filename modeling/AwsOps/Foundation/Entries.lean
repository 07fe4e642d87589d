import Mathlib.Algebra.GroupWithZero.Nat
import Mathlib.Data.List.Nodup
import Mathlib.Data.List.Induction
import Mathlib.Algebra.BigOperators.Group.List.Basic

/-!
# Maps in insertion order

A map that keeps its entries in the order in which their keys were first set, as `Map` of
JavaScript does. `upsert` changes the value of a key in its place, or adds the key at the end. An
update of a key that the front of a map does not have happens in its back, so maps over disjoint
keys are built side by side.
-/

namespace AwsOps.Entries

open List

variable {κ ν : Type}

/-- The keys in insertion order. -/
def keys (m : List (κ × ν)) : List κ :=
  m.map Prod.fst

/-- The values in insertion order. -/
def values (m : List (κ × ν)) : List ν :=
  m.map Prod.snd

theorem keys_append (m m' : List (κ × ν)) : keys (m ++ m') = keys m ++ keys m' :=
  map_append

theorem values_append (m m' : List (κ × ν)) : values (m ++ m') = values m ++ values m' :=
  map_append

variable [DecidableEq κ]

/-- The value of a key. -/
def get : List (κ × ν) → κ → Option ν
  | [], _ => none
  | (k, v) :: rest, key => if k = key then some v else get rest key

/-- Give a key the value that `f` makes of its current one. -/
def upsert (key : κ) (f : Option ν → ν) : List (κ × ν) → List (κ × ν)
  | [] => [(key, f none)]
  | (k, v) :: rest => if k = key then (k, f (some v)) :: rest else (k, v) :: upsert key f rest

/-- Change the value of a key that is there. -/
def modify (key : κ) (f : ν → ν) : List (κ × ν) → List (κ × ν)
  | [] => []
  | (k, v) :: rest => if k = key then (k, f v) :: rest else (k, v) :: modify key f rest

/-- The map of a list of entries, of which the last one for a key gives its value. -/
def ofList (entries : List (κ × ν)) : List (κ × ν) :=
  entries.foldl (fun m entry => upsert entry.1 (fun _ => entry.2) m) []

variable {m m' : List (κ × ν)} {key : κ}

/-! ## Keys -/

theorem keys_modify (f : ν → ν) : keys (modify key f m) = keys m := by
  induction m with
  | nil => rfl
  | cons entry rest ih =>
    show keys (if entry.1 = key then _ else _) = _
    split
    · rfl
    · show entry.1 :: keys (modify key f rest) = entry.1 :: keys rest
      rw [ih]

theorem keys_upsert (f : Option ν → ν) :
    keys (upsert key f m) = if key ∈ keys m then keys m else keys m ++ [key] := by
  induction m with
  | nil => rfl
  | cons entry rest ih =>
    show keys (if entry.1 = key then _ else _) = if key ∈ entry.1 :: keys rest then _ else _
    by_cases h : entry.1 = key
    · rw [if_pos h, if_pos (h ▸ mem_cons_self)]
      rfl
    · have hmem : key ∈ entry.1 :: keys rest ↔ key ∈ keys rest := by
        rw [mem_cons]
        exact or_iff_right (Ne.symm h)
      rw [if_neg h]
      show entry.1 :: keys (upsert key f rest) = _
      rw [ih]
      simp only [hmem]
      split <;> rfl

variable {f : Option ν → ν} {entry : κ × ν} {entries : List (κ × ν)}

theorem mem_keys_upsert {k : κ} : k ∈ keys (upsert key f m) ↔ k ∈ keys m ∨ k = key := by
  rw [keys_upsert]
  split
  · next h => exact (or_iff_left_of_imp fun hk => hk ▸ h).symm
  · rw [mem_append, mem_singleton]

theorem nodup_keys_upsert (h : (keys m).Nodup) (f : Option ν → ν) :
    (keys (upsert key f m)).Nodup := by
  rw [keys_upsert]
  split
  · exact h
  · next hkey =>
      refine nodup_append.mpr ⟨h, nodup_singleton key, ?_⟩
      intro a ha b hb hab
      rw [mem_singleton.mp hb] at hab
      exact hkey (hab ▸ ha)

/-! ## Values -/

theorem get_eq_none : get m key = none ↔ key ∉ keys m := by
  induction m with
  | nil => exact iff_of_true rfl not_mem_nil
  | cons entry rest ih =>
    show (if entry.1 = key then _ else _) = none ↔ key ∉ entry.1 :: keys rest
    by_cases h : entry.1 = key
    · rw [if_pos h]
      exact iff_of_false nofun (not_not_intro (h ▸ mem_cons_self))
    · rw [if_neg h, ih, mem_cons, not_or]
      exact (and_iff_right (Ne.symm h)).symm

theorem mem_of_get {v : ν} (h : get m key = some v) : (key, v) ∈ m := by
  induction m with
  | nil => cases h
  | cons entry rest ih =>
    replace h : (if entry.1 = key then some entry.2 else get rest key) = some v := h
    split at h
    · next hkey =>
        cases h
        exact hkey ▸ mem_cons_self
    · exact mem_cons_of_mem _ (ih h)

theorem get_of_mem (h : (keys m).Nodup) (hmem : entry ∈ m) : get m entry.1 = some entry.2 := by
  induction m with
  | nil => cases hmem
  | cons first rest ih =>
    obtain ⟨hfirst, hrest⟩ := nodup_cons.mp h
    rcases mem_cons.mp hmem with rfl | hmem
    · exact if_pos rfl
    · have hne : ¬ first.1 = entry.1 := fun heq => hfirst (heq ▸ mem_map_of_mem hmem)
      show (if first.1 = entry.1 then _ else get rest entry.1) = _
      rw [if_neg hne, ih hrest hmem]

theorem get_upsert (f : Option ν → ν) (k : κ) :
    get (upsert key f m) k = if k = key then some (f (get m key)) else get m k := by
  induction m with
  | nil =>
    show (if key = k then some (f none) else none) = _
    simp only [eq_comm]
    rfl
  | cons entry rest ih =>
    by_cases h : entry.1 = key
    · have hupsert : upsert key f (entry :: rest) = (entry.1, f (some entry.2)) :: rest := if_pos h
      have hget : get (entry :: rest) key = some entry.2 := if_pos h
      rw [hupsert, hget]
      show (if entry.1 = k then _ else _) = _
      by_cases hk : k = key
      · rw [if_pos (h.trans hk.symm), if_pos hk]
      · have hne : ¬ entry.1 = k := fun hek => hk (hek.symm.trans h)
        rw [if_neg hne, if_neg hk]
        exact (if_neg hne).symm
    · have hupsert : upsert key f (entry :: rest) = entry :: upsert key f rest := if_neg h
      have hget : get (entry :: rest) key = get rest key := if_neg h
      rw [hupsert, hget]
      show (if entry.1 = k then _ else get (upsert key f rest) k) =
        if k = key then _ else if entry.1 = k then _ else _
      rw [ih]
      by_cases hk : k = key
      · have hne : ¬ entry.1 = k := fun hek => h (hek.trans hk)
        rw [if_neg hne, if_pos hk, if_pos hk]
      · rw [if_neg hk, if_neg hk]

/-- An update that gives a key the value it has changes nothing. -/
theorem upsert_eq_self {v : ν} (h : get m key = some v)
    (hf : f (some v) = v) : upsert key f m = m := by
  induction m with
  | nil => cases h
  | cons entry rest ih =>
    replace h : (if entry.1 = key then some entry.2 else get rest key) = some v := h
    show (if entry.1 = key then _ else _) = _
    split at h
    · next hkey =>
        cases h
        rw [if_pos hkey, hf]
    · next hkey => rw [if_neg hkey, ih h]

theorem get_filter (p : κ → Bool) :
    get (m.filter fun entry => p entry.1) key = if p key then get m key else none := by
  induction m with
  | nil => simp [get]
  | cons entry rest ih =>
    rw [filter_cons]
    by_cases hkey : entry.1 = key
    · subst hkey
      by_cases hp : p entry.1
      · simp [hp, get]
      · rw [if_neg hp, ih, if_neg hp, if_neg hp]
    · by_cases hp : p entry.1
      · simp [hp, get, if_neg hkey, ih]
      · simp only [if_neg hp, get, if_neg hkey, ih]

/-! ## Maps side by side -/

theorem get_append_left (h : key ∉ keys m') : get (m ++ m') key = get m key := by
  induction m with
  | nil => exact get_eq_none.mpr h
  | cons entry rest ih =>
    show (if entry.1 = key then _ else get (rest ++ m') key) = if entry.1 = key then _ else _
    rw [ih]

theorem get_append_right (h : key ∉ keys m) : get (m ++ m') key = get m' key := by
  induction m with
  | nil => rfl
  | cons entry rest ih =>
    have hne : ¬ entry.1 = key := fun heq => h (heq ▸ mem_cons_self)
    show (if entry.1 = key then _ else get (rest ++ m') key) = _
    rw [if_neg hne, ih fun hmem => h (mem_cons_of_mem _ hmem)]

theorem upsert_append (h : key ∉ keys m) (f : Option ν → ν) :
    upsert key f (m ++ m') = m ++ upsert key f m' := by
  induction m with
  | nil => rfl
  | cons entry rest ih =>
    have hne : ¬ entry.1 = key := fun heq => h (heq ▸ mem_cons_self)
    show (if entry.1 = key then _ else entry :: upsert key f (rest ++ m')) = _
    rw [if_neg hne, ih fun hmem => h (mem_cons_of_mem _ hmem)]
    rfl

theorem modify_append (h : key ∉ keys m) (f : ν → ν) :
    modify key f (m ++ m') = m ++ modify key f m' := by
  induction m with
  | nil => rfl
  | cons entry rest ih =>
    have hne : ¬ entry.1 = key := fun heq => h (heq ▸ mem_cons_self)
    show (if entry.1 = key then _ else entry :: modify key f (rest ++ m')) = _
    rw [if_neg hne, ih fun hmem => h (mem_cons_of_mem _ hmem)]
    rfl

/-! ## The map of a list of entries -/

theorem ofList_concat (entries : List (κ × ν)) (entry : κ × ν) :
    ofList (entries ++ [entry]) = upsert entry.1 (fun _ => entry.2) (ofList entries) := by
  rw [ofList, foldl_concat]
  rfl

theorem mem_keys_ofList {k : κ} : k ∈ keys (ofList entries) ↔ k ∈ keys entries := by
  induction entries using List.reverseRecOn with
  | nil => exact Iff.rfl
  | append_singleton entries entry ih =>
    rw [ofList_concat, mem_keys_upsert, ih, keys_append, mem_append]
    exact or_congr_right mem_singleton.symm

theorem nodup_keys_ofList (entries : List (κ × ν)) : (keys (ofList entries)).Nodup := by
  induction entries using List.reverseRecOn with
  | nil => exact nodup_nil
  | append_singleton entries entry ih =>
    rw [ofList_concat]
    exact nodup_keys_upsert ih _

theorem mem_of_get_ofList {v : ν} (h : get (ofList entries) key = some v) : (key, v) ∈ entries := by
  induction entries using List.reverseRecOn with
  | nil => cases h
  | append_singleton entries entry ih =>
    rw [ofList_concat, get_upsert] at h
    split at h
    · next hkey =>
        cases h
        rw [hkey]
        exact mem_append_right _ mem_cons_self
    · exact mem_append_left _ (ih h)

theorem ofList_append {entries' : List (κ × ν)} (h : ∀ k ∈ keys entries', k ∉ keys entries) :
    ofList (entries ++ entries') = ofList entries ++ ofList entries' := by
  induction entries' using List.reverseRecOn with
  | nil => rw [append_nil]; exact (append_nil _).symm
  | append_singleton entries' entry ih =>
    rw [keys_append] at h
    have hentry : entry.1 ∉ keys (ofList entries) := fun hmem =>
      h entry.1 (mem_append_right _ mem_cons_self) (mem_keys_ofList.mp hmem)
    rw [← append_assoc, ofList_concat, ofList_concat,
      ih fun k hk => h k (mem_append_left _ hk), upsert_append hentry]

theorem ofList_append_same {entries' : List (κ × ν)}
    (h : ∀ entry ∈ entries', get (ofList entries) entry.1 = some entry.2) :
    ofList (entries ++ entries') = ofList entries := by
  induction entries' using List.reverseRecOn with
  | nil => rw [append_nil]
  | append_singleton entries' entry ih =>
    have hsame := ih fun entry hentry => h entry (mem_append_left _ hentry)
    rw [← append_assoc, ofList_concat, hsame]
    exact upsert_eq_self (h entry (mem_append_right _ mem_cons_self)) rfl

/-! ## Entries -/

theorem mem_upsert (h : entry ∈ upsert key f m) :
    entry ∈ m ∨ (entry.1 = key ∧ entry.2 = f (get m key)) := by
  induction m with
  | nil =>
    rw [mem_singleton.mp h]
    exact .inr ⟨rfl, rfl⟩
  | cons first rest ih =>
    by_cases hkey : first.1 = key
    · have hget : get (first :: rest) key = some first.2 := if_pos hkey
      rw [show upsert key f (first :: rest) = (first.1, f (some first.2)) :: rest from
        if_pos hkey] at h
      rcases mem_cons.mp h with rfl | h
      · exact .inr ⟨hkey, by rw [hget]⟩
      · exact .inl (mem_cons_of_mem _ h)
    · have hget : get (first :: rest) key = get rest key := if_neg hkey
      rw [show upsert key f (first :: rest) = first :: upsert key f rest from if_neg hkey] at h
      rw [hget]
      rcases mem_cons.mp h with rfl | h
      · exact .inl mem_cons_self
      · exact (ih h).imp_left (mem_cons_of_mem _)

/-- The entries of a changed map are its own and the changed one. -/
theorem mem_modify {f : ν → ν} (h : entry ∈ modify key f m) :
    entry ∈ m ∨ ∃ v, (key, v) ∈ m ∧ entry = (key, f v) := by
  induction m with
  | nil => cases h
  | cons first rest ih =>
    replace h : entry ∈ if first.1 = key then (first.1, f first.2) :: rest
      else first :: modify key f rest := h
    split at h
    · next hkey =>
        rcases mem_cons.mp h with rfl | h
        · exact .inr ⟨first.2, hkey ▸ mem_cons_self, by rw [hkey]⟩
        · exact .inl (mem_cons_of_mem _ h)
    · rcases mem_cons.mp h with rfl | h
      · exact .inl mem_cons_self
      · rcases ih h with h | ⟨v, hv, heq⟩
        · exact .inl (mem_cons_of_mem _ h)
        · exact .inr ⟨v, mem_cons_of_mem _ hv, heq⟩

/-! ## Sums over the values -/

theorem sum_modify (weigh : ν → Nat) {f : ν → ν} {n : Nat}
    (hf : ∀ v, (key, v) ∈ m → weigh (f v) = weigh v + n) (h : key ∈ keys m) :
    ((values (modify key f m)).map weigh).sum = ((values m).map weigh).sum + n := by
  induction m with
  | nil => cases h
  | cons entry rest ih =>
    show ((values (if entry.1 = key then _ else _)).map weigh).sum = _
    by_cases hkey : entry.1 = key
    · have hentry := hf entry.2 (hkey ▸ mem_cons_self)
      rw [if_pos hkey]
      simp only [values, map_cons, sum_cons, hentry]
      omega
    · have hmem : key ∈ keys rest := by
        rcases mem_cons.mp h with heq | hmem
        · exact absurd heq.symm hkey
        · exact hmem
      have hrest := ih (fun v hv => hf v (mem_cons_of_mem _ hv)) hmem
      rw [if_neg hkey]
      simp only [values, map_cons, sum_cons] at hrest ⊢
      omega

theorem sum_upsert (weigh : ν → Nat) (hnone : weigh (f none) = 0)
    (hsome : ∀ v, (key, v) ∈ m → weigh (f (some v)) = weigh v) :
    ((values (upsert key f m)).map weigh).sum = ((values m).map weigh).sum := by
  induction m with
  | nil => simp [upsert, values, hnone]
  | cons entry rest ih =>
    show ((values (if entry.1 = key then _ else _)).map weigh).sum = _
    split
    · next hkey =>
        have hentry := hsome entry.2 (hkey ▸ mem_cons_self)
        simp [values, hentry]
    · have hrest := ih fun v hv => hsome v (mem_cons_of_mem _ hv)
      simp only [values, map_cons, sum_cons] at hrest ⊢
      rw [hrest]

end AwsOps.Entries
