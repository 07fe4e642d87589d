import AwsOps.Foundation.Entries

/-!
# Disjoint sets by parent links

A map from each element to its parent, roots to themselves: `find` follows the links, `union` links
one root to another. `Sound` says that every element leads to a root within as many steps as there
are elements that are no roots. Elements that are joined stay joined (`Joined.union`).
-/

namespace AwsOps.DisjointSets

open List

variable {κ : Type} [DecidableEq κ]

/-- Follow the links from an element, at most as often as given. -/
def findFrom (parent : List (κ × κ)) : Nat → κ → κ
  | 0, x => x
  | fuel + 1, x =>
    match Entries.get parent x with
    | some p => if p = x then x else findFrom parent fuel p
    | none => x

/-- The root of an element. -/
def find (parent : List (κ × κ)) (x : κ) : κ :=
  findFrom parent parent.length x

/-- Add an element as a root unless it is there. -/
def ensure (parent : List (κ × κ)) (x : κ) : List (κ × κ) :=
  if x ∈ Entries.keys parent then parent else parent ++ [(x, x)]

/-- Link the root of one element to the root of another. -/
def union (parent : List (κ × κ)) (a b : κ) : List (κ × κ) :=
  if find parent a = find parent b then parent
  else Entries.upsert (find parent a) (fun _ => find parent b) parent

/-- Within so many links the element leads to the root. -/
inductive Leads (parent : List (κ × κ)) : Nat → κ → κ → Prop
  | root {r : κ} (h : Entries.get parent r = some r) : Leads parent 0 r r
  | link {n : Nat} {x p r : κ} (h : Entries.get parent x = some p) (hne : p ≠ x)
      (hp : Leads parent n p r) : Leads parent (n + 1) x r

/-- The number of elements that are no roots. -/
def links (parent : List (κ × κ)) : Nat :=
  (parent.filter fun entry => entry.2 ≠ entry.1).length

/-- Every element leads to a root. -/
structure Sound (parent : List (κ × κ)) : Prop where
  nodup : (Entries.keys parent).Nodup
  leads : ∀ x ∈ Entries.keys parent, ∃ n r, n ≤ links parent ∧ Leads parent n x r

variable {parent : List (κ × κ)} {a b x r : κ} {n : Nat}

theorem links_le (parent : List (κ × κ)) : links parent ≤ parent.length :=
  length_filter_le _ _

theorem find_of_leads (h : Leads parent n x r) {fuel : Nat} (hfuel : n ≤ fuel) :
    findFrom parent fuel x = r := by
  induction h generalizing fuel with
  | @root r h =>
    cases fuel with
    | zero => rfl
    | succ fuel =>
      rw [findFrom, h]
      exact if_pos rfl
  | @link n x p r h hne _ ih =>
    obtain ⟨fuel, rfl⟩ : ∃ m, fuel = m + 1 := ⟨fuel - 1, by omega⟩
    rw [findFrom, h]
    show (if p = x then x else findFrom parent fuel p) = r
    rw [if_neg hne]
    exact ih (by omega)

theorem Leads.is_root (h : Leads parent n x r) : Entries.get parent r = some r := by
  induction h with
  | root h => exact h
  | link _ _ _ ih => exact ih

theorem Leads.mem (h : Leads parent n x r) : x ∈ Entries.keys parent := by
  have hmem : ∀ {y p : κ}, Entries.get parent y = some p → y ∈ Entries.keys parent := by
    intro y p hget
    by_contra hnot
    rw [Entries.get_eq_none.mpr hnot] at hget
    cases hget
  cases h with
  | root h => exact hmem h
  | link h _ _ => exact hmem h

theorem Sound.find_leads (h : Sound parent) (hx : x ∈ Entries.keys parent) :
    ∃ n, n ≤ links parent ∧ Leads parent n x (find parent x) := by
  obtain ⟨n, r, hn, hleads⟩ := h.leads x hx
  have hfind : find parent x = r := find_of_leads hleads (Nat.le_trans hn (links_le parent))
  exact ⟨n, hn, hfind ▸ hleads⟩

theorem sound_nil : Sound ([] : List (κ × κ)) :=
  ⟨nodup_nil, fun _ h => absurd h not_mem_nil⟩

/-! ## Adding an element -/

theorem keys_ensure : Entries.keys (ensure parent x) =
    if x ∈ Entries.keys parent then Entries.keys parent else Entries.keys parent ++ [x] := by
  unfold ensure
  split_ifs
  · rfl
  · rw [Entries.keys_append]
    rfl

theorem mem_keys_ensure {y : κ} :
    y ∈ Entries.keys (ensure parent x) ↔ y ∈ Entries.keys parent ∨ y = x := by
  rw [keys_ensure]
  split_ifs with hx
  · exact ⟨Or.inl, fun h => h.elim id fun heq => heq ▸ hx⟩
  · simp

theorem Leads.ensure (h : Leads parent n a r) : Leads (ensure parent x) n a r := by
  unfold DisjointSets.ensure
  split_ifs with hx
  · exact h
  have hget : ∀ {y p : κ}, Entries.get parent y = some p →
      Entries.get (parent ++ [(x, x)]) y = some p := by
    intro y p hget
    have hne : y ∉ Entries.keys [(x, x)] := by
      intro hmem
      obtain rfl : y = x := by simpa [Entries.keys] using hmem
      rw [Entries.get_eq_none.mpr hx] at hget
      cases hget
    rw [Entries.get_append_left hne]
    exact hget
  induction h with
  | root h => exact .root (hget h)
  | link h hne _ ih => exact .link (hget h) hne ih

theorem Sound.ensure (h : Sound parent) (x : κ) : Sound (ensure parent x) := by
  by_cases hx : x ∈ Entries.keys parent
  · rwa [DisjointSets.ensure, if_pos hx]
  have hlinks : links (DisjointSets.ensure parent x) = links parent := by
    rw [DisjointSets.ensure, if_neg hx, links, links, filter_append]
    simp
  refine ⟨?_, fun y hy => ?_⟩
  · rw [keys_ensure, if_neg hx]
    exact nodup_append.mpr ⟨h.nodup, nodup_singleton x, by
      intro y hy z hz
      rw [mem_singleton.mp hz]
      rintro rfl
      exact hx hy⟩
  · rw [hlinks]
    rcases mem_keys_ensure.mp hy with hold | rfl
    · obtain ⟨n, r, hn, hleads⟩ := h.leads y hold
      exact ⟨n, r, hn, hleads.ensure⟩
    · refine ⟨0, y, Nat.zero_le _, .root ?_⟩
      rw [DisjointSets.ensure, if_neg hx, Entries.get_append_right hx]
      simp [Entries.get]

theorem Sound.find_ensure (h : Sound parent) (ha : a ∈ Entries.keys parent) (x : κ) :
    find (DisjointSets.ensure parent x) a = find parent a := by
  obtain ⟨n, hn, hleads⟩ := h.find_leads ha
  refine find_of_leads hleads.ensure (Nat.le_trans hn (Nat.le_trans (links_le parent) ?_))
  unfold DisjointSets.ensure
  split_ifs
  · exact Nat.le_refl _
  · simp

/-! ## Joining two elements -/

section Union

variable {ra rb : κ}

theorem leads_redirect (hne : ra ≠ rb) (hra : Entries.get parent ra = some ra)
    (hrb : Entries.get parent rb = some rb) (h : Leads parent n x r) :
    Leads (Entries.upsert ra (fun _ => rb) parent) (if r = ra then n + 1 else n) x
      (if r = ra then rb else r) := by
  have hget : ∀ {y p : κ}, y ≠ ra → Entries.get parent y = some p →
      Entries.get (Entries.upsert ra (fun _ => rb) parent) y = some p := by
    intro y p hy hget
    rw [Entries.get_upsert, if_neg hy]
    exact hget
  induction h with
  | @root r h =>
    by_cases hr : r = ra
    · rw [if_pos hr, if_pos hr, hr]
      refine .link ?_ hne.symm (.root (hget hne.symm hrb))
      rw [Entries.get_upsert, if_pos rfl]
    · rw [if_neg hr, if_neg hr]
      exact .root (hget hr h)
  | @link n x p r h hne' hp ih =>
    have hx : x ≠ ra := by
      rintro rfl
      rw [hra] at h
      exact hne' (Option.some.inj h).symm
    by_cases hr : r = ra
    · rw [if_pos hr, if_pos hr] at ih ⊢
      exact .link (hget hx h) hne' ih
    · rw [if_neg hr, if_neg hr] at ih ⊢
      exact .link (hget hx h) hne' ih

theorem links_redirect (hne : ra ≠ rb) (hra : Entries.get parent ra = some ra) :
    links (Entries.upsert ra (fun _ => rb) parent) = links parent + 1 := by
  induction parent with
  | nil => cases hra
  | cons entry rest ih =>
    obtain ⟨k, v⟩ := entry
    unfold Entries.upsert
    unfold Entries.get at hra
    split_ifs at hra ⊢ with hk
    · obtain rfl := Option.some.inj hra
      rw [hk, links, links, filter_cons_of_pos (by simpa using hne.symm),
        filter_cons_of_neg (by simp)]
      rfl
    · have hrest := ih hra
      unfold links at hrest ⊢
      by_cases hv : v = k
      · rw [filter_cons_of_neg (by simp [hv]), filter_cons_of_neg (by simp [hv]), hrest]
      · rw [filter_cons_of_pos (by simpa using hv), filter_cons_of_pos (by simpa using hv),
          length_cons, length_cons, hrest]

theorem keys_redirect (hra : Entries.get parent ra = some ra) :
    Entries.keys (Entries.upsert ra (fun _ => rb) parent) = Entries.keys parent := by
  have hmem : ra ∈ Entries.keys parent := (Leads.root hra).mem
  rw [Entries.keys_upsert, if_pos hmem]

end Union

theorem keys_union (h : Sound parent) (ha : a ∈ Entries.keys parent) :
    Entries.keys (union parent a b) = Entries.keys parent := by
  unfold union
  split_ifs
  · rfl
  · obtain ⟨n, -, hleads⟩ := h.find_leads ha
    exact keys_redirect hleads.is_root

/-- What joining does to the roots. -/
theorem Sound.union (h : Sound parent) (ha : a ∈ Entries.keys parent)
    (hb : b ∈ Entries.keys parent) : Sound (union parent a b) ∧
      ∀ x ∈ Entries.keys parent, find (DisjointSets.union parent a b) x =
        if find parent x = find parent a then find parent b else find parent x := by
  by_cases hsame : find parent a = find parent b
  · unfold DisjointSets.union
    rw [if_pos hsame]
    refine ⟨h, fun x _ => ?_⟩
    split_ifs with hx
    · rw [hx, hsame]
    · rfl
  obtain ⟨_, -, hleadsa⟩ := h.find_leads ha
  obtain ⟨_, -, hleadsb⟩ := h.find_leads hb
  have hra := hleadsa.is_root
  have hrb := hleadsb.is_root
  have hkeys : Entries.keys (Entries.upsert (find parent a) (fun _ => find parent b) parent) =
      Entries.keys parent := keys_redirect hra
  have hlinks := links_redirect hsame hra
  have hunion : DisjointSets.union parent a b =
      Entries.upsert (find parent a) (fun _ => find parent b) parent := if_neg hsame
  rw [hunion]
  have hfind : ∀ x ∈ Entries.keys parent, ∃ n,
      n ≤ links (Entries.upsert (find parent a) (fun _ => find parent b) parent) ∧
        Leads (Entries.upsert (find parent a) (fun _ => find parent b) parent) n x
          (if find parent x = find parent a then find parent b else find parent x) := by
    intro x hx
    obtain ⟨n, hn, hleads⟩ := h.find_leads hx
    refine ⟨_, ?_, leads_redirect hsame hra hrb hleads⟩
    rw [hlinks]
    split_ifs <;> omega
  refine ⟨⟨?_, fun x hx => ?_⟩, fun x hx => ?_⟩
  · rw [hkeys]
    exact h.nodup
  · rw [hkeys] at hx
    obtain ⟨n, hn, hleads⟩ := hfind x hx
    exact ⟨n, _, hn, hleads⟩
  · obtain ⟨n, hn, hleads⟩ := hfind x hx
    exact find_of_leads hleads (Nat.le_trans hn (links_le _))

/-! ## Elements with one root -/

variable (parent) in
/-- The elements are there and have one root. -/
def Joined (a b : κ) : Prop :=
  a ∈ Entries.keys parent ∧ b ∈ Entries.keys parent ∧ find parent a = find parent b

theorem Joined.ensure (h : Sound parent) (hab : Joined parent a b) (x : κ) :
    Joined (DisjointSets.ensure parent x) a b := by
  obtain ⟨ha, hb, hsame⟩ := hab
  refine ⟨mem_keys_ensure.mpr (Or.inl ha), mem_keys_ensure.mpr (Or.inl hb), ?_⟩
  rw [h.find_ensure ha, h.find_ensure hb, hsame]

theorem Joined.union (h : Sound parent) {c d : κ} (hc : c ∈ Entries.keys parent)
    (hd : d ∈ Entries.keys parent) (hab : Joined parent a b) :
    Joined (DisjointSets.union parent c d) a b := by
  obtain ⟨ha, hb, hsame⟩ := hab
  have hfind := (h.union hc hd).2
  rw [Joined, keys_union h hc]
  refine ⟨ha, hb, ?_⟩
  rw [hfind a ha, hfind b hb, hsame]

theorem joined_union (h : Sound parent) (ha : a ∈ Entries.keys parent)
    (hb : b ∈ Entries.keys parent) : Joined (DisjointSets.union parent a b) a b := by
  have hfind := (h.union ha hb).2
  rw [Joined, keys_union h ha]
  refine ⟨ha, hb, ?_⟩
  rw [hfind a ha, hfind b hb, if_pos rfl]
  split_ifs <;> rfl

end AwsOps.DisjointSets
