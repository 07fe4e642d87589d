import AwsOps.Migrate.Files

/-!
# Spellings of an id

An id is well formed in either letter case, but ids are compared as texts. When the migrations are
told apart by the ULIDs that their ids spell, and when they are not.
-/

namespace AwsOps.Migrate

open List

/-- The ULID that an id spells: letter case makes no difference. The order of these texts is the
order in time. -/
def ulid (id : String) : String :=
  String.ofList (id.toList.map Char.toUpper)

def acceptedIds (filenames : List String) : List String :=
  filenames.filterMap fun filename => (parseMigrationFile filename).map Prod.fst

/-- Each unapplied id is pending once and in the order of time, and two files of one ULID are
reported. -/
structure ToldApart (fileIds appliedIds : List String) : Prop where
  pending : ∀ id, id ∈ computePending fileIds appliedIds ↔
    id ∈ fileIds ∧ ulid id ∉ appliedIds.map ulid
  ordered : (computePending fileIds appliedIds).Pairwise fun a b => ulid a < ulid b
  reported : fileIds.Pairwise fun a b => ulid a = ulid b → ulid a ∈ (findDuplicateIds fileIds).map ulid

/-- An applied ULID is recorded as the file spells it, two unapplied ids differ and compare as texts
the way their ULIDs do, and of the files of one ULID two spell it alike. -/
structure SpeltAlike (fileIds appliedIds : List String) : Prop where
  recorded : ∀ id ∈ fileIds, ulid id ∈ appliedIds.map ulid → id ∈ appliedIds
  ordered : (fileIds.filter fun id => !appliedIds.contains id).Pairwise fun a b =>
    (a < b ∧ ulid a < ulid b) ∨ (b < a ∧ ulid b < ulid a)
  repeated : fileIds.Pairwise fun a b => ulid a = ulid b → ∃ id, 2 ≤ fileIds.count id ∧ ulid id = ulid a

theorem mem_note_id {state : List String × List String} {first id : String} :
    (id ∈ (noteId state first).1 ↔ id ∈ state.1 ∨ first = id) ∧
      (id ∈ (noteId state first).2 ↔ id ∈ state.2 ∨ (first = id ∧ id ∈ state.1)) := by
  unfold noteId
  by_cases hseen : state.1.contains first = true
  · have hmem : first ∈ state.1 := by simpa using hseen
    rw [if_pos hseen]
    by_cases hid : first = id
    · subst hid
      by_cases hdup : first ∈ state.2 <;> simp [hmem, hdup]
    · by_cases hdup : first ∈ state.2 <;> simp [hid, Ne.symm hid, hdup]
  · have hmem : first ∉ state.1 := by simpa using hseen
    rw [if_neg hseen]
    by_cases hid : first = id
    · subst hid
      simp [hmem]
    · simp [hid, Ne.symm hid]

/-- The duplicates of a run are those of its start, and what occurs in it again. -/
theorem mem_note_ids {id : String} {ids : List String} {state : List String × List String} :
    id ∈ (ids.foldl noteId state).2 ↔
      id ∈ state.2 ∨ 2 ≤ ids.count id ∨ (id ∈ state.1 ∧ 1 ≤ ids.count id) := by
  induction ids generalizing state with
  | nil => simp
  | cons first rest ih =>
    rw [foldl_cons, ih, mem_note_id.1, mem_note_id.2, count_cons]
    by_cases hid : first = id
    · subst hid
      by_cases hseen : first ∈ state.1
      · simp [hseen]
      · have hcount : (2 ≤ rest.count first ∨ 1 ≤ rest.count first) ↔ 2 ≤ rest.count first + 1 := by omega
        simpa [hseen] using or_congr_right hcount
    · simp [hid]

theorem mem_find_duplicate_ids {id : String} {ids : List String} :
    id ∈ findDuplicateIds ids ↔ 2 ≤ ids.count id := by
  rw [findDuplicateIds, mem_note_ids]
  simp

theorem pending_ordered_iff {fileIds appliedIds : List String} :
    ((computePending fileIds appliedIds).Pairwise fun a b => ulid a < ulid b) ↔
      (fileIds.filter fun id => !appliedIds.contains id).Pairwise fun a b =>
        (a < b ∧ ulid a < ulid b) ∨ (b < a ∧ ulid b < ulid a) := by
  have hsorted : (computePending fileIds appliedIds).Pairwise (· ≤ ·) :=
    pairwise_insertionSort (fun a b : String => a ≤ b) _
  have hperm := perm_insertionSort (fun a b : String => a ≤ b)
    (fileIds.filter fun id => !appliedIds.contains id)
  rw [← hperm.pairwise_iff Or.symm]
  show _ ↔ (computePending fileIds appliedIds).Pairwise _
  constructor
  · intro h
    refine (hsorted.and h).imp ?_
    intro a b hab
    have hne : a ≠ b := fun heq => (lt_irrefl _) (heq ▸ hab.2)
    exact .inl ⟨lt_of_le_of_ne hab.1 hne, hab.2⟩
  · intro h
    refine (hsorted.and h).imp ?_
    intro a b hab
    obtain hlt | hlt := hab.2
    · exact hlt.2
    · exact absurd hlt.1 (not_lt_of_ge hab.1)

/-- The ids of files are told apart exactly when they are spelt alike. -/
theorem told_apart_iff (filenames appliedIds : List String) :
    ToldApart (acceptedIds filenames) appliedIds ↔ SpeltAlike (acceptedIds filenames) appliedIds := by
  have hreported : ∀ a : String, ulid a ∈ (findDuplicateIds (acceptedIds filenames)).map ulid ↔
      ∃ id, 2 ≤ (acceptedIds filenames).count id ∧ ulid id = ulid a := by
    intro a
    simp only [mem_map, mem_find_duplicate_ids]
  constructor
  · intro h
    refine ⟨fun id hid happlied => ?_, pending_ordered_iff.mp h.ordered,
      h.reported.imp fun hab heq => (hreported _).mp (hab heq)⟩
    by_contra hraw
    have hpending := (h.pending id).mp (mem_compute_pending.mpr ⟨hid, hraw⟩)
    exact hpending.2 happlied
  · intro h
    refine ⟨fun id => ?_, pending_ordered_iff.mpr h.ordered,
      h.repeated.imp fun hab heq => (hreported _).mpr (hab heq)⟩
    rw [mem_compute_pending]
    constructor
    · intro hid
      exact ⟨hid.1, fun happlied => hid.2 (h.recorded id hid.1 happlied)⟩
    · intro hid
      exact ⟨hid.1, fun happlied => hid.2 (mem_map_of_mem happlied)⟩

/-- One ULID in two letter cases is pending twice and not reported. -/
theorem two_cases_not_told_apart :
    ¬∀ filenames appliedIds : List String, ToldApart (acceptedIds filenames) appliedIds := by
  intro h
  have hids : acceptedIds ["01ARZ3NDEKTSV4RRFFQ69G5FAV_a.sql", "01arz3ndektsv4rrffq69g5fav_b.sql"] =
      ["01ARZ3NDEKTSV4RRFFQ69G5FAV", "01arz3ndektsv4rrffq69g5fav"] := by decide +kernel
  have hreported :=
    (h ["01ARZ3NDEKTSV4RRFFQ69G5FAV_a.sql", "01arz3ndektsv4rrffq69g5fav_b.sql"] []).reported
  rw [hids] at hreported
  have hpair := (pairwise_cons.mp hreported).1 _ mem_cons_self (by decide +kernel)
  exact absurd hpair (by decide +kernel)

end AwsOps.Migrate
