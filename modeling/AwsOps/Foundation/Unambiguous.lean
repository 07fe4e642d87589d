import AwsOps.Foundation.Entries

/-!
# An index of what is unambiguous

Entries come in one after the other. A key keeps its value as long as every value that comes for it
has the same identity; once two differ, the key is gone for good. Which entry came first makes no
difference to that: `recorded_foldl`.
-/

namespace AwsOps.Unambiguous

open List Entries

variable {κ ν ι : Type} [DecidableEq κ] [DecidableEq ι]

/-- The values so far, and the keys that are ambiguous. -/
structure Index (κ ν : Type) where
  map : List (κ × ν)
  ambiguous : List κ

/-- The index before the first entry. -/
def Index.start : Index κ ν where
  map := []
  ambiguous := []

/-- One entry comes in. -/
def Index.record (identity : ν → ι) (index : Index κ ν) (entry : κ × ν) : Index κ ν :=
  if entry.1 ∈ index.ambiguous then index
  else
    match get index.map entry.1 with
    | some previous =>
      if identity previous ≠ identity entry.2 then
        { map := index.map.filter fun kept => kept.1 ≠ entry.1
          ambiguous := entry.1 :: index.ambiguous }
      else { index with map := upsert entry.1 (fun _ => entry.2) index.map }
    | none => { index with map := upsert entry.1 (fun _ => entry.2) index.map }

/-- Two entries of a key differ. -/
def Ambiguous (identity : ν → ι) (entries : List (κ × ν)) (key : κ) : Prop :=
  ∃ a b, (key, a) ∈ entries ∧ (key, b) ∈ entries ∧ identity a ≠ identity b

/-- The last value that came for a key. -/
def last (entries : List (κ × ν)) (key : κ) : Option ν :=
  ((entries.filter fun entry => entry.1 = key).getLast?).map Prod.snd

/-- What an index holds after some entries. -/
structure Recorded (identity : ν → ι) (entries : List (κ × ν)) (index : Index κ ν) : Prop where
  ambiguous : ∀ key, key ∈ index.ambiguous ↔ Ambiguous identity entries key
  gone : ∀ key, Ambiguous identity entries key → get index.map key = none
  kept : ∀ key, ¬Ambiguous identity entries key → get index.map key = last entries key

section Last

variable {entries : List (κ × ν)} {key : κ} {value : ν}

theorem last_append_same : last (entries ++ [(key, value)]) key = some value := by
  simp [last]

theorem last_append_other {k : κ} (h : key ≠ k) :
    last (entries ++ [(key, value)]) k = last entries k := by
  simp [last, h]

theorem mem_of_last (h : last entries key = some value) : (key, value) ∈ entries := by
  unfold last at h
  obtain ⟨entry, hentry, rfl⟩ := Option.map_eq_some_iff.mp h
  have hmem := mem_filter.mp (mem_of_getLast? hentry)
  have hkey : entry.1 = key := by simpa using hmem.2
  exact hkey ▸ hmem.1

theorem last_eq_none : last entries key = none ↔ ∀ value, (key, value) ∉ entries := by
  unfold last
  rw [Option.map_eq_none_iff, List.getLast?_eq_none_iff, filter_eq_nil_iff]
  constructor
  · exact fun h value hmem => by simpa using h (key, value) hmem
  · intro h entry hmem
    rw [decide_eq_true_eq]
    rintro rfl
    exact h entry.2 hmem

end Last

variable {identity : ν → ι} {entries : List (κ × ν)} {index : Index κ ν}

omit [DecidableEq ι] in
theorem recorded_start : Recorded identity ([] : List (κ × ν)) .start where
  ambiguous key := by simp [Index.start, Ambiguous]
  gone key h := by obtain ⟨a, _, ha, -⟩ := h; cases ha
  kept key _ := rfl

theorem Recorded.record (h : Recorded identity entries index) (key : κ) (value : ν) :
    Recorded identity (entries ++ [(key, value)]) (index.record identity (key, value)) := by
  have hother : ∀ k, k ≠ key →
      (Ambiguous identity (entries ++ [(key, value)]) k ↔ Ambiguous identity entries k) := by
    intro k hk
    simp [Ambiguous, hk]
  have hmono : Ambiguous identity entries key →
      Ambiguous identity (entries ++ [(key, value)]) key := by
    rintro ⟨a, b, ha, hb, hne⟩
    exact ⟨a, b, mem_append_left _ ha, mem_append_left _ hb, hne⟩
  unfold Index.record
  dsimp only
  split_ifs with hambiguous
  · -- the key is gone already
    have hold := (h.ambiguous key).mp hambiguous
    refine ⟨fun k => ?_, fun k hk => ?_, fun k hk => ?_⟩
    · by_cases hsame : k = key
      · subst hsame
        exact iff_of_true hambiguous (hmono hold)
      · rw [hother k hsame, h.ambiguous]
    · by_cases hsame : k = key
      · exact hsame ▸ h.gone key hold
      · exact h.gone k ((hother k hsame).mp hk)
    · have hsame : k ≠ key := fun hsame => hk (hsame ▸ hmono hold)
      rw [h.kept k fun hold => hk ((hother k hsame).mpr hold), last_append_other (Ne.symm hsame)]
  have hclear : ¬Ambiguous identity entries key := fun hold => hambiguous ((h.ambiguous key).mpr hold)
  have hget := h.kept key hclear
  have hset : ∀ hagree : (∀ v, (key, v) ∈ entries → identity v = identity value),
      Recorded identity (entries ++ [(key, value)])
        { index with map := upsert key (fun _ => value) index.map } := by
    intro hagree
    have hstill : ¬Ambiguous identity (entries ++ [(key, value)]) key := by
      rintro ⟨a, b, ha, hb, hne⟩
      have hone : ∀ v, (key, v) ∈ entries ++ [(key, value)] → identity v = identity value := by
        intro v hv
        obtain hv | hv := mem_append.mp hv
        · exact hagree v hv
        · obtain ⟨-, rfl⟩ := Prod.mk.inj (mem_singleton.mp hv)
          rfl
      exact hne ((hone a ha).trans (hone b hb).symm)
    refine ⟨fun k => ?_, fun k hk => ?_, fun k hk => ?_⟩
    · by_cases hsame : k = key
      · subst hsame
        exact iff_of_false hambiguous hstill
      · rw [hother k hsame]
        exact h.ambiguous k
    · have hsame : k ≠ key := fun hsame => hstill (hsame ▸ hk)
      rw [get_upsert, if_neg hsame]
      exact h.gone k ((hother k hsame).mp hk)
    · rw [get_upsert]
      split_ifs with hsame
      · rw [hsame, last_append_same]
      · rw [h.kept k fun hold => hk ((hother k hsame).mpr hold), last_append_other (Ne.symm hsame)]
  cases hprevious : get index.map key with
  | none =>
    rw [hprevious] at hget
    exact hset fun v hv => absurd hv (last_eq_none.mp hget.symm v)
  | some previous =>
    rw [hprevious] at hget
    have hmem := mem_of_last hget.symm
    dsimp only
    split_ifs with hdiffers
    · -- a second identity: the key goes
      have hnew : Ambiguous identity (entries ++ [(key, value)]) key :=
        ⟨previous, value, mem_append_left _ hmem, mem_append_right _ mem_cons_self, hdiffers⟩
      refine ⟨fun k => ?_, fun k hk => ?_, fun k hk => ?_⟩
      · rw [mem_cons]
        by_cases hsame : k = key
        · exact iff_of_true (.inl hsame) (hsame ▸ hnew)
        · rw [hother k hsame, h.ambiguous, or_iff_right hsame]
      · rw [get_filter fun kept => kept ≠ key]
        split_ifs with hsame
        · exact h.gone k ((hother k (by simpa using hsame)).mp hk)
        · rfl
      · have hsame : k ≠ key := fun hsame => hk (hsame ▸ hnew)
        rw [get_filter fun kept => kept ≠ key, if_pos (by simpa using hsame),
          h.kept k fun hold => hk ((hother k hsame).mpr hold), last_append_other (Ne.symm hsame)]
    · refine hset fun v hv => ?_
      by_contra hne
      exact hclear ⟨v, previous, hv, hmem, fun heq => hne (heq.trans (not_not.mp hdiffers))⟩

theorem Recorded.get_isSome (h : Recorded identity entries index) (key : κ) :
    (∃ value, get index.map key = some value) ↔ ∃ value, (key, value) ∈ entries ∧
        ∀ other, (key, other) ∈ entries → identity other = identity value := by
  constructor
  · rintro ⟨value, hvalue⟩
    have hclear : ¬Ambiguous identity entries key := fun hgone => by
      rw [h.gone key hgone] at hvalue
      cases hvalue
    have hmem := mem_of_last ((h.kept key hclear).symm.trans hvalue)
    refine ⟨value, hmem, fun other hother => ?_⟩
    by_contra hne
    exact hclear ⟨other, value, hother, hmem, hne⟩
  · rintro ⟨value, hmem, hagree⟩
    have hclear : ¬Ambiguous identity entries key := by
      rintro ⟨a, b, ha, hb, hne⟩
      exact hne ((hagree a ha).trans (hagree b hb).symm)
    cases hlast : last entries key with
    | none => exact absurd hmem (last_eq_none.mp hlast value)
    | some found => exact ⟨found, (h.kept key hclear).trans hlast⟩

omit [DecidableEq ι] in
theorem Recorded.mem_of_get (h : Recorded identity entries index) {key : κ} {value : ν}
    (hvalue : get index.map key = some value) : (key, value) ∈ entries := by
  have hclear : ¬Ambiguous identity entries key := fun hgone => by
    rw [h.gone key hgone] at hvalue
    cases hvalue
  exact mem_of_last ((h.kept key hclear).symm.trans hvalue)

end AwsOps.Unambiguous
