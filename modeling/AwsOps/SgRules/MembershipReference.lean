import AwsOps.SgRules.Scan

/-!
# The membership reference of a day

A day is matched by the membership snapshot that each VPC had at its end, or by the first snapshot
of the VPC when the day ended before the source took any. Snapshots taken later leave the choice
alone for a VPC that has one already. A VPC that appears later gets its first snapshot as the
reference of all days before the first snapshot of the source, so such a day changes:
`load_membership_stable_iff` says exactly when.
-/

namespace AwsOps.SgRules

open List AwsOps.Timeline AwsOps.Calendar Option EniSnapshotRow

/-- The rows were observed after the end of the day and after every stored row. -/
def ObservedLater (day : Int) (stored more : List EniSnapshotRow) : Prop :=
  ∀ row ∈ more, dayEnd day < row.observedAt ∧ ∀ old ∈ stored, old.observedAt < row.observedAt

def EniSnapshotRow.vpc (row : EniSnapshotRow) : String :=
  row.membership.vpcId

/-- The reference of a VPC for a day: its memberships and how the snapshot was chosen. -/
def vpcReference (day stalenessDays : Int) (rows : List EniSnapshotRow) (vpcId : String) :
    Option (String × List Membership × SnapshotOutcome) :=
  let ofVpc := rows.filter fun row => row.vpc == vpcId
  (resolveMembershipSnapshot (ofVpc.map (·.observedAt)) day stalenessDays
    (rows.map (·.observedAt)).min?).map fun (observedAt, outcome) =>
      (vpcId, (ofVpc.filter (·.observedAt = observedAt)).map (·.membership), outcome)

/-- The references of all VPCs, the VPC of the first row first. -/
def vpcReferences (day stalenessDays : Int) (rows : List EniSnapshotRow) :
    List (String × List Membership × SnapshotOutcome) :=
  (rows.map vpc).eraseDups.filterMap (vpcReference day stalenessDays rows)

theorem load_membership_eq (day stalenessDays : Int) (s : Store) :
    loadMembershipByVpc day stalenessDays s =
      ((vpcReferences day stalenessDays s.eniSnapshots).map fun reference =>
          (reference.1, reference.2.1),
        ((vpcReferences day stalenessDays s.eniSnapshots).filter fun reference =>
          reference.2.2 == .stale).map (·.1)) := by
  simp only [loadMembershipByVpc, groupRows, vpcReferences, filterMap_map]
  rfl

section Later

variable {day stalenessDays : Int} {stored more : List EniSnapshotRow}

theorem min_append_later {times later : List Int} (hne : times ≠ [])
    (h : ∀ a ∈ times, ∀ b ∈ later, a < b) : (times ++ later).min? = times.min? := by
  obtain ⟨first, hfirst⟩ : ∃ first, times.min? = some first :=
    ne_none_iff_exists'.mp fun hnone => hne (List.min?_eq_none_iff.mp hnone)
  obtain ⟨hmem, hmin⟩ := List.min?_eq_some_iff.mp hfirst
  rw [hfirst]
  refine List.min?_eq_some_iff.mpr ⟨mem_append_left _ hmem, fun b hb => ?_⟩
  rcases mem_append.mp hb with hb | hb
  · exact hmin b hb
  · have := h first hmem b hb
    omega

theorem resolved_time_mem {times : List Int} {earliest : Option Int} {time : Int}
    {outcome : SnapshotOutcome}
    (h : resolveMembershipSnapshot times day stalenessDays earliest = some (time, outcome)) :
    time ∈ times := by
  simp only [resolveMembershipSnapshot, bind, bind_eq_some_iff] at h
  obtain ⟨first, hfirst, h⟩ := h
  split at h
  · cases h
    exact (List.min?_eq_some_iff.mp hfirst).1
  · simp only [bind_eq_some_iff] at h
    obtain ⟨nearest, hnearest, h⟩ := h
    have hmem := (mem_filter.mp (List.max?_eq_some_iff.mp hnearest).1).1
    split at h
    · cases h
      exact hmem
    · cases h
      exact hmem

theorem resolve_later {times later : List Int} (hne : times ≠ [])
    (h : ∀ a ∈ times, ∀ b ∈ later, a < b) (hday : ∀ b ∈ later, dayEnd day < b)
    (earliest : Option Int) :
    resolveMembershipSnapshot (times ++ later) day stalenessDays earliest =
      resolveMembershipSnapshot times day stalenessDays earliest := by
  have hfilter : later.filter (fun time => decide (time ≤ dayEnd day)) = [] := by
    refine filter_eq_nil_iff.mpr fun b hb => ?_
    have := hday b hb
    simpa using this
  simp [resolveMembershipSnapshot, min_append_later hne h, hfilter]

theorem earliest_later (h : ObservedLater day stored more) (hne : stored ≠ []) :
    ((stored ++ more).map (·.observedAt)).min? = (stored.map (·.observedAt)).min? := by
  rw [map_append]
  refine min_append_later (by simpa using hne) fun a ha b hb => ?_
  obtain ⟨old, hold, rfl⟩ := mem_map.mp ha
  obtain ⟨row, hrow, rfl⟩ := mem_map.mp hb
  exact (h row hrow).2 old hold

theorem vpc_reference_later (h : ObservedLater day stored more) {vpcId : String}
    (hvpc : vpcId ∈ stored.map vpc) :
    vpcReference day stalenessDays (stored ++ more) vpcId =
      vpcReference day stalenessDays stored vpcId := by
  obtain ⟨row, hrow, hrowVpc⟩ := mem_map.mp hvpc
  have hmine : row ∈ stored.filter fun row => row.vpc == vpcId :=
    mem_filter.mpr ⟨hrow, by simpa using hrowVpc⟩
  have hlater : ∀ a ∈ (stored.filter fun row => row.vpc == vpcId).map (·.observedAt),
      ∀ b ∈ (more.filter fun row => row.vpc == vpcId).map (·.observedAt), a < b := by
    intro a ha b hb
    obtain ⟨old, hold, rfl⟩ := mem_map.mp ha
    obtain ⟨row, hrow, rfl⟩ := mem_map.mp hb
    exact (h row (mem_filter.mp hrow).1).2 old (mem_filter.mp hold).1
  have hday : ∀ b ∈ (more.filter fun row => row.vpc == vpcId).map (·.observedAt),
      dayEnd day < b := by
    intro b hb
    obtain ⟨row, hrow, rfl⟩ := mem_map.mp hb
    exact (h row (mem_filter.mp hrow).1).1
  have htimes : (stored.filter fun row => row.vpc == vpcId).map (·.observedAt) ≠ [] := by
    simpa using ne_nil_of_mem hmine
  simp only [vpcReference, earliest_later h (ne_nil_of_mem hrow)]
  simp only [filter_append, map_append, resolve_later htimes hlater hday]
  cases hresolve : resolveMembershipSnapshot
      ((stored.filter fun row => row.vpc == vpcId).map (·.observedAt)) day stalenessDays
      (stored.map (·.observedAt)).min? with
  | none => rfl
  | some choice =>
    -- no later row was observed at the chosen time
    have hmem := resolved_time_mem hresolve
    have hnone : (more.filter fun row => row.vpc == vpcId).filter
        (·.observedAt = choice.1) = [] := by
      refine filter_eq_nil_iff.mpr fun row hrow => ?_
      have := hlater _ hmem _ (mem_map.mpr ⟨row, hrow, rfl⟩)
      simp only [decide_eq_true_eq]
      omega
    simp only [map_some, hnone, map_nil, append_nil]

theorem vpc_reference_new (stalenessDays : Int) (h : ObservedLater day stored more) {vpcId : String}
    (hold : vpcId ∉ stored.map vpc) (hnew : vpcId ∈ more.map vpc) :
    (∃ reference, vpcReference day stalenessDays (stored ++ more) vpcId = some reference) ↔
      ∀ old ∈ stored, dayEnd day ≤ old.observedAt := by
  have hmine : (stored.filter fun row => row.vpc == vpcId) = [] := by
    refine filter_eq_nil_iff.mpr fun row hrow hvpc => hold ?_
    exact mem_map.mpr ⟨row, hrow, by simpa using hvpc⟩
  obtain ⟨row, hrow, hrowVpc⟩ := mem_map.mp hnew
  have htimes : ∃ first, ((more.filter fun row => row.vpc == vpcId).map
      (·.observedAt)).min? = some first := by
    refine ne_none_iff_exists'.mp fun hnone => ?_
    have hempty := map_eq_nil_iff.mp (List.min?_eq_none_iff.mp hnone)
    have hmem : row ∈ more.filter fun row => row.vpc == vpcId :=
      mem_filter.mpr ⟨hrow, by simpa using hrowVpc⟩
    rw [hempty] at hmem
    cases hmem
  obtain ⟨first, hfirst⟩ := htimes
  have hlate : ((more.filter fun row => row.vpc == vpcId).map (·.observedAt)).filter
      (fun time => decide (time ≤ dayEnd day)) = [] := by
    refine filter_eq_nil_iff.mpr fun b hb => ?_
    obtain ⟨row, hrow, rfl⟩ := mem_map.mp hb
    have := (h row (mem_filter.mp hrow).1).1
    simpa using this
  obtain ⟨earliest, hearliest⟩ : ∃ earliest,
      ((stored ++ more).map (·.observedAt)).min? = some earliest := by
    refine ne_none_iff_exists'.mp fun hnone => ?_
    have hempty := map_eq_nil_iff.mp (List.min?_eq_none_iff.mp hnone)
    have hmem : row ∈ stored ++ more := mem_append_right _ hrow
    rw [hempty] at hmem
    cases hmem
  have hbackfill : dayEnd day ≤ earliest ↔ ∀ old ∈ stored, dayEnd day ≤ old.observedAt := by
    obtain ⟨hmem, hmin⟩ := List.min?_eq_some_iff.mp hearliest
    constructor
    · intro hle old hold
      have := hmin _ (mem_map.mpr ⟨old, mem_append_left _ hold, rfl⟩)
      omega
    · intro hall
      obtain ⟨row, hrow, rfl⟩ := mem_map.mp hmem
      rcases mem_append.mp hrow with hrow | hrow
      · exact hall row hrow
      · have := (h row hrow).1
        omega
  rw [← hbackfill]
  simp only [vpcReference, hearliest]
  simp only [filter_append, hmine, nil_append, resolveMembershipSnapshot, hfirst, getD_some, hlate, List.max?_nil, bind, bind_some,
    bind_none]
  by_cases hle : dayEnd day ≤ earliest
  · simp [hle]
  · simp [hle]

/-- The VPCs that appear with the later rows. -/
def newVpcs (stored more : List EniSnapshotRow) : List String :=
  ((more.map vpc).removeAll (stored.map vpc)).eraseDups

theorem mem_new_vpcs {vpcId : String} : vpcId ∈ newVpcs stored more ↔
      vpcId ∈ more.map vpc ∧ vpcId ∉ stored.map vpc := by
  simp [newVpcs, List.removeAll, mem_eraseDups]

theorem vpc_references_later (h : ObservedLater day stored more) :
    vpcReferences day stalenessDays (stored ++ more) = vpcReferences day stalenessDays stored ++
        (newVpcs stored more).filterMap (vpcReference day stalenessDays (stored ++ more)) := by
  simp only [vpcReferences, map_append, eraseDups_append, filterMap_append, newVpcs]
  congr 1
  refine filterMap_congr fun vpcId hvpc => ?_
  exact vpc_reference_later h (mem_eraseDups.mp hvpc)

/-- Later rows leave the membership of a day alone exactly when a row was stored before the end of
the day, or they bring no VPC that has no row yet. -/
theorem load_membership_stable_iff (day stalenessDays : Int) (s : Store)
    (more : List EniSnapshotRow) (h : ObservedLater day s.eniSnapshots more) :
    loadMembershipByVpc day stalenessDays { s with eniSnapshots := s.eniSnapshots ++ more } =
        loadMembershipByVpc day stalenessDays s ↔
      (∃ old ∈ s.eniSnapshots, old.observedAt < dayEnd day) ∨
        ∀ row ∈ more, ∃ old ∈ s.eniSnapshots, old.vpc = row.vpc := by
  simp only [load_membership_eq, vpc_references_later h]
  constructor
  · intro heq
    by_cases hearly : ∃ old ∈ s.eniSnapshots, old.observedAt < dayEnd day
    · exact .inl hearly
    · refine .inr fun row hrow => ?_
      by_contra hmissing
      have hlate : ∀ old ∈ s.eniSnapshots, dayEnd day ≤ old.observedAt := by
        intro old hold
        by_contra hlt
        exact hearly ⟨old, hold, by omega⟩
      have hold : row.vpc ∉ s.eniSnapshots.map vpc := by
        intro hmem
        obtain ⟨old, hold, hvpc⟩ := mem_map.mp hmem
        exact hmissing ⟨old, hold, hvpc⟩
      have hnew : row.vpc ∈ more.map vpc := mem_map.mpr ⟨row, hrow, rfl⟩
      obtain ⟨reference, hreference⟩ :=
        (vpc_reference_new stalenessDays h hold hnew).mpr hlate
      have hmem : reference ∈ (newVpcs s.eniSnapshots more).filterMap
          (vpcReference day stalenessDays (s.eniSnapshots ++ more)) :=
        mem_filterMap.mpr ⟨row.vpc, mem_new_vpcs.mpr ⟨hnew, hold⟩, hreference⟩
      have hlength := congrArg (fun m => m.1.length) heq
      simp only [length_map, length_append] at hlength
      have := length_pos_of_mem hmem
      omega
  · intro hcond
    have hnone : (newVpcs s.eniSnapshots more).filterMap
        (vpcReference day stalenessDays (s.eniSnapshots ++ more)) = [] := by
      refine filterMap_eq_nil_iff.mpr fun vpcId hvpc => ?_
      obtain ⟨hnew, hold⟩ := mem_new_vpcs.mp hvpc
      rcases hcond with ⟨old, hmem, hlt⟩ | hall
      · by_contra hsome
        have hreference := ne_none_iff_exists'.mp hsome
        have := (vpc_reference_new _ h hold hnew).mp hreference old hmem
        omega
      · obtain ⟨row, hrow, rfl⟩ := mem_map.mp hnew
        obtain ⟨old, hmem, hvpc⟩ := hall row hrow
        exact absurd (mem_map.mpr ⟨old, hmem, hvpc⟩) hold
    simp [hnone]

end Later

def thirdDaySnapshot : Store :=
  { Store.empty with
    eniSnapshots := [⟨3 * dayMicros, ⟨"vpc-1", "eni-1", ["sg-1"], ["10.0.0.1"]⟩⟩] }

/-- A snapshot of the same VPC on the fourth day leaves the first day alone. -/
theorem load_membership_stable_same_vpc :
    loadMembershipByVpc 1 3 { thirdDaySnapshot with eniSnapshots := thirdDaySnapshot.eniSnapshots ++
        [⟨4 * dayMicros, ⟨"vpc-1", "eni-1", ["sg-2"], ["10.0.0.1"]⟩⟩] } =
      loadMembershipByVpc 1 3 thirdDaySnapshot :=
  (load_membership_stable_iff 1 3 thirdDaySnapshot
    [⟨4 * dayMicros, ⟨"vpc-1", "eni-1", ["sg-2"], ["10.0.0.1"]⟩⟩] (by
      intro row hrow
      rw [mem_singleton.mp hrow]
      decide)).mpr (.inr (by
        intro row hrow
        rw [mem_singleton.mp hrow]
        exact ⟨_, mem_singleton.mpr rfl, rfl⟩))

/-- A snapshot of another VPC on the fourth day changes the membership of the first day. -/
theorem new_vpc_backfilled : ObservedLater 1 thirdDaySnapshot.eniSnapshots
        [⟨4 * dayMicros, ⟨"vpc-2", "eni-2", ["sg-2"], ["10.1.0.1"]⟩⟩] ∧
      loadMembershipByVpc 1 3 thirdDaySnapshot =
        ([("vpc-1", [⟨"vpc-1", "eni-1", ["sg-1"], ["10.0.0.1"]⟩])], []) ∧
      loadMembershipByVpc 1 3 { thirdDaySnapshot with
          eniSnapshots := thirdDaySnapshot.eniSnapshots ++
            [⟨4 * dayMicros, ⟨"vpc-2", "eni-2", ["sg-2"], ["10.1.0.1"]⟩⟩] } =
        ([("vpc-1", [⟨"vpc-1", "eni-1", ["sg-1"], ["10.0.0.1"]⟩]),
          ("vpc-2", [⟨"vpc-2", "eni-2", ["sg-2"], ["10.1.0.1"]⟩])], []) := by
  refine ⟨fun row hrow => ?_, by decide, by decide⟩
  rw [mem_singleton.mp hrow]
  decide

end AwsOps.SgRules
