import AwsOps.Foundation.Kleene

/-!
# Verdict reduction

The deterministic reduction rules of a network-path check: the statuses of the layers of one
candidate reduce to the status of the candidate, and the statuses of the candidates, resolved
and hypothetical, reduce to the overall status. Each result below says what one verdict commits
the reduction's inputs to, and that the overall verdict does not depend on the order of the
candidates.
-/

namespace AwsOps.NetworkPath

open List Bool

inductive LayerStatus where
  | allowed
  | blocked
  | unknown
  | conditional
  | notRun
  deriving DecidableEq

/-- The status of one candidate, and of the whole check. -/
inductive CandidateStatus where
  | allowed
  | blocked
  | conditional
  | failed
  deriving DecidableEq

abbrev OverallStatus := CandidateStatus

/-- Whether a candidate is the known path or one of several possible paths. -/
inductive CandidateKind where
  | resolved
  | hypothesis
  deriving DecidableEq

/-- The status of one candidate from the statuses of its required layers. The last branch is the
catch-all that the closed set of statuses never reaches. -/
def reduceCandidateStatus (statuses : List LayerStatus) : CandidateStatus :=
  if statuses.all (· == .notRun) then .failed
  else if statuses.any (· == .blocked) then .blocked
  else if statuses.any (fun s => s == .unknown || s == .notRun || s == .conditional) then
    .conditional
  else if !statuses.isEmpty && statuses.all (· == .allowed) then .allowed
  else .conditional

/-- The partial verdict over the resolved candidates. -/
def reduceResolved (statuses : List CandidateStatus) : Option CandidateStatus :=
  if statuses.isEmpty then none
  else if statuses.all (· == .allowed) then some .allowed
  else if statuses.all (· == .blocked) then some .blocked
  else if !statuses.any (· == .allowed) && !statuses.any (· == .conditional) then some .failed
  else some .conditional

/-- The partial verdict over the hypothesis candidates. -/
def reduceHypothesis (statuses : List CandidateStatus) : Option CandidateStatus :=
  if statuses.isEmpty then none
  else if statuses.all (· == .allowed) then some .allowed
  else if statuses.all (· == .blocked) then some .blocked
  else if statuses.all (· == .failed) then some .failed
  else some .conditional

/-- The verdict of a mixed set from its two partial verdicts. -/
def reduceMixed (r h : Option CandidateStatus) : OverallStatus :=
  if r == some .allowed && h == some .allowed then .allowed
  else if r == some .blocked && h == some .blocked then .blocked
  else if (r == some .failed || h == some .failed) && !(r == some .allowed || h == some .allowed)
      && !(r == some .conditional || h == some .conditional) then .failed
  else .conditional

def statusesOf (kind : CandidateKind) (candidates : List (CandidateKind × CandidateStatus)) :
    List CandidateStatus :=
  (candidates.filter (·.1 == kind)).map (·.2)

/-- The message of the `ValueError` for an empty set of candidates. -/
def noCandidateMessage : String :=
  "reduce_overall_status requires at least one candidate; a run with zero discovered " ++
    "candidates is the global-execution-failure case and must bypass this function"

def reduceOverallStatus (candidates : List (CandidateKind × CandidateStatus)) :
    Except String OverallStatus :=
  if candidates.isEmpty then .error noCandidateMessage
  else
    let r := reduceResolved (statusesOf .resolved candidates)
    let h := reduceHypothesis (statusesOf .hypothesis candidates)
    match r, h with
    | some r, none => .ok r
    | none, some h => .ok h
    | r, h => .ok (reduceMixed r h)

theorem reduce_candidate_allowed_iff {statuses : List LayerStatus} :
    reduceCandidateStatus statuses = .allowed ↔ statuses ≠ [] ∧ ∀ s ∈ statuses, s = .allowed := by
  constructor
  · intro h
    simp only [reduceCandidateStatus] at h
    split at h <;> try cases h
    split at h <;> try cases h
    split at h <;> try cases h
    split at h
    · rename_i hall
      simpa using hall
    · cases h
  · rintro ⟨hne, hall⟩
    obtain ⟨s, hs⟩ := exists_mem_of_ne_nil statuses hne
    have hrun : statuses.all (· == .notRun) = false := by
      refine all_eq_false.mpr ⟨s, hs, ?_⟩
      rw [hall s hs]
      decide
    have hblocked : statuses.any (· == .blocked) = false :=
      any_eq_false.mpr fun x hx => by rw [hall x hx]; decide
    have hopen : statuses.any (fun s => s == .unknown || s == .notRun || s == .conditional)
        = false :=
      any_eq_false.mpr fun x hx => by rw [hall x hx]; decide
    have hallowed : (!statuses.isEmpty && statuses.all (· == .allowed)) = true := by
      simpa using ⟨hne, hall⟩
    simp [reduceCandidateStatus, hrun, hblocked, hopen, hallowed]

theorem reduce_candidate_blocked_iff {statuses : List LayerStatus} :
    reduceCandidateStatus statuses = .blocked ↔ .blocked ∈ statuses := by
  constructor
  · intro h
    simp only [reduceCandidateStatus] at h
    split at h <;> try cases h
    split at h
    · rename_i hany
      simpa using hany
    · split at h <;> try cases h
      split at h <;> cases h
  · intro h
    have hrun : statuses.all (· == .notRun) = false :=
      all_eq_false.mpr ⟨_, h, by decide⟩
    have hany : statuses.any (· == .blocked) = true :=
      any_eq_true.mpr ⟨_, h, by decide⟩
    simp [reduceCandidateStatus, hrun, hany]

/-- A unanimous partial verdict: it needs a candidate, and every candidate agrees. -/
def Unanimous (status : CandidateStatus) (statuses : List CandidateStatus) : Prop :=
  statuses ≠ [] ∧ ∀ s ∈ statuses, s = status

variable {statuses : List CandidateStatus} {status : CandidateStatus}
  {candidates : List (CandidateKind × CandidateStatus)}

/-- What the two partial verdicts have in common: there is none exactly without candidates,
`allowed` and `blocked` are unanimous, and allowed candidates are not blocked. -/
structure IsPartial (statuses : List CandidateStatus) (verdict : Option CandidateStatus) :
    Prop where
  none_iff : verdict = none ↔ statuses = []
  unanimous : ∀ status, verdict = some status → status = .allowed ∨ status = .blocked →
    Unanimous status statuses
  allowed : (∀ s ∈ statuses, s = .allowed) → verdict = none ∨ verdict = some .allowed

theorem partial_of_cases {rest : Option CandidateStatus}
    (hrest : rest = some .failed ∨ rest = some .conditional) :
    IsPartial statuses
      (if statuses.isEmpty then none
      else if statuses.all (· == .allowed) then some .allowed
      else if statuses.all (· == .blocked) then some .blocked
      else rest) := by
  by_cases hempty : statuses.isEmpty = true
  · rw [if_pos hempty]
    exact ⟨by simpa using hempty, nofun, fun _ => .inl rfl⟩
  rw [if_neg hempty]
  have hne : statuses ≠ [] := by simpa using hempty
  by_cases hallowed : statuses.all (· == .allowed) = true
  · rw [if_pos hallowed]
    refine ⟨by simpa using hne, ?_, fun _ => .inr rfl⟩
    rintro _ ⟨rfl⟩ _
    exact ⟨hne, by simpa using hallowed⟩
  rw [if_neg hallowed]
  have hmixed : (∀ s ∈ statuses, s = .allowed) → False := by simpa using hallowed
  by_cases hblocked : statuses.all (· == .blocked) = true
  · rw [if_pos hblocked]
    refine ⟨by simpa using hne, ?_, fun h => (hmixed h).elim⟩
    rintro _ ⟨rfl⟩ _
    exact ⟨hne, by simpa using hblocked⟩
  rw [if_neg hblocked]
  refine ⟨?_, ?_, fun h => (hmixed h).elim⟩
  · rcases hrest with rfl | rfl <;> simpa using hne
  · rcases hrest with rfl | rfl <;> rintro _ ⟨rfl⟩ hs <;> simp at hs

theorem resolved_verdict : IsPartial statuses (reduceResolved statuses) :=
  partial_of_cases (by split <;> simp)

theorem hypothesis_verdict : IsPartial statuses (reduceHypothesis statuses) :=
  partial_of_cases (by split <;> simp)

theorem IsPartial.all {verdict : Option CandidateStatus} (h : IsPartial statuses verdict)
    (hverdict : ∀ v ∈ verdict, v = status) (hs : status = .allowed ∨ status = .blocked) :
    ∀ s ∈ statuses, s = status := by
  cases hv : verdict with
  | none => simp [h.none_iff.mp hv]
  | some v => exact (h.unanimous status (hverdict v hv ▸ hv) hs).2

theorem reduce_mixed_unanimous {r h : Option CandidateStatus} (hmixed : reduceMixed r h = status)
    (hs : status = .allowed ∨ status = .blocked) :
    r = some status ∧ h = some status := by
  simp only [reduceMixed] at hmixed
  split at hmixed
  · rename_i hboth
    subst hmixed
    simpa using hboth
  · split at hmixed
    · rename_i hboth
      subst hmixed
      simpa using hboth
    · split at hmixed <;> subst hmixed <;> simp at hs

theorem mem_statuses_of {kind : CandidateKind} (h : (kind, status) ∈ candidates) :
    status ∈ statusesOf kind candidates :=
  mem_map.mpr ⟨(kind, status), mem_filter.mpr ⟨h, by simp⟩, rfl⟩

theorem reduce_overall_unanimous {status : OverallStatus}
    (h : reduceOverallStatus candidates = .ok status) (hs : status = .allowed ∨ status = .blocked) :
    candidates ≠ [] ∧ ∀ c ∈ candidates, c.2 = status := by
  simp only [reduceOverallStatus] at h
  split at h
  · cases h
  rename_i hne
  have hagree : (∀ r ∈ reduceResolved (statusesOf .resolved candidates), r = status) ∧
      ∀ r ∈ reduceHypothesis (statusesOf .hypothesis candidates), r = status := by
    cases hr : reduceResolved (statusesOf .resolved candidates) <;>
      cases hh : reduceHypothesis (statusesOf .hypothesis candidates) <;> rw [hr, hh] at h
    · simp
    · simpa using h
    · simpa using h
    · simpa using reduce_mixed_unanimous (Except.ok.inj h) hs
  refine ⟨by simpa using hne, ?_⟩
  rintro ⟨kind, s⟩ hmem
  cases kind with
  | resolved => exact resolved_verdict.all hagree.1 hs s (mem_statuses_of hmem)
  | hypothesis => exact hypothesis_verdict.all hagree.2 hs s (mem_statuses_of hmem)

theorem mem_of_statuses_of {kind : CandidateKind} (h : status ∈ statusesOf kind candidates) :
    (kind, status) ∈ candidates := by
  obtain ⟨c, hc, hstatus⟩ := mem_map.mp h
  obtain ⟨hmem, hkind⟩ := mem_filter.mp hc
  have heq : c = (kind, status) := Prod.ext (by simpa using hkind) hstatus
  rwa [heq] at hmem

theorem reduce_overall_allowed_iff : reduceOverallStatus candidates = .ok .allowed ↔
      candidates ≠ [] ∧ ∀ c ∈ candidates, c.2 = .allowed := by
  constructor
  · intro h
    exact reduce_overall_unanimous h (.inl rfl)
  · intro ⟨hne, hall⟩
    have hof : ∀ kind, ∀ s ∈ statusesOf kind candidates, s = .allowed := by
      intro kind s hs
      exact hall _ (mem_of_statuses_of hs)
    have hempty : candidates.isEmpty = false := by
      simpa using hne
    simp only [reduceOverallStatus, hempty, false_eq_true, if_false]
    rcases resolved_verdict.allowed (hof .resolved) with hr | hr <;>
      rcases hypothesis_verdict.allowed (hof .hypothesis) with hh | hh <;> rw [hr, hh]
    · -- neither kind has a candidate, although there is one
      obtain ⟨⟨kind, status⟩, hc⟩ := exists_mem_of_ne_nil candidates hne
      have hmem := mem_statuses_of hc
      cases kind with
      | resolved => simp [resolved_verdict.none_iff.mp hr] at hmem
      | hypothesis => simp [hypothesis_verdict.none_iff.mp hh] at hmem
    · rfl

theorem reduce_resolved_perm {l l' : List CandidateStatus} (h : l.Perm l') :
    reduceResolved l = reduceResolved l' := by
  simp only [reduceResolved, h.isEmpty_eq, h.all_eq, h.any_eq]

theorem reduce_hypothesis_perm {l l' : List CandidateStatus} (h : l.Perm l') :
    reduceHypothesis l = reduceHypothesis l' := by
  simp only [reduceHypothesis, h.isEmpty_eq, h.all_eq]

theorem reduce_overall_perm {l l' : List (CandidateKind × CandidateStatus)} (h : l.Perm l') :
    reduceOverallStatus l = reduceOverallStatus l' := by
  have hof : ∀ kind, (statusesOf kind l).Perm (statusesOf kind l') := fun kind =>
    (h.filter _).map _
  simp only [reduceOverallStatus, h.isEmpty_eq, reduce_resolved_perm (hof .resolved),
    reduce_hypothesis_perm (hof .hypothesis)]

end AwsOps.NetworkPath
