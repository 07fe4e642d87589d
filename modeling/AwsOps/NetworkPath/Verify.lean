import AwsOps.Foundation.Json
import AwsOps.Foundation.Text
import AwsOps.NetworkPath.Reduce

/-!
# Verification of candidates

The verify and conclude phases of a network-path check. Each layer of a candidate's plan runs its
registered adapter until the global deadline; a layer after the deadline is not run, a layer
without an adapter and a layer whose adapter raises are unknown. Evidence is redacted and bounded
before it is kept. The main result, `check_verdict_sound`, reads the overall verdict back as a
statement about what the adapters returned.
-/

namespace AwsOps.NetworkPath

open List

/-- The largest number of evidence items of one step. -/
def maxEvidenceItems : Nat := 10

/-- The largest serialized size of the evidence of one step. -/
def maxEvidenceBytes : Nat := 4000

/-- The keys whose values are never persisted. -/
def redactKeys : List String :=
  ["secret", "secrets", "password", "token", "credentials", "authkey", "auth_key",
    "customerrouterconfig", "annotations"]

mutual
/-- Replace the values of sensitive keys at every depth. -/
def redact (U : Text.Unicode) : Json → Json
  | .obj fields => .obj (redactFields U fields)
  | .arr items => .arr (redactItems U items)
  | value => value

/-- `redact` on the items of an array. -/
def redactItems (U : Text.Unicode) : List Json → List Json
  | [] => []
  | item :: rest => redact U item :: redactItems U rest

/-- `redact` on the fields of an object. -/
def redactFields (U : Text.Unicode) : List (String × Json) → List (String × Json)
  | [] => []
  | (key, value) :: rest =>
    (key, if Text.lower U key ∈ redactKeys then .str "[redacted]" else redact U value) ::
      redactFields U rest
end

/-- Keep items while their total serialized size stays within the limit. -/
def takeWithin (total : Nat) : List Json → List Json
  | [] => []
  | item :: rest =>
    let total := total + item.dumps.length
    if total > maxEvidenceBytes then [] else item :: takeWithin total rest

/-- Bound and redact the evidence of one step. Evidence that cannot be iterated becomes empty. -/
def boundEvidence (U : Text.Unicode) (evidence : Json) : List Json :=
  match if evidence.truthy then evidence.iterate else some [] with
  | none => []
  | some items => takeWithin 0 ((items.map (redact U)).take maxEvidenceItems)

/-- What an adapter returns. -/
structure StepResult where
  layer : String
  status : LayerStatus
  resource : Json
  summary : String
  evidence : Json

/-- One persisted step. -/
structure Step where
  ordinal : Nat
  layer : String
  status : LayerStatus
  resource : Json
  summary : String
  evidence : List Json

/-- An adapter reads the data of its layer and the request and returns a result or raises. The
first argument numbers the call, so that two calls of one adapter may differ. -/
abbrev Adapter := Nat → Json → Json → Except String StepResult

/-- What one candidate's verification meets: the adapters registered by layer, and the clock
reading taken before each step. -/
structure Environment where
  adapters : String → Option Adapter
  now : Nat → Int

/-- A candidate path: its layers in order and the data gathered for them. -/
structure Candidate where
  candidateId : String
  kind : CandidateKind
  layerPlan : List String
  data : List (String × Json)

/-- The data of a layer; a layer without data reads an empty object. -/
def Candidate.layerData (c : Candidate) (layer : String) : Json :=
  (c.data.lookup layer).getD (.obj [])

/-- The step of a layer that the deadline cut off. -/
def notRunStep (ordinal : Nat) (layer : String) : Step where
  ordinal := ordinal
  layer := layer
  status := .notRun
  resource := .null
  summary := "global deadline reached before this layer ran"
  evidence := []

/-- The step of a layer that has no adapter. Layer names are plain identifiers, whose `repr` is the
quoted name. -/
def unregisteredStep (ordinal : Nat) (layer : String) : Step where
  ordinal := ordinal
  layer := layer
  status := .unknown
  resource := .null
  summary := "no adapter registered for layer " ++ Text.reprPlain layer
  evidence := []

/-- The result that stands for an adapter's exception. -/
def errorResult (layer message : String) : StepResult where
  layer := layer
  status := .unknown
  resource := .null
  summary := s!"adapter error: {message}"
  evidence := .arr []

/-- Number a result and bound its evidence. -/
def StepResult.toStep (U : Text.Unicode) (ordinal : Nat) (result : StepResult) : Step where
  ordinal := ordinal
  layer := result.layer
  status := result.status
  resource := result.resource
  summary := result.summary
  evidence := boundEvidence U result.evidence

def runLayer (U : Text.Unicode) (env : Environment) (c : Candidate) (request : Json)
    (ordinal : Nat) (layer : String) : Step :=
  match env.adapters layer with
  | none => unregisteredStep ordinal layer
  | some fn =>
    match fn ordinal (c.layerData layer) request with
    | .ok result => result.toStep U ordinal
    | .error message => (errorResult layer message).toStep U ordinal

/-- The loop over the remaining layers; once the deadline is hit it stays hit. -/
def verifyFrom (U : Text.Unicode) (env : Environment) (c : Candidate) (request : Json)
    (deadlineAt : Int) (deadlineHit : Bool) (ordinal : Nat) : List String → List Step
  | [] => []
  | layer :: rest =>
    if deadlineHit || decide (deadlineAt ≤ env.now ordinal) then
      notRunStep ordinal layer ::
        verifyFrom U env c request deadlineAt true (ordinal + 1) rest
    else
      runLayer U env c request ordinal layer ::
        verifyFrom U env c request deadlineAt false (ordinal + 1) rest

/-- Verify one candidate: the steps of its plan in order. -/
def verifyCandidate (U : Text.Unicode) (env : Environment) (c : Candidate) (request : Json)
    (deadlineAt : Int) : List Step :=
  verifyFrom U env c request deadlineAt false 0 c.layerPlan

structure CandidateVerdict where
  candidateId : String
  kind : CandidateKind
  status : CandidateStatus
  firstBlocker : Option String
  deriving DecidableEq

/-- The first blocked step, as the verdict reports it. -/
def firstBlocker (steps : List Step) : Option String :=
  (steps.find? (·.status == .blocked)).map fun s => s!"{s.layer}: {s.summary}"

def candidateVerdict (entry : Candidate × List Step) : CandidateVerdict where
  candidateId := entry.1.candidateId
  kind := entry.1.kind
  status := reduceCandidateStatus (entry.2.map (·.status))
  firstBlocker := firstBlocker entry.2

def conclude (candidatesWithSteps : List (Candidate × List Step)) :
    Except String (List CandidateVerdict × OverallStatus) := do
  let perCandidate := candidatesWithSteps.map candidateVerdict
  let overall ← reduceOverallStatus (perCandidate.map fun v => (v.kind, v.status))
  pure (perCandidate, overall)

/-- One candidate together with what its verification meets. -/
structure Run where
  env : Environment
  candidate : Candidate

def Run.steps (U : Text.Unicode) (request : Json) (deadlineAt : Int) (run : Run) : List Step :=
  verifyCandidate U run.env run.candidate request deadlineAt

/-- Verify every candidate and conclude. -/
def check (U : Text.Unicode) (request : Json) (deadlineAt : Int) (runs : List Run) :
    Except String (List CandidateVerdict × OverallStatus) :=
  conclude (runs.map fun run => (run.candidate, run.steps U request deadlineAt))

/-- No clock reading up to the step has reached the deadline. -/
def Environment.InTime (env : Environment) (deadlineAt : Int) (ordinal : Nat) : Prop :=
  ∀ i ≤ ordinal, env.now i < deadlineAt

/-- The adapter of the plan's layer at the ordinal is called in time, and this is its outcome. -/
def Run.Outcome (run : Run) (request : Json) (deadlineAt : Int) (ordinal : Nat)
    (outcome : Except String StepResult) : Prop :=
  run.env.InTime deadlineAt ordinal ∧
    ∃ layer fn, run.candidate.layerPlan[ordinal]? = some layer ∧
      run.env.adapters layer = some fn ∧
      fn ordinal (run.candidate.layerData layer) request = outcome

/-- The adapter at the ordinal really returned this status. -/
def Run.Returned (run : Run) (request : Json) (deadlineAt : Int) (ordinal : Nat)
    (status : LayerStatus) : Prop :=
  ∃ result, run.Outcome request deadlineAt ordinal (.ok result) ∧ result.status = status

/-- The step that the plan's layer at the ordinal produces: the deadline decides whether its
adapter runs. -/
theorem verify_from_get (U : Text.Unicode) (env : Environment) (c : Candidate) (request : Json)
    (deadlineAt : Int) (hit : Bool) (start : Nat) (plan : List String) (i : Nat) :
    ((hit = true ∨ ∃ j ≤ i, deadlineAt ≤ env.now (start + j)) →
      (verifyFrom U env c request deadlineAt hit start plan)[i]? =
        plan[i]?.map (notRunStep (start + i))) ∧
    ((hit = false ∧ ∀ j ≤ i, env.now (start + j) < deadlineAt) →
      (verifyFrom U env c request deadlineAt hit start plan)[i]? =
        plan[i]?.map (runLayer U env c request (start + i))) := by
  induction plan generalizing hit start i with
  | nil => simp [verifyFrom]
  | cons layer rest ih =>
    by_cases hstop : hit = true ∨ deadlineAt ≤ env.now start
    · have hloop : verifyFrom U env c request deadlineAt hit start (layer :: rest) =
          notRunStep start layer ::
            verifyFrom U env c request deadlineAt true (start + 1) rest := by
        simp only [verifyFrom]
        rw [if_pos (by simpa using hstop)]
      rw [hloop]
      refine ⟨fun _ => ?_, fun hrun => ?_⟩
      · cases i with
        | zero => rfl
        | succ i => simpa [Nat.add_right_comm start 1 i, Nat.add_assoc] using
            (ih true (start + 1) i).1 (.inl rfl)
      · obtain ⟨hhit, hnow⟩ := hrun
        have := hnow 0 (Nat.zero_le _)
        rcases hstop with hstop | hstop
        · simp [hhit] at hstop
        · exact absurd hstop (by simpa using this)
    · obtain ⟨hhit, hnow⟩ := not_or.mp hstop
      have hhit : hit = false := by simpa using hhit
      have hloop : verifyFrom U env c request deadlineAt hit start (layer :: rest) =
          runLayer U env c request start layer ::
            verifyFrom U env c request deadlineAt false (start + 1) rest := by
        simp only [verifyFrom]
        rw [if_neg (by simpa [hhit] using hnow)]
      rw [hloop]
      cases i with
      | zero =>
        refine ⟨fun hlate => ?_, fun _ => rfl⟩
        obtain hlate | ⟨j, hj, hlate⟩ := hlate
        · simp [hhit] at hlate
        · obtain rfl := Nat.le_zero.mp hj
          exact absurd hlate hnow
      | succ i =>
        have hshift : ∀ j, start + 1 + j = start + (j + 1) := fun j => by omega
        refine ⟨fun hlate => ?_, fun hrun => ?_⟩
        · obtain hlate | ⟨j, hj, hlate⟩ := hlate
          · simp [hhit] at hlate
          · cases j with
            | zero => exact absurd hlate hnow
            | succ j =>
              have hrest := (ih false (start + 1) i).1
                (.inr ⟨j, by omega, by rw [hshift]; exact hlate⟩)
              simpa [hshift] using hrest
        · have hrest := (ih false (start + 1) i).2
            ⟨rfl, fun j hj => by rw [hshift]; exact hrun.2 (j + 1) (by omega)⟩
          simpa [hshift] using hrest

variable (U : Text.Unicode) (request : Json) (deadlineAt : Int) (run : Run)

theorem steps_get_in_time (i : Nat) (h : run.env.InTime deadlineAt i) :
    (run.steps U request deadlineAt)[i]? =
      run.candidate.layerPlan[i]?.map (runLayer U run.env run.candidate request i) := by
  have hget := (verify_from_get U run.env run.candidate request deadlineAt false 0
    run.candidate.layerPlan i).2 ⟨rfl, fun j hj => by simpa using h j hj⟩
  simpa [Run.steps, verifyCandidate] using hget

theorem steps_get_late (i : Nat) (h : ¬ run.env.InTime deadlineAt i) :
    (run.steps U request deadlineAt)[i]? = run.candidate.layerPlan[i]?.map (notRunStep i) := by
  have hlate : ∃ j ≤ i, deadlineAt ≤ run.env.now j := by
    simpa [Environment.InTime] using h
  have hget := (verify_from_get U run.env run.candidate request deadlineAt false 0
    run.candidate.layerPlan i).1 (.inr (by simpa using hlate))
  simpa [Run.steps, verifyCandidate] using hget

theorem steps_length :
    (run.steps U request deadlineAt).length = run.candidate.layerPlan.length := by
  have hget : ∀ i : Nat, (run.steps U request deadlineAt)[i]?.isSome =
      run.candidate.layerPlan[i]?.isSome := by
    intro i
    by_cases h : run.env.InTime deadlineAt i
    · rw [steps_get_in_time U request deadlineAt run i h, Option.isSome_map]
    · rw [steps_get_late U request deadlineAt run i h, Option.isSome_map]
  refine Nat.le_antisymm ?_ ?_
  · have h := hget run.candidate.layerPlan.length
    simpa using h
  · have h := hget (run.steps U request deadlineAt).length
    simpa using h

variable {request} {deadlineAt} {run} {i : Nat}

theorem step_of_raised {message : String} (h : run.Outcome request deadlineAt i (.error message)) :
    ∃ layer, (run.steps U request deadlineAt)[i]? =
      some ((errorResult layer message).toStep U i) := by
  obtain ⟨htime, layer, fn, hplan, hfn, hcall⟩ := h
  exact ⟨layer, by simp [steps_get_in_time U request deadlineAt run i htime, hplan, runLayer,
    hfn, hcall]⟩

theorem returned_of_step {step : Step} (h : (run.steps U request deadlineAt)[i]? = some step)
    (hunknown : step.status ≠ .unknown) (hran : step.status ≠ .notRun) :
    run.Returned request deadlineAt i step.status := by
  by_cases htime : run.env.InTime deadlineAt i
  · rw [steps_get_in_time U request deadlineAt run i htime] at h
    obtain ⟨layer, hplan, rfl⟩ := Option.map_eq_some_iff.mp h
    simp only [runLayer] at hunknown hran ⊢
    cases hfn : run.env.adapters layer with
    | none => simp [hfn, unregisteredStep] at hunknown
    | some fn =>
      cases hcall : fn i (run.candidate.layerData layer) request with
      | error message => simp [hfn, hcall, errorResult, StepResult.toStep] at hunknown
      | ok result =>
        exact ⟨result, ⟨htime, layer, fn, hplan, hfn, hcall⟩, by
          simp [hcall, StepResult.toStep]⟩
  · rw [steps_get_late U request deadlineAt run i htime] at h
    obtain ⟨layer, _, rfl⟩ := Option.map_eq_some_iff.mp h
    simp [notRunStep] at hran

/-- The overall status of a check, or the error. -/
def overallStatus (U : Text.Unicode) (request : Json) (deadlineAt : Int) (runs : List Run) :
    Except String OverallStatus :=
  (check U request deadlineAt runs).map (·.2)

def Run.status (U : Text.Unicode) (request : Json) (deadlineAt : Int) (run : Run) :
    CandidateStatus :=
  reduceCandidateStatus ((run.steps U request deadlineAt).map (·.status))

theorem overall_status_eq (request : Json) (deadlineAt : Int) (runs : List Run) :
    overallStatus U request deadlineAt runs = reduceOverallStatus
        (runs.map fun run => (run.candidate.kind, run.status U request deadlineAt)) := by
  simp only [overallStatus, check, conclude, map_map]
  have hkinds : runs.map ((fun v : CandidateVerdict => (v.kind, v.status)) ∘ candidateVerdict ∘
      fun run => (run.candidate, run.steps U request deadlineAt)) =
      runs.map fun run => (run.candidate.kind, run.status U request deadlineAt) := rfl
  rw [hkinds]
  cases reduceOverallStatus
    (runs.map fun run => (run.candidate.kind, run.status U request deadlineAt)) <;> rfl

theorem overall_status_unanimous {runs : List Run} {status : OverallStatus}
    (h : overallStatus U request deadlineAt runs = .ok status)
    (hs : status = .allowed ∨ status = .blocked) :
    runs ≠ [] ∧ ∀ run ∈ runs, run.status U request deadlineAt = status := by
  rw [overall_status_eq] at h
  obtain ⟨hne, hall⟩ := reduce_overall_unanimous h hs
  refine ⟨by simpa using hne, fun run hrun => ?_⟩
  exact hall (run.candidate.kind, _) (mem_map.mpr ⟨run, hrun, rfl⟩)

theorem returned_of_allowed (h : run.status U request deadlineAt = .allowed) :
    run.candidate.layerPlan ≠ [] ∧
      ∀ i < run.candidate.layerPlan.length, run.Returned request deadlineAt i .allowed := by
  obtain ⟨hne, hall⟩ := reduce_candidate_allowed_iff.mp h
  have hlen := steps_length U request deadlineAt run
  refine ⟨fun hplan => hne ?_, fun i hi => ?_⟩
  · rw [hplan] at hlen
    simp [length_eq_zero_iff.mp hlen]
  · have hi : i < (run.steps U request deadlineAt).length := by omega
    have hget := List.getElem?_eq_getElem hi
    have hstatus : (run.steps U request deadlineAt)[i].status = .allowed :=
      hall _ (mem_map.mpr ⟨_, getElem_mem hi, rfl⟩)
    have hreturned := returned_of_step U hget (by simp [hstatus]) (by simp [hstatus])
    rwa [hstatus] at hreturned

theorem returned_of_blocked (h : run.status U request deadlineAt = .blocked) :
    ∃ i, run.Returned request deadlineAt i .blocked := by
  obtain ⟨step, hstep, hstatus⟩ := mem_map.mp (reduce_candidate_blocked_iff.mp h)
  obtain ⟨i, hget⟩ := mem_iff_getElem?.mp hstep
  have hreturned := returned_of_step U hget (by simp [hstatus]) (by simp [hstatus])
  rw [hstatus] at hreturned
  exact ⟨i, hreturned⟩

theorem not_allowed_of_raised {message : String}
    (h : run.Outcome request deadlineAt i (.error message)) :
    run.status U request deadlineAt ≠ .allowed := by
  intro hallowed
  obtain ⟨layer, hget⟩ := step_of_raised U h
  have hmem : LayerStatus.unknown ∈ (run.steps U request deadlineAt).map (·.status) :=
    mem_map.mpr ⟨_, mem_of_getElem? hget, rfl⟩
  cases (reduce_candidate_allowed_iff.mp hallowed).2 _ hmem

/-- What the overall verdict of a check commits to. `allowed` means that every candidate has a
layer and that every adapter of every candidate ran in time and returned `allowed`; `blocked`
means that there is a candidate, that every candidate is blocked, and that each has an adapter
that returned `blocked`; an adapter that raises leaves its step unknown and its candidate, and
with it the check, not allowed; and the order of the candidates does not matter. -/
theorem check_verdict_sound (U : Text.Unicode) (request : Json) (deadlineAt : Int)
    (runs : List Run) :
    (overallStatus U request deadlineAt runs = .ok .allowed →
      ∀ run ∈ runs, run.candidate.layerPlan ≠ [] ∧
        ∀ i < run.candidate.layerPlan.length, run.Returned request deadlineAt i .allowed) ∧
    (overallStatus U request deadlineAt runs = .ok .blocked →
      runs ≠ [] ∧ ∀ run ∈ runs, run.status U request deadlineAt = .blocked ∧
        ∃ i, run.Returned request deadlineAt i .blocked) ∧
    (∀ run ∈ runs, ∀ i message, run.Outcome request deadlineAt i (.error message) →
      ((run.steps U request deadlineAt)[i]?.map (·.status) = some .unknown) ∧
      run.status U request deadlineAt ≠ .allowed ∧
      overallStatus U request deadlineAt runs ≠ .ok .allowed) ∧
    ∀ runs', runs.Perm runs' →
      overallStatus U request deadlineAt runs = overallStatus U request deadlineAt runs' := by
  refine ⟨fun hallowed run hrun => ?_, fun hblocked => ?_, fun run hrun i message hraised => ?_,
    fun runs' hperm => ?_⟩
  · exact returned_of_allowed U ((overall_status_unanimous U hallowed (.inl rfl)).2 run hrun)
  · obtain ⟨hne, hall⟩ := overall_status_unanimous U hblocked (.inr rfl)
    exact ⟨hne, fun run hrun => ⟨hall run hrun, returned_of_blocked U (hall run hrun)⟩⟩
  · obtain ⟨layer, hget⟩ := step_of_raised U hraised
    have hcandidate := not_allowed_of_raised U hraised
    refine ⟨by simp [hget, StepResult.toStep, errorResult], hcandidate, fun hoverall => ?_⟩
    exact hcandidate ((overall_status_unanimous U hoverall (.inl rfl)).2 run hrun)
  · rw [overall_status_eq, overall_status_eq]
    exact reduce_overall_perm (hperm.map _)

end AwsOps.NetworkPath
