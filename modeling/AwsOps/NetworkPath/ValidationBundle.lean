import AwsOps.NetworkPath.Verify
import Mathlib.Data.List.Dedup
import Mathlib.Data.List.Sort

/-!
# The validation bundle

The operator-run checks that follow a concluded network-path check. The bundle is meant for a check
without a blocked, conditional or unrun step and names the layers left unknown. Its guard reads the
overall status first, which an unknown step already makes conditional: `bundle_law_iff` says for
which checks the bundle and its list come out as described.
-/

namespace AwsOps.NetworkPath

open List

/-- The bundle of a check. -/
structure ValidationBundle where
  note : String
  unknownLayers : List String
  suggestedChecks : List String
  deriving DecidableEq

def bundleNote : String :=
  "Operator-run validation only — AWSops does not execute these commands."

/-- The check suggested when a layer is unknown. -/
def onPremisesCheck : String :=
  "Confirm the customer-managed on-premises segment separately (out of AWSops's visibility)."

def allSteps (candidatesWithSteps : List (Candidate × List Step)) : List Step :=
  candidatesWithSteps.flatMap (·.2)

/-- `sorted({s["layer"] ... if s["status"] == "unknown"})`. -/
def unknownLayers (steps : List Step) : List String :=
  ((steps.filter (·.status == .unknown)).map (·.layer)).dedup.insertionSort (· ≤ ·)

/-- The bundle of a check with the given overall status, if it has one. -/
def buildValidationBundle (candidatesWithSteps : List (Candidate × List Step))
    (overallStatus : OverallStatus) : Option ValidationBundle :=
  let steps := allSteps candidatesWithSteps
  if overallStatus != .allowed then none
  else if steps.any (·.status == .blocked) then none
  else if steps.any (fun s => s.status == .conditional || s.status == .notRun) then none
  else some {
    note := bundleNote
    unknownLayers := unknownLayers steps
    suggestedChecks := if (unknownLayers steps).isEmpty then [] else [onPremisesCheck] }

/-- Conclude a check and build its bundle. -/
def concludeBundle (candidatesWithSteps : List (Candidate × List Step)) :
    Except String (Option ValidationBundle) := do
  let (_, overall) ← conclude candidatesWithSteps
  pure (buildValidationBundle candidatesWithSteps overall)

/-- The check concludes with this bundle. -/
def Produces (candidatesWithSteps : List (Candidate × List Step)) (bundle : ValidationBundle) :
    Prop :=
  concludeBundle candidatesWithSteps = .ok (some bundle)

/-- A step that rules a bundle out: it is blocked, conditional or not run. -/
def Step.Hinders (s : Step) : Prop :=
  s.status = .blocked ∨ s.status = .conditional ∨ s.status = .notRun

/-- What the bundle is for: there is one exactly when there is a candidate and no step hinders it,
and it names exactly the layers of the unknown steps. -/
structure BundleLaw (candidates : List (Candidate × List Step)) : Prop where
  produced : (∃ bundle, Produces candidates bundle) ↔
    candidates ≠ [] ∧ ∀ s ∈ allSteps candidates, ¬ s.Hinders
  named : ∀ bundle, Produces candidates bundle → ∀ layer,
    layer ∈ bundle.unknownLayers ↔
      ∃ s ∈ allSteps candidates, s.status = .unknown ∧ s.layer = layer

theorem mem_unknown_layers {steps : List Step} {layer : String} :
    layer ∈ unknownLayers steps ↔ ∃ s ∈ steps, s.status = .unknown ∧ s.layer = layer := by
  rw [unknownLayers, mem_insertionSort, mem_dedup]
  simp [and_assoc]

def FullyAllowed (steps : List Step) : Prop :=
  steps ≠ [] ∧ ∀ s ∈ steps, s.status = .allowed

theorem candidate_verdict_allowed_iff {entry : Candidate × List Step} :
    (candidateVerdict entry).status = .allowed ↔ FullyAllowed entry.2 := by
  simp only [candidateVerdict, FullyAllowed, reduce_candidate_allowed_iff, ne_eq,
    map_eq_nil_iff, forall_mem_map]

variable {candidates : List (Candidate × List Step)}

theorem conclude_allowed_iff : (∃ verdicts, conclude candidates = .ok (verdicts, .allowed)) ↔
      candidates ≠ [] ∧ ∀ entry ∈ candidates, FullyAllowed entry.2 := by
  have hreduce : (∃ verdicts, conclude candidates = .ok (verdicts, .allowed)) ↔
      reduceOverallStatus ((candidates.map candidateVerdict).map fun v => (v.kind, v.status)) =
        .ok .allowed := by
    simp only [conclude]
    cases reduceOverallStatus
      ((candidates.map candidateVerdict).map fun v => (v.kind, v.status)) with
    | error message => simp [bind, Except.bind]
    | ok status => simp [bind, Except.bind, pure, Except.pure]
  rw [hreduce, reduce_overall_allowed_iff]
  simp only [ne_eq, map_eq_nil_iff, forall_mem_map, candidate_verdict_allowed_iff]

theorem produces_iff {bundle : ValidationBundle} : Produces candidates bundle ↔
      (∃ verdicts, conclude candidates = .ok (verdicts, .allowed)) ∧
        buildValidationBundle candidates .allowed = some bundle := by
  simp only [Produces, concludeBundle]
  cases hconclude : conclude candidates with
  | error message => simp [bind, Except.bind]
  | ok outcome =>
    obtain ⟨verdicts, overall⟩ := outcome
    cases overall <;>
      simp [bind, Except.bind, pure, Except.pure, buildValidationBundle]

theorem build_of_unhindered (h : ∀ s ∈ allSteps candidates, ¬ s.Hinders) :
    ∃ bundle, buildValidationBundle candidates .allowed = some bundle := by
  have hblocked : (allSteps candidates).any (·.status == .blocked) = false := by
    refine any_eq_false.mpr fun s hs hstatus => h s hs (.inl ?_)
    simpa using hstatus
  have hrest : (allSteps candidates).any
      (fun s => s.status == .conditional || s.status == .notRun) = false := by
    refine any_eq_false.mpr fun s hs hstatus => h s hs (.inr ?_)
    simpa using hstatus
  simp only [buildValidationBundle, hblocked, hrest, bne_self_eq_false, Bool.false_eq_true,
    if_false]
  exact ⟨_, rfl⟩

theorem unknown_layers_of_build {overall : OverallStatus} {bundle : ValidationBundle}
    (h : buildValidationBundle candidates overall = some bundle) :
    bundle.unknownLayers = unknownLayers (allSteps candidates) := by
  simp only [buildValidationBundle] at h
  split at h
  · cases h
  split at h
  · cases h
  split at h
  · cases h
  · cases h
    rfl

theorem produced_iff : (∃ bundle, Produces candidates bundle) ↔
      candidates ≠ [] ∧ ∀ entry ∈ candidates, FullyAllowed entry.2 := by
  constructor
  · intro ⟨bundle, h⟩
    exact conclude_allowed_iff.mp (produces_iff.mp h).1
  · intro h
    have hunhindered : ∀ s ∈ allSteps candidates, ¬ s.Hinders := by
      intro s hs hhinders
      obtain ⟨entry, hentry, hs⟩ := mem_flatMap.mp hs
      have hallowed := (h.2 entry hentry).2 s hs
      simp [Step.Hinders, hallowed] at hhinders
    obtain ⟨bundle, hbundle⟩ := build_of_unhindered hunhindered
    exact ⟨bundle, produces_iff.mpr ⟨conclude_allowed_iff.mpr h, hbundle⟩⟩

theorem allowed_or_unknown {s : Step} (h : ¬ s.Hinders) :
    s.status = .allowed ∨ s.status = .unknown := by
  unfold Step.Hinders at h
  cases hstatus : s.status <;> simp_all

/-- The bundle of a check is as described exactly when there is no candidate, a step hinders it,
or every candidate has a step and no step is unknown. -/
theorem bundle_law_iff (candidates : List (Candidate × List Step)) : BundleLaw candidates ↔
      candidates = [] ∨ (∃ s ∈ allSteps candidates, s.Hinders) ∨
        ∀ entry ∈ candidates, entry.2 ≠ [] ∧ ∀ s ∈ entry.2, s.status ≠ .unknown := by
  constructor
  · intro law
    by_cases hempty : candidates = []
    · exact .inl hempty
    by_cases hhinders : ∃ s ∈ allSteps candidates, s.Hinders
    · exact .inr (.inl hhinders)
    have hnone : ∀ s ∈ allSteps candidates, ¬ s.Hinders := by
      intro s hs hs'
      exact hhinders ⟨s, hs, hs'⟩
    have hallowed := (produced_iff.mp (law.produced.mpr ⟨hempty, hnone⟩)).2
    refine .inr (.inr fun entry hentry => ⟨(hallowed entry hentry).1, fun s hs => ?_⟩)
    rw [(hallowed entry hentry).2 s hs]
    decide
  · intro hcond
    refine ⟨?_, fun bundle h layer => ?_⟩
    · rw [produced_iff]
      constructor
      · intro ⟨hne, hall⟩
        refine ⟨hne, fun s hs hhinders => ?_⟩
        obtain ⟨entry, hentry, hs⟩ := mem_flatMap.mp hs
        simp [Step.Hinders, (hall entry hentry).2 s hs] at hhinders
      · intro ⟨hne, hnone⟩
        refine ⟨hne, fun entry hentry => ?_⟩
        rcases hcond with hempty | ⟨s, hs, hhinders⟩ | hknown
        · exact absurd hempty hne
        · exact absurd hhinders (hnone s hs)
        · refine ⟨(hknown entry hentry).1, fun s hs => ?_⟩
          have hmem : s ∈ allSteps candidates := mem_flatMap.mpr ⟨entry, hentry, hs⟩
          exact (allowed_or_unknown (hnone s hmem)).resolve_right ((hknown entry hentry).2 s hs)
    · rw [unknown_layers_of_build (produces_iff.mp h).2]
      exact mem_unknown_layers

def resolvedPath : Candidate where
  candidateId := "c0"
  kind := .resolved
  layerPlan := ["sg", "dns"]
  data := []

/-- An allowed layer and one that was not evaluated. -/
def partlyKnown : List Step :=
  [⟨0, "sg", .allowed, .null, "ok", []⟩, ⟨1, "dns", .unknown, .null, "not evaluated", []⟩]

/-- A check whose only open layer is unknown has no step that hinders the bundle, and no bundle. -/
theorem unknown_layer_unbundled : (∀ s ∈ allSteps [(resolvedPath, partlyKnown)], ¬ s.Hinders) ∧
      concludeBundle [(resolvedPath, partlyKnown)] = .ok none ∧
      ¬ BundleLaw [(resolvedPath, partlyKnown)] := by
  have hsteps : ∀ s ∈ allSteps [(resolvedPath, partlyKnown)], ¬ s.Hinders := by
    intro s hs
    simp only [allSteps, flatMap_cons, flatMap_nil, append_nil, partlyKnown,
      mem_cons, not_mem_nil, or_false] at hs
    rcases hs with rfl | rfl <;> simp [Step.Hinders]
  have hnone : concludeBundle [(resolvedPath, partlyKnown)] = .ok none := rfl
  refine ⟨hsteps, hnone, fun law => ?_⟩
  obtain ⟨bundle, hbundle⟩ := law.produced.mpr ⟨by simp, hsteps⟩
  rw [Produces, hnone] at hbundle
  cases hbundle

end AwsOps.NetworkPath
