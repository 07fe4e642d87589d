import AwsOps.SgRules.Scan

/-!
# Sequences of runs

What happens to one source over time, and the two rules that carry a judgement through the text of
a run: `scan_day_rule` for one day of its list and `run_rule` for the whole. Each asks only about
the statements that write.
-/

namespace AwsOps.SgRules

open AwsOps.Session

/-- What happens to one source: an administrator saves its row, or the scan runs. -/
inductive Event where
  | configure (enabled : Bool) (validation : Validation)
  | run (x : RunInput)

/-- The store after an event, in which the run may have been cut short. -/
def step (cfg : Config) (s : Store) : Event → Store
  | .configure enabled validation =>
    { s with source := s.source.map fun source =>
        { source with enabled := enabled, validation := validation } }
  | .run x => ((run cfg x).run x.faults s 0).store

/-- The store after a sequence of events on a source that has not been scanned. The faults of a run
that raise from some statement on give the store between two statements of the run. -/
def storeAfterEvents (cfg : Config) (source : FlowSource) (events : List Event) : Store :=
  events.foldl (step cfg) { Store.empty with source := some source }

def runsOf (events : List Event) : List RunInput :=
  events.filterMap fun
    | .configure _ _ => none
    | .run x => some x

section Rules

theorem or_raise_spec {α : Type} {I : Store → Prop} (answer : Except String α) :
    Triple I (orRaise answer) (fun _ => I) I := by
  cases answer with
  | ok a => exact .pure fun _ h => h
  | error e => exact .raise fun _ h => h

/-- The checks before a run touches anything keep every assertion. -/
theorem load_source_spec {I : Store → Prop} (cfg : Config) :
    Triple I (loadSource cfg) (fun _ => I) I := by
  have hquery : Triple I (query (·.source)) (fun _ => I) I := .query (fun _ h => h) fun _ h => h
  refine hquery.bind fun source => ?_
  cases source with
  | none => exact .raise fun _ h => h
  | some source =>
    dsimp only
    split
    · exact .raise fun _ h => h
    · split
      · exact .pure fun _ h => h
      · exact .raise fun _ h => h

theorem account_external_id_spec {I : Store → Prop} (cfg : Config) (x : RunInput) :
    Triple I (accountExternalId cfg x) (fun _ => I) I := by
  unfold accountExternalId
  split
  · exact .pure fun _ h => h
  · have hquery : Triple I (query fun _ => x.accountEnabled) (fun _ => I) I :=
      .query (fun _ h => h) fun _ h => h
    refine hquery.bind fun enabled => ?_
    split
    · exact .pure fun _ h => h
    · exact .raise fun _ h => h

theorem scan_day_rule {I J End : Store → Prop} (cfg : Config) (x : RunInput)
    (eniSnapshotTruncated : Bool) (ruleVersions : List (String × List VersionRow)) (day : Int)
    (hskip : ∀ s, I s → J s) (hend : ∀ s, I s → End s)
    (hfailed : ∀ reason errorCode,
      Triple I (writeFailedRun cfg.U day reason errorCode) (fun _ => I) I)
    (hprocess : isDayEligible day x.now cfg.deliveryLagHours = true →
      ∀ flows membershipsByVpc staleVpcs flags peeredOrShared, Triple I
        (processDay cfg.U day flows ruleVersions membershipsByVpc staleVpcs flags peeredOrShared x.now)
        (fun _ => J) I) :
    Triple I (scanDay cfg x eniSnapshotTruncated ruleVersions day) (fun _ => J) End := by
  unfold scanDay
  split
  · exact .pure fun s h => hskip s h
  · rename_i heligible
    have hfail : ∀ reason errorCode result, Triple I
        (do
          writeFailedRun cfg.U day reason errorCode
          pure (some result) : Session Store (Option DayResult))
        (fun _ => J) End := fun reason errorCode result =>
      Triple.bind ((hfailed reason errorCode).weaken (fun _ h => h) (fun _ _ h => h) hend) fun _ =>
        .pure fun s h => hskip s h
    refine Triple.bind ((or_raise_spec _).weaken (fun _ h => h) (fun _ _ h => h) hend) fun result => ?_
    cases result with
    | failed reason => exact hfail reason _ _
    | rows flows truncated skipdataCount =>
      have hload : Triple I (query (loadMembershipByVpc day cfg.membershipStalenessDays))
          (fun _ => I) End :=
        .query (fun _ h => h) hend
      refine hload.bind fun memberships => ?_
      have hday := hprocess (by simpa using heligible) flows memberships.1 memberships.2
        ⟨truncated, eniSnapshotTruncated, skipdataCount⟩ fun _ => []
      exact .catching (hday.bind fun result => .pure fun _ h => h) fun e => hfail _ _ _

theorem run_rule {Before End : Store → Prop} (Mid : Store → Prop) (cfg : Config) (x : RunInput)
    (hbefore : ∀ s, Before s → End s) (hmid : ∀ s, Mid s → End s)
    (hupsert : ∀ rules groupVpcMap, Triple Before
      (upsertInventoryAndVersions cfg.sha256 rules x.now groupVpcMap) (fun _ => Mid) End)
    (heni : ∀ membership, Triple Mid (exec (insertEniSnapshot x.now membership)) (fun _ => Mid) End)
    (hupdate : ∀ validation, Triple Mid (exec (updateValidation validation)) (fun _ => Mid) End)
    (hdays : ∀ source truncated, Triple Mid (scanDays cfg x source truncated) (fun _ => End) End) :
    Triple Before (run cfg x) (fun _ => End) End := by
  have hread {α : Type} {m : Session Store α} (h : Triple Before m (fun _ => Before) Before) :
      Triple Before m (fun _ => Before) End :=
    h.weaken (fun _ h => h) (fun _ _ h => h) hbefore
  have hresult : ∀ result, Triple Mid (pure result : Session Store RunResult) (fun _ => End) End :=
    fun result => .pure hmid
  refine (hread (load_source_spec cfg)).bind fun source =>
    (hread (account_external_id_spec cfg x)).bind fun _ =>
    (hread (or_raise_spec _)).bind fun rules => (hread (or_raise_spec _)).bind fun enis =>
    (hupsert _ _).bind fun _ => ?_
  have hloop : ∀ memberships, Triple Mid
      (forEach (fun membership => exec (insertEniSnapshot x.now membership)) memberships)
      (fun _ => Mid) End := fun memberships =>
    .forEach (fun _ _ => Mid) fun _ membership _ _ _ => heni membership
  have hsnapshot : ∀ memberships, Triple Mid (writeEniSnapshot memberships x.now)
      (fun _ => Mid) End := fun memberships =>
    (hloop memberships).bind fun _ => .pure fun _ h => h
  refine (hsnapshot _).bind fun _ => ?_
  split
  · exact hresult _
  · split
    · exact hresult _
    · split
      · refine Triple.bind ((or_raise_spec _).weaken (fun _ h => h) (fun _ _ h => h) hmid)
          fun revalidated => ?_
        cases revalidated with
        | ok healed => exact (hupdate _).bind fun _ => hdays _ _
        | error reason => exact hresult _
      · exact hdays _ _

end Rules

end AwsOps.SgRules
