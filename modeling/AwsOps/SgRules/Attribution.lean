import AwsOps.SgRules.Runs
import Mathlib.Data.Set.Finite.Lemmas
import Mathlib.Data.Set.Finite.List

/-!
# Attributing days to versions

What a day's attribution to a version of a rule rests on: the version began before the day, and
some scan found out about the rule after the day while the version still held. `Attributed` says
this of every attribution made so far, `run_attributed` is the judgement about a whole run, and
`day_attribution_sound` reads off what the scans around the day saw.
-/

namespace AwsOps.SgRules

open List AwsOps.Timeline AwsOps.Session AwsOps.Calendar

/-- A scan at the instant, after the day, found out about the rule while the version held. -/
structure Grounds (log : List Sighting) (a : Attribution) (v : VersionRow) (instant : Int) :
    Prop where
  key : v.key = a.ruleId
  opened : v.opened = a.validFrom
  fingerprint : v.value.fingerprint = a.fingerprint
  before : v.opened ≤ dayStart a.day
  after : dayEnd a.day ≤ instant
  covers : v.covers instant = true
  observed : Observed log instant a.ruleId

/-- Every succeeded scan of a day belongs to a scan that went through its whole snapshot. -/
def ScansCompleted (s : Store) : Prop :=
  ∀ row ∈ s.scanRuns, ∀ startedAt, row.succeededAt = some startedAt →
    ScanCompleted s.sightings startedAt

/-- Every attribution has its grounds at an instant with a property. -/
def AllGrounded (p : Int → Prop) (s : Store) : Prop :=
  ∀ a ∈ s.attributions, ∃ v ∈ s.versions, ∃ instant, p instant ∧ Grounds s.sightings a v instant

/-- What the scans keep: valid versions, completed scans and grounded attributions. -/
structure Attributed (now : Int) (s : Store) : Prop where
  versions : VersionsValid now s.versions s.sightings
  scans : ScansCompleted s
  grounded : AllGrounded (· ≤ now) s

/-- What a run keeps once it has recorded its snapshot; the versions stay as they are then. -/
structure Snapshotted (now : Int) (versions : List VersionRow) (s : Store) : Prop where
  attributed : Attributed now s
  completed : ScanCompleted s.sightings now
  same : s.versions = versions

section Keep

variable {now : Int} {versions : List VersionRow} {s s' : Store}

theorem Grounds.append {log : List Sighting} {a : Attribution} {v : VersionRow} {instant : Int}
    (h : Grounds log a v instant) (more : List Sighting) : Grounds (log ++ more) a v instant := by
  refine ⟨h.key, h.opened, h.fingerprint, h.before, h.after, h.covers, ?_⟩
  obtain ⟨fp, hsaw⟩ | ⟨seen, hmissed, hunseen⟩ := h.observed
  · exact .inl ⟨fp, hsaw.append more⟩
  · exact .inr ⟨seen, mem_append_left _ hmissed, hunseen⟩

theorem recording_step_keeps (hstep : RecordingStep now s s')
    (h : ScansCompleted s ∧ AllGrounded (· < now) s) :
    ScansCompleted s' ∧ AllGrounded (· < now) s' := by
  obtain ⟨hscans, hgrounded⟩ := h
  cases hstep with
  | inventory inventory => exact ⟨hscans, hgrounded⟩
  | confirmed sighting =>
    refine ⟨fun row hrow at' hat => (hscans row hrow at' hat).append _, fun a ha => ?_⟩
    obtain ⟨v, hv, instant, hlt, hgrounds⟩ := hgrounded a ha
    exact ⟨v, hv, instant, hlt, hgrounds.append _⟩
  | opened ruleId shape sighting =>
    refine ⟨fun row hrow at' hat => (hscans row hrow at' hat).append _, fun a ha => ?_⟩
    obtain ⟨v, hv, instant, hlt, hgrounds⟩ := hgrounded a ha
    exact ⟨v, mem_open_epoch.mpr (.inl hv), instant, hlt, hgrounds.append _⟩
  | closed selected sighting =>
    refine ⟨fun row hrow at' hat => (hscans row hrow at' hat).append _, fun a ha => ?_⟩
    obtain ⟨v, hv, instant, hlt, hgrounds⟩ := hgrounded a ha
    by_cases hclose : v.closed = none ∧ selected v.key = true
    · -- the version is closed after the instant, so it still covers it
      refine ⟨{ v with closed := some now },
        mem_close_where.mpr (.inr ⟨v, hv, hclose.1, hclose.2, rfl⟩), instant, hlt, ?_⟩
      have hcovers : ({ v with closed := some now } : VersionRow).covers instant = true := by
        refine covers_iff.mpr ⟨(covers_iff.mp hgrounds.covers).1, fun closed hclosed => ?_⟩
        cases hclosed
        exact hlt
      have hclosed : Grounds s.sightings a { v with closed := some now } instant :=
        ⟨hgrounds.key, hgrounds.opened, hgrounds.fingerprint, hgrounds.before, hgrounds.after,
          hcovers, hgrounds.observed⟩
      exact hclosed.append _
    · exact ⟨v, mem_close_where.mpr (.inl ⟨hv, hclose⟩), instant, hlt, hgrounds.append _⟩

/-- The facts survive a change of the tables that they do not speak about. -/
theorem Snapshotted.frame (h : Snapshotted now versions s) (hversions : s'.versions = s.versions)
    (hsightings : s'.sightings = s.sightings) (hattributions : s'.attributions = s.attributions)
    (hscans : ∀ row ∈ s'.scanRuns, row ∈ s.scanRuns ∨
      ∀ startedAt, row.succeededAt = some startedAt → startedAt = now) :
    Snapshotted now versions s' := by
  obtain ⟨⟨hvalid, hcompleted, hgrounded⟩, hnow, hsame⟩ := h
  refine ⟨⟨?_, fun row hrow startedAt hstarted => ?_, ?_⟩, ?_, ?_⟩
  · rw [hversions, hsightings]
    exact hvalid
  · rw [hsightings]
    obtain hold | hnew := hscans row hrow
    · exact hcompleted row hold startedAt hstarted
    · rw [hnew startedAt hstarted]
      exact hnow
  · unfold AllGrounded
    rw [hversions, hsightings, hattributions]
    exact hgrounded
  · rw [hsightings]
    exact hnow
  · rw [hversions]
    exact hsame

end Keep

section ProcessDay

variable {now day : Int} {versions : List VersionRow}

structure Confident (s : Store) (candidates : List VersionRow) (day : Int) (v : VersionRow) :
    Prop where
  mem : v ∈ candidates
  before : v.opened ≤ dayStart day
  after : ∃ instant, dayEnd day ≤ instant ∧ v.covers instant = true ∧
    ScanCompleted s.sightings instant

theorem previous_gap_completed {s : Store} (h : ScansCompleted s) {before gap : Int}
    (hgap : previousSuccessfulScanGap before s = some gap) :
    ScanCompleted s.sightings (before - gap) ∧ before - gap < before := by
  simp only [previousSuccessfulScanGap, Option.map_eq_some_iff] at hgap
  obtain ⟨prev, hmax, rfl⟩ := hgap
  have hmem := List.max?_mem hmax
  simp only [mem_filter, mem_filterMap, decide_eq_true_eq] at hmem
  obtain ⟨⟨row, hrow, hstarted⟩, hlt⟩ := hmem
  rw [show before - (before - prev) = prev by omega]
  exact ⟨h row hrow prev hstarted, hlt⟩

/-- A covered day has a version that was in force before it and at some completed scan after it. -/
theorem day_coverage_spec (candidates : List VersionRow) (hday : dayEnd day ≤ now) :
    Triple (Snapshotted now versions) (dayCoverage candidates day boundaryLagResolver)
      (fun coverage s => Snapshotted now versions s ∧
        ∀ v, coverage = .covered v → Confident s candidates day v)
      (Snapshotted now versions) := by
  have hcrossing : ∀ reason, Triple (Snapshotted now versions)
      (Pure.pure (DayCoverage.crossing reason) : Session Store DayCoverage)
      (fun coverage s => Snapshotted now versions s ∧
        ∀ v, coverage = .covered v → Confident s candidates day v)
      (Snapshotted now versions) :=
    fun reason => .pure fun s h => ⟨h, fun v hv => by cases hv⟩
  unfold dayCoverage
  split
  · rename_i atStart atEnd hstart hend
    obtain ⟨hmem, hcoversStart⟩ := version_covering_some hstart
    have hbegan : atStart.opened ≤ dayStart day := (covers_iff.mp hcoversStart).1
    have hlong : dayStart day ≤ dayEnd day := by
      simp only [dayEnd, dayMicros]
      omega
    split
    · exact hcrossing none
    · split
      · -- an open version covers the scan of this run
        rename_i hopen
        refine .pure fun s h => ⟨h, fun v hv => ?_⟩
        cases hv
        refine ⟨hmem, hbegan, now, hday, covers_iff.mpr ⟨by omega, fun closed hclosed => ?_⟩,
          h.completed⟩
        rw [hopen] at hclosed
        cases hclosed
      · -- a closed version covers the last scan before the one that closed it
        rename_i validTo hclosed
        have hlag : Triple (Snapshotted now versions) (boundaryLagResolver validTo)
            (fun gap s => Snapshotted now versions s ∧
              ∀ lag, gap = some lag → ScanCompleted s.sightings (validTo - lag) ∧
                validTo - lag < validTo)
            (Snapshotted now versions) :=
          .query (fun s h => ⟨h, fun lag hgap => previous_gap_completed h.attributed.scans hgap⟩)
            fun _ h => h
        refine hlag.bind fun gap => ?_
        cases gap with
        | none => exact (hcrossing _).weaken (fun s h => h.1) (fun _ _ h => h) fun _ h => h
        | some lag =>
          dsimp only
          split
          · exact (hcrossing _).weaken (fun s h => h.1) (fun _ _ h => h) fun _ h => h
          · rename_i hearly
            refine .pure fun s h => ⟨h.1, fun v hv => ?_⟩
            cases hv
            obtain ⟨hcompleted, hlt⟩ := h.2 lag rfl
            refine ⟨hmem, hbegan, validTo - lag, by omega,
              covers_iff.mpr ⟨by omega, fun closed hsome => ?_⟩, hcompleted⟩
            rw [hclosed] at hsome
            cases hsome
            exact hlt
  · exact hcrossing none

/-- The versions of a rule that a day is matched with are among the versions of the store. -/
def EntryOf (versions : List VersionRow) (entry : String × List VersionRow) : Prop :=
  ∀ v ∈ entry.2, v ∈ versions ∧ v.key = entry.1

theorem Snapshotted.record_attribution {s : Store} {entry : String × List VersionRow}
    {v : VersionRow} (h : Snapshotted now versions s) (hentry : EntryOf versions entry)
    (hv : Confident s entry.2 day v) :
    Snapshotted now versions (recordAttribution day entry.1 v s) := by
  refine ⟨⟨h.attributed.versions, h.attributed.scans, fun a ha => ?_⟩, h.completed, h.same⟩
  obtain hold | hnew := mem_append.mp ha
  · exact h.attributed.grounded a hold
  · rw [mem_singleton.mp hnew]
    obtain ⟨hmem, hkey⟩ := hentry v hv.mem
    obtain ⟨instant, hafter, hcovers, hcompleted⟩ := hv.after
    have hobserved := hcompleted.observed entry.1
    have hle : instant ≤ now := by
      obtain ⟨fp, hsaw⟩ | ⟨seen, hmissed, -⟩ := hobserved
      · exact h.attributed.versions.seenBy _ hsaw
      · exact h.attributed.versions.seenBy _ hmissed
    refine ⟨v, ?_, instant, hle, hkey, rfl, rfl, hv.before, hafter, hcovers, hobserved⟩
    show v ∈ s.versions
    rw [h.same]
    exact hmem

theorem cover_rule_spec {entry : String × List VersionRow} (hentry : EntryOf versions entry)
    (hday : dayEnd day ≤ now) :
    Triple (Snapshotted now versions) (coverRule day entry) (fun _ => Snapshotted now versions)
      (Snapshotted now versions) := by
  refine (day_coverage_spec entry.2 hday).bind fun coverage => ?_
  cases coverage with
  | crossing reason => exact .pure fun s h => h.1
  | covered version =>
    have hnote : Triple
        (fun s => Snapshotted now versions s ∧
          ∀ v, DayCoverage.covered version = .covered v → Confident s entry.2 day v)
        (note (recordAttribution day entry.1 version)) (fun _ => Snapshotted now versions)
        (Snapshotted now versions) :=
      .note fun s h => h.1.record_attribution hentry (h.2 version rfl)
    exact hnote.bind fun _ => .pure fun s h => h

theorem commit_day_spec (rows : List (String × ActivityRow)) {scanRun : ScanRunRow}
    (hscan : scanRun.succeededAt = some now) :
    Triple (Snapshotted now versions) (commitDay day rows scanRun)
      (fun _ => Snapshotted now versions) (Snapshotted now versions) := by
  have hdelete : Triple (Snapshotted now versions) (exec (deleteActivity day))
      (fun _ => Snapshotted now versions) (Snapshotted now versions) := by
    refine .exec (fun s s' h hok => ?_) fun _ h => h
    cases hok
    exact h.frame rfl rfl rfl fun row hrow => .inl hrow
  have hinsert : ∀ entry : String × ActivityRow, Triple (Snapshotted now versions)
      (exec (insertActivity day entry.1 entry.2)) (fun _ => Snapshotted now versions)
      (Snapshotted now versions) := by
    refine fun entry => .exec (fun s s' h hok => ?_) fun _ h => h
    unfold insertActivity at hok
    split at hok
    · cases hok
    · cases hok
      exact h.frame rfl rfl rfl fun row hrow => .inl hrow
  have hrun : Triple (Snapshotted now versions) (exec (insertScanRun scanRun))
      (fun _ => Snapshotted now versions) (Snapshotted now versions) := by
    refine .exec (fun s s' h hok => ?_) fun _ h => h
    cases hok
    refine h.frame rfl rfl rfl fun row hrow => ?_
    obtain hrow | hrow := mem_append.mp hrow
    · exact .inl hrow
    · refine .inr fun startedAt hstarted => ?_
      rw [mem_singleton.mp hrow, hscan] at hstarted
      exact (Option.some.inj hstarted).symm
  have hloop : Triple (Snapshotted now versions)
      (forEach (fun entry => exec (insertActivity day entry.1 entry.2)) rows)
      (fun _ => Snapshotted now versions) (Snapshotted now versions) :=
    .forEach (fun _ _ => Snapshotted now versions) fun _ entry _ _ _ => hinsert entry
  have hbody := hdelete.bind fun _ => hloop.bind fun _ => hrun
  exact .transaction (hbody.weaken (fun _ h => h) (fun _ _ h => h) fun _ _ => trivial) fun _ h => h

theorem process_day_spec (U : Text.Unicode) (flows : List Flow)
    {ruleVersionsById : List (String × List VersionRow)}
    (hentries : ∀ entry ∈ ruleVersionsById, EntryOf versions entry) (hday : dayEnd day ≤ now)
    (membershipsByVpc : List (String × List Membership)) (staleVpcs : List String)
    (flags : CoverageFlags) (peeredOrShared : String → List String) :
    Triple (Snapshotted now versions)
      (processDay U day flows ruleVersionsById membershipsByVpc staleVpcs flags peeredOrShared now)
      (fun _ => Snapshotted now versions) (Snapshotted now versions) := by
  have hcover : Triple (Snapshotted now versions) (forEach (coverRule day) ruleVersionsById)
      (fun _ => Snapshotted now versions) (Snapshotted now versions) := by
    refine .forEach (fun _ _ => Snapshotted now versions) fun done entry rest _ hsplit => ?_
    refine cover_rule_spec (hentries entry ?_) hday
    rw [← hsplit]
    exact mem_append_right _ mem_cons_self
  refine hcover.bind fun covered => ?_
  split
  · exact .raise fun _ h => h
  · exact (commit_day_spec _ rfl).bind fun _ => .pure fun _ h => h

end ProcessDay

section Run

variable {now : Int} {versions : List VersionRow}

theorem entry_of_load_rule_versions {s : Store} {entry : String × List VersionRow}
    (h : entry ∈ loadRuleVersions s) : EntryOf s.versions entry := by
  simp only [loadRuleVersions, groupRows, mem_map] at h
  obtain ⟨ruleId, -, rfl⟩ := h
  intro v hv
  simp only [mem_filter, mem_insertionSort, beq_iff_eq] at hv
  exact hv

theorem write_failed_run_spec (U : Text.Unicode) (day : Int) (reason : Option String)
    (errorCode : String) :
    Triple (Snapshotted now versions) (writeFailedRun U day reason errorCode)
      (fun _ => Snapshotted now versions) (Snapshotted now versions) := by
  refine .exec (fun s s' h hok => ?_) fun _ h => h
  cases hok
  refine h.frame rfl rfl rfl fun row hrow => ?_
  obtain hrow | hrow := mem_append.mp hrow
  · exact .inl hrow
  · refine .inr fun startedAt hstarted => ?_
    rw [mem_singleton.mp hrow] at hstarted
    cases hstarted

theorem scan_days_attributed (cfg : Config) (x : RunInput) (source : FlowSource)
    (truncated : Bool) :
    Triple (Snapshotted x.now versions) (scanDays cfg x source truncated)
      (fun _ => Snapshotted x.now versions) (Snapshotted x.now versions) := by
  have hwatermark : Triple (Snapshotted x.now versions) (query lastCommittedDay)
      (fun _ => Snapshotted x.now versions) (Snapshotted x.now versions) :=
    .query (fun _ h => h) fun _ h => h
  have hload : Triple (Snapshotted x.now versions) (query loadRuleVersions)
      (fun ruleVersions s => Snapshotted x.now versions s ∧
        ∀ entry ∈ ruleVersions, EntryOf versions entry)
      (Snapshotted x.now versions) :=
    .query (fun s h => ⟨h, fun entry hentry => h.same ▸ entry_of_load_rule_versions hentry⟩)
      fun _ h => h
  refine hwatermark.bind fun watermark => hload.bind fun ruleVersions =>
    .assuming (fun s h => h.2) fun hentries => ?_
  have hloop : Triple (Snapshotted x.now versions)
      (forEach (scanDay cfg x truncated ruleVersions)
        (daysToRun cfg x.now watermark source.createdDay))
      (fun _ => Snapshotted x.now versions) (Snapshotted x.now versions) :=
    .forEach (fun _ _ => Snapshotted x.now versions) fun _ day _ _ _ =>
      scan_day_rule cfg x truncated ruleVersions day (fun _ h => h) (fun _ h => h)
        (write_failed_run_spec cfg.U day) fun heligible flows membershipsByVpc staleVpcs flags =>
          process_day_spec cfg.U flows hentries (day_end_le_of_eligible heligible)
            membershipsByVpc staleVpcs flags
  exact (hloop.weaken (fun s h => h.1) (fun _ _ h => h) fun _ h => h).bind fun _ => .pure fun _ h => h

/-- What a run keeps before it has recorded its snapshot. -/
structure Pending (now : Int) (s : Store) : Prop where
  versions : VersionsValid now s.versions s.sightings
  scans : ScansCompleted s
  grounded : AllGrounded (· < now) s

theorem Attributed.pending {earlier : Int} {s : Store} (h : Attributed earlier s)
    (hlt : earlier < now) : Pending now s := by
  refine ⟨h.versions.mono hlt.le, h.scans, fun a ha => ?_⟩
  obtain ⟨v, hv, instant, hle, hgrounds⟩ := h.grounded a ha
  exact ⟨v, hv, instant, lt_of_le_of_lt hle hlt, hgrounds⟩

theorem Attributed.mono {earlier : Int} {s : Store} (h : Attributed earlier s)
    (hle : earlier ≤ now) : Attributed now s := by
  refine ⟨h.versions.mono hle, h.scans, fun a ha => ?_⟩
  obtain ⟨v, hv, instant, hinstant, hgrounds⟩ := h.grounded a ha
  exact ⟨v, hv, instant, hinstant.trans hle, hgrounds⟩

theorem Pending.attributed {s : Store} (h : Pending now s) : Attributed now s := by
  refine ⟨h.versions, h.scans, fun a ha => ?_⟩
  obtain ⟨v, hv, instant, hlt, hgrounds⟩ := h.grounded a ha
  exact ⟨v, hv, instant, hlt.le, hgrounds⟩

theorem upsert_attributed (sha256 : String → String) (rules : List RuleSnapshot)
    (groupVpcMap : List (String × String)) :
    Triple (Pending now) (upsertInventoryAndVersions sha256 rules now groupVpcMap)
      (fun _ s => Snapshotted now s.versions s) (Attributed now) := by
  have hspec := (upsert_spec sha256 rules now groupVpcMap).and
    (upsert_keeps (fun s s' hstep => recording_step_keeps hstep) sha256 rules groupVpcMap)
  refine hspec.weaken (fun s h => ⟨h.versions, h.scans, h.grounded⟩) (fun _ s h => ?_) fun s h => ?_
  · have hpending : Pending now s := ⟨h.1.1, h.2.1, h.2.2⟩
    exact ⟨hpending.attributed, h.1.2.1, rfl⟩
  · exact Pending.attributed ⟨h.1, h.2.1, h.2.2⟩

/-- A run that comes after everything kept so far keeps it, whole or cut short. -/
theorem run_attributed (cfg : Config) (x : RunInput) :
    Triple (Pending x.now) (run cfg x) (fun _ => Attributed x.now) (Attributed x.now) := by
  refine run_rule (fun s => Snapshotted x.now s.versions s) cfg x (fun _ h => h.attributed)
    (fun _ h => h.attributed) (fun rules groupVpcMap => upsert_attributed cfg.sha256 rules groupVpcMap)
    (fun membership => .exec (fun s s' h hok => ?_) fun _ h => h.attributed)
    (fun validation => .exec (fun s s' h hok => ?_) fun _ h => h.attributed)
    fun source truncated => .naming (·.versions) fun versions => ?_
  · unfold insertEniSnapshot at hok
    split at hok
    · cases hok
      exact h
    · cases hok
      exact h.frame rfl rfl rfl fun row hrow => .inl hrow
  · cases hok
    exact h.frame rfl rfl rfl fun row hrow => .inl hrow
  · exact (scan_days_attributed cfg x source truncated).weaken (fun s h => h.2 ▸ h.1)
      (fun _ _ h => h.attributed) fun _ h => h.attributed

theorem attributed_after (cfg : Config) (source : FlowSource) (events : List Event)
    (hincreasing : (runsOf events).Pairwise fun earlier later => earlier.now < later.now)
    (now : Int) (hnow : ∀ x ∈ runsOf events, x.now ≤ now) :
    Attributed now (storeAfterEvents cfg source events) := by
  induction events using List.reverseRecOn generalizing now with
  | nil =>
    exact ⟨.nil now, fun _ h => (not_mem_nil h).elim, fun _ h => (not_mem_nil h).elim⟩
  | append_singleton earlier last ih =>
    rw [runsOf, filterMap_append] at hincreasing hnow
    obtain ⟨hearlier, -, hlast⟩ := pairwise_append.mp hincreasing
    rw [storeAfterEvents, foldl_append]
    cases last with
    | configure enabled validation =>
      have hbefore := ih hearlier now fun x hx => hnow x (mem_append_left _ hx)
      exact ⟨hbefore.versions, hbefore.scans, hbefore.grounded⟩
    | run x =>
      have hbefore := ih hearlier (x.now - 1) fun other hother => by
        have := hlast other hother x (mem_singleton.mpr rfl)
        omega
      have hafter := (run_attributed cfg x).store x.faults _ 0 (hbefore.pending (by omega))
      exact hafter.mono (hnow x (mem_append_right _ (mem_singleton.mpr rfl)))

end Run

/-- What the scans around a day saw of a rule when the day is attributed to a version of it. -/
structure AttributionSound (log : List Sighting) (a : Attribution) : Prop where
  before : ∃ instant, IsGreatest {t | t ≤ dayStart a.day ∧ Observed log t a.ruleId} instant ∧
    Saw log instant a.ruleId a.fingerprint
  inside : ∀ instant, dayStart a.day ≤ instant → instant < dayEnd a.day →
    Observed log instant a.ruleId → Saw log instant a.ruleId a.fingerprint
  after : ∃ instant, IsLeast {t | dayEnd a.day ≤ t ∧ Observed log t a.ruleId} instant ∧
    Saw log instant a.ruleId a.fingerprint

theorem observed_finite (log : List Sighting) (ruleId : String) :
    {t | Observed log t ruleId}.Finite := by
  refine (finite_toSet (log.map Sighting.instant)).subset fun t ht => ?_
  obtain ⟨fp, hsaw⟩ | ⟨seen, hmissed, -⟩ := ht
  · exact mem_map.mpr ⟨_, hsaw, rfl⟩
  · exact mem_map.mpr ⟨_, hmissed, rfl⟩

theorem Grounds.covers_start {log : List Sighting} {a : Attribution} {v : VersionRow}
    {later : Int} (h : Grounds log a v later) : v.covers (dayStart a.day) = true := by
  have hafter := h.after
  refine covers_iff.mpr ⟨h.before, fun closed hclosed => ?_⟩
  have hlater := (covers_iff.mp h.covers).2 closed hclosed
  simp only [dayEnd, dayMicros] at hafter
  omega

theorem Grounds.sound {now : Int} {s : Store} (hvalid : VersionsValid now s.versions s.sightings)
    {a : Attribution} {v : VersionRow} (hv : v ∈ s.versions) {later : Int}
    (h : Grounds s.sightings a v later) : AttributionSound s.sightings a := by
  have hlong : dayStart a.day ≤ dayEnd a.day := by
    simp only [dayEnd, dayMicros]
    omega
  -- between the opening of the version and the scan after the day, every scan saw the version
  have hsaw : ∀ t, v.opened ≤ t → t ≤ later → Observed s.sightings t a.ruleId →
      Saw s.sightings t a.ruleId a.fingerprint := by
    intro t hlow hhigh hobserved
    rw [← h.key, ← h.fingerprint] at *
    refine hvalid.faithful v hv t (covers_iff.mpr ⟨hlow, fun closed hclosed => ?_⟩) hobserved
    exact lt_of_le_of_lt hhigh ((covers_iff.mp h.covers).2 closed hclosed)
  refine ⟨?_, fun t hlow hhigh hobserved => ?_, ?_⟩
  · have hopened : Observed s.sightings v.opened a.ruleId := by
      rw [← h.key]
      exact .inl ⟨_, hvalid.opened v hv⟩
    obtain ⟨t, ht, hmax⟩ := Set.exists_max_image {t | t ≤ dayStart a.day ∧
      Observed s.sightings t a.ruleId} id
      ((observed_finite s.sightings a.ruleId).subset fun t ht => ht.2) ⟨_, h.before, hopened⟩
    have hlate : v.opened ≤ t := hmax v.opened ⟨h.before, hopened⟩
    exact ⟨t, ⟨ht, fun t' ht' => hmax t' ht'⟩, hsaw t hlate (by have := ht.1; have := h.after; omega)
      ht.2⟩
  · have hbefore := h.before
    have hafter := h.after
    exact hsaw t (by omega) (by omega) hobserved
  · obtain ⟨t, ht, hmin⟩ := Set.exists_min_image {t | dayEnd a.day ≤ t ∧
      Observed s.sightings t a.ruleId} id
      ((observed_finite s.sightings a.ruleId).subset fun t ht => ht.2) ⟨_, h.after, h.observed⟩
    have hearly : t ≤ later := hmin later ⟨h.after, h.observed⟩
    have hbefore := h.before
    exact ⟨t, ⟨ht, fun t' ht' => hmin t' ht'⟩, hsaw t (by have := ht.1; omega) hearly ht.2⟩

/-- Whenever a scan attributes a day to a version of a rule, the last scan up to the day, every
scan within it and the first scan after it saw the rule with the fingerprint of that version, and
no scan ever attributes the day to another version. -/
theorem day_attribution_sound (cfg : Config) (source : FlowSource) (events : List Event)
    (hincreasing : (runsOf events).Pairwise fun earlier later => earlier.now < later.now) :
    let s := storeAfterEvents cfg source events
    (∀ a ∈ s.attributions, AttributionSound s.sightings a) ∧
      ∀ a ∈ s.attributions, ∀ b ∈ s.attributions, a.ruleId = b.ruleId → a.day = b.day →
        a.validFrom = b.validFrom ∧ a.fingerprint = b.fingerprint := by
  intro s
  obtain ⟨now, hnow⟩ := exists_latest RunInput.now (runsOf events)
  have h := attributed_after cfg source events hincreasing now hnow
  refine ⟨fun a ha => ?_, fun a ha b hb hrule hday => ?_⟩
  · obtain ⟨v, hv, later, -, hgrounds⟩ := h.grounded a ha
    exact hgrounds.sound h.versions hv
  · obtain ⟨v, hv, later, -, hgroundsA⟩ := h.grounded a ha
    obtain ⟨w, hw, later', -, hgroundsB⟩ := h.grounded b hb
    have hkey : v.key = w.key := by rw [hgroundsA.key, hgroundsB.key, hrule]
    have hcoversB := hgroundsB.covers_start
    rw [← hday] at hcoversB
    have hsame := h.versions.ordered.covers_unique hv hw hkey hgroundsA.covers_start hcoversB
    rw [← hgroundsA.opened, ← hgroundsB.opened, ← hgroundsA.fingerprint, ← hgroundsB.fingerprint,
      hsame]
    exact ⟨rfl, rfl⟩

/-- After three daily scans of one rule, the last full day is attributed to its version. -/
theorem day_attribution_sound_three_scans :
    let rule : DescribedRule := ⟨"sgr-01", "sg-0a", false, some "tcp", some 443, some 443,
      some "10.0.0.0/8", none, none, none, none⟩
    let fingerprint := "a61cac09b0e70e9fd8a6d670a5da4c318d15f938ccaebeff013caab5d9388bbf"
    let cfg : Config := ⟨"111122223333", "ap-northeast-2", "111122223333", 6, 3, 2, .ascii,
      fun _ => fingerprint⟩
    let source : FlowSource :=
      ⟨true, datedValidation, 0⟩
    let scanAt (now : Int) : Event := .run ⟨now, true, .ok [[rule]], .ok [], some "broker",
      .error "", fun _ => [.ok (.page [] none true)], fun _ => none⟩
    let hours : Int := 3600000000
    let s := storeAfterEvents cfg source
      [scanAt (32 * hours), scanAt (56 * hours), scanAt (80 * hours)]
    s.attributions = [⟨2, "sgr-01", 32 * hours, fingerprint⟩] ∧
      (∀ a ∈ s.attributions, AttributionSound s.sightings a) := by
  intro rule fingerprint cfg source scanAt hours s
  have h := day_attribution_sound cfg source
    [scanAt (32 * hours), scanAt (56 * hours), scanAt (80 * hours)] (by decide)
  exact ⟨by decide, h.1⟩

end AwsOps.SgRules
