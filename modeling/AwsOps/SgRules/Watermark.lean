import AwsOps.SgRules.Attribution
import Mathlib.Order.Interval.Set.OrdConnected
import Mathlib.Data.Int.ConditionallyCompleteOrder
import Mathlib.Order.ConditionallyCompleteLattice.Basic

/-!
# Committed days

The days of the succeeded scans of a source and the watermark, their greatest. A run commits the
day after the watermark and then goes through its trailing window, each day in its own transaction.
While the window reaches at most one day below the committed days they stay one interval, which is
`committed_days_contiguous`; a longer window skips a day when one of its days fails. Besides, a
day is committed only when it is due, a failed day leaves the rows as they were, and scanning a day
again replaces its rows.
-/

namespace AwsOps.SgRules

open List AwsOps.Session AwsOps.Calendar

def committedDays (runs : List ScanRunRow) : Set Int :=
  {day | ∃ row ∈ runs, row.succeededAt.isSome = true ∧ dayOf row.partitionStart = day}

/-- The committed days are one interval that ends at the watermark. -/
structure CommittedInterval (s : Store) : Prop where
  empty : lastCommittedDay s = none → committedDays s.scanRuns = ∅
  interval : ∀ last, lastCommittedDay s = some last →
    ∃ first ≤ last, committedDays s.scanRuns = Set.Icc first last

/-- Every succeeded scan of a day started when the day was due. -/
def LagRespected (cfg : Config) (runs : List ScanRunRow) : Prop :=
  ∀ row ∈ runs, ∀ startedAt, row.succeededAt = some startedAt →
    eligibleFrom cfg.deliveryLagHours (dayOf row.partitionStart) ≤ startedAt

/-- The trailing window reaches at most one day below the committed days. -/
def WindowWithin (cfg : Config) (s : Store) : Prop :=
  ∀ day ∈ rescanWindowDays (lastCommittedDay s) cfg.rescanWindowDays,
    ∃ committed ∈ committedDays s.scanRuns, committed ≤ day + 1

section Days

variable {s : Store} {runs : List ScanRunRow}

theorem last_committed_day_greatest {last : Int} (h : lastCommittedDay s = some last) :
    IsGreatest (committedDays s.scanRuns) last := by
  unfold lastCommittedDay at h
  constructor
  · obtain ⟨row, hrow, hday⟩ := mem_map.mp (List.max?_mem h)
    obtain ⟨hmem, hsucceeded⟩ := mem_filter.mp hrow
    exact ⟨row, hmem, hsucceeded, hday⟩
  · rintro day ⟨row, hrow, hsucceeded, rfl⟩
    refine (List.max?_eq_some_iff.mp h).2 _ ?_
    exact mem_map_of_mem (mem_filter.mpr ⟨hrow, hsucceeded⟩)

theorem last_committed_day_none (h : lastCommittedDay s = none) : committedDays s.scanRuns = ∅ := by
  simp only [lastCommittedDay, List.max?_eq_none_iff, map_eq_nil_iff, filter_eq_nil_iff] at h
  refine Set.eq_empty_iff_forall_notMem.mpr ?_
  rintro day ⟨row, hrow, hsucceeded, -⟩
  exact h row hrow hsucceeded

theorem committed_days_succeeded {row : ScanRunRow} {startedAt : Int}
    (hrow : row.succeededAt = some startedAt) :
    committedDays (runs ++ [row]) = insert (dayOf row.partitionStart) (committedDays runs) := by
  ext day
  constructor
  · rintro ⟨r, hr, hsucceeded, rfl⟩
    obtain hr | hr := mem_append.mp hr
    · exact .inr ⟨r, hr, hsucceeded, rfl⟩
    · rw [mem_singleton.mp hr]
      exact Set.mem_insert _ _
  · rintro (rfl | ⟨r, hr, hsucceeded, rfl⟩)
    · exact ⟨row, mem_append_right _ (mem_singleton.mpr rfl), by rw [hrow]; rfl, rfl⟩
    · exact ⟨r, mem_append_left _ hr, hsucceeded, rfl⟩

theorem committed_days_failed {row : ScanRunRow} (hrow : row.succeededAt = none) :
    committedDays (runs ++ [row]) = committedDays runs := by
  ext day
  constructor
  · rintro ⟨r, hr, hsucceeded, rfl⟩
    obtain hr | hr := mem_append.mp hr
    · exact ⟨r, hr, hsucceeded, rfl⟩
    · rw [mem_singleton.mp hr, hrow] at hsucceeded
      cases hsucceeded
  · rintro ⟨r, hr, hsucceeded, rfl⟩
    exact ⟨r, mem_append_left _ hr, hsucceeded, rfl⟩

theorem committed_days_finite (runs : List ScanRunRow) : (committedDays runs).Finite := by
  refine (finite_toSet (runs.map fun row => dayOf row.partitionStart)).subset ?_
  rintro day ⟨row, hrow, -, rfl⟩
  exact mem_map.mpr ⟨row, hrow, rfl⟩

theorem committed_interval_of_ord_connected (h : (committedDays s.scanRuns).OrdConnected) :
    CommittedInterval s := by
  refine ⟨last_committed_day_none, fun last hlast => ?_⟩
  have hgreatest := last_committed_day_greatest hlast
  obtain ⟨first, hfirst, hmin⟩ := Set.exists_min_image (committedDays s.scanRuns) id
    (committed_days_finite s.scanRuns) ⟨last, hgreatest.1⟩
  refine ⟨first, hmin last hgreatest.1, Set.Subset.antisymm (fun day hday => ?_) ?_⟩
  · exact ⟨hmin day hday, hgreatest.2 hday⟩
  · exact h.out hfirst hgreatest.1

theorem CommittedInterval.ord_connected (h : CommittedInterval s) :
    (committedDays s.scanRuns).OrdConnected := by
  cases hlast : lastCommittedDay s with
  | none =>
    rw [h.empty hlast]
    exact Set.ordConnected_empty
  | some last =>
    obtain ⟨first, -, hdays⟩ := h.interval last hlast
    rw [hdays]
    exact Set.ordConnected_Icc

theorem ord_connected_insert {days : Set Int} (h : days.OrdConnected) {day : Int}
    (hlow : ∃ d ∈ days, d ≤ day + 1) (hhigh : ∃ d ∈ days, day ≤ d + 1) :
    (insert day days).OrdConnected := by
  obtain ⟨low, hlowMem, hlow⟩ := hlow
  obtain ⟨high, hhighMem, hhigh⟩ := hhigh
  refine ⟨fun x hx y hy z hz => ?_⟩
  obtain ⟨hxz, hzy⟩ := hz
  by_cases hz : z = day
  · exact .inl hz
  · refine .inr ?_
    obtain rfl | hx := hx
    · obtain rfl | hy := hy
      · exact absurd (le_antisymm hzy hxz) hz
      · exact h.out hlowMem hy ⟨by omega, hzy⟩
    · obtain rfl | hy := hy
      · exact h.out hx hhighMem ⟨hxz, by omega⟩
      · exact h.out hx hy ⟨hxz, hzy⟩

end Days

section Effect

variable {runs : List ScanRunRow} {activity : String → Int → Option ActivityRow}

/-- The tables that a day reads and writes. -/
def Tables (runs : List ScanRunRow) (activity : String → Int → Option ActivityRow) (s : Store) :
    Prop :=
  s.scanRuns = runs ∧ s.activity = activity

/-- The resolver over given scans. -/
def gapBefore (runs : List ScanRunRow) (before : Int) : Option Int :=
  previousSuccessfulScanGap before { Store.empty with scanRuns := runs }

/-- The coverage of a rule over given scans. -/
def coverageOver (runs : List ScanRunRow) (day : Int) (entry : String × List VersionRow) :
    String × List VersionRow × DayCoverage :=
  (entry.1, entry.2, Id.run (dayCoverage entry.2 day fun validTo => pure (gapBefore runs validTo)))

def replaceDay (activity : String → Int → Option ActivityRow) (day : Int)
    (rows : List (String × ActivityRow)) (ruleId : String) (d : Int) : Option ActivityRow :=
  if d = day then rows.lookup ruleId else activity ruleId d

theorem cover_rule_effect (day : Int) (entry : String × List VersionRow) :
    Triple (Tables runs activity) (coverRule day entry)
      (fun covered s => Tables runs activity s ∧ covered = coverageOver runs day entry)
      (Tables runs activity) := by
  have hcoverage : Triple (Tables runs activity)
      (dayCoverage entry.2 day boundaryLagResolver)
      (fun coverage s => Tables runs activity s ∧ coverage = (coverageOver runs day entry).2.2)
      (Tables runs activity) := by
    unfold coverageOver dayCoverage
    split
    · split
      · exact .pure fun s h => ⟨h, rfl⟩
      · split
        · exact .pure fun s h => ⟨h, rfl⟩
        · rename_i validTo hclosed
          have hlag : Triple (Tables runs activity) (boundaryLagResolver validTo)
              (fun gap s => Tables runs activity s ∧ gap = gapBefore runs validTo)
              (Tables runs activity) := by
            refine .query (fun s h => ⟨h, ?_⟩) fun _ h => h
            simp only [gapBefore, previousSuccessfulScanGap, h.1]
          refine hlag.bind fun gap => .assuming (fun s h => h.2) fun hgap => ?_
          cases gap with
          | none => exact .pure fun s h => ⟨h.1, by simp [← hgap]⟩
          | some lag =>
            dsimp only
            split
            · rename_i hearly
              exact .pure fun s h => ⟨h.1, by simp [← hgap, hearly]⟩
            · rename_i hlate
              exact .pure fun s h => ⟨h.1, by simp [← hgap, hlate]⟩
    · exact .pure fun s h => ⟨h, rfl⟩
  refine hcoverage.bind fun coverage => .assuming (fun s h => h.2) fun hsame => ?_
  have hreturn : (entry.1, entry.2, coverage) = coverageOver runs day entry := by
    rw [hsame]
    rfl
  cases coverage with
  | crossing reason => exact .pure fun s h => ⟨h.1, hreturn⟩
  | covered version =>
    have hnote : Triple (fun s => Tables runs activity s ∧ DayCoverage.covered version =
        (coverageOver runs day entry).2.2) (note (recordAttribution day entry.1 version))
        (fun _ => Tables runs activity) (Tables runs activity) :=
      .note fun s h => h.1
    exact hnote.bind fun _ => .pure fun s h => ⟨h, hreturn⟩

theorem commit_day_effect (day : Int) (rows : List (String × ActivityRow)) (scanRun : ScanRunRow) :
    Triple (Tables runs activity) (commitDay day rows scanRun)
      (fun _ => Tables (runs ++ [scanRun]) (replaceDay activity day rows))
      (Tables runs activity) := by
  have hdelete : Triple (Tables runs activity) (exec (deleteActivity day))
      (fun _ => Tables runs (replaceDay activity day [])) (fun _ => True) := by
    refine .exec (fun s s' h hok => ?_) fun _ _ => trivial
    cases hok
    refine ⟨h.1, ?_⟩
    funext ruleId d
    simp [replaceDay, h.2]
  have hinsert : Triple (Tables runs (replaceDay activity day []))
      (forEach (fun entry => exec (insertActivity day entry.1 entry.2)) rows)
      (fun _ => Tables runs (replaceDay activity day rows)) (fun _ => True) := by
    refine .forEach (fun done _ => Tables runs (replaceDay activity day done))
      fun done (inserted, row) rest _ _ => .exec (fun s s' h hok => ?_) fun _ _ => trivial
    unfold insertActivity at hok
    split at hok
    · cases hok
    · rename_i hfresh
      cases hok
      refine ⟨h.1, ?_⟩
      rw [h.2, replaceDay, if_pos rfl, Bool.not_eq_true, Option.isSome_eq_false_iff,
        Option.isNone_iff_eq_none] at hfresh
      funext ruleId d
      simp only [replaceDay, h.2, lookup_append]
      by_cases hday : d = day
      · by_cases hrule : ruleId = inserted
        · simp [hday, hrule, hfresh]
        · have hother : (ruleId == inserted) = false := by simpa using hrule
          simp [hday, hrule, lookup_cons, hother]
      · simp [hday]
  have hscan : Triple (Tables runs (replaceDay activity day rows)) (exec (insertScanRun scanRun))
      (fun _ => Tables (runs ++ [scanRun]) (replaceDay activity day rows)) (fun _ => True) := by
    refine .exec (fun s s' h hok => ?_) fun _ _ => trivial
    cases hok
    exact ⟨by rw [h.1], h.2⟩
  exact .transaction (hdelete.bind fun _ => hinsert.bind fun _ => hscan) fun _ h => h

/-- The counters of a day over given scans. -/
def matchDay (U : Text.Unicode) (runs : List ScanRunRow) (day : Int) (flows : List Flow)
    (ruleVersionsById : List (String × List VersionRow))
    (membershipsByVpc : List (String × List Membership)) (staleVpcs : List String)
    (peeredOrShared : String → List String) : Except String DayCounters :=
  flows.foldlM (countFlow U membershipsByVpc staleVpcs peeredOrShared)
    (startDay (ruleVersionsById.map (coverageOver runs day)))

def succeededRun (day : Int) (flows : List Flow)
    (covered : List (String × List VersionRow × DayCoverage)) (counters : DayCounters)
    (observedAt : Int) : ScanRunRow where
  outcome := .succeeded observedAt (anyCrossing covered) counters.unresolvedFlowCount
  partitionStart := dayStart day
  partitionEnd := dayEnd day
  rowsProcessed := flows.length

variable (runs activity) in
/-- What processing a day does to the tables: its rows are replaced by those that its inputs come
to and a succeeded scan is added, or nothing happens. -/
theorem process_day_effect (U : Text.Unicode) (day : Int) (flows : List Flow)
    (ruleVersionsById : List (String × List VersionRow))
    (membershipsByVpc : List (String × List Membership)) (staleVpcs : List String)
    (flags : CoverageFlags) (peeredOrShared : String → List String) (observedAt : Int) :
    Triple (Tables runs activity)
      (processDay U day flows ruleVersionsById membershipsByVpc staleVpcs flags peeredOrShared
        observedAt)
      (fun result s => ∃ counters,
        matchDay U runs day flows ruleVersionsById membershipsByVpc staleVpcs peeredOrShared =
          .ok counters ∧
        let covered := ruleVersionsById.map (coverageOver runs day)
        result = .processed day counters.perRule.length (anyCrossing covered) ∧
        Tables (runs ++ [succeededRun day flows covered counters observedAt])
          (replaceDay activity day (activityRows counters flags covered)) s)
      (Tables runs activity) := by
  have hcover : Triple (Tables runs activity) (forEach (coverRule day) ruleVersionsById)
      (fun covered s => Tables runs activity s ∧
        covered = ruleVersionsById.map (coverageOver runs day))
      (Tables runs activity) :=
    .forEach_map (fun entry => cover_rule_effect day entry) ruleVersionsById
  refine hcover.bind fun covered => .assuming (fun s h => h.2) fun hcovered => ?_
  subst hcovered
  split
  · exact .raise fun _ h => h.1
  · rename_i counters hcounters
    refine Triple.bind ((commit_day_effect day _ _).weaken (fun s h => h.1) (fun _ _ h => h)
      fun _ h => h) fun _ => .pure fun s h => ⟨counters, hcounters, rfl, h⟩

/-- A day that fails leaves the rows and the scans as they were. -/
def FailedDayLeavesRows (cfg : Config) (s : Store) : Prop :=
  ∀ day flows ruleVersionsById membershipsByVpc staleVpcs flags peeredOrShared observedAt faults n e,
    let reply := (processDay cfg.U day flows ruleVersionsById membershipsByVpc staleVpcs flags
      peeredOrShared observedAt).run faults s n
    reply.outcome = .error e →
      reply.store.activity = s.activity ∧ reply.store.scanRuns = s.scanRuns

/-- Processing a day again with the same inputs changes nothing, and its rows do not depend on
those that were there before. -/
def DayReplacesRows (cfg : Config) (observedAt : Int) (s : Store) : Prop :=
  ∀ day flows membershipsByVpc staleVpcs flags peeredOrShared faults n result,
    let process := processDay cfg.U day flows (loadRuleVersions s) membershipsByVpc staleVpcs flags
      peeredOrShared observedAt
    let once := process.run faults s n
    once.outcome = .ok result →
      (∀ ruleId d, d ≠ day → once.store.activity ruleId d = s.activity ruleId d) ∧
      (∀ activity faults' n' result',
        let other := process.run faults' { s with activity := activity } n'
        other.outcome = .ok result' →
          ∀ ruleId, other.store.activity ruleId day = once.store.activity ruleId day) ∧
      ∀ faults' n' result',
        let twice := process.run faults' once.store n'
        twice.outcome = .ok result' →
          twice.store.activity = once.store.activity ∧ result' = result

theorem failed_day_leaves_rows (cfg : Config) (s : Store) : FailedDayLeavesRows cfg s := by
  intro day flows ruleVersionsById membershipsByVpc staleVpcs flags peeredOrShared observedAt faults
    n e reply herror
  have heffect := (process_day_effect s.scanRuns s.activity cfg.U day flows ruleVersionsById
    membershipsByVpc staleVpcs flags peeredOrShared observedAt).raised ⟨rfl, rfl⟩ herror
  exact ⟨heffect.2, heffect.1⟩

theorem gap_before_append {before startedAt : Int} {row : ScanRunRow}
    (hrow : row.succeededAt = some startedAt) (hle : before ≤ startedAt) :
    gapBefore (runs ++ [row]) before = gapBefore runs before := by
  have hlate : ¬ startedAt < before := by omega
  simp [gapBefore, previousSuccessfulScanGap, hrow, hlate]

theorem coverage_over_append {day startedAt : Int} {row : ScanRunRow}
    {entry : String × List VersionRow} (hrow : row.succeededAt = some startedAt)
    (hclosed : ∀ v ∈ entry.2, ∀ closed, v.closed = some closed → closed ≤ startedAt) :
    coverageOver (runs ++ [row]) day entry = coverageOver runs day entry := by
  unfold coverageOver dayCoverage
  split
  · rename_i atStart atEnd hstart hend
    split
    · rfl
    · split
      · rfl
      · rename_i validTo hvalidTo
        have hle := hclosed atStart (version_covering_some hstart).1 validTo hvalidTo
        simp only [gap_before_append hrow hle]
  · rfl

theorem replace_day_twice (activity : String → Int → Option ActivityRow) (day : Int)
    (rows : List (String × ActivityRow)) :
    replaceDay (replaceDay activity day rows) day rows = replaceDay activity day rows := by
  funext ruleId d
  by_cases hday : d = day
  · simp [replaceDay, hday]
  · simp [replaceDay, hday]

theorem day_replaces_rows (cfg : Config) (observedAt : Int) (s : Store)
    (hclosed : ∀ v ∈ s.versions, ∀ closed, v.closed = some closed → closed ≤ observedAt) :
    DayReplacesRows cfg observedAt s := by
  intro day flows membershipsByVpc staleVpcs flags peeredOrShared faults n result process once hok
  have heffect (runs : List ScanRunRow) (activity : String → Int → Option ActivityRow) :=
    process_day_effect runs activity cfg.U day flows (loadRuleVersions s) membershipsByVpc staleVpcs
      flags peeredOrShared observedAt
  obtain ⟨counters, hcounters, hresult, hruns, hactivity⟩ :=
    (heffect s.scanRuns s.activity).returned ⟨rfl, rfl⟩ hok
  refine ⟨?_, ?_, ?_⟩
  · intro ruleId d hother
    rw [hactivity, replaceDay, if_neg hother]
  · intro activity faults' n' result' other hok' ruleId
    have htables : Tables s.scanRuns activity { s with activity := activity } := ⟨rfl, rfl⟩
    obtain ⟨counters', hcounters', -, -, hactivity'⟩ :=
      (heffect s.scanRuns activity).returned htables hok'
    rw [hcounters] at hcounters'
    cases hcounters'
    rw [hactivity, hactivity', replaceDay, replaceDay, if_pos rfl, if_pos rfl]
  · intro faults' n' result' twice hok'
    -- the scan that was added started when the versions had been closed
    have hcovered : ∀ row : ScanRunRow, row.succeededAt = some observedAt →
        (loadRuleVersions s).map (coverageOver (s.scanRuns ++ [row]) day) =
          (loadRuleVersions s).map (coverageOver s.scanRuns day) := by
      refine fun row hrow => map_congr_left fun entry hentry => ?_
      refine coverage_over_append hrow fun v hv => hclosed v ?_
      exact (entry_of_load_rule_versions hentry v hv).1
    obtain ⟨counters', hcounters', hresult', -, hactivity'⟩ :=
      (heffect _ _).returned ⟨hruns, hactivity⟩ hok'
    unfold matchDay at hcounters hcounters'
    rw [hcovered _ rfl] at hcounters' hresult' hactivity'
    rw [hcounters] at hcounters'
    cases hcounters'
    refine ⟨?_, hresult'.trans hresult.symm⟩
    rw [hactivity', hactivity, replace_day_twice]

end Effect

section Progress

variable {cfg : Config} {start : Set Int} {done : List Int} {runs : List ScanRunRow}

/-- What a run keeps of the scans after some of its days: `start` are the days that were committed
before the run. -/
structure Progress (cfg : Config) (start : Set Int) (done : List Int) (runs : List ScanRunRow) :
    Prop where
  lag : LagRespected cfg runs
  connected : (committedDays runs).OrdConnected
  grown : start ⊆ committedDays runs
  only : ∀ day ∈ committedDays runs, day ∈ start ∨ day ∈ done

/-- The day is the first one ever, or next to or among the days committed before the run. -/
def Adjacent (start : Set Int) (done : List Int) (day : Int) : Prop :=
  (start = ∅ ∧ done = []) ∨ ((∃ d ∈ start, d ≤ day + 1) ∧ ∃ d ∈ start, day ≤ d + 1)

theorem Progress.failed (h : Progress cfg start done runs) {row : ScanRunRow}
    (hrow : row.succeededAt = none) : Progress cfg start done (runs ++ [row]) := by
  refine ⟨fun r hr startedAt hstarted => ?_, ?_, ?_, ?_⟩
  · obtain hr | hr := mem_append.mp hr
    · exact h.lag r hr startedAt hstarted
    · rw [mem_singleton.mp hr, hrow] at hstarted
      cases hstarted
  · rw [committed_days_failed hrow]
    exact h.connected
  · rw [committed_days_failed hrow]
    exact h.grown
  · rw [committed_days_failed hrow]
    exact h.only

theorem Progress.skip (h : Progress cfg start done runs) (day : Int) :
    Progress cfg start (done ++ [day]) runs :=
  ⟨h.lag, h.connected, h.grown, fun d hd => (h.only d hd).imp id (mem_append_left _)⟩

theorem Progress.succeeded (h : Progress cfg start done runs) {row : ScanRunRow} {day now : Int}
    (hrow : row.succeededAt = some now) (hday : dayOf row.partitionStart = day)
    (heligible : isDayEligible day now cfg.deliveryLagHours = true)
    (hadjacent : Adjacent start done day) : Progress cfg start (done ++ [day]) (runs ++ [row]) := by
  have hdays : committedDays (runs ++ [row]) = insert day (committedDays runs) :=
    hday ▸ committed_days_succeeded hrow
  refine ⟨fun r hr startedAt hstarted => ?_, ?_, ?_, ?_⟩
  · obtain hr | hr := mem_append.mp hr
    · exact h.lag r hr startedAt hstarted
    · rw [mem_singleton.mp hr] at hstarted ⊢
      rw [hrow] at hstarted
      cases hstarted
      rw [hday]
      exact of_decide_eq_true heligible
  · rw [hdays]
    obtain ⟨hempty, hdone⟩ | ⟨⟨low, hlowMem, hlow⟩, high, hhighMem, hhigh⟩ := hadjacent
    · have hnone : committedDays runs = ∅ := by
        refine Set.eq_empty_iff_forall_notMem.mpr fun d hd => ?_
        obtain hd | hd := h.only d hd
        · rw [hempty] at hd
          exact hd
        · rw [hdone] at hd
          cases hd
      rw [hnone, insert_empty_eq]
      exact Set.ordConnected_singleton
    · exact ord_connected_insert h.connected ⟨low, h.grown hlowMem, hlow⟩
        ⟨high, h.grown hhighMem, hhigh⟩
  · rw [hdays]
    exact h.grown.trans (Set.subset_insert _ _)
  · rw [hdays]
    rintro d (rfl | hd)
    · exact .inr (mem_append_right _ (mem_singleton.mpr rfl))
    · exact (h.only d hd).imp id (mem_append_left _)

theorem adjacent_days_to_run {s : Store} (hwindow : WindowWithin cfg s) {now createdDay day : Int}
    {rest : List Int}
    (hsplit : done ++ day :: rest = daysToRun cfg now (lastCommittedDay s) createdDay) :
    Adjacent (committedDays s.scanRuns) done day := by
  unfold daysToRun at hsplit
  cases hlast : lastCommittedDay s with
  | none =>
    -- without a watermark the list has at most one day
    rw [hlast, rescanWindowDays, append_nil] at hsplit
    refine .inl ⟨last_committed_day_none hlast, ?_⟩
    have hlength := congrArg List.length hsplit
    rw [length_append, length_cons] at hlength
    refine eq_nil_of_length_eq_zero ?_
    split at hlength
    · rw [length_singleton] at hlength
      omega
    · rw [length_nil] at hlength
      omega
  | some last =>
    have hgreatest := last_committed_day_greatest hlast
    have hmem : day ∈ done ++ day :: rest := mem_append_right _ mem_cons_self
    rw [hsplit, hlast] at hmem
    obtain hnext | hwindowDay := mem_append.mp hmem
    · have hday : day = last + 1 := by
        split at hnext
        · exact mem_singleton.mp hnext
        · cases hnext
      exact .inr ⟨⟨last, hgreatest.1, by omega⟩, last, hgreatest.1, by omega⟩
    · have hle := (mem_rescan_window_days.mp hwindowDay).2
      refine .inr ⟨hwindow day (by rw [hlast]; exact hwindowDay), last, hgreatest.1, by omega⟩

theorem process_day_progress {day now : Int} (flows : List Flow)
    (ruleVersionsById : List (String × List VersionRow))
    (membershipsByVpc : List (String × List Membership)) (staleVpcs : List String)
    (flags : CoverageFlags) (peeredOrShared : String → List String)
    (heligible : isDayEligible day now cfg.deliveryLagHours = true)
    (hadjacent : Adjacent start done day) :
    Triple (fun s => Progress cfg start done s.scanRuns)
      (processDay cfg.U day flows ruleVersionsById membershipsByVpc staleVpcs flags peeredOrShared now)
      (fun _ s => Progress cfg start (done ++ [day]) s.scanRuns)
      (fun s => Progress cfg start done s.scanRuns) := by
  refine .naming (·.scanRuns) fun runs => .naming (·.activity) fun activity =>
    .assuming (fun s h => h.1.2 ▸ h.1.1) fun hprogress => ?_
  refine (process_day_effect runs activity cfg.U day flows ruleVersionsById membershipsByVpc
    staleVpcs flags peeredOrShared now).weaken (fun s h => ⟨h.1.2, h.2⟩) (fun result s h => ?_)
    fun s h => h.1.symm ▸ hprogress
  obtain ⟨counters, -, -, hruns, -⟩ := h
  rw [hruns]
  exact hprogress.succeeded rfl (day_of_day_start day) heligible hadjacent

theorem run_progress (cfg : Config) (x : RunInput) {s₀ : Store}
    (hwindow : WindowWithin cfg s₀) (hlag : LagRespected cfg s₀.scanRuns)
    (hconnected : (committedDays s₀.scanRuns).OrdConnected) :
    Triple (fun s => s.scanRuns = s₀.scanRuns) (run cfg x)
      (fun _ s => ∃ done, Progress cfg (committedDays s₀.scanRuns) done s.scanRuns)
      (fun s => ∃ done, Progress cfg (committedDays s₀.scanRuns) done s.scanRuns) := by
  have hstart : ∀ s : Store, s.scanRuns = s₀.scanRuns →
      Progress cfg (committedDays s₀.scanRuns) [] s.scanRuns := by
    intro s hs
    rw [hs]
    exact ⟨hlag, hconnected, subset_rfl, fun day hday => .inl hday⟩
  refine run_rule (fun s => s.scanRuns = s₀.scanRuns) cfg x (fun s h => ⟨[], hstart s h⟩)
    (fun s h => ⟨[], hstart s h⟩) (fun rules groupVpcMap => ?_)
    (fun membership => .exec (fun s s' h hok => ?_) fun s h => ⟨[], hstart s h⟩)
    (fun validation => .exec (fun s s' h hok => ?_) fun s h => ⟨[], hstart s h⟩)
    fun source truncated => ?_
  · have hkeeps : Triple (fun s : Store => s.scanRuns = s₀.scanRuns)
        (upsertInventoryAndVersions cfg.sha256 rules x.now groupVpcMap)
        (fun _ s => s.scanRuns = s₀.scanRuns) (fun s => s.scanRuns = s₀.scanRuns) := by
      refine upsert_keeps (fun s s' hstep h => ?_) cfg.sha256 rules groupVpcMap
      cases hstep <;> exact h
    exact hkeeps.weaken (fun _ h => h) (fun _ _ h => h) fun s h => ⟨[], hstart s h⟩
  · unfold insertEniSnapshot at hok
    split at hok <;> cases hok <;> exact h
  · cases hok
    exact h
  · have hwatermark : Triple (fun s : Store => s.scanRuns = s₀.scanRuns) (query lastCommittedDay)
        (fun watermark s => s.scanRuns = s₀.scanRuns ∧ watermark = lastCommittedDay s₀)
        (fun s => ∃ done, Progress cfg (committedDays s₀.scanRuns) done s.scanRuns) :=
      .query (fun s h => ⟨h, by simp only [lastCommittedDay, h]⟩) fun s h => ⟨[], hstart s h⟩
    refine hwatermark.bind fun watermark => .assuming (fun s h => h.2) fun hlast => ?_
    subst hlast
    have hload : Triple (fun s : Store => s.scanRuns = s₀.scanRuns ∧
          lastCommittedDay s₀ = lastCommittedDay s₀) (query loadRuleVersions)
        (fun _ s => Progress cfg (committedDays s₀.scanRuns) [] s.scanRuns)
        (fun s => ∃ done, Progress cfg (committedDays s₀.scanRuns) done s.scanRuns) :=
      .query (fun s h => hstart s h.1) fun s h => ⟨[], hstart s h.1⟩
    refine hload.bind fun ruleVersions => ?_
    have hloop : Triple (fun s => Progress cfg (committedDays s₀.scanRuns) [] s.scanRuns)
        (forEach (scanDay cfg x truncated ruleVersions)
          (daysToRun cfg x.now (lastCommittedDay s₀) source.createdDay))
        (fun _ s => Progress cfg (committedDays s₀.scanRuns)
          (daysToRun cfg x.now (lastCommittedDay s₀) source.createdDay) s.scanRuns)
        (fun s => ∃ done, Progress cfg (committedDays s₀.scanRuns) done s.scanRuns) := by
      refine .forEach
        (fun done _ (s : Store) => Progress cfg (committedDays s₀.scanRuns) done s.scanRuns)
        fun done day rest _ hsplit => ?_
      refine scan_day_rule cfg x truncated ruleVersions day (fun s h => h.skip day)
        (fun s h => ⟨done, h⟩) (fun reason errorCode => .exec (fun s s' h hok => ?_) fun _ h => h)
        fun heligible flows membershipsByVpc staleVpcs flags peeredOrShared => ?_
      · cases hok
        exact h.failed rfl
      · exact process_day_progress flows ruleVersions membershipsByVpc staleVpcs flags peeredOrShared
          heligible (adjacent_days_to_run hwindow hsplit)
    exact hloop.bind fun _ => .pure fun s h => ⟨_, h⟩

/-- What holds of the committed days after events whose windows stay within them. -/
structure DaysValid (cfg : Config) (s : Store) : Prop where
  lag : LagRespected cfg s.scanRuns
  connected : (committedDays s.scanRuns).OrdConnected

theorem step_days_valid (cfg : Config) {s : Store} (h : DaysValid cfg s) (event : Event)
    (hwindow : ∀ x, event = .run x → WindowWithin cfg s) :
    DaysValid cfg (step cfg s event) ∧
      committedDays s.scanRuns ⊆ committedDays (step cfg s event).scanRuns := by
  cases event with
  | configure enabled validation => exact ⟨⟨h.lag, h.connected⟩, subset_rfl⟩
  | run x =>
    obtain ⟨done, hprogress⟩ :=
      (run_progress cfg x (hwindow x rfl) h.lag h.connected).store x.faults s 0 rfl
    exact ⟨⟨hprogress.lag, hprogress.connected⟩, hprogress.grown⟩

theorem days_valid_after (cfg : Config) (source : FlowSource) (events : List Event)
    (hwindow : ∀ earlier x later, events = earlier ++ .run x :: later →
      WindowWithin cfg (storeAfterEvents cfg source earlier)) :
    DaysValid cfg (storeAfterEvents cfg source events) ∧
      ∀ earlier later, events = earlier ++ later →
        committedDays (storeAfterEvents cfg source earlier).scanRuns ⊆
          committedDays (storeAfterEvents cfg source events).scanRuns := by
  induction events using List.reverseRecOn with
  | nil =>
    have hempty : committedDays (storeAfterEvents cfg source []).scanRuns = ∅ := by
      refine Set.eq_empty_iff_forall_notMem.mpr ?_
      rintro day ⟨row, hrow, -⟩
      cases hrow
    refine ⟨⟨fun row hrow => (not_mem_nil hrow).elim, ?_⟩, fun earlier later hsplit => ?_⟩
    · rw [hempty]
      exact Set.ordConnected_empty
    · rw [(nil_eq_append_iff.mp hsplit).1]
  | append_singleton before event ih =>
    have hbefore := ih fun earlier x later hsplit =>
      hwindow earlier x (later ++ [event]) (by rw [hsplit, append_assoc]; rfl)
    have hstep := step_days_valid cfg hbefore.1 event fun x hx =>
      hwindow before x [] (by rw [hx])
    have hlast : storeAfterEvents cfg source (before ++ [event]) =
        step cfg (storeAfterEvents cfg source before) event := by
      rw [storeAfterEvents, foldl_append]
      rfl
    rw [hlast]
    refine ⟨hstep.1, fun earlier later hsplit => ?_⟩
    obtain rfl | ⟨later', last, rfl⟩ := eq_nil_or_concat later
    · rw [append_nil] at hsplit
      rw [← hsplit, hlast]
    · rw [concat_eq_append, ← append_assoc] at hsplit
      obtain ⟨hbeforeSplit, -⟩ := append_inj' hsplit rfl
      exact (hbefore.2 earlier later' hbeforeSplit).trans hstep.2

theorem watermark_mono {s s' : Store}
    (h : committedDays s.scanRuns ⊆ committedDays s'.scanRuns) {last : Int}
    (hlast : lastCommittedDay s = some last) :
    ∃ last', lastCommittedDay s' = some last' ∧ last ≤ last' := by
  have hmem := h (last_committed_day_greatest hlast).1
  cases hlast' : lastCommittedDay s' with
  | none =>
    rw [last_committed_day_none hlast'] at hmem
    exact hmem.elim
  | some last' => exact ⟨last', rfl, (last_committed_day_greatest hlast').2 hmem⟩

end Progress

theorem window_within_of_two {cfg : Config} (h : cfg.rescanWindowDays ≤ 2) (s : Store) :
    WindowWithin cfg s := by
  intro day hday
  cases hlast : lastCommittedDay s with
  | none =>
    rw [hlast] at hday
    cases hday
  | some last =>
    rw [hlast, mem_rescan_window_days] at hday
    exact ⟨last, (last_committed_day_greatest hlast).1, by omega⟩

/-- While every run's window stays within one day of the committed days, these are one interval
that ends at the watermark, none was committed before it was due, and the watermark never moves
back; a day that fails leaves the rows as they were, and scanning a day again replaces its rows. -/
theorem committed_days_contiguous (cfg : Config) (source : FlowSource) (events : List Event)
    (hwindow : ∀ earlier x later, events = earlier ++ .run x :: later →
      WindowWithin cfg (storeAfterEvents cfg source earlier)) :
    let s := storeAfterEvents cfg source events
    CommittedInterval s ∧ LagRespected cfg s.scanRuns ∧
      (∀ earlier later, events = earlier ++ later →
        ∀ last, lastCommittedDay (storeAfterEvents cfg source earlier) = some last →
          ∃ last', lastCommittedDay s = some last' ∧ last ≤ last') ∧
      FailedDayLeavesRows cfg s ∧
      ((runsOf events).Pairwise (fun earlier later => earlier.now < later.now) →
        ∀ observedAt, (∀ x ∈ runsOf events, x.now ≤ observedAt) →
          DayReplacesRows cfg observedAt s) := by
  intro s
  obtain ⟨hvalid, hgrown⟩ := days_valid_after cfg source events hwindow
  refine ⟨committed_interval_of_ord_connected hvalid.connected, hvalid.lag,
    fun earlier later hsplit last hlast => watermark_mono (hgrown earlier later hsplit) hlast,
    failed_day_leaves_rows cfg s, fun hincreasing observedAt hobserved => ?_⟩
  have hversions := (attributed_after cfg source events hincreasing observedAt hobserved).versions
  exact day_replaces_rows cfg observedAt s fun v hv => (hversions.upTo v hv).2

/-- Two runs with a window of two days, in the second of which the broker refuses the new day. -/
theorem committed_days_contiguous_refused_day :
    let cfg : Config := ⟨"111122223333", "ap-northeast-2", "111122223333", 6, 3, 2, .ascii, id⟩
    let source : FlowSource :=
      ⟨true, datedValidation, 10⟩
    let runAt (now : Int) (refused : List Int) : Event := .run ⟨now, true, .ok [], .ok [],
      some "broker", .error "",
      fun day => if day ∈ refused then [.ok (.refused none)] else [.ok (.page [] none true)],
      fun _ => none⟩
    let s := storeAfterEvents cfg source [runAt (eligibleFrom 6 10) [], runAt (eligibleFrom 6 11) [11]]
    CommittedInterval s ∧ LagRespected cfg s.scanRuns ∧ lastCommittedDay s = some 10 := by
  intro cfg source runAt s
  have hlast : lastCommittedDay s = some 10 := by decide
  obtain ⟨hinterval, hlag, -⟩ := committed_days_contiguous cfg source
    [runAt (eligibleFrom 6 10) [], runAt (eligibleFrom 6 11) [11]]
    fun earlier x later hsplit => window_within_of_two (by decide) _
  exact ⟨hinterval, hlag, hlast⟩

/-- With a window of three days, the day below the first one is skipped: the first run commits day
10, and in the second the broker refuses days 9 and 11, so that days 8 and 10 are committed. -/
theorem committed_days_gap :
    let cfg : Config := ⟨"111122223333", "ap-northeast-2", "111122223333", 6, 3, 3, .ascii, id⟩
    let source : FlowSource :=
      ⟨true, datedValidation, 10⟩
    let runAt (now : Int) (refused : List Int) : Event := .run ⟨now, true, .ok [], .ok [],
      some "broker", .error "",
      fun day => if day ∈ refused then [.ok (.refused none)] else [.ok (.page [] none true)],
      fun _ => none⟩
    let s :=
      storeAfterEvents cfg source [runAt (eligibleFrom 6 10) [], runAt (eligibleFrom 6 11) [9, 11]]
    lastCommittedDay s = some 10 ∧ 8 ∈ committedDays s.scanRuns ∧ 9 ∉ committedDays s.scanRuns ∧
      ¬ CommittedInterval s := by
  intro cfg source runAt s
  have hlast : lastCommittedDay s = some 10 := by decide
  have hlow : 8 ∈ committedDays s.scanRuns :=
    ⟨⟨.succeeded (eligibleFrom 6 11) false 0, dayStart 8, dayEnd 8, 0⟩, by decide, by decide,
      by decide⟩
  have hgap : 9 ∉ committedDays s.scanRuns := by
    rintro ⟨row, hrow, hsucceeded, hday⟩
    have hother : ∀ row ∈ s.scanRuns, row.succeededAt.isSome = true →
        dayOf row.partitionStart ≠ 9 := by decide
    exact hother row hrow hsucceeded hday
  refine ⟨hlast, hlow, hgap, fun hinterval => hgap ?_⟩
  have hhigh := (last_committed_day_greatest hlast).1
  exact hinterval.ord_connected.out hlow hhigh ⟨by decide, by decide⟩

end AwsOps.SgRules
