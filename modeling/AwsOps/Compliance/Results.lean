import Mathlib.Data.List.Infix

/-!
# The results of a compliance run

`scripts/v2/workers/compliance.py` and `_compliance` in `handlers.py`: the document of a Powerpipe
benchmark is flattened into rows and totals, the status of the run is set to `succeeded`, and then
the rows are inserted, each statement in a transaction of its own. A job that is cut off is tried
again on the same run. The main result says which attempts leave a run that has succeeded with the
results of one document (`always_matches`).
-/

namespace AwsOps.Compliance.Results

open List

/-! ## The document -/

/-- A text of the document; `none` is `null`. -/
abbrev Value := Option String

/-- A checked resource. An attribute that is absent is `none`. -/
structure Result where
  status : Option Value
  reason : Option Value
  resource : Option Value
  dimensions : List (Value × Value)

structure Control where
  controlId : Option Value
  name : Option Value
  title : Option Value
  description : Option Value
  severity : Option Value
  results : List Result

/-- The counts by status, and their total. -/
structure Tally (α : Type) where
  total : α
  ok : α
  alarm : α
  info : α
  skip : α
  error : α
  deriving DecidableEq

/-- A group of a benchmark. Of its summary only the counts of controls are read. -/
inductive Group where
  | mk (title : Option Value) (summary : Option (Tally (Option Int))) (controls : List Control)
      (groups : List Group)

def Group.title : Group → Option Value
  | ⟨title, _, _, _⟩ => title

def Group.summary : Group → Option (Tally (Option Int))
  | ⟨_, summary, _, _⟩ => summary

structure Document where
  groups : List Group

/-! ## `parse_powerpipe_json` -/

/-- A row of `compliance_results`. -/
structure Row where
  controlId : Value
  title : Value
  description : Value
  heading : Value
  status : Value
  reason : Value
  resource : Value
  region : Value
  severity : Value
  deriving DecidableEq

/-- `value or other` -/
def orElse (value other : Value) : Value :=
  if value = none ∨ value = some "" then other else value

/-- `node.get(key, "")` -/
def getText (field : Option Value) : Value :=
  field.getD (some "")

/-- `dims.get("region", "")`, where a later dimension takes the place of an earlier one. -/
def region (dimensions : List (Value × Value)) : Value :=
  getText ((dimensions.reverse.find? fun d => d.1 = some "region").map Prod.snd)

/-- The row of a result of a control, in the section of this heading. -/
def row (heading : Value) (c : Control) (r : Result) : Row where
  controlId := orElse (c.controlId.getD none) (getText c.name)
  title := getText c.title
  description := orElse (getText c.description) (some "")
  heading := heading
  status := getText r.status
  reason := getText r.reason
  resource := getText r.resource
  region := region r.dimensions
  severity := getText c.severity

mutual

/-- `_walk_controls`: the rows of a group after those that are there. -/
def walkControls (heading : Value) (out : List Row) : Group → List Row
  | ⟨_, _, controls, groups⟩ =>
    let out := controls.foldl (fun out c =>
      c.results.foldl (fun out r => out ++ [row heading c r]) out) out
    walkGroups heading out groups

/-- The loop over the groups. A group without a title is in the section around it. -/
def walkGroups (heading : Value) (out : List Row) : List Group → List Row
  | [] => out
  | g :: groups => walkGroups heading (walkControls (g.title.getD heading) out g) groups

end

def Tally.add (t : Tally Int) (counts : Tally (Option Int)) : Tally Int where
  total := t.total + counts.total.getD 0
  ok := t.ok + counts.ok.getD 0
  alarm := t.alarm + counts.alarm.getD 0
  info := t.info + counts.info.getD 0
  skip := t.skip + counts.skip.getD 0
  error := t.error + counts.error.getD 0

/-- `_top_group_totals` -/
def topGroupTotals (doc : Document) : Option (Tally Int) :=
  match doc.groups.filterMap Group.summary with
  | [] => none
  | summaries => some (summaries.foldl Tally.add ⟨0, 0, 0, 0, 0, 0⟩)

def leafTotals (controls : List Row) : Tally Int :=
  let count (status : String) : Int := controls.countP fun c => c.status = some status
  let total := count "ok" + count "alarm" + count "info" + count "skip" + count "error"
  ⟨total, count "ok", count "alarm", count "info", count "skip", count "error"⟩

section Attempts

-- `ok / denom * 100` in floating point, for the counts of `ok` and of all statuses
variable {Rate : Type} (percent : Int → Int → Rate)

structure Totals (Rate : Type) where
  counts : Tally Int
  passRate : Option Rate
  deriving DecidableEq

/-- `parse_powerpipe_json`. The pass rate is `none` for the `0` of a document without counts. -/
def parsePowerpipeJson (doc : Document) : Totals Rate × List Row :=
  let controls := walkGroups (some "") [] doc.groups
  let agg := (topGroupTotals doc).getD (leafTotals controls)
  let denom := agg.ok + agg.alarm + agg.info + agg.skip + agg.error
  (⟨agg, if denom ≠ 0 then some (percent agg.ok denom) else none⟩, controls)

/-! ## The attempts of a job -/

inductive Status
  | running
  | succeeded
  | failed
  deriving DecidableEq

/-- A run, with the rows of `compliance_results` that refer to it. -/
structure Store (Rate : Type) where
  status : Status
  totals : Option (Totals Rate)
  results : List Row

inductive Write (Rate : Type)
  | succeed (totals : Totals Rate)
  | insert (row : Row)
  | fail

def Store.write (s : Store Rate) : Write Rate → Store Rate
  | .succeed totals => { s with status := .succeeded, totals := some totals }
  | .insert row => { s with results := s.results ++ [row] }
  | .fail => { s with status := .failed }

/-- The run as the web tier creates it. -/
def Store.initial : Store Rate :=
  ⟨.running, none, []⟩

/-- `persist` -/
def persist (totals : Totals Rate) (controls : List Row) : List (Write Rate) :=
  .succeed totals :: controls.map .insert

/-- An attempt of the job: the document that it gets, how many statements of `persist` are
committed, and whether the error at the next one is recorded on the run (a crash is not). -/
structure Attempt where
  doc : Document
  committed : Nat
  recorded : Bool

def Attempt.writes (a : Attempt) : List (Write Rate) :=
  let (totals, controls) := parsePowerpipeJson percent a.doc
  let statements := persist totals controls
  statements.take a.committed ++
    if a.committed < statements.length && a.recorded then [.fail] else []

def Store.run (s : Store Rate) (writes : List (Write Rate)) : Store Rate :=
  writes.foldl Store.write s

/-- The run after some attempts. -/
def after (attempts : List Attempt) : Store Rate :=
  Store.initial.run (attempts.flatMap (Attempt.writes percent))

/-! ## What a run is to hold -/

/-- A result of a control, under the title of the innermost group with a title. -/
structure Leaf where
  heading : Value
  control : Control
  result : Result

mutual

def leaves (heading : Value) : Group → List Leaf
  | ⟨_, _, controls, groups⟩ =>
    controls.flatMap (fun c => c.results.map fun r => ⟨heading, c, r⟩) ++ leavesOf heading groups

def leavesOf (heading : Value) : List Group → List Leaf
  | [] => []
  | g :: groups => leaves (g.title.getD heading) g ++ leavesOf heading groups

end

def Document.leafResults (doc : Document) : List Leaf :=
  leavesOf (some "") doc.groups

def Leaf.row (l : Leaf) : Row :=
  Results.row l.heading l.control l.result

def Document.totals (doc : Document) : Totals Rate :=
  (parsePowerpipeJson percent doc).1

/-- If the run has succeeded, then its results are those of the document of one attempt, each once,
and its totals are the ones of that document. -/
def Matches (attempts : List Attempt) (s : Store Rate) : Prop :=
  s.status = .succeeded → ∃ a ∈ attempts, s.results.Perm (a.doc.leafResults.map Leaf.row) ∧
    s.totals = some (a.doc.totals percent)

/-- The run matches one of the attempts so far, after each statement of each attempt. -/
def Always (attempts : List Attempt) : Prop :=
  ∀ before a, before ++ [a] <+: attempts → ∀ k,
    Matches percent (before ++ [a]) ((after percent before).run ((a.writes percent).take k))

/-! ## The walk -/

theorem foldl_append_singleton {α β : Type} (f : α → β) (items : List α) (out : List β) :
    items.foldl (fun out x => out ++ [f x]) out = out ++ items.map f := by
  induction items generalizing out with
  | nil => simp
  | cons x items ih =>
    rw [foldl_cons, ih, map_cons, append_assoc]
    rfl

theorem fold_controls (heading : Value) (controls : List Control) (out : List Row) :
    controls.foldl (fun out c =>
      c.results.foldl (fun out r => out ++ [row heading c r]) out) out =
    out ++ (controls.flatMap fun c => c.results.map fun r => ⟨heading, c, r⟩).map Leaf.row := by
  induction controls generalizing out with
  | nil => simp
  | cons c controls ih =>
    rw [foldl_cons, foldl_append_singleton, ih, flatMap_cons, map_append, append_assoc, map_map]
    rfl

mutual

theorem walk_controls_eq (heading : Value) (out : List Row) :
    (g : Group) → walkControls heading out g = out ++ (leaves heading g).map Leaf.row
  | ⟨_, _, controls, groups⟩ => by
    rw [walkControls, leaves, walk_groups_eq, fold_controls, map_append, append_assoc]

theorem walk_groups_eq (heading : Value) (out : List Row) : (groups : List Group) →
      walkGroups heading out groups = out ++ (leavesOf heading groups).map Leaf.row
  | [] => by simp [walkGroups, leavesOf]
  | g :: groups => by
    rw [walkGroups, leavesOf, walk_groups_eq, walk_controls_eq, map_append, append_assoc]

end

/-- The walk neither loses nor repeats a result. -/
theorem parse_eq (doc : Document) :
    parsePowerpipeJson percent doc = (doc.totals percent, doc.leafResults.map Leaf.row) := by
  have hwalk : (parsePowerpipeJson percent doc).2 = doc.leafResults.map Leaf.row :=
    walk_groups_eq (some "") [] doc.groups
  rw [← hwalk]
  rfl

/-! ## The runs -/

variable {percent}

theorem writes_eq (a : Attempt) : a.writes percent =
    (persist (a.doc.totals percent) (a.doc.leafResults.map Leaf.row)).take a.committed ++
      if a.committed < a.doc.leafResults.length + 1 && a.recorded then [.fail] else [] := by
  unfold Attempt.writes
  rw [parse_eq]
  simp [persist]

theorem run_append (s : Store Rate) (writes more : List (Write Rate)) :
    s.run (writes ++ more) = (s.run writes).run more :=
  foldl_append

theorem after_append (before : List Attempt) (a : Attempt) :
    after percent (before ++ [a]) = (after percent before).run (a.writes percent) := by
  unfold after
  rw [flatMap_append, run_append]
  simp

/-- The run has no results, and if it has succeeded then with the totals of an attempt without
results. -/
def Vacant (percent : Int → Int → Rate) (attempts : List Attempt) (s : Store Rate) : Prop :=
  s.results = [] ∧ (s.status = .succeeded → ∃ a ∈ attempts, a.doc.leafResults = [] ∧
    s.totals = some (a.doc.totals percent))

theorem Vacant.matches {attempts : List Attempt} {s : Store Rate} (h : Vacant percent attempts s) :
    Matches percent attempts s := by
  intro hsucceeded
  obtain ⟨a, ha, hnone, htotals⟩ := h.2 hsucceeded
  refine ⟨a, ha, ?_, htotals⟩
  rw [h.1, hnone]
  exact .nil

/-- The writes of an attempt that does not get to a result: the status update, if at all, and the
record of an error. -/
theorem vacant_run {before : List Attempt} {a : Attempt} {s : Store Rate}
    (ha : a.committed = 0 ∨ a.doc.leafResults = []) (hs : Vacant percent before s) (k : Nat) :
    Vacant percent (before ++ [a]) (s.run ((a.writes percent).take k)) := by
  -- every statement that can occur keeps the run vacant
  have hstep : ∀ w ∈ a.writes percent, ∀ t, Vacant percent (before ++ [a]) t →
      Vacant percent (before ++ [a]) (t.write w) := by
    intro w hw t ht
    rw [writes_eq] at hw
    rcases mem_append.mp hw with hw | hw
    · rcases ha with hzero | hnone
      · rw [hzero] at hw
        cases hw
      · rw [hnone] at hw
        have hsucceed : w = .succeed (a.doc.totals percent) :=
          mem_singleton.mp (mem_of_mem_take hw)
        rw [hsucceed]
        exact ⟨ht.1, fun _ => ⟨a, by simp, hnone, rfl⟩⟩
    · split_ifs at hw
      · rw [mem_singleton.mp hw]
        exact ⟨ht.1, nofun⟩
      · cases hw
  have hrun : ∀ writes : List (Write Rate), (∀ w ∈ writes, w ∈ a.writes percent) → ∀ t,
      Vacant percent (before ++ [a]) t → Vacant percent (before ++ [a]) (t.run writes) := by
    intro writes
    induction writes with
    | nil => exact fun _ t ht => ht
    | cons w writes ih =>
      intro hall t ht
      exact ih (fun v hv => hall v (mem_cons_of_mem w hv)) _
        (hstep w (hall w mem_cons_self) t ht)
  refine hrun _ (fun w hw => mem_of_mem_take hw) s ⟨hs.1, fun hsucceeded => ?_⟩
  obtain ⟨b, hb, hrest⟩ := hs.2 hsucceeded
  exact ⟨b, mem_append_left [a] hb, hrest⟩

theorem vacant_after {attempts : List Attempt}
    (h : ∀ a ∈ attempts, a.committed = 0 ∨ a.doc.leafResults = []) :
    Vacant percent attempts (after percent attempts) := by
  induction attempts using List.reverseRecOn with
  | nil => exact ⟨rfl, nofun⟩
  | append_singleton before a ih =>
    have hbefore := ih fun b hb => h b (mem_append_left [a] hb)
    have hrun := vacant_run (h a (by simp)) hbefore (a.writes percent).length
    rw [take_length] at hrun
    rw [after_append]
    exact hrun

theorem exists_first {α : Type} {p : α → Prop} {items : List α} (h : ∃ x ∈ items, p x) :
    ∃ before x, before ++ [x] <+: items ∧ (∀ y ∈ before, ¬p y) ∧ p x := by
  induction items with
  | nil =>
    obtain ⟨x, hx, -⟩ := h
    cases hx
  | cons y items ih =>
    by_cases hy : p y
    · exact ⟨[], y, ⟨items, rfl⟩, nofun, hy⟩
    · obtain ⟨x, hx, hpx⟩ := h
      have hitems : x ∈ items := by
        rcases mem_cons.mp hx with rfl | hmem
        · exact absurd hpx hy
        · exact hmem
      obtain ⟨before, z, hinfix, hnone, hz⟩ := ih ⟨x, hitems, hpx⟩
      refine ⟨y :: before, z, (prefix_cons_inj y).mpr hinfix, ?_, hz⟩
      intro v hv
      rcases mem_cons.mp hv with rfl | hmem
      · exact hy
      · exact hnone v hmem

/-- If no attempt that gets to the status update has a result, then the run always matches an
attempt. Conversely, where the totals of the documents tell whether there are results, it does so
only then: the first attempt with results leaves a moment at which the run has succeeded and the
results are not there. -/
theorem always_matches (percent : Int → Int → Rate) (attempts : List Attempt) :
    ((∀ a ∈ attempts, a.committed = 0 ∨ a.doc.leafResults = []) → Always percent attempts) ∧
    ((∀ a ∈ attempts, ∀ b ∈ attempts, a.doc.totals percent = b.doc.totals percent →
        b.doc.leafResults = [] → a.doc.leafResults = []) →
      Always percent attempts → ∀ a ∈ attempts, a.committed = 0 ∨ a.doc.leafResults = []) := by
  refine ⟨fun h before a hrun k => ?_, fun htell halways => ?_⟩
  · have hmem : ∀ b ∈ before ++ [a], b ∈ attempts := fun b hb => hrun.subset hb
    refine (vacant_run (h a (hmem a (by simp))) (vacant_after fun b hb => ?_) k).matches
    exact h b (hmem b (mem_append_left [a] hb))
  · by_contra hnot
    push Not at hnot
    obtain ⟨before, a, hrun, hnone, hcommitted, hresults⟩ := exists_first hnot
    have hmem : ∀ b ∈ before ++ [a], b ∈ attempts := fun b hb => hrun.subset hb
    have hvacant : Vacant percent before (after percent before) := by
      refine vacant_after fun b hb => ?_
      by_contra hb'
      push Not at hb'
      exact hnone b hb hb'
    have hfirst : (a.writes percent).take 1 = [.succeed (a.doc.totals percent)] := by
      obtain ⟨n, hn⟩ := Nat.exists_eq_succ_of_ne_zero hcommitted
      rw [writes_eq, hn]
      rfl
    have hmatches := halways before a hrun 1
    rw [hfirst] at hmatches
    obtain ⟨b, hb, hperm, htotals⟩ := hmatches rfl
    have hempty : b.doc.leafResults = [] := by
      have hrows : ((after percent before).run [.succeed (a.doc.totals percent)]).results = [] :=
        hvacant.1
      rw [hrows] at hperm
      exact map_eq_nil_iff.mp hperm.symm.eq_nil
    have hsame : a.doc.totals percent = b.doc.totals percent := Option.some.inj htotals
    exact hresults (htell a (hmem a (by simp)) b (hmem b hb) hsame hempty)

end Attempts

/-- The document of a control with one checked resource. -/
def oneResult : Document :=
  ⟨[⟨some (some "1 IAM"), none,
    [⟨some (some "1.1"), none, some (some "MFA"), none, none,
      [⟨some (some "alarm"), none, none, []⟩]⟩], []⟩]⟩

/-- Before the result is inserted the run does not match, and after a retry it has it twice. -/
theorem one_result_not_matched :
    ¬Always (fun ok denom => ok * 100 / denom) [⟨oneResult, 1, false⟩] ∧
      ¬Always (fun ok denom => ok * 100 / denom)
        [⟨oneResult, 2, false⟩, ⟨oneResult, 2, false⟩] := by
  constructor
  · intro h
    obtain ⟨a, ha, hperm, -⟩ := h [] _ (prefix_refl _) 1 rfl
    rw [mem_singleton.mp ha] at hperm
    exact absurd hperm.length_eq (by decide)
  · intro h
    obtain ⟨a, ha, hperm, -⟩ := h [_] _ (prefix_refl _) 2 rfl
    have hdoc : a.doc = oneResult := by
      rcases mem_cons.mp ha with rfl | ha
      · rfl
      · rw [mem_singleton.mp ha]
    rw [hdoc] at hperm
    exact absurd hperm.length_eq (by decide)

/-- A document without results leaves the run with the totals of its summaries. -/
theorem no_results_matched :
    Always (fun ok denom => ok * 100 / denom) [⟨⟨[]⟩, 0, true⟩, ⟨⟨[]⟩, 1, false⟩] :=
  (always_matches _ _).1 fun a ha => by
    rcases mem_cons.mp ha with rfl | ha
    · exact .inl rfl
    · rw [mem_singleton.mp ha]
      exact .inr rfl

end AwsOps.Compliance.Results
