import AwsOps.Diagnosis.Invariants

/-!
# What a verdict rests on

A verdict that passes rests on complete evidence that shows the invariant, and one that fails on
evidence that shows a violation (`evaluate_sound`). A violation that is shown stays one when more
edges come in, unless an edge brings a number that cannot be converted to a float, which makes the
evaluator give up: `evaluate_all_sound_iff` says that this is the only way to lose it.
-/

namespace AwsOps.Diagnosis

open Py (Fields)

/-! ## What the evidence shows -/

/-- The entries of a source in the evidence. -/
def dataOf (actual : Py) (key : String) : Fields :=
  (Py.get (actual.asDict.getD []) key).asDict.getD []

/-- The entries of the service map, of any shape. -/
def rawEdges (actual : Py) : List Py :=
  (Py.get (dataOf actual "service_map") "edges").asList.getD []

/-- The edges of the service map. -/
def edgesOf (actual : Py) : List Edge :=
  (rawEdges actual).filterMap edgeOf

/-- The number of unencrypted instances of a target, as the inventory has it. -/
def countOf (actual : Py) (target : String) : Option Py :=
  (Py.get (dataOf actual "inventory") "unencrypted").asDict.map fun counts => Py.get counts target

/-- No marker of the dictionary speaks against the evidence. -/
structure Usable (fields : Fields) : Prop where
  ok : ∀ x, Py.find fields "ok" = some x → x.isTrue
  flags : ∀ flag ∈ qualityFlags, ∀ x, Py.find fields flag = some x → x.isFalse
  status : ∀ x, Py.find fields "status" = some x → x.isOneOf ["ok", "healthy", "succeeded"]
  freshness : ∀ x, Py.find fields "freshness" = some x → x.isText "healthy"

/-- The source is there and nothing speaks against it; where collectors report, its collector
reports that it is well. -/
structure Complete (actual : Py) (key : String) : Prop where
  present : dataOf actual key ≠ []
  usable : Usable (dataOf actual key)
  collected : ∀ sources, Py.find (actual.asDict.getD []) "_sources" = some sources →
    ∃ source, (sources.asDict.bind fun sources => (Py.get sources key).asDict) = some source ∧
      (Py.get source "ok").isTrue ∧ Usable source

/-- The service map is complete and all of its entries are edges. -/
structure WholeMap (actual : Py) : Prop where
  nonempty : rawEdges actual ≠ []
  named : ∀ raw ∈ rawEdges actual, (edgeOf raw).isSome
  complete : Complete actual "service_map"

/-- The ends of the edge that the invariant is about. -/
def Ends (v params : Fields) (f t : String) : Prop :=
  Py.find v "params" = some (.dict params) ∧ name (Py.get params "from") = some f ∧
    name (Py.get params "to") = some t

/-- An edge of the service map with these ends. -/
def OnEdge (actual : Py) (f t : String) (edge : Edge) : Prop :=
  edge ∈ edgesOf actual ∧ edge.source = f ∧ edge.target = t

/-- The edge has a measured error rate. -/
def Rated (edge : Edge) (rate : Rat) : Prop :=
  ∃ calls, number (Py.get edge.fields "error_rate") = .ok (some rate) ∧ 0 ≤ rate ∧ rate ≤ 1 ∧
    number (Py.get edge.fields "calls") = .ok (some calls) ∧ 0 < calls

/-- The invariant holds, by complete evidence. -/
def Holds (v : Fields) (actual : Py) : Kind → Prop
  | .privateOnly => ∃ target, name (Py.get v "target") = some target ∧ WholeMap actual ∧
      (∃ edge ∈ edgesOf actual, edge.target = target) ∧
      ∀ edge, ¬OnEdge actual "internet" target edge
  | .forbiddenEdge => ∃ params f t, Ends v params f t ∧ WholeMap actual ∧
      ∀ edge, ¬OnEdge actual f t edge
  | .expectedEdge => ∃ params f t, Ends v params f t ∧ WholeMap actual ∧
      ∃ edge, OnEdge actual f t edge
  | .maxErrorRate => ∃ params f t thr, Ends v params f t ∧ threshold params = .ok (some thr) ∧
      WholeMap actual ∧ (∃ edge, OnEdge actual f t edge) ∧
      ∀ edge, OnEdge actual f t edge → ∃ rate, Rated edge rate ∧ rate ≤ thr
  | .encryptionRequired => ∃ target, name (Py.get v "target") = some target ∧
      Complete actual "inventory" ∧ countOf actual target = some (.int 0)

/-- The evidence shows that the invariant is violated. An expected edge is violated only by a
complete service map that lacks it. -/
def Violated (v : Fields) (actual : Py) : Kind → Prop
  | .privateOnly => ∃ target edge, name (Py.get v "target") = some target ∧
      OnEdge actual "internet" target edge
  | .forbiddenEdge => ∃ params f t edge, Ends v params f t ∧ OnEdge actual f t edge
  | .expectedEdge => ∃ params f t, Ends v params f t ∧ WholeMap actual ∧
      ∀ edge, ¬OnEdge actual f t edge
  | .maxErrorRate => ∃ params f t thr edge rate, Ends v params f t ∧
      threshold params = .ok (some thr) ∧ OnEdge actual f t edge ∧ Rated edge rate ∧ thr < rate
  | .encryptionRequired => ∃ target n, name (Py.get v "target") = some target ∧
      countOf actual target = some (.int n) ∧ 0 < n

/-! ## The readings of the evaluators -/

variable {actual : Py} {v : Fields}

theorem usable_iff {fields : Fields} : usable fields ↔ Usable fields := by
  have hall : ∀ (x : Option Py) (p : Py → Bool), x.all p = true ↔ ∀ y, x = some y → p y := by
    intro x p
    cases x <;> simp
  simp only [usable, Bool.and_eq_true, List.all_eq_true, hall]
  constructor
  · rintro ⟨⟨⟨hok, hflags⟩, hstatus⟩, hfresh⟩
    exact ⟨hok, hflags, hstatus, hfresh⟩
  · intro h
    exact ⟨⟨⟨h.ok, h.flags⟩, h.status⟩, h.freshness⟩

theorem data_ok {fields : Fields} (key : String) :
    data (.dict fields) key = .ok (dataOf (.dict fields) key) :=
  rfl

theorem complete_ok (fields : Fields) (key : String) :
    ∃ b, complete (.dict fields) key = .ok b ∧ (b = true ↔ Complete (.dict fields) key) := by
  have hfields : (Py.dict fields).asDict.getD [] = fields := rfl
  by_cases hempty : dataOf (.dict fields) key = []
  · refine ⟨false, ?_, ?_⟩
    · rw [complete, data_ok, ok_bind, hempty]
      rfl
    · simp only [Bool.false_eq_true, false_iff]
      exact fun h => h.present hempty
  have hisempty : (dataOf (.dict fields) key).isEmpty = false := by simpa using hempty
  cases hsources : Py.find fields "_sources" with
  | none =>
    refine ⟨usable (dataOf (.dict fields) key), ?_, ?_⟩
    · rw [complete, data_ok, ok_bind]
      simp only [entries, ok_bind, hisempty, hsources]
      rfl
    · rw [usable_iff]
      refine ⟨fun h => ⟨hempty, h, fun sources hs => ?_⟩, fun h => h.usable⟩
      rw [hfields, hsources] at hs
      exact absurd hs (by simp)
  | some sources =>
    cases hsource : (sources.asDict.bind fun sources => (Py.get sources key).asDict) with
    | none =>
      refine ⟨false, ?_, ?_⟩
      · rw [complete, data_ok, ok_bind]
        simp only [entries, ok_bind, hisempty, hsources, hsource]
        rfl
      · simp only [Bool.false_eq_true, false_iff]
        intro h
        obtain ⟨source, hs, -⟩ := h.collected sources hsources
        rw [hsource] at hs
        exact absurd hs (by simp)
    | some source =>
      refine ⟨(Py.get source "ok").isTrue && usable (dataOf (.dict fields) key) &&
        usable source, ?_, ?_⟩
      · rw [complete, data_ok, ok_bind]
        simp only [entries, ok_bind, hisempty, hsources, hsource]
        rfl
      · rw [Bool.and_eq_true, Bool.and_eq_true, usable_iff, usable_iff]
        constructor
        · rintro ⟨⟨hok, hdata⟩, husable⟩
          refine ⟨hempty, hdata, fun other hother => ⟨source, ?_, hok, husable⟩⟩
          rw [hfields, hsources, Option.some.injEq] at hother
          rw [← hother, hsource]
        · intro h
          obtain ⟨other, hother, hok, husable⟩ := h.collected sources hsources
          rw [hsource, Option.some.injEq] at hother
          subst hother
          exact ⟨⟨hok, h.usable⟩, husable⟩

theorem edges_ok (fields : Fields) : ∃ b, edges (.dict fields) = .ok (edgesOf (.dict fields), b) ∧
      (b = true ↔ WholeMap (.dict fields)) := by
  obtain ⟨b, hb, hcomplete⟩ := complete_ok fields "service_map"
  cases hraw : Py.get (dataOf (.dict fields) "service_map") "edges" with
  | list raw =>
    have hrawedges : rawEdges (.dict fields) = raw := by
      rw [rawEdges, hraw]
      rfl
    have hedges : edgesOf (.dict fields) = raw.filterMap edgeOf := by rw [edgesOf, hrawedges]
    by_cases hcond : (!(raw.filterMap edgeOf).isEmpty &&
        (raw.filterMap edgeOf).length == raw.length) = true
    · refine ⟨b, ?_, ?_⟩
      · rw [edges, data_ok, ok_bind, hraw, hedges]
        simp only [hcond, if_true, hb]
        rfl
      · rw [hcomplete]
        rw [Bool.and_eq_true, beq_iff_eq, List.filterMap_length_eq_length] at hcond
        refine ⟨fun h => ⟨?_, by rw [hrawedges]; exact hcond.2, h⟩, fun h => h.complete⟩
        rw [hrawedges]
        rintro rfl
        exact absurd hcond.1 (by simp)
    · refine ⟨false, ?_, ?_⟩
      · rw [edges, data_ok, ok_bind, hraw, hedges]
        simp only [hcond]
        rfl
      · simp only [Bool.false_eq_true, false_iff]
        intro h
        have hnonempty := h.nonempty
        have hnamed := h.named
        rw [hrawedges] at hnonempty hnamed
        refine hcond ?_
        have hlength := List.filterMap_length_eq_length.mpr hnamed
        have hpos := List.length_pos_iff.mpr hnonempty
        rw [Bool.and_eq_true, beq_iff_eq]
        refine ⟨?_, hlength⟩
        rw [Bool.not_eq_true', List.isEmpty_eq_false_iff, ← List.length_pos_iff, hlength]
        exact hpos
  | _ =>
    refine ⟨false, ?_, ?_⟩
    · rw [edges, data_ok, ok_bind, hraw, edgesOf, rawEdges, hraw]
      rfl
    · simp only [Bool.false_eq_true, false_iff]
      intro h
      refine h.nonempty ?_
      rw [rawEdges, hraw]
      rfl

/-! ## The evaluators -/

variable {f t target : String} {fields : Fields}

theorem mem_between {edge : Edge} :
    edge ∈ between f t (edgesOf actual) ↔ OnEdge actual f t edge := by
  simp [between, OnEdge]

theorem between_empty :
    (between f t (edgesOf actual)).isEmpty = true ↔ ∀ edge, ¬OnEdge actual f t edge := by
  rw [List.isEmpty_iff, List.eq_nil_iff_forall_not_mem]
  exact forall_congr' fun edge => not_congr mem_between

theorem between_nonempty :
    (between f t (edgesOf actual)).isEmpty = false ↔ ∃ edge, OnEdge actual f t edge := by
  rw [← Bool.not_eq_true, between_empty]
  simp

/-- What the verdict on an invariant passes and fails on. -/
def Tells (v : Fields) (attempt : Except String Verdict) (holds violated : Prop) : Prop :=
  ∃ r, attempt = .ok r ∧ r.id = Py.get v "id" ∧ (r.passed = some true ↔ holds) ∧
    (r.passed = some false ↔ violated)

theorem tells_unknown {holds violated : Prop} (reason : String) (hholds : ¬holds)
    (hviolated : ¬violated) : Tells v (.ok (unknown v reason)) holds violated :=
  ⟨_, rfl, rfl, by simpa [unknown, verdict] using hholds, by simpa [unknown, verdict] using hviolated⟩

theorem tells_verdict {holds violated : Prop} {b : Bool} (observed : String)
    (hholds : b = true ↔ holds) (hviolated : b = false ↔ violated) :
    Tells v (.ok (verdict v (some b) observed)) holds violated :=
  ⟨_, rfl, rfl, by simpa [verdict] using hholds, by simpa [verdict] using hviolated⟩

theorem private_only_tells : Tells v (privateOnly v target (.dict fields))
      (WholeMap (.dict fields) ∧ (∃ edge ∈ edgesOf (.dict fields), edge.target = target) ∧
        ∀ edge, ¬OnEdge (.dict fields) "internet" target edge)
      (∃ edge, OnEdge (.dict fields) "internet" target edge) := by
  obtain ⟨whole, hedges, hwhole⟩ := edges_ok fields
  have hany : ((edgesOf (.dict fields)).any fun edge => edge.target == target) = true ↔
      ∃ edge ∈ edgesOf (.dict fields), edge.target = target := by
    simp
  rw [privateOnly, hedges, ok_bind]
  dsimp only
  split
  · rename_i hcond
    rw [Bool.and_eq_true, between_empty] at hcond
    refine tells_unknown _ ?_ ?_
    · rintro ⟨hmap, htarget, -⟩
      rw [hwhole.mpr hmap, hany.mpr htarget] at hcond
      exact absurd hcond.2 (by simp)
    · rintro ⟨edge, hedge⟩
      exact hcond.1 edge hedge
  · rename_i hcond
    refine tells_verdict _ ?_ between_nonempty
    rw [between_empty]
    refine ⟨fun hempty => ?_, fun h => h.2.2⟩
    rw [between_empty.mpr hempty, Bool.true_and, Bool.not_eq_true, Bool.or_eq_false_iff,
      Bool.not_eq_false', Bool.not_eq_false', hwhole, hany] at hcond
    exact ⟨hcond.1, hcond.2, hempty⟩

theorem forbidden_edge_tells : Tells v (forbiddenEdge v f t (.dict fields))
      (WholeMap (.dict fields) ∧ (∃ edge ∈ edgesOf (.dict fields), edge.source = f ∨ edge.target = f) ∧
        (∃ edge ∈ edgesOf (.dict fields), edge.source = t ∨ edge.target = t) ∧
        ∀ edge, ¬OnEdge (.dict fields) f t edge)
      (∃ edge, OnEdge (.dict fields) f t edge) := by
  obtain ⟨whole, hedges, hwhole⟩ := edges_ok fields
  have hnames : ∀ x, ((edgesOf (.dict fields)).flatMap fun edge =>
      [edge.source, edge.target]).contains x = true ↔
      ∃ edge ∈ edgesOf (.dict fields), edge.source = x ∨ edge.target = x := by
    intro x
    simp [eq_comm]
  rw [forbiddenEdge, hedges, ok_bind]
  dsimp only
  split
  · rename_i hcond
    rw [Bool.and_eq_true, between_empty] at hcond
    refine tells_unknown _ ?_ ?_
    · rintro ⟨hmap, hf, ht, -⟩
      rw [hwhole.mpr hmap, (hnames f).mpr hf, (hnames t).mpr ht] at hcond
      exact absurd hcond.2 (by simp)
    · rintro ⟨edge, hedge⟩
      exact hcond.1 edge hedge
  · rename_i hcond
    refine tells_verdict _ ?_ between_nonempty
    rw [between_empty]
    refine ⟨fun hempty => ?_, fun h => h.2.2.2⟩
    rw [between_empty.mpr hempty, Bool.true_and, Bool.not_eq_true, Bool.or_eq_false_iff,
      Bool.or_eq_false_iff, Bool.not_eq_false', Bool.not_eq_false', Bool.not_eq_false', hwhole,
      hnames, hnames] at hcond
    exact ⟨hcond.1.1, hcond.1.2, hcond.2, hempty⟩

theorem expected_edge_tells : Tells v (expectedEdge v f t (.dict fields))
      (WholeMap (.dict fields) ∧ ∃ edge, OnEdge (.dict fields) f t edge)
      (WholeMap (.dict fields) ∧ ∀ edge, ¬OnEdge (.dict fields) f t edge) := by
  obtain ⟨whole, hedges, hwhole⟩ := edges_ok fields
  rw [expectedEdge, hedges, ok_bind]
  dsimp only
  cases whole with
  | false =>
    have hno : ¬WholeMap (.dict fields) := fun h => absurd (hwhole.mpr h) (by simp)
    exact tells_unknown _ (fun h => hno h.1) (fun h => hno h.1)
  | true =>
    have hmap := hwhole.mp rfl
    refine tells_verdict _ ?_ ?_
    · rw [Bool.not_eq_true', between_nonempty]
      exact ⟨fun h => ⟨hmap, h⟩, fun h => h.2⟩
    · rw [Bool.not_eq_false', between_empty]
      exact ⟨fun h => ⟨hmap, h⟩, fun h => h.2⟩

theorem encryption_required_tells : Tells v (encryptionRequired v target (.dict fields))
      (Complete (.dict fields) "inventory" ∧ countOf (.dict fields) target = some (.int 0))
      (∃ n, countOf (.dict fields) target = some (.int n) ∧ 0 < n) := by
  obtain ⟨b, hb, hcomplete⟩ := complete_ok fields "inventory"
  rw [encryptionRequired, data_ok, ok_bind]
  split
  · rename_i unenc hcount
    rw [countOf, hcount]
    by_cases hneg : unenc < 0
    · rw [if_pos hneg]
      refine tells_unknown _ ?_ ?_
      · rintro ⟨-, hzero⟩
        simp only [Option.some.injEq, Py.int.injEq] at hzero
        omega
      · rintro ⟨n, hn, hpos⟩
        simp only [Option.some.injEq, Py.int.injEq] at hn
        omega
    · rw [if_neg hneg, hb, ok_bind]
      by_cases hzero : unenc = 0
      · subst hzero
        cases b with
        | false =>
          refine tells_unknown _ ?_ ?_
          · rintro ⟨h, -⟩
            exact absurd (hcomplete.mpr h) (by simp)
          · rintro ⟨n, hn, hpos⟩
            simp only [Option.some.injEq, Py.int.injEq] at hn
            omega
        | true =>
          refine tells_verdict _ ?_ ?_
          · simpa using hcomplete.mp rfl
          · simp
      · have hbeq : (unenc == 0) = false := by simpa using hzero
        simp only [hbeq, Bool.false_and]
        refine tells_verdict _ ?_ ?_
        · simp [hzero]
        · simp only [Option.some.injEq, Py.int.injEq, exists_eq_left', true_iff]
          omega
  · rename_i hcount
    refine tells_unknown _ ?_ ?_
    · rintro ⟨-, hzero⟩
      exact hcount 0 hzero
    · rintro ⟨n, hn, -⟩
      exact hcount n hn

theorem measured_rate_iff {edge : Edge} {rate : Rat} :
    measuredRate edge = .ok (some rate) ↔ Rated edge rate := by
  rw [measuredRate, Rated]
  cases hrate : number (Py.get edge.fields "error_rate") with
  | error m => simp [bind, Except.bind]
  | ok r =>
    rw [ok_bind]
    cases r with
    | none => simp [pure, Except.pure]
    | some r =>
      by_cases hrange : 0 ≤ r ∧ r ≤ 1
      · simp only [if_pos hrange]
        cases hcalls : number (Py.get edge.fields "calls") with
        | error m => simp [bind, Except.bind]
        | ok c =>
          rw [ok_bind]
          cases c with
          | none => simp [pure, Except.pure]
          | some c =>
            simp only [pure, Except.pure, Except.ok.injEq]
            by_cases hc : 0 < c
            · rw [if_pos hc]
              constructor
              · intro h
                rw [← Option.some.inj h]
                exact ⟨c, rfl, hrange.1, hrange.2, rfl, hc⟩
              · rintro ⟨_, h, -⟩
                exact h
            · rw [if_neg hc]
              refine ⟨fun h => absurd h (by simp), ?_⟩
              rintro ⟨d, -, -, -, hd, hpos⟩
              rw [Option.some.inj hd] at hc
              exact absurd hpos hc
      · simp only [if_neg hrange]
        refine ⟨fun h => absurd (Except.ok.inj h) (by simp), ?_⟩
        rintro ⟨-, h, hle, hge, -⟩
        rw [Except.ok.injEq, Option.some.injEq] at h
        rw [h] at hrange
        exact absurd ⟨hle, hge⟩ hrange

/-- Some edge with these ends has a rate or a count that cannot be converted. -/
def Overflows (actual : Py) (f t : String) : Prop :=
  ∃ edge m, OnEdge actual f t edge ∧ measuredRate edge = .error m

theorem rates_ok (h : ¬Overflows actual f t) :
    ∃ rate : Edge → Option Rat, (between f t (edgesOf actual)).mapM measuredRate =
        .ok ((between f t (edgesOf actual)).map rate) ∧
      ∀ edge, OnEdge actual f t edge → measuredRate edge = .ok (rate edge) := by
  let rate : Edge → Option Rat := fun edge =>
    match measuredRate edge with
    | .ok r => r
    | .error _ => none
  have hrate : ∀ edge, OnEdge actual f t edge → measuredRate edge = .ok (rate edge) := by
    intro edge hedge
    cases hm : measuredRate edge with
    | error m => exact absurd ⟨edge, m, hedge, hm⟩ h
    | ok r => simp only [rate, hm]
  refine ⟨rate, ?_, hrate⟩
  have hall : ∀ edge ∈ between f t (edgesOf actual), measuredRate edge = .ok (rate edge) :=
    fun edge hmem => hrate edge (mem_between.mp hmem)
  generalize between f t (edgesOf actual) = matched at hall
  induction matched with
  | nil => rfl
  | cons edge matched ih =>
    rw [List.mapM_cons, hall edge List.mem_cons_self, ok_bind,
      ih fun other hmem => hall other (List.mem_cons_of_mem edge hmem)]
    rfl

theorem rates_error (h : Overflows actual f t) :
    ∃ m, (between f t (edgesOf actual)).mapM measuredRate = .error m := by
  obtain ⟨edge, m, hedge, hm⟩ := h
  cases hrates : (between f t (edgesOf actual)).mapM measuredRate with
  | error m => exact ⟨m, rfl⟩
  | ok rates =>
    obtain ⟨r, -, hr⟩ := result_of_mapM hrates edge (mem_between.mpr hedge)
    rw [hm] at hr
    exact absurd hr (by simp)

variable {str : Py → String} {params : Fields} {thr : Rat}

theorem max_error_rate_tells (hthr : threshold params = .ok (some thr))
    (hover : ¬Overflows (.dict fields) f t) :
    Tells v (maxErrorRate str v params f t (.dict fields))
      (WholeMap (.dict fields) ∧ (∃ edge, OnEdge (.dict fields) f t edge) ∧
        ∀ edge, OnEdge (.dict fields) f t edge → ∃ rate, Rated edge rate ∧ rate ≤ thr)
      (∃ edge rate, OnEdge (.dict fields) f t edge ∧ Rated edge rate ∧ thr < rate) := by
  obtain ⟨whole, hedges, hwhole⟩ := edges_ok fields
  obtain ⟨rate, hrates, hrate⟩ := rates_ok hover
  have hmem : ∀ edge, edge ∈ between f t (edgesOf (.dict fields)) ↔
      OnEdge (.dict fields) f t edge := fun _ => mem_between
  rw [maxErrorRate, hthr, ok_bind]
  dsimp only
  rw [hedges, ok_bind]
  dsimp only
  rw [hrates, ok_bind]
  generalize between f t (edgesOf (.dict fields)) = matched at hmem
  -- The measured edges with their rates, and those over the threshold.
  rw [← List.map_prod_left_eq_zip]
  generalize hmeasured : (matched.map fun edge => (edge, rate edge)).filter
    (fun p => p.2.isSome) = measured
  have hpair : ∀ edge r, (edge, r) ∈ measured ↔
      OnEdge (.dict fields) f t edge ∧ ∃ x, r = some x ∧ Rated edge x := by
    intro edge r
    rw [← hmeasured]
    simp only [List.mem_filter, List.mem_map, Prod.mk.injEq]
    constructor
    · rintro ⟨⟨e, he, rfl, rfl⟩, hsome⟩
      obtain ⟨x, hx⟩ := Option.isSome_iff_exists.mp hsome
      have hon := (hmem e).mp he
      refine ⟨hon, x, hx, measured_rate_iff.mp ?_⟩
      rw [hrate e hon, hx]
    · rintro ⟨hon, x, rfl, hx⟩
      have hr := hrate edge hon
      rw [measured_rate_iff.mpr hx, Except.ok.injEq] at hr
      exact ⟨⟨edge, (hmem edge).mpr hon, rfl, hr.symm⟩, rfl⟩
  have hover : (measured.filter fun p => p.2.any (thr < ·)).isEmpty = false ↔
      ∃ edge r, OnEdge (.dict fields) f t edge ∧ Rated edge r ∧ thr < r := by
    rw [List.isEmpty_eq_false_iff_exists_mem]
    constructor
    · rintro ⟨⟨edge, r⟩, hin⟩
      rw [List.mem_filter, hpair] at hin
      obtain ⟨⟨hon, x, rfl, hx⟩, hlt⟩ := hin
      exact ⟨edge, x, hon, hx, by simpa using hlt⟩
    · rintro ⟨edge, x, hon, hx, hlt⟩
      refine ⟨(edge, some x), ?_⟩
      rw [List.mem_filter, hpair]
      exact ⟨⟨hon, x, rfl, hx⟩, by simpa using hlt⟩
  have hsome : measured.isEmpty = false ∧ measured.length = matched.length ↔
      (∃ edge, OnEdge (.dict fields) f t edge) ∧
        ∀ edge, OnEdge (.dict fields) f t edge → ∃ x, Rated edge x := by
    have hlength : measured.length = matched.length ↔ ∀ edge ∈ matched, (rate edge).isSome := by
      rw [← hmeasured]
      have h := List.length_filter_eq_length_iff (p := fun p : Edge × Option Rat => p.2.isSome)
        (l := matched.map fun edge => (edge, rate edge))
      rw [List.length_map] at h
      rw [h]
      simp
    rw [hlength, List.isEmpty_eq_false_iff_exists_mem]
    constructor
    · rintro ⟨⟨⟨edge, r⟩, hin⟩, hall⟩
      refine ⟨⟨edge, ((hpair edge r).mp hin).1⟩, fun other hother => ?_⟩
      obtain ⟨x, hx⟩ := Option.isSome_iff_exists.mp (hall other ((hmem other).mpr hother))
      refine ⟨x, measured_rate_iff.mp ?_⟩
      rw [hrate other hother, hx]
    · rintro ⟨⟨edge, hedge⟩, hall⟩
      obtain ⟨x, hx⟩ := hall edge hedge
      refine ⟨⟨(edge, some x), (hpair edge (some x)).mpr ⟨hedge, x, rfl, hx⟩⟩, fun other hin => ?_⟩
      obtain ⟨y, hy⟩ := hall other ((hmem other).mp hin)
      have hr := hrate other ((hmem other).mp hin)
      rw [measured_rate_iff.mpr hy, Except.ok.injEq] at hr
      rw [← hr]
      rfl
  split
  · rename_i hcond
    rw [Bool.and_eq_true] at hcond
    refine tells_unknown _ ?_ ?_
    · rintro ⟨hmap, hedge, hall⟩
      obtain ⟨hempty, hlength⟩ := hsome.mpr ⟨hedge, fun edge hon => by
        obtain ⟨x, hx, -⟩ := hall edge hon
        exact ⟨x, hx⟩⟩
      rw [hwhole.mpr hmap, hempty, hlength] at hcond
      exact absurd hcond.2 (by simp)
    · intro hviolated
      rw [← hover, hcond.1] at hviolated
      exact absurd hviolated (by simp)
  · rename_i hcond
    refine tells_verdict _ ?_ hover
    constructor
    · intro hempty
      rw [hempty, Bool.true_and, Bool.not_eq_true, Bool.or_eq_false_iff, Bool.or_eq_false_iff,
        Bool.not_eq_false', hwhole, bne_eq_false_iff_eq] at hcond
      obtain ⟨hedge, hall⟩ := hsome.mp ⟨hcond.1.2, hcond.2⟩
      refine ⟨hcond.1.1, hedge, fun edge hon => ?_⟩
      obtain ⟨x, hx⟩ := hall edge hon
      refine ⟨x, hx, ?_⟩
      by_contra hlt
      have hnot := hover.mpr ⟨edge, x, hon, hx, not_le.mp hlt⟩
      rw [hempty] at hnot
      exact absurd hnot (by simp)
    · rintro ⟨-, -, hall⟩
      by_contra hnot
      rw [Bool.not_eq_true] at hnot
      obtain ⟨edge, x, hon, hx, hlt⟩ := hover.mp hnot
      obtain ⟨y, hy, hle⟩ := hall edge hon
      have hxy := (measured_rate_iff.mpr hx).symm.trans (measured_rate_iff.mpr hy)
      rw [Except.ok.injEq, Option.some.injEq] at hxy
      rw [hxy] at hlt
      exact absurd hle (not_le.mpr hlt)

theorem max_error_rate_overflow (hthr : threshold params = .ok (some thr))
    (hover : Overflows (.dict fields) f t) :
    ∃ m, maxErrorRate str v params f t (.dict fields) = .error m := by
  obtain ⟨whole, hedges, -⟩ := edges_ok fields
  obtain ⟨m, hm⟩ := rates_error hover
  refine ⟨m, ?_⟩
  rw [maxErrorRate, hthr, ok_bind]
  dsimp only
  rw [hedges, ok_bind]
  dsimp only
  rw [hm]
  rfl

/-! ## The verdicts -/

theorem dict_or_error (actual : Py) :
    (∃ fields, actual = .dict fields) ∨ ∃ m, entries actual = .error m := by
  cases actual with
  | dict fields => exact .inl ⟨fields, rfl⟩
  | _ => exact .inr ⟨_, rfl⟩

/-- What an evaluator attempts passes on the one and fails on the other. -/
def Sound (v : Fields) (attempt : Except String Verdict) (holds violated : Prop) : Prop :=
  ∀ r, attempt = .ok r → r.id = Py.get v "id" ∧ (r.passed = some true → holds) ∧
    (r.passed = some false → violated)

theorem Tells.sound {attempt : Except String Verdict} {holds violated : Prop}
    (h : Tells v attempt holds violated) : Sound v attempt holds violated := by
  obtain ⟨r, hr, hid, hholds, hviolated⟩ := h
  intro other hother
  rw [hr, Except.ok.injEq] at hother
  rw [← hother]
  exact ⟨hid, hholds.mp, hviolated.mp⟩

theorem Sound.imp {attempt : Except String Verdict} {holds violated holds' violated' : Prop}
    (h : Sound v attempt holds violated) (hholds : holds → holds')
    (hviolated : violated → violated') : Sound v attempt holds' violated' := by
  intro r hr
  obtain ⟨hid, hpass, hfail⟩ := h r hr
  exact ⟨hid, fun hp => hholds (hpass hp), fun hp => hviolated (hfail hp)⟩

theorem sound_unknown {holds violated : Prop} (reason : String) :
    Sound v (.ok (unknown v reason)) holds violated := by
  intro r hr
  rw [← Except.ok.inj hr]
  exact ⟨rfl, fun h => absurd h (by simp [unknown, verdict]),
    fun h => absurd h (by simp [unknown, verdict])⟩

theorem sound_error {holds violated : Prop} (m : String) : Sound v (.error m) holds violated :=
  fun _ h => absurd h (by simp)

theorem sound_of_dict {attempt : Py → Except String Verdict} {holds violated : Py → Prop}
    (hdict : ∀ fields, Sound v (attempt (.dict fields)) (holds (.dict fields)) (violated (.dict fields)))
    (herror : ∀ actual m, entries actual = .error m → attempt actual = .error m) (actual : Py) :
    Sound v (attempt actual) (holds actual) (violated actual) := by
  rcases dict_or_error actual with ⟨fields, rfl⟩ | ⟨m, hm⟩
  · exact hdict fields
  · rw [herror actual m hm]
    exact sound_error m

theorem edges_error {m : String} (h : entries actual = .error m) : edges actual = .error m := by
  rw [edges, data, h]
  rfl

theorem with_target_sound {evaluate : String → Except String Verdict} {holds violated : Prop}
    (h : ∀ target, name (Py.get v "target") = some target → Sound v (evaluate target) holds violated) :
    Sound v (withTarget v evaluate) holds violated := by
  rw [withTarget]
  cases htarget : name (Py.get v "target") with
  | none => exact sound_unknown _
  | some target => exact h target htarget

theorem with_ends_sound {evaluate : Fields → String → String → Except String Verdict}
    {holds violated : Prop}
    (h : ∀ params f t, Ends v params f t → Sound v (evaluate params f t) holds violated) :
    Sound v (withEnds v evaluate) holds violated := by
  rw [withEnds, item]
  cases hparams : Py.find v "params" with
  | none => exact sound_error _
  | some value =>
    dsimp only
    rw [ok_bind]
    rcases dict_or_error value with ⟨params, rfl⟩ | ⟨m, hm⟩
    · dsimp only [entries]
      rw [ok_bind]
      split
      · rename_i f t hf ht
        exact h params f t ⟨hparams, hf, ht⟩
      · exact sound_unknown _
    · rw [hm]
      exact sound_error m

/-- An evaluator passes only what holds by complete evidence and fails only what the evidence shows
to be violated. -/
theorem evaluate_sound (kind : Kind) :
    Sound v (evaluate str v actual kind) (Holds v actual kind) (Violated v actual kind) := by
  cases kind with
  | privateOnly =>
    refine with_target_sound fun target htarget => ?_
    refine @sound_of_dict v (fun actual => privateOnly v target actual)
      (fun actual => Holds v actual .privateOnly) (fun actual => Violated v actual .privateOnly)
      (fun fields => ?_) (fun actual m hm => ?_) actual
    · refine private_only_tells.sound.imp ?_ ?_
      · rintro ⟨hmap, hedge, hnone⟩
        exact ⟨target, htarget, hmap, hedge, hnone⟩
      · rintro ⟨edge, hedge⟩
        exact ⟨target, edge, htarget, hedge⟩
    · rw [privateOnly, edges_error hm]
      rfl
  | forbiddenEdge =>
    refine with_ends_sound fun params f t hends => ?_
    refine @sound_of_dict v (fun actual => forbiddenEdge v f t actual)
      (fun actual => Holds v actual .forbiddenEdge) (fun actual => Violated v actual .forbiddenEdge)
      (fun fields => ?_) (fun actual m hm => ?_) actual
    · refine forbidden_edge_tells.sound.imp ?_ ?_
      · rintro ⟨hmap, -, -, hnone⟩
        exact ⟨params, f, t, hends, hmap, hnone⟩
      · rintro ⟨edge, hedge⟩
        exact ⟨params, f, t, edge, hends, hedge⟩
    · rw [forbiddenEdge, edges_error hm]
      rfl
  | expectedEdge =>
    refine with_ends_sound fun params f t hends => ?_
    refine @sound_of_dict v (fun actual => expectedEdge v f t actual)
      (fun actual => Holds v actual .expectedEdge) (fun actual => Violated v actual .expectedEdge)
      (fun fields => ?_) (fun actual m hm => ?_) actual
    · refine expected_edge_tells.sound.imp ?_ ?_
      · rintro ⟨hmap, hedge⟩
        exact ⟨params, f, t, hends, hmap, hedge⟩
      · rintro ⟨hmap, hnone⟩
        exact ⟨params, f, t, hends, hmap, hnone⟩
    · rw [expectedEdge, edges_error hm]
      rfl
  | maxErrorRate =>
    refine with_ends_sound fun params f t hends => ?_
    cases hthr : threshold params with
    | error m =>
      rw [maxErrorRate, hthr]
      exact sound_error m
    | ok thr =>
      cases thr with
      | none =>
        rw [maxErrorRate, hthr]
        exact sound_unknown _
      | some thr =>
        refine @sound_of_dict v (fun actual => maxErrorRate str v params f t actual)
          (fun actual => Holds v actual .maxErrorRate) (fun actual => Violated v actual .maxErrorRate)
          (fun fields => ?_) (fun actual m hm => ?_) actual
        · by_cases hover : Overflows (.dict fields) f t
          · obtain ⟨m, hm⟩ : ∃ m, maxErrorRate str v params f t (.dict fields) = .error m :=
              max_error_rate_overflow hthr hover
            rw [hm]
            exact sound_error m
          · refine (max_error_rate_tells hthr hover).sound.imp ?_ ?_
            · rintro ⟨hmap, hedge, hall⟩
              exact ⟨params, f, t, thr, hends, hthr, hmap, hedge, hall⟩
            · rintro ⟨edge, rate, hedge, hrate, hlt⟩
              exact ⟨params, f, t, thr, edge, rate, hends, hthr, hedge, hrate, hlt⟩
        · rw [maxErrorRate, hthr, ok_bind]
          dsimp only
          rw [edges_error hm]
          rfl
  | encryptionRequired =>
    refine with_target_sound fun target htarget => ?_
    refine @sound_of_dict v (fun actual => encryptionRequired v target actual)
      (fun actual => Holds v actual .encryptionRequired) (fun actual => Violated v actual .encryptionRequired)
      (fun fields => ?_) (fun actual m hm => ?_) actual
    · refine encryption_required_tells.sound.imp ?_ ?_
      · rintro ⟨hcomplete, hcount⟩
        exact ⟨target, htarget, hcomplete, hcount⟩
      · rintro ⟨n, hcount, hpos⟩
        exact ⟨target, n, htarget, hcount, hpos⟩
    · rw [encryptionRequired, data, hm]
      rfl

theorem fails_of_violated {kind : Kind} (hkind : kind ≠ .expectedEdge)
    (h : Violated v (.dict fields) kind)
    (hover : kind = .maxErrorRate → ∀ params f t, Ends v params f t →
      ¬Overflows (.dict fields) f t) :
    ∃ r, evaluate str v (.dict fields) kind = .ok r ∧ r.passed = some false := by
  have hends : ∀ {params f t} {evaluate : Fields → String → String → Except String Verdict},
      Ends v params f t → withEnds v evaluate = evaluate params f t := by
    rintro params f t evaluate ⟨hparams, hf, ht⟩
    rw [withEnds, item, hparams]
    dsimp only
    rw [ok_bind, entries, ok_bind, hf, ht]
  cases kind with
  | privateOnly =>
    obtain ⟨target, edge, htarget, hedge⟩ := h
    obtain ⟨r, hr, -, -, hfail⟩ :=
      (private_only_tells : Tells v (privateOnly v target (.dict fields)) _ _)
    exact ⟨r, by rw [evaluate, withTarget, htarget]; exact hr, hfail.mpr ⟨edge, hedge⟩⟩
  | forbiddenEdge =>
    obtain ⟨params, f, t, edge, hpe, hedge⟩ := h
    obtain ⟨r, hr, -, -, hfail⟩ :=
      (forbidden_edge_tells : Tells v (forbiddenEdge v f t (.dict fields)) _ _)
    exact ⟨r, by rw [evaluate, hends hpe]; exact hr, hfail.mpr ⟨edge, hedge⟩⟩
  | expectedEdge => exact absurd rfl hkind
  | maxErrorRate =>
    obtain ⟨params, f, t, thr, edge, rate, hpe, hthr, hedge, hrate, hlt⟩ := h
    obtain ⟨r, hr, -, -, hfail⟩ := (max_error_rate_tells hthr (hover rfl params f t hpe) :
      Tells v (maxErrorRate str v params f t (.dict fields)) _ _)
    exact ⟨r, by rw [evaluate, hends hpe]; exact hr, hfail.mpr ⟨edge, rate, hedge, hrate, hlt⟩⟩
  | encryptionRequired =>
    obtain ⟨target, n, htarget, hcount, hpos⟩ := h
    obtain ⟨r, hr, -, -, hfail⟩ :=
      (encryption_required_tells : Tells v (encryptionRequired v target (.dict fields)) _ _)
    exact ⟨r, by rw [evaluate, withTarget, htarget]; exact hr, hfail.mpr ⟨n, hcount, hpos⟩⟩

/-- The verdict on an invariant: it names the invariant, passes only what holds by complete evidence
and fails only what the evidence shows to be violated. -/
structure VerdictOn (actual invariant : Py) (r : Verdict) : Prop where
  id : r.id = Py.get (invariant.asDict.getD []) "id"
  passes : r.passed = some true → ∃ v kind, invariant = .dict v ∧ kindOf v = some kind ∧
    Holds v actual kind
  fails : r.passed = some false → ∃ v kind, invariant = .dict v ∧ kindOf v = some kind ∧
    Violated v actual kind

/-- One turn of the loop gives a verdict and raises nothing. -/
theorem evaluate_one_ok (str : Py → String) (actual invariant : Py) :
    ∃ r, evaluateOne str actual invariant = .ok r ∧ VerdictOn actual invariant r := by
  have hplain : ∀ (v : Fields) (observed : String),
      Py.get v "id" = Py.get (invariant.asDict.getD []) "id" →
      VerdictOn actual invariant (verdict v none observed) := by
    intro v observed hid
    exact ⟨hid, fun h => absurd h (by simp [verdict]), fun h => absurd h (by simp [verdict])⟩
  rcases dict_or_error invariant with ⟨v, rfl⟩ | ⟨m, hm⟩
  · cases hkind : kindOf v with
    | none =>
      refine ⟨verdict v none ("unsupported kind: " ++ str (Py.get v "kind")), ?_, hplain v _ rfl⟩
      rw [evaluateOne, hkind]
      rfl
    | some kind =>
      cases hr : evaluate str v actual kind with
      | error e =>
        refine ⟨unknown v ("eval error: " ++ e), ?_, hplain v _ rfl⟩
        rw [evaluateOne, hkind]
        dsimp only
        rw [hr]
        rfl
      | ok r =>
        obtain ⟨hid, hpass, hfail⟩ := evaluate_sound kind r hr
        refine ⟨r, ?_, hid, fun h => ⟨v, kind, rfl, hkind, hpass h⟩,
          fun h => ⟨v, kind, rfl, hkind, hfail h⟩⟩
        rw [evaluateOne, hkind]
        dsimp only
        rw [hr]
        rfl
  · cases invariant with
    | dict fields => exact absurd hm (by simp [entries])
    | _ => exact ⟨_, rfl, hplain [] _ rfl⟩

/-! ## More evidence -/

/-- The evidence has every edge of the other and the same counts. What else it says, its quality
markers for one, may differ in any way. -/
structure Extends (actual more : Py) : Prop where
  dict : ∃ fields, more = .dict fields
  edges : ∀ raw ∈ rawEdges actual, raw ∈ rawEdges more
  counts : ∀ target, countOf more target = countOf actual target

theorem OnEdge.extends {more : Py} (h : Extends actual more) {edge : Edge}
    (hedge : OnEdge actual f t edge) : OnEdge more f t edge := by
  obtain ⟨hmem, hends⟩ := hedge
  obtain ⟨raw, hraw, he⟩ := List.mem_filterMap.mp hmem
  exact ⟨List.mem_filterMap.mpr ⟨raw, h.edges raw hraw, he⟩, hends⟩

theorem Violated.extends {more : Py} (h : Extends actual more) {kind : Kind}
    (hkind : kind ≠ .expectedEdge) (hviolated : Violated v actual kind) : Violated v more kind := by
  cases kind with
  | privateOnly =>
    obtain ⟨target, edge, htarget, hedge⟩ := hviolated
    exact ⟨target, edge, htarget, hedge.extends h⟩
  | forbiddenEdge =>
    obtain ⟨params, f, t, edge, hends, hedge⟩ := hviolated
    exact ⟨params, f, t, edge, hends, hedge.extends h⟩
  | expectedEdge => exact absurd rfl hkind
  | maxErrorRate =>
    obtain ⟨params, f, t, thr, edge, rate, hends, hthr, hedge, hrate, hlt⟩ := hviolated
    exact ⟨params, f, t, thr, edge, rate, hends, hthr, hedge.extends h, hrate, hlt⟩
  | encryptionRequired =>
    obtain ⟨target, n, htarget, hcount, hpos⟩ := hviolated
    exact ⟨target, n, htarget, (h.counts target).trans hcount, hpos⟩

/-- The verdict on a violated invariant stays when more evidence comes in. -/
def Stays (str : Py → String) (actual more invariant : Py) : Prop :=
  ∀ v kind, invariant = .dict v → kindOf v = some kind → kind ≠ .expectedEdge →
    ∀ r r', evaluateOne str actual invariant = .ok r → evaluateOne str more invariant = .ok r' →
      r.passed = some false → r'.passed = some false

/-- The verdicts are what they ought to be: there is one on each invariant, in order, each rests on
the evidence, and a violation that is shown stays one when edges are added or markers change. -/
structure VerdictsSound (str : Py → String) (invariants : List Py) (actual more : Py) : Prop where
  verdicts : ∃ out, evaluateAll str invariants actual = .ok out ∧
    List.Forall₂ (VerdictOn actual) invariants out
  stays : Extends actual more → ∀ invariant ∈ invariants, Stays str actual more invariant

/-- No edge that comes in between the ends of an error rate that is already exceeded overflows. -/
def Convertible (invariants : List Py) (actual more : Py) : Prop :=
  Extends actual more → ∀ v params f t, .dict v ∈ invariants → kindOf v = some .maxErrorRate →
    Ends v params f t → Violated v actual .maxErrorRate → ¬Overflows actual f t → ¬Overflows more f t

theorem Ends.unique {params' : Fields} {f' t' : String} (h : Ends v params f t)
    (h' : Ends v params' f' t') : params = params' ∧ f = f' ∧ t = t' := by
  obtain ⟨hparams, hf, ht⟩ := h
  obtain ⟨hparams', hf', ht'⟩ := h'
  rw [hparams, Option.some.injEq, Py.dict.injEq] at hparams'
  subst hparams'
  rw [hf, Option.some.injEq] at hf'
  rw [ht, Option.some.injEq] at ht'
  exact ⟨rfl, hf', ht'⟩

theorem evaluate_one_of_ok {kind : Kind} {r : Verdict} (hkind : kindOf v = some kind)
    (hr : evaluate str v actual kind = .ok r) : evaluateOne str actual (.dict v) = .ok r := by
  rw [evaluateOne, hkind]
  dsimp only
  rw [hr]
  rfl

theorem evaluate_one_of_error {kind : Kind} {m : String} (hkind : kindOf v = some kind)
    (hm : evaluate str v actual kind = .error m) :
    evaluateOne str actual (.dict v) = .ok (unknown v ("eval error: " ++ m)) := by
  rw [evaluateOne, hkind]
  dsimp only
  rw [hm]
  rfl

theorem evaluate_overflow (hends : Ends v params f t) (hthr : threshold params = .ok (some thr))
    (hover : Overflows (.dict fields) f t) :
    ∃ m, evaluate str v (.dict fields) .maxErrorRate = .error m := by
  obtain ⟨m, hm⟩ : ∃ m, maxErrorRate str v params f t (.dict fields) = .error m :=
    max_error_rate_overflow hthr hover
  obtain ⟨hparams, hf, ht⟩ := hends
  refine ⟨m, ?_⟩
  rw [evaluate, withEnds, item, hparams]
  dsimp only
  rw [ok_bind, entries, ok_bind, hf, ht]
  exact hm

theorem dict_of_edge {edge : Edge} (h : OnEdge actual f t edge) : ∃ fields, actual = .dict fields := by
  rcases dict_or_error actual with hdict | ⟨m, hm⟩
  · exact hdict
  · cases actual with
    | dict fields => exact ⟨fields, rfl⟩
    | _ => exact absurd h.1 List.not_mem_nil

/-- The verdicts are sound, and stay where a violation is shown, exactly when no number that comes
in overflows. -/
theorem evaluate_all_sound_iff (str : Py → String) (invariants : List Py) (actual more : Py) :
    VerdictsSound str invariants actual more ↔ Convertible invariants actual more := by
  constructor
  · rintro h hextends v params f t hmem hkind hends hviolated hnot hover
    obtain ⟨params', f', t', thr, edge, rate, hends', hthr, hedge, hrate, hlt⟩ := id hviolated
    obtain ⟨rfl, rfl, rfl⟩ := hends.unique hends'
    obtain ⟨fields, rfl⟩ := dict_of_edge hedge
    obtain ⟨other, rfl⟩ := hextends.dict
    obtain ⟨r, hr, hfail⟩ : ∃ r, evaluate str v (.dict fields) .maxErrorRate = .ok r ∧
        r.passed = some false :=
      fails_of_violated (by decide) hviolated fun _ params' f' t' hends' => by
        obtain ⟨rfl, rfl, rfl⟩ := hends.unique hends'
        exact hnot
    obtain ⟨m, hm⟩ : ∃ m, evaluate str v (.dict other) .maxErrorRate = .error m :=
      evaluate_overflow hends hthr hover
    have hopen := h.stays hextends (.dict v) hmem v .maxErrorRate rfl hkind (by decide) r _
      (evaluate_one_of_ok hkind hr) (evaluate_one_of_error hkind hm) hfail
    exact absurd hopen (by simp [unknown, verdict])
  · intro hconvertible
    refine ⟨?_, fun hextends invariant hmem => ?_⟩
    · obtain ⟨out, hout⟩ := mapM_total fun invariant _ => by
        obtain ⟨r, hr, -⟩ := evaluate_one_ok str actual invariant
        exact ⟨r, hr⟩
      refine ⟨out, hout, (mapM_ok hout).imp fun invariant r hr => ?_⟩
      obtain ⟨r', hr', hon⟩ := evaluate_one_ok str actual invariant
      rw [hr, Except.ok.injEq] at hr'
      rw [hr']
      exact hon
    · rintro v kind rfl hkind hne r r' hr hr' hfail
      cases hattempt : evaluate str v actual kind with
      | error m =>
        rw [evaluate_one_of_error hkind hattempt, Except.ok.injEq] at hr
        rw [← hr] at hfail
        exact absurd hfail (by simp [unknown, verdict])
      | ok first =>
        rw [evaluate_one_of_ok hkind hattempt, Except.ok.injEq] at hr
        subst hr
        have hviolated := (evaluate_sound kind first hattempt).2.2 hfail
        obtain ⟨other, rfl⟩ := hextends.dict
        obtain ⟨second, hsecond, hstays⟩ : ∃ r, evaluate str v (.dict other) kind = .ok r ∧
            r.passed = some false :=
          fails_of_violated hne (hviolated.extends hextends hne) (by
            rintro rfl params f t hends
            refine hconvertible hextends v params f t hmem hkind hends hviolated fun hover => ?_
            obtain ⟨params', f', t', thr, edge, rate, hends', hthr, hedge, -⟩ := hviolated
            obtain ⟨rfl, rfl, rfl⟩ := hends.unique hends'
            obtain ⟨fields, rfl⟩ := dict_of_edge hedge
            obtain ⟨m, hm⟩ : ∃ m, evaluate str v (.dict fields) .maxErrorRate = .error m :=
              evaluate_overflow hends hthr hover
            rw [hm] at hattempt
            exact absurd hattempt (by simp))
        rw [evaluate_one_of_ok hkind hsecond, Except.ok.injEq] at hr'
        rw [← hr']
        exact hstays

/-- The service map with these edges from `api` to `rds`. -/
def serviceMap (rates : List Py) : Py :=
  .dict [("service_map", .dict [("edges", .list (rates.map fun rate =>
    .dict [("from", .str "api"), ("to", .str "rds"), ("calls", .int 10), ("error_rate", rate)]))])]

/-- An edge with an integer rate that no float can hold makes the evaluator give up a violation that
another edge shows. -/
theorem violation_lost : ¬VerdictsSound (fun _ => "") [.dict [("kind", .str "max_error_rate"),
        ("params", .dict [("from", .str "api"), ("to", .str "rds")])]]
      (serviceMap [.int 1]) (serviceMap [.int 1, .int (10 ^ 400)]) := by
  intro h
  have hextends : Extends (serviceMap [.int 1]) (serviceMap [.int 1, .int (10 ^ 400)]) :=
    ⟨⟨_, rfl⟩, fun raw hraw => List.mem_append_left [_] hraw, fun _ => rfl⟩
  have hbefore : ((evaluateOne (fun _ => "") (serviceMap [.int 1])
      (.dict [("kind", .str "max_error_rate"),
        ("params", .dict [("from", .str "api"), ("to", .str "rds")])])).toOption.map
          Verdict.passed) = some (some false) := by decide +kernel
  have hafter : ((evaluateOne (fun _ => "") (serviceMap [.int 1, .int (10 ^ 400)])
      (.dict [("kind", .str "max_error_rate"),
        ("params", .dict [("from", .str "api"), ("to", .str "rds")])])).toOption.map
          Verdict.passed) = some none := by decide +kernel
  have hkind : kindOf [("kind", .str "max_error_rate"),
      ("params", .dict [("from", .str "api"), ("to", .str "rds")])] = some .maxErrorRate := by
    decide +kernel
  obtain ⟨r, hr, -⟩ := evaluate_one_ok (fun _ => "") (serviceMap [.int 1])
    (.dict [("kind", .str "max_error_rate"),
      ("params", .dict [("from", .str "api"), ("to", .str "rds")])])
  obtain ⟨r', hr', -⟩ := evaluate_one_ok (fun _ => "") (serviceMap [.int 1, .int (10 ^ 400)])
    (.dict [("kind", .str "max_error_rate"),
      ("params", .dict [("from", .str "api"), ("to", .str "rds")])])
  have hstays := h.stays hextends _ List.mem_cons_self _ .maxErrorRate rfl hkind (by decide) r r'
    hr hr'
  rw [hr] at hbefore
  rw [hr'] at hafter
  have hfalse : r.passed = some false := Option.some.inj hbefore
  have hnone : r'.passed = none := Option.some.inj hafter
  rw [hstays hfalse] at hnone
  exact absurd hnone (by simp)

end AwsOps.Diagnosis
