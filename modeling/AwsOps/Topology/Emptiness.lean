import AwsOps.Foundation.Fallible
import AwsOps.Topology.TraceRebuild

/-!
# Publications over sources that returned nothing

A publication deletes what the trace graph held before, so a source that returned nothing should
have confirmed that it completed. `sweep_law_iff` says when a rebuild keeps to that. The gap is the
source whose only reasons are that a cap was reached or that its collection was incomplete: the
proof of emptiness is skipped for it, and a sibling with items authorises the publication.
-/

namespace AwsOps.Topology

open Option TraceSource

open Js (Fields get)

/-! ## What a source shows -/

/-- An object carries a marker of an error, a truncation or a collection that did not complete. -/
def Marked (o : Fields) : Prop :=
  (get o "error").isSome = true ∨ isText "error" (get o "status") = true ∨
    isTrue (get o "truncated") = true ∨
    ∃ status, get o "collectionStatus" = some status ∧ isText "ok" (some status) = false ∧
      isText "empty" (some status) = false

/-- An envelope that is there carries no marker. -/
def Unmarked (envelope : Option Fields) : Prop :=
  ∀ o ∈ envelope, ¬Marked o

/-- The envelopes of a ClickHouse payload: the payload and its `result`. -/
def UnmarkedClickHouse (payload : Js) : Prop :=
  Unmarked (object (some payload)) ∧
    ∀ o ∈ object (some payload), Unmarked (object (get o "result"))

/-- The source returned a payload that confirms its completion: the collection status is `ok` or
`empty`, and nothing that it returned carries a marker. -/
def TraceSource.Confirms : TraceSource → Prop
  | clickhouse source => ∃ payload, source.answer = some payload ∧ emptyProof payload = true ∧
      UnmarkedClickHouse payload
  | tempo source => ∃ payload traces, source.search = some payload ∧ emptyProof payload = true ∧
      Unmarked (object (some payload)) ∧
      array (prop (object (some payload)) "traces") = some traces ∧
      ∀ id ∈ foundTraces traces, ∃ child, source.trace id = some child ∧
        Unmarked (object (some child))
  | registryFailed => False
  | raises => False

def MetricsSource.Confirms : MetricsSource → Prop
  | metrics source => ∃ payload, source.answer = some payload ∧ emptyProof payload = true ∧
      Unmarked (object (some payload))
  | raises => False

/-- Nothing that the source returned is shaped like an error, malformed, truncated or missing. -/
def TraceSource.Flawless (engine : Engine) : TraceSource → Prop
  | clickhouse source => ∃ payload rows, source.answer = some payload ∧
      UnmarkedClickHouse payload ∧ (clickhouseRows payload).1 = some rows ∧
      rows.length < clickhouseRowCap ∧ ∀ row ∈ rows, (clickhouseRow engine row).2 = []
  | tempo source => ∃ payload traces, source.search = some payload ∧
      Unmarked (object (some payload)) ∧
      array (prop (object (some payload)) "traces") = some traces ∧
      traces.length < tempoTraceCap ∧
      (∀ t ∈ traces, (normalizeTempoId 16 (prop (object (some t)) "traceID")).isSome = true) ∧
      ∀ id ∈ foundTraces traces, ∃ child, source.trace id = some child ∧
        Unmarked (object (some child)) ∧ (parseTempoTrace engine id child).2 = []
  | registryFailed => False
  | raises => False

def MetricsSource.Flawless (engine : Engine) : MetricsSource → Prop
  | metrics source => ∃ payload rows, source.answer = some payload ∧
      Unmarked (object (some payload)) ∧
      array (prop (object (some payload)) "result") = some rows ∧
      ∀ row ∈ rows, (parseSample engine row).2 = []
  | raises => False

/-- What the answers of a source amount to, before emptiness asks for a proof. -/
structure Evidence where
  noItems : Bool
  reasons : List Reason
  missingChild : Bool
  proof : Bool

def Collected.evidence {α : Type} (c : Collected α) (payload : Js) : Evidence where
  noItems := c.items.isEmpty
  reasons := c.reasons
  missingChild := c.missingChild
  proof := emptyProof payload

/-- The evidence of a trace source, unless it has no configuration or its answer gives no rows. -/
def TraceSource.evidence (engine : Engine) (endMs : Rat) : TraceSource → Option Evidence
  | clickhouse source =>
    if source.resolved.reason.isSome || !validWindow (readWindow traceWindowMins endMs) then none
    else source.answer.bind fun payload =>
      (clickhouseRows payload).1.map fun rows =>
        (clickhouseCollected engine source.resolved.sourceId (readWindow traceWindowMins endMs)
          clickhouseRowCap rows (clickhouseRows payload).2).evidence payload
  | tempo source =>
    if source.resolved.reason.isSome || !validWindow (readWindow traceWindowMins endMs) then none
    else source.search.bind fun payload =>
      let reasons := envelopeReasons (object (some payload))
      if reasons.contains .query_failed then none
      else (array (prop (object (some payload)) "traces")).map fun traces =>
        (fetchTraces engine source.trace source.resolved.sourceId
          (readWindow traceWindowMins endMs) 1000
          { items := [], reasons := reasons ++ searchReasons traces }
          (foundTraces traces)).evidence payload
  | registryFailed => none
  | raises => none

def MetricsSource.evidence (engine : Engine) (endMs : Rat) : MetricsSource → Option Evidence
  | metrics source =>
    if source.resolved.reason.isSome || !validWindow (readWindow traceWindowMins endMs) then none
    else source.answer.map fun payload =>
      let parsed := parseServiceGraphCalls engine payload
      { noItems := parsed.1.isEmpty, reasons := parsed.2, missingChild := false,
        proof := emptyProof payload }
  | raises => none

/-- The reasons say no more than that a cap was reached or the collection was incomplete. -/
def Weak (reasons : List Reason) : Prop :=
  ∀ reason ∈ reasons, reason = .cap_reached ∨ reason = .incomplete_collection

/-- The source holds a publication back. -/
def Evidence.Fails (e : Evidence) : Prop :=
  e.missingChild = true ∨ .trace_fetch_failed ∈ e.reasons ∨ .empty_not_confirmed ∈ e.reasons ∨
    (e.noItems = true ∧ (¬Weak e.reasons ∨ (e.reasons = [] ∧ e.proof = false)))

/-- The source gave nothing, and its reasons are weak. -/
def Evidence.Tolerated (e : Evidence) : Prop :=
  e.noItems = true ∧ e.reasons ≠ [] ∧ Weak e.reasons ∧ e.missingChild = false

/-- What keeps a rebuild from publishing: there is no source, or one fails, or none gave anything
and one was only tolerated. -/
def HeldBack (evidence : List (Option Evidence)) : Prop :=
  evidence = [] ∨ (∃ e ∈ evidence, ∀ e' ∈ e, e'.Fails) ∨
    ((∀ e ∈ evidence, ∀ e' ∈ e, e'.noItems = true) ∧ ∃ e ∈ evidence, ∃ e' ∈ e, e'.reasons ≠ [])

section Gate

/-- A read as the gate sees it comes from the evidence. -/
def Shows (e : Option Evidence) (read : ReadSummary) : Prop :=
  match e with
  | none => read.noItems = true ∧ (read.status = .error ∨ read.status = .unavailable)
  | some e => read.noItems = e.noItems ∧
      (e.Fails ↔ (read.status = .error ∨ read.status = .unavailable ∨ read.canSweep = false)) ∧
      (¬e.Fails → (read.status = .partly ↔ e.reasons ≠ [])) ∧
      (read.status = .ok → e.reasons = [])

theorem blocks_iff {e : Option Evidence} {read : ReadSummary} (h : Shows e read) :
    (∀ e' ∈ e, e'.Fails) ↔ (read.status = .error ∨ read.status = .unavailable) ∨
        (read.status ≠ .error ∧ read.status ≠ .unavailable ∧ read.canSweep = false) := by
  cases e with
  | none => exact ⟨fun _ => .inl h.2, fun _ e' he' => by cases he'⟩
  | some e =>
    obtain ⟨-, hfails, -, -⟩ := h
    have hone : (∀ e' ∈ some e, e'.Fails) ↔ e.Fails := by simp
    rw [hone, hfails]
    by_cases herror : read.status = .error <;>
      by_cases hunavailable : read.status = .unavailable <;>
      simp [herror, hunavailable]

theorem held_back_iff {evidence : List (Option Evidence)} {reads : List ReadSummary}
    (h : List.Forall₂ Shows evidence reads) : heldBack reads = true ↔ HeldBack evidence := by
  have hforth := forall₂_mem_left h
  have hback := forall₂_mem_right h
  have hempty : reads = [] ↔ evidence = [] := by
    rw [← List.length_eq_zero_iff, ← h.length_eq, List.length_eq_zero_iff]
  have hblocks : (∃ read ∈ reads, (read.status = .error ∨ read.status = .unavailable) ∨
      read.canSweep = false) ↔ ∃ e ∈ evidence, ∀ e' ∈ e, e'.Fails := by
    constructor
    · rintro ⟨read, hread, hcond⟩
      obtain ⟨e, he, hshows⟩ := hback read hread
      refine ⟨e, he, (blocks_iff hshows).mpr ?_⟩
      tauto
    · rintro ⟨e, he, hfails⟩
      obtain ⟨read, hread, hshows⟩ := hforth e he
      refine ⟨read, hread, ?_⟩
      have := (blocks_iff hshows).mp hfails
      tauto
  have hgate : heldBack reads = true ↔ reads = [] ∨
      (∃ read ∈ reads, (read.status = .error ∨ read.status = .unavailable) ∨
        read.canSweep = false) ∨
      ((∃ read ∈ reads, read.status = .partly) ∧ ∀ read ∈ reads, read.noItems = true) := by
    simp only [heldBack, isPartial, Bool.or_eq_true, Bool.and_eq_true, List.isEmpty_iff,
      List.any_eq_true, List.all_eq_true, beq_iff_eq, Bool.not_eq_true']
    constructor
    · rintro (((hnone | ⟨read, hread, hstatus⟩) | ⟨read, hread, hsweep⟩) |
        ⟨⟨read, hread, hsweep⟩ | hpart, hall⟩)
      · exact .inl hnone
      · exact .inr (.inl ⟨read, hread, .inl hstatus⟩)
      · exact .inr (.inl ⟨read, hread, .inr hsweep⟩)
      · exact .inr (.inl ⟨read, hread, .inr hsweep⟩)
      · exact .inr (.inr ⟨hpart, hall⟩)
    · rintro (hnone | ⟨read, hread, hstatus | hsweep⟩ | ⟨hpart, hall⟩)
      · exact .inl (.inl (.inl hnone))
      · exact .inl (.inl (.inr ⟨read, hread, hstatus⟩))
      · exact .inl (.inr ⟨read, hread, hsweep⟩)
      · exact .inr ⟨.inr hpart, hall⟩
  rw [hgate, hblocks, hempty, HeldBack]
  refine or_congr_right ?_
  by_cases hfails : ∃ e ∈ evidence, ∀ e' ∈ e, e'.Fails
  · exact iff_of_true (.inl hfails) (.inl hfails)
  -- From here on every source gave a collection that does not fail.
  have hgiven : ∀ e ∈ evidence, ∃ e', e = some e' ∧ ¬e'.Fails := by
    intro e he
    cases e with
    | none => exact (hfails ⟨none, he, fun e' he' => by cases he'⟩).elim
    | some e' => exact ⟨e', rfl, fun hbad => hfails ⟨some e', he, by simpa using hbad⟩⟩
  refine or_congr_right ?_
  constructor
  · rintro ⟨⟨read, hread, hpart⟩, hall⟩
    refine ⟨fun e he e' he' => ?_, ?_⟩
    · obtain ⟨read', hread', hshows⟩ := hforth e he
      cases he'
      rw [← hshows.1]
      exact hall read' hread'
    · obtain ⟨e, he, hshows⟩ := hback read hread
      obtain ⟨e', rfl, hgood⟩ := hgiven e he
      exact ⟨some e', he, e', rfl, (hshows.2.2.1 hgood).mp hpart⟩
  · rintro ⟨hall, e, he, e', he', hreasons⟩
    refine ⟨?_, fun read hread => ?_⟩
    · obtain ⟨read, hread, hshows⟩ := hforth e he
      obtain ⟨e'', rfl, hgood⟩ := hgiven e he
      cases he'
      exact ⟨read, hread, (hshows.2.2.1 hgood).mpr hreasons⟩
    · obtain ⟨e, he, hshows⟩ := hback read hread
      obtain ⟨e', rfl, -⟩ := hgiven e he
      rw [hshows.1]
      exact hall _ he e' rfl

end Gate

section Reads

variable {α : Type}

/-- The reasons with which a read of nothing is partial. -/
def mild : List Reason :=
  [.cap_reached, .incomplete_collection, .empty_not_confirmed]

variable {noItems : Bool} {reasons : List Reason}

theorem status_ok_iff : statusOf noItems reasons.eraseDups = .ok ↔ reasons = [] := by
  unfold statusOf
  cases reasons with
  | nil => simp
  | cons r rest =>
    have hne : (r :: rest).eraseDups.isEmpty = false := by simp [List.eraseDups_cons]
    rw [hne]
    constructor
    · intro h
      split at h
      · rename_i hfalse
        cases hfalse
      · split at h <;> cases h
    · intro h
      cases h

theorem status_error_iff : statusOf noItems reasons.eraseDups = .error ↔
      noItems = true ∧ ∃ reason ∈ reasons, reason ∉ mild := by
  unfold statusOf
  cases reasons with
  | nil => simp
  | cons r rest =>
    have hne : (r :: rest).eraseDups.isEmpty = false := by simp [List.eraseDups_cons]
    rw [hne, if_neg Bool.false_ne_true]
    have hall : (r :: rest).eraseDups.all [.cap_reached, .incomplete_collection,
        .empty_not_confirmed].contains = true ↔ ∀ reason ∈ r :: rest, reason ∈ mild := by
      simp [mild]
    cases noItems with
    | false => simp
    | true =>
      rw [Bool.not_true, Bool.false_or]
      split
      · rename_i hmild
        rw [hall] at hmild
        refine ⟨fun h => (by cases h), fun ⟨_, reason, hmem, hbad⟩ => ?_⟩
        exact absurd (hmild reason hmem) hbad
      · rename_i hstrong
        rw [hall] at hstrong
        obtain ⟨reason, hbad⟩ := not_forall.mp hstrong
        exact ⟨fun _ => ⟨rfl, reason, Classical.not_imp.mp hbad⟩, fun _ => rfl⟩

theorem status_unavailable : statusOf noItems reasons ≠ .unavailable := by
  unfold statusOf
  split
  · exact fun h => by cases h
  · split <;> exact fun h => by cases h

theorem status_partly_iff : statusOf noItems reasons.eraseDups = .partly ↔
      reasons ≠ [] ∧ ¬(noItems = true ∧ ∃ reason ∈ reasons, reason ∉ mild) := by
  rw [← status_error_iff, ne_eq, ← @status_ok_iff noItems reasons]
  have hnot := @status_unavailable noItems reasons.eraseDups
  cases h : statusOf noItems reasons.eraseDups with
  | unavailable => exact absurd h hnot
  | _ => simp

theorem shows_error (sourceId : String) (window : ReadWindow) {reason : Reason}
    (hmem : reason ∈ reasons) (hstrong : reason ∉ mild) :
    Shows none (readResult sourceId window ([] : List α) reasons).summary := by
  refine ⟨rfl, .inl ?_⟩
  show statusOf true reasons.eraseDups = .error
  exact status_error_iff.mpr ⟨rfl, reason, hmem, hstrong⟩

theorem shows_unresolved (sourceId : String) (window : ReadWindow) (reason : Reason) :
    Shows none (unresolved sourceId window reason : SourceRead α).summary := by
  refine ⟨rfl, ?_⟩
  show (if reason = .missing_configuration then ReadStatus.unavailable else .error) = .error ∨
    (if reason = .missing_configuration then ReadStatus.unavailable else .error) = .unavailable
  split
  · exact .inr rfl
  · exact .inl rfl

theorem mem_required {payload : Js} {items : List α} {reason : Reason}
    (h : reason ∈ reasons) : reason ∈ requireEmptyProof payload items reasons := by
  unfold requireEmptyProof
  split
  · rename_i hempty
    simp only [Bool.and_eq_true, List.isEmpty_iff] at hempty
    rw [hempty.1.2] at h
    cases h
  · exact h

theorem strong_of_not_weak (h : ¬Weak reasons) :
    ∃ reason ∈ reasons, ¬(reason = .cap_reached ∨ reason = .incomplete_collection) := by
  obtain ⟨reason, hbad⟩ := not_forall.mp h
  exact ⟨reason, Classical.not_imp.mp hbad⟩

theorem shows_collected (c : Collected α) (sourceId : String) (window : ReadWindow) (payload : Js) :
    Shows (some (c.evidence payload)) (c.read sourceId window payload).summary := by
  have hstatus : (c.read sourceId window payload).summary.status =
      statusOf c.items.isEmpty (requireEmptyProof payload c.items c.reasons).eraseDups := rfl
  have hsweep : (c.read sourceId window payload).summary.canSweep = false ↔ c.missingChild = true ∨
        ∃ reason ∈ requireEmptyProof payload c.items c.reasons,
          reason = .empty_not_confirmed ∨ reason = .trace_fetch_failed := by
    show (!(requireEmptyProof payload c.items c.reasons).any
      [.empty_not_confirmed, .trace_fetch_failed].contains && !c.missingChild) = false ↔ _
    cases c.missingChild <;> simp
  have hfails : (c.read sourceId window payload).summary.status = .error ∨
      (c.read sourceId window payload).summary.status = .unavailable ∨
      (c.read sourceId window payload).summary.canSweep = false ↔
      (c.items.isEmpty = true ∧ ∃ reason ∈ requireEmptyProof payload c.items c.reasons,
        reason ∉ mild) ∨ c.missingChild = true ∨
        ∃ reason ∈ requireEmptyProof payload c.items c.reasons,
          reason = .empty_not_confirmed ∨ reason = .trace_fetch_failed := by
    rw [hstatus, status_error_iff, hsweep]
    simp [status_unavailable]
  have hnot : ¬(c.evidence payload).Fails →
      requireEmptyProof payload c.items c.reasons = c.reasons := by
    intro hgood
    refine if_neg fun hmissing => hgood ?_
    simp only [Bool.and_eq_true, List.isEmpty_iff, Bool.not_eq_true'] at hmissing
    obtain ⟨⟨hitems, hreasons⟩, hproof⟩ := hmissing
    exact .inr (.inr (.inr ⟨List.isEmpty_iff.mpr hitems, .inr ⟨hreasons, hproof⟩⟩))
  refine ⟨rfl, ?_, fun hgood => ?_, fun hok => ?_⟩
  · rw [hfails]
    constructor
    · rintro (hmissing | hfetch | hproof | ⟨hitems, hstrong | ⟨hreasons, hproof⟩⟩)
      · exact .inr (.inl hmissing)
      · exact .inr (.inr ⟨_, mem_required hfetch, .inr rfl⟩)
      · exact .inr (.inr ⟨_, mem_required hproof, .inl rfl⟩)
      · obtain ⟨reason, hmem, hbad⟩ := strong_of_not_weak hstrong
        by_cases henc : reason = .empty_not_confirmed
        · exact .inr (.inr ⟨reason, mem_required hmem, .inl henc⟩)
        · refine .inl ⟨hitems, reason, mem_required hmem, ?_⟩
          simp only [mild, List.mem_cons, List.not_mem_nil, or_false]
          tauto
      · have hrequired : requireEmptyProof payload c.items c.reasons = [.empty_not_confirmed] := by
          have hitems' : c.items.isEmpty = true := hitems
          have hreasons' : c.reasons = [] := hreasons
          have hproof' : emptyProof payload = false := hproof
          simp [requireEmptyProof, hitems', hreasons', hproof']
        rw [hrequired]
        exact .inr (.inr ⟨_, List.mem_singleton.mpr rfl, .inl rfl⟩)
    · intro h
      by_contra hgood
      rw [hnot hgood] at h
      refine hgood ?_
      rcases h with ⟨hitems, reason, hmem, hbad⟩ | hmissing | ⟨reason, hmem, rfl | rfl⟩
      · refine .inr (.inr (.inr ⟨hitems, .inl fun hweak => hbad ?_⟩))
        rcases hweak reason hmem with rfl | rfl <;> simp [mild]
      · exact .inl hmissing
      · exact .inr (.inr (.inl hmem))
      · exact .inr (.inl hmem)
  · rw [hstatus, status_partly_iff, hnot hgood]
    refine and_iff_left fun ⟨hitems, reason, hmem, hbad⟩ => hgood ?_
    refine .inr (.inr (.inr ⟨hitems, .inl fun hweak => hbad ?_⟩))
    rcases hweak reason hmem with rfl | rfl <;> simp [mild]
  · rw [hstatus, status_ok_iff] at hok
    refine List.eq_nil_iff_forall_not_mem.mpr fun reason hmem => ?_
    have hin : reason ∈ requireEmptyProof payload c.items c.reasons := mem_required hmem
    rw [hok] at hin
    cases hin

end Reads

section Sources

variable {engine : Engine} {endMs : Rat}

theorem limit_of_cap : limitOf traceSpanCap = some 1000 := by
  simp [limitOf, traceSpanCap]

theorem clickhouse_rows_none {payload : Js} {reasons : List Reason}
    (h : clickhouseRows payload = (none, reasons)) :
    .query_failed ∈ reasons ∨ .malformed_payload ∈ reasons := by
  unfold clickhouseRows at h
  split at h
  · cases h
  · dsimp only at h
    split at h
    · rename_i hfailed
      cases h
      exact .inl (List.contains_iff_mem.mp hfailed)
    · split at h
      · cases h
      · cases h
        exact .inr (List.mem_append_right _ (List.mem_singleton.mpr rfl))

theorem clickhouse_shows (source : ClickHouseOtelTraceSource) :
    Shows ((clickhouse source).evidence engine endMs)
      (source.recentSpans engine traceWindowMins traceSpanCap endMs).summary := by
  unfold evidence ClickHouseOtelTraceSource.recentSpans
  dsimp only
  cases hreason : source.resolved.reason with
  | some reason =>
    rw [isSome_some, Bool.true_or, if_pos rfl]
    exact shows_unresolved _ _ _
  | none =>
    rw [isSome_none, Bool.false_or, limit_of_cap]
    cases hvalid : validWindow (readWindow traceWindowMins endMs) with
    | false => exact shows_error _ _ (List.mem_singleton.mpr rfl) (by decide)
    | true =>
      dsimp only
      rw [Bool.not_true, if_neg Bool.false_ne_true, if_neg (by decide)]
      cases source.answer with
      | none => exact shows_error _ _ (List.mem_singleton.mpr rfl) (by decide)
      | some payload =>
        rw [bind_some]
        dsimp only
        rcases hrows : clickhouseRows payload with ⟨_ | rows, reasons⟩
        · rcases clickhouse_rows_none hrows with hmem | hmem
          · exact shows_error _ _ hmem (by decide)
          · exact shows_error _ _ hmem (by decide)
        · exact shows_collected _ _ _ _

theorem tempo_shows (source : TempoTraceSource) : Shows ((tempo source).evidence engine endMs)
      (source.recentSpans engine traceWindowMins traceSpanCap endMs).summary := by
  unfold evidence TempoTraceSource.recentSpans
  dsimp only
  cases hreason : source.resolved.reason with
  | some reason =>
    rw [isSome_some, Bool.true_or, if_pos rfl]
    exact shows_unresolved _ _ _
  | none =>
    rw [isSome_none, Bool.false_or, limit_of_cap]
    cases hvalid : validWindow (readWindow traceWindowMins endMs) with
    | false => exact shows_error _ _ (List.mem_singleton.mpr rfl) (by decide)
    | true =>
      dsimp only
      rw [Bool.not_true, if_neg Bool.false_ne_true, if_neg (by decide)]
      cases source.search with
      | none => exact shows_error _ _ (List.mem_singleton.mpr rfl) (by decide)
      | some payload =>
        rw [bind_some]
        dsimp only
        split
        · rename_i hfailed
          exact shows_error _ _ (List.contains_iff_mem.mp hfailed) (by decide)
        · cases array (prop (object (some payload)) "traces") with
          | none =>
            exact shows_error _ _ (List.mem_append_right _ (List.mem_singleton.mpr rfl))
              (by decide)
          | some traces => exact shows_collected _ _ _ _

theorem metrics_shows (source : MetricsCallsSource) :
    Shows ((MetricsSource.metrics source).evidence engine endMs)
      (source.calls engine traceWindowMins endMs).summary := by
  unfold MetricsSource.evidence MetricsCallsSource.calls
  dsimp only
  cases hreason : source.resolved.reason with
  | some reason =>
    rw [isSome_some, Bool.true_or, if_pos rfl]
    exact shows_unresolved _ _ _
  | none =>
    rw [isSome_none, Bool.false_or]
    cases hvalid : validWindow (readWindow traceWindowMins endMs) with
    | false => exact shows_error _ _ (List.mem_singleton.mpr rfl) (by decide)
    | true =>
      rw [Bool.not_true, if_neg Bool.false_ne_true, if_neg Bool.false_ne_true]
      cases source.answer with
      | none => exact shows_error _ _ (List.mem_singleton.mpr rfl) (by decide)
      | some payload =>
        have hshows := shows_collected
          ({ items := (parseServiceGraphCalls engine payload).1.map
              (ServiceGraphCall.at source.resolved.sourceId)
             reasons := (parseServiceGraphCalls engine payload).2 } :
            Collected ServiceGraphCall)
          source.resolved.sourceId (readWindow traceWindowMins endMs) payload
        simpa [Collected.evidence] using hshows

theorem trace_shows (source : TraceSource) (index : Nat) :
    Shows (source.evidence engine endMs) (source.read engine endMs index).summary := by
  cases source with
  | clickhouse source => exact clickhouse_shows source
  | tempo source => exact tempo_shows source
  | registryFailed => exact ⟨rfl, .inl rfl⟩
  | raises => exact ⟨rfl, .inl rfl⟩

theorem calls_shows (source : MetricsSource) (index : Nat) :
    Shows (source.evidence engine endMs) (source.read engine endMs index).summary := by
  cases source with
  | metrics source => exact metrics_shows source
  | raises => exact ⟨rfl, .inl rfl⟩

end Sources

section Flawless

variable {engine : Engine} {endMs : Rat}

theorem unmarked_of_no_reasons {o : Option Fields} (h : envelopeReasons o = []) : Unmarked o := by
  intro fields hfields hmarked
  cases hfields
  simp only [envelopeReasons, List.append_eq_nil_iff, ite_eq_right_iff, Bool.or_eq_true,
    imp_false, List.cons_ne_nil, not_or] at h
  obtain ⟨⟨⟨herror, hstatus⟩, htruncated⟩, hcollection⟩ := h
  rcases hmarked with hmark | hmark | hmark | ⟨status, hmark, hok, hempty⟩
  · exact herror hmark
  · exact hstatus hmark
  · exact htruncated hmark
  · have hprop : prop (some fields) "collectionStatus" = some status := hmark
    rw [hprop] at hcollection
    simp only [hok, hempty, Bool.false_eq_true] at hcollection
    split at hcollection
    · cases hcollection
    · split at hcollection <;> cases hcollection

theorem unmarked_clickhouse {payload : Js} {rows : List Js}
    (h : clickhouseRows payload = (some rows, [])) : UnmarkedClickHouse payload := by
  unfold clickhouseRows at h
  split at h
  · exact ⟨fun _ ho => (by cases ho), fun _ ho => (by cases ho)⟩
  · dsimp only at h
    split at h
    · cases h
    · have hreasons : envelopeReasons (object (some payload)) ++
          envelopeReasons (object (prop (object (some payload)) "result")) = [] := by
        split at h <;> simp_all
      obtain ⟨houter, hinner⟩ := List.append_eq_nil_iff.mp hreasons
      refine ⟨unmarked_of_no_reasons houter, fun o ho => ?_⟩
      rw [mem_def.mp ho] at hinner
      exact unmarked_of_no_reasons hinner

variable {traceId sourceId : String} {trace : String → Option Js} {window : ReadWindow}
  {c : Collected TraceSpan}

theorem unmarked_trace {payload : Js}
    (h : (parseTempoTrace engine traceId payload).2 = []) : Unmarked (object (some payload)) := by
  refine unmarked_of_no_reasons ?_
  unfold parseTempoTrace at h
  dsimp only at h
  split at h
  · exact h
  · split at h
    · exact (List.append_eq_nil_iff.mp h).1
    · split at h
      · exact (List.append_eq_nil_iff.mp h).1
      · exact (List.append_eq_nil_iff.mp h).1

theorem fetch_flawless {limit : Nat}
    (h : (fetchTrace engine trace sourceId window limit c traceId).reasons = []) :
    c.reasons = [] ∧ ∃ child, trace traceId = some child ∧
      (parseTempoTrace engine traceId child).2 = [] := by
  unfold fetchTrace at h
  split at h
  · simp at h
  · rename_i child hchild
    simp only [List.append_eq_nil_iff] at h
    exact ⟨h.1.1.1, child, hchild, h.1.1.2⟩

theorem fetches_flawless {limit : Nat} {ids : List String}
    (h : (fetchTraces engine trace sourceId window limit c ids).reasons = []) :
    c.reasons = [] ∧ ∀ id ∈ ids, ∃ child, trace id = some child ∧
      (parseTempoTrace engine id child).2 = [] := by
  induction ids generalizing c with
  | nil => exact ⟨h, fun id hid => (by cases hid)⟩
  | cons traceId rest ih =>
    unfold fetchTraces at h
    split at h
    · simp at h
    · obtain ⟨hreasons, hrest⟩ := ih h
      obtain ⟨hc, hfetched⟩ := fetch_flawless hreasons
      refine ⟨hc, fun id hid => ?_⟩
      rcases List.mem_cons.mp hid with rfl | hid
      · exact hfetched
      · exact hrest id hid

variable {e : Evidence}

theorem clickhouse_flawless {source : ClickHouseOtelTraceSource}
    (he : (clickhouse source).evidence engine endMs = some e)
    (hreasons : e.reasons = []) : (clickhouse source).Flawless engine := by
  unfold evidence at he
  dsimp only at he
  split at he
  · cases he
  obtain ⟨payload, hanswer, he⟩ := bind_eq_some_iff.mp he
  obtain ⟨rows, hrows, rfl⟩ := map_eq_some_iff.mp he
  simp only [Collected.evidence, clickhouseCollected, List.append_eq_nil_iff, ite_eq_right_iff,
    List.cons_ne_nil, imp_false, not_le, List.flatMap_eq_nil_iff] at hreasons
  obtain ⟨⟨henvelope, hlength⟩, hclean⟩ := hreasons
  rw [List.take_of_length_le hlength.le] at hclean
  exact ⟨payload, rows, hanswer, unmarked_clickhouse (Prod.ext hrows henvelope), hrows, hlength,
    hclean⟩

theorem tempo_flawless {source : TempoTraceSource}
    (he : (tempo source).evidence engine endMs = some e) (hreasons : e.reasons = []) :
    (tempo source).Flawless engine := by
  unfold evidence at he
  dsimp only at he
  split at he
  · cases he
  obtain ⟨payload, hsearch, he⟩ := bind_eq_some_iff.mp he
  split at he
  · cases he
  obtain ⟨traces, htraces, rfl⟩ := map_eq_some_iff.mp he
  obtain ⟨hc, hfetched⟩ := fetches_flawless hreasons
  simp only [searchReasons, List.append_eq_nil_iff, ite_eq_right_iff, List.cons_ne_nil, imp_false,
    not_le, List.flatMap_eq_nil_iff, isNone_iff_eq_none] at hc
  obtain ⟨henvelope, hlength, hids⟩ := hc
  refine ⟨payload, traces, hsearch, unmarked_of_no_reasons henvelope, htraces, hlength, ?_, ?_⟩
  · exact fun t ht => isSome_iff_ne_none.mpr (hids t ht)
  · intro id hid
    obtain ⟨child, hchild, hparse⟩ := hfetched id hid
    exact ⟨child, hchild, unmarked_trace hparse, hparse⟩

theorem metrics_flawless {source : MetricsCallsSource}
    (he : (MetricsSource.metrics source).evidence engine endMs = some e)
    (hreasons : e.reasons = []) : (MetricsSource.metrics source).Flawless engine := by
  unfold MetricsSource.evidence at he
  dsimp only at he
  split at he
  · cases he
  obtain ⟨payload, hanswer, rfl⟩ := map_eq_some_iff.mp he
  have hparse : (parseServiceGraphCalls engine payload).2 = [] := hreasons
  unfold parseServiceGraphCalls at hparse
  dsimp only at hparse
  split at hparse
  · rename_i hfailed
    have hnone : envelopeReasons (object (some payload)) = [] := hparse
    rw [hnone] at hfailed
    cases hfailed
  split at hparse
  · rename_i rows hrows
    split at hparse
    · obtain ⟨henvelope, hclean⟩ := List.append_eq_nil_iff.mp hparse
      refine ⟨payload, rows, hanswer, unmarked_of_no_reasons henvelope, hrows, fun row hrow => ?_⟩
      exact List.flatMap_eq_nil_iff.mp hclean _ (List.mem_map_of_mem hrow)
    · exact absurd (List.append_eq_nil_iff.mp hparse).2 (List.cons_ne_nil _ _)
  · exact absurd (List.append_eq_nil_iff.mp hparse).2 (List.cons_ne_nil _ _)

theorem trace_flawless {source : TraceSource} (he : source.evidence engine endMs = some e)
    (hreasons : e.reasons = []) :
    source.Flawless engine := by
  cases source with
  | clickhouse source => exact clickhouse_flawless he hreasons
  | tempo source => exact tempo_flawless he hreasons
  | registryFailed => cases he
  | raises => cases he

theorem calls_flawless {source : MetricsSource} (he : source.evidence engine endMs = some e)
    (hreasons : e.reasons = []) :
    source.Flawless engine := by
  cases source with
  | metrics source => exact metrics_flawless he hreasons
  | raises => cases he

end Flawless

section Law

variable {engine : Engine} {endMs : Rat}

/-- A rebuild keeps to the law of publications: one that publishes has of every source an item or a
confirmed completion, and no read of a flawed answer has the status `ok`. -/
def SweepLaw (engine : Engine) (db : TraceDatabase) (sources : List TraceSource)
    (metricsSources : List MetricsSource) (endMs : Rat) : Prop :=
  (∀ attempt, rebuildTraceGraph engine db sources metricsSources endMs = some attempt →
    attempt.publish = true →
      (∀ (i : Nat) (source : TraceSource), sources[i]? = some source →
        (source.read engine endMs i).items ≠ [] ∨ source.Confirms) ∧
      ∀ (i : Nat) (source : MetricsSource), metricsSources[i]? = some source →
        (source.read engine endMs i).items ≠ [] ∨ source.Confirms) ∧
    (∀ (i : Nat) (source : TraceSource), sources[i]? = some source →
      (source.read engine endMs i).status = .ok → source.Flawless engine) ∧
    ∀ (i : Nat) (source : MetricsSource), metricsSources[i]? = some source →
      (source.read engine endMs i).status = .ok → source.Flawless engine

/-- What the sources of a rebuild show. -/
def evidenceOf (engine : Engine) (sources : List TraceSource) (metricsSources : List MetricsSource)
    (endMs : Rat) : List (Option Evidence) :=
  sources.map (·.evidence engine endMs) ++ metricsSources.map (·.evidence engine endMs)

/-- Every source that was tolerated with nothing confirmed its completion. -/
def ToleratedConfirm (engine : Engine) (sources : List TraceSource)
    (metricsSources : List MetricsSource) (endMs : Rat) : Prop :=
  (∀ source ∈ sources, ∀ e ∈ source.evidence engine endMs, e.Tolerated → source.Confirms) ∧
    ∀ source ∈ metricsSources, ∀ e ∈ source.evidence engine endMs, e.Tolerated → source.Confirms

theorem trace_confirms {source : TraceSource} {e : Evidence}
    (he : source.evidence engine endMs = some e) (hflawless : source.Flawless engine)
    (hproof : e.proof = true) : source.Confirms := by
  cases source with
  | clickhouse source =>
    unfold evidence at he
    dsimp only at he
    split at he
    · cases he
    obtain ⟨payload, hanswer, he⟩ := bind_eq_some_iff.mp he
    obtain ⟨rows, -, rfl⟩ := map_eq_some_iff.mp he
    obtain ⟨payload', rows', hanswer', hunmarked, -⟩ := hflawless
    cases hanswer.symm.trans hanswer'
    exact ⟨payload, hanswer, hproof, hunmarked⟩
  | tempo source =>
    unfold evidence at he
    dsimp only at he
    split at he
    · cases he
    obtain ⟨payload, hsearch, he⟩ := bind_eq_some_iff.mp he
    split at he
    · cases he
    obtain ⟨traces, htraces, rfl⟩ := map_eq_some_iff.mp he
    obtain ⟨payload', traces', hsearch', hunmarked, htraces', -, -, hfetched⟩ := hflawless
    cases hsearch.symm.trans hsearch'
    refine ⟨payload, traces', hsearch, hproof, hunmarked, htraces', fun id hid => ?_⟩
    obtain ⟨child, hchild, hclean, -⟩ := hfetched id hid
    exact ⟨child, hchild, hclean⟩
  | registryFailed => cases he
  | raises => cases he

theorem calls_confirm {source : MetricsSource} {e : Evidence}
    (he : source.evidence engine endMs = some e) (hflawless : source.Flawless engine)
    (hproof : e.proof = true) : source.Confirms := by
  cases source with
  | metrics source =>
    unfold MetricsSource.evidence at he
    dsimp only at he
    split at he
    · cases he
    obtain ⟨payload, hanswer, rfl⟩ := map_eq_some_iff.mp he
    obtain ⟨payload', rows, hanswer', hunmarked, -⟩ := hflawless
    cases hanswer.symm.trans hanswer'
    exact ⟨payload, hanswer, hproof, hunmarked⟩
  | raises => cases he

theorem tolerated_or_proved {e : Evidence} (hgood : ¬e.Fails) (hnone : e.noItems = true) :
    e.Tolerated ∨ (e.reasons = [] ∧ e.proof = true) := by
  have hmissing : e.missingChild = false :=
    Bool.eq_false_iff.mpr fun hmissing => hgood (.inl hmissing)
  have hweak : Weak e.reasons := by
    by_contra hstrong
    exact hgood (.inr (.inr (.inr ⟨hnone, .inl hstrong⟩)))
  by_cases hreasons : e.reasons = []
  · refine .inr ⟨hreasons, ?_⟩
    by_contra hproof
    rw [Bool.not_eq_true] at hproof
    exact hgood (.inr (.inr (.inr ⟨hnone, .inr ⟨hreasons, hproof⟩⟩)))
  · exact .inl ⟨hnone, hreasons, hweak, hmissing⟩

theorem reads_show (sources : List TraceSource) (metricsSources : List MetricsSource) :
    List.Forall₂ Shows (evidenceOf engine sources metricsSources endMs)
      ((sources.zipIdx.map fun (source, i) => source.read engine endMs i).map SourceRead.summary ++
        (metricsSources.zipIdx.map fun (source, i) => source.read engine endMs i).map
          SourceRead.summary) := by
  have hspans : ∀ (sources : List TraceSource) (k : Nat),
      List.Forall₂ Shows (sources.map (·.evidence engine endMs))
        (((sources.zipIdx k).map fun (source, i) => source.read engine endMs i).map
          SourceRead.summary) := by
    intro sources
    induction sources with
    | nil => exact fun _ => .nil
    | cons source rest ih => exact fun k => .cons (trace_shows source k) (ih (k + 1))
  have hcalls : ∀ (sources : List MetricsSource) (k : Nat),
      List.Forall₂ Shows (sources.map (·.evidence engine endMs))
        (((sources.zipIdx k).map fun (source, i) => source.read engine endMs i).map
          SourceRead.summary) := by
    intro sources
    induction sources with
    | nil => exact fun _ => .nil
    | cons source rest ih => exact fun k => .cons (calls_shows source k) (ih (k + 1))
  exact List.rel_append (hspans sources 0) (hcalls metricsSources 0)

theorem publishes_iff (db : TraceDatabase) (sources : List TraceSource)
    (metricsSources : List MetricsSource) :
    (∃ attempt, rebuildTraceGraph engine db sources metricsSources endMs = some attempt ∧
      attempt.publish = true) ↔
      db.ready = true ∧ ¬HeldBack (evidenceOf engine sources metricsSources endMs) := by
  rw [← held_back_iff (reads_show sources metricsSources)]
  unfold rebuildTraceGraph
  cases db.ready with
  | false => simp
  | true =>
    dsimp only
    rw [Bool.not_true, if_neg Bool.false_ne_true]
    split
    · rename_i hheld
      rw [hheld]
      simp [TraceAttempt.publish]
    · rename_i hfree
      rw [and_iff_right rfl, iff_true_right hfree]
      exact ⟨_, rfl, rfl⟩

variable {e : Option Evidence}

theorem no_items_of_shows {α : Type} {read : SourceRead α}
    (hshows : Shows e read.summary) : read.items = [] ↔ ∀ e' ∈ e, e'.noItems = true := by
  rw [← List.isEmpty_iff]
  have hsummary : read.summary.noItems = read.items.isEmpty := rfl
  cases e with
  | none => exact iff_of_true (hsummary ▸ hshows.1) fun _ he => by cases he
  | some e =>
    rw [← hsummary, hshows.1]
    simp

theorem reasons_of_ok {read : ReadSummary} (hshows : Shows e read)
    (hok : read.status = .ok) : ∃ e', e = some e' ∧ e'.reasons = [] := by
  cases e with
  | none => rcases hshows.2 with h | h <;> exact absurd (h.symm.trans hok) (by decide)
  | some e => exact ⟨e, rfl, hshows.2.2.2 hok⟩

theorem item_or_confirmed_iff {α : Type} {read : SourceRead α} {confirms : Prop}
    (hshows : Shows e read.summary) (hgood : ¬∀ e' ∈ e, e'.Fails)
    (hconfirm : ∀ e' ∈ e, e'.reasons = [] → e'.proof = true → confirms) :
    (read.items ≠ [] ∨ confirms) ↔ ∀ e' ∈ e, e'.Tolerated → confirms := by
  constructor
  · rintro hlaw e' he htolerated
    refine hlaw.resolve_left fun hitems => hitems ?_
    refine (no_items_of_shows hshows).mpr fun e'' he' => ?_
    cases mem_unique he he'
    exact htolerated.1
  · intro htolerated
    by_cases hitems : read.items = []
    · refine .inr ?_
      obtain ⟨e', hrest⟩ := not_forall.mp hgood
      obtain ⟨he, hfine⟩ := Classical.not_imp.mp hrest
      have hnone := (no_items_of_shows hshows).mp hitems e' he
      rcases tolerated_or_proved hfine hnone with h | ⟨hreasons, hproof⟩
      · exact htolerated e' he h
      · exact hconfirm e' he hreasons hproof
    · exact .inl hitems

/-- The law of publications holds of a rebuild exactly when the state table is missing, or something
holds the publication back, or every source that was tolerated with nothing confirmed its
completion. -/
theorem sweep_law_iff (engine : Engine) (db : TraceDatabase) (sources : List TraceSource)
    (metricsSources : List MetricsSource) (endMs : Rat) :
    SweepLaw engine db sources metricsSources endMs ↔
      db.ready = false ∨ HeldBack (evidenceOf engine sources metricsSources endMs) ∨
        ToleratedConfirm engine sources metricsSources endMs := by
  have hok : (∀ (i : Nat) (source : TraceSource), sources[i]? = some source →
        (source.read engine endMs i).status = .ok → source.Flawless engine) ∧
      ∀ (i : Nat) (source : MetricsSource), metricsSources[i]? = some source →
        (source.read engine endMs i).status = .ok → source.Flawless engine := by
    refine ⟨fun i source _ hstatus => ?_, fun i source _ hstatus => ?_⟩
    · obtain ⟨e, he, hreasons⟩ := reasons_of_ok (trace_shows source i) hstatus
      exact trace_flawless he hreasons
    · obtain ⟨e, he, hreasons⟩ := reasons_of_ok (calls_shows source i) hstatus
      exact calls_flawless he hreasons
  rw [SweepLaw, and_iff_left hok]
  have hpublishes := @publishes_iff engine endMs db sources metricsSources
  by_cases hpublish : db.ready = true ∧ ¬HeldBack (evidenceOf engine sources metricsSources endMs)
  · obtain ⟨attempt, hattempt, hpublished⟩ := hpublishes.mpr hpublish
    obtain ⟨hready, hfree⟩ := hpublish
    rw [hready, or_iff_right (by decide), or_iff_right hfree]
    -- No source fails, so each is judged by its own evidence.
    have hgood : ∀ e ∈ evidenceOf engine sources metricsSources endMs, ¬∀ e' ∈ e, e'.Fails :=
      fun e he hfails => hfree (.inr (.inl ⟨e, he, hfails⟩))
    have hspan : ∀ source ∈ sources, ∀ i,
        ((source.read engine endMs i).items ≠ [] ∨ source.Confirms) ↔
          ∀ e ∈ source.evidence engine endMs, e.Tolerated → source.Confirms :=
      fun source hsource i => item_or_confirmed_iff (trace_shows source i)
        (hgood _ (List.mem_append_left _ (List.mem_map_of_mem hsource)))
        fun e he hreasons hproof => trace_confirms he (trace_flawless he hreasons) hproof
    have hcall : ∀ source ∈ metricsSources, ∀ i,
        ((source.read engine endMs i).items ≠ [] ∨ source.Confirms) ↔
          ∀ e ∈ source.evidence engine endMs, e.Tolerated → source.Confirms :=
      fun source hsource i => item_or_confirmed_iff (calls_shows source i)
        (hgood _ (List.mem_append_right _ (List.mem_map_of_mem hsource)))
        fun e he hreasons hproof => calls_confirm he (calls_flawless he hreasons) hproof
    constructor
    · intro hlaw
      obtain ⟨hspans, hcalls⟩ := hlaw attempt hattempt hpublished
      refine ⟨fun source hsource => ?_, fun source hsource => ?_⟩
      · obtain ⟨i, hi⟩ := List.mem_iff_getElem?.mp hsource
        exact (hspan source hsource i).mp (hspans i source hi)
      · obtain ⟨i, hi⟩ := List.mem_iff_getElem?.mp hsource
        exact (hcall source hsource i).mp (hcalls i source hi)
    · rintro ⟨hspans, hcalls⟩ _ _ _
      refine ⟨fun i source hi => ?_, fun i source hi => ?_⟩
      · have hsource := List.mem_of_getElem? hi
        exact (hspan source hsource i).mpr (hspans source hsource)
      · have hsource := List.mem_of_getElem? hi
        exact (hcall source hsource i).mpr (hcalls source hsource)
  · refine iff_of_true (fun attempt hattempt hpublished => ?_) ?_
    · exact absurd (hpublishes.mp ⟨attempt, hattempt, hpublished⟩) hpublish
    · rcases not_and_or.mp hpublish with hready | hheld
      · exact .inl (Bool.not_eq_true _ ▸ hready)
      · exact .inr (.inl (not_not.mp hheld))

end Law

section Example

/-- An engine whose conversions know the numbers of the sample below. -/
def sampleEngine : Engine where
  unicode := .ascii
  number := fun s => if s = "3" then some 3 else none
  parseDate := fun _ => none
  string := fun _ => ""
  float := fun q => Float.ofInt q.num / Float.ofNat q.den

/-- A ClickHouse instance whose collection was partial and found no rows. -/
def partialSource : TraceSource :=
  .clickhouse
    { resolved := { sourceId := "clickhouse:1", reason := none }
      answer := some (.obj [("rows", .arr []), ("collectionStatus", .str "partial")]) }

/-- A Prometheus instance with one call. -/
def healthySource : MetricsSource :=
  .metrics
    { resolved := { sourceId := "prometheus:2", reason := none }
      answer := some (.obj
        [("resultType", .str "vector"),
         ("result", .arr [.obj
           [("metric", .obj [("client", .str "web"), ("server", .str "api")]),
            ("value", .arr [Js.ofNat 1700000000, .str "3"])]]),
         ("collectionStatus", .str "ok")]) }

/-- The partial source gave nothing and confirmed nothing, and its healthy sibling authorises the
publication all the same. -/
theorem partial_source_swept :
    ¬SweepLaw sampleEngine { ready := true, infraNodes := some [], trustedHostAccountId := none }
      [partialSource] [healthySource] 1700000000000 := by
  intro hlaw
  have hgate : heldBack
      [(partialSource.read sampleEngine 1700000000000 0).summary,
        (healthySource.read sampleEngine 1700000000000 0).summary] = false := by
    decide +kernel
  have hreads := @reads_show sampleEngine 1700000000000 [partialSource]
    [healthySource]
  have hfree : ¬HeldBack (evidenceOf sampleEngine [partialSource] [healthySource] 1700000000000) :=
    fun hheld => Bool.false_ne_true (hgate ▸ (held_back_iff hreads).mpr hheld)
  obtain ⟨attempt, hattempt, hpublish⟩ := (publishes_iff
    { ready := true, infraNodes := some [], trustedHostAccountId := none } [partialSource]
    [healthySource]).mpr ⟨rfl, hfree⟩
  obtain ⟨hspans, -⟩ := hlaw.1 attempt hattempt hpublish
  rcases hspans 0 partialSource rfl with hitems | ⟨_, hanswer, hproof, _⟩
  · exact hitems (List.isEmpty_iff.mp (by decide +kernel))
  · cases hanswer
    exact absurd hproof (by decide)

end Example

end AwsOps.Topology
