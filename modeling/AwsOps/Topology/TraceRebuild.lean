import AwsOps.Topology.TraceSource
import AwsOps.Topology.TraceWellFormed

/-!
# Rebuilding the trace graph

`rebuildTraceGraph` of `graph-store.ts`, up to the attempt that it hands to `writeGraph`: it reads
every source, and either publishes a graph, which deletes the rows of the one before, or keeps what
is there. `graph-sources.ts` supplies a source that reports an unreadable registry.
-/

namespace AwsOps.Topology

/-- A trace source. One that raises counts as failed. -/
inductive TraceSource
  | clickhouse (source : ClickHouseOtelTraceSource)
  | tempo (source : TempoTraceSource)
  | registryFailed
  | raises

inductive MetricsSource
  | metrics (source : MetricsCallsSource)
  | raises

def traceWindowMins : Rat :=
  60

def traceSpanCap : JsNumber :=
  .finite 1000

def traceNodeCap : Nat :=
  200

def traceEdgeCap : Nat :=
  500

/-- The window of a rebuild. -/
def traceWindow (endMs : Rat) : ReadWindow where
  startMs := endMs - traceWindowMins * 60000
  endMs := endMs

def failedRead {α : Type} (sourceId : String) (reason : Reason) (endMs : Rat) : SourceRead α where
  items := []
  status := .error
  sourceId := sourceId
  reasons := [reason]
  window := traceWindow endMs
  canSweep := true

def TraceSource.read (engine : Engine) (endMs : Rat) (index : Nat) :
    TraceSource → SourceRead TraceSpan
  | clickhouse source => source.recentSpans engine traceWindowMins traceSpanCap endMs
  | tempo source => source.recentSpans engine traceWindowMins traceSpanCap endMs
  | registryFailed => failedRead "graph-registry" .registry_read_failed endMs
  | raises => failedRead ("trace:" ++ toString index) .source_failed endMs

def MetricsSource.read (engine : Engine) (endMs : Rat) (index : Nat) :
    MetricsSource → SourceRead ServiceGraphCall
  | metrics source => source.calls engine traceWindowMins endMs
  | raises => failedRead ("metrics:" ++ toString index) .source_failed endMs

inductive GraphStatus
  | ok | empty | partly | unavailable | error
  deriving DecidableEq

/-- What an attempt records of a source. -/
structure SourceDetail where
  sourceId : String
  status : ReadStatus
  reasons : List Reason
  itemCount : Nat
  window : ReadWindow

/-- The record of a read. -/
def SourceRead.detail {α : Type} (read : SourceRead α) : SourceDetail where
  sourceId := read.sourceId
  status := read.status
  reasons := read.reasons
  itemCount := read.items.length
  window := read.window

/-- What an attempt records of the graph that it publishes. -/
structure GraphLosses where
  nodeDrops : Nat
  edgeDrops : Nat
  orphanSpans : Nat
  invalidSpans : Nat
  unresolvedMessaging : Nat
  infraUnavailable : Bool

/-- An attempt as `writeGraph` receives it. One that publishes records the losses of its graph; one
that does not keeps what was published before. -/
structure TraceAttempt where
  status : GraphStatus
  nodes : List TraceNode
  edges : List TraceEdge
  sources : List SourceDetail
  window : ReadWindow
  losses : Option GraphLosses

def TraceAttempt.publish (attempt : TraceAttempt) : Bool :=
  attempt.losses.isSome

/-- What the gate sees of a read. -/
structure ReadSummary where
  noItems : Bool
  status : ReadStatus
  canSweep : Bool

def SourceRead.summary {α : Type} (read : SourceRead α) : ReadSummary where
  noItems := read.items.isEmpty
  status := read.status
  canSweep := read.canSweep

/-- A read is partial, or forbids the deletion of rows. -/
def isPartial (reads : List ReadSummary) : Bool :=
  reads.any (fun read => !read.canSweep) || reads.any fun read => read.status == .partly

/-- The reads do not allow a publication. -/
def heldBack (reads : List ReadSummary) : Bool :=
  reads.isEmpty || reads.any (fun read => read.status == .error || read.status == .unavailable) ||
    reads.any (fun read => !read.canSweep) || (isPartial reads && reads.all (·.noItems))

/-- The status of an attempt that does not publish. -/
def heldBackStatus (reads : List ReadSummary) : GraphStatus :=
  if reads.any fun read => read.status == .error then .error
  else if isPartial reads then .partly
  else .unavailable

/-- Nodes that are no services come first, then those with more spans. -/
def nodeBefore (a b : TraceNode) : Bool :=
  let rank (kind : NodeKind) : Nat := if kind = .service then 0 else 1
  if rank a.kind = rank b.kind then decide (b.spanCount ≤ a.spanCount)
  else decide (rank b.kind ≤ rank a.kind)

/-- Edges with more spans and calls come first. -/
def edgeBefore (a b : TraceEdge) : Bool :=
  let weight (edge : TraceEdge) : Float := Float.ofNat edge.spanCount + edge.metricCount
  decide (weight b - weight a ≤ 0)

def publication (engine : Engine) (infra : Option (List InfraNodeLike))
    (trustedHostAccountId : Option String) (spans : List TraceSpan) (calls : List ServiceGraphCall)
    (partly : Bool) (sources : List SourceDetail) (endMs : Rat) : TraceAttempt :=
  let graph := buildTraceGraph engine.unicode spans calls (infra.getD []) trustedHostAccountId
  let nodes := (graph.nodes.mergeSort nodeBefore).take traceNodeCap
  let kept := nodes.map (·.id)
  let edges := ((graph.edges.filter fun edge =>
    kept.contains edge.source && kept.contains edge.target).mergeSort edgeBefore).take traceEdgeCap
  let losses : GraphLosses :=
    { nodeDrops := graph.nodes.length - nodes.length
      edgeDrops := graph.edges.length - edges.length
      orphanSpans := graph.orphanSpans
      invalidSpans := graph.invalidSpans
      unresolvedMessaging := graph.unresolvedMessaging
      infraUnavailable := infra.isNone }
  let incomplete := partly || losses.infraUnavailable || decide (0 < losses.nodeDrops) ||
    decide (0 < losses.edgeDrops) || decide (0 < losses.orphanSpans) ||
    decide (0 < losses.invalidSpans) || decide (0 < losses.unresolvedMessaging)
  { status := if incomplete then .partly else if nodes.isEmpty then .empty else .ok
    nodes
    edges
    sources
    window := traceWindow endMs
    losses := some losses }

def spansOf (read : SourceRead TraceSpan) : List TraceSpan :=
  read.items.map fun span => { span with sourceId := some (span.sourceId.getD read.sourceId) }

/-- A side of a call without a source is of the source that was read. -/
def callsOf (read : SourceRead ServiceGraphCall) : List ServiceGraphCall :=
  let stamped (identity : Option TraceIdentity) : Option TraceIdentity :=
    let identity := identity.getD {}
    some { identity with sourceId := some (identity.sourceId.getD read.sourceId) }
  read.items.map fun call =>
    { call with
      clientIdentity := stamped call.clientIdentity
      serverIdentity := stamped call.serverIdentity }

/-- What a rebuild finds in the database: whether the table of states is there, and the nodes of the
infrastructure graph, if they can be read. -/
structure TraceDatabase where
  ready : Bool
  infraNodes : Option (List InfraNodeLike)
  trustedHostAccountId : Option String

/-- `rebuildTraceGraph`: the attempt, unless the table of states is missing. -/
def rebuildTraceGraph (engine : Engine) (db : TraceDatabase) (sources : List TraceSource)
    (metricsSources : List MetricsSource) (endMs : Rat) : Option TraceAttempt :=
  if !db.ready then none
  else
    let spanReads := sources.zipIdx.map fun (source, i) => source.read engine endMs i
    let metricReads := metricsSources.zipIdx.map fun (source, i) => source.read engine endMs i
    let reads := spanReads.map SourceRead.summary ++ metricReads.map SourceRead.summary
    let details := spanReads.map SourceRead.detail ++ metricReads.map SourceRead.detail
    if heldBack reads then
      some { status := heldBackStatus reads, nodes := [], edges := [], sources := details,
             window := traceWindow endMs, losses := none }
    else
      some (publication engine db.infraNodes db.trustedHostAccountId (spanReads.flatMap spansOf)
        (metricReads.flatMap callsOf) (isPartial reads) details endMs)

/-! ## What an attempt publishes -/

section Published

open List

variable {α β : Type} {le : α → α → Bool} {cap : Nat} {l : List α}

theorem nodup_top {key : α → β} (h : (l.map key).Nodup) :
    (((l.mergeSort le).take cap).map key).Nodup :=
  (((mergeSort_perm l le).map key).nodup_iff.mpr h).sublist ((take_sublist ..).map key)

theorem top_perm (h : l.length ≤ ((l.mergeSort le).take cap).length) :
    ((l.mergeSort le).take cap).Perm l := by
  rw [length_take, length_mergeSort] at h
  rw [take_of_length_le (by rw [length_mergeSort]; omega)]
  exact mergeSort_perm l le

/-- The nodes and edges of an attempt are a graph within the caps. -/
structure TraceAttempt.WellFormed (attempt : TraceAttempt) : Prop where
  nodes : (attempt.nodes.map (·.id)).Nodup
  edges : (attempt.edges.map fun e => (e.source, e.target, e.rel)).Nodup
  ends : ∀ e ∈ attempt.edges,
    e.source ∈ attempt.nodes.map (·.id) ∧ e.target ∈ attempt.nodes.map (·.id)
  caps : attempt.nodes.length ≤ traceNodeCap ∧ attempt.edges.length ≤ traceEdgeCap

/-- The graph of everything that the sources of a rebuild returned. -/
def collectedGraph (engine : Engine) (db : TraceDatabase) (sources : List TraceSource)
    (metricsSources : List MetricsSource) (endMs : Rat) : TraceGraph :=
  buildTraceGraph engine.unicode
    ((sources.zipIdx.map fun (source, i) => source.read engine endMs i).flatMap spansOf)
    ((metricsSources.zipIdx.map fun (source, i) => source.read engine endMs i).flatMap callsOf)
    (db.infraNodes.getD []) db.trustedHostAccountId

/-- An attempt that is not partial lost nothing: it was built with the infrastructure graph, shows
every node and edge, and left no span out. -/
structure TraceAttempt.Lossless (attempt : TraceAttempt) (graph : TraceGraph) : Prop where
  nodes : attempt.nodes.Perm graph.nodes
  edges : attempt.edges.Perm graph.edges
  spans : graph.orphanSpans = 0 ∧ graph.invalidSpans = 0 ∧ graph.unresolvedMessaging = 0

variable {engine : Engine} {infra : Option (List InfraNodeLike)} {trusted : Option String}
  {spans : List TraceSpan} {calls : List ServiceGraphCall} {partly : Bool}
  {details : List SourceDetail} {endMs : Rat}

theorem publication_well_formed :
    (publication engine infra trusted spans calls partly details endMs).WellFormed := by
  have hgraph := build_trace_graph_well_formed engine.unicode spans calls (infra.getD []) trusted
  refine ⟨nodup_top hgraph.nodes, ?_, fun e he => ?_, length_take_le .., length_take_le ..⟩
  · exact nodup_top (hgraph.edges.sublist ((filter_sublist ..).map _))
  · have hkept := (mem_filter.mp (mem_mergeSort.mp (mem_of_mem_take he))).2
    rw [Bool.and_eq_true, contains_iff_mem, contains_iff_mem] at hkept
    exact hkept

theorem publication_lossless {attempt : TraceAttempt}
    (hattempt : publication engine infra trusted spans calls partly details endMs = attempt)
    (hstatus : attempt.status = .ok ∨ attempt.status = .empty) :
    partly = false ∧ infra.isSome ∧ attempt.Lossless
      (buildTraceGraph engine.unicode spans calls (infra.getD []) trusted) := by
  subst hattempt
  generalize hgraph : buildTraceGraph engine.unicode spans calls (infra.getD []) trusted = graph
  simp only [publication, hgraph] at hstatus ⊢
  split at hstatus
  · rcases hstatus with h | h <;> cases h
  · rename_i hcomplete
    simp only [Bool.or_eq_true, decide_eq_true_eq, not_or, Bool.not_eq_true, Nat.not_lt,
      Nat.le_zero, Option.isNone_eq_false_iff] at hcomplete
    obtain ⟨⟨⟨⟨⟨⟨hpartly, hinfra⟩, hnodes⟩, hedges⟩, horphans⟩, hinvalid⟩, hmessaging⟩ := hcomplete
    refine ⟨hpartly, hinfra, top_perm (Nat.sub_eq_zero_iff_le.mp hnodes), ?_,
      horphans, hinvalid, hmessaging⟩
    -- as many edges as in the graph: the filter kept them all
    have hlength := Nat.sub_eq_zero_iff_le.mp hedges
    have hperm := top_perm ((length_filter_le ..).trans hlength)
    refine hperm.trans ?_
    rw [(filter_sublist ..).eq_of_length (Nat.le_antisymm (length_filter_le ..)
      (hperm.length_eq ▸ hlength))]

end Published

end AwsOps.Topology
