import AwsOps.Topology.TraceWellFormed
import Mathlib.Data.Finset.Card

/-!
# Datasources do not meet in the trace graph

What the visit of a span does depends on the nodes that the span names and the index of its
datasource alone. So the graph of two lists of spans from disjoint datasources is the two graphs
side by side, as long as the digests tell the names apart. The edges end in nodes, no relation of
two nodes occurs twice, and each valid span is counted for one service.

A span that is repeated changes nothing where the index has it already. An invalid span is counted
each time, and of two spans with the same identifiers the last one is the one that counts.
-/

namespace AwsOps.Topology

open List Entries Build TraceSpan

/-! ## What identifies spans and nodes -/

/-- The datasource of a span. Spans without one share the empty identifier. -/
def TraceSpan.source (span : TraceSpan) : String :=
  span.sourceId.getD ""

def TraceSpan.identifiers (span : TraceSpan) : String × String × String :=
  (span.source, span.traceId, span.spanId)

/-- A name of a node: its kind, the scope and the text. -/
abbrev NodeName : Type :=
  NodeKind × TraceIdentity × String

/-- The identifier of a name. -/
def NodeName.id (n : NodeName) : String :=
  nodeId n.1 n.2.1 n.2.2

def TraceSpan.queueNames (span : TraceSpan) : List NodeName :=
  match given span.messagingSystem, given span.messagingDestination with
  | some system, some destination =>
    [(.queue, span.queueIdentity (queueDestinationArn (trimmed destination)),
      span.queueName system (trimmed destination))]
  | _, _ => []

/-- The names of the nodes of a span: its service, and its database, workload and queue. -/
def TraceSpan.names (span : TraceSpan) : List NodeName :=
  (.service, span.toTraceIdentity, span.service) ::
    ((given span.dbSystem).map fun system =>
      (NodeKind.db, resourceScope span.toTraceIdentity, span.dbLabel system)).toList ++
    (match given span.k8sNamespace, given span.k8sDeployment with
      | some k8sNamespace, some k8sDeployment =>
        [(.workload, span.toTraceIdentity, k8sNamespace ++ "/" ++ k8sDeployment)]
      | _, _ => []) ++
    span.queueNames

/-- The texts whose digests identify the nodes of spans. -/
def hashedKeys (spans : List TraceSpan) : List (List Char) :=
  spans.flatMap fun span => span.names.map fun n => nodeKey n.2.1 n.2.2

/-- An identifier belongs to the spans if one of them names it. -/
def NamedBy (spans : List TraceSpan) (id : String) : Prop :=
  ∃ span ∈ spans, ∃ n ∈ span.names, NodeName.id n = id

theorem queue_identity_source {span : TraceSpan} (qualified : Option DestinationArn) :
    (span.queueIdentity qualified).sourceId = span.sourceId := by
  cases qualified <;> rfl

theorem names_source {span : TraceSpan} {n : NodeName} (h : n ∈ span.names) :
    n.2.1.sourceId = span.sourceId := by
  simp only [names, queueNames, mem_cons, mem_append,
    Option.mem_toList, Option.map_eq_some_iff] at h
  rcases h with ((rfl | ⟨system, -, rfl⟩) | h) | h
  · rfl
  · rfl
  · split at h
    · rw [mem_singleton.mp h]
    · cases h
  · split at h
    · rw [mem_singleton.mp h]
      exact queue_identity_source _
    · cases h

/-- Spans of disjoint datasources name different nodes, where the digests tell the names apart. -/
theorem named_by_disjoint {A B : List TraceSpan} (hsources : ∀ a ∈ A, ∀ b ∈ B, a.source ≠ b.source)
    (hdigest : ∀ k ∈ hashedKeys (A ++ B), ∀ k' ∈ hashedKeys (A ++ B),
      Sha256.hexDigest k = Sha256.hexDigest k' → k = k')
    {id : String} (ha : NamedBy A id) : ¬ NamedBy B id := by
  rintro ⟨b, hb, m, hm, hbid⟩
  obtain ⟨a, ha, n, hn, rfl⟩ := ha
  have hhashed : ∀ {span : TraceSpan} {n : NodeName}, span ∈ A ++ B → n ∈ span.names →
      nodeKey n.2.1 n.2.2 ∈ hashedKeys (A ++ B) := by
    intro span n hspan hn
    exact mem_flatMap.mpr ⟨span, hspan, mem_map_of_mem hn⟩
  have hkeys := hdigest _ (hhashed (mem_append_left _ ha) hn) _
    (hhashed (mem_append_right _ hb) hm) (node_id_inj hbid).2.symm
  have hsource := node_key_inj hkeys
  rw [names_source hn, names_source hm] at hsource
  exact hsources a ha b hb hsource

/-! ## Graphs side by side -/

/-- Two graphs side by side. -/
def Build.join (a b : Build) : Build :=
  ⟨a.nodes ++ b.nodes, a.edges ++ b.edges, a.orphanSpans + b.orphanSpans,
    a.unresolvedMessaging + b.unresolvedMessaging⟩

/-- A graph has nodes among the given identifiers only. -/
structure Build.Within (ids : String → Prop) (g : Build) : Prop where
  nodes : ∀ id ∈ Entries.keys g.nodes, ids id
  edges : ∀ key ∈ Entries.keys g.edges, ∃ source target rel,
    key = edgeKey source target rel ∧ ids source ∧ ids target

/-- A step is local to identifiers: it stays among them, and what it does next to a graph without
them is what it does alone. -/
structure Local (ids : String → Prop) (f : Build → Build) : Prop where
  within : ∀ {g : Build}, g.Within ids → (f g).Within ids
  frame : ∀ {base g : Build}, base.Within (fun id => ¬ ids id) → f (base.join g) = base.join (f g)

section Locality

variable {ids : String → Prop}

theorem Build.within_empty : Build.Within ids {} where
  nodes _ h := nomatch h
  edges _ h := nomatch h

theorem Build.join_empty (g : Build) : g.join {} = g := by
  simp [join]

theorem Local.id : Local ids fun g => g :=
  ⟨fun h => h, fun _ => rfl⟩

theorem Local.comp {f h : Build → Build} (hf : Local ids f) (hh : Local ids h) :
    Local ids fun g => h (f g) := by
  refine ⟨fun hg => hh.within (hf.within hg), ?_⟩
  intro base g hbase
  rw [hf.frame hbase, hh.frame hbase]

theorem Local.foldl {α : Type} {step : Build → α → Build} {xs : List α}
    (h : ∀ x ∈ xs, Local ids fun g => step g x) : Local ids fun g => xs.foldl step g := by
  induction xs with
  | nil => exact Local.id
  | cons x rest ih =>
    exact (h x mem_cons_self).comp (ih fun y hy => h y (mem_cons_of_mem x hy))

theorem local_orphan : Local ids orphan := by
  refine ⟨fun hg => ⟨hg.nodes, hg.edges⟩, ?_⟩
  intro base g hbase
  simp only [orphan, join, Nat.add_assoc]

theorem local_unresolved : Local ids Build.unresolved := by
  refine ⟨fun hg => ⟨hg.nodes, hg.edges⟩, ?_⟩
  intro base g hbase
  simp only [Build.unresolved, join, Nat.add_assoc]

theorem local_setNode {id : String} (hid : ids id) (f : Option TraceNode → TraceNode) :
    Local ids fun g => g.setNode id f := by
  constructor
  · intro g hg
    refine ⟨?_, hg.edges⟩
    intro k hk
    rcases Entries.mem_keys_upsert.mp hk with hk | rfl
    · exact hg.nodes k hk
    · exact hid
  · intro base g hbase
    have hnot : id ∉ Entries.keys base.nodes := fun hmem => hbase.nodes id hmem hid
    simp only [setNode, join, upsert_append hnot]

theorem local_changeNode {id : String} (hid : ids id) (f : TraceNode → TraceNode) :
    Local ids fun g => g.changeNode id f := by
  constructor
  · intro g hg
    refine ⟨?_, hg.edges⟩
    intro k hk
    exact hg.nodes k (by rwa [changeNode, keys_modify] at hk)
  · intro base g hbase
    have hnot : id ∉ Entries.keys base.nodes := fun hmem => hbase.nodes id hmem hid
    simp only [changeNode, join, modify_append hnot]

theorem local_edge {source target : String} (hsource : ids source) (htarget : ids target)
    (rel : String) (spanCount : Nat) (metricCount : Float) :
    Local ids fun g => g.edge source target rel spanCount metricCount := by
  constructor
  · intro g hg
    refine ⟨hg.nodes, ?_⟩
    intro key hkey
    rcases Entries.mem_keys_upsert.mp hkey with hkey | rfl
    · exact hg.edges key hkey
    · exact ⟨source, target, rel, rfl, hsource, htarget⟩
  · intro base g hbase
    have hnot : edgeKey source target rel ∉ Entries.keys base.edges := by
      intro hmem
      obtain ⟨source', target', rel', hkey, hsource', -⟩ := hbase.edges _ hmem
      exact hsource' ((edge_key_inj hkey).1 ▸ hsource)
    simp only [edge, join, upsert_append hnot]

theorem local_serviceNode {service : String} {identity : TraceIdentity}
    (hid : ids (nodeId .service identity service)) :
    Local ids fun g => g.serviceNode service identity :=
  local_setNode hid _

/-- The spans that the index has for a datasource are among the given identifiers. -/
def Covers (ids : String → Prop) (byId : SpanIndex) (sourceId : Option String) : Prop :=
  ∀ traceId spanId other, get byId (spanKey sourceId traceId spanId) = some other →
    ids other.serviceId

variable {byId : SpanIndex} {span : TraceSpan}

theorem local_relate (hindex : Covers ids byId span.sourceId) (hsid : ids span.serviceId)
    (traceId spanId rel : String) :
    Local ids fun g => g.relate byId span.sourceId traceId spanId span.serviceId rel := by
  unfold relate
  cases hget : get byId (spanKey span.sourceId traceId spanId) with
  | none => exact local_orphan
  | some other =>
    have hother : ids other.serviceId := hindex traceId spanId other hget
    by_cases hne : other.serviceId ≠ span.serviceId
    · simp only [if_pos hne]
      exact (local_serviceNode hother).comp (local_edge hother hsid rel 1 0)
    · simp only [if_neg hne]
      exact local_serviceNode hother

theorem local_joinQueue {system destination : String} (hsid : ids span.serviceId)
    (hid : ids (span.queueNode system destination).id) :
    Local ids fun g => g.joinQueue span system destination := by
  have hproducer : Local ids fun g => if span.kind = "PRODUCER"
      then g.edge span.serviceId (span.queueNode system destination).id "publishes" 1 0 else g := by
    split
    · exact local_edge hsid hid _ _ _
    · exact Local.id
  have hconsumer : Local ids fun g => if span.kind = "CONSUMER"
      then g.edge (span.queueNode system destination).id span.serviceId "consumes" 1 0 else g := by
    split
    · exact local_edge hid hsid _ _ _
    · exact Local.id
  unfold joinQueue
  split
  · exact local_unresolved
  · exact ((local_setNode hid _).comp hproducer).comp hconsumer

theorem local_visit (U : Text.Unicode) (infraNodes : List InfraNodeLike)
    (trustedHostAccountId : Option String) (hnames : ∀ n ∈ span.names, ids (NodeName.id n))
    (hindex : Covers ids byId span.sourceId) :
    Local ids fun g => g.visit U infraNodes trustedHostAccountId byId span := by
  have hsid : ids span.serviceId := hnames _ mem_cons_self
  have hcount : Local ids fun g => g.countSpan span :=
    (local_serviceNode hsid).comp (local_changeNode hsid _)
  have hparent : Local ids fun g => g.visitParent byId span := by
    unfold visitParent
    cases given span.parentSpanId with
    | none => exact Local.id
    | some parent => exact local_relate hindex hsid _ _ _
  have hlinks : Local ids fun g => g.visitLinks byId span :=
    Local.foldl fun link _ => local_relate hindex hsid _ _ _
  have hdb : Local ids fun g => g.visitDb U infraNodes trustedHostAccountId span := by
    unfold visitDb
    cases hsystem : given span.dbSystem with
    | none => exact Local.id
    | some system =>
      have hid : ids (span.dbNode U infraNodes trustedHostAccountId system).id :=
        hnames (.db, resourceScope span.toTraceIdentity, span.dbLabel system)
          (by simp [names, hsystem])
      exact (local_setNode hid _).comp (local_edge hsid hid _ _ _)
  have hworkload : Local ids fun g => g.visitWorkload span := by
    unfold visitWorkload
    cases hnamespace : given span.k8sNamespace with
    | none => exact Local.id
    | some k8sNamespace =>
      cases hdeployment : given span.k8sDeployment with
      | none => exact Local.id
      | some k8sDeployment =>
        have hid : ids (span.workloadNode k8sNamespace k8sDeployment).id :=
          hnames (.workload, span.toTraceIdentity, k8sNamespace ++ "/" ++ k8sDeployment)
            (by simp [names, hnamespace, hdeployment])
        exact ((local_setNode hid _).comp (local_changeNode hid _)).comp
          (local_edge hsid hid _ _ _)
  have hqueue : Local ids fun g => g.visitQueue span := by
    unfold visitQueue
    cases hsystem : given span.messagingSystem with
    | none => exact Local.id
    | some system =>
      cases hdestination : given span.messagingDestination with
      | none => exact Local.id
      | some destination =>
        have hid : ids (span.queueNode system (trimmed destination)).id :=
          hnames (.queue, span.queueIdentity (queueDestinationArn (trimmed destination)),
            span.queueName system (trimmed destination))
            (by simp [names, queueNames, hsystem, hdestination])
        exact local_joinQueue hsid hid
  exact ((((hcount.comp hparent).comp hlinks).comp hdb).comp hworkload).comp hqueue

theorem visit_congr (U : Text.Unicode) (infraNodes : List InfraNodeLike)
    (trustedHostAccountId : Option String) {byId' : SpanIndex}
    (h : ∀ traceId spanId, get byId (spanKey span.sourceId traceId spanId) =
      get byId' (spanKey span.sourceId traceId spanId)) (g : Build) :
    g.visit U infraNodes trustedHostAccountId byId span =
      g.visit U infraNodes trustedHostAccountId byId' span := by
  simp only [visit, visitParent, visitLinks, relate, h]

end Locality

/-! ## The index -/

variable {spans : List TraceSpan}

theorem mem_of_get_byId {key : List Char} {span : TraceSpan}
    (h : get (byId spans) key = some span) :
    span ∈ spans ∧ span.isValid = true ∧ span.key = key := by
  have hentry := mem_of_get_ofList h
  obtain ⟨s, hs, heq⟩ := mem_map.mp hentry
  obtain ⟨rfl, rfl⟩ := Prod.mk.inj heq
  obtain ⟨hmem, hvalid⟩ := mem_filter.mp hs
  exact ⟨hmem, hvalid, rfl⟩

theorem mem_keys_byId {key : List Char} :
    key ∈ Entries.keys (byId spans) ↔ ∃ span ∈ spans, span.isValid = true ∧ span.key = key := by
  rw [byId, mem_keys_ofList, Entries.keys, map_map, mem_map]
  simp only [mem_filter, Function.comp_apply, and_assoc]

theorem mem_byId {entry : List Char × TraceSpan} (h : entry ∈ byId spans) :
    entry.2 ∈ spans ∧ entry.2.isValid = true ∧ entry.2.key = entry.1 :=
  mem_of_get_byId (get_of_mem (nodup_keys_ofList _) h)

theorem byId_append {A B : List TraceSpan} (hsources : ∀ a ∈ A, ∀ b ∈ B, a.source ≠ b.source) :
    byId (A ++ B) = byId A ++ byId B := by
  rw [byId, filter_append, map_append]
  refine ofList_append ?_
  intro key hb ha
  simp only [Entries.keys, map_map, mem_map, mem_filter, Function.comp_apply] at ha hb
  obtain ⟨a, ⟨ha, -⟩, hka⟩ := ha
  obtain ⟨b, ⟨hb, -⟩, hkb⟩ := hb
  exact hsources a ha b hb (span_key_inj (hka.trans hkb.symm)).1

theorem byId_repeat {repeated : List TraceSpan} (hrepeated : ∀ span ∈ repeated, span ∈ spans)
    (hunique : ∀ span ∈ spans, ∀ other ∈ spans, span.isValid = true → other.isValid = true →
      span.identifiers = other.identifiers → span = other) :
    byId (spans ++ repeated) = byId spans := by
  rw [byId, filter_append, map_append]
  refine ofList_append_same ?_
  intro entry hentry
  obtain ⟨span, hspan, rfl⟩ := mem_map.mp hentry
  obtain ⟨hmem, hvalid⟩ := mem_filter.mp hspan
  have hkey : span.key ∈ Entries.keys (byId spans) :=
    mem_keys_byId.mpr ⟨span, hrepeated span hmem, hvalid, rfl⟩
  show get (byId spans) span.key = some span
  cases hget : get (byId spans) span.key with
  | none => exact absurd hkey (Entries.get_eq_none.mp hget)
  | some other =>
    obtain ⟨hother, hothervalid, hsame⟩ := mem_of_get_byId hget
    obtain ⟨hsource, htrace, hid⟩ := span_key_inj hsame
    have hidentifiers : span.identifiers = other.identifiers := by
      rw [identifiers, identifiers, source, source, hsource, htrace, hid]
    rw [hunique span (hrepeated span hmem) other hother hvalid hothervalid hidentifiers]

theorem length_byId (spans : List TraceSpan) : (byId spans).length =
      ((spans.filter (·.isValid)).map identifiers).toFinset.card := by
  have hnodup : ((byId spans).map fun entry => entry.2.identifiers).Nodup := by
    have hkeys : (Entries.keys (byId spans)).Nodup := nodup_keys_ofList _
    refine List.Nodup.of_map (fun i : String × String × String => spanKey (some i.1) i.2.1 i.2.2) ?_
    rw [map_map]
    refine (map_congr_left fun entry hentry => ?_) ▸ hkeys
    exact (mem_byId hentry).2.2.symm
  rw [show (byId spans).length = ((byId spans).map fun entry => entry.2.identifiers).length from
    (length_map _).symm, ← toFinset_card_of_nodup hnodup]
  congr 1
  ext i
  simp only [mem_toFinset, mem_map, mem_filter]
  constructor
  · rintro ⟨entry, hentry, rfl⟩
    obtain ⟨hmem, hvalid, -⟩ := mem_byId hentry
    exact ⟨entry.2, ⟨hmem, hvalid⟩, rfl⟩
  · rintro ⟨span, ⟨hmem, hvalid⟩, rfl⟩
    have hkey : span.key ∈ Entries.keys (byId spans) := mem_keys_byId.mpr ⟨span, hmem, hvalid, rfl⟩
    obtain ⟨entry, hentry, heq⟩ := mem_map.mp hkey
    obtain ⟨hsource, htrace, hid⟩ := span_key_inj ((mem_byId hentry).2.2.trans heq)
    refine ⟨entry, hentry, ?_⟩
    rw [identifiers, identifiers, source, source, hsource, htrace, hid]

/-! ## The graph of two lists -/

section Graphs

variable (U : Text.Unicode) (infraNodes : List InfraNodeLike) (trustedHostAccountId : Option String)

theorem local_visits (spans : List TraceSpan) :
    Local (NamedBy spans) fun g => (values (byId spans)).foldl
      (visit U infraNodes trustedHostAccountId (byId spans)) g := by
  refine Local.foldl ?_
  intro span hspan
  obtain ⟨entry, hentry, rfl⟩ := mem_map.mp hspan
  refine local_visit U infraNodes trustedHostAccountId
    (fun n hn => ⟨entry.2, (mem_byId hentry).1, n, hn, rfl⟩) ?_
  intro traceId spanId other hget
  exact ⟨other, (mem_of_get_byId hget).1, _, mem_cons_self, rfl⟩

theorem visit_spans_append {A B : List TraceSpan}
    (hsources : ∀ a ∈ A, ∀ b ∈ B, a.source ≠ b.source)
    (hdigest : ∀ k ∈ hashedKeys (A ++ B), ∀ k' ∈ hashedKeys (A ++ B),
      Sha256.hexDigest k = Sha256.hexDigest k' → k = k') :
    visitSpans U infraNodes trustedHostAccountId (A ++ B) =
      (visitSpans U infraNodes trustedHostAccountId A).join
        (visitSpans U infraNodes trustedHostAccountId B) := by
  have hindex := byId_append hsources
  have hforeign : ∀ {span : TraceSpan} {spans : List TraceSpan} {traceId spanId : String},
      (∀ other ∈ spans, span.source ≠ other.source) →
        spanKey span.sourceId traceId spanId ∉ Entries.keys (byId spans) := by
    intro span spans traceId spanId hother hmem
    obtain ⟨other, hmem, -, hkey⟩ := mem_keys_byId.mp hmem
    exact hother other hmem (span_key_inj hkey).1.symm
  -- A span finds in the joint index what it finds in that of its own list.
  have hleft : ∀ (g : Build), ∀ span ∈ values (byId A),
      g.visit U infraNodes trustedHostAccountId (byId A ++ byId B) span =
        g.visit U infraNodes trustedHostAccountId (byId A) span := by
    intro g span hspan
    obtain ⟨entry, hentry, rfl⟩ := mem_map.mp hspan
    refine visit_congr U infraNodes trustedHostAccountId (fun traceId spanId => ?_) g
    exact get_append_left (hforeign fun b hb => hsources _ (mem_byId hentry).1 b hb)
  have hright : ∀ (g : Build), ∀ span ∈ values (byId B),
      g.visit U infraNodes trustedHostAccountId (byId A ++ byId B) span =
        g.visit U infraNodes trustedHostAccountId (byId B) span := by
    intro g span hspan
    obtain ⟨entry, hentry, rfl⟩ := mem_map.mp hspan
    refine visit_congr U infraNodes trustedHostAccountId (fun traceId spanId => ?_) g
    exact get_append_right
      (hforeign fun a ha => (hsources a ha _ (mem_byId hentry).1).symm)
  have hwithin : (visitSpans U infraNodes trustedHostAccountId A).Within (NamedBy A) :=
    (local_visits U infraNodes trustedHostAccountId A).within within_empty
  have hapart : ∀ {id : String}, NamedBy A id → ¬ NamedBy B id :=
    named_by_disjoint hsources hdigest
  have hbase : (visitSpans U infraNodes trustedHostAccountId A).Within fun id => ¬ NamedBy B id := by
    refine ⟨fun id hid => hapart (hwithin.nodes id hid), fun key hkey => ?_⟩
    obtain ⟨source, target, rel, heq, hsource, htarget⟩ := hwithin.edges key hkey
    exact ⟨source, target, rel, heq, hapart hsource, hapart htarget⟩
  have hframe := (local_visits U infraNodes trustedHostAccountId B).frame (g := {}) hbase
  rw [join_empty] at hframe
  rw [visitSpans, hindex, values_append, foldl_append,
    foldl_ext _ _ _ hleft, foldl_ext _ _ _ hright]
  exact hframe

end Graphs

/-- Two graphs side by side. -/
def TraceGraph.join (a b : TraceGraph) : TraceGraph where
  nodes := a.nodes ++ b.nodes
  edges := a.edges ++ b.edges
  orphanSpans := a.orphanSpans + b.orphanSpans
  invalidSpans := a.invalidSpans + b.invalidSpans
  unresolvedMessaging := a.unresolvedMessaging + b.unresolvedMessaging

/-- Spans of disjoint datasources make two graphs side by side, in a well-formed graph that counts
each valid span once, by its identifiers. A span that is repeated changes nothing, except that an
invalid one is counted again, as long as the list tells its valid spans apart by their
identifiers. -/
theorem trace_graph_isolates (U : Text.Unicode) (infraNodes : List InfraNodeLike)
    (trustedHostAccountId : Option String) :
    (∀ A B : List TraceSpan, (∀ a ∈ A, ∀ b ∈ B, a.source ≠ b.source) →
      (∀ k ∈ hashedKeys (A ++ B), ∀ k' ∈ hashedKeys (A ++ B),
        Sha256.hexDigest k = Sha256.hexDigest k' → k = k') →
      buildTraceGraph U (A ++ B) [] infraNodes trustedHostAccountId =
        (buildTraceGraph U A [] infraNodes trustedHostAccountId).join
          (buildTraceGraph U B [] infraNodes trustedHostAccountId)) ∧
    (∀ (spans : List TraceSpan) (metricCalls : List ServiceGraphCall),
      (buildTraceGraph U spans metricCalls infraNodes trustedHostAccountId).WellFormed
        ((spans.filter (·.isValid)).map identifiers).toFinset.card) ∧
    ∀ (spans repeated : List TraceSpan) (metricCalls : List ServiceGraphCall),
      (∀ span ∈ repeated, span ∈ spans) →
      (∀ span ∈ spans, ∀ other ∈ spans, span.isValid = true → other.isValid = true →
        span.identifiers = other.identifiers → span = other) →
      buildTraceGraph U (spans ++ repeated) metricCalls infraNodes trustedHostAccountId =
        { buildTraceGraph U spans metricCalls infraNodes trustedHostAccountId with
          invalidSpans := ((spans ++ repeated).filter fun span => !span.isValid).length } := by
  refine ⟨?_, ?_, ?_⟩
  · intro A B hsources hdigest
    have hvisit := visit_spans_append U infraNodes trustedHostAccountId hsources hdigest
    simp only [buildTraceGraph, foldl_nil, hvisit, filter_append, length_append]
    simp only [finish, join, TraceGraph.join, values_append]
  · intro spans metricCalls
    rw [← length_byId]
    exact build_trace_graph_well_formed U spans metricCalls infraNodes trustedHostAccountId
  · intro spans repeated metricCalls hrepeated hunique
    simp only [buildTraceGraph, visitSpans, byId_repeat hrepeated hunique]
    rfl

/-- A span of a service, observed by a datasource. -/
def sampleSpan (sourceId traceId service : String) : TraceSpan where
  sourceId := some sourceId
  traceId := traceId
  spanId := "s"
  service := service

theorem trace_graph_isolates_two :
    buildTraceGraph .ascii ([sampleSpan "a" "t" "api"] ++ [sampleSpan "b" "t" "api"]) [] [] none =
        (buildTraceGraph .ascii [sampleSpan "a" "t" "api"] [] [] none).join
          (buildTraceGraph .ascii [sampleSpan "b" "t" "api"] [] [] none) ∧
      buildTraceGraph .ascii ([sampleSpan "a" "t" "api"] ++ [sampleSpan "a" "t" "api"]) [] [] none =
        { buildTraceGraph .ascii [sampleSpan "a" "t" "api"] [] [] none with invalidSpans := 0 } := by
  obtain ⟨hjoin, -, hrepeat⟩ := trace_graph_isolates .ascii [] none
  refine ⟨hjoin _ _ ?_ ?_, ?_⟩
  · intro a ha b hb
    rw [mem_singleton.mp ha, mem_singleton.mp hb]
    decide
  · decide +kernel
  · refine hrepeat [sampleSpan "a" "t" "api"] [sampleSpan "a" "t" "api"] [] (fun _ h => h) ?_
    intro span hspan other hother _ _ _
    rw [mem_singleton.mp hspan, mem_singleton.mp hother]

/-- An invalid span that is repeated is counted again, and of two spans with the same identifiers
the one that is repeated takes the place of the other. -/
theorem trace_graph_repetition_changes :
    (buildTraceGraph .ascii [sampleSpan "a" "" "api"] [] [] none).invalidSpans ≠
        (buildTraceGraph .ascii ([sampleSpan "a" "" "api"] ++ [sampleSpan "a" "" "api"]) [] []
          none).invalidSpans ∧
      (buildTraceGraph .ascii [sampleSpan "a" "t" "api", sampleSpan "a" "t" "web"] [] []
          none).nodes.map (·.label) ≠
        (buildTraceGraph .ascii ([sampleSpan "a" "t" "api", sampleSpan "a" "t" "web"] ++
          [sampleSpan "a" "t" "api"]) [] [] none).nodes.map (·.label) := by
  decide +kernel

end AwsOps.Topology
