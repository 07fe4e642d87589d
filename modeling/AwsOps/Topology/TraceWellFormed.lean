import AwsOps.Topology.TraceGraph

/-!
# The trace graph is well formed

Each step of `buildTraceGraph` keeps the graph sound: nodes and edges are stored under their own
keys, once each, and an edge ends in nodes that are there. The visit of a span counts it for one
service, and nothing else changes a count.
-/

namespace AwsOps.Topology

open List Entries TraceNode Build

/-! ## What identifies spans, nodes and edges -/

theorem span_key_inj {sourceId sourceId' : Option String} {traceId traceId' spanId spanId' : String}
    (h : spanKey sourceId traceId spanId = spanKey sourceId' traceId' spanId') :
    sourceId.getD "" = sourceId'.getD "" ∧ traceId = traceId' ∧ spanId = spanId' := by
  have hlist := Json.stringify_strings_inj h
  simpa using hlist

theorem edge_key_inj {source target rel source' target' rel' : String}
    (h : edgeKey source target rel = edgeKey source' target' rel') :
    source = source' ∧ target = target' ∧ rel = rel' := by
  have hlist := Json.stringify_strings_inj h
  simpa using hlist

theorem node_key_inj {identity identity' : TraceIdentity} {name name' : String}
    (h : nodeKey identity name = nodeKey identity' name') :
    identity.sourceId.getD "" = identity'.sourceId.getD "" := by
  have hscope := (List.cons.inj (Json.stringify_strings_inj h)).1
  have hlist := Json.stringify_strings_inj (String.ofList_injective hscope)
  exact (List.cons.inj hlist).1

theorem node_id_inj {kind kind' : NodeKind} {identity identity' : TraceIdentity}
    {name name' : String} (h : nodeId kind identity name = nodeId kind' identity' name') :
    kind = kind' ∧
      Sha256.hexDigest (nodeKey identity name) = Sha256.hexDigest (nodeKey identity' name') := by
  have hlist := congrArg String.toList h
  simp only [nodeId, String.toList_append, String.toList_ofList] at hlist
  obtain ⟨htag, hdigest⟩ := append_inj' hlist (by
    rw [Sha256.hex_digest_length, Sha256.hex_digest_length])
  refine ⟨?_, hdigest⟩
  cases kind <;> cases kind' <;> first | rfl | exact absurd htag (by decide)

/-! ## Sound graphs -/

def TraceNode.spanCount (node : TraceNode) : Nat :=
  match node.data with
  | .service m => m.spanCount
  | _ => 0

/-- The kind of node that data is about. -/
def NodeMeta.kind : NodeMeta → NodeKind
  | .service _ => .service
  | .db _ => .db
  | .workload _ => .workload
  | .queue _ => .queue

/-- A node fits an identifier: it has it, and the identifier and the data are of its kind. -/
structure TraceNode.Fits (id : String) (node : TraceNode) : Prop where
  id_eq : node.id = id
  named : ∃ identity name, id = nodeId node.kind identity name
  kind_eq : node.data.kind = node.kind

theorem TraceNode.Fits.uncounted {id : String} {node : TraceNode} (h : node.Fits id)
    (hkind : node.kind ≠ .service) : node.spanCount = 0 := by
  obtain ⟨_, kind, _, data⟩ := node
  cases data with
  | service m => exact absurd h.kind_eq.symm hkind
  | db m | workload m | queue m => rfl

theorem TraceNode.Fits.same_kind {id : String} {node other : TraceNode} (h : node.Fits id)
    (hother : other.Fits id) : node.kind = other.kind := by
  obtain ⟨identity, name, hid⟩ := h.named
  obtain ⟨identity', name', hid'⟩ := hother.named
  exact (node_id_inj (hid.symm.trans hid')).1

/-- Nodes and edges are stored under their keys, once each, and edges end in nodes. -/
structure Build.Sound (g : Build) : Prop where
  nodes : (Entries.keys g.nodes).Nodup
  fits : ∀ entry ∈ g.nodes, entry.2.Fits entry.1
  edges : (Entries.keys g.edges).Nodup
  keyed : ∀ entry ∈ g.edges, entry.1 = edgeKey entry.2.source entry.2.target entry.2.rel
  ends : ∀ entry ∈ g.edges,
    entry.2.source ∈ Entries.keys g.nodes ∧ entry.2.target ∈ Entries.keys g.nodes

/-- The spans counted for all nodes. -/
def Build.spanTotal (g : Build) : Nat :=
  ((values g.nodes).map spanCount).sum

/-- A step to a sound graph with the nodes of before and some more spans counted. -/
structure Extends (g g' : Build) (counted : Nat) : Prop where
  sound : g'.Sound
  kept : ∀ id ∈ Entries.keys g.nodes, id ∈ Entries.keys g'.nodes
  total : g'.spanTotal = g.spanTotal + counted

section Steps

variable {g g' g'' : Build} {id : String}

theorem Extends.refl (hg : g.Sound) : Extends g g 0 :=
  ⟨hg, fun _ h => h, rfl⟩

theorem Extends.trans {n n' : Nat} (h : Extends g g' n) (h' : Extends g' g'' n') :
    Extends g g'' (n + n') := by
  refine ⟨h'.sound, fun id hid => h'.kept id (h.kept id hid), ?_⟩
  rw [h'.total, h.total, Nat.add_assoc]

theorem Build.sound_empty : Build.Sound {} where
  nodes := nodup_nil
  fits _ h := nomatch h
  edges := nodup_nil
  keyed _ h := nomatch h
  ends _ h := nomatch h

theorem extends_orphan (hg : g.Sound) : Extends g g.orphan 0 :=
  ⟨⟨hg.nodes, hg.fits, hg.edges, hg.keyed, hg.ends⟩, fun _ h => h, rfl⟩

theorem extends_unresolved (hg : g.Sound) : Extends g g.unresolved 0 :=
  ⟨⟨hg.nodes, hg.fits, hg.edges, hg.keyed, hg.ends⟩, fun _ h => h, rfl⟩

theorem extends_setNode (hg : g.Sound) {f : Option TraceNode → TraceNode}
    (hnone : (f none).Fits id ∧ (f none).spanCount = 0)
    (hsome : ∀ node, node.Fits id →
      (f (some node)).Fits id ∧ (f (some node)).spanCount = node.spanCount) :
    Extends g (g.setNode id f) 0 ∧ id ∈ Entries.keys (g.setNode id f).nodes := by
  have hkept : ∀ k ∈ Entries.keys g.nodes, k ∈ Entries.keys (g.setNode id f).nodes := fun k hk =>
    Entries.mem_keys_upsert.mpr (.inl hk)
  refine ⟨⟨⟨nodup_keys_upsert hg.nodes f, ?_, hg.edges, hg.keyed, ?_⟩, hkept, ?_⟩,
    Entries.mem_keys_upsert.mpr (.inr rfl)⟩
  · intro entry hentry
    rcases mem_upsert hentry with hentry | ⟨hkey, hvalue⟩
    · exact hg.fits entry hentry
    · rw [hkey, hvalue]
      cases hget : get g.nodes id with
      | none => exact hnone.1
      | some node => exact (hsome node (hg.fits _ (mem_of_get hget))).1
  · intro entry hentry
    exact ⟨hkept _ (hg.ends entry hentry).1, hkept _ (hg.ends entry hentry).2⟩
  · exact sum_upsert spanCount hnone.2 fun node hnode =>
      (hsome node (hg.fits _ hnode)).2

theorem extends_changeNode (hg : g.Sound) (hid : id ∈ Entries.keys g.nodes)
    {f : TraceNode → TraceNode} {n : Nat}
    (hf : ∀ node, node.Fits id → (f node).Fits id ∧ (f node).spanCount = node.spanCount + n) :
    Extends g (g.changeNode id f) n := by
  have hkeys : Entries.keys (g.changeNode id f).nodes = Entries.keys g.nodes :=
    keys_modify f
  refine ⟨⟨?_, ?_, hg.edges, hg.keyed, ?_⟩, fun k hk => ?_, ?_⟩
  · rw [hkeys]
    exact hg.nodes
  · intro entry hentry
    rcases mem_modify hentry with hentry | ⟨node, hnode, rfl⟩
    · exact hg.fits entry hentry
    · exact (hf node (hg.fits _ hnode)).1
  · intro entry hentry
    rw [hkeys]
    exact hg.ends entry hentry
  · rw [hkeys]
    exact hk
  · exact sum_modify spanCount
      (fun node hnode => (hf node (hg.fits _ hnode)).2) hid

theorem extends_edge (hg : g.Sound) {source target : String}
    (hsource : source ∈ Entries.keys g.nodes) (htarget : target ∈ Entries.keys g.nodes)
    (rel : String) (spanCount : Nat) (metricCount : Float) :
    Extends g (g.edge source target rel spanCount metricCount) 0 := by
  -- An edge with the key has the ends and the relation of the key.
  have hone : ∀ entry ∈ (g.edge source target rel spanCount metricCount).edges,
      entry ∈ g.edges ∨ (entry.1 = edgeKey source target rel ∧ entry.2.source = source ∧
        entry.2.target = target ∧ entry.2.rel = rel) := by
    intro entry hentry
    refine (mem_upsert hentry).imp_right ?_
    rintro ⟨hkey, hvalue⟩
    rw [hkey, hvalue]
    cases hget : get g.edges (edgeKey source target rel) with
    | none => exact ⟨rfl, rfl, rfl, rfl⟩
    | some e =>
      obtain ⟨hs, ht, hr⟩ := edge_key_inj (hg.keyed _ (mem_of_get hget))
      exact ⟨rfl, hs.symm, ht.symm, hr.symm⟩
  refine ⟨⟨hg.nodes, hg.fits, nodup_keys_upsert hg.edges _, ?_, ?_⟩, fun _ h => h, rfl⟩
  · intro entry hentry
    rcases hone entry hentry with hentry | ⟨hkey, hs, ht, hr⟩
    · exact hg.keyed entry hentry
    · rw [hkey, hs, ht, hr]
  · intro entry hentry
    rcases hone entry hentry with hentry | ⟨-, hs, ht, -⟩
    · exact hg.ends entry hentry
    · rw [hs, ht]
      exact ⟨hsource, htarget⟩

theorem extends_edge_if (condition : Prop) [Decidable condition] (hg : g.Sound)
    {source target : String} (hsource : source ∈ Entries.keys g.nodes)
    (htarget : target ∈ Entries.keys g.nodes) (rel : String) (spanCount : Nat)
    (metricCount : Float) :
    Extends g (if condition then g.edge source target rel spanCount metricCount else g) 0 := by
  split
  · exact extends_edge hg hsource htarget rel spanCount metricCount
  · exact Extends.refl hg

theorem extends_serviceNode (hg : g.Sound) (service : String) (identity : TraceIdentity) :
    Extends g (g.serviceNode service identity) 0 ∧
      nodeId .service identity service ∈ Entries.keys (g.serviceNode service identity).nodes := by
  refine extends_setNode hg ⟨⟨rfl, ⟨identity, service, rfl⟩, rfl⟩, rfl⟩ ?_
  intro node hnode
  exact ⟨hnode, rfl⟩

theorem extends_setOther (hg : g.Sound) {node : TraceNode} (hkind : node.kind ≠ .service)
    (hnode : node.Fits id) {f : Option TraceNode → TraceNode} (hnone : f none = node)
    (hf : ∀ old, f (some old) = node ∨ f (some old) = old) :
    Extends g (g.setNode id f) 0 ∧ id ∈ Entries.keys (g.setNode id f).nodes := by
  refine extends_setNode hg (by rw [hnone]; exact ⟨hnode, hnode.uncounted hkind⟩) ?_
  intro old hold
  rcases hf old with h | h
  · rw [h, hnode.uncounted hkind, hold.uncounted ((hold.same_kind hnode).symm ▸ hkind)]
    exact ⟨hnode, rfl⟩
  · rw [h]
    exact ⟨hold, rfl⟩

end Steps

/-! ## The visit of a span -/

section Visits

variable {g : Build} {byId : SpanIndex} {span : TraceSpan}

theorem extends_countSpan (hg : g.Sound) (span : TraceSpan) :
    Extends g (g.countSpan span) 1 ∧ span.serviceId ∈ Entries.keys (g.countSpan span).nodes := by
  obtain ⟨hservice, hid⟩ := extends_serviceNode hg span.service span.toTraceIdentity
  have hcount : Extends _ (g.countSpan span) 1 := extends_changeNode hservice.sound hid ?_
  · exact ⟨hservice.trans hcount, hcount.kept _ hid⟩
  · intro node hnode
    -- What fits the identifier of a service has the data of one.
    have hnew : (newService span.serviceId span.service span.toTraceIdentity).Fits span.serviceId :=
      ⟨rfl, ⟨_, _, rfl⟩, rfl⟩
    have hkind := hnode.kind_eq.trans (hnode.same_kind hnew)
    obtain ⟨id, kind, label, data⟩ := node
    cases data with
    | service m => exact ⟨⟨hnode.id_eq, hnode.named, hnode.kind_eq⟩, rfl⟩
    | db m | workload m | queue m => cases hkind

theorem extends_relate (hg : g.Sound) {sid : String} (hsid : sid ∈ Entries.keys g.nodes)
    (sourceId : Option String) (traceId spanId rel : String) :
    Extends g (g.relate byId sourceId traceId spanId sid rel) 0 := by
  unfold relate
  cases get byId (spanKey sourceId traceId spanId) with
  | none => exact extends_orphan hg
  | some other =>
    obtain ⟨hservice, hid⟩ := extends_serviceNode hg other.service other.toTraceIdentity
    dsimp only
    split
    · exact hservice.trans (extends_edge hservice.sound hid (hservice.kept _ hsid) rel 1 0)
    · exact hservice

theorem extends_links (byId : SpanIndex) (hg : g.Sound) {sid : String}
    (hsid : sid ∈ Entries.keys g.nodes) (sourceId : Option String) (links : List SpanLink) :
    Extends g (links.foldl (fun g link =>
      g.relate byId sourceId link.traceId link.spanId sid "linked") g) 0 := by
  induction links generalizing g with
  | nil => exact Extends.refl hg
  | cons link rest ih =>
    have hfirst : Extends g (g.relate byId sourceId link.traceId link.spanId sid "linked") 0 :=
      extends_relate hg hsid _ _ _ _
    exact hfirst.trans (ih hfirst.sound (hfirst.kept _ hsid))

theorem extends_visitDb (hg : g.Sound) (hsid : span.serviceId ∈ Entries.keys g.nodes)
    (U : Text.Unicode) (infraNodes : List InfraNodeLike) (trustedHostAccountId : Option String) :
    Extends g (g.visitDb U infraNodes trustedHostAccountId span) 0 := by
  unfold visitDb
  cases given span.dbSystem with
  | none => exact Extends.refl hg
  | some system =>
    have hnode : (span.dbNode U infraNodes trustedHostAccountId system).Fits
        (span.dbNode U infraNodes trustedHostAccountId system).id := ⟨rfl, ⟨_, _, rfl⟩, rfl⟩
    obtain ⟨hset, hid⟩ := extends_setOther hg (show NodeKind.db ≠ .service by decide) hnode
      (f := fun _ => span.dbNode U infraNodes trustedHostAccountId system) rfl fun _ => .inl rfl
    exact hset.trans (extends_edge hset.sound (hset.kept _ hsid) hid _ _ _)

theorem extends_visitWorkload (hg : g.Sound) (hsid : span.serviceId ∈ Entries.keys g.nodes) :
    Extends g (g.visitWorkload span) 0 := by
  unfold visitWorkload
  cases given span.k8sNamespace with
  | none => exact Extends.refl hg
  | some k8sNamespace =>
    cases given span.k8sDeployment with
    | none => exact Extends.refl hg
    | some k8sDeployment =>
      have hnode : (span.workloadNode k8sNamespace k8sDeployment).Fits
          (span.workloadNode k8sNamespace k8sDeployment).id := ⟨rfl, ⟨_, _, rfl⟩, rfl⟩
      obtain ⟨hset, hid⟩ := extends_setOther hg (show NodeKind.workload ≠ .service by decide)
        hnode
        (f := (·.getD (span.workloadNode k8sNamespace k8sDeployment))) rfl fun _ => .inr rfl
      have hpod := extends_changeNode (n := 0) hset.sound hid
        (f := (·.addPod span.k8sPod)) fun node hnode => ?_
      · exact (hset.trans hpod).trans
          (extends_edge hpod.sound (hpod.kept _ (hset.kept _ hsid)) (hpod.kept _ hid) _ _ _)
      · obtain ⟨id, kind, label, data⟩ := node
        cases data with
        | workload m =>
          unfold addPod
          cases given span.k8sPod with
          | none => exact ⟨hnode, rfl⟩
          | some pod => exact ⟨⟨hnode.id_eq, hnode.named, hnode.kind_eq⟩, rfl⟩
        | service m | db m | queue m => exact ⟨hnode, rfl⟩

theorem extends_joinQueue (hg : g.Sound) (hsid : span.serviceId ∈ Entries.keys g.nodes)
    (system destination : String) : Extends g (g.joinQueue span system destination) 0 := by
  have hnode : (span.queueNode system destination).Fits (span.queueNode system destination).id :=
    ⟨rfl, ⟨_, _, rfl⟩, rfl⟩
  obtain ⟨hset, hid⟩ := extends_setOther hg (show NodeKind.queue ≠ .service by decide) hnode
    (f := fun _ => span.queueNode system destination) rfl fun _ => .inl rfl
  unfold joinQueue
  split
  · exact extends_unresolved hg
  · have hproducer := extends_edge_if (span.kind = "PRODUCER") hset.sound (hset.kept _ hsid) hid
      "publishes" 1 0
    exact (hset.trans hproducer).trans (extends_edge_if (span.kind = "CONSUMER") hproducer.sound
      (hproducer.kept _ hid) (hproducer.kept _ (hset.kept _ hsid)) "consumes" 1 0)

theorem extends_visitQueue (hg : g.Sound) (hsid : span.serviceId ∈ Entries.keys g.nodes) :
    Extends g (g.visitQueue span) 0 := by
  unfold visitQueue
  cases given span.messagingSystem with
  | none => exact Extends.refl hg
  | some system =>
    cases given span.messagingDestination with
    | none => exact Extends.refl hg
    | some destination => exact extends_joinQueue hg hsid _ _

theorem extends_visit (hg : g.Sound) (U : Text.Unicode) (infraNodes : List InfraNodeLike)
    (trustedHostAccountId : Option String) (span : TraceSpan) :
    Extends g (g.visit U infraNodes trustedHostAccountId byId span) 1 := by
  obtain ⟨hcount, hsid⟩ := extends_countSpan hg span
  have hparent : Extends (g.countSpan span) ((g.countSpan span).visitParent byId span) 0 := by
    unfold visitParent
    cases given span.parentSpanId with
    | none => exact Extends.refl hcount.sound
    | some parent => exact extends_relate hcount.sound hsid _ _ _ _
  have h₁ := hcount.trans hparent
  have hsid₁ := hparent.kept _ hsid
  have hlinks := extends_links byId h₁.sound hsid₁ span.sourceId (span.links.getD [])
  have h₂ := h₁.trans hlinks
  have hsid₂ := hlinks.kept _ hsid₁
  have hdb := extends_visitDb h₂.sound hsid₂ U infraNodes trustedHostAccountId
  have h₃ := h₂.trans hdb
  have hsid₃ := hdb.kept _ hsid₂
  have hworkload := extends_visitWorkload h₃.sound hsid₃
  have h₄ := h₃.trans hworkload
  exact h₄.trans (extends_visitQueue h₄.sound (hworkload.kept _ hsid₃))

end Visits

/-! ## The graph -/

theorem extends_visitSpans (U : Text.Unicode) (infraNodes : List InfraNodeLike)
    (trustedHostAccountId : Option String) (spans : List TraceSpan) :
    Extends {} (visitSpans U infraNodes trustedHostAccountId spans) (byId spans).length := by
  have hfold : ∀ (index : SpanIndex) (visited : List TraceSpan) {g : Build}, g.Sound →
      Extends g (visited.foldl (visit U infraNodes trustedHostAccountId index) g)
        visited.length := by
    intro index visited
    induction visited with
    | nil => exact fun hg => Extends.refl hg
    | cons span rest ih =>
      intro g hg
      have hvisit : Extends g (g.visit U infraNodes trustedHostAccountId index span) 1 :=
        extends_visit hg U infraNodes trustedHostAccountId span
      have hrest := hvisit.trans (ih hvisit.sound)
      rwa [Nat.add_comm] at hrest
  have hall := hfold (byId spans) (values (byId spans)) sound_empty
  rwa [values, length_map] at hall

theorem extends_visitCalls {g : Build} (hg : g.Sound) (metricCalls : List ServiceGraphCall) :
    Extends g (metricCalls.foldl visitCall g) 0 := by
  induction metricCalls generalizing g with
  | nil => exact Extends.refl hg
  | cons call rest ih =>
    have hcall : Extends g (g.visitCall call) 0 := by
      unfold visitCall
      split
      · exact Extends.refl hg
      · obtain ⟨hclient, hc⟩ :=
          extends_serviceNode hg call.client (call.clientIdentity.getD {})
        obtain ⟨hserver, hs⟩ :=
          extends_serviceNode hclient.sound call.server (call.serverIdentity.getD {})
        exact (hclient.trans hserver).trans
          (extends_edge hserver.sound (hserver.kept _ hc) hs _ _ _)
    exact hcall.trans (ih hcall.sound)

/-- The edges of a graph end in its nodes, no relation of two nodes occurs twice, and the services
count the given number of spans. -/
structure TraceGraph.WellFormed (graph : TraceGraph) (counted : Nat) : Prop where
  nodes : (graph.nodes.map (·.id)).Nodup
  ends : ∀ e ∈ graph.edges, e.source ∈ graph.nodes.map (·.id) ∧ e.target ∈ graph.nodes.map (·.id)
  edges : (graph.edges.map fun e => (e.source, e.target, e.rel)).Nodup
  total : ((graph.nodes.filter fun node => node.kind == .service).map spanCount).sum =
    counted

theorem sum_services {entries : List (String × TraceNode)}
    (h : ∀ entry ∈ entries, entry.2.Fits entry.1) :
    (((values entries).filter fun node => node.kind == .service).map
      spanCount).sum = ((values entries).map spanCount).sum := by
  induction entries with
  | nil => rfl
  | cons entry rest ih =>
    have hrest := ih fun other hother => h other (mem_cons_of_mem _ hother)
    show ((List.filter _ (entry.2 :: values rest)).map _).sum =
      entry.2.spanCount + ((values rest).map _).sum
    by_cases hkind : entry.2.kind = .service
    · rw [filter_cons_of_pos (by simpa using hkind), map_cons, sum_cons, hrest]
    · rw [filter_cons_of_neg (by simpa using hkind), hrest,
        (h entry mem_cons_self).uncounted hkind, Nat.zero_add]

theorem Build.Sound.finish {g : Build} (hg : g.Sound) (invalidSpans : Nat) :
    (g.finish invalidSpans).WellFormed g.spanTotal := by
  have hids : (values g.nodes).map (·.id) = Entries.keys g.nodes := by
    rw [values, Entries.keys, map_map]
    exact map_congr_left fun entry hentry => (hg.fits entry hentry).id_eq
  refine ⟨?_, ?_, ?_, sum_services hg.fits⟩
  · show ((values g.nodes).map (·.id)).Nodup
    rw [hids]
    exact hg.nodes
  · intro e he
    obtain ⟨entry, hentry, rfl⟩ := mem_map.mp he
    show _ ∈ (values g.nodes).map (·.id) ∧ _ ∈ (values g.nodes).map (·.id)
    rw [hids]
    exact hg.ends entry hentry
  · refine List.Nodup.of_map (fun e : String × String × String => edgeKey e.1 e.2.1 e.2.2) ?_
    have hkeys := hg.edges
    show (((g.edges.map Prod.snd).map _).map _).Nodup
    rw [map_map, map_map]
    exact (map_congr_left fun entry hentry => hg.keyed entry hentry) ▸ hkeys

theorem build_trace_graph_well_formed (U : Text.Unicode) (spans : List TraceSpan)
    (metricCalls : List ServiceGraphCall) (infraNodes : List InfraNodeLike)
    (trustedHostAccountId : Option String) :
    (buildTraceGraph U spans metricCalls infraNodes trustedHostAccountId).WellFormed
      (byId spans).length := by
  have hspans := extends_visitSpans U infraNodes trustedHostAccountId spans
  have hgraph := hspans.trans (extends_visitCalls hspans.sound metricCalls)
  have htotal : (metricCalls.foldl visitCall
      (visitSpans U infraNodes trustedHostAccountId spans)).spanTotal = (byId spans).length := by
    rw [hgraph.total, Nat.add_zero]
    exact Nat.zero_add _
  rw [← htotal]
  exact hgraph.sound.finish _

end AwsOps.Topology
