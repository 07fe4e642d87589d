import Mathlib.Data.List.Lex
import AwsOps.Foundation.DisjointSets
import Mathlib.Data.List.Sort

/-!
# Clusters of resolved paths

The graph that network paths and security groups are drawn as, and `buildPathClusters`: nodes and
edges that are tagged with path ids are grouped by union-find over the ids, and each group takes in
the untagged nodes that its edges end at. `cluster_spec` says what a cluster holds.
-/

namespace AwsOps.PolicyGraph

open List Entries

open DisjointSets (Joined Sound ensure find union)

inductive PolicyGraphStatus
  | allowed | blocked | unknown | notRun | notApplicable
  deriving DecidableEq

structure PolicyGraphNode where
  id : String
  kind : String
  label : String
  status : PolicyGraphStatus
  pathIds : Option (List String)
  deriving DecidableEq

structure PolicyGraphEdge where
  id : String
  source : String
  target : String
  relation : String
  status : PolicyGraphStatus
  pathIds : Option (List String)
  deriving DecidableEq

/-- The graph that `boundGraph` is given. -/
structure RawGraph where
  nodes : List PolicyGraphNode
  edges : List PolicyGraphEdge

/-- `item.pathIds ?? []`. -/
def tags (pathIds : Option (List String)) : List String :=
  pathIds.getD []

def hasPathIds (pathIds : Option (List String)) : Bool :=
  !(tags pathIds).isEmpty

def RawGraph.pathNodes (graph : RawGraph) : List PolicyGraphNode :=
  graph.nodes.filter fun n => hasPathIds n.pathIds

def RawGraph.pathEdges (graph : RawGraph) : List PolicyGraphEdge :=
  graph.edges.filter fun e => hasPathIds e.pathIds

/-- The values of the map from ids to elements, of which the last for an id counts. -/
def lastById {α : Type} (id : α → String) (items : List α) : List α :=
  values (ofList (items.map fun item => (id item, item)))

def RawGraph.nodeById (graph : RawGraph) (id : String) : Option PolicyGraphNode :=
  Entries.get (ofList (graph.nodes.map fun n => (n.id, n))) id

/-- Add an id to a set of ids. -/
def insertId (ids : List String) (id : String) : List String :=
  if id ∈ ids then ids else ids ++ [id]

/-- The UTF-16 code units of a text, by which `sort` compares. -/
def codeUnits (text : String) : List Nat :=
  text.toList.flatMap fun c =>
    if c.toNat < 0x10000 then [c.toNat]
    else [0xD800 + (c.toNat - 0x10000) / 0x400, 0xDC00 + (c.toNat - 0x10000) % 0x400]

structure PathCluster where
  pathIds : List String
  minPathId : String
  nodes : List PolicyGraphNode
  edges : List PolicyGraphEdge

/-- One item of the union-find: its ids are there and have one root. -/
def joinIds (parent : List (String × String)) (ids : List String) : List (String × String) :=
  let parent := ids.foldl ensure parent
  match ids with
  | [] => parent
  | first :: rest => rest.foldl (fun parent id => union parent first id) parent

/-- The ids of each tagged item. -/
def RawGraph.tagLists (graph : RawGraph) : List (List String) :=
  graph.pathNodes.map (fun n => tags n.pathIds) ++ graph.pathEdges.map fun e => tags e.pathIds

/-- `parent` after all items. -/
def RawGraph.parents (graph : RawGraph) : List (String × String) :=
  graph.tagLists.foldl joinIds []

/-- The root of the first id of an item. -/
def RawGraph.rootOf (graph : RawGraph) (pathIds : Option (List String)) : String :=
  find graph.parents ((tags pathIds).headD "")

/-- Change the cluster of an item, which is made when it is not there. -/
def RawGraph.place (graph : RawGraph) (pathIds : Option (List String))
    (add : PathCluster → PathCluster) (byRoot : List (String × PathCluster)) :
    List (String × PathCluster) :=
  upsert (graph.rootOf pathIds) (fun found =>
    let c := found.getD ⟨[], (tags pathIds).headD "", [], []⟩
    add { c with pathIds := (tags pathIds).foldl insertId c.pathIds }) byRoot

/-- `byRoot` after all items. -/
def RawGraph.byRoot (graph : RawGraph) : List (String × PathCluster) :=
  let byRoot := graph.pathNodes.foldl (fun byRoot n =>
    graph.place n.pathIds (fun c => { c with nodes := c.nodes ++ [n] }) byRoot) []
  graph.pathEdges.foldl (fun byRoot e =>
    graph.place e.pathIds (fun c => { c with edges := c.edges ++ [e] }) byRoot) byRoot

/-- Take in the node that an edge ends at. -/
def RawGraph.pullIn (graph : RawGraph) (nodes : List PolicyGraphNode) (endpointId : String) :
    List PolicyGraphNode :=
  if nodes.any fun n => n.id == endpointId then nodes
  else match graph.nodeById endpointId with
    | some boundary => nodes ++ [boundary]
    | none => nodes

section Build

-- `localeCompare`.
variable (localeCompare : String → String → Int)

def byId {α : Type} (id : α → String) (a b : α) : Prop :=
  localeCompare (id a) (id b) ≤ 0

instance {α : Type} (id : α → String) : DecidableRel (byId localeCompare id) :=
  fun a b => inferInstanceAs (Decidable (localeCompare (id a) (id b) ≤ 0))

/-- A cluster with its boundary nodes, in order. -/
def RawGraph.close (graph : RawGraph) (c : PathCluster) : PathCluster where
  pathIds := c.pathIds
  minPathId := ((c.pathIds.insertionSort fun a b => codeUnits a ≤ codeUnits b).headD "")
  nodes := ((c.edges.flatMap fun e => [e.source, e.target]).foldl graph.pullIn c.nodes).insertionSort
    (byId localeCompare PolicyGraphNode.id)
  edges := c.edges.insertionSort (byId localeCompare PolicyGraphEdge.id)

def RawGraph.buildPathClusters (graph : RawGraph) : List PathCluster :=
  ((values graph.byRoot).map (graph.close localeCompare)).insertionSort
    (byId localeCompare PathCluster.minPathId)

end Build

/-! ## Items with shared ids have one root -/

section Roots

variable {parent : List (String × String)} {ids : List String}

theorem ensure_all (h : Sound parent) (ids : List String) : Sound (ids.foldl ensure parent) ∧
      (∀ a b, Joined parent a b → Joined (ids.foldl ensure parent) a b) ∧
      (∀ a ∈ keys parent, a ∈ keys (ids.foldl ensure parent)) ∧
      ∀ a ∈ ids, a ∈ keys (ids.foldl ensure parent) := by
  induction ids generalizing parent with
  | nil => exact ⟨h, fun _ _ hab => hab, fun _ ha => ha, fun _ ha => absurd ha not_mem_nil⟩
  | cons id ids ih =>
    obtain ⟨hsound, hjoined, hkeys, hids⟩ := ih (h.ensure id)
    refine ⟨hsound, fun a b hab => hjoined a b (hab.ensure h id), fun a ha => ?_, fun a ha => ?_⟩
    · exact hkeys a (DisjointSets.mem_keys_ensure.mpr (Or.inl ha))
    · obtain rfl | ha := mem_cons.mp ha
      · exact hkeys a (DisjointSets.mem_keys_ensure.mpr (Or.inr rfl))
      · exact hids a ha

theorem union_all (h : Sound parent) {first : String} (hfirst : first ∈ keys parent)
    (hids : ∀ a ∈ ids, a ∈ keys parent) :
    Sound (ids.foldl (fun parent id => union parent first id) parent) ∧ (∀ a b, Joined parent a b →
        Joined (ids.foldl (fun parent id => union parent first id) parent) a b) ∧
      ∀ a ∈ ids, Joined (ids.foldl (fun parent id => union parent first id) parent) first a := by
  induction ids generalizing parent with
  | nil => exact ⟨h, fun _ _ hab => hab, fun _ ha => absurd ha not_mem_nil⟩
  | cons id ids ih =>
    have hid := hids id mem_cons_self
    have hkeys : keys (union parent first id) = keys parent :=
      DisjointSets.keys_union h hfirst
    obtain ⟨hsound, hjoined, hrest⟩ := ih (h.union hfirst hid).1 (by rwa [hkeys])
      (fun a ha => by rw [hkeys]; exact hids a (mem_cons_of_mem id ha))
    refine ⟨hsound, fun a b hab => hjoined a b (hab.union h hfirst hid), fun a ha => ?_⟩
    obtain rfl | ha := mem_cons.mp ha
    · exact hjoined first a (DisjointSets.joined_union h hfirst hid)
    · exact hrest a ha

theorem join_ids_spec (h : Sound parent) (ids : List String) : Sound (joinIds parent ids) ∧
    (∀ a b, Joined parent a b → Joined (joinIds parent ids) a b) ∧
    ∀ a ∈ ids, ∀ b ∈ ids, Joined (joinIds parent ids) a b := by
  obtain ⟨hsound, hjoined, -, hkeys⟩ := ensure_all h ids
  cases ids with
  | nil => exact ⟨hsound, hjoined, fun _ ha => absurd ha not_mem_nil⟩
  | cons first rest =>
    obtain ⟨hsound', hjoined', hrest⟩ := union_all hsound (hkeys first mem_cons_self)
      (fun a ha => hkeys a (mem_cons_of_mem first ha))
    have hself : Joined ((first :: rest).foldl ensure parent) first first :=
      ⟨hkeys first mem_cons_self, hkeys first mem_cons_self, rfl⟩
    have hfirst : ∀ a ∈ first :: rest, Joined (joinIds parent (first :: rest)) first a := by
      intro a ha
      obtain rfl | ha := mem_cons.mp ha
      · exact hjoined' a a hself
      · exact hrest a ha
    refine ⟨hsound', fun a b hab => hjoined' a b (hjoined a b hab), fun a ha b hb => ?_⟩
    obtain ⟨-, hakey, ha⟩ := hfirst a ha
    obtain ⟨-, hbkey, hb⟩ := hfirst b hb
    exact ⟨hakey, hbkey, ha.symm.trans hb⟩

theorem join_all_spec (h : Sound parent) (items : List (List String)) :
    Sound (items.foldl joinIds parent) ∧
      (∀ a b, Joined parent a b → Joined (items.foldl joinIds parent) a b) ∧
      ∀ ids ∈ items, ∀ a ∈ ids, ∀ b ∈ ids, Joined (items.foldl joinIds parent) a b := by
  induction items generalizing parent with
  | nil => exact ⟨h, fun _ _ hab => hab, fun _ hids => absurd hids not_mem_nil⟩
  | cons ids items ih =>
    obtain ⟨hsound, hjoined, hids⟩ := join_ids_spec h ids
    obtain ⟨hsound', hjoined', hitems⟩ := ih hsound
    refine ⟨hsound', fun a b hab => hjoined' a b (hjoined a b hab), fun other hother => ?_⟩
    obtain rfl | hother := mem_cons.mp hother
    · exact fun a ha b hb => hjoined' a b (hids a ha b hb)
    · exact hitems other hother

end Roots

variable {graph : RawGraph}

variable (graph) in
/-- Two path ids are linked: a chain of items leads from one to the other. -/
inductive Linked : String → String → Prop
  | shared {ids : List String} {p q : String} (h : ids ∈ graph.tagLists) (hp : p ∈ ids)
      (hq : q ∈ ids) : Linked p q
  | trans {p q r : String} (hpq : Linked p q) (hqr : Linked q r) : Linked p r

theorem same_root_of_linked {p q : String} (h : Linked graph p q) :
    find graph.parents p = find graph.parents q := by
  induction h with
  | shared h hp hq =>
    exact ((join_all_spec DisjointSets.sound_nil graph.tagLists).2.2 _ h _ hp _ hq).2.2
  | trans _ _ ih ih' => exact ih.trans ih'

theorem root_of_tag {pathIds : Option (List String)} (h : tags pathIds ∈ graph.tagLists)
    {p : String} (hp : p ∈ tags pathIds) : graph.rootOf pathIds = find graph.parents p := by
  have hhead : (tags pathIds).headD "" ∈ tags pathIds := by
    cases htags : tags pathIds with
    | nil => rw [htags] at hp; cases hp
    | cons first rest => exact mem_cons_self
  exact same_root_of_linked (.shared h hhead hp)

/-! ## What a cluster holds -/

/-- The ids of nodes and of edges are not repeated. -/
structure RawGraph.Unique (graph : RawGraph) : Prop where
  nodes : (graph.nodes.map PolicyGraphNode.id).Nodup
  edges : (graph.edges.map PolicyGraphEdge.id).Nodup

variable (graph) in
structure Placed (nodes : List PolicyGraphNode) (edges : List PolicyGraphEdge)
    (byRoot : List (String × PathCluster)) : Prop where
  nodup : (keys byRoot).Nodup
  held : ∀ r c, Entries.get byRoot r = some c →
    c.nodes = nodes.filter (fun n => graph.rootOf n.pathIds = r) ∧
      c.edges = edges.filter fun e => graph.rootOf e.pathIds = r
  nodeRoot : ∀ n ∈ nodes, graph.rootOf n.pathIds ∈ keys byRoot
  edgeRoot : ∀ e ∈ edges, graph.rootOf e.pathIds ∈ keys byRoot

section Place

variable {nodes : List PolicyGraphNode} {edges : List PolicyGraphEdge}
  {byRoot : List (String × PathCluster)}

theorem Placed.nothing (h : Placed graph nodes edges byRoot) {r : String}
    (hr : Entries.get byRoot r = none) :
    nodes.filter (fun n => graph.rootOf n.pathIds = r) = [] ∧
      edges.filter (fun e => graph.rootOf e.pathIds = r) = [] := by
  have hkey := Entries.get_eq_none.mp hr
  constructor
  · refine filter_eq_nil_iff.mpr fun n hn => ?_
    simp only [decide_eq_true_eq]
    exact fun heq => hkey (heq ▸ h.nodeRoot n hn)
  · refine filter_eq_nil_iff.mpr fun e he => ?_
    simp only [decide_eq_true_eq]
    exact fun heq => hkey (heq ▸ h.edgeRoot e he)

theorem Placed.place (h : Placed graph nodes edges byRoot) {pathIds : Option (List String)}
    {add : PathCluster → PathCluster} {nodes' ns : List PolicyGraphNode}
    {edges' es : List PolicyGraphEdge} (hnodes' : nodes' = nodes ++ ns)
    (hedges' : edges' = edges ++ es)
    (hnodes : ∀ c, (add c).nodes = c.nodes ++ ns) (hedges : ∀ c, (add c).edges = c.edges ++ es)
    (hns : ∀ n ∈ ns, graph.rootOf n.pathIds = graph.rootOf pathIds)
    (hes : ∀ e ∈ es, graph.rootOf e.pathIds = graph.rootOf pathIds) :
    Placed graph nodes' edges' (graph.place pathIds add byRoot) := by
  subst hnodes' hedges'
  refine ⟨nodup_keys_upsert h.nodup _, fun r c hc => ?_, fun n hn => ?_, fun e he => ?_⟩
  · rw [RawGraph.place, get_upsert] at hc
    rw [filter_append, filter_append]
    split_ifs at hc with hr
    · obtain rfl := Option.some.inj hc
      subst hr
      rw [hnodes, hedges, filter_eq_self.mpr fun n hn => decide_eq_true (hns n hn),
        filter_eq_self.mpr fun e he => decide_eq_true (hes e he)]
      cases hget : Entries.get byRoot (graph.rootOf pathIds) with
      | none =>
        obtain ⟨hheld, hheld'⟩ := h.nothing hget
        exact ⟨by rw [hheld]; rfl, by rw [hheld']; rfl⟩
      | some c =>
        obtain ⟨hheld, hheld'⟩ := h.held _ c hget
        exact ⟨by rw [← hheld]; rfl, by rw [← hheld']; rfl⟩
    · have hnone : ns.filter (fun n => graph.rootOf n.pathIds = r) = [] :=
        filter_eq_nil_iff.mpr fun n hn => by simpa [hns n hn] using Ne.symm hr
      have hnone' : es.filter (fun e => graph.rootOf e.pathIds = r) = [] :=
        filter_eq_nil_iff.mpr fun e he => by simpa [hes e he] using Ne.symm hr
      rw [hnone, hnone', append_nil, append_nil]
      exact h.held r c hc
  · refine Entries.mem_keys_upsert.mpr ?_
    exact (mem_append.mp hn).imp (h.nodeRoot n) (hns n)
  · refine Entries.mem_keys_upsert.mpr ?_
    exact (mem_append.mp he).imp (h.edgeRoot e) (hes e)

theorem Placed.all_nodes (h : Placed graph nodes edges byRoot) (more : List PolicyGraphNode) :
    Placed graph (nodes ++ more) edges (more.foldl (fun byRoot n =>
      graph.place n.pathIds (fun c => { c with nodes := c.nodes ++ [n] }) byRoot) byRoot) := by
  induction more generalizing nodes byRoot with
  | nil => rwa [append_nil]
  | cons n more ih =>
    rw [append_cons]
    exact ih (h.place rfl (append_nil _).symm (fun _ => rfl) (fun _ => (append_nil _).symm)
      (by simp) nofun)

theorem Placed.all_edges (h : Placed graph nodes edges byRoot) (more : List PolicyGraphEdge) :
    Placed graph nodes (edges ++ more) (more.foldl (fun byRoot e =>
      graph.place e.pathIds (fun c => { c with edges := c.edges ++ [e] }) byRoot) byRoot) := by
  induction more generalizing edges byRoot with
  | nil => rwa [append_nil]
  | cons e more ih =>
    rw [append_cons]
    exact ih (h.place (append_nil _).symm rfl (fun _ => (append_nil _).symm) (fun _ => rfl) nofun
      (by simp))

end Place

theorem by_root_placed (graph : RawGraph) :
    Placed graph graph.pathNodes graph.pathEdges graph.byRoot := by
  have hnil : Placed graph [] [] [] :=
    ⟨nodup_nil, nofun, nofun, nofun⟩
  exact (hnil.all_nodes graph.pathNodes).all_edges graph.pathEdges

theorem node_by_id_iff (h : graph.Unique) {id : String} {n : PolicyGraphNode} :
    graph.nodeById id = some n ↔ n ∈ graph.nodes ∧ n.id = id := by
  unfold RawGraph.nodeById
  constructor
  · intro hget
    have hmem := mem_of_get_ofList hget
    obtain ⟨m, hm, heq⟩ := mem_map.mp hmem
    obtain ⟨rfl, rfl⟩ := Prod.mk.inj heq
    exact ⟨hm, rfl⟩
  · intro hn
    obtain ⟨hn, rfl⟩ := hn
    cases hget : Entries.get (ofList (graph.nodes.map fun n => (n.id, n))) n.id with
    | none =>
      have hkey := Entries.get_eq_none.mp hget
      rw [mem_keys_ofList] at hkey
      exact absurd (mem_map_of_mem (f := Prod.fst)
        (mem_map_of_mem (f := fun n : PolicyGraphNode => (n.id, n)) hn)) hkey
    | some m =>
      obtain ⟨k, hk, heq⟩ := mem_map.mp (mem_of_get_ofList hget)
      obtain ⟨hid, rfl⟩ := Prod.mk.inj heq
      rw [inj_on_of_nodup_map h.nodes hk hn hid]

theorem pull_in_all (h : graph.Unique) {nodes : List PolicyGraphNode}
    (hsub : ∀ n ∈ nodes, n ∈ graph.nodes) (hnodup : (nodes.map PolicyGraphNode.id).Nodup)
    (endpoints : List String) :
    ((endpoints.foldl graph.pullIn nodes).map PolicyGraphNode.id).Nodup ∧
      ∀ n, n ∈ endpoints.foldl graph.pullIn nodes ↔
        n ∈ nodes ∨ n ∈ graph.nodes ∧ n.id ∈ endpoints := by
  induction endpoints generalizing nodes with
  | nil => exact ⟨hnodup, fun n => by simp⟩
  | cons id endpoints ih =>
    -- One more node at most, unless its id is there.
    have hstep : ((graph.pullIn nodes id).map PolicyGraphNode.id).Nodup ∧
        ∀ n, n ∈ graph.pullIn nodes id ↔ n ∈ nodes ∨ n ∈ graph.nodes ∧ n.id = id := by
      unfold RawGraph.pullIn
      split_ifs with hany
      · refine ⟨hnodup, fun n => ⟨Or.inl, fun hn => hn.elim (·) fun hn => ?_⟩⟩
        obtain ⟨m, hm, hid⟩ := any_eq_true.mp hany
        rw [inj_on_of_nodup_map h.nodes hn.1 (hsub m hm) (hn.2.trans (eq_of_beq hid).symm)]
        exact hm
      · cases hget : graph.nodeById id with
        | none =>
          refine ⟨hnodup, fun n => ⟨Or.inl, fun hn => hn.elim (·) fun hn => ?_⟩⟩
          rw [(node_by_id_iff h).mpr hn] at hget
          cases hget
        | some b =>
          obtain ⟨hb, rfl⟩ := (node_by_id_iff h).mp hget
          constructor
          · rw [map_append, map_singleton]
            refine nodup_append.mpr ⟨hnodup, nodup_singleton _, ?_⟩
            intro x hx y hy hxy
            obtain ⟨m, hm, rfl⟩ := mem_map.mp hx
            rw [mem_singleton.mp hy] at hxy
            exact hany (any_eq_true.mpr ⟨m, hm, beq_iff_eq.mpr hxy⟩)
          · intro n
            rw [mem_append, mem_singleton]
            refine or_congr_right ⟨fun hn => ?_, fun hn => ?_⟩
            · rw [hn]
              exact ⟨hb, rfl⟩
            · exact inj_on_of_nodup_map h.nodes hn.1 hb hn.2
    have hsub' : ∀ n ∈ graph.pullIn nodes id, n ∈ graph.nodes := fun n hn =>
      ((hstep.2 n).mp hn).elim (hsub n) And.left
    obtain ⟨hnodup', hmem⟩ := ih hsub' hstep.1
    refine ⟨hnodup', fun n => ?_⟩
    rw [foldl_cons, hmem, hstep.2, mem_cons]
    tauto

section Spec

variable (localeCompare : String → String → Int)

/-- The cluster of a root. -/
def RawGraph.clusterOf (graph : RawGraph) (r : String) : Option PathCluster :=
  (Entries.get graph.byRoot r).map (graph.close localeCompare)

theorem mem_clusters_iff {c : PathCluster} : c ∈ graph.buildPathClusters localeCompare ↔
    ∃ r, graph.clusterOf localeCompare r = some c := by
  unfold RawGraph.buildPathClusters
  rw [(perm_insertionSort _ _).mem_iff, mem_map]
  constructor
  · intro h
    obtain ⟨open', hmem, rfl⟩ := h
    obtain ⟨⟨r, c⟩, hentry, rfl⟩ := mem_map.mp hmem
    refine ⟨r, ?_⟩
    rw [RawGraph.clusterOf, get_of_mem (by_root_placed graph).nodup hentry]
    rfl
  · intro h
    obtain ⟨r, hr⟩ := h
    obtain ⟨open', hget, rfl⟩ := Option.map_eq_some_iff.mp hr
    exact ⟨open', mem_map.mpr ⟨(r, open'), mem_of_get hget, rfl⟩, rfl⟩

/-- What the cluster of a root holds. -/
structure ClusterSpec (graph : RawGraph) (r : String) (c : PathCluster) : Prop where
  edges : ∀ e, e ∈ c.edges ↔ e ∈ graph.pathEdges ∧ graph.rootOf e.pathIds = r
  nodes : ∀ n, n ∈ c.nodes ↔ (n ∈ graph.pathNodes ∧ graph.rootOf n.pathIds = r) ∨
    n ∈ graph.nodes ∧ ∃ e ∈ c.edges, n.id = e.source ∨ n.id = e.target
  nodeIds : (c.nodes.map PolicyGraphNode.id).Nodup
  edgeIds : (c.edges.map PolicyGraphEdge.id).Nodup

theorem cluster_spec (h : graph.Unique) {r : String} {c : PathCluster}
    (hc : graph.clusterOf localeCompare r = some c) : ClusterSpec graph r c := by
  obtain ⟨open', hget, rfl⟩ := Option.map_eq_some_iff.mp hc
  obtain ⟨hnodes, hedges⟩ := (by_root_placed graph).held r open' hget
  have hedgeMem : ∀ e, e ∈ (graph.close localeCompare open').edges ↔
      e ∈ graph.pathEdges ∧ graph.rootOf e.pathIds = r := by
    intro e
    show e ∈ open'.edges.insertionSort _ ↔ _
    rw [(perm_insertionSort _ _).mem_iff, hedges, mem_filter, decide_eq_true_eq]
  have hsub : ∀ n ∈ open'.nodes, n ∈ graph.nodes := by
    intro n hn
    rw [hnodes] at hn
    exact (mem_filter.mp (mem_filter.mp hn).1).1
  have hsublist : open'.nodes.Sublist graph.nodes := by
    rw [hnodes]
    exact filter_sublist.trans filter_sublist
  have hnodup : (open'.nodes.map PolicyGraphNode.id).Nodup := h.nodes.sublist (hsublist.map _)
  obtain ⟨hpulled, hmem⟩ := pull_in_all h hsub hnodup
    (open'.edges.flatMap fun e => [e.source, e.target])
  refine ⟨hedgeMem, fun n => ?_, ?_, ?_⟩
  · show n ∈ List.insertionSort _ (List.foldl _ _ _) ↔ _
    rw [(perm_insertionSort _ _).mem_iff, hmem, hnodes, mem_filter, decide_eq_true_eq]
    have hends : n.id ∈ (open'.edges.flatMap fun e => [e.source, e.target]) ↔
        ∃ e ∈ (graph.close localeCompare open').edges, n.id = e.source ∨ n.id = e.target := by
      show _ ↔ ∃ e ∈ open'.edges.insertionSort _, _
      simp [(perm_insertionSort _ _).mem_iff]
    rw [hends]
  · show ((List.insertionSort _ _).map _).Nodup
    exact (((perm_insertionSort _ _).map _).nodup_iff).mpr hpulled
  · show ((List.insertionSort _ _).map _).Nodup
    rw [((perm_insertionSort _ _).map _).nodup_iff, hedges]
    exact h.edges.sublist ((filter_sublist.trans filter_sublist).map _)

theorem cluster_of_node {n : PolicyGraphNode} (hn : n ∈ graph.pathNodes) :
    ∃ c, graph.clusterOf localeCompare (graph.rootOf n.pathIds) = some c := by
  have hkey := (by_root_placed graph).nodeRoot n hn
  cases hget : Entries.get graph.byRoot (graph.rootOf n.pathIds) with
  | none => exact absurd hkey (Entries.get_eq_none.mp hget)
  | some c => exact ⟨_, by rw [RawGraph.clusterOf, hget]; rfl⟩

theorem cluster_of_edge {e : PolicyGraphEdge} (he : e ∈ graph.pathEdges) :
    ∃ c, graph.clusterOf localeCompare (graph.rootOf e.pathIds) = some c := by
  have hkey := (by_root_placed graph).edgeRoot e he
  cases hget : Entries.get graph.byRoot (graph.rootOf e.pathIds) with
  | none => exact absurd hkey (Entries.get_eq_none.mp hget)
  | some c => exact ⟨_, by rw [RawGraph.clusterOf, hget]; rfl⟩

end Spec

end AwsOps.PolicyGraph
