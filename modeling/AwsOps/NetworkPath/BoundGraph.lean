import AwsOps.NetworkPath.PathClusters
import Mathlib.Data.List.Perm.Subperm

/-!
# Bounding the policy graph

`boundGraph` admits the clusters of resolved paths one after the other, as long as they fit, and fills
the rest of the budget with untagged nodes and edges. The caps, the endpoints and the counts of what
is left out hold for every graph. A path is shown whole or not at all where no tagged edge ends at a
tagged node of an unlinked path, or everything fits (`bound_graph_lawful`).
-/

namespace AwsOps.PolicyGraph

open List Entries

structure GraphCaps where
  nodes : Nat
  edges : Nat

structure Omitted where
  nodes : Int
  edges : Int

structure PolicyGraphDto where
  truncated : Bool
  omitted : Omitted
  pathTruncated : Bool
  nodes : List PolicyGraphNode
  edges : List PolicyGraphEdge

/-- The clusters that are admitted, and the ids of their nodes and edges. -/
structure Admission where
  included : List PathCluster
  nodeIds : List String
  edgeIds : List String

/-- One cluster is tried. -/
def offer (caps : GraphCaps) (a : Admission) (c : PathCluster) : Admission :=
  let newNodeCount := (c.nodes.filter fun node => node.id ∉ a.nodeIds).length
  let newEdgeCount := (c.edges.filter fun edge => edge.id ∉ a.edgeIds).length
  if a.nodeIds.length + newNodeCount ≤ caps.nodes ∧ a.edgeIds.length + newEdgeCount ≤ caps.edges then
    { included := a.included ++ [c]
      nodeIds := (c.nodes.map PolicyGraphNode.id).foldl insertId a.nodeIds
      edgeIds := (c.edges.map PolicyGraphEdge.id).foldl insertId a.edgeIds }
  else a

section Bound

variable (localeCompare : String → String → Int)

def includedClusters (graph : RawGraph) (caps : GraphCaps) : List PathCluster :=
  ((graph.buildPathClusters localeCompare).foldl (offer caps) ⟨[], [], []⟩).included

def keptPathNodes (graph : RawGraph) (caps : GraphCaps) : List PolicyGraphNode :=
  (lastById PolicyGraphNode.id
    ((includedClusters localeCompare graph caps).flatMap PathCluster.nodes)).insertionSort
      (byId localeCompare PolicyGraphNode.id)

def keptNodes (graph : RawGraph) (caps : GraphCaps) : List PolicyGraphNode :=
  let kept := keptPathNodes localeCompare graph caps
  let looseNodes := (graph.nodes.filter fun n =>
    !hasPathIds n.pathIds && !(kept.map PolicyGraphNode.id).contains n.id).insertionSort
      (byId localeCompare PolicyGraphNode.id)
  (kept ++ looseNodes.take (caps.nodes - kept.length)).insertionSort
    (byId localeCompare PolicyGraphNode.id)

def endsKept (nodes : List PolicyGraphNode) (e : PolicyGraphEdge) : Bool :=
  (nodes.map PolicyGraphNode.id).contains e.source &&
    (nodes.map PolicyGraphNode.id).contains e.target

def rawPathEdges (graph : RawGraph) (caps : GraphCaps) : List PolicyGraphEdge :=
  lastById PolicyGraphEdge.id
    ((includedClusters localeCompare graph caps).flatMap PathCluster.edges)

def keptPathEdges (graph : RawGraph) (caps : GraphCaps) : List PolicyGraphEdge :=
  ((rawPathEdges localeCompare graph caps).filter
    (endsKept (keptNodes localeCompare graph caps))).insertionSort
      (byId localeCompare PolicyGraphEdge.id)

def keptEdges (graph : RawGraph) (caps : GraphCaps) : List PolicyGraphEdge :=
  let kept := keptPathEdges localeCompare graph caps
  let looseEdges := (graph.edges.filter fun e => !hasPathIds e.pathIds).insertionSort
    (byId localeCompare PolicyGraphEdge.id)
  (kept ++ (looseEdges.filter (endsKept (keptNodes localeCompare graph caps))).take
    (caps.edges - kept.length)).insertionSort (byId localeCompare PolicyGraphEdge.id)

def boundGraph (graph : RawGraph) (caps : GraphCaps) : PolicyGraphDto :=
  let nodes := keptNodes localeCompare graph caps
  let edges := keptEdges localeCompare graph caps
  let omittedNodes : Int := graph.nodes.length - nodes.length
  let omittedEdges : Int := graph.edges.length - edges.length
  { truncated := decide (0 < omittedNodes) || decide (0 < omittedEdges)
    omitted := ⟨omittedNodes, omittedEdges⟩
    pathTruncated := (includedClusters localeCompare graph caps).length !=
        (graph.buildPathClusters localeCompare).length ||
      (rawPathEdges localeCompare graph caps).length !=
        (keptPathEdges localeCompare graph caps).length
    nodes := nodes
    edges := edges }

end Bound

/-! ## Elements by their ids -/

section LastById

variable {α : Type} {id : α → String} {all items : List α}

theorem ids_last_by_id (items : List α) :
    (lastById id items).map id = Entries.keys (ofList (items.map fun a => (id a, a))) := by
  have hid : ∀ entry ∈ ofList (items.map fun a => (id a, a)), id entry.2 = entry.1 := by
    intro entry hentry
    have hget := get_of_mem (nodup_keys_ofList _) hentry
    obtain ⟨a, -, heq⟩ := mem_map.mp (mem_of_get_ofList hget)
    obtain ⟨h1, h2⟩ := Prod.mk.inj heq
    rw [← h1, ← h2]
  unfold lastById Entries.values Entries.keys
  rw [map_map]
  exact map_congr_left hid

theorem nodup_last_by_id (items : List α) : ((lastById id items).map id).Nodup := by
  rw [ids_last_by_id]
  exact nodup_keys_ofList _

/-- Among elements whose ids are not repeated, all are kept. -/
theorem mem_last_by_id (hall : (all.map id).Nodup) (hsub : ∀ a ∈ items, a ∈ all) {a : α} :
    a ∈ lastById id items ↔ a ∈ items := by
  have hfound : ∀ b ∈ lastById id items, b ∈ items := by
    intro b hb
    obtain ⟨entry, hentry, rfl⟩ := mem_map.mp hb
    have hget := get_of_mem (nodup_keys_ofList _) hentry
    obtain ⟨a, ha, heq⟩ := mem_map.mp (mem_of_get_ofList hget)
    rw [← (Prod.mk.inj heq).2]
    exact ha
  refine ⟨hfound a, fun ha => ?_⟩
  have hkey : id a ∈ (lastById id items).map id := by
    rw [ids_last_by_id, mem_keys_ofList]
    exact mem_map_of_mem (f := Prod.fst) (mem_map_of_mem (f := fun a => (id a, a)) ha)
  obtain ⟨b, hb, hid⟩ := mem_map.mp hkey
  rw [← inj_on_of_nodup_map hall (hsub b (hfound b hb)) (hsub a ha) hid]
  exact hb

end LastById

/-- What is left of elements with ids that are not repeated, once others are taken, is counted by
the lengths. -/
theorem omitted_count {α : Type} [DecidableEq α] {all kept : List α} (hall : all.Nodup)
    (hkept : kept.Nodup) (hsub : ∀ a ∈ kept, a ∈ all) :
    (all.length : Int) - kept.length = (all.filter fun a => a ∉ kept).length := by
  have hperm : kept.Perm (all.filter fun a => a ∈ kept) := by
    refine (perm_ext_iff_of_nodup hkept (hall.filter _)).mpr fun a => ?_
    rw [mem_filter, decide_eq_true_eq]
    exact ⟨fun ha => ⟨hsub a ha, ha⟩, And.right⟩
  have hlength := length_eq_length_filter_add (l := all) fun a => decide (a ∈ kept)
  rw [← hperm.length_eq] at hlength
  simp only [decide_not]
  omega

/-! ## Admission -/

section Admit

variable {caps : GraphCaps} {ids more : List String}

theorem mem_insert_all {x : String} : x ∈ more.foldl insertId ids ↔ x ∈ ids ∨ x ∈ more := by
  induction more generalizing ids with
  | nil => simp
  | cons id more ih =>
    have hone : x ∈ insertId ids id ↔ x ∈ ids ∨ x = id := by
      unfold insertId
      split_ifs with h
      · exact ⟨Or.inl, fun hx => hx.elim (·) fun heq => heq ▸ h⟩
      · rw [mem_append, mem_singleton]
    rw [foldl_cons, ih, hone, mem_cons, or_assoc]

theorem nodup_insert_all (h : ids.Nodup) : (more.foldl insertId ids).Nodup := by
  induction more generalizing ids with
  | nil => exact h
  | cons id more ih =>
    refine ih ?_
    unfold insertId
    split_ifs with hid
    · exact h
    · refine nodup_append.mpr ⟨h, nodup_singleton id, fun a ha b hb hab => ?_⟩
      rw [mem_singleton.mp hb] at hab
      exact hid (hab ▸ ha)

/-- As many ids are added as there are new ones at most. -/
theorem length_insert_all : (more.foldl insertId ids).length ≤
    ids.length + (more.filter fun id => id ∉ ids).length := by
  induction more generalizing ids with
  | nil => simp
  | cons id more ih =>
    have hrest := @ih (insertId ids id)
    rw [foldl_cons]
    by_cases hid : id ∈ ids
    · rw [insertId, if_pos hid] at hrest ⊢
      rw [filter_cons_of_neg (by simpa using hid)]
      exact hrest
    · rw [insertId, if_neg hid] at hrest ⊢
      rw [filter_cons_of_pos (by simpa using hid), length_cons]
      have hfewer : (more.filter fun x => x ∉ ids ++ [id]).length ≤
          (more.filter fun x => x ∉ ids).length := by
        refine (monotone_filter_right more fun x hx => ?_).length_le
        simp only [mem_append, not_or, decide_eq_true_eq] at hx ⊢
        exact hx.1
      rw [length_append, length_singleton] at hrest
      omega

theorem new_count {α : Type} (id : α → String) (items : List α) :
    ((items.map id).filter fun x => x ∉ ids).length =
      (items.filter fun item => id item ∉ ids).length := by
  rw [filter_map, length_map]
  rfl

variable (caps) in
/-- What the loop keeps to. -/
structure Admitted (tried : List PathCluster) (a : Admission) : Prop where
  included : a.included.Sublist tried
  nodeCap : a.nodeIds.length ≤ caps.nodes
  edgeCap : a.edgeIds.length ≤ caps.edges
  nodeIds : ∀ c ∈ a.included, ∀ n ∈ c.nodes, n.id ∈ a.nodeIds
  edgeIds : ∀ c ∈ a.included, ∀ e ∈ c.edges, e.id ∈ a.edgeIds

variable {tried : List PathCluster} {a : Admission}

theorem Admitted.step (h : Admitted caps tried a)
    (c : PathCluster) : Admitted caps (tried ++ [c]) (offer caps a c) := by
  unfold offer
  dsimp only
  split_ifs with hfit
  · obtain ⟨hnodes, hedges⟩ := hfit
    refine ⟨h.included.append (List.Sublist.refl _), ?_, ?_, fun d hd n hn => ?_,
      fun d hd e he => ?_⟩
    · refine Nat.le_trans length_insert_all ?_
      rw [new_count]
      exact hnodes
    · refine Nat.le_trans length_insert_all ?_
      rw [new_count]
      exact hedges
    · refine mem_insert_all.mpr ?_
      rcases mem_append.mp hd with hd | hd
      · exact Or.inl (h.nodeIds d hd n hn)
      · rw [mem_singleton.mp hd] at hn
        exact Or.inr (mem_map_of_mem hn)
    · refine mem_insert_all.mpr ?_
      rcases mem_append.mp hd with hd | hd
      · exact Or.inl (h.edgeIds d hd e he)
      · rw [mem_singleton.mp hd] at he
        exact Or.inr (mem_map_of_mem he)
  · exact ⟨h.included.trans (sublist_append_left tried [c]), h.nodeCap, h.edgeCap, h.nodeIds,
      h.edgeIds⟩

theorem Admitted.run (h : Admitted caps tried a)
    (clusters : List PathCluster) : Admitted caps (tried ++ clusters) (clusters.foldl (offer caps) a) := by
  induction clusters generalizing tried a with
  | nil => rwa [append_nil]
  | cons c clusters ih =>
    have hstep := ih (h.step c)
    rwa [append_assoc, singleton_append] at hstep

theorem admitted_all (clusters : List PathCluster) :
    Admitted caps clusters (clusters.foldl (offer caps) ⟨[], [], []⟩) := by
  have hstart : Admitted caps [] ⟨[], [], []⟩ :=
    ⟨List.Sublist.refl _, Nat.zero_le _, Nat.zero_le _, nofun, nofun⟩
  exact hstart.run clusters

theorem fits_of_subset {α : Type} {id : α → String} {items : List α} {room : List String}
    {cap : Nat} (hids : ids.Nodup) (hitems : (items.map id).Nodup) (hsub : ∀ x ∈ ids, x ∈ room)
    (hroom : ∀ a ∈ items, id a ∈ room) (hcap : room.length ≤ cap) :
    ids.length + (items.filter fun a => id a ∉ ids).length ≤ cap := by
  rw [← new_count, ← length_append]
  refine Nat.le_trans (List.Nodup.subperm ?_ fun x hx => ?_).length_le hcap
  · refine nodup_append.mpr ⟨hids, hitems.filter _, fun a ha b hb hab => ?_⟩
    have hnot := (mem_filter.mp hb).2
    simp only [decide_eq_true_eq] at hnot
    exact hnot (hab ▸ ha)
  · rcases mem_append.mp hx with hx | hx
    · exact hsub x hx
    · obtain ⟨a, ha, rfl⟩ := mem_map.mp (mem_filter.mp hx).1
      exact hroom a ha

theorem all_admitted {clusters : List PathCluster} {nodeRoom edgeRoom : List String}
    (hnodes : nodeRoom.length ≤ caps.nodes) (hedges : edgeRoom.length ≤ caps.edges)
    (hnodeIds : ∀ c ∈ clusters, (c.nodes.map PolicyGraphNode.id).Nodup ∧
      ∀ n ∈ c.nodes, n.id ∈ nodeRoom)
    (hedgeIds : ∀ c ∈ clusters, (c.edges.map PolicyGraphEdge.id).Nodup ∧
      ∀ e ∈ c.edges, e.id ∈ edgeRoom) (ha : a.nodeIds.Nodup ∧ a.edgeIds.Nodup)
    (hsub : (∀ x ∈ a.nodeIds, x ∈ nodeRoom) ∧ ∀ x ∈ a.edgeIds, x ∈ edgeRoom) :
    (clusters.foldl (offer caps) a).included = a.included ++ clusters := by
  induction clusters generalizing a with
  | nil => exact (append_nil _).symm
  | cons c clusters ih =>
    obtain ⟨hn, hnroom⟩ := hnodeIds c mem_cons_self
    obtain ⟨he, heroom⟩ := hedgeIds c mem_cons_self
    have hoffer : offer caps a c = ⟨a.included ++ [c],
        (c.nodes.map PolicyGraphNode.id).foldl insertId a.nodeIds,
        (c.edges.map PolicyGraphEdge.id).foldl insertId a.edgeIds⟩ :=
      if_pos ⟨fits_of_subset ha.1 hn hsub.1 hnroom hnodes,
        fits_of_subset ha.2 he hsub.2 heroom hedges⟩
    rw [foldl_cons, hoffer, ih (fun d hd => hnodeIds d (mem_cons_of_mem c hd))
      (fun d hd => hedgeIds d (mem_cons_of_mem c hd))
      ⟨nodup_insert_all ha.1, nodup_insert_all ha.2⟩ ⟨fun x hx => ?_, fun x hx => ?_⟩]
    · rw [append_assoc, singleton_append]
    · rcases mem_insert_all.mp hx with hx | hx
      · exact hsub.1 x hx
      · obtain ⟨n, hn, rfl⟩ := mem_map.mp hx
        exact hnroom n hn
    · rcases mem_insert_all.mp hx with hx | hx
      · exact hsub.2 x hx
      · obtain ⟨e, he, rfl⟩ := mem_map.mp hx
        exact heroom e he

end Admit

/-! ## The bounded graph -/

section Law

variable {localeCompare : String → String → Int} {graph : RawGraph} {caps : GraphCaps}

theorem included_sublist : (includedClusters localeCompare graph caps).Sublist
    (graph.buildPathClusters localeCompare) :=
  (admitted_all _).included

theorem included_spec (h : graph.Unique) {c : PathCluster}
    (hc : c ∈ includedClusters localeCompare graph caps) :
    ∃ r, graph.clusterOf localeCompare r = some c ∧ ClusterSpec graph r c := by
  obtain ⟨r, hr⟩ := (mem_clusters_iff localeCompare).mp (included_sublist.subset hc)
  exact ⟨r, hr, cluster_spec localeCompare h hr⟩

variable {n : PolicyGraphNode} {e : PolicyGraphEdge}

theorem mem_path_nodes : n ∈ graph.pathNodes ↔ n ∈ graph.nodes ∧ hasPathIds n.pathIds :=
  mem_filter

theorem mem_path_edges : e ∈ graph.pathEdges ↔ e ∈ graph.edges ∧ hasPathIds e.pathIds :=
  mem_filter

theorem included_nodes_from (h : graph.Unique) : ∀ n ∈ (includedClusters localeCompare graph
    caps).flatMap PathCluster.nodes, n ∈ graph.nodes := by
  intro n hn
  obtain ⟨c, hc, hn⟩ := mem_flatMap.mp hn
  obtain ⟨r, -, hspec⟩ := included_spec h hc
  obtain ⟨hn, -⟩ | ⟨hn, -⟩ := (hspec.nodes n).mp hn
  · exact (mem_path_nodes.mp hn).1
  · exact hn

theorem included_edges_from (h : graph.Unique) : ∀ e ∈ (includedClusters localeCompare graph
    caps).flatMap PathCluster.edges, e ∈ graph.pathEdges := by
  intro e he
  obtain ⟨c, hc, he⟩ := mem_flatMap.mp he
  obtain ⟨r, -, hspec⟩ := included_spec h hc
  exact ((hspec.edges e).mp he).1

theorem mem_kept_path_nodes (h : graph.Unique) : n ∈ keptPathNodes localeCompare graph caps ↔
      ∃ c ∈ includedClusters localeCompare graph caps, n ∈ c.nodes := by
  rw [keptPathNodes, (perm_insertionSort _ _).mem_iff,
    mem_last_by_id h.nodes (included_nodes_from h), mem_flatMap]

theorem mem_raw_path_edges (h : graph.Unique) : e ∈ rawPathEdges localeCompare graph caps ↔
      ∃ c ∈ includedClusters localeCompare graph caps, e ∈ c.edges := by
  rw [rawPathEdges, mem_last_by_id h.edges fun e he =>
    (mem_path_edges.mp (included_edges_from h e he)).1, mem_flatMap]

theorem nodup_kept_path_ids :
    ((keptPathNodes localeCompare graph caps).map PolicyGraphNode.id).Nodup :=
  (((perm_insertionSort _ _).map _).nodup_iff).mpr (nodup_last_by_id _)

theorem kept_path_nodes_cap (h : graph.Unique) :
    (keptPathNodes localeCompare graph caps).length ≤ caps.nodes := by
  have hadmitted := @admitted_all caps (graph.buildPathClusters localeCompare)
  rw [← length_map PolicyGraphNode.id]
  refine Nat.le_trans (List.Nodup.subperm nodup_kept_path_ids fun x hx => ?_).length_le
    hadmitted.nodeCap
  obtain ⟨n, hn, rfl⟩ := mem_map.mp hx
  obtain ⟨c, hc, hn⟩ := (mem_kept_path_nodes h).mp hn
  exact hadmitted.nodeIds c hc n hn

theorem raw_path_edges_cap (h : graph.Unique) :
    (rawPathEdges localeCompare graph caps).length ≤ caps.edges := by
  have hadmitted := @admitted_all caps (graph.buildPathClusters localeCompare)
  rw [← length_map PolicyGraphEdge.id]
  refine Nat.le_trans (List.Nodup.subperm (nodup_last_by_id _) fun x hx => ?_).length_le
    hadmitted.edgeCap
  obtain ⟨e, he, rfl⟩ := mem_map.mp hx
  obtain ⟨c, hc, he⟩ := (mem_raw_path_edges h).mp he
  exact hadmitted.edgeIds c hc e he

theorem loose_node_cases {kept : List PolicyGraphNode} {k : Nat}
    (hn : n ∈ ((graph.nodes.filter fun n => !hasPathIds n.pathIds &&
      !(kept.map PolicyGraphNode.id).contains n.id).insertionSort
        (byId localeCompare PolicyGraphNode.id)).take k) :
    n ∈ graph.nodes ∧ hasPathIds n.pathIds = false ∧ n.id ∉ kept.map PolicyGraphNode.id := by
  have hloose := (perm_insertionSort _ _).mem_iff.mp (mem_of_mem_take hn)
  rw [mem_filter, Bool.and_eq_true, Bool.not_eq_true', Bool.not_eq_true',
    ← Bool.not_eq_true ((kept.map PolicyGraphNode.id).contains n.id), contains_iff_mem] at hloose
  exact hloose

theorem kept_nodes_cases (hn : n ∈ keptNodes localeCompare graph caps) :
    n ∈ keptPathNodes localeCompare graph caps ∨ n ∈ graph.nodes ∧ hasPathIds n.pathIds = false ∧
        n.id ∉ (keptPathNodes localeCompare graph caps).map PolicyGraphNode.id := by
  unfold keptNodes at hn
  dsimp only at hn
  rw [(perm_insertionSort _ _).mem_iff, mem_append] at hn
  exact hn.imp_right loose_node_cases

theorem kept_of_path (hn : n ∈ keptPathNodes localeCompare graph caps) :
    n ∈ keptNodes localeCompare graph caps := by
  unfold keptNodes
  dsimp only
  rw [(perm_insertionSort _ _).mem_iff]
  exact mem_append_left _ hn

theorem kept_nodes_from (h : graph.Unique)
    (hn : n ∈ keptNodes localeCompare graph caps) : n ∈ graph.nodes := by
  obtain hn | hn := kept_nodes_cases hn
  · obtain ⟨c, hc, hn⟩ := (mem_kept_path_nodes h).mp hn
    exact included_nodes_from h n (mem_flatMap.mpr ⟨c, hc, hn⟩)
  · exact hn.1

theorem nodup_kept_nodes (h : graph.Unique) : (keptNodes localeCompare graph caps).Nodup := by
  unfold keptNodes
  dsimp only
  rw [(perm_insertionSort _ _).nodup_iff]
  refine nodup_append.mpr ⟨nodup_kept_path_ids.of_map _, ?_, fun a ha b hb hab => ?_⟩
  · refine List.Nodup.sublist (take_sublist _ _) ?_
    rw [(perm_insertionSort _ _).nodup_iff]
    exact (h.nodes.of_map _).filter _
  · exact (loose_node_cases hb).2.2 (hab ▸ mem_map_of_mem ha)

theorem kept_nodes_cap (h : graph.Unique) :
    (keptNodes localeCompare graph caps).length ≤ caps.nodes := by
  have hpath : (keptPathNodes localeCompare graph caps).length ≤ caps.nodes := kept_path_nodes_cap h
  unfold keptNodes
  dsimp only
  rw [length_insertionSort, length_append, length_take]
  omega

theorem kept_edges_cases (he : e ∈ keptEdges localeCompare graph caps) :
    endsKept (keptNodes localeCompare graph caps) e ∧ (e ∈ rawPathEdges localeCompare graph caps ∨
        e ∈ graph.edges ∧ hasPathIds e.pathIds = false) := by
  unfold keptEdges at he
  dsimp only at he
  rw [(perm_insertionSort _ _).mem_iff, mem_append] at he
  obtain he | he := he
  · rw [keptPathEdges, (perm_insertionSort _ _).mem_iff, mem_filter] at he
    exact ⟨he.2, Or.inl he.1⟩
  · obtain ⟨hloose, hends⟩ := mem_filter.mp (mem_of_mem_take he)
    rw [(perm_insertionSort _ _).mem_iff, mem_filter, Bool.not_eq_true'] at hloose
    exact ⟨hends, Or.inr hloose⟩

theorem kept_of_raw (he : e ∈ rawPathEdges localeCompare graph caps)
    (hends : endsKept (keptNodes localeCompare graph caps) e) :
    e ∈ keptEdges localeCompare graph caps := by
  unfold keptEdges
  dsimp only
  rw [(perm_insertionSort _ _).mem_iff]
  refine mem_append_left _ ?_
  rw [keptPathEdges, (perm_insertionSort _ _).mem_iff, mem_filter]
  exact ⟨he, hends⟩

theorem kept_edges_from (h : graph.Unique)
    (he : e ∈ keptEdges localeCompare graph caps) : e ∈ graph.edges := by
  obtain ⟨-, he | he⟩ := kept_edges_cases he
  · obtain ⟨c, hc, he⟩ := (mem_raw_path_edges h).mp he
    exact (mem_path_edges.mp (included_edges_from h e (mem_flatMap.mpr ⟨c, hc, he⟩))).1
  · exact he.1

theorem nodup_kept_edges (h : graph.Unique) : (keptEdges localeCompare graph caps).Nodup := by
  have hraw : (rawPathEdges localeCompare graph caps).Nodup := (nodup_last_by_id _).of_map _
  unfold keptEdges
  dsimp only
  rw [(perm_insertionSort _ _).nodup_iff]
  refine nodup_append.mpr ⟨?_, ?_, fun a ha b hb hab => ?_⟩
  · rw [keptPathEdges, (perm_insertionSort _ _).nodup_iff]
    exact hraw.filter _
  · refine List.Nodup.sublist (take_sublist _ _) (List.Nodup.filter _ ?_)
    rw [(perm_insertionSort _ _).nodup_iff]
    exact (h.edges.of_map _).filter _
  · rw [keptPathEdges, (perm_insertionSort _ _).mem_iff, mem_filter] at ha
    obtain ⟨hloose, -⟩ := mem_filter.mp (mem_of_mem_take hb)
    rw [(perm_insertionSort _ _).mem_iff, mem_filter, Bool.not_eq_true'] at hloose
    obtain ⟨c, hc, he⟩ := (mem_raw_path_edges h).mp ha.1
    have htagged := (mem_path_edges.mp (included_edges_from h a (mem_flatMap.mpr ⟨c, hc, he⟩))).2
    rw [hab, hloose.2] at htagged
    cases htagged

theorem kept_edges_cap (h : graph.Unique) :
    (keptEdges localeCompare graph caps).length ≤ caps.edges := by
  have hpath : (keptPathEdges localeCompare graph caps).length ≤ caps.edges := by
    rw [keptPathEdges, length_insertionSort]
    exact Nat.le_trans (length_filter_le _ _) (raw_path_edges_cap h)
  unfold keptEdges
  dsimp only
  rw [length_insertionSort, length_append, length_take]
  omega

theorem ends_kept_iff {nodes : List PolicyGraphNode} : endsKept nodes e ↔
    (∃ n ∈ nodes, n.id = e.source) ∧ ∃ n ∈ nodes, n.id = e.target := by
  rw [endsKept, Bool.and_eq_true, contains_iff_mem, contains_iff_mem, mem_map, mem_map]

theorem complete_of_untruncated (h : graph.Unique)
    (hfull : (boundGraph localeCompare graph caps).pathTruncated = false) :
    (∀ n ∈ graph.pathNodes, n ∈ keptNodes localeCompare graph caps) ∧
      ∀ e ∈ graph.pathEdges, e ∈ keptEdges localeCompare graph caps := by
  have hflags : ((includedClusters localeCompare graph caps).length !=
      (graph.buildPathClusters localeCompare).length ||
      (rawPathEdges localeCompare graph caps).length !=
        (keptPathEdges localeCompare graph caps).length) = false := hfull
  rw [Bool.or_eq_false_iff, bne_eq_false_iff_eq, bne_eq_false_iff_eq] at hflags
  obtain ⟨hclusters, hedges⟩ := hflags
  have hall : includedClusters localeCompare graph caps = graph.buildPathClusters localeCompare :=
    included_sublist.eq_of_length hclusters
  have hends : ∀ e ∈ rawPathEdges localeCompare graph caps,
      endsKept (keptNodes localeCompare graph caps) e := by
    rw [keptPathEdges, length_insertionSort] at hedges
    exact length_filter_eq_length_iff.mp hedges.symm
  constructor
  · intro n hn
    obtain ⟨c, hc⟩ := cluster_of_node localeCompare hn
    refine kept_of_path ((mem_kept_path_nodes h).mpr ⟨c, ?_, ?_⟩)
    · rw [hall]
      exact (mem_clusters_iff localeCompare).mpr ⟨_, hc⟩
    · exact ((cluster_spec localeCompare h hc).nodes n).mpr (Or.inl ⟨hn, rfl⟩)
  · intro e he
    obtain ⟨c, hc⟩ := cluster_of_edge localeCompare he
    have hraw : e ∈ rawPathEdges localeCompare graph caps := by
      refine (mem_raw_path_edges h).mpr ⟨c, ?_, ?_⟩
      · rw [hall]
        exact (mem_clusters_iff localeCompare).mpr ⟨_, hc⟩
      · exact ((cluster_spec localeCompare h hc).edges e).mpr ⟨he, rfl⟩
    exact kept_of_raw hraw (hends e hraw)

/-- What holds of the bounded graph whatever the graph and the caps. -/
structure Bounded (graph : RawGraph) (caps : GraphCaps) (dto : PolicyGraphDto) : Prop where
  nodeCap : dto.nodes.length ≤ caps.nodes
  edgeCap : dto.edges.length ≤ caps.edges
  nodesFrom : ∀ n ∈ dto.nodes, n ∈ graph.nodes
  edgesFrom : ∀ e ∈ dto.edges, e ∈ graph.edges
  ends : ∀ e ∈ dto.edges, (∃ n ∈ dto.nodes, n.id = e.source) ∧ ∃ n ∈ dto.nodes, n.id = e.target
  omittedNodes : dto.omitted.nodes = (graph.nodes.filter fun n => n ∉ dto.nodes).length
  omittedEdges : dto.omitted.edges = (graph.edges.filter fun e => e ∉ dto.edges).length
  complete : dto.pathTruncated = false →
    (∀ n ∈ graph.pathNodes, n ∈ dto.nodes) ∧ ∀ e ∈ graph.pathEdges, e ∈ dto.edges

theorem bound_graph_nodes :
    (boundGraph localeCompare graph caps).nodes = keptNodes localeCompare graph caps := rfl

theorem bound_graph_edges :
    (boundGraph localeCompare graph caps).edges = keptEdges localeCompare graph caps := rfl

theorem bound_graph_omitted : (boundGraph localeCompare graph caps).omitted =
    ⟨graph.nodes.length - (keptNodes localeCompare graph caps).length,
      graph.edges.length - (keptEdges localeCompare graph caps).length⟩ := rfl

theorem bound_graph_bounded (h : graph.Unique) :
    Bounded graph caps (boundGraph localeCompare graph caps) := by
  have homitted := @bound_graph_omitted localeCompare graph caps
  refine ⟨?_, ?_, ?_, ?_, ?_, ?_, ?_, ?_⟩
  all_goals simp only [bound_graph_nodes, bound_graph_edges, homitted]
  · exact kept_nodes_cap h
  · exact kept_edges_cap h
  · exact fun _ => kept_nodes_from h
  · exact fun _ => kept_edges_from h
  · exact fun e he => ends_kept_iff.mp (kept_edges_cases he).1
  · exact omitted_count (h.nodes.of_map _) (nodup_kept_nodes h) fun _ => kept_nodes_from h
  · exact omitted_count (h.edges.of_map _) (nodup_kept_edges h) fun _ => kept_edges_from h
  · exact complete_of_untruncated h

/-- Every node and edge of the path is there. -/
def Whole (graph : RawGraph) (dto : PolicyGraphDto) (p : String) : Prop :=
  (∀ n ∈ graph.nodes, p ∈ tags n.pathIds → n ∈ dto.nodes) ∧
    ∀ e ∈ graph.edges, p ∈ tags e.pathIds → e ∈ dto.edges

/-- Nothing of the path is there. -/
def Absent (graph : RawGraph) (dto : PolicyGraphDto) (p : String) : Prop :=
  (∀ n ∈ graph.nodes, p ∈ tags n.pathIds → n ∉ dto.nodes) ∧
    ∀ e ∈ graph.edges, p ∈ tags e.pathIds → e ∉ dto.edges

/-- The edges of the path name nodes that exist. -/
def EndsExist (graph : RawGraph) (p : String) : Prop :=
  ∀ e ∈ graph.edges, p ∈ tags e.pathIds →
    (∃ n ∈ graph.nodes, n.id = e.source) ∧ ∃ n ∈ graph.nodes, n.id = e.target

/-- A path is shown whole or not at all. -/
def Atomic (graph : RawGraph) (dto : PolicyGraphDto) : Prop :=
  ∀ p, EndsExist graph p → Whole graph dto p ∨ Absent graph dto p

/-- A tagged edge and a tagged node that it ends at belong to linked paths. -/
def Apart (graph : RawGraph) : Prop :=
  ∀ e ∈ graph.pathEdges, ∀ n ∈ graph.pathNodes, n.id = e.source ∨ n.id = e.target →
    ∃ p ∈ tags e.pathIds, ∃ q ∈ tags n.pathIds, Linked graph p q

/-- A node that is tagged, or that a tagged edge ends at. -/
def onPath (graph : RawGraph) (n : PolicyGraphNode) : Bool :=
  hasPathIds n.pathIds || graph.pathEdges.any fun e => n.id == e.source || n.id == e.target

/-- The caps have room for all paths. -/
def Fits (graph : RawGraph) (caps : GraphCaps) : Prop :=
  (graph.nodes.filter (onPath graph)).length ≤ caps.nodes ∧
    graph.pathEdges.length ≤ caps.edges

theorem tagged_of_mem {pathIds : Option (List String)} {p : String} (hp : p ∈ tags pathIds) :
    hasPathIds pathIds := by
  unfold hasPathIds
  cases htags : tags pathIds with
  | nil => rw [htags] at hp; cases hp
  | cons first rest => rfl

theorem node_tags (hn : n ∈ graph.pathNodes) : tags n.pathIds ∈ graph.tagLists :=
  mem_append_left _ (mem_map_of_mem (f := fun n : PolicyGraphNode => tags n.pathIds) hn)

theorem edge_tags (he : e ∈ graph.pathEdges) : tags e.pathIds ∈ graph.tagLists :=
  mem_append_right _ (mem_map_of_mem (f := fun e : PolicyGraphEdge => tags e.pathIds) he)

theorem included_of_fits (h : graph.Unique) (hfits : Fits graph caps) :
    includedClusters localeCompare graph caps = graph.buildPathClusters localeCompare := by
  have hnodes : ((graph.nodes.filter (onPath graph)).map PolicyGraphNode.id).length ≤
      caps.nodes := by
    rw [length_map]
    exact hfits.1
  have hedges : (graph.pathEdges.map PolicyGraphEdge.id).length ≤ caps.edges := by
    rw [length_map]
    exact hfits.2
  unfold includedClusters
  rw [all_admitted hnodes hedges (fun c hc => ?_) (fun c hc => ?_) ⟨nodup_nil, nodup_nil⟩
    ⟨fun _ h => absurd h not_mem_nil, fun _ h => absurd h not_mem_nil⟩]
  · rfl
  · obtain ⟨r, hr⟩ := (mem_clusters_iff localeCompare).mp hc
    have hspec := cluster_spec localeCompare h hr
    refine ⟨hspec.nodeIds, fun n hn => mem_map_of_mem (mem_filter.mpr ?_)⟩
    unfold onPath
    obtain ⟨hn, -⟩ | ⟨hn, e, he, hends⟩ := (hspec.nodes n).mp hn
    · rw [(mem_path_nodes.mp hn).2]
      exact ⟨(mem_path_nodes.mp hn).1, rfl⟩
    · refine ⟨hn, Bool.or_eq_true_iff.mpr (Or.inr (any_eq_true.mpr ?_))⟩
      refine ⟨e, ((hspec.edges e).mp he).1, ?_⟩
      simpa using hends
  · obtain ⟨r, hr⟩ := (mem_clusters_iff localeCompare).mp hc
    have hspec := cluster_spec localeCompare h hr
    exact ⟨hspec.edgeIds, fun e he => mem_map_of_mem ((hspec.edges e).mp he).1⟩

section Path

variable {c : PathCluster} {p : String}

theorem whole_of_included (h : graph.Unique)
    (hc : graph.clusterOf localeCompare (DisjointSets.find graph.parents p) = some c)
    (hin : c ∈ includedClusters localeCompare graph caps) (hends : EndsExist graph p) :
    Whole graph (boundGraph localeCompare graph caps) p := by
  have hspec := cluster_spec localeCompare h hc
  constructor
  · intro n hn hp
    have hpath : n ∈ graph.pathNodes := mem_path_nodes.mpr ⟨hn, tagged_of_mem hp⟩
    refine kept_of_path ((mem_kept_path_nodes h).mpr ⟨c, hin, (hspec.nodes n).mpr (Or.inl ?_)⟩)
    exact ⟨hpath, root_of_tag (node_tags hpath) hp⟩
  · intro e he hp
    have hpath : e ∈ graph.pathEdges := mem_path_edges.mpr ⟨he, tagged_of_mem hp⟩
    have hmem : e ∈ c.edges := (hspec.edges e).mpr ⟨hpath, root_of_tag (edge_tags hpath) hp⟩
    -- The nodes that the edge ends at were taken into the cluster.
    have hkept : ∀ n ∈ graph.nodes, n.id = e.source ∨ n.id = e.target →
        n ∈ keptNodes localeCompare graph caps := fun n hn hid =>
      kept_of_path ((mem_kept_path_nodes h).mpr
        ⟨c, hin, (hspec.nodes n).mpr (Or.inr ⟨hn, e, hmem, hid⟩)⟩)
    obtain ⟨⟨s, hs, hsource⟩, t, ht, htarget⟩ := hends e he hp
    refine kept_of_raw ((mem_raw_path_edges h).mpr ⟨c, hin, hmem⟩) (ends_kept_iff.mpr ⟨?_, ?_⟩)
    · exact ⟨s, hkept s hs (Or.inl hsource), hsource⟩
    · exact ⟨t, hkept t ht (Or.inr htarget), htarget⟩

/-- The cluster of a path that is left out shows nothing of it, where other clusters do not end at
its nodes. -/
theorem absent_of_excluded (h : graph.Unique) (hapart : Apart graph)
    (hc : graph.clusterOf localeCompare (DisjointSets.find graph.parents p) = some c)
    (hout : c ∉ includedClusters localeCompare graph caps) :
    Absent graph (boundGraph localeCompare graph caps) p := by
  -- No admitted cluster has the root of the path.
  have hother : ∀ c' ∈ includedClusters localeCompare graph caps, ∃ r, ClusterSpec graph r c' ∧
      r ≠ DisjointSets.find graph.parents p := by
    intro c' hc'
    obtain ⟨r, hr, hspec⟩ := included_spec h hc'
    refine ⟨r, hspec, fun hroot => hout ?_⟩
    rw [hroot, hc] at hr
    rw [Option.some.inj hr]
    exact hc'
  constructor
  · intro n hn hp hkept
    have hpath : n ∈ graph.pathNodes := mem_path_nodes.mpr ⟨hn, tagged_of_mem hp⟩
    have hroot := root_of_tag (node_tags hpath) hp
    obtain hkept | hloose := kept_nodes_cases hkept
    · obtain ⟨c', hc', hn'⟩ := (mem_kept_path_nodes h).mp hkept
      obtain ⟨r, hspec, hr⟩ := hother c' hc'
      obtain ⟨-, hown⟩ | ⟨-, e, he, hends⟩ := (hspec.nodes n).mp hn'
      · exact hr (hown.symm.trans hroot)
      · obtain ⟨he, heroot⟩ := (hspec.edges e).mp he
        obtain ⟨q, hq, q', hq', hlinked⟩ := hapart e he n hpath hends
        have hsame := same_root_of_linked hlinked
        rw [← root_of_tag (edge_tags he) hq, ← root_of_tag (node_tags hpath) hq'] at hsame
        exact hr (heroot.symm.trans (hsame.trans hroot))
    · rw [(mem_path_nodes.mp hpath).2] at hloose
      cases hloose.2.1
  · intro e he hp hkept
    have hpath : e ∈ graph.pathEdges := mem_path_edges.mpr ⟨he, tagged_of_mem hp⟩
    obtain ⟨-, hraw | hloose⟩ := kept_edges_cases hkept
    · obtain ⟨c', hc', he'⟩ := (mem_raw_path_edges h).mp hraw
      obtain ⟨r, hspec, hr⟩ := hother c' hc'
      exact hr (((hspec.edges e).mp he').2.symm.trans (root_of_tag (edge_tags hpath) hp))
    · rw [(mem_path_edges.mp hpath).2] at hloose
      cases hloose.2

end Path

theorem atomic_of_apart (h : graph.Unique) (hcond : Apart graph ∨ Fits graph caps) :
    Atomic graph (boundGraph localeCompare graph caps) := by
  intro p hends
  by_cases hroot : ∃ c, graph.clusterOf localeCompare (DisjointSets.find graph.parents p) = some c
  · obtain ⟨c, hc⟩ := hroot
    by_cases hin : c ∈ includedClusters localeCompare graph caps
    · exact Or.inl (whole_of_included h hc hin hends)
    · refine Or.inr (absent_of_excluded h (hcond.resolve_right fun hfits => hin ?_) hc hin)
      rw [included_of_fits h hfits]
      exact (mem_clusters_iff localeCompare).mpr ⟨_, hc⟩
  · -- No item is tagged with the path.
    left
    constructor
    · intro n hn hp
      have hpath : n ∈ graph.pathNodes := mem_path_nodes.mpr ⟨hn, tagged_of_mem hp⟩
      obtain ⟨c, hc⟩ := cluster_of_node localeCompare hpath
      rw [root_of_tag (node_tags hpath) hp] at hc
      exact absurd ⟨c, hc⟩ hroot
    · intro e he hp
      have hpath : e ∈ graph.pathEdges := mem_path_edges.mpr ⟨he, tagged_of_mem hp⟩
      obtain ⟨c, hc⟩ := cluster_of_edge localeCompare hpath
      rw [root_of_tag (edge_tags hpath) hp] at hc
      exact absurd ⟨c, hc⟩ hroot

variable (localeCompare graph caps) in
theorem bound_graph_lawful (h : graph.Unique) :
    Bounded graph caps (boundGraph localeCompare graph caps) ∧
      (Apart graph ∨ Fits graph caps → Atomic graph (boundGraph localeCompare graph caps)) :=
  ⟨bound_graph_bounded h, atomic_of_apart h⟩

end Law

/-- Codes compared as they are. -/
def plainCompare (a b : String) : Int :=
  if a < b then -1 else if a = b then 0 else 1

/-- A path that ends at a node of another one. -/
def crossing : RawGraph where
  nodes := [⟨"x", "eni", "x", .allowed, some ["a"]⟩, ⟨"n", "eni", "n", .allowed, some ["b"]⟩,
    ⟨"m", "eni", "m", .allowed, some ["b"]⟩]
  edges := [⟨"x->n", "x", "n", "route", .allowed, some ["a"]⟩]

/-- With room for all, both paths are shown. -/
theorem crossing_fits : Bounded crossing ⟨3, 1⟩ (boundGraph plainCompare crossing ⟨3, 1⟩) ∧
    Atomic crossing (boundGraph plainCompare crossing ⟨3, 1⟩) := by
  have hunique : crossing.Unique := ⟨by decide, by decide⟩
  have hfits : Fits crossing ⟨3, 1⟩ := by
    unfold Fits
    decide
  obtain ⟨hbounded, hatomic⟩ := bound_graph_lawful plainCompare crossing ⟨3, 1⟩ hunique
  exact ⟨hbounded, hatomic (Or.inr hfits)⟩

/-- With room for two nodes the second path is cut: the node that the first ends at is shown without
the other one. -/
theorem crossing_cut : ¬Atomic crossing (boundGraph plainCompare crossing ⟨2, 1⟩) := by
  intro h
  have hkept : keptNodes plainCompare crossing ⟨2, 1⟩ =
      [⟨"n", "eni", "n", .allowed, some ["b"]⟩, ⟨"x", "eni", "x", .allowed, some ["a"]⟩] := by
    decide +kernel
  have hends : EndsExist crossing "b" := by
    unfold EndsExist
    decide
  obtain ⟨hwhole, -⟩ | ⟨habsent, -⟩ := h "b" hends
  · have hm := hwhole ⟨"m", "eni", "m", .allowed, some ["b"]⟩ (by decide) (by decide)
    rw [bound_graph_nodes, hkept] at hm
    exact absurd hm (by decide)
  · have hn := habsent ⟨"n", "eni", "n", .allowed, some ["b"]⟩ (by decide) (by decide)
    rw [bound_graph_nodes, hkept] at hn
    exact hn mem_cons_self

end AwsOps.PolicyGraph
