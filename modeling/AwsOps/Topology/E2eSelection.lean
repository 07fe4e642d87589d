import Mathlib.Data.Rat.Floor
import Mathlib.Data.List.Sort
import AwsOps.Foundation.Entries
import AwsOps.Foundation.Search
import AwsOps.Foundation.Text
import AwsOps.Topology.E2eTypes

/-!
# What a selection shows of the end-to-end graph

`selectE2eGraph` filters by evidence, follows connections from a focus, follows them from the hits
of a query inside what the focus left, and cuts the result at two caps. A relation of context is
attached once, after the search has ended: a shared gateway never leads on.
-/

namespace AwsOps.Topology

open List OrderedSets Entries E2eGraph

/-! ## The selection -/

/-- What is asked for. -/
structure E2eSelection where
  query : Option String := none
  focusId : Option String := none
  evidence : Option (List E2eEvidence) := none
  maxNodes : Option JsNumber := none
  maxEdges : Option JsNumber := none

/-- What is shown. -/
structure E2eView where
  nodes : List E2eNode
  edges : List E2eEdge
  omittedNodes : Nat
  omittedEdges : Nat
  matchedNodes : Nat

/-- `bound`. A number that is missing, infinite or not one leaves the fallback. -/
def bound (value : Option JsNumber) (fallback : Nat) : Nat :=
  match value with
  | some (.finite q) => ⌊q⌋.toNat
  | _ => fallback

section Query

variable (U : Text.Unicode) (number : JsNumber → List Char) (query : List Char)

/-- `String(value).toLowerCase().includes(query)`. -/
def includesQuery (text : List Char) : Bool :=
  Text.contains query (U.lower text)

mutual

/-- The texts and numbers of a value, however deep. -/
def valueMentions : Js → Bool
  | .null => false
  | .bool _ => false
  | .num value => includesQuery U query (number value)
  | .str value => includesQuery U query value.toList
  | .arr items => itemsMention items
  | .obj fields => fieldsMention fields

def itemsMention : List Js → Bool
  | [] => false
  | item :: rest => valueMentions item || itemsMention rest

def fieldsMention : List (String × Js) → Bool
  | [] => false
  | (_, value) :: rest => valueMentions value || fieldsMention rest

end

def matchesE2eQuery (node : E2eNode) : Bool :=
  includesQuery U query node.id.toList || includesQuery U query node.label.toList ||
    includesQuery U query node.kind.toList || fieldsMention U number query node.metadata

end Query

/-- The evidence under which a node without edges is shown. -/
def E2eNode.ownEvidence (node : E2eNode) : E2eEvidence :=
  if node.layer = .network ∧ node.kind = "construct" then .context else node.layer.evidence

def filterE2eEvidence (graph : E2eGraph) (enabled : Option (List E2eEvidence)) : E2eGraph :=
  let ids := graph.nodes.map E2eNode.id
  let edges := graph.edges.filter fun edge =>
    edge.source ∈ ids && edge.target ∈ ids && enabled.all (edge.evidence ∈ ·)
  let incident := edges.flatMap fun edge => [edge.source, edge.target]
  { graph with
    nodes := graph.nodes.filter fun node =>
      enabled.all (node.ownEvidence ∈ ·) || node.id ∈ incident
    edges := edges }

/-- `byId`. The last node of an id is the one that is found. -/
def E2eGraph.byId (graph : E2eGraph) : List (String × E2eNode) :=
  ofList (graph.nodes.map fun node => (node.id, node))

def E2eGraph.eligible (graph : E2eGraph) : List String :=
  Entries.keys graph.byId

section Reach

variable (edges : List E2eEdge)

/-- `adjacency`, read at an id: the other ends of the edges there that are no context. -/
def adjacency (id : String) : List String :=
  (edges.filter fun edge => edge.evidence ≠ .context).flatMap fun edge =>
    (if edge.source = id then [edge.target] else []) ++
      if edge.target = id then [edge.source] else []

/-- What the context edges add to the nodes that were traversed. -/
def contextEnds (traversed allowed : List String) : List String :=
  (edges.filter fun edge => edge.evidence = .context).flatMap fun edge =>
    (if edge.source ∈ traversed ∧ edge.target ∈ allowed then [edge.target] else []) ++
      if edge.target ∈ traversed ∧ edge.source ∈ allowed then [edge.source] else []

def reachable (seeds allowed : List String) : List String :=
  let traversed := Search.search (adjacency edges) allowed seeds
  addAll traversed (contextEnds edges traversed allowed)

end Reach

section Select

variable (U : Text.Unicode) (number : JsNumber → List Char)

def E2eSelection.validFocus (selection : E2eSelection) (filtered : E2eGraph) : Option String :=
  selection.focusId.filter fun id => id ≠ "" ∧ id ∈ filtered.eligible

/-- The query, trimmed and in lower case. -/
def E2eSelection.queryText (selection : E2eSelection) : List Char :=
  U.lower (Text.stripBy Text.isTrimmed (selection.query.getD "").toList)

def focusSelected (filtered : E2eGraph) (selection : E2eSelection) : List String :=
  match selection.validFocus filtered with
  | some focus => reachable filtered.edges [focus] filtered.eligible
  | none => filtered.eligible

/-- `matches`. -/
def queryMatches (filtered : E2eGraph) (selection : E2eSelection) : List String :=
  (focusSelected filtered selection).filter fun id =>
    (get filtered.byId id).any (matchesE2eQuery U number (selection.queryText U))

/-- `selected`, in its order. -/
def selectedIds (filtered : E2eGraph) (selection : E2eSelection) : List String :=
  if selection.queryText U = [] then focusSelected filtered selection
  else
    let selected := reachable filtered.edges (queryMatches U number filtered selection)
      (focusSelected filtered selection)
    match selection.focusId with
    | some focus => if focus ≠ "" ∧ focus ∈ selected then ofList (focus :: selected) else selected
    | none => selected

def matchedNodes (filtered : E2eGraph) (selection : E2eSelection) : Nat :=
  if selection.queryText U = [] then (focusSelected filtered selection).length
  else (queryMatches U number filtered selection).length

/-- The edges between nodes that are selected. -/
def edgesWithin (edges : List E2eEdge) (ids : List String) : List E2eEdge :=
  edges.filter fun edge => edge.source ∈ ids && edge.target ∈ ids

def neighbors (edges : List E2eEdge) (ids : List String) (kinds : List E2eEvidence) : List String :=
  ids.flatMap fun id =>
    (edges.filter fun edge => edge.source = id || edge.target = id).flatMap fun edge =>
      if edge.evidence ∈ kinds then
        (if edge.source = id then [edge.target] else [edge.source]) ++
          if edge.source = id ∧ edge.target = id then [edge.target] else []
      else []

/-- What a connection brings along: its ends, their identities and what is observed of these. -/
def connectionGroup (edges : List E2eEdge) (id : String) : List String :=
  let endpoints := neighbors edges [id] [.network]
  let identities := neighbors edges endpoints [.identity]
  id :: endpoints ++ identities ++ neighbors edges identities [.service, .configuration] ++
    neighbors edges [id] [.context]

/-- What a service brings along. The ends of connections come with their connection. -/
def serviceGroup (filtered : E2eGraph) (edges : List E2eEdge) (id : String) : List String :=
  id :: (neighbors edges [id] [.service, .identity]).filter fun next =>
    (get filtered.byId next).map E2eNode.layer ≠ some .network

def interleave (connection service : String → List String) : List String → List String → List String
  | [], [] => []
  | c :: connections, [] => connection c ++ interleave connection service connections []
  | [], s :: services => service s ++ interleave connection service [] services
  | c :: connections, s :: services =>
    connection c ++ service s ++ interleave connection service connections services

/-- `ordered`. Without a focus and a query, observations come before unrelated inventory. -/
def orderedIds (filtered : E2eGraph) (selection : E2eSelection) : List String :=
  let selected := selectedIds U number filtered selection
  let edges := edgesWithin filtered.edges selected
  if selection.validFocus filtered = none ∧ selection.queryText U = [] then
    ofList (interleave (connectionGroup edges) (serviceGroup filtered edges)
      ((filtered.nodes.filter fun node => node.kind = "connection" && node.layer = .network).map
        E2eNode.id)
      ((filtered.nodes.filter fun node => node.layer = .service).map E2eNode.id) ++ selected)
  else selected

def edgePriority : E2eEvidence → Nat
  | .network => 0
  | .identity => 1
  | .service => 2
  | .context => 3
  | .configuration => 4

/-- `nodes`, at the cap. -/
def visibleNodes (filtered : E2eGraph) (selection : E2eSelection) : List E2eNode :=
  ((orderedIds U number filtered selection).take (bound selection.maxNodes 350)).filterMap
    (get filtered.byId)

def selectedEdges (filtered : E2eGraph) (selection : E2eSelection) : List E2eEdge :=
  edgesWithin filtered.edges (selectedIds U number filtered selection)

/-- `visibleEdges`, at the cap. Dense configuration comes after what was observed. -/
def visibleEdges (filtered : E2eGraph) (selection : E2eSelection) : List E2eEdge :=
  ((edgesWithin (selectedEdges U number filtered selection)
    ((visibleNodes U number filtered selection).map E2eNode.id)).insertionSort fun a b =>
      edgePriority a.evidence ≤ edgePriority b.evidence).take (bound selection.maxEdges 700)

def selectE2eGraph (graph : E2eGraph) (selection : E2eSelection) : E2eView :=
  let filtered := filterE2eEvidence graph selection.evidence
  { nodes := visibleNodes U number filtered selection
    edges := visibleEdges U number filtered selection
    matchedNodes := matchedNodes U number filtered selection
    omittedNodes := (selectedIds U number filtered selection).length -
      (visibleNodes U number filtered selection).length
    omittedEdges := (selectedEdges U number filtered selection).length -
      (visibleEdges U number filtered selection).length }

end Select

/-! ## What a selection selects -/

section Spans

variable (edges : List E2eEdge)

/-- An edge that is no context joins the two, in either direction. -/
def Linked (a b : String) : Prop :=
  ∃ edge ∈ edges, edge.evidence ≠ .context ∧
    (edge.source = a ∧ edge.target = b ∨ edge.target = a ∧ edge.source = b)

/-- An edge of context joins the two, in either direction. -/
def Attached (a b : String) : Prop :=
  ∃ edge ∈ edges, edge.evidence = .context ∧
    (edge.source = a ∧ edge.target = b ∨ edge.target = a ∧ edge.source = b)

/-- What a seed leads to by edges that are no context, all inside a set. -/
def Traversed (seed inside : String → Prop) (id : String) : Prop :=
  ∃ start, seed start ∧ inside start ∧
    Relation.ReflTransGen (fun a b => Linked edges a b ∧ inside b) start id

/-- What is traversed, and what lies one edge of context away from it. -/
def Spanned (seed inside : String → Prop) (id : String) : Prop :=
  Traversed edges seed inside id ∨
    inside id ∧ ∃ last, Traversed edges seed inside last ∧ Attached edges last id

end Spans

/-- An id of a node. -/
def Eligible (filtered : E2eGraph) (id : String) : Prop :=
  ∃ node ∈ filtered.nodes, node.id = id

section Selects

variable (U : Text.Unicode) (number : JsNumber → List Char) (filtered : E2eGraph)
  (selection : E2eSelection)

/-- What the focus leaves: everything, unless it is a node. -/
def FocusSelects (id : String) : Prop :=
  match selection.validFocus filtered with
  | some focus => Spanned filtered.edges (· = focus) (Eligible filtered) id
  | none => Eligible filtered id

/-- A node that the focus leaves and the query finds. -/
def Hit (id : String) : Prop :=
  FocusSelects filtered selection id ∧
    ∃ node, get filtered.byId id = some node ∧
      matchesE2eQuery U number (selection.queryText U) node

/-- What is selected: with a query, what its hits span inside what the focus leaves. -/
def Selects (id : String) : Prop :=
  if selection.queryText U = [] then FocusSelects filtered selection id
  else Spanned filtered.edges (Hit U number filtered selection) (FocusSelects filtered selection) id

/-- The focus and the hits of the query. -/
def Leads (id : String) : Prop :=
  selection.validFocus filtered = some id ∨
    selection.queryText U ≠ [] ∧ Hit U number filtered selection id

end Selects

/-! ## Reading the graph -/

variable {graph : E2eGraph} {id : String}

theorem E2eGraph.mem_eligible : id ∈ graph.eligible ↔ Eligible graph id := by
  unfold eligible byId Eligible
  rw [mem_keys_ofList, Entries.keys, map_map, mem_map]
  rfl

theorem E2eGraph.nodup_eligible (graph : E2eGraph) : graph.eligible.Nodup :=
  nodup_keys_ofList _

theorem E2eGraph.of_get_byId {node : E2eNode}
    (h : get graph.byId id = some node) : node ∈ graph.nodes ∧ node.id = id := by
  obtain ⟨found, hfound, heq⟩ := mem_map.mp (mem_of_get_ofList h)
  cases heq
  exact ⟨hfound, rfl⟩

theorem E2eGraph.get_byId_of_mem (h : id ∈ graph.eligible) :
    ∃ node, get graph.byId id = some node := by
  cases hget : get graph.byId id with
  | some node => exact ⟨node, rfl⟩
  | none => exact absurd h (Entries.get_eq_none.mp hget)

theorem mem_adjacency {edges : List E2eEdge} {a b : String} :
    b ∈ adjacency edges a ↔ Linked edges a b := by
  unfold adjacency Linked
  simp only [mem_flatMap, mem_filter, decide_eq_true_eq, mem_append,
    mem_ite_nil_right, mem_singleton, and_assoc]
  grind

theorem mem_context_ends {edges : List E2eEdge} {traversed allowed : List String} :
    id ∈ contextEnds edges traversed allowed ↔
      id ∈ allowed ∧ ∃ last ∈ traversed, Attached edges last id := by
  unfold contextEnds Attached
  simp only [mem_flatMap, mem_filter, decide_eq_true_eq, mem_append,
    mem_ite_nil_right, mem_singleton, and_assoc]
  grind

section Reachable

variable {edges : List E2eEdge} {seeds allowed : List String} {seed inside : String → Prop}

theorem mem_traversed (hseed : ∀ id, id ∈ seeds ↔ seed id) (hinside : ∀ id, id ∈ allowed ↔ inside id) :
    id ∈ Search.search (adjacency edges) allowed seeds ↔ Traversed edges seed inside id := by
  have hstep : Search.Step (adjacency edges) allowed = fun a b => Linked edges a b ∧ inside b := by
    funext a b
    show (b ∈ adjacency edges a ∧ b ∈ allowed) = _
    rw [mem_adjacency, hinside]
  rw [Search.mem_search, hstep]
  simp only [hseed, hinside]
  rfl

theorem mem_reachable (hseed : ∀ id, id ∈ seeds ↔ seed id) (hinside : ∀ id, id ∈ allowed ↔ inside id) : id ∈ reachable edges seeds allowed ↔ Spanned edges seed inside id := by
  unfold reachable Spanned
  rw [mem_add_all, mem_context_ends, mem_traversed hseed hinside, hinside]
  simp only [mem_traversed hseed hinside]

theorem nodup_reachable : (reachable edges seeds allowed).Nodup :=
  nodup_add_all Search.searching_search.nodup

theorem reachable_starts (hnodup : seeds.Nodup) (hallowed : ∀ id ∈ seeds, id ∈ allowed) :
    seeds <+: reachable edges seeds allowed := by
  have hfilter : seeds.filter (· ∈ allowed) = seeds :=
    filter_eq_self.mpr fun id hid => by simpa using hallowed id hid
  have hseeded : ofList (seeds.filter (· ∈ allowed)) <+:
      Search.search (adjacency edges) allowed seeds := Search.searching_search.seeded
  rw [hfilter, of_list_of_nodup hnodup] at hseeded
  exact hseeded.trans prefix_add_all

theorem reachable_inside (hid : id ∈ reachable edges seeds allowed) : id ∈ allowed := by
  obtain h | h := mem_add_all.mp hid
  · exact Search.searching_search.within id h
  · exact (mem_context_ends.mp h).1

end Reachable

/-! ## The selected ids -/

section Selected

variable {U : Text.Unicode} {number : JsNumber → List Char} {filtered : E2eGraph}
  {selection : E2eSelection}

theorem E2eSelection.of_valid_focus {focus : String}
    (h : selection.validFocus filtered = some focus) :
    selection.focusId = some focus ∧ focus ≠ "" ∧ focus ∈ filtered.eligible := by
  obtain ⟨hfocus, hvalid⟩ := Option.filter_eq_some_iff.mp h
  exact ⟨hfocus, by simpa using hvalid⟩

variable {ids : List String}

theorem mem_focus_selected :
    id ∈ focusSelected filtered selection ↔ FocusSelects filtered selection id := by
  unfold focusSelected FocusSelects
  cases selection.validFocus filtered with
  | none => exact mem_eligible
  | some focus => exact mem_reachable (fun id => mem_singleton) fun id => mem_eligible

theorem nodup_focus_selected : (focusSelected filtered selection).Nodup := by
  unfold focusSelected
  cases selection.validFocus filtered with
  | none => exact filtered.nodup_eligible
  | some focus => exact nodup_reachable

theorem focus_selected_eligible (h : id ∈ focusSelected filtered selection) :
    id ∈ filtered.eligible := by
  unfold focusSelected at h
  cases hfocus : selection.validFocus filtered with
  | none => rwa [hfocus] at h
  | some focus =>
    rw [hfocus] at h
    exact reachable_inside h

theorem mem_query_matches :
    id ∈ queryMatches U number filtered selection ↔ Hit U number filtered selection id := by
  unfold queryMatches Hit
  rw [mem_filter, mem_focus_selected, Option.any_eq_true]

theorem query_matches_within (h : id ∈ queryMatches U number filtered selection) :
    id ∈ focusSelected filtered selection :=
  mem_of_mem_filter h

/-- The nodes that the query pass reaches, before the focus is put in front. -/
theorem mem_selected_ids :
    id ∈ selectedIds U number filtered selection ↔ Selects U number filtered selection id := by
  unfold selectedIds Selects
  split_ifs with hquery
  · exact mem_focus_selected
  · have hreach : id ∈ reachable filtered.edges (queryMatches U number filtered selection)
        (focusSelected filtered selection) ↔ _ :=
      mem_reachable (fun id => mem_query_matches) fun id => mem_focus_selected
    rw [← hreach]
    dsimp only
    cases selection.focusId with
    | none => exact Iff.rfl
    | some focus =>
      dsimp only
      split_ifs with hfocus
      · rw [mem_of_list, mem_cons, or_iff_right_iff_imp]
        intro h
        exact h ▸ hfocus.2
      · exact Iff.rfl

theorem nodup_selected_ids : (selectedIds U number filtered selection).Nodup := by
  unfold selectedIds
  split_ifs with hquery
  · exact nodup_focus_selected
  · dsimp only
    cases selection.focusId with
    | none => exact nodup_reachable
    | some focus =>
      dsimp only
      split_ifs
      · exact nodup_of_list
      · exact nodup_reachable

theorem selected_ids_eligible (h : id ∈ selectedIds U number filtered selection) :
    id ∈ filtered.eligible := by
  rw [mem_selected_ids] at h
  unfold Selects at h
  split_ifs at h with hquery
  · exact focus_selected_eligible (mem_focus_selected.mpr h)
  · rw [← mem_reachable (fun id => mem_query_matches) fun id => mem_focus_selected] at h
    exact focus_selected_eligible (reachable_inside h)

/-- Nodes that lead in front of those that do not, every leading one among them. -/
def LeadsFirst (leads : String → Prop) (ids : List String) : Prop :=
  ∃ first rest, ids = first ++ rest ∧ (∀ id ∈ first, leads id) ∧ ∀ id ∈ rest, ¬leads id

theorem leads_first_of_prefix {leads : String → Prop} {first : List String} (hnodup : ids.Nodup)
    (hinitial : first <+: ids) (hleads : ∀ id, leads id → id ∈ ids → id ∈ first)
    (hfirst : ∀ id ∈ first, leads id) : LeadsFirst leads ids := by
  obtain ⟨rest, rfl⟩ := hinitial
  refine ⟨first, rest, rfl, hfirst, fun id hid hlead => ?_⟩
  have hmem : id ∈ first := hleads id hlead (mem_append_right first hid)
  exact (nodup_append.mp hnodup).2.2 id hmem id hid rfl

theorem selected_leads (h : selection.validFocus filtered ≠ none ∨ selection.queryText U ≠ []) :
    LeadsFirst (Leads U number filtered selection) (selectedIds U number filtered selection) := by
  have hnodup : (selectedIds U number filtered selection).Nodup := nodup_selected_ids
  by_cases hquery : selection.queryText U = []
  · -- the focus alone
    obtain ⟨focus, hfocus⟩ := Option.ne_none_iff_exists'.mp (h.resolve_right (not_not_intro hquery))
    have hselected : selectedIds U number filtered selection =
        reachable filtered.edges [focus] filtered.eligible := by
      unfold selectedIds focusSelected
      rw [if_pos hquery, hfocus]
    have heligible := (E2eSelection.of_valid_focus hfocus).2.2
    have hinitial : [focus] <+: selectedIds U number filtered selection := by
      rw [hselected]
      exact reachable_starts (nodup_singleton focus) (by simpa using heligible)
    refine leads_first_of_prefix hnodup hinitial ?_ ?_
    · intro id hlead _
      obtain hid | hid := hlead
      · exact mem_singleton.mpr (Option.some.inj (hid.symm.trans hfocus))
      · exact absurd hquery hid.1
    · intro id hid
      rw [mem_singleton] at hid
      exact .inl (hid ▸ hfocus)
  · -- the hits, behind the focus if the query reaches it
    have hmatches : (queryMatches U number filtered selection).Nodup := nodup_focus_selected.filter _
    obtain ⟨rest, hrest⟩ : queryMatches U number filtered selection <+:
        reachable filtered.edges (queryMatches U number filtered selection)
          (focusSelected filtered selection) :=
      reachable_starts hmatches fun id => query_matches_within
    have hhits : ∀ id, Leads U number filtered selection id →
        selection.validFocus filtered = some id ∨ id ∈ queryMatches U number filtered selection :=
      fun id hlead => hlead.imp_right fun hhit => mem_query_matches.mpr hhit.2
    by_cases hfocus : ∃ focus, selection.focusId = some focus ∧ focus ≠ "" ∧
        focus ∈ reachable filtered.edges (queryMatches U number filtered selection)
          (focusSelected filtered selection)
    · obtain ⟨focus, hid, hne, hmem⟩ := hfocus
      have hvalid : selection.validFocus filtered = some focus := by
        rw [E2eSelection.validFocus, hid, Option.filter_some, if_pos]
        simpa using ⟨hne, focus_selected_eligible (reachable_inside hmem)⟩
      have hselected : selectedIds U number filtered selection =
          focus :: (queryMatches U number filtered selection ++ rest).filter (· ≠ focus) := by
        rw [hrest, ← of_list_cons nodup_reachable, selectedIds, if_neg hquery, hid]
        exact if_pos ⟨hne, hmem⟩
      have hinitial : focus :: (queryMatches U number filtered selection).filter (· ≠ focus) <+:
          selectedIds U number filtered selection := by
        rw [hselected, filter_append]
        exact ⟨rest.filter (· ≠ focus), rfl⟩
      refine leads_first_of_prefix hnodup hinitial ?_ ?_
      · intro id hlead _
        by_cases hsame : id = focus
        · exact hsame ▸ mem_cons_self
        · obtain hlead | hlead := hhits id hlead
          · exact absurd (Option.some.inj (hlead.symm.trans hvalid)) hsame
          · exact mem_cons_of_mem _ (mem_filter.mpr ⟨hlead, by simpa using hsame⟩)
      · intro id hid
        obtain rfl | hid := mem_cons.mp hid
        · exact .inl hvalid
        · exact .inr ⟨hquery, mem_query_matches.mp (mem_of_mem_filter hid)⟩
    · have hselected : selectedIds U number filtered selection =
          reachable filtered.edges (queryMatches U number filtered selection)
            (focusSelected filtered selection) := by
        rw [selectedIds, if_neg hquery]
        dsimp only
        cases hid : selection.focusId with
        | none => rfl
        | some focus => exact if_neg fun h => hfocus ⟨focus, hid, h⟩
      have hinitial : queryMatches U number filtered selection <+:
          selectedIds U number filtered selection := by
        rw [hselected]
        exact ⟨rest, hrest⟩
      refine leads_first_of_prefix hnodup hinitial ?_ ?_
      · intro id hlead hid
        obtain hlead | hlead := hhits id hlead
        · obtain ⟨hfocusId, hne, -⟩ := E2eSelection.of_valid_focus hlead
          exact absurd ⟨id, hfocusId, hne, hselected ▸ hid⟩ hfocus
        · exact hlead
      · exact fun id hid => .inr ⟨hquery, mem_query_matches.mp hid⟩

/-! ## The order and the caps -/

theorem mem_neighbors {edges : List E2eEdge} {selected : List String} {kinds : List E2eEvidence}
    (hedges : ∀ edge ∈ edges, edge.source ∈ selected ∧ edge.target ∈ selected)
    (h : id ∈ neighbors edges ids kinds) : id ∈ selected := by
  unfold neighbors at h
  obtain ⟨start, -, h⟩ := mem_flatMap.mp h
  obtain ⟨edge, hedge, h⟩ := mem_flatMap.mp h
  have hends := hedges edge (mem_of_mem_filter hedge)
  have hid : id = edge.target ∨ id = edge.source := by
    split_ifs at h <;> simp at h <;> grind
  obtain rfl | rfl := hid
  · exact hends.2
  · exact hends.1

theorem mem_interleave {connection service : String → List String} {p : String → Prop}
    {connections services : List String}
    (hconnection : ∀ c ∈ connections, ∀ id ∈ connection c, p id)
    (hservice : ∀ s ∈ services, ∀ id ∈ service s, p id) :
    ∀ id ∈ interleave connection service connections services, p id := by
  fun_induction interleave connection service connections services with
  | case1 => simp
  | case2 c connections ih =>
    intro id hid
    obtain hid | hid := mem_append.mp hid
    · exact hconnection c mem_cons_self id hid
    · exact ih (fun c hc => hconnection c (mem_cons_of_mem _ hc)) hservice id hid
  | case3 s services ih =>
    intro id hid
    obtain hid | hid := mem_append.mp hid
    · exact hservice s mem_cons_self id hid
    · exact ih hconnection (fun s hs => hservice s (mem_cons_of_mem _ hs)) id hid
  | case4 c connections s services ih =>
    intro id hid
    obtain hid | hid := mem_append.mp hid
    · obtain hid | hid := mem_append.mp hid
      · exact hconnection c mem_cons_self id hid
      · exact hservice s mem_cons_self id hid
    · exact ih (fun c hc => hconnection c (mem_cons_of_mem _ hc))
        (fun s hs => hservice s (mem_cons_of_mem _ hs)) id hid

theorem mem_edges_within {edges : List E2eEdge} {edge : E2eEdge} :
    edge ∈ edgesWithin edges ids ↔ edge ∈ edges ∧ edge.source ∈ ids ∧ edge.target ∈ ids := by
  unfold edgesWithin
  simp

/-- The order leaves nothing out and brings nothing in. -/
theorem ordered_perm :
    (orderedIds U number filtered selection).Perm (selectedIds U number filtered selection) := by
  unfold orderedIds
  dsimp only
  split_ifs with hplain
  · have hall : selectedIds U number filtered selection = filtered.eligible := by
      unfold selectedIds focusSelected
      rw [if_pos hplain.2, hplain.1]
    have hedges : ∀ edge ∈ edgesWithin filtered.edges (selectedIds U number filtered selection),
        edge.source ∈ selectedIds U number filtered selection ∧
          edge.target ∈ selectedIds U number filtered selection :=
      fun edge hedge => (mem_edges_within.mp hedge).2
    have hnode : ∀ (p : E2eNode → Bool), ∀ id ∈ (filtered.nodes.filter p).map E2eNode.id,
        id ∈ selectedIds U number filtered selection := by
      intro p id hid
      obtain ⟨node, hnode, rfl⟩ := mem_map.mp hid
      rw [hall, mem_eligible]
      exact ⟨node, mem_of_mem_filter hnode, rfl⟩
    refine (perm_ext_iff_of_nodup nodup_of_list nodup_selected_ids).mpr fun id => ?_
    rw [mem_of_list, mem_append, or_iff_right_iff_imp]
    refine mem_interleave (fun c hc id hid => ?_) (fun s hs id hid => ?_) id
    · simp only [connectionGroup, cons_append, mem_cons, mem_append] at hid
      obtain rfl | ((hid | hid) | hid) | hid := hid
      · exact hnode _ id hc
      all_goals exact mem_neighbors hedges hid
    · obtain rfl | hid := mem_cons.mp hid
      · exact hnode _ id hs
      · exact mem_neighbors hedges (mem_of_mem_filter hid)
  · exact List.Perm.refl _

theorem ordered_leads :
    LeadsFirst (Leads U number filtered selection) (orderedIds U number filtered selection) := by
  by_cases hplain : selection.validFocus filtered = none ∧ selection.queryText U = []
  · refine ⟨[], _, rfl, by simp, fun id _ hlead => ?_⟩
    obtain hfocus | hhit := hlead
    · exact absurd (hplain.1.symm.trans hfocus) (by simp)
    · exact hhit.1 hplain.2
  · have hordered : orderedIds U number filtered selection =
        selectedIds U number filtered selection := if_neg hplain
    rw [hordered]
    exact selected_leads (not_and_or.mp hplain)

theorem map_id_nodes (h : ∀ id ∈ ids, id ∈ filtered.eligible) :
    (ids.filterMap (get filtered.byId)).map E2eNode.id = ids := by
  induction ids with
  | nil => rfl
  | cons id ids ih =>
    obtain ⟨node, hnode⟩ := get_byId_of_mem (h id mem_cons_self)
    rw [filterMap_cons_some hnode, map_cons, (of_get_byId hnode).2,
      ih fun other hother => h other (mem_cons_of_mem _ hother)]

end Selected

theorem LeadsFirst.take {leads : String → Prop} {ids : List String} (h : LeadsFirst leads ids)
    (n : Nat) :
    ∃ first rest, ids.take n = first ++ rest ∧ (∀ id ∈ first, leads id) ∧
      (∀ id ∈ rest, ¬leads id) ∧ (rest ≠ [] → ∀ id ∈ ids, leads id → id ∈ first) := by
  obtain ⟨first, rest, rfl, hfirst, hrest⟩ := h
  refine ⟨first.take n, rest.take (n - first.length), take_append,
    fun id hid => hfirst id (mem_of_mem_take hid),
    fun id hid => hrest id (mem_of_mem_take hid), fun hne id hid hlead => ?_⟩
  -- one that does not lead is shown, so the cut comes after all that lead
  have hlong : first.length ≤ n := by
    by_contra hshort
    have hzero : n - first.length = 0 := by omega
    rw [hzero, take_zero] at hne
    exact hne rfl
  rw [take_of_length_le hlong]
  exact (mem_append.mp hid).resolve_right fun hmem => hrest id hmem hlead

/-- What a cut of the sorted edges hides: the edges behind the cut, and those with an end that is
not shown. -/
theorem edges_hidden (edges : List E2eEdge) (ids : List String) (m : Nat) :
    ∃ hidden, (((edgesWithin edges ids).insertionSort fun a b =>
        edgePriority a.evidence ≤ edgePriority b.evidence).take m ++ hidden).Perm edges ∧
      ∀ edge ∈ hidden, edge.source ∈ ids → edge.target ∈ ids →
        (((edgesWithin edges ids).insertionSort fun a b =>
          edgePriority a.evidence ≤ edgePriority b.evidence).take m).length = m := by
  generalize hsorted : (edgesWithin edges ids).insertionSort (fun a b =>
    edgePriority a.evidence ≤ edgePriority b.evidence) = sorted
  have hperm : sorted.Perm (edgesWithin edges ids) := hsorted ▸ perm_insertionSort _ _
  refine ⟨sorted.drop m ++ edges.filter fun edge => !(edge.source ∈ ids && edge.target ∈ ids), ?_,
    fun edge hedge hsource htarget => ?_⟩
  · rw [← append_assoc, take_append_drop]
    exact (hperm.append_right _).trans (filter_append_perm _ edges)
  · obtain hdrop | hout := mem_append.mp hedge
    · have hlength : 0 < (sorted.drop m).length := length_pos_of_mem hdrop
      rw [length_drop] at hlength
      rw [length_take]
      omega
    · simp [hsource, htarget] at hout

section Shown

variable (U : Text.Unicode) (number : JsNumber → List Char) (filtered : E2eGraph)
  (selection : E2eSelection)

theorem map_id_visible : (visibleNodes U number filtered selection).map E2eNode.id =
      (orderedIds U number filtered selection).take (bound selection.maxNodes 350) :=
  map_id_nodes fun _ hid => selected_ids_eligible (ordered_perm.subset (mem_of_mem_take hid))

theorem length_visible : (visibleNodes U number filtered selection).length =
      min (bound selection.maxNodes 350) (selectedIds U number filtered selection).length := by
  have hlength := congrArg List.length (map_id_visible U number filtered selection)
  rw [length_map, length_take, ordered_perm.length_eq] at hlength
  exact hlength

theorem mem_visible_edges {edge : E2eEdge} (h : edge ∈ visibleEdges U number filtered selection) :
    edge ∈ filtered.edges ∧ edge.source ∈ (visibleNodes U number filtered selection).map E2eNode.id ∧
      edge.target ∈ (visibleNodes U number filtered selection).map E2eNode.id := by
  have hwithin := mem_edges_within.mp ((mem_insertionSort _).mp (mem_of_mem_take h))
  exact ⟨(mem_edges_within.mp hwithin.1).1, hwithin.2⟩

theorem nodes_hidden : ∃ hidden,
    ((visibleNodes U number filtered selection).map E2eNode.id ++ hidden).Perm
      (selectedIds U number filtered selection) ∧
    (selectedIds U number filtered selection).length -
      (visibleNodes U number filtered selection).length = hidden.length ∧
    (hidden ≠ [] →
      (visibleNodes U number filtered selection).length = bound selection.maxNodes 350) := by
  refine ⟨(orderedIds U number filtered selection).drop (bound selection.maxNodes 350), ?_, ?_,
    fun hne => ?_⟩
  · rw [map_id_visible, take_append_drop]
    exact ordered_perm
  · rw [length_drop, ordered_perm.length_eq, length_visible]
    omega
  · have hpos := length_pos_of_ne_nil hne
    rw [length_drop, ordered_perm.length_eq] at hpos
    rw [length_visible]
    omega

end Shown

/-- The law of a selection: what is shown lies within the caps and comes from the graph that the
evidence leaves, what is not shown is counted, and the focus and the hits come first. -/
structure SelectionLaw (U : Text.Unicode) (number : JsNumber → List Char)
    (selection : E2eSelection) (filtered : E2eGraph) (view : E2eView) (selected : List String) :
    Prop where
  nodesBound : view.nodes.length ≤ bound selection.maxNodes 350
  edgesBound : view.edges.length ≤ bound selection.maxEdges 700
  nodesKept : ∀ node ∈ view.nodes, node ∈ filtered.nodes
  edgesKept : ∀ edge ∈ view.edges, edge ∈ filtered.edges
  ends : ∀ edge ∈ view.edges, edge.source ∈ view.nodes.map E2eNode.id ∧
    edge.target ∈ view.nodes.map E2eNode.id
  distinct : selected.Nodup
  selects : ∀ id, id ∈ selected ↔ Selects U number filtered selection id
  nodesOmitted : ∃ hidden, (view.nodes.map E2eNode.id ++ hidden).Perm selected ∧
    view.omittedNodes = hidden.length ∧
    (hidden ≠ [] → view.nodes.length = bound selection.maxNodes 350)
  edgesOmitted : ∃ hidden, (view.edges ++ hidden).Perm (edgesWithin filtered.edges selected) ∧
    view.omittedEdges = hidden.length ∧
    ∀ edge ∈ hidden, edge.source ∈ view.nodes.map E2eNode.id →
      edge.target ∈ view.nodes.map E2eNode.id → view.edges.length = bound selection.maxEdges 700
  leadsFirst : ∃ first rest, view.nodes.map E2eNode.id = first ++ rest ∧
    (∀ id ∈ first, Leads U number filtered selection id) ∧
    (∀ id ∈ rest, ¬Leads U number filtered selection id) ∧
    (rest ≠ [] → ∀ id ∈ selected, Leads U number filtered selection id → id ∈ first)

/-- `selectE2eGraph` meets it. -/
theorem selection_lawful (U : Text.Unicode) (number : JsNumber → List Char) (graph : E2eGraph)
    (selection : E2eSelection) :
    SelectionLaw U number selection (filterE2eEvidence graph selection.evidence)
      (selectE2eGraph U number graph selection)
      (selectedIds U number (filterE2eEvidence graph selection.evidence) selection) := by
  unfold selectE2eGraph
  generalize filterE2eEvidence graph selection.evidence = filtered
  refine ⟨?_, length_take_le _ _, fun node hnode => ?_,
    fun edge h => (mem_visible_edges U number filtered selection h).1,
    fun edge h => (mem_visible_edges U number filtered selection h).2, nodup_selected_ids,
    fun id => mem_selected_ids, nodes_hidden U number filtered selection, ?_, ?_⟩
  · show (visibleNodes U number filtered selection).length ≤ _
    rw [length_visible]
    exact Nat.min_le_left _ _
  · obtain ⟨id, -, hget⟩ := mem_filterMap.mp hnode
    exact (of_get_byId hget).1
  · obtain ⟨hidden, hperm, hcut⟩ := edges_hidden (selectedEdges U number filtered selection)
      ((visibleNodes U number filtered selection).map E2eNode.id) (bound selection.maxEdges 700)
    have hlength := hperm.length_eq
    rw [length_append] at hlength
    refine ⟨hidden, hperm, ?_, hcut⟩
    show (selectedEdges U number filtered selection).length -
      (visibleEdges U number filtered selection).length = _
    unfold visibleEdges
    omega
  · have hleads : LeadsFirst (Leads U number filtered selection)
        (orderedIds U number filtered selection) := ordered_leads
    obtain ⟨first, rest, htake, hfirst, hrest, hall⟩ := hleads.take (bound selection.maxNodes 350)
    refine ⟨first, rest, ?_, hfirst, hrest, fun hne id hid hlead => ?_⟩
    · show (visibleNodes U number filtered selection).map E2eNode.id = _
      rw [map_id_visible, htake]
    · exact hall hne id (ordered_perm.symm.subset hid) hlead

/-! ## A focus that its own query leaves behind -/

/-- A node of an example, found by its id alone. -/
def exampleNode (id : String) : E2eNode :=
  { id := id, kind := "", label := "", layer := .network, metadata := [] }

def exampleEdge (source target : String) (evidence : E2eEvidence) : E2eEdge :=
  { id := source ++ target, source := source, target := target, relation := "", evidence := evidence,
    directed := false }

/-- The focus `f` leads to `a`; the hit `q` hangs at `a` by context and leads to `d`. -/
def contextGraph : E2eGraph where
  nodes := ["f", "a", "q", "d"].map exampleNode
  edges := [exampleEdge "f" "a" .network, exampleEdge "a" "q" .context, exampleEdge "q" "d" .network]
  summary := ⟨0, 0, 0, 0, 0, 0, false⟩

/-- The neighbour `a` of the only hit is shown and the focus is not, though nothing is cut; nor is
`d`, which an edge joins to the hit inside the graph. -/
theorem focus_left_behind :
    let selection : E2eSelection := { query := some "q", focusId := some "f" }
    let view := selectE2eGraph Text.Unicode.ascii (fun _ => []) contextGraph selection
    view.nodes.map E2eNode.id = ["q", "a"] ∧ view.omittedNodes = 0 ∧
      selection.validFocus contextGraph = some "f" ∧
      queryMatches Text.Unicode.ascii (fun _ => []) contextGraph selection = ["q"] ∧
      Eligible contextGraph "d" ∧ Linked contextGraph.edges "q" "d" := by
  intro selection view
  have hshown : view.nodes.map E2eNode.id = ["q", "a"] := by decide
  have homitted : view.omittedNodes = 0 := by decide
  have hfocus : selection.validFocus contextGraph = some "f" := by decide
  have hhits : queryMatches Text.Unicode.ascii (fun _ => []) contextGraph selection = ["q"] := by
    decide
  refine ⟨hshown, homitted, hfocus, hhits, ⟨exampleNode "d", by simp [contextGraph], rfl⟩, ?_⟩
  exact ⟨exampleEdge "q" "d" .network, by simp [contextGraph], nofun, .inl ⟨rfl, rfl⟩⟩

end AwsOps.Topology
