import Enkaku.Lib.Digraph
import Enkaku.Workflow.Check
import Enkaku.Workflow.Loop

/-!
# The transition graph

`buildGraph`, `pathExists` and `findCycle` of the checker: its edges are the edge fields of the
nodes, and a shuffle's members are its successors.  A member's return to its shuffle is no edge.

The cursor of a run moves along these edges, and by the returns: `Turn.moves` says so for one turn,
`trail_moves` for the nodes a whole run has gone through.
-/

set_option autoImplicit false

namespace Enkaku

open WorkflowNode

/-! ## The edges -/

namespace WorkflowNode

variable (node : WorkflowNode)

/-- The ids in the edge fields of a node. -/
def targets : List String := (node.edgeFields false).filterMap (·.target)

/-- The targets that are no members: control goes there for good. -/
def exits : List String :=
  match node.body with
  | .step (.shuffle n) => n.next.toList
  | _ => node.targets

end WorkflowNode

namespace WorkflowDoc

variable (doc : WorkflowDoc)

/-- `nodeIds.has`. -/
def hasNode (id : String) : Bool := doc.nodes.any fun n ↦ n.id = id

/-- `nodeById.get`: here the first node of an id counts. -/
def firstNode? (id : String) : Option WorkflowNode := doc.nodes.find? fun n ↦ n.id = id

/-- The ids of the nodes, in document order. -/
def ids : List String := doc.nodes.map (·.id)

/-- `graph.edges.get(id) ?? []`: where the cursor could land next. -/
def edges (id : String) : List String :=
  (((doc.nodes.filter fun n ↦ n.id = id).flatMap (·.targets)).filter doc.hasNode).eraseDups

/-- `pathExists(graph.edges, from, to)`. -/
def pathExists (source target : String) : Bool :=
  Digraph.pathExists doc.edges doc.ids source target

/-- `graph.reachable`. -/
def reachable : List String :=
  if doc.hasNode doc.entry then Digraph.reachable doc.edges doc.ids doc.entry else []

/-- `cycleNode`. -/
def cycleNode : Option String :=
  if doc.hasNode doc.entry then Digraph.findCycle doc.edges doc.ids doc.entry else none

variable {doc} {node : WorkflowNode} {a b : String}

theorem hasNode_iff : doc.hasNode a = true ↔ ∃ n ∈ doc.nodes, n.id = a := by
  simp [hasNode]

theorem hasNode_of_node? (h : doc.node? a = some node) : doc.hasNode a = true :=
  hasNode_iff.mpr ⟨node, mem_of_node? h, id_of_node? h⟩

theorem mem_ids : a ∈ doc.ids ↔ doc.hasNode a = true := by
  simp [ids, hasNode]

theorem mem_edges :
    b ∈ doc.edges a ↔ doc.hasNode b = true ∧ ∃ n ∈ doc.nodes, n.id = a ∧ b ∈ n.targets := by
  simp only [edges, List.mem_eraseDups, List.mem_filter, List.mem_flatMap, decide_eq_true_eq]
  constructor
  · rintro ⟨⟨n, ⟨hn, hid⟩, hb⟩, hhas⟩
    exact ⟨hhas, n, hn, hid, hb⟩
  · rintro ⟨hhas, n, hn, hid, hb⟩
    exact ⟨⟨n, ⟨hn, hid⟩, hb⟩, hhas⟩

theorem edges_subset (a : String) : doc.edges a ⊆ doc.ids :=
  fun _ hb ↦ mem_ids.mpr (mem_edges.mp hb).1

/-- Only a node has edges. -/
theorem mem_ids_of_edges (h : doc.edges a ≠ []) : a ∈ doc.ids := by
  obtain ⟨b, hb⟩ := List.exists_mem_of_ne_nil _ h
  obtain ⟨-, n, hn, hid, -⟩ := mem_edges.mp hb
  exact mem_ids.mpr (hasNode_iff.mpr ⟨n, hn, hid⟩)

theorem pathExists_iff : doc.pathExists a b = true ↔ Digraph.Path doc.edges a b :=
  Digraph.pathExists_iff fun _ ↦ mem_ids_of_edges

/-- **Without a cycle found, the nodes reached are in topological order.** -/
theorem topological_of_cycleNode (hentry : doc.hasNode doc.entry = true) (h : doc.cycleNode = none) :
    ∃ l, Digraph.Topological doc.edges l ∧ doc.entry ∈ l ∧ l ⊆ doc.ids := by
  rw [cycleNode, if_pos hentry] at h
  exact Digraph.topological_of_findCycle edges_subset (mem_ids.mpr hentry) h

end WorkflowDoc

/-! ## Where control goes -/

theorem WorkflowNode.exits_subset (node : WorkflowNode) : node.exits ⊆ node.targets := by
  obtain ⟨id, enabled, body⟩ := node
  cases body with
  | start | finish => exact fun _ h ↦ h
  | step n =>
    cases n with
    | shuffle n =>
      intro b hb
      have hnext : n.next = some b := by simpa [exits] using hb
      simp [targets, edgeFields, hnext]
    | _ => exact fun _ h ↦ h

theorem WorkflowNode.members_subset (node : WorkflowNode) : node.members ⊆ node.targets := by
  intro m hm
  obtain ⟨n, hbody, hmn⟩ := mem_members.mp hm
  obtain ⟨i, hi⟩ := List.getElem?_of_mem hmn
  rw [targets, edgeFields, hbody, List.filterMap_append]
  refine List.mem_append_left _ (List.mem_filterMap.mpr ?_)
  exact ⟨_, List.mem_map.mpr ⟨(m, i), List.mem_zipIdx_iff_getElem?.mpr hi, rfl⟩, rfl⟩

/-- How control goes on from a node to `b`: by one of its exits, to the member a shuffle's visit has
drawn, or from a member back to its shuffle. -/
inductive Leads (doc : WorkflowDoc) (node : WorkflowNode) (edge : Option Edge) (b : String) : Prop
  | exit (h : b ∈ node.exits)
  | draw (h : b ∈ node.members) (hedge : edge = some (.member b))
  | back (hnot : node.shuffle? = none) (howner : doc.shuffleOwner node.id = some b)

section

variable {deps : OrchestratorDeps} {w : WorkflowRun} {x y : Walk} {t : Tick} {doc : WorkflowDoc}
  {node : WorkflowNode} {n : StepNode} {edge : Edge} {b : String}

theorem leads_of_successor (hbody : node.body = .step n) (h : n.successorOf edge = some b) :
    Leads doc node (some edge) b := by
  cases n with
  | script n | delay n | set n =>
    have hnext : n.next = some b := h
    refine .exit ?_
    rw [exits, hbody]
    simp [targets, edgeFields, hbody, hnext]
  | gate n =>
    refine .exit ?_
    rw [exits, hbody]
    rw [StepNode.successorOf] at h
    split_ifs at h <;> simp [targets, edgeFields, hbody, h]
  | switch n =>
    refine .exit ?_
    rw [exits, hbody, targets, edgeFields, hbody]
    rw [StepNode.successorOf] at h
    rw [List.filterMap_append, List.mem_append]
    split_ifs at h
    · right
      simp [h]
    · left
      obtain ⟨i, -, hi⟩ := Option.bind_eq_some_iff.mp h
      obtain ⟨c, hc, hto⟩ := Option.bind_eq_some_iff.mp hi
      refine List.mem_filterMap.mpr ⟨_, List.mem_map.mpr ⟨(c, i), ?_, rfl⟩, hto⟩
      exact List.mem_zipIdx_iff_getElem?.mpr hc
  | shuffle n =>
    rw [StepNode.successorOf] at h
    cases hmember : edge.member? with
    | none =>
      rw [hmember] at h
      refine .exit ?_
      rw [exits, hbody]
      simpa using h
    | some m =>
      rw [hmember] at h
      dsimp only at h
      split_ifs at h with hm
      obtain rfl := Option.some.inj h
      refine .draw (mem_members.mpr ⟨n, hbody, by simpa using hm⟩) ?_
      cases edge with
      | member m' => rw [show m' = m from Option.some.inj hmember]
      | _ => exact nomatch hmember

theorem leads_of_advance (hbody : node.body = .step n) (h : doc.advance node edge = some b) :
    Leads doc node (some edge) b := by
  have hstep : successorOf node edge = n.successorOf edge := by
    rw [successorOf, step?, hbody]
    rfl
  rw [WorkflowDoc.advance, hstep] at h
  cases hsucc : n.successorOf edge with
  | some target =>
    rw [hsucc] at h
    cases h
    exact leads_of_successor hbody hsucc
  | none =>
    rw [hsucc] at h
    split_ifs at h with hback
    exact .back (by simpa using hback.2) h

theorem handleScriptFailed_leads {s : ScriptNode} {code message : String} {run : Option JobRunRow}
    {scriptRef : Option ScriptEntry} (hbody : node.body = .step (.script s))
    (hgo : (handleScriptFailed w node s code message run scriptRef).goto = some b) :
    Leads w.doc node (handleScriptFailed w node s code message run scriptRef).takenEdge b := by
  have hafter : (if wasCancelled code run then (none, some ⟨true, "job_cancelled", message⟩)
      else afterFailure w node s code message).1 = some b := hgo
  split_ifs at hafter
  rw [afterFailure] at hafter
  split at hafter
  · next target _ hfail =>
    cases hafter
    refine .exit ?_
    rw [exits, hbody]
    simp [targets, edgeFields, hbody, hfail]
  · next owner _ hsurvives =>
    cases hafter
    refine .back (by rw [shuffle?, hbody]) ?_
    exact (Option.filter_eq_some_iff.mp hsurvives).1
  · cases hafter

/-- Where control goes once a step has been handled. -/
theorem handle_leads {hd : Handled} (hbody : node.body = .step n)
    (h : handle deps w x node n t = .ok hd) (hgo : hd.goto = some b) :
    Leads w.doc node hd.takenEdge b := by
  unfold handle at h
  split at h
  · cases h
    exact leads_of_advance hbody hgo
  · cases n with
    | shuffle n =>
      obtain ⟨betweenMs, rfl⟩ := Walk.handleShuffle_ok h
      exact leads_of_advance hbody hgo
    | gate n | switch n =>
      cases h
      exact leads_of_advance hbody hgo
    | delay n =>
      dsimp only [handleDelay] at h
      split_ifs at h
      cases h
      exact leads_of_advance hbody hgo
    | set n =>
      cases h
      rw [handleSet] at hgo ⊢
      split at hgo
      · cases hgo
      · exact leads_of_advance hbody hgo
    | script n =>
      dsimp only [handleScript] at h
      split at h
      · cases h
      · cases h
        exact leads_of_advance hbody hgo
      · cases h
        exact handleScriptFailed_leads hbody hgo

end

/-! ## The trail of a run -/

namespace Walk

/-- The node the loop is at. -/
def here (w : WorkflowRun) (x : Walk) : Option String :=
  if x.threw then none else x.cursor.filter w.doc.hasNode

/-- The nodes the loop is at, turn by turn. -/
def trail (deps : OrchestratorDeps) (w : WorkflowRun) : Walk → List Tick → List String
  | _, [] => []
  | x, t :: ts => (x.here w).toList ++ trail deps w (x.iterate deps w t) ts

variable {deps : OrchestratorDeps} {w : WorkflowRun} {x y : Walk} {t : Tick} {ts : List Tick}
  {node : WorkflowNode} {a b : String}

theorem here_eq_some : x.here w = some a ↔
    x.threw = false ∧ x.cursor = some a ∧ w.doc.hasNode a = true := by
  rw [here]
  split_ifs with hthrew
  · simp [hthrew]
  · simp [hthrew, Option.filter_eq_some_iff]

theorem At.here (h : x.At w node) : x.here w = some node.id :=
  here_eq_some.mpr ⟨h.threw, h.cursor, WorkflowDoc.hasNode_of_node? h.node⟩

theorem running_of_here (h : x.here w = some a) : x.running = true := by
  obtain ⟨hthrew, hcursor, -⟩ := here_eq_some.mp h
  rw [running, hcursor, hthrew]
  rfl

theorem here_of_threw (h : x.threw = true) : x.here w = none := by
  rw [Walk.here, if_pos h]

theorem here_of_cursor (h : x.cursor = none) : x.here w = none := by
  rw [Walk.here, h]
  split <;> rfl

/-- **Where a turn takes the cursor**, when it is at a node before and after. -/
theorem Turn.leads (h : Turn deps w x t y) (ha : x.here w = some a) (hb : y.here w = some b) :
    ∃ node edge, w.doc.node? a = some node ∧ Leads w.doc node edge b := by
  obtain ⟨hthrew, hcursor, -⟩ := here_eq_some.mp hb
  have hat : ∀ {node : WorkflowNode}, x.At w node → w.doc.node? a = some node := by
    intro node hat
    cases hat.here.symm.trans ha
    exact hat.node
  cases h with
  | idle hidle => exact absurd (running_of_here ha) (by simp [hidle])
  | caught => exact nomatch (show true = false from hthrew)
  | failed => exact nomatch (show none = some b from hcursor)
  | @passed node next h hbody =>
    have hnext : next = some b := hcursor
    refine ⟨node, none, hat h, .exit ?_⟩
    rw [exits, hbody]
    simp [targets, edgeFields, hbody, hnext]
  | @finished node status message h hbody =>
    cases status <;> exact nomatch (show none = some b from hcursor)
  | refused _ _ _ _ _ x' hx' =>
    rcases hx' with rfl | rfl <;> exact nomatch (show true = false from hthrew)
  | skipped h hbody => exact ⟨_, _, hat h, leads_of_advance hbody hcursor⟩
  | threw => exact nomatch (show true = false from hthrew)
  | executed h hbody hon hkey hh => exact ⟨_, _, hat h, handle_leads hbody hh hcursor⟩

/-- A loop that is at no node is at none after any turn. -/
theorem Turn.here_eq_none (h : Turn deps w x t y) (hx : x.here w = none) : y.here w = none := by
  have hnot : ∀ {node : WorkflowNode}, ¬ x.At w node := fun hat ↦ nomatch hx.symm.trans hat.here
  cases h with
  | idle => exact hx
  | caught => exact here_of_threw rfl
  | failed => exact here_of_cursor rfl
  | passed h | finished h | refused h | skipped h | threw h | executed h => exact absurd h hnot

theorem trail_of_here (h : x.here w = none) : trail deps w x ts = [] := by
  induction ts generalizing x with
  | nil => rfl
  | cons t ts ih => rw [trail, h, ih ((turn_iterate deps w x t).here_eq_none h)]; rfl

/-- A trail starts with the node the loop is at. -/
theorem trail_head : ∀ c ∈ (trail deps w x ts).head?, x.here w = some c := by
  intro c hc
  cases ts with
  | nil => exact nomatch hc
  | cons t ts =>
    cases hx : x.here w with
    | none =>
      rw [trail_of_here hx] at hc
      exact nomatch hc
    | some a =>
      rw [trail, hx] at hc
      exact hc

/-- One turn takes the cursor from a node to the next. -/
def Moves (doc : WorkflowDoc) (a b : String) : Prop :=
  doc.hasNode b = true ∧ ∃ node edge, doc.node? a = some node ∧ Leads doc node edge b

/-- **A run goes from node to node** as the document leads. -/
theorem trail_moves (x : Walk) (ts : List Tick) : (trail deps w x ts).IsChain (Moves w.doc) := by
  induction ts generalizing x with
  | nil => exact .nil
  | cons t ts ih =>
    rw [trail]
    cases hx : x.here w with
    | none => exact ih _
    | some a =>
      refine List.isChain_cons.mpr ⟨fun b hb ↦ ?_, ih _⟩
      have hy := trail_head b hb
      exact ⟨(here_eq_some.mp hy).2.2, (turn_iterate deps w x t).leads hx hy⟩

/-- A move is an edge of the graph, or a member's return to its shuffle. -/
theorem Moves.edge_or_return {doc : WorkflowDoc} (h : Moves doc a b) :
    b ∈ doc.edges a ∨ doc.shuffleOwner a = some b := by
  obtain ⟨hhas, node, edge, hnode, hleads⟩ := h
  have hid := WorkflowDoc.id_of_node? hnode
  have hmem := WorkflowDoc.mem_of_node? hnode
  cases hleads with
  | exit hexit =>
    exact .inl (WorkflowDoc.mem_edges.mpr ⟨hhas, node, hmem, hid, node.exits_subset hexit⟩)
  | draw hdraw =>
    exact .inl (WorkflowDoc.mem_edges.mpr ⟨hhas, node, hmem, hid, node.members_subset hdraw⟩)
  | back _ howner => exact .inr (hid ▸ howner)

end Walk

end Enkaku
