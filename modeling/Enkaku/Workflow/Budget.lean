import Enkaku.Workflow.Graph

/-!
# The budget arithmetic

Check 7 of the checker: what a node can cost, what a shuffle spans, and the longest path through the
transition graph, weighted by what its nodes cost.  `longestPathMs` is only asked for where no cycle
was found, and there the fuel of its walk is enough: it satisfies its own recursion
(`longestPathMs_eq`), by which it bounds what a node and any node after it come to
(`weight_le_longestPathMs`, `weight_add_le_longestPathMs`).

The source reads the cost of a node by `costOf.get(id) ?? 0`, so a cost it does not know counts as
nothing, and its branches for an unknown cost are never taken.  Its memo is left out.
-/

set_option autoImplicit false

namespace Enkaku

/-- `ResolvedNodeScript`: what the caller has looked up for the script of a node. -/
structure ResolvedNodeScript where
  paramsSchema : Option Value
  outputSchema : Option Value
  timeoutMs : Option Nat
  deriving DecidableEq, Repr

/-- `resolved.get`. -/
abbrev ResolvedScripts := String → Option ResolvedNodeScript

/-- `nodeCostMs`. -/
def nodeCostMs (resolved : ResolvedScripts) (node : WorkflowNode) : Option Nat :=
  match node.body with
  | .step (.script n) => (resolved n.script).bind (·.timeoutMs)
  | .step (.delay n) => some n.maxMs
  | _ => some 0

/-- `ShuffleSpan`. -/
structure ShuffleSpan where
  members : List String
  exits : List String
  betweenMs : Nat
  deriving DecidableEq, Repr

namespace WorkflowDoc

variable (doc : WorkflowDoc) (resolved : ResolvedScripts)

/-- The edge a failing script node leaves by. -/
def onFailureOf (id : String) : Option String :=
  (doc.node? id).bind fun node ↦
    match node.body with
    | .step (.script n) => n.onFailure
    | _ => none

/-- The span of a shuffle. -/
def spanOf (n : ShuffleNode) : ShuffleSpan where
  members := n.members
  exits := n.next.toList ++ n.members.filterMap doc.onFailureOf
  betweenMs := (n.members.length - 1) * n.betweenMaxMs

/-- `shuffleSpans(doc).get`. -/
def shuffleSpan? (id : String) : Option ShuffleSpan :=
  (doc.nodes.reverse.find? fun n ↦ n.id = id ∧ n.shuffle?.isSome).bind fun n ↦
    n.shuffle?.map doc.spanOf

/-- `costOf.get(id)`. -/
def costOf (id : String) : Option Nat := (doc.node? id).bind (nodeCostMs resolved)

/-- `costOf.get(id) ?? 0`. -/
def ownCost (id : String) : Nat := (doc.costOf resolved id).getD 0

/-- `visit` of `longestPathMs`. -/
def visitLongest : Nat → String → Nat
  | 0, _ => 0
  | fuel + 1, id =>
    match doc.shuffleSpan? id with
    | some span =>
      doc.ownCost resolved id + ((span.members.map (doc.ownCost resolved)).sum + span.betweenMs) +
        (span.exits.map (visitLongest fuel)).foldl max 0
    | none => doc.ownCost resolved id + ((doc.edges id).map (visitLongest fuel)).foldl max 0

/-- `longestPathMs(graph.edges, costOf, start, shuffleSpans(doc))`. -/
def longestPathMs (start : String) : Nat := doc.visitLongest resolved (doc.ids.length + 1) start

/-! ## The recursion -/

/-- What a visit adds up before it looks at where to go on: a shuffle runs all its members. -/
def weight (id : String) : Nat :=
  match doc.shuffleSpan? id with
  | some span =>
    doc.ownCost resolved id + ((span.members.map (doc.ownCost resolved)).sum + span.betweenMs)
  | none => doc.ownCost resolved id

/-- Where a visit goes on. -/
def nexts (id : String) : List String :=
  match doc.shuffleSpan? id with
  | some span => span.exits
  | none => doc.edges id

variable {doc resolved} {l : List String} {a b : String}

theorem visitLongest_succ (fuel : Nat) (id : String) : doc.visitLongest resolved (fuel + 1) id =
    doc.weight resolved id + ((doc.nexts id).map (doc.visitLongest resolved fuel)).foldl max 0 := by
  rw [visitLongest, weight, nexts]
  cases doc.shuffleSpan? id <;> rfl

/-- The span of an id belongs to a shuffle of that id. -/
theorem shuffle_of_span {span : ShuffleSpan} (h : doc.shuffleSpan? a = some span) :
    ∃ node ∈ doc.nodes, ∃ n, node.id = a ∧ node.body = .step (.shuffle n) ∧ span = doc.spanOf n := by
  obtain ⟨node, hfind, hspan⟩ := Option.bind_eq_some_iff.mp h
  obtain ⟨n, hn, rfl⟩ := Option.map_eq_some_iff.mp hspan
  have hid := List.find?_some hfind
  refine ⟨node, List.mem_reverse.mp (List.mem_of_find?_eq_some hfind), n, ?_, ?_, rfl⟩
  · exact (of_decide_eq_true hid).1
  · rw [WorkflowNode.shuffle?] at hn
    split at hn
    · next s hbody => rw [hbody, Option.some.inj hn]
    · cases hn

/-- The edge a failing node leaves by is an edge of the graph, unless it names no node. -/
theorem mem_edges_of_onFailure (h : doc.onFailureOf a = some b) :
    doc.hasNode a = true ∧ (b ∈ doc.edges a ∨ doc.hasNode b = false) := by
  obtain ⟨node, hnode, hfail⟩ := Option.bind_eq_some_iff.mp h
  refine ⟨hasNode_of_node? hnode, ?_⟩
  cases hb : doc.hasNode b with
  | false => exact .inr rfl
  | true =>
    refine .inl (mem_edges.mpr ⟨hb, node, mem_of_node? hnode, id_of_node? hnode, ?_⟩)
    split at hfail
    · next n hbody => simp [WorkflowNode.targets, WorkflowNode.edgeFields, hbody, hfail]
    · cases hfail

/-- A visit goes on along the graph, or to an id that names no node. -/
theorem path_of_nexts (h : b ∈ doc.nexts a) : Digraph.Path doc.edges a b ∨ doc.hasNode b = false := by
  rw [nexts] at h
  cases hspan : doc.shuffleSpan? a with
  | none =>
    rw [hspan] at h
    exact .inl (.single h)
  | some span =>
    rw [hspan] at h
    obtain ⟨node, hmem, n, hid, hbody, rfl⟩ := shuffle_of_span hspan
    have hedge : ∀ c ∈ node.targets, doc.hasNode c = true → c ∈ doc.edges a := fun c hc hhas ↦
      mem_edges.mpr ⟨hhas, node, hmem, hid, hc⟩
    rcases List.mem_append.mp h with h | h
    · cases hb : doc.hasNode b with
      | false => exact .inr rfl
      | true =>
        refine .inl (.single (hedge b (node.exits_subset ?_) hb))
        rw [WorkflowNode.exits, hbody]
        exact h
    · obtain ⟨m, hm, hfail⟩ := List.mem_filterMap.mp h
      obtain ⟨hhas, hb⟩ := mem_edges_of_onFailure hfail
      refine hb.imp_left fun hb ↦ .head (hedge m (node.members_subset ?_) hhas) (.single hb)
      exact WorkflowNode.mem_members.mpr ⟨n, hbody, hm⟩

theorem visitLongest_of_no_node (h : doc.hasNode a = false) (fuel : Nat) :
    doc.visitLongest resolved fuel a = 0 := by
  have hnone : ∀ n ∈ doc.nodes, n.id ≠ a := by
    intro n hn hid
    have hhas := hasNode_iff.mpr ⟨n, hn, hid⟩
    rw [h] at hhas
    exact nomatch hhas
  cases fuel with
  | zero => rfl
  | succ fuel =>
    have hspan : doc.shuffleSpan? a = none := by
      cases hspan : doc.shuffleSpan? a with
      | none => rfl
      | some span =>
        obtain ⟨node, hmem, n, hid, -⟩ := shuffle_of_span hspan
        exact absurd hid (hnone node hmem)
    have hedges : doc.edges a = [] := by
      by_contra hne
      obtain ⟨n, hn, hid⟩ := hasNode_iff.mp (mem_ids.mp (mem_ids_of_edges hne))
      exact hnone n hn hid
    have hnode : doc.node? a = none := by
      cases hnode : doc.node? a with
      | none => rfl
      | some n => exact absurd (id_of_node? hnode) (hnone n (mem_of_node? hnode))
    rw [visitLongest, hspan, hedges]
    simp [ownCost, costOf, hnode]

/-- Over nodes in topological order more fuel than there are nodes changes nothing. -/
theorem visitLongest_stable (h : Digraph.Topological doc.edges l) {fuel : Nat}
    (hfuel : l.length ≤ fuel) (ha : a ∈ l ∨ doc.hasNode a = false) :
    doc.visitLongest resolved fuel a = doc.visitLongest resolved l.length a := by
  induction h generalizing fuel a with
  | nil =>
    have hnone := ha.resolve_left List.not_mem_nil
    rw [visitLongest_of_no_node hnone, visitLongest_of_no_node hnone]
  | @cons v l hnew hsucc h ih =>
    rw [List.length_cons] at hfuel ⊢
    rcases ha with ha | hnone
    · rcases List.mem_cons.mp ha with rfl | ha
      · obtain ⟨fuel, rfl⟩ := Nat.exists_eq_add_of_lt (Nat.lt_of_lt_of_le (Nat.succ_pos _) hfuel)
        rw [Nat.zero_add] at hfuel ⊢
        rw [visitLongest_succ, visitLongest_succ]
        have hsame : (doc.nexts a).map (doc.visitLongest resolved fuel) =
            (doc.nexts a).map (doc.visitLongest resolved l.length) := by
          refine List.map_congr_left fun b hb ↦ ih (Nat.le_of_succ_le_succ hfuel) ?_
          refine (path_of_nexts hb).imp_left fun hpath ↦ ?_
          obtain ⟨c, hac, hreach⟩ := Relation.TransGen.head'_iff.mp hpath
          exact Digraph.Reaches.mem_of_closed hreach (hsucc hac) h.closed
        rw [hsame]
      · rw [ih (Nat.le_of_succ_le hfuel) (.inl ha), ih (Nat.le_succ _) (.inl ha)]
    · rw [visitLongest_of_no_node hnone, visitLongest_of_no_node hnone]

/-- **The longest path is what its recursion says**, over nodes in topological order. -/
theorem longestPathMs_eq (h : Digraph.Topological doc.edges l) (hl : l ⊆ doc.ids) (ha : a ∈ l) :
    doc.longestPathMs resolved a =
      doc.weight resolved a + ((doc.nexts a).map (doc.longestPathMs resolved)).foldl max 0 := by
  have hlength : l.length ≤ doc.ids.length := (List.subperm_of_subset h.nodup hl).length_le
  have hsame : (doc.nexts a).map (doc.visitLongest resolved doc.ids.length) =
      (doc.nexts a).map (doc.longestPathMs resolved) := by
    refine List.map_congr_left fun b hb ↦ ?_
    have hb' : b ∈ l ∨ doc.hasNode b = false := by
      refine (path_of_nexts hb).imp_left fun hpath ↦ ?_
      exact Digraph.Reaches.mem_of_closed hpath.to_reflTransGen ha h.closed
    rw [longestPathMs, visitLongest_stable h hlength hb',
      visitLongest_stable h (Nat.le_succ_of_le hlength) hb']
  rw [longestPathMs, visitLongest_succ, hsame]

theorem le_foldl_max {l : List Nat} {a n : Nat} (h : n ≤ a ∨ n ∈ l) : n ≤ l.foldl max a := by
  induction l generalizing a with
  | nil => exact h.resolve_right List.not_mem_nil
  | cons c l ih =>
    rw [List.foldl_cons]
    refine ih ?_
    rcases h with h | h
    · exact .inl (Nat.le_trans h (Nat.le_max_left ..))
    · rcases List.mem_cons.mp h with rfl | h
      · exact .inl (Nat.le_max_right ..)
      · exact .inr h

theorem foldl_max_le {l : List Nat} {a n : Nat} (ha : a ≤ n) (h : ∀ m ∈ l, m ≤ n) :
    l.foldl max a ≤ n := by
  induction l generalizing a with
  | nil => exact ha
  | cons c l ih =>
    rw [List.foldl_cons]
    exact ih (Nat.max_le.mpr ⟨ha, h c (.head _)⟩)
      fun m hm ↦ h m (.tail _ hm)

theorem weight_le_longestPathMs (h : Digraph.Topological doc.edges l) (hl : l ⊆ doc.ids)
    (ha : a ∈ l) : doc.weight resolved a ≤ doc.longestPathMs resolved a := by
  rw [longestPathMs_eq h hl ha]
  exact Nat.le_add_right ..

theorem weight_add_le_longestPathMs (h : Digraph.Topological doc.edges l) (hl : l ⊆ doc.ids)
    (ha : a ∈ l) (hb : b ∈ doc.nexts a) :
    doc.weight resolved a + doc.longestPathMs resolved b ≤ doc.longestPathMs resolved a := by
  rw [longestPathMs_eq h hl ha]
  exact Nat.add_le_add_left (le_foldl_max (.inr (List.mem_map_of_mem hb))) _

end WorkflowDoc

end Enkaku
