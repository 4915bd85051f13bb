import Enkaku.Workflow.CleanDoc
import Enkaku.Workflow.LoopBound

/-!
# What a run can cost

The checker promises that a document without a loop is not published when its longest path does not
fit the time budget.  For a shuffle that path adds up every member once.  A member that is entered by
another edge than its shuffle's draw is executed once more, and control still goes back to the
shuffle: such a run can cost more than the longest path (`Retry.costs_more`).

Where members are only entered by draws, the longest path is a bound.  `Owes` is the most a run can
still cost: the longest path from where it is, or in a shuffle the members not drawn, the waits
between them and the longest way out.  `Paid` says that this and what the run has cost are within
the longest path from the entry; a turn keeps it (`Turn.paid`).
-/

set_option autoImplicit false

namespace Enkaku

open List

open WorkflowDoc WorkflowNode

open Digraph

/-! ## What the findings say -/

section

variable {doc : WorkflowDoc} {resolved : ResolvedScripts} {compiledParams : Value}
  {budget : Option Nat}

/-- Without a loop finding there is no cycle. -/
theorem cycleNode_of_checkWorkflow
    (h : ∀ f ∈ checkWorkflow doc resolved compiledParams budget, f.code ≠ .loop) :
    doc.cycleNode = none := by
  cases hcycle : doc.cycleNode with
  | none => rfl
  | some id =>
    have hloop : ∃ f ∈ loopFindings doc, f.code = .loop := by
      rw [loopFindings, hcycle]
      exact ⟨_, mem_singleton_self _, rfl⟩
    obtain ⟨f, hf, hcode⟩ := hloop
    refine absurd hcode (h f ?_)
    simp only [checkWorkflow, mem_append, hf, or_true, true_or]

/-- Without an error finding the longest run fits the budget, if every cost is known. -/
theorem worstCase_le_of_checkWorkflow {maxTotalMs : Nat} (hentry : doc.hasNode doc.entry = true)
    (hcycle : doc.cycleNode = none) (hknown : unknownNodes doc resolved = [])
    (h : ∀ f ∈ checkWorkflow doc resolved compiledParams (some maxTotalMs), f.severity ≠ .error) :
    doc.longestPathMs resolved doc.entry + (onFailCost doc resolved).getD 0 ≤ maxTotalMs := by
  by_contra hover
  have hfinding : ∃ f ∈ budgetFindings doc resolved (some maxTotalMs), f.severity = .error := by
    rw [budgetFindings, if_pos hentry, hknown]
    · dsimp only
      rw [if_pos (Nat.lt_of_not_le hover)]
      exact ⟨_, mem_singleton_self _, rfl⟩
    · exact hcycle
  obtain ⟨f, hf, herror⟩ := hfinding
  refine h f ?_ herror
  simp only [checkWorkflow, mem_append, hf, or_true, true_or]

end

/-! ## The declared cost of the rows -/

/-- The visit of a shuffle that drew a member. -/
def StepRow.drew (r : StepRow) : Bool := (r.takenEdge.bind Edge.member?).isSome

/-- A shuffle has drawn a member before. -/
def drewBefore (before : List StepRow) (id : String) : Bool :=
  before.any fun r ↦ r.stepId == id && r.drew

namespace WorkflowDoc

variable (doc : WorkflowDoc) (resolved : ResolvedScripts)

/-- The longest wait before a member of the shuffle with this id. -/
def betweenMaxMs (id : String) : Nat :=
  (((doc.node? id).bind (·.shuffle?)).map (·.betweenMaxMs)).getD 0

/-- The declared cost of one step: what its node costs, unless it was passed over, and for a shuffle
the wait before each member it draws after its first. -/
def stepCost (before : List StepRow) (r : StepRow) : Nat :=
  (if r.status = .skipped then 0 else doc.ownCost resolved r.stepId) +
    if r.drew && drewBefore before r.stepId then doc.betweenMaxMs r.stepId else 0

/-- The declared cost of rows that follow others. -/
def costAfter : List StepRow → List StepRow → Nat
  | _, [] => 0
  | before, r :: rows => doc.stepCost resolved before r + costAfter (before ++ [r]) rows

/-- The declared cost of the steps of a run. -/
def declaredCost (rows : List StepRow) : Nat := doc.costAfter resolved [] rows

variable {doc resolved}

theorem costAfter_append_singleton (before rows : List StepRow) (r : StepRow) :
    doc.costAfter resolved before (rows ++ [r]) =
      doc.costAfter resolved before rows + doc.stepCost resolved (before ++ rows) r := by
  induction rows generalizing before with
  | nil => simp [costAfter]
  | cons r' rows ih =>
    rw [cons_append, costAfter, costAfter, ih, append_assoc, singleton_append]
    omega

theorem declaredCost_append_singleton (rows : List StepRow) (r : StepRow) :
    doc.declaredCost resolved (rows ++ [r]) =
      doc.declaredCost resolved rows + doc.stepCost resolved rows r := by
  rw [declaredCost, declaredCost, costAfter_append_singleton, nil_append]

end WorkflowDoc

theorem drewBefore_append_singleton (rows : List StepRow) (r : StepRow) (id : String) :
    drewBefore (rows ++ [r]) id = (drewBefore rows id || (r.stepId == id && r.drew)) := by
  rw [drewBefore, any_append, any_cons, any_nil, Bool.or_false, drewBefore]

/-! ## What the longest path adds up -/

namespace WorkflowDoc

variable {doc : WorkflowDoc} {resolved : ResolvedScripts} {node member : WorkflowNode}
  {s : ShuffleNode} {l : List String} {a b m : String}

/-- Only the id of a shuffle has a span, and it is the shuffle's. -/
theorem Clean.shuffleSpan?_eq (h : doc.Clean) (hnode : doc.node? a = some node) :
    doc.shuffleSpan? a = node.shuffle?.map doc.spanOf := by
  have hmem := mem_of_node? hnode
  have hid := id_of_node? hnode
  cases hspan : doc.shuffleSpan? a with
  | some span =>
    obtain ⟨n, hn, s, hna, hbody, rfl⟩ := shuffle_of_span hspan
    rw [← h.node_unique hn hmem (hna.trans hid.symm), shuffle?, hbody]
    rfl
  | none =>
    cases hshuffle : node.shuffle? with
    | none => rfl
    | some s =>
      rw [shuffleSpan?, Option.bind_eq_none_iff] at hspan
      cases hfind : doc.nodes.reverse.find? fun n ↦ n.id = a ∧ n.shuffle?.isSome with
      | none =>
        refine absurd ?_ (find?_eq_none.mp hfind node (mem_reverse.mpr hmem))
        simp [hid, hshuffle]
      | some n =>
        have hn := mem_reverse.mp (mem_of_find?_eq_some hfind)
        have hsat := find?_some hfind
        have hna : n.id = a := (of_decide_eq_true hsat).1
        have hsame := hspan n hfind
        rw [h.node_unique hn hmem (hna.trans hid.symm), hshuffle] at hsame
        cases hsame

theorem ownCost_shuffle (hnode : doc.node? a = some node) (hbody : node.body = .step (.shuffle s)) :
    doc.ownCost resolved a = 0 := by
  rw [ownCost, costOf, hnode, Option.bind_some, nodeCostMs, hbody]
  rfl

section

variable (h : doc.Clean)
include h

section

variable (hnode : doc.node? a = some node)
include hnode

/-- The weight of a shuffle: every member once, and the waits between them. -/
theorem Clean.weight_shuffle
    (hbody : node.body = .step (.shuffle s)) :
    doc.weight resolved a = (s.members.map (doc.ownCost resolved)).sum +
      (s.members.length - 1) * s.betweenMaxMs := by
  have hspan : doc.shuffleSpan? a = some (doc.spanOf s) := by
    rw [h.shuffleSpan?_eq hnode, shuffle?, hbody]
    rfl
  rw [weight, hspan]
  dsimp only
  rw [ownCost_shuffle hnode hbody, Nat.zero_add]
  rfl

theorem Clean.nexts_shuffle
    (hbody : node.body = .step (.shuffle s)) : doc.nexts a = (doc.spanOf s).exits := by
  have hspan : doc.shuffleSpan? a = some (doc.spanOf s) := by
    rw [h.shuffleSpan?_eq hnode, shuffle?, hbody]
    rfl
  rw [nexts, hspan]

theorem Clean.shuffleSpan?_plain (hnot : node.shuffle? = none) : doc.shuffleSpan? a = none := by
  rw [h.shuffleSpan?_eq hnode, hnot]
  rfl

theorem Clean.weight_plain
    (hnot : node.shuffle? = none) : doc.weight resolved a = doc.ownCost resolved a := by
  rw [weight, h.shuffleSpan?_plain hnode hnot]

theorem Clean.nexts_plain (hnot : node.shuffle? = none) : doc.nexts a = doc.edges a := by
  rw [nexts, h.shuffleSpan?_plain hnode hnot]

end

/-- **A node costs at least what any node after it costs.** -/
theorem Clean.longestPathMs_le (htop : Topological doc.edges l) (hl : l ⊆ doc.ids)
    (ha : a ∈ l) (hb : b ∈ doc.edges a) :
    doc.longestPathMs resolved b ≤ doc.longestPathMs resolved a := by
  obtain ⟨hhas, node, hmem, hid, htarget⟩ := mem_edges.mp hb
  have hnode : doc.node? a = some node := by rw [← hid, h.node?_eq hmem]
  cases hshuffle : node.shuffle? with
  | none =>
    have hnext : b ∈ doc.nexts a := by rwa [h.nexts_plain hnode hshuffle]
    have hle := @weight_add_le_longestPathMs doc resolved l a b htop hl ha hnext
    omega
  | some s =>
    have hbody := body_of_shuffle hshuffle
    rcases mem_targets_shuffle hbody htarget with hm | hnext
    · -- A member goes on where its shuffle can be left for its failure.
      obtain ⟨member, hmember⟩ := exists_node? hhas
      have hmm := mem_members.mpr ⟨s, hbody, hm⟩
      obtain ⟨hnot, hexits⟩ := h.member_exits hmem hmm hmember
      have hbl : b ∈ l := htop.closed a ha hb
      have hrest : ((doc.nexts b).map (doc.longestPathMs resolved)).foldl max 0 ≤
          ((doc.nexts a).map (doc.longestPathMs resolved)).foldl max 0 := by
        refine foldl_max_le (Nat.zero_le _) fun n hn ↦ ?_
        obtain ⟨c, hc, rfl⟩ := mem_map.mp hn
        rw [h.nexts_plain hmember hnot] at hc
        obtain ⟨-, n, hn, hnid, hct⟩ := mem_edges.mp hc
        rw [h.node_unique hn (mem_of_node? hmember) (hnid.trans (id_of_node? hmember).symm)] at hct
        refine le_foldl_max (.inr (mem_map_of_mem ?_))
        rw [h.nexts_shuffle hnode hbody]
        exact mem_append_right _ (mem_filterMap.mpr ⟨b, hm, hexits c hct⟩)
      have hown : doc.ownCost resolved b ≤ doc.weight resolved a := by
        rw [h.weight_shuffle hnode hbody]
        exact Nat.le_add_right_of_le (single_le_sum (fun _ _ ↦ Nat.zero_le _) _
          (mem_map_of_mem hm))
      rw [longestPathMs_eq htop hl ha, longestPathMs_eq htop hl hbl, h.weight_plain hmember hnot]
      exact Nat.add_le_add hown hrest
    · have hexit : b ∈ doc.nexts a := by
        rw [h.nexts_shuffle hnode hbody]
        exact mem_append_left _ (by simp [hnext])
      have hle := @weight_add_le_longestPathMs doc resolved l a b htop hl ha hexit
      omega

theorem Clean.longestPathMs_le_of_reaches (htop : Topological doc.edges l)
    (hl : l ⊆ doc.ids) (ha : a ∈ l) (hreach : Reaches doc.edges a b) :
    doc.longestPathMs resolved b ≤ doc.longestPathMs resolved a := by
  induction hreach with
  | refl => exact le_rfl
  | tail hreach hedge ih =>
    exact (h.longestPathMs_le htop hl (Reaches.mem_of_closed hreach ha htop.closed) hedge).trans ih

end

end WorkflowDoc

/-! ## What a run still owes -/

namespace Walk

variable {deps : OrchestratorDeps} {w : WorkflowRun} {resolved : ResolvedScripts} {x y : Walk}
  {t : Tick} {ts : List Tick} {rows rows' l : List StepRow} {order : List String}
  {node : WorkflowNode} {n : StepNode} {s : ShuffleNode} {a b m : String}

/-- The most a shuffle can still cost: its members not drawn, a wait before each of them but the
first, and the longest way out. -/
def shuffleRest (w : WorkflowRun) (resolved : ResolvedScripts) (x : Walk) (rows : List StepRow)
    (node : WorkflowNode) (s : ShuffleNode) : Nat :=
  ((x.undoneOf node).map (w.doc.ownCost resolved)).sum +
    ((x.undoneOf node).length - if drewBefore rows node.id then 0 else 1) * s.betweenMaxMs +
    ((w.doc.spanOf s).exits.map (w.doc.longestPathMs resolved)).foldl max 0

/-- The most the rest of a run can cost, when it has written these rows; `order` holds the nodes the
checker has reached. -/
inductive Owes (w : WorkflowRun) (resolved : ResolvedScripts) (order : List String) (x : Walk)
    (rows : List StepRow) : Nat → Prop
  | ended (h : x.here w = none) : Owes w resolved order x rows 0
  | plain {a : String} {node : WorkflowNode} (h : x.here w = some a) (hin : a ∈ order)
      (hnode : w.doc.node? a = some node) (hnot : node.shuffle? = none)
      (hfree : w.doc.shuffleOwner a = none) :
      Owes w resolved order x rows (w.doc.longestPathMs resolved a)
  | shuffle {node : WorkflowNode} {s : ShuffleNode} (h : x.here w = some node.id)
      (hin : node.id ∈ order) (hnode : w.doc.node? node.id = some node)
      (hbody : node.body = .step (.shuffle s)) :
      Owes w resolved order x rows (x.shuffleRest w resolved rows node s)
  | member {a : String} {node : WorkflowNode} {s : ShuffleNode} (h : x.here w = some a)
      (hin : node.id ∈ order) (hnode : w.doc.node? node.id = some node)
      (hbody : node.body = .step (.shuffle s)) (hm : a ∈ node.members) :
      Owes w resolved order x rows
        (w.doc.ownCost resolved a + x.shuffleRest w resolved rows node s)

/-- What the run has cost, and the most it can still cost, are within `most`. -/
structure Paid (w : WorkflowRun) (resolved : ResolvedScripts) (order : List String) (most : Nat)
    (x : Walk) (rows : List StepRow) : Prop where
  /-- A shuffle that has drawn a member has marked one. -/
  marked : ∀ id, drewBefore rows id = true →
    ∃ node, w.doc.node? id = some node ∧ ∃ m ∈ node.members, m ∈ done x.shuffleDone id
  owes : ∃ rest, Owes w resolved order x rows rest ∧
    w.doc.declaredCost resolved rows + rest ≤ most

/-- What is left of a list without one of its members adds up to less by as much. -/
theorem add_sum_le_of_erase {all left : List String} (f : String → Nat) (hm : m ∈ all)
    (h : left.Sublist (all.erase m)) : f m + (left.map f).sum ≤ (all.map f).sum := by
  rw [← sum_map_erase f hm]
  exact Nat.add_le_add_left ((h.map _).sum_le_sum fun _ _ ↦ Nat.zero_le _) _

theorem sum_undoneOf_le (node : WorkflowNode) (f : String → Nat) :
    ((x.undoneOf node).map f).sum ≤ (node.members.map f).sum :=
  ((filter_sublist).map f).sum_le_sum fun _ _ ↦ Nat.zero_le _

/-- A shuffle just reached owes at most its longest path. -/
theorem shuffleRest_le (hclean : w.doc.Clean) (htop : Topological w.doc.edges order)
    (hsub : order ⊆ w.doc.ids) (hin : node.id ∈ order) (hnode : w.doc.node? node.id = some node)
    (hbody : node.body = .step (.shuffle s))
    (hmarked : drewBefore rows node.id = true →
      ∃ m ∈ node.members, m ∈ done x.shuffleDone node.id) :
    x.shuffleRest w resolved rows node s ≤ w.doc.longestPathMs resolved node.id := by
  have hmembers := members_of_body hbody
  have hsum := @sum_undoneOf_le x node (w.doc.ownCost resolved)
  have hwaits : (x.undoneOf node).length - (if drewBefore rows node.id then 0 else 1) ≤
      node.members.length - 1 := by
    have hle : (x.undoneOf node).length ≤ node.members.length := length_filter_le ..
    split_ifs with hdrew
    · obtain ⟨m, hm, hdone⟩ := hmarked hdrew
      have hlt : (x.undoneOf node).length < node.members.length := by
        refine lt_of_le_of_ne hle fun heq ↦ ?_
        have hall := length_filter_eq_length_iff.mp heq m hm
        exact of_decide_eq_true hall hdone
      omega
    · omega
  rw [shuffleRest, longestPathMs_eq htop hsub hin, hclean.weight_shuffle hnode hbody,
    hclean.nexts_shuffle hnode hbody, ← hmembers]
  have hbetween := Nat.mul_le_mul_right s.betweenMaxMs hwaits
  omega

/-- What is owed at a node just reached that is no member. -/
theorem owes_of_here (hclean : w.doc.Clean) (htop : Topological w.doc.edges order)
    (hsub : order ⊆ w.doc.ids) (hhere : x.here w = some b) (hin : b ∈ order)
    (hfree : w.doc.shuffleOwner b = none)
    (hmarked : ∀ id, drewBefore rows id = true →
      ∃ node, w.doc.node? id = some node ∧ ∃ m ∈ node.members, m ∈ done x.shuffleDone id) :
    ∃ rest, Owes w resolved order x rows rest ∧ rest ≤ w.doc.longestPathMs resolved b := by
  obtain ⟨node, hnode⟩ := exists_node? (here_eq_some.mp hhere).2.2
  cases hshuffle : node.shuffle? with
  | none => exact ⟨_, .plain hhere hin hnode hshuffle hfree, le_rfl⟩
  | some s =>
    obtain rfl := id_of_node? hnode
    have hbody := body_of_shuffle hshuffle
    refine ⟨_, .shuffle hhere hin hnode hbody, ?_⟩
    refine shuffleRest_le hclean htop hsub hin hnode hbody fun hdrew ↦ ?_
    obtain ⟨node', hnode', hm⟩ := hmarked _ hdrew
    rw [hnode] at hnode'
    cases hnode'
    exact hm

/-! ## A turn -/

/-- A member is only entered by its shuffle's draw: the turn that takes control to it marks it. -/
def EntersByDraw (w : WorkflowRun) (x y : Walk) : Prop :=
  ∀ m ∈ y.here w, ∀ shuffleId ∈ w.doc.shuffleOwner m,
    m ∉ done x.shuffleDone shuffleId ∧ m ∈ done y.shuffleDone shuffleId

instance (w : WorkflowRun) (x y : Walk) : Decidable (EntersByDraw w x y) :=
  inferInstanceAs (Decidable (∀ m ∈ y.here w, ∀ shuffleId ∈ w.doc.shuffleOwner m,
    m ∉ done x.shuffleDone shuffleId ∧ m ∈ done y.shuffleDone shuffleId))

theorem ownCost_le_of_owes {rest : Nat} (hclean : w.doc.Clean)
    (htop : Topological w.doc.edges order) (hsub : order ⊆ w.doc.ids) (ha : x.here w = some a)
    (h : Owes w resolved order x rows rest) : w.doc.ownCost resolved a ≤ rest := by
  cases h with
  | ended hnone => exact nomatch ha.symm.trans hnone
  | @plain a' node h hin hnode hnot hfree =>
    cases ha.symm.trans h
    rw [← hclean.weight_plain hnode hnot]
    exact weight_le_longestPathMs htop hsub hin
  | shuffle h hin hnode hbody =>
    cases ha.symm.trans h
    rw [ownCost_shuffle hnode hbody]
    exact Nat.zero_le _
  | member h =>
    cases ha.symm.trans h
    exact Nat.le_add_right ..

/-- An exit is paid for. -/
theorem exit_of_owes {rest : Nat} (hclean : w.doc.Clean) (htop : Topological w.doc.edges order)
    (hsub : order ⊆ w.doc.ids) (ha : x.here w = some a) (hnode : w.doc.node? a = some node)
    (hb : b ∈ node.exits) (hhas : w.doc.hasNode b = true) (h : Owes w resolved order x rows rest) :
    b ∈ order ∧ w.doc.ownCost resolved a + w.doc.longestPathMs resolved b ≤ rest := by
  have hedge : b ∈ w.doc.edges a := mem_edges.mpr
    ⟨hhas, node, mem_of_node? hnode, id_of_node? hnode, node.exits_subset hb⟩
  cases h with
  | ended hnone => exact nomatch ha.symm.trans hnone
  | @plain a' node' h hin hnode' hnot hfree =>
    cases ha.symm.trans h
    refine ⟨htop.closed a hin hedge, ?_⟩
    rw [← hclean.weight_plain hnode' hnot]
    refine weight_add_le_longestPathMs htop hsub hin ?_
    rwa [hclean.nexts_plain hnode' hnot]
  | @shuffle node' s h hin hnode' hbody =>
    cases ha.symm.trans h
    cases hnode.symm.trans hnode'
    refine ⟨htop.closed _ hin hedge, ?_⟩
    rw [ownCost_shuffle hnode hbody, Nat.zero_add]
    refine Nat.le_trans (le_foldl_max (.inr (mem_map_of_mem ?_)))
      (Nat.le_add_left ..)
    rw [exits, hbody] at hb
    exact mem_append_left _ hb
  | @member a' node' s h hin hnode' hbody hm =>
    cases ha.symm.trans h
    obtain ⟨-, hfails⟩ := hclean.member_exits (mem_of_node? hnode') hm hnode
    have hms : a ∈ s.members := by rwa [← members_of_body hbody]
    have hain : a ∈ order := htop.closed _ hin (mem_edges.mpr
      ⟨hasNode_of_node? hnode, node', mem_of_node? hnode', rfl, node'.members_subset hm⟩)
    refine ⟨htop.closed a hain hedge, Nat.add_le_add_left ?_ _⟩
    refine Nat.le_trans (le_foldl_max (.inr (mem_map_of_mem ?_)))
      (Nat.le_add_left ..)
    exact mem_append_right _
      (mem_filterMap.mpr ⟨a, hms, hfails b (node.exits_subset hb)⟩)

variable {most : Nat}

/-- A turn that draws no member. -/
theorem Paid.go_on (h : Paid w resolved order most x rows) (hclean : w.doc.Clean)
    (htop : Topological w.doc.edges order) (hsub : order ⊆ w.doc.ids) (ha : x.here w = some a)
    (hnode : w.doc.node? a = some node) (hdone : y.shuffleDone = x.shuffleDone)
    (hcost : w.doc.declaredCost resolved rows' ≤
      w.doc.declaredCost resolved rows + w.doc.ownCost resolved a)
    (hdrew : ∀ id, drewBefore rows' id = drewBefore rows id) (henters : EntersByDraw w x y)
    (hgo : ∀ b, y.here w = some b →
      b ∈ node.exits ∨ (node.shuffle? = none ∧ w.doc.shuffleOwner a = some b)) :
    Paid w resolved order most y rows' := by
  have hmarked : ∀ id, drewBefore rows' id = true →
      ∃ node, w.doc.node? id = some node ∧ ∃ m ∈ node.members, m ∈ done y.shuffleDone id := by
    intro id hid
    rw [hdrew] at hid
    rw [hdone]
    exact h.marked id hid
  refine ⟨hmarked, ?_⟩
  obtain ⟨rest, howes, hle⟩ := h.owes
  cases hy : y.here w with
  | none =>
    have hown := ownCost_le_of_owes hclean htop hsub ha howes
    exact ⟨0, .ended hy, by omega⟩
  | some b =>
    have hfree : w.doc.shuffleOwner b = none := by
      cases howner : w.doc.shuffleOwner b with
      | none => rfl
      | some shuffleId =>
        obtain ⟨hnew, hmark⟩ := henters b hy shuffleId howner
        rw [hdone] at hmark
        exact absurd hmark hnew
    rcases hgo b hy with hexit | ⟨hnot, howner⟩
    · obtain ⟨hin, hpays⟩ :=
        exit_of_owes hclean htop hsub ha hnode hexit (here_eq_some.mp hy).2.2 howes
      obtain ⟨rest', howes', hrest⟩ := owes_of_here hclean htop hsub hy hin hfree hmarked
      exact ⟨rest', howes', by omega⟩
    · cases howes with
      | ended hnone => cases ha.symm.trans hnone
      | plain h' _ _ _ hfree' =>
        cases ha.symm.trans h'
        cases howner.symm.trans hfree'
      | shuffle h' _ hnode' hbody =>
        cases ha.symm.trans h'
        cases hnode.symm.trans hnode'
        rw [shuffle?, hbody] at hnot
        cases hnot
      | @member a' shuffle s h' hin hnode' hbody hm =>
        cases ha.symm.trans h'
        have hid := hclean.shuffleOwner_eq (mem_of_node? hnode') hm
        cases hid.symm.trans howner
        have hsame : y.shuffleRest w resolved rows' shuffle s =
            x.shuffleRest w resolved rows shuffle s := by
          rw [shuffleRest, shuffleRest, undoneOf, undoneOf, hdone, hdrew]
        refine ⟨_, .shuffle hy hin hnode' hbody, ?_⟩
        rw [hsame]
        omega

/-- A draw pays for the member and the wait before it. -/
theorem Paid.draw (h : Paid w resolved order most x rows) (hclean : w.doc.Clean) {r : StepRow}
    (ha : x.here w = some node.id) (hnode : w.doc.node? node.id = some node)
    (hbody : node.body = .step (.shuffle s)) (hm : m ∈ node.members)
    (hnew : m ∉ done x.shuffleDone node.id) (hmark : m ∈ done y.shuffleDone node.id)
    (hkeep : ∀ id m, m ∈ done x.shuffleDone id → m ∈ done y.shuffleDone id)
    (hid : r.stepId = node.id) (hr : r.drew = true) (hy : y.here w = some m) :
    Paid w resolved order most y (rows ++ [r]) := by
  have hdrew : drewBefore (rows ++ [r]) node.id = true := by
    rw [drewBefore_append_singleton, hid, hr]
    simp
  refine ⟨fun id hbefore ↦ ?_, ?_⟩
  · rw [drewBefore_append_singleton, Bool.or_eq_true] at hbefore
    rcases hbefore with hold | hthis
    · obtain ⟨node', hnode', m', hm', hdone'⟩ := h.marked id hold
      exact ⟨node', hnode', m', hm', hkeep id m' hdone'⟩
    · rw [Bool.and_eq_true, beq_iff_eq, hid] at hthis
      obtain rfl := hthis.1
      exact ⟨node, hnode, m, hm, hmark⟩
  obtain ⟨rest, howes, hle⟩ := h.owes
  have hcost : w.doc.declaredCost resolved (rows ++ [r]) = w.doc.declaredCost resolved rows +
      if drewBefore rows node.id then s.betweenMaxMs else 0 := by
    have hbetween : w.doc.betweenMaxMs node.id = s.betweenMaxMs := by
      rw [betweenMaxMs, hnode, Option.bind_some, shuffle?, hbody]
      rfl
    rw [declaredCost_append_singleton, stepCost, hid,
      ownCost_shuffle hnode hbody, hr, hbetween, Bool.true_and, ite_self, Nat.zero_add]
  cases howes with
  | ended hnone => cases ha.symm.trans hnone
  | plain h' _ hnode' hnot =>
    cases ha.symm.trans h'
    cases hnode.symm.trans hnode'
    rw [shuffle?, hbody] at hnot
    cases hnot
  | member h' _ hnode' _ hmember =>
    cases ha.symm.trans h'
    have hnot := (hclean.member_exits (mem_of_node? hnode') hmember hnode).1
    rw [shuffle?, hbody] at hnot
    cases hnot
  | @shuffle node' s' h' hin hnode' hbody' =>
    have hsame := (Option.some.inj (ha.symm.trans h')).symm
    rw [hsame, hnode] at hnode'
    cases hnode'
    rw [hbody] at hbody'
    obtain rfl := StepNode.shuffle.inj (NodeBody.step.inj hbody')
    refine ⟨_, .member hy hin hnode hbody hm, ?_⟩
    have hmem : m ∈ x.undoneOf node := mem_filter.mpr ⟨hm, decide_eq_true hnew⟩
    have hless : (y.undoneOf node).Sublist ((x.undoneOf node).erase m) := by
      have hgone : m ∉ y.undoneOf node := fun hin' ↦
        of_decide_eq_true (mem_filter.mp hin').2 hmark
      have hsub := (@undoneOf_sublist x y node hkeep).erase m
      rwa [erase_of_not_mem hgone] at hsub
    have hsum := add_sum_le_of_erase (w.doc.ownCost resolved) hmem hless
    have hlength : (y.undoneOf node).length ≤ (x.undoneOf node).length - 1 := by
      rw [← length_erase_of_mem hmem]
      exact hless.length_le
    have hpos : 0 < (x.undoneOf node).length := length_pos_of_mem hmem
    have hwaits : (if drewBefore rows node.id then s.betweenMaxMs else 0) +
        (y.undoneOf node).length * s.betweenMaxMs ≤
        ((x.undoneOf node).length - if drewBefore rows node.id then 0 else 1) * s.betweenMaxMs := by
      split_ifs
      · calc s.betweenMaxMs + (y.undoneOf node).length * s.betweenMaxMs
            = ((y.undoneOf node).length + 1) * s.betweenMaxMs := by
              rw [Nat.add_one_mul, Nat.add_comm]
          _ ≤ ((x.undoneOf node).length - 0) * s.betweenMaxMs :=
              Nat.mul_le_mul_right _ (by omega)
      · rw [Nat.zero_add]
        exact Nat.mul_le_mul_right _ hlength
    rw [hcost, shuffleRest, hdrew, if_pos rfl, Nat.sub_zero]
    rw [shuffleRest] at hle
    omega

/-- What handling does with the members: the visit of a shuffle marks the one it draws, and whatever
else leads to a member marks none. -/
theorem handle_member {hd : Handled} (hbody : node.body = .step n)
    (h : handle deps w x node n t = .ok hd) :
    (∃ s seed, n = .shuffle s ∧
      hd.takenEdge = some (computeShuffleStep s (done x.shuffleDone node.id) seed
        w.doc.isEnabled).takenEdge ∧
      hd.shuffled = hd.takenEdge ∧ hd.goto = hd.takenEdge.bind (w.doc.advance node)) ∨
    (hd.shuffled = none ∧ ∀ m, hd.takenEdge = some (.member m) →
      m ∈ node.members ∧ hd.goto = some m) := by
  cases hpin : OrdMap.get? node.id (w.activePins deps) with
  | none =>
    rcases handle_draw hpin h with ⟨s, seed, hs, hedge, hshuffled, -, hgoto⟩ | ⟨-, hnone, hnot⟩
    · exact .inl ⟨s, seed, hs, hedge, hshuffled, hgoto⟩
    · exact .inr ⟨hnone, fun m hm ↦ absurd hm (hnot m)⟩
  | some pinned =>
    unfold handle at h
    rw [hpin] at h
    cases h
    refine .inr ⟨rfl, fun m hm ↦ ?_⟩
    have hdefault : defaultEdgeFor n = .member m := Option.some.inj hm
    cases n with
    | shuffle s =>
      have hms : m ∈ s.members := by
        rw [defaultEdgeFor] at hdefault
        split at hdefault
        · exact nomatch hdefault
        · next first rest hmembers =>
          rw [hmembers, show first = m from Edge.member.inj hdefault]
          exact .head _
      refine ⟨mem_members.mpr ⟨s, hbody, hms⟩, ?_⟩
      show w.doc.advance node (defaultEdgeFor (.shuffle s)) = some m
      rw [hdefault]
      exact advance_member hbody hms
    | gate n | switch n =>
      rw [defaultEdgeFor] at hdefault
      split at hdefault <;> exact nomatch hdefault
    | script | delay | set => exact nomatch hdefault

theorem declaredCost_append_le (r : StepRow) (hr : r.drew = false) :
    w.doc.declaredCost resolved (rows ++ [r]) ≤
      w.doc.declaredCost resolved rows + w.doc.ownCost resolved r.stepId := by
  rw [declaredCost_append_singleton, stepCost, hr]
  split <;> simp

theorem drewBefore_append_of_not {r : StepRow} (hr : r.drew = false) (id : String) :
    drewBefore (rows ++ [r]) id = drewBefore rows id := by
  rw [drewBefore_append_singleton, hr, Bool.and_false, Bool.or_false]

/-- **A turn is paid for**, when members are only entered by draws. -/
theorem Turn.paid (hturn : Turn deps w x t y) (hclean : w.doc.Clean)
    (htop : Topological w.doc.edges order) (hsub : order ⊆ w.doc.ids)
    (henters : EntersByDraw w x y) (h : Paid w resolved order most x rows) :
    ∃ new, y.rows = x.rows ++ new ∧ Paid w resolved order most y (rows ++ new) := by
  -- A turn that ends the loop and writes nothing.
  have hends : y.here w = none → y.rows = x.rows → y.shuffleDone = x.shuffleDone →
      ∃ new, y.rows = x.rows ++ new ∧ Paid w resolved order most y (rows ++ new) := by
    intro hy hrows hdone
    obtain ⟨rest, -, hle⟩ := h.owes
    refine ⟨[], by rw [hrows, append_nil], ?_⟩
    rw [append_nil]
    refine ⟨fun id hid ↦ ?_, 0, .ended hy, by omega⟩
    rw [hdone]
    exact h.marked id hid
  -- A turn that writes one row, which draws nothing.
  have hwrites : ∀ {node : WorkflowNode} {r : StepRow}, x.At w node → r.stepId = node.id →
      r.drew = false → y.rows = x.rows ++ [r] → y.shuffleDone = x.shuffleDone →
      (∀ b, y.here w = some b → b ∈ node.exits ∨
        (node.shuffle? = none ∧ w.doc.shuffleOwner node.id = some b)) →
      ∃ new, y.rows = x.rows ++ new ∧ Paid w resolved order most y (rows ++ new) := by
    intro node r hat hid hr hrows hdone hgo
    have hcost := @declaredCost_append_le w resolved rows r hr
    rw [hid] at hcost
    exact ⟨[r], hrows, h.go_on hclean htop hsub hat.here hat.node hdone hcost
      (drewBefore_append_of_not hr) henters hgo⟩
  have hleads : ∀ {node : WorkflowNode} {edge : Option Edge} {b : String},
      Leads w.doc node edge b → edge ≠ some (.member b) → b ∈ node.exits ∨
        (node.shuffle? = none ∧ w.doc.shuffleOwner node.id = some b) := by
    intro node edge b hleads hnot
    cases hleads with
    | exit hexit => exact .inl hexit
    | draw _ hedge => exact absurd hedge hnot
    | back hnone howner => exact .inr ⟨hnone, howner⟩
  cases hturn with
  | idle => exact ⟨[], by rw [append_nil], by rwa [append_nil]⟩
  | caught => exact hends (here_of_threw rfl) rfl rfl
  | failed => exact hends (here_of_cursor rfl) rfl rfl
  | @passed node next hat hbody =>
    refine ⟨[], by rw [append_nil], ?_⟩
    rw [append_nil]
    refine h.go_on hclean htop hsub hat.here hat.node rfl (Nat.le_add_right ..) (fun _ ↦ rfl)
      henters fun b hb ↦ ?_
    have hnext : next = some b := (here_eq_some.mp hb).2.1
    left
    simp [exits, targets, edgeFields, hbody, hnext]
  | @finished _ status => cases status <;> exact hends (here_of_cursor rfl) rfl rfl
  | refused _ _ _ _ _ x' hx' =>
    rcases hx' with rfl | rfl <;> exact hends (here_of_threw rfl) rfl rfl
  | skipped hat hbody =>
    refine hwrites hat rfl rfl rfl rfl fun b hb ↦ @hleads _ (some .next) b ?_ (by simp)
    exact leads_of_advance hbody (here_eq_some.mp hb).2.1
  | threw hat hbody =>
    refine hwrites hat rfl rfl rfl rfl fun b hb ↦ ?_
    rw [here_of_threw rfl] at hb
    cases hb
  | @executed node n hat hbody hon hkey hd hh =>
    have hgo : ∀ b, (x.executed deps w node n t hd).here w = some b → hd.goto = some b :=
      fun b hb ↦ (here_eq_some.mp hb).2.1
    have hmarks : ∀ id m, m ∈ done (x.executed deps w node n t hd).shuffleDone id ↔
        m ∈ done x.shuffleDone id ∨ (node.id = id ∧ hd.shuffled.bind Edge.member? = some m) :=
      fun id m ↦ mem_done_markShuffled
    by_cases hdraws : ∃ m, hd.takenEdge = some (.member m)
    · obtain ⟨m, hm⟩ := hdraws
      have hmem := mem_of_node? hat.node
      -- Control is at the member drawn, and its shuffle has marked it now.
      have hdrawn : hd.goto = some m → m ∈ node.members →
          (x.executed deps w node n t hd).here w = some m ∧
            m ∉ done x.shuffleDone node.id ∧
            m ∈ done (x.executed deps w node n t hd).shuffleDone node.id := by
        intro hgoto hmember
        have hhere : (x.executed deps w node n t hd).here w = some m :=
          here_eq_some.mpr ⟨hat.threw, hgoto,
            hclean.hasNode_of_target hmem (node.members_subset hmember)⟩
        exact ⟨hhere, henters m hhere node.id (hclean.shuffleOwner_eq hmem hmember)⟩
      rcases handle_member hbody hh with ⟨s, seed, rfl, hedge, hshuffled, hgoto⟩ | ⟨hnone, hleadsTo⟩
      · rw [hm] at hedge hgoto
        have hchosen := takenEdge_eq_member.mp (Option.some.inj hedge).symm
        obtain ⟨hms, -⟩ := mem_remaining.mp (mem_remaining_of_chosen hchosen)
        have hmember := mem_members.mpr ⟨s, hbody, hms⟩
        have hto : hd.goto = some m := hgoto.trans (advance_member hbody hms)
        obtain ⟨hhere, hnew, hmark⟩ := hdrawn hto hmember
        refine ⟨_, rfl, h.draw hclean hat.here hat.node hbody hmember hnew hmark
          (fun id m' hm' ↦ (hmarks id m').mpr (.inl hm')) rfl ?_ hhere⟩
        show (hd.takenEdge.bind Edge.member?).isSome = true
        rw [hm]
        rfl
      · obtain ⟨hmember, hto⟩ := hleadsTo m hm
        obtain ⟨-, hnew, hmark⟩ := hdrawn hto hmember
        rw [hmarks, hnone] at hmark
        exact absurd (hmark.resolve_right (by simp)) hnew
    · have hdone : (x.executed deps w node n t hd).shuffleDone = x.shuffleDone := by
        have hunmarked : hd.shuffled.bind Edge.member? = none := by
          rcases handle_member hbody hh with ⟨s, seed, -, hedge, hshuffled, -⟩ | ⟨hnone, -⟩
          · rw [hshuffled, hedge, Option.bind_some, ShuffleStepResult.takenEdge]
            split
            · next m hchosen =>
              refine absurd ⟨m, ?_⟩ hdraws
              rw [hedge, ShuffleStepResult.takenEdge, hchosen]
            · rfl
          · rw [hnone]
            rfl
        show markShuffled x.shuffleDone node.id hd.shuffled = _
        rw [markShuffled, hunmarked]
      have hnot : (handledRow hd t (x.runningRow deps w node n t)).drew = false := by
        show (hd.takenEdge.bind Edge.member?).isSome = false
        cases hedge : hd.takenEdge with
        | none => rfl
        | some edge =>
          cases edge with
          | member m => exact absurd ⟨m, hedge⟩ hdraws
          | _ => rfl
      refine hwrites hat rfl hnot rfl hdone fun b hb ↦ ?_
      exact hleads (handle_leads hbody hh (hgo b hb)) fun hedge ↦ hdraws ⟨b, hedge⟩

/-! ## A run -/

/-- In every turn of the run members are only entered by draws. -/
def EnteredByDraws (deps : OrchestratorDeps) (w : WorkflowRun) : Walk → List Tick → Prop
  | _, [] => True
  | x, t :: ts => EntersByDraw w x (x.iterate deps w t) ∧
      EnteredByDraws deps w (x.iterate deps w t) ts

instance decEnteredByDraws (deps : OrchestratorDeps) (w : WorkflowRun) :
    (x : Walk) → (ts : List Tick) → Decidable (EnteredByDraws deps w x ts)
  | _, [] => .isTrue trivial
  | x, t :: ts => @instDecidableAnd _ _ _ (decEnteredByDraws deps w (x.iterate deps w t) ts)

/-- The loop starts at a node the entry leads to, and at no member that its shuffle has not marked. -/
structure Starts (w : WorkflowRun) (x : Walk) : Prop where
  reached : ∀ c, x.here w = some c → Reaches w.doc.edges w.doc.entry c
  member : ∀ c shuffleId, x.here w = some c → w.doc.shuffleOwner c = some shuffleId →
    c ∈ done x.shuffleDone shuffleId ∧ Reaches w.doc.edges w.doc.entry shuffleId

/-- A run that is no resume starts at the entry. -/
theorem starts_of_fresh (hclean : w.doc.Clean) (hfresh : w.resumeFrom? = none) (now : Int) :
    (w.setup now rows).Starts w := by
  have hcursor : ∀ c, (w.setup now rows).here w = some c → c = w.doc.entry := by
    intro c hc
    have h := (here_eq_some.mp hc).2.1
    rw [WorkflowRun.setup, hfresh] at h
    exact (Option.some.inj h).symm
  refine ⟨fun c hc ↦ hcursor c hc ▸ .refl, fun c shuffleId hc howner ↦ ?_⟩
  obtain rfl := hcursor c hc
  -- The entry is a `start` node, so it is no member.
  obtain ⟨first, hfirst, hid, hstart⟩ := start_of_schema hclean.schema
  obtain ⟨a, ha, -, hm⟩ := mem_members_of_owner howner
  have hnode := hclean.node?_eq hfirst
  rw [hid] at hnode
  obtain ⟨n, hbody⟩ := hclean.member_step ha hm hnode
  rw [isStart, hbody] at hstart
  cases hstart

/-- A loop that starts so owes at most the longest path from the entry. -/
theorem Starts.paid (h : x.Starts w) (hclean : w.doc.Clean) (htop : Topological w.doc.edges order)
    (hsub : order ⊆ w.doc.ids) (hentry : w.doc.entry ∈ order) :
    Paid w resolved order (w.doc.longestPathMs resolved w.doc.entry) x [] := by
  have hmarked : ∀ id, drewBefore [] id = true →
      ∃ node, w.doc.node? id = some node ∧ ∃ m ∈ node.members, m ∈ done x.shuffleDone id :=
    fun id hid ↦ nomatch hid
  refine ⟨hmarked, ?_⟩
  rw [declaredCost, costAfter]
  simp only [Nat.zero_add]
  cases hx : x.here w with
  | none => exact ⟨0, .ended hx, Nat.zero_le _⟩
  | some c =>
    cases howner : w.doc.shuffleOwner c with
    | none =>
      have hreach := h.reached c hx
      obtain ⟨rest, howes, hle⟩ := @owes_of_here w resolved x [] order c hclean htop hsub hx
        (Reaches.mem_of_closed hreach hentry htop.closed) howner hmarked
      exact ⟨rest, howes, hle.trans (hclean.longestPathMs_le_of_reaches htop hsub hentry hreach)⟩
    | some shuffleId =>
      obtain ⟨hdone, hreach⟩ := h.member c shuffleId hx howner
      obtain ⟨node, hmem, rfl, hm⟩ := mem_members_of_owner howner
      obtain ⟨s, hbody, -⟩ := mem_members.mp hm
      have hnode := hclean.node?_eq hmem
      have hin := Reaches.mem_of_closed hreach hentry htop.closed
      refine ⟨_, .member hx hin hnode hbody hm, ?_⟩
      refine le_trans ?_ (hclean.longestPathMs_le_of_reaches htop hsub hentry hreach)
      have hmembers := members_of_body hbody
      rw [shuffleRest, longestPathMs_eq htop hsub hin,
        hclean.weight_shuffle hnode hbody, hclean.nexts_shuffle hnode hbody, ← hmembers]
      have hless : (x.undoneOf node).Sublist (node.members.erase c) := by
        have hgone : c ∉ x.undoneOf node := fun hin' ↦
          of_decide_eq_true (mem_filter.mp hin').2 hdone
        have hsub' : ((x.undoneOf node).erase c).Sublist (node.members.erase c) :=
          filter_sublist.erase c
        rwa [erase_of_not_mem hgone] at hsub'
      have hsum := add_sum_le_of_erase (w.doc.ownCost resolved) hm hless
      have hlength : (x.undoneOf node).length - (if drewBefore [] node.id then 0 else 1) ≤
          node.members.length - 1 := by
        rw [← length_erase_of_mem hm]
        exact (Nat.sub_le ..).trans hless.length_le
      have hwaits := Nat.mul_le_mul_right s.betweenMaxMs hlength
      omega

theorem Paid.iterates {most : Nat} (hclean : w.doc.Clean) (htop : Topological w.doc.edges order)
    (hsub : order ⊆ w.doc.ids) (hdraws : EnteredByDraws deps w x ts)
    (h : Paid w resolved order most x rows) :
    ∃ new, (x.iterates deps w ts).rows = x.rows ++ new ∧
      Paid w resolved order most (x.iterates deps w ts) (rows ++ new) := by
  induction ts generalizing x rows with
  | nil => exact ⟨[], (append_nil _).symm, by rwa [append_nil]⟩
  | cons t ts ih =>
    obtain ⟨henters, hdraws⟩ := hdraws
    obtain ⟨new, hnew, hpaid⟩ := (turn_iterate deps w x t).paid hclean htop hsub henters h
    obtain ⟨more, hmore, hpaid⟩ := ih hdraws hpaid
    refine ⟨new ++ more, ?_, ?_⟩
    · rw [← append_assoc, ← hnew]
      exact hmore
    · rw [← append_assoc]
      exact hpaid

/-- The declared cost of the steps the loop has executed, from the rows it has written. -/
def cost (deps : OrchestratorDeps) (w : WorkflowRun) (resolved : ResolvedScripts) (x : Walk)
    (ts : List Tick) : Nat :=
  w.doc.declaredCost resolved ((x.iterates deps w ts).rows.drop x.rows.length)

/-- **The longest path is a bound**, for every run in which members are only entered by draws, of a
document without an error or a loop finding.  So what a run costs, its cleanup with it, fits a budget
the checker has compared the longest path with. -/
theorem cost_le_longestPathMs {compiledParams : Value} {budget : Option Nat}
    (hschema : w.doc.schemaIssues = [])
    (hcheck : ∀ f ∈ checkWorkflow w.doc resolved compiledParams budget,
      f.severity ≠ .error ∧ f.code ≠ .loop)
    (now : Int) (hstart : (w.setup now rows).Starts w)
    (hdraws : EnteredByDraws deps w (w.setup now rows) ts) :
    (w.setup now rows).cost deps w resolved ts ≤ w.doc.longestPathMs resolved w.doc.entry ∧
      ∀ maxTotalMs, budget = some maxTotalMs → unknownNodes w.doc resolved = [] →
        (w.setup now rows).cost deps w resolved ts + (onFailCost w.doc resolved).getD 0 ≤
          maxTotalMs := by
  have hclean := clean_of_checkWorkflow hschema fun f hf ↦ (hcheck f hf).1
  have hcycle := cycleNode_of_checkWorkflow fun f hf ↦ (hcheck f hf).2
  obtain ⟨first, hfirst, hid, -⟩ := start_of_schema hschema
  have hentry := hasNode_iff.mpr ⟨first, hfirst, hid⟩
  obtain ⟨order, htop, hin, hsub⟩ := topological_of_cycleNode hentry hcycle
  have hpaid := @Starts.paid w resolved _ order hstart hclean htop hsub hin
  obtain ⟨new, hnew, ⟨-, rest, -, hle⟩⟩ := hpaid.iterates hclean htop hsub hdraws
  have hcost : (w.setup now rows).cost deps w resolved ts ≤
      w.doc.longestPathMs resolved w.doc.entry := by
    rw [cost, hnew, drop_left]
    exact (Nat.le_add_right ..).trans hle
  refine ⟨hcost, fun maxTotalMs hbudget hknown ↦ ?_⟩
  subst hbudget
  have hworst := worstCase_le_of_checkWorkflow hentry hcycle hknown fun f hf ↦ (hcheck f hf).1
  omega

end Walk

/-! ## A member that is run again -/

namespace Retry

/-- Control leaves `like` for `follow` when `like` fails; both are members of `warmup`. -/
def doc : WorkflowDoc where
  name := "flow"
  params := []
  entry := "start"
  nodes :=
    [⟨"start", true, .start (some "warmup")⟩,
      ⟨"warmup", true,
        .step (.shuffle ⟨["like", "follow"], .const (.num 0), 0, false, some "share"⟩)⟩,
      ⟨"like", true, .step (.script ⟨"like@1", [], none, some "follow"⟩)⟩,
      ⟨"follow", true, .step (.script ⟨"follow@1", [], none, none⟩)⟩,
      ⟨"share", true, .step (.script ⟨"share@1", [], none, none⟩)⟩]
  maxSteps := 50
  onFail := none

/-- Every script may take a second. -/
def scripts : ResolvedScripts := fun _ ↦ some ⟨none, none, some 1000⟩

def run : WorkflowRun :=
  Bare.workflow doc (Bare.run "run" { trigger := .schedule, seed := some 3 })

/-- `like` is drawn first. -/
def ticks (like : Tick) : List Tick :=
  [Bare.tick .null, Bare.tick .null, like] ++ List.replicate 5 (Bare.tick .null)

theorem silent : ∀ f ∈ checkWorkflow doc scripts (.obj []) (some 3500),
    f.severity ≠ .error ∧ f.code ≠ .loop := by decide

/-- **A run that costs more than the longest path.**  `like` fails, so `follow` is run for it and then
again for the shuffle: four seconds, where the longest path is three and the budget three and a
half. -/
theorem costs_more :
    doc.schemaIssues = [] ∧
      (∀ f ∈ checkWorkflow doc scripts (.obj []) (some 3500), f.severity ≠ .error ∧ f.code ≠ .loop) ∧
      unknownNodes doc scripts = [] ∧ doc.longestPathMs scripts doc.entry = 3000 ∧
      (run.setup 0 []).cost Bare.deps run scripts (ticks TwoMembers.fails) = 4000 :=
  ⟨rfl, silent, by decide, by decide, by decide +kernel⟩

/-- Where `like` succeeds the longest path is a bound. -/
theorem costs_no_more :
    (run.setup 0 []).cost Bare.deps run scripts (ticks (Bare.tick .null)) ≤
        run.doc.longestPathMs scripts run.doc.entry ∧
      ∀ maxTotalMs, some 3500 = some maxTotalMs → unknownNodes run.doc scripts = [] →
        (run.setup 0 []).cost Bare.deps run scripts (ticks (Bare.tick .null)) +
          (onFailCost run.doc scripts).getD 0 ≤ maxTotalMs := by
  have hclean : run.doc.Clean := clean_of_checkWorkflow rfl fun f hf ↦ (silent f hf).1
  have hdraws : Walk.EnteredByDraws Bare.deps run (run.setup 0 []) (ticks (Bare.tick .null)) := by
    decide +kernel
  exact Walk.cost_le_longestPathMs hclean.schema silent 0 (Walk.starts_of_fresh hclean rfl 0) hdraws

end Retry

end Enkaku
