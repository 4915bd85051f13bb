import Enkaku.Workflow.Upgrade
import Mathlib.Data.Nat.Find

/-!
# The runs of an upgraded document

When an upgraded document does what the v1 document did.  The walk through it is one node behind,
since it starts at the added `start` node; apart from that the two walks agree for as long as no
node *slips* (`WorkflowDocV1.Slips`), and part for good where the first one does.

A node slips in two ways.  A script that fails and is to stop the run successfully is given the edge
to the `finish` node of the successful runs, and that node is there only if some gate asks for it;
without it the edge dangles, and a dangling `onFailure` fails the run.  And a `goto` to a node that
is not there may by chance name one that is added.
-/

set_option autoImplicit false

namespace Enkaku

open List

open WorkflowDoc

namespace WorkflowDoc

variable {doc : WorkflowDoc} {results : NodeResults}

/-! ## Ended walks -/

/-- A walk that has ended stays where it is. -/
theorem walk_of_ended {n m : Nat} {how : WalkEnd} (h : (doc.walk results n).cursor = .ended how)
    (hle : n ≤ m) : doc.walk results m = doc.walk results n := by
  induction m, hle using Nat.le_induction with
  | base => rfl
  | succ m _ ih => rw [walk, ih, walkStep, h]

theorem eq_of_ended {n m : Nat} {how other : WalkEnd} (hn : (doc.walk results n).cursor = .ended how)
    (hm : (doc.walk results m).cursor = .ended other) : doc.walk results n = doc.walk results m := by
  rcases Nat.le_total n m with hle | hle
  · exact (walk_of_ended hn hle).symm
  · exact walk_of_ended hm hle

theorem visited_prefix {n m : Nat} (h : n ≤ m) :
    (doc.walk results n).visited <+: (doc.walk results m).visited := by
  induction m, h using Nat.le_induction with
  | base => exact prefix_rfl
  | succ m _ ih =>
    refine ih.trans ?_
    rw [walk, walkStep]
    split
    · exact prefix_rfl
    · split
      · exact prefix_rfl
      · exact prefix_append _ _
      · exact prefix_append _ _
      · exact prefix_rfl

/-- Whatever a walk visits, it has visited when it ends. -/
theorem visited_prefix_of_ended {n : Nat} {how : WalkEnd}
    (h : (doc.walk results n).cursor = .ended how) (m : Nat) :
    (doc.walk results m).visited <+: (doc.walk results n).visited := by
  rcases Nat.le_total n m with hle | hle
  · exact (walk_of_ended h hle).symm ▸ prefix_rfl
  · exact visited_prefix hle

end WorkflowDoc

namespace WorkflowDocV1

variable (doc : WorkflowDocV1) (results : NodeResults)

/-! ## What is to be the same -/

/-- The ids of the added nodes. -/
def addedIds : List String :=
  match doc.freshIds with
  | .ok (startId, finish) => startId :: (finish.succeedId.toList ++ finish.failId.toList)
  | .error _ => []

/-- The upgraded document has no more nodes than a document may have. -/
def Fits : Prop :=
  doc.nodes.length + 1 + doc.needsSucceed.toNat + doc.needsFail.toNat ≤ maxNodes

/-- A script that fails and is to end the run successfully, where no gate can. -/
def Unasked (node : V1Node) (index : Nat) (result : Bool) : Prop :=
  match node.body with
  | .script _ _ onFailure _ =>
    result = false ∧ doc.gateNeedsSucceed index onFailure = true ∧ doc.needsSucceed = false
  | .gate .. => False

/-- A reference to a node that is not there, by the id of one that is added. -/
def Captured (node : V1Node) (result : Bool) : Prop :=
  ∃ id, exit node result = .goto_ id ∧ id ∉ doc.ids ∧ id ∈ doc.addedIds

/-- The node that the walk is at slips. -/
def Slips (s : WalkState) : Prop :=
  ∃ id node index, s.cursor = .at_ id ∧ doc.node? id = some (node, index) ∧
    (doc.Unasked node index (results s.visited id) ∨ doc.Captured node (results s.visited id))

/-- The two walks visit the same nodes and end in the same way, or both never end. -/
def SameRuns (v2 : WorkflowDoc) : Prop :=
  (∀ visited, (∃ n, (doc.walk results n).visited = visited) ↔
    ∃ n, (v2.walk results n).visited = visited) ∧
  ∀ visited how, (∃ n, doc.walk results n = ⟨visited, .ended how⟩) ↔
    ∃ n, v2.walk results n = ⟨visited, .ended how⟩

/-! ## The added nodes -/

variable {doc results}

/-- The ids that the added nodes are given: they are new, and a `finish` node is there when it is
asked for. -/
structure Fresh (doc : WorkflowDocV1) (startId : String) (finish : FinishPlan) : Prop where
  start : startId ∉ doc.ids
  isSome_succeed : finish.succeedId.isSome = doc.needsSucceed
  isSome_fail : finish.failId.isSome = doc.needsFail
  succeed : ∀ id, finish.succeedId = some id → id ∉ doc.ids ∧ id ≠ startId
  fail : ∀ id, finish.failId = some id →
    id ∉ doc.ids ∧ id ≠ startId ∧ finish.succeedId ≠ some id

theorem exists_freshFinishId (seed : String) (needed : Bool) {taken : List String}
    (h : taken.length < freshTries) :
    ∃ id, freshFinishId seed needed taken = .ok id ∧ id.isSome = needed ∧ ∀ i, id = some i → i ∉ taken := by
  cases needed with
  | false => exact ⟨none, by simp [freshFinishId], by simp, by simp⟩
  | true =>
    obtain ⟨id, hid⟩ := exists_freshId seed h
    refine ⟨some id, by simp [freshFinishId, hid], by simp, fun i hi ↦ ?_⟩
    cases hi
    exact freshId_not_mem hid

/-- **There is always a free id** for the nodes that are added. -/
theorem exists_freshIds (hlength : doc.nodes.length ≤ maxNodes) :
    ∃ startId finish, doc.freshIds = .ok (startId, finish) ∧ doc.Fresh startId finish := by
  have hids : doc.ids.length ≤ 50 := by simpa [ids, maxNodes] using hlength
  have hroom : ∀ {taken : List String}, taken.length ≤ 52 → taken.length < freshTries := by
    intro taken htaken
    rw [freshTries]
    omega
  obtain ⟨startId, hstart⟩ := exists_freshId "start" (hroom (by omega : doc.ids.length ≤ 52))
  obtain ⟨succeedId, hsucceed, hsucceedSome, hsucceedNew⟩ :=
    exists_freshFinishId "finish-succeed" doc.needsSucceed
      (hroom (by simp; omega : (doc.ids ++ [startId]).length ≤ 52))
  have hlengthSucceed : succeedId.toList.length ≤ 1 := by cases succeedId <;> simp
  obtain ⟨failId, hfail, hfailSome, hfailNew⟩ :=
    exists_freshFinishId "finish-failed" doc.needsFail
      (hroom (by simp only [length_append, length_singleton]; omega :
        (doc.ids ++ [startId] ++ succeedId.toList).length ≤ 52))
  refine ⟨startId, ⟨succeedId, failId⟩, ?_, freshId_not_mem hstart, hsucceedSome, hfailSome,
    fun id hid ↦ ?_, fun id hid ↦ ?_⟩
  · simp only [freshIds, hstart, hsucceed, hfail, bind, Except.bind, pure, Except.pure]
  · simpa using hsucceedNew id hid
  · simpa [and_assoc] using hfailNew id hid

theorem mem_addedIds {startId : String} {finish : FinishPlan}
    (h : doc.freshIds = .ok (startId, finish)) {id : String} :
    id ∈ doc.addedIds ↔ id = startId ∨ finish.succeedId = some id ∨ finish.failId = some id := by
  rw [addedIds, h]
  simp

/-! ## The nodes of the upgraded document -/

section Converted

variable {startId : String} {finish : FinishPlan}

@[simp] theorem id_convertNode (index : Nat) (node : V1Node) :
    (doc.convertNode finish index node).id = node.id := by
  rw [convertNode]
  split <;> simp

theorem ids_convertedNodes : (doc.convertedNodes startId finish).map (·.id) =
    startId :: (doc.ids ++ finish.succeedId.toList ++ finish.failId.toList) := by
  have hnodes : (doc.nodes.zipIdx.map fun p ↦ doc.convertNode finish p.2 p.1).map (·.id) = doc.ids := by
    rw [map_map, ids]
    conv_rhs => rw [← zipIdx_map_fst 0 doc.nodes, map_map]
    exact map_congr_left fun p _ ↦ by simp
  have htoList : ∀ (o : Option String) (f : String → WorkflowNode), (∀ id, (f id).id = id) →
      (o.map f).toList.map (·.id) = o.toList := by
    intro o f hf
    cases o <;> simp [hf]
  simp only [convertedNodes, map_append, map_cons, hnodes, cons_append]
  rw [htoList _ _ fun _ ↦ by simp, htoList _ _ fun _ ↦ by simp]

theorem nodup_ids_convertedNodes (hfresh : doc.Fresh startId finish) (hids : doc.ids.Nodup) :
    ((doc.convertedNodes startId finish).map (·.id)).Nodup := by
  rw [ids_convertedNodes]
  exact nodup_addedIds hids hfresh.start hfresh.succeed hfresh.fail

/-- In the upgraded document an id names the node that has it. -/
theorem node?_convertV1 (hfresh : doc.Fresh startId finish) (hids : doc.ids.Nodup) {n : WorkflowNode}
    (hn : n ∈ doc.convertedNodes startId finish) :
    (doc.convertV1 startId finish).node? n.id = some n := by
  cases hnode : (doc.convertV1 startId finish).node? n.id with
  | none => exact absurd (find?_eq_none.mp hnode n (mem_reverse.mpr hn)) (by simp)
  | some m =>
    rw [inj_on_of_nodup_map (nodup_ids_convertedNodes hfresh hids)
      (mem_of_node? hnode) hn (id_of_node? hnode)]

theorem mem_convertedNodes {n : WorkflowNode} : n ∈ doc.convertedNodes startId finish ↔
    n = ⟨startId, true, .start (doc.nodes[0]?.map (·.id))⟩ ∨
    (∃ p ∈ doc.nodes.zipIdx, doc.convertNode finish p.2 p.1 = n) ∨
    (∃ id, finish.succeedId = some id ∧ n = ⟨id, true, .finish .succeed ""⟩) ∨
    ∃ id, finish.failId = some id ∧ n = ⟨id, true, .finish .fail doc.failMessage⟩ := by
  have hoption : ∀ (o : Option String) (f : String → WorkflowNode),
      n ∈ (o.map f).toList ↔ ∃ id, o = some id ∧ n = f id := by
    intro o f
    cases o <;> simp
  simp only [convertedNodes, mem_append, mem_cons, mem_map, hoption, or_assoc]

/-! ## Where a reference leads -/

variable {id : String}

theorem mem_of_node? {p : V1Node × Nat} (h : doc.node? id = some p) :
    p ∈ doc.nodes.zipIdx ∧ p.1.id = id :=
  ⟨mem_of_find?_eq_some h, by simpa using find?_some h⟩

theorem isSome_node?_iff : (doc.node? id).isSome ↔ id ∈ doc.ids := by
  rw [node?, find?_isSome, ids, mem_map]
  constructor
  · rintro ⟨⟨n, i⟩, hp, hid⟩
    exact ⟨n, (mem_zipIdx' hp).2 ▸ getElem_mem _, by simpa using hid⟩
  · rintro ⟨n, hn, hid⟩
    obtain ⟨i, hi⟩ := getElem?_of_mem hn
    exact ⟨(n, i), mem_zipIdx_iff_getElem?.mpr hi, by simpa using hid⟩

theorem enter_of_mem (h : id ∈ doc.ids) : doc.enter id = .at_ id :=
  if_pos (isSome_node?_iff.mpr h)

theorem enter_of_not_mem (h : id ∉ doc.ids) : doc.enter id = .ended .noNode :=
  if_neg fun hsome ↦ h (isSome_node?_iff.mp hsome)

section Enter

variable (hfresh : doc.Fresh startId finish) (hids : doc.ids.Nodup)
include hfresh hids

theorem node?_convertNode {id : String} {node : V1Node} {index : Nat}
    (h : doc.node? id = some (node, index)) :
    (doc.convertV1 startId finish).node? id = some (doc.convertNode finish index node) := by
  obtain ⟨hmem, rfl⟩ := mem_of_node? h
  have hn := node?_convertV1 hfresh hids (mem_convertedNodes.mpr (.inr (.inl ⟨_, hmem, by rfl⟩)))
  rwa [id_convertNode] at hn

theorem node?_startId : (doc.convertV1 startId finish).node? startId =
    some ⟨startId, true, .start (doc.nodes[0]?.map (·.id))⟩ :=
  node?_convertV1 hfresh hids (mem_convertedNodes.mpr (.inl (by rfl)))

theorem enter_convertV1_of_mem {id : String} (h : id ∈ doc.ids) :
    (doc.convertV1 startId finish).enter id = .at_ id := by
  obtain ⟨⟨node, index⟩, hnode⟩ := Option.isSome_iff_exists.mp (isSome_node?_iff.mpr h)
  rw [WorkflowDoc.enter, node?_convertNode hfresh hids hnode, convertNode]
  cases node.body <;> simp

theorem enter_startId : (doc.convertV1 startId finish).enter startId = .at_ startId := by
  rw [WorkflowDoc.enter, node?_startId hfresh hids]

theorem enter_succeedId {id : String} (h : finish.succeedId = some id) :
    (doc.convertV1 startId finish).enter id = .ended .succeeded := by
  have hn := node?_convertV1 hfresh hids (mem_convertedNodes.mpr (.inr (.inr (.inl ⟨id, h, by rfl⟩))))
  rw [WorkflowDoc.enter, hn]

theorem enter_failId {id : String} (h : finish.failId = some id) :
    (doc.convertV1 startId finish).enter id = .ended .failed := by
  have hn := node?_convertV1 hfresh hids (mem_convertedNodes.mpr (.inr (.inr (.inr ⟨id, h, by rfl⟩))))
  rw [WorkflowDoc.enter, hn]

end Enter

/-- An id that no node has is not there in the upgraded document either. -/
theorem enter_convertV1_of_not_mem (hids : id ∉ doc.ids)
    (hadded : ¬ (id = startId ∨ finish.succeedId = some id ∨ finish.failId = some id)) :
    (doc.convertV1 startId finish).enter id = .ended .noNode := by
  cases hnode : (doc.convertV1 startId finish).node? id with
  | none => rw [WorkflowDoc.enter, hnode]
  | some n =>
    have hmem := mem_map_of_mem (f := (·.id)) (WorkflowDoc.mem_of_node? hnode)
    rw [id_of_node? hnode, convertV1, ids_convertedNodes] at hmem
    refine absurd hmem ?_
    simpa [hids, eq_comm, not_or] using hadded

/-! ## One node -/

/-- The edge the upgraded node is left by. -/
def edge (doc : WorkflowDocV1) (finish : FinishPlan) (index : Nat) (node : V1Node) (result : Bool) :
    Option String :=
  match node.body with
  | .script _ _ onFailure next =>
    if result then next.or (doc.arrayNextId index) else doc.outcomeToEdge finish index onFailure
  | .gate _ then_ else_ _ => doc.outcomeToEdge finish index (if result then then_ else else_)

/-- What it means for that edge to dangle. -/
def dangling (node : V1Node) (result : Bool) : WalkEnd :=
  match node.body with
  | .script .. => if result then .succeeded else .failed
  | .gate .. => .succeeded

variable {index : Nat}

theorem mem_nodes_of_node? {node : V1Node} (h : doc.node? id = some (node, index)) : node ∈ doc.nodes :=
  (mem_zipIdx' (mem_of_node? h).1).2 ▸ getElem_mem _

theorem arrayNextId_mem (h : doc.arrayNextId index = some id) : id ∈ doc.ids := by
  obtain ⟨n, hn, rfl⟩ := Option.map_eq_some_iff.mp h
  exact mem_map_of_mem (mem_of_getElem? hn)

/-- A node that fails the run by its outcome has the `finish` node for it. -/
theorem needsFail_of_exit {node : V1Node} (hmem : node ∈ doc.nodes) {result : Bool}
    (h : exit node result = .fail) : doc.needsFail = true := by
  refine any_eq_true.mpr ⟨node, hmem, ?_⟩
  rw [exit] at h
  cases hbody : node.body with
  | script script params onFailure next =>
    rw [hbody] at h
    cases result <;> cases next <;> simp_all
  | gate when_ then_ else_ message =>
    rw [hbody] at h
    cases result <;> simp_all

section Node

variable (hfresh : doc.Fresh startId finish) (hids : doc.ids.Nodup)
include hfresh hids

variable {node : V1Node} {index : Nat} {id : String}

theorem walkStep_convertV1 (h : doc.node? id = some (node, index)) (visited : List String) :
    (doc.convertV1 startId finish).walkStep results ⟨visited, .at_ id⟩ =
      ⟨visited ++ [id], (doc.convertV1 startId finish).follow (dangling node (results visited id))
        (doc.edge finish index node (results visited id))⟩ := by
  simp only [WorkflowDoc.walkStep, node?_convertNode hfresh hids h, Option.map_some, convertNode,
    dangling, edge]
  cases node.body with
  | script script params onFailure next => cases results visited id <;> simp
  | gate when_ then_ else_ message => cases results visited id <;> simp

theorem follow_goto (how : WalkEnd) (h : ¬ (id ∉ doc.ids ∧
    (id = startId ∨ finish.succeedId = some id ∨ finish.failId = some id))) :
    (doc.convertV1 startId finish).follow how (some id) = doc.enter id := by
  by_cases hmem : id ∈ doc.ids
  · rw [WorkflowDoc.follow, enter_convertV1_of_mem hfresh hids hmem, enter_of_mem hmem]
  · rw [WorkflowDoc.follow, enter_convertV1_of_not_mem hmem fun hadded ↦ h ⟨hmem, hadded⟩,
      enter_of_not_mem hmem]

/-- An outcome and its edge lead to the same place, if a successful end without a `finish` node
stands where dangling is one. -/
theorem follow_outcomeToEdge {how : WalkEnd} {outcome : V1Outcome}
    (hgoto : ∀ id, outcome = .goto_ id → ¬ (id ∉ doc.ids ∧
      (id = startId ∨ finish.succeedId = some id ∨ finish.failId = some id)))
    (hfail : outcome = .fail → doc.needsFail = true)
    (hsucceed : doc.gateNeedsSucceed index outcome = true → doc.needsSucceed = true ∨ how = .succeeded) :
    (doc.convertV1 startId finish).follow how (doc.outcomeToEdge finish index outcome) =
      doc.follow index outcome := by
  have hend : (doc.needsSucceed = true ∨ how = .succeeded) →
      (doc.convertV1 startId finish).follow how finish.succeedId = .ended .succeeded := by
    intro h
    cases hid : finish.succeedId with
    | some id => exact enter_succeedId hfresh hids hid
    | none =>
      have hno : doc.needsSucceed = false := by rw [← hfresh.isSome_succeed, hid, Option.isSome_none]
      rw [hno] at h
      rw [WorkflowDoc.follow, h.resolve_left (by simp)]
  cases outcome with
  | goto_ id => exact follow_goto hfresh hids how (hgoto id (by rfl))
  | stop => exact hend (hsucceed (by rfl))
  | fail =>
    have hsome := hfresh.isSome_fail
    rw [hfail (by rfl), Option.isSome_iff_exists] at hsome
    obtain ⟨id, hid⟩ := hsome
    rw [outcomeToEdge, hid]
    exact enter_failId hfresh hids hid
  | continue_ =>
    rw [outcomeToEdge, follow]
    cases hnext : doc.arrayNextId index with
    | none => exact hend (hsucceed (by rw [gateNeedsSucceed, hnext, Option.isNone_none]))
    | some id =>
      have hmem := arrayNextId_mem hnext
      exact (enter_convertV1_of_mem hfresh hids hmem).trans (enter_of_mem hmem).symm

/-- **One node that does not slip** leads to the same place in both documents. -/
theorem follow_edge (hadded : doc.freshIds = .ok (startId, finish))
    (hnode : doc.node? id = some (node, index)) {result : Bool}
    (hno : ¬ (doc.Unasked node index result ∨ doc.Captured node result)) :
    (doc.convertV1 startId finish).follow (dangling node result)
      (doc.edge finish index node result) = doc.follow index (exit node result) := by
  obtain ⟨hunasked, hcaptured⟩ := not_or.mp hno
  have hgoto : ∀ id, exit node result = .goto_ id → ¬ (id ∉ doc.ids ∧
      (id = startId ∨ finish.succeedId = some id ∨ finish.failId = some id)) :=
    fun id hexit hid ↦ hcaptured ⟨id, hexit, hid.1, (mem_addedIds hadded).mpr hid.2⟩
  have hfail : exit node result = .fail → doc.needsFail = true :=
    needsFail_of_exit (mem_nodes_of_node? hnode)
  cases hbody : node.body with
  | script script params onFailure next =>
    simp only [exit, hbody] at hgoto hfail
    simp only [Unasked, hbody] at hunasked
    simp only [edge, dangling, exit, hbody]
    cases result with
    | true =>
      cases next with
      | some id => exact follow_goto hfresh hids .succeeded (hgoto id (by simp))
      | none =>
        rw [if_pos (by rfl), if_pos (by rfl), if_pos (by rfl), Option.none_or, Option.elim_none, follow]
        cases hnext : doc.arrayNextId index with
        | none => rw [WorkflowDoc.follow, Option.elim_none]
        | some id =>
          have hmem := arrayNextId_mem hnext
          rw [WorkflowDoc.follow, enter_convertV1_of_mem hfresh hids hmem, Option.elim_some,
            enter_of_mem hmem]
    | false =>
      refine follow_outcomeToEdge hfresh hids (by simpa using hgoto) (by simpa using hfail) ?_
      intro hneeds
      refine .inl (Bool.not_eq_false _ ▸ fun hsucceed ↦ hunasked ⟨by rfl, hneeds, hsucceed⟩)
  | gate when_ then_ else_ message =>
    simp only [exit, hbody] at hgoto hfail
    simp only [edge, dangling, exit, hbody]
    exact follow_outcomeToEdge hfresh hids hgoto hfail fun _ ↦ .inr (by rfl)

/-- **A node that slips** ends the v1 walk, and does not end the walk through the upgraded document
in the same way: that goes on to the `start` node, or ends otherwise. -/
theorem follow_of_slips (hadded : doc.freshIds = .ok (startId, finish)) {result : Bool}
    (h : doc.Unasked node index result ∨ doc.Captured node result) :
    ∃ how, doc.follow index (exit node result) = .ended how ∧
      ((doc.convertV1 startId finish).follow (dangling node result)
          (doc.edge finish index node result) = .at_ startId ∨
        ∃ other, other ≠ how ∧ (doc.convertV1 startId finish).follow (dangling node result)
          (doc.edge finish index node result) = .ended other) := by
  rcases h with hunasked | ⟨id, hexit, hid, hmem⟩
  · cases hbody : node.body with
    | gate when_ then_ else_ message => simp [Unasked, hbody] at hunasked
    | script script params onFailure next =>
      simp only [Unasked, hbody] at hunasked
      obtain ⟨rfl, hneeds, hno⟩ := hunasked
      have hnone : finish.succeedId = none := by
        rw [← Option.not_isSome_iff_eq_none, hfresh.isSome_succeed, hno]
        simp
      refine ⟨.succeeded, ?_, .inr ⟨.failed, by simp, ?_⟩⟩
      · cases onFailure with
        | stop => simp [exit, hbody, follow]
        | continue_ =>
          rw [gateNeedsSucceed, Option.isNone_iff_eq_none] at hneeds
          simp [exit, hbody, follow, hneeds]
        | fail => simp [gateNeedsSucceed] at hneeds
        | goto_ id => simp [gateNeedsSucceed] at hneeds
      · cases onFailure with
        | stop => simp [edge, dangling, hbody, outcomeToEdge, hnone, WorkflowDoc.follow]
        | continue_ =>
          rw [gateNeedsSucceed, Option.isNone_iff_eq_none] at hneeds
          simp [edge, dangling, hbody, outcomeToEdge, hneeds, hnone, WorkflowDoc.follow]
        | fail => simp [gateNeedsSucceed] at hneeds
        | goto_ id => simp [gateNeedsSucceed] at hneeds
  · refine ⟨.noNode, by rw [hexit, follow, enter_of_not_mem hid], ?_⟩
    have hedge : doc.edge finish index node result = some id := by
      rw [exit] at hexit
      rw [edge]
      cases hbody : node.body with
      | script script params onFailure next =>
        rw [hbody] at hexit
        cases result <;> cases next <;> simp_all [outcomeToEdge]
      | gate when_ then_ else_ message =>
        rw [hbody] at hexit
        simp only at hexit
        simp only [hexit, outcomeToEdge]
    rw [hedge, WorkflowDoc.follow]
    rcases (mem_addedIds hadded).mp hmem with rfl | hsucceed | hfail
    · exact .inl (enter_startId hfresh hids)
    · exact .inr ⟨.succeeded, by simp, enter_succeedId hfresh hids hsucceed⟩
    · exact .inr ⟨.failed, by simp, enter_failId hfresh hids hfail⟩

end Node

/-! ## Whole walks -/

theorem at_mem_of_follow {outcome : V1Outcome} (h : doc.follow index outcome = .at_ id) :
    id ∈ doc.ids := by
  have henter : ∀ i, doc.enter i = .at_ id → id ∈ doc.ids := by
    intro i hi
    rw [enter] at hi
    split_ifs at hi with hsome
    exact WalkCursor.at_.inj hi ▸ isSome_node?_iff.mp hsome
  cases outcome with
  | goto_ i => exact henter i h
  | stop => simp [follow] at h
  | fail => simp [follow] at h
  | continue_ =>
    rw [follow] at h
    cases hnext : doc.arrayNextId index with
    | none => simp [hnext] at h
    | some i => exact henter i (by simpa [hnext] using h)

/-- A v1 walk is at nodes of its document only. -/
theorem at_mem_of_walk {n : Nat} (h : (doc.walk results n).cursor = .at_ id) : id ∈ doc.ids := by
  induction n generalizing id with
  | zero =>
    cases hnode : doc.nodes[0]? with
    | none => simp [walk, hnode] at h
    | some node =>
      obtain rfl : node.id = id := by simpa [walk, hnode] using h
      exact mem_map_of_mem (mem_of_getElem? hnode)
  | succ n ih =>
    rw [walk, walkStep] at h
    cases hcursor : (doc.walk results n).cursor with
    | ended how => simp [hcursor] at h
    | at_ i =>
      simp only [hcursor] at h
      cases hnode : doc.node? i with
      | none => simp [hnode] at h
      | some p =>
        simp only [hnode] at h
        exact at_mem_of_follow h

section Walk

variable (hfresh : doc.Fresh startId finish) (hids : doc.ids.Nodup)
  (hadded : doc.freshIds = .ok (startId, finish))
include hfresh hids

/-- The walk through the upgraded document is at the `start` node first, and then where the v1 walk
starts. -/
theorem walk_startId (results : NodeResults) (hnodes : doc.nodes ≠ []) (visited : List String) :
    ∃ first ∈ doc.nodes, doc.walk results 0 = ⟨[], .at_ first.id⟩ ∧
      (doc.convertV1 startId finish).walkStep results ⟨visited, .at_ startId⟩ =
        ⟨visited, .at_ first.id⟩ := by
  obtain ⟨first, rest, hlist⟩ := exists_cons_of_ne_nil hnodes
  have hfirst : first ∈ doc.nodes := by simp [hlist]
  refine ⟨first, hfirst, by simp [walk, hlist], ?_⟩
  simp only [WorkflowDoc.walkStep, node?_startId hfresh hids, Option.map_some, hlist,
    getElem?_cons_zero, WorkflowDoc.follow,
    enter_convertV1_of_mem hfresh hids (mem_map_of_mem hfirst : first.id ∈ doc.ids)]

theorem walk_convertV1_zero : (doc.convertV1 startId finish).walk results 0 = ⟨[], .at_ startId⟩ := by
  rw [WorkflowDoc.walk]
  exact congrArg (WalkState.mk []) (enter_startId hfresh hids)

theorem walk_convertV1_one (hnodes : doc.nodes ≠ []) :
    (doc.convertV1 startId finish).walk results 1 = doc.walk results 0 := by
  obtain ⟨first, -, hwalk, hstep⟩ := walk_startId hfresh hids results hnodes []
  rw [WorkflowDoc.walk, walk_convertV1_zero hfresh hids, hstep, hwalk]

include hadded

theorem walkStep_eq {n : Nat} (hno : ¬ doc.Slips results (doc.walk results n)) :
    (doc.convertV1 startId finish).walkStep results (doc.walk results n) =
      doc.walkStep results (doc.walk results n) := by
  have hmem : ∀ id, (doc.walk results n).cursor = .at_ id → id ∈ doc.ids := fun id ↦ at_mem_of_walk
  generalize doc.walk results n = s at hno hmem
  obtain ⟨visited, cursor⟩ := s
  cases cursor with
  | ended how => rw [WorkflowDoc.walkStep, walkStep]
  | at_ id =>
    obtain ⟨⟨node, index⟩, hnode⟩ :=
      Option.isSome_iff_exists.mp (isSome_node?_iff.mpr (hmem id (by rfl)))
    have hslip : ¬ (doc.Unasked node index (results visited id) ∨
        doc.Captured node (results visited id)) := fun h ↦ hno ⟨id, node, index, by rfl, hnode, h⟩
    rw [walkStep_convertV1 hfresh hids hnode, follow_edge hfresh hids hadded hnode hslip]
    simp only [walkStep, hnode]

/-- **Up to the first slip** the walk through the upgraded document is the v1 walk, one node
behind. -/
theorem walk_eq (hnodes : doc.nodes ≠ []) {n : Nat}
    (hno : ∀ i < n, ¬ doc.Slips results (doc.walk results i)) :
    (doc.convertV1 startId finish).walk results (n + 1) = doc.walk results n := by
  induction n with
  | zero => exact walk_convertV1_one hfresh hids hnodes
  | succ n ih =>
    rw [WorkflowDoc.walk, ih fun i hi ↦ hno i (by omega),
      walkStep_eq hfresh hids hadded (hno n (by omega)), walk]

/-- Without a slip the two walks are the same. -/
theorem sameRuns_of_walk_eq (hnodes : doc.nodes ≠ [])
    (hno : ∀ n, ¬ doc.Slips results (doc.walk results n)) :
    doc.SameRuns results (doc.convertV1 startId finish) := by
  have hwalk : ∀ n, (doc.convertV1 startId finish).walk results (n + 1) = doc.walk results n :=
    fun n ↦ walk_eq hfresh hids hadded hnodes fun i _ ↦ hno i
  refine ⟨fun visited ↦ ⟨fun ⟨n, hn⟩ ↦ ⟨n + 1, by rw [hwalk, hn]⟩, fun ⟨n, hn⟩ ↦ ?_⟩,
    fun visited how ↦ ⟨fun ⟨n, hn⟩ ↦ ⟨n + 1, by rw [hwalk, hn]⟩, fun ⟨n, hn⟩ ↦ ?_⟩⟩
  · cases n with
    | succ n => exact ⟨n, by rw [← hwalk, hn]⟩
    | zero =>
      obtain ⟨first, -, hzero, -⟩ := walk_startId hfresh hids results hnodes []
      refine ⟨0, ?_⟩
      rw [walk_convertV1_zero hfresh hids] at hn
      rw [hzero, ← hn]
  · cases n with
    | succ n => exact ⟨n, by rw [← hwalk, hn]⟩
    | zero => simp [walk_convertV1_zero hfresh hids] at hn

/-- With a slip they are not: the v1 walk ends there, and the other visits more nodes or ends in
another way. -/
theorem not_sameRuns_of_slips (hnodes : doc.nodes ≠ []) {n : Nat}
    (hslip : doc.Slips results (doc.walk results n)) :
    ¬ doc.SameRuns results (doc.convertV1 startId finish) := by
  classical
  -- The walks agree up to the first slip.
  obtain ⟨m, hfirst, hbefore⟩ : ∃ m, doc.Slips results (doc.walk results m) ∧
      ∀ i < m, ¬ doc.Slips results (doc.walk results i) := by
    have hex : ∃ m, doc.Slips results (doc.walk results m) := ⟨n, hslip⟩
    exact ⟨Nat.find hex, Nat.find_spec hex, fun i hi ↦ Nat.find_min hex hi⟩
  have hm := walk_eq hfresh hids hadded hnodes hbefore
  obtain ⟨id, node, index, hcursor, hnode, hhow⟩ := hfirst
  obtain ⟨how, hended, hother⟩ := follow_of_slips hfresh hids hadded hhow
  rcases hs : doc.walk results m with ⟨visited, cursor⟩
  rw [hs] at hcursor hm hended hother
  obtain rfl : cursor = .at_ id := hcursor
  have hv1 : doc.walk results (m + 1) = ⟨visited ++ [id], .ended how⟩ := by
    rw [walk, hs]
    simp only [walkStep, hnode, hended]
  have hv2 : (doc.convertV1 startId finish).walk results (m + 2) =
      ⟨visited ++ [id], (doc.convertV1 startId finish).follow (dangling node (results visited id))
        (doc.edge finish index node (results visited id))⟩ := by
    rw [WorkflowDoc.walk, hm, walkStep_convertV1 hfresh hids hnode]
  rintro ⟨-, hsame⟩
  obtain ⟨k, hk⟩ := (hsame _ _).mp ⟨m + 1, hv1⟩
  rcases hother with hstart | ⟨other, hne, hends⟩
  · -- It starts again, and comes to visit a node more.
    rw [hstart] at hv2
    obtain ⟨first, hmem, -, hstep⟩ :=
      walk_startId hfresh hids results hnodes (visited ++ [id])
    have hagain : (doc.convertV1 startId finish).walk results (m + 3) =
        ⟨visited ++ [id], .at_ first.id⟩ := by rw [WorkflowDoc.walk, hv2, hstep]
    obtain ⟨⟨next, place⟩, hnext⟩ := Option.isSome_iff_exists.mp
      (isSome_node?_iff.mpr (mem_map_of_mem hmem : first.id ∈ doc.ids))
    have hmore : ((doc.convertV1 startId finish).walk results (m + 4)).visited =
        visited ++ [id] ++ [first.id] := by
      rw [WorkflowDoc.walk, hagain, walkStep_convertV1 hfresh hids hnext]
    have hle := (visited_prefix_of_ended (by rw [hk]) (m + 4)).length_le
    rw [hmore, hk] at hle
    simp at hle
  · rw [hends] at hv2
    have heq := eq_of_ended (by rw [hk]) (by rw [hv2])
    rw [hk, hv2] at heq
    simp at heq
    exact hne heq.symm

end Walk

/-! ## What the schema asks -/

theorem length_convertedNodes (hfresh : doc.Fresh startId finish) :
    (doc.convertedNodes startId finish).length =
      doc.nodes.length + 1 + doc.needsSucceed.toNat + doc.needsFail.toNat := by
  have htoList : ∀ o : Option String, o.toList.length = o.isSome.toNat := by
    intro o
    cases o <;> simp
  have hlength := congrArg List.length (@ids_convertedNodes doc startId finish)
  rw [length_map] at hlength
  rw [hlength, ← hfresh.isSome_succeed, ← hfresh.isSome_fail, ← htoList, ← htoList]
  simp [ids]
  omega

/-- Only the added node is a `start`. -/
theorem filter_isStart : (doc.convertedNodes startId finish).filter (·.isStart) =
    [⟨startId, true, .start (doc.nodes[0]?.map (·.id))⟩] := by
  have hconverted : (doc.nodes.zipIdx.map fun p ↦ doc.convertNode finish p.2 p.1).filter (·.isStart) =
      [] := by
    refine filter_eq_nil_iff.mpr fun n hn ↦ ?_
    obtain ⟨⟨node, index⟩, -, rfl⟩ := mem_map.mp hn
    cases hbody : node.body <;> simp [convertNode, hbody, WorkflowNode.isStart]
  have hfinish : ∀ (o : Option String) (status : FinishStatus) (message : String),
      (o.map fun id ↦ (⟨id, true, .finish status message⟩ : WorkflowNode)).toList.filter (·.isStart) =
        [] := by
    intro o status message
    cases o <;> simp [WorkflowNode.isStart]
  rw [convertedNodes, filter_append, filter_append, filter_cons, hconverted, hfinish, hfinish]
  simp [WorkflowNode.isStart]

/-- The upgraded document passes the schema exactly when it has not become too long. -/
theorem acceptsDoc_iff (hfresh : doc.Fresh startId finish) (hids : doc.ids.Nodup) :
    acceptsDoc (doc.convertV1 startId finish) = true ↔ doc.Fits := by
  have hnodup : ((doc.convertV1 startId finish).nodes.map (·.id)).Nodup :=
    nodup_ids_convertedNodes hfresh hids
  have hentry : ((doc.convertV1 startId finish).nodes.find?
      (·.id = (doc.convertV1 startId finish).entry)).any (·.isStart) = true := by
    simp [convertV1, convertedNodes, WorkflowNode.isStart]
  have hstart : ((doc.convertV1 startId finish).nodes.filter (·.isStart)).length = 1 := by
    rw [convertV1, filter_isStart, length_singleton]
  have hlength : (doc.convertV1 startId finish).nodes.length =
      doc.nodes.length + 1 + doc.needsSucceed.toNat + doc.needsFail.toNat :=
    length_convertedNodes hfresh
  rw [acceptsDoc, hentry, hstart, hlength, decide_eq_true hnodup, Fits]
  simp
  omega

end Converted

/-- **The upgrade keeps what a document does** exactly when the document has room for the nodes that
are added and its walk comes to no node that slips. -/
theorem upgradeWorkflowDoc_sameRuns_iff (doc : WorkflowDocV1) (results : NodeResults)
    (hnodes : doc.nodes ≠ []) (hlength : doc.nodes.length ≤ maxNodes) (hids : doc.ids.Nodup) :
    (∃ v2, doc.upgradeWorkflowDoc = .ok v2 ∧ doc.SameRuns results v2) ↔
      doc.Fits ∧ ∀ n, ¬ doc.Slips results (doc.walk results n) := by
  obtain ⟨startId, finish, hadded, hfresh⟩ := exists_freshIds hlength
  have hupgrade : doc.upgradeWorkflowDoc = if acceptsDoc (doc.convertV1 startId finish) then
      .ok (doc.convertV1 startId finish) else .error .refused := by
    simp only [upgradeWorkflowDoc, hadded, bind, Except.bind]
  rw [hupgrade, ← acceptsDoc_iff hfresh hids]
  constructor
  · rintro ⟨v2, hv2, hsame⟩
    split_ifs at hv2 with haccepts
    cases hv2
    exact ⟨haccepts, fun n hslip ↦ not_sameRuns_of_slips hfresh hids hadded hnodes hslip hsame⟩
  · rintro ⟨haccepts, hno⟩
    exact ⟨_, if_pos haccepts, sameRuns_of_walk_eq hfresh hids hadded hnodes hno⟩

/-- One script whose failure ends the run successfully. -/
def lonelyScript : WorkflowDocV1 where
  name := "lonely"
  params := []
  nodes := [⟨"a", .script "tap" [] .stop none⟩]
  maxSteps := 50
  onFail := none

/-- **The upgrade turns a success into a failure**: the script fails, which ends the v1 run
successfully; nothing asks for a `finish` node, so the edge dangles and the upgraded run fails. -/
theorem lonelyScript_not_sameRuns :
    ¬ ∀ (doc : WorkflowDocV1) (results : NodeResults), doc.nodes ≠ [] →
      doc.nodes.length ≤ maxNodes → doc.ids.Nodup →
      ∃ v2, doc.upgradeWorkflowDoc = .ok v2 ∧ doc.SameRuns results v2 := by
  intro hall
  obtain ⟨v2, hv2, -, hsame⟩ := hall lonelyScript (fun _ _ ↦ false) (by decide) (by decide) (by decide)
  obtain rfl : lonelyScript.convertV1 "start" ⟨none, none⟩ = v2 := Except.ok.inj hv2
  have hv1 : lonelyScript.walk (fun _ _ ↦ false) 1 = ⟨["a"], .ended .succeeded⟩ := by decide
  have hfails : (lonelyScript.convertV1 "start" ⟨none, none⟩).walk (fun _ _ ↦ false) 2 =
      ⟨["a"], .ended .failed⟩ := by decide
  obtain ⟨n, hn⟩ := (hsame _ _).mp ⟨1, hv1⟩
  have heq := eq_of_ended (by rw [hn]) (by rw [hfails])
  rw [hn, hfails] at heq
  simp at heq

/-- The same script before a gate, which asks for the `finish` node. -/
def guardedScript : WorkflowDocV1 where
  name := "guarded"
  params := []
  nodes := [⟨"a", .script "tap" [] .stop none⟩,
    ⟨"b", .gate (.leaf .run .exists_ none) .continue_ .fail "no"⟩]
  maxSteps := 50
  onFail := none

theorem guardedScript_sameRuns :
    ∃ v2, guardedScript.upgradeWorkflowDoc = .ok v2 ∧ guardedScript.SameRuns (fun _ _ ↦ false) v2 := by
  refine (upgradeWorkflowDoc_sameRuns_iff guardedScript (fun _ _ ↦ false) (by decide) (by decide)
    (by decide)).mpr ⟨by rw [Fits]; decide, fun n ↦ ?_⟩
  rintro ⟨id, node, index, -, hnode, hunasked | ⟨t, hexit, -⟩⟩
  · have hneeds : guardedScript.needsSucceed = true := by decide
    rw [Unasked] at hunasked
    split at hunasked
    · simp [hneeds] at hunasked
    · exact hunasked
  · have hmem := mem_nodes_of_node? hnode
    rcases mem_cons.mp hmem with rfl | hmem
    · simp [exit] at hexit
    · obtain rfl := mem_singleton.mp hmem
      simp [exit] at hexit

end WorkflowDocV1

end Enkaku
