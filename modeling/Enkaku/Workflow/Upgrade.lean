import Enkaku.Workflow.Doc
import Mathlib.Data.List.Nodup
import Mathlib.Data.List.Perm.Subperm

/-!
# Upgrading a v1 document

`upgradeWorkflowDoc` of `workflows/upgrade.ts` on a document of the frozen v1 shape: the array order
and the outcomes of its nodes become edges, a `start` node goes in front, and at most two `finish`
nodes come behind.  What is only for the editor (titles, the canvas layout) is left out, and so are
`reset` and `retries`, which the conversion copies.

Beside it stand the two walks that are to be compared: through the v1 document by array position and
outcome, and through a document along its edges.
-/

set_option autoImplicit false

namespace Enkaku

/-! ## v1 documents -/

/-- `V1GateOutcome`. -/
inductive V1Outcome where
  | continue_ | stop | fail
  | goto_ (node : String)
  deriving DecidableEq, Repr

inductive V1Body where
  | script (script : String) (params : List (String × ValueExpr)) (onFailure : V1Outcome)
      (next : Option String)
  | gate (when_ : Predicate) (then_ else_ : V1Outcome) (message : String)
  deriving Repr

structure V1Node where
  id : String
  body : V1Body
  deriving Repr

structure WorkflowDocV1 where
  name : String
  params : List WorkflowParam
  nodes : List V1Node
  maxSteps : Nat
  onFail : Option OnFail
  deriving Repr

/-- `WORKFLOW_LIMITS.maxNodes`. -/
def maxNodes : Nat := 50

/-- What `upgradeWorkflowDoc` throws. -/
inductive UpgradeError where
  /-- `E_WORKFLOW_UPGRADE_FAILED`. -/
  | upgradeFailed (message : String)
  /-- The schema of the upgraded document refuses it. -/
  | refused
  deriving DecidableEq, Repr

/-! ## Fresh ids -/

/-- `seed-2`, `seed-3`, … up to the last that is tried. -/
def numberedIds (seed : String) (tries : Nat) : List String :=
  (List.range tries).map fun i ↦ seed ++ "-" ++ toString (i + 2)

/-- How many numbered ids are tried. -/
def freshTries : Nat := 9998

/-- `seed`, or the first numbered id that is free. -/
def freshId (seed : String) (taken : List String) : Option String :=
  if seed ∉ taken then some seed else (numberedIds seed freshTries).find? (· ∉ taken)

theorem freshId_not_mem {seed id : String} {taken : List String} (h : freshId seed taken = some id) :
    id ∉ taken := by
  by_cases hseed : seed ∉ taken
  · rw [freshId, if_pos hseed] at h
    cases h
    exact hseed
  · rw [freshId, if_neg hseed] at h
    simpa using List.find?_some h

theorem toString_injective {m n : Nat} (h : toString m = toString n) : m = n := by
  have hdigits : Nat.toDigits 10 m = Nat.toDigits 10 n := by
    rw [← Nat.toList_repr, ← Nat.toList_repr]
    exact congrArg String.toList h
  rw [← Nat.ofDigitChars_ten_toDigits (n := m), hdigits, Nat.ofDigitChars_ten_toDigits]

theorem nodup_numberedIds (seed : String) (tries : Nat) : (numberedIds seed tries).Nodup := by
  refine List.Nodup.map (fun m n hmn ↦ ?_) List.nodup_range
  have hlist := congrArg String.toList hmn
  simp only [String.toList_append] at hlist
  have hdigits := toString_injective (String.toList_injective (List.append_cancel_left hlist))
  omega

/-- There are more ids to try than a document can have taken. -/
theorem exists_freshId (seed : String) {taken : List String} (h : taken.length < freshTries) :
    ∃ id, freshId seed taken = some id := by
  by_cases hseed : seed ∉ taken
  · exact ⟨seed, if_pos hseed⟩
  · rw [freshId, if_neg hseed]
    refine Option.isSome_iff_exists.mp (List.find?_isSome.mpr ?_)
    by_contra hall
    push Not at hall
    have hsub : numberedIds seed freshTries ⊆ taken := fun id hid ↦ by simpa using hall id hid
    have hle := (List.subperm_of_subset (nodup_numberedIds seed freshTries) hsub).length_le
    rw [numberedIds, List.length_map, List.length_range] at hle
    omega

/-! ## The conversion -/

/-- The ids of the `finish` nodes the document gets. -/
structure FinishPlan where
  succeedId : Option String
  failId : Option String
  deriving DecidableEq, Repr

/-- The ids of a document and of the nodes that are added to it differ. -/
theorem nodup_addedIds {ids : List String} {startId : String} {finish : FinishPlan} (hids : ids.Nodup)
    (hstart : startId ∉ ids) (hsucceed : ∀ id, finish.succeedId = some id → id ∉ ids ∧ id ≠ startId)
    (hfail : ∀ id, finish.failId = some id → id ∉ ids ∧ id ≠ startId ∧ finish.succeedId ≠ some id) :
    (startId :: (ids ++ finish.succeedId.toList ++ finish.failId.toList)).Nodup := by
  have hnew : ∀ o : Option String, (∀ id, o = some id → id ∉ ids ∧ id ≠ startId) →
      o.toList.Nodup ∧ (∀ id ∈ o.toList, id ∉ ids) ∧ startId ∉ o.toList := by
    intro o ho
    cases o with
    | none => simp
    | some id => simpa [eq_comm] using ho id
  obtain ⟨hnodup, hnotIds, hnotStart⟩ := hnew _ hsucceed
  obtain ⟨hnodup', hnotIds', hnotStart'⟩ := hnew _ fun id hid ↦ ⟨(hfail id hid).1, (hfail id hid).2.1⟩
  refine List.nodup_cons.mpr ⟨by simp only [List.mem_append, hstart, hnotStart, hnotStart', or_self,
    not_false_eq_true], ?_⟩
  refine (hids.append hnodup fun id hmem h ↦ hnotIds id h hmem).append hnodup' fun id hmem h ↦ ?_
  rcases List.mem_append.mp hmem with hmem | hmem
  · exact hnotIds' id h hmem
  · exact (hfail id (by simpa using h)).2.2 (by simpa using hmem)

namespace WorkflowDocV1

variable (doc : WorkflowDocV1)

def ids : List String := doc.nodes.map (·.id)

def arrayNextId (index : Nat) : Option String := doc.nodes[index + 1]?.map (·.id)

def outcomeToEdge (finish : FinishPlan) (index : Nat) : V1Outcome → Option String
  | .goto_ node => some node
  | .continue_ => (doc.arrayNextId index).or finish.succeedId
  | .stop => finish.succeedId
  | .fail => finish.failId

def gateNeedsSucceed (index : Nat) : V1Outcome → Bool
  | .stop => true
  | .continue_ => (doc.arrayNextId index).isNone
  | .fail | .goto_ _ => false

def needsSucceed : Bool :=
  doc.nodes.zipIdx.any fun (n, i) ↦
    match n.body with
    | .script .. => false
    | .gate _ then_ else_ _ => doc.gateNeedsSucceed i then_ || doc.gateNeedsSucceed i else_

def needsFail : Bool :=
  doc.nodes.any fun n ↦
    match n.body with
    | .script _ _ onFailure _ => onFailure = .fail
    | .gate _ then_ else_ _ => then_ = .fail || else_ = .fail

/-- A node of the document, with its edges. -/
def convertNode (finish : FinishPlan) (index : Nat) (node : V1Node) : WorkflowNode :=
  match node.body with
  | .script script params onFailure next =>
    ⟨node.id, true, .step (.script ⟨script, params, next.or (doc.arrayNextId index),
      doc.outcomeToEdge finish index onFailure⟩)⟩
  | .gate when_ then_ else_ _ =>
    ⟨node.id, true, .step (.gate ⟨when_, doc.outcomeToEdge finish index then_,
      doc.outcomeToEdge finish index else_⟩)⟩

/-- The message of the shared `finish` node: that of the first gate that fails the run. -/
def failMessage : String :=
  (doc.nodes.findSome? fun n ↦
    match n.body with
    | .script .. => none
    | .gate _ then_ else_ message =>
      if then_ = .fail ∨ else_ = .fail then some message else none).getD ""

/-- The nodes of the upgraded document. -/
def convertedNodes (startId : String) (finish : FinishPlan) : List WorkflowNode :=
  ⟨startId, true, .start (doc.nodes[0]?.map (·.id))⟩ ::
    (doc.nodes.zipIdx.map fun (n, i) ↦ doc.convertNode finish i n) ++
    (finish.succeedId.map fun id ↦ (⟨id, true, .finish .succeed ""⟩ : WorkflowNode)).toList ++
    (finish.failId.map fun id ↦ (⟨id, true, .finish .fail doc.failMessage⟩ : WorkflowNode)).toList

/-- The error of `freshStartId`. -/
def noStartId : UpgradeError :=
  .upgradeFailed "could not find a free id for the prepended start node"

/-- The error of `freshFinishId`. -/
def noFinishId (seed : String) : UpgradeError :=
  .upgradeFailed s!"could not find a free id for the \"{seed}\" finish node"

def freshFinishId (seed : String) (needed : Bool) (taken : List String) :
    Except UpgradeError (Option String) :=
  if needed then
    match freshId seed taken with
    | some id => .ok (some id)
    | none => .error (noFinishId seed)
  else .ok none

/-- The checks of `WorkflowDocSchema` across nodes.  Those of single fields were made on the v1
document, and an upgraded document has no shuffle and no switch. -/
def acceptsDoc (v2 : WorkflowDoc) : Bool :=
  1 ≤ v2.nodes.length && v2.nodes.length ≤ maxNodes && decide (v2.nodes.map (·.id)).Nodup &&
    (v2.nodes.find? (·.id = v2.entry)).any (·.isStart) && (v2.nodes.filter (·.isStart)).length = 1

/-- The ids of the nodes that are added. -/
def freshIds : Except UpgradeError (String × FinishPlan) :=
  match freshId "start" doc.ids with
  | none => .error noStartId
  | some startId => do
    let taken := doc.ids ++ [startId]
    let succeedId ← freshFinishId "finish-succeed" doc.needsSucceed taken
    let failId ← freshFinishId "finish-failed" doc.needsFail (taken ++ succeedId.toList)
    return (startId, ⟨succeedId, failId⟩)

/-- `convertV1`, up to the check of what it has made. -/
def convertV1 (startId : String) (finish : FinishPlan) : WorkflowDoc where
  name := doc.name
  params := doc.params
  entry := startId
  nodes := doc.convertedNodes startId finish
  maxSteps := doc.maxSteps
  onFail := doc.onFail

/-- `upgradeWorkflowDoc`, on a document of the v1 shape. -/
def upgradeWorkflowDoc : Except UpgradeError WorkflowDoc := do
  let (startId, finish) ← doc.freshIds
  let v2 := doc.convertV1 startId finish
  if acceptsDoc v2 then .ok v2 else .error .refused

end WorkflowDocV1

/-! ## Walks -/

/-- How a walk ends; `noNode` is a reference to a node that is not there. -/
inductive WalkEnd where
  | succeeded | failed | noNode
  deriving DecidableEq, Repr

inductive WalkCursor where
  | at_ (id : String)
  | ended (how : WalkEnd)
  deriving DecidableEq, Repr

/-- The script and gate nodes visited so far, and where the walk is. -/
structure WalkState where
  visited : List String
  cursor : WalkCursor
  deriving DecidableEq, Repr

/-- What the nodes come to, by what was visited before: whether a script succeeds, or a gate holds. -/
abbrev NodeResults := List String → String → Bool

namespace WorkflowDocV1

variable (doc : WorkflowDocV1) (results : NodeResults)

/-- A node and its place. -/
def node? (id : String) : Option (V1Node × Nat) := doc.nodes.zipIdx.find? fun p ↦ p.1.id = id

def enter (id : String) : WalkCursor :=
  if (doc.node? id).isSome then .at_ id else .ended .noNode

/-- The outcome a node is left by. -/
def exit (node : V1Node) (result : Bool) : V1Outcome :=
  match node.body with
  | .script _ _ onFailure next =>
    if result then next.elim .continue_ .goto_ else onFailure
  | .gate _ then_ else_ _ => if result then then_ else else_

def follow (index : Nat) : V1Outcome → WalkCursor
  | .goto_ node => doc.enter node
  | .continue_ => (doc.arrayNextId index).elim (.ended .succeeded) doc.enter
  | .stop => .ended .succeeded
  | .fail => .ended .failed

def walkStep (s : WalkState) : WalkState :=
  match s.cursor with
  | .ended _ => s
  | .at_ id =>
    match doc.node? id with
    | none => { s with cursor := .ended .noNode }
    | some (node, index) =>
      ⟨s.visited ++ [id], doc.follow index (exit node (results s.visited id))⟩

/-- The walk after so many nodes. -/
def walk : Nat → WalkState
  | 0 => ⟨[], (doc.nodes[0]?).elim (.ended .succeeded) fun n ↦ .at_ n.id⟩
  | n + 1 => doc.walkStep results (walk n)

end WorkflowDocV1

namespace WorkflowDoc

variable (doc : WorkflowDoc) (results : NodeResults)

/-- A `finish` node ends the walk where it is reached. -/
def enter (id : String) : WalkCursor :=
  match doc.node? id with
  | none => .ended .noNode
  | some node =>
    match node.body with
    | .finish .succeed _ => .ended .succeeded
    | .finish .fail _ => .ended .failed
    | .start _ | .step _ => .at_ id

/-- An edge; where it dangles the walk ends. -/
def follow (dangling : WalkEnd) : Option String → WalkCursor
  | none => .ended dangling
  | some id => doc.enter id

/-- One node; of the steps only those an upgraded document has. -/
def walkStep (s : WalkState) : WalkState :=
  match s.cursor with
  | .ended _ => s
  | .at_ id =>
    match (doc.node? id).map WorkflowNode.body with
    | some (.start next) => { s with cursor := doc.follow .succeeded next }
    | some (.step (.script n)) =>
      ⟨s.visited ++ [id], if results s.visited id then doc.follow .succeeded n.next
        else doc.follow .failed n.onFailure⟩
    | some (.step (.gate n)) =>
      ⟨s.visited ++ [id], doc.follow .succeeded (if results s.visited id then n.then_ else n.else_)⟩
    | _ => { s with cursor := .ended .noNode }

/-- The walk from the entry, after so many nodes. -/
def walk : Nat → WalkState
  | 0 => ⟨[], doc.enter doc.entry⟩
  | n + 1 => doc.walkStep results (walk n)

end WorkflowDoc

end Enkaku
