import Enkaku.Workflow.DocSchema
import Enkaku.Workflow.RankLayout

/-!
# Upgrading a stored document

`upgradeWorkflowDoc` of `workflows/upgrade.ts` on whatever value a row holds: the frozen v1 shape, the
conversion with all it copies and adds, the layout, and the schema the result is parsed with.

That last `parse` stands outside the guarded ones.  It refuses what the conversion has made of a v1
document just if two of its nodes have one id, or the added nodes are too many beside its own
(`upgradeWorkflowDoc_of_v1`); then what is thrown is a plain `ZodError`.
-/

set_option autoImplicit false

namespace Enkaku.Stored

open List

open Zod Schema RankLayout

/-! ## The frozen v1 shape -/

/-- An end, or the node to go to. -/
def v1GateOutcomeForms : List (List (String × ZodType)) :=
  [[("go", enum ["continue", "stop", "fail"])],
    [("go", literal (.str "goto")), ("node", workflowNodeIdSchema)]]

/-- `V1GateOutcomeSchema`. -/
def v1GateOutcomeSchema : ZodType := union (v1GateOutcomeForms.map strictObject)

/-- `{ go }`. -/
def v1Go (go : String) : Value := .obj [("go", .str go)]

def v1ScriptFields : List (String × ZodType) :=
  [("kind", literal (.str "script")), ("id", workflowNodeIdSchema), ("title", textSchema 80),
    ("script", scriptRefSchema), ("params", bindingsSchema),
    ("reset", optional (enum ["farm", "none"])), ("retries", optional (intBetween 0 10)),
    ("onFailure", withDefault v1GateOutcomeSchema (v1Go "fail")), ("next", edgeSchema)]

def v1GateFields : List (String × ZodType) :=
  [("kind", literal (.str "gate")), ("id", workflowNodeIdSchema), ("title", textSchema 80),
    ("when", predicateSchema), ("then", withDefault v1GateOutcomeSchema (v1Go "continue")),
    ("else", withDefault v1GateOutcomeSchema (v1Go "stop")), ("message", textSchema 200)]

/-- `V1WorkflowNodeSchema`. -/
def v1WorkflowNodeSchema : ZodType :=
  discriminatedUnion "kind"
    [("script", strictObject v1ScriptFields), ("gate", strictObject v1GateFields)]

def workflowDocV1Fields : List (String × ZodType) :=
  [("schema", literal (.num 1)), ("name", workflowNameSchema), ("title", textSchema 80),
    ("description", textSchema 300), ("params", paramsSchema),
    ("nodes", array v1WorkflowNodeSchema fun n ↦ 1 ≤ n && n ≤ maxNodes),
    ("maxSteps", withDefault (intBetween 1 500) (.num 50)), ("onFail", onFailSchema)]

def workflowDocV1Schema : ZodType := strictObject workflowDocV1Fields

/-! ## Fresh ids -/

/-- What is thrown: an `EnkakuError` with its code, or the `ZodError` of a `parse`. -/
inductive Thrown where
  | enkakuError (code message : String)
  | zodError

def upgradeFailed (message : String) : Thrown := .enkakuError "E_WORKFLOW_UPGRADE_FAILED" message

def freshStartId (existing : List String) : Except Thrown String :=
  match freshId "start" existing with
  | some id => .ok id
  | none => .error (upgradeFailed "could not find a free id for the prepended start node")

/-- `freshFinishId`, where such a node is needed. -/
def freshFinishId (seed : String) (needed : Bool) (taken : List String) :
    Except Thrown (Option String) :=
  if needed then
    match freshId seed taken with
    | some id => .ok (some id)
    | none => .error (upgradeFailed s!"could not find a free id for the \"{seed}\" finish node")
  else .ok none

/-! ## The conversion -/

/-- The string in a place where the shape has one. -/
def textOf : Value → String
  | .str s => s
  | _ => ""

section Convert

variable (nodes : List Value)

def nodeIds : List String := nodes.map fun n ↦ textOf (idOf n)

def arrayNextId (index : ℕ) : Option String := nodes[index + 1]?.map fun n ↦ textOf (idOf n)

/-- `outcome.go === go`. -/
def isGo (outcome : Value) (go : String) : Bool := field outcome "go" = .str go

def outcomeToEdge (outcome : Value) (index : ℕ) (finish : FinishPlan) : Option String :=
  if isGo outcome "goto" then some (textOf (field outcome "node"))
  else if isGo outcome "continue" then (arrayNextId nodes index).or finish.succeedId
  else if isGo outcome "stop" then finish.succeedId
  else finish.failId

def gateNeedsSucceed (outcome : Value) (index : ℕ) : Bool :=
  if isGo outcome "stop" then true
  else if isGo outcome "continue" then (arrayNextId nodes index).isNone
  else false

def needsSucceed : Bool :=
  nodes.zipIdx.any fun p ↦ isKind "gate" p.1 &&
    (gateNeedsSucceed nodes (field p.1 "then") p.2 || gateNeedsSucceed nodes (field p.1 "else") p.2)

/-- Whether a gate has an outcome that fails the run. -/
def gateFails (node : Value) : Bool :=
  isKind "gate" node && (isGo (field node "then") "fail" || isGo (field node "else") "fail")

def needsFail : Bool :=
  nodes.any fun n ↦ isKind "script" n && isGo (field n "onFailure") "fail" || gateFails n

/-- An edge as it is stored; one that dangles is `undefined`. -/
def edgeValue (id : Option String) : Value :=
  match id with
  | some id => .str id
  | none => .undefined

def pointValue (p : RankPoint) : Value := .obj [("x", .num p.x), ("y", .num p.y)]

/-- What the conversion writes in a node of any kind; a v1 document has none that is switched off. -/
def converted (id title : Value) (kind : String) (own : Node) : Node :=
  [("id", id), ("title", title), ("ui", pointValue ⟨0, 0⟩), ("enabled", .bool true),
    ("kind", .str kind)] ++ own

def startNode (startId : String) : Node :=
  converted (.str startId) (.str "") "start"
    [("next", edgeValue (nodes[0]?.map fun n ↦ textOf (idOf n)))]

/-- A node of the document, with its edges. -/
def convertNode (finish : FinishPlan) (node : Value) (index : ℕ) : Node :=
  if isKind "script" node then
    converted (idOf node) (field node "title") "script"
      [("script", field node "script"), ("params", field node "params"),
        ("reset", field node "reset"), ("retries", field node "retries"),
        ("next", if field node "next" = .undefined then edgeValue (arrayNextId nodes index)
          else field node "next"),
        ("onFailure", edgeValue (outcomeToEdge nodes (field node "onFailure") index finish))]
  else
    converted (idOf node) (field node "title") "gate"
      [("when", field node "when"),
        ("then", edgeValue (outcomeToEdge nodes (field node "then") index finish)),
        ("else", edgeValue (outcomeToEdge nodes (field node "else") index finish))]

def finishNode (status : String) (message : Value) (id : String) : Node :=
  converted (.str id) (.str "") "finish" [("status", .str status), ("message", message)]

/-- The message of the shared `finish` node: that of the first gate that fails the run. -/
def failMessage : Value :=
  match nodes.find? gateFails with
  | some gate => field gate "message"
  | none => .str ""

def convertedNodes (startId : String) (finish : FinishPlan) : List Node :=
  startNode nodes startId :: (nodes.zipIdx.map fun p ↦ convertNode nodes finish p.1 p.2) ++
    (finish.succeedId.map (finishNode "succeed" (.str ""))).toList ++
    (finish.failId.map (finishNode "fail" (failMessage nodes))).toList

end Convert

/-- The edges the ranks are counted along. -/
def rankEdges (nodes : List Node) : List RankEdge :=
  nodes.flatMap fun n ↦
    let edge (key : String) : List RankEdge :=
      let target := textOf (n.prop key)
      if target = "" then [] else [⟨textOf (n.prop "id"), target⟩]
    if n.prop "kind" = .str "start" then edge "next"
    else if n.prop "kind" = .str "script" then edge "next" ++ edge "onFailure"
    else if n.prop "kind" = .str "gate" then edge "then" ++ edge "else"
    else []

/-- The nodes with their places. -/
def positioned (nodes : List Node) : List Value :=
  let positions := rankAndRow (nodes.map fun n ↦ textOf (Node.prop n "id")) (rankEdges nodes)
  nodes.map fun n : Node ↦
    .obj (OrdMap.set "ui"
      (match OrdMap.get? (textOf (n.prop "id")) positions with
        | some p => pointValue p
        | none => n.prop "ui") n)

/-- The document the conversion has made, before it is parsed. -/
def v2Of (v1 : Value) (startId : String) (finish : FinishPlan) : Node :=
  [("schema", .num 2), ("name", field v1 "name"), ("title", field v1 "title"),
    ("description", field v1 "description"), ("params", field v1 "params"),
    ("entry", .str startId),
    ("nodes", .arr (positioned (convertedNodes (nodesOf v1) startId finish))),
    ("maxSteps", field v1 "maxSteps"), ("onFail", field v1 "onFail")]

/-- The ids of the nodes that are added. -/
def freshIds (nodes : List Value) : Except Thrown (String × FinishPlan) := do
  let startId ← freshStartId (nodeIds nodes)
  let taken := nodeIds nodes ++ [startId]
  let succeedId ← freshFinishId "finish-succeed" (needsSucceed nodes) taken
  let failId ← freshFinishId "finish-failed" (needsFail nodes) (taken ++ succeedId.toList)
  return (startId, ⟨succeedId, failId⟩)

def convertV1 (v1 : Value) : Except Thrown Value := do
  let (startId, finish) ← freshIds (nodesOf v1)
  match workflowDocSchema (.obj (v2Of v1 startId finish)) with
  | some doc => .ok doc
  | none => .error .zodError

/-- What the texts of errors are made with: the issues of a `safeParse`, joined, and
`JSON.stringify`. -/
structure ErrorTexts where
  issues : Value → String
  stringify : Value → String

/-- `upgradeWorkflowDoc`. -/
def upgradeWorkflowDoc (texts : ErrorTexts) (raw : Value) : Except Thrown Value :=
  let schema := field raw "schema"
  if schema = .num 2 then
    match workflowDocSchema raw with
    | some doc => .ok doc
    | none => .error (upgradeFailed (texts.issues raw))
  else if schema = .num 1 then
    match workflowDocV1Schema raw with
    | some v1 => convertV1 v1
    | none => .error (upgradeFailed (texts.issues raw))
  else
    .error (.enkakuError "E_WORKFLOW_SCHEMA_UNKNOWN"
      s!"workflow document declares schema {texts.stringify schema}, expected 1 or 2")

/-! ## Ids -/

/-- What a node id is. -/
def IsNodeId (s : String) : Prop := workflowNodeIdSchema (.str s) = some (.str s)

theorem isNodeId_iff {s : String} :
    IsNodeId s ↔ 1 ≤ utf16Length s ∧ utf16Length s ≤ 64 ∧ isNodeId s.toList = true := by
  rw [IsNodeId, workflowNodeIdSchema, string_str]
  split_ifs with h
  · simpa [lengthBetween, and_assoc] using h
  · simpa [lengthBetween, and_assoc] using h

/-- A seed of an id, with room for a number. -/
def IsSeed (seed : String) : Prop := utf16Length seed ≤ 40 ∧ isNodeId seed.toList = true

theorem utf16Length_append (s s' : String) : utf16Length (s ++ s') = utf16Length s + utf16Length s' := by
  rw [utf16Length, utf16Length, utf16Length, String.toList_append, map_append, sum_append]

theorem isNodeId_append {cs cs' : List Char} (h : isNodeId cs = true)
    (h' : ∀ c ∈ cs', isLowerOrDigit c || c = '-') : isNodeId (cs ++ cs') = true := by
  cases cs with
  | nil => exact absurd h (by simp [isNodeId])
  | cons c cs =>
    rw [isNodeId, Bool.and_eq_true, all_eq_true] at h
    rw [cons_append, isNodeId, Bool.and_eq_true, all_eq_true]
    refine ⟨h.1, fun c' hc' ↦ ?_⟩
    rcases mem_append.mp hc' with hc' | hc'
    · exact h.2 c' hc'
    · exact h' c' hc'

theorem utf16Length_toString_le {n : ℕ} (h : n < 10 ^ 4) : utf16Length (toString n) ≤ 4 := by
  have hlen : (Nat.toDigits 10 n).length ≤ 4 :=
    (Nat.length_toDigits_le_iff (by decide) (by decide)).mpr h
  have hsum : utf16Length (toString n) = (Nat.toDigits 10 n).length := by
    rw [utf16Length, Nat.toString_eq_repr, Nat.toList_repr]
    rw [map_congr_left (g := fun _ ↦ 1), map_const', sum_replicate]
    · simp
    · intro c hc
      have hdigit := Nat.isDigit_of_mem_toDigits (by decide) (by decide) hc
      rw [Char.isDigit, Bool.and_eq_true, decide_eq_true_eq, decide_eq_true_eq] at hdigit
      rw [if_neg]
      have hle : c.val.toNat ≤ 57 := UInt32.le_iff_toNat_le.mp hdigit.2
      intro hgt
      have hgt : (0xFFFF : ℕ) < c.val.toNat := UInt32.lt_iff_toNat_lt.mp hgt
      omega
  omega

theorem isNodeId_of_freshId {seed id : String} {taken : List String} (hseed : IsSeed seed)
    (h : freshId seed taken = some id) : IsNodeId id := by
  have hne : 1 ≤ utf16Length seed := by
    obtain ⟨-, hseed⟩ := hseed
    rw [utf16Length]
    cases hcs : seed.toList with
    | nil => exact absurd (hcs ▸ hseed) (by simp [isNodeId])
    | cons c cs =>
      rw [map_cons, sum_cons]
      split_ifs <;> omega
  by_cases hfree : seed ∉ taken
  · rw [freshId, if_pos hfree] at h
    cases h
    exact isNodeId_iff.mpr ⟨hne, hseed.1.trans (by decide), hseed.2⟩
  · rw [freshId, if_neg hfree] at h
    obtain ⟨i, hi, rfl⟩ := mem_map.mp (mem_of_find?_eq_some h)
    have hi : i + 2 < 10 ^ 4 := by
      have := mem_range.mp hi
      rw [freshTries] at this
      omega
    have hdash : utf16Length "-" = 1 := rfl
    have hnumber := utf16Length_toString_le hi
    rw [isNodeId_iff, utf16Length_append, utf16Length_append, hdash, String.toList_append,
      String.toList_append]
    refine ⟨by omega, ?_, ?_⟩
    · have := hseed.1
      omega
    · refine isNodeId_append (isNodeId_append hseed.2 ?_) ?_
      · intro c hc
        obtain rfl := mem_singleton.mp hc
        decide
      · intro c hc
        rw [Nat.toString_eq_repr, Nat.toList_repr] at hc
        simp [isLowerOrDigit, Nat.isDigit_of_mem_toDigits (by decide) (by decide) hc]

/-- The ids that the added nodes are given. -/
structure Fresh (nodes : List Value) (startId : String) (finish : FinishPlan) : Prop where
  isSome_succeed : finish.succeedId.isSome = needsSucceed nodes
  isSome_fail : finish.failId.isSome = needsFail nodes
  start : startId ∉ nodeIds nodes
  succeed : ∀ id, finish.succeedId = some id → id ∉ nodeIds nodes ∧ id ≠ startId
  fail : ∀ id, finish.failId = some id →
    id ∉ nodeIds nodes ∧ id ≠ startId ∧ finish.succeedId ≠ some id
  isNodeId_start : IsNodeId startId
  isNodeId_succeed : ∀ id, finish.succeedId = some id → IsNodeId id
  isNodeId_fail : ∀ id, finish.failId = some id → IsNodeId id

theorem exists_freshFinishId (seed : String) (hseed : IsSeed seed) (needed : Bool)
    {taken : List String} (h : taken.length < freshTries) :
    ∃ id, freshFinishId seed needed taken = .ok id ∧ id.isSome = needed ∧
      ∀ i, id = some i → i ∉ taken ∧ IsNodeId i := by
  cases needed with
  | false => exact ⟨none, by simp [freshFinishId], by simp, by simp⟩
  | true =>
    obtain ⟨id, hid⟩ := exists_freshId seed h
    refine ⟨some id, by simp [freshFinishId, hid], by simp, fun i hi ↦ ?_⟩
    cases hi
    exact ⟨freshId_not_mem hid, isNodeId_of_freshId hseed hid⟩

/-- There is always a free id for the nodes that are added. -/
theorem exists_freshIds {nodes : List Value} (hlength : nodes.length ≤ maxNodes) :
    ∃ startId finish, freshIds nodes = .ok (startId, finish) ∧ Fresh nodes startId finish := by
  have hids : (nodeIds nodes).length ≤ 50 := by simpa [nodeIds, maxNodes] using hlength
  have hroom : ∀ {taken : List String}, taken.length ≤ 52 → taken.length < freshTries := by
    intro taken htaken
    rw [freshTries]
    omega
  obtain ⟨startId, hstart⟩ := exists_freshId "start" (hroom (by omega : (nodeIds nodes).length ≤ 52))
  obtain ⟨succeedId, hsucceed, hsucceedSome, hsucceedNew⟩ :=
    exists_freshFinishId "finish-succeed" ⟨by decide, by decide⟩ (needsSucceed nodes)
      (hroom (by simp; omega : (nodeIds nodes ++ [startId]).length ≤ 52))
  have hlengthSucceed : succeedId.toList.length ≤ 1 := by cases succeedId <;> simp
  obtain ⟨failId, hfail, hfailSome, hfailNew⟩ :=
    exists_freshFinishId "finish-failed" ⟨by decide, by decide⟩ (needsFail nodes)
      (hroom (by simp only [length_append, length_singleton]; omega :
        (nodeIds nodes ++ [startId] ++ succeedId.toList).length ≤ 52))
  refine ⟨startId, ⟨succeedId, failId⟩, ?_, hsucceedSome, hfailSome, freshId_not_mem hstart,
    fun id hid ↦ ?_, fun id hid ↦ ?_, isNodeId_of_freshId ⟨by decide, by decide⟩ hstart,
    fun id hid ↦ (hsucceedNew id hid).2, fun id hid ↦ (hfailNew id hid).2⟩
  · simp only [freshIds, freshStartId, hstart, hsucceed, hfail, bind, Except.bind, pure, Except.pure]
  · simpa using (hsucceedNew id hid).1
  · simpa [and_assoc] using (hfailNew id hid).1

/-! ## What a v1 node has -/

/-- A value that is parsed to itself. -/
def Fits (z : ZodType) (v : Value) : Prop := z v = some v

theorem fits_edgeValue {id : Option String} (h : ∀ s, id = some s → IsNodeId s) :
    Fits edgeSchema (edgeValue id) := by
  cases id with
  | none => rfl
  | some s => exact h s rfl

theorem isNodeId_textOf {v : Value} (h : Fits workflowNodeIdSchema v) : IsNodeId (textOf v) := by
  obtain ⟨s, rfl, -, -⟩ := string_eq_some h
  exact h

@[simp] theorem idempotent_v1GateOutcomeSchema : Idempotent v1GateOutcomeSchema := by
  refine idempotent_union_strictObject v1GateOutcomeForms (by decide) ?_ (by decide)
  simp only [v1GateOutcomeForms, forall_mem_cons]
  simp

@[simp] theorem idempotent_v1GateOutcomeDefault {go : String} (h : go ∈ ["continue", "stop", "fail"]) :
    Idempotent (withDefault v1GateOutcomeSchema (v1Go go)) := by
  refine idempotent_withDefault idempotent_v1GateOutcomeSchema rfl ?_
  fin_cases h <;> rfl

/-- A `goto` has the id of a node. -/
theorem isNodeId_goto {outcome : Value} {go : String}
    (h : Fits (withDefault v1GateOutcomeSchema (v1Go go)) outcome) (hgoto : isGo outcome "goto" = true) :
    IsNodeId (textOf (field outcome "node")) := by
  have hgoto : field outcome "go" = .str "goto" := by simpa [isGo] using hgoto
  have houtcome : v1GateOutcomeSchema outcome = some outcome :=
    eq_of_withDefault (by simp [v1Go]) h
  obtain ⟨z, hz, hw⟩ := exists_of_findSome?_eq_some houtcome
  rcases mem_cons.mp hz with rfl | hz
  · have hgo := field_of_strictObject (by decide) hw (.head _)
    rw [hgoto] at hgo
    exact nomatch hgo
  · obtain rfl := mem_singleton.mp hz
    exact isNodeId_textOf (field_of_strictObject (by decide) hw
      (.tail _ (.head _)))

/-- A node of the v1 shape has the fields of its kind, each as the schema leaves it. -/
theorem fields_of_v1Node {v n : Value} (h : v1WorkflowNodeSchema v = some n) :
    (isKind "script" n = true ∧ ∀ p ∈ v1ScriptFields, Fits p.2 (field n p.1)) ∨
      (isKind "script" n = false ∧ isKind "gate" n = true ∧
        ∀ p ∈ v1GateFields, Fits p.2 (field n p.1)) := by
  have hscript : ∀ p ∈ v1ScriptFields, Idempotent p.2 := by
    simp only [v1ScriptFields, forall_mem_cons]
    simp
  have hgate : ∀ p ∈ v1GateFields, Idempotent p.2 := by
    simp only [v1GateFields, forall_mem_cons]
    simp
  rw [v1WorkflowNodeSchema, discriminatedUnion] at h
  split at h
  · obtain ⟨z, hz, hw⟩ := Option.bind_eq_some_iff.mp h
    rcases mem_cons.mp (OrdMap.mem_of_get? hz) with heq | hz
    · obtain rfl := (Prod.mk.inj heq).2
      have hfits : ∀ p ∈ v1ScriptFields, Fits p.2 (field n p.1) := fun p hp ↦
        hscript p hp _ _ (field_of_strictObject (by decide) hw hp)
      refine .inl ⟨?_, hfits⟩
      rw [isKind, (literal_eq_some.mp (hfits _ (.head _))).1]
      decide
    · obtain rfl := (Prod.mk.inj (mem_singleton.mp hz)).2
      have hfits : ∀ p ∈ v1GateFields, Fits p.2 (field n p.1) := fun p hp ↦
        hgate p hp _ _ (field_of_strictObject (by decide) hw hp)
      have hkind := (literal_eq_some.mp (hfits _ (.head _))).1
      refine .inr ⟨?_, ?_, hfits⟩
      · rw [isKind, hkind]
        decide
      · rw [isKind, hkind]
        decide
  · cases h

/-! ## The nodes of the upgraded document -/

section Nodes

variable {nodes : List Value} {startId : String} {finish : FinishPlan}

/-- A node that the schema of the documents takes, and what it keeps of it. -/
structure Accepted (raw : Node) (w : Value) : Prop where
  parse : workflowNodeSchema (.obj raw) = some w
  id : idOf w = raw.prop "id"
  kind : field w "kind" = raw.prop "kind"

theorem exists_accepted {p : String × List (String × ZodType)} (hp : p ∈ nodeKinds) {raw : Node}
    (hkind : raw.prop "kind" = .str p.1) (hknown : ∀ q ∈ raw, q.1 ∈ (nodeFields p.1 p.2).map (·.1))
    (hfits : ∀ q ∈ nodeFields p.1 p.2, Fits q.2 (raw.prop q.1)) : ∃ w, Accepted raw w := by
  obtain ⟨out, hout⟩ := exists_shape fun q hq ↦ ⟨_, hfits q hq⟩
  have hparse := strictObject_of_shape hknown hout
  have hprop : ∀ q ∈ nodeFields p.1 p.2, out.prop q.1 = raw.prop q.1 := fun q hq ↦ by
    have := prop_of_shape (nodup_nodeFields p hp) hout hq
    rw [hfits q hq] at this
    exact (Option.some.inj this).symm
  refine ⟨.obj out, ?_, hprop ("id", workflowNodeIdSchema) (by simp [nodeFields, nodeBase]),
    hprop ("kind", literal (.str p.1)) (kind_mem_nodeFields p)⟩
  have hget : OrdMap.get? p.1 (nodeKinds.map fun p ↦ (p.1, strictObject (nodeFields p.1 p.2))) =
      some (strictObject (nodeFields p.1 p.2)) :=
    OrdMap.get?_of_mem (by decide) (mem_map_of_mem hp)
  rw [workflowNodeSchema, discriminatedUnion, field, hkind]
  dsimp only
  rw [hget]
  exact hparse

variable {p : RankPoint}

theorem fits_pointValue (hx : p.x ≤ 100000) (hy : p.y ≤ 100000) :
    Fits workflowPointSchema (pointValue p) := by
  have hint : ∀ n : ℕ, n ≤ 100000 → intBetween (-100000) 100000 (.num n) = some (.num n) := by
    intro n hn
    have hq : (n : ℚ) ≤ 100000 := by exact_mod_cast hn
    have hq0 : (0 : ℚ) ≤ n := Nat.cast_nonneg n
    have hsafe : (n : ℚ) ≤ unbounded := by
      rw [unbounded]
      norm_num
      linarith
    rw [intBetween, number_num, if_pos]
    simp only [Rat.isInt, Rat.den_natCast, Nat.abs_cast, hsafe]
    simp only [beq_self_eq_true, decide_true, Bool.and_true, Bool.true_and, Bool.and_eq_true,
      decide_eq_true_eq]
    exact ⟨by push_cast; linarith, by exact_mod_cast hn⟩
  have hshape : shape [("x", intBetween (-100000) 100000), ("y", intBetween (-100000) 100000)]
      [("x", .num p.x), ("y", .num p.y)] = some [("x", .num p.x), ("y", .num p.y)] := by
    simp [shape, Node.prop, OrdMap.get?, hint _ hx, hint _ hy]
  exact strictObject_of_shape (by simp) hshape

/-- A node the conversion writes is accepted if what belongs to its kind is. -/
theorem exists_accepted_converted (kind : String) {ownFields : List (String × ZodType)}
    (hkind : (kind, ownFields) ∈ nodeKinds) {id title : Value} {own : Node}
    (hid : Fits workflowNodeIdSchema id) (htitle : Fits (textSchema 80) title) (hx : p.x ≤ 100000)
    (hy : p.y ≤ 100000) (hkeys : own.map (·.1) = ownFields.map (·.1))
    (hown : ∀ q ∈ ownFields, Fits q.2 (own.prop q.1)) :
    ∃ w, Accepted (OrdMap.set "ui" (pointValue p) (converted id title kind own)) w := by
  have hset : OrdMap.set "ui" (pointValue p) (converted id title kind own) =
      [("id", id), ("title", title), ("ui", pointValue p), ("enabled", .bool true),
        ("kind", .str kind)] ++ own := by
    simp [converted, OrdMap.set]
  rw [hset]
  refine exists_accepted hkind rfl ?_ ?_
  · intro q hq
    rw [nodeFields, map_append, map_cons, ← hkeys]
    rcases mem_append.mp hq with hq | hq
    · fin_cases hq <;> simp [nodeBase]
    · exact mem_append_right _ (.tail _ (mem_map_of_mem hq))
  · intro q hq
    have hnodup : (["id", "title", "ui", "enabled", "kind"] ++ ownFields.map (·.1)).Nodup :=
      nodup_nodeFields _ hkind
    rcases mem_append.mp hq with hq | hq
    · simp only [nodeBase, mem_cons, not_mem_nil, or_false] at hq
      rcases hq with rfl | rfl | rfl | rfl
      · exact hid
      · exact htitle
      · exact fits_pointValue hx hy
      · rfl
    · rcases mem_cons.mp hq with rfl | hq
      · exact literal_eq_some.mpr ⟨rfl, rfl⟩
      · -- the key is none of those every node has
        have hnot : ∀ key ∈ ["id", "title", "ui", "enabled", "kind"], key ≠ q.1 := fun key hkey ↦
          (nodup_append.mp hnodup).2.2 key hkey q.1 (mem_map_of_mem hq)
        have hprop : Node.prop ([("id", id), ("title", title), ("ui", pointValue p),
            ("enabled", .bool true), ("kind", .str kind)] ++ own) q.1 = own.prop q.1 := by
          simp only [forall_mem_cons] at hnot
          simp [Node.prop, OrdMap.get?, hnot]
        rw [hprop]
        exact hown q hq

/-- Nodes of the v1 shape. -/
def V1Nodes (nodes : List Value) : Prop := ∀ n ∈ nodes, ∃ v, v1WorkflowNodeSchema v = some n

section

variable (h : V1Nodes nodes)
include h

theorem fits_idOf {n : Value} (hn : n ∈ nodes) : Fits workflowNodeIdSchema (idOf n) := by
  obtain ⟨v, hv⟩ := h n hn
  rcases fields_of_v1Node hv with ⟨-, hfields⟩ | ⟨-, -, hfields⟩
  · exact hfields ("id", workflowNodeIdSchema) (by simp [v1ScriptFields])
  · exact hfields ("id", workflowNodeIdSchema) (by simp [v1GateFields])

theorem isNodeId_getElem? {i : ℕ} {s : String}
    (hs : (nodes[i]?.map fun n ↦ textOf (idOf n)) = some s) : IsNodeId s := by
  obtain ⟨n, hn, rfl⟩ := Option.map_eq_some_iff.mp hs
  exact isNodeId_textOf (fits_idOf h (mem_of_getElem? hn))

theorem fits_outcomeToEdge (hfresh : Fresh nodes startId finish) {go : String}
    {outcome : Value} (houtcome : Fits (withDefault v1GateOutcomeSchema (v1Go go)) outcome)
    (index : ℕ) : Fits edgeSchema (edgeValue (outcomeToEdge nodes outcome index finish)) := by
  refine fits_edgeValue fun s hs ↦ ?_
  rw [outcomeToEdge] at hs
  split_ifs at hs with hgoto
  · rw [← Option.some.inj hs]
    exact isNodeId_goto houtcome hgoto
  · rcases Option.or_eq_some_iff.mp hs with hnext | ⟨-, hsucceed⟩
    · exact isNodeId_getElem? h hnext
    · exact hfresh.isNodeId_succeed s hsucceed
  · exact hfresh.isNodeId_succeed s hs
  · exact hfresh.isNodeId_fail s hs

theorem exists_accepted_convertNode (hfresh : Fresh nodes startId finish)
    {node : Value} (hnode : node ∈ nodes) (index : ℕ) (hx : p.x ≤ 100000) (hy : p.y ≤ 100000) :
    ∃ w, Accepted (OrdMap.set "ui" (pointValue p) (convertNode nodes finish node index)) w := by
  obtain ⟨v, hv⟩ := h node hnode
  rcases fields_of_v1Node hv with ⟨hkind, hfields⟩ | ⟨hkind, -, hfields⟩
  · rw [convertNode, if_pos hkind]
    simp only [v1ScriptFields, forall_mem_cons] at hfields
    obtain ⟨-, hid, htitle, hscript, hparams, hreset, hretries, honFailure, hnext, -⟩ := hfields
    refine exists_accepted_converted "script" (.tail _ (.head _)) hid
      htitle hx hy rfl ?_
    simp only [forall_mem_cons]
    refine ⟨hscript, hparams, hreset, hretries, ?_, fits_outcomeToEdge h hfresh honFailure index,
      by simp⟩
    change Fits edgeSchema (if field node "next" = .undefined then _ else _)
    split_ifs
    · exact fits_edgeValue fun s hs ↦ isNodeId_getElem? h hs
    · exact hnext
  · rw [convertNode, if_neg (by simp [hkind])]
    simp only [v1GateFields, forall_mem_cons] at hfields
    obtain ⟨-, hid, htitle, hwhen, hthen, helse, -, -⟩ := hfields
    refine exists_accepted_converted "gate" (.tail _ (List.mem_cons_of_mem _
      (.head _))) hid htitle hx hy rfl ?_
    simp only [forall_mem_cons]
    exact ⟨hwhen, fits_outcomeToEdge h hfresh hthen index, fits_outcomeToEdge h hfresh helse index,
      by simp⟩

theorem fits_failMessage : Fits (textSchema 200) (failMessage nodes) := by
  rw [failMessage]
  split
  · rename_i gate hgate
    obtain ⟨v, hv⟩ := h gate (mem_of_find?_eq_some hgate)
    have hkind : isKind "gate" gate = true := (Bool.and_eq_true _ _ ▸ List.find?_some hgate).1
    rcases fields_of_v1Node hv with ⟨hscript, -⟩ | ⟨-, -, hfields⟩
    · rw [isKind, decide_eq_true_eq] at hkind hscript
      rw [hkind] at hscript
      exact nomatch hscript
    · exact hfields ("message", textSchema 200) (by simp [v1GateFields])
  · rfl

end

theorem fits_text : Fits (textSchema 200) (.str "") := rfl

theorem exists_accepted_finishNode {status id : String} {message : Value}
    (hstatus : status ∈ ["succeed", "fail"]) (hmessage : Fits (textSchema 200) message)
    (hid : IsNodeId id) (hx : p.x ≤ 100000) (hy : p.y ≤ 100000) :
    ∃ w, Accepted (OrdMap.set "ui" (pointValue p) (finishNode status message id)) w := by
  have hkind : ("finish", [("status", withDefault (enum ["succeed", "fail"]) (.str "succeed")),
      ("message", textSchema 200)]) ∈ nodeKinds := by
    simp [nodeKinds]
  refine exists_accepted_converted "finish" hkind hid rfl hx hy rfl ?_
  simp only [forall_mem_cons]
  refine ⟨?_, hmessage, by simp⟩
  fin_cases hstatus <;> rfl

variable {n : Node}

theorem mem_convertedNodes : n ∈ convertedNodes nodes startId finish ↔
    n = startNode nodes startId ∨ (∃ p ∈ nodes.zipIdx, n = convertNode nodes finish p.1 p.2) ∨
      (∃ id, finish.succeedId = some id ∧ n = finishNode "succeed" (.str "") id) ∨
        ∃ id, finish.failId = some id ∧ n = finishNode "fail" (failMessage nodes) id := by
  simp [convertedNodes, eq_comm]

/-- Every node of the upgraded document is accepted, wherever it stands on the canvas. -/
theorem exists_accepted_of_mem (h : V1Nodes nodes) (hfresh : Fresh nodes startId finish)
    (hn : n ∈ convertedNodes nodes startId finish) (hx : p.x ≤ 100000) (hy : p.y ≤ 100000) :
    ∃ w, Accepted (OrdMap.set "ui" (pointValue p) n) w := by
  rcases mem_convertedNodes.mp hn with rfl | ⟨q, hq, rfl⟩ | ⟨id, hid, rfl⟩ | ⟨id, hid, rfl⟩
  · refine exists_accepted_converted "start" (.head _)
      hfresh.isNodeId_start rfl hx hy rfl ?_
    simp only [forall_mem_cons]
    exact ⟨fits_edgeValue fun s hs ↦ isNodeId_getElem? h hs, by simp⟩
  · exact exists_accepted_convertNode h hfresh (fst_mem_of_mem_zipIdx hq) _ hx hy
  · exact exists_accepted_finishNode (by simp) fits_text (hfresh.isNodeId_succeed id hid) hx hy
  · exact exists_accepted_finishNode (by simp) (fits_failMessage h) (hfresh.isNodeId_fail id hid) hx hy

/-! ## All the nodes -/

/-- How many nodes an upgrade adds: a `start` node, and a `finish` node for each end that some
outcome refers to. -/
def addedNodes (nodes : List Value) : ℕ :=
  1 + (needsSucceed nodes).toNat + (needsFail nodes).toNat

theorem length_convertedNodes (hfresh : Fresh nodes startId finish) :
    (convertedNodes nodes startId finish).length = nodes.length + addedNodes nodes := by
  have htoNat : ∀ (o : Option String) (f : String → Node), (o.map f).toList.length = o.isSome.toNat := by
    intro o f
    cases o <;> rfl
  rw [convertedNodes, length_append, length_append, length_cons, length_map,
    length_zipIdx, htoNat, htoNat, hfresh.isSome_succeed, hfresh.isSome_fail, addedNodes]
  omega

theorem addedNodes_le (nodes : List Value) : addedNodes nodes ≤ 3 := by
  have hle : ∀ b : Bool, b.toNat ≤ 1 := by decide
  have := hle (needsSucceed nodes)
  have := hle (needsFail nodes)
  rw [addedNodes]
  omega

theorem map_idOf_eq (h : V1Nodes nodes) : nodes.map idOf = (nodeIds nodes).map .str := by
  rw [nodeIds, map_map]
  refine map_congr_left fun n hn ↦ ?_
  obtain ⟨s, hs, -, -⟩ := string_eq_some (fits_idOf h hn)
  simp [hs, textOf]

theorem prop_id_convertNode (node : Value) (index : ℕ) :
    Node.prop (convertNode nodes finish node index) "id" = idOf node := by
  rw [convertNode]
  split_ifs <;> rfl

/-- The ids of the upgraded document. -/
theorem ids_convertedNodes (h : V1Nodes nodes) :
    (convertedNodes nodes startId finish).map (Node.prop · "id") =
      (startId :: (nodeIds nodes ++ finish.succeedId.toList ++ finish.failId.toList)).map .str := by
  have hnodes : (nodes.zipIdx.map fun p ↦ convertNode nodes finish p.1 p.2).map (Node.prop · "id") =
      (nodeIds nodes).map .str := by
    rw [map_map, ← map_idOf_eq h]
    conv_rhs => rw [← zipIdx_map_fst 0 nodes, map_map]
    exact map_congr_left fun p _ ↦ prop_id_convertNode p.1 p.2
  have hfinish : ∀ (o : Option String) (status : String) (message : Value),
      (o.map (finishNode status message)).toList.map (Node.prop · "id") = o.toList.map .str := by
    intro o status message
    cases o <;> rfl
  simp only [convertedNodes, map_append, map_cons, hnodes, hfinish, cons_append]
  rfl

theorem kind_convertNode (node : Value) (index : ℕ) :
    Node.prop (convertNode nodes finish node index) "kind" ∈
      [Value.str "script", .str "gate", .str "finish"] := by
  rw [convertNode]
  by_cases hscript : isKind "script" node
  · rw [if_pos hscript]
    exact .head _
  · rw [if_neg hscript]
    exact .tail _ (.head _)

theorem ui_convertedNodes (hn : n ∈ convertedNodes nodes startId finish) :
    n.prop "ui" = pointValue ⟨0, 0⟩ := by
  rcases mem_convertedNodes.mp hn with rfl | ⟨q, hq, rfl⟩ | ⟨id, hid, rfl⟩ | ⟨id, hid, rfl⟩
  · rfl
  · rw [convertNode]
    split_ifs <;> rfl
  · rfl
  · rfl

/-- What is put on the canvas is one of the nodes, with a place that is not too far out. -/
theorem exists_of_mem_positioned (hlength : nodes.length ≤ maxNodes)
    (hfresh : Fresh nodes startId finish) {v : Value}
    (hv : v ∈ positioned (convertedNodes nodes startId finish)) :
    ∃ n ∈ convertedNodes nodes startId finish, ∃ p : RankPoint, p.x ≤ 100000 ∧ p.y ≤ 100000 ∧
      v = .obj (OrdMap.set "ui" (pointValue p) n) := by
  obtain ⟨n, hn, rfl⟩ := mem_map.mp hv
  split
  · rename_i p hp
    obtain ⟨hx, hy⟩ := rankAndRow_le hp
    rw [length_map, length_convertedNodes hfresh] at hx hy
    have hadded := addedNodes_le nodes
    rw [maxNodes] at hlength
    rw [columnWidthPx] at hx
    rw [rowHeightPx] at hy
    exact ⟨n, hn, p, by omega, by omega, rfl⟩
  · exact ⟨n, hn, ⟨0, 0⟩, by decide, by decide, by rw [ui_convertedNodes hn]⟩

theorem field_set_ui {u : Value} {key : String} (hkey : key ≠ "ui") :
    field (.obj (OrdMap.set "ui" u n)) key = n.prop key := by
  rw [field, Node.prop, OrdMap.get?_set_of_ne (Ne.symm hkey), Node.prop]

/-- The nodes are parsed, each with its id and its kind. -/
theorem exists_parsedNodes (h : V1Nodes nodes) (hlength : nodes.length ≤ maxNodes)
    (hfresh : Fresh nodes startId finish) :
    ∃ ws, (positioned (convertedNodes nodes startId finish)).mapM workflowNodeSchema = some ws ∧
      ws.map idOf = (convertedNodes nodes startId finish).map (Node.prop · "id") ∧
      ws.map (field · "kind") = (convertedNodes nodes startId finish).map (Node.prop · "kind") := by
  have hparse : ∀ v ∈ positioned (convertedNodes nodes startId finish),
      ∃ w, workflowNodeSchema v = some w ∧ idOf w = idOf v ∧ field w "kind" = field v "kind" := by
    intro v hv
    obtain ⟨n, hn, p, hx, hy, rfl⟩ := exists_of_mem_positioned hlength hfresh hv
    obtain ⟨w, hw⟩ := exists_accepted_of_mem h hfresh hn hx hy
    exact ⟨w, hw.parse, hw.id, hw.kind⟩
  obtain ⟨ws, hws⟩ := exists_mapM fun v hv ↦
    (hparse v hv).imp fun w hw ↦ hw.1
  have hkeeps : ∀ v ∈ positioned (convertedNodes nodes startId finish), ∀ w,
      workflowNodeSchema v = some w → idOf w = idOf v ∧ field w "kind" = field v "kind" := by
    intro v hv w hw
    obtain ⟨w', hw', hid, hkind⟩ := hparse v hv
    obtain rfl := Option.some.inj (hw.symm.trans hw')
    exact ⟨hid, hkind⟩
  refine ⟨ws, hws, ?_, ?_⟩
  · rw [map_of_mapM (g := idOf) hws fun v hv w hw ↦ (hkeeps v hv w hw).1, positioned, map_map]
    exact map_congr_left fun n _ ↦ field_set_ui (by decide)
  · rw [map_of_mapM (g := (field · "kind")) hws fun v hv w hw ↦ (hkeeps v hv w hw).2, positioned,
      map_map]
    exact map_congr_left fun n _ ↦ field_set_ui (by decide)

/-! ## The document -/

/-- Behind the `start` node stand scripts, gates and ends. -/
theorem kinds_convertedNodes (nodes : List Value) (startId : String) (finish : FinishPlan) :
    ∃ rest : List Node, convertedNodes nodes startId finish = startNode nodes startId :: rest ∧
      ∀ n ∈ rest, n.prop "kind" ∈ [Value.str "script", .str "gate", .str "finish"] := by
  refine ⟨_, rfl, fun n hn ↦ ?_⟩
  have hn : n ∈ (nodes.zipIdx.map fun p ↦ convertNode nodes finish p.1 p.2) ++
      (finish.succeedId.map (finishNode "succeed" (.str ""))).toList ++
      (finish.failId.map (finishNode "fail" (failMessage nodes))).toList := hn
  simp only [mem_append, mem_map, Option.mem_toList, Option.map_eq_some_iff] at hn
  rcases hn with (⟨p, -, rfl⟩ | ⟨id, -, rfl⟩) | ⟨id, -, rfl⟩
  · exact kind_convertNode p.1 p.2
  · simp [finishNode, converted, Node.prop, OrdMap.get?]
  · simp [finishNode, converted, Node.prop, OrdMap.get?]

/-- With the entry in front and nothing but scripts, gates and ends behind it, only the ids are left
to be checked. -/
theorem nodesFit_iff {doc w : Value} {ws : List Value} (hnodes : nodesOf doc = w :: ws)
    (hentry : idOf w = field doc "entry") (hstart : field w "kind" = .str "start")
    (hrest : ∀ v ∈ ws, field v "kind" ∈ [Value.str "script", .str "gate", .str "finish"]) :
    nodesFit doc = true ↔ ((nodesOf doc).map idOf).Nodup := by
  have hkind : ∀ kind ∉ ["script", "gate", "finish"], ∀ v ∈ ws, isKind kind v = false := by
    intro kind hkind v hv
    rw [isKind, decide_eq_false_iff_not]
    intro heq
    have := heq ▸ hrest v hv
    simp only [mem_cons, Value.str.injEq, not_mem_nil, or_false] at this hkind
    exact hkind this
  have hfilter : ∀ kind ∉ ["script", "gate", "finish"], ws.filter (isKind kind) = [] :=
    fun kind hk ↦ filter_eq_nil_iff.mpr fun v hv ↦ by simp [hkind kind hk v hv]
  have hw : ∀ kind, isKind kind w = decide (kind = "start") := by
    intro kind
    rw [isKind, hstart]
    simp [eq_comm]
  simp [nodesFit, hnodes, hentry, hw, hfilter]

/-- The ids of an upgraded document differ just if those of the v1 document do. -/
theorem nodup_ids_iff (hfresh : Fresh nodes startId finish) :
    (startId :: (nodeIds nodes ++ finish.succeedId.toList ++ finish.failId.toList)).Nodup ↔
      (nodeIds nodes).Nodup := by
  constructor
  · intro h
    exact ((nodup_append.mp (nodup_append.mp (nodup_cons.mp h).2).1).1)
  · exact fun hids ↦ nodup_addedIds hids hfresh.start hfresh.succeed hfresh.fail

end Nodes

section Doc

variable {raw v1 : Value} {startId : String} {finish : FinishPlan}

section

variable (h : workflowDocV1Schema raw = some v1)
include h

theorem fits_v1Field {key : String} {z : ZodType}
    (hp : (key, z) ∈ workflowDocV1Fields) (hidem : Idempotent z) : Fits z (field v1 key) :=
  hidem _ _ (field_of_strictObject (by decide) h hp)

/-- The nodes of a v1 document are of the v1 shape, and no more than a document may have. -/
theorem v1Nodes_of_schema :
    V1Nodes (nodesOf v1) ∧ 1 ≤ (nodesOf v1).length ∧ (nodesOf v1).length ≤ maxNodes := by
  have hmem : ("nodes", array v1WorkflowNodeSchema fun n ↦ 1 ≤ n && n ≤ maxNodes) ∈
      workflowDocV1Fields := by
    simp [workflowDocV1Fields]
  have hnodes := field_of_strictObject (by decide) h hmem
  obtain ⟨items, out, -, hout, hok, hmapM⟩ := array_eq_some hnodes
  have hnodesOf : nodesOf v1 = out := congrArg itemsOf hout
  rw [hnodesOf, length_of_mapM hmapM]
  refine ⟨fun n hn ↦ ?_, by simpa using hok⟩
  obtain ⟨v, -, hv⟩ := exists_of_mem_mapM hmapM hn
  exact ⟨v, hv⟩

/-- What the schema makes of the converted document: nothing if the nodes are too many, and otherwise
a document with the same nodes. -/
theorem strictObject_v2Of
    (hfresh : Fresh (nodesOf v1) startId finish) :
    (maxNodes < (nodesOf v1).length + addedNodes (nodesOf v1) ∧
        strictObject workflowDocFields (.obj (v2Of v1 startId finish)) = none) ∨
      ((nodesOf v1).length + addedNodes (nodesOf v1) ≤ maxNodes ∧
        ∃ doc, strictObject workflowDocFields (.obj (v2Of v1 startId finish)) = some doc ∧
          field doc "entry" = .str startId ∧
          (nodesOf doc).map idOf =
            (convertedNodes (nodesOf v1) startId finish).map (Node.prop · "id") ∧
          (nodesOf doc).map (field · "kind") =
            (convertedNodes (nodesOf v1) startId finish).map (Node.prop · "kind")) := by
  obtain ⟨hv1, -, hlength⟩ := v1Nodes_of_schema h
  have hpositioned : (positioned (convertedNodes (nodesOf v1) startId finish)).length =
      (nodesOf v1).length + addedNodes (nodesOf v1) := by
    rw [positioned, length_map, length_convertedNodes hfresh]
  obtain ⟨ws, hws, hids, hkinds⟩ := exists_parsedNodes hv1 hlength hfresh
  have hmem : ("nodes", array workflowNodeSchema fun n ↦ 1 ≤ n && n ≤ maxNodes) ∈ workflowDocFields := by
    simp [workflowDocFields]
  rcases Nat.lt_or_ge maxNodes ((nodesOf v1).length + addedNodes (nodesOf v1)) with hmany | hroom
  · refine .inl ⟨hmany, ?_⟩
    rcases hdoc : strictObject workflowDocFields (.obj (v2Of v1 startId finish)) with _ | doc
    · rfl
    · obtain ⟨items, out, hitems, -, hok, -⟩ :=
        array_eq_some (field_of_strictObject nodup_workflowDocFields hdoc hmem)
      cases hitems
      rw [hpositioned] at hok
      simp only [Bool.and_eq_true, decide_eq_true_eq] at hok
      omega
  · refine .inr ⟨hroom, ?_⟩
    have hnodes : array workflowNodeSchema (fun n ↦ 1 ≤ n && n ≤ maxNodes)
        (.arr (positioned (convertedNodes (nodesOf v1) startId finish))) = some (.arr ws) := by
      rw [array, hpositioned, if_pos, hws]
      · rfl
      · rw [addedNodes]
        simp only [Bool.and_eq_true, decide_eq_true_eq]
        rw [addedNodes] at hroom
        omega
    have hshape : ∀ p ∈ workflowDocFields, ∃ u, p.2 (Node.prop (v2Of v1 startId finish) p.1) = some u := by
      simp only [workflowDocFields, forall_mem_cons]
      refine ⟨⟨_, rfl⟩, ⟨_, fits_v1Field h ?_ ?_⟩, ⟨_, fits_v1Field h ?_ ?_⟩, ⟨_, fits_v1Field h ?_ ?_⟩,
        ⟨_, fits_v1Field h ?_ ?_⟩,
        ⟨_, hfresh.isNodeId_start⟩, ⟨_, hnodes⟩,
        ⟨_, fits_v1Field h ?_ ?_⟩,
        ⟨_, rfl⟩, ⟨_, fits_v1Field h ?_ ?_⟩, by simp⟩
      all_goals simp [workflowDocV1Fields]
    obtain ⟨out, hout⟩ := exists_shape hshape
    have hkeys : ∀ p ∈ v2Of v1 startId finish, p.1 ∈ workflowDocFields.map (·.1) := by
      simp [v2Of, workflowDocFields]
    have hdoc := strictObject_of_shape hkeys hout
    have hentryMem : ("entry", workflowNodeIdSchema) ∈ workflowDocFields := by
      simp [workflowDocFields]
    have hentry := field_of_strictObject nodup_workflowDocFields hdoc hentryMem
    have hfield := field_of_strictObject nodup_workflowDocFields hdoc hmem
    have harr : field (.obj out) "nodes" = .arr ws := Option.some.inj (hfield.symm.trans hnodes)
    have hnodesOf : nodesOf (.obj out) = ws := congrArg itemsOf harr
    refine ⟨.obj out, hdoc, eq_of_string hentry, ?_, ?_⟩
    · rw [hnodesOf, hids]
    · rw [hnodesOf, hkinds]

end

/-- The v1 documents there is room for beside what is added, with ids that differ. -/
def Upgradable (v1 : Value) : Prop :=
  ((nodesOf v1).map idOf).Nodup ∧ (nodesOf v1).length + addedNodes (nodesOf v1) ≤ maxNodes

/-- What an upgrade is to be: a document the schema takes, whose added nodes have ids of their own,
and whose entry is its only `start` node. -/
structure IsUpgrade (v1 doc : Value) : Prop where
  accepted : workflowDocSchema doc = some doc
  fresh : ∃ startId added,
    (nodesOf doc).map idOf = .str startId :: ((nodesOf v1).map idOf ++ added.map .str) ∧
      (startId :: added).Nodup ∧ ∀ id ∈ startId :: added, Value.str id ∉ (nodesOf v1).map idOf
  entry : ∃ node, (nodesOf doc).filter (isKind "start") = [node] ∧ idOf node = field doc "entry"

theorem isUpgrade_of_strictObject (hv1 : V1Nodes (nodesOf v1))
    (hfresh : Fresh (nodesOf v1) startId finish) {raw doc : Value}
    (hshape : strictObject workflowDocFields raw = some doc) (hfit : nodesFit doc = true)
    (hids : (nodesOf doc).map idOf =
      (convertedNodes (nodesOf v1) startId finish).map (Node.prop · "id")) :
    IsUpgrade v1 doc := by
  have haccepted : workflowDocSchema doc = some doc :=
    idempotent_workflowDocSchema raw doc (Option.filter_eq_some_iff.mpr ⟨hshape, hfit⟩)
  rw [ids_convertedNodes hv1, map_cons, append_assoc, map_append, ← map_idOf_eq hv1] at hids
  refine ⟨haccepted, ⟨startId, _, hids, ?_⟩, ?_⟩
  · have hnodup : ((nodesOf doc).map idOf).Nodup := by
      simp only [nodesFit, Bool.and_eq_true, decide_eq_true_eq] at hfit
      exact hfit.1.1.1.1
    rw [hids, map_idOf_eq hv1, ← map_append, ← map_cons] at hnodup
    have hnodup := List.Nodup.of_map _ hnodup
    rw [nodup_cons, nodup_append] at hnodup
    obtain ⟨hstart, -, hadded, hapart⟩ := hnodup
    refine ⟨nodup_cons.mpr ⟨fun h ↦ hstart (mem_append_right _ h), hadded⟩, ?_⟩
    intro id hid hmem
    rw [map_idOf_eq hv1] at hmem
    obtain ⟨id', hid', heq⟩ := mem_map.mp hmem
    obtain rfl := Value.str.inj heq
    rcases mem_cons.mp hid with rfl | hid
    · exact hfresh.start hid'
    · exact hapart id' hid' id' hid rfl
  · simp only [nodesFit, Bool.and_eq_true, decide_eq_true_eq] at hfit
    obtain ⟨⟨⟨⟨-, hfind⟩, hone⟩, -⟩, -⟩ := hfit
    obtain ⟨node, hnode⟩ := length_eq_one_iff.mp hone
    refine ⟨node, hnode, ?_⟩
    obtain ⟨found, hfound, hkind⟩ := (Option.any_eq_true _ _).mp hfind
    have hmem : found ∈ (nodesOf doc).filter (isKind "start") :=
      mem_filter.mpr ⟨mem_of_find?_eq_some hfound, hkind⟩
    rw [hnode] at hmem
    obtain rfl := mem_singleton.mp hmem
    simpa using find?_some hfound

/-- **What becomes of a document of the v1 shape**: it is upgraded, or there is no room or an id is
there twice, and then the error is the schema's own. -/
theorem upgradeWorkflowDoc_of_v1 (texts : ErrorTexts) (h : workflowDocV1Schema raw = some v1) :
    (Upgradable v1 ∧ ∃ doc, upgradeWorkflowDoc texts raw = .ok doc ∧ IsUpgrade v1 doc) ∨
      (¬ Upgradable v1 ∧ upgradeWorkflowDoc texts raw = .error .zodError) := by
  obtain ⟨hv1, -, hlength⟩ := v1Nodes_of_schema h
  have hmem : ("schema", literal (.num 1)) ∈ workflowDocV1Fields := List.mem_cons_self
  have hschema : field raw "schema" = .num 1 :=
    (literal_eq_some.mp (field_of_strictObject (by decide) h hmem)).1
  obtain ⟨startId, finish, hids, hfresh⟩ := exists_freshIds hlength
  have hconvert : upgradeWorkflowDoc texts raw =
      match workflowDocSchema (.obj (v2Of v1 startId finish)) with
      | some doc => .ok doc
      | none => .error .zodError := by
    rw [upgradeWorkflowDoc, hschema, if_neg (by simp), if_pos rfl, h]
    dsimp only
    rw [convertV1, hids]
    rfl
  rw [hconvert]
  rcases strictObject_v2Of h hfresh with ⟨hmany, hnone⟩ | ⟨hroom, doc, hdoc, hentry, hnodes, hkinds⟩
  · refine .inr ⟨fun hup ↦ absurd hup.2 (by omega), ?_⟩
    rw [workflowDocSchema, refine, hnone]
    rfl
  · obtain ⟨rest, hrest, hrestKinds⟩ := kinds_convertedNodes (nodesOf v1) startId finish
    obtain ⟨w, ws, hws⟩ : ∃ w ws, nodesOf doc = w :: ws := by
      cases hws : nodesOf doc with
      | nil => simp [hws, hrest] at hnodes
      | cons w ws => exact ⟨w, ws, rfl⟩
    have hw : idOf w = .str startId := by
      rw [hws, hrest] at hnodes
      exact (List.cons.inj hnodes).1
    have hkindw : field w "kind" = .str "start" := by
      rw [hws, hrest] at hkinds
      exact (List.cons.inj hkinds).1
    have hkindws : ∀ v ∈ ws, field v "kind" ∈ [Value.str "script", .str "gate", .str "finish"] := by
      intro v hv
      rw [hws, hrest] at hkinds
      have hmem := List.mem_map_of_mem (f := (field · "kind")) hv
      rw [(List.cons.inj hkinds).2] at hmem
      obtain ⟨n, hn, heq⟩ := mem_map.mp hmem
      exact heq ▸ hrestKinds n hn
    have hfit : nodesFit doc = true ↔ ((nodesOf v1).map idOf).Nodup := by
      rw [nodesFit_iff hws (hw.trans hentry.symm) hkindw hkindws, hnodes, ids_convertedNodes hv1,
        nodup_map_iff (fun _ _ ↦ Value.str.inj), nodup_ids_iff hfresh, map_idOf_eq hv1,
        nodup_map_iff (fun _ _ ↦ Value.str.inj)]
    by_cases hdup : ((nodesOf v1).map idOf).Nodup
    · refine .inl ⟨⟨hdup, hroom⟩, doc, ?_,
        isUpgrade_of_strictObject hv1 hfresh hdoc (hfit.mpr hdup) hnodes⟩
      rw [workflowDocSchema, refine, hdoc, Option.filter_some, if_pos (hfit.mpr hdup)]
    · refine .inr ⟨fun hup ↦ hdup hup.1, ?_⟩
      rw [workflowDocSchema, refine, hdoc, Option.filter_some, if_neg (fun h ↦ hdup (hfit.mp h))]

end Doc

/-! ## What is promised of every value -/

/-- A parsed document, or an error of the two codes. -/
inductive Guarded : Except Thrown Value → Prop
  | parsed {doc : Value} (h : workflowDocSchema doc = some doc) : Guarded (.ok doc)
  | enkakuError {code message : String}
      (h : code ∈ ["E_WORKFLOW_UPGRADE_FAILED", "E_WORKFLOW_SCHEMA_UNKNOWN"]) :
      Guarded (.error (.enkakuError code message))

/-- A value is read as it should be: if it is a v1 document with ids that differ it is upgraded, and
otherwise it is parsed or refused with one of the two codes. -/
structure ReadsAsPromised (texts : ErrorTexts) (raw : Value) : Prop where
  upgraded : ∀ v1, workflowDocV1Schema raw = some v1 → ((nodesOf v1).map idOf).Nodup →
    ∃ doc, upgradeWorkflowDoc texts raw = .ok doc ∧ IsUpgrade v1 doc
  guarded : Guarded (upgradeWorkflowDoc texts raw)

/-- Where there is no document of the v1 shape, nothing is parsed outside the guards. -/
theorem guarded_of_not_v1 (texts : ErrorTexts) {raw : Value} (h : workflowDocV1Schema raw = none) :
    Guarded (upgradeWorkflowDoc texts raw) := by
  rw [upgradeWorkflowDoc]
  split_ifs
  · rcases hdoc : workflowDocSchema raw with _ | doc
    · exact .enkakuError (.head _)
    · exact .parsed (idempotent_workflowDocSchema raw doc hdoc)
  · rw [h]
    exact .enkakuError (.head _)
  · exact .enkakuError (.tail _ (.head _))

/-- **When a stored value is read as promised.**  Always, but for v1 documents in which an id is there
twice, and for those with so many nodes that there is no room for the ones an upgrade adds: these
fail with the error of a schema that stands outside the guarded parses. -/
theorem readsAsPromised_iff (texts : ErrorTexts) (raw : Value) :
    ReadsAsPromised texts raw ↔ ∀ v1, workflowDocV1Schema raw = some v1 → Upgradable v1 := by
  constructor
  · intro hreads v1 hv1
    rcases upgradeWorkflowDoc_of_v1 texts hv1 with ⟨hup, -⟩ | ⟨-, hthrown⟩
    · exact hup
    · have hguarded := hreads.guarded
      rw [hthrown] at hguarded
      cases hguarded
  · intro hup
    refine ⟨fun v1 hv1 _ ↦ ?_, ?_⟩
    · rcases upgradeWorkflowDoc_of_v1 texts hv1 with ⟨-, hdoc⟩ | ⟨hnot, -⟩
      · exact hdoc
      · exact absurd (hup v1 hv1) hnot
    · rcases hv1 : workflowDocV1Schema raw with _ | v1
      · exact guarded_of_not_v1 texts hv1
      · rcases upgradeWorkflowDoc_of_v1 texts hv1 with ⟨-, doc, hdoc, hupgrade⟩ | ⟨hnot, -⟩
        · rw [hdoc]
          exact .parsed hupgrade.accepted
        · exact absurd (hup v1 hv1) hnot

/-- A v1 document of as many nodes as it may have. -/
def fullV1 : Value :=
  .obj [("schema", .num 1), ("name", .str "full"),
    ("nodes", .arr ((List.range maxNodes).map fun i ↦
      .obj [("kind", .str "script"), ("id", .str ("n" ++ toString i)),
        ("script", .str "work@latest")]))]

/-- Texts of errors that say nothing. -/
def bareTexts : ErrorTexts := ⟨fun _ ↦ "", fun _ ↦ ""⟩

/-- A full document has the v1 shape and ids that differ, and yet its upgrade is refused. -/
theorem fullV1_refused :
    (workflowDocV1Schema fullV1).any (fun v1 ↦ decide ((nodesOf v1).map idOf).Nodup) = true ∧
      ¬ ReadsAsPromised bareTexts fullV1 := by
  refine ⟨by decide +kernel, fun hreads ↦ ?_⟩
  have hlength : (workflowDocV1Schema fullV1).map (fun v1 ↦ (nodesOf v1).length) = some 50 := by
    decide +kernel
  obtain ⟨v1, hv1, hfifty⟩ := Option.map_eq_some_iff.mp hlength
  rcases upgradeWorkflowDoc_of_v1 bareTexts hv1 with ⟨hup, -⟩ | ⟨-, hthrown⟩
  · have hroom := hup.2
    rw [hfifty, addedNodes, maxNodes] at hroom
    omega
  · have hguarded := hreads.guarded
    rw [hthrown] at hguarded
    cases hguarded

end Enkaku.Stored
