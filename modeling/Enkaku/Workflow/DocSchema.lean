import Enkaku.Expr.Ast
import Enkaku.Schema.Limits
import Enkaku.Schema.Zod
import Enkaku.Workflow.Upgrade

/-!
# The schema of a workflow document

`WorkflowDocSchema` of `protocol/src/workflow.ts`, with all that stands under it: the value
expressions, the predicates, the declared parameters and their hints, the eight kinds of node, and
the checks across nodes.

What it has parsed it parses again (`idempotent_workflowDocSchema`).
-/

set_option autoImplicit false

namespace Enkaku

open Zod Schema

/-! ## Limits -/

namespace WorkflowLimits

def maxParams : ℕ := 40

def maxPredicateDepth : ℕ := 3

def maxPredicateLeaves : ℕ := 20

def maxSwitchCases : ℕ := 10

def maxDelayMs : ℤ := 5 * 60000

def maxAssignments : ℕ := 40

end WorkflowLimits

/-! ## Texts and numbers -/

/-- `z.string().min(least).max(most)`. -/
def lengthBetween (least most : ℕ) (s : String) : Bool :=
  least ≤ utf16Length s && utf16Length s ≤ most

/-- `z.string().max(most).default('')`. -/
def textSchema (most : ℕ) : ZodType := withDefault (string (lengthBetween 0 most)) (.str "")

/-- `z.number().int().min(least).max(most)`: only integers that are safe. -/
def intBetween (least most : ℤ) : ZodType :=
  number fun q ↦ q.isInt && |q| ≤ unbounded && least ≤ q && q ≤ most

/-- `[a-z0-9]`. -/
def isLowerOrDigit (c : Char) : Bool := c.isLower || c.isDigit

/-- `/^[a-z0-9][a-z0-9-]*$/`. -/
def isNodeId (cs : List Char) : Bool :=
  match cs with
  | [] => false
  | c :: cs => isLowerOrDigit c && cs.all fun c ↦ isLowerOrDigit c || c = '-'

def workflowNodeIdSchema : ZodType := string fun s ↦ lengthBetween 1 64 s && isNodeId s.toList

/-- `/^[A-Za-z_][A-Za-z0-9_]*(?:\.(?:[A-Za-z_][A-Za-z0-9_]*|\d+))*$/`. -/
def isPath (cs : List Char) : Bool :=
  match cs.splitOn '.' with
  | [] => false
  | first :: rest =>
    isIdentifier first && rest.all fun part ↦ isIdentifier part || part ≠ [] && part.all (·.isDigit)

def workflowPathSchema : ZodType := string fun s ↦ lengthBetween 0 200 s && isPath s.toList

/-- `[a-z0-9][a-z0-9._-]*`. -/
def isNamePart (cs : List Char) : Bool :=
  match cs with
  | [] => false
  | c :: cs => isLowerOrDigit c && cs.all fun c ↦ isLowerOrDigit c || c = '.' || c = '_' || c = '-'

/-- One part, or two with a `/` between them. -/
def isName (cs : List Char) : Bool :=
  let parts := cs.splitOn '/'
  parts.length ≤ 2 && parts.all isNamePart

def workflowNameSchema : ZodType := string fun s ↦ isName s.toList

/-- `(?:latest|\d+\.\d+\.\d+(?:[-+].+)?)`. -/
def isVersion (cs : List Char) : Bool :=
  cs = "latest".toList ||
    match cs.splitOn '.' with
    | major :: minor :: rest =>
      let patch := ['.'].intercalate rest
      let suffix := patch.dropWhile (·.isDigit)
      major ≠ [] && major.all (·.isDigit) && minor ≠ [] && minor.all (·.isDigit) &&
        patch.takeWhile (·.isDigit) ≠ [] &&
        match suffix with
        | [] => true
        | sign :: tail => (sign = '-' || sign = '+') && tail ≠ [] &&
          tail.all fun c ↦ c ∉ ['\n', '\r', '\u2028', '\u2029']
    | _ => false

/-- A name has no `@`, so that the first one is in front of the version. -/
def scriptRefSchema : ZodType :=
  string fun s ↦ isName (s.toList.takeWhile (· ≠ '@')) &&
    match s.toList.dropWhile (· ≠ '@') with
    | [] => false
    | _ :: version => isVersion version

def workflowParamNameSchema : ZodType :=
  string fun s ↦ lengthBetween 0 64 s && isIdentifier s.toList

/-! ## Values and predicates -/

/-- The five forms of a value expression. -/
def valueExprForms : List (List (String × ZodType)) :=
  [[("const", unknown)],
    [("param", workflowParamNameSchema)],
    [("from", workflowNodeIdSchema), ("path", optional workflowPathSchema),
      ("optional", withDefault boolean (.bool false)), ("default", optional unknown)],
    [("run", literal (.str "summary"))],
    [("expr", string (lengthBetween 1 exprLimits.maxSourceBytes))]]

def valueExprSchema : ZodType := union (valueExprForms.map strictObject)

/-- `GATE_OPS`. -/
def gateOps : List String :=
  ["eq", "ne", "lt", "lte", "gt", "gte", "contains", "notContains", "startsWith", "endsWith", "exists",
    "notExists", "isEmpty", "notEmpty", "length"]

/-- The four forms of a predicate, over the predicates inside it. -/
def predicateForms (inside : ZodType) : List (List (String × ZodType)) :=
  [[("left", valueExprSchema), ("op", enum gateOps), ("right", optional valueExprSchema)],
    [("all", array inside fun n ↦ 1 ≤ n && n ≤ WorkflowLimits.maxPredicateLeaves)],
    [("any", array inside fun n ↦ 1 ≤ n && n ≤ WorkflowLimits.maxPredicateLeaves)],
    [("not", inside)]]

/-- `PredicateShapeSchema`, of predicates that are nested so deep at most. -/
def predicateOfDepth : ℕ → ZodType
  | 0 => fun _ ↦ none
  | depth + 1 => union ((predicateForms (predicateOfDepth depth)).map strictObject)

/-- `PredicateSchema`, whose check of the depth refuses what is nested deeper. -/
def predicateSchema : ZodType := predicateOfDepth WorkflowLimits.maxPredicateDepth

/-! ## Declared parameters -/

/-- `PARAM_KINDS`. -/
def paramKinds : List String :=
  ["count", "chance", "duration", "timestamp", "bytes", "bitrate", "pixels", "temperature", "text",
    "packageName", "workspaceFolder", "workspaceFile", "artifact", "deviceIds", "artifactIds"]

def scalarSchema : ZodType := union [string fun _ ↦ true, number fun _ ↦ true, boolean]

def showWhenForms : List (List (String × ZodType)) :=
  [[("field", string fun _ ↦ true), ("is", scalarSchema)],
    [("field", string fun _ ↦ true), ("in", array scalarSchema fun _ ↦ true)]]

def paramHintsFields : List (String × ZodType) :=
  [("kind", optional (enum paramKinds)), ("unit", optional (enum durationUnits)),
    ("extensions", optional (array (string isExtension) fun n ↦ 1 ≤ n && n ≤ 10)),
    ("ordered", optional boolean), ("multiline", optional boolean),
    ("group", optional (string fun _ ↦ true)), ("advanced", optional boolean),
    ("source", optional (enum paramSources)),
    ("labels", optional (record (fun _ ↦ true) (string fun _ ↦ true))),
    ("showWhen", optional (union (showWhenForms.map object))),
    ("enforcement", optional (enum enforcementLevels)), ("summary", optional boolean),
    ("hint", optional (string (lengthBetween 0 200)))]

/-- `ParamHintsSchema`: a unit belongs to a duration, extensions to a file of the workspace. -/
def paramHintsSchema : ZodType :=
  refine (object paramHintsFields) fun v ↦
    (field v "kind" = .str "duration" ↔ field v "unit" ≠ .undefined) ∧
      (field v "extensions" ≠ .undefined → field v "kind" = .str "workspaceFile")

def workflowParamFields : List (String × ZodType) :=
  [("name", workflowParamNameSchema),
    ("type", enum ["string", "number", "integer", "boolean", "stringList", "numberPair"]),
    ("required", withDefault boolean (.bool false)), ("default", optional unknown),
    ("title", string (lengthBetween 1 maxTitleChars)),
    ("description", textSchema maxDescriptionChars), ("hints", optional paramHintsSchema),
    ("enum", optional (array (union [string fun _ ↦ true, number fun _ ↦ true])
      (· ≤ maxEnumMembers))),
    ("min", optional (number fun _ ↦ true)), ("max", optional (number fun _ ↦ true))]

def workflowParamSchema : ZodType := strictObject workflowParamFields

/-- `z.array(WorkflowParamSchema).max(WORKFLOW_LIMITS.maxParams).default([])`. -/
def paramsSchema : ZodType :=
  withDefault (array workflowParamSchema (· ≤ WorkflowLimits.maxParams)) (.arr [])

/-- `z.record(WorkflowParamNameSchema, ValueExprSchema).default({})`. -/
def bindingsSchema : ZodType :=
  withDefault (record (fun s ↦ lengthBetween 0 64 s && isIdentifier s.toList) valueExprSchema) (.obj [])

/-- What is run when the workflow fails. -/
def onFailSchema : ZodType :=
  optional (strictObject [("script", scriptRefSchema), ("params", bindingsSchema)])

/-! ## Nodes -/

def workflowPointSchema : ZodType :=
  strictObject [("x", intBetween (-100000) 100000), ("y", intBetween (-100000) 100000)]

def nodeBase : List (String × ZodType) :=
  [("id", workflowNodeIdSchema), ("title", textSchema 80), ("ui", workflowPointSchema),
    ("enabled", withDefault boolean (.bool true))]

/-- An edge: absent, it dangles. -/
def edgeSchema : ZodType := optional workflowNodeIdSchema

def switchCaseSchema : ZodType :=
  strictObject [("when", optional predicateSchema), ("weight", optional (number (0 < ·))),
    ("to", edgeSchema), ("label", textSchema 40)]

/-- A pair of a `set` node. -/
def assignmentSchema : ZodType := strictObject [("name", valueExprSchema), ("value", valueExprSchema)]

/-- What the kinds of node have beside `nodeBase`. -/
def nodeKinds : List (String × List (String × ZodType)) :=
  [("start", [("next", edgeSchema)]),
    ("script", [("script", scriptRefSchema), ("params", bindingsSchema),
      ("reset", optional (enum ["farm", "none"])), ("retries", optional (intBetween 0 10)),
      ("next", edgeSchema), ("onFailure", edgeSchema)]),
    ("gate", [("when", predicateSchema), ("then", edgeSchema), ("else", edgeSchema)]),
    ("switch", [("mode", withDefault (enum ["predicate", "weighted"]) (.str "predicate")),
      ("cases", array switchCaseSchema fun n ↦ 1 ≤ n && n ≤ WorkflowLimits.maxSwitchCases),
      ("default", edgeSchema)]),
    ("delay", [("ms", valueExprSchema), ("maxMs", intBetween 0 WorkflowLimits.maxDelayMs),
      ("next", edgeSchema)]),
    ("finish", [("status", withDefault (enum ["succeed", "fail"]) (.str "succeed")),
      ("message", textSchema 200)]),
    ("set", [("assignments", withDefault
        (array assignmentSchema (· ≤ WorkflowLimits.maxAssignments)) (.arr [])),
      ("keepOnlySet", withDefault boolean (.bool false)), ("next", edgeSchema)]),
    ("shuffle", [("members", array workflowNodeIdSchema (· ≤ WorkflowLimits.maxSwitchCases)),
      ("between", withDefault valueExprSchema (.obj [("const", .num 0)])),
      ("betweenMaxMs", withDefault (intBetween 0 WorkflowLimits.maxDelayMs) (.num 0)),
      ("continueOnMemberFailure", withDefault boolean (.bool false)), ("next", edgeSchema)])]

/-- The properties of a node of a kind. -/
def nodeFields (kind : String) (own : List (String × ZodType)) : List (String × ZodType) :=
  nodeBase ++ ("kind", literal (.str kind)) :: own

def workflowNodeSchema : ZodType :=
  discriminatedUnion "kind" (nodeKinds.map fun p ↦ (p.1, strictObject (nodeFields p.1 p.2)))

/-! ## Documents -/

def workflowDocFields : List (String × ZodType) :=
  [("schema", literal (.num 2)), ("name", workflowNameSchema), ("title", textSchema 80),
    ("description", textSchema 300), ("params", paramsSchema), ("entry", workflowNodeIdSchema),
    ("nodes", array workflowNodeSchema fun n ↦ 1 ≤ n && n ≤ maxNodes),
    ("maxSteps", withDefault (intBetween 1 500) (.num 50)),
    ("ui", optional (strictObject
      [("editor", withDefault (enum ["sequence", "canvas"]) (.str "canvas"))])),
    ("onFail", onFailSchema)]

/-- The items of an array. -/
def itemsOf : Value → List Value
  | .arr items => items
  | _ => []

/-- `doc.nodes`. -/
def nodesOf (doc : Value) : List Value := itemsOf (field doc "nodes")

/-- `node.id`. -/
def idOf (node : Value) : Value := field node "id"

def isKind (kind : String) (node : Value) : Bool := field node "kind" = .str kind

/-- Whether a case of a `switch` has what its mode wants, and nothing of the other. -/
def caseFits (node c : Value) : Bool :=
  if field node "mode" = .str "predicate" then
    field c "when" ≠ .undefined ∧ field c "weight" = .undefined
  else field c "weight" ≠ .undefined ∧ field c "when" = .undefined

/-- The checks across nodes: the ids differ, `entry` is a `start` node and the only one, no two
shuffles have a member in common, and the cases of a `switch` fit its mode. -/
def nodesFit (doc : Value) : Bool :=
  decide ((nodesOf doc).map idOf).Nodup &&
    ((nodesOf doc).find? (idOf · = field doc "entry")).any (isKind "start") &&
    ((nodesOf doc).filter (isKind "start")).length = 1 &&
    decide (((nodesOf doc).filter (isKind "shuffle")).flatMap fun n ↦ itemsOf (field n "members")).Nodup &&
    ((nodesOf doc).filter (isKind "switch")).all fun n ↦ (itemsOf (field n "cases")).all (caseFits n)

def workflowDocSchema : ZodType := refine (strictObject workflowDocFields) nodesFit

/-! ## What is parsed is parsed again -/

@[simp] theorem idempotent_textSchema (most : ℕ) : Idempotent (textSchema most) :=
  idempotent_withDefault (idempotent_string _) (requires_string _) (by
    have hlen : utf16Length "" = 0 := rfl
    simp [string, lengthBetween, hlen])

@[simp] theorem idempotent_intBetween (least most : ℤ) : Idempotent (intBetween least most) :=
  idempotent_number _

@[simp] theorem idempotent_workflowNodeIdSchema : Idempotent workflowNodeIdSchema :=
  idempotent_string _

@[simp] theorem idempotent_workflowPathSchema : Idempotent workflowPathSchema :=
  idempotent_string _

@[simp] theorem idempotent_workflowNameSchema : Idempotent workflowNameSchema :=
  idempotent_string _

@[simp] theorem idempotent_scriptRefSchema : Idempotent scriptRefSchema := idempotent_string _

@[simp] theorem idempotent_workflowParamNameSchema : Idempotent workflowParamNameSchema :=
  idempotent_string _

@[simp] theorem idempotent_edgeSchema : Idempotent edgeSchema :=
  idempotent_optional idempotent_workflowNodeIdSchema

@[simp] theorem idempotent_valueExprSchema : Idempotent valueExprSchema := by
  refine idempotent_union_strictObject _ (by decide) ?_ (by decide)
  simp only [valueExprForms, List.forall_mem_cons]
  simp

@[simp] theorem requires_workflowNodeIdSchema : Requires workflowNodeIdSchema := rfl

theorem requires_predicateOfDepth (depth : ℕ) : Requires (predicateOfDepth depth) := by
  cases depth <;> rfl

@[simp] theorem idempotent_predicateOfDepth (depth : ℕ) : Idempotent (predicateOfDepth depth) := by
  induction depth with
  | zero => exact fun v w h ↦ absurd h.symm (Option.some_ne_none w)
  | succ depth ih =>
    refine idempotent_union_strictObject _ ?_ ?_ ?_
    · simp [predicateForms]
    · simp only [predicateForms, List.forall_mem_cons]
      simp [ih]
    · simp [predicateForms, requires_predicateOfDepth]

@[simp] theorem idempotent_predicateSchema : Idempotent predicateSchema :=
  idempotent_predicateOfDepth _

@[simp] theorem requires_predicateSchema : Requires predicateSchema := rfl

@[simp] theorem idempotent_scalarSchema : Idempotent scalarSchema := by
  refine idempotent_union_of_eq ?_
  simp only [List.forall_mem_cons]
  exact ⟨fun _ _ ↦ eq_of_string, fun _ _ ↦ eq_of_number, fun _ _ ↦ eq_of_boolean, by simp⟩

@[simp] theorem idempotent_showWhen : Idempotent (union (showWhenForms.map object)) := by
  refine idempotent_union_object (by decide) ?_ (by decide)
  simp only [showWhenForms, List.forall_mem_cons]
  simp

@[simp] theorem idempotent_paramHintsSchema : Idempotent paramHintsSchema := by
  refine idempotent_refine (idempotent_object (by decide) ?_)
  simp only [paramHintsFields, List.forall_mem_cons]
  simp

@[simp] theorem idempotent_enumMember :
    Idempotent (union [string fun _ ↦ true, number fun _ ↦ true]) := by
  refine idempotent_union_of_eq ?_
  simp only [List.forall_mem_cons]
  exact ⟨fun _ _ ↦ eq_of_string, fun _ _ ↦ eq_of_number, by simp⟩

@[simp] theorem idempotent_workflowParamSchema : Idempotent workflowParamSchema := by
  refine idempotent_strictObject (by decide) ?_
  simp only [workflowParamFields, List.forall_mem_cons]
  simp

@[simp] theorem idempotent_paramsSchema : Idempotent paramsSchema :=
  idempotent_withDefault (by simp) (by simp) (by simp)

@[simp] theorem idempotent_bindingsSchema : Idempotent bindingsSchema :=
  idempotent_withDefault (by simp) (by simp) (by simp)

@[simp] theorem idempotent_onFailSchema : Idempotent onFailSchema := by
  refine idempotent_optional (idempotent_strictObject (by decide) ?_)
  simp only [List.forall_mem_cons]
  simp

@[simp] theorem idempotent_workflowPointSchema : Idempotent workflowPointSchema := by
  refine idempotent_strictObject (by decide) ?_
  simp only [List.forall_mem_cons]
  simp

@[simp] theorem idempotent_switchCaseSchema : Idempotent switchCaseSchema := by
  refine idempotent_strictObject (by decide) ?_
  simp only [List.forall_mem_cons]
  simp

@[simp] theorem idempotent_assignmentSchema : Idempotent assignmentSchema := by
  refine idempotent_strictObject (by decide) ?_
  simp only [List.forall_mem_cons]
  simp

/-- A shuffle waits nowhere between its members if it does not say otherwise. -/
@[simp] theorem idempotent_betweenSchema :
    Idempotent (withDefault valueExprSchema (.obj [("const", .num 0)])) :=
  idempotent_withDefault idempotent_valueExprSchema rfl rfl

@[simp] theorem idempotent_betweenMaxSchema :
    Idempotent (withDefault (intBetween 0 WorkflowLimits.maxDelayMs) (.num 0)) :=
  idempotent_withDefault (idempotent_intBetween _ _) rfl rfl

/-- The keys of a node of each kind differ. -/
theorem nodup_nodeFields : ∀ p ∈ nodeKinds, ((nodeFields p.1 p.2).map (·.1)).Nodup := by decide

theorem idempotent_nodeFields : ∀ p ∈ nodeKinds, ∀ q ∈ nodeFields p.1 p.2, Idempotent q.2 := by
  have hbase : ∀ q ∈ nodeBase, Idempotent q.2 := by
    simp only [nodeBase, List.forall_mem_cons]
    simp
  have hown : ∀ p ∈ nodeKinds, ∀ q ∈ p.2, Idempotent q.2 := by
    simp only [nodeKinds, List.forall_mem_cons]
    simp [WorkflowLimits.maxAssignments]
  intro p hp q hq
  rcases List.mem_append.mp hq with hq | hq
  · exact hbase q hq
  · rcases List.mem_cons.mp hq with rfl | hq
    · exact idempotent_literal _
    · exact hown p hp q hq

theorem kind_mem_nodeFields (p : String × List (String × ZodType)) :
    ("kind", literal (.str p.1)) ∈ nodeFields p.1 p.2 :=
  List.mem_append_right _ (.head _)

@[simp] theorem idempotent_workflowNodeSchema : Idempotent workflowNodeSchema := by
  refine idempotent_discriminatedUnion ?_ ?_
  · intro option hoption
    obtain ⟨p, hp, rfl⟩ := List.mem_map.mp hoption
    exact idempotent_strictObject (nodup_nodeFields p hp) (idempotent_nodeFields p hp)
  · intro option hoption v w h
    obtain ⟨p, hp, rfl⟩ := List.mem_map.mp hoption
    exact (literal_eq_some.mp (field_of_strictObject (nodup_nodeFields p hp) h
      (kind_mem_nodeFields p))).2

@[simp] theorem idempotent_maxStepsSchema : Idempotent (withDefault (intBetween 1 500) (.num 50)) :=
  idempotent_withDefault (idempotent_intBetween _ _) rfl rfl

/-- The editor the document was left in. -/
@[simp] theorem idempotent_uiSchema : Idempotent (optional (strictObject
    [("editor", withDefault (enum ["sequence", "canvas"]) (.str "canvas"))])) := by
  refine idempotent_optional (idempotent_strictObject (by decide) ?_)
  simp only [List.forall_mem_cons]
  simp

theorem nodup_workflowDocFields : (workflowDocFields.map (·.1)).Nodup := by decide

theorem idempotent_workflowDocFields : ∀ p ∈ workflowDocFields, Idempotent p.2 := by
  simp only [workflowDocFields, List.forall_mem_cons]
  simp

/-- A stored document is parsed to itself. -/
theorem idempotent_workflowDocSchema : Idempotent workflowDocSchema :=
  idempotent_refine (idempotent_strictObject nodup_workflowDocFields idempotent_workflowDocFields)

end Enkaku
