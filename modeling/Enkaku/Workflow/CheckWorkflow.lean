import Enkaku.Workflow.Bindings
import Enkaku.Workflow.Budget

/-!
# The checker

`checkWorkflow`, all of it: to what `WorkflowDoc.controlFindings` says about the control graph it adds
the nodes never reached, the loop, the time budget, the `@latest` references, the names of `set`
nodes and the bindings.

Pure, as the source is: the scripts of the nodes have been looked up (`ResolvedScripts`), and the
schema the declared parameters compile to is handed in.  A number in an expression is kept as its text.
-/

set_option autoImplicit false

namespace Enkaku

/-! ## Findings -/

/-- `WorkflowFindingCode`. -/
inductive WorkflowFindingCode where
  | control (code : FindingCode)
  | nodeUnreachable | loop | budgetUnknown | budgetImpossible | latestRef
  | bindingType | unknownParam | disabledBinding | forwardRef | bindingUnresolvable
  | uncheckedBinding | exprParse | indexAsIdentity | exprUnknownNode
  deriving DecidableEq, Repr

/-- The text of a code. -/
def WorkflowFindingCode.toString : WorkflowFindingCode → String
  | control code => code.toString
  | nodeUnreachable => "W_WORKFLOW_NODE_UNREACHABLE"
  | loop => "W_WORKFLOW_LOOP"
  | budgetUnknown => "W_WORKFLOW_BUDGET_UNKNOWN"
  | budgetImpossible => "E_WORKFLOW_BUDGET_IMPOSSIBLE"
  | latestRef => "W_WORKFLOW_LATEST_REF"
  | bindingType => "E_WORKFLOW_BINDING_TYPE"
  | unknownParam => "E_WORKFLOW_UNKNOWN_PARAM"
  | disabledBinding => "W_WORKFLOW_DISABLED_BINDING"
  | forwardRef => "E_WORKFLOW_FORWARD_REF"
  | bindingUnresolvable => "E_WORKFLOW_BINDING_UNRESOLVABLE"
  | uncheckedBinding => "W_WORKFLOW_UNCHECKED_BINDING"
  | exprParse => "E_WORKFLOW_EXPR_PARSE"
  | indexAsIdentity => "W_WORKFLOW_INDEX_AS_IDENTITY"
  | exprUnknownNode => "E_WORKFLOW_EXPR_UNKNOWN_NODE"

structure WorkflowFinding where
  path : String
  code : WorkflowFindingCode
  message : String
  severity : Severity
  deriving DecidableEq, Repr

/-- A finding about the control graph. -/
def Finding.whole (f : Finding) : WorkflowFinding := ⟨f.path, .control f.code, f.message, f.severity⟩

/-! ## JSON schemas -/

/-- The type an enumerated value has. -/
def enumType : Value → Option String
  | .str _ => some "string"
  | .num q => some (if q.isInt then "integer" else "number")
  | .bool _ => some "boolean"
  | _ => none

/-- The strings among the items of a list. -/
def stringItems (items : List Value) : List String :=
  items.filterMap fun v ↦
    match v with
    | .str t => some t
    | _ => none

/-- The types a `type` field names. -/
def typeField (fields : List (String × Value)) : List String :=
  match OrdMap.get? "type" fields with
  | some (.str t) => [t]
  | some (.arr items) => stringItems items
  | _ => []

/-- The types of the values an `enum` field lists. -/
def enumField (fields : List (String × Value)) : List String :=
  match OrdMap.get? "enum" fields with
  | some (.arr items) => items.filterMap enumType
  | _ => []

/-- `prefixItems` is a list, or `items` is there. -/
def looksLikeArray (fields : List (String × Value)) : Bool :=
  (match OrdMap.get? "prefixItems" fields with
    | some (.arr _) => true
    | _ => false) ||
  (match OrdMap.get? "items" fields with
    | none | some .undefined => false
    | some _ => true)

mutual

/-- `extractJsonTypes`, in the order the types are found in. -/
def extractJsonTypes : Value → List String
  | .obj fields =>
    let found := (typeField fields ++ anyOfTypes fields ++ enumField fields).eraseDups
    if found.isEmpty && looksLikeArray fields then ["array"] else found
  | _ => []

/-- The types of the variants of an `anyOf` field. -/
def anyOfTypes : List (String × Value) → List String
  | [] => []
  | (key, value) :: fields => if key = "anyOf" then variantTypes value else anyOfTypes fields

/-- The types of the variants, when they are a list. -/
def variantTypes : Value → List String
  | .arr variants => variantsTypes variants
  | _ => []

/-- The types of variants. -/
def variantsTypes : List Value → List String
  | [] => []
  | v :: vs => extractJsonTypes v ++ variantsTypes vs

end

/-- `typesCompatible`. -/
def typesCompatible (source target : List String) : Bool :=
  source.isEmpty || target.isEmpty ||
    source.any fun t ↦ target.contains t || (t == "integer" && target.contains "number")

/-- `isPlainObject(items) ? items : undefined`. -/
def itemsSchema (fields : List (String × Value)) : Value :=
  match OrdMap.get? "items" fields with
  | some (.obj inner) => .obj inner
  | _ => .undefined

/-- The walk of `jsonSchemaPathResolves` along the segments of a path. -/
def schemaSegmentsResolve : Value → List String → Bool
  | _, [] => true
  | .obj fields, segment :: rest =>
    if isDigitsOnlySegment segment then
      match OrdMap.get? "prefixItems" fields with
      | some (.arr items) =>
        match segment.toNat?.bind (items[·]?) with
        | some item => schemaSegmentsResolve item rest
        | none =>
          if OrdMap.get? "items" fields = some (.bool false) then false
          else schemaSegmentsResolve (itemsSchema fields) rest
      | _ => schemaSegmentsResolve (itemsSchema fields) rest
    else
      match OrdMap.get? "properties" fields with
      | some (.obj properties) =>
        match OrdMap.get? segment properties with
        | some property => schemaSegmentsResolve property rest
        | none => OrdMap.get? "additionalProperties" fields ≠ some (.bool false)
      | _ => true
  | _, _ :: _ => true

/-- `jsonSchemaPathResolves`. -/
def jsonSchemaPathResolves (schema : Value) : Option String → Bool
  | none => true
  | some path => path.isEmpty || schemaSegmentsResolve schema (path.splitOn ".")

/-- The `properties` of a schema. -/
def schemaProperties : Value → Option (List (String × Value))
  | .obj fields =>
    match OrdMap.get? "properties" fields with
    | some (.obj properties) => some properties
    | _ => none
  | _ => none

/-- `topLevelPropertyNames`. -/
def topLevelPropertyNames (schema : Value) : List String :=
  ((schemaProperties schema).getD []).map (·.1)

/-- `paramType`, and `nodeParamProperty` once the schema is found. -/
def propertyType (schema : Value) (name : String) : Value :=
  ((schemaProperties schema).bind (OrdMap.get? name)).getD .undefined

/-- The types of a source or a target, as a message shows them. -/
def shownTypes (types : List String) : String :=
  if types.isEmpty then "unknown" else "|".intercalate types

/-! ## The findings of each check -/

section Findings

variable (doc : WorkflowDoc) (resolved : ResolvedScripts)

/-- Every node is reached from the entry. -/
def unreachableFindings : List WorkflowFinding :=
  doc.nodes.zipIdx.filterMap fun p ↦
    let id := p.1.id
    let i := p.2
    let entry := doc.entry
    if doc.reachable.contains id then none
    else some ⟨s!"nodes[{i}].id", .nodeUnreachable,
      s!"node \"{id}\" is never reached from the entry (\"{entry}\")", .warning⟩

/-- `W_WORKFLOW_LOOP`. -/
def loopFindings : List WorkflowFinding :=
  match doc.cycleNode with
  | none => []
  | some cycleNode =>
    let maxSteps := doc.maxSteps
    [⟨"", .loop,
      s!"this workflow can loop back to node \"{cycleNode}\" — bounded only by maxSteps ({maxSteps}); the total time this could take is a MIGHT, not a WILL, so it is not checked against workflow.maxTotalMs (see W_WORKFLOW_BUDGET_UNKNOWN/E_WORKFLOW_BUDGET_IMPOSSIBLE, which only ever fire for a document with no loop)",
      .warning⟩]

/-- `onFailCost`: `some none` is a cleanup script without a known cost. -/
def onFailCost : Option Nat :=
  match doc.onFail with
  | none => some 0
  | some onFail => (resolved onFail.script).bind (·.timeoutMs)

/-- The reachable nodes, and the cleanup script, whose cost is not known. -/
def unknownNodes : List String :=
  (doc.nodes.filter fun n ↦ doc.reachable.contains n.id &&
    decide (n.kind = "script") && (doc.costOf resolved n.id).isNone).map (·.id) ++
  match doc.onFail, onFailCost doc resolved with
  | some onFail, none =>
    let script := onFail.script
    [s!"onFail ({script})"]
  | _, _ => []

/-- The timeout arithmetic, for a document without a loop. -/
def budgetFindings (budget : Option Nat) : List WorkflowFinding :=
  match doc.cycleNode, budget with
  | none, some maxTotalMs =>
    if doc.hasNode doc.entry then
      match unknownNodes doc resolved with
      | [] =>
        let worstCaseMs := doc.longestPathMs resolved doc.entry + (onFailCost doc resolved).getD 0
        let cleanup := if doc.onFail.isSome then " (including the onFail cleanup script)" else ""
        if maxTotalMs < worstCaseMs then
          [⟨"", .budgetImpossible,
            s!"this workflow cannot possibly finish inside its {maxTotalMs}ms total budget (workflow.maxTotalMs): the longest possible run, node timeouts summed along the way{cleanup}, is {worstCaseMs}ms",
            .error⟩]
        else []
      | unknown =>
        let names := ", ".intercalate (unknown.map fun id ↦ s!"\"{id}\"")
        let plural := if unknown.length = 1 then "s" else ""
        [⟨"", .budgetUnknown,
          s!"this workflow's total budget (workflow.maxTotalMs = {maxTotalMs}ms) cannot be checked at publish time: {names} declare{plural} no runtime.timeoutMs — the workflow executor's own budget clock still applies when this runs",
          .warning⟩]
    else []
  | _, _ => []

/-- What is said of a script reference that follows the newest version. -/
def latestFinding (path script : String) : Option WorkflowFinding :=
  if "@latest".toList.isSuffixOf script.toList then
    some ⟨path, .latestRef,
      s!"\"{script}\" resolves to whatever is newest at RUN time — this workflow's behaviour can change without the workflow itself changing",
      .warning⟩
  else none

def latestFindings : List WorkflowFinding :=
  (doc.nodes.zipIdx.filterMap fun p ↦
    let i := p.2
    match p.1.body with
    | .step (.script n) => latestFinding s!"nodes[{i}].script" n.script
    | _ => none) ++
  match doc.onFail with
  | none => []
  | some onFail => (latestFinding "onFail.script" onFail.script).toList

/-- What is wrong with the segments of a literal field name, the first thing only. -/
def setSegmentsFinding (path name : String) : List String → Option WorkflowFinding
  | [] => none
  | segment :: rest =>
    if segment.isEmpty then
      some ⟨path, .bindingType,
        s!"\"{name}\" has an empty segment — dot notation needs a name on both sides of every \".\"",
        .error⟩
    else if isDigitsOnlySegment segment then
      some ⟨path, .bindingType,
        s!"\"{name}\": the segment \"{segment}\" is only digits — dot notation builds nested objects, never an array index (plan 312 §3.4)",
        .error⟩
    else setSegmentsFinding path name rest

/-- What is wrong with the field name of an assignment, when it is a literal. -/
def setNameFinding (path : String) : ValueExpr → Option WorkflowFinding
  | .const (.str name) =>
    if name.isEmpty then
      some ⟨path, .bindingType, "a \"set\" node's field name must be a non-empty string, got string",
        .error⟩
    else setSegmentsFinding path name (name.splitOn ".")
  | .const v =>
    let type := typeofValue v
    some ⟨path, .bindingType,
      s!"a \"set\" node's field name must be a non-empty string, got {type}", .error⟩
  | _ => none

def setNameFindings : List WorkflowFinding :=
  doc.nodes.zipIdx.flatMap fun p ↦
    let i := p.2
    match p.1.body with
    | .step (.set n) => n.assignments.zipIdx.filterMap fun q ↦
      let ai := q.2
      setNameFinding s!"nodes[{i}].assignments[{ai}].name" q.1.name
    | _ => []

/-! ## The findings about a binding -/

variable (compiledParams : Value)

/-- A `{ param }` binding. -/
def paramFindings (site : BindingSite) (name : String) : List WorkflowFinding :=
  if doc.params.any fun p ↦ p.name = name then
    match site.target with
    | none => []
    | some (scriptRef, paramName) =>
      let sourceTypes := extractJsonTypes (propertyType compiledParams name)
      let targetSchema := ((resolved scriptRef).bind (·.paramsSchema)).getD .undefined
      let targetTypes := extractJsonTypes (propertyType targetSchema paramName)
      let source := shownTypes sourceTypes
      let target := shownTypes targetTypes
      if typesCompatible sourceTypes targetTypes then []
      else [⟨site.path, .bindingType,
        s!"workflow parameter \"{name}\" ({source}) is not assignable to \"{scriptRef}\"'s \"{paramName}\" ({target})",
        .error⟩]
  else [⟨site.path, .unknownParam, s!"\"{name}\" is not a declared workflow parameter", .error⟩]

/-- `W_WORKFLOW_DISABLED_BINDING`: a live site reads a node that is switched off. -/
def disabledFinding (site : BindingSite) (from_ : String) : Option WorkflowFinding :=
  let reader := site.fromNodeId.bind doc.firstNode?
  let switchedOff := (doc.firstNode? from_).any fun n ↦ !n.enabled
  if switchedOff && (reader.map (·.enabled)).getD true then
    some ⟨site.path, .disabledBinding,
      s!"this reads \"{from_}\", which is switched off — a disabled node records no output, so this binding fails the run rather than falling back",
      .warning⟩
  else none

/-- `E_WORKFLOW_FORWARD_REF`: a node that cannot have run before the site's own. -/
def forwardRefFinding (site : BindingSite) (from_ : String) : Option WorkflowFinding :=
  site.fromNodeId.bind fun nodeId ↦
    if doc.pathExists from_ nodeId then none
    else some ⟨site.path, .forwardRef,
      s!"\"{nodeId}\" binds to node \"{from_}\"'s output, but \"{from_}\" can only run AFTER \"{nodeId}\" (or never) in every execution this document allows",
      .error⟩

/-- The output of a script against the path a binding takes into it. -/
def outputFindings (site : BindingSite) (from_ : String) (path : Option String) :
    List WorkflowFinding :=
  match (doc.firstNode? from_).bind (·.step?) with
  | some (.script n) =>
    let script := n.script
    match (resolved script).bind (·.outputSchema) with
    | some schema =>
      let shape := topLevelPropertyNames schema
      let walked := path.getD ""
      let names := ", ".intercalate shape
      let declares := if shape.isEmpty then "" else s!" (which declares: {names})"
      if jsonSchemaPathResolves schema path then []
      else [⟨site.path, .bindingUnresolvable,
        s!"path \"{walked}\" cannot exist on \"{script}\"'s declared output{declares}", .error⟩]
    | none => [⟨site.path, .uncheckedBinding,
        s!"\"{script}\" does not declare an output — this binding cannot be checked until it runs",
        .warning⟩]
  | _ => []

/-- A `{ from }` binding. -/
def fromFindings (site : BindingSite) (from_ : String) (path : Option String) :
    List WorkflowFinding :=
  if doc.hasNode from_ then
    (disabledFinding doc site from_).toList ++
      match forwardRefFinding doc site from_ with
      | some f => [f]
      | none => outputFindings doc resolved site from_ path
  else [⟨site.path, .control .unknownNode, s!"\"{from_}\" is not a node in this document", .error⟩]

/-- One `$nodes.<id>` of an expression. -/
def exprRefFinding (site : BindingSite) (id : String) : Option WorkflowFinding :=
  if doc.hasNode id then
    site.fromNodeId.bind fun nodeId ↦
      if doc.pathExists id nodeId then none
      else some ⟨site.path, .exprUnknownNode,
        s!"\"$nodes.{id}\" — \"{nodeId}\" binds to node \"{id}\"'s output, but \"{id}\" can only run AFTER \"{nodeId}\" (or never) in every execution this document allows",
        .error⟩
  else some ⟨site.path, .exprUnknownNode,
    s!"\"$nodes.{id}\" — \"{id}\" is not a node in this document", .error⟩

/-- `W_WORKFLOW_INDEX_AS_IDENTITY`. -/
def indexFinding (site : BindingSite) : WorkflowFinding :=
  ⟨site.path, .indexAsIdentity,
    "this indexes a workflow parameter by $run.index, which is a position inside ONE batch, not a property of the device: `order: \"random\"` reshuffles it deliberately, and one offline phone renumbers every device after it, so the same phone gets a different entry on the next run — use $device.number (the # on the phone itself) for anything that must stay with the device, and keep $run.index for dividing a fleet into equal shares",
    .warning⟩

/-- An `{ expr }` binding. -/
def exprFindings (site : BindingSite) (source : String) : List WorkflowFinding :=
  match parse id source with
  | .error err =>
    let message := err.message
    let offset := err.offset
    [⟨site.path, .exprParse, s!"{message} (at offset {offset})", .error⟩]
  | .ok ast =>
    (if usesRunIndexAsParamIndex ast then [indexFinding site] else []) ++
      (collectExprNodeRefs ast).filterMap (exprRefFinding doc site)

/-- What is said of a binding. -/
def siteFindings (site : BindingSite) : List WorkflowFinding :=
  match site.expr with
  | .param name => paramFindings doc resolved compiledParams site name
  | .fromNode node path _ _ => fromFindings doc resolved site node path
  | .expr source => exprFindings doc site source
  | .const _ | .run => []

/-- `checkWorkflow`; `budget` is `workflow.maxTotalMs`, when the caller has one. -/
def checkWorkflow (budget : Option Nat) : List WorkflowFinding :=
  (doc.idFindings ++ doc.entryFindings ++ doc.edgeFindings).map (·.whole) ++
    unreachableFindings doc ++ doc.shuffleFindings.map (·.whole) ++ loopFindings doc ++
    budgetFindings doc resolved budget ++ latestFindings doc ++ setNameFindings doc ++
    doc.collectBindingSites.flatMap (siteFindings doc resolved compiledParams)

end Findings

/-! ## Broken bindings -/

/-- A binding that names what is there: a declared parameter, a node, or in an expression that
parses, nodes only. -/
def ValueExpr.Unbroken (doc : WorkflowDoc) : ValueExpr → Prop
  | .param name => ∃ p ∈ doc.params, p.name = name
  | .fromNode node _ _ _ => ∃ n ∈ doc.nodes, n.id = node
  | .expr source => ∃ ast, parse id source = .ok ast ∧
      ∀ ref, NamesNode ref ast → ∃ n ∈ doc.nodes, n.id = ref
  | .const _ | .run => True

section

variable {doc : WorkflowDoc} {resolved : ResolvedScripts} {compiledParams : Value}
  {budget : Option Nat} {site : BindingSite}

theorem unbroken_of_siteFindings
    (h : ∀ f ∈ siteFindings doc resolved compiledParams site, f.severity ≠ .error) :
    site.expr.Unbroken doc := by
  rw [siteFindings] at h
  cases hexpr : site.expr with
  | const value => exact trivial
  | run => exact trivial
  | param name =>
    rw [hexpr] at h
    dsimp only [paramFindings] at h
    split_ifs at h with hdeclared
    · simpa [ValueExpr.Unbroken] using hdeclared
    · exact absurd rfl (h _ (.head _))
  | fromNode node path optional default =>
    rw [hexpr] at h
    dsimp only [fromFindings] at h
    split_ifs at h with hnode
    · exact WorkflowDoc.hasNode_iff.mp hnode
    · exact absurd rfl (h _ (.head _))
  | expr source =>
    rw [hexpr] at h
    dsimp only [exprFindings] at h
    cases hparse : parse id source with
    | error err =>
      rw [hparse] at h
      exact absurd rfl (h _ (.head _))
    | ok ast =>
      rw [hparse] at h
      refine ⟨ast, hparse, fun ref href ↦ ?_⟩
      by_contra hnone
      have hunknown : doc.hasNode ref = false := by
        rw [Bool.eq_false_iff]
        exact fun hhas ↦ hnone (WorkflowDoc.hasNode_iff.mp hhas)
      have hfinding : exprRefFinding doc site ref = some ⟨site.path, .exprUnknownNode,
          s!"\"$nodes.{ref}\" — \"{ref}\" is not a node in this document", .error⟩ := by
        rw [exprRefFinding, if_neg (by simp [hunknown])]
      have hmem := List.mem_filterMap.mpr ⟨ref, mem_collectExprNodeRefs.mpr href, hfinding⟩
      exact h _ (List.mem_append_right _ hmem) rfl

/-- A document without an error finding has none at its binding sites. -/
theorem unbroken_of_site
    (h : ∀ f ∈ checkWorkflow doc resolved compiledParams budget, f.severity ≠ .error)
    (hsite : site ∈ doc.collectBindingSites) : site.expr.Unbroken doc := by
  refine @unbroken_of_siteFindings doc resolved compiledParams site fun f hf ↦ h f ?_
  exact List.mem_append_right _ (List.mem_flatMap.mpr ⟨site, hsite, hf⟩)

/-- **When a document without an error finding has no broken binding**: exactly when no shuffle's
`between` is broken, which is the one field the checker does not look at. -/
theorem holds_unbroken_iff
    (h : ∀ f ∈ checkWorkflow doc resolved compiledParams budget, f.severity ≠ .error) :
    (∀ e, doc.Holds e → e.Unbroken doc) ↔
      ∀ node ∈ doc.nodes, ∀ n, node.body = .step (.shuffle n) → n.between.Unbroken doc := by
  constructor
  · intro hall node hnode n hbody
    exact hall _ (.between hnode hbody)
  · intro hbetween e he
    rcases WorkflowDoc.holds_iff.mp he with ⟨site, hsite, rfl⟩ | ⟨node, hnode, n, hbody, rfl⟩
    · exact unbroken_of_site h hsite
    · exact hbetween node hnode n hbody

end

/-! ## A pause no parameter gives -/

namespace UncheckedPause

/-- The pause before a shuffled member is bound to a parameter `pause`. -/
def warmup : ShuffleNode := ⟨["like", "follow"], .param "pause", 5000, false, some "end"⟩

def doc (params : List WorkflowParam) : WorkflowDoc where
  name := "flow"
  params := params
  entry := "start"
  nodes :=
    [⟨"start", true, .start (some "warmup")⟩,
      ⟨"warmup", true, .step (.shuffle warmup)⟩,
      ⟨"like", true, .step (.delay ⟨.const (.num 10), 1000, none⟩)⟩,
      ⟨"follow", true, .step (.delay ⟨.const (.num 10), 1000, none⟩)⟩,
      ⟨"end", true, .finish .succeed ""⟩]
  maxSteps := 50
  onFail := none

/-- **An undeclared parameter that no finding names.**  The schema accepts the document and the
checker says nothing, but the shuffle's `between` is bound to a parameter that is not declared. -/
theorem undeclared_pause :
    (doc []).schemaIssues = [] ∧
      checkWorkflow (doc []) (fun _ ↦ none) (.obj []) none = [] ∧
      ¬ ∀ e, (doc []).Holds e → e.Unbroken (doc []) := by
  refine ⟨rfl, by decide, fun h ↦ ?_⟩
  have hholds : (doc []).Holds warmup.between :=
    .between (.tail _ (.head _)) rfl
  obtain ⟨p, hp, -⟩ := h _ hholds
  exact nomatch hp

/-- Where it is declared, nothing is broken. -/
theorem declared_pause :
    (∀ f ∈ checkWorkflow (doc [⟨"pause", .null⟩]) (fun _ ↦ none) (.obj []) none, f.severity ≠ .error) ∧
      ∀ e, (doc [⟨"pause", .null⟩]).Holds e → e.Unbroken (doc [⟨"pause", .null⟩]) := by
  have hclean : ∀ f ∈ checkWorkflow (doc [⟨"pause", .null⟩]) (fun _ ↦ none) (.obj []) none,
      f.severity ≠ .error := by decide
  refine ⟨hclean, (holds_unbroken_iff hclean).mpr fun node hnode n hbody ↦ ?_⟩
  simp only [doc, List.mem_cons, List.not_mem_nil, or_false] at hnode
  rcases hnode with rfl | rfl | rfl | rfl | rfl <;> cases hbody
  exact ⟨_, List.mem_singleton_self _, rfl⟩

end UncheckedPause

end Enkaku
