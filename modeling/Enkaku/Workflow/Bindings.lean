import Enkaku.Expr.Parse
import Enkaku.Workflow.StepCompute

/-!
# Binding sites

Where a `ValueExpr` stands in a document, as the checker collects it: `collectBindingSites`, with
`predicateExprs` for the operands of a predicate.  And what it reads off an expression's tree: the
nodes it names by `$nodes.<id>`, and whether it indexes a parameter by `$run.index`.

`Mentions`, `NamesNode` and `WorkflowDoc.Holds` say the same without going through the document in
any order; `Holds` lists every field that carries a `ValueExpr`.  The sites are those it lists, apart
from the `between` of a shuffle (`holds_iff`).
-/

set_option autoImplicit false

namespace Enkaku

open List

/-! ## Predicates -/

/-- An operand of a leaf of the predicate. -/
inductive Mentions : Predicate → ValueExpr → Prop
  | left {left : ValueExpr} {op : GateOp} {right : Option ValueExpr} :
      Mentions (.leaf left op right) left
  | right {left right : ValueExpr} {op : GateOp} : Mentions (.leaf left op (some right)) right
  | all {preds : List Predicate} {pred : Predicate} {e : ValueExpr} (hmem : pred ∈ preds)
      (h : Mentions pred e) : Mentions (.all preds) e
  | any {preds : List Predicate} {pred : Predicate} {e : ValueExpr} (hmem : pred ∈ preds)
      (h : Mentions pred e) : Mentions (.any preds) e
  | not {pred : Predicate} {e : ValueExpr} (h : Mentions pred e) : Mentions (.not pred) e

mutual

/-- `predicateExprs`. -/
def predicateExprs : Predicate → List ValueExpr
  | .leaf left _ right => left :: right.toList
  | .all preds => predicatesExprs preds
  | .any preds => predicatesExprs preds
  | .not pred => predicateExprs pred

/-- The same for the children of a compound. -/
def predicatesExprs : List Predicate → List ValueExpr
  | [] => []
  | pred :: preds => predicateExprs pred ++ predicatesExprs preds

end

theorem mem_predicatesExprs {preds : List Predicate} {e : ValueExpr} :
    e ∈ predicatesExprs preds ↔ ∃ pred ∈ preds, e ∈ predicateExprs pred := by
  induction preds with
  | nil => simp [predicatesExprs]
  | cons pred preds ih => simp [predicatesExprs, ih]

/-- **The operands collected are those of the leaves**, at any nesting. -/
theorem mem_predicateExprs (pred : Predicate) (e : ValueExpr) :
    e ∈ predicateExprs pred ↔ Mentions pred e := by
  constructor
  · intro h
    match pred with
    | .leaf left op right =>
      rcases mem_cons.mp h with rfl | hright
      · exact .left
      · obtain rfl : right = some e := by simpa using hright
        exact .right
    | .all preds =>
      obtain ⟨pred, hmem, he⟩ := mem_predicatesExprs.mp h
      exact .all hmem ((mem_predicateExprs pred e).mp he)
    | .any preds =>
      obtain ⟨pred, hmem, he⟩ := mem_predicatesExprs.mp h
      exact .any hmem ((mem_predicateExprs pred e).mp he)
    | .not pred => exact .not ((mem_predicateExprs pred e).mp h)
  · intro h
    induction h with
    | left => exact .head _
    | right => exact .tail _ (.head _)
    | all hmem _ ih => exact mem_predicatesExprs.mpr ⟨_, hmem, ih⟩
    | any hmem _ ih => exact mem_predicatesExprs.mpr ⟨_, hmem, ih⟩
    | not _ ih => exact ih

/-! ## The nodes an expression names -/

section Tree

variable {number : Type}

/-- The first tree stands in the second. -/
inductive Within : Expr number → Expr number → Prop
  | self {e : Expr number} : Within e e
  | member {e on : Expr number} {key : String} (h : Within e on) : Within e (.member on key)
  | indexOn {e on idx : Expr number} (h : Within e on) : Within e (.index on idx)
  | indexAt {e on idx : Expr number} (h : Within e idx) : Within e (.index on idx)
  | unary {e on : Expr number} {op : UnaryOp} (h : Within e on) : Within e (.unary op on)
  | left {e l r : Expr number} {op : BinOp} (h : Within e l) : Within e (.bin op l r)
  | right {e l r : Expr number} {op : BinOp} (h : Within e r) : Within e (.bin op l r)
  | test {e c a b : Expr number} (h : Within e c) : Within e (.cond c a b)
  | then_ {e c a b : Expr number} (h : Within e a) : Within e (.cond c a b)
  | else_ {e c a b : Expr number} (h : Within e b) : Within e (.cond c a b)
  | arg {e arg : Expr number} {fn : String} {args : List (Expr number)} (hmem : arg ∈ args)
      (h : Within e arg) : Within e (.call fn args)

/-- The expression refers to `$nodes.<id>`. -/
def NamesNode (id : String) (ast : Expr number) : Prop := Within (.member (.root .nodes) id) ast

mutual

/-- `collectExprNodeRefs`, in the order of the tree. -/
def nodeRefs : Expr number → List String
  | .lit _ | .root _ => []
  | .member (.root .nodes) key => [key]
  | .member on _ => nodeRefs on
  | .index on idx => nodeRefs on ++ nodeRefs idx
  | .unary _ on => nodeRefs on
  | .bin _ l r => nodeRefs l ++ nodeRefs r
  | .cond c a b => nodeRefs c ++ nodeRefs a ++ nodeRefs b
  | .call _ args => nodeRefsOf args

/-- The same for the arguments of a call. -/
def nodeRefsOf : List (Expr number) → List String
  | [] => []
  | e :: es => nodeRefs e ++ nodeRefsOf es

end

/-- `collectExprNodeRefs`: each node once. -/
def collectExprNodeRefs (ast : Expr number) : List String := (nodeRefs ast).eraseDups

variable {id : String}

theorem mem_nodeRefsOf {args : List (Expr number)} :
    id ∈ nodeRefsOf args ↔ ∃ arg ∈ args, id ∈ nodeRefs arg := by
  induction args with
  | nil => simp [nodeRefsOf]
  | cons e es ih => simp [nodeRefsOf, ih]

theorem nodeRefs_member {on : Expr number} (hon : on ≠ .root .nodes) (key : String) :
    nodeRefs (.member on key) = nodeRefs on := by
  cases on with
  | root name => cases name <;> first | exact absurd rfl hon | rfl
  | _ => rfl

/-- **Every reference to a node is collected.** -/
theorem mem_nodeRefs_of_names {ast : Expr number} (h : NamesNode id ast) : id ∈ nodeRefs ast := by
  rw [NamesNode] at h
  induction h with
  | self => exact mem_singleton_self id
  | @member on key h ih =>
    have hon : on ≠ .root .nodes := by
      rintro rfl
      exact nomatch h
    rw [nodeRefs_member hon]
    exact ih
  | indexOn _ ih | left _ ih => exact mem_append_left _ ih
  | indexAt _ ih | right _ ih | else_ _ ih => exact mem_append_right _ ih
  | unary _ ih => exact ih
  | test _ ih => exact mem_append_left _ (mem_append_left _ ih)
  | then_ _ ih => exact mem_append_left _ (mem_append_right _ ih)
  | arg hmem _ ih => exact mem_nodeRefsOf.mpr ⟨_, hmem, ih⟩

/-- Only references are collected. -/
theorem names_of_mem_nodeRefs (ast : Expr number) (h : id ∈ nodeRefs ast) : NamesNode id ast := by
  match ast with
  | .lit _ | .root _ => exact nomatch h
  | .member on key =>
    by_cases hon : on = .root .nodes
    · subst hon
      obtain rfl : id = key := by simpa [nodeRefs] using h
      exact .self
    · rw [nodeRefs_member hon] at h
      exact .member (names_of_mem_nodeRefs on h)
  | .index on idx =>
    rcases mem_append.mp h with h | h
    · exact .indexOn (names_of_mem_nodeRefs on h)
    · exact .indexAt (names_of_mem_nodeRefs idx h)
  | .unary _ on => exact .unary (names_of_mem_nodeRefs on h)
  | .bin _ l r =>
    rcases mem_append.mp h with h | h
    · exact .left (names_of_mem_nodeRefs l h)
    · exact .right (names_of_mem_nodeRefs r h)
  | .cond c a b =>
    rcases mem_append.mp h with h | h
    · rcases mem_append.mp h with h | h
      · exact .test (names_of_mem_nodeRefs c h)
      · exact .then_ (names_of_mem_nodeRefs a h)
    · exact .else_ (names_of_mem_nodeRefs b h)
  | .call _ args =>
    obtain ⟨arg, hmem, harg⟩ := mem_nodeRefsOf.mp h
    exact .arg hmem (names_of_mem_nodeRefs arg harg)

theorem mem_collectExprNodeRefs {ast : Expr number} :
    id ∈ collectExprNodeRefs ast ↔ NamesNode id ast := by
  rw [collectExprNodeRefs, mem_eraseDups]
  exact ⟨names_of_mem_nodeRefs ast, mem_nodeRefs_of_names⟩

/-! ## `$run.index` as an identity -/

/-- `isParamsRooted`. -/
def isParamsRooted : Expr number → Bool
  | .root .params => true
  | .member on _ => isParamsRooted on
  | _ => false

mutual

/-- `mentionsRunIndex`. -/
def mentionsRunIndex : Expr number → Bool
  | .lit _ | .root _ => false
  | .member (.root .run) "index" => true
  | .member on _ => mentionsRunIndex on
  | .index on idx => mentionsRunIndex on || mentionsRunIndex idx
  | .unary _ on => mentionsRunIndex on
  | .bin _ l r => mentionsRunIndex l || mentionsRunIndex r
  | .cond c a b => mentionsRunIndex c || mentionsRunIndex a || mentionsRunIndex b
  | .call _ args => someMentionsRunIndex args

/-- Some argument of a call mentions it. -/
def someMentionsRunIndex : List (Expr number) → Bool
  | [] => false
  | e :: es => mentionsRunIndex e || someMentionsRunIndex es

end

/-- `at(list, i)` and `get(obj, path)`, where they index a parameter by `$run.index`. -/
def callIndexesParam (fn : String) : List (Expr number) → Bool
  | first :: second :: _ =>
    (fn == "at" || fn == "get") && isParamsRooted first && mentionsRunIndex second
  | _ => false

mutual

/-- `usesRunIndexAsParamIndex`. -/
def usesRunIndexAsParamIndex : Expr number → Bool
  | .lit _ | .root _ => false
  | .index on idx =>
    (isParamsRooted on && mentionsRunIndex idx) || usesRunIndexAsParamIndex on ||
      usesRunIndexAsParamIndex idx
  | .member on _ => usesRunIndexAsParamIndex on
  | .unary _ on => usesRunIndexAsParamIndex on
  | .bin _ l r => usesRunIndexAsParamIndex l || usesRunIndexAsParamIndex r
  | .cond c a b =>
    usesRunIndexAsParamIndex c || usesRunIndexAsParamIndex a || usesRunIndexAsParamIndex b
  | .call fn args => callIndexesParam fn args || someUsesRunIndex args

/-- Some argument of a call does. -/
def someUsesRunIndex : List (Expr number) → Bool
  | [] => false
  | e :: es => usesRunIndexAsParamIndex e || someUsesRunIndex es

end

end Tree

/-! ## Sites -/

/-- `BindingSite`: `fromNodeId` is absent for the cleanup script, and `target` names the script and
the parameter that a script's own parameter is bound to. -/
structure BindingSite where
  fromNodeId : Option String
  path : String
  expr : ValueExpr
  target : Option (String × String) := none
  deriving DecidableEq, Repr

/-- The sites of the parameters of a script. -/
def paramSites (fromNodeId : Option String) (owner script : String)
    (params : List (String × ValueExpr)) : List BindingSite :=
  params.map fun p ↦
    let key := p.1
    { fromNodeId := fromNodeId, path := s!"{owner}params.{key}", expr := p.2,
      target := some (script, key) }

/-- The sites of the operands of a predicate: all have the path of the predicate. -/
def predicateSites (nodeId path : String) (pred : Predicate) : List BindingSite :=
  (predicateExprs pred).map fun e ↦ { fromNodeId := some nodeId, path := path, expr := e }

/-- The sites of the node at `i`. -/
def WorkflowNode.bindingSites (node : WorkflowNode) (i : Nat) : List BindingSite :=
  match node.body with
  | .step (.script n) => paramSites (some node.id) s!"nodes[{i}]." n.script n.params
  | .step (.gate n) => predicateSites node.id s!"nodes[{i}].when" n.when_
  | .step (.switch n) =>
    n.cases.zipIdx.flatMap fun q ↦
      let ci := q.2
      match q.1.when_ with
      | none => []
      | some pred => predicateSites node.id s!"nodes[{i}].cases[{ci}].when" pred
  | .step (.set n) =>
    n.assignments.zipIdx.flatMap fun q ↦
      let ai := q.2
      [{ fromNodeId := some node.id, path := s!"nodes[{i}].assignments[{ai}].name", expr := q.1.name },
        { fromNodeId := some node.id, path := s!"nodes[{i}].assignments[{ai}].value",
          expr := q.1.value }]
  | .step (.delay n) =>
    [{ fromNodeId := some node.id, path := s!"nodes[{i}].ms", expr := n.ms }]
  | _ => []

/-- `collectBindingSites`. -/
def WorkflowDoc.collectBindingSites (doc : WorkflowDoc) : List BindingSite :=
  (doc.nodes.zipIdx.flatMap fun p ↦ p.1.bindingSites p.2) ++
    match doc.onFail with
    | none => []
    | some onFail => paramSites none "onFail." onFail.script onFail.params

/-- A `ValueExpr` a step kind resolves, apart from the `between` of a shuffle. -/
inductive StepNode.Holds : StepNode → ValueExpr → Prop
  | param {n : ScriptNode} {key : String} {e : ValueExpr} (h : (key, e) ∈ n.params) :
      Holds (.script n) e
  | gate {n : GateNode} {e : ValueExpr} (h : Mentions n.when_ e) : Holds (.gate n) e
  | switchCase {n : SwitchNode} {c : SwitchCase} {pred : Predicate} {e : ValueExpr}
      (hmem : c ∈ n.cases) (hwhen : c.when_ = some pred) (h : Mentions pred e) :
      Holds (.switch n) e
  | setName {n : SetNode} {a : SetAssignment} (h : a ∈ n.assignments) : Holds (.set n) a.name
  | setValue {n : SetNode} {a : SetAssignment} (h : a ∈ n.assignments) : Holds (.set n) a.value
  | delay {n : DelayNode} : Holds (.delay n) n.ms

/-- Every `ValueExpr` in a document that the executor can resolve. -/
inductive WorkflowDoc.Holds (doc : WorkflowDoc) : ValueExpr → Prop
  | step {node : WorkflowNode} {n : StepNode} {e : ValueExpr} (hmem : node ∈ doc.nodes)
      (hbody : node.body = .step n) (h : n.Holds e) : Holds doc e
  | between {node : WorkflowNode} {n : ShuffleNode} (hmem : node ∈ doc.nodes)
      (hbody : node.body = .step (.shuffle n)) : Holds doc n.between
  | onFail {cleanup : OnFail} {key : String} {e : ValueExpr} (hcleanup : doc.onFail = some cleanup)
      (h : (key, e) ∈ cleanup.params) : Holds doc e

/-- The sites of a node are about what it holds. -/
theorem mem_bindingSites {node : WorkflowNode} {i : Nat} {e : ValueExpr} :
    (∃ site ∈ node.bindingSites i, site.expr = e) ↔ ∃ n, node.body = .step n ∧ n.Holds e := by
  obtain ⟨id, enabled, body⟩ := node
  cases body with
  | start | finish => simp [WorkflowNode.bindingSites]
  | step n =>
    simp only [NodeBody.step.injEq, exists_eq_left']
    cases n with
    | script n =>
      constructor
      · rintro ⟨site, hsite, rfl⟩
        obtain ⟨p, hp, rfl⟩ := mem_map.mp hsite
        exact .param hp
      · intro h
        cases h with
        | param hmem => exact ⟨_, mem_map.mpr ⟨_, hmem, rfl⟩, rfl⟩
    | gate n =>
      constructor
      · rintro ⟨site, hsite, rfl⟩
        obtain ⟨e, he, rfl⟩ := mem_map.mp hsite
        exact .gate ((mem_predicateExprs _ _).mp he)
      · intro h
        cases h with
        | gate h => exact ⟨_, mem_map.mpr ⟨e, (mem_predicateExprs _ _).mpr h, rfl⟩, rfl⟩
    | switch n =>
      constructor
      · rintro ⟨site, hsite, rfl⟩
        obtain ⟨⟨c, ci⟩, hc, hsite⟩ := mem_flatMap.mp hsite
        cases hwhen : c.when_ with
        | none =>
          rw [hwhen] at hsite
          exact nomatch hsite
        | some pred =>
          rw [hwhen] at hsite
          obtain ⟨e, he, rfl⟩ := mem_map.mp hsite
          have hmem : c ∈ n.cases := mem_of_getElem? (mem_zipIdx_iff_getElem?.mp hc)
          exact .switchCase hmem hwhen ((mem_predicateExprs _ _).mp he)
      · intro h
        cases h with
        | @switchCase _ c pred _ hmem hwhen h =>
          obtain ⟨ci, hci⟩ := getElem?_of_mem hmem
          refine ⟨⟨some id, s!"nodes[{i}].cases[{ci}].when", e, none⟩, List.mem_flatMap.mpr
            ⟨(c, ci), mem_zipIdx_iff_getElem?.mpr hci, ?_⟩, rfl⟩
          rw [hwhen]
          exact mem_map.mpr ⟨e, (mem_predicateExprs _ _).mpr h, rfl⟩
    | set n =>
      constructor
      · rintro ⟨site, hsite, rfl⟩
        obtain ⟨⟨a, ai⟩, ha, hsite⟩ := mem_flatMap.mp hsite
        have hmem : a ∈ n.assignments := mem_of_getElem? (mem_zipIdx_iff_getElem?.mp ha)
        rcases mem_pair.mp hsite with rfl | rfl
        · exact .setName hmem
        · exact .setValue hmem
      · intro h
        cases h with
        | setName hmem =>
          obtain ⟨ai, hai⟩ := getElem?_of_mem hmem
          exact ⟨_, mem_flatMap.mpr ⟨(_, ai), mem_zipIdx_iff_getElem?.mpr hai,
            mem_pair.mpr (.inl rfl)⟩, rfl⟩
        | setValue hmem =>
          obtain ⟨ai, hai⟩ := getElem?_of_mem hmem
          exact ⟨_, mem_flatMap.mpr ⟨(_, ai), mem_zipIdx_iff_getElem?.mpr hai,
            mem_pair.mpr (.inr rfl)⟩, rfl⟩
    | delay n =>
      constructor
      · rintro ⟨site, hsite, rfl⟩
        obtain rfl := mem_singleton.mp hsite
        exact .delay
      · rintro ⟨⟩
        exact ⟨_, mem_singleton_self _, rfl⟩
    | shuffle n =>
      constructor
      · rintro ⟨site, hsite, -⟩
        exact nomatch hsite
      · intro h
        exact nomatch h

theorem mem_paramSites {fromNodeId : Option String} {owner script : String}
    {params : List (String × ValueExpr)} {e : ValueExpr} :
    (∃ site ∈ paramSites fromNodeId owner script params, site.expr = e) ↔
      ∃ key, (key, e) ∈ params := by
  constructor
  · rintro ⟨site, hsite, rfl⟩
    obtain ⟨⟨key, e⟩, hp, rfl⟩ := mem_map.mp hsite
    exact ⟨key, hp⟩
  · rintro ⟨key, hp⟩
    exact ⟨_, mem_map.mpr ⟨_, hp, rfl⟩, rfl⟩

/-- **What the document holds is at a binding site, or is the `between` of a shuffle.** -/
theorem WorkflowDoc.holds_iff {doc : WorkflowDoc} {e : ValueExpr} :
    doc.Holds e ↔ (∃ site ∈ doc.collectBindingSites, site.expr = e) ∨
      ∃ node ∈ doc.nodes, ∃ n, node.body = .step (.shuffle n) ∧ n.between = e := by
  constructor
  · intro h
    cases h with
    | @step node n _ hmem hbody h =>
      obtain ⟨i, hi⟩ := getElem?_of_mem hmem
      obtain ⟨site, hsite, he⟩ := (@mem_bindingSites node i e).mpr ⟨n, hbody, h⟩
      refine .inl ⟨site, mem_append_left _ (mem_flatMap.mpr ?_), he⟩
      exact ⟨(node, i), mem_zipIdx_iff_getElem?.mpr hi, hsite⟩
    | between hmem hbody => exact .inr ⟨_, hmem, _, hbody, rfl⟩
    | onFail hcleanup h =>
      obtain ⟨site, hsite, he⟩ := mem_paramSites.mpr ⟨_, h⟩
      refine .inl ⟨site, mem_append_right _ ?_, he⟩
      rw [hcleanup]
      exact hsite
  · rintro (⟨site, hsite, rfl⟩ | ⟨node, hmem, n, hbody, rfl⟩)
    · rcases mem_append.mp hsite with hsite | hsite
      · obtain ⟨⟨node, i⟩, hnode, hsite⟩ := mem_flatMap.mp hsite
        obtain ⟨n, hbody, h⟩ := mem_bindingSites.mp ⟨site, hsite, rfl⟩
        exact .step (mem_of_getElem? (mem_zipIdx_iff_getElem?.mp hnode)) hbody h
      · cases hcleanup : doc.onFail with
        | none =>
          rw [hcleanup] at hsite
          exact nomatch hsite
        | some cleanup =>
          rw [hcleanup] at hsite
          obtain ⟨key, h⟩ := mem_paramSites.mp ⟨site, hsite, rfl⟩
          exact .onFail hcleanup h
    · exact .between hmem hbody

end Enkaku
