import Enkaku.Workflow.Evaluate
import Enkaku.Workflow.Grouped

/-!
# The split of a grouped document

`groupSplitCases` writes the cases of a split, `readGrouped` recognises them by the text of their
expressions, and `computeSwitchStep` has the text parsed and evaluated for each device.  All three
mean the same: position `k` of a batch takes case `k % G`.

`IsGrouped` is the shape `readGrouped` describes, put without its walk.
-/

set_option autoImplicit false

namespace Enkaku

open List

open WorkflowDoc

open Evaluator (Numbers ExprFn codeUnitsOf evalNode spend_run)
open Js (Data text)

/-! ## The writer -/

/-- A share, as the editor hands it to `groupSplitCases`. -/
structure GroupShare where
  to_ : Option String
  label : Option String
  deriving DecidableEq, Repr

/-- `$run.index % G == index`. -/
def sharePredicate (index groupCount : Nat) : Predicate :=
  .leaf (.expr (groupSplitExpr groupCount)) .eq (some (.const (.num index)))

/-- `share?.label || …`. -/
def shareLabel (share : Option GroupShare) (index : Nat) : String :=
  let number := index + 1
  ((share.bind (·.label)).filter fun l ↦ !l.isEmpty).getD s!"Group {number}"

/-- `groupSplitCases`: the cases, each with its label. -/
def groupSplitCases (groupCount : Nat) (shares : List GroupShare) : List (SwitchCase × String) :=
  (List.range groupCount).map fun i ↦
    (⟨some (sharePredicate i groupCount), none, shares[i]?.bind (·.to_)⟩, shareLabel shares[i]? i)

theorem isShareCase_iff {when_ : Option Predicate} {index groupCount : Nat} :
    isShareCase when_ index groupCount = true ↔ when_ = some (sharePredicate index groupCount) := by
  rw [sharePredicate]
  constructor
  · intro h
    unfold isShareCase at h
    split at h
    next source q =>
      rw [Bool.and_eq_true, decide_eq_true_eq, decide_eq_true_eq] at h
      rw [h.1, h.2]
    next => cases h
  · rintro rfl
    simp [isShareCase]

/-! ## The expression -/

section Split

variable {nm : Numbers ℚ} {toNumber : String → ℚ} {others : String → Option (ExprFn ℚ)}
  {conversion : String}

/-- The tree of `$run.index % G`. -/
def splitTree (toNumber : String → ℚ) (groupCount : Nat) : Expr ℚ :=
  .bin .mod (.member (.root .run) "index") (.lit (.num (toNumber (toString groupCount))))

theorem isDigit_of_mem_toDigits {n : Nat} {c : Char} (h : c ∈ Nat.toDigits 10 n) : isDigit c := by
  have hrange := Decimal.range_of_isDigit (Decimal.isDigit_of_mem h)
  rw [isDigit, Bool.and_eq_true, decide_eq_true_eq, decide_eq_true_eq]
  exact hrange

theorem groupSplitExpr_eq (groupCount : Nat) :
    groupSplitExpr groupCount = "$run.index % " ++ groupCount.repr := rfl

theorem lexes_split (groupCount : Nat) :
    Lexes (groupSplitExpr groupCount).toList
      [.root .run, .punct ".", .ident "index", .punct "%", .num (toString groupCount)] := by
  have htext : (groupSplitExpr groupCount).toList =
      RootName.run.text.toList ++ (['.'] ++ (['i', 'n', 'd', 'e', 'x'] ++ (' ' :: (['%'] ++
        (' ' :: (Nat.toDigits 10 groupCount ++ [])))))) := by
    rw [groupSplitExpr_eq, String.toList_append, Nat.toList_repr, append_nil,
      show "$run.index % ".toList = ['$', 'r', 'u', 'n', '.', 'i', 'n', 'd', 'e', 'x', ' ', '%', ' ']
        from rfl]
    rfl
  have hdigits : Lexes (Nat.toDigits 10 groupCount ++ []) [.num (toString groupCount)] := by
    obtain ⟨d, ds, heq⟩ := exists_cons_of_ne_nil (Nat.toDigits_ne_nil (n := groupCount) (b := 10))
    have hall : ∀ c ∈ d :: ds, isDigit c := fun c hc ↦ isDigit_of_mem_toDigits (heq ▸ hc)
    have hread : Reads (d :: ds) (.num (String.ofList (d :: ds))) [] :=
      .whole (hall d (.head _)) (fun c hc ↦ hall c (.tail _ hc))
        (fun _ _ h ↦ by cases h) fun _ _ h ↦ by cases h
    rw [Nat.toString_eq_repr, Nat.repr_eq_ofList_toDigits, heq]
    exact .token hread .nil
  have hroot {rest : List Char} : Reads RootName.run.text.toList (.root .run) (['.'] ++ rest) := by
    refine .root fun c rest h ↦ ?_
    obtain ⟨rfl, -⟩ := List.cons.inj h
    decide
  have hpoint {rest : List Char} : Reads ['.'] (.punct (String.ofList ['.'])) ('i' :: rest) := by
    refine .single (by decide) fun c rest h ↦ ?_
    obtain ⟨rfl, -⟩ := List.cons.inj h
    decide
  have hindex {rest : List Char} : Reads ['i', 'n', 'd', 'e', 'x']
      (.ident (String.ofList ['i', 'n', 'd', 'e', 'x'])) (' ' :: rest) := by
    refine .ident (by decide) (by simp [isIdentPart, isIdentStart]) fun c rest h ↦ ?_
    obtain ⟨rfl, -⟩ := List.cons.inj h
    decide
  have hmod {rest : List Char} : Reads ['%'] (.punct (String.ofList ['%'])) (' ' :: rest) := by
    refine .single (by decide) fun c rest h ↦ ?_
    obtain ⟨rfl, -⟩ := List.cons.inj h
    decide
  have hspace : isSpace ' ' = true := by decide
  rw [htext]
  exact .token hroot (.token hpoint (.token hindex
    (.space hspace (.token hmod (.space hspace hdigits)))))

theorem derives_split (groupCount n : Nat) :
    Derives toNumber .expr n
      [.root .run, .punct ".", .ident "index", .punct "%", .num (toString groupCount)]
      (splitTree toNumber groupCount) := by
  have hindex : Derives toNumber .access n [.root .run, .punct ".", .ident "index"]
      (.member (.root .run) "index") := .member (.primary .root)
  have hmod : Derives toNumber .multiplicative n
      [.root .run, .punct ".", .ident "index", .punct "%", .num (toString groupCount)]
      (splitTree toNumber groupCount) :=
    @Derives.join ℚ toNumber .multiplicative .unary [.mul, .div, .mod] .mod n _ _ _ _ rfl (by decide)
      (.operand rfl (.unsigned hindex)) (.unsigned (.primary .num))
  exact .plain (.operand rfl (.operand rfl (.operand rfl (.operand rfl (.operand rfl hmod)))))

theorem utf8Len_le (cs : List Char) : String.utf8Len cs ≤ 4 * cs.length := by
  induction cs with
  | nil => simp
  | cons c cs ih =>
    have hc := Char.utf8Size_le_four c
    rw [String.utf8Len_cons, length_cons]
    omega

theorem parse_split {groupCount : Nat} (h : groupCount < 2 ^ 32) :
    parse toNumber (groupSplitExpr groupCount) = .ok (splitTree toNumber groupCount) := by
  refine (parse_ok_iff _ _ _).mpr ⟨?_, ?_, _, lexes_split groupCount, derives_split groupCount _⟩
  · have hdigits : (Nat.toDigits 10 groupCount).length ≤ 10 :=
      (Nat.length_toDigits_le_iff (by omega) (by omega)).mpr (by omega)
    have hbytes := utf8Len_le (Nat.toDigits 10 groupCount)
    have hlead : "$run.index % ".utf8ByteSize = 13 := by decide
    rw [groupSplitExpr_eq, String.utf8ByteSize_append, hlead, Nat.repr_eq_ofList_toDigits,
      String.utf8ByteSize_ofList]
    show _ ≤ 2000
    omega
  · show 4 ≤ exprLimits.maxAstNodes
    decide

variable (others conversion)

/-- **The expression of a split is the position, modulo the groups.** -/
theorem exprEvaluator_split (hnm : WholeNumbers nm toNumber) {scope : ExprScope} {k groupCount : Nat}
    (hindex : scope.index = k) (hk : nm.finite k = true) (hpos : 0 < groupCount)
    (hcount : groupCount < 2 ^ 32) (draws : Nat) :
    exprEvaluator nm toNumber others conversion scope draws (groupSplitExpr groupCount) =
      (.ok (.num (k % groupCount : ℕ)), draws) := by
  have hfinite : nm.finite groupCount = true := hnm.safe groupCount (by omega)
  have hmember : Evaluator.getMember nm ((scope.roots draws).root .run) (codeUnitsOf "index") =
      .num k := by
    rw [← Int.cast_natCast, ← hindex]
    rfl
  have heval : evalNode nm others (scope.roots draws) (splitTree toNumber groupCount)
      ⟨9996 + 1 + 1 + 1 + 1, draws⟩ = .ok (.num (k % groupCount : ℕ), ⟨9996, draws⟩) := by
    have hon : evalNode nm others (scope.roots draws) (.member (.root .run) "index")
        ⟨9997 + 1 + 1, draws⟩ = .ok (.num k, ⟨9997, draws⟩) := by
      rw [Evaluator.evalNode_member (Evaluator.evalNode_root _ _ _), hmember]
    have hcount : toNumber (toString groupCount) = groupCount := hnm.read groupCount hfinite
    rw [splitTree, Evaluator.evalNode_bin (by decide) (by decide) hon (Evaluator.evalNode_lit _ _ _),
      hcount]
    show Except.ok (Data.num (nm.mod k groupCount), _) = _
    rw [hnm.mod_natCast hk hfinite hpos]
  exact exprEvaluator_of_ok (parse_split hcount) heval

/-! ## The case that fires -/

/-- The position a scope reads as `$run.index` is `k`. -/
theorem index_of_runIndex {scope : ResolveScope} {k : Nat} (h : scope.runIndex = some (k : Int)) :
    (buildExprScope scope).index = k := by
  rw [buildExprScope, h]
  rfl

variable {ev : Evaluator} {scope : ResolveScope} {groupCount share : Nat}

/-- A test on two operands. -/
theorem evaluateLeaf_of_resolved {left right : ValueExpr} {op : GateOp} {l r : ResolveOutcome}
    {draws draws' draws'' : Nat} (hl : resolveValue ev scope left draws = (l, draws'))
    (hr : resolveValue ev scope right draws' = (r, draws'')) :
    ∃ trace, evaluateLeaf ev scope left op (some right) draws =
      ((leafValue op l (some r), trace), draws'') := by
  refine ⟨.leaf op (l.value?.getD .undefined) (r.value?.getD .undefined) l.detail? r.detail?
    (leafValue op l (some r)), ?_⟩
  rw [evaluateLeaf]
  simp only [bind, StateT.bind, hl, Option.mapM, pure, StateT.pure, Functor.map, StateT.map, hr]
  rfl

/-- The predicate of a share holds at one value of the expression. -/
theorem evaluatePredicate_share
    (hev : ∀ draws, ev (buildExprScope scope) draws (groupSplitExpr groupCount) =
      (.ok (.num share), draws)) (index draws : Nat) :
    ∃ trace, evaluatePredicate ev scope (sharePredicate index groupCount) draws =
      ((decide (share = index), trace), draws) := by
  have hleft : resolveValue ev scope (.expr (groupSplitExpr groupCount)) draws =
      (.ok (.num share), draws) := by
    rw [resolveValue]
    dsimp only
    rw [hev]
  have hequal : leafValue .eq (.ok (.num share)) (some (.ok (.num index))) =
      decide (share = index) := by
    rw [Bool.eq_iff_iff]
    simp [leafValue, ResolveOutcome.value?, deepEqual]
  rw [sharePredicate, evaluatePredicate, ← hequal]
  exact evaluateLeaf_of_resolved hleft rfl

variable {cases : List SwitchCase}

/-- A case whose predicate holds fires. -/
theorem predicateCase_of_true {c : SwitchCase} {pred : Predicate} {trace : PredicateTrace}
    {draws draws' : Nat} (hwhen : c.when_ = some pred)
    (hpred : evaluatePredicate ev scope pred draws = ((true, trace), draws')) :
    predicateCase ev scope (c :: cases) draws = (some 0, draws') := by
  rw [predicateCase, hwhen]
  show (evaluatePredicate ev scope pred >>= _) draws = _
  simp only [bind, StateT.bind, hpred]
  rfl

/-- A case whose predicate does not hold is passed over. -/
theorem predicateCase_of_false {c : SwitchCase} {pred : Predicate} {trace : PredicateTrace}
    {draws draws' draws'' : Nat} {fired : Option Nat} (hwhen : c.when_ = some pred)
    (hpred : evaluatePredicate ev scope pred draws = ((false, trace), draws'))
    (hrest : predicateCase ev scope cases draws' = (fired, draws'')) :
    predicateCase ev scope (c :: cases) draws = (fired.map (· + 1), draws'') := by
  rw [predicateCase, hwhen]
  show (evaluatePredicate ev scope pred >>= _) draws = _
  simp only [bind, StateT.bind, hpred]
  show (predicateCase ev scope cases >>= _) draws' = _
  simp only [bind, StateT.bind, hrest]
  rfl

section

variable (hev : ∀ draws, ev (buildExprScope scope) draws (groupSplitExpr groupCount) =
      (.ok (.num share), draws))
include hev

/-- Of the cases from `first` on, the one of the share fires. -/
theorem predicateCase_shares {first : Nat} (draws : Nat)
    (hcases : ∀ i c, cases[i]? = some c → c.when_ = some (sharePredicate (first + i) groupCount))
    (hfirst : first ≤ share) (hlast : share < first + cases.length) :
    predicateCase ev scope cases draws = (some (share - first), draws) := by
  induction cases generalizing first with
  | nil => exact absurd hlast (Nat.not_lt.mpr hfirst)
  | cons c cases ih =>
    have hwhen : c.when_ = some (sharePredicate first groupCount) := hcases 0 c rfl
    obtain ⟨trace, hpred⟩ := evaluatePredicate_share hev first draws
    rcases Nat.eq_or_lt_of_le hfirst with rfl | hlt
    · rw [decide_eq_true rfl] at hpred
      rw [predicateCase_of_true hwhen hpred, Nat.sub_self]
    · rw [decide_eq_false hlt.ne'] at hpred
      have hlater : ∀ i c, cases[i]? = some c →
          c.when_ = some (sharePredicate (first + 1 + i) groupCount) := by
        intro i c hc
        rw [Nat.add_assoc, Nat.add_comm 1]
        exact hcases (i + 1) c hc
      have hrest := ih hlater hlt (by rw [length_cons] at hlast; omega)
      rw [predicateCase_of_false hwhen hpred hrest, Option.map_some]
      congr 2
      omega

/-- **The step of a split takes the case of the share.** -/
theorem computeSwitchStep_share {node : SwitchNode} (hmode : node.mode = .predicate)
    (hcases : ∀ i c, node.cases[i]? = some c → c.when_ = some (sharePredicate i groupCount))
    (hshare : share < node.cases.length) :
    computeSwitchStep ev node scope =
      { takenEdge := .case share
        output := .obj [("case", .num share),
          ("branch", branchValue (node.cases[share]?.bind (·.to_)))] } := by
  have hfired : firedIndex ev node scope = some share := by
    rw [firedIndex, hmode]
    show (predicateCase ev scope node.cases 0).1 = some share
    have hfirst : ∀ i c, node.cases[i]? = some c →
        c.when_ = some (sharePredicate (0 + i) groupCount) := by
      simpa using hcases
    rw [predicateCase_shares hev 0 hfirst (Nat.zero_le _) (by simpa using hshare)]
    rfl
  rw [computeSwitchStep, hfired]

end

end Split

/-! ## What is read -/

section Reader

variable {title : WorkflowNode → String} {label : Nat → String} {doc : WorkflowDoc}

/-- The shares are headed by what the cases point at. -/
theorem walkShares_heads {cases : List (SwitchCase × Nat)} {seen seen' : List String}
    {finishes finishes' : List WorkflowNode} {groups groups' : List GroupView}
    (h : walkShares title label doc cases seen finishes groups = .ok (seen', finishes', groups')) :
    groups'.map (·.headId) = groups.map (·.headId) ++ cases.map (·.1.to_) := by
  induction cases generalizing seen finishes groups with
  | nil =>
    rw [walkShares] at h
    obtain ⟨-, h'⟩ := Prod.mk.inj (Except.ok.inj h)
    obtain ⟨-, rfl⟩ := Prod.mk.inj h'
    simp
  | cons p cases ih =>
    obtain ⟨c, i⟩ := p
    rw [walkShares] at h
    split at h
    · cases h
    · rw [ih h]
      simp

/-- The split of a document that is read. -/
theorem readGrouped_cases {view : GroupedView} (h : readGrouped title label doc = .ok view) :
    ∃ s, view.split.switch? = some s ∧ s.mode = .predicate ∧ 2 ≤ view.groupCount ∧
      s.cases.length = view.groupCount ∧
      (∀ i c, s.cases[i]? = some c → c.when_ = some (sharePredicate i view.groupCount)) ∧
      view.groups.map (·.headId) = s.cases.map (·.to_) := by
  rw [readGrouped] at h
  split at h
  · cases h
  split at h
  · cases h
  split at h
  · cases h
  next s hswitch =>
  dsimp only at h
  split_ifs at h with hmode hdefault hcount hcases
  rw [readShares] at h
  split at h
  · cases h
  dsimp only at h
  split at h
  · cases h
  next hwalk =>
  split at h
  · cases h
  cases h
  rw [Bool.not_eq_true', Bool.not_eq_false, all_eq_true] at hcases
  refine ⟨s, hswitch, by simpa using hmode, Nat.not_lt.mp hcount, rfl, fun i c hc ↦ ?_, ?_⟩
  · exact isShareCase_iff.mp (hcases (c, i) (mem_zipIdx_iff_getElem?.mpr hc))
  · have hheads := walkShares_heads hwalk
    rw [map_nil, nil_append] at hheads
    rw [hheads, ← Function.comp_def (fun c : SwitchCase ↦ c.to_) Prod.fst, ← map_map, zipIdx_map_fst]

end Reader

/-! ## The shape -/

/-- The walk of a share along `next`: the nodes on it, and the `finish` it ends at.  An edge that
leads nowhere ends it too. -/
inductive ShareWalk (doc : WorkflowDoc) :
    Option String → List WorkflowNode → Option WorkflowNode → Prop
  | dangling {cursor : Option String} (h : cursor.bind doc.node? = none) :
    ShareWalk doc cursor [] none
  | finish {cursor : Option String} {f : WorkflowNode} (h : cursor.bind doc.node? = some f)
      (hf : f.isFinish) : ShareWalk doc cursor [] (some f)
  | action {cursor : Option String} {n : WorkflowNode} {rows : List WorkflowNode}
      {fin : Option WorkflowNode} (h : cursor.bind doc.node? = some n) (hn : n.isFinish = false)
      (rest : ShareWalk doc n.linearNext rows fin) : ShareWalk doc cursor (n :: rows) fin

/-- From the start to the split, over the stagger when there is one. -/
def ComesToSplit (doc : WorkflowDoc) (start split : WorkflowNode) : Option WorkflowNode → Prop
  | none => start.linearNext.bind doc.node? = some split
  | some node => start.linearNext.bind doc.node? = some node ∧ (readStagger node).isSome ∧
      node.linearNext.bind doc.node? = some split

/-- **The shape `readGrouped` describes**, of a document whose split is the switch `s`, with the walk
of each of its cases. -/
structure IsGrouped (doc : WorkflowDoc) (start split : WorkflowNode) (stagger : Option WorkflowNode)
    (s : SwitchNode) (walks : List (List WorkflowNode × Option WorkflowNode)) : Prop where
  starts : doc.nodes.find? (·.isStart) = some start
  comes : ComesToSplit doc start split stagger
  switch : split.switch? = some s
  mode : s.mode = .predicate
  fallback : ∀ b, s.default = some b → ∃ f, doc.node? b = some f ∧ f.isFinish
  oneBranch : ∀ n ∈ doc.nodes, n.isBranch → n.id = split.id
  walked : List.Forall₂ (fun c w ↦ ShareWalk doc c.to_ w.1 w.2) s.cases walks
  failures : ∀ n ∈ walks.flatMap (·.1), FailureStays (fun b ↦ doc.endsAt b = true) n
  once : ((walks.flatMap (·.1)).map (·.id)).Nodup
  apart : ∀ n ∈ walks.flatMap (·.1), n.id ∉ (start :: split :: stagger.toList).map (·.id)
  reached : ∀ n ∈ doc.nodes, n.id ∈ (start :: split :: stagger.toList).map (·.id) ∨
    s.default = some n.id ∨ n.id ∈ doc.ownedByShuffle ∨
      ∃ w ∈ walks, (∃ m ∈ w.1, m.id = n.id) ∨ ∃ f ∈ w.2, f.id = n.id

section Reader

variable {title : WorkflowNode → String} {label : Nat → String} {doc : WorkflowDoc}

variable {cursor : Option String} {n : WorkflowNode}

theorem node?_of_bind (h : cursor.bind doc.node? = some n) :
    cursor = some n.id ∧ doc.node? n.id = some n := by
  obtain ⟨id, rfl, hnode⟩ := Option.bind_eq_some_iff.mp h
  obtain rfl := id_of_node? hnode
  exact ⟨rfl, hnode⟩

variable {fin : Option WorkflowNode} {rows : List WorkflowNode}

theorem ShareWalk.node? (h : ShareWalk doc cursor rows fin) :
    (∀ n ∈ rows, doc.node? n.id = some n ∧ n.isFinish = false) ∧
      ∀ f ∈ fin, doc.node? f.id = some f ∧ f.isFinish := by
  induction h with
  | dangling => simp
  | finish h hf =>
    refine ⟨by simp, fun f hfin ↦ ?_⟩
    cases hfin
    exact ⟨(node?_of_bind h).2, hf⟩
  | action h hn _ ih => exact ⟨forall_mem_cons.mpr ⟨⟨(node?_of_bind h).2, hn⟩, ih.1⟩, ih.2⟩

/-- A finish has another id than a node that is none. -/
theorem id_ne_of_isFinish {f : WorkflowNode} (hn : doc.node? n.id = some n ∧ n.isFinish = false)
    (hf : doc.node? f.id = some f ∧ f.isFinish) : f.id ≠ n.id := by
  intro hid
  have hsame : f = n := Option.some.inj (hf.1.symm.trans (hid ▸ hn.1))
  rw [hsame, hn.2] at hf
  exact nomatch hf.2

/-- The walk of a share goes through when its nodes are new and their failures stay. -/
theorem walkShare_of_shareWalk (title : WorkflowNode → String) (h : ShareWalk doc cursor rows fin)
    {fuel : Nat} {seen : List String} (finishes ordered : List WorkflowNode)
    (hfuel : rows.length < fuel) (hnodup : (rows.map (·.id)).Nodup)
    (hfresh : ∀ n ∈ rows, n.id ∉ seen)
    (hstays : ∀ n ∈ rows, FailureStays (fun b ↦ doc.endsAt b = true) n) :
    ∃ seen' finishes', walkShare title doc fuel seen finishes ordered cursor =
        .ok (seen', finishes', ordered ++ rows) ∧
      ∀ id, id ∈ seen' ↔ id ∈ seen ∨ (∃ n ∈ rows, n.id = id) ∨ ∃ f ∈ fin, f.id = id := by
  induction h generalizing fuel seen finishes ordered with
  | @dangling cursor hnone =>
    obtain ⟨fuel, rfl⟩ := Nat.exists_eq_add_one.mpr hfuel
    refine ⟨seen, finishes, ?_, by simp⟩
    rw [append_nil]
    cases cursor with
    | none => rw [walkShare]
    | some id =>
      rw [Option.bind_some] at hnone
      rw [walkShare, hnone]
  | @finish cursor f hnode hf =>
    obtain ⟨fuel, rfl⟩ := Nat.exists_eq_add_one.mpr hfuel
    obtain ⟨rfl, hfound⟩ := node?_of_bind hnode
    refine ⟨seen.insert f.id, addFinish finishes f, ?_, fun id ↦ ?_⟩
    · rw [walkShare, hfound, append_nil]
      exact if_pos hf
    · simp [mem_insert_iff, or_comm, eq_comm]
  | @action cursor n rows fin hnode hn rest ih =>
    obtain ⟨fuel, rfl⟩ := Nat.exists_eq_add_one.mpr (Nat.zero_lt_of_lt hfuel)
    obtain ⟨rfl, hfound⟩ := node?_of_bind hnode
    rw [map_cons, nodup_cons] at hnodup
    have hnew : n.id ∉ seen := hfresh n (.head _)
    have hfresh' : ∀ m ∈ rows, m.id ∉ seen.insert n.id := by
      intro m hm hin
      rcases mem_insert_iff.mp hin with hid | hin
      · exact hnodup.1 (hid ▸ mem_map_of_mem hm)
      · exact hfresh m (.tail _ hm) hin
    obtain ⟨seen', finishes', hwalk, hseen⟩ := ih finishes (ordered ++ [n])
      (by simpa using hfuel) hnodup.2 hfresh' fun m hm ↦ hstays m (.tail _ hm)
    have hfailure : (n.onFailure?.any fun b ↦ n.linearNext != some b && !doc.endsAt b) = false := by
      cases hfail : n.onFailure? with
      | none => rfl
      | some b =>
        rcases hstays n (.head _) b hfail with hends | hnext
        · simp [hends]
        · simp [hnext]
    refine ⟨seen', finishes', ?_, fun id ↦ ?_⟩
    · rw [walkShare, hfound]
      dsimp only
      rw [if_neg (by simp [hn]), if_neg (by simpa using hnew), if_neg (by simp [hfailure]), hwalk,
        append_assoc, singleton_append]
    · rw [hseen, mem_insert_iff, eq_comm (a := id)]
      simp only [mem_cons, exists_eq_or_imp, or_assoc, or_left_comm]

/-- A walk without repetition has no more nodes than the document. -/
theorem ShareWalk.length_le (h : ShareWalk doc cursor rows fin) (hnodup : (rows.map (·.id)).Nodup) :
    rows.length ≤ doc.nodes.length := by
  have hsub : rows.map (·.id) ⊆ doc.ids := by
    intro id hid
    obtain ⟨n, hn, rfl⟩ := mem_map.mp hid
    exact mem_map_of_mem (mem_of_node? (h.node?.1 n hn).1)
  have hle := (subperm_of_subset hnodup hsub).length_le
  rwa [length_map, WorkflowDoc.ids, length_map] at hle

theorem rows_of_shareWalks {cases : List SwitchCase}
    {walks : List (List WorkflowNode × Option WorkflowNode)}
    (h : List.Forall₂ (fun c w ↦ ShareWalk doc c.to_ w.1 w.2) cases walks)
    (hn : n ∈ walks.flatMap (·.1)) : doc.node? n.id = some n ∧ n.isFinish = false := by
  induction h with
  | nil => exact nomatch hn
  | cons hwalk _ ih =>
    rw [flatMap_cons] at hn
    rcases mem_append.mp hn with hn | hn
    · exact hwalk.node?.1 n hn
    · exact ih hn

/-- The walks of the shares go through when no node is on two of them. -/
theorem walkShares_of_shareWalks (title : WorkflowNode → String) (label : Nat → String)
    {cases : List SwitchCase} {walks : List (List WorkflowNode × Option WorkflowNode)}
    (h : List.Forall₂ (fun c w ↦ ShareWalk doc c.to_ w.1 w.2) cases walks) (first : Nat)
    {seen : List String} (finishes : List WorkflowNode) (groups : List GroupView)
    (hnodup : ((walks.flatMap (·.1)).map (·.id)).Nodup)
    (hfresh : ∀ n ∈ walks.flatMap (·.1), n.id ∉ seen)
    (hstays : ∀ n ∈ walks.flatMap (·.1), FailureStays (fun b ↦ doc.endsAt b = true) n) :
    ∃ seen' finishes' new,
      walkShares title label doc (cases.zipIdx first) seen finishes groups =
        .ok (seen', finishes', groups ++ new) ∧
      new.map (fun g ↦ rowNodes g.steps) = walks.map (·.1) ∧
      new.map (·.label) = (List.range' first cases.length).map label ∧
      ∀ id, id ∈ seen' ↔ id ∈ seen ∨ ∃ w ∈ walks, (∃ n ∈ w.1, n.id = id) ∨ ∃ f ∈ w.2, f.id = id := by
  induction h generalizing first seen finishes groups with
  | nil => exact ⟨seen, finishes, [], by simp [walkShares], rfl, rfl, by simp⟩
  | @cons c w cases walks hwalk hwalks ih =>
    rw [flatMap_cons, map_append] at hnodup
    rw [flatMap_cons] at hfresh hstays
    obtain ⟨hrows, hlater, hdisjoint⟩ := nodup_append'.mp hnodup
    obtain ⟨seen₁, finishes₁, hrun, hseen₁⟩ := walkShare_of_shareWalk title
      hwalk finishes [] (Nat.lt_succ_of_le (hwalk.length_le hrows)) hrows
      (fun n hn ↦ hfresh n (mem_append_left _ hn))
      fun n hn ↦ hstays n (mem_append_left _ hn)
    have hfresh₁ : ∀ n ∈ walks.flatMap (·.1), n.id ∉ seen₁ := by
      intro n hn hin
      rcases (hseen₁ n.id).mp hin with hin | ⟨m, hm, hid⟩ | ⟨f, hf, hid⟩
      · exact hfresh n (mem_append_right _ hn) hin
      · exact hdisjoint (mem_map_of_mem hm) (hid ▸ mem_map_of_mem hn)
      · exact id_ne_of_isFinish (rows_of_shareWalks hwalks hn) (hwalk.node?.2 f hf) hid
    obtain ⟨seen', finishes', new, hruns, hnewRows, hnewLabels, hseen'⟩ := ih (first + 1) finishes₁
      (groups ++ [⟨first, label first, (foldGaps w.1).1, (foldGaps w.1).2, c.to_⟩]) hlater hfresh₁
      fun n hn ↦ hstays n (mem_append_right _ hn)
    refine ⟨seen', finishes',
      ⟨first, label first, (foldGaps w.1).1, (foldGaps w.1).2, c.to_⟩ :: new, ?_, ?_, ?_, fun id ↦ ?_⟩
    · rw [nil_append] at hrun
      rw [zipIdx_cons, walkShares, hrun]
      dsimp only
      rw [hruns, append_assoc, singleton_append]
    · rw [map_cons, map_cons, hnewRows, rowNodes_foldGaps]
    · rw [map_cons, hnewLabels, length_cons, range'_succ, map_cons]
    · rw [hseen', hseen₁]
      simp only [mem_cons, exists_eq_or_imp, or_assoc]

/-- The stagger and the split the reader finds. -/
theorem split?_of_comesToSplit {start split : WorkflowNode} {stagger : Option WorkflowNode}
    {s : SwitchNode} (h : ComesToSplit doc start split stagger) (hswitch : split.switch? = some s) :
    doc.split? start = some split ∧ (doc.stagger? start).map (·.1) = stagger := by
  cases stagger with
  | none =>
    have hcomes : start.linearNext.bind doc.node? = some split := h
    have hstagger : doc.stagger? start = none := by
      rw [stagger?, hcomes, Option.bind_some, readStagger, switch_of_switch? hswitch]
      rfl
    rw [split?, hstagger]
    exact ⟨hcomes, rfl⟩
  | some node =>
    obtain ⟨hfirst, hrange, hsecond⟩ := h
    obtain ⟨range, hrange⟩ := Option.isSome_iff_exists.mp hrange
    have hstagger : doc.stagger? start = some (node, range) := by
      rw [stagger?, hfirst, Option.bind_some, hrange]
      rfl
    rw [split?, hstagger]
    exact ⟨hsecond, rfl⟩

namespace IsGrouped

variable {start split : WorkflowNode} {stagger : Option WorkflowNode} {s : SwitchNode}
  {walks : List (List WorkflowNode × Option WorkflowNode)}

section

variable (h : IsGrouped doc start split stagger s walks)
include h

/-- The ids seen before the first share: those of the heads, and of the finish of the default. -/
theorem mem_headIds {id : String} :
    id ∈ ((start :: split :: ((doc.stagger? start).map (·.1)).toList ++
        (s.default.bind doc.node?).toList).map (·.id)).dedup ↔
      id ∈ (start :: split :: stagger.toList).map (·.id) ∨
        ∃ f ∈ s.default.bind doc.node?, f.id = id := by
  rw [mem_dedup, (split?_of_comesToSplit h.comes h.switch).2, map_append, mem_append]
  simp

theorem fallback_node {f : WorkflowNode}
    (hf : f ∈ s.default.bind doc.node?) : doc.node? f.id = some f ∧ f.isFinish := by
  obtain ⟨b, hb, hnode⟩ := Option.bind_eq_some_iff.mp hf
  obtain ⟨f', hf', hkind⟩ := h.fallback b hb
  cases hnode.symm.trans hf'
  exact ⟨id_of_node? hnode ▸ hnode, hkind⟩

/-- No action of a share is seen before the first one. -/
theorem fresh :
    ∀ n ∈ walks.flatMap (·.1), n.id ∉ ((start :: split ::
      ((doc.stagger? start).map (·.1)).toList ++ (s.default.bind doc.node?).toList).map
        (·.id)).dedup := by
  intro n hn hin
  rcases h.mem_headIds.mp hin with hhead | ⟨f, hf, hid⟩
  · exact h.apart n hn hhead
  · exact id_ne_of_isFinish (rows_of_shareWalks h.walked hn) (h.fallback_node hf) hid

/-- The shares of the shape are read. -/
theorem readShares (title : WorkflowNode → String)
    (label : Nat → String) :
    ∃ groups finishes, readShares title label doc start split s.cases (s.default.bind doc.node?) =
        .ok ⟨start, split, s.cases.length, groups, doc.stagger? start, finishes⟩ ∧
      groups.map (fun g ↦ rowNodes g.steps) = walks.map (·.1) ∧
      groups.map (·.label) = (List.range s.cases.length).map label := by
  have hbranch : (doc.nodes.find? fun n ↦ n.isBranch && n.id != split.id) = none := by
    refine find?_eq_none.mpr fun n hn ↦ ?_
    cases hkind : n.isBranch with
    | false => simp
    | true => simp [h.oneBranch n hn hkind]
  obtain ⟨seen, finishes, groups, hruns, hrows, hlabels, hseen⟩ := walkShares_of_shareWalks
    title label h.walked 0 [] [] h.once h.fresh h.failures
  have hplaced : ∀ n ∈ doc.nodes, n.id ∈ seen ∨ n.id ∈ doc.ownedByShuffle := by
    intro n hn
    rw [hseen, h.mem_headIds]
    rcases h.reached n hn with hhead | hdefault | howned | hwalk
    · exact .inl (.inl (.inl hhead))
    · obtain ⟨f, hf, -⟩ := h.fallback n.id hdefault
      refine .inl (.inl (.inr ⟨f, ?_, id_of_node? hf⟩))
      rw [hdefault, Option.bind_some, hf]
      rfl
    · exact .inr howned
    · exact .inl (.inr hwalk)
  have horphan :
      (doc.nodes.find? fun n ↦ !seen.contains n.id && !doc.ownedByShuffle.contains n.id) = none := by
    refine find?_eq_none.mpr fun n hn ↦ ?_
    rcases hplaced n hn with hin | howned
    · simp [hin]
    · simp [howned]
  refine ⟨groups, finishes, ?_, hrows, by rw [hlabels, range_eq_range']⟩
  rw [Enkaku.readShares, hbranch]
  dsimp only
  rw [hruns]
  dsimp only
  rw [horphan, nil_append]

end

end IsGrouped

/-- **A document of the shape is read**, with its shares as they are. -/
theorem readGrouped_of_isGrouped (title : WorkflowNode → String) (label : Nat → String)
    {start split : WorkflowNode} {stagger : Option WorkflowNode}
    {s : SwitchNode} {walks : List (List WorkflowNode × Option WorkflowNode)}
    (h : IsGrouped doc start split stagger s walks) (hcount : 2 ≤ s.cases.length)
    (hcases : ∀ i c, s.cases[i]? = some c → c.when_ = some (sharePredicate i s.cases.length)) :
    ∃ view, readGrouped title label doc = .ok view ∧ view.split = split ∧
      view.groupCount = s.cases.length ∧
      view.groups.map (fun g ↦ rowNodes g.steps) = walks.map (·.1) ∧
      view.groups.map (·.label) = (List.range s.cases.length).map label := by
  have hshare : (s.cases.zipIdx.all fun p ↦ isShareCase p.1.when_ p.2 s.cases.length) = true := by
    rw [all_eq_true]
    rintro ⟨c, i⟩ hc
    exact isShareCase_iff.mpr (hcases i c (mem_zipIdx_iff_getElem?.mp hc))
  have hdefault : (s.default.isSome && !(s.default.bind doc.node?).any (·.isFinish)) = false := by
    cases hb : s.default with
    | none => rfl
    | some b =>
      obtain ⟨f, hf, hkind⟩ := h.fallback b hb
      simp [hf, hkind]
  obtain ⟨groups, finishes, hshares, hrows, hlabels⟩ := h.readShares title label
  refine ⟨⟨start, split, s.cases.length, groups, doc.stagger? start, finishes⟩, ?_, rfl, rfl, hrows,
    hlabels⟩
  rw [readGrouped, h.starts]
  dsimp only
  rw [(split?_of_comesToSplit h.comes h.switch).1]
  dsimp only
  rw [h.switch]
  dsimp only
  rw [if_neg (by simp [h.mode]), if_neg (by simp [hdefault]), if_neg (Nat.not_lt.mpr hcount),
    if_neg (by simp [hshare]), hshares]

end Reader

/-! ## A fleet -/

/-- How many of the first `n` devices take a case, each in its own scope. -/
def groupSize (ev : Evaluator) (node : SwitchNode) (scopes : Nat → ResolveScope) (n index : Nat) :
    Nat :=
  (List.range n).countP fun k ↦ (computeSwitchStep ev node (scopes k)).takenEdge = .case index

/-- Of the first `n` positions, those of one rest. -/
theorem countP_mod {groupCount index : Nat} (h : index < groupCount) (n : Nat) :
    (List.range n).countP (fun k ↦ k % groupCount = index) =
      n / groupCount + if index < n % groupCount then 1 else 0 := by
  have hcount : (List.range n).countP (fun k ↦ k % groupCount = index) =
      n.count (· ≡ index [MOD groupCount]) := by
    induction n with
    | zero => rfl
    | succ n ih =>
      rw [range_succ, countP_append, ih, Nat.count_succ, countP_singleton]
      simp [Nat.ModEq, Nat.mod_eq_of_lt h]
  rw [hcount, Nat.count_modEq_card _ (Nat.zero_lt_of_lt h), Nat.mod_eq_of_lt h]

section Fleet

variable {nm : Numbers ℚ} {toNumber : String → ℚ} {others : String → Option (ExprFn ℚ)}
  {conversion : String} {title : WorkflowNode → String}

/-- The labels of cases, as the reader looks them up. -/
def labelOf (cases : List (SwitchCase × String)) (index : Nat) : String :=
  (cases[index]?.map (·.2)).getD ""

theorem groupSplitCases_when {groupCount i : Nat} {shares : List GroupShare} {c : SwitchCase}
    (h : ((groupSplitCases groupCount shares).map (·.1))[i]? = some c) :
    c.when_ = some (sharePredicate i groupCount) := by
  obtain ⟨hi, hc⟩ := List.getElem?_eq_some_iff.mp h
  rw [← hc]
  simp [groupSplitCases]

theorem length_groupSplitCases (groupCount : Nat) (shares : List GroupShare) :
    (groupSplitCases groupCount shares).length = groupCount := by
  rw [groupSplitCases, length_map, length_range]

theorem map_labelOf (cases : List (SwitchCase × String)) :
    (List.range cases.length).map (labelOf cases) = cases.map (·.2) := by
  refine ext_getElem (by simp) fun i hi hi' ↦ ?_
  have hlt : i < cases.length := by simpa using hi
  simp [labelOf, getElem?_eq_getElem hlt]

/-- **The written split is read back.** -/
theorem readGrouped_groupSplitCases {doc : WorkflowDoc} {start split : WorkflowNode}
    {stagger : Option WorkflowNode} {s : SwitchNode}
    {walks : List (List WorkflowNode × Option WorkflowNode)} {groupCount : Nat}
    {shares : List GroupShare} (h : IsGrouped doc start split stagger s walks)
    (hcount : 2 ≤ groupCount) (hcases : s.cases = (groupSplitCases groupCount shares).map (·.1)) :
    ∃ view, readGrouped title (labelOf (groupSplitCases groupCount shares)) doc = .ok view ∧
      view.groupCount = groupCount ∧
      view.groups.map (·.headId) = (List.range groupCount).map (fun i ↦ shares[i]?.bind (·.to_)) ∧
      view.groups.map (·.label) = (groupSplitCases groupCount shares).map (·.2) ∧
      view.groups.map (fun g ↦ rowNodes g.steps) = walks.map (·.1) := by
  have hlength : s.cases.length = groupCount := by
    rw [hcases, length_map, length_groupSplitCases]
  obtain ⟨view, hview, hsplit, hgroups, hrows, hlabels⟩ := readGrouped_of_isGrouped title
    (labelOf (groupSplitCases groupCount shares)) h (hlength ▸ hcount)
    fun i c hc ↦ by
      rw [hcases] at hc
      rw [hlength, groupSplitCases_when hc]
  obtain ⟨s', hswitch, -, -, -, -, hheads⟩ := readGrouped_cases hview
  rw [hsplit, h.switch] at hswitch
  cases hswitch
  refine ⟨view, hview, hgroups.trans hlength, ?_, ?_, hrows⟩
  · rw [hheads, hcases, groupSplitCases, map_map, map_map]
    rfl
  · rw [hlabels, hlength, ← map_labelOf, length_groupSplitCases]

/-- **A device takes the case of its share**, which leads to the head of the group. -/
theorem takenEdge_of_readGrouped (hnm : WholeNumbers nm toNumber) {label : Nat → String}
    {doc : WorkflowDoc} {view : GroupedView} (h : readGrouped title label doc = .ok view)
    (hcount : view.groupCount < 2 ^ 32) {s : SwitchNode} (hswitch : view.split.switch? = some s)
    {scope : ResolveScope} {k : Nat} (hk : nm.finite k = true)
    (hindex : scope.runIndex = some (k : Int)) :
    (computeSwitchStep (exprEvaluator nm toNumber others conversion) s scope).takenEdge =
        .case (k % view.groupCount) ∧
      ∃ g, view.groups[k % view.groupCount]? = some g ∧
        (StepNode.switch s).successorOf (.case (k % view.groupCount)) = g.headId := by
  obtain ⟨s', hswitch', hmode, htwo, hlength, hcases, hheads⟩ := readGrouped_cases h
  cases hswitch.symm.trans hswitch'
  have hpos : 0 < view.groupCount := by omega
  have hshare : k % view.groupCount < s.cases.length := by
    rw [hlength]
    exact Nat.mod_lt k hpos
  have hev := exprEvaluator_split others conversion hnm
    (index_of_runIndex hindex) hk hpos hcount
  refine ⟨by rw [computeSwitchStep_share hev hmode hcases hshare], ?_⟩
  have hget : view.groups[k % view.groupCount]?.map (·.headId) =
      s.cases[k % view.groupCount]?.map (·.to_) := by
    rw [← getElem?_map, ← getElem?_map, hheads]
  rw [getElem?_eq_getElem hshare, Option.map_some] at hget
  obtain ⟨g, hg, hhead⟩ := Option.map_eq_some_iff.mp hget
  refine ⟨g, hg, ?_⟩
  rw [hhead]
  show (s.cases[k % view.groupCount]?).bind (·.to_) = _
  rw [getElem?_eq_getElem hshare, Option.bind_some]

/-- **A grouped document splits the fleet as displayed.**  What is written is read back with its
shares; and of any document that is read, the device at position `k` takes case `k % G`, so that the
groups differ by at most one. -/
theorem grouped_splits_as_displayed (hnm : WholeNumbers nm toNumber) :
    (∀ (groupCount : Nat) (shares : List GroupShare) (doc : WorkflowDoc) (start split : WorkflowNode)
        (stagger : Option WorkflowNode) (s : SwitchNode)
        (walks : List (List WorkflowNode × Option WorkflowNode)), 2 ≤ groupCount →
      IsGrouped doc start split stagger s walks →
      s.cases = (groupSplitCases groupCount shares).map (·.1) →
      ∃ view, readGrouped title (labelOf (groupSplitCases groupCount shares)) doc = .ok view ∧
        view.groupCount = groupCount ∧
        view.groups.map (·.headId) = (List.range groupCount).map (fun i ↦ shares[i]?.bind (·.to_)) ∧
        view.groups.map (·.label) = (groupSplitCases groupCount shares).map (·.2) ∧
        view.groups.map (fun g ↦ rowNodes g.steps) = walks.map (·.1)) ∧
    ∀ (label : Nat → String) (doc : WorkflowDoc) (view : GroupedView),
      readGrouped title label doc = .ok view → view.groupCount < 2 ^ 32 →
      ∃ s, view.split.switch? = some s ∧
        (∀ (scope : ResolveScope) (k : Nat), nm.finite k = true → scope.runIndex = some (k : Int) →
          (computeSwitchStep (exprEvaluator nm toNumber others conversion) s scope).takenEdge =
              .case (k % view.groupCount) ∧
            ∃ g, view.groups[k % view.groupCount]? = some g ∧
              (StepNode.switch s).successorOf (.case (k % view.groupCount)) = g.headId) ∧
        ∀ (scopes : Nat → ResolveScope) (n : Nat),
          (∀ k < n, nm.finite k = true ∧ (scopes k).runIndex = some (k : Int)) →
          ∀ i j, i < view.groupCount → j < view.groupCount →
            groupSize (exprEvaluator nm toNumber others conversion) s scopes n i ≤
              groupSize (exprEvaluator nm toNumber others conversion) s scopes n j + 1 := by
  refine ⟨fun groupCount shares doc start split stagger s walks hcount h hcases ↦
    readGrouped_groupSplitCases h hcount hcases, fun label doc view h hcount ↦ ?_⟩
  obtain ⟨s, hswitch, -⟩ := readGrouped_cases h
  refine ⟨s, hswitch, fun scope k hk hindex ↦ takenEdge_of_readGrouped hnm h hcount hswitch hk hindex,
    fun scopes n hscopes i j hi hj ↦ ?_⟩
  have hsize {index : Nat} (hindex : index < view.groupCount) :
      groupSize (exprEvaluator nm toNumber others conversion) s scopes n index =
        n / view.groupCount + if index < n % view.groupCount then 1 else 0 := by
    rw [← countP_mod hindex, groupSize]
    refine countP_congr fun k hk ↦ ?_
    obtain ⟨hfinite, hrun⟩ := hscopes k (mem_range.mp hk)
    rw [(takenEdge_of_readGrouped hnm h hcount hswitch hfinite hrun).1]
    simp
  rw [hsize hi, hsize hj]
  split_ifs <;> omega

end Fleet

namespace Halves

/-- The two shares of the document, the second without a label. -/
def shares : List GroupShare := [⟨some "mix", some "Likes first"⟩, ⟨some "open", none⟩]

def walks : List (List WorkflowNode × Option WorkflowNode) :=
  [([doc.nodes[2]], some doc.nodes[6]), ([doc.nodes[5]], some doc.nodes[6])]

theorem isGrouped : IsGrouped doc doc.nodes[0] doc.nodes[1] none
    ⟨.predicate, (groupSplitCases 2 shares).map (·.1), none⟩ walks where
  starts := rfl
  comes := rfl
  switch := rfl
  mode := rfl
  fallback := by
    intro b hb
    cases hb
  oneBranch := by decide
  walked := .cons (.action rfl rfl (.finish rfl rfl)) (.cons (.action rfl rfl (.finish rfl rfl)) .nil)
  failures := by
    intro n hn b hb
    have hnone : ∀ n ∈ walks.flatMap (·.1), n.onFailure? = none := by decide
    rw [hnone n hn] at hb
    cases hb
  once := by decide
  apart := by decide
  reached := by
    have hreached : ∀ n ∈ doc.nodes,
        n.id ∈ ["start", "split"] ∨ n.id ∈ doc.ownedByShuffle ∨ n.id ∈ ["mix", "open", "end"] := by
      decide
    intro n hn
    rcases hreached n hn with hhead | howned | hwalk
    · exact .inl hhead
    · exact .inr (.inr (.inl howned))
    · simp only [mem_cons, not_mem_nil, or_false] at hwalk
      rcases hwalk with hid | hid | hid
      · exact .inr (.inr (.inr ⟨_, mem_cons_self, .inl ⟨_, mem_cons_self, hid.symm⟩⟩))
      · exact .inr (.inr (.inr ⟨_, .tail _ (.head _), .inl ⟨_, mem_cons_self, hid.symm⟩⟩))
      · exact .inr (.inr (.inr ⟨_, mem_cons_self, .inr ⟨_, rfl, hid.symm⟩⟩))

/-- A device at some position of a batch. -/
def scope (k : Nat) : ResolveScope :=
  ⟨[], [], [], some k, none, none, none, 0, 0⟩

/-- Written for two shares the document is read as two, and the device at position 5 takes the
second. -/
theorem grouped_splits_as_displayed_halves :
    ∃ view, readGrouped (·.id) (labelOf (groupSplitCases 2 shares)) doc = .ok view ∧
      view.groupCount = 2 ∧ view.groups.map (·.headId) = [some "mix", some "open"] ∧
      view.groups.map (·.label) = ["Likes first", "Group 2"] ∧
      ∃ s, view.split.switch? = some s ∧
        (computeSwitchStep (exprEvaluator Decimal.numbers (fun s ↦ Decimal.number s.toList)
          (fun _ ↦ none) "") s (scope 5)).takenEdge = .case 1 := by
  have hdisplayed := @grouped_splits_as_displayed Decimal.numbers _ (fun _ ↦ none) "" (·.id)
    Decimal.wholeNumbers
  obtain ⟨view, hview, hcount, hheads, hlabels, -⟩ :=
    hdisplayed.1 2 shares doc _ _ _ _ _ (Nat.le_refl 2) isGrouped rfl
  obtain ⟨s, hswitch, htaken, -⟩ := hdisplayed.2 _ doc view hview (by rw [hcount]; decide)
  have hfive := (htaken (scope 5) 5 (by simp [Decimal.numbers]) rfl).1
  rw [hcount] at hfive
  exact ⟨view, hview, hcount, hheads, hlabels, s, hswitch, hfive⟩

end Halves

end Enkaku
