import Enkaku.Expr.Lexing
import Enkaku.Workflow.Bindings
import Enkaku.Workflow.SetCodec

/-!
# Does a document rotate?

`workflow-rotation.ts`: before schedules are made that differ in one parameter only, `readRotation`
looks for a switch that branches on it.  It looks at the two operands at the top of each case's
predicate, at those of them that are expressions, and at their text; and it decides at the first
switch where it finds the parameter.

`Rotates` is what it looks for: an operand of a leaf, however deep, that is the parameter or an
expression whose tree reads it.  A rotating document is accepted exactly when the first switch
`readRotation` finds has two cases (`readRotation_accepts_iff`).
-/

set_option autoImplicit false

namespace Enkaku.Rotation

open List

/-! ## The regular expression -/

/-- `\s*`: all it can leave. -/
def afterSpaces : List Char → List (List Char)
  | [] => [[]]
  | c :: cs => (c :: cs) :: if isJsSpace c then afterSpaces cs else []

/-- A literal: what it leaves. -/
def literal? (text cs : List Char) : Option (List Char) :=
  if text.isPrefixOf cs then some (cs.drop text.length) else none

/-- `\b`, between what has been matched last and what is left. -/
def wordBoundary (last : Option Char) (rest : List Char) : Bool :=
  last.any isIdentPart != rest.head?.any isIdentPart

/-- `\.\s*param\b`. -/
def dotted (param cs : List Char) : Bool :=
  match cs with
  | '.' :: cs => (afterSpaces cs).any fun cs ↦
      (literal? param cs).any fun rest ↦ wordBoundary param.getLast? rest
  | _ => false

/-- `['"]`. -/
def quotes (cs : List Char) : Option (List Char) :=
  match cs with
  | '\'' :: cs | '"' :: cs => some cs
  | _ => none

/-- `\[\s*['"]param['"]\s*\]`. -/
def bracketed (param cs : List Char) : Bool :=
  match cs with
  | '[' :: cs => (afterSpaces cs).any fun cs ↦
      (((quotes cs).bind (literal? param)).bind quotes).any fun cs ↦
        (afterSpaces cs).any fun cs ↦ cs.head? = some ']'
  | _ => false

/-- The whole of it, at one place of the text. -/
def matchesAt (param cs : List Char) : Bool :=
  (literal? "$params".toList cs).any fun cs ↦
    (afterSpaces cs).any fun cs ↦ dotted param cs || bracketed param cs

/-- `mentionsParam`. -/
def mentionsParam (expr param : String) : Bool := expr.toList.tails.any (matchesAt param.toList)

/-! ## The check -/

/-- The text of an operand that is an expression. -/
def exprText : ValueExpr → Option String
  | .expr source => some source
  | _ => none

/-- `caseExpressions`.  A compound predicate has no `left` and no `right`. -/
def caseExpressions (n : SwitchNode) : List String :=
  n.cases.flatMap fun cs ↦
    match cs.when_ with
    | some (.leaf left _ right) => (left :: right.toList).filterMap exprText
    | _ => []

/-- `RotationReading`. -/
structure RotationReading where
  nodeId : Option String
  caseCount : Nat
  refusal : Option String
  deriving DecidableEq, Repr

/-- The switches of a document, with the ids of their nodes. -/
def switchesOf (doc : WorkflowDoc) : List (String × SwitchNode) :=
  doc.nodes.filterMap fun n ↦
    match n.body with
    | .step (.switch s) => some (n.id, s)
    | _ => none

/-- A switch in which the check finds the parameter. -/
def readsParam (slotParam : String) (n : SwitchNode) : Bool :=
  (caseExpressions n).any fun e ↦ mentionsParam e slotParam

/-- The loop of `readRotation`. -/
def readSwitches (slotParam : String) : List (String × SwitchNode) → RotationReading
  | [] => ⟨none, 0, some (s!"No branch in this workflow reads \"{slotParam}\", so all the sessions " ++
      "would run the same platform. Every session would be a copy of the first.")⟩
  | (id, n) :: rest =>
    if readsParam slotParam n then
      if n.cases.length < 2 then
        ⟨some id, n.cases.length, some ("The branch that reads the session number has only one " ++
          "case, so there is nothing to rotate between.")⟩
      else ⟨some id, n.cases.length, none⟩
    else readSwitches slotParam rest

/-- `readRotation`. -/
def readRotation (doc : WorkflowDoc) (slotParam : String) : RotationReading :=
  if jsTrim slotParam.toList = [] then
    ⟨none, 0, some "Pick the parameter that carries the session number first."⟩
  else if !doc.params.any fun p ↦ p.name = slotParam then
    ⟨none, 0, some (s!"This workflow has no parameter called \"{slotParam}\", so the session " ++
      "number would go nowhere.")⟩
  else if (switchesOf doc).isEmpty then
    ⟨none, 0, some ("This workflow has no branch, so every session would do exactly the same " ++
      "thing. A rotation needs a switch that reads the session number.")⟩
  else readSwitches slotParam (switchesOf doc)

/-! ## What rotates -/

/-- An operand reads the parameter: it is it, or an expression with `$params.<name>` in its tree. -/
def Reads {number : Type} (toNumber : String → number) (slotParam : String) (e : ValueExpr) : Prop :=
  e = .param slotParam ∨ ∃ source ast, e = .expr source ∧ parse toNumber source = .ok ast ∧
    Within (.member (.root .params) slotParam) ast

/-- The document declares the parameter, and has a switch of two cases or more by predicates, in one
of which an operand reads it. -/
structure Rotates {number : Type} (toNumber : String → number) (doc : WorkflowDoc)
    (slotParam : String) : Prop where
  declared : ∃ p ∈ doc.params, p.name = slotParam
  /-- Which the schema of a declared name sees to. -/
  named : jsTrim slotParam.toList ≠ []
  branches : ∃ id n, (id, n) ∈ switchesOf doc ∧ n.mode = .predicate ∧ 2 ≤ n.cases.length ∧
    ∃ cs ∈ n.cases, ∃ pred, cs.when_ = some pred ∧ ∃ e, Mentions pred e ∧ Reads toNumber slotParam e

/-- At the top of a predicate of the switch stands an expression whose text the regular expression
matches. -/
def NamedOnTop (slotParam : String) (n : SwitchNode) : Prop :=
  ∃ cs ∈ n.cases, ∃ left op right, cs.when_ = some (.leaf left op right) ∧
    ∃ source, (left = .expr source ∨ right = some (.expr source)) ∧
      mentionsParam source slotParam = true

theorem readsParam_iff (slotParam : String) (n : SwitchNode) :
    readsParam slotParam n = true ↔ NamedOnTop slotParam n := by
  rw [readsParam, any_eq_true]
  constructor
  · rintro ⟨source, hmem, hmatch⟩
    obtain ⟨cs, hcs, hsource⟩ := mem_flatMap.mp hmem
    cases hwhen : cs.when_ with
    | none => rw [hwhen] at hsource; cases hsource
    | some pred =>
      rw [hwhen] at hsource
      cases pred with
      | leaf left op right =>
        obtain ⟨e, he, htext⟩ := mem_filterMap.mp hsource
        obtain rfl : e = .expr source := by
          cases e <;> simp [exprText] at htext
          rw [htext]
        refine ⟨cs, hcs, left, op, right, hwhen, source, ?_, hmatch⟩
        rcases mem_cons.mp he with hleft | hright
        · exact .inl hleft.symm
        · exact .inr (by simpa using hright)
      | all preds => cases hsource
      | any preds => cases hsource
      | not pred => cases hsource
  · rintro ⟨cs, hcs, left, op, right, hwhen, source, hside, hmatch⟩
    refine ⟨source, mem_flatMap.mpr ⟨cs, hcs, ?_⟩, hmatch⟩
    rw [hwhen]
    refine mem_filterMap.mpr ⟨.expr source, ?_, rfl⟩
    rcases hside with rfl | rfl
    · exact .head _
    · exact mem_cons_of_mem _ (by simp)

/-- The loop accepts exactly at the first switch that it finds the parameter in, when that has two
cases. -/
theorem readSwitches_accepts_iff (slotParam : String) (switches : List (String × SwitchNode)) :
    (readSwitches slotParam switches).refusal = none ↔
      ∃ before id n after, switches = before ++ (id, n) :: after ∧ NamedOnTop slotParam n ∧
        (∀ m ∈ before, ¬ NamedOnTop slotParam m.2) ∧ 2 ≤ n.cases.length := by
  induction switches with
  | nil =>
    constructor
    · intro h
      rw [readSwitches] at h
      cases h
    · rintro ⟨before, id, n, after, h, -⟩
      cases before <;> cases h
  | cons s rest ih =>
    obtain ⟨id, n⟩ := s
    rw [readSwitches]
    by_cases hreads : readsParam slotParam n = true
    · rw [if_pos hreads]
      have hnamed := (readsParam_iff slotParam n).mp hreads
      constructor
      · intro h
        split_ifs at h with hcases
        exact ⟨[], id, n, rest, rfl, hnamed, fun m hm ↦ absurd hm not_mem_nil, by omega⟩
      · rintro ⟨before, id', n', after, h, -, hbefore, hcases⟩
        cases before with
        | nil =>
          obtain ⟨hpair, -⟩ := List.cons.inj h
          cases hpair
          rw [if_neg (by omega)]
        | cons m before =>
          obtain ⟨rfl, -⟩ := List.cons.inj h
          exact absurd hnamed (hbefore _ (.head _))
    · rw [if_neg hreads, ih]
      have hnot : ¬ NamedOnTop slotParam n := fun h ↦ hreads ((readsParam_iff slotParam n).mpr h)
      constructor
      · rintro ⟨before, id', n', after, rfl, hnamed, hbefore, hcases⟩
        refine ⟨(id, n) :: before, id', n', after, rfl, hnamed, ?_, hcases⟩
        rintro m (_ | ⟨_, hm⟩)
        · exact hnot
        · exact hbefore m hm
      · rintro ⟨before, id', n', after, h, hnamed, hbefore, hcases⟩
        cases before with
        | nil =>
          obtain ⟨hpair, -⟩ := List.cons.inj h
          obtain ⟨-, rfl⟩ := Prod.mk.inj hpair
          exact absurd hnamed hnot
        | cons m before =>
          obtain ⟨-, hrest⟩ := List.cons.inj h
          exact ⟨before, id', n', after, hrest, hnamed, fun m' hm' ↦ hbefore m' (.tail _ hm'), hcases⟩

/-- **When a rotating document is accepted**: the first switch that has, at the top of one of its
predicates, an expression whose text names the parameter, has two cases or more; and there is one. -/
theorem readRotation_accepts_iff {number : Type} (toNumber : String → number) {doc : WorkflowDoc}
    {slotParam : String} (h : Rotates toNumber doc slotParam) :
    (readRotation doc slotParam).refusal = none ↔
      ∃ before id n after, switchesOf doc = before ++ (id, n) :: after ∧ NamedOnTop slotParam n ∧
        (∀ m ∈ before, ¬ NamedOnTop slotParam m.2) ∧ 2 ≤ n.cases.length := by
  obtain ⟨p, hp, hname⟩ := h.declared
  obtain ⟨id, n, hmem, -⟩ := h.branches
  have hdeclared : (doc.params.any fun p ↦ p.name = slotParam) = true :=
    any_eq_true.mpr ⟨p, hp, by simpa using hname⟩
  have hswitches : ¬ (switchesOf doc).isEmpty = true := by
    rw [List.isEmpty_iff]
    exact ne_nil_of_mem hmem
  rw [readRotation, if_neg h.named, hdeclared, if_neg (by decide), if_neg hswitches]
  exact readSwitches_accepts_iff slotParam (switchesOf doc)

/-! ## Two documents -/

/-- A document with one parameter and these switches. -/
def docOf (switches : List SwitchNode) : WorkflowDoc :=
  { name := "rot"
    params := [⟨"slot", .num 0⟩]
    entry := "start"
    nodes := ⟨"start", true, .start (some "pick")⟩ ::
      switches.map fun s ↦ ⟨"pick", true, .step (.switch s)⟩
    maxSteps := 100
    onFail := none }

/-- A switch by predicates, one case for each. -/
def switchOf (preds : List Predicate) : SwitchNode :=
  ⟨.predicate, preds.map fun pred ↦ ⟨some pred, none, some "s"⟩, none⟩

/-- A leaf that compares an operand with a number. -/
def compares (e : ValueExpr) (k : ℚ) : Predicate := .leaf e .eq (some (.const (.num k)))

/-- A switch of two cases or more, in the first of which an operand reads the parameter. -/
theorem rotates_docOf {pred : Predicate} {later : List Predicate} {e : ValueExpr}
    (hlater : later ≠ []) (hpred : Mentions pred e) (he : Reads (fun _ ↦ 0) "slot" e)
    (switches : List SwitchNode) :
    Rotates (fun _ ↦ 0) (docOf (switches ++ [switchOf (pred :: later)])) "slot" where
  declared := ⟨_, mem_cons_self, rfl⟩
  named := by decide
  branches := by
    refine ⟨"pick", switchOf (pred :: later), ?_, rfl, ?_, _, List.mem_cons_self, pred, rfl, e, hpred,
      he⟩
    · rw [switchesOf, docOf]
      refine mem_filterMap.mpr
        ⟨⟨"pick", true, .step (.switch (switchOf (pred :: later)))⟩, ?_, rfl⟩
      exact mem_cons_of_mem _
        (mem_map.mpr ⟨_, mem_append_right _ (.head _), rfl⟩)
    · have hpos := length_pos_iff.mpr hlater
      show 2 ≤ ((pred :: later).map _).length
      rw [length_map, length_cons]
      omega

/-- `slot` in the first case, on the right as an expression. -/
theorem readRotation_accepts_right :
    (readRotation (docOf ([] ++ [switchOf [.leaf (.param "slot") .eq (some (.expr "1 - $params.slot")),
      compares (.param "slot") 1]])) "slot").refusal = none := by
  refine (readRotation_accepts_iff (fun _ ↦ 0)
    (rotates_docOf (cons_ne_nil _ _) .left (.inl rfl) [])).mpr
    ⟨[], "pick", _, [], rfl, ?_, fun m hm ↦ absurd hm List.not_mem_nil, by decide⟩
  exact ⟨_, List.mem_cons_self, .param "slot", .eq, some (.expr "1 - $params.slot"), rfl, _, .inr rfl,
    by decide +kernel⟩

/-- The tree of `$params.slot`. -/
def isSlot : Bool :=
  match parse (fun _ ↦ (0 : Nat)) "$params.slot" with
  | .ok (.member (.root .params) key) => key = "slot"
  | _ => false

theorem reads_slot : Reads (fun _ ↦ 0) "slot" (.expr "$params.slot") := by
  have h : isSlot = true := by decide +kernel
  rw [isSlot] at h
  refine .inr ⟨"$params.slot", ?_⟩
  split at h
  · next key hparse =>
    obtain rfl : key = "slot" := by simpa using h
    exact ⟨_, rfl, hparse, .self⟩
  · cases h

/-- Three documents that rotate and are refused: one whose operand is the parameter itself, one whose
expression stands inside a `not`, and one with a switch of one case in front. -/
theorem readRotation_refuses :
    (Rotates (fun _ ↦ 0) (docOf ([] ++ [switchOf [compares (.param "slot") 0,
        compares (.param "slot") 1]])) "slot" ∧
      (readRotation (docOf ([] ++ [switchOf [compares (.param "slot") 0,
        compares (.param "slot") 1]])) "slot").refusal ≠ none) ∧
    (Rotates (fun _ ↦ 0) (docOf ([] ++ [switchOf [.not (compares (.expr "$params.slot") 0),
        compares (.expr "$device.number") 1]])) "slot" ∧
      (readRotation (docOf ([] ++ [switchOf [.not (compares (.expr "$params.slot") 0),
        compares (.expr "$device.number") 1]])) "slot").refusal ≠ none) ∧
    (Rotates (fun _ ↦ 0) (docOf ([switchOf [compares (.expr "$params.slot") 9]] ++
        [switchOf [compares (.expr "$params.slot") 0, compares (.expr "$params.slot") 1]])) "slot" ∧
      (readRotation (docOf ([switchOf [compares (.expr "$params.slot") 9]] ++
        [switchOf [compares (.expr "$params.slot") 0, compares (.expr "$params.slot") 1]]))
          "slot").refusal ≠ none) := by
  refine ⟨⟨?_, ?_⟩, ⟨?_, ?_⟩, ?_, ?_⟩
  · exact rotates_docOf (cons_ne_nil _ _) .left (.inl rfl) []
  · decide +kernel
  · exact rotates_docOf (cons_ne_nil _ _) (.not .left) reads_slot []
  · decide +kernel
  · exact rotates_docOf (cons_ne_nil _ _) .left reads_slot _
  · decide +kernel

end Enkaku.Rotation
