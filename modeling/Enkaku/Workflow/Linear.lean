import Enkaku.Workflow.CleanDoc

/-!
# The sequence editor

`workflow-linear.ts`: `readLinear` shows a document as a list of actions, or says why it cannot.  It
walks along `next` from the `start` node; a short random `delay` between two actions is folded onto
the action it precedes, and the members of a shuffle are left out, since the shuffle owns them.

`Line` is such a walk.  What the editor promises of the list it shows is `IsLine`: every node has one
place in it, and no edge leads off the line.  It keeps the promise when the members of shuffles do
(`WorkflowDoc.MembersStay`).

The title of a node, which only the messages show, is handed in.  A number in a gap is exact.
-/

set_option autoImplicit false

namespace Enkaku

open List

/-! ## Gaps -/

/-- `[min, max]`, in milliseconds. -/
structure GapRange where
  minMs : ℚ
  maxMs : ℚ
  deriving DecidableEq, Repr

/-- `/^(\d+) \+ \$random \* (\d+)$/`: the two numbers. -/
def matchSpread (source : String) : Option (Nat × Nat) :=
  let cs := source.toList
  let least := cs.takeWhile Char.isDigit
  let middle := " + $random * ".toList
  let rest := cs.drop least.length
  let span := rest.drop middle.length
  if !least.isEmpty && middle.isPrefixOf rest && !span.isEmpty && span.all Char.isDigit then
    some (Nat.ofDigitChars 10 least 0, Nat.ofDigitChars 10 span 0)
  else none

/-- `readRange`. -/
def readRange (value : ValueExpr) (ceilingMs : Nat) : Option GapRange :=
  let range : Option GapRange := match value with
    | .const (.num q) => some ⟨q, q⟩
    | .expr source => (matchSpread source).map fun p ↦ ⟨p.1, p.1 + p.2⟩
    | _ => none
  range.filter fun r ↦ (ceilingMs : ℚ) = r.maxMs

/-- `readGap`. -/
def readGap (node : WorkflowNode) : Option GapRange :=
  match node.body with
  | .step (.delay n) => readRange n.ms n.maxMs
  | _ => none

/-- One row of the sequence: an action, with the gap before it. -/
structure LinearStep where
  node : WorkflowNode
  delayBefore : Option WorkflowNode
  deriving Repr

/-- One turn of the loop of `foldGaps`: a gap is kept for the action it precedes, unless there is no
action before it or a gap is waiting already. -/
def foldGap (s : List LinearStep × Option WorkflowNode) (node : WorkflowNode) :
    List LinearStep × Option WorkflowNode :=
  if (readGap node).isSome && !s.1.isEmpty && s.2.isNone then (s.1, some node)
  else (s.1 ++ [⟨node, s.2⟩], none)

/-- The range all gaps share. -/
def uniformDelay (steps : List LinearStep) : Option GapRange :=
  match steps.filterMap fun s ↦ s.delayBefore.bind readGap with
  | [] => none
  | g :: gaps => if gaps.all (· = g) then some g else none

/-- `foldGaps`.  A trailing gap stays an action. -/
def foldGaps (ordered : List WorkflowNode) : List LinearStep × Option GapRange :=
  let folded := ordered.foldl foldGap ([], none)
  let steps := match folded.2 with
    | some gap => folded.1 ++ [⟨gap, none⟩]
    | none => folded.1
  (steps, uniformDelay steps)

/-! ## The walk -/

namespace WorkflowNode

def isFinish (n : WorkflowNode) : Bool :=
  match n.body with
  | .finish _ _ => true
  | _ => false

/-- A gate or a switch. -/
def isBranch (n : WorkflowNode) : Bool :=
  match n.body with
  | .step (.gate _) | .step (.switch _) => true
  | _ => false

/-- `linearNext`; `undefined` and `null` both end a walk. -/
def linearNext (n : WorkflowNode) : Option String :=
  match n.body with
  | .start next => next
  | .step (.script s) => s.next
  | .step (.delay s) => s.next
  | .step (.set s) => s.next
  | .step (.shuffle s) => s.next
  | .finish _ _ | .step (.gate _) | .step (.switch _) => none

/-- The failure edge of a script node. -/
def onFailure? (n : WorkflowNode) : Option String :=
  match n.body with
  | .step (.script s) => s.onFailure
  | _ => none

end WorkflowNode

/-- The codes of a refusal. -/
inductive LinearRefusalCode where
  | branches | joins | unreachable | multipleFinish
  deriving DecidableEq, Repr

/-- `LinearRefusal`. -/
structure LinearRefusal where
  code : LinearRefusalCode
  nodeId : String
  message : String
  deriving DecidableEq, Repr

/-- `LinearView`. -/
structure LinearView where
  start : WorkflowNode
  steps : List LinearStep
  finish : Option WorkflowNode
  uniformDelay : Option GapRange
  deriving Repr

section Reader

variable (title : WorkflowNode → String) (doc : WorkflowDoc)

/-- `node.title || node.id`. -/
def shownName (node : WorkflowNode) : String :=
  if (title node).isEmpty then node.id else title node

/-- `ownedByShuffle`. -/
def WorkflowDoc.ownedByShuffle : List String := doc.nodes.flatMap (·.members)

/-- The walk of `readLinear`, with the ids seen and the nodes in order.  Every turn sees a new node, so
one turn more than there are nodes is enough. -/
def walkLine (finish : Option WorkflowNode) : Nat → List String → List WorkflowNode →
    Option String → Except LinearRefusal (List String × List WorkflowNode)
  | 0, seen, ordered, _ | _ + 1, seen, ordered, none => .ok (seen, ordered)
  | fuel + 1, seen, ordered, some cursor =>
    match doc.node? cursor with
    | none => .ok (seen, ordered)
    | some node =>
      let name := shownName title node
      if seen.contains node.id then
        .error ⟨.joins, node.id,
          s!"\"{name}\" is reached more than once, so this is a loop rather than a sequence"⟩
      else if node.isFinish then .ok (seen ++ [node.id], ordered)
      else if node.onFailure?.isSome && node.onFailure? != finish.map (·.id) &&
          node.onFailure? != node.linearNext then
        .error ⟨.branches, node.id,
          s!"\"{name}\" has a failure branch that does not end the run, and a list cannot show it"⟩
      else walkLine finish fuel (seen ++ [node.id]) (ordered ++ [node]) node.linearNext

/-- `readLinear`. -/
def readLinear : Except LinearRefusal LinearView :=
  match doc.nodes.find? (·.isStart) with
  | none => .error ⟨.unreachable, doc.entry, "this workflow has no start node"⟩
  | some start =>
    match doc.nodes.filter (·.isFinish) with
    | _ :: second :: _ => .error ⟨.multipleFinish, second.id,
        "this workflow ends in more than one place, so it is not a single sequence"⟩
    | finishes =>
      match doc.nodes.find? (·.isBranch) with
      | some branch =>
        let name := shownName title branch
        let kind := branch.kind
        .error ⟨.branches, branch.id, s!"\"{name}\" is a {kind}, and a list cannot show a branch"⟩
      | none =>
        match walkLine title doc finishes.head? (doc.nodes.length + 1) [start.id] []
            start.linearNext with
        | .error refusal => .error refusal
        | .ok (seen, ordered) =>
          match doc.nodes.find? fun n ↦
              !seen.contains n.id && !doc.ownedByShuffle.contains n.id with
          | some orphan =>
            let name := shownName title orphan
            .error ⟨.unreachable, orphan.id, s!"\"{name}\" is not connected to the sequence"⟩
          | none =>
            .ok ⟨start, (foldGaps ordered).1, finishes.head?, (foldGaps ordered).2⟩

end Reader

/-! ## The rows of a list -/

/-- The nodes of the rows, each gap before its action: the order they run in. -/
def rowNodes (steps : List LinearStep) : List WorkflowNode :=
  steps.flatMap fun s ↦ s.delayBefore.toList ++ [s.node]

theorem rowNodes_append (steps steps' : List LinearStep) :
    rowNodes (steps ++ steps') = rowNodes steps ++ rowNodes steps' := flatMap_append

theorem rowNodes_foldl_foldGap (ordered : List WorkflowNode) (s : List LinearStep × Option WorkflowNode) :
    rowNodes (ordered.foldl foldGap s).1 ++ (ordered.foldl foldGap s).2.toList =
      rowNodes s.1 ++ s.2.toList ++ ordered := by
  induction ordered generalizing s with
  | nil => simp
  | cons node ordered ih =>
    rw [foldl_cons, ih, foldGap]
    split_ifs with h
    · have hnone : s.2 = none := by simpa using (Bool.and_eq_true_iff.mp h).2
      simp [hnone]
    · simp [rowNodes]

/-- **Folding the gaps loses no node.** -/
theorem rowNodes_foldGaps (ordered : List WorkflowNode) : rowNodes (foldGaps ordered).1 = ordered := by
  have h := rowNodes_foldl_foldGap ordered ([], none)
  have hnil : rowNodes [] ++ (none : Option WorkflowNode).toList ++ ordered = ordered := rfl
  rw [hnil] at h
  rw [foldGaps]
  cases hpending : (ordered.foldl foldGap ([], none)).2 with
  | none =>
    rw [hpending, Option.toList_none, append_nil] at h
    exact h
  | some gap =>
    rw [hpending] at h
    show rowNodes (_ ++ [⟨gap, none⟩]) = ordered
    rw [rowNodes_append]
    exact h

/-- The places of the rows: the actions, and the gaps. -/
def rowPlaces (steps : List LinearStep) : List String :=
  steps.map (·.node.id) ++ steps.filterMap fun s ↦ s.delayBefore.map (·.id)

theorem perm_rowPlaces (steps : List LinearStep) :
    (rowPlaces steps).Perm ((rowNodes steps).map (·.id)) := by
  induction steps with
  | nil => exact .refl _
  | cons s steps ih =>
    have hrows : (rowNodes (s :: steps)).map (·.id) =
        (s.delayBefore.map (·.id)).toList ++ s.node.id :: (rowNodes steps).map (·.id) := by
      simp [rowNodes, Option.toList_map]
    have hplaces : (rowPlaces (s :: steps)).Perm
        ((s.delayBefore.map (·.id)).toList ++ s.node.id :: rowPlaces steps) := by
      cases hgap : s.delayBefore with
      | none => simp [rowPlaces, hgap]
      | some gap =>
        rw [rowPlaces, map_cons, filterMap_cons, hgap]
        exact (perm_middle.cons _).trans (.swap _ _ _)
    rw [hrows]
    exact hplaces.trans ((ih.cons _).append_left _)

/-! ## Lines -/

/-- A walk along `next` from a cursor: the nodes it goes through, and the `finish` it ends at, if it
does. -/
inductive Line (doc : WorkflowDoc) :
    Option String → List WorkflowNode → Option WorkflowNode → Prop where
  | nil : Line doc none [] none
  | finish {f : WorkflowNode} (hf : f ∈ doc.nodes) (hfinish : f.isFinish) :
    Line doc (some f.id) [] (some f)
  | cons {n : WorkflowNode} {rows : List WorkflowNode} {fin : Option WorkflowNode}
    (hn : n ∈ doc.nodes) (hnot : n.isFinish = false) (rest : Line doc n.linearNext rows fin) :
    Line doc (some n.id) (n :: rows) fin

namespace Line

variable {doc : WorkflowDoc} {cursor : Option String} {rows : List WorkflowNode}
  {fin : Option WorkflowNode}

section

variable (h : Line doc cursor rows fin)
include h

theorem mem_nodes : ∀ n ∈ rows, n ∈ doc.nodes ∧ n.isFinish = false := by
  induction h with
  | nil => exact nofun
  | finish => exact nofun
  | cons hn hnot _ ih => exact forall_mem_cons.mpr ⟨⟨hn, hnot⟩, ih⟩

theorem fin_mem : ∀ f, fin = some f → f ∈ doc.nodes ∧ f.isFinish := by
  induction h with
  | nil => exact nofun
  | finish hf hfinish =>
    rintro f hf'
    cases hf'
    exact ⟨hf, hfinish⟩
  | cons _ _ _ ih => exact ih

/-- Where a cursor goes: to the first node, or to the finish. -/
theorem head {b : String} (hb : cursor = some b) :
    (∃ m tail, rows = m :: tail ∧ m.id = b) ∨ rows = [] ∧ ∃ f, fin = some f ∧ f.id = b := by
  cases h with
  | nil => exact nomatch hb
  | finish hf hfinish => exact .inr ⟨rfl, _, rfl, Option.some.inj hb⟩
  | cons hn hnot rest => exact .inl ⟨_, _, rfl, Option.some.inj hb⟩

/-- The successor of a node on a line: the next one, or the finish. -/
theorem next {n : WorkflowNode} (hn : n ∈ rows) {b : String} (hb : n.linearNext = some b) :
    (∃ m, [n, m] <:+: rows ∧ m.id = b) ∨ ∃ f, fin = some f ∧ f.id = b := by
  induction h with
  | nil => exact nomatch hn
  | finish => exact nomatch hn
  | cons hmem hnot rest ih =>
    rcases mem_cons.mp hn with rfl | hn
    · rcases rest.head hb with ⟨m, tail, rfl, hm⟩ | ⟨-, hfin⟩
      · exact .inl ⟨m, ⟨[], tail, rfl⟩, hm⟩
      · exact .inr hfin
    · exact (ih hn).imp (fun ⟨m, hnear, hm⟩ ↦ ⟨m, infix_cons hnear, hm⟩) id

/-- What leads to a node of a line: the cursor, or the node before it. -/
theorem entered {n : WorkflowNode} (hn : n ∈ rows) :
    cursor = some n.id ∨ ∃ m ∈ rows, m.linearNext = some n.id := by
  induction h with
  | nil => exact nomatch hn
  | finish => exact nomatch hn
  | cons hmem hnot rest ih =>
    rcases mem_cons.mp hn with rfl | hn
    · exact .inl rfl
    · right
      rcases ih hn with hcursor | ⟨m, hm, hnext⟩
      · exact ⟨_, mem_cons_self, hcursor⟩
      · exact ⟨m, .tail _ hm, hnext⟩

end

end Line

/-- A failure edge that stays on a line: it ends the run at a finish that `ends` accepts, or goes
where `next` goes. -/
def FailureStays (ends : String → Prop) (n : WorkflowNode) : Prop :=
  ∀ b, n.onFailure? = some b → ends b ∨ n.linearNext = some b

theorem linearNext_subset (n : WorkflowNode) {b : String} (h : n.linearNext = some b) :
    b ∈ n.targets := by
  obtain ⟨id, enabled, body⟩ := n
  cases body with
  | start next => simpa [WorkflowNode.linearNext, WorkflowNode.targets, WorkflowNode.edgeFields] using h
  | finish => cases h
  | step n =>
    cases n with
    | gate | switch => cases h
    | script n | delay n | set n | shuffle n =>
      have hnext : n.next = some b := h
      simp [WorkflowNode.targets, WorkflowNode.edgeFields, hnext]

section Reader

variable {title : WorkflowNode → String} {doc : WorkflowDoc}

theorem nodup_seen {seen : List String} {id : String} (hnodup : seen.Nodup)
    (hseen : ¬seen.contains id = true) : (seen ++ [id]).Nodup := by
  rw [contains_iff_mem] at hseen
  exact nodup_append.mpr ⟨hnodup, nodup_singleton _, fun a ha b hb hab ↦
    hseen (mem_singleton.mp hb ▸ hab ▸ ha)⟩

/-- What the test of the walk lets pass. -/
theorem failureStays_of_not {node : WorkflowNode} {target : Option String}
    (h : ¬(node.onFailure?.isSome && node.onFailure? != target &&
      node.onFailure? != node.linearNext) = true) :
    FailureStays (fun b ↦ target = some b) node := by
  intro b hb
  by_contra hnot
  rw [not_or] at hnot
  refine h ?_
  rw [hb]
  simp [Ne.symm hnot.1, Ne.symm hnot.2, bne_iff_ne]

/-- **A walk that is not refused is a line**, of nodes not seen before. -/
theorem walkLine_ok (hclean : doc.Clean) {finish : Option WorkflowNode} : ∀ {fuel : Nat}
    {seen seen' : List String} {ordered ordered' : List WorkflowNode} {cursor : Option String},
    seen.Nodup → seen ⊆ doc.ids → doc.ids.length < fuel + seen.length →
    (∀ b, cursor = some b → doc.hasNode b = true) →
    walkLine title doc finish fuel seen ordered cursor = .ok (seen', ordered') →
    ∃ rows fin, Line doc cursor rows fin ∧ ordered' = ordered ++ rows ∧
      seen' = seen ++ rows.map (·.id) ++ (fin.map (·.id)).toList ∧ seen'.Nodup ∧
      ∀ n ∈ rows, FailureStays (fun b ↦ finish.map (·.id) = some b) n
  | 0, seen, seen', ordered, ordered', cursor, hnodup, hsub, hfuel, _, _ => by
    have hle := (subperm_of_subset hnodup hsub).length_le
    omega
  | fuel + 1, seen, seen', ordered, ordered', none, hnodup, _, _, _, h => by
    rw [walkLine] at h
    cases h
    exact ⟨[], none, .nil, by simp, by simp, hnodup, by simp⟩
  | fuel + 1, seen, seen', ordered, ordered', some cursor, hnodup, hsub, hfuel, hcursor, h => by
    obtain ⟨node, hnode⟩ := WorkflowDoc.exists_node? (hcursor cursor rfl)
    have hmem := WorkflowDoc.mem_of_node? hnode
    obtain rfl := WorkflowDoc.id_of_node? hnode
    rw [walkLine, hnode] at h
    dsimp only at h
    split_ifs at h with hseen hfinish hfailure
    · cases h
      exact ⟨[], some node, .finish hmem hfinish, by simp, by simp,
        nodup_seen hnodup hseen, by simp⟩
    · have hids : seen ++ [node.id] ⊆ doc.ids :=
        append_subset.mpr
          ⟨hsub, fun a ha ↦ mem_singleton.mp ha ▸ mem_map_of_mem hmem⟩
      have hexists : ∀ b, node.linearNext = some b → doc.hasNode b = true := fun b hb ↦
        hclean.hasNode_of_target hmem (linearNext_subset node hb)
      obtain ⟨rows, fin, hline, rfl, rfl, hseen', hstays⟩ := walkLine_ok hclean
        (nodup_seen hnodup hseen) hids (by simp; omega) hexists h
      refine ⟨node :: rows, fin, .cons hmem (Bool.eq_false_iff.mpr hfinish) hline, by simp, by simp,
        hseen', forall_mem_cons.mpr ⟨failureStays_of_not hfailure, hstays⟩⟩

end Reader

/-! ## Members that stay -/

namespace WorkflowNode

/-- The targets control is handed on to: `next`, and the cases of a switch. -/
def onward (n : WorkflowNode) : List String :=
  match n.body with
  | .step (.switch s) => s.cases.filterMap (·.to_)
  | _ => n.linearNext.toList

theorem onward_of_not_branch {n : WorkflowNode} (h : n.isBranch = false) :
    n.onward = n.linearNext.toList := by
  obtain ⟨id, enabled, body⟩ := n
  cases body with
  | start | finish => rfl
  | step n =>
    cases n with
    | switch => exact nomatch h
    | _ => rfl

/-- The targets of a node that is no branch. -/
theorem mem_targets_of_not_branch {n : WorkflowNode} (h : n.isBranch = false) {b : String} :
    b ∈ n.targets ↔ n.linearNext = some b ∨ n.onFailure? = some b ∨ b ∈ n.members := by
  obtain ⟨id, enabled, body⟩ := n
  cases body with
  | start next | finish => simp [targets, edgeFields, linearNext, onFailure?, members, shuffle?]
  | step n =>
    cases n with
    | gate | switch => cases h
    | script n => cases hnext : n.next <;> cases hfail : n.onFailure <;>
        simp [targets, edgeFields, linearNext, onFailure?, members, shuffle?, hnext, hfail, eq_comm]
    | delay n | set n => simp [targets, edgeFields, linearNext, onFailure?, members, shuffle?]
    | shuffle n =>
      refine ⟨fun hb ↦ (mem_targets_shuffle rfl hb).elim (fun hb ↦ .inr (.inr hb)) .inl, ?_⟩
      rintro (hnext | hfail | hmember)
      · exact linearNext_subset _ hnext
      · cases hfail
      · exact members_subset _ hmember

end WorkflowNode

/-- What keeps the members of shuffles off every list: nothing goes on to a member, and a member that
fails ends the run or falls back on a member of its own shuffle. -/
structure WorkflowDoc.MembersStay (doc : WorkflowDoc) : Prop where
  entered : ∀ n ∈ doc.nodes, ∀ b ∈ n.onward, b ∉ doc.ownedByShuffle
  failure : ∀ s ∈ doc.nodes, ∀ n ∈ doc.nodes, n.id ∈ s.members → ∀ b, n.onFailure? = some b →
    (∃ f ∈ doc.nodes, f.isFinish ∧ f.id = b) ∨ b ∈ s.members

section Members

variable {doc : WorkflowDoc} {s n : WorkflowNode} {b : String}

theorem mem_ownedByShuffle : b ∈ doc.ownedByShuffle ↔ ∃ s ∈ doc.nodes, b ∈ s.members :=
  mem_flatMap

theorem WorkflowDoc.Clean.nodup_ownedByShuffle (h : doc.Clean) : doc.ownedByShuffle.Nodup := by
  have hclaims : claimIssues [] doc.memberClaims = [] := by
    have hschema := h.schema
    rw [WorkflowDoc.schemaIssues, append_eq_nil_iff, append_eq_nil_iff] at hschema
    exact hschema.1.2
  have hnodup := (WorkflowDoc.nodup_of_claimIssues hclaims).1
  rwa [WorkflowDoc.map_member_memberClaims] at hnodup

/-- A member of a shuffle is a script, a delay or a set, without a `next`. -/
theorem WorkflowDoc.Clean.member_shape (h : doc.Clean) (hs : s ∈ doc.nodes) (hn : n ∈ doc.nodes)
    (hmember : n.id ∈ s.members) :
    n.isFinish = false ∧ n.isBranch = false ∧ n.linearNext = none ∧ n.members = [] := by
  have hnothing := h.memberMessage hs hmember (h.node?_eq hn)
  obtain ⟨id, enabled, body⟩ := n
  rw [shuffleMemberMessage?] at hnothing
  cases body with
  | start | finish => cases hnothing
  | step n =>
    cases n with
    | shuffle => cases hnothing
    | gate | switch => cases hnothing
    | script n | delay n | set n =>
      cases hnext : n.next with
      | some next => simp [WorkflowNode.memberNext?, hnext] at hnothing
      | none => exact ⟨rfl, rfl, hnext, rfl⟩

theorem WorkflowDoc.Clean.member_not_start (h : doc.Clean) (hs : s ∈ doc.nodes) (hn : n ∈ doc.nodes)
    (hmember : n.id ∈ s.members) : n.isStart = false := by
  obtain ⟨n', hbody⟩ := h.member_step hs hmember (h.node?_eq hn)
  rw [WorkflowNode.isStart, hbody]

/-- A member is left only by its failure edge. -/
theorem WorkflowDoc.Clean.member_targets (h : doc.Clean) (hs : s ∈ doc.nodes) (hn : n ∈ doc.nodes)
    (hmember : n.id ∈ s.members) : b ∈ n.targets ↔ n.onFailure? = some b := by
  obtain ⟨-, hbranch, hnext, hmembers⟩ := h.member_shape hs hn hmember
  rw [n.mem_targets_of_not_branch hbranch, hnext, hmembers]
  simp

/-- Nothing goes on from a member. -/
theorem WorkflowDoc.Clean.member_onward (h : doc.Clean) (hs : s ∈ doc.nodes) (hn : n ∈ doc.nodes)
    (hmember : n.id ∈ s.members) : n.onward = [] := by
  obtain ⟨-, hbranch, hnext, -⟩ := h.member_shape hs hn hmember
  rw [n.onward_of_not_branch hbranch, hnext, Option.toList_none]

theorem onward_of_isFinish (h : n.isFinish) : n.onward = [] := by
  obtain ⟨id, enabled, body⟩ := n
  cases body with
  | finish => rfl
  | start | step => exact nomatch h

theorem targets_of_isFinish (h : n.isFinish) : n.targets = [] := by
  obtain ⟨id, enabled, body⟩ := n
  cases body with
  | finish => rfl
  | start | step => exact nomatch h

theorem members_of_isFinish (h : n.isFinish) : n.members = [] := by
  obtain ⟨id, enabled, body⟩ := n
  cases body with
  | finish => rfl
  | start | step => exact nomatch h

theorem onFailure?_of_isStart (h : n.isStart) : n.onFailure? = none := by
  obtain ⟨id, enabled, body⟩ := n
  cases body with
  | start => rfl
  | finish | step => exact nomatch h

end Members

/-- The nodes a reader has gone through: those at the head of the document, and the rows it shows.
They are all there is, next to the finishes and the members of shuffles. -/
structure Spine (doc : WorkflowDoc) (heads rows : List WorkflowNode) : Prop where
  heads_mem : ∀ n ∈ heads, n ∈ doc.nodes ∧ n.id ∉ doc.ownedByShuffle
  rows_mem : ∀ n ∈ rows, n ∈ doc.nodes ∧ n.isFinish = false
  apart : ∀ n ∈ rows, n ∉ heads
  nodup : (rows.map (·.id)).Nodup
  placed : ∀ n ∈ doc.nodes, n ∈ heads ∨ n.isFinish ∨ n ∈ rows ∨ n.id ∈ doc.ownedByShuffle
  onward : ∀ n ∈ heads ++ rows, ∀ b ∈ n.onward,
    b ∈ (heads ++ rows).map (·.id) ∨ ∃ f ∈ doc.nodes, f.isFinish ∧ f.id = b
  entered : ∀ r ∈ rows, ∃ n ∈ heads ++ rows, r.id ∈ n.onward

namespace Spine

variable {doc : WorkflowDoc} {heads rows : List WorkflowNode}

/-- **A row is a member exactly when something goes on to a member.** -/
theorem rows_free_iff (h : Spine doc heads rows) (hclean : doc.Clean) :
    (∀ r ∈ rows, r.id ∉ doc.ownedByShuffle) ↔
      ∀ n ∈ doc.nodes, ∀ b ∈ n.onward, b ∉ doc.ownedByShuffle := by
  have hgone : ∀ n ∈ heads ++ rows, (∀ r ∈ rows, r.id ∉ doc.ownedByShuffle) →
      ∀ b ∈ n.onward, b ∉ doc.ownedByShuffle := by
    intro n hn hfree b hb howned
    rcases h.onward n hn b hb with hplace | ⟨f, hf, hfinish, rfl⟩
    · obtain ⟨m, hm, rfl⟩ := mem_map.mp hplace
      exact (mem_append.mp hm).elim (fun hm ↦ (h.heads_mem m hm).2 howned)
        fun hm ↦ hfree m hm howned
    · obtain ⟨s, hs, hmember⟩ := mem_ownedByShuffle.mp howned
      have hnot := (hclean.member_shape hs hf hmember).1
      exact absurd hfinish (by simp [hnot])
  constructor
  · intro hfree n hn b hb
    rcases h.placed n hn with hhead | hfinish | hrow | hmember
    · exact hgone n (mem_append_left _ hhead) hfree b hb
    · rw [onward_of_isFinish hfinish] at hb
      exact nomatch hb
    · exact hgone n (mem_append_right _ hrow) hfree b hb
    · obtain ⟨s, hs, hmember⟩ := mem_ownedByShuffle.mp hmember
      rw [hclean.member_onward hs hn hmember] at hb
      exact nomatch hb
  · intro hentered r hr howned
    obtain ⟨n, hn, hb⟩ := h.entered r hr
    have hmem : n ∈ doc.nodes := (mem_append.mp hn).elim (fun hn ↦ (h.heads_mem n hn).1)
      fun hn ↦ (h.rows_mem n hn).1
    exact hentered n hmem _ hb howned

/-- **Every node has one place exactly when no row is a member.** -/
theorem once_iff (h : Spine doc heads rows) (hclean : doc.Clean) :
    (∀ n ∈ doc.nodes, n ∉ heads → n.isFinish = false →
      (rows.map (·.id) ++ doc.ownedByShuffle).count n.id = 1) ↔
        ∀ r ∈ rows, r.id ∉ doc.ownedByShuffle := by
  constructor
  · intro honce r hr howned
    have hcount := honce r (h.rows_mem r hr).1 (h.apart r hr) (h.rows_mem r hr).2
    rw [count_append] at hcount
    have hrow := count_pos_iff.mpr (mem_map_of_mem (f := (·.id)) hr)
    have hmember := count_pos_iff.mpr howned
    omega
  · intro hfree n hn hhead hfinish
    have hnodup : (rows.map (·.id) ++ doc.ownedByShuffle).Nodup :=
      nodup_append'.mpr ⟨h.nodup, hclean.nodup_ownedByShuffle, fun id hid howned ↦ by
        obtain ⟨r, hr, rfl⟩ := mem_map.mp hid
        exact hfree r hr howned⟩
    refine count_eq_one_of_mem hnodup (mem_append.mpr ?_)
    rcases h.placed n hn with h' | h' | hrow | hmember
    · exact absurd h' hhead
    · exact absurd h' (by simp [hfinish])
    · exact .inl (mem_map_of_mem hrow)
    · exact .inr hmember

/-- A finish is neither a row nor a member. -/
theorem count_finish (h : Spine doc heads rows) (hclean : doc.Clean) {n : WorkflowNode}
    (hn : n ∈ doc.nodes) (hkind : n.isFinish = true) :
    (rows.map (·.id) ++ doc.ownedByShuffle).count n.id = 0 := by
  rw [count_eq_zero, mem_append, not_or]
  refine ⟨fun hrow ↦ ?_, fun howned ↦ ?_⟩
  · obtain ⟨r, hr, hid⟩ := mem_map.mp hrow
    obtain ⟨hrmem, hrkind⟩ := h.rows_mem r hr
    rw [hclean.node_unique hrmem hn hid, hkind] at hrkind
    exact nomatch hrkind
  · obtain ⟨s, hs, hmember⟩ := mem_ownedByShuffle.mp howned
    rw [(hclean.member_shape hs hn hmember).1] at hkind
    exact nomatch hkind

end Spine

/-! ## What the editor promises -/

/-- **A list-shaped document**: every node but the start has one place, as an action, a gap, the
finish or a member; and an edge leads to the next node of the line, to the finish, or to a member of
the same shuffle. -/
structure IsLine (doc : WorkflowDoc) (view : LinearView) : Prop where
  once : ∀ n ∈ doc.nodes, n.id ≠ view.start.id →
    (rowPlaces view.steps ++ (view.finish.map (·.id)).toList ++ doc.ownedByShuffle).count n.id = 1
  edges : ∀ n ∈ doc.nodes, ∀ b ∈ n.targets,
    (∃ m, [n, m] <:+: view.start :: rowNodes view.steps ∧ m.id = b) ∨
      (∃ f, view.finish = some f ∧ f.id = b) ∨
      ∃ s ∈ doc.nodes, (n = s ∨ n.id ∈ s.members) ∧ b ∈ s.members

section Reader

variable {title : WorkflowNode → String} {doc : WorkflowDoc} {view : LinearView}

/-- What a view is read from. -/
theorem readLinear_ok (h : readLinear title doc = .ok view) :
    doc.nodes.find? (·.isStart) = some view.start ∧
      (∀ f, f ∈ doc.nodes ∧ f.isFinish ↔ view.finish = some f) ∧
      (∀ n ∈ doc.nodes, n.isBranch = false) ∧
      ∃ seen, walkLine title doc view.finish (doc.nodes.length + 1) [view.start.id] []
          view.start.linearNext = .ok (seen, rowNodes view.steps) ∧
        ∀ n ∈ doc.nodes, n.id ∈ seen ∨ n.id ∈ doc.ownedByShuffle := by
  rw [readLinear] at h
  split at h
  · exact nomatch h
  next start hstart =>
  split at h
  · exact nomatch h
  next hone =>
  split at h
  · exact nomatch h
  next hbranch =>
  split at h
  · exact nomatch h
  next seen ordered hwalk =>
  split at h
  · exact nomatch h
  next horphan =>
  cases h
  refine ⟨hstart, fun f ↦ ?_, fun n hn ↦ ?_, seen, ?_, fun n hn ↦ ?_⟩
  · rw [← mem_filter]
    cases hfilter : doc.nodes.filter (·.isFinish) with
    | nil => simp
    | cons f' rest =>
      cases rest with
      | nil => simp [eq_comm]
      | cons second rest => exact absurd hfilter (hone _ _ _)
  · simpa using find?_eq_none.mp hbranch n hn
  · rw [rowNodes_foldGaps]
    exact hwalk
  · have hseen := find?_eq_none.mp horphan n hn
    by_contra hnot
    rw [not_or] at hnot
    exact hseen (by simpa using hnot)

theorem not_isFinish_of_isStart {n : WorkflowNode} (h : n.isStart) : n.isFinish = false := by
  obtain ⟨id, enabled, body⟩ := n
  cases body with
  | start => rfl
  | finish | step => exact nomatch h

section

variable (hclean : doc.Clean)
include hclean

section

variable (h : readLinear title doc = .ok view)
include h

/-- **A view is one line from the start**, and it holds every node that no shuffle owns. -/
theorem readLinear_line :
    Line doc (some view.start.id) (view.start :: rowNodes view.steps) view.finish ∧
      ((view.start :: rowNodes view.steps).map (·.id)).Nodup ∧
      (∀ n ∈ rowNodes view.steps, FailureStays (fun b ↦ view.finish.map (·.id) = some b) n) ∧
      ∀ n ∈ doc.nodes, n ∈ view.start :: rowNodes view.steps ∨ n.isFinish ∨
        n.id ∈ doc.ownedByShuffle := by
  obtain ⟨hstart, hfinish, -, seen, hwalk, hplaced⟩ := readLinear_ok h
  have hmem := mem_of_find?_eq_some hstart
  have hnot := not_isFinish_of_isStart (find?_some hstart)
  have hfuel : doc.ids.length < doc.nodes.length + 1 + [view.start.id].length := by
    rw [WorkflowDoc.ids, length_map, length_singleton]
    omega
  obtain ⟨rows, fin, hline, hrows, rfl, hnodup, hstays⟩ := walkLine_ok hclean
    (nodup_singleton _) (fun a ha ↦ mem_singleton.mp ha ▸ mem_map_of_mem hmem)
    hfuel (fun b hb ↦ hclean.hasNode_of_target hmem (linearNext_subset _ hb))
    hwalk
  rw [nil_append] at hrows
  rw [hrows]
  have hwhole : Line doc (some view.start.id) (view.start :: rows) fin := .cons hmem hnot hline
  have hplaced' (n : WorkflowNode) (hn : n ∈ doc.nodes) :
      n ∈ view.start :: rows ∨ fin = some n ∨ n.id ∈ doc.ownedByShuffle := by
    rcases hplaced n hn with hseen | howned
    · rcases mem_append.mp hseen with hrow | hfin
      · have hrow' : n.id ∈ (view.start :: rows).map (·.id) := hrow
        obtain ⟨m, hm, hid⟩ := mem_map.mp hrow'
        exact .inl (hclean.node_unique (hwhole.mem_nodes m hm).1 hn hid ▸ hm)
      · obtain ⟨f, hf, hid⟩ := Option.map_eq_some_iff.mp (Option.mem_toList.mp hfin)
        exact .inr (.inl (hclean.node_unique (hwhole.fin_mem f hf).1 hn hid ▸ hf))
    · exact .inr (.inr howned)
  have hfin : fin = view.finish := by
    cases hview : view.finish with
    | none =>
      refine Option.eq_none_iff_forall_ne_some.mpr fun f hf ↦ ?_
      have hsome := (hfinish f).mp (hwhole.fin_mem f hf)
      rw [hview] at hsome
      cases hsome
    | some f =>
      obtain ⟨hf, hfin⟩ := (hfinish f).mpr hview
      rcases hplaced' f hf with hrow | hsome | howned
      · exact absurd hfin (by simp [(hwhole.mem_nodes f hrow).2])
      · exact hsome
      · obtain ⟨s, hs, hmember⟩ := mem_ownedByShuffle.mp howned
        exact absurd hfin (by simp [(hclean.member_shape hs hf hmember).1])
  refine ⟨hfin ▸ hwhole, ?_, hstays, fun n hn ↦ ?_⟩
  · exact (nodup_append.mp hnodup).1
  · rcases hplaced' n hn with hrow | hfin | howned
    · exact .inl hrow
    · exact .inr (.inl (hwhole.fin_mem n hfin).2)
    · exact .inr (.inr howned)

theorem readLinear_spine : Spine doc [view.start] (rowNodes view.steps) := by
  obtain ⟨hstart, -, hbranch, -⟩ := readLinear_ok h
  obtain ⟨hline, hnodup, -, hplaced⟩ := readLinear_line hclean h
  have hmem := mem_of_find?_eq_some hstart
  rw [map_cons, nodup_cons] at hnodup
  have hapart : ∀ n ∈ rowNodes view.steps, n ≠ view.start := by
    rintro n hn rfl
    exact hnodup.1 (mem_map_of_mem hn)
  refine ⟨fun n hn ↦ ?_, fun n hn ↦ hline.mem_nodes n (.tail _ hn),
    fun n hn ↦ by simpa using hapart n hn, hnodup.2, fun n hn ↦ ?_, fun n hn b hb ↦ ?_,
    fun r hr ↦ ?_⟩
  · obtain rfl := mem_singleton.mp hn
    refine ⟨hmem, fun howned ↦ ?_⟩
    obtain ⟨s, hs, hmember⟩ := mem_ownedByShuffle.mp howned
    exact absurd (find?_some hstart) (by simp [hclean.member_not_start hs hmem hmember])
  · rcases hplaced n hn with hrow | hfinish | howned
    · exact (mem_cons.mp hrow).imp mem_singleton.mpr fun hrow ↦ .inr (.inl hrow)
    · exact .inr (.inl hfinish)
    · exact .inr (.inr (.inr howned))
  · rw [n.onward_of_not_branch (hbranch n (hline.mem_nodes n hn).1)] at hb
    rcases hline.next hn (Option.mem_toList.mp hb) with ⟨m, hnear, rfl⟩ | ⟨f, hf, rfl⟩
    · exact .inl (mem_map_of_mem (hnear.subset (by simp)))
    · exact .inr ⟨f, (hline.fin_mem f hf).1, (hline.fin_mem f hf).2, rfl⟩
  · rcases hline.entered (.tail _ hr) with hcursor | ⟨m, hm, hnext⟩
    · have hid := Option.some.inj hcursor
      exact absurd (hclean.node_unique hmem (hline.mem_nodes r (.tail _ hr)).1 hid).symm
        (hapart r hr)
    · refine ⟨m, hm, ?_⟩
      rw [m.onward_of_not_branch (hbranch m (hline.mem_nodes m hm).1), hnext]
      simp

/-- A finish has one place more than among the rows and the members. -/
theorem count_places {n : WorkflowNode}
    (hn : n ∈ doc.nodes) :
    (rowPlaces view.steps ++ (view.finish.map (·.id)).toList ++ doc.ownedByShuffle).count n.id =
      ((rowNodes view.steps).map (·.id) ++ doc.ownedByShuffle).count n.id +
        if n.isFinish then 1 else 0 := by
  obtain ⟨-, hfinish, -⟩ := readLinear_ok h
  have hone : (view.finish.map (·.id)).toList.count n.id = if n.isFinish then 1 else 0 := by
    split_ifs with hkind
    · simp [(hfinish n).mp ⟨hn, hkind⟩]
    · refine count_eq_zero.mpr fun hmem ↦ hkind ?_
      obtain ⟨f, hf, hid⟩ := Option.map_eq_some_iff.mp (Option.mem_toList.mp hmem)
      obtain ⟨hfmem, hfkind⟩ := (hfinish f).mpr hf
      exact hclean.node_unique hfmem hn hid ▸ hfkind
  rw [count_append, count_append, count_append, hone, (perm_rowPlaces view.steps).count_eq]
  omega

/-- Every node has one place exactly when nothing goes on to a member. -/
theorem once_iff_entered :
    (∀ n ∈ doc.nodes, n.id ≠ view.start.id →
      (rowPlaces view.steps ++ (view.finish.map (·.id)).toList ++ doc.ownedByShuffle).count n.id = 1) ↔
        ∀ n ∈ doc.nodes, ∀ b ∈ n.onward, b ∉ doc.ownedByShuffle := by
  have hspine := readLinear_spine hclean h
  have hmem := (hspine.heads_mem _ (.head _)).1
  rw [← hspine.rows_free_iff hclean, ← hspine.once_iff hclean]
  refine forall₂_congr fun n hn ↦ ?_
  rw [count_places hclean h hn, mem_singleton]
  have hid : n.id ≠ view.start.id ↔ n ≠ view.start :=
    not_congr ⟨hclean.node_unique hn hmem, fun heq ↦ heq ▸ rfl⟩
  rw [hid]
  refine imp_congr_right fun _ ↦ ?_
  cases hkind : n.isFinish with
  | false => simp
  | true =>
    simp [hspine.count_finish hclean hn hkind]

/-- **A list is a line exactly when the members of shuffles stay.** -/
theorem isLine_iff : IsLine doc view ↔ doc.MembersStay := by
  obtain ⟨hstart, hfinish, hbranch, -⟩ := readLinear_ok h
  obtain ⟨hline, -, hstays, hplaced⟩ := readLinear_line hclean h
  have hspine := readLinear_spine hclean h
  constructor
  · intro hview
    have hentered := (once_iff_entered hclean h).mp hview.once
    have hfree := (hspine.rows_free_iff hclean).mpr hentered
    refine ⟨hentered, fun s hs n hn hmember b hb ↦ ?_⟩
    have howned := mem_ownedByShuffle.mpr ⟨s, hs, hmember⟩
    rcases hview.edges n hn b ((hclean.member_targets hs hn hmember).mpr hb) with
      ⟨m, hnear, rfl⟩ | ⟨f, hf, rfl⟩ | ⟨s', hs', hfrom, hto⟩
    · rcases mem_cons.mp (hnear.subset (mem_cons_self (a := n))) with rfl | hrow
      · exact absurd howned (hspine.heads_mem _ (.head _)).2
      · exact absurd howned (hfree n hrow)
    · exact .inl ⟨f, ((hfinish f).mpr hf).1, ((hfinish f).mpr hf).2, rfl⟩
    · rcases hfrom with rfl | hfrom
      · rw [(hclean.member_shape hs hn hmember).2.2.2] at hto
        exact nomatch hto
      · exact .inr (hclean.owner_unique hs' hs hfrom hmember ▸ hto)
  · intro hstay
    refine ⟨(once_iff_entered hclean h).mpr hstay.entered, fun n hn b hb ↦ ?_⟩
    rcases hplaced n hn with hrow | hkind | howned
    · rcases (n.mem_targets_of_not_branch (hbranch n hn)).mp hb with hgo | hfail | hmember
      · exact (hline.next hrow hgo).imp id Or.inl
      · rcases mem_cons.mp hrow with rfl | hrow'
        · rw [onFailure?_of_isStart (find?_some hstart)] at hfail
          exact nomatch hfail
        · rcases hstays n hrow' b hfail with hends | hgo
          · exact .inr (.inl (Option.map_eq_some_iff.mp hends))
          · exact (hline.next hrow hgo).imp id Or.inl
      · exact .inr (.inr ⟨n, hn, .inl rfl, hmember⟩)
    · rw [targets_of_isFinish hkind] at hb
      exact nomatch hb
    · obtain ⟨s, hs, hmember⟩ := mem_ownedByShuffle.mp howned
      have hfail := (hclean.member_targets hs hn hmember).mp hb
      rcases hstay.failure s hs n hn hmember b hfail with ⟨f, hf, hkind, rfl⟩ | hto
      · exact .inr (.inl ⟨f, (hfinish f).mp ⟨hf, hkind⟩, rfl⟩)
      · exact .inr (.inr ⟨s, hs, .inr hmember, hto⟩)

end

end

end Reader

end Enkaku
