import Enkaku.Workflow.Linear

/-!
# The group editor

`workflow-groups.ts`: `readGrouped` shows a document as shares of the fleet, one for each case of a
`switch` over `$run.index % G`, or says why it cannot.  Each share is walked as a list is, and the
shares may arrive at one finish; a short `delay` before the split is the stagger.

What the editor promises of the shares is `IsSplit`: every node has one place, and no edge leads out
of a share.

The titles of nodes and the labels of cases, which the editor only shows, are handed in.
-/

set_option autoImplicit false

namespace Enkaku

open List

open WorkflowDoc WorkflowNode

/-! ## The split -/

/-- `groupSplitExpr`. -/
def groupSplitExpr (groupCount : Nat) : String := s!"$run.index % {groupCount}"

/-- `/^floor\(\$random \* (\d+)\)$/`: the number. -/
def matchFromZero (source : String) : Option Nat :=
  let cs := source.toList
  let lead := "floor($random * ".toList
  let rest := cs.drop lead.length
  let digits := rest.dropLast
  if lead.isPrefixOf cs && rest.getLast? = some ')' && !digits.isEmpty && digits.all Char.isDigit then
    some (Nat.ofDigitChars 10 digits 0)
  else none

/-- The range the `ms` of a stagger is written as. -/
def staggerRange (value : ValueExpr) : Option GapRange :=
  match value with
  | .const (.num q) => some ⟨q, q⟩
  | .expr source =>
    match matchSpread source with
    | some p => some ⟨p.1, p.1 + p.2⟩
    | none => (matchFromZero source).map fun n ↦ ⟨0, n⟩
  | _ => none

/-- `readStagger`. -/
def readStagger (node : WorkflowNode) : Option GapRange :=
  match node.body with
  | .step (.delay n) => (staggerRange n.ms).filter fun r ↦ (n.maxMs : ℚ) = r.maxMs
  | _ => none

/-- `isShareCase`. -/
def isShareCase (when_ : Option Predicate) (index groupCount : Nat) : Bool :=
  match when_ with
  | some (.leaf (.expr source) .eq (some (.const (.num q)))) =>
    source = groupSplitExpr groupCount && q = (index : ℚ)
  | _ => false

/-- The node as a switch, when it is one. -/
def WorkflowNode.switch? (n : WorkflowNode) : Option SwitchNode :=
  match n.body with
  | .step (.switch s) => some s
  | _ => none

inductive GroupedRefusalCode where
  | notGrouped | branches | joins | unreachable
  deriving DecidableEq, Repr

/-- `GroupedRefusal`. -/
structure GroupedRefusal where
  code : GroupedRefusalCode
  nodeId : String
  message : String
  deriving DecidableEq, Repr

/-- `GroupView`. -/
structure GroupView where
  index : Nat
  label : String
  steps : List LinearStep
  uniformDelay : Option GapRange
  headId : Option String
  deriving Repr

/-- `GroupedView`. -/
structure GroupedView where
  start : WorkflowNode
  split : WorkflowNode
  groupCount : Nat
  groups : List GroupView
  stagger : Option (WorkflowNode × GapRange)
  finishes : List WorkflowNode
  deriving Repr

/-! ## The walk -/

section Reader

variable (title : WorkflowNode → String) (label : Nat → String) (doc : WorkflowDoc)

/-- `finishes`, with one more when it is not there. -/
def addFinish (finishes : List WorkflowNode) (node : WorkflowNode) : List WorkflowNode :=
  if finishes.any fun f ↦ f.id = node.id then finishes else finishes ++ [node]

/-- Whether an id is that of a finish. -/
def WorkflowDoc.endsAt (id : String) : Bool := doc.nodes.any fun f ↦ f.isFinish && f.id = id

/-- The walk of one share, with the ids seen and the finishes arrived at by all of them.  Every turn
but the last sees a new node. -/
def walkShare : Nat → List String → List WorkflowNode → List WorkflowNode → Option String →
    Except GroupedRefusal (List String × List WorkflowNode × List WorkflowNode)
  | 0, seen, finishes, ordered, _ | _ + 1, seen, finishes, ordered, none =>
    .ok (seen, finishes, ordered)
  | fuel + 1, seen, finishes, ordered, some cursor =>
    match doc.node? cursor with
    | none => .ok (seen, finishes, ordered)
    | some node =>
      let name := shownName title node
      if node.isFinish then .ok (seen.insert node.id, addFinish finishes node, ordered)
      else if seen.contains node.id then
        .error ⟨.joins, node.id,
          s!"\"{name}\" is reached by more than one group, so the shares are not independent"⟩
      else if node.onFailure?.any fun b ↦ node.linearNext != some b && !doc.endsAt b then
        .error ⟨.branches, node.id,
          s!"\"{name}\" has a failure branch that neither ends the run nor continues its group"⟩
      else walkShare fuel (seen.insert node.id) finishes (ordered ++ [node]) node.linearNext

/-- The shares, one after the other. -/
def walkShares : List (SwitchCase × Nat) → List String → List WorkflowNode → List GroupView →
    Except GroupedRefusal (List String × List WorkflowNode × List GroupView)
  | [], seen, finishes, groups => .ok (seen, finishes, groups)
  | (c, i) :: cases, seen, finishes, groups =>
    match walkShare title doc (doc.nodes.length + 1) seen finishes [] c.to_ with
    | .error refusal => .error refusal
    | .ok (seen, finishes, ordered) =>
      let folded := foldGaps ordered
      walkShares cases seen finishes (groups ++ [⟨i, label i, folded.1, folded.2, c.to_⟩])

/-- The stagger: a short `delay` right after the start. -/
def WorkflowDoc.stagger? (start : WorkflowNode) : Option (WorkflowNode × GapRange) :=
  (start.linearNext.bind doc.node?).bind fun node ↦ (readStagger node).map fun range ↦ (node, range)

/-- The node after the start, or after the stagger. -/
def WorkflowDoc.split? (start : WorkflowNode) : Option WorkflowNode :=
  match doc.stagger? start with
  | some (node, _) => node.linearNext.bind doc.node?
  | none => start.linearNext.bind doc.node?

/-- The shares of a split that has been recognised, and what is left over. -/
def readShares (start split : WorkflowNode) (cases : List SwitchCase)
    (fallback : Option WorkflowNode) : Except GroupedRefusal GroupedView :=
  match doc.nodes.find? fun n ↦ n.isBranch && n.id != split.id with
  | some otherBranch =>
    let name := shownName title otherBranch
    let kind := otherBranch.kind
    .error ⟨.branches, otherBranch.id,
      s!"\"{name}\" is a {kind}, and a group list cannot show a branch"⟩
  | none =>
    let stagger := doc.stagger? start
    let heads := start :: split :: (stagger.map (·.1)).toList ++ fallback.toList
    match walkShares title label doc cases.zipIdx (heads.map (·.id)).dedup [] [] with
    | .error refusal => .error refusal
    | .ok (seen, finishes, groups) =>
      match doc.nodes.find? fun n ↦ !seen.contains n.id && !doc.ownedByShuffle.contains n.id with
      | some orphan =>
        let name := shownName title orphan
        .error ⟨.unreachable, orphan.id, s!"\"{name}\" belongs to no group"⟩
      | none => .ok ⟨start, split, cases.length, groups, stagger, finishes⟩

/-- `readGrouped`. -/
def readGrouped : Except GroupedRefusal GroupedView :=
  match doc.nodes.find? (·.isStart) with
  | none => .error ⟨.unreachable, doc.entry, "this workflow has no start node"⟩
  | some start =>
    match doc.split? start with
    | none => .error ⟨.notGrouped, start.id, "this workflow does not split the fleet into groups"⟩
    | some split =>
      match split.switch? with
      | none => .error ⟨.notGrouped, start.id, "this workflow does not split the fleet into groups"⟩
      | some s =>
        let name := shownName title split
        let fallback := s.default.bind doc.node?
        if s.mode ≠ .predicate then
          .error ⟨.notGrouped, split.id,
            s!"\"{name}\" draws its branch at random rather than splitting the fleet"⟩
        else if s.default.isSome && !fallback.any (·.isFinish) then
          .error ⟨.branches, split.id,
            s!"\"{name}\" has a fallback branch that does more than end the run"⟩
        else if s.cases.length < 2 then
          .error ⟨.notGrouped, split.id, "a group split needs at least two groups"⟩
        else if !s.cases.zipIdx.all fun p ↦ isShareCase p.1.when_ p.2 s.cases.length then
          .error ⟨.notGrouped, split.id,
            s!"\"{name}\" branches on something other than an even split of the fleet"⟩
        else readShares title label doc start split s.cases fallback

end Reader

/-! ## The shares -/

section Reader

variable {title : WorkflowNode → String} {label : Nat → String} {doc : WorkflowDoc}

variable {b : String}

theorem endsAt_iff : doc.endsAt b = true ↔ ∃ f ∈ doc.nodes, f.isFinish ∧ f.id = b := by
  simp [endsAt]

/-- **The walk of a share that is not refused is a line**, of nodes not seen before. -/
theorem walkShare_ok (hclean : doc.Clean) : ∀ {fuel : Nat} {seen seen' : List String}
    {finishes finishes' ordered ordered' : List WorkflowNode} {cursor : Option String},
    seen.Nodup → seen ⊆ doc.ids → doc.ids.length < fuel + seen.length →
    (∀ b, cursor = some b → doc.hasNode b = true) →
    walkShare title doc fuel seen finishes ordered cursor = .ok (seen', finishes', ordered') →
    ∃ rows fin, Line doc cursor rows fin ∧ ordered' = ordered ++ rows ∧
      (rows.map (·.id)).Nodup ∧ (∀ n ∈ rows, n.id ∉ seen) ∧
      seen'.Nodup ∧ seen' ⊆ doc.ids ∧
      (∀ id, id ∈ seen' ↔ id ∈ seen ∨ (∃ n ∈ rows, n.id = id) ∨ ∃ f, fin = some f ∧ f.id = id) ∧
      ∀ n ∈ rows, FailureStays (fun b ↦ doc.endsAt b = true) n
  | 0, seen, _, _, _, _, _, _, hnodup, hsub, hfuel, _, _ => by
    have hle := (subperm_of_subset hnodup hsub).length_le
    omega
  | fuel + 1, seen, seen', finishes, _, ordered, ordered', none, hnodup, hsub, _, _, h => by
    rw [walkShare] at h
    obtain ⟨rfl, h'⟩ := Prod.mk.inj (Except.ok.inj h)
    cases h'
    exact ⟨[], none, .nil, by simp, by simp, by simp, hnodup, hsub, by simp, by simp⟩
  | fuel + 1, seen, seen', finishes, _, ordered, ordered', some cursor, hnodup, hsub, hfuel, hcursor,
      h => by
    obtain ⟨node, hnode⟩ := exists_node? (hcursor cursor rfl)
    have hmem := mem_of_node? hnode
    obtain rfl := id_of_node? hnode
    have hids : seen.insert node.id ⊆ doc.ids := fun a ha ↦
      (mem_insert_iff.mp ha).elim (fun ha ↦ ha ▸ mem_map_of_mem hmem) fun ha ↦ hsub ha
    rw [walkShare, hnode] at h
    dsimp only at h
    split_ifs at h with hfinish hseen hfailure
    · obtain ⟨rfl, h'⟩ := Prod.mk.inj (Except.ok.inj h)
      cases h'
      refine ⟨[], some node, .finish hmem hfinish, by simp, by simp, by simp, hnodup.insert, hids,
        fun id ↦ ?_, by simp⟩
      simp [mem_insert_iff, or_comm, eq_comm]
    · rw [contains_iff_mem] at hseen
      have hexists : ∀ b, node.linearNext = some b → doc.hasNode b = true := fun b hb ↦
        hclean.hasNode_of_target hmem (linearNext_subset node hb)
      obtain ⟨rows, fin, hline, rfl, hrows, hfresh, hnodup', hsub', hseen', hstays⟩ := walkShare_ok
        hclean hnodup.insert hids (by rw [length_insert_of_not_mem hseen]; omega) hexists h
      have hnew : ∀ n ∈ rows, n.id ≠ node.id ∧ n.id ∉ seen := fun n hn ↦ by
        have hnot := hfresh n hn
        rwa [mem_insert_iff, not_or] at hnot
      refine ⟨node :: rows, fin, .cons hmem (Bool.eq_false_iff.mpr hfinish) hline, by simp, ?_, ?_,
        hnodup', hsub', fun id ↦ ?_, forall_mem_cons.mpr ⟨fun b hb ↦ ?_, hstays⟩⟩
      · rw [map_cons, nodup_cons]
        refine ⟨fun hin ↦ ?_, hrows⟩
        obtain ⟨n, hn, hid⟩ := mem_map.mp hin
        exact (hnew n hn).1 hid
      · exact forall_mem_cons.mpr ⟨hseen, fun n hn ↦ (hnew n hn).2⟩
      · rw [hseen', mem_insert_iff, eq_comm (a := id)]
        simp only [mem_cons, exists_eq_or_imp, or_assoc, or_left_comm]
      · by_contra hnot
        rw [not_or] at hnot
        rw [hb] at hfailure
        simp [hnot.1, hnot.2] at hfailure

/-- A share as it is walked: a line from its head. -/
def GroupView.Walked (doc : WorkflowDoc) (g : GroupView) : Prop :=
  (∃ fin, Line doc g.headId (rowNodes g.steps) fin) ∧
    ∀ n ∈ rowNodes g.steps, FailureStays (fun b ↦ doc.endsAt b = true) n

/-- The rows of all shares. -/
def groupRows (groups : List GroupView) : List WorkflowNode :=
  groups.flatMap fun g ↦ rowNodes g.steps

/-- **The shares are lines that have no node in common.** -/
theorem walkShares_ok (hclean : doc.Clean) : ∀ {cases : List (SwitchCase × Nat)}
    {seen seen' : List String} {finishes finishes' : List WorkflowNode}
    {groups groups' : List GroupView},
    seen.Nodup → seen ⊆ doc.ids →
    (∀ c ∈ cases, ∀ b, c.1.to_ = some b → doc.hasNode b = true) →
    walkShares title label doc cases seen finishes groups = .ok (seen', finishes', groups') →
    ∃ new, groups' = groups ++ new ∧ new.map (·.headId) = cases.map (·.1.to_) ∧
      (∀ g ∈ new, g.Walked doc) ∧ ((groupRows new).map (·.id)).Nodup ∧
      (∀ n ∈ groupRows new, n.id ∉ seen) ∧
      ∀ id ∈ seen', id ∈ seen ∨ (∃ n ∈ groupRows new, n.id = id) ∨ doc.endsAt id = true
  | [], seen, _, finishes, _, groups, _, _, _, _, h => by
    rw [walkShares] at h
    obtain ⟨rfl, h'⟩ := Prod.mk.inj (Except.ok.inj h)
    cases h'
    exact ⟨[], by simp, rfl, by simp, by simp [groupRows], by simp [groupRows], fun _ hid ↦ .inl hid⟩
  | (c, i) :: cases, seen, seen'', finishes, _, groups, groups'', hnodup, hsub, hcases, h => by
    rw [walkShares] at h
    split at h
    · exact nomatch h
    next seen' finishes' ordered hwalk =>
    have hfuel : doc.ids.length < doc.nodes.length + 1 + seen.length := by
      rw [WorkflowDoc.ids, length_map]
      omega
    obtain ⟨rows, fin, hline, hordered, hrows, hfresh, hnodup', hsub', hseen', hstays⟩ := walkShare_ok
      hclean hnodup hsub hfuel (hcases _ (.head _)) hwalk
    obtain ⟨new, rfl, hheads, hwalked, hnewRows, hnewFresh, hfinal⟩ := walkShares_ok hclean hnodup'
      hsub' (fun c' hc' ↦ hcases c' (.tail _ hc')) h
    rw [nil_append] at hordered
    have hsteps : rowNodes (foldGaps ordered).1 = rows := (rowNodes_foldGaps ordered).trans hordered
    have hrowsCons : groupRows (⟨i, label i, (foldGaps ordered).1, (foldGaps ordered).2, c.to_⟩ :: new)
        = rows ++ groupRows new := by
      rw [groupRows, flatMap_cons, hsteps, groupRows]
    refine ⟨⟨i, label i, (foldGaps ordered).1, (foldGaps ordered).2, c.to_⟩ :: new, by simp,
      by simp [hheads], forall_mem_cons.mpr ⟨?_, hwalked⟩, ?_, ?_, ?_⟩
    · exact ⟨⟨fin, hsteps ▸ hline⟩, hsteps ▸ hstays⟩
    · rw [hrowsCons, map_append]
      refine nodup_append'.mpr ⟨hrows, hnewRows, fun id hid hid' ↦ ?_⟩
      obtain ⟨n, hn, rfl⟩ := mem_map.mp hid
      obtain ⟨m, hm, hmid⟩ := mem_map.mp hid'
      exact hnewFresh m hm ((hseen' _).mpr (.inr (.inl ⟨n, hn, hmid.symm⟩)))
    · rw [hrowsCons]
      refine fun n hn ↦ (mem_append.mp hn).elim (hfresh n) fun hn hin ↦ ?_
      exact hnewFresh n hn ((hseen' _).mpr (.inl hin))
    · rw [hrowsCons]
      intro id hid
      rcases hfinal id hid with hin | ⟨n, hn, rfl⟩ | hends
      · rcases (hseen' id).mp hin with hin | ⟨n, hn, rfl⟩ | ⟨f, hf, rfl⟩
        · exact .inl hin
        · exact .inr (.inl ⟨n, mem_append_left _ hn, rfl⟩)
        · obtain ⟨hfmem, hkind⟩ := hline.fin_mem f hf
          exact .inr (.inr (endsAt_iff.mpr ⟨f, hfmem, hkind, rfl⟩))
      · exact .inr (.inl ⟨n, mem_append_right _ hn, rfl⟩)
      · exact .inr (.inr hends)

/-! ## What the editor promises -/

/-- The nodes before the shares: the start, the split and the stagger. -/
def GroupedView.heads (view : GroupedView) : List WorkflowNode :=
  view.start :: view.split :: (view.stagger.map (·.1)).toList

/-- The nodes of a share: its rows, and the members of its shuffles. -/
def GroupView.ids (g : GroupView) : List String :=
  (rowNodes g.steps).map (·.id) ++ (rowNodes g.steps).flatMap (·.members)

/-- **A document of separate shares**: every node but the heads has one place, as an action or a gap of
one share, a finish or a member; an edge of a share leads to its next node, to a finish, or to a member
of the same shuffle; and no edge leads from one share into another. -/
structure IsSplit (doc : WorkflowDoc) (view : GroupedView) : Prop where
  once : ∀ n ∈ doc.nodes, n.id ∉ view.heads.map (·.id) →
    (view.groups.flatMap (fun g ↦ rowPlaces g.steps) ++ doc.ownedByShuffle).count n.id =
      if n.isFinish then 0 else 1
  edges : ∀ g ∈ view.groups, ∀ n ∈ doc.nodes, n.id ∈ g.ids → ∀ b ∈ n.targets,
    (∃ m, [n, m] <:+: rowNodes g.steps ∧ m.id = b) ∨ (∃ f ∈ doc.nodes, f.isFinish ∧ f.id = b) ∨
      ∃ s ∈ rowNodes g.steps, (n = s ∨ n.id ∈ s.members) ∧ b ∈ s.members
  apart : ∀ i j : Nat, i ≠ j → ∀ g g' : GroupView, view.groups[i]? = some g → view.groups[j]? = some g' →
    ∀ n ∈ doc.nodes, n.id ∈ g.ids → ∀ b ∈ n.targets, b ∉ g'.ids

variable {view : GroupedView}

/-- What a view is read from. -/
theorem readGrouped_ok (h : readGrouped title label doc = .ok view) :
    doc.nodes.find? (·.isStart) = some view.start ∧ doc.split? view.start = some view.split ∧
      view.stagger = doc.stagger? view.start ∧
      (∀ n ∈ doc.nodes, n.isBranch → n.id = view.split.id) ∧
      ∃ s, view.split.switch? = some s ∧
        (∀ b, s.default = some b → ∃ f, doc.node? b = some f ∧ f.isFinish) ∧
        ∃ seen, walkShares title label doc s.cases.zipIdx
            ((view.heads ++ (s.default.bind doc.node?).toList).map (·.id)).dedup [] [] =
              .ok (seen, view.finishes, view.groups) ∧
          ∀ n ∈ doc.nodes, n.id ∈ seen ∨ n.id ∈ doc.ownedByShuffle := by
  rw [readGrouped] at h
  split at h
  · exact nomatch h
  next start hstart =>
  split at h
  · exact nomatch h
  next split hsplit =>
  split at h
  · exact nomatch h
  next s hswitch =>
  dsimp only at h
  split_ifs at h with hmode hdefault hcount hcases
  rw [readShares] at h
  split at h
  · exact nomatch h
  next hbranch =>
  dsimp only at h
  split at h
  · exact nomatch h
  next seen finishes groups hwalk =>
  split at h
  · exact nomatch h
  next horphan =>
  cases h
  refine ⟨hstart, hsplit, rfl, fun n hn hkind ↦ ?_, s, hswitch, fun b hb ↦ ?_, seen, hwalk, fun n hn ↦ ?_⟩
  · have hnot := find?_eq_none.mp hbranch n hn
    simpa [hkind] using hnot
  · rw [hb] at hdefault
    cases hnode : doc.node? b with
    | none => simp [hnode] at hdefault
    | some f => exact ⟨f, rfl, by simpa [hnode] using hdefault⟩
  · have hseen := find?_eq_none.mp horphan n hn
    by_contra hnot
    rw [not_or] at hnot
    exact hseen (by simpa using hnot)

variable {s : SwitchNode} {n : WorkflowNode}

theorem switch_of_switch? (h : n.switch? = some s) : n.body = .step (.switch s) := by
  rw [switch?] at h
  split at h
  next s' hbody => rw [hbody, Option.some.inj h]
  · exact nomatch h

/-- Where the start leads: to the split, or to the stagger, which leads to the split. -/
theorem heads_of_split? {start split : WorkflowNode} (h : doc.split? start = some split) :
    (doc.stagger? start = none ∧ start.linearNext = some split.id) ∨
      ∃ node range, doc.stagger? start = some (node, range) ∧ start.linearNext = some node.id ∧
        node ∈ doc.nodes ∧ node.linearNext = some split.id ∧ node.isBranch = false ∧
          node.members = [] := by
  rw [split?] at h
  split at h
  next node range hstagger =>
    obtain ⟨b, hb, hsplit⟩ := Option.bind_eq_some_iff.mp h
    have hstagger' := hstagger
    obtain ⟨a, ha, hrange⟩ := Option.bind_eq_some_iff.mp hstagger'
    obtain ⟨cursor, hcursor, hnode⟩ := Option.bind_eq_some_iff.mp ha
    obtain ⟨r, hr, heq⟩ := Option.map_eq_some_iff.mp hrange
    obtain ⟨rfl, rfl⟩ := Prod.mk.inj heq
    have hdelay : a.isBranch = false ∧ a.members = [] := by
      rw [readStagger] at hr
      split at hr
      next n hbody =>
        rw [isBranch, members, shuffle?, hbody]
        exact ⟨rfl, rfl⟩
      · cases hr
    refine .inr ⟨a, r, hstagger, ?_, mem_of_node? hnode, ?_, hdelay⟩
    · rw [hcursor, id_of_node? hnode]
    · rw [hb, id_of_node? hsplit]
  next hstagger =>
    obtain ⟨b, hb, hsplit⟩ := Option.bind_eq_some_iff.mp h
    exact .inl ⟨hstagger, by rw [hb, id_of_node? hsplit]⟩

theorem isBranch_of_switch? (h : n.switch? = some s) : n.isBranch = true := by
  rw [isBranch, switch_of_switch? h]

theorem shape_of_isStart (h : n.isStart) : n.isBranch = false ∧ n.members = [] := by
  obtain ⟨id, enabled, body⟩ := n
  cases body with
  | start => exact ⟨rfl, rfl⟩
  | finish | step => exact nomatch h

theorem not_isFinish_of_linearNext (h : n.linearNext = some b) : n.isFinish = false := by
  obtain ⟨id, enabled, body⟩ := n
  cases body with
  | finish => exact nomatch h
  | start | step => rfl

/-- What the heads are: nodes that no shuffle owns, that end no run, and that lead to one another. -/
theorem readGrouped_heads (hclean : doc.Clean) (h : readGrouped title label doc = .ok view)
    (hn : n ∈ view.heads) :
    n ∈ doc.nodes ∧ n.id ∉ doc.ownedByShuffle ∧ n.isFinish = false ∧ n.members = [] ∧
      (n = view.split ∨ n.isBranch = false ∧ ∀ b, n.linearNext = some b → b ∈ view.heads.map (·.id)) := by
  obtain ⟨hstart, hsplit, hstagger, -, s, hswitch, -⟩ := readGrouped_ok h
  have hstartMem := mem_of_find?_eq_some hstart
  have hstartKind := find?_some hstart
  have hsplitMem : view.split ∈ doc.nodes := by
    rw [split?] at hsplit
    split at hsplit <;>
      exact mem_of_node? (Option.bind_eq_some_iff.mp hsplit).choose_spec.2
  have hfree (m : WorkflowNode) (hm : m ∈ doc.nodes)
      (hkind : m.isStart ∨ m.isBranch ∨ m.linearNext ≠ none) : m.id ∉ doc.ownedByShuffle := by
    intro howned
    obtain ⟨s, hs, hmember⟩ := mem_ownedByShuffle.mp howned
    obtain ⟨-, hbranch, hnext, -⟩ := hclean.member_shape hs hm hmember
    rcases hkind with hkind | hkind | hkind
    · exact absurd hkind (by simp [hclean.member_not_start hs hm hmember])
    · exact absurd hkind (by simp [hbranch])
    · exact hkind hnext
  have hsplitHead : view.split.id ∈ view.heads.map (·.id) := by simp [GroupedView.heads]
  rw [GroupedView.heads, mem_cons, mem_cons] at hn
  rcases hn with rfl | rfl | hn
  · refine ⟨hstartMem, hfree _ hstartMem (.inl hstartKind), not_isFinish_of_isStart hstartKind,
      (shape_of_isStart hstartKind).2, .inr ⟨(shape_of_isStart hstartKind).1, fun b hb ↦ ?_⟩⟩
    rcases heads_of_split? hsplit with ⟨-, hnext⟩ | ⟨node, range, hsome, hnext, -⟩
    · rw [← Option.some.inj (hnext.symm.trans hb)]
      exact hsplitHead
    · rw [← Option.some.inj (hnext.symm.trans hb)]
      simp [GroupedView.heads, hstagger, hsome]
  · exact ⟨hsplitMem, hfree _ hsplitMem (.inr (.inl (isBranch_of_switch? hswitch))),
      by rw [isFinish, switch_of_switch? hswitch],
      by rw [members, shuffle?, switch_of_switch? hswitch]; rfl, .inl rfl⟩
  · obtain ⟨⟨node, range⟩, hsome, rfl⟩ := Option.map_eq_some_iff.mp (Option.mem_toList.mp hn)
    rcases heads_of_split? hsplit with ⟨hnone, -⟩ | ⟨node', range', hsome', -, hmem, hnext, hbranch, hmembers⟩
    · rw [hstagger, hnone] at hsome
      cases hsome
    · rw [hstagger, hsome'] at hsome
      cases hsome
      refine ⟨hmem, hfree _ hmem (.inr (.inr (by simp [hnext]))), ?_, hmembers,
        .inr ⟨hbranch, fun b hb ↦ ?_⟩⟩
      · exact not_isFinish_of_linearNext hnext
      · rw [← Option.some.inj (hnext.symm.trans hb)]
        exact hsplitHead

/-- Where a case of a switch goes is a target of it. -/
theorem case_subset (h : n.switch? = some s) : s.cases.filterMap (·.to_) ⊆ n.targets := by
  intro b hb
  obtain ⟨c, hc, hto⟩ := mem_filterMap.mp hb
  obtain ⟨i, hi⟩ := getElem?_of_mem hc
  rw [targets, edgeFields, switch_of_switch? h, filterMap_append]
  refine mem_append_left _ (mem_filterMap.mpr ?_)
  exact ⟨_, mem_map.mpr ⟨(c, i), mem_zipIdx_iff_getElem?.mpr hi, rfl⟩, hto⟩

/-- **The heads and the rows are the spine of the document.** -/
theorem readGrouped_spine (hclean : doc.Clean) (h : readGrouped title label doc = .ok view) :
    Spine doc view.heads (groupRows view.groups) ∧ ∀ g ∈ view.groups, g.Walked doc := by
  obtain ⟨-, hsplit, hstagger, hbranch, s, hswitch, hdefault, seen, hwalk, hplaced⟩ :=
    readGrouped_ok h
  have hheads := fun n hn ↦ readGrouped_heads hclean h (n := n) hn
  have hsplitHead : view.split ∈ view.heads := by simp [GroupedView.heads]
  have honward : view.split.onward = s.cases.filterMap (·.to_) := by
    rw [onward, switch_of_switch? hswitch]
  have hfallback (f : WorkflowNode) (hf : f ∈ (s.default.bind doc.node?).toList) :
      f ∈ doc.nodes ∧ f.isFinish := by
    obtain ⟨b, hb, hnode⟩ := Option.bind_eq_some_iff.mp (Option.mem_toList.mp hf)
    obtain ⟨f', hf', hkind⟩ := hdefault b hb
    cases hnode.symm.trans hf'
    exact ⟨mem_of_node? hnode, hkind⟩
  have hsub : ((view.heads ++ (s.default.bind doc.node?).toList).map (·.id)).dedup ⊆ doc.ids := by
    intro id hid
    obtain ⟨n, hn, rfl⟩ := mem_map.mp (mem_dedup.mp hid)
    exact mem_map_of_mem ((mem_append.mp hn).elim (fun hn ↦ (hheads n hn).1)
      fun hn ↦ (hfallback n hn).1)
  have hexists : ∀ c ∈ s.cases.zipIdx, ∀ b, c.1.to_ = some b → doc.hasNode b = true :=
    fun c hc b hb ↦ hclean.hasNode_of_target (hheads _ hsplitHead).1 (case_subset hswitch
      (mem_filterMap.mpr ⟨c.1, (mem_zipIdx' hc).2 ▸ getElem_mem _, hb⟩))
  obtain ⟨new, hgroups, hcursors, hwalked, hrows, hfresh, hseen⟩ := walkShares_ok hclean
    (nodup_dedup _) hsub hexists hwalk
  rw [nil_append] at hgroups
  obtain rfl := hgroups
  have hrowMem : ∀ n ∈ groupRows view.groups, n ∈ doc.nodes ∧ n.isFinish = false := by
    intro n hn
    obtain ⟨g, hg, hng⟩ := mem_flatMap.mp hn
    obtain ⟨fin, hline⟩ := (hwalked g hg).1
    exact hline.mem_nodes n hng
  have hnotHead : ∀ n ∈ groupRows view.groups, n.id ∉ view.heads.map (·.id) := by
    intro n hn hhead
    refine hfresh n hn (mem_dedup.mpr ?_)
    rw [map_append]
    exact mem_append_left _ hhead
  have hrowBranch : ∀ n ∈ groupRows view.groups, n.isBranch = false := by
    intro n hn
    by_contra hkind
    rw [Bool.not_eq_false] at hkind
    refine hnotHead n hn ?_
    rw [hbranch n (hrowMem n hn).1 hkind]
    exact mem_map_of_mem hsplitHead
  have hcursor : ∀ b, (∃ g ∈ view.groups, g.headId = some b) ↔ b ∈ view.split.onward := by
    intro b
    have hmap : view.groups.map (·.headId) = s.cases.map (·.to_) := by
      rw [hcursors, ← Function.comp_def (fun c : SwitchCase ↦ c.to_) Prod.fst, ← map_map, zipIdx_map_fst]
    rw [honward, mem_filterMap, ← mem_map, ← mem_map, hmap]
  refine ⟨⟨fun n hn ↦ ⟨(hheads n hn).1, (hheads n hn).2.1⟩, hrowMem,
    fun n hn hhead ↦ hnotHead n hn (mem_map_of_mem hhead), hrows, fun n hn ↦ ?_,
    fun n hn b hb ↦ ?_, fun r hr ↦ ?_⟩, hwalked⟩
  · rcases hplaced n hn with hin | howned
    · rcases hseen n.id hin with hin | ⟨r, hr, hid⟩ | hends
      · obtain ⟨m, hm, hid⟩ := mem_map.mp (mem_dedup.mp hin)
        rcases mem_append.mp hm with hm | hm
        · exact .inl (hclean.node_unique (hheads m hm).1 hn hid ▸ hm)
        · exact .inr (.inl (hclean.node_unique (hfallback m hm).1 hn hid ▸ (hfallback m hm).2))
      · exact .inr (.inr (.inl (hclean.node_unique (hrowMem r hr).1 hn hid ▸ hr)))
      · obtain ⟨f, hf, hkind, hid⟩ := endsAt_iff.mp hends
        exact .inr (.inl (hclean.node_unique hf hn hid ▸ hkind))
    · exact .inr (.inr (.inr howned))
  · rcases mem_append.mp hn with hhead | hrow
    · rcases (hheads n hhead).2.2.2.2 with rfl | ⟨hkind, hnext⟩
      · obtain ⟨g, hg, hcursor⟩ := (hcursor b).mpr hb
        obtain ⟨fin, hline⟩ := (hwalked g hg).1
        rcases hline.head hcursor with ⟨m, tail, hrows, rfl⟩ | ⟨-, f, hf, rfl⟩
        · have hm : m ∈ groupRows view.groups := mem_flatMap.mpr ⟨g, hg, hrows ▸ (.head _)⟩
          exact .inl (mem_map_of_mem (mem_append_right _ hm))
        · exact .inr ⟨f, (hline.fin_mem f hf).1, (hline.fin_mem f hf).2, rfl⟩
      · rw [n.onward_of_not_branch hkind] at hb
        have hplace := hnext b (Option.mem_toList.mp hb)
        rw [map_append]
        exact .inl (mem_append_left _ hplace)
    · rw [n.onward_of_not_branch (hrowBranch n hrow)] at hb
      obtain ⟨g, hg, hng⟩ := mem_flatMap.mp hrow
      obtain ⟨fin, hline⟩ := (hwalked g hg).1
      rcases hline.next hng (Option.mem_toList.mp hb) with ⟨m, hnear, rfl⟩ | ⟨f, hf, rfl⟩
      · have hm : m ∈ groupRows view.groups := mem_flatMap.mpr ⟨g, hg, hnear.subset (by simp)⟩
        exact .inl (mem_map_of_mem (mem_append_right _ hm))
      · exact .inr ⟨f, (hline.fin_mem f hf).1, (hline.fin_mem f hf).2, rfl⟩
  · obtain ⟨g, hg, hrg⟩ := mem_flatMap.mp hr
    obtain ⟨fin, hline⟩ := (hwalked g hg).1
    rcases hline.entered hrg with hhead | ⟨m, hm, hnext⟩
    · exact ⟨_, mem_append_left _ hsplitHead, (hcursor r.id).mp ⟨g, hg, hhead⟩⟩
    · have hmrow : m ∈ groupRows view.groups := mem_flatMap.mpr ⟨g, hg, hm⟩
      refine ⟨m, mem_append_right _ hmrow, ?_⟩
      rw [m.onward_of_not_branch (hrowBranch m hmrow), hnext]
      simp

theorem perm_groupPlaces (groups : List GroupView) :
    (groups.flatMap fun g ↦ rowPlaces g.steps).Perm ((groupRows groups).map (·.id)) := by
  rw [groupRows, map_flatMap]
  exact List.Perm.flatMap_left _ fun g _ ↦ perm_rowPlaces g.steps

/-- Every node has one place exactly when nothing goes on to a member. -/
theorem split_once_iff (hclean : doc.Clean) (h : readGrouped title label doc = .ok view) :
    (∀ n ∈ doc.nodes, n.id ∉ view.heads.map (·.id) →
      (view.groups.flatMap (fun g ↦ rowPlaces g.steps) ++ doc.ownedByShuffle).count n.id =
        if n.isFinish then 0 else 1) ↔
      ∀ n ∈ doc.nodes, ∀ b ∈ n.onward, b ∉ doc.ownedByShuffle := by
  obtain ⟨hspine, -⟩ := readGrouped_spine hclean h
  rw [← hspine.rows_free_iff hclean, ← hspine.once_iff hclean]
  refine forall₂_congr fun n hn ↦ ?_
  have hid : n.id ∉ view.heads.map (·.id) ↔ n ∉ view.heads := by
    refine not_congr ⟨fun hid ↦ ?_, mem_map_of_mem⟩
    obtain ⟨m, hm, hid⟩ := mem_map.mp hid
    exact hclean.node_unique (hspine.heads_mem m hm).1 hn hid ▸ hm
  rw [hid, ((perm_groupPlaces view.groups).append_right _).count_eq]
  refine imp_congr_right fun _ ↦ ?_
  cases hkind : n.isFinish with
  | false => simp
  | true => simp [hspine.count_finish hclean hn hkind]

/-- A row is no branch: the split is the only one. -/
theorem row_not_branch (hclean : doc.Clean) (h : readGrouped title label doc = .ok view)
    (hn : n ∈ groupRows view.groups) : n.isBranch = false := by
  obtain ⟨-, -, -, hbranch, -⟩ := readGrouped_ok h
  obtain ⟨hspine, -⟩ := readGrouped_spine hclean h
  by_contra hkind
  rw [Bool.not_eq_false] at hkind
  have hsplit : view.split ∈ view.heads := by simp [GroupedView.heads]
  have hmem := (hspine.rows_mem n hn).1
  have heq := hclean.node_unique hmem (hspine.heads_mem _ hsplit).1 (hbranch n hmem hkind)
  exact hspine.apart n hn (heq ▸ hsplit)

variable {g : GroupView}

theorem mem_ids {id : String} :
    id ∈ g.ids ↔ (∃ n ∈ rowNodes g.steps, n.id = id) ∨ ∃ s ∈ rowNodes g.steps, id ∈ s.members := by
  simp [GroupView.ids]

/-- Two shares have no row in common. -/
theorem rows_disjoint (hclean : doc.Clean) (h : readGrouped title label doc = .ok view)
    {i j : Nat} (hij : i ≠ j) {g' : GroupView} (hg : view.groups[i]? = some g)
    (hg' : view.groups[j]? = some g') {m : WorkflowNode} (hn : n ∈ rowNodes g.steps)
    (hm : m ∈ rowNodes g'.steps) : n.id ≠ m.id := by
  obtain ⟨hspine, -⟩ := readGrouped_spine hclean h
  have hnodup := hspine.nodup
  rw [groupRows, map_flatMap, nodup_flatMap] at hnodup
  have hpairwise := pairwise_iff_getElem.mp hnodup.2
  obtain ⟨hi, rfl⟩ := List.getElem?_eq_some_iff.mp hg
  obtain ⟨hj, rfl⟩ := List.getElem?_eq_some_iff.mp hg'
  intro hid
  rcases Nat.lt_or_gt_of_ne hij with hlt | hlt
  · exact hpairwise i j hi hj hlt (mem_map_of_mem hn) (hid ▸ mem_map_of_mem hm)
  · exact hpairwise j i hj hi hlt (mem_map_of_mem hm) (hid ▸ mem_map_of_mem hn)

/-- Every shuffle with a member is a row of a share. -/
theorem shuffle_row (hclean : doc.Clean) (h : readGrouped title label doc = .ok view)
    {s : WorkflowNode} (hs : s ∈ doc.nodes) (hb : b ∈ s.members) :
    ∃ g ∈ view.groups, s ∈ rowNodes g.steps := by
  obtain ⟨hspine, -⟩ := readGrouped_spine hclean h
  rcases hspine.placed s hs with hhead | hkind | hrow | howned
  · rw [(readGrouped_heads hclean h hhead).2.2.2.1] at hb
    exact nomatch hb
  · rw [members_of_isFinish hkind] at hb
    exact nomatch hb
  · exact mem_flatMap.mp hrow
  · obtain ⟨s', hs', hmember⟩ := mem_ownedByShuffle.mp howned
    rw [(hclean.member_shape hs' hs hmember).2.2.2] at hb
    exact nomatch hb

/-- When the members stay, the edges of a share do. -/
theorem edges_of_stay (hclean : doc.Clean) (h : readGrouped title label doc = .ok view)
    (hstay : doc.MembersStay) (hg : g ∈ view.groups) (hn : n ∈ doc.nodes) (hid : n.id ∈ g.ids)
    (hb : b ∈ n.targets) :
    (∃ m, [n, m] <:+: rowNodes g.steps ∧ m.id = b) ∨ (∃ f ∈ doc.nodes, f.isFinish ∧ f.id = b) ∨
      ∃ s ∈ rowNodes g.steps, (n = s ∨ n.id ∈ s.members) ∧ b ∈ s.members := by
  obtain ⟨hspine, hwalked⟩ := readGrouped_spine hclean h
  obtain ⟨⟨fin, hline⟩, hstays⟩ := hwalked g hg
  have hgo (hrow : n ∈ rowNodes g.steps) (hnext : n.linearNext = some b) :
      (∃ m, [n, m] <:+: rowNodes g.steps ∧ m.id = b) ∨ ∃ f ∈ doc.nodes, f.isFinish ∧ f.id = b :=
    (hline.next hrow hnext).imp id fun ⟨f, hf, hid⟩ ↦
      ⟨f, (hline.fin_mem f hf).1, (hline.fin_mem f hf).2, hid⟩
  rcases mem_ids.mp hid with ⟨r, hr, hrid⟩ | ⟨s, hs, hmember⟩
  · obtain rfl := hclean.node_unique (hline.mem_nodes r hr).1 hn hrid
    have hkind := row_not_branch hclean h (mem_flatMap.mpr ⟨g, hg, hr⟩)
    rcases (r.mem_targets_of_not_branch hkind).mp hb with hnext | hfail | hmember
    · exact (hgo hr hnext).imp id Or.inl
    · rcases hstays r hr b hfail with hends | hnext
      · exact .inr (.inl (endsAt_iff.mp hends))
      · exact (hgo hr hnext).imp id Or.inl
    · exact .inr (.inr ⟨r, hr, .inl rfl, hmember⟩)
  · have hsmem := (hline.mem_nodes s hs).1
    have hfail := (hclean.member_targets hsmem hn hmember).mp hb
    exact .inr ((hstay.failure s hsmem n hn hmember b hfail).imp id fun hto ↦
      ⟨s, hs, .inr hmember, hto⟩)

/-- **Shares are separate exactly when the members of shuffles stay.** -/
theorem isSplit_iff (hclean : doc.Clean) (h : readGrouped title label doc = .ok view) :
    IsSplit doc view ↔ doc.MembersStay := by
  obtain ⟨hspine, hwalked⟩ := readGrouped_spine hclean h
  have hrow {g : GroupView} (hg : g ∈ view.groups) {n : WorkflowNode} (hn : n ∈ rowNodes g.steps) :
      n ∈ groupRows view.groups := mem_flatMap.mpr ⟨g, hg, hn⟩
  constructor
  · intro hsplit
    have hentered := (split_once_iff hclean h).mp hsplit.once
    have hfree := (hspine.rows_free_iff hclean).mpr hentered
    refine ⟨hentered, fun s hs n hn hmember b hb ↦ ?_⟩
    have howned := mem_ownedByShuffle.mpr ⟨s, hs, hmember⟩
    obtain ⟨g, hg, hsg⟩ := shuffle_row hclean h hs hmember
    rcases hsplit.edges g hg n hn (mem_ids.mpr (.inr ⟨s, hsg, hmember⟩)) b
      ((hclean.member_targets hs hn hmember).mpr hb) with ⟨m, hnear, rfl⟩ | hends | ⟨s', hs', hfrom, hto⟩
    · exact absurd howned (hfree n (hrow hg (hnear.subset (mem_cons_self (a := n)))))
    · exact .inl hends
    · rcases hfrom with rfl | hfrom
      · exact absurd howned (hfree n (hrow hg hs'))
      · exact .inr (hclean.owner_unique (hspine.rows_mem s' (hrow hg hs')).1 hs hfrom hmember ▸ hto)
  · intro hstay
    have hfree := (hspine.rows_free_iff hclean).mpr hstay.entered
    refine ⟨(split_once_iff hclean h).mpr hstay.entered,
      fun g hg n hn hid b hb ↦ edges_of_stay hclean h hstay hg hn hid hb,
      fun i j hij g g' hgi hgj n hn hid b hb hb' ↦ ?_⟩
    have hg := mem_of_getElem? hgi
    have hg' := mem_of_getElem? hgj
    -- what lies in the other share is a row of it, or a member of one of its shuffles
    rcases mem_ids.mp hb' with ⟨r, hr, rfl⟩ | ⟨s', hs', hmember⟩
    · rcases edges_of_stay hclean h hstay hg hn hid hb with ⟨m, hnear, hm⟩ | ⟨f, hf, hkind, hm⟩ | ⟨s, hs, -, hto⟩
      · exact rows_disjoint hclean h hij hgi hgj (hnear.subset (by simp)) hr hm
      · obtain ⟨hrmem, hrkind⟩ := hspine.rows_mem r (hrow hg' hr)
        rw [hclean.node_unique hf hrmem hm, hrkind] at hkind
        exact nomatch hkind
      · exact hfree r (hrow hg' hr)
          (mem_ownedByShuffle.mpr ⟨s, (hspine.rows_mem s (hrow hg hs)).1, hto⟩)
    · have hsmem' := (hspine.rows_mem s' (hrow hg' hs')).1
      rcases edges_of_stay hclean h hstay hg hn hid hb with ⟨m, hnear, rfl⟩ | ⟨f, hf, hkind, rfl⟩ | ⟨s, hs, -, hto⟩
      · exact hfree m (hrow hg (hnear.subset (by simp))) (mem_ownedByShuffle.mpr ⟨s', hsmem', hmember⟩)
      · rw [(hclean.member_shape hsmem' hf hmember).1] at hkind
        exact nomatch hkind
      · have hsame := hclean.owner_unique (hspine.rows_mem s (hrow hg hs)).1 hsmem' hto hmember
        exact rows_disjoint hclean h hij hgi hgj hs hs' (hsame ▸ rfl)

/-- **What either editor shows keeps its shape exactly when the members of shuffles stay.** -/
theorem shown_iff_membersStay {resolved : ResolvedScripts} {compiledParams : Value}
    {budget : Option Nat} (hschema : doc.schemaIssues = [])
    (hcheck : ∀ f ∈ checkWorkflow doc resolved compiledParams budget, f.severity ≠ .error) :
    (∀ view, readLinear title doc = .ok view → (IsLine doc view ↔ doc.MembersStay)) ∧
      ∀ view, readGrouped title label doc = .ok view → (IsSplit doc view ↔ doc.MembersStay) := by
  have hclean := clean_of_checkWorkflow hschema hcheck
  exact ⟨fun _ ↦ isLine_iff hclean, fun _ ↦ isSplit_iff hclean⟩

end Reader

/-! ## A member that leaves -/

namespace FallsBack

/-- When `like` fails, the run goes back to `open`, before the shuffle. -/
def doc : WorkflowDoc where
  name := "flow"
  params := []
  entry := "start"
  nodes :=
    [⟨"start", true, .start (some "open")⟩,
      ⟨"open", true, .step (.script ⟨"open@1", [], some "mix", none⟩)⟩,
      ⟨"mix", true,
        .step (.shuffle ⟨["like", "follow"], .const (.num 0), 0, false, some "end"⟩)⟩,
      ⟨"like", true, .step (.script ⟨"like@1", [], none, some "open"⟩)⟩,
      ⟨"follow", true, .step (.script ⟨"follow@1", [], none, none⟩)⟩,
      ⟨"end", true, .finish .succeed ""⟩]
  maxSteps := 50
  onFail := none

theorem checked :
    doc.schemaIssues = [] ∧
      ∀ f ∈ checkWorkflow doc (fun _ ↦ none) (.obj []) none, f.severity ≠ .error :=
  ⟨rfl, by decide⟩

theorem leaves : ¬ doc.MembersStay := by
  intro hstay
  rcases hstay.failure _ (getElem_mem (show 2 < doc.nodes.length by decide)) _
    (List.getElem_mem (show 3 < doc.nodes.length by decide)) (by decide) "open" rfl with
    ⟨f, hf, hkind, hid⟩ | hmember
  · exact absurd hkind ((show ∀ f ∈ doc.nodes, f.id = "open" → ¬f.isFinish = true by decide) f hf hid)
  · exact nomatch hmember

/-- **A list that is no line.**  The schema and the checker accept the document and the sequence editor
opens it, but an edge of a member goes back on the line. -/
theorem shown_as_line :
    doc.schemaIssues = [] ∧
      (∀ f ∈ checkWorkflow doc (fun _ ↦ none) (.obj []) none, f.severity ≠ .error) ∧
      ∃ view, readLinear (·.id) doc = .ok view ∧ ¬ IsLine doc view := by
  obtain ⟨view, hview⟩ : ∃ view, readLinear (·.id) doc = .ok view := ⟨_, rfl⟩
  have hclean := clean_of_checkWorkflow checked.1 checked.2
  exact ⟨checked.1, checked.2, view, hview, fun hline ↦ leaves ((isLine_iff hclean hview).mp hline)⟩

end FallsBack

/-! ## A split whose members stay -/

namespace Halves

/-- Two shares: one shuffles two actions, and a failing one falls back on the other. -/
def doc : WorkflowDoc where
  name := "flow"
  params := []
  entry := "start"
  nodes :=
    [⟨"start", true, .start (some "split")⟩,
      ⟨"split", true, .step (.switch ⟨.predicate,
        [⟨some (.leaf (.expr "$run.index % 2") .eq (some (.const (.num 0)))), none, some "mix"⟩,
          ⟨some (.leaf (.expr "$run.index % 2") .eq (some (.const (.num 1)))), none, some "open"⟩],
        none⟩)⟩,
      ⟨"mix", true,
        .step (.shuffle ⟨["like", "follow"], .const (.num 0), 0, false, some "end"⟩)⟩,
      ⟨"like", true, .step (.script ⟨"like@1", [], none, some "follow"⟩)⟩,
      ⟨"follow", true, .step (.script ⟨"follow@1", [], none, none⟩)⟩,
      ⟨"open", true, .step (.script ⟨"open@1", [], some "end", none⟩)⟩,
      ⟨"end", true, .finish .succeed ""⟩]
  maxSteps := 50
  onFail := none

theorem membersStay : doc.MembersStay where
  entered := by decide
  failure := by
    show ∀ s ∈ doc.nodes, ∀ n ∈ doc.nodes, n.id ∈ s.members → ∀ b ∈ n.onFailure?,
      (∃ f ∈ doc.nodes, f.isFinish ∧ f.id = b) ∨ b ∈ s.members
    decide

/-- The group editor opens the document, and its shares are separate. -/
theorem shown_as_split :
    doc.schemaIssues = [] ∧
      (∀ f ∈ checkWorkflow doc (fun _ ↦ none) (.obj []) none, f.severity ≠ .error) ∧
      ∃ view, readGrouped (·.id) (fun _ ↦ "") doc = .ok view ∧ IsSplit doc view := by
  have hschema : doc.schemaIssues = [] := rfl
  have hcheck : ∀ f ∈ checkWorkflow doc (fun _ ↦ none) (.obj []) none, f.severity ≠ .error := by
    decide +kernel
  obtain ⟨view, hview⟩ : ∃ view, readGrouped (·.id) (fun _ ↦ "") doc = .ok view := ⟨_, rfl⟩
  exact ⟨hschema, hcheck, view, hview,
    ((shown_iff_membersStay hschema hcheck).2 view hview).mpr membersStay⟩

end Halves

end Enkaku
