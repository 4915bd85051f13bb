import Enkaku.Workflow.Doc
import Mathlib.Data.List.Nodup
import Mathlib.Data.List.Pairwise

/-!
# What a document is checked for

Before a workflow runs, its document has passed `WorkflowDocSchema` and `checkWorkflow`.

`WorkflowDoc.schemaIssues` is the `superRefine` of the schema, the rules a field's own type cannot
say.  Of `checkWorkflow`, `WorkflowDoc.controlFindings` is what it finds about the control graph:
node ids, the entry, the edges and the members of shuffles.  Its other findings — about bindings,
time budgets, reachability and `@latest` references — are left out.
-/

set_option autoImplicit false

namespace Enkaku

open List

/-- The text of a kind. -/
def StepKind.toString : StepKind → String
  | .script => "script"
  | .gate => "gate"
  | .switch => "switch"
  | .delay => "delay"
  | .set => "set"
  | .shuffle => "shuffle"

namespace WorkflowNode

/-- The discriminator of a node. -/
def kind (node : WorkflowNode) : String :=
  match node.body with
  | .start _ => "start"
  | .finish _ _ => "finish"
  | .step n => n.kind.toString

/-- The members of a shuffle; any other node has none. -/
def members (node : WorkflowNode) : List String := (node.shuffle?.map (·.members)).getD []

theorem mem_members {node : WorkflowNode} {m : String} :
    m ∈ node.members ↔ ∃ n, node.body = .step (.shuffle n) ∧ m ∈ n.members := by
  obtain ⟨id, enabled, body⟩ := node
  rw [members, shuffle?]
  cases body with
  | start | finish => simp
  | step n => cases n <;> simp

end WorkflowNode

/-! ## The schema -/

/-- One segment of the path of an issue. -/
inductive PathKey where
  | field (name : String)
  | index (i : Nat)
  deriving DecidableEq, Repr

structure SchemaIssue where
  message : String
  path : List PathKey
  deriving DecidableEq, Repr

/-- A member as one shuffle lists it. -/
structure MemberClaim where
  /-- The place of the shuffle among the nodes. -/
  i : Nat
  shuffle : String
  /-- The place of the member in the shuffle's list. -/
  mi : Nat
  member : String
  deriving DecidableEq, Repr

/-- The issue of a member that an earlier claim has taken. -/
def MemberClaim.issue (c owner : MemberClaim) : SchemaIssue :=
  let member := c.member
  let shuffle := owner.shuffle
  { message :=
      if owner.shuffle = c.shuffle then
        s!"\"{member}\" is listed twice by shuffle \"{shuffle}\" — a member runs exactly once, so listing it again does nothing"
      else
        s!"\"{member}\" is already a member of shuffle \"{shuffle}\" — a node belongs to at most one shuffle"
    path := [.field "nodes", .index c.i, .field "members", .index c.mi] }

/-- The issues of a list of claims, where `claimedBy` have been made before. -/
def claimIssues : List MemberClaim → List MemberClaim → List SchemaIssue
  | _, [] => []
  | claimedBy, c :: rest =>
    match claimedBy.find? fun c' ↦ c'.member = c.member with
    | none => claimIssues (claimedBy ++ [c]) rest
    | some owner => c.issue owner :: claimIssues claimedBy rest

/-- The issues of one case of a switch: its shape must match the switch's mode. -/
def SwitchCase.issues (c : SwitchCase) (mode : SwitchMode) (i ci : Nat) : List SchemaIssue :=
  let path (field : String) : List PathKey :=
    [.field "nodes", .index i, .field "cases", .index ci, .field field]
  match mode with
  | .predicate =>
    (if c.when_.isNone then [⟨s!"case {ci}: \"when\" is required in predicate mode", path "when"⟩]
      else []) ++
    (if c.weight.isSome then
      [⟨s!"case {ci}: \"weight\" has no effect in predicate mode — did you mean to switch this node to weighted mode?",
        path "weight"⟩]
      else [])
  | .weighted =>
    (if c.weight.isNone then [⟨s!"case {ci}: \"weight\" is required in weighted mode", path "weight"⟩]
      else []) ++
    (if c.when_.isSome then
      [⟨s!"case {ci}: \"when\" has no effect in weighted mode — did you mean to switch this node to predicate mode?",
        path "when"⟩]
      else [])

namespace WorkflowDoc

variable (doc : WorkflowDoc)

/-- The place of the first node with an id. -/
def firstIndex (id : String) : Option Nat := doc.nodes.findIdx? fun n ↦ n.id = id

/-- A node whose id an earlier node has. -/
def duplicateIssues : List SchemaIssue :=
  doc.nodes.zipIdx.filterMap fun p ↦
    let id := p.1.id
    match doc.firstIndex id with
    | none => none
    | some first =>
      if first = p.2 then none
      else some ⟨s!"duplicate node id \"{id}\" — node ids must be unique in one document (first used by nodes[{first}])",
        [.field "nodes", .index p.2, .field "id"]⟩

def entryIssues : List SchemaIssue :=
  let entry := doc.entry
  match doc.nodes.find? fun n ↦ n.id = entry with
  | none => [⟨s!"entry \"{entry}\" is not a node in this document", [.field "entry"]⟩]
  | some node =>
    if node.isStart then []
    else [⟨s!"entry \"{entry}\" must name a \"start\" node", [.field "entry"]⟩]

def startIssues : List SchemaIssue :=
  let found := doc.nodes.countP (·.isStart)
  if found = 1 then []
  else [⟨s!"a document must have exactly one \"start\" node (found {found})", [.field "nodes"]⟩]

/-- Every member of every shuffle, in document order. -/
def memberClaims : List MemberClaim :=
  doc.nodes.zipIdx.flatMap fun p ↦
    p.1.members.zipIdx.map fun q ↦ ⟨p.2, p.1.id, q.2, q.1⟩

def switchIssues : List SchemaIssue :=
  doc.nodes.zipIdx.flatMap fun p ↦
    match p.1.body with
    | .step (.switch n) => n.cases.zipIdx.flatMap fun q ↦ q.1.issues n.mode p.2 q.2
    | _ => []

/-- The `superRefine` of `WorkflowDocSchema`. -/
def schemaIssues : List SchemaIssue :=
  doc.duplicateIssues ++ doc.entryIssues ++ doc.startIssues ++ claimIssues [] doc.memberClaims ++
    doc.switchIssues

end WorkflowDoc

/-! ## The checker -/

inductive Severity where
  | error | warning
  deriving DecidableEq, Repr

/-- The codes of the findings about the control graph. -/
inductive FindingCode where
  | dupNodeId | unknownNode | edgeDangling | entryUnknown | shuffleMember | shuffleEmpty
  deriving DecidableEq, Repr

/-- The text of a code. -/
def FindingCode.toString : FindingCode → String
  | dupNodeId => "E_WORKFLOW_DUP_NODE_ID"
  | unknownNode => "E_WORKFLOW_UNKNOWN_NODE"
  | edgeDangling => "W_WORKFLOW_EDGE_DANGLING"
  | entryUnknown => "E_WORKFLOW_ENTRY_UNKNOWN"
  | shuffleMember => "E_WORKFLOW_SHUFFLE_MEMBER"
  | shuffleEmpty => "W_WORKFLOW_SHUFFLE_EMPTY"

/-- `WorkflowFinding`. -/
structure Finding where
  path : String
  code : FindingCode
  message : String
  severity : Severity
  deriving DecidableEq, Repr

/-- How a run ends at an edge that is not wired. -/
inductive EndsAs where
  | succeeded | failed
  deriving DecidableEq, Repr

def EndsAs.toString : EndsAs → String
  | succeeded => "succeeded"
  | failed => "failed"

/-- An edge field of a node, as `buildGraph` resolves it. -/
structure EdgeField where
  field : String
  target : Option String
  endsAs : EndsAs := .succeeded
  /-- The edge is meant to be absent, so nothing is said when it is. -/
  expectedUnwired : Bool := false
  deriving DecidableEq, Repr

namespace WorkflowNode

/-- The edge fields of a node, in the order they are resolved in. -/
def edgeFields (node : WorkflowNode) (shuffleMember : Bool) : List EdgeField :=
  match node.body with
  | .start next => [{ field := "next", target := next }]
  | .finish _ _ => []
  | .step (.script n) =>
    [{ field := "next", target := n.next, expectedUnwired := shuffleMember },
      { field := "onFailure", target := n.onFailure, endsAs := .failed }]
  | .step (.gate n) => [{ field := "then", target := n.then_ }, { field := "else", target := n.else_ }]
  | .step (.switch n) =>
    (n.cases.zipIdx.map fun p ↦
      let ci := p.2
      { field := s!"cases[{ci}].to", target := p.1.to_ }) ++
    [{ field := "default", target := n.default }]
  | .step (.delay n) => [{ field := "next", target := n.next, expectedUnwired := shuffleMember }]
  | .step (.set n) => [{ field := "next", target := n.next, expectedUnwired := shuffleMember }]
  | .step (.shuffle n) =>
    (n.members.zipIdx.map fun p ↦
      let mi := p.2
      { field := s!"members[{mi}]", target := some p.1 }) ++
    [{ field := "next", target := n.next }]

/-- The `next` of a node whose kind declares one, apart from a shuffle. -/
def memberNext? (node : WorkflowNode) : Option String :=
  match node.body with
  | .step (.script n) => n.next
  | .step (.delay n) => n.next
  | .step (.set n) => n.next
  | _ => none

end WorkflowNode

/-- What is wrong with a node as a member of a shuffle, the first thing only. -/
def shuffleMemberMessage? (shuffleId memberId : String) (member : WorkflowNode) : Option String :=
  let kind := member.kind
  match member.body with
  | .step (.shuffle _) =>
    some s!"\"{memberId}\" is a shuffle — a shuffle may not be a member of another shuffle"
  | .start _ | .finish _ _ =>
    some s!"\"{memberId}\" is a \"{kind}\" node — it is not a step, so it cannot be shuffled"
  | .step n =>
    match member.memberNext?, n with
    | some next, _ =>
      some s!"\"{memberId}\" is a member of shuffle \"{shuffleId}\" and also declares next -> \"{next}\" — a member's successor is the shuffle itself, chosen at run time, so its own next must be empty"
    | none, .gate _ | none, .switch _ =>
      some s!"\"{memberId}\" is a \"{kind}\" node — a shuffle member may not branch; put the branch after the shuffle"
    | none, _ => none

namespace WorkflowDoc

variable (doc : WorkflowDoc)

/-- Node ids unique. -/
def idFindings : List Finding :=
  doc.nodes.zipIdx.filterMap fun p ↦
    let id := p.1.id
    let i := p.2
    match doc.firstIndex id with
    | none => none
    | some first =>
      if first = i then none
      else some ⟨s!"nodes[{i}].id", .dupNodeId,
        s!"duplicate node id \"{id}\" (first used by nodes[{first}])", .error⟩

/-- The entry names a `start` node. -/
def entryFindings : List Finding :=
  let entry := doc.entry
  match doc.nodes.find? fun n ↦ n.id = entry with
  | none => [⟨"entry", .entryUnknown, s!"entry \"{entry}\" is not a node in this document", .error⟩]
  | some node =>
    if node.isStart then []
    else [⟨"entry", .entryUnknown, s!"entry \"{entry}\" must name a \"start\" node", .error⟩]

/-- `resolveEdge`: what is said about one edge field of the node at `i`. -/
def edgeFinding (i : Nat) (e : EdgeField) : Option Finding :=
  let field := e.field
  let path := s!"nodes[{i}].{field}"
  match e.target with
  | none =>
    let endsAs := e.endsAs.toString
    if e.expectedUnwired then none
    else some ⟨path, .edgeDangling,
      s!"this edge is not wired to a node yet — reaching it at run time ends the run {endsAs}", .warning⟩
  | some target =>
    if doc.nodes.any fun n ↦ n.id = target then none
    else some ⟨path, .unknownNode, s!"\"{target}\" is not a node in this document", .error⟩

/-- What `buildGraph` says about the edges. -/
def edgeFindings : List Finding :=
  doc.nodes.zipIdx.flatMap fun p ↦
    (p.1.edgeFields (doc.nodes.any fun n ↦ n.members.contains p.1.id)).filterMap
      (doc.edgeFinding p.2)

/-- A shuffle with fewer than two members has nothing to shuffle. -/
def shuffleEmptyFinding (i : Nat) (shuffleId : String) (members : List String) : Option Finding :=
  let path := s!"nodes[{i}].members"
  match members with
  | [] => some ⟨path, .shuffleEmpty,
      s!"shuffle \"{shuffleId}\" has no members — it will pass straight through to its next node",
      .warning⟩
  | [_] => some ⟨path, .shuffleEmpty,
      s!"shuffle \"{shuffleId}\" has one member — there is only one order for one action", .warning⟩
  | _ => none

/-- What is said about the member at `mi` of the shuffle at `i`; one that names no node is reported
with the edges. -/
def memberFinding (i mi : Nat) (shuffleId memberId : String) : Option Finding :=
  (doc.node? memberId).bind fun member ↦
    (shuffleMemberMessage? shuffleId memberId member).map fun message ↦
      ⟨s!"nodes[{i}].members[{mi}]", .shuffleMember, message, .error⟩

/-- The membership rules that need a lookup at other nodes. -/
def shuffleFindings : List Finding :=
  doc.nodes.zipIdx.flatMap fun p ↦
    match p.1.shuffle? with
    | none => []
    | some n =>
      (shuffleEmptyFinding p.2 p.1.id n.members).toList ++
        n.members.zipIdx.filterMap fun q ↦ doc.memberFinding p.2 q.2 p.1.id q.1

/-- The findings of `checkWorkflow` about the control graph. -/
def controlFindings : List Finding :=
  doc.idFindings ++ doc.entryFindings ++ doc.edgeFindings ++ doc.shuffleFindings

/-- The document passes the schema, and the checker finds no error in its control graph. -/
structure Clean : Prop where
  schema : doc.schemaIssues = []
  check : ∀ f ∈ doc.controlFindings, f.severity ≠ .error

/-! ## What a clean document is -/

variable {doc}

/-- Claims that raise no issue name different members, none of them claimed before. -/
theorem nodup_of_claimIssues {claimedBy claims : List MemberClaim}
    (h : claimIssues claimedBy claims = []) :
    (claims.map (·.member)).Nodup ∧ ∀ c ∈ claims, ∀ c' ∈ claimedBy, c'.member ≠ c.member := by
  induction claims generalizing claimedBy with
  | nil => simp
  | cons c rest ih =>
    rw [claimIssues] at h
    split at h
    next hnone =>
      obtain ⟨hnd, hnew⟩ := ih h
      rw [find?_eq_none] at hnone
      refine ⟨nodup_cons.mpr ⟨fun hmem ↦ ?_, hnd⟩, fun c₁ hc₁ c' hc' ↦ ?_⟩
      · obtain ⟨c₁, hc₁, he⟩ := mem_map.mp hmem
        exact hnew c₁ hc₁ c (by simp) he.symm
      · rcases mem_cons.mp hc₁ with rfl | hc₁
        · simpa using hnone c' hc'
        · exact hnew c₁ hc₁ c' (by simp [hc'])
    next => exact absurd h (cons_ne_nil _ _)

theorem map_member_memberClaims : doc.memberClaims.map (·.member) = doc.nodes.flatMap (·.members) := by
  rw [memberClaims, map_flatMap]
  conv_rhs => rw [← zipIdx_map_fst 0 doc.nodes, flatMap_map]
  refine flatMap_congr fun p _ ↦ ?_
  rw [map_map]
  exact zipIdx_map_fst 0 _

variable {m : String} {a : WorkflowNode}

/-- **A member belongs to one shuffle**: nodes of a document the schema accepts share no member. -/
theorem Clean.owner_unique (h : doc.Clean) {b : WorkflowNode} (ha : a ∈ doc.nodes)
    (hb : b ∈ doc.nodes) (hma : m ∈ a.members) (hmb : m ∈ b.members) : a = b := by
  have hclaims : claimIssues [] doc.memberClaims = [] := by
    have hschema := h.schema
    rw [schemaIssues, append_eq_nil_iff, append_eq_nil_iff] at hschema
    exact hschema.1.2
  have hnd := (nodup_of_claimIssues hclaims).1
  rw [map_member_memberClaims, nodup_flatMap] at hnd
  by_contra hne
  have hsymm : Std.Symm (Function.onFun List.Disjoint fun node : WorkflowNode ↦ node.members) :=
    ⟨fun _ _ hd _ hb hc ↦ hd hc hb⟩
  have hdisjoint := hnd.2.forall ha hb hne
  exact hdisjoint hma hmb

variable {member : WorkflowNode}

/-- A node that nothing is said about as a member is a step. -/
theorem step_of_message {shuffleId memberId : String}
    (h : shuffleMemberMessage? shuffleId memberId member = none) : ∃ n, member.body = .step n := by
  rw [shuffleMemberMessage?] at h
  cases hb : member.body with
  | step n => exact ⟨n, rfl⟩
  | start next =>
    rw [hb] at h
    exact nomatch h
  | finish status message =>
    rw [hb] at h
    exact nomatch h

/-- Nothing is said about the members of a clean document. -/
theorem Clean.memberMessage (h : doc.Clean) (ha : a ∈ doc.nodes) (hm : m ∈ a.members)
    (hmember : doc.node? m = some member) : shuffleMemberMessage? a.id m member = none := by
  obtain ⟨n, hbody, hmn⟩ := WorkflowNode.mem_members.mp hm
  have hshuffle : a.shuffle? = some n := by
    rw [WorkflowNode.shuffle?, hbody]
  obtain ⟨i, hi⟩ := getElem?_of_mem ha
  obtain ⟨mi, hmi⟩ := getElem?_of_mem hmn
  have hfinding : ∀ f, doc.memberFinding i mi a.id m = some f → f.severity ≠ .error := by
    intro f hf
    refine h.check f (mem_append_right _ ?_)
    rw [shuffleFindings, mem_flatMap]
    refine ⟨(a, i), mem_zipIdx_iff_getElem?.mpr hi, ?_⟩
    rw [hshuffle]
    refine mem_append_right _ (mem_filterMap.mpr ⟨(m, mi), ?_, hf⟩)
    exact mem_zipIdx_iff_getElem?.mpr hmi
  cases hmessage : shuffleMemberMessage? a.id m member with
  | none => rfl
  | some message =>
    rw [memberFinding, hmember, Option.bind_some, hmessage] at hfinding
    exact absurd rfl (hfinding _ rfl)

/-- **A member is a step**: a node that a shuffle lists is no `start` and no `finish`. -/
theorem Clean.member_step (h : doc.Clean) (ha : a ∈ doc.nodes) (hm : m ∈ a.members)
    (hmember : doc.node? m = some member) : ∃ n, member.body = .step n :=
  step_of_message (h.memberMessage ha hm hmember)

/-- **An id names one node.** -/
theorem Clean.node_unique (h : doc.Clean) {b : WorkflowNode} (ha : a ∈ doc.nodes)
    (hb : b ∈ doc.nodes) (hid : a.id = b.id) : a = b := by
  have hfirst : ∀ n ∈ doc.nodes, ∀ i, doc.nodes[i]? = some n → doc.firstIndex n.id = some i := by
    intro n hn i hi
    have hnone : doc.duplicateIssues = [] := by
      have hschema := h.schema
      simp only [schemaIssues, append_eq_nil_iff] at hschema
      exact hschema.1.1.1.1
    rw [duplicateIssues, filterMap_eq_nil_iff] at hnone
    have hsaid := hnone (n, i) (mem_zipIdx_iff_getElem?.mpr hi)
    dsimp only at hsaid
    cases hidx : doc.firstIndex n.id with
    | none =>
      rw [firstIndex, findIdx?_eq_none_iff] at hidx
      exact absurd (hidx n hn) (by simp)
    | some first =>
      rw [hidx] at hsaid
      dsimp only at hsaid
      split_ifs at hsaid with hsame
      rw [hsame]
  obtain ⟨i, hi⟩ := getElem?_of_mem ha
  obtain ⟨j, hj⟩ := getElem?_of_mem hb
  have hij : some i = some j := (hfirst a ha i hi).symm.trans (hid ▸ hfirst b hb j hj)
  rw [Option.some.inj hij, hj] at hi
  exact (Option.some.inj hi).symm

theorem Clean.node?_eq (h : doc.Clean) (ha : a ∈ doc.nodes) : doc.node? a.id = some a := by
  cases hnode : doc.node? a.id with
  | none => exact absurd (find?_eq_none.mp hnode a (mem_reverse.mpr ha)) (by simp)
  | some n => rw [h.node_unique (mem_of_node? hnode) ha (id_of_node? hnode)]

/-- A node with an owner is a member of it. -/
theorem mem_members_of_owner {shuffleId : String} (h : doc.shuffleOwner m = some shuffleId) :
    ∃ a ∈ doc.nodes, a.id = shuffleId ∧ m ∈ a.members := by
  obtain ⟨a, hfind, hid⟩ := Option.map_eq_some_iff.mp h
  refine ⟨a, mem_reverse.mp (mem_of_find?_eq_some hfind), hid, ?_⟩
  have hmember := find?_some hfind
  rw [Option.any_eq_true] at hmember
  obtain ⟨s, hs, hm⟩ := hmember
  rw [WorkflowNode.members, hs]
  simpa using hm

theorem Clean.shuffleOwner_eq (h : doc.Clean) (ha : a ∈ doc.nodes) (hm : m ∈ a.members) :
    doc.shuffleOwner m = some a.id := by
  cases howner : doc.shuffleOwner m with
  | some shuffleId =>
    obtain ⟨b, hb, rfl, hmb⟩ := mem_members_of_owner howner
    rw [h.owner_unique ha hb hm hmb]
  | none =>
    rw [shuffleOwner, Option.map_eq_none_iff, find?_eq_none] at howner
    obtain ⟨n, hbody, hmn⟩ := WorkflowNode.mem_members.mp hm
    refine absurd ?_ (howner a (mem_reverse.mpr ha))
    rw [WorkflowNode.shuffle?, hbody]
    simpa using hmn

end WorkflowDoc

end Enkaku
