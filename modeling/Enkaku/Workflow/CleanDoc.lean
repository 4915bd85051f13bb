import Enkaku.Workflow.CheckWorkflow

/-!
# Clean documents

What the edges of a document are when the schema accepts it and the checker finds no error in its
control graph: they lead to nodes, a member of a shuffle has no way out but its failure edge, and the
entry is the `start` node.
-/

set_option autoImplicit false

namespace Enkaku

open List

section

variable {doc : WorkflowDoc} {resolved : ResolvedScripts} {compiledParams : Value}
  {budget : Option Nat}

/-- Without an error finding the control graph is clean. -/
theorem clean_of_checkWorkflow (hschema : doc.schemaIssues = [])
    (h : ∀ f ∈ checkWorkflow doc resolved compiledParams budget, f.severity ≠ .error) : doc.Clean := by
  refine ⟨hschema, fun f hf ↦ h f.whole ?_⟩
  have hmem : f.whole ∈ (doc.idFindings ++ doc.entryFindings ++ doc.edgeFindings).map (·.whole) ∨
      f.whole ∈ doc.shuffleFindings.map (·.whole) :=
    (mem_append.mp hf).imp mem_map_of_mem mem_map_of_mem
  simp only [checkWorkflow, mem_append]
  rcases hmem with hmem | hmem
  · simp only [hmem, true_or]
  · simp only [hmem, or_true, true_or]

end

namespace WorkflowNode

variable {node : WorkflowNode} {s : ShuffleNode} {b : String}

theorem body_of_shuffle (h : node.shuffle? = some s) : node.body = .step (.shuffle s) := by
  rw [shuffle?] at h
  split at h
  · next s' hbody => rw [hbody, Option.some.inj h]
  · cases h

theorem members_of_body (hbody : node.body = .step (.shuffle s)) : node.members = s.members := by
  rw [members, shuffle?, hbody]
  rfl

theorem mem_targets_shuffle (hbody : node.body = .step (.shuffle s)) (hb : b ∈ node.targets) :
    b ∈ s.members ∨ s.next = some b := by
  rw [targets, edgeFields, hbody] at hb
  simp only [filterMap_append, mem_append, filterMap_map, mem_filterMap] at hb
  rcases hb with ⟨p, hp, hpb⟩ | ⟨e, he, heb⟩
  · cases hpb
    exact .inl (mem_of_getElem? (mem_zipIdx_iff_getElem?.mp hp))
  · obtain rfl := mem_singleton.mp he
    exact .inr heb

end WorkflowNode

namespace WorkflowDoc

variable {doc : WorkflowDoc} {node member : WorkflowNode} {a b m : String}

theorem exists_node? (h : doc.hasNode a = true) : ∃ node, doc.node? a = some node := by
  obtain ⟨n, hn, hid⟩ := hasNode_iff.mp h
  cases hnode : doc.node? a with
  | some node => exact ⟨node, rfl⟩
  | none => exact absurd (find?_eq_none.mp hnode n (mem_reverse.mpr hn)) (by simp [hid])

/-- The entry of a document the schema accepts is its `start` node. -/
theorem start_of_schema (h : doc.schemaIssues = []) :
    ∃ node ∈ doc.nodes, node.id = doc.entry ∧ node.isStart = true := by
  have hissues : doc.entryIssues = [] := by
    simp only [schemaIssues, append_eq_nil_iff] at h
    exact h.1.1.1.2
  rw [entryIssues] at hissues
  cases hfind : doc.nodes.find? fun n ↦ n.id = doc.entry with
  | none =>
    rw [hfind] at hissues
    exact absurd hissues (cons_ne_nil _ _)
  | some node =>
    rw [hfind] at hissues
    dsimp only at hissues
    split_ifs at hissues with hstart
    have hsat := find?_some hfind
    exact ⟨node, mem_of_find?_eq_some hfind, of_decide_eq_true hsat, hstart⟩

/-- Being a member of a shuffle changes no target of a node. -/
theorem filterMap_edgeFields (node : WorkflowNode) (flag : Bool) :
    (node.edgeFields flag).filterMap (·.target) = node.targets := by
  obtain ⟨id, enabled, body⟩ := node
  cases body with
  | start | finish => rfl
  | step n => cases n <;> rfl

/-- Every edge of a clean document leads to a node. -/
theorem Clean.hasNode_of_target (h : doc.Clean) (hnode : node ∈ doc.nodes) (hb : b ∈ node.targets) :
    doc.hasNode b = true := by
  by_contra hnone
  obtain ⟨i, hi⟩ := getElem?_of_mem hnode
  rw [← filterMap_edgeFields node (doc.nodes.any fun n ↦ n.members.contains node.id)] at hb
  obtain ⟨e, he, htarget⟩ := mem_filterMap.mp hb
  have hfinding : ∃ f, doc.edgeFinding i e = some f ∧ f.severity = .error := by
    rw [edgeFinding, htarget]
    exact ⟨_, if_neg hnone, rfl⟩
  obtain ⟨f, hf, herror⟩ := hfinding
  refine h.check f ?_ herror
  refine mem_append_left _ (mem_append_right _ (mem_flatMap.mpr ⟨(node, i), ?_, ?_⟩))
  · exact mem_zipIdx_iff_getElem?.mpr hi
  · exact mem_filterMap.mpr ⟨e, he, hf⟩

/-- A member is no shuffle, and is left for good only by its `onFailure`. -/
theorem Clean.member_exits (h : doc.Clean) (hnode : node ∈ doc.nodes) (hm : m ∈ node.members)
    (hmember : doc.node? m = some member) :
    member.shuffle? = none ∧ ∀ b ∈ member.targets, doc.onFailureOf m = some b := by
  have hnothing := h.memberMessage hnode hm hmember
  rw [onFailureOf, hmember, Option.bind_some]
  obtain ⟨id, enabled, body⟩ := member
  rw [shuffleMemberMessage?] at hnothing
  cases body with
  | start | finish => cases hnothing
  | step n =>
    cases n with
    | shuffle => cases hnothing
    | gate | switch => cases hnothing
    | script n =>
      cases hnext : n.next with
      | some next => simp [WorkflowNode.memberNext?, hnext] at hnothing
      | none => exact ⟨rfl, fun b hb ↦ by
          simpa [WorkflowNode.targets, WorkflowNode.edgeFields, hnext] using hb⟩
    | delay n | set n =>
      cases hnext : n.next with
      | some next => simp [WorkflowNode.memberNext?, hnext] at hnothing
      | none => exact ⟨rfl, fun b hb ↦ by
          simp [WorkflowNode.targets, WorkflowNode.edgeFields, hnext] at hb⟩

end WorkflowDoc

end Enkaku
