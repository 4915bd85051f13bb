import Enkaku.Workflow.CheckWorkflow
import Enkaku.Workflow.Shuffle

/-!
# How long a run can get

A document without a loop finding has no cycle in its transition graph, and a shuffle draws each of
its members once.  That bounds a run, but for one thing: the graph has no edge for a member's return
to its shuffle, so a way back from the shuffle to the member — its own `next`, say — is no cycle
there.  A run can go round it for ever (`Roundabout.unbounded`).

Take the edges with the draws left out and the returns put in (`WorkflowDoc.undrawn`).  A run whose
nodes lie on no cycle of these passes each node once between two draws, and there are as many draws
as members (`trail_segment`, `steps_le_stepBound`).
-/

set_option autoImplicit false

namespace Enkaku

open List

open Digraph

namespace WorkflowDoc

variable (doc : WorkflowDoc)

/-- Where control can go from a node other than by a shuffle's draw: by an exit, or from a member
back to its shuffle.  A node that is switched off is only left by its `next`. -/
def undrawn (id : String) : List String :=
  match doc.node? id with
  | none => []
  | some node =>
    match node.body with
    | .step _ =>
      if node.enabled then
        node.exits ++ if node.shuffle?.isNone then (doc.shuffleOwner id).toList else []
      else (doc.advance node .next).toList
    | _ => node.exits

/-- How many members the shuffles of the document have. -/
def memberCount : Nat := (doc.nodes.map fun node ↦ node.members.length).sum

/-- The longest a run can get: one pass over the nodes before each draw, and one after the last. -/
def stepBound : Nat := (doc.memberCount + 1) * doc.nodes.length

variable {doc} {node : WorkflowNode} {a b : String}

theorem mem_undrawn_of_passed {next : Option String} (hnode : doc.node? a = some node)
    (hbody : node.body = .start next) (h : next = some b) : b ∈ doc.undrawn a := by
  rw [undrawn, hnode]
  simp [hbody, WorkflowNode.exits, WorkflowNode.targets, WorkflowNode.edgeFields, h]

theorem mem_undrawn_of_skipped {n : StepNode} (hnode : doc.node? a = some node)
    (hbody : node.body = .step n) (hoff : node.enabled = false)
    (h : doc.advance node .next = some b) : b ∈ doc.undrawn a := by
  rw [undrawn, hnode]
  simp [hbody, hoff, h]

/-- A node that is switched on is left by a draw, or as `undrawn` says. -/
theorem mem_undrawn_of_leads {n : StepNode} {edge : Option Edge} (hnode : doc.node? a = some node)
    (hbody : node.body = .step n) (hon : node.enabled = true) (h : Leads doc node edge b) :
    b ∈ doc.undrawn a ∨ edge = some (.member b) := by
  rw [undrawn, hnode]
  dsimp only
  rw [hbody]
  rw [if_pos hon]
  cases h with
  | exit hexit => exact .inl (mem_append_left _ hexit)
  | draw _ hedge => exact .inr hedge
  | back hnot howner =>
    rw [id_of_node? hnode] at howner
    refine .inl (mem_append_right _ ?_)
    rw [if_pos (by simp [hnot]), howner]
    exact .head _

end WorkflowDoc

namespace Walk

variable {deps : OrchestratorDeps} {w : WorkflowRun} {x y : Walk} {t : Tick} {ts : List Tick}
  {a b : String}

/-! ## The members still to be drawn -/

/-- The members of a node that the run has not marked. -/
def undoneOf (x : Walk) (node : WorkflowNode) : List String :=
  node.members.filter fun m ↦ m ∉ done x.shuffleDone node.id

/-- How many members the run has not marked. -/
def undone (w : WorkflowRun) (x : Walk) : Nat :=
  (w.doc.nodes.map fun node ↦ (x.undoneOf node).length).sum

theorem undone_le_memberCount : x.undone w ≤ w.doc.memberCount :=
  sum_le_sum fun _ _ ↦ length_filter_le ..

theorem undoneOf_sublist {node : WorkflowNode}
    (h : ∀ id m, m ∈ done x.shuffleDone id → m ∈ done y.shuffleDone id) :
    (y.undoneOf node).Sublist (x.undoneOf node) := by
  refine monotone_filter_right _ fun m hm ↦ ?_
  have hnew : m ∉ done y.shuffleDone node.id := of_decide_eq_true hm
  exact decide_eq_true fun hold ↦ hnew (h _ _ hold)

/-- Marks are never taken off. -/
theorem undone_le (h : ∀ id m, m ∈ done x.shuffleDone id → m ∈ done y.shuffleDone id) :
    y.undone w ≤ x.undone w :=
  sum_le_sum fun _ _ ↦ (undoneOf_sublist h).length_le

/-- A member newly marked is one less. -/
theorem undone_lt (h : ∀ id m, m ∈ done x.shuffleDone id → m ∈ done y.shuffleDone id)
    {node : WorkflowNode} (hnode : node ∈ w.doc.nodes) {m : String} (hm : m ∈ node.members)
    (hnew : m ∉ done x.shuffleDone node.id) (hmarked : m ∈ done y.shuffleDone node.id) :
    y.undone w < x.undone w := by
  refine sum_lt_sum _ _ (fun _ _ ↦ (undoneOf_sublist h).length_le) ⟨node, hnode, ?_⟩
  have hsub := @undoneOf_sublist x y node h
  refine lt_of_le_of_ne hsub.length_le fun heq ↦ ?_
  have hmem : m ∈ x.undoneOf node := mem_filter.mpr ⟨hm, decide_eq_true hnew⟩
  rw [← hsub.eq_of_length heq] at hmem
  exact of_decide_eq_true (mem_filter.mp hmem).2 hmarked

/-! ## A turn -/

/-- **A turn goes on as `undrawn` says, or it draws a member**, which is one less to be drawn. -/
theorem Turn.undrawn_or_draw (h : Turn deps w x t y) (hpins : w.activePins deps = [])
    (ha : x.here w = some a) (hb : y.here w = some b) :
    (b ∈ w.doc.undrawn a ∧ y.undone w ≤ x.undone w) ∨ y.undone w < x.undone w := by
  obtain ⟨hthrew, hcursor, -⟩ := here_eq_some.mp hb
  have hat : ∀ {node : WorkflowNode}, x.At w node → w.doc.node? a = some node := by
    intro node hat
    cases hat.here.symm.trans ha
    exact hat.node
  cases h with
  | idle hidle => exact absurd (running_of_here ha) (by simp [hidle])
  | caught => exact nomatch (show true = false from hthrew)
  | failed => exact nomatch (show none = some b from hcursor)
  | passed h hbody => exact .inl ⟨WorkflowDoc.mem_undrawn_of_passed (hat h) hbody hcursor, le_rfl⟩
  | @finished node status message h hbody =>
    cases status <;> exact nomatch (show none = some b from hcursor)
  | refused _ _ _ _ _ x' hx' =>
    rcases hx' with rfl | rfl <;> exact nomatch (show true = false from hthrew)
  | skipped h hbody hoff =>
    exact .inl ⟨WorkflowDoc.mem_undrawn_of_skipped (hat h) hbody hoff hcursor, le_rfl⟩
  | threw => exact nomatch (show true = false from hthrew)
  | @executed node n h hbody hon hkey hd hh =>
    have hmarks : ∀ id m, m ∈ done (x.executed deps w node n t hd).shuffleDone id ↔
        m ∈ done x.shuffleDone id ∨ (node.id = id ∧ hd.shuffled.bind Edge.member? = some m) :=
      fun id m ↦ mem_done_markShuffled
    have hmore : ∀ id m, m ∈ done x.shuffleDone id →
        m ∈ done (x.executed deps w node n t hd).shuffleDone id :=
      fun id m hm ↦ (hmarks id m).mpr (.inl hm)
    rcases WorkflowDoc.mem_undrawn_of_leads (hat h) hbody hon (handle_leads hbody hh hcursor) with
      hmem | hedge
    · exact .inl ⟨hmem, undone_le hmore⟩
    · right
      rcases handle_draw (get?_activePins hpins _) hh with ⟨s, seed, rfl, htaken, hshuffled, -⟩ | ⟨-, -, hnot⟩
      · rw [hedge] at htaken
        have hchosen := takenEdge_eq_member.mp (Option.some.inj htaken).symm
        obtain ⟨hms, hnew, -⟩ := mem_remaining.mp (mem_remaining_of_chosen hchosen)
        refine undone_lt hmore (WorkflowDoc.mem_of_node? h.node)
          (WorkflowNode.mem_members.mpr ⟨s, hbody, hms⟩) hnew ((hmarks _ _).mpr (.inr ⟨rfl, ?_⟩))
        rw [hshuffled, hedge]
        rfl
      · exact absurd hedge (hnot b)

/-- A turn executes at most one step, and none when the loop is at no node. -/
theorem Turn.step_le (h : Turn deps w x t y) : y.step ≤ x.step + (x.here w).toList.length := by
  cases h with
  | idle => exact Nat.le_add_right ..
  | caught => exact Nat.le_add_right ..
  | failed => exact Nat.le_add_right ..
  | passed => exact Nat.le_add_right ..
  | @finished _ status => cases status <;> exact Nat.le_add_right ..
  | refused _ _ _ _ _ x' hx' => rcases hx' with rfl | rfl <;> exact Nat.le_add_right ..
  | skipped => exact Nat.le_add_right ..
  | threw => exact Nat.le_add_right ..
  | executed h =>
    rw [h.here]
    exact le_rfl

/-! ## A run -/

theorem step_le_trail (x : Walk) (ts : List Tick) :
    (x.iterates deps w ts).step ≤ x.step + (trail deps w x ts).length := by
  induction ts generalizing x with
  | nil => exact le_rfl
  | cons t ts ih =>
    have hturn := (turn_iterate deps w x t).step_le
    have hrest := ih (x.iterate deps w t)
    rw [trail, length_append]
    show ((x.iterate deps w t).iterates deps w ts).step ≤ _
    omega

theorem hasNode_of_mem_trail (h : a ∈ trail deps w x ts) : w.doc.hasNode a = true := by
  induction ts generalizing x with
  | nil => exact nomatch h
  | cons t ts ih =>
    rcases mem_append.mp h with h | h
    · exact (here_eq_some.mp (Option.mem_toList.mp h)).2.2
    · exact ih h

/-- A run up to its next draw: the nodes it passes are joined by `undrawn`, and after the draw, if
there is one, fewer members are left. -/
theorem trail_segment (hpins : w.activePins deps = []) (x : Walk) (ts : List Tick) :
    ∃ s y ts', trail deps w x ts = s ++ trail deps w y ts' ∧ s.IsChain (Digraph.Edge w.doc.undrawn) ∧
      (trail deps w y ts' = [] ∨ y.undone w < x.undone w) := by
  induction ts generalizing x with
  | nil => exact ⟨[], x, [], rfl, .nil, .inl rfl⟩
  | cons t ts ih =>
    cases hx : x.here w with
    | none => exact ⟨[], x, t :: ts, rfl, .nil, .inl (trail_of_here hx)⟩
    | some a =>
      have htrail : trail deps w x (t :: ts) = a :: trail deps w (x.iterate deps w t) ts := by
        rw [trail, hx]
        rfl
      rw [htrail]
      cases hy : (x.iterate deps w t).here w with
      | none => exact ⟨[a], _, ts, rfl, .singleton a, .inl (trail_of_here hy)⟩
      | some b =>
        rcases (turn_iterate deps w x t).undrawn_or_draw hpins hx hy with ⟨hmem, hle⟩ | hlt
        · obtain ⟨s, y, ts', hsplit, hchain, hend⟩ := ih (x.iterate deps w t)
          refine ⟨a :: s, y, ts', by rw [hsplit]; rfl, isChain_cons.mpr ⟨fun c hc ↦ ?_, hchain⟩,
            hend.imp_right fun hlt ↦ Nat.lt_of_lt_of_le hlt hle⟩
          have hhead : c ∈ (trail deps w (x.iterate deps w t) ts).head? := by
            rw [hsplit, head?_append, Option.mem_def.mp hc]
            rfl
          cases hy.symm.trans (trail_head c hhead)
          exact hmem
        · exact ⟨[a], _, ts, rfl, .singleton a, .inr hlt⟩

theorem trail_length_le (hpins : w.activePins deps = []) (x : Walk) (ts : List Tick)
    (h : ∀ id ∈ trail deps w x ts, ¬ Path w.doc.undrawn id id) :
    (trail deps w x ts).length ≤ (x.undone w + 1) * w.doc.nodes.length := by
  induction hn : x.undone w using Nat.strong_induction_on generalizing x ts with
  | _ n ih =>
    subst hn
    obtain ⟨s, y, ts', hsplit, hchain, hend⟩ := trail_segment hpins x ts
    rw [hsplit] at h ⊢
    have hnodup : s.Nodup := nodup_of_chain hchain fun v hv ↦ h v (mem_append_left _ hv)
    have hsub : s ⊆ w.doc.ids := by
      intro v hv
      refine WorkflowDoc.mem_ids.mpr (@hasNode_of_mem_trail deps w x ts v ?_)
      rw [hsplit]
      exact mem_append_left _ hv
    have hs : s.length ≤ w.doc.nodes.length := by
      have hle := (subperm_of_subset hnodup hsub).length_le
      rwa [WorkflowDoc.ids, length_map] at hle
    rw [length_append, Nat.add_mul, Nat.one_mul, Nat.add_comm]
    refine Nat.add_le_add ?_ hs
    rcases hend with hnil | hlt
    · rw [hnil]
      exact Nat.zero_le _
    · calc (trail deps w y ts').length
          ≤ (y.undone w + 1) * w.doc.nodes.length :=
            ih _ hlt y ts' (fun v hv ↦ h v (mem_append_right _ hv)) rfl
        _ ≤ x.undone w * w.doc.nodes.length := Nat.mul_le_mul_right _ hlt

/-- **How long a run can get.**  A run without pins whose nodes lie on no cycle of `undrawn` goes
through at most `stepBound` nodes, so it executes at most as many steps; `maxSteps` has no part in
it. -/
theorem steps_le_stepBound (hpins : w.activePins deps = []) (now : Int) (rows : List StepRow)
    (ts : List Tick)
    (h : ∀ id ∈ (w.setup now rows).trail deps w ts, ¬ Path w.doc.undrawn id id) :
    ((w.setup now rows).trail deps w ts).length ≤ w.doc.stepBound ∧
      ((w.setup now rows).iterates deps w ts).step ≤ w.doc.stepBound := by
  have hstart : (w.setup now rows).step = 0 := by
    rw [WorkflowRun.setup]
    dsimp only
    split <;> rfl
  have htrail : ((w.setup now rows).trail deps w ts).length ≤ w.doc.stepBound :=
    (trail_length_le hpins _ ts h).trans
      (Nat.mul_le_mul_right _ (Nat.succ_le_succ undone_le_memberCount))
  have hstep := @step_le_trail deps w (w.setup now rows) ts
  rw [hstart] at hstep
  exact ⟨htrail, by omega⟩

end Walk

/-! ## Round and round -/

namespace Roundabout

/-- The shuffle goes on to its own member. -/
def warmup : ShuffleNode := ⟨["like", "follow"], .const (.num 0), 0, false, some "like"⟩

def shuffle : WorkflowNode := ⟨"warmup", true, .step (.shuffle warmup)⟩

def like : WorkflowNode := ⟨"like", true, .step (.delay ⟨.const (.num 10), 1000, none⟩)⟩

def follow : WorkflowNode := ⟨"follow", true, .step (.delay ⟨.const (.num 10), 1000, none⟩)⟩

def doc (maxSteps : Nat) : WorkflowDoc where
  name := "flow"
  params := []
  entry := "start"
  nodes := [⟨"start", true, .start (some "warmup")⟩, shuffle, like, follow]
  maxSteps := maxSteps
  onFail := none

def run (maxSteps : Nat) : WorkflowRun :=
  Bare.workflow (doc maxSteps) (Bare.run "run" { trigger := .schedule, seed := some 3 })

def turn : Tick := Bare.tick .null

/-- The loop goes round: it is at the shuffle or at one of its members, and no number is used twice. -/
structure Going (maxSteps : Nat) (x : Walk) : Prop where
  threw : x.threw = false
  cursor : ∃ node ∈ [shuffle, like, follow], x.cursor = some node.id
  numbered : x.Numbered (run maxSteps)

/-- From the shuffle and from its members control goes to one of them. -/
theorem handled {maxSteps : Nat} (x : Walk) {node : WorkflowNode}
    (h : node ∈ [shuffle, like, follow]) :
    ∃ n, node.body = .step n ∧ node.enabled = true ∧ (doc maxSteps).node? node.id = some node ∧
      ∃ hd, handle Bare.deps (run maxSteps) x node n turn = .ok hd ∧
        ∃ next ∈ [shuffle, like, follow], hd.goto = some next.id := by
  simp only [mem_cons, not_mem_nil, or_false] at h
  rcases h with rfl | rfl | rfl
  · refine ⟨_, rfl, rfl, rfl, ?_⟩
    have hok : ∃ hd, handle Bare.deps (run maxSteps) x shuffle (.shuffle warmup) turn = .ok hd :=
      ⟨_, if_neg fun h ↦ nomatch h.2⟩
    obtain ⟨hd, hh⟩ := hok
    refine ⟨hd, hh, ?_⟩
    rcases Walk.handle_draw rfl hh with ⟨s, seed, hs, hedge, -, -, hgoto⟩ | ⟨hother, -⟩
    · obtain rfl := StepNode.shuffle.inj hs
      rw [hgoto, hedge, ShuffleStepResult.takenEdge]
      cases hchosen : (computeShuffleStep warmup (Walk.done x.shuffleDone shuffle.id) seed
          (run maxSteps).doc.isEnabled).chosen with
      | none => exact ⟨like, by simp, rfl⟩
      | some m =>
        obtain ⟨hm, -⟩ := mem_remaining.mp (mem_remaining_of_chosen hchosen)
        show ∃ next ∈ _, (doc maxSteps).advance shuffle (.member m) = _
        rw [Walk.advance_member rfl hm]
        rcases mem_pair.mp hm with rfl | rfl
        · exact ⟨like, by simp, rfl⟩
        · exact ⟨follow, by simp, rfl⟩
    · exact absurd rfl (hother warmup)
  · exact ⟨_, rfl, rfl, rfl, _, rfl, shuffle, by simp, rfl⟩
  · exact ⟨_, rfl, rfl, rfl, _, rfl, shuffle, by simp, rfl⟩

/-- Each turn executes a step and goes on. -/
theorem Going.turn {maxSteps : Nat} {x : Walk} (h : Going maxSteps x) (hstep : x.step < maxSteps) :
    Going maxSteps (x.iterate Bare.deps (run maxSteps) Roundabout.turn) ∧
      (x.iterate Bare.deps (run maxSteps) Roundabout.turn).step = x.step + 1 := by
  obtain ⟨node, hmem, hcursor⟩ := h.cursor
  obtain ⟨n, hbody, hon, hnode, hd, hh, next, hnext, hgoto⟩ := handled x hmem
  have hat : x.At (run maxSteps) node := ⟨h.threw, hcursor, hnode, hstep⟩
  have hy : x.iterate Bare.deps (run maxSteps) Roundabout.turn =
      x.executed Bare.deps (run maxSteps) node n Roundabout.turn hd := by
    rw [Walk.iterate_at hat rfl (by decide), Walk.reach, hbody]
    show (if node.enabled then _ else _) = _
    rw [if_pos hon, Walk.execute_of_handled h.numbered.fresh hh]
  rw [hy]
  refine ⟨⟨h.threw, ⟨next, hnext, hgoto⟩, h.numbered.append rfl rfl ?_⟩, rfl⟩
  show x.step + 1 + x.seqOffset = x.step + x.seqOffset + 1
  omega

theorem Going.turns {maxSteps : Nat} {x : Walk} (h : Going maxSteps x) {n : Nat}
    (hn : x.step + n ≤ maxSteps) :
    (x.iterates Bare.deps (run maxSteps) (List.replicate n Roundabout.turn)).step = x.step + n := by
  induction n generalizing x with
  | zero => rfl
  | succ n ih =>
    obtain ⟨hy, hstep⟩ := h.turn (show x.step < maxSteps by omega)
    have hrest := ih hy (by omega)
    rw [hstep] at hrest
    rw [replicate_succ, show x.step + (n + 1) = x.step + 1 + n by omega]
    exact hrest

/-- Nothing the checker says depends on `maxSteps`, as there is no loop to report. -/
theorem silent (maxSteps : Nat) : checkWorkflow (doc maxSteps) (fun _ ↦ none) (.obj []) none = [] := by
  have hcycle : (doc maxSteps).cycleNode = none := show (doc 0).cycleNode = none by decide
  have hloop : loopFindings (doc maxSteps) = [] := by rw [loopFindings, hcycle]
  have hzero : checkWorkflow (doc 0) (fun _ ↦ none) (.obj []) none = [] := by decide
  simp only [checkWorkflow, append_eq_nil_iff] at hzero ⊢
  obtain ⟨⟨⟨⟨⟨⟨⟨hgraph, hreached⟩, hshuffles⟩, -⟩, hbudget⟩, hlatest⟩, hset⟩, hsites⟩ := hzero
  exact ⟨⟨⟨⟨⟨⟨⟨hgraph, hreached⟩, hshuffles⟩, hloop⟩, hbudget⟩, hlatest⟩, hset⟩, hsites⟩

/-- **A run without an end.**  The schema accepts the document and the checker says nothing, but
without `maxSteps` there is no bound on the steps a run executes. -/
theorem unbounded :
    (∀ maxSteps, (doc maxSteps).schemaIssues = [] ∧
      checkWorkflow (doc maxSteps) (fun _ ↦ none) (.obj []) none = []) ∧
    ∀ bound, ∃ maxSteps ts, (run maxSteps).activePins Bare.deps = [] ∧
      bound < (((run maxSteps).setup 0 []).iterates Bare.deps (run maxSteps) ts).step := by
  refine ⟨fun maxSteps ↦ ⟨rfl, silent maxSteps⟩, fun bound ↦ ?_⟩
  let first := ((run (bound + 1)).setup 0 []).iterate Bare.deps (run (bound + 1)) turn
  have hgoing : Going (bound + 1) first :=
    ⟨rfl, ⟨shuffle, by simp, rfl⟩, fun r hr ↦ nomatch hr⟩
  refine ⟨bound + 1, turn :: List.replicate (bound + 1) turn, rfl, ?_⟩
  show bound < (first.iterates Bare.deps (run (bound + 1)) (List.replicate (bound + 1) turn)).step
  rw [hgoing.turns (Nat.le_of_eq (Nat.zero_add _))]
  omega

end Roundabout

/-! ## A run with an end -/

namespace TwoMembers

/-- No way leads from the shuffle back to a member but a draw. -/
theorem undrawn_topological : Topological doc.undrawn ["start", "like", "follow", "warmup"] :=
  .cons (by decide) (by decide) (.cons (by decide) (by decide) (.cons (by decide) (by decide)
    (.cons (by decide) (by decide) .nil)))

/-- Three passes over four nodes, at most, in every run. -/
theorem steps_le : run.activePins Bare.deps = [] ∧
    ∀ ts, ((run.setup 0 []).trail Bare.deps run ts).length ≤ 12 ∧
      ((run.setup 0 []).iterates Bare.deps run ts).step ≤ 12 := by
  refine ⟨rfl, fun ts ↦ ?_⟩
  refine Walk.steps_le_stepBound rfl 0 [] ts fun id hid ↦ undrawn_topological.not_path ?_
  have hnode := WorkflowDoc.mem_ids.mpr (Walk.hasNode_of_mem_trail hid)
  have hsub : doc.ids ⊆ ["start", "like", "follow", "warmup"] := by decide
  exact hsub hnode

end TwoMembers

end Enkaku
