import Enkaku.Lib.Handoff
import Enkaku.Workflow.Attempts
import Enkaku.Workflow.Check

/-!
# The members of a shuffle

A shuffle draws its members one by one and control comes back to it after each of them; once all
have been drawn it leaves by `next`.  A member that is reached through its shuffle's draw is executed
once for it.  But a member is an ordinary node, and nothing keeps another edge — a `next`, an
`onFailure`, a branch — from leading to it: it is executed then too, and control goes back to the
shuffle all the same.

`runs_each_member_once_iff` counts: over a run that has left a shuffle, an enabled member is executed
as often as it was entered by another edge, and once more if the shuffle had it left to draw.
-/

set_option autoImplicit false

namespace Enkaku

open StepRow

open StepTable

/-! ## What the rows say of a member -/

namespace StepRow

/-- The visit of a shuffle that drew the member. -/
def draws (m : String) (r : StepRow) : Bool := r.takenEdge == some (.member m)

/-- The member was executed, not passed over. -/
def executes (m : String) (r : StepRow) : Bool := r.stepId == m && r.status != .skipped

theorem draws_iff {m : String} {r : StepRow} : r.draws m = true ↔ r.takenEdge = some (.member m) :=
  beq_iff_eq

end StepRow

namespace Walk

/-- The rows the loop of this attempt has written. -/
def loopRows (w : WorkflowRun) (x : Walk) : List StepRow :=
  (rowsOf x.rows w.run.id).filter fun r ↦ r.status ≠ .carriedOver

/-- How often the run has executed the member. -/
def executions (w : WorkflowRun) (x : Walk) (m : String) : Nat :=
  (x.loopRows w).countP (StepRow.executes m)

/-- How often the member was executed though no draw led to it. -/
def entered (w : WorkflowRun) (x : Walk) (m : String) : Nat :=
  Handoff.unasked (StepRow.draws m) (StepRow.executes m) false (x.loopRows w)

/-- How often the member's execution was carried over from a run this one resumes. -/
def carried (w : WorkflowRun) (x : Walk) (m : String) : Nat :=
  (rowsOf x.rows w.run.id).countP fun r ↦ r.stepId == m && r.status == .carriedOver

/-- The shuffle has been visited, and left by its `next`. -/
def Left (w : WorkflowRun) (shuffleId : String) (x : Walk) : Prop :=
  ∃ r ∈ x.loopRows w, r.stepId = shuffleId ∧ r.takenEdge = some .next ∧ r.status = .success

instance (w : WorkflowRun) (shuffleId : String) (x : Walk) : Decidable (x.Left w shuffleId) :=
  inferInstanceAs (Decidable (∃ r ∈ x.loopRows w,
    r.stepId = shuffleId ∧ r.takenEdge = some .next ∧ r.status = .success))

/-- Each enabled member has been executed once, in this run or in the part of an earlier one it
resumes; no disabled member has been executed. -/
def RunsEachOnce (w : WorkflowRun) (n : ShuffleNode) (x : Walk) : Prop :=
  ∀ m ∈ n.members,
    (w.doc.isEnabled m = true → x.carried w m + x.executions w m = 1) ∧
    (w.doc.isEnabled m = false → x.executions w m = 0)

variable {deps : OrchestratorDeps} {w : WorkflowRun} {x y : Walk} {t : Tick} {m : String}

theorem loopRows_append {r : StepRow} (hrun : r.runId = w.run.id) (hstatus : r.status ≠ .carriedOver)
    (hrows : y.rows = x.rows ++ [r]) : y.loopRows w = x.loopRows w ++ [r] := by
  have hself : rowsOf [r] w.run.id = [r] := by
    simp [rowsOf, hrun]
  rw [loopRows, hrows, rowsOf_append, hself, List.filter_append, loopRows]
  simp [hstatus]

/-! ## Marks and draws -/

theorem mem_done_markShuffled {shuffleDone : List (String × List String)} {id id' : String}
    {edge : Option Edge} :
    m ∈ done (markShuffled shuffleDone id edge) id' ↔
      m ∈ done shuffleDone id' ∨ (id = id' ∧ edge.bind Edge.member? = some m) := by
  rw [markShuffled]
  cases hmember : edge.bind Edge.member? with
  | none => simp
  | some m' =>
    by_cases hid : id = id'
    · subst hid
      by_cases hin : m' ∈ done shuffleDone id
      · have hyes : (done shuffleDone id).contains m' = true := by simpa using hin
        have hsame : m' = m → m ∈ done shuffleDone id := by
          rintro rfl
          exact hin
        dsimp only
        rw [if_pos hyes, done, OrdMap.get?_set_self]
        simpa using hsame
      · have hne : ¬ (done shuffleDone id).contains m' = true := by simpa using hin
        dsimp only
        rw [if_neg hne, done, OrdMap.get?_set_self]
        simp [eq_comm]
    · simp [done, OrdMap.get?_set_of_ne hid, hid]

/-- The branches of a switch never lead to a member. -/
theorem computeSwitchStep_takenEdge (ev : Evaluator) (n : SwitchNode) (scope : ResolveScope) :
    (computeSwitchStep ev n scope).takenEdge ≠ .member m := by
  rw [computeSwitchStep]
  split <;> exact nofun

theorem takenEdge_eq_member {r : ShuffleStepResult} : r.takenEdge = .member m ↔ r.chosen = some m := by
  rw [ShuffleStepResult.takenEdge]
  cases r.chosen <;> simp

theorem takenEdge_eq_next {r : ShuffleStepResult} : r.takenEdge = .next ↔ r.chosen = none := by
  rw [ShuffleStepResult.takenEdge]
  cases r.chosen <;> simp

/-- The edge of a draw leads to the member drawn. -/
theorem advance_member {doc : WorkflowDoc} {node : WorkflowNode} {s : ShuffleNode}
    (hbody : node.body = .step (.shuffle s)) (hm : m ∈ s.members) :
    doc.advance node (.member m) = some m := by
  have hdirect : successorOf node (.member m) = some m := by
    rw [successorOf, WorkflowNode.step?, hbody]
    show (if s.members.contains m then some m else none) = some m
    rw [if_pos (by simpa using hm)]
  rw [WorkflowDoc.advance, hdirect]

theorem get?_activePins (hpins : w.activePins deps = []) (id : String) :
    OrdMap.get? id (w.activePins deps) = none := by
  rw [hpins]
  rfl

/-- Without a pin only the visit of a shuffle draws a member, and only it marks one. -/
theorem handle_draw {node : WorkflowNode} {n : StepNode} {hd : Handled}
    (hpin : OrdMap.get? node.id (w.activePins deps) = none)
    (h : handle deps w x node n t = .ok hd) :
    (∃ s seed, n = .shuffle s ∧
      hd.takenEdge = some (computeShuffleStep s (done x.shuffleDone node.id) seed
        w.doc.isEnabled).takenEdge ∧
      hd.shuffled = hd.takenEdge ∧ hd.status = .success ∧
      hd.goto = hd.takenEdge.bind (w.doc.advance node)) ∨
    ((∀ s, n ≠ .shuffle s) ∧ hd.shuffled = none ∧ ∀ m, hd.takenEdge ≠ some (.member m)) := by
  unfold handle at h
  rw [hpin] at h
  cases n with
  | shuffle s =>
    obtain ⟨betweenMs, rfl⟩ := handleShuffle_ok h
    exact .inl ⟨s, _, rfl, rfl, rfl, rfl, rfl⟩
  | gate n =>
    cases h
    refine .inr ⟨by simp, rfl, fun m he ↦ ?_⟩
    have he' : (computeGateStep deps.evaluate n (scopeAt deps w x t x.seq)).takenEdge = .member m :=
      Option.some.inj he
    rw [computeGateStep] at he'
    dsimp only at he'
    split at he' <;> cases he'
  | switch n =>
    cases h
    exact .inr ⟨by simp, rfl, fun m he ↦
      computeSwitchStep_takenEdge _ _ _ (Option.some.inj he)⟩
  | delay n =>
    dsimp only [handleDelay] at h
    split_ifs at h
    cases h
    exact .inr ⟨by simp, rfl, by simp [controlStep]⟩
  | set n =>
    cases h
    refine .inr ⟨by simp, ?_⟩
    rw [handleSet]
    split <;> exact ⟨rfl, by simp⟩
  | script n =>
    dsimp only [handleScript] at h
    split at h
    · cases h
    · cases h
      exact .inr ⟨by simp, rfl, by simp [handleScriptOk]⟩
    · cases h
      refine .inr ⟨by simp, rfl, fun m he ↦ ?_⟩
      rw [handleScriptFailed] at he
      dsimp only at he
      split at he <;> cases he

theorem running_caught {err : Thrown} : (x.caught t err).running = false := Bool.and_false _

theorem running_insertRefused {e : StoreError} : (x.insertRefused t e).running = false :=
  Bool.and_false _

/-! ## One member through a turn -/

/-- What the rows and the memory of a run say of one member of a shuffle; `drawn` are the members the
shuffle had marked when the loop began. -/
structure Tracks (w : WorkflowRun) (shuffleId m : String) (drawn : List String) (x : Walk) : Prop where
  /-- A draw is followed by the member's execution. -/
  taken : Handoff.Taken (StepRow.draws m) (StepRow.executes m) false (x.loopRows w)
  /-- After a draw, control is at the member. -/
  pending : Handoff.pending (StepRow.draws m) false (x.loopRows w) = true → x.running = true →
    x.cursor = some m
  marked : m ∈ done x.shuffleDone shuffleId ↔
    m ∈ drawn ∨ 0 < (x.loopRows w).countP (StepRow.draws m)
  once : (x.loopRows w).countP (StepRow.draws m) + (if m ∈ drawn then 1 else 0) ≤ 1
  /-- A shuffle that has been left has drawn the member, and the member's turn is over. -/
  left : x.Left w shuffleId → m ∈ done x.shuffleDone shuffleId ∧
    Handoff.pending (StepRow.draws m) false (x.loopRows w) = false

variable {shuffleId : String} {drawn : List String}

/-- A turn that writes no row keeps what is said, if control stays at a member just drawn. -/
theorem Tracks.of_rows (h : Tracks w shuffleId m drawn x) (hrows : y.rows = x.rows)
    (hdone : y.shuffleDone = x.shuffleDone)
    (hcursor : (x.running = true → x.cursor = some m) → y.running = true → y.cursor = some m) :
    Tracks w shuffleId m drawn y := by
  have hsame : y.loopRows w = x.loopRows w := by rw [loopRows, hrows, loopRows]
  refine ⟨?_, fun hp ↦ ?_, ?_, ?_, ?_⟩
  · rw [hsame]
    exact h.taken
  · rw [hsame] at hp
    exact hcursor (h.pending hp)
  · rw [hsame, hdone]
    exact h.marked
  · rw [hsame]
    exact h.once
  · rw [Left, hsame, hdone]
    exact h.left

/-- A row that does not draw the member. -/
theorem Tracks.append (h : Tracks w shuffleId m drawn x) {r : StepRow} (hrun : r.runId = w.run.id)
    (hstatus : r.status ≠ .carriedOver) (hrows : y.rows = x.rows ++ [r])
    (htake : Handoff.pending (draws m) false (x.loopRows w) = true → r.executes m = true)
    (hdraw : r.draws m = false)
    (hdone : m ∈ done y.shuffleDone shuffleId ↔ m ∈ done x.shuffleDone shuffleId)
    (hleft : r.stepId = shuffleId → r.takenEdge = some .next → r.status = .success →
      m ∈ done x.shuffleDone shuffleId) : Tracks w shuffleId m drawn y := by
  have hloop := loopRows_append hrun hstatus hrows
  have hcount : (y.loopRows w).countP (draws m) =
      (x.loopRows w).countP (draws m) := by
    rw [hloop, List.countP_append, List.countP_singleton, hdraw]
    rfl
  have hpending : Handoff.pending (draws m) false (y.loopRows w) = false := by
    rw [hloop, Handoff.pending_append_singleton, hdraw]
  refine ⟨?_, fun hp ↦ ?_, ?_, ?_, ?_⟩
  · rw [hloop, Handoff.taken_append_singleton]
    exact ⟨h.taken, htake⟩
  · rw [hpending] at hp
    exact nomatch hp
  · rw [hdone, hcount]
    exact h.marked
  · rw [hcount]
    exact h.once
  · rintro ⟨r', hr', hid, hedge, hsuccess⟩
    refine ⟨hdone.mpr ?_, hpending⟩
    rw [hloop] at hr'
    rcases List.mem_append.mp hr' with hr' | hr'
    · exact (h.left ⟨r', hr', hid, hedge, hsuccess⟩).1
    · obtain rfl := List.mem_singleton.mp hr'
      exact hleft hid hedge hsuccess

/-- The row of the visit that draws the member. -/
theorem Tracks.draw (h : Tracks w shuffleId m drawn x) {r : StepRow} (hrun : r.runId = w.run.id)
    (hstatus : r.status ≠ .carriedOver) (hrows : y.rows = x.rows ++ [r])
    (htake : Handoff.pending (draws m) false (x.loopRows w) = true → r.executes m = true)
    (hdraw : r.draws m = true) (hnew : m ∉ done x.shuffleDone shuffleId)
    (hdone : m ∈ done y.shuffleDone shuffleId) (hcursor : y.cursor = some m) :
    Tracks w shuffleId m drawn y := by
  have hloop := loopRows_append hrun hstatus hrows
  have hcount : (y.loopRows w).countP (draws m) =
      (x.loopRows w).countP (draws m) + 1 := by
    rw [hloop, List.countP_append, List.countP_singleton, hdraw]
    rfl
  have hnone := mt h.marked.mpr hnew
  push Not at hnone
  obtain ⟨hdrawn, hzero⟩ := hnone
  refine ⟨?_, fun _ _ ↦ hcursor, iff_of_true hdone (.inr ?_), ?_, ?_⟩
  · rw [hloop, Handoff.taken_append_singleton]
    exact ⟨h.taken, htake⟩
  · omega
  · rw [hcount, if_neg hdrawn]
    omega
  · rintro ⟨r', hr', hid, hedge, hsuccess⟩
    rw [hloop] at hr'
    rcases List.mem_append.mp hr' with hr' | hr'
    · exact absurd (h.left ⟨r', hr', hid, hedge, hsuccess⟩).1 hnew
    · obtain rfl := List.mem_singleton.mp hr'
      rw [draws_iff.mp hdraw] at hedge
      exact nomatch hedge

/-- **A turn keeps what the rows and the memory say of a member**, in a clean document and without
pins. -/
theorem Turn.tracks (h : Turn deps w x t y) (hclean : w.doc.Clean) (hpins : w.activePins deps = [])
    {node : WorkflowNode} {n : ShuffleNode} (hnode : w.doc.node? node.id = some node)
    (hbody : node.body = .step (.shuffle n)) (hm : m ∈ n.members) (hon : w.doc.isEnabled m = true)
    (hx : Tracks w node.id m drawn x) : Tracks w node.id m drawn y := by
  have hmember : m ∈ node.members := WorkflowNode.mem_members.mpr ⟨n, hbody, hm⟩
  -- Where control is at the member, the node is a step, and enabled.
  have hat_member : ∀ {nd : WorkflowNode}, x.At w nd → (x.running = true → x.cursor = some m) →
      nd.id = m ∧ nd.enabled = true ∧ ∃ s, nd.body = .step s := by
    intro nd hat hcursor
    have hid : nd.id = m := Option.some.inj (hat.cursor.symm.trans (hcursor hat.running))
    have hnd := hat.node
    rw [hid] at hnd
    refine ⟨hid, ?_, hclean.member_step (WorkflowDoc.mem_of_node? hnode) hmember hnd⟩
    rw [WorkflowDoc.isEnabled, hnd] at hon
    exact hon
  cases h with
  | idle => exact hx
  | caught => exact hx.of_rows rfl rfl fun _ hrun ↦ absurd (running_caught.symm.trans hrun) (by simp)
  | failed => exact hx.of_rows rfl rfl fun _ hrun ↦ by simp [running, fail] at hrun
  | passed hat hb =>
    refine hx.of_rows rfl rfl fun hcursor _ ↦ ?_
    obtain ⟨-, -, s, hs⟩ := hat_member hat hcursor
    rw [hb] at hs
    cases hs
  | @finished nd status message hat hb =>
    have hcursor : (x.running = true → x.cursor = some m) →
        (x.finish nd status message).running = true →
        (x.finish nd status message).cursor = some m := by
      intro hcursor _
      obtain ⟨-, -, s, hs⟩ := hat_member hat hcursor
      rw [hb] at hs
      cases hs
    cases status <;> exact hx.of_rows rfl rfl hcursor
  | refused hat hb hab htotal hkey x' hx' =>
    rcases hx' with rfl | rfl <;>
      exact hx.of_rows rfl rfl fun _ hrun ↦ absurd (running_insertRefused.symm.trans hrun) (by simp)
  | @skipped nd s hat hb hoff hkey =>
    refine hx.append rfl ?_ rfl (fun hp ↦ ?_) rfl Iff.rfl fun _ _ hsuccess ↦ ?_
    · intro hdraws
      cases hdraws
    · obtain ⟨-, hyes, -⟩ := hat_member hat (hx.pending hp)
      rw [hoff] at hyes
      cases hyes
    · cases (show StepStatus.skipped = .success from hsuccess)
  | @threw nd s hat hb hnd hkey err herr =>
    refine hx.append rfl ?_ rfl (fun hp ↦ ?_) rfl Iff.rfl fun _ _ hsuccess ↦ ?_
    · intro hdraws
      cases hdraws
    · obtain ⟨hid, -⟩ := hat_member hat (hx.pending hp)
      simp [executes, runningRow, hid]
    · cases (show StepStatus.running = .success from hsuccess)
  | @executed nd s hat hb hnd hkey hd hh =>
    have hstatus := handle_status hh
    have htake : Handoff.pending (draws m) false (x.loopRows w) = true →
        (handledRow hd t (x.runningRow deps w nd s t)).executes m = true := by
      intro hp
      obtain ⟨hid, -⟩ := hat_member hat (hx.pending hp)
      simp [executes, handledRow, runningRow, hid, hstatus.2]
    have hmarked : m ∈ done (x.executed deps w nd s t hd).shuffleDone node.id ↔
        m ∈ done x.shuffleDone node.id ∨
          (nd.id = node.id ∧ hd.shuffled.bind Edge.member? = some m) := mem_done_markShuffled
    have hsame : nd.id = node.id → nd = node := by
      intro hid
      have hnd' := hat.node
      rw [hid, hnode] at hnd'
      exact (Option.some.inj hnd').symm
    rcases handle_draw (get?_activePins hpins _) hh with ⟨s', seed, rfl, hedge, hshuffled, hsuccess, hgoto⟩ |
      ⟨hother, hshuffled, hnot⟩
    · by_cases hdraw : hd.takenEdge = some (.member m)
      · rw [hdraw] at hedge
        have hchosen := takenEdge_eq_member.mp (Option.some.inj hedge).symm
        obtain ⟨hms, hnew, -⟩ := mem_remaining.mp (mem_remaining_of_chosen hchosen)
        have howner := hclean.owner_unique (WorkflowDoc.mem_of_node? hat.node)
          (WorkflowDoc.mem_of_node? hnode) (WorkflowNode.mem_members.mpr ⟨s', hb, hms⟩) hmember
        rw [howner] at hnew
        refine hx.draw rfl hstatus.1 rfl htake (draws_iff.mpr hdraw) hnew ?_ ?_
        · refine hmarked.mpr (.inr ⟨congrArg _ howner, ?_⟩)
          rw [hshuffled, hdraw]
          rfl
        · show hd.goto = some m
          rw [hgoto, hdraw]
          exact advance_member hb hms
      · have hunmarked : hd.shuffled.bind Edge.member? ≠ some m := by
          rw [hshuffled, hedge]
          intro he
          refine hdraw ?_
          rw [hedge, ShuffleStepResult.takenEdge]
          cases hchosen : (computeShuffleStep s' (done x.shuffleDone nd.id) seed
              w.doc.isEnabled).chosen with
          | none =>
            rw [ShuffleStepResult.takenEdge, hchosen] at he
            cases he
          | some m' =>
            rw [ShuffleStepResult.takenEdge, hchosen] at he
            rw [show m' = m from Option.some.inj he]
        refine hx.append rfl hstatus.1 rfl htake ?_ ?_ fun hid hnext _ ↦ ?_
        · rw [Bool.eq_false_iff]
          exact fun hd' ↦ hdraw (draws_iff.mp hd')
        · rw [hmarked, or_iff_left fun h ↦ hunmarked h.2]
        · obtain rfl := hsame hid
          obtain rfl : s' = n := by
            rw [hb] at hbody
            injection hbody with hbody
            injection hbody
          have hnext' : hd.takenEdge = some .next := hnext
          rw [hedge] at hnext'
          have hempty := chosen_eq_none_iff.mp (takenEdge_eq_next.mp (Option.some.inj hnext'))
          by_contra hnew
          have hleft := mem_remaining.mpr ⟨hm, hnew, hon⟩
          rw [hempty] at hleft
          exact List.not_mem_nil hleft
    · refine hx.append rfl hstatus.1 rfl htake ?_ ?_ fun hid _ _ ↦ ?_
      · rw [Bool.eq_false_iff]
        exact fun hd' ↦ hnot m (draws_iff.mp hd')
      · rw [hmarked, hshuffled]
        simp
      · obtain rfl := hsame hid
        rw [hb] at hbody
        injection hbody with hbody
        exact absurd hbody (hother n)

/-- A turn carries nothing over, and executes enabled nodes only. -/
theorem Turn.row (h : Turn deps w x t y) : y.rows = x.rows ∨
    ∃ r, r.runId = w.run.id ∧ r.status ≠ .carriedOver ∧
      (r.status ≠ .skipped → w.doc.isEnabled r.stepId = true) ∧ y.rows = x.rows ++ [r] := by
  have henabled : ∀ {nd : WorkflowNode}, x.At w nd → nd.enabled = true →
      w.doc.isEnabled nd.id = true := by
    intro nd hat hon
    rw [WorkflowDoc.isEnabled, hat.node]
    exact hon
  cases h with
  | idle => exact .inl rfl
  | caught => exact .inl rfl
  | failed => exact .inl rfl
  | passed => exact .inl rfl
  | @finished _ status =>
    left
    cases status <;> rfl
  | refused hat hb hab htotal hkey x' hx' =>
    left
    rcases hx' with rfl | rfl <;> rfl
  | skipped hat hb hoff hkey =>
    refine .inr ⟨_, rfl, ?_, fun hne ↦ absurd rfl hne, rfl⟩
    exact nofun
  | threw hat hb hon hkey herr =>
    refine .inr ⟨_, rfl, ?_, fun _ ↦ henabled hat hon, rfl⟩
    exact nofun
  | executed hat hb hon hkey hh =>
    exact .inr ⟨_, rfl, (handle_status hh).1, fun _ ↦ henabled hat hon, rfl⟩

theorem Turn.carried (h : Turn deps w x t y) (m : String) : y.carried w m = x.carried w m := by
  rcases h.row with hrows | ⟨r, hrun, hstatus, -, hrows⟩
  · rw [Walk.carried, hrows, Walk.carried]
  · have hself : rowsOf [r] w.run.id = [r] := by
      simp [rowsOf, hrun]
    rw [Walk.carried, hrows, rowsOf_append, hself, List.countP_append, Walk.carried]
    simp [hstatus]

/-- Every node the loop executed is enabled. -/
def OnlyEnabled (w : WorkflowRun) (x : Walk) : Prop :=
  ∀ r ∈ x.loopRows w, r.status ≠ .skipped → w.doc.isEnabled r.stepId = true

theorem Turn.onlyEnabled (h : Turn deps w x t y) (hx : x.OnlyEnabled w) : y.OnlyEnabled w := by
  rcases h.row with hrows | ⟨r, hrun, hstatus, hon, hrows⟩
  · rw [OnlyEnabled, loopRows, hrows]
    exact hx
  · intro r' hr' hne
    rw [loopRows_append hrun hstatus hrows] at hr'
    rcases List.mem_append.mp hr' with hr' | hr'
    · exact hx r' hr' hne
    · obtain rfl := List.mem_singleton.mp hr'
      exact hon hne

theorem OnlyEnabled.executions_eq (hx : x.OnlyEnabled w) (hoff : w.doc.isEnabled m = false) :
    x.executions w m = 0 := by
  rw [executions, List.countP_eq_zero]
  intro r hr he
  rw [executes, Bool.and_eq_true, beq_iff_eq, bne_iff_ne] at he
  have hon := hx r hr he.2
  rw [he.1, hoff] at hon
  exact nomatch hon

/-! ## Whole runs -/

/-- Before its first turn the loop has written nothing. -/
theorem loopRows_setup {rows : List StepRow} (now : Int) (hnew : rowsOf rows w.run.id = []) :
    (w.setup now rows).loopRows w = [] := by
  obtain ⟨hrows, -⟩ := setup_copied now fun _ ↦ hnew
  rw [loopRows, hrows, rowsOf_append, hnew, List.nil_append, List.filter_eq_nil_iff]
  intro r hr
  have hcarried := (mem_copies (mem_rowsOf.mp hr).1).2.2
  simp [hcarried]

theorem tracks_setup {rows : List StepRow} (now : Int) (hnew : rowsOf rows w.run.id = [])
    (shuffleId m : String) :
    Tracks w shuffleId m (done (w.setup now rows).shuffleDone shuffleId) (w.setup now rows) := by
  have hnone := loopRows_setup now hnew
  refine ⟨?_, fun hp ↦ ?_, ?_, ?_, ?_⟩
  · rw [hnone]
    exact trivial
  · rw [hnone] at hp
    exact nomatch hp
  · simp [hnone]
  · rw [hnone]
    split <;> simp
  · rintro ⟨r, hr, -⟩
    rw [hnone] at hr
    exact nomatch hr

section Run

variable {rows : List StepRow} {now : Int} {ts : List Tick} {node : WorkflowNode} {n : ShuffleNode}

/-- A shuffle that has been left has had each enabled member executed once for its draw, if it had
it left to draw, and once for every other entry. -/
theorem executions_eq (hclean : w.doc.Clean) (hpins : w.activePins deps = [])
    (hnew : rowsOf rows w.run.id = []) (hnode : w.doc.node? node.id = some node)
    (hbody : node.body = .step (.shuffle n)) (hm : m ∈ n.members) (hon : w.doc.isEnabled m = true)
    (hleft : ((w.setup now rows).iterates deps w ts).Left w node.id) :
    ((w.setup now rows).iterates deps w ts).executions w m =
      ((w.setup now rows).iterates deps w ts).entered w m +
        (if m ∈ done (w.setup now rows).shuffleDone node.id then 0 else 1) := by
  have htracks : Tracks w node.id m (done (w.setup now rows).shuffleDone node.id)
      ((w.setup now rows).iterates deps w ts) :=
    iterates_invariant (tracks_setup now hnew node.id m) fun x t hx ↦
      (turn_iterate deps w x t).tracks hclean hpins hnode hbody hm hon hx
  obtain ⟨hdone, hpending⟩ := htracks.left hleft
  have hcount := Handoff.countP_takes htracks.taken
  rw [hpending] at hcount
  have honce := htracks.once
  have hmarked := htracks.marked.mp hdone
  rw [executions, entered]
  split_ifs at honce ⊢ with hdrawn
  · simp only [Bool.toNat_false] at hcount
    omega
  · have hpos := hmarked.resolve_left hdrawn
    simp only [Bool.toNat_false] at hcount
    omega

/-- **When a shuffle runs each of its members once.**  Take a run over a clean document, without
pins, that has left the shuffle by its `next`.  Every enabled member has been executed exactly once
and no disabled one has, if and only if for every enabled member these add up to one: the times it
was carried over, the times it was entered by another edge than the shuffle's draw, and the draw
the shuffle had left when the run began. -/
theorem runs_each_member_once_iff (hclean : w.doc.Clean) (hpins : w.activePins deps = [])
    (hnew : rowsOf rows w.run.id = []) (hnode : w.doc.node? node.id = some node)
    (hbody : node.body = .step (.shuffle n))
    (hleft : ((w.setup now rows).iterates deps w ts).Left w node.id) :
    RunsEachOnce w n ((w.setup now rows).iterates deps w ts) ↔
      ∀ m ∈ n.members, w.doc.isEnabled m = true →
        (w.setup now rows).carried w m + ((w.setup now rows).iterates deps w ts).entered w m +
          (if m ∈ done (w.setup now rows).shuffleDone node.id then 0 else 1) = 1 := by
  have henabled : ((w.setup now rows).iterates deps w ts).OnlyEnabled w := by
    refine iterates_invariant ?_ fun x t hx ↦ (turn_iterate deps w x t).onlyEnabled hx
    intro r hr
    rw [loopRows_setup now hnew] at hr
    exact nomatch hr
  have hcarried : ∀ m, ((w.setup now rows).iterates deps w ts).carried w m =
      (w.setup now rows).carried w m := fun m ↦
    iterates_invariant (I := fun x ↦ x.carried w m = (w.setup now rows).carried w m) rfl
      fun x t hx ↦ ((turn_iterate deps w x t).carried m).trans hx
  refine forall₂_congr fun m hm ↦ ?_
  rw [and_iff_left henabled.executions_eq]
  refine forall_congr' fun hon ↦ ?_
  rw [hcarried, executions_eq hclean hpins hnew hnode hbody hm hon hleft, Nat.add_assoc]

end Run

end Walk

/-! ## Two members, one the other's `onFailure` -/

namespace TwoMembers

def warmup : ShuffleNode := ⟨["like", "follow"], .const (.num 0), 0, false, none⟩

def shuffle : WorkflowNode := ⟨"warmup", true, .step (.shuffle warmup)⟩

/-- Control leaves `like` for `follow` when `like` fails; both are members of `warmup`. -/
def doc : WorkflowDoc where
  name := "flow"
  params := []
  entry := "start"
  nodes :=
    [⟨"start", true, .start (some "warmup")⟩,
      shuffle,
      ⟨"like", true, .step (.script ⟨"like@1", [], none, some "follow"⟩)⟩,
      ⟨"follow", true, .step (.script ⟨"follow@1", [], none, none⟩)⟩]
  maxSteps := 50
  onFail := none

/-- With this seed `like` is drawn first. -/
def run : WorkflowRun :=
  Bare.workflow doc (Bare.run "run" { trigger := .schedule, seed := some 3 })

def succeeds : Tick := Bare.tick .null

def fails : Tick :=
  { Bare.tick .null with
    child := .settled { Bare.run "child" { trigger := .workflowStep } with
                        status := .failed
                        error := some "no such screen" } }

theorem doc_clean : doc.Clean := ⟨rfl, by decide⟩

/-- The run after its turns: the start, the draw of `like`, `like` itself, and so on. -/
def after (ticks : List Tick) : Walk := (run.setup 0 []).iterates Bare.deps run ticks

/-- `like` fails, so control goes to `follow`, and from there back to the shuffle. -/
def failing : Walk := after [succeeds, succeeds, fails, succeeds, succeeds, succeeds, succeeds]

def succeeding : Walk := after (List.replicate 6 succeeds)

/-- **A member executed twice**: `follow` runs for the failure of `like`, then the shuffle draws it
as well. -/
theorem follow_runs_twice : doc.Clean ∧ run.activePins Bare.deps = [] ∧
    failing.Left run "warmup" ∧ failing.executions run "follow" = 2 ∧
    ¬ Walk.RunsEachOnce run warmup failing := by
  have htwice : failing.executions run "follow" = 2 := by decide +kernel
  refine ⟨doc_clean, rfl, by decide +kernel, htwice, fun h ↦ ?_⟩
  have honce := (h "follow" (by decide)).1 rfl
  omega

/-- Where nothing fails each member runs once. -/
theorem runs_each_member_once_succeeding : Walk.RunsEachOnce run warmup succeeding :=
  (Walk.runs_each_member_once_iff doc_clean rfl rfl
    (show run.doc.node? shuffle.id = some shuffle from rfl) rfl (by decide +kernel)).mpr
    (by decide +kernel)

end TwoMembers

end Enkaku
