import Enkaku.Workflow.Executor

/-!
# Turns of the cursor loop

`Walk.Turn` lists everything one turn of the executor's loop can do, with the condition each
possibility is taken under; `Walk.turn_iterate` says that `iterate` does one of them.  The
invariants of the later modules are case analyses of it.

What every turn keeps is here too: the rows of the table and the visits of the walk are only ever
appended to, a turn writes at most one row, and that row is numbered by the counter.
-/

set_option autoImplicit false

namespace Enkaku

open StepTable
namespace Walk

variable {deps : OrchestratorDeps} {w : WorkflowRun} {x y : Walk} {t : Tick} {ts : List Tick}

/-! ## What a turn can do -/

/-- The loop is at a node, within the step budget. -/
structure At (w : WorkflowRun) (x : Walk) (node : WorkflowNode) : Prop where
  threw : x.threw = false
  cursor : x.cursor = some node.id
  node : w.doc.node? node.id = some node
  budget : x.step < w.doc.maxSteps

variable {node : WorkflowNode}

theorem At.running (h : x.At w node) : x.running = true := by
  rw [Walk.running, h.cursor, h.threw]
  rfl

/-- The state after a step was inserted, handled and recorded. -/
def executed (deps : OrchestratorDeps) (w : WorkflowRun) (x : Walk) (node : WorkflowNode)
    (n : StepNode) (t : Tick) (h : Handled) : Walk :=
  { (x.count node.id).record deps w node t h with
    rows := x.rows ++ [handledRow h t (x.runningRow deps w node n t)] }

/-- The state when handling a step has thrown: its row stands as it was inserted. -/
def interrupted (deps : OrchestratorDeps) (w : WorkflowRun) (x : Walk) (node : WorkflowNode)
    (n : StepNode) (t : Tick) (err : Thrown) : Walk :=
  { x.count node.id with rows := x.rows ++ [x.runningRow deps w node n t] }.caught t err

/-- The row that logs a node passed over. -/
def passedRow (w : WorkflowRun) (x : Walk) (node : WorkflowNode) (n : StepNode) (t : Tick) :
    StepRow :=
  skippedRow w.run.id x.seq node n (some (toSec t.startedAt)) (some .next)

/-- Everything one turn can do. -/
inductive Turn (deps : OrchestratorDeps) (w : WorkflowRun) (x : Walk) (t : Tick) : Walk → Prop
  | idle (h : x.running = false) : Turn deps w x t x
  | caught (h : x.running = true) (hab : t.abortedBefore = true) :
      Turn deps w x t (x.caught t t.reason)
  | failed (h : x.running = true) (code message : String)
      (hwhy : deps.maxTotalMs < t.elapsedMs ∨ w.doc.maxSteps ≤ x.step ∨
        x.step < w.doc.maxSteps ∧ ∃ c, x.cursor = some c ∧ w.doc.node? c = none) :
      Turn deps w x t (x.fail code message)
  | passed {node : WorkflowNode} {next : Option String} (h : x.At w node)
      (hb : node.body = .start next) : Turn deps w x t { x with cursor := next }
  | finished {node : WorkflowNode} {status : FinishStatus} {message : String} (h : x.At w node)
      (hb : node.body = .finish status message) : Turn deps w x t (x.finish node status message)
  | refused {node : WorkflowNode} {n : StepNode} (h : x.At w node) (hb : node.body = .step n)
      (hab : t.abortedBefore = false) (htotal : t.elapsedMs ≤ deps.maxTotalMs)
      (hkey : (w.run.id, x.seq) ∈ x.rows.map StepTable.key) (x' : Walk)
      (hx' : x' = x ∨ x' = x.count node.id) :
      Turn deps w x t (x'.insertRefused t StepTable.refused)
  | skipped {node : WorkflowNode} {n : StepNode} (h : x.At w node) (hb : node.body = .step n)
      (hoff : node.enabled = false) (hkey : (w.run.id, x.seq) ∉ x.rows.map StepTable.key) :
      Turn deps w x t (x.passOver w node n t (x.rows ++ [x.passedRow w node n t]))
  | threw {node : WorkflowNode} {n : StepNode} (h : x.At w node) (hb : node.body = .step n)
      (hon : node.enabled = true) (hkey : (w.run.id, x.seq) ∉ x.rows.map StepTable.key)
      {err : Thrown} (herr : handle deps w x node n t = .error err) :
      Turn deps w x t (x.interrupted deps w node n t err)
  | executed {node : WorkflowNode} {n : StepNode} (h : x.At w node) (hb : node.body = .step n)
      (hon : node.enabled = true) (hkey : (w.run.id, x.seq) ∉ x.rows.map StepTable.key)
      {hd : Handled} (hh : handle deps w x node n t = .ok hd) :
      Turn deps w x t (x.executed deps w node n t hd)

/-- Handling reads neither the table nor the counts. -/
theorem handle_count (node : WorkflowNode) (n : StepNode) (rows : List StepRow) :
    handle deps w { x.count node.id with rows := rows } node n t = handle deps w x node n t := rfl

variable {hd : Handled} {n : StepNode}

section

variable (hkey : (w.run.id, x.seq) ∉ x.rows.map StepTable.key)
include hkey

/-- A step whose row goes in and whose handling succeeds. -/
theorem execute_of_handled (hh : handle deps w x node n t = .ok hd) :
    x.execute deps w node n t = x.executed deps w node n t hd := by
  have hins : insert x.rows (x.runningRow deps w node n t) =
      .ok (x.rows ++ [x.runningRow deps w node n t]) := insert_of_fresh hkey
  have hrow := update_append_of_fresh (r := x.runningRow deps w node n t)
    (f := handledRow hd t) hkey
  have hrec : ({ x.count node.id with rows := x.rows ++ [x.runningRow deps w node n t] } :
      Walk).record deps w node t hd = x.executed deps w node n t hd := by
    rw [executed, record, record]
    simp only [Walk.mk.injEq, true_and]
    exact ⟨hrow, rfl⟩
  rw [execute, hins]
  dsimp only
  rw [handle_count, hh]
  exact hrec

/-- A step whose row goes in and whose handling throws. -/
theorem execute_of_thrown {err : Thrown} (herr : handle deps w x node n t = .error err) :
    x.execute deps w node n t = x.interrupted deps w node n t err := by
  have hins : insert x.rows (x.runningRow deps w node n t) =
      .ok (x.rows ++ [x.runningRow deps w node n t]) := insert_of_fresh hkey
  rw [execute, hins]
  dsimp only
  rw [handle_count, herr]
  rfl

/-- A node passed over, when its row goes in. -/
theorem skip_of_fresh :
    x.skip w node n t = x.passOver w node n t (x.rows ++ [x.passedRow w node n t]) := by
  have hins : insert x.rows (x.passedRow w node n t) =
      .ok (x.rows ++ [x.passedRow w node n t]) := insert_of_fresh hkey
  rw [passedRow] at hins ⊢
  rw [skip, hins]

end

theorem turn_execute (h : x.At w node) (hb : node.body = .step n) (hab : t.abortedBefore = false)
    (htotal : t.elapsedMs ≤ deps.maxTotalMs) (hon : node.enabled = true) :
    Turn deps w x t (x.execute deps w node n t) := by
  by_cases hkey : (w.run.id, x.seq) ∈ x.rows.map StepTable.key
  · have hins : insert x.rows (x.runningRow deps w node n t) =
        .error refused := insert_eq_error_iff.mpr ⟨hkey, rfl⟩
    rw [execute, hins]
    exact .refused h hb hab htotal hkey _ (.inr rfl)
  · cases hh : handle deps w x node n t with
    | error err =>
      rw [execute_of_thrown hkey hh]
      exact .threw h hb hon hkey hh
    | ok hd =>
      rw [execute_of_handled hkey hh]
      exact .executed h hb hon hkey hh

theorem turn_skip (h : x.At w node) (hb : node.body = .step n) (hab : t.abortedBefore = false)
    (htotal : t.elapsedMs ≤ deps.maxTotalMs) (hoff : node.enabled = false) :
    Turn deps w x t (x.skip w node n t) := by
  by_cases hkey : (w.run.id, x.seq) ∈ x.rows.map StepTable.key
  · have hins : insert x.rows (x.passedRow w node n t) = .error refused :=
      insert_eq_error_iff.mpr ⟨hkey, rfl⟩
    rw [passedRow] at hins
    rw [skip, hins]
    exact .refused h hb hab htotal hkey _ (.inl rfl)
  · rw [skip_of_fresh hkey]
    exact .skipped h hb hoff hkey

/-- A loop that is at a node reaches it, unless it is aborted or out of time. -/
theorem iterate_at (h : x.At w node) (hab : t.abortedBefore = false)
    (htotal : t.elapsedMs ≤ deps.maxTotalMs) : x.iterate deps w t = x.reach deps w node t := by
  rw [iterate, h.cursor, h.threw]
  dsimp only
  rw [hab, if_neg (by simp), if_neg (Int.not_lt.mpr htotal), if_neg (Nat.not_le.mpr h.budget), h.node]

/-- **A turn of the loop does one of the listed things.** -/
theorem turn_iterate (deps : OrchestratorDeps) (w : WorkflowRun) (x : Walk) (t : Tick) :
    Turn deps w x t (x.iterate deps w t) := by
  rw [iterate]
  split
  next cursor hc ht =>
    have hrun : x.running = true := by
      rw [running, hc, ht]
      rfl
    split_ifs with hab htotal hsteps
    · exact .caught hrun hab
    · exact .failed hrun _ _ (.inl htotal)
    · exact .failed hrun _ _ (.inr (.inl hsteps))
    · have hlt : x.step < w.doc.maxSteps := Nat.lt_of_not_le hsteps
      have hab' : t.abortedBefore = false := by simpa using hab
      have htotal' : t.elapsedMs ≤ deps.maxTotalMs := Int.not_lt.mp htotal
      cases hnode : w.doc.node? cursor with
      | none => exact .failed hrun _ _ (.inr (.inr ⟨hlt, cursor, hc, hnode⟩))
      | some node =>
        have hid := WorkflowDoc.id_of_node? hnode
        have hat : x.At w node := ⟨ht, by rw [hc, hid], by rw [hid, hnode], hlt⟩
        show Turn deps w x t (x.reach deps w node t)
        rw [reach]
        split
        next next hb => exact .passed hat hb
        next status message hb => exact .finished hat hb
        next n hb =>
          split_ifs with hon
          · exact turn_execute hat hb hab' htotal' hon
          · exact turn_skip hat hb hab' htotal' (by simpa using hon)
  next hne =>
    refine .idle ?_
    rw [running]
    cases hc : x.cursor with
    | none => rfl
    | some c =>
      cases ht : x.threw with
      | true => rfl
      | false => exact absurd ht (hne c hc)

/-! ## What handling comes to -/

/-- What a shuffle's visit comes to, when its wait is not interrupted. -/
theorem handleShuffle_ok {n : ShuffleNode} {done : List String} {scope : ResolveScope}
    (h : handleShuffle deps w node n done scope t = .ok hd) :
    ∃ betweenMs, hd =
      { controlStep w node (computeShuffleStep n done scope.randomSeed w.doc.isEnabled).takenEdge
          ((computeShuffleStep n done scope.randomSeed w.doc.isEnabled).output betweenMs) with
        shuffled := some (computeShuffleStep n done scope.randomSeed w.doc.isEnabled).takenEdge } := by
  rw [handleShuffle] at h
  by_cases hwait : 0 < (if (computeShuffleStep n done scope.randomSeed w.doc.isEnabled).chosen.isSome
      then computeBetweenMs deps.evaluate n done.isEmpty scope else 0) ∧ t.abortedDuring = true
  · rw [if_pos hwait] at h
    exact nomatch h
  · rw [if_neg hwait] at h
    exact ⟨_, (Except.ok.inj h).symm⟩

/-- No step comes out carried over or skipped. -/
theorem handle_status (h : handle deps w x node n t = .ok hd) :
    hd.status ≠ .carriedOver ∧ hd.status ≠ .skipped := by
  unfold handle at h
  split at h
  · cases h
    exact ⟨nofun, nofun⟩
  · cases n with
    | shuffle n =>
      obtain ⟨betweenMs, rfl⟩ := handleShuffle_ok h
      exact ⟨nofun, nofun⟩
    | gate n | switch n =>
      cases h
      exact ⟨nofun, nofun⟩
    | delay n =>
      dsimp only [handleDelay] at h
      split_ifs at h
      cases h
      exact ⟨nofun, nofun⟩
    | set n =>
      cases h
      rw [handleSet]
      split <;> exact ⟨nofun, nofun⟩
    | script n =>
      dsimp only [handleScript] at h
      split at h
      · exact nomatch h
      · cases h
        exact ⟨nofun, nofun⟩
      · cases h
        rw [handleScriptFailed]
        split <;> exact ⟨nofun, nofun⟩

/-! ## What every turn keeps -/

/-- A turn writes no row and leaves the counter, or it writes one row of this run under the
counter's number, which was free, and raises the counter unless it throws. -/
theorem Turn.writes (h : Turn deps w x t y) :
    (y.rows = x.rows ∧ y.seq = x.seq ∧ (y.threw = false → x.threw = false)) ∨
      (x.threw = false ∧ ∃ r, StepTable.key r = (w.run.id, x.seq) ∧
        (w.run.id, x.seq) ∉ x.rows.map StepTable.key ∧ y.rows = x.rows ++ [r] ∧
        (y.threw = false → y.seq = x.seq + 1)) := by
  cases h with
  | idle => exact .inl ⟨rfl, rfl, id⟩
  | caught => exact .inl ⟨rfl, rfl, fun ht ↦ nomatch (show true = false from ht)⟩
  | failed => exact .inl ⟨rfl, rfl, id⟩
  | passed => exact .inl ⟨rfl, rfl, id⟩
  | @finished _ status =>
    left
    cases status <;> exact ⟨rfl, rfl, id⟩
  | refused _ _ _ _ _ _ hx' =>
    left
    rcases hx' with rfl | rfl <;>
      exact ⟨rfl, rfl, fun ht ↦ nomatch (show true = false from ht)⟩
  | skipped hat hb hoff hkey =>
    refine .inr ⟨hat.threw, _, rfl, hkey, rfl, fun _ ↦ ?_⟩
    show x.step + (x.seqOffset + 1) = x.step + x.seqOffset + 1
    omega
  | threw hat hb hon hkey herr =>
    exact .inr ⟨hat.threw, _, rfl, hkey, rfl, fun ht ↦ nomatch (show true = false from ht)⟩
  | executed hat hb hon hkey hh =>
    refine .inr ⟨hat.threw, _, rfl, hkey, rfl, fun _ ↦ ?_⟩
    show x.step + 1 + x.seqOffset = x.step + x.seqOffset + 1
    omega

/-- The visits are only appended to. -/
theorem Turn.visits (h : Turn deps w x t y) : x.visits <+: y.visits := by
  cases h with
  | idle => exact List.prefix_rfl
  | caught => exact List.prefix_rfl
  | failed => exact List.prefix_rfl
  | passed => exact List.prefix_rfl
  | @finished _ status => cases status <;> exact List.prefix_rfl
  | refused _ _ _ _ _ _ hx' => rcases hx' with rfl | rfl <;> exact List.prefix_rfl
  | skipped => exact List.prefix_append ..
  | threw => exact List.prefix_rfl
  | executed => exact List.prefix_append ..

/-- Every row of the run in the table has a number the counter has passed. -/
def Numbered (w : WorkflowRun) (x : Walk) : Prop :=
  ∀ r ∈ StepTable.rowsOf x.rows w.run.id, r.seq < x.seq

/-- A counter that has passed every row of the run names a free number. -/
theorem Numbered.fresh (h : x.Numbered w) : (w.run.id, x.seq) ∉ x.rows.map StepTable.key := by
  intro hmem
  obtain ⟨r, hr, he⟩ := List.mem_map.mp hmem
  have hrun : r.runId = w.run.id := congrArg Prod.fst he
  have hseq : r.seq = x.seq := congrArg Prod.snd he
  have := h r (mem_rowsOf.mpr ⟨hr, hrun⟩)
  omega

theorem Numbered.append {r : StepRow} (h : x.Numbered w)
    (hr : StepTable.key r = (w.run.id, x.seq)) (hrows : y.rows = x.rows ++ [r])
    (hseq : y.seq = x.seq + 1) : y.Numbered w := by
  intro r' hr'
  rw [hrows, rowsOf_append, List.mem_append] at hr'
  rw [hseq]
  rcases hr' with hr' | hr'
  · have := h r' hr'
    omega
  · obtain ⟨hr', -⟩ := mem_rowsOf.mp hr'
    obtain rfl : r' = r := by simpa using hr'
    have : r'.seq = x.seq := congrArg Prod.snd hr
    omega

/-- As long as nothing is thrown, the counter stays ahead of the rows. -/
theorem Turn.numbered (h : Turn deps w x t y) (hn : x.Numbered w) (ht : y.threw = false) :
    y.Numbered w := by
  rcases h.writes with ⟨hrows, hseq, -⟩ | ⟨-, r, hr, -, hrows, hseq⟩
  · rw [Numbered, hrows, hseq]
    exact hn
  · exact hn.append hr hrows (hseq ht)

/-- A loop that has ended stays as it is. -/
theorem iterate_of_not_running (h : x.running = false) : x.iterate deps w t = x := by
  have hturn := turn_iterate deps w x t
  generalize x.iterate deps w t = y at hturn
  cases hturn with
  | idle => rfl
  | caught h' => exact absurd (h.symm.trans h') (by simp)
  | failed h' => exact absurd (h.symm.trans h') (by simp)
  | passed h' => exact absurd (h.symm.trans h'.running) (by simp)
  | finished h' => exact absurd (h.symm.trans h'.running) (by simp)
  | refused h' => exact absurd (h.symm.trans h'.running) (by simp)
  | skipped h' => exact absurd (h.symm.trans h'.running) (by simp)
  | threw h' => exact absurd (h.symm.trans h'.running) (by simp)
  | executed h' => exact absurd (h.symm.trans h'.running) (by simp)

/-- What a state has and every turn keeps holds after any number of turns. -/
theorem iterates_invariant {I : Walk → Prop} (h0 : I x)
    (hstep : ∀ x t, I x → I (x.iterate deps w t)) : I (x.iterates deps w ts) := by
  rw [iterates]
  induction ts generalizing x with
  | nil => exact h0
  | cons t ts ih => exact ih (hstep x t h0)

end Walk

/-! ## A run with nothing around it

The documents of the examples are run by these: one job, no batch, no pins, a registry of one script
without parameters. -/

namespace Bare

def job : JobRow :=
  Store.newJob ⟨0, "job", 1⟩ { kind := .workflow, workflowName := some "flow", deviceId := "phone",
                               params := .obj [] }

def run (id : String) (input : AddRunInput) : JobRunRow :=
  Store.newRun Store.empty ⟨0, id, 1⟩ job input

mutual

/-- The length of a value's JSON text, where no character needs an escape. -/
def jsonLength : Value → Nat
  | .undefined | .null | .bool true => 4
  | .bool false => 5
  | .num q => (toString q.num).length
  | .str s => s.length + 2
  | .arr items => 1 + itemsLength items
  | .obj fields => 1 + fieldsLength fields

/-- Every item with the comma or the bracket after it. -/
def itemsLength : List Value → Nat
  | [] => 0
  | v :: items => jsonLength v + 1 + itemsLength items

/-- Every property with its name and the comma or the brace after it. -/
def fieldsLength : List (String × Value) → Nat
  | [] => 0
  | (k, v) :: fields => k.length + 3 + jsonLength v + 1 + fieldsLength fields

end

def deps : OrchestratorDeps where
  evaluate _ draws _ := (.error "no expressions", draws)
  resolve _ := .ok ⟨"script", "tap", "1", .null, .null⟩
  applySchemaDefaults _ params := params
  validateAgainstSchema _ _ := none
  readPins _ := []
  batchSize _ := 0
  readDeviceFacts _ := none
  maxTotalMs := 21600000
  jsonBytes := jsonLength

/-- A turn in which nothing happens, and the child of a script step succeeds with `result`. -/
def tick (result : Value) : Tick where
  abortedBefore := false
  abortedDuring := false
  reason := ⟨"aborted", none, none, none⟩
  elapsedMs := 0
  startedAt := 0
  finishedAt := 0
  child := .settled { run "child" { trigger := .workflowStep } with
                      status := .success, result := result }

def workflow (doc : WorkflowDoc) (run : JobRunRow) : WorkflowRun := ⟨doc, job, run⟩

end Bare

end Enkaku
