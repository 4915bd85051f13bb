import Enkaku.Workflow.Loop
import Mathlib

/-!
# The numbers of the rows of one run

A workflow run can be attempted more than once: a requeue puts the same run back in the queue, and
the next claim starts the orchestrator again under the same run id.  The counter a row is numbered
by is kept in memory and starts at zero with every attempt; the rows stay.

A `History` is the table with the attempt in progress; its events are the start of an attempt, a
turn of its loop, its `finally`, the end of its process, and rows of other runs.
`rows_never_collide_iff` says exactly when no insert of any attempt is refused: whenever an attempt
is about to write its first row — the first carried one on a resume, else the first the loop
reaches — the run has no row in the table.  The rows of the `finally` block never collide.
-/

set_option autoImplicit false

namespace Enkaku

open List

open WorkflowRun

open StepTable

/-! ## What an attempt writes first -/

/-- The rows a resume carries over, none for a run that is not a resume. -/
def WorkflowRun.kept (w : WorkflowRun) (rows : List StepRow) : List StepRow :=
  match w.resumeFrom? with
  | none => []
  | some (priorRunId, k) => WorkflowRun.keptSteps rows priorRunId k

/-- The copies a resume inserts. -/
def WorkflowRun.copies (w : WorkflowRun) (rows : List StepRow) : List StepRow :=
  (w.kept rows).zipIdx.map fun p ↦ WorkflowRun.carriedRow w.run.id p.2 p.1

theorem WorkflowRun.setup_rows (w : WorkflowRun) (now : Int) (rows : List StepRow) :
    (w.setup now rows).rows = (insertAll rows (w.copies rows)).1 ∧
      (w.setup now rows).dbError = (insertAll rows (w.copies rows)).2 ∧
      (w.setup now rows).seq = (w.kept rows).length ∧ (w.setup now rows).threw = false := by
  rw [setup, copies, WorkflowRun.kept]
  cases hres : w.resumeFrom? with
  | none => exact ⟨rfl, rfl, rfl, rfl⟩
  | some p =>
    obtain ⟨priorRunId, k⟩ := p
    refine ⟨rfl, rfl, ?_, rfl⟩
    exact Nat.zero_add _

namespace Walk

variable {deps : OrchestratorDeps} {w : WorkflowRun} {x y : Walk} {t : Tick}

/-- A turn that writes a row while the counter is at zero. -/
def WritesFirst (deps : OrchestratorDeps) (w : WorkflowRun) (x : Walk) (t : Tick) : Prop :=
  x.seq = 0 ∧ t.abortedBefore = false ∧ t.elapsedMs ≤ deps.maxTotalMs ∧
    ∃ node n, x.At w node ∧ node.body = .step n

/-! ## What an attempt keeps -/

/-- The rows of the run begin at zero, and the counter, once it has moved, is ahead of them. -/
structure Ahead (w : WorkflowRun) (x : Walk) : Prop where
  zero : rowsOf x.rows w.run.id ≠ [] → (w.run.id, 0) ∈ x.rows.map key
  counted : x.seq ≠ 0 → rowsOf x.rows w.run.id ≠ []
  numbered : x.threw = false → x.seq ≠ 0 → x.Numbered w

variable {rows : List StepRow}

/-- Where the rows of a run begin at zero and zero is free, it has none. -/
theorem rowsOf_eq_nil {runId : String} (hzero : rowsOf rows runId ≠ [] → (runId, 0) ∈ rows.map key)
    (hkey : (runId, 0) ∉ rows.map key) : rowsOf rows runId = [] := by
  by_contra hne
  exact hkey (hzero hne)

/-- A counter that is ahead and names a free number has passed every row. -/
theorem Ahead.free (h : x.Ahead w) (hthrew : x.threw = false)
    (hkey : (w.run.id, x.seq) ∉ x.rows.map key) : x.Numbered w := by
  by_cases hseq : x.seq = 0
  · rw [hseq] at hkey
    rw [Numbered, rowsOf_eq_nil h.zero hkey]
    rintro _ ⟨⟩
  · exact h.numbered hthrew hseq

/-- **A turn keeps the counter ahead.** -/
theorem Turn.ahead (h : Turn deps w x t y) (ha : x.Ahead w) : y.Ahead w := by
  rcases h.writes with ⟨hrows, hseq, hthrew⟩ | ⟨hthrew, r, hr, hkey, hrows, -⟩
  · refine ⟨?_, ?_, fun ht hne ↦ ?_⟩
    · rw [hrows]
      exact ha.zero
    · rw [hrows, hseq]
      exact ha.counted
    · rw [hseq] at hne
      rw [Numbered, hrows, hseq]
      exact ha.numbered (hthrew ht) hne
  · have hrun : r.runId = w.run.id := congrArg Prod.fst hr
    refine ⟨fun _ ↦ ?_, fun _ ↦ ?_, fun ht _ ↦ h.numbered (ha.free hthrew hkey) ht⟩
    · rw [hrows, map_append]
      by_cases hnil : rowsOf x.rows w.run.id = []
      · have hseq : x.seq = 0 := by
          by_contra hne
          exact ha.counted hne hnil
        rw [map_singleton, hr, hseq]
        exact mem_append_right _ (.head _)
      · exact mem_append_left _ (ha.zero hnil)
    · rw [hrows]
      exact ne_nil_of_mem (mem_rowsOf.mpr ⟨mem_append_right _ (.head _), hrun⟩)

/-- A turn is refused nothing, unless it writes a first row where the run has rows. -/
theorem Turn.noError (h : Turn deps w x t y) (ha : x.Ahead w) (hdb : x.dbError = none)
    (hfirst : WritesFirst deps w x t → rowsOf x.rows w.run.id = []) : y.dbError = none := by
  cases h with
  | @finished _ status => cases status <;> exact hdb
  | @refused node n hat hb hab htotal hkey =>
    exfalso
    by_cases hseq : x.seq = 0
    · have hnil := hfirst ⟨hseq, hab, htotal, node, n, hat, hb⟩
      obtain ⟨r, hr, he⟩ := mem_map.mp hkey
      have hmem : r ∈ rowsOf x.rows w.run.id := mem_rowsOf.mpr ⟨hr, congrArg Prod.fst he⟩
      rw [hnil] at hmem
      exact not_mem_nil hmem
    · exact (ha.numbered hat.threw hseq).fresh hkey
  | _ => exact hdb

/-- A turn that writes a first row where the run has one is refused. -/
theorem iterate_refused (hzero : (w.run.id, 0) ∈ x.rows.map key) (hw : WritesFirst deps w x t) :
    (x.iterate deps w t).dbError.isSome = true := by
  obtain ⟨hseq, hab, htotal, node, n, hat, hb⟩ := hw
  rw [iterate_at hat hab htotal, reach, hb]
  dsimp only
  have hkey : (w.run.id, x.seq) ∈ x.rows.map key := by
    rw [hseq]
    exact hzero
  by_cases hon : node.enabled = true
  · have hins : StepTable.insert x.rows (x.runningRow deps w node n t) = .error refused :=
      insert_eq_error_iff.mpr ⟨hkey, rfl⟩
    rw [if_pos hon, execute, hins]
    rfl
  · have hins : StepTable.insert x.rows (skippedRow w.run.id x.seq node n (some (toSec t.startedAt))
        (some .next)) = .error refused := insert_eq_error_iff.mpr ⟨hkey, rfl⟩
    rw [if_neg hon, skip, hins]
    rfl

/-! ## Setup and `finally` -/

/-- A setup that carries rows over where the run has one writes nothing. -/
theorem setup_refused (now : Int) (hzero : (w.run.id, 0) ∈ rows.map key) (hkept : w.kept rows ≠ []) :
    (w.setup now rows).rows = rows ∧ (w.setup now rows).dbError = some refused := by
  obtain ⟨hrows, hdb, -⟩ := w.setup_rows now rows
  obtain ⟨r, kept, hcons⟩ := exists_cons_of_ne_nil hkept
  have hcopies : w.copies rows = carriedRow w.run.id 0 r ::
      (kept.zipIdx 1).map fun p ↦ carriedRow w.run.id p.2 p.1 := by
    rw [copies, hcons]
    rfl
  rw [hcopies, insertAll_refused hzero] at hrows hdb
  exact ⟨hrows, hdb⟩

/-- The copies of a setup go in where the run has no rows, or where there are none. -/
theorem setup_copied (now : Int) (h : w.kept rows ≠ [] → rowsOf rows w.run.id = []) :
    (w.setup now rows).rows = rows ++ w.copies rows ∧ (w.setup now rows).dbError = none := by
  obtain ⟨hrows, hdb, -⟩ := w.setup_rows now rows
  have hkeys : ∀ p : StepRow × Nat,
      key (carriedRow w.run.id p.2 p.1) = (w.run.id, 0 + p.2) := by
    intro p
    rw [Nat.zero_add]
    rfl
  have hins : insertAll rows (w.copies rows) = (rows ++ w.copies rows, none) := by
    by_cases hkept : w.kept rows = []
    · rw [copies, hkept]
      simp [insertAll]
    · refine insertAll_block hkeys fun r hr ↦ ?_
      rw [h hkept] at hr
      cases hr
  rw [hins] at hrows hdb
  exact ⟨hrows, hdb⟩

theorem mem_copies {r : StepRow} (h : r ∈ w.copies rows) :
    r.runId = w.run.id ∧ r.seq < (w.kept rows).length ∧ r.status = .carriedOver := by
  obtain ⟨⟨r₀, i⟩, hp, rfl⟩ := mem_map.mp h
  obtain ⟨-, hlt, -⟩ := mem_zipIdx hp
  exact ⟨rfl, by simpa [carriedRow] using hlt, rfl⟩

/-- A setup that copied rows and was refused nothing found the run without any. -/
theorem kept_of_noError (now : Int) (hzero : rowsOf rows w.run.id ≠ [] → (w.run.id, 0) ∈ rows.map key)
    (hdb : (w.setup now rows).dbError = none) (hkept : w.kept rows ≠ []) :
    rowsOf rows w.run.id = [] := by
  by_contra hne
  obtain ⟨-, hrefused⟩ := setup_refused now (hzero hne) hkept
  rw [hdb] at hrefused
  exact nomatch hrefused

/-- A setup that is refused nothing leaves the counter ahead. -/
theorem ahead_setup (now : Int) (hzero : rowsOf rows w.run.id ≠ [] → (w.run.id, 0) ∈ rows.map key)
    (hdb : (w.setup now rows).dbError = none) : (w.setup now rows).Ahead w := by
  have hfirst := fun hkept ↦ kept_of_noError now hzero hdb hkept
  obtain ⟨hrows, -⟩ := setup_copied now hfirst
  obtain ⟨-, -, hseq, -⟩ := w.setup_rows now rows
  by_cases hkept : w.kept rows = []
  · have hcopies : w.copies rows = [] := by
      rw [copies, hkept]
      rfl
    rw [hkept] at hseq
    rw [hcopies, append_nil] at hrows
    refine ⟨?_, fun hne ↦ absurd hseq hne, fun _ hne ↦ absurd hseq hne⟩
    rw [hrows]
    exact hzero
  · have hnil := hfirst hkept
    obtain ⟨r, kept, hcons⟩ := exists_cons_of_ne_nil hkept
    have hmem : carriedRow w.run.id 0 r ∈ w.copies rows := by
      rw [copies, hcons]
      simp
    refine ⟨fun _ ↦ ?_, fun _ ↦ ?_, fun _ _ r' hr' ↦ ?_⟩
    · rw [hrows, map_append]
      exact mem_append_right _ (mem_map_of_mem hmem)
    · rw [hrows]
      exact ne_nil_of_mem (mem_rowsOf.mpr ⟨mem_append_right _ hmem, rfl⟩)
    · rw [hrows, rowsOf_append, hnil, nil_append] at hr'
      rw [hseq]
      exact (mem_copies (mem_rowsOf.mp hr').1).2.1

/-- Whether or not a setup is refused, the rows of the run begin at zero. -/
theorem zero_setup (now : Int) (hzero : rowsOf rows w.run.id ≠ [] → (w.run.id, 0) ∈ rows.map key)
    (h : rowsOf (w.setup now rows).rows w.run.id ≠ []) :
    (w.run.id, 0) ∈ (w.setup now rows).rows.map key := by
  by_cases hrefused : w.kept rows ≠ [] ∧ rowsOf rows w.run.id ≠ []
  · obtain ⟨hrows, -⟩ := setup_refused now (hzero hrefused.2) hrefused.1
    rw [hrows]
    exact hzero hrefused.2
  · obtain ⟨-, hdb⟩ := setup_copied now fun hkept ↦ by_contra fun hne ↦ hrefused ⟨hkept, hne⟩
    exact (ahead_setup now hzero hdb).zero h

/-- The rows of the nodes never reached go in, whatever the run has written. -/
theorem insertAll_unreached (w : WorkflowRun) (x : Walk) :
    insertAll x.rows (x.unreachedRows w) = (x.rows ++ x.unreachedRows w, none) := by
  have hkeys : ∀ p : (WorkflowNode × StepNode) × Nat,
      key (skippedRow w.run.id (x.skipSeq w + p.2) p.1.1 p.1.2 none none) =
        (w.run.id, x.skipSeq w + p.2) := fun _ ↦ rfl
  exact insertAll_block hkeys fun r hr ↦
    Nat.lt_of_lt_of_le (lt_nextSeq hr) (Nat.le_max_right _ _)

theorem mem_unreachedRows {r : StepRow} (h : r ∈ x.unreachedRows w) :
    r.runId = w.run.id ∧ x.skipSeq w ≤ r.seq ∧
      r.seq < x.skipSeq w + (x.unreachedRows w).length := by
  obtain ⟨⟨p, i⟩, hp, rfl⟩ := mem_map.mp h
  obtain ⟨-, hlt, -⟩ := mem_zipIdx hp
  refine ⟨rfl, Nat.le_add_right _ _, ?_⟩
  rw [unreachedRows, length_map, length_zipIdx]
  show x.skipSeq w + i < _
  omega

/-- The row of the cleanup script goes in after them. -/
theorem cleanup_rows (deps : OrchestratorDeps) (w : WorkflowRun) (x : Walk) (now : Int)
    (child : ChildOutcome) {k : Nat} (hfree : ∀ r ∈ rowsOf x.rows w.run.id, r.seq < k) :
    (x.cleanup deps w now child k).dbError = x.dbError ∧
      ((x.cleanup deps w now child k).rows = x.rows ∨ ∃ run : JobRunRow,
        (x.cleanup deps w now child k).rows = x.rows ++ [cleanupRow w.run.id k now run]) := by
  have hins : ∀ run, StepTable.insert x.rows (cleanupRow w.run.id k now run) =
      .ok (x.rows ++ [cleanupRow w.run.id k now run]) :=
    fun run ↦ insert_of_fresh (key_notMem_of_lt rfl hfree)
  unfold cleanup
  split
  · dsimp only
    split
    · split
      · exact ⟨rfl, .inl rfl⟩
      · rw [hins]
        exact ⟨rfl, .inr ⟨_, rfl⟩⟩
    · exact ⟨rfl, .inl rfl⟩
  · exact ⟨rfl, .inl rfl⟩

/-- **Leaving never collides**: the rows of the `finally` block stand after every row of the
run. -/
theorem leave_rows (deps : OrchestratorDeps) (w : WorkflowRun) (x : Walk) (now : Int)
    (child : ChildOutcome) : (x.leave deps w now child).dbError = x.dbError ∧
      ((x.leave deps w now child).rows = x.rows ++ x.unreachedRows w ∨
        ∃ run : JobRunRow, (x.leave deps w now child).rows = x.rows ++ x.unreachedRows w ++
          [cleanupRow w.run.id (x.skipSeq w + (x.unreachedRows w).length) now run]) := by
  have hleave : x.leave deps w now child =
      ({ x with rows := x.rows ++ x.unreachedRows w } : Walk).cleanup deps w now child
        (x.skipSeq w + (x.unreachedRows w).length) := by
    rw [leave, insertAll_unreached]
  rw [hleave]
  refine cleanup_rows deps w { x with rows := x.rows ++ x.unreachedRows w } now child fun r hr ↦ ?_
  rw [rowsOf_append, mem_append] at hr
  rcases hr with hr | hr
  · have h₁ := lt_nextSeq hr
    have h₂ : nextSeq x.rows w.run.id ≤ x.skipSeq w := Nat.le_max_right _ _
    omega
  · exact (mem_unreachedRows (mem_rowsOf.mp hr).1).2.2

/-- After an attempt has left, the rows of the run still begin at zero. -/
theorem zero_leave (now : Int) (child : ChildOutcome) (ha : x.Ahead w)
    (h : rowsOf (x.leave deps w now child).rows w.run.id ≠ []) :
    (w.run.id, 0) ∈ (x.leave deps w now child).rows.map key := by
  obtain ⟨-, hrows⟩ := leave_rows deps w x now child
  by_cases hnil : rowsOf x.rows w.run.id = []
  · have hseq : x.seq = 0 := by
      by_contra hne
      exact ha.counted hne hnil
    have hskip : x.skipSeq w = 0 := by
      rw [skipSeq, nextSeq, hnil, hseq]
      rfl
    by_cases hun : x.unreachedRows w = []
    · rw [hun, hskip] at hrows
      rcases hrows with hrows | ⟨run, hrows⟩
      · rw [hrows, append_nil] at h
        exact absurd hnil h
      · rw [hrows, map_append]
        simp [key, cleanupRow]
    · have hmem : (w.run.id, 0) ∈ (x.unreachedRows w).map key := by
        rw [unreachedRows] at hun ⊢
        cases hlist : x.unreached w with
        | nil =>
          rw [hlist] at hun
          exact absurd rfl hun
        | cons p rest =>
          rw [hskip]
          exact .head _
      rcases hrows with hrows | ⟨run, hrows⟩
      · rw [hrows, map_append]
        exact mem_append_right _ hmem
      · rw [hrows, map_append, map_append]
        exact mem_append_left _ (mem_append_right _ hmem)
  · have hmem := ha.zero hnil
    rcases hrows with hrows | ⟨run, hrows⟩
    · rw [hrows, map_append]
      exact mem_append_left _ hmem
    · rw [hrows, map_append, map_append]
      exact mem_append_left _ (mem_append_left _ hmem)

end Walk

/-! ## Attempt after attempt -/

/-- An attempt in progress: what it was given, and its memory. -/
structure AttemptAt where
  deps : OrchestratorDeps
  w : WorkflowRun
  x : Walk

/-- The table, with the attempt in progress at the run the history is about. -/
structure History where
  rows : List StepRow
  attempt : Option AttemptAt := none
  /-- Some insert of some attempt has been refused. -/
  refused : Bool := false

inductive AttemptEvent where
  /-- The run is claimed, for the first time or again after a requeue. -/
  | start (deps : OrchestratorDeps) (w : WorkflowRun) (now : Int)
  | turn (t : Tick)
  /-- The `finally` block, when the loop has ended. -/
  | leave (now : Int) (child : ChildOutcome)
  /-- The process of the attempt is gone, wherever it was. -/
  | abandon
  /-- Another run writes a row. -/
  | other (r : StepRow)

namespace History

/-- The attempt's memory, over the table as it stands. -/
def walk (h : History) (a : AttemptAt) : Walk := { a.x with rows := h.rows }

/-- One event in the history of the run `runId`; `none` where it cannot happen. -/
def step (runId : String) (h : History) : AttemptEvent → Option History
  | .start deps w now =>
    if h.attempt.isNone ∧ w.run.id = runId then
      let x := w.setup now h.rows
      some { rows := x.rows
             attempt := if x.dbError.isNone then some ⟨deps, w, x⟩ else none
             refused := h.refused || x.dbError.isSome }
    else none
  | .turn t => h.attempt.map fun a ↦
    let x := (h.walk a).iterate a.deps a.w t
    { rows := x.rows
      attempt := some { a with x := x }
      refused := h.refused || x.dbError.isSome }
  | .leave now child => h.attempt.bind fun a ↦
    if a.x.running then none
    else
      let x := (h.walk a).leave a.deps a.w now child
      some { rows := x.rows, attempt := none, refused := h.refused || x.dbError.isSome }
  | .abandon => some { h with attempt := none }
  | .other r =>
    if r.runId ≠ runId ∧ key r ∉ h.rows.map key then some { h with rows := h.rows ++ [r] } else none

/-- The event is about to write the first row of an attempt. -/
def WritesFirst (h : History) : AttemptEvent → Prop
  | .start _ w _ => w.kept h.rows ≠ []
  | .turn t => ∃ a, h.attempt = some a ∧ Walk.WritesFirst a.deps a.w (h.walk a) t
  | _ => False

/-- The first row of an attempt finds the run without rows. -/
def FindsNoRows (runId : String) (h : History) (e : AttemptEvent) : Prop :=
  h.WritesFirst e → rowsOf h.rows runId = []

/-- A history in which the run has not been attempted yet. -/
structure Unattempted (runId : String) (h : History) : Prop where
  attempt : h.attempt = none
  refused : h.refused = false
  rows : rowsOf h.rows runId = []

/-- The rows of the run begin at zero, and the counter of an attempt in progress is ahead. -/
structure Ordered (runId : String) (h : History) : Prop where
  zero : rowsOf h.rows runId ≠ [] → (runId, 0) ∈ h.rows.map key
  attempt : ∀ a, h.attempt = some a → a.w.run.id = runId ∧ (h.walk a).Ahead a.w

/-- Nothing has been refused. -/
structure Clean (h : History) : Prop where
  refused : h.refused = false
  attempt : ∀ a, h.attempt = some a → (h.walk a).dbError = none

variable {runId : String} {h h' h₀ : History} {e : AttemptEvent} {es : List AttemptEvent}

theorem Unattempted.ordered (hu : Unattempted runId h) : Ordered runId h := by
  refine ⟨fun hne ↦ absurd hu.rows hne, fun a ha ↦ ?_⟩
  rw [hu.attempt] at ha
  exact nomatch ha

theorem Unattempted.clean (hu : Unattempted runId h) : Clean h := by
  refine ⟨hu.refused, fun a ha ↦ ?_⟩
  rw [hu.attempt] at ha
  exact nomatch ha

/-- The rows of another run are none of this one's. -/
theorem rowsOf_other {rows : List StepRow} {r : StepRow} (hr : r.runId ≠ runId) :
    rowsOf (rows ++ [r]) runId = rowsOf rows runId := by
  have hnil : rowsOf [r] runId = [] := by
    simpa [rowsOf] using hr
  rw [rowsOf_append, hnil, append_nil]

/-- **An event keeps the numbers in order**, refused or not. -/
theorem Ordered.step (ho : Ordered runId h) (hstep : h.step runId e = some h') : Ordered runId h' := by
  cases e with
  | start deps w now =>
    rw [History.step] at hstep
    split_ifs at hstep with hcond
    obtain ⟨-, rfl⟩ := hcond
    cases hstep
    refine ⟨Walk.zero_setup now ho.zero, fun a hattempt ↦ ?_⟩
    split_ifs at hattempt with hnone
    cases hattempt
    exact ⟨rfl, Walk.ahead_setup now ho.zero (Option.isNone_iff_eq_none.mp hnone)⟩
  | turn t =>
    rw [History.step] at hstep
    obtain ⟨a, hattempt, rfl⟩ := Option.map_eq_some_iff.mp hstep
    obtain ⟨rfl, ha⟩ := ho.attempt a hattempt
    have ha' := (Walk.turn_iterate a.deps a.w (h.walk a) t).ahead ha
    refine ⟨ha'.zero, fun b hb ↦ ?_⟩
    cases hb
    exact ⟨rfl, ha'⟩
  | leave now child =>
    rw [History.step] at hstep
    obtain ⟨a, hattempt, hstep⟩ := Option.bind_eq_some_iff.mp hstep
    obtain ⟨rfl, ha⟩ := ho.attempt a hattempt
    split_ifs at hstep with hrun
    cases hstep
    exact ⟨Walk.zero_leave now child ha, fun b hb ↦ nomatch hb⟩
  | abandon =>
    cases hstep
    exact ⟨ho.zero, fun b hb ↦ nomatch hb⟩
  | other r =>
    obtain ⟨hcond, ⟨⟩⟩ := Option.ite_none_right_eq_some.mp hstep
    have hrows : rowsOf (h.rows ++ [r]) runId = rowsOf h.rows runId := rowsOf_other hcond.1
    have hmem : ∀ k, k ∈ h.rows.map key → k ∈ (h.rows ++ [r]).map key := by
      intro k hk
      rw [map_append]
      exact mem_append_left _ hk
    refine ⟨fun hne ↦ ?_, fun a hattempt ↦ ?_⟩
    · dsimp only at hne
      rw [hrows] at hne
      exact hmem _ (ho.zero hne)
    · obtain ⟨rfl, ha⟩ := ho.attempt a hattempt
      refine ⟨rfl, fun hne ↦ ?_, fun hne ↦ ?_, fun ht hne ↦ ?_⟩
      · exact hmem _ (ha.zero fun hnil ↦ hne (hrows.trans hnil))
      · exact fun hnil ↦ ha.counted hne (hrows.symm.trans hnil)
      · show ∀ r' ∈ rowsOf (h.rows ++ [r]) a.w.run.id, _
        rw [hrows]
        exact ha.numbered ht hne

/-- An event is refused nothing when the first row of an attempt finds no rows. -/
theorem Clean.step (hc : Clean h) (ho : Ordered runId h) (hstep : h.step runId e = some h')
    (hfirst : FindsNoRows runId h e) : Clean h' := by
  cases e with
  | start deps w now =>
    rw [History.step] at hstep
    split_ifs at hstep with hcond
    obtain ⟨-, rfl⟩ := hcond
    cases hstep
    obtain ⟨-, hdb⟩ := Walk.setup_copied now hfirst
    refine ⟨?_, fun a hattempt ↦ ?_⟩
    · show (h.refused || (w.setup now h.rows).dbError.isSome) = false
      rw [hc.refused, hdb]
      rfl
    · dsimp only at hattempt
      split_ifs at hattempt
      cases hattempt
      exact hdb
  | turn t =>
    rw [History.step] at hstep
    obtain ⟨a, hattempt, rfl⟩ := Option.map_eq_some_iff.mp hstep
    obtain ⟨rfl, ha⟩ := ho.attempt a hattempt
    have hdb := (Walk.turn_iterate a.deps a.w (h.walk a) t).noError ha (hc.attempt a hattempt)
      fun hw ↦ hfirst ⟨a, hattempt, hw⟩
    refine ⟨?_, fun b hb ↦ ?_⟩
    · show (h.refused || ((h.walk a).iterate a.deps a.w t).dbError.isSome) = false
      rw [hc.refused, hdb]
      rfl
    · cases hb
      exact hdb
  | leave now child =>
    rw [History.step] at hstep
    obtain ⟨a, hattempt, hstep⟩ := Option.bind_eq_some_iff.mp hstep
    split_ifs at hstep with hrun
    cases hstep
    obtain ⟨hdb, -⟩ := Walk.leave_rows a.deps a.w (h.walk a) now child
    refine ⟨?_, fun b hb ↦ nomatch hb⟩
    show (h.refused || ((h.walk a).leave a.deps a.w now child).dbError.isSome) = false
    rw [hc.refused, hdb, hc.attempt a hattempt]
    rfl
  | abandon =>
    cases hstep
    exact ⟨hc.refused, fun b hb ↦ nomatch hb⟩
  | other r =>
    obtain ⟨hcond, ⟨⟩⟩ := Option.ite_none_right_eq_some.mp hstep
    exact ⟨hc.refused, hc.attempt⟩

/-- An attempt whose first row finds a row of the run is refused. -/
theorem Ordered.refused_of (ho : Ordered runId h) (hstep : h.step runId e = some h')
    (hbad : ¬ FindsNoRows runId h e) : h'.refused = true := by
  obtain ⟨hw, hne⟩ := Classical.not_imp.mp hbad
  have hzero := ho.zero hne
  cases e with
  | start deps w now =>
    rw [History.step] at hstep
    split_ifs at hstep with hcond
    obtain ⟨-, rfl⟩ := hcond
    cases hstep
    obtain ⟨-, hdb⟩ := Walk.setup_refused now hzero hw
    show (h.refused || (w.setup now h.rows).dbError.isSome) = true
    rw [hdb]
    exact Bool.or_true _
  | turn t =>
    obtain ⟨a, hattempt, hw⟩ := hw
    rw [History.step, hattempt] at hstep
    cases hstep
    obtain ⟨rfl, -⟩ := ho.attempt a hattempt
    show (h.refused || ((h.walk a).iterate a.deps a.w t).dbError.isSome) = true
    rw [Walk.iterate_refused hzero hw, Bool.or_true]
  | leave => exact absurd hw id
  | abandon => exact absurd hw id
  | other => exact absurd hw id

/-- A refusal is not forgotten. -/
theorem refused_of_step (hstep : h.step runId e = some h') (hr : h.refused = true) :
    h'.refused = true := by
  cases e with
  | start deps w now =>
    obtain ⟨hcond, ⟨⟩⟩ := Option.ite_none_right_eq_some.mp hstep
    show (h.refused || _) = true
    rw [hr, Bool.true_or]
  | turn t =>
    obtain ⟨a, -, rfl⟩ := Option.map_eq_some_iff.mp hstep
    show (h.refused || _) = true
    rw [hr, Bool.true_or]
  | leave now child =>
    obtain ⟨a, -, hstep⟩ := Option.bind_eq_some_iff.mp hstep
    split_ifs at hstep with hrun
    cases hstep
    show (h.refused || _) = true
    rw [hr, Bool.true_or]
  | abandon =>
    cases hstep
    exact hr
  | other r =>
    obtain ⟨hcond, ⟨⟩⟩ := Option.ite_none_right_eq_some.mp hstep
    exact hr

/-- **When the rows of a run never collide.**  Over any history of attempts at a run, no insert of
any of them is refused exactly when every attempt that writes a row in its setup or its loop writes
the first one while the run has none. -/
theorem rows_never_collide_iff (h₀u : Unattempted runId h₀)
    (hrun : Steps (Steps.By (step runId)) h₀ es h) :
    h.refused = false ↔ Steps.Guarded (Steps.By (step runId)) (FindsNoRows runId) h₀ es h := by
  have ho : ∀ {fs m}, Steps (Steps.By (step runId)) h₀ fs m → Ordered runId m := fun hrun ↦
    hrun.invariant h₀u.ordered fun _ _ _ ho hs ↦ ho.step hs
  constructor
  · intro hr
    induction hrun with
    | nil => exact .nil
    | @snoc es m h e hrun he ih =>
      have hm : m.refused = false := by
        by_contra hne
        have hrefused := refused_of_step he (by simpa using hne)
        rw [hr] at hrefused
        exact nomatch hrefused
      refine .snoc (ih hm) ⟨he, ?_⟩
      by_contra hbad
      have hrefused := (ho hrun).refused_of he hbad
      rw [hr] at hrefused
      exact nomatch hrefused
  · intro hg
    have hboth : Ordered runId h ∧ Clean h :=
      Steps.invariant_of_guarded (I := fun h ↦ Ordered runId h ∧ Clean h) hg
        ⟨h₀u.ordered, h₀u.clean⟩ fun _ _ _ hoc hs hf ↦ ⟨hoc.1.step hs, hoc.2.step hoc.1 hs hf⟩
    exact hboth.2.refused

end History

/-! ## A run that is requeued -/

namespace LostDevice

/-- One script between the start and the end of the run. -/
def doc : WorkflowDoc where
  name := "flow"
  params := []
  entry := "start"
  nodes :=
    [⟨"start", true, .start (some "tap")⟩, ⟨"tap", true, .step (.script ⟨"tap@1", [], none, none⟩)⟩]
  maxSteps := 50
  onFail := none

/-- A run of a batch. -/
def run : WorkflowRun :=
  ⟨doc, { Bare.job with batchId := some "batch" },
    Bare.run "run" { trigger := .batch, seed := some 7 }⟩

/-- The child of the step ends because its device is gone. -/
def lost : Tick :=
  { Bare.tick .null with
    child := .settled { Bare.run "child" { trigger := .workflowStep } with
                        status := .failed
                        error := some "device offline"
                        failureClass := some "infra" } }

/-- An attempt at the run, up to its `finally`. -/
def attempted : List AttemptEvent :=
  [.start Bare.deps run 0, .turn lost, .turn lost, .leave 0 (.threw ⟨"no cleanup", none, none, none⟩)]

/-- The table before the run. -/
def empty : History where
  rows := []
  attempt := none

/-- **The second attempt collides.**  The run is claimed again, and its first insert is refused: row
0 is the first attempt's. -/
theorem second_attempt_collides :
    ∃ h, Steps (Steps.By (History.step "run")) empty
        (attempted ++ [.start Bare.deps run 0, .turn lost, .turn lost]) h ∧ h.refused = true ∧
      h.rows.map StepTable.key = [("run", 0)] ∧
      (h.attempt.bind (·.x.finalErrorCode)) = some "E_WORKFLOW_INTERNAL" :=
  ⟨_, Steps.steps_by_iff.mpr rfl, rfl, rfl, rfl⟩

/-- The first attempt alone. -/
theorem rows_never_collide_iff_firstAttempt :
    ∃ h, Steps.Guarded (Steps.By (History.step "run")) (History.FindsNoRows "run") empty attempted h :=
  ⟨_, (History.rows_never_collide_iff ⟨rfl, rfl, rfl⟩ (Steps.steps_by_iff.mpr rfl)).mp rfl⟩

end LostDevice

end Enkaku
