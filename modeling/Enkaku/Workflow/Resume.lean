import Enkaku.Workflow.Attempts

/-!
# What a resume takes over

A resume continues an earlier run of the same job at one of its steps: it copies the rows before
that step which were a success, and starts there.  A `Resumption` is a run that comes to a step, its
history from then on, and the run that resumes it at that step.

The step is reached (`resumed_at`), and it is evaluated in a scope rebuilt from the rows.  What the
rows cannot give back is lost: the summary, and `$input` with it, and the numbers the draws were
keyed on.  `resume_keeps_data_iff` and `resume_keeps_draw_iff` say exactly when nothing of it shows.
-/

set_option autoImplicit false

namespace Enkaku

open List

open WorkflowRun

open StepTable

/-! ## The account of an attempt -/

/-- A node test starts with a predecessor's output and its entry in the summary. -/
def WorkflowRun.NodeTested (w : WorkflowRun) : Prop :=
  w.run.trigger = .nodeTest ∧ w.nodeTestSeed.isSome

theorem WorkflowRun.seeded_of_not {w : WorkflowRun} (h : ¬ w.NodeTested) (now : Int) :
    w.seeded now = ([], []) := by
  rw [seeded]
  split
  next predecessorId value ht hs =>
    refine absurd ⟨ht, ?_⟩ h
    rw [hs]
    rfl
  next => rfl

theorem WorkflowRun.seeded_ne_nil {w : WorkflowRun} (h : w.NodeTested) (now : Int) :
    (w.seeded now).2 ≠ [] := by
  obtain ⟨ht, hs⟩ := h
  obtain ⟨⟨predecessorId, value⟩, hs⟩ := Option.isSome_iff_exists.mp hs
  rw [seeded, ht, hs]
  exact cons_ne_nil _ _

/-- The outputs a resume rebuilds from rows. -/
def outputsOf (rows : List StepRow) : List (String × Value) :=
  OrdMap.merge [] (rows.map fun r ↦ (r.stepId, r.output))

theorem WorkflowRun.setup_memory (w : WorkflowRun) (now : Int) (rows : List StepRow) :
    (w.setup now rows).summary = (w.seeded now).2 ∧ (w.setup now rows).step = 0 ∧
      (w.setup now rows).outputs =
        OrdMap.merge (w.seeded now).1 ((w.kept rows).map fun r ↦ (r.stepId, r.output)) := by
  rw [setup, WorkflowRun.kept]
  cases hres : w.resumeFrom? with
  | none => exact ⟨rfl, rfl, rfl⟩
  | some p =>
    obtain ⟨priorRunId, k⟩ := p
    refine ⟨rfl, rfl, ?_⟩
    rw [OrdMap.merge, foldl_map]
    rfl

/-- A resume starts at the step whose row has the number it was given. -/
theorem WorkflowRun.setup_cursor {w : WorkflowRun} {priorRunId : String} {k : Nat}
    (h : w.resumeFrom? = some (priorRunId, k)) (now : Int) (rows : List StepRow) :
    (w.setup now rows).cursor = some ((((priorSteps rows priorRunId).find? fun r ↦ r.seq = k).map
      (·.stepId)).getD w.doc.entry) := by
  rw [setup, h]
  rfl

/-- The copies say of a step what the copied rows say. -/
theorem WorkflowRun.outputsOf_copies (w : WorkflowRun) (rows : List StepRow) :
    outputsOf (w.copies rows) = outputsOf (w.kept rows) := by
  have hmap : (w.copies rows).map (fun r ↦ (r.stepId, r.output)) =
      (w.kept rows).map fun r ↦ (r.stepId, r.output) := by
    rw [copies, map_map]
    conv_rhs => rw [← zipIdx_map_fst 0 (w.kept rows), map_map]
    rfl
  rw [outputsOf, outputsOf, hmap]

namespace Walk

variable {deps : OrchestratorDeps} {w : WorkflowRun} {x y : Walk} {t : Tick} {log : List StepRow}

/-- The rows `log` are those of the run, numbered from zero, and its memory is what they say: as long
as they are all carried over, there is no summary and the outputs are theirs. -/
structure Accounts (w : WorkflowRun) (x : Walk) (log : List StepRow) : Prop where
  seqs : log.map (·.seq) = List.range x.seq
  rows : x.seq ≠ 0 → rowsOf x.rows w.run.id = log
  summary : x.summary = [] ↔ (∀ r ∈ log, r.status = .carriedOver) ∧ ¬ w.NodeTested
  outputs : x.summary = [] → x.outputs = outputsOf log

/-- Before the first row the account is empty. -/
theorem Accounts.rowsOf_eq (h : x.Accounts w log) (ha : x.Ahead w)
    (hkey : (w.run.id, x.seq) ∉ x.rows.map key) : rowsOf x.rows w.run.id = log := by
  by_cases hseq : x.seq = 0
  · have hnil : log = [] := by
      have hseqs := h.seqs
      rw [hseq, range_zero] at hseqs
      exact map_eq_nil_iff.mp hseqs
    rw [hseq] at hkey
    rw [hnil]
    exact rowsOf_eq_nil ha.zero hkey
  · exact h.rows hseq

/-- One more row, not carried over, and one more entry of the summary. -/
theorem Accounts.append (h : x.Accounts w log) (ha : x.Ahead w) {r : StepRow} {e : RunSummaryEntry}
    (hr : key r = (w.run.id, x.seq)) (hkey : (w.run.id, x.seq) ∉ x.rows.map key)
    (hstatus : r.status ≠ .carriedOver) (hrows : y.rows = x.rows ++ [r]) (hseq : y.seq = x.seq + 1)
    (hsummary : y.summary = x.summary ++ [e]) : y.Accounts w (log ++ [r]) := by
  have hrun : r.runId = w.run.id := congrArg Prod.fst hr
  have hnum : r.seq = x.seq := congrArg Prod.snd hr
  have hne : y.summary ≠ [] := by
    rw [hsummary]
    exact append_ne_nil_of_right_ne_nil _ (cons_ne_nil _ _)
  refine ⟨?_, fun _ ↦ ?_, ?_, fun hnil ↦ absurd hnil hne⟩
  · rw [hseq, range_succ, map_append, h.seqs, map_singleton, hnum]
  · have hself : rowsOf [r] w.run.id = [r] := by
      simp [rowsOf, hrun]
    rw [hrows, rowsOf_append, h.rowsOf_eq ha hkey, hself]
  · refine iff_of_false hne fun hall ↦ ?_
    exact hstatus (hall.1 r (mem_append_right _ (.head _)))

/-- **A turn that does not throw keeps the account.** -/
theorem Turn.accounts (h : Turn deps w x t y) (ha : x.Ahead w) (hx : x.Accounts w log)
    (ht : y.threw = false) : ∃ log', y.Accounts w log' := by
  cases h with
  | idle => exact ⟨log, hx⟩
  | caught => exact nomatch (show true = false from ht)
  | failed => exact ⟨log, hx.seqs, hx.rows, hx.summary, hx.outputs⟩
  | passed => exact ⟨log, hx.seqs, hx.rows, hx.summary, hx.outputs⟩
  | @finished _ status =>
    cases status <;> exact ⟨log, hx.seqs, hx.rows, hx.summary, hx.outputs⟩
  | refused => exact nomatch (show true = false from ht)
  | skipped hat hb hoff hkey =>
    refine ⟨_, hx.append ha rfl hkey ?_ rfl ?_ rfl⟩
    · exact nofun
    · show x.step + (x.seqOffset + 1) = x.step + x.seqOffset + 1
      omega
  | threw => exact nomatch (show true = false from ht)
  | executed hat hb hon hkey hh =>
    refine ⟨_, hx.append ha rfl hkey ?_ rfl ?_ rfl⟩
    · exact (handle_status hh).1
    · show x.step + 1 + x.seqOffset = x.step + x.seqOffset + 1
      omega

/-- A setup that is refused nothing accounts for the copies it made. -/
theorem accounts_setup (now : Int) {rows : List StepRow}
    (hzero : rowsOf rows w.run.id ≠ [] → (w.run.id, 0) ∈ rows.map key)
    (hdb : (w.setup now rows).dbError = none) : (w.setup now rows).Accounts w (w.copies rows) := by
  obtain ⟨-, -, hseq, -⟩ := w.setup_rows now rows
  obtain ⟨hsummary, -, houtputs⟩ := w.setup_memory now rows
  have hfirst := fun hkept ↦ kept_of_noError now hzero hdb hkept
  obtain ⟨hrows, -⟩ := setup_copied now hfirst
  refine ⟨?_, fun hne ↦ ?_, ?_, fun hnil ↦ ?_⟩
  · rw [hseq, copies, map_map, range_eq_range', ← zipIdx_map_snd 0 (w.kept rows)]
    rfl
  · have hkept : w.kept rows ≠ [] := by
      rw [hseq] at hne
      exact ne_nil_of_length_pos (Nat.pos_of_ne_zero hne)
    have hself : rowsOf (w.copies rows) w.run.id = w.copies rows :=
      filter_eq_self.mpr fun r hr ↦ decide_eq_true (mem_copies hr).1
    rw [hrows, rowsOf_append, hfirst hkept, hself, nil_append]
  · rw [hsummary]
    refine ⟨fun hnil ↦ ⟨fun r hr ↦ (mem_copies hr).2.2, fun htest ↦ ?_⟩, fun h ↦ ?_⟩
    · exact w.seeded_ne_nil htest now hnil
    · rw [w.seeded_of_not h.2 now]
  · have hnot : ¬ w.NodeTested := fun htest ↦ w.seeded_ne_nil htest now (hsummary.symm.trans hnil)
    rw [houtputs, w.seeded_of_not hnot now, w.outputsOf_copies]
    rfl

/-- An enabled step whose number is free has its row, whether or not handling it throws. -/
theorem execute_row {node : WorkflowNode} {n : StepNode}
    (hkey : (w.run.id, x.seq) ∉ x.rows.map key) :
    ∃ r, r.runId = w.run.id ∧ r.seq = x.seq ∧ r.stepId = node.id ∧
      (x.execute deps w node n t).rows = x.rows ++ [r] ∧
      ((x.execute deps w node n t).threw = true ∨ x.seq < (x.execute deps w node n t).seq) := by
  cases hh : handle deps w x node n t with
  | error err =>
    rw [execute_of_thrown hkey hh]
    exact ⟨_, rfl, rfl, rfl, rfl, .inl rfl⟩
  | ok hd =>
    rw [execute_of_handled hkey hh]
    refine ⟨_, rfl, rfl, rfl, rfl, .inr ?_⟩
    show x.step + x.seqOffset < x.step + 1 + x.seqOffset
    omega

end Walk

/-! ## The rows of a run, from a step on -/

namespace History

variable {runId : String} {h h' : History} {e : AttemptEvent} {base : List StepRow} {k : Nat}

/-- The attempt in progress accounts for the rows of the run, unless it has thrown. -/
def Accounted (h : History) : Prop :=
  ∀ a, h.attempt = some a → a.x.threw = false → ∃ log, (h.walk a).Accounts a.w log

theorem Accounted.step (hacc : h.Accounted) (ho : Ordered runId h)
    (hstep : h.step runId e = some h') : h'.Accounted := by
  cases e with
  | start deps w now =>
    rw [History.step] at hstep
    split_ifs at hstep with hcond
    obtain ⟨-, rfl⟩ := hcond
    cases hstep
    intro a hattempt _
    split_ifs at hattempt with hnone
    cases hattempt
    exact ⟨_, Walk.accounts_setup now ho.zero (Option.isNone_iff_eq_none.mp hnone)⟩
  | turn t =>
    rw [History.step] at hstep
    obtain ⟨a, hattempt, rfl⟩ := Option.map_eq_some_iff.mp hstep
    obtain ⟨rfl, ha⟩ := ho.attempt a hattempt
    intro b hb hthrew
    cases hb
    have hturn := Walk.turn_iterate a.deps a.w (h.walk a) t
    have hbefore : a.x.threw = false := by
      rcases hturn.writes with ⟨-, -, hmono⟩ | ⟨hbefore, -⟩
      · exact hmono hthrew
      · exact hbefore
    obtain ⟨log, hlog⟩ := hacc a hattempt hbefore
    exact hturn.accounts ha hlog hthrew
  | leave now child =>
    rw [History.step] at hstep
    obtain ⟨a, -, hstep⟩ := Option.bind_eq_some_iff.mp hstep
    split_ifs at hstep
    cases hstep
    exact fun b hb ↦ by cases hb
  | abandon =>
    cases hstep
    exact fun b hb ↦ by cases hb
  | other r =>
    obtain ⟨hcond, ⟨⟩⟩ := Option.ite_none_right_eq_some.mp hstep
    intro a hattempt hthrew
    obtain ⟨rfl, -⟩ := ho.attempt a hattempt
    obtain ⟨log, hlog⟩ := hacc a hattempt hthrew
    exact ⟨log, hlog.seqs, fun hne ↦ (rowsOf_other hcond.1).trans (hlog.rows hne), hlog.summary,
      hlog.outputs⟩

/-- The rows of the run begin with `base`, which reaches up to `k`, and from now on only larger
numbers are given out. -/
structure Past (runId : String) (base : List StepRow) (k : Nat) (h : History) : Prop where
  reached : ∃ r ∈ base, r.seq = k
  rows : ∃ later, rowsOf h.rows runId = base ++ later ∧ ∀ r ∈ later, k < r.seq
  attempt : ∀ a, h.attempt = some a → a.x.threw = true ∨ a.x.seq = 0 ∨ k < a.x.seq

section

variable (hp : Past runId base k h)
include hp

theorem Past.ne_nil : rowsOf h.rows runId ≠ [] := by
  obtain ⟨r, hr, -⟩ := hp.reached
  obtain ⟨later, hrows, -⟩ := hp.rows
  rw [hrows]
  exact ne_nil_of_mem (mem_append_left _ hr)

theorem Past.lt_nextSeq : k < nextSeq h.rows runId := by
  obtain ⟨r, hr, rfl⟩ := hp.reached
  obtain ⟨later, hrows, -⟩ := hp.rows
  refine StepTable.lt_nextSeq ?_
  rw [hrows]
  exact mem_append_left _ hr

/-- More rows with larger numbers. -/
theorem Past.append {rows new : List StepRow}
    (hrows : rows = h.rows ++ new) (hnew : ∀ r ∈ rowsOf new runId, k < r.seq) :
    ∃ later, rowsOf rows runId = base ++ later ∧ ∀ r ∈ later, k < r.seq := by
  obtain ⟨later, hlater, hlt⟩ := hp.rows
  refine ⟨later ++ rowsOf new runId, ?_, fun r hr ↦ ?_⟩
  · rw [hrows, rowsOf_append, hlater, append_assoc]
  · rcases mem_append.mp hr with hr | hr
    · exact hlt r hr
    · exact hnew r hr

/-- **What was written stays**: no event of any attempt writes a number up to `k` again. -/
theorem Past.step (ho : Ordered runId h) (hstep : h.step runId e = some h') : Past runId base k h' := by
  have hzero := ho.zero hp.ne_nil
  cases e with
  | start deps w now =>
    rw [History.step] at hstep
    split_ifs at hstep with hcond
    obtain ⟨-, rfl⟩ := hcond
    cases hstep
    obtain ⟨hrows, -, hseq, -⟩ := w.setup_rows now h.rows
    by_cases hkept : w.kept h.rows = []
    · have hcopies : w.copies h.rows = [] := by
        rw [copies, hkept]
        rfl
      rw [hcopies] at hrows
      refine ⟨hp.reached, ?_, fun a hattempt ↦ ?_⟩
      · show ∃ later, rowsOf (w.setup now h.rows).rows _ = base ++ later ∧ _
        rw [hrows]
        exact hp.rows
      · dsimp only at hattempt
        split_ifs at hattempt
        cases hattempt
        rw [hkept] at hseq
        exact .inr (.inl hseq)
    · obtain ⟨hsame, hdb⟩ := Walk.setup_refused now hzero hkept
      refine ⟨hp.reached, ?_, fun a hattempt ↦ ?_⟩
      · show ∃ later, rowsOf (w.setup now h.rows).rows _ = base ++ later ∧ _
        rw [hsame]
        exact hp.rows
      · dsimp only at hattempt
        rw [hdb] at hattempt
        cases hattempt
  | turn t =>
    rw [History.step] at hstep
    obtain ⟨a, hattempt, rfl⟩ := Option.map_eq_some_iff.mp hstep
    obtain ⟨rfl, -⟩ := ho.attempt a hattempt
    have hpast := hp.attempt a hattempt
    rcases (Walk.turn_iterate a.deps a.w (h.walk a) t).writes with
      ⟨hrows, hseq, hmono⟩ | ⟨hthrew, r, hr, hkey, hrows, hcount⟩
    · refine ⟨hp.reached, ?_, fun b hb ↦ ?_⟩
      · show ∃ later, rowsOf ((h.walk a).iterate a.deps a.w t).rows _ = base ++ later ∧ _
        rw [hrows]
        exact hp.rows
      · cases hb
        show ((h.walk a).iterate a.deps a.w t).threw = true ∨ _
        rw [hseq]
        refine hpast.imp_left fun ht ↦ ?_
        by_contra hne
        have hbefore : a.x.threw = false := hmono (by simpa using hne)
        rw [ht] at hbefore
        cases hbefore
    · -- A row was written, so its number was free: it is not the first.
      have hlt : k < (h.walk a).seq := by
        rcases hpast with ht | hseq | hlt
        · exact absurd (ht.symm.trans hthrew) (by simp)
        · have hz : (h.walk a).seq = 0 := hseq
          rw [hz] at hkey
          exact absurd hzero hkey
        · exact hlt
      refine ⟨hp.reached, hp.append hrows fun r' hr' ↦ ?_, fun b hb ↦ ?_⟩
      · obtain ⟨hr', -⟩ := mem_rowsOf.mp hr'
        obtain rfl := mem_singleton.mp hr'
        have hnum : r'.seq = (h.walk a).seq := congrArg Prod.snd hr
        omega
      · cases hb
        show ((h.walk a).iterate a.deps a.w t).threw = true ∨ _
        cases ht : ((h.walk a).iterate a.deps a.w t).threw with
        | true => exact .inl rfl
        | false =>
          refine .inr (.inr ?_)
          rw [hcount ht]
          omega
  | leave now child =>
    rw [History.step] at hstep
    obtain ⟨a, hattempt, hstep⟩ := Option.bind_eq_some_iff.mp hstep
    obtain ⟨rfl, -⟩ := ho.attempt a hattempt
    split_ifs at hstep with hrun
    cases hstep
    have hskip : k < (h.walk a).skipSeq a.w := by
      have hle : nextSeq h.rows a.w.run.id ≤ (h.walk a).skipSeq a.w := Nat.le_max_right _ _
      have := hp.lt_nextSeq
      omega
    have hunreached : ∀ r ∈ (h.walk a).unreachedRows a.w, k < r.seq := by
      intro r hr
      have := (Walk.mem_unreachedRows hr).2.1
      omega
    refine ⟨hp.reached, ?_, fun b hb ↦ by cases hb⟩
    rcases (Walk.leave_rows a.deps a.w (h.walk a) now child).2 with hrows | ⟨run, hrows⟩
    · exact hp.append hrows fun r hr ↦ hunreached r (mem_rowsOf.mp hr).1
    · rw [append_assoc] at hrows
      refine hp.append hrows fun r' hr' ↦ ?_
      rcases mem_append.mp (mem_rowsOf.mp hr').1 with hr' | hr'
      · exact hunreached r' hr'
      · obtain rfl := mem_singleton.mp hr'
        dsimp only [Walk.cleanupRow]
        omega
  | abandon =>
    cases hstep
    exact ⟨hp.reached, hp.rows, fun b hb ↦ by cases hb⟩
  | other r =>
    obtain ⟨hcond, ⟨⟩⟩ := Option.ite_none_right_eq_some.mp hstep
    refine ⟨hp.reached, ?_, hp.attempt⟩
    show ∃ later, rowsOf (h.rows ++ [r]) runId = base ++ later ∧ _
    rw [rowsOf_other hcond.1]
    exact hp.rows

end

/-- Once a step is logged, the rows of the run up to it are settled. -/
theorem past_of_turn {a : AttemptAt} {node : WorkflowNode} {n : StepNode} {t : Tick}
    {log : List StepRow} (ho : Ordered a.w.run.id h) (hattempt : h.attempt = some a)
    (hlog : (h.walk a).Accounts a.w log) (hat : (h.walk a).At a.w node)
    (hbody : node.body = .step n) (hon : node.enabled = true) (hab : t.abortedBefore = false)
    (htotal : t.elapsedMs ≤ a.deps.maxTotalMs)
    (hkey : (a.w.run.id, (h.walk a).seq) ∉ h.rows.map key)
    (hstep : h.step a.w.run.id (.turn t) = some h') :
    ∃ r, r.seq = (h.walk a).seq ∧ r.stepId = node.id ∧
      Past a.w.run.id (log ++ [r]) (h.walk a).seq h' := by
  obtain ⟨-, ha⟩ := ho.attempt a hattempt
  rw [History.step, hattempt] at hstep
  cases hstep
  obtain ⟨r, hrun, hseq, hid, hrows, hcount⟩ :=
    @Walk.execute_row a.deps a.w (h.walk a) t node n hkey
  have hreach : (h.walk a).iterate a.deps a.w t = (h.walk a).execute a.deps a.w node n t := by
    rw [Walk.iterate_at hat hab htotal, Walk.reach, hbody]
    exact if_pos hon
  have hself : rowsOf [r] a.w.run.id = [r] := by
    simp [rowsOf, hrun]
  refine ⟨r, hseq, hid, ⟨r, by simp, hseq⟩, ⟨[], ?_, by simp⟩, fun b hb ↦ ?_⟩
  · show rowsOf ((h.walk a).iterate a.deps a.w t).rows _ = _
    rw [hreach, hrows, rowsOf_append, hself, append_nil, hlog.rowsOf_eq ha hkey]
  · cases hb
    show ((h.walk a).iterate a.deps a.w t).threw = true ∨ _
    rw [hreach]
    exact hcount.imp_right .inr

end History

/-- What a resume reads off a table whose rows of the run are `log`, then the step's row, then
others: the rows of `log` it carries over, and the step. -/
theorem WorkflowRun.priorSteps_of_rows {rows log later : List StepRow} {runId : String}
    {r : StepRow} (hrows : rowsOf rows runId = log ++ r :: later)
    (hlog : log.map (·.seq) = List.range r.seq) (hlater : ∀ r' ∈ later, r.seq < r'.seq) :
    keptSteps rows runId r.seq = log.filter carries ∧
      (priorSteps rows runId).find? (fun r' ↦ r'.seq = r.seq) = some r := by
  have hlt : ∀ r' ∈ log, r'.seq < r.seq := by
    intro r' hr'
    have hmem := mem_map_of_mem (f := (·.seq)) hr'
    rw [hlog] at hmem
    exact mem_range.mp hmem
  have hsorted : log.Pairwise fun a b ↦ a.seq ≤ b.seq := by
    have hrange : (log.map (·.seq)).Pairwise (· < ·) := by
      rw [hlog]
      exact pairwise_lt_range
    exact (pairwise_map.mp hrange).imp Nat.le_of_lt
  have hprior : priorSteps rows runId =
      log ++ r :: later.insertionSort fun a b ↦ a.seq ≤ b.seq := by
    rw [priorSteps, hrows, Sql.insertionSort_append hsorted, insertionSort_cons_of_forall_rel]
    · exact fun r' hr' ↦ Nat.le_of_lt (hlater r' hr')
    · intro a ha b hb
      rcases mem_cons.mp hb with rfl | hb
      · exact Nat.le_of_lt (hlt a ha)
      · exact Nat.le_of_lt ((hlt a ha).trans (hlater b hb))
  constructor
  · have htake : (priorSteps rows runId).takeWhile (fun r' ↦ r'.seq < r.seq) = log := by
      rw [hprior, takeWhile_append_of_pos fun a ha ↦ decide_eq_true (hlt a ha),
        takeWhile_cons_of_neg (by simp), append_nil]
    rw [keptSteps, htake]
  · have hnone : log.find? (fun r' ↦ r'.seq = r.seq) = none := by
      rw [find?_eq_none]
      intro r' hr' he
      have := hlt r' hr'
      simp only [decide_eq_true_eq] at he
      omega
    rw [hprior, find?_append, hnone, Option.none_or, find?_cons_of_pos (by simp)]

/-! ## Resuming a run -/

/-- What the resume route asks `addRun` for. -/
def resumeInput (runId : String) (fromStep : Nat) : AddRunInput :=
  { trigger := .resume, resumedFromRunId := some runId, resumedFromStep := some fromStep }

/-- What no later write to a run changes. -/
structure SameRequest (r r' : JobRunRow) : Prop where
  id : r.id = r'.id
  trigger : r.trigger = r'.trigger
  seed : r.seed = r'.seed
  resumedFromRunId : r.resumedFromRunId = r'.resumedFromRunId
  resumedFromStep : r.resumedFromStep = r'.resumedFromStep

/-- A run that comes to a step, and the run that resumes it there. -/
structure Resumption where
  /-- Before the run. -/
  start : History
  /-- An attempt at the run has come to the step. -/
  reached : History
  attempt : AttemptAt
  node : WorkflowNode
  n : StepNode
  /-- The turn the step is evaluated in. -/
  t : Tick
  /-- Some time later the run is resumed. -/
  later : History
  resumed : WorkflowRun
  now : Int
  /-- The turn the step is evaluated in again. -/
  again : Tick

namespace Resumption

section Definitions

variable (c : Resumption)

/-- The attempt at the step. -/
def x : Walk := c.reached.walk c.attempt

/-- The resume, once it is set up. -/
def y : Walk := c.resumed.setup c.now c.later.rows

/-- The id of the original run. -/
def runId : String := c.attempt.w.run.id

/-- The rows the run has when it comes to the step. -/
def before : List StepRow := rowsOf c.reached.rows c.runId

/-- The scope the step was evaluated in. -/
def scope : ResolveScope := scopeAt c.attempt.deps c.attempt.w c.x c.t c.x.seq

/-- The scope the resume evaluates its first step in. -/
def resumedScope : ResolveScope := scopeAt c.attempt.deps c.resumed c.y c.again c.y.seq

/-- The resume is one of the run, from the step: the step was evaluated and has its row; whatever
happened to the run since, `addRun` has made a new run of the same document. -/
structure Premises : Prop where
  unattempted : History.Unattempted c.runId c.start
  comes : ∃ es, Steps (Steps.By (History.step c.runId)) c.start es c.reached
  attempted : c.reached.attempt = some c.attempt
  at_ : c.x.At c.attempt.w c.node
  body : c.node.body = .step c.n
  enabled : c.node.enabled = true
  inTime : c.t.abortedBefore = false ∧ c.t.elapsedMs ≤ c.attempt.deps.maxTotalMs
  logged : (c.runId, c.x.seq) ∉ c.reached.rows.map key
  goesOn : ∃ h es, c.reached.step c.runId (.turn c.t) = some h ∧
    Steps (Steps.By (History.step c.runId)) h es c.later
  added : ∃ (s : Store) (env : Ambient) (job : JobRow) (row : JobRunRow),
    s.run? c.runId = some row ∧ row.seed = c.attempt.w.run.seed ∧
      SameRequest c.resumed.run (s.newRun env job (resumeInput c.runId c.x.seq))
  sameDoc : c.resumed.doc = c.attempt.w.doc
  newRun : rowsOf c.later.rows c.resumed.run.id = []

/-- The step is evaluated again, with the data it had: the same output of every node, the same
`$input`, the same summary. -/
def SameData : Prop :=
  c.y.At c.resumed c.node ∧
    (∀ id, OrdMap.get? id c.resumedScope.outputs = OrdMap.get? id c.scope.outputs) ∧
    Walk.currentInputValue c.y.summary = Walk.currentInputValue c.x.summary ∧
    c.resumedScope.summary = c.scope.summary

/-- The step is evaluated again, with the draw it had. -/
def SameDraw : Prop := c.y.At c.resumed c.node ∧ c.resumedScope.randomSeed = c.scope.randomSeed

end Definitions

variable {c : Resumption}

/-! ### The original run -/

section

variable (hp : c.Premises)
include hp

theorem ordered_reached : History.Ordered c.runId c.reached := by
  obtain ⟨es, hes⟩ := hp.comes
  exact hes.invariant hp.unattempted.ordered fun _ _ _ ho hs ↦ ho.step hs

theorem accounted_reached : c.reached.Accounted := by
  obtain ⟨es, hes⟩ := hp.comes
  have hstart : c.start.Accounted := by
    intro a ha
    rw [hp.unattempted.attempt] at ha
    exact nomatch ha
  exact (hes.invariant (I := fun h ↦ History.Ordered c.runId h ∧ h.Accounted)
    ⟨hp.unattempted.ordered, hstart⟩ fun _ _ _ hi hs ↦ ⟨hi.1.step hs, hi.2.step hi.1 hs⟩).2

/-- The run's rows at the step are the account of the attempt that came there. -/
theorem accounts_before : c.x.Accounts c.attempt.w c.before := by
  obtain ⟨log, hlog⟩ := accounted_reached hp c.attempt hp.attempted hp.at_.threw
  obtain ⟨-, ha⟩ := (ordered_reached hp).attempt c.attempt hp.attempted
  have hrows : c.before = log := hlog.rowsOf_eq ha hp.logged
  rw [hrows]
  exact hlog

/-- The rows the resume finds: those before the step, the step's, and rows with larger numbers. -/
theorem rowsOf_later : ∃ r later, r.seq = c.x.seq ∧ r.stepId = c.node.id ∧
    rowsOf c.later.rows c.runId = c.before ++ r :: later ∧ ∀ r' ∈ later, c.x.seq < r'.seq := by
  have ho := ordered_reached hp
  obtain ⟨h, es, hstep, hes⟩ := hp.goesOn
  obtain ⟨r, hseq, hid, hpast⟩ := History.past_of_turn ho hp.attempted (accounts_before hp) hp.at_
    hp.body hp.enabled hp.inTime.1 hp.inTime.2 hp.logged hstep
  obtain ⟨-, hlater⟩ := hes.invariant
    (I := fun h ↦ History.Ordered c.runId h ∧ History.Past c.runId (c.before ++ [r]) c.x.seq h)
    ⟨ho.step hstep, hpast⟩ fun _ _ _ hi hs ↦ ⟨hi.1.step hs, hi.2.step hi.1 hs⟩
  obtain ⟨later, hrows, hlt⟩ := hlater.rows
  refine ⟨r, later, hseq, hid, ?_, hlt⟩
  rw [hrows, append_assoc, singleton_append]

/-! ### What the resume makes of it -/

theorem resumeFrom : c.resumed.resumeFrom? = some (c.runId, c.x.seq) := by
  obtain ⟨s, env, job, row, -, -, hreq⟩ := hp.added
  rw [resumeFrom?, hreq.trigger, hreq.resumedFromRunId, hreq.resumedFromStep]
  rfl

/-- The seed is the original run's. -/
theorem seed_resumed : c.resumed.run.seed = c.attempt.w.run.seed := by
  obtain ⟨s, env, job, row, hrow, hseed, hreq⟩ := hp.added
  have hfrom : (resumeInput c.runId c.x.seq).resumedFromRunId.bind s.run? = some row := hrow
  rw [hreq.seed, Store.newRun, ← hseed]
  show ((if RunTrigger.resume = RunTrigger.resume then _ else none).map _).getD _ = _
  rw [if_pos rfl, hfrom]
  rfl

theorem not_nodeTested : ¬ c.resumed.NodeTested := by
  obtain ⟨s, env, job, row, -, -, hreq⟩ := hp.added
  rintro ⟨htrigger, -⟩
  rw [hreq.trigger] at htrigger
  exact nomatch htrigger

theorem kept_resumed : c.resumed.kept c.later.rows = c.before.filter carries := by
  obtain ⟨r, later, hseq, -, hrows, hlt⟩ := rowsOf_later hp
  have hseqs := (accounts_before hp).seqs
  rw [← hseq] at hseqs hlt
  rw [WorkflowRun.kept, resumeFrom hp, ← hseq]
  exact (priorSteps_of_rows hrows hseqs hlt).1

/-- **The resume comes to the step**, with its rows copied. -/
theorem resumed_at : c.y.At c.resumed c.node ∧ c.y.dbError = none := by
  obtain ⟨r, later, hseq, hid, hrows, hlt⟩ := rowsOf_later hp
  have hseqs := (accounts_before hp).seqs
  rw [← hseq] at hseqs hlt
  obtain ⟨-, -, -, hthrew⟩ := c.resumed.setup_rows c.now c.later.rows
  obtain ⟨-, hstep, -⟩ := c.resumed.setup_memory c.now c.later.rows
  refine ⟨⟨hthrew, ?_, ?_, ?_⟩, (Walk.setup_copied c.now fun _ ↦ hp.newRun).2⟩
  · rw [y, setup_cursor (resumeFrom hp), ← hseq, (priorSteps_of_rows hrows hseqs hlt).2, ← hid]
    rfl
  · rw [hp.sameDoc]
    exact hp.at_.node
  · rw [hp.sameDoc]
    exact Nat.lt_of_le_of_lt (Nat.le_of_eq hstep |>.trans (Nat.zero_le _)) hp.at_.budget

/-- The resume starts without a summary, with the outputs of the rows carried over, and with as many
rows. -/
theorem resumed_memory : c.y.summary = [] ∧ c.y.outputs = outputsOf (c.before.filter carries) ∧
    c.y.seq = (c.before.filter carries).length := by
  obtain ⟨-, -, hseq, -⟩ := c.resumed.setup_rows c.now c.later.rows
  obtain ⟨hsummary, -, houtputs⟩ := c.resumed.setup_memory c.now c.later.rows
  rw [seeded_of_not (not_nodeTested hp)] at hsummary houtputs
  rw [kept_resumed hp] at houtputs hseq
  exact ⟨hsummary, houtputs, hseq⟩

end

/-! ### When it is the same -/

/-- **When a resume continues the run's data.**  The step is evaluated with the outputs, the `$input`
and the summary it had if and only if the run had done nothing before it but carry rows over, and
was not started with a predecessor's output by a node test. -/
theorem resume_keeps_data_iff (hp : c.Premises) :
    c.SameData ↔ (∀ r ∈ c.before, r.status = .carriedOver) ∧ ¬ c.attempt.w.NodeTested := by
  have hacc := accounts_before hp
  obtain ⟨hsummary, houtputs, -⟩ := resumed_memory hp
  rw [← hacc.summary]
  constructor
  · rintro ⟨-, -, -, hsame⟩
    have hnil : c.x.summary = c.y.summary := hsame.symm
    rw [hnil, hsummary]
  · intro hnil
    obtain ⟨hall, -⟩ := hacc.summary.mp hnil
    have hcarried : c.before.filter carries = c.before :=
      filter_eq_self.mpr fun r hr ↦ by rw [carries, hall r hr]; rfl
    have hsame : c.y.outputs = c.x.outputs := by
      rw [houtputs, hcarried, hacc.outputs hnil]
    refine ⟨(resumed_at hp).1, fun id ↦ ?_, ?_, ?_⟩
    · show OrdMap.get? id c.y.outputs = OrdMap.get? id c.x.outputs
      rw [hsame]
    · rw [hsummary, hnil]
    · show c.y.summary = c.x.summary
      rw [hsummary, hnil]

/-- Two steps that happen to be given the same draw. -/
def Collide (seed : Int) (i j : Nat) : Prop := i ≠ j ∧ deriveRandom seed i = deriveRandom seed j

/-- **When a resume repeats the run's draw.**  The step is given the draw it had if and only if every
row before it was a success or carried over, or the step the resume numbers like this one happens
to have the same draw. -/
theorem resume_keeps_draw_iff (hp : c.Premises) :
    c.SameDraw ↔ (∀ r ∈ c.before, WorkflowRun.carries r = true) ∨
      Collide c.attempt.w.run.seed (c.before.countP WorkflowRun.carries) c.x.seq := by
  obtain ⟨-, -, hseq⟩ := resumed_memory hp
  have hlen : c.before.length = c.x.seq := by
    have hseqs := congrArg List.length (accounts_before hp).seqs
    rwa [length_map, length_range] at hseqs
  have hcount : c.before.countP carries = c.x.seq ↔
      ∀ r ∈ c.before, carries r = true := by
    rw [← hlen]
    exact countP_eq_length
  have hdraw : c.SameDraw ↔ deriveRandom c.attempt.w.run.seed
      (c.before.countP carries) = deriveRandom c.attempt.w.run.seed c.x.seq := by
    rw [SameDraw, and_iff_right (resumed_at hp).1]
    show deriveRandom c.resumed.run.seed c.y.seq = _ ↔ _
    rw [seed_resumed hp, hseq, countP_eq_length_filter]
    rfl
  rw [hdraw, Collide, ← hcount]
  constructor
  · intro h
    by_cases hc : c.before.countP carries = c.x.seq
    · exact .inl hc
    · exact .inr ⟨hc, h⟩
  · rintro (hc | ⟨-, h⟩)
    · rw [hc]
    · exact h

end Resumption

/-! ## A run of two scripts, resumed -/

namespace TwoTaps

def first : WorkflowNode :=
  ⟨"first", true, .step (.script ⟨"tap@1", [], some "second", some "second"⟩)⟩

def second : WorkflowNode := ⟨"second", true, .step (.script ⟨"tap@1", [], none, none⟩)⟩

/-- The second script follows the first one, however that comes out. -/
def doc : WorkflowDoc where
  name := "flow"
  params := []
  entry := "start"
  nodes := [⟨"start", true, .start (some "first")⟩, first, second]
  maxSteps := 50
  onFail := none

def original : WorkflowRun :=
  Bare.workflow doc (Bare.run "run" { trigger := .manual, seed := some 7 })

/-- The runs of the job, and its resume of the run at step `k`. -/
def resumed (k : Nat) : WorkflowRun :=
  Bare.workflow doc (({ Store.empty with runs := [original.run] } : Store).newRun ⟨0, "again", 1⟩
    Bare.job (resumeInput "run" k))

def succeeds : Tick := Bare.tick (.str "ok")

def fails : Tick :=
  { Bare.tick .null with
    child := .settled { Bare.run "child" { trigger := .workflowStep } with
                        status := .failed
                        error := some "no such screen" } }

/-- The original run after some turns. -/
def after (ticks : List Tick) : History :=
  { rows := ((original.setup 0 []).iterates Bare.deps original ticks).rows
    attempt := some ⟨Bare.deps, original, (original.setup 0 []).iterates Bare.deps original ticks⟩ }

/-- The run is resumed at the node it comes to after some turns, once one more turn has run. -/
def resumption (ticks : List Tick) (node : WorkflowNode) (n : StepNode) (k : Nat) : Resumption where
  start := ⟨[], none, false⟩
  reached := after ticks
  attempt := ⟨Bare.deps, original, (original.setup 0 []).iterates Bare.deps original ticks⟩
  node := node
  n := n
  t := succeeds
  later := after (ticks ++ [succeeds])
  resumed := resumed k
  now := 0
  again := succeeds

/-- The resume of the run at its very first step. -/
def atFirst : Resumption :=
  resumption [succeeds] first (.script ⟨"tap@1", [], some "second", some "second"⟩) 0

/-- The resume at the second step, after the first succeeded. -/
def atSecond : Resumption :=
  resumption [succeeds, succeeds] second (.script ⟨"tap@1", [], none, none⟩) 1

/-- The resume at the second step, which the run came to by the first one's `onFailure`. -/
def afterFailure : Resumption :=
  resumption [succeeds, fails] second (.script ⟨"tap@1", [], none, none⟩) 1

/-- Everything but the run's steps up to the node is read off the resumption. -/
theorem premises {r : Resumption} (hr : r ∈ [atFirst, atSecond, afterFailure]) : r.Premises := by
  have hcomes : ∃ es, Steps (Steps.By (History.step r.runId)) r.start es r.reached := by
    fin_cases hr
    · exact ⟨[.start Bare.deps original 0, .turn succeeds], Steps.steps_by_iff.mpr rfl⟩
    · exact ⟨[.start Bare.deps original 0, .turn succeeds, .turn succeeds], Steps.steps_by_iff.mpr rfl⟩
    · exact ⟨[.start Bare.deps original 0, .turn succeeds, .turn fails], Steps.steps_by_iff.mpr rfl⟩
  fin_cases hr
  all_goals
    exact {
      unattempted := ⟨rfl, rfl, rfl⟩
      comes := hcomes
      attempted := rfl
      at_ := ⟨rfl, rfl, rfl, by decide⟩
      body := rfl
      enabled := rfl
      inTime := ⟨rfl, by decide⟩
      logged := by decide
      goesOn := ⟨_, [], rfl, Steps.steps_by_iff.mpr rfl⟩
      added := ⟨_, _, _, original.run, rfl, rfl, rfl, rfl, rfl, rfl, rfl⟩
      sameDoc := rfl
      newRun := rfl }

/-- Nothing came before the first step. -/
theorem resume_keeps_data_atFirst : atFirst.SameData :=
  (Resumption.resume_keeps_data_iff (premises (.head _))).mpr ⟨by decide, fun h ↦ nomatch h.1⟩

/-- **A resume that loses its input**: the second step had the first one's output for `$input` and
in its summary; the resume has `null` and no summary. -/
theorem input_lost_atSecond : atSecond.Premises ∧ ¬ atSecond.SameData ∧
    Walk.currentInputValue atSecond.x.summary = .str "ok" ∧
    Walk.currentInputValue atSecond.y.summary = .null ∧
    atSecond.x.summary.length = 1 ∧ atSecond.y.summary = [] := by
  refine ⟨premises (.tail _ (.head _)), ?_, rfl, rfl, rfl, rfl⟩
  rintro ⟨-, -, hinput, -⟩
  exact nomatch hinput

/-- Everything before the second step succeeded. -/
theorem resume_keeps_draw_atSecond : atSecond.SameDraw :=
  (Resumption.resume_keeps_draw_iff (premises (.tail _ (.head _)))).mpr (.inl (by decide))

/-- **A resume that draws again**: the failed step's row is not carried over, so the resume numbers
the second step 0, and gives it the draw of step 0. -/
theorem draw_changed_afterFailure : afterFailure.Premises ∧ ¬ afterFailure.SameDraw ∧
    afterFailure.scope.randomSeed = deriveRandom 7 1 ∧
    afterFailure.resumedScope.randomSeed = deriveRandom 7 0 := by
  refine ⟨premises (.tail _ (.tail _ (.head _))), ?_, rfl, rfl⟩
  rintro ⟨-, hdraw⟩
  have h : deriveRandom 7 0 = deriveRandom 7 1 := hdraw
  exact absurd (mulberry32_inj.mp h) (by decide)

end TwoTaps

end Enkaku
