import Enkaku.Jobs.Numbering

/-!
# Settled runs

A run that was settled, cancelled or expired is over.  Every writer selects by a status or looks its
run up by one first, except for the pacer, which writes the pacing columns of any run, and
`deleteRuns`.
-/

set_option autoImplicit false

namespace Enkaku

open List

/-- A run without what the pacer writes. -/
def JobRunRow.unpaced (r : JobRunRow) : JobRunRow :=
  { r with
    held := false
    notBefore := none
    expiresAt := none
    batchRepeat := none
    batchWave := none
    pacedDelayMs := none }

namespace Store

variable {s s' : Store} {op : Op} {r r₀ : JobRunRow} {runId : String} {status : RunStatus}

/-- An update that spares the row keeps it. -/
theorem settled_update {p : JobRunRow → Bool} {f : JobRunRow → JobRunRow} (hr : r ∈ s.runs)
    (h : p r = true → (f r).unpaced = r.unpaced) :
    ∃ r' ∈ Sql.update p f s.runs, r'.unpaced = r.unpaced := by
  refine ⟨_, mem_map_of_mem hr, ?_⟩
  split
  · exact h ‹_›
  · rfl

/-- An update of a run that is not over spares those that are. -/
theorem settled_updateRun {f : JobRunRow → JobRunRow} (hk : Keys s) (hr : r ∈ s.runs)
    (ht : r.status.terminal = true) (hr₀ : r₀ ∈ s.runs) (ht₀ : r₀.status.terminal = false) :
    ∃ r' ∈ (s.updateRun r₀.id f).runs, r'.unpaced = r.unpaced := by
  refine settled_update hr fun hid ↦ ?_
  obtain rfl := inj_on_of_nodup_map hk.run_ids hr hr₀ (of_decide_eq_true hid)
  exact absurd (ht.symm.trans ht₀) (by decide)

theorem settled_of_runIn? {f : JobRunRow → JobRunRow} (hk : Keys s) (hr : r ∈ s.runs)
    (ht : r.status.terminal = true) (h : s.runIn? runId status = some r₀)
    (hstatus : status.terminal = false) :
    ∃ r' ∈ (s.updateRun runId f).runs, r'.unpaced = r.unpaced := by
  obtain ⟨hr₀, rfl, rfl⟩ := runIn?_some h
  exact settled_updateRun hk hr ht hr₀ hstatus

/-- One call leaves a settled run as it is, unless it deletes it. -/
theorem settled_exec (hk : Keys s) (hop : s.exec op = some s') (hr : r ∈ s.runs)
    (ht : r.status.terminal = true) (hkept : ∀ runIds, op = .deleteRuns runIds → r.id ∉ runIds) :
    ∃ r' ∈ s'.runs, r'.unpaced = r.unpaced := by
  have hsame : ∃ r' ∈ s.runs, r'.unpaced = r.unpaced := ⟨r, hr, rfl⟩
  have hne : ∀ status : RunStatus, status.terminal = false → r.status ≠ status := by
    rintro _ hstatus rfl
    exact absurd (ht.symm.trans hstatus) (by decide)
  cases op with
  | createJob call =>
    cases hop
    cases hc : s.createJob call.env call.input with
    | error e => exact hsame
    | ok p =>
      obtain ⟨-, -, hs⟩ := createJob_ok (j := p.1) hc
      rwa [commit, hs]
  | addRun env jobId input =>
    cases hop
    cases hc : s.addRun env jobId input with
    | error e => exact hsame
    | ok p =>
      obtain ⟨job, -, -, -, -, hs⟩ := addRun_ok (r := p.1) hc
      rw [commit, hs]
      exact ⟨r, mem_append_left _ hr, rfl⟩
  | claimNext now jobTtlSec excludeDeviceIds c =>
    obtain ⟨hc, ⟨⟩⟩ := Option.ite_none_right_eq_some.mp hop
    have hc := claimed_of_mem_claimable hc.1
    exact settled_updateRun hk hr ht hc.run_mem (by rw [hc.queued]; rfl)
  | settle | cancelQueuedRun | requeueForRebind =>
    simp only [exec, settle, cancelQueuedRun, requeueForRebind, Option.some.injEq] at hop
    subst hop
    split
    · exact hsame
    · exact settled_of_runIn? hk hr ht ‹_› rfl
  | renewHeartbeat =>
    cases hop
    exact settled_update hr fun hp ↦
      absurd (of_decide_eq_true (Bool.and_elim_right hp)) (hne .running rfl)
  | expireQueued =>
    cases hop
    exact settled_update hr fun hp ↦
      absurd (of_decide_eq_true (Bool.and_elim_left hp)) (hne .queued rfl)
  | failOrphanRunning =>
    cases hop
    exact settled_update hr fun hp ↦ absurd (of_decide_eq_true hp) (hne .running rfl)
  | paceRun =>
    cases hop
    exact settled_update hr fun _ ↦ rfl
  | deleteRuns runIds =>
    cases hop
    rw [deleteRuns, foldl_recount_eq]
    exact ⟨r, mem_filter.mpr ⟨hr, by simpa using hkept runIds rfl⟩, rfl⟩
  | putDevice d =>
    cases hop
    exact hsame
  | insertBatch b =>
    cases hop
    rw [insertBatch]
    split <;> exact hsame

/-- **A settled run is final.**  From a reachable state on, whatever is called, a run that was over
keeps its row, with its status, its result and everything else but its pacing, until it is deleted. -/
theorem settled_final {ops : List Op} (hs : Reachable s) (h : Steps (Steps.By exec) s ops s')
    (hr : r ∈ s.runs) (ht : r.status.terminal = true)
    (hkept : ∀ runIds, .deleteRuns runIds ∈ ops → r.id ∉ runIds) :
    ∃ r' ∈ s'.runs, r'.unpaced = r.unpaced := by
  have hboth : Reachable s' ∧ ∃ r' ∈ s'.runs, r'.unpaced = r.unpaced := by
    induction h with
    | nil => exact ⟨hs, r, hr, rfl⟩
    | snoc _ hop ih =>
      obtain ⟨hreach, r', hr', heq⟩ := ih fun runIds hmem ↦ hkept runIds (mem_append_left _ hmem)
      have hid : r'.id = r.id := congrArg (fun r ↦ r.id) heq
      have hstatus : r'.status = r.status := congrArg (fun r ↦ r.status) heq
      have hlast := @settled_exec _ _ _ r' hreach.keys hop hr' (hstatus ▸ ht)
      obtain ⟨r'', hr'', heq'⟩ := hlast fun runIds hdelete ↦
        hid ▸ hkept runIds (mem_append_right _ (mem_singleton.mpr hdelete.symm))
      exact ⟨hreach.exec hop, r'', hr'', heq'.trans heq⟩
  exact hboth.2

/-- The third run was cancelled; a fourth is added and deleted again. -/
theorem settled_final_swept : ∃ s s', Steps (Steps.By exec) s [fourth, .deleteRuns ["fourth"]] s' ∧
    ∃ r ∈ s.runs, (r.id, r.status) = ("third", .cancelled) ∧ ∃ r' ∈ s'.runs, r'.unpaced = r.unpaced := by
  obtain ⟨t, h⟩ : ∃ t, Steps (Steps.By exec) ((swept.foldlM exec empty).getD empty)
      [fourth, .deleteRuns ["fourth"]] t := ⟨_, Steps.steps_by_iff.mpr rfl⟩
  refine ⟨_, t, h, _, .head _, rfl, settled_final (reachable_of_foldlM swept rfl) h (.head _) rfl ?_⟩
  intro runIds hmem
  obtain rfl : runIds = ["fourth"] := by simpa [fourth] using hmem
  decide

/-- **The tables are in order** in every reachable state. -/
theorem tables_in_order (h : Reachable s) : Keys s ∧ Numbered s := ⟨h.keys, h.numbered⟩

theorem tables_in_order_swept : Keys ((swept.foldlM exec empty).getD empty) ∧
    Numbered ((swept.foldlM exec empty).getD empty) := tables_in_order (reachable_of_foldlM swept rfl)

end Store

end Enkaku
