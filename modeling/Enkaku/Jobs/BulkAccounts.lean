import Enkaku.Jobs.BulkTree

/-!
# Bulk cancel accounts for every job

The main loop of `cancelMany` against the standings of the start.  The lists are a partition of what
has been handled and of the ids nothing is known of, by their books alone (`Booked`); that what is
listed as stopped was stopped once is read off the tally of the stops (`Tally`).  What can fail is
that a job reported refused was left alone.  The order of the loop protects it from the cascades
that come after its turn, and the cascade that reaches it before handles it — unless the
orchestrator of the workflow has stopped it first, and left nothing of it for the cascade to find
(`StopsUnseen`).  `cancelMany_accounts_iff` says that this is the only way.
-/

set_option autoImplicit false

namespace Enkaku

open List

open JobBulkCancelResponse

/-! ## The books -/

namespace JobBulkCancelResponse

/-- Every id on one of the four lists. -/
def all (r : JobBulkCancelResponse) : List String :=
  r.cancelledJobIds ++ r.abortedJobIds ++ r.refusedJobIds ++ r.notCancellableJobIds

/-- The ids reported as stopped: requested jobs and descendants. -/
def stoppedIds (r : JobBulkCancelResponse) : List String := r.cancelledJobIds ++ r.abortedJobIds

/-- Each counter is the length of its list. -/
structure Counted (r : JobBulkCancelResponse) : Prop where
  cancelled : r.cancelled = r.cancelledJobIds.length
  aborted : r.aborted = r.abortedJobIds.length
  refused : r.refused = r.refusedJobIds.length
  notCancellable : r.notCancellable = r.notCancellableJobIds.length

variable (r : JobBulkCancelResponse) (outcome : Option StopOutcome) (id : String)

theorem all_book : (r.book outcome id).all.Perm (id :: r.all) := by
  rcases outcome with _ | _ | _ <;>
    simp only [book, all, perm_iff_count, count_append, count_cons, count_nil] <;>
    intro x <;> omega

theorem all_refuse : (r.refuse id).all.Perm (id :: r.all) := by
  simp only [refuse, all, perm_iff_count, count_append, count_cons, count_nil]
  intro x
  omega

variable {r}

theorem Counted.book (h : r.Counted) : (r.book outcome id).Counted := by
  obtain ⟨hc, ha, hr, hn⟩ := h
  rcases outcome with _ | _ | _ <;>
    constructor <;> simp [JobBulkCancelResponse.book, hc, ha, hr, hn]

theorem Counted.refuse (h : r.Counted) : (r.refuse id).Counted := by
  obtain ⟨hc, ha, hr, hn⟩ := h
  constructor <;> simp [JobBulkCancelResponse.refuse, hc, ha, hr, hn]

theorem refusedJobIds_book : (r.book outcome id).refusedJobIds = r.refusedJobIds := by
  rcases outcome with _ | _ | _ <;> rfl

theorem mem_stoppedIds_book {x : String} (hx : x ∈ (r.book outcome id).stoppedIds) :
    x ∈ r.stoppedIds ∨ x = id ∧ outcome.isSome := by
  rcases outcome with _ | _ | _ <;>
    simp only [book, stoppedIds, mem_append, mem_singleton, Option.isSome_some,
      Option.isSome_none] at hx ⊢ <;>
    tauto

end JobBulkCancelResponse

namespace JobService

/-- What is on the lists is what has been handled, and the ids nothing is known of; all of it
once. -/
structure Booked (unknown : List String) (b : Bulk) : Prop where
  nodup : b.result.all.Nodup
  mem : ∀ id, id ∈ b.result.all ↔ id ∈ b.handled ∨ id ∈ unknown
  counted : b.result.Counted

namespace Booked

variable {unknown : List String} {b : Bulk}

/-- A job that has not been handled goes on one list. -/
theorem add (h : Booked unknown b) {id : String} (hid : id ∉ b.handled) (hknown : id ∉ unknown)
    {r : JobBulkCancelResponse} (hall : r.all.Perm (id :: b.result.all)) (hr : r.Counted)
    (w : JobService) : Booked unknown ⟨w, b.handled ++ [id], r⟩ := by
  refine ⟨?_, fun x ↦ ?_, hr⟩
  · rw [hall.nodup_iff, nodup_cons, h.mem]
    exact ⟨fun hor ↦ hor.elim hid hknown, h.nodup⟩
  · rw [hall.mem_iff, mem_cons, h.mem, mem_append, mem_singleton]
    tauto

theorem descendant (h : Booked unknown b) (outcome : StopOutcome) {id : String}
    (hknown : id ∉ unknown) : Booked unknown (b.descendant outcome id) := by
  rw [Bulk.descendant]
  split
  · exact h
  · next hid =>
    exact h.add hid hknown (r := { b.result.book (some outcome) id with
      descendants := b.result.descendants + 1 }) (b.result.all_book (some outcome) id)
      ⟨(h.counted.book (some outcome) id).cancelled, (h.counted.book (some outcome) id).aborted,
        (h.counted.book (some outcome) id).refused,
        (h.counted.book (some outcome) id).notCancellable⟩ b.service

theorem descendants (h : Booked unknown b) (outcome : StopOutcome) {ids : List String}
    (hknown : ∀ id ∈ ids, id ∉ unknown) : Booked unknown (ids.foldl (Bulk.descendant outcome) b) := by
  induction ids generalizing b with
  | nil => exact h
  | cons id ids ih =>
    exact ih (h.descendant outcome (hknown id (.head _)))
      fun id' hid' ↦ hknown id' (.tail _ hid')

theorem bookTree (h : Booked unknown b) {row : JobRow} (hid : row.id ∉ b.handled)
    (hknown : row.id ∉ unknown) {tree : TreeResult} (hlisted : ∀ id ∈ tree.listed, id ∉ unknown)
    (w : JobService) : Booked unknown (b.bookTree row tree w) := by
  have hself := h.add hid hknown (b.result.all_book tree.self row.id)
    (h.counted.book tree.self row.id) w
  refine (hself.descendants .cancelled fun id hid ↦ ?_).descendants .aborted fun id hid ↦ ?_
  · exact hlisted id (mem_append_left _ hid)
  · exact hlisted id (mem_append_right _ hid)

end Booked

namespace Bulk

variable {b : Bulk}

/-- What counting the descendants of a tree leaves of the loop. -/
structure Counts (b b' : Bulk) (ids : List String) : Prop where
  service : b'.service = b.service
  handled : ∀ id, id ∈ b'.handled ↔ id ∈ b.handled ∨ id ∈ ids
  refused : b'.result.refusedJobIds = b.result.refusedJobIds
  stopped : ∀ id ∈ b'.result.stoppedIds, id ∈ b.result.stoppedIds ∨ id ∈ ids

theorem counts_descendant (outcome : StopOutcome) (b : Bulk) (id : String) :
    Counts b (b.descendant outcome id) [id] := by
  rw [Bulk.descendant]
  split
  · next hid =>
    refine ⟨rfl, fun x ↦ ?_, rfl, fun x hx ↦ .inl hx⟩
    rw [mem_singleton]
    exact ⟨.inl, fun hx ↦ hx.elim (fun hx ↦ hx) fun he ↦ he ▸ hid⟩
  · refine ⟨rfl, fun x ↦ by simp, refusedJobIds_book _ _, fun x hx ↦ ?_⟩
    rcases mem_stoppedIds_book _ _ hx with hx | ⟨hx, -⟩
    · exact .inl hx
    · exact .inr (by simp [hx])

theorem Counts.trans {b b' b'' : Bulk} {ids ids' : List String} (h : Counts b b' ids)
    (h' : Counts b' b'' ids') : Counts b b'' (ids ++ ids') := by
  refine ⟨h'.service.trans h.service, fun id ↦ ?_, h'.refused.trans h.refused, fun id hid ↦ ?_⟩
  · rw [h'.handled, h.handled, mem_append, or_assoc]
  · rw [mem_append]
    rcases h'.stopped id hid with hid | hid
    · exact (h.stopped id hid).imp_right .inl
    · exact .inr (.inr hid)

theorem counts_descendants (outcome : StopOutcome) (ids : List String) (b : Bulk) :
    Counts b (ids.foldl (descendant outcome) b) ids := by
  induction ids generalizing b with
  | nil => exact ⟨rfl, fun id ↦ by simp, rfl, fun id hid ↦ .inl hid⟩
  | cons id ids ih => exact (counts_descendant outcome b id).trans (ih _)

/-! ## One turn -/

section Turn

variable {deps : HostDeps} {now : Int} {input : BulkCancelInput} {row : JobRow}

theorem turn_handled (hid : row.id ∈ b.handled) : turn deps now input b row = b := by
  rw [turn, if_pos hid]

theorem turn_refuses (hid : row.id ∉ b.handled) (ha : input.allows row = false) :
    turn deps now input b row =
      { b with handled := b.handled ++ [row.id], result := b.result.refuse row.id } := by
  rw [turn, if_neg hid, if_neg (by simp [ha])]

/-- What a turn that cancels does: to the runs, and to the lists. -/
structure Cancels (b b' : Bulk) (row : JobRow) (w₁ : JobService) : Prop where
  self : StopAll b.service (b.service.latestAndStep row.id) w₁
  cascade : StopAll w₁ ((b.service.below row).filterMap fun d ↦ b.service.latestId d.id) b'.service
  handled : ∀ id, id ∈ b'.handled ↔
    id ∈ b.handled ∨ id = row.id ∨ id ∈ (b.service.below row).map (·.id) ∧ w₁.Unsettled id
  refused : b'.result.refusedJobIds = b.result.refusedJobIds
  stopped : ∀ id ∈ b'.result.stoppedIds, id ∈ b.result.stoppedIds ∨
    id = row.id ∧ b.service.Unsettled id ∨
      id ∈ (b.service.below row).map (·.id) ∧ w₁.Unsettled id

theorem turn_allows (hid : row.id ∉ b.handled) (ha : input.allows row = true) :
    turn deps now input b row =
      b.bookTree row (b.service.cancelTree deps now row (row.kind = .workflow)).1
        (b.service.cancelTree deps now row (row.kind = .workflow)).2 := by
  rw [turn, if_neg hid, if_pos ha]

theorem counts_bookTree (b : Bulk) (row : JobRow) (tree : TreeResult) (service : JobService) :
    Counts ⟨service, b.handled ++ [row.id], b.result.book tree.self row.id⟩
      (b.bookTree row tree service) tree.listed :=
  (counts_descendants .cancelled tree.cancelledIds _).trans
    (counts_descendants .aborted tree.abortedIds _)

theorem turn_cancels (hf : Forest b.service) (hid : row.id ∉ b.handled)
    (ha : input.allows row = true) : ∃ w₁, Cancels b (turn deps now input b row) row w₁ := by
  obtain ⟨w₁, hself, ho, hcascade, hlisted⟩ := @cancelTree_spec deps now b.service hf row
  rw [turn_allows hid ha]
  have hcounts := b.counts_bookTree row
    (b.service.cancelTree deps now row (row.kind = .workflow)).1
    (b.service.cancelTree deps now row (row.kind = .workflow)).2
  refine ⟨w₁, hself, ?_, fun id ↦ ?_, ?_, fun id hmem ↦ ?_⟩
  · rw [hcounts.service]
    exact hcascade
  · rw [hcounts.handled, ← hlisted, mem_append, mem_singleton, or_assoc]
  · rw [hcounts.refused, refusedJobIds_book]
  · rcases hcounts.stopped id hmem with hmem | hmem
    · rcases mem_stoppedIds_book _ _ hmem with hmem | ⟨rfl, hsome⟩
      · exact .inl hmem
      · refine .inr (.inl ⟨rfl, ?_⟩)
        rw [ho, ← (@stopLatest_spec deps now b.service hf row.id).1] at hsome
        exact (stopLatest_isSome hf row.id).mp hsome
    · exact .inr (.inr ((hlisted id).mp hmem))

end Turn

end Bulk

/-! ## The loop

`Loop` is what every turn keeps, whatever the order: the books, the tally of the stops, and that
what is listed as stopped has been stopped. -/

section Loop

variable {deps : HostDeps} {now : Int} {input : BulkCancelInput} {w₀ : JobService}
  {unknown : List String} {b : Bulk} {row : JobRow}

structure Loop (w₀ : JobService) (unknown : List String) (b : Bulk) : Prop where
  kept : Kept w₀ b.service
  tally : Tally w₀ b.service
  booked : Booked unknown b
  stopped : ∀ id ∈ b.result.stoppedIds, ∃ x, w₀.latestId id = some x ∧ Ended w₀ b.service x

namespace Loop

theorem forest (h : Loop w₀ unknown b) (hf : Forest w₀) : Forest b.service := h.kept.forest hf

/-- The runs a turn stops. -/
theorem stopAll {b' : Bulk} {w₁ : JobService} (hc : b.Cancels b' row w₁) :
    StopAll b.service (b.service.latestAndStep row.id ++
      (b.service.below row).filterMap fun d ↦ b.service.latestId d.id) b'.service :=
  hc.self.append hc.cascade

/-- A job that is listed has had its latest run stopped. -/
theorem ended_of_unsettled {w w' : JobService} {xs : List String} {id x : String}
    (hk : Kept w₀ w) (ht : Tally w₀ w) (hs : StopAll w xs w') (hu : w.Unsettled id)
    (hx : w.latestId id = some x) (hmem : x ∈ xs) : ∃ x, w₀.latestId id = some x ∧ Ended w₀ w' x := by
  obtain ⟨y, hy, hne⟩ := hu
  rw [hx, Option.some_inj] at hy
  subst hy
  exact ⟨x, (hk.latestId id).symm.trans hx, Ended.of_stopAll ht hs hmem hne⟩

/-- What is below a job is a script job of the tables. -/
theorem script_of_mem_below (h : Loop w₀ unknown b) (hf : Forest w₀) {d : JobRow}
    (hd : d ∈ b.service.below row) : d ∈ w₀.host.store.jobs ∧ d.kind ≠ .workflow := by
  rw [h.kept.below, below] at hd
  split at hd
  · exact hf.script_of_mem_descendantsOf hd
  · cases hd

theorem turn (h : Loop w₀ unknown b) (hf : Forest w₀) (hrow : row ∈ w₀.host.store.jobs)
    (hunknown : ∀ id ∈ unknown, w₀.host.store.job? id = none) :
    Loop w₀ unknown (b.turn deps now input row) := by
  have hknown : ∀ j ∈ w₀.host.store.jobs, j.id ∉ unknown := by
    intro j hj hmem
    have := hunknown j.id hmem
    rw [hf.job?_eq hj] at this
    cases this
  by_cases hid : row.id ∈ b.handled
  · rwa [Bulk.turn_handled hid]
  cases ha : input.allows row with
  | false =>
    rw [Bulk.turn_refuses hid ha]
    exact ⟨h.kept, h.tally, h.booked.add hid (hknown row hrow)
      (b.result.all_refuse row.id) (h.booked.counted.refuse row.id) b.service, h.stopped⟩
  | true =>
    obtain ⟨w₁, hc⟩ := @Bulk.turn_cancels b deps now input row (h.forest hf) hid ha
    have hstops := stopAll hc
    refine ⟨h.kept.trans hstops.kept, h.tally.stopAll hstops, ?_, fun id hid' ↦ ?_⟩
    · rw [Bulk.turn_allows hid ha]
      refine h.booked.bookTree hid (hknown row hrow) (fun id hid' ↦ ?_) _
      obtain ⟨w₁, -, -, -, hlisted⟩ := @cancelTree_spec deps now _ (h.forest hf) row
      obtain ⟨d, hd, rfl⟩ := mem_map.mp ((hlisted id).mp hid').1
      exact hknown d (h.script_of_mem_below hf hd).1
    · rcases hc.stopped id hid' with hid' | ⟨rfl, x, hx, hne⟩ | ⟨hid', x, hx, hne⟩
      · obtain ⟨x, hx, he⟩ := h.stopped id hid'
        exact ⟨x, hx, he.stopAll h.tally hstops⟩
      · exact ended_of_unsettled h.kept h.tally hstops ⟨x, hx, hne⟩ hx
          (mem_append_left _ (by simp [latestAndStep, hx]))
      · obtain ⟨d, hd, rfl⟩ := mem_map.mp hid'
        refine ended_of_unsettled (h.kept.trans hc.self.kept) (h.tally.stopAll hc.self) hc.cascade
          ⟨x, hx, hne⟩ hx (mem_filterMap.mpr ⟨d, hd, ?_⟩)
        rw [← hc.self.kept.latestId, hx]

end Loop

/-! ## A job that is not the one whose turn it is -/

/-- No run of the job has been stopped. -/
def Untouched (w₀ w : JobService) (jobId : String) : Prop :=
  ∀ x, w₀.jobOf x = some jobId → w.standing x = w₀.standing x

/-- The job has not come up yet, in a turn or in a cascade. -/
structure Clean (w₀ : JobService) (b : Bulk) (jobId : String) : Prop where
  handled : jobId ∉ b.handled
  untouched : Untouched w₀ b.service jobId

/-- The job has not come up yet, but a run of it has been stopped and nothing is left for a cascade
to find. -/
structure Dirty (w₀ : JobService) (b : Bulk) (jobId : String) : Prop where
  handled : jobId ∉ b.handled
  touched : ¬ Untouched w₀ b.service jobId
  settled : ¬ b.service.Unsettled jobId

/-- Stopping the workflow job `parent` stops a run of `job` that the cascade then does not see: the
run the orchestrator of `parent` is waiting for is still going, and when it has been stopped, the
latest run of `job` has settled. -/
def StopsUnseen (w : JobService) (parent job : JobRow) : Prop :=
  ∃ x c, w.latestId parent.id = some x ∧ w.fires x = some c ∧ w.jobOf c = some job.id ∧
    (w.standing c).going = true ∧ ∀ l, w.latestId job.id = some l →
      (if l = c then (w.standing l).stopped else w.standing l) = .settled

section Other

variable {b' : Bulk} {w₁ : JobService} {job : JobRow}

/-- A run of another job that is stopped together with a job's own is the step its orchestrator
waits for: the job is a workflow, and the other one a step of it. -/
theorem step_of_mem_latestAndStep {w : JobService} (hf : Forest w) (hrow : row ∈ w.host.store.jobs)
    (hjob : job ∈ w.host.store.jobs) (hne : row.id ≠ job.id) {c : String}
    (hc : c ∈ w.latestAndStep row.id) (ho : w.jobOf c = some job.id) : ∃ x,
      w.latestId row.id = some x ∧ w.fires x = some c ∧ row.kind = .workflow ∧
        job.parentWorkflowJobId = some row.id := by
  rw [latestAndStep] at hc
  cases hx : w.latestId row.id with
  | none => simp [hx] at hc
  | some x =>
    have hox := hf.jobOf_latestId hx
    simp only [hx, mem_cons, Option.mem_toList] at hc
    rcases hc with rfl | hc
    · rw [hox, Option.some_inj] at ho
      exact absurd ho hne
    · have hstep : w.stepOf x = some c := by
        rw [fires] at hc
        split at hc
        · exact hc
        · cases hc
      refine ⟨x, rfl, hc, ?_, ?_⟩
      · by_contra hk
        rw [hf.stepOf_script hox hrow rfl hk] at hstep
        cases hstep
      · obtain ⟨j, hj, hid, hp⟩ := hf.parent_of_stepOf hstep hox ho
        rwa [← hf.eq_of_id hj hjob hid]

/-- A run of a job that the cascade stops is its latest, and the job is below. -/
theorem below_of_mem_latest {w : JobService} (hf : Forest w) (hjob : job ∈ w.host.store.jobs)
    (hbelow : ∀ d ∈ w.below row, d ∈ w.host.store.jobs) {c : String}
    (hc : c ∈ (w.below row).filterMap fun d ↦ w.latestId d.id) (ho : w.jobOf c = some job.id) :
    job ∈ w.below row ∧ w.latestId job.id = some c := by
  obtain ⟨d, hd, hx⟩ := mem_filterMap.mp hc
  have hid := hf.jobOf_latestId hx
  rw [ho, Option.some_inj] at hid
  obtain rfl := hf.eq_of_id (hbelow d hd) hjob hid.symm
  exact ⟨hd, hx⟩

/-- Only the job's own workflow stops a run of it unseen. -/
theorem StopsUnseen.step {w : JobService} (hu : StopsUnseen w row job) (hf : Forest w)
    (hrow : row ∈ w.host.store.jobs) (hjob : job ∈ w.host.store.jobs) (hne : row.id ≠ job.id) :
    row.kind = .workflow ∧ job.parentWorkflowJobId = some row.id := by
  obtain ⟨x, c, hx, hc, ho, -⟩ := hu
  have hmem : c ∈ w.latestAndStep row.id := by simp [latestAndStep, hx, hc]
  obtain ⟨-, -, -, hk, hp⟩ := step_of_mem_latestAndStep hf hrow hjob hne hmem ho
  exact ⟨hk, hp⟩

/-- The cancel of `row` does not reach `job`. -/
structure Beside (w : JobService) (row job : JobRow) : Prop where
  ne : row.id ≠ job.id
  step : row.kind = .workflow → job.parentWorkflowJobId ≠ some row.id
  below : job ∉ w.below row

/-- No cancel of another job reaches a workflow job. -/
theorem beside_of_workflow {w : JobService} (hf : Forest w) (hjob : job ∈ w.host.store.jobs)
    (hne : row.id ≠ job.id) (hk : job.kind = .workflow) : Beside w row job := by
  refine ⟨hne, fun _ hp ↦ hf.script_of_parent hjob hp hk, fun hd ↦ ?_⟩
  rw [below] at hd
  split at hd
  · exact (hf.script_of_mem_descendantsOf hd).2 hk
  · cases hd

/-- The cancel of a script job reaches no other. -/
theorem beside_of_script {w : JobService} (hne : row.id ≠ job.id) (hk : row.kind ≠ .workflow) :
    Beside w row job :=
  ⟨hne, fun h ↦ absurd h hk, by simp [below, hk]⟩

/-- A step is reached by the cancel of its own workflow only. -/
theorem beside_of_parent {w : JobService} (hf : Forest w) {p : String} (hne : row.id ≠ job.id)
    (hp : job.parentWorkflowJobId = some p) (hrow : p ≠ row.id) : Beside w row job := by
  refine ⟨hne, fun _ he ↦ hrow (by simpa [hp] using he), fun hd ↦ ?_⟩
  rw [below] at hd
  split at hd
  · exact hrow (hf.parent_of_mem_descendantsOf hd hp)
  · cases hd

namespace Loop

variable (h : Loop w₀ unknown b) (hf : Forest w₀) (hrow : row ∈ w₀.host.store.jobs)
  (hjob : job ∈ w₀.host.store.jobs)

include h hf hrow hjob

/-- The runs of a job that the turn does not reach stay, and it is not handled. -/
theorem turn_beside (hb : Beside w₀ row job) :
    (∀ x, w₀.jobOf x = some job.id →
      (b.turn deps now input row).service.standing x = b.service.standing x) ∧
    (job.id ∈ (b.turn deps now input row).handled → job.id ∈ b.handled) := by
  by_cases hid : row.id ∈ b.handled
  · rw [Bulk.turn_handled hid]
    exact ⟨fun _ _ ↦ rfl, fun hmem ↦ hmem⟩
  cases ha : input.allows row with
  | false =>
    rw [Bulk.turn_refuses hid ha]
    refine ⟨fun _ _ ↦ rfl, fun hmem ↦ ?_⟩
    exact (mem_append.mp hmem).resolve_right (by simpa using hb.ne.symm)
  | true =>
    have hfb := h.forest hf
    rw [← h.kept.jobs] at hrow hjob
    obtain ⟨w₁, hc⟩ := @Bulk.turn_cancels b deps now input row hfb hid ha
    have hbelow : job ∉ b.service.below row := by
      rw [h.kept.below]
      exact hb.below
    have hmem : ∀ d ∈ b.service.below row, d ∈ b.service.host.store.jobs := fun d hd ↦ by
      rw [h.kept.jobs]
      exact (h.script_of_mem_below hf hd).1
    refine ⟨fun x hx ↦ (stopAll hc).others fun hx' ↦ ?_, fun hhandled ↦ ?_⟩
    · rw [← h.kept.jobOf] at hx
      rcases mem_append.mp hx' with hx' | hx'
      · obtain ⟨-, -, -, hk, hp⟩ := step_of_mem_latestAndStep hfb hrow hjob hb.ne hx' hx
        exact hb.step hk hp
      · exact hbelow (below_of_mem_latest hfb hjob hmem hx' hx).1
    · rcases (hc.handled job.id).mp hhandled with hmem' | he | ⟨hmem', -⟩
      · exact hmem'
      · exact absurd he.symm hb.ne
      · obtain ⟨d, hd, hdid⟩ := mem_map.mp hmem'
        exact absurd (hfb.eq_of_id (hmem d hd) hjob hdid ▸ hd) hbelow

/-- A job the turn does not reach stays clean. -/
theorem clean_turn (hb : Beside w₀ row job) (hclean : Clean w₀ b job.id) :
    Clean w₀ (b.turn deps now input row) job.id := by
  obtain ⟨hstanding, hhandled⟩ := @turn_beside deps now input w₀ unknown b row job h hf hrow hjob hb
  exact ⟨fun hmem ↦ hclean.handled (hhandled hmem),
    fun x hx ↦ (hstanding x hx).trans (hclean.untouched x hx)⟩

omit hrow hjob in
/-- A run that has been stopped stays stopped. -/
theorem touched_turn {jobId : String} (ht : ¬ Untouched w₀ b.service jobId) :
    ¬ Untouched w₀ (b.turn deps now input row).service jobId := by
  by_cases hid : row.id ∈ b.handled
  · rwa [Bulk.turn_handled hid]
  cases ha : input.allows row with
  | false => rwa [Bulk.turn_refuses hid ha]
  | true =>
    obtain ⟨w₁, hc⟩ := @Bulk.turn_cancels b deps now input row (h.forest hf) hid ha
    refine fun hu ↦ ht fun x hx ↦ ?_
    by_contra hx'
    exact h.tally.ne_stopAll hx' (stopAll hc) (hu x hx)

omit hrow hjob in
/-- What has been stopped without a cascade seeing it is not seen later either. -/
theorem dirty_turn (hne : row.id ≠ job.id) (hdirty : Dirty w₀ b job.id) :
    Dirty w₀ (b.turn deps now input row) job.id := by
  have htouched := @touched_turn deps now input w₀ unknown b row h hf job.id hdirty.touched
  by_cases hid : row.id ∈ b.handled
  · rwa [Bulk.turn_handled hid]
  cases ha : input.allows row with
  | false =>
    rw [Bulk.turn_refuses hid ha]
    exact ⟨by simpa using ⟨hdirty.handled, hne.symm⟩, hdirty.touched, hdirty.settled⟩
  | true =>
    obtain ⟨w₁, hc⟩ := @Bulk.turn_cancels b deps now input row (h.forest hf) hid ha
    have hsettled : ∀ {w w' : JobService} {xs : List String}, StopAll w xs w' →
        ¬ w.Unsettled job.id → ¬ w'.Unsettled job.id := by
      rintro w w' xs hs hu ⟨x, hx, hne⟩
      exact hu ⟨x, (hs.kept.latestId _).symm.trans hx, fun hx' ↦ hne (hs.settled hx')⟩
    have h₁ := hsettled hc.self hdirty.settled
    refine ⟨fun hmem ↦ ?_, htouched, hsettled hc.cascade h₁⟩
    rcases (hc.handled job.id).mp hmem with hmem | he | ⟨-, hu⟩
    · exact hdirty.handled hmem
    · exact hne he.symm
    · exact h₁ hu

omit hrow hjob in
/-- A cancel that stops a run of a clean job unseen leaves the job dirty. -/
theorem turn_unseen (hne : row.id ≠ job.id) (hid : row.id ∉ b.handled)
    (ha : input.allows row = true) (hself : Untouched w₀ b.service row.id)
    (hclean : Clean w₀ b job.id) (hu : StopsUnseen w₀ row job) :
    Dirty w₀ (b.turn deps now input row) job.id := by
  obtain ⟨x, c, hx, hc, hoc, hg, hl⟩ := hu
  have hox := hf.jobOf_latestId hx
  obtain ⟨w₁, hcan⟩ := @Bulk.turn_cancels b deps now input row (h.forest hf) hid ha
  have hruns : b.service.latestAndStep row.id = [x, c] := by
    have hlx : b.service.latestId row.id = some x := (h.kept.latestId _).trans hx
    have hfx : b.service.fires x = some c := by
      rw [fires, hself x hox, h.kept.stepOf]
      exact hc
    simp [latestAndStep, hlx, hfx]
  have hne' : ∀ y, w₀.jobOf y = some job.id → y ≠ x := by
    rintro y hy rfl
    rw [hox, Option.some_inj] at hy
    exact hne hy
  have hcx := hcan.self.stopped (x := c) (by simp [hruns])
  rw [hclean.untouched c hoc] at hcx
  -- What the cascade finds as the job's latest run has settled.
  have hsettled : ¬ w₁.Unsettled job.id := by
    rintro ⟨l, hl', hne''⟩
    rw [hcan.self.kept.latestId, h.kept.latestId] at hl'
    have hol := hf.jobOf_latestId hl'
    refine hne'' ?_
    rw [← hl l hl']
    split
    · next he => rw [he, hcx]
    · next he =>
      rw [hcan.self.others (by simp [hruns, he, hne' l hol]), hclean.untouched l hol]
  refine ⟨fun hmem ↦ ?_, fun hu ↦ ?_, ?_⟩
  · rcases (hcan.handled job.id).mp hmem with hmem | he | ⟨-, hu⟩
    · exact hclean.handled hmem
    · exact hne he.symm
    · exact hsettled hu
  · refine (h.tally.stopAll hcan.self).ne_stopAll ?_ hcan.cascade (hu c hoc)
    rw [hcx]
    exact RunStanding.stopped_ne hg
  · rintro ⟨l, hl', hne''⟩
    exact hsettled ⟨l, (hcan.cascade.kept.latestId _).symm.trans hl',
      fun hl'' ↦ hne'' (hcan.cascade.settled hl'')⟩

/-- Every other turn leaves a clean job clean, or handles it. -/
theorem turn_seen (hne : row.id ≠ job.id)
    (hself : row.kind = .workflow → Clean w₀ b row.id) (hclean : Clean w₀ b job.id)
    (hu : input.allows row = true → ¬ StopsUnseen w₀ row job) :
    Clean w₀ (b.turn deps now input row) job.id ∨
      job.id ∈ (b.turn deps now input row).handled := by
  by_cases hid : row.id ∈ b.handled
  · rw [Bulk.turn_handled hid]
    exact .inl hclean
  cases ha : input.allows row with
  | false =>
    rw [Bulk.turn_refuses hid ha]
    exact .inl ⟨by simpa using ⟨hclean.handled, hne.symm⟩, hclean.untouched⟩
  | true =>
    have hfb := h.forest hf
    have hrow' : row ∈ b.service.host.store.jobs := h.kept.jobs ▸ hrow
    have hjob' : job ∈ b.service.host.store.jobs := h.kept.jobs ▸ hjob
    obtain ⟨w₁, hcan⟩ := @Bulk.turn_cancels b deps now input row hfb hid ha
    by_cases hhandled : job.id ∈ (b.turn deps now input row).handled
    · exact .inr hhandled
    refine .inl ⟨hhandled, ?_⟩
    have hmem : ∀ d ∈ b.service.below row, d ∈ b.service.host.store.jobs := fun d hd ↦ by
      rw [h.kept.jobs]
      exact (h.script_of_mem_below hf hd).1
    -- What is below and unsettled would have been handled.
    have hseen : job ∈ b.service.below row → ¬ w₁.Unsettled job.id := fun hd hun ↦
      hhandled ((hcan.handled job.id).mpr (.inr (.inr ⟨mem_map_of_mem hd, hun⟩)))
    have h₁ : ∀ c, w₀.jobOf c = some job.id → w₁.standing c = b.service.standing c := by
      intro c hoc
      by_contra hmoved
      have hin : c ∈ b.service.latestAndStep row.id := by
        by_contra hin
        exact hmoved (hcan.self.others hin)
      obtain ⟨x, hx, hfx, hk, hp⟩ := step_of_mem_latestAndStep hfb hrow' hjob' hne hin
        ((h.kept.jobOf c).trans hoc)
      have hlx : w₀.latestId row.id = some x := (h.kept.latestId _).symm.trans hx
      have hox := hf.jobOf_latestId hlx
      have hfx' : w₀.fires x = some c := by
        rw [fires, (hself hk).untouched x hox, h.kept.stepOf] at hfx
        exact hfx
      rw [hcan.self.stopped hin, hclean.untouched c hoc] at hmoved
      refine hu ha ⟨x, c, hlx, hfx', hoc, ?_, fun l hl ↦ ?_⟩
      · by_contra hg
        exact hmoved (RunStanding.stopped_eq (by simpa using hg))
      · have hol := hf.jobOf_latestId hl
        by_contra hl'
        have hbelow : job ∈ b.service.below row := by
          rw [below, if_pos hk]
          exact hfb.mem_descendantsOf_of_parent hjob' hp
        refine hseen hbelow ⟨l, ?_, fun hls ↦ hl' ?_⟩
        · rw [hcan.self.kept.latestId, h.kept.latestId]
          exact hl
        · have hruns : b.service.latestAndStep row.id = [x, c] := by simp [latestAndStep, hx, hfx]
          have hlx' : l ≠ x := by
            rintro rfl
            rw [hox, Option.some_inj] at hol
            exact hne hol
          split
          · next he =>
            rw [← hls, hcan.self.stopped (by simp [hruns, he]), hclean.untouched l hol]
          · next he =>
            rw [← hls, hcan.self.others (by simp [hruns, he, hlx']), hclean.untouched l hol]
    intro c hoc
    by_cases hin : c ∈ (b.service.below row).filterMap fun d ↦ b.service.latestId d.id
    · obtain ⟨hd, hl⟩ := below_of_mem_latest hfb hjob' hmem hin ((h.kept.jobOf c).trans hoc)
      have hsettled : w₁.standing c = .settled := by
        by_contra hne'
        exact hseen hd ⟨c, (hcan.self.kept.latestId _).trans hl, hne'⟩
      rw [hcan.cascade.settled hsettled, ← hsettled, h₁ c hoc, hclean.untouched c hoc]
    · rw [hcan.cascade.others hin, h₁ c hoc, hclean.untouched c hoc]

end Loop

end Other

/-! ## All turns -/

namespace Bulk

theorem mem_handled_turn {id : String} (hid : id ∈ b.handled ∨ id = row.id) :
    id ∈ (b.turn deps now input row).handled := by
  by_cases hh : row.id ∈ b.handled
  · rw [turn_handled hh]
    exact hid.elim (fun hid ↦ hid) fun he ↦ he ▸ hh
  cases ha : input.allows row with
  | false =>
    rw [turn_refuses hh ha]
    simpa using hid
  | true =>
    rw [turn_allows hh ha, (counts_bookTree b row _ _).handled]
    exact .inl (by simpa using hid)

theorem mem_refused_turn {id : String} : id ∈ (b.turn deps now input row).result.refusedJobIds ↔
    id ∈ b.result.refusedJobIds ∨ id = row.id ∧ row.id ∉ b.handled ∧ input.allows row = false := by
  by_cases hh : row.id ∈ b.handled
  · rw [turn_handled hh]
    simp [hh]
  cases ha : input.allows row with
  | false =>
    rw [turn_refuses hh ha]
    simp [refuse, hh]
  | true =>
    rw [turn_allows hh ha, (counts_bookTree b row _ _).refused, refusedJobIds_book]
    simp

variable {rows : List JobRow}

theorem mem_handled_turns {id : String} (hid : id ∈ b.handled ∨ id ∈ rows.map (·.id)) :
    id ∈ (rows.foldl (turn deps now input) b).handled := by
  induction rows generalizing b with
  | nil => simpa using hid
  | cons row rows ih =>
    refine ih ?_
    rcases hid with hid | hid
    · exact .inl (mem_handled_turn (.inl hid))
    · rw [map_cons, mem_cons] at hid
      exact hid.imp (fun he ↦ mem_handled_turn (.inr he)) fun hid ↦ hid

/-- What is refused is refused in its own turn, when it has not been handled before. -/
theorem mem_refused_turns {id : String} :
    id ∈ (rows.foldl (turn deps now input) b).result.refusedJobIds ↔
      id ∈ b.result.refusedJobIds ∨ ∃ before row after, rows = before ++ row :: after ∧ row.id = id ∧
        row.id ∉ (before.foldl (turn deps now input) b).handled ∧ input.allows row = false := by
  induction rows generalizing b with
  | nil => simp
  | cons row rows ih =>
    rw [foldl_cons, ih, mem_refused_turn, or_assoc]
    refine or_congr_right ⟨?_, ?_⟩
    · rintro (⟨rfl, hh, ha⟩ | ⟨before, row', after, rfl, hid, hh, ha⟩)
      · exact ⟨[], row, rows, rfl, rfl, hh, ha⟩
      · exact ⟨row :: before, row', after, rfl, hid, hh, ha⟩
    · rintro ⟨before, row', after, he, hid, hh, ha⟩
      cases before with
      | nil =>
        cases he
        exact .inl ⟨hid.symm, hh, ha⟩
      | cons row'' before =>
        cases he
        exact .inr ⟨before, row', after, rfl, hid, hh, ha⟩

end Bulk

namespace Loop

variable {rows : List JobRow}

theorem turns (h : Loop w₀ unknown b) (hf : Forest w₀) (hrows : ∀ j ∈ rows, j ∈ w₀.host.store.jobs)
    (hunknown : ∀ id ∈ unknown, w₀.host.store.job? id = none) :
    Loop w₀ unknown (rows.foldl (Bulk.turn deps now input) b) := by
  induction rows generalizing b with
  | nil => exact h
  | cons row rows ih =>
    exact ih (h.turn hf (hrows row (.head _)) hunknown)
      fun j hj ↦ hrows j (.tail _ hj)

section Job

variable {job : JobRow} (hf : Forest w₀) (hjob : job ∈ w₀.host.store.jobs)
  (hunknown : ∀ id ∈ unknown, w₀.host.store.job? id = none)

include hf hjob hunknown

omit hjob in
theorem dirty_turns (h : Loop w₀ unknown b)
    (hrows : ∀ j ∈ rows, j ∈ w₀.host.store.jobs ∧ j.id ≠ job.id) (hdirty : Dirty w₀ b job.id) :
    Dirty w₀ (rows.foldl (Bulk.turn deps now input) b) job.id := by
  induction rows generalizing b with
  | nil => exact hdirty
  | cons row rows ih =>
    obtain ⟨hrow, hne⟩ := hrows row (.head _)
    exact ih (h.turn hf hrow hunknown) (fun j hj ↦ hrows j (.tail _ hj))
      (h.dirty_turn hf hne hdirty)

/-- The turns before the job's own: they leave it dirty if one of them stops a run of it unseen, and
clean or handled if none does. -/
theorem turns_before (h : Loop w₀ unknown b)
    (hrows : ∀ j ∈ rows, j ∈ w₀.host.store.jobs ∧ j.id ≠ job.id) (hnodup : (rows.map (·.id)).Nodup)
    (hself : ∀ j ∈ rows, j.kind = .workflow → Clean w₀ b j.id) (hclean : Clean w₀ b job.id) :
    ((∃ p ∈ rows, input.allows p = true ∧ StopsUnseen w₀ p job) →
        Dirty w₀ (rows.foldl (Bulk.turn deps now input) b) job.id) ∧
      ((∀ p ∈ rows, input.allows p = true → ¬ StopsUnseen w₀ p job) →
        Clean w₀ (rows.foldl (Bulk.turn deps now input) b) job.id ∨
          job.id ∈ (rows.foldl (Bulk.turn deps now input) b).handled) := by
  induction rows generalizing b with
  | nil => exact ⟨by simp, fun _ ↦ .inl hclean⟩
  | cons row rows ih =>
    obtain ⟨hrow, hne⟩ := hrows row (.head _)
    have hrest : ∀ j ∈ rows, j ∈ w₀.host.store.jobs ∧ j.id ≠ job.id :=
      fun j hj ↦ hrows j (.tail _ hj)
    rw [map_cons, nodup_cons] at hnodup
    rw [foldl_cons]
    have h' := @turn deps now input w₀ unknown b row h hf hrow hunknown
    have hself' : ∀ j ∈ rows, j.kind = .workflow →
        Clean w₀ (b.turn deps now input row) j.id := by
      intro j hj hk
      have hnej : row.id ≠ j.id := fun he ↦ hnodup.1 (he ▸ mem_map_of_mem hj)
      exact h.clean_turn hf hrow (hrest j hj).1
        (beside_of_workflow hf (hrest j hj).1 hnej hk) (hself j (.tail _ hj) hk)
    by_cases hu : input.allows row = true ∧ StopsUnseen w₀ row job
    · have hk := (hu.2.step hf hrow hjob hne).1
      have hrowclean := hself row (.head _) hk
      refine ⟨fun _ ↦ dirty_turns hf hunknown h' hrest ?_, fun hnone ↦ ?_⟩
      · exact h.turn_unseen hf hne hrowclean.handled hu.1 hrowclean.untouched hclean hu.2
      · exact absurd hu.2 (hnone row (.head _) hu.1)
    · refine ⟨?_, fun hnone ↦ ?_⟩
      · rintro ⟨p, hp, ha, hup⟩
        rcases mem_cons.mp hp with rfl | hp
        · exact absurd ⟨ha, hup⟩ hu
        · -- The job is a step of `p`, so the turn of `row` does not reach it.
          have hparent := (hup.step hf (hrest p hp).1 hjob (hrest p hp).2).2
          have hnep : p.id ≠ row.id := fun he ↦ hnodup.1 (he ▸ mem_map_of_mem hp)
          exact (ih h' hrest hnodup.2 hself' (h.clean_turn hf hrow hjob
            (beside_of_parent hf hne hparent hnep) hclean)).1 ⟨p, hp, ha, hup⟩
      · rcases @turn_seen deps now input w₀ unknown b row job h hf hrow hjob hne
          (hself row (.head _)) hclean (fun ha hun ↦ hu ⟨ha, hun⟩) with hclean' | hhandled
        · exact (ih h' hrest hnodup.2 hself' hclean').2
            fun p hp ↦ hnone p (.tail _ hp)
        · exact .inr (Bulk.mem_handled_turns (.inl hhandled))

/-- The turns after the job's own leave it alone, when they do not reach it. -/
theorem turns_after (h : Loop w₀ unknown b)
    (hrows : ∀ j ∈ rows, j ∈ w₀.host.store.jobs ∧ Beside w₀ j job) (hu : Untouched w₀ b.service job.id) :
    Untouched w₀ (rows.foldl (Bulk.turn deps now input) b).service job.id := by
  induction rows generalizing b with
  | nil => exact hu
  | cons row rows ih =>
    obtain ⟨hrow, hb⟩ := hrows row (.head _)
    refine ih (h.turn hf hrow hunknown) (fun j hj ↦ hrows j (.tail _ hj)) ?_
    exact fun x hx ↦ ((h.turn_beside hf hrow hjob hb).1 x hx).trans (hu x hx)

omit hjob in
theorem touched_turns (h : Loop w₀ unknown b) (hrows : ∀ j ∈ rows, j ∈ w₀.host.store.jobs)
    (ht : ¬ Untouched w₀ b.service job.id) :
    ¬ Untouched w₀ (rows.foldl (Bulk.turn deps now input) b).service job.id := by
  induction rows generalizing b with
  | nil => exact ht
  | cons row rows ih =>
    exact ih (h.turn hf (hrows row (.head _)) hunknown)
      (fun j hj ↦ hrows j (.tail _ hj)) (h.touched_turn hf ht)

end Job

end Loop

end Loop

/-! ## `cancelMany` -/

/-- Parents first. -/
theorem Forest.rank_workflow {w : JobService} (hf : Forest w) {j : JobRow}
    (hj : j ∈ w.host.store.jobs) (hk : j.kind = .workflow) : j.rank = 0 := by
  obtain ⟨hp, -, -, hd⟩ := hf.top j hj hk
  simp [JobRow.rank, hp, hk, hd]

theorem Forest.rank_script {w : JobService} (hf : Forest w) {j : JobRow}
    (hj : j ∈ w.host.store.jobs) (hk : j.kind ≠ .workflow) : 0 < j.rank := by
  have hd := hf.depth j hj
  simp only [JobRow.rank, if_neg hk]
  split <;> omega

/-- What the first loop makes of the ids without a row. -/
theorem foldl_book_none (ids : List String) (r : JobBulkCancelResponse) :
    ids.foldl (·.book none) r =
      { r with
        notCancellable := r.notCancellable + ids.length
        notCancellableJobIds := r.notCancellableJobIds ++ ids } := by
  induction ids generalizing r with
  | nil => simp
  | cons id ids ih =>
    rw [foldl_cons, ih]
    simp [JobBulkCancelResponse.book, Nat.add_assoc, Nat.add_comm 1]

theorem nodup_eraseDups {α : Type*} [DecidableEq α] (l : List α) : l.eraseDups.Nodup := by
  induction h : l.length using Nat.strong_induction_on generalizing l with
  | _ n ih =>
    cases l with
    | nil => simp
    | cons a l =>
      rw [eraseDups_cons, nodup_cons, mem_eraseDups]
      refine ⟨by simp, ih _ ?_ _ rfl⟩
      rw [← h]
      exact Nat.lt_succ_of_le (length_filter_le _ _)

/-- The job is one of those the call is asked to cancel. -/
def Asked (w : JobService) (input : BulkCancelInput) (j : JobRow) : Prop :=
  j ∈ w.host.store.jobs ∧ j.id ∈ input.jobIds

/-- The rows of the ids, each once. -/
theorem mem_rows {w : JobService} (hf : Forest w) {input : BulkCancelInput} {j : JobRow} :
    j ∈ input.jobIds.eraseDups.filterMap w.host.store.job? ↔ w.Asked input j := by
  rw [mem_filterMap, Asked]
  constructor
  · rintro ⟨id, hid, hj⟩
    obtain ⟨hmem, rfl⟩ := Store.job?_some hj
    exact ⟨hmem, mem_eraseDups.mp hid⟩
  · rintro ⟨hmem, hid⟩
    exact ⟨j.id, mem_eraseDups.mpr hid, hf.job?_eq hmem⟩

theorem nodup_rows (w : JobService) (ids : List String) (hids : ids.Nodup) :
    ((ids.filterMap w.host.store.job?).map (·.id)).Nodup := by
  have hsub : ((ids.filterMap w.host.store.job?).map (·.id)).Sublist ids := by
    rw [map_filterMap]
    have : ids.filterMap (fun id ↦ (w.host.store.job? id).map (·.id)) =
        ids.filter fun id ↦ (w.host.store.job? id).isSome := by
      rw [← filterMap_eq_filter]
      refine filterMap_congr fun id _ ↦ ?_
      cases hj : w.host.store.job? id with
      | none => simp [Option.guard, hj]
      | some j => simp [Option.guard, hj, (Store.job?_some hj).2]
    rw [this]
    exact filter_sublist
  exact hsub.nodup hids

/-- The state the loops start in: nothing has been stopped yet. -/
def started (w : JobService) : JobService := { w with stopped := [] }

/-- The ids without a row. -/
def unknownIds (w : JobService) (input : BulkCancelInput) : List String :=
  input.jobIds.eraseDups.filter fun id ↦ (w.host.store.job? id).isNone

/-- The rows, in the order of the main loop. -/
def sortedRows (w : JobService) (input : BulkCancelInput) : List JobRow :=
  (input.jobIds.eraseDups.filterMap w.host.store.job?).insertionSort fun a b ↦ a.rank ≤ b.rank

/-- The main loop before its first turn. -/
def firstBulk (w : JobService) (input : BulkCancelInput) : Bulk :=
  ⟨w.started, [], (w.unknownIds input).foldl (·.book none) input.response⟩

section Many

variable {deps : HostDeps} {now : Int} {w : JobService} {input : BulkCancelInput}

theorem cancelMany_eq : w.cancelMany deps now input =
    (((w.sortedRows input).foldl (Bulk.turn deps now input) (w.firstBulk input)).result,
      ((w.sortedRows input).foldl (Bulk.turn deps now input) (w.firstBulk input)).service) := rfl

theorem forest_started (hf : Forest w) : Forest w.started :=
  ⟨hf.ids, hf.depth, hf.top, hf.step, hf.latest, hf.entry, hf.child⟩

theorem unknownIds_job? : ∀ id ∈ w.unknownIds input, w.started.host.store.job? id = none := by
  intro id hid
  have hnone : (w.host.store.job? id).isNone = true := (mem_filter.mp hid).2
  exact Option.isNone_iff_eq_none.mp hnone

theorem loop_firstBulk : Loop w.started (w.unknownIds input) (w.firstBulk input) := by
  have hresult : (w.firstBulk input).result = { input.response with
      notCancellable := 0 + (w.unknownIds input).length
      notCancellableJobIds := [] ++ w.unknownIds input } := foldl_book_none _ _
  refine ⟨Kept.refl _, fun x ↦ .inl ⟨rfl, rfl⟩, ⟨?_, ?_, ?_⟩, ?_⟩
  · rw [hresult]
    exact (nodup_eraseDups _).filter _
  · intro id
    rw [hresult]
    simp [JobBulkCancelResponse.all, BulkCancelInput.response, firstBulk]
  · rw [hresult]
    exact ⟨rfl, rfl, rfl, Nat.zero_add _⟩
  · rw [hresult]
    simp [stoppedIds, BulkCancelInput.response]

theorem mem_sortedRows (hf : Forest w) {j : JobRow} : j ∈ w.sortedRows input ↔ w.Asked input j := by
  rw [sortedRows, mem_insertionSort, mem_rows hf]

theorem nodup_sortedRows : ((w.sortedRows input).map (·.id)).Nodup :=
  ((perm_insertionSort _ _).map _).nodup_iff.mpr
    (nodup_rows w _ (nodup_eraseDups input.jobIds))

/-- What the order of the main loop says of the rows around one of them. -/
theorem sortedRows_split (hf : Forest w) {before after : List JobRow} {job : JobRow}
    (he : w.sortedRows input = before ++ job :: after) :
    (∀ j ∈ before, w.Asked input j ∧ j.id ≠ job.id) ∧ (before.map (·.id)).Nodup ∧
      (∀ j ∈ after, w.Asked input j ∧ Beside w j job) ∧
      ∀ p, w.Asked input p → p.kind = .workflow → job.kind ≠ .workflow → p ∈ before := by
  have hmem : ∀ j ∈ before ++ job :: after, w.Asked input j := fun j hj ↦
    (mem_sortedRows hf).mp (he ▸ hj)
  have hjob := (hmem job (by simp)).1
  have hsorted : (before ++ job :: after).Pairwise fun a b ↦ a.rank ≤ b.rank :=
    he ▸ pairwise_insertionSort _ _
  have hnodup := @nodup_sortedRows w input
  rw [he, map_append, map_cons, nodup_append] at hnodup
  obtain ⟨hbefore, hrest, hdisj⟩ := hnodup
  have hafter := (pairwise_cons.mp (pairwise_append.mp hsorted).2.1).1
  refine ⟨fun j hj ↦ ⟨hmem j (by simp [hj]), ?_⟩, hbefore, fun j hj ↦ ?_, fun p hp hpk hk ↦ ?_⟩
  · exact hdisj j.id (mem_map_of_mem hj) job.id (.head _)
  · have hj' := hmem j (by simp [hj])
    have hne : j.id ≠ job.id := fun heq ↦
      (nodup_cons.mp hrest).1 (heq ▸ mem_map_of_mem hj)
    refine ⟨hj', ?_⟩
    by_cases hk : job.kind = .workflow
    · exact beside_of_workflow hf hjob hne hk
    · refine beside_of_script hne fun hjk ↦ ?_
      have hle := hafter j hj
      rw [hf.rank_workflow hj'.1 hjk] at hle
      have := hf.rank_script hjob hk
      omega
  · have hp' : p ∈ before ++ job :: after := he ▸ (mem_sortedRows hf).mpr hp
    rcases mem_append.mp hp' with hp' | hp'
    · exact hp'
    rcases mem_cons.mp hp' with rfl | hp'
    · exact absurd hpk hk
    · have hle := hafter p hp'
      rw [hf.rank_workflow hp.1 hpk] at hle
      have := hf.rank_script hjob hk
      omega

end Many

/-- **Bulk cancel accounts for every job exactly once**: every requested id is on exactly one of the
four lists, no id is on them twice, each counter is the length of its list, no run of a job that is
reported refused was stopped, and the run every other stopped job is reported for was stopped
exactly once. -/
structure Accounts (w : JobService) (input : BulkCancelInput) (r : JobBulkCancelResponse)
    (w' : JobService) : Prop where
  once : ∀ id ∈ input.jobIds, r.all.count id = 1
  nodup : r.all.Nodup
  counted : r.Counted
  refused : ∀ id ∈ r.refusedJobIds, ∀ x ∈ w'.stopped, w.jobOf x ≠ some id
  stopped : ∀ id ∈ r.stoppedIds, ∃ x, w.latestId id = some x ∧
    w'.stopped.count x + (if w.standing x = .stopping then 1 else 0) = 1

section Accounts

variable {deps : HostDeps} {now : Int} {w : JobService} {input : BulkCancelInput}

/-- A clean start: no job has come up. -/
theorem clean_firstBulk (jobId : String) : Clean w.started (w.firstBulk input) jobId :=
  ⟨not_mem_nil, fun _ _ ↦ rfl⟩

/-- The main loop around the turn of one job. -/
theorem turns_split (hf : Forest w) {before after : List JobRow} {job : JobRow}
    (he : w.sortedRows input = before ++ job :: after) :
    (w.sortedRows input).foldl (Bulk.turn deps now input) (w.firstBulk input) =
      after.foldl (Bulk.turn deps now input)
        ((before.foldl (Bulk.turn deps now input) (w.firstBulk input)).turn deps now input job) ∧
    Loop w.started (w.unknownIds input)
      (before.foldl (Bulk.turn deps now input) (w.firstBulk input)) ∧
    ((∃ p ∈ before, input.allows p = true ∧ StopsUnseen w p job) →
      Dirty w.started (before.foldl (Bulk.turn deps now input) (w.firstBulk input)) job.id) ∧
    ((∀ p ∈ before, input.allows p = true → ¬ StopsUnseen w p job) →
      Clean w.started (before.foldl (Bulk.turn deps now input) (w.firstBulk input)) job.id ∨
        job.id ∈ (before.foldl (Bulk.turn deps now input) (w.firstBulk input)).handled) := by
  obtain ⟨hbefore, hnodup, -, -⟩ := sortedRows_split hf he
  have hjob : w.Asked input job := (mem_sortedRows hf).mp (by simp [he])
  have hloop := @loop_firstBulk w input
  obtain ⟨hdirty, hclean⟩ := @Loop.turns_before deps now input w.started (w.unknownIds input)
    (w.firstBulk input) before job (forest_started hf) hjob.1 unknownIds_job? hloop
    (fun j hj ↦ ⟨(hbefore j hj).1.1, (hbefore j hj).2⟩) hnodup
    (fun j _ _ ↦ clean_firstBulk j.id) (clean_firstBulk job.id)
  exact ⟨by rw [he, foldl_append, foldl_cons], hloop.turns (forest_started hf)
    (fun j hj ↦ (hbefore j hj).1.1) unknownIds_job?, hdirty, hclean⟩

/-- The jobs reported refused are left alone, unless one of them is stopped unseen. -/
theorem refused_untouched_iff (hf : Forest w) :
    (∀ id ∈ (w.cancelMany deps now input).1.refusedJobIds,
      Untouched w.started (w.cancelMany deps now input).2 id) ↔
    ∀ parent job, w.Asked input parent → w.Asked input job → input.allows parent = true →
      input.allows job = false → ¬ StopsUnseen w parent job := by
  have hf' := forest_started hf
  rw [cancelMany_eq]
  constructor
  · intro h parent job hparent hjob hap haj hu
    have hne : parent.id ≠ job.id := by
      intro heq
      rw [hf.eq_of_id hparent.1 hjob.1 heq, haj] at hap
      cases hap
    obtain ⟨hk, hp⟩ := hu.step hf hparent.1 hjob.1 hne
    obtain ⟨before, after, he⟩ := append_of_mem ((mem_sortedRows hf).mpr hjob)
    obtain ⟨-, -, hafter, hmem⟩ := sortedRows_split hf he
    obtain ⟨hfold, hloop, hdirty, -⟩ := @turns_split deps now w input hf before after job he
    have hd := hdirty ⟨parent, hmem parent hparent hk (hf.script_of_parent hjob.1 hp), hap, hu⟩
    have hrefused : job.id ∈ ((w.sortedRows input).foldl (Bulk.turn deps now input)
        (w.firstBulk input)).result.refusedJobIds :=
      Bulk.mem_refused_turns.mpr (.inr ⟨before, job, after, he, rfl, hd.handled, haj⟩)
    refine absurd (h job.id hrefused) ?_
    simp only
    rw [hfold]
    refine Loop.touched_turns hf' unknownIds_job? (hloop.turn hf' hjob.1 unknownIds_job?)
      (fun j hj ↦ (hafter j hj).1.1) ?_
    exact hloop.touched_turn hf' hd.touched
  · intro h id hid
    rcases Bulk.mem_refused_turns.mp hid with hid | ⟨before, job, after, he, rfl, hhandled, ha⟩
    · have hnone : (w.firstBulk input).result.refusedJobIds = [] := by
        rw [firstBulk, foldl_book_none]
        rfl
      rw [hnone] at hid
      cases hid
    have hjob : w.Asked input job := (mem_sortedRows hf).mp (by simp [he])
    obtain ⟨hbefore, -, hafter, -⟩ := sortedRows_split hf he
    obtain ⟨hfold, hloop, -, hclean⟩ := @turns_split deps now w input hf before after job he
    have hc := (hclean fun p hp hap ↦ h p job (hbefore p hp).1 hjob hap ha).resolve_right hhandled
    simp only
    rw [hfold]
    refine Loop.turns_after hf' hjob.1 unknownIds_job? (hloop.turn hf' hjob.1 unknownIds_job?)
      (fun j hj ↦ ⟨(hafter j hj).1.1, (hafter j hj).2.ne, (hafter j hj).2.step,
        (hafter j hj).2.below⟩) ?_
    rw [Bulk.turn_refuses hhandled ha]
    exact hc.untouched

/-- **When bulk cancel accounts for every job**: exactly when no requested job that the gate refuses
has a run which a requested and permitted workflow job stops unseen. -/
theorem cancelMany_accounts_iff (deps : HostDeps) (now : Int) (w : JobService) (hf : Forest w)
    (input : BulkCancelInput) :
    w.Accounts input (w.cancelMany deps now input).1 (w.cancelMany deps now input).2 ↔
      ∀ parent job, w.Asked input parent → w.Asked input job → input.allows parent = true →
        input.allows job = false → ¬ StopsUnseen w parent job := by
  rw [← @refused_untouched_iff deps now w input hf]
  have hloop : Loop w.started (w.unknownIds input)
      ((w.sortedRows input).foldl (Bulk.turn deps now input) (w.firstBulk input)) :=
    loop_firstBulk.turns (forest_started hf)
      (fun j hj ↦ ((@mem_sortedRows w input hf j).mp hj).1) unknownIds_job?
  have hrefused : ∀ id, (∀ x ∈ (w.cancelMany deps now input).2.stopped, w.jobOf x ≠ some id) ↔
      Untouched w.started (w.cancelMany deps now input).2 id := by
    intro id
    refine forall_congr' fun x ↦ ?_
    rw [cancelMany_eq, hloop.tally.mem_stopped x]
    exact ⟨fun hx ho ↦ by_contra fun hne ↦ hx hne ho, fun hx hne ho ↦ hne (hx ho)⟩
  refine ⟨fun h id hid ↦ (hrefused id).mp (h.refused id hid), fun h ↦ ⟨fun id hid ↦ ?_, ?_, ?_,
    fun id hid ↦ (hrefused id).mpr (h id hid), fun id hid ↦ ?_⟩⟩
  · refine count_eq_one_of_mem hloop.booked.nodup ((hloop.booked.mem id).mpr ?_)
    cases hj : w.host.store.job? id with
    | none =>
      refine .inr (mem_filter.mpr ⟨mem_eraseDups.mpr hid, ?_⟩)
      rw [hj]
      rfl
    | some j =>
      obtain ⟨hmem, rfl⟩ := Store.job?_some hj
      exact .inl (Bulk.mem_handled_turns (.inr (mem_map_of_mem
        ((mem_sortedRows hf).mpr ⟨hmem, hid⟩))))
  · exact hloop.booked.nodup
  · exact hloop.booked.counted
  · obtain ⟨x, hx, he⟩ := hloop.stopped id hid
    exact ⟨x, hx, he.once hloop.tally⟩

end Accounts

end JobService

/-! ## A workflow waiting for a step that is queued -/

namespace QueuedStep

open JobService

/-- A running workflow job. -/
def flow : JobRow :=
  { Store.newJob ⟨0, "flow", 1⟩
      { kind := .workflow, workflowName := some "tour", deviceId := "phone", params := .null } with
    latestRunId := some "flow-run"
    runCount := 1 }

/-- The step it waits for. -/
def step : JobRow :=
  { Store.newJob ⟨1, "step", 1⟩
      { kind := .script, scriptId := some "tap", deviceId := "phone", params := .null,
        parentWorkflowJobId := some "flow", stepSeq := some 1 } with
    latestRunId := some "step-run"
    runCount := 1 }

def flowRun : JobRunRow :=
  { Store.newRun Store.empty ⟨0, "flow-run", 1⟩ { flow with runCount := 0 } { trigger := .manual } with
    status := .running }

def stepRun : JobRunRow :=
  Store.newRun Store.empty ⟨1, "step-run", 1⟩ { step with runCount := 0 } { trigger := .workflowStep }

/-- The attempt the orchestrator runs in. -/
def attempt : Attempt where
  job := flow
  run := flowRun
  heartbeat := true
  hold := true
  aborted := false
  cancelling := false
  cancelTimers := []
  executing := true
  finished := false
  peakRssBytes := none
  resultOutcome := none

def service : JobService where
  host :=
    { store := ⟨[flow, step], [flowRun, stepRun], [], []⟩
      settings := ⟨false, true, 3⟩
      attempts := [attempt]
      running := fun runId ↦ if runId = "flow-run" then some 0 else none
      crashHandlers := fun _ ↦ none
      killHandlers := fun _ ↦ none }
  currentChildRunId i := if i = 0 then some "step-run" else none
  stopped := []

/-- Both jobs, under a gate that refuses the step. -/
def refusing : BulkCancelInput := ⟨["step", "flow"], some fun j ↦ j.id != "step", none, none⟩

/-- Both jobs, one of them twice, and one there is not, without a gate. -/
def asking : BulkCancelInput := ⟨["step", "flow", "step", "lost"], none, none, none⟩

theorem jobOf_flowRun : service.jobOf "flow-run" = some "flow" := by decide +kernel

theorem jobOf_stepRun : service.jobOf "step-run" = some "step" := by decide +kernel

theorem service_forest : Forest service := by
  refine ⟨by decide, by decide, by decide, by decide, fun j hj x hx owner ho ↦ ?_,
    fun runId i hi ↦ ?_, fun i a ha c hc owner ho ↦ ?_⟩
  · rcases mem_cons.mp hj with rfl | hj
    · obtain rfl : "flow-run" = x := Option.some.inj hx
      rw [jobOf_flowRun, Option.some_inj] at ho
      exact ho.symm
    · obtain rfl := mem_singleton.mp hj
      obtain rfl : "step-run" = x := Option.some.inj hx
      rw [jobOf_stepRun, Option.some_inj] at ho
      exact ho.symm
  · by_cases hrun : runId = "flow-run"
    · subst hrun
      obtain rfl : 0 = i := Option.some.inj hi
      refine ⟨attempt, rfl, rfl, fun owner ho ↦ ⟨flow, mem_cons_self, ?_⟩⟩
      rw [jobOf_flowRun, Option.some_inj] at ho
      exact ⟨ho, ho, rfl⟩
    · rw [show service.host.running runId = none from if_neg hrun] at hi
      cases hi
  · cases i with
    | succ i => cases ha
    | zero =>
      obtain rfl : attempt = a := Option.some.inj ha
      obtain rfl : "step-run" = c := Option.some.inj hc
      rw [jobOf_stepRun, Option.some_inj] at ho
      exact ⟨step, by decide, ho, rfl⟩

/-- The step that is refused has been stopped, by the orchestrator of the workflow that is
permitted. -/
theorem refused_step_stopped :
    (service.cancelMany OneMember.deps 7 refusing).1.refusedJobIds = ["step"] ∧
    (service.cancelMany OneMember.deps 7 refusing).2.stopped = ["flow-run", "step-run"] ∧
    service.jobOf "step-run" = some "step" ∧
    ¬ service.Accounts refusing (service.cancelMany OneMember.deps 7 refusing).1
      (service.cancelMany OneMember.deps 7 refusing).2 := by
  have hrefused : (service.cancelMany OneMember.deps 7 refusing).1.refusedJobIds = ["step"] := by
    decide +kernel
  have hstopped : (service.cancelMany OneMember.deps 7 refusing).2.stopped =
      ["flow-run", "step-run"] := by decide +kernel
  refine ⟨hrefused, hstopped, jobOf_stepRun, fun h ↦ ?_⟩
  exact h.refused "step" (by simp [hrefused]) "step-run" (by simp [hstopped]) jobOf_stepRun

theorem cancelMany_accounts_asking :
    service.Accounts asking (service.cancelMany OneMember.deps 7 asking).1
      (service.cancelMany OneMember.deps 7 asking).2 :=
  (cancelMany_accounts_iff OneMember.deps 7 service service_forest asking).mpr
    fun _ _ _ _ _ h ↦ by cases h

end QueuedStep

end Enkaku
