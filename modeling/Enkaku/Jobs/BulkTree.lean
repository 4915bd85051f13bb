import Enkaku.Jobs.BulkStops

/-!
# A tree of jobs, and the cancel of one

What is below a workflow job: `mem_descendantsOf_of_parent` and `parent_of_mem_descendantsOf` say
that its own steps are there and nobody else's, and `nested_of_mem_descendantsOf` that whatever is
there is no workflow.  `cancelTree_spec` says which runs the cancel of a job stops, and which jobs it
lists: the descendants whose latest run had not settled when the job itself had been stopped.
-/

set_option autoImplicit false

namespace Enkaku

open List

namespace Store

variable {s : Store}

theorem mem_listChildren {jobIds : List String} {j : JobRow} :
    j ∈ s.listChildren jobIds ↔ j ∈ s.jobs ∧ isChildOf jobIds j = true ∧ j.id ∉ jobIds := by
  simp only [listChildren, mem_filter, mem_insertionSort, decide_eq_true_eq, and_assoc]

/-- The job is a step, or has been triggered. -/
def Nested (j : JobRow) : Prop :=
  j.parentWorkflowJobId.isSome ∨ j.triggeredByJobId.isSome ∨ j.rootJobId.isSome

theorem nested_of_isChildOf {jobIds : List String} {j : JobRow} (h : isChildOf jobIds j = true) :
    Nested j := by
  simp only [isChildOf, Bool.or_eq_true, Option.any_eq_true] at h
  rcases h with (⟨p, hp, -⟩ | ⟨p, hp, -⟩) | ⟨p, hp, -⟩
  · exact .inl (by simp [hp])
  · exact .inr (.inl (by simp [hp]))
  · exact .inr (.inr (by simp [hp]))

theorem subset_descend (fuel : Nat) (out : List JobRow) (seen frontier : List String) :
    out ⊆ s.descend fuel out seen frontier := by
  induction fuel generalizing out seen frontier with
  | zero => exact fun _ hj ↦ hj
  | succ fuel ih =>
    rw [descend]
    split
    · exact fun j hj ↦ ih _ _ _ (mem_append_left _ hj)
    · exact fun _ hj ↦ hj

variable {d : JobRow}

/-- What the walk finds is a child of the job it started at, or of jobs that are nested
themselves. -/
theorem mem_descend {start : String} {fuel : Nat} {out : List JobRow}
    {seen frontier : List String}
    (hfrontier : ∀ p ∈ frontier, p = start ∨ ∃ j ∈ s.jobs, j.id = p ∧ Nested j)
    (hd : d ∈ s.descend fuel out seen frontier) : d ∈ out ∨ d ∈ s.jobs ∧ ∃ ps,
      isChildOf ps d = true ∧ ∀ p ∈ ps, p = start ∨ ∃ j ∈ s.jobs, j.id = p ∧ Nested j := by
  induction fuel generalizing out seen frontier with
  | zero => exact .inl hd
  | succ fuel ih =>
    rw [descend] at hd
    split at hd
    · have hchild : ∀ c ∈ (s.listChildren frontier).filter fun c ↦ decide (c.id ∉ seen),
          c ∈ s.jobs ∧ isChildOf frontier c = true := by
        intro c hc
        obtain ⟨hmem, hc, -⟩ := mem_listChildren.mp (mem_filter.mp hc).1
        exact ⟨hmem, hc⟩
      have hnext : ∀ p ∈ ((s.listChildren frontier).filter fun c ↦ decide (c.id ∉ seen)).map (·.id),
          p = start ∨ ∃ j ∈ s.jobs, j.id = p ∧ Nested j := by
        intro p hp
        obtain ⟨c, hc, rfl⟩ := mem_map.mp hp
        exact .inr ⟨c, (hchild c hc).1, rfl, nested_of_isChildOf (hchild c hc).2⟩
      rcases ih hnext hd with hd | hd
      · rcases mem_append.mp hd with hd | hd
        · exact .inl hd
        · exact .inr ⟨(hchild d hd).1, frontier, (hchild d hd).2, hfrontier⟩
      · exact .inr hd
    · exact .inl hd

variable {jobId : String}

theorem mem_descendantsOf (hd : d ∈ s.descendantsOf jobId) :
    d ∈ s.jobs ∧ ∃ ps, isChildOf ps d = true ∧
      ∀ p ∈ ps, p = jobId ∨ ∃ j ∈ s.jobs, j.id = p ∧ Nested j :=
  (mem_descend (fun _ hp ↦ .inl (mem_singleton.mp hp)) hd).resolve_left not_mem_nil

theorem nested_of_mem_descendantsOf (hd : d ∈ s.descendantsOf jobId) : Nested d := by
  obtain ⟨-, ps, hps, -⟩ := mem_descendantsOf hd
  exact nested_of_isChildOf hps

/-- The first round of the walk takes every child of the job. -/
theorem mem_descendantsOf_of_child (hd : d ∈ s.jobs) (hchild : isChildOf [jobId] d = true)
    (hne : d.id ≠ jobId) : d ∈ s.descendantsOf jobId := by
  rw [descendantsOf, descend, if_pos ⟨by simp, by decide⟩]
  refine subset_descend _ _ _ _ (mem_append_right _ (mem_filter.mpr ⟨?_, by simpa⟩))
  exact mem_listChildren.mpr ⟨hd, hchild, by simpa⟩

/-! ### The fuel of the walk

A round that finds a child makes the number of jobs that have not been seen smaller, and the round
after one that finds none is the last. -/

/-- The jobs the walk has not seen. -/
def unseen (s : Store) (seen : List String) : List JobRow :=
  s.jobs.filter fun j ↦ decide (j.id ∉ seen)

theorem unseen_lt {seen : List String} {children : List JobRow} (hne : children ≠ [])
    (hmem : ∀ c ∈ children, c ∈ s.jobs ∧ c.id ∉ seen) :
    (s.unseen (seen ++ children.map (·.id))).length < (s.unseen seen).length := by
  obtain ⟨c, hc⟩ := exists_mem_of_ne_nil children hne
  have hsplit : s.unseen (seen ++ children.map (·.id)) =
      (s.unseen seen).filter fun j ↦ decide (j.id ∉ children.map (·.id)) := by
    rw [unseen, unseen, filter_filter]
    refine filter_congr fun j _ ↦ ?_
    simp only [mem_append, not_or, Bool.decide_and, Bool.and_comm]
  rw [hsplit, length_filter_lt_length_iff_exists]
  refine ⟨c, mem_filter.mpr ⟨(hmem c hc).1, by simpa using (hmem c hc).2⟩, ?_⟩
  simpa using ⟨c, hc, rfl⟩

/-- **The fuel of `descendantsOf` is enough**: more of it changes nothing. -/
theorem descend_fuel {fuel : Nat} {out : List JobRow} {seen frontier : List String}
    (hfuel : (s.unseen seen).length < fuel) (more : Nat) :
    s.descend (fuel + more) out seen frontier = s.descend fuel out seen frontier := by
  induction fuel generalizing out seen frontier with
  | zero => exact absurd hfuel (Nat.not_lt_zero _)
  | succ fuel ih =>
    rw [Nat.add_right_comm, descend, descend]
    split
    · by_cases hne : ((s.listChildren frontier).filter fun c ↦ decide (c.id ∉ seen)) = []
      · rw [hne]
        -- Nothing was found, so the walk is over, whatever fuel is left.
        cases fuel with
        | zero => cases more <;> simp [descend]
        | succ fuel => simp [descend, Nat.add_right_comm]
      · refine ih ?_
        have hlt := @unseen_lt s seen _ hne fun c hc ↦ by
          obtain ⟨hmem, hseen⟩ := mem_filter.mp hc
          exact ⟨(mem_listChildren.mp hmem).1, by simpa using hseen⟩
        omega
    · rfl

end Store

namespace JobService

/-! ## Below a workflow job -/

namespace Forest

variable {w : JobService} (hf : Forest w)

include hf

theorem script_of_nested {j : JobRow} (hj : j ∈ w.host.store.jobs) (hn : Store.Nested j) :
    j.kind ≠ .workflow := by
  intro hk
  obtain ⟨hp, ht, hr, -⟩ := hf.top j hj hk
  simp [Store.Nested, hp, ht, hr] at hn

variable {d : JobRow} {jobId : String}

theorem script_of_mem_descendantsOf (hd : d ∈ w.host.store.descendantsOf jobId) :
    d ∈ w.host.store.jobs ∧ d.kind ≠ .workflow :=
  ⟨(Store.mem_descendantsOf hd).1,
    hf.script_of_nested (Store.mem_descendantsOf hd).1 (Store.nested_of_mem_descendantsOf hd)⟩

/-- A step is below its own workflow only. -/
theorem parent_of_mem_descendantsOf {p : String} (hd : d ∈ w.host.store.descendantsOf jobId)
    (hp : d.parentWorkflowJobId = some p) : p = jobId := by
  obtain ⟨hmem, ps, hchild, hps⟩ := Store.mem_descendantsOf hd
  obtain ⟨ht, hr, hworkflow⟩ := hf.step d hmem p hp
  have hpmem : p ∈ ps := by simpa [Store.isChildOf, hp, ht, hr] using hchild
  refine (hps p hpmem).resolve_right ?_
  rintro ⟨j, hj, hid, hn⟩
  exact hf.script_of_nested hj hn (hworkflow j hj hid)

/-- A step is below its workflow. -/
theorem mem_descendantsOf_of_parent (hd : d ∈ w.host.store.jobs)
    (hp : d.parentWorkflowJobId = some jobId) : d ∈ w.host.store.descendantsOf jobId := by
  refine Store.mem_descendantsOf_of_child hd (by simp [Store.isChildOf, hp]) fun he ↦ ?_
  have hk := (hf.step d hd jobId hp).2.2 d hd he
  exact hf.script_of_parent hd hp hk

end Forest

/-! ## Stopping the latest run of a job -/

/-- The runs that are stopped with the latest run of a job. -/
def latestAndStep (w : JobService) (jobId : String) : List String :=
  match w.latestId jobId with
  | none => []
  | some x => x :: (w.fires x).toList

section Stop

variable {deps : HostDeps} {now : Int} {w : JobService}

theorem stopLatest_spec (hf : Forest w) (jobId : String) :
    (w.stopLatest deps now jobId).1 = (w.latestId jobId).bind (fun x ↦ (w.standing x).outcome) ∧
      StopAll w (w.latestAndStep jobId) (w.stopLatest deps now jobId).2 := by
  rw [stopLatest, latestAndStep, latestId]
  cases hl : w.host.store.latestRun jobId with
  | none => exact ⟨rfl, .nil w⟩
  | some run =>
    rw [Store.latestRun, Option.bind_eq_some_iff] at hl
    obtain ⟨j, hj, hrun⟩ := hl
    obtain ⟨x, hx, hrun⟩ := Option.bind_eq_some_iff.mp hrun
    obtain rfl : run.id = x := Store.run?_some hrun
    obtain ⟨hmem, hid⟩ := Store.job?_some hj
    have howner := hf.latest j hmem run.id hx run.jobId (by simp [jobOf, hrun])
    exact stopRun_spec hf hrun (by rw [howner, hf.job?_eq hmem]; rfl)

/-- A script's run is stopped alone. -/
theorem latestAndStep_script (hf : Forest w) {j : JobRow} (hj : j ∈ w.host.store.jobs)
    (hk : j.kind ≠ .workflow) : w.latestAndStep j.id = (w.latestId j.id).toList := by
  rw [latestAndStep]
  cases hx : w.latestId j.id with
  | none => rfl
  | some x =>
    have hquiet : w.fires x = none := by
      rw [fires]
      split
      · exact hf.stepOf_script (hf.jobOf_latestId hx) hj rfl hk
      · rfl
    simp [hquiet]

/-- The job's latest run has not settled. -/
def Unsettled (w : JobService) (jobId : String) : Prop :=
  ∃ x, w.latestId jobId = some x ∧ w.standing x ≠ .settled

theorem stopLatest_isSome (hf : Forest w) (jobId : String) :
    (w.stopLatest deps now jobId).1.isSome ↔ w.Unsettled jobId := by
  rw [(stopLatest_spec hf jobId).1, Unsettled]
  cases hx : w.latestId jobId with
  | none => simp
  | some x => simp [Option.isSome_iff_ne_none, RunStanding.outcome_eq_none]

/-! ## The cascade -/

/-- The jobs a tree result lists. -/
def TreeResult.listed (r : TreeResult) : List String := r.cancelledIds ++ r.abortedIds

/-- After one script of a cascade has been stopped, another job is as unsettled as it was. -/
theorem unsettled_of_stopAll (hf : Forest w) {w' : JobService} {d : JobRow}
    (hs : StopAll w (w.latestId d.id).toList w') {id : String} (hne : id ≠ d.id) :
    w'.Unsettled id ↔ w.Unsettled id := by
  refine exists_congr fun x ↦ ?_
  rw [hs.kept.latestId]
  refine and_congr_right fun hx ↦ ?_
  rw [hs.others]
  intro hmem
  have hd := hf.jobOf_latestId (Option.mem_toList.mp hmem)
  rw [hf.jobOf_latestId hx, Option.some_inj] at hd
  exact hne hd

/-- One turn of the cascade lists the job if there was something to stop. -/
theorem cascade_cons (r : TreeResult) (d : JobRow) (ds : List JobRow) : ∃ r',
    w.cascade deps now r (d :: ds) = (w.stopLatest deps now d.id).2.cascade deps now r' ds ∧
      r'.self = r.self ∧ ∀ id, id ∈ r'.listed ↔
        id ∈ r.listed ∨ id = d.id ∧ (w.stopLatest deps now d.id).1.isSome := by
  rw [cascade]
  cases ho : (w.stopLatest deps now d.id).1 with
  | none => exact ⟨r, by simp only [ho], rfl, by simp⟩
  | some outcome =>
    cases outcome with
    | cancelled =>
      refine ⟨{ r with cancelledIds := r.cancelledIds ++ [d.id] }, by simp only [ho], rfl,
        fun id ↦ ?_⟩
      simp only [TreeResult.listed, mem_append, mem_singleton, Option.isSome_some]
      tauto
    | aborted =>
      refine ⟨{ r with abortedIds := r.abortedIds ++ [d.id] }, by simp only [ho], rfl,
        fun id ↦ ?_⟩
      simp only [TreeResult.listed, mem_append, mem_singleton, Option.isSome_some]
      tauto

/-- **What a cascade does**: it stops the latest run of every descendant, and lists those for which
there was something to stop. -/
theorem cascade_spec (hf : Forest w) {ds : List JobRow}
    (hds : ∀ d ∈ ds, d ∈ w.host.store.jobs ∧ d.kind ≠ .workflow) (r : TreeResult) :
    (w.cascade deps now r ds).1.self = r.self ∧
      StopAll w (ds.filterMap fun d ↦ w.latestId d.id) (w.cascade deps now r ds).2 ∧
      ∀ id, id ∈ (w.cascade deps now r ds).1.listed ↔
        id ∈ r.listed ∨ id ∈ ds.map (·.id) ∧ w.Unsettled id := by
  induction ds generalizing w r with
  | nil => exact ⟨rfl, .nil w, fun id ↦ by simp [cascade]⟩
  | cons d ds ih =>
    obtain ⟨hd, hk⟩ := hds d (.head _)
    have hs := (@stopLatest_spec deps now w hf d.id).2
    rw [latestAndStep_script hf hd hk] at hs
    have hf' := hs.kept.forest hf
    obtain ⟨r', he, hself, hlisted⟩ := @cascade_cons deps now w r d ds
    obtain ⟨hself', hstops, hlisted'⟩ := @ih _ hf' (fun d' hd' ↦ by
      rw [hs.kept.jobs]
      exact hds d' (.tail _ hd')) r'
    rw [he]
    refine ⟨hself'.trans hself, ?_, fun id ↦ ?_⟩
    · have hruns : (d :: ds).filterMap (fun d ↦ w.latestId d.id) = (w.latestId d.id).toList ++
          ds.filterMap fun d' ↦ (w.stopLatest deps now d.id).2.latestId d'.id := by
        simp only [hs.kept.latestId]
        rw [filterMap_cons]
        cases w.latestId d.id <;> rfl
      rw [hruns]
      exact hs.append hstops
    · rw [hlisted', hlisted, stopLatest_isSome hf]
      rcases eq_or_ne id d.id with rfl | hne
      · -- What one turn has settled is not unsettled in the next.
        have hmono : (w.stopLatest deps now d.id).2.Unsettled d.id → w.Unsettled d.id := by
          rintro ⟨x, hx, hne⟩
          exact ⟨x, (hs.kept.latestId _).symm.trans hx, fun hx' ↦ hne (hs.settled hx')⟩
        simp only [map_cons, mem_cons]
        tauto
      · rw [unsettled_of_stopAll hf hs hne]
        simp only [map_cons, mem_cons]
        tauto

/-! ## `cancelTree` -/

/-- The jobs a cancel of the job reaches besides it. -/
def below (w : JobService) (job : JobRow) : List JobRow :=
  if job.kind = .workflow then w.host.store.descendantsOf job.id else []

theorem Kept.below {w' : JobService} (h : Kept w w') (job : JobRow) : w'.below job = w.below job := by
  have hjobs : ∀ fuel out seen frontier,
      w'.host.store.descend fuel out seen frontier = w.host.store.descend fuel out seen frontier := by
    intro fuel
    induction fuel with
    | zero => exact fun _ _ _ ↦ rfl
    | succ fuel ih =>
      intro out seen frontier
      simp only [Store.descend, Store.listChildren, h.jobs, ih]
  rw [JobService.below, JobService.below, Store.descendantsOf, Store.descendantsOf, hjobs, h.jobs]

/-- **What `cancelTree` does**: it stops the job with the step it is waiting for, then everything
below the job, and lists what was below it and not yet settled in between. -/
theorem cancelTree_spec (hf : Forest w) (job : JobRow) : ∃ w₁,
    StopAll w (w.latestAndStep job.id) w₁ ∧
      (w.cancelTree deps now job (job.kind = .workflow)).1.self =
        (w.latestId job.id).bind (fun x ↦ (w.standing x).outcome) ∧
      StopAll w₁ ((w.below job).filterMap fun d ↦ w.latestId d.id)
        (w.cancelTree deps now job (job.kind = .workflow)).2 ∧
      ∀ id, id ∈ (w.cancelTree deps now job (job.kind = .workflow)).1.listed ↔
        id ∈ (w.below job).map (·.id) ∧ w₁.Unsettled id := by
  obtain ⟨ho, hs⟩ := @stopLatest_spec deps now w hf job.id
  have hf' := hs.kept.forest hf
  have hbelow : (if decide (job.kind = .workflow) = true then
      (w.stopLatest deps now job.id).2.host.store.descendantsOf job.id else []) = w.below job := by
    rw [← hs.kept.below, below]
    simp
  obtain ⟨hself, hstops, hlisted⟩ := @cascade_spec deps now _ hf' (w.below job) (fun d hd ↦ by
    rw [← hs.kept.below, below] at hd
    split at hd
    · exact hf'.script_of_mem_descendantsOf hd
    · cases hd) ⟨(w.stopLatest deps now job.id).1, [], []⟩
  have htree : w.cancelTree deps now job (job.kind = .workflow) =
      (w.stopLatest deps now job.id).2.cascade deps now
        ⟨(w.stopLatest deps now job.id).1, [], []⟩ (w.below job) := by
    rw [cancelTree, ← hbelow]
  rw [htree]
  refine ⟨_, hs, hself.trans ho, ?_, fun id ↦ ?_⟩
  · simpa only [hs.kept.latestId] using hstops
  · rw [hlisted]
    simp [TreeResult.listed]

end Stop

end JobService

end Enkaku
