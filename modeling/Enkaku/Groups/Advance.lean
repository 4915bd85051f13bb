import Enkaku.Groups.Sequential

/-!
# What advancing a sequential batch does

One call of `advance` releases the runs of one sub-group, or adds the runs of one phase, or does
nothing.  Each effect is first described row by row — `released` and `addPhase_eq` — and from that
follow the invariant (`Phased.advance`) and idempotence: whatever the call did, some run is going
afterwards if it did anything, so that a second call waits (`Phased.advance_advance`).
-/

set_option autoImplicit false

namespace Enkaku.Store

open List Option

/-! ## Releasing a sub-group -/

/-- A run is released, if it stands on the stage, and keeps everything else that is planned. -/
structure Eased (p w : Int) (r r' : JobRunRow) : Prop where
  id : r'.id = r.id
  jobId : r'.jobId = r.jobId
  batchRepeat : r'.batchRepeat = r.batchRepeat
  batchWave : r'.batchWave = r.batchWave
  status : r'.status = r.status
  held : r'.held = r.held ∨ r'.held = false ∧ r.batchRepeat = some p ∧ r.batchWave = some w

/-- The run is on the stage. -/
def OnStage (p w : Int) (r : JobRunRow) : Prop := r.batchRepeat = some p ∧ r.batchWave = some w

theorem Eased.staysPut {p w : Int} {r r' : JobRunRow} (h : Eased p w r r') :
    StaysPut (OnStage p w) r r' := by
  refine ⟨h.id, h.jobId, h.batchRepeat, h.batchWave, fun hs ↦ h.status ▸ hs, fun hgoing ↦ ?_⟩
  rcases h.held with hheld | ⟨-, hp, hw⟩
  · rw [JobRunRow.going, h.status, hheld] at hgoing
    exact .inl hgoing
  · exact .inr ⟨hp, hw⟩

/-- `t` is `s` with its runs rewritten by `f`, which releases runs of one stage only. -/
structure Releasing (p w : Int) (s t : Store) (f : JobRunRow → JobRunRow) : Prop where
  number : ∀ r, SameNumber r (f r)
  eased : ∀ r ∈ s.runs, Eased p w r (f r)
  eq : t = { s with runs := s.runs.map f }

section Release

variable {s t : Store} {members : List String} {b : PacedBatch} {n p w : Int}
  {f : JobRunRow → JobRunRow}

/-- The member has a held run on the stage. -/
def HeldBack (p w : Int) (v : MemberView) (r : JobRunRow) : Prop :=
  v.wave = w ∧ v.last? p = some r ∧ r.status = .queued ∧ r.held = true

/-- One turn of the loop. -/
theorem Releasing.turn (h : Phased members b.id n s) (ht : Releasing p w s t f) (d : Draws)
    {q : MemberView × Nat} (hq : q.1 ∈ s.sequentialMembers b.id) :
    ∃ f', Releasing p w s (releaseMember b d p w t q) f' ∧
      (∀ r, (f r).held = false → (f' r).held = false) ∧
      ∀ r, HeldBack p w q.1 r → (f' r).held = false := by
  rw [releaseMember]
  by_cases hwave : q.1.wave = w
  · rw [if_neg (not_not.mpr hwave), ← MemberView.last?]
    cases hlast : q.1.last? p with
    | none =>
      refine ⟨f, ht, fun _ hr ↦ hr, fun r hr ↦ ?_⟩
      rw [hr.2.1] at hlast
      cases hlast
    | some run =>
      dsimp only
      by_cases hskip : run.status ≠ .queued ∨ run.held = false
      · rw [if_pos hskip]
        refine ⟨f, ht, fun _ hr ↦ hr, fun r hr ↦ ?_⟩
        cases hlast.symm.trans hr.2.1
        rcases hskip with hno | hno
        · exact absurd hr.2.2.1 hno
        · rw [hr.2.2.2] at hno
          cases hno
      · rw [if_neg hskip]
        obtain ⟨hrun, hp⟩ := (h.last?_eq_some hq).mp hlast
        have hmem := (mem_repetitions.mp ((mem_view_runs hq).mp hrun).1).1
        have hw := hwave ▸ h.view_wave hq hrun
        set f' : JobRunRow → JobRunRow := fun r ↦
          if (f r).id = run.id then releasePatch b d w q.2 (f r) else f r with hf'
        have hheld : ∀ r, (f r).held = false → (f' r).held = false := by
          intro r hr
          rw [hf']
          dsimp only
          split
          · rfl
          · exact hr
        refine ⟨f', ⟨fun r ↦ ?_, fun r hr ↦ ?_, ?_⟩, hheld, fun r hr ↦ ?_⟩
        · rw [hf']
          dsimp only
          split
          · exact ⟨(ht.number r).id, (ht.number r).jobId, (ht.number r).seq⟩
          · exact ht.number r
        · have he := ht.eased r hr
          rw [hf']
          dsimp only
          split
          · rename_i hid
            -- the released row is the member's run of the phase
            obtain rfl := h.keys.run_eq hr hmem (he.id.symm.trans hid)
            exact ⟨he.id, he.jobId, he.batchRepeat, he.batchWave, he.status, .inr ⟨rfl, hp, hw⟩⟩
          · exact he
        · rw [ht.eq, updateRun, Sql.update, List.map_map, hf']
          simp only [decide_eq_true_eq]
          rfl
        · cases hlast.symm.trans hr.2.1
          rw [hf']
          dsimp only
          rw [if_pos (ht.number run).id]
          rfl
  · rw [if_pos hwave]
    exact ⟨f, ht, fun _ hr ↦ hr, fun r hr ↦ absurd hr.1 hwave⟩

/-- What the loop that releases a sub-group does: it releases the held runs that the members it
goes over have on the stage. -/
theorem released (h : Phased members b.id n s) (d : Draws) (p w : Int)
    (l : List (MemberView × Nat)) (hl : ∀ q ∈ l, q.1 ∈ s.sequentialMembers b.id) :
    ∃ f, Releasing p w s (l.foldl (releaseMember b d p w) s) f ∧
      ∀ q ∈ l, ∀ r, HeldBack p w q.1 r → (f r).held = false := by
  induction l using List.reverseRecOn with
  | nil =>
    exact ⟨id, ⟨fun _ ↦ ⟨rfl, rfl, rfl⟩, fun r _ ↦ ⟨rfl, rfl, rfl, rfl, rfl, .inl rfl⟩, by simp⟩,
      by simp⟩
  | append_singleton l q ih =>
    obtain ⟨f, ht, hdone⟩ := ih fun q hq ↦ hl q (mem_append_left _ hq)
    obtain ⟨f', ht', hkept, hnow⟩ := ht.turn h d (hl q (by simp))
    rw [foldl_append]
    refine ⟨f', ht', fun q' hq' r hr ↦ ?_⟩
    rcases mem_append.mp hq' with hq' | hq'
    · exact hkept r (hdone q' hq' r hr)
    · obtain rfl := mem_singleton.mp hq'
      exact hnow r hr

end Release

/-! ## Adding a phase -/

/-- The run of the next phase a member is given. -/
structure PhaseRun (p : Int) (v : MemberView) (r : JobRunRow) : Prop where
  jobId : r.jobId = v.member.id
  status : r.status = .queued
  batchRepeat : r.batchRepeat = some p
  batchWave : r.batchWave = some v.wave
  held : r.held = decide (v.wave ≠ 0)

/-- What the loop that plans a phase did for the members it went over. -/
structure PhaseAdded (batchId : String) (p : Int) (l : List (MemberView × Nat)) (s s' : Store)
    (news : List JobRunRow) : Prop where
  runs : s'.runs = s.runs ++ news
  added : List.Forall₂ (fun q r ↦ PhaseRun p q.1 r) l news
  keys : Keys s'
  numbered : Numbered s'
  noGaps : s'.NoGaps batchId
  member : ∀ jobId, s'.IsMember batchId jobId ↔ s.IsMember batchId jobId
  /-- The new run is the member's latest. -/
  latest : ∀ q ∈ l, ∃ r, s'.latestRun q.1.member.id = some r ∧ r.status = .queued
  others : ∀ jobId r, jobId ∉ l.map (·.1.member.id) → s.latestRun jobId = some r →
    s'.latestRun jobId = some r

theorem newRun_phaseRun (s : Store) (b : PacedBatch) (d : Draws) (p : Int) (q : MemberView × Nat)
    {job : JobRow} (hid : job.id = q.1.member.id) (env : Ambient) :
    PhaseRun p q.1 (s.newRun env job (phaseInput b d p q)) := by
  rw [phaseInput]
  by_cases hw : q.1.wave = 0
  · rw [if_pos hw]
    exact ⟨hid, rfl, rfl, by rw [hw]; rfl, by simp [newRun, hw]⟩
  · rw [if_neg hw]
    exact ⟨hid, rfl, rfl, rfl, by simp [newRun, hw]⟩

theorem job?_map {s : Store} {g : JobRow → JobRow} (hg : ∀ j, (g j).id = j.id)
    (runs : List JobRunRow) (jobId : String) :
    job? { s with runs := runs, jobs := s.jobs.map g } jobId = (s.job? jobId).map g := by
  rw [job?, find?_map, job?]
  congr 2
  funext j
  simp [hg]

/-- Adding a run leaves the latest run of every other job. -/
theorem latestRun_addRun_other {s : Store} {r new : JobRunRow} {jobId : String}
    (hne : jobId ≠ new.jobId) (h : s.latestRun jobId = some r) :
    latestRun { s with
      runs := s.runs ++ [new]
      jobs := s.jobs.map (latestSet new.jobId (some new.id) new.seq) } jobId = some r := by
  obtain ⟨j, hj, hlatest⟩ := bind_eq_some_iff.mp h
  obtain ⟨id, hid, hrun⟩ := bind_eq_some_iff.mp hlatest
  have hjid := (job?_some hj).2
  rw [latestRun, job?_map fun j ↦ (jobKept_latestSet _ _ _ j).id, hj, map_some,
    bind_some, latestSet, if_neg (by rw [hjid]; exact hne), hid, bind_some, run?,
    find?_append]
  rw [run?] at hrun
  rw [hrun, some_or]

/-- The run just added is its job's latest. -/
theorem latestRun_addRun_self {s : Store} {new : JobRunRow} (hjob : ∃ j ∈ s.jobs, j.id = new.jobId)
    (hfresh : ∀ r ∈ s.runs, r.id ≠ new.id) :
    latestRun { s with
      runs := s.runs ++ [new]
      jobs := s.jobs.map (latestSet new.jobId (some new.id) new.seq) } new.jobId = some new := by
  have hno : s.runs.find? (fun r ↦ r.id = new.id) = none :=
    find?_eq_none.mpr fun r hr ↦ by simpa using hfresh r hr
  cases hj : s.job? new.jobId with
  | none =>
    obtain ⟨j, hj', hid⟩ := hjob
    have hnot := find?_eq_none.mp hj j hj'
    simp [hid] at hnot
  | some j =>
    rw [latestRun, job?_map fun j ↦ (jobKept_latestSet _ _ _ j).id, hj, map_some,
      bind_some, latestSet, if_pos (job?_some hj).2, bind_some, run?,
      find?_append, hno, none_or]
    simp

/-- What the loop that plans a phase does, as long as the UUIDs it draws are fresh. -/
theorem addPhase_eq (b : PacedBatch) (d : Draws) (p : Int) {l : List (MemberView × Nat)}
    {s : Store} (hk : Keys s) (hn : Numbered s) (hg : s.NoGaps b.id)
    (hmember : ∀ q ∈ l, s.IsMember b.id q.1.member.id) (hnodup : (l.map (·.1.member.id)).Nodup)
    (hfresh : (s.runs.map (·.id) ++ l.map fun q ↦ (d.env q.2).uuid).Nodup) :
    ∃ s' news, addPhase b d p l s = (none, s') ∧ PhaseAdded b.id p l s s' news := by
  induction l generalizing s with
  | nil =>
    exact ⟨s, [], rfl, by simp, .nil, hk, hn, hg, fun _ ↦ Iff.rfl, by simp, fun _ _ _ h ↦ h⟩
  | cons q l ih =>
    rw [map_cons, nodup_append] at hfresh
    obtain ⟨hids, huuids, hdisjoint⟩ := hfresh
    obtain ⟨hnew, huuids⟩ := nodup_cons.mp huuids
    obtain ⟨hnotin, hnodup⟩ := nodup_cons.mp hnodup
    have huuid : ∀ r ∈ s.runs, r.id ≠ (d.env q.2).uuid := fun r hr ↦
      hdisjoint r.id (mem_map_of_mem hr) _ (.head _)
    obtain ⟨job, hjob, hid, hseq, hadd⟩ := addRun_member hk hn hg
      (hmember q (.head _)) huuid (phaseInput b d p q)
    have hrun := newRun_phaseRun s b d p q hid (d.env q.2)
    set new := s.newRun (d.env q.2) job (phaseInput b d p q) with hnewdef
    set s₁ : Store := { s with
      runs := s.runs ++ [new]
      jobs := s.jobs.map (latestSet new.jobId (some new.id) new.seq) } with hs₁
    have hadd' : s.addRun (d.env q.2) q.1.member.id (phaseInput b d p q) = .ok (new, s₁) := hadd
    have hchange : Change s (.addRun (d.env q.2) job.id (phaseInput b d p q)) s₁ :=
      Change.addRun hjob rfl rfl huuid hseq rfl
    have hback : ∀ jobId, s₁.IsMember b.id jobId ↔ s.IsMember b.id jobId :=
      isMember_mapRows (jobKept_latestSet _ _ _) _
    obtain ⟨s', news, heq, h⟩ := ih (hk.change hchange) (hn.change hk hchange)
      (NoGaps.addRun hn hjob rfl rfl hg)
      (fun q' hq' ↦ (hback _).mpr (hmember q' (mem_cons_of_mem q hq'))) hnodup (by
        have hruns : (s₁.runs.map (·.id)).Nodup := Sql.nodup_insert (r := new) hids huuid
        refine nodup_append.mpr ⟨hruns, huuids, fun id hid' uuid hu ↦ ?_⟩
        rw [hs₁, map_append] at hid'
        rcases mem_append.mp hid' with hid' | hid'
        · exact hdisjoint id hid' uuid (.tail _ hu)
        · rw [map_singleton, mem_singleton] at hid'
          rintro rfl
          have huuid' : id = (d.env q.2).uuid := hid'
          exact hnew (huuid' ▸ hu))
    have hself : s₁.latestRun q.1.member.id = some new := by
      rw [← hrun.jobId]
      exact latestRun_addRun_self ⟨job, hjob, rfl⟩ huuid
    refine ⟨s', new :: news, ?_, ?_, .cons hrun h.added, h.keys, h.numbered, h.noGaps,
      fun jobId ↦ (h.member jobId).trans (hback jobId), fun q' hq' ↦ ?_, fun jobId r hno hr ↦ ?_⟩
    · rw [addPhase, hadd']
      exact heq
    · rw [h.runs, hs₁, append_assoc, singleton_append]
    · rcases mem_cons.mp hq' with rfl | hq'
      · exact ⟨new, h.others _ _ hnotin hself, hrun.status⟩
      · exact h.latest q' hq'
    · rw [map_cons, mem_cons, not_or] at hno
      exact h.others jobId r hno.2 (latestRun_addRun_other (hrun.jobId ▸ hno.1) hr)

section NextPhase

variable {s s' : Store} {members : List String} {b : PacedBatch} {n c : Int}
  {news : List JobRunRow}

theorem Phased.view_wave_nonneg (h : Phased members b.id n s) {v : MemberView}
    (hv : v ∈ s.sequentialMembers b.id) : 0 ≤ v.wave := by
  cases hr : v.runs with
  | nil =>
    have hwave : v.wave = ((v.runs.find? fun r ↦ r.batchWave.isSome).bind (·.batchWave)).getD 0 := by
      obtain ⟨j, -, rfl⟩ := mem_map.mp hv
      rfl
    rw [hwave, hr]
    decide
  | cons r rest =>
    have hmem : r ∈ v.runs := by simp [hr]
    obtain ⟨w, hw, hle⟩ := h.wave r ((mem_view_runs hv).mp hmem).1
    obtain rfl := Option.some.inj ((h.view_wave hv hmem).symm.trans hw)
    exact hle

theorem nodup_views (hk : Keys s) (batchId : String) :
    ((s.sequentialMembers batchId).map (·.member.id)).Nodup := by
  rw [sequentialMembers, List.map_map]
  exact nodup_membersOf hk batchId

theorem zipIdx_ids (l : List MemberView) :
    (l.zipIdx.map fun q ↦ q.1.member.id) = l.map (·.member.id) := by
  conv_rhs => rw [← List.zipIdx_map_fst 0 l, List.map_map]
  rfl

variable {l : List (MemberView × Nat)} {batchId : String} {r : JobRunRow}

/-- Every run the loop added is some member's. -/
theorem PhaseAdded.exists_view {p : Int} (h : PhaseAdded batchId p l s s' news) (hr : r ∈ news) :
    ∃ q ∈ l, PhaseRun p q.1 r := by
  obtain ⟨i, hi, rfl⟩ := mem_iff_getElem.mp hr
  have hlen := h.added.length_eq
  exact ⟨l[i], getElem_mem _, h.added.get (by omega) hi⟩

theorem PhaseAdded.jobIds {p : Int} (h : PhaseAdded batchId p l s s' news) :
    news.map (·.jobId) = l.map (·.1.member.id) := by
  have hadded := h.added
  clear h
  induction hadded with
  | nil => rfl
  | cons hrun _ ih => rw [map_cons, map_cons, hrun.jobId, ih]

/-- Every member the loop went over got a run. -/
theorem PhaseAdded.exists_run {p : Int} (h : PhaseAdded batchId p l s s' news)
    {q : MemberView × Nat} (hq : q ∈ l) : ∃ r ∈ news, PhaseRun p q.1 r := by
  obtain ⟨i, hi, rfl⟩ := mem_iff_getElem.mp hq
  have hlen := h.added.length_eq
  exact ⟨news[i], getElem_mem _, h.added.get hi (by omega)⟩

theorem PhaseRun.phase {p : Int} {v : MemberView} (h : PhaseRun p v r) : r.phase = p := by
  rw [JobRunRow.phase, h.batchRepeat, getD_some]

/-- A repetition was there before, or is a run the loop added. -/
theorem PhaseAdded.repetition_cases {p : Int}
    (h : PhaseAdded b.id p (s.sequentialMembers b.id).zipIdx s s' news)
    (hr : r ∈ s'.repetitions b.id) : r ∈ s.repetitions b.id ∨
      r ∈ news ∧ ∃ v ∈ s.sequentialMembers b.id, PhaseRun p v r := by
  obtain ⟨hmem, hsome, hmember⟩ := mem_repetitions.mp hr
  rw [h.runs] at hmem
  rcases mem_append.mp hmem with hmem | hmem
  · exact .inl (mem_repetitions.mpr ⟨hmem, hsome, (h.member _).mp hmember⟩)
  · obtain ⟨q, hq, hrun⟩ := h.exists_view hmem
    exact .inr ⟨hmem, q.1, fst_mem_of_mem_zipIdx hq, hrun⟩

/-- The repetitions that were there stay. -/
theorem PhaseAdded.repetition {p : Int}
    (h : PhaseAdded b.id p (s.sequentialMembers b.id).zipIdx s s' news)
    (hr : r ∈ s.repetitions b.id) : r ∈ s'.repetitions b.id := by
  obtain ⟨hmem, hsome, hmember⟩ := mem_repetitions.mp hr
  exact mem_repetitions.mpr ⟨h.runs ▸ mem_append_left _ hmem, hsome, (h.member _).mpr hmember⟩

/-- Every member has a repetition of the phase that was added. -/
theorem PhaseAdded.exists_repetition {p : Int}
    (h : PhaseAdded b.id p (s.sequentialMembers b.id).zipIdx s s' news) {id : String}
    (hid : s.IsMember b.id id) : ∃ r ∈ s'.repetitions b.id, r.jobId = id ∧ r.phase = p := by
  obtain ⟨v, hv, rfl⟩ := Store.exists_view hid
  obtain ⟨i, hi, hvi⟩ := mem_iff_getElem.mp hv
  obtain ⟨r, hr, hrun⟩ := h.exists_run (q := (v, i)) (mk_mem_zipIdx_iff_getElem?.mpr
    (by rw [getElem?_eq_getElem hi, hvi]))
  refine ⟨r, mem_repetitions.mpr ⟨h.runs ▸ mem_append_right _ hr, ?_, ?_⟩, hrun.jobId, hrun.phase⟩
  · rw [hrun.batchRepeat, isSome_some]
  · rw [hrun.jobId]
    exact (h.member _).mpr hid

/-- **The next phase keeps the invariant**, when everything before it has settled. -/
theorem Phased.nextPhase (h : Phased members b.id n s) (hcurrent : s.IsCurrent b.id c)
    (hlt : c + 1 < n) (hall : ∀ r ∈ s.repetitions b.id, r.status.terminal = true)
    (hadd : PhaseAdded b.id (c + 1) (s.sequentialMembers b.id).zipIdx s s' news) :
    Phased members b.id n s' := by
  obtain ⟨r₀, hr₀, hr₀c⟩ := hcurrent.attained
  have hc : 0 ≤ c := hr₀c ▸ (h.bounds r₀ hr₀).1
  have hback : ∀ r ∈ s'.repetitions b.id, r ∈ s.repetitions b.id ∨
      r ∈ news ∧ ∃ v ∈ s.sequentialMembers b.id, PhaseRun (c + 1) v r :=
    fun _ ↦ hadd.repetition_cases
  have hview : ∀ {v v' : MemberView}, v ∈ s.sequentialMembers b.id →
      v' ∈ s.sequentialMembers b.id → v.member.id = v'.member.id → v = v' :=
    fun hv hv' hid ↦ inj_on_of_nodup_map (nodup_views h.keys b.id) hv hv' hid
  -- a run of a member, old or new, stands in the sub-group the planner sees the member in
  have holdWave : ∀ {v r r'}, v ∈ s.sequentialMembers b.id → PhaseRun (c + 1) v r' →
      r ∈ s.repetitions b.id → r.jobId = r'.jobId → r.batchWave = r'.batchWave := by
    intro v r r' hv hrun hr hof
    rw [hrun.batchWave]
    exact h.view_wave hv ((mem_view_runs hv).mpr ⟨hr, hof.trans hrun.jobId⟩)
  have holdRepeat : ∀ {v r r'}, PhaseRun (c + 1) v r' → r ∈ s.repetitions b.id →
      r.batchRepeat ≠ r'.batchRepeat := by
    intro v r r' hrun hr heq
    have hle := hcurrent.le r hr
    rw [JobRunRow.phase, heq, hrun.batchRepeat, getD_some] at hle
    omega
  refine ⟨hadd.keys, hadd.numbered, hadd.noGaps, fun id hid ↦ (hadd.member id).mpr (h.member id hid),
    fun r hr ↦ ?_, fun r hr ↦ ?_, fun r hr r' hr' hof ↦ ?_, fun r hr r' hr' hof hrepeat ↦ ?_,
    fun r hr r' hr' hltp ↦ ?_, ?_, fun id hid r hr p hp hle ↦ ?_, ?_⟩
  · rcases hback r hr with hr | ⟨-, v, -, hrun⟩
    · exact h.bounds r hr
    · rw [hrun.phase]
      omega
  · rcases hback r hr with hr | ⟨-, v, hv, hrun⟩
    · exact h.wave r hr
    · exact ⟨v.wave, hrun.batchWave, h.view_wave_nonneg hv⟩
  · rcases hback r hr with hr | ⟨-, v, hv, hrun⟩ <;> rcases hback r' hr' with hr' | ⟨-, v', hv', hrun'⟩
    · exact h.sameWave r hr r' hr' hof
    · exact holdWave hv' hrun' hr hof
    · exact (holdWave hv hrun hr' hof.symm).symm
    · obtain rfl := hview hv hv' (hrun.jobId.symm.trans (hof.trans hrun'.jobId))
      rw [hrun.batchWave, hrun'.batchWave]
  · rcases hback r hr with hr | ⟨hnew, v, hv, hrun⟩ <;>
      rcases hback r' hr' with hr' | ⟨hnew', v', hv', hrun'⟩
    · exact h.once r hr r' hr' hof hrepeat
    · exact absurd hrepeat (holdRepeat hrun' hr)
    · exact absurd hrepeat.symm (holdRepeat hrun hr')
    · -- each member got one run
      have hnodup : (news.map (·.jobId)).Nodup := by
        rw [hadd.jobIds, zipIdx_ids]
        exact nodup_views h.keys b.id
      rw [inj_on_of_nodup_map hnodup hnew hnew' hof]
  · rcases hback r' hr' with hr' | ⟨-, v', -, hrun'⟩
    · exact hall r' hr'
    · rw [hrun'.phase] at hltp
      rcases hback r hr with hr | ⟨-, v, -, hrun⟩
      · have hle := hcurrent.le r hr
        omega
      · rw [hrun.phase] at hltp
        omega
  · refine Barrier.Holds.extend (x := toLex (c + 1, 0)) fun r hr ↦ ?_
    rcases hback r hr with hr | ⟨-, v, hv, hrun⟩
    · exact .inl (hall r hr)
    · have hstage : runKind.stage r = toLex (c + 1, v.wave) := by
        show toLex (r.phase, r.wave) = _
        rw [hrun.phase, JobRunRow.wave, hrun.batchWave, getD_some]
      refine .inr ⟨?_, fun hactive ↦ ?_⟩
      · rw [hstage, Prod.Lex.toLex_le_toLex]
        exact .inr ⟨rfl, h.view_wave_nonneg hv⟩
      · have hgoing : r.going = true := hactive
        rw [JobRunRow.going, hrun.status, hrun.held] at hgoing
        have hwave : v.wave = 0 := by simpa using hgoing
        rw [hstage, hwave]
  · by_cases hpc : p ≤ c
    · obtain ⟨r', hr', hof, hrp⟩ := h.planned id hid r₀ hr₀ p hp (hr₀c ▸ hpc)
      exact ⟨r', hadd.repetition hr', hof, hrp⟩
    · have hpc' : p = c + 1 := by
        rcases hback r hr with hr | ⟨-, v, -, hrun⟩
        · have hle' := hcurrent.le r hr
          omega
        · rw [hrun.phase] at hle
          omega
      rw [hpc']
      exact hadd.exists_repetition (h.member id hid)
  · obtain ⟨id, hid, r, hr, hof, hw⟩ := h.first
    exact ⟨id, hid, r, hadd.repetition hr, hof, hw⟩

end NextPhase

/-! ## One call -/

/-- The UUIDs a call draws are new, and no two of them are the same. -/
def Fresh (s : Store) (batchId : String) (d : Draws) : Prop :=
  (s.runs.map (·.id) ++
    (List.range (s.membersOf batchId).length).map fun i ↦ (d.env i).uuid).Nodup

instance (s : Store) (batchId : String) (d : Draws) : Decidable (s.Fresh batchId d) :=
  inferInstanceAs (Decidable (List.Nodup _))

/-- The batch is not to be planned, or there is nothing to do. -/
def Idle (s : Store) (b : PacedBatch) : Prop :=
  b.sequential = false ∨ b.status.nonPlanning = true ∨ s.plannedStep b = .wait ∨
    s.plannedStep b = .done

/-- What one call of `advance` does. -/
inductive Advanced (s : Store) (b : PacedBatch) : Store → Prop
  | nothing (h : s.Idle b) : Advanced s b s
  /-- A sub-group is released. -/
  | release {c w : Int} {s' : Store} {f : JobRunRow → JobRunRow} {r : JobRunRow}
      (hopen : b.status.nonPlanning = false) (hplan : s.plannedStep b = .release c w)
      (ht : Releasing c w s s' f) (hr : r ∈ s.repetitions b.id) (hqueued : r.status = .queued)
      (hfree : (f r).held = false)
      (hclear : Barrier.Clear runKind (· ∈ s.repetitions b.id) (toLex (c, w))) : Advanced s b s'
  /-- The next phase is planned. -/
  | nextPhase {c : Int} {s' : Store} {news : List JobRunRow} (hopen : b.status.nonPlanning = false)
      (hcurrent : s.IsCurrent b.id c) (hlt : c + 1 < b.repeatCount)
      (hall : ∀ r ∈ s.repetitions b.id, r.status.terminal = true)
      (hadd : PhaseAdded b.id (c + 1) (s.sequentialMembers b.id).zipIdx s s' news) : Advanced s b s'

section Call

variable {s : Store} {members : List String} {b : PacedBatch} {n : Int} {d : Draws}

theorem Idle.advance (h : s.Idle b) (d : Draws) : s.advance b d = (none, s) := by
  rw [Store.advance]
  rcases h with hseq | hclosed | hwait | hdone
  · rw [if_pos (by simp [hseq])]
  · rw [if_pos (by simp [hclosed])]
  · dsimp only
    rw [hwait]
    exact ite_self _
  · dsimp only
    rw [hdone]
    exact ite_self _

theorem length_sequentialMembers (s : Store) (batchId : String) :
    (s.sequentialMembers batchId).length = (s.membersOf batchId).length := by
  rw [sequentialMembers, length_map]

theorem Fresh.views (h : s.Fresh b.id d) : (s.runs.map (·.id) ++
    (s.sequentialMembers b.id).zipIdx.map fun q ↦ (d.env q.2).uuid).Nodup := by
  have hidx : ((s.sequentialMembers b.id).zipIdx.map fun q ↦ (d.env q.2).uuid) =
      (List.range (s.membersOf b.id).length).map fun i ↦ (d.env i).uuid := by
    rw [← length_sequentialMembers, List.range_eq_range', ← List.zipIdx_map_snd 0, List.map_map]
    rfl
  rw [hidx]
  exact h

/-- **One call of `advance`**, when the UUIDs it draws are fresh: it does not throw. -/
theorem Phased.advanced (h : Phased members b.id n s) (hf : s.Fresh b.id d) :
    ∃ s', s.advance b d = (none, s') ∧ Advanced s b s' := by
  rw [advance]
  by_cases hgate : (!b.sequential || b.status.nonPlanning) = true
  · rw [if_pos hgate]
    refine ⟨s, rfl, .nothing ?_⟩
    rcases Bool.or_eq_true_iff.mp hgate with hseq | hclosed
    · exact .inl (by simpa using hseq)
    · exact .inr (.inl hclosed)
  · rw [if_neg hgate]
    have hopen : b.status.nonPlanning = false := by
      cases hs : b.status.nonPlanning with
      | false => rfl
      | true => simp [hs] at hgate
    obtain ⟨c, -, hcurrent, hanswers⟩ := h.answers
    generalize hstep : s.plannedStep b = step at hanswers
    cases hanswers with
    | wait _ _ => exact ⟨s, rfl, .nothing (.inr (.inr (.inl hstep)))⟩
    | done _ _ => exact ⟨s, rfl, .nothing (.inr (.inr (.inr hstep)))⟩
    | @release w r hr hp hw hheld hstill hclear =>
      obtain ⟨f, ht, hdone⟩ := released h d c w (s.sequentialMembers b.id).zipIdx
        fun q hq ↦ fst_mem_of_mem_zipIdx hq
      obtain ⟨v, hv, hmem⟩ := exists_view_run hr
      obtain ⟨i, hi, hvi⟩ := mem_iff_getElem.mp hv
      have hq : (v, i) ∈ (s.sequentialMembers b.id).zipIdx :=
        mk_mem_zipIdx_iff_getElem?.mpr (by rw [getElem?_eq_getElem hi, hvi])
      have hfree := hdone (v, i) hq r
        ⟨Option.some.inj ((h.view_wave hv hmem).symm.trans hw), (h.last?_eq_some hv).mpr ⟨hmem, hp⟩,
          hheld.1, hheld.2⟩
      exact ⟨_, rfl, .release hopen hstep ht hr hheld.1 hfree hclear⟩
    | nextPhase hlt hall =>
      obtain ⟨s', news, heq, hadd⟩ := addPhase_eq b d (c + 1) h.keys h.numbered h.noGaps
        (fun q hq ↦ by
          have hmember := mem_sequentialMembers (fst_mem_of_mem_zipIdx hq)
          exact ⟨q.1.member, hmember.1, rfl, hmember.2⟩)
        (zipIdx_ids _ ▸ nodup_views h.keys b.id) hf.views
      exact ⟨s', heq, .nextPhase hopen hcurrent hlt hall hadd⟩

/-- Releasing a sub-group spares everything but its own runs. -/
theorem Releasing.spares {p w : Int} {s t : Store} {f : JobRunRow → JobRunRow}
    (h : Releasing p w s t f) (batchId : String) : Spares (OnStage p w) batchId s t := by
  have hspares := @Spares.mapRows s batchId (OnStage p w) f id h.number
    (fun r hr _ ↦ (h.eased r hr).staysPut) JobKept.refl
  rw [List.map_id] at hspares
  rw [h.eq]
  exact hspares

theorem Releasing.keys {p w : Int} {s t : Store} {f : JobRunRow → JobRunRow}
    (h : Releasing p w s t f) (hk : Keys s) : Keys t := by
  have hmap := hk.mapRows (g := id) (fun r ↦ (h.number r).id) (fun r ↦ (h.number r).jobId)
    JobKept.refl
  rw [List.map_id] at hmap
  rw [h.eq]
  exact hmap

theorem Releasing.numbered {p w : Int} {s t : Store} {f : JobRunRow → JobRunRow}
    (h : Releasing p w s t f) (hn : Numbered s) : Numbered t := by
  have hmap := hn.mapRows (g := id) h.number JobCounted.refl
  rw [List.map_id] at hmap
  rw [h.eq]
  exact hmap

/-- A batch that is closed is left alone. -/
theorem Advanced.eq_of_closed {s' : Store} (ha : Advanced s b s')
    (hclosed : b.status.nonPlanning = true) : s' = s := by
  cases ha with
  | nothing _ => rfl
  | release hopen _ _ _ _ _ _ =>
    rw [hclosed] at hopen
    cases hopen
  | nextPhase hopen _ _ _ _ =>
    rw [hclosed] at hopen
    cases hopen

theorem Advanced.isMember {s' : Store} (ha : Advanced s b s') {jobId : String}
    (h : s.IsMember b.id jobId) : s'.IsMember b.id jobId := by
  cases ha with
  | nothing _ => exact h
  | release _ _ ht _ _ _ _ => exact (ht.spares b.id).member jobId h
  | nextPhase _ _ _ _ hadd => exact (hadd.member jobId).mpr h

/-- Releasing rewrites the latest runs in place. -/
theorem Releasing.latestRun {p w : Int} {s t : Store} {f : JobRunRow → JobRunRow}
    (h : Releasing p w s t f) (jobId : String) : t.latestRun jobId = (s.latestRun jobId).map f := by
  have hrun : ∀ id, t.run? id = (s.run? id).map f := by
    intro id
    rw [h.eq, run?, find?_map, run?]
    congr 2
    funext r
    simp [(h.number r).id]
  have hjob : t.job? jobId = s.job? jobId := by
    rw [h.eq]
    rfl
  rw [Store.latestRun, hjob, Store.latestRun]
  cases s.job? jobId with
  | none => rfl
  | some j =>
    rw [bind_some, bind_some]
    cases j.latestRunId with
    | none => rfl
    | some id => rw [bind_some, bind_some, hrun]

section

variable (h : Phased members b.id b.repeatCount s)
include h

/-- **Advancing keeps the invariant.** -/
theorem Phased.advance {s' : Store} (ha : Advanced s b s') : Phased members b.id b.repeatCount s' := by
  cases ha with
  | nothing _ => exact h
  | @release c w _ _ _ _ _ ht _ _ _ hclear =>
    refine h.spares (ht.spares b.id) (fun r _ hstage ↦ ?_) (ht.keys h.keys) (ht.numbered h.numbered)
    have hr : runKind.stage r = toLex (c, w) := by
      show toLex (r.phase, r.wave) = _
      rw [JobRunRow.phase, JobRunRow.wave, hstage.1, hstage.2, getD_some, getD_some]
    rw [hr]
    exact hclear
  | nextPhase _ hcurrent hlt hall hadd => exact h.nextPhase hcurrent hlt hall hadd

/-- Whatever `advance` did, if it did anything some run is going afterwards. -/
theorem Advanced.idle_or_going {s' : Store}
    (ha : Advanced s b s') : s'.Idle b ∨ ∃ r ∈ s'.repetitions b.id, r.going = true := by
  cases ha with
  | nothing hidle => exact .inl hidle
  | @release c w _ f r _ _ ht hr hqueued hfree _ =>
    have hmem := (mem_repetitions.mp hr).1
    have he := ht.eased r hmem
    refine .inr ⟨f r, mem_repetitions.mpr ⟨?_, ?_, ?_⟩, ?_⟩
    · rw [ht.eq]
      exact mem_map_of_mem hmem
    · rw [he.batchRepeat]
      exact (mem_repetitions.mp hr).2.1
    · rw [he.jobId]
      exact (ht.spares b.id).member _ (mem_repetitions.mp hr).2.2
    · rw [JobRunRow.going, he.status, hqueued, hfree]
      rfl
  | nextPhase _ _ _ _ hadd =>
    -- the members of sub-group 0 are given runs that go
    obtain ⟨id, hid, r, hr, hof, hw⟩ := h.first
    obtain ⟨v, hv, hmem⟩ := exists_view_run hr
    have hwave : v.wave = 0 := Option.some.inj ((h.view_wave hv hmem).symm.trans hw)
    obtain ⟨i, hi, hvi⟩ := mem_iff_getElem.mp hv
    obtain ⟨new, hnew, hrun⟩ := hadd.exists_run (q := (v, i)) (mk_mem_zipIdx_iff_getElem?.mpr
      (by rw [getElem?_eq_getElem hi, hvi]))
    refine .inr ⟨new, mem_repetitions.mpr ⟨?_, ?_, ?_⟩, ?_⟩
    · exact hadd.runs ▸ mem_append_right _ hnew
    · rw [hrun.batchRepeat, isSome_some]
    · have hmember := mem_sequentialMembers hv
      rw [hrun.jobId]
      exact (hadd.member _).mpr ⟨v.member, hmember.1, rfl, hmember.2⟩
    · rw [JobRunRow.going, hrun.status, hrun.held, hwave]
      rfl

/-- **Advancing is idempotent**: a second call changes nothing, whatever it draws. -/
theorem Phased.advance_advance {s' : Store}
    (ha : Advanced s b s') (d' : Draws) : s'.advance b d' = (none, s') := by
  rcases ha.idle_or_going h with hidle | hgoing
  · exact hidle.advance d'
  · have hwait := (h.advance ha).plannedStep_eq_wait_iff.mpr hgoing
    exact Idle.advance (.inr (.inr (.inl hwait))) d'

end

end Call

end Enkaku.Store
