import Enkaku.Groups.Advance
import Enkaku.Groups.Dispatched

/-!
# Sequential batches, run by run

A sequential batch among everything else that happens: `BatchEvent` is one call on the tables, on
the pacer or on the batch's status, and a run of the batch is any order of them after `planFirst`.

`sequenced` says what holds in every state of every run: the barrier between phases and sub-groups,
one run of a phase for a member, idempotence of `advance`, and that the planner waits only while
some run is going and is done only when all phases are planned.  What can still stop a batch short is
its cached status: `recomputeBatchStatus` looks at the latest run of each member, which a manual
rerun can be, and runs the pacer only when it is told a device.  `finished_of_seen` says that a batch
that is not stopped is closed only when it has run all its phases, as long as no status is recomputed
where these two show; `cutShort` is a run where one does.
-/

set_option autoImplicit false

namespace Enkaku

open List

namespace Store

/-! ## The first phase -/

/-- What the first phase looks like. -/
theorem Dispatched.first_run {s : Store} {b : PacedBatch} (h : Dispatched s b)
    (hseq : b.sequential = true) (d : Draws) {p : JobRow × Nat}
    (hp : p ∈ (s.membersOf b.id).zipIdx) {r : JobRunRow} (hr : r ∈ s.runs)
    (hof : r.jobId = p.1.id) {r' : JobRunRow}
    (hr' : r' = firstRow b d (s.membersOf b.id).zipIdx r) :
    r'.status = .queued ∧ r'.batchRepeat = some 0 ∧
      r'.batchWave = some (Pacer.ladderRung p.2 b.waveSize) ∧
      r'.held = decide (Pacer.ladderRung p.2 b.waveSize ≠ 0) := by
  obtain ⟨hmem, hb⟩ := mem_membersOf.mp (fst_mem_of_mem_zipIdx hp)
  obtain ⟨r₀, hone, -, hqueued, -⟩ := h.single p.1 hmem hb
  have hin : r ∈ s.runsOf p.1.id := mem_runsOf.mpr ⟨hr, hof⟩
  rw [hone, mem_singleton] at hin
  have hstatus := (samePlace_firstRow b d (s.membersOf b.id).zipIdx r).status
  -- the loop finds the member at its place
  have hfind : (s.membersOf b.id).zipIdx.find? (fun q ↦ q.1.id = r.jobId) = some p := by
    cases hf : (s.membersOf b.id).zipIdx.find? (fun q ↦ q.1.id = r.jobId) with
    | none => simpa [hof] using find?_eq_none.mp hf p hp
    | some q =>
      have hq := mem_of_find?_eq_some hf
      have hfound : q.1.id = r.jobId := by simpa using find?_some hf
      have hid : q.1.id = p.1.id := hfound.trans hof
      have hids : ((s.membersOf b.id).zipIdx.map (·.1.id)).Nodup := by
        rw [zipIdx_map_id]
        exact nodup_membersOf h.reachable.keys b.id
      rw [inj_on_of_nodup_map hids hq hp hid]
  rw [hr', hstatus, hin, hqueued]
  rw [hin] at hfind
  rw [firstRow, hfind]
  dsimp only
  rw [firstPacing, if_pos hseq]
  by_cases hw : Pacer.ladderRung p.2 b.waveSize = 0
  · simp [hw]
  · simp [hw]

theorem isMember_iff_exists_mem {s : Store} {batchId jobId : String} :
    s.IsMember batchId jobId ↔ ∃ p ∈ (s.membersOf batchId).zipIdx, p.1.id = jobId := by
  constructor
  · rintro ⟨j, hj, hid, hb⟩
    obtain ⟨i, hi, hji⟩ := mem_iff_getElem.mp (mem_membersOf.mpr ⟨hj, hb⟩)
    exact ⟨(j, i), mk_mem_zipIdx_iff_getElem?.mpr (by rw [getElem?_eq_getElem hi, hji]),
      hid⟩
  · rintro ⟨p, hp, hid⟩
    obtain ⟨hmem, hb⟩ := mem_membersOf.mp (fst_mem_of_mem_zipIdx hp)
    exact ⟨p.1, hmem, hid, hb⟩

/-- **Repetition 0 establishes the invariant.** -/
theorem Dispatched.phased {s : Store} {b : PacedBatch} (h : Dispatched s b)
    (hseq : b.sequential = true) (hcount : 1 ≤ b.repeatCount) (d : Draws) :
    Phased ((s.membersOf b.id).map (·.id)) b.id b.repeatCount (s.planFirst b d) := by
  rw [h.planFirst_eq (by rw [PacedBatch.isPaced, hseq]; rfl) d]
  set f := firstRow b d (s.membersOf b.id).zipIdx with hf
  have hplace : ∀ r, SamePlace r (f r) := samePlace_firstRow b d _
  have hmember : ∀ jobId, IsMember { s with runs := s.runs.map f } b.id jobId ↔
      s.IsMember b.id jobId := fun _ ↦ Iff.rfl
  -- every repetition run is the first run of the member on some place
  have hback : ∀ r' ∈ repetitions { s with runs := s.runs.map f } b.id, ∃ r ∈ s.runs, r' = f r ∧
      ∃ p ∈ (s.membersOf b.id).zipIdx, p.1.id = r'.jobId ∧ r'.status = .queued ∧
        r'.batchRepeat = some 0 ∧ r'.batchWave = some (Pacer.ladderRung p.2 b.waveSize) ∧
        r'.held = decide (Pacer.ladderRung p.2 b.waveSize ≠ 0) := by
    intro r' hr'
    obtain ⟨hmem, -, hof⟩ := mem_repetitions.mp hr'
    obtain ⟨r, hr, rfl⟩ := mem_map.mp hmem
    obtain ⟨p, hp, hid⟩ := isMember_iff_exists_mem.mp ((hmember _).mp hof)
    exact ⟨r, hr, rfl, p, hp, hid, h.first_run hseq d hp hr ((hplace r).jobId.symm.trans hid.symm) rfl⟩
  have hforth : ∀ p ∈ (s.membersOf b.id).zipIdx,
      ∃ r' ∈ repetitions { s with runs := s.runs.map f } b.id, r'.jobId = p.1.id ∧
        r'.batchRepeat = some 0 ∧ r'.batchWave = some (Pacer.ladderRung p.2 b.waveSize) := by
    intro p hp
    obtain ⟨hmem, hb⟩ := mem_membersOf.mp (fst_mem_of_mem_zipIdx hp)
    obtain ⟨r, hone, -, -⟩ := h.single p.1 hmem hb
    obtain ⟨hr, hof⟩ := mem_of_runsOf_eq hone
    obtain ⟨-, hrepeat, hwave, -⟩ := h.first_run hseq d hp hr hof rfl
    refine ⟨f r, mem_repetitions.mpr ⟨mem_map_of_mem hr, by rw [hf, hrepeat]; rfl, ?_⟩,
      (hplace r).jobId.trans hof, hrepeat, hwave⟩
    rw [(hplace r).jobId, hof]
    exact isMember_iff_exists_mem.mpr ⟨p, hp, rfl⟩
  have hphase : ∀ r' ∈ repetitions { s with runs := s.runs.map f } b.id, r'.phase = 0 := by
    intro r' hr'
    obtain ⟨-, -, -, -, -, -, -, hrepeat, -⟩ := hback r' hr'
    rw [JobRunRow.phase, hrepeat, Option.getD_some]
  -- a member has one run, so its runs here are one
  have hsame : ∀ r₁ ∈ repetitions { s with runs := s.runs.map f } b.id,
      ∀ r₂ ∈ repetitions { s with runs := s.runs.map f } b.id, r₁.jobId = r₂.jobId → r₁ = r₂ := by
    intro r₁ hr₁ r₂ hr₂ hof
    obtain ⟨r₁, hmem₁, rfl, p, hp, hid, -⟩ := hback r₁ hr₁
    obtain ⟨r₂, hmem₂, rfl, -⟩ := hback r₂ hr₂
    obtain ⟨hmem, hb⟩ := mem_membersOf.mp (fst_mem_of_mem_zipIdx hp)
    obtain ⟨r, hone, -, -⟩ := h.single p.1 hmem hb
    have hin₁ : r₁ ∈ s.runsOf p.1.id :=
      mem_runsOf.mpr ⟨hmem₁, (hplace r₁).jobId.symm.trans hid.symm⟩
    have hin₂ : r₂ ∈ s.runsOf p.1.id :=
      mem_runsOf.mpr ⟨hmem₂, (hplace r₂).jobId.symm.trans (hof.symm.trans hid.symm)⟩
    rw [hone, mem_singleton] at hin₁ hin₂
    rw [hin₁, hin₂]
  have hkeys := h.reachable.keys.mapRows (f := f) (g := id) (fun r ↦ (hplace r).id)
    (fun r ↦ (hplace r).jobId) JobKept.refl
  have hnum := h.reachable.numbered.mapRows (f := f) (g := id) (fun r ↦ (hplace r).toSameNumber)
    JobCounted.refl
  rw [map_id] at hkeys hnum
  have hplaces : ∀ p ∈ (s.membersOf b.id).zipIdx, 0 ≤ Pacer.ladderRung p.2 b.waveSize := by
    intro p _
    exact Int.ediv_nonneg (Int.natCast_nonneg _) (le_trans zero_le_one (le_max_left 1 b.waveSize))
  refine ⟨hkeys, hnum, fun jobId hof r hr ↦ ?_, fun id hid ↦ ?_, fun r hr ↦ ?_, fun r hr ↦ ?_,
    fun r hr r' hr' hof ↦ ?_, fun r hr r' hr' hof _ ↦ ?_, fun r hr r' hr' hlt ↦ ?_, ?_,
    fun id hid r hr p hp hle ↦ ?_, ?_⟩
  · rw [runsOf_map fun r ↦ (hplace r).toSameNumber] at hr ⊢
    obtain ⟨r₀, hr₀, rfl⟩ := mem_map.mp hr
    obtain ⟨j, hj, rfl, hb⟩ := (hmember jobId).mp hof
    obtain ⟨r₁, hone, -, -, hseq⟩ := h.single j hj hb
    rw [hone, mem_singleton] at hr₀
    rw [(hplace r₀).seq, length_map, hone, hr₀, hseq, length_singleton]
  · obtain ⟨j, hj, rfl⟩ := mem_map.mp hid
    obtain ⟨hmem, hb⟩ := mem_membersOf.mp hj
    exact ⟨j, hmem, rfl, hb⟩
  · rw [hphase r hr]
    omega
  · obtain ⟨-, -, -, p, hp, -, -, -, hwave, -⟩ := hback r hr
    exact ⟨_, hwave, hplaces p hp⟩
  · rw [hsame r hr r' hr' hof]
  · rw [hsame r hr r' hr' hof]
  · rw [hphase r hr, hphase r' hr'] at hlt
    exact absurd hlt (lt_irrefl 0)
  · -- what goes is in sub-group 0, and no stage is below it
    intro r hr hactive r' hr' hlt
    obtain ⟨-, -, -, p, hp, -, hqueued, -, hwave, hheld⟩ := hback r hr
    obtain ⟨-, -, -, p', hp', -, -, -, hwave', -⟩ := hback r' hr'
    have hgoing : r.going = true := hactive
    rw [JobRunRow.going, hqueued, hheld] at hgoing
    have hzero : Pacer.ladderRung p.2 b.waveSize = 0 := by simpa using hgoing
    have hstage : toLex (r'.phase, r'.wave) < toLex (r.phase, r.wave) := hlt
    rw [hphase r hr, hphase r' hr', JobRunRow.wave, JobRunRow.wave, hwave, hwave', hzero,
      Prod.Lex.toLex_lt_toLex] at hstage
    have hnonneg := hplaces p' hp'
    simp only [Option.getD_some, lt_irrefl, true_and, false_or] at hstage
    omega
  · rw [hphase r hr] at hle
    obtain ⟨j, hj, rfl⟩ := mem_map.mp hid
    obtain ⟨hmem, hb⟩ := mem_membersOf.mp hj
    obtain ⟨q, hq, hqid⟩ := isMember_iff_exists_mem.mp ⟨j, hmem, rfl, hb⟩
    obtain ⟨r', hr', hof, hrepeat, -⟩ := hforth q hq
    refine ⟨r', hr', hof.trans hqid, ?_⟩
    rw [hphase r' hr']
    omega
  · -- the member on the first place is in sub-group 0
    have hlen := length_pos_of_ne_nil h.nonempty
    have hp : ((s.membersOf b.id)[0], 0) ∈ (s.membersOf b.id).zipIdx :=
      mk_mem_zipIdx_iff_getElem?.mpr (getElem?_eq_getElem hlen)
    obtain ⟨r', hr', hof, -, hwave⟩ := hforth _ hp
    refine ⟨_, mem_map_of_mem (getElem_mem hlen), r', hr', hof, ?_⟩
    rw [hwave, Pacer.ladderRung]
    simp

end Store

/-! ## The status of a sequential batch -/

namespace Store

section Status

variable {s s₁ : Store} {members : List String} {b : PacedBatch} {n : Int} {d : Draws}

/-- The call tells the pacer that a device has settled. -/
def TellsPacer (settledDeviceId : Option String) : Prop := ∃ id ∈ settledDeviceId, id ≠ ""

instance (settledDeviceId : Option String) : Decidable (TellsPacer settledDeviceId) :=
  inferInstanceAs (Decidable (∃ id ∈ settledDeviceId, id ≠ ""))

/-- All the runs a batch's status is computed from have settled. -/
def LatestSettled (s : Store) (batchId : String) : Prop :=
  ∀ run ∈ s.latestRuns (s.membersOf batchId), (shownStatus run).terminal = true

/-- Every repetition run has settled. -/
def AllSettled (s : Store) (batchId : String) : Prop :=
  ∀ r ∈ s.repetitions batchId, r.status.terminal = true

/-- The last phase is planned. -/
def LastPlanned (s : Store) (b : PacedBatch) : Prop :=
  ∃ r ∈ s.repetitions b.id, b.repeatCount ≤ r.phase + 1

theorem latestRuns_settled (h : ∀ run ∈ s₁.latestRuns (s.membersOf b.id),
    (shownStatus run).terminal = true) {jobId : String} (hmember : s.IsMember b.id jobId) :
    (shownStatus (s₁.latestRun jobId)).terminal = true := by
  obtain ⟨j, hj, rfl, hb⟩ := hmember
  exact h _ (mem_map_of_mem (mem_membersOf.mpr ⟨hj, hb⟩))

theorem latestSettled_of_forall {batchId : String} (h : ∀ jobId, s.IsMember batchId jobId →
    (shownStatus (s.latestRun jobId)).terminal = true) : s.LatestSettled batchId := by
  intro run hrun
  obtain ⟨j, hj, rfl⟩ := mem_map.mp hrun
  obtain ⟨hmem, hb⟩ := mem_membersOf.mp hj
  exact h j.id ⟨j, hmem, rfl, hb⟩

theorem onMemberSettled_sequential (hseq : b.sequential = true) (s : Store) (d : Draws)
    (deviceId : String) : s.onMemberSettled b d deviceId = s.advance b d := by
  have hpaced : b.isPaced = true := by
    rw [PacedBatch.isPaced, hseq]
    rfl
  rw [onMemberSettled, hpaced, hseq]
  cases hclosed : b.status.nonPlanning with
  | true =>
    have hidle := Idle.advance (s := s) (b := b) (.inr (.inl hclosed)) d
    simp [hidle]
  | false => simp

/-- Recomputing the status of a sequential batch: the pacer advances it, if it is told, and the
status is that of the members' latest runs. -/
theorem recompute_sequential (hseq : b.sequential = true) (hne : s.membersOf b.id ≠ [])
    (hadv : s.advance b d = (none, s₁)) (settledDeviceId : Option String) :
    s.recomputeBatchStatus b d settledDeviceId =
      let s' := if TellsPacer settledDeviceId then s₁ else s
      (none, s', b.patch d.now (computeBatchStatus (countJobs (s'.latestRuns (s.membersOf b.id))))) := by
  have hempty : (s.membersOf b.id).isEmpty = false := by simpa using hne
  unfold recomputeBatchStatus
  dsimp only
  rw [hempty, if_neg (by simp)]
  cases settledDeviceId with
  | none =>
    rw [if_neg (by simp [TellsPacer])]
  | some id =>
    by_cases hid : id = ""
    · subst hid
      rw [if_neg (by simp [TellsPacer])]
      rfl
    · rw [if_pos ⟨id, rfl, hid⟩]
      dsimp only
      rw [if_neg hid, onMemberSettled_sequential hseq, hadv]

theorem Phased.membersOf_ne_nil (h : Phased members b.id n s) : s.membersOf b.id ≠ [] := by
  obtain ⟨id, -, r, hr, -⟩ := h.first
  obtain ⟨j, hj, -, hb⟩ := (mem_repetitions.mp hr).2.2
  exact ne_nil_of_mem (mem_membersOf.mpr ⟨hj, hb⟩)

/-- A batch advanced and then found settled has run all its phases, if what its status looks at
hides no run. -/
theorem Phased.finished_of_advanced (h : Phased members b.id b.repeatCount s)
    (hseq : b.sequential = true) (hopen : b.status.nonPlanning = false) (ha : Advanced s b s₁)
    (hsettled : ∀ jobId, s.IsMember b.id jobId →
      (shownStatus (s₁.latestRun jobId)).terminal = true)
    (hseen : s.LatestSettled b.id → s.AllSettled b.id) :
    s₁.AllSettled b.id ∧ s₁.LastPlanned b := by
  cases ha with
  | nothing hidle =>
    have hall := hseen (latestSettled_of_forall hsettled)
    obtain ⟨c, -, hcurrent, hanswers⟩ := h.answers
    rcases hidle with hno | hno | hstep | hstep
    · rw [hseq] at hno
      cases hno
    · rw [hopen] at hno
      cases hno
    · obtain ⟨r, hr, hgoing⟩ := h.plannedStep_eq_wait_iff.mp hstep
      rw [JobRunRow.going_eq_false_of_terminal (hall r hr)] at hgoing
      cases hgoing
    · rw [hstep] at hanswers
      cases hanswers with
      | done hle _ =>
        obtain ⟨r, hr, hrc⟩ := hcurrent.attained
        exact ⟨hall, r, hr, hrc ▸ hle⟩
  | @release c w _ f r _ _ ht hr hqueued _ _ =>
    -- releasing leaves the status of every run, so the held run would have been seen
    have hlatest : s.LatestSettled b.id := by
      refine latestSettled_of_forall fun jobId hmember ↦ ?_
      have hterminal := hsettled jobId hmember
      rw [ht.latestRun] at hterminal
      cases hrun : s.latestRun jobId with
      | none =>
        rw [hrun] at hterminal
        exact hterminal
      | some r' =>
        obtain ⟨_, -, hbind⟩ := Option.bind_eq_some_iff.mp hrun
        obtain ⟨_, -, hfind⟩ := Option.bind_eq_some_iff.mp hbind
        rw [hrun, Option.map_some, shownStatus, Option.map_some,
          (ht.eased r' (mem_of_find?_eq_some hfind)).status] at hterminal
        exact hterminal
    have hterminal := hseen hlatest r hr
    rw [hqueued] at hterminal
    cases hterminal
  | nextPhase _ _ _ _ hadd =>
    obtain ⟨id, -, r, hr, -⟩ := h.first
    obtain ⟨v, hv, -⟩ := exists_view_run hr
    obtain ⟨i, hi, hvi⟩ := mem_iff_getElem.mp hv
    obtain ⟨new, hnew, hqueued⟩ := hadd.latest (v, i) (mk_mem_zipIdx_iff_getElem?.mpr
      (by rw [getElem?_eq_getElem hi, hvi]))
    have hmember := mem_sequentialMembers hv
    have hterminal := hsettled v.member.id ⟨v.member, hmember.1, rfl, hmember.2⟩
    rw [hnew, shownStatus, Option.map_some, Option.getD_some, hqueued] at hterminal
    cases hterminal

end Status

end Store

/-! ## Everything that happens to a batch -/

/-- The tables, and the row of the batch. -/
structure BatchState where
  store : Store
  batch : PacedBatch
  deriving DecidableEq

/-- One thing that happens to a batch. -/
inductive BatchEvent where
  /-- A call on the tables beside the pacer: a claim, a settle, a requeue, a cancel, an expiry, a
  manual rerun, or anything about other jobs. -/
  | queue (op : Op)
  | advance (d : Draws)
  /-- The batch's status is recomputed, with the device the caller says has settled. -/
  | changed (settledDeviceId : Option String) (d : Draws)
  | replan (d : Draws)
  /-- Someone asks for the batch to be stopped. -/
  | stop

namespace BatchState

/-- What an event does; `none` when it cannot happen. -/
def exec (x : BatchState) : BatchEvent → Option BatchState
  | .queue op =>
    if x.store.KeepsOff x.batch.id op then (x.store.exec op).map fun s ↦ { x with store := s }
    else none
  | .advance d => some { x with store := (x.store.advance x.batch d).2 }
  | .changed settledDeviceId d =>
    let r := x.store.recomputeBatchStatus x.batch d settledDeviceId
    some ⟨r.2.1, r.2.2⟩
  | .replan d =>
    let r := x.store.replanAfterRestart x.batch d
    some ⟨r.2.1, r.2.2⟩
  | .stop => some { x with batch := { x.batch with status := .stopping } }

/-- The UUIDs an event draws are fresh. -/
def DrawsFresh (x : BatchState) : BatchEvent → Prop
  | .advance d | .changed _ d | .replan d => x.store.Fresh x.batch.id d
  | .queue _ | .stop => True

instance (x : BatchState) : DecidablePred x.DrawsFresh
  | .advance d | .changed _ d | .replan d => inferInstanceAs (Decidable (x.store.Fresh x.batch.id d))
  | .queue _ | .stop => inferInstanceAs (Decidable True)

/-- The repetition runs of the batch. -/
def runs (x : BatchState) : List JobRunRow := x.store.repetitions x.batch.id

/-- What holds of a sequential batch in every state: `Phased`, of the batch as it was dispatched. -/
structure Sound (members : List String) (b : PacedBatch) (x : BatchState) : Prop where
  phased : x.store.Phased members b.id b.repeatCount
  id : x.batch.id = b.id
  repeatCount : x.batch.repeatCount = b.repeatCount
  sequential : x.batch.sequential = true

variable {members : List String} {b : PacedBatch} {x x' : BatchState}

theorem Sound.phased' (h : Sound members b x) :
    x.store.Phased members x.batch.id x.batch.repeatCount := by
  rw [h.id, h.repeatCount]
  exact h.phased

/-- What recomputing the status of a batch does to it: its store is as it was or advanced. -/
theorem Sound.changed (h : Sound members b x) {d : Draws} (hf : x.store.Fresh x.batch.id d)
    (settledDeviceId : Option String) (hexec : x.exec (.changed settledDeviceId d) = some x') :
    ∃ s', (if Store.TellsPacer settledDeviceId then Store.Advanced x.store x.batch s'
        else s' = x.store) ∧
      x' = ⟨s', x.batch.patch d.now
        (computeBatchStatus (countJobs (s'.latestRuns (x.store.membersOf x.batch.id))))⟩ := by
  obtain ⟨s₁, heq, ha⟩ := h.phased'.advanced hf
  have hrecompute := Store.recompute_sequential h.sequential h.phased'.membersOf_ne_nil heq
    settledDeviceId
  rw [exec, hrecompute] at hexec
  cases hexec
  refine ⟨_, ?_, rfl⟩
  by_cases htells : Store.TellsPacer settledDeviceId
  · rwa [if_pos htells, if_pos htells]
  · rw [if_neg htells, if_neg htells]

/-- What a restart does to an open batch: it is advanced, and its status recomputed. -/
theorem Sound.replan (h : Sound members b x) {d : Draws} (hf : x.store.Fresh x.batch.id d)
    (hexec : x.exec (.replan d) = some x') :
    x' = x ∨ x.batch.status.nonPlanning = false ∧ ∃ s', Store.Advanced x.store x.batch s' ∧
      x' = ⟨s', x.batch.patch d.now
        (computeBatchStatus (countJobs (s'.latestRuns (s'.membersOf x.batch.id))))⟩ := by
  rw [exec] at hexec
  cases hexec
  rw [Store.replanAfterRestart]
  cases hclosed : x.batch.status.nonPlanning with
  | true =>
    rw [Bool.true_or, if_pos rfl]
    exact .inl rfl
  | false =>
    have hpaced : x.batch.isPaced = true := by
      rw [PacedBatch.isPaced, h.sequential]
      rfl
    have hjobs : (x.store.jobs.filter fun j ↦ j.batchId = some x.batch.id).isEmpty = false := by
      obtain ⟨j, hj⟩ := exists_mem_of_ne_nil _ h.phased'.membersOf_ne_nil
      have hmem := Store.mem_membersOf.mp hj
      rw [isEmpty_eq_false_iff]
      exact ne_nil_of_mem (mem_filter.mpr ⟨hmem.1, by simpa using hmem.2⟩)
    obtain ⟨s₁, heq, ha⟩ := h.phased'.advanced hf
    have hrecompute := Store.recompute_sequential h.sequential
      (h.phased'.advance ha).membersOf_ne_nil (h.phased'.advance_advance ha d) none
    rw [if_neg (by simp [Store.TellsPacer])] at hrecompute
    rw [hpaced, Bool.not_true, Bool.or_false, if_neg (by simp)]
    dsimp only
    rw [hjobs, if_neg (by simp), h.sequential, if_pos rfl, heq]
    dsimp only
    rw [hrecompute]
    exact .inr ⟨rfl, s₁, ha, rfl⟩

/-- **Every event keeps the invariant.** -/
theorem Sound.exec (h : Sound members b x) {e : BatchEvent} (hf : x.DrawsFresh e)
    (hexec : x.exec e = some x') : Sound members b x' := by
  have hkept : ∀ {s₁ : Store} {b₁ : PacedBatch},
      s₁.Phased members x.batch.id x.batch.repeatCount → b₁.id = x.batch.id →
      b₁.repeatCount = x.batch.repeatCount → b₁.sequential = x.batch.sequential →
      Sound members b ⟨s₁, b₁⟩ := by
    intro s₁ b₁ hphased hid hcount hseq
    rw [h.id, h.repeatCount] at hphased
    exact ⟨hphased, hid.trans h.id, hcount.trans h.repeatCount, hseq.trans h.sequential⟩
  cases e with
  | queue op =>
    rw [BatchState.exec] at hexec
    split at hexec
    · rename_i hoff
      obtain ⟨s, hs, rfl⟩ := Option.map_eq_some_iff.mp hexec
      exact hkept (h.phased'.exec hoff hs) rfl rfl rfl
    · cases hexec
  | advance d =>
    cases hexec
    obtain ⟨s₁, heq, ha⟩ := h.phased'.advanced hf
    rw [heq]
    exact hkept (h.phased'.advance ha) rfl rfl rfl
  | changed settledDeviceId d =>
    obtain ⟨s', hs', rfl⟩ := h.changed hf settledDeviceId hexec
    refine hkept ?_ rfl rfl rfl
    split at hs'
    · exact h.phased'.advance hs'
    · rw [hs']
      exact h.phased'
  | replan d =>
    rcases h.replan hf hexec with rfl | ⟨-, s', ha, rfl⟩
    · exact h
    · exact hkept (h.phased'.advance ha) rfl rfl rfl
  | stop =>
    cases hexec
    exact hkept h.phased' rfl rfl rfl

/-! ## Closing the batch -/

/-- Nothing that the batch's status looks at hides a run from it: whenever the status is recomputed
while the latest run of every member has settled, every repetition run has, and the pacer is told,
unless the last phase is planned already.  And nobody stops the batch. -/
def Seen (x : BatchState) : BatchEvent → Prop
  | .changed settledDeviceId _ => x.store.LatestSettled x.batch.id →
      x.store.AllSettled x.batch.id ∧
        (Store.TellsPacer settledDeviceId ∨ x.store.LastPlanned x.batch)
  | .replan _ => x.store.LatestSettled x.batch.id → x.store.AllSettled x.batch.id
  | .stop => False
  | .queue _ | .advance _ => True

instance (s : Store) (batchId : String) : Decidable (s.LatestSettled batchId) :=
  inferInstanceAs (Decidable (∀ run ∈ _, _))

instance (s : Store) (batchId : String) : Decidable (s.AllSettled batchId) :=
  inferInstanceAs (Decidable (∀ r ∈ s.repetitions batchId, _))

instance (s : Store) (b : PacedBatch) : Decidable (s.LastPlanned b) :=
  inferInstanceAs (Decidable (∃ r ∈ s.repetitions b.id, _))

instance (x : BatchState) : DecidablePred x.Seen
  | .changed settledDeviceId _ => inferInstanceAs (Decidable (x.store.LatestSettled x.batch.id →
      x.store.AllSettled x.batch.id ∧
        (Store.TellsPacer settledDeviceId ∨ x.store.LastPlanned x.batch)))
  | .replan _ => inferInstanceAs
      (Decidable (x.store.LatestSettled x.batch.id → x.store.AllSettled x.batch.id))
  | .stop => inferInstanceAs (Decidable False)
  | .queue _ | .advance _ => inferInstanceAs (Decidable True)

/-- The batch is not stopped, and closed only with all its phases settled. -/
structure Unbroken (x : BatchState) : Prop where
  not_stopping : x.batch.status ≠ .stopping
  finished : x.batch.status.terminal = true →
    x.store.AllSettled x.batch.id ∧ x.store.LastPlanned x.batch

theorem terminal_of_nonPlanning {status : BatchStatus} (h : status.nonPlanning = true)
    (hne : status ≠ .stopping) : status.terminal = true := by
  cases status <;> simp_all [BatchStatus.nonPlanning, BatchStatus.terminal]

/-- The status a batch that is not stopping is given. -/
theorem status_patch {b : PacedBatch} (hne : b.status ≠ .stopping) (now : Int)
    (status : BatchStatus) : (b.patch now status).status = status :=
  if_neg fun h ↦ hne h.1

/-- A batch that was finished with a status keeps its row when it is given that status again. -/
theorem patch_eq_self {b : PacedBatch} {status : BatchStatus} (hstatus : b.status = status)
    (hfinished : b.finishedAt ≠ none) (now : Int) : b.patch now status = b := by
  have hkeep : ¬ (status.terminal = true ∧ b.finishedAt = none) := fun h ↦ hfinished h.2
  rw [PacedBatch.patch, hstatus, ite_self, if_neg hkeep, ← hstatus]

/-- What closes a batch: its members' latest runs, all settled. -/
theorem settled_of_closed {s s₁ : Store} {b : PacedBatch} (hne : b.status ≠ .stopping) {now : Int}
    (hclosed : (b.patch now (computeBatchStatus
      (countJobs (s₁.latestRuns (s.membersOf b.id))))).status.terminal = true) {jobId : String}
    (hmember : s.IsMember b.id jobId) : (shownStatus (s₁.latestRun jobId)).terminal = true := by
  rw [status_patch hne] at hclosed
  exact Store.latestRuns_settled (terminal_of_computeBatchStatus hclosed) hmember

theorem Unbroken.exec (h : Sound members b x) (hu : Unbroken x) {e : BatchEvent}
    (hf : x.DrawsFresh e) (hseen : x.Seen e) (hexec : x.exec e = some x') : Unbroken x' := by
  have hclosed : x.batch.status.nonPlanning = true →
      x.store.AllSettled x.batch.id ∧ x.store.LastPlanned x.batch :=
    fun hc ↦ hu.finished (terminal_of_nonPlanning hc hu.not_stopping)
  cases e with
  | queue op =>
    rw [BatchState.exec] at hexec
    split at hexec
    · rename_i hoff
      obtain ⟨s, hs, rfl⟩ := Option.map_eq_some_iff.mp hexec
      have hspares := Store.spares_of_exec h.phased.keys h.phased.numbered hoff hs
      refine ⟨hu.not_stopping, fun hterminal ↦ ?_⟩
      obtain ⟨hall, r, hr, hlast⟩ := hu.finished hterminal
      refine ⟨fun r' hr' ↦ ?_, ?_⟩
      · obtain ⟨r, hr, hput⟩ := hspares.back r' hr'
        exact hput.settled (hall r hr)
      · obtain ⟨r', hr', hput⟩ := hspares.forth r hr
        exact ⟨r', hr', hput.phase ▸ hlast⟩
    · cases hexec
  | advance d =>
    cases hexec
    refine ⟨hu.not_stopping, fun hterminal ↦ ?_⟩
    have hidle : x.store.Idle x.batch := by
      refine .inr (.inl ?_)
      have hterminal' : x.batch.status.terminal = true := hterminal
      cases hs : x.batch.status <;> simp_all [BatchStatus.nonPlanning, BatchStatus.terminal]
    rw [hidle.advance d]
    exact hu.finished hterminal
  | changed settledDeviceId d =>
    obtain ⟨s', hs', rfl⟩ := h.changed hf settledDeviceId hexec
    refine ⟨?_, fun hterminal ↦ ?_⟩
    · dsimp only
      rw [status_patch hu.not_stopping]
      exact computeBatchStatus_ne_stopping _
    have hsettled : ∀ jobId, x.store.IsMember x.batch.id jobId →
        (shownStatus (s'.latestRun jobId)).terminal = true :=
      fun _ ↦ settled_of_closed hu.not_stopping hterminal
    by_cases htells : Store.TellsPacer settledDeviceId
    · rw [if_pos htells] at hs'
      cases hopen : x.batch.status.nonPlanning with
      | true =>
        rw [hs'.eq_of_closed hopen]
        exact hclosed hopen
      | false =>
        exact h.phased'.finished_of_advanced h.sequential hopen hs' hsettled
          fun hlatest ↦ (hseen hlatest).1
    · rw [if_neg htells] at hs'
      subst hs'
      obtain ⟨hall, htold | hlast⟩ := hseen (Store.latestSettled_of_forall hsettled)
      · exact absurd htold htells
      · exact ⟨hall, hlast⟩
  | replan d =>
    rcases h.replan hf hexec with rfl | ⟨hopen, s', ha, rfl⟩
    · exact hu
    · refine ⟨?_, fun hterminal ↦ ?_⟩
      · dsimp only
        rw [status_patch hu.not_stopping]
        exact computeBatchStatus_ne_stopping _
      refine h.phased'.finished_of_advanced h.sequential hopen ha (fun jobId hmember ↦ ?_) hseen
      exact settled_of_closed hu.not_stopping hterminal (ha.isMember hmember)
  | stop => exact hseen.elim

/-! ## What holds in every state -/

/-- Every member the batch was dispatched with has a run of every phase. -/
def AllPlanned (members : List String) (x : BatchState) : Prop :=
  ∀ id ∈ members, ∀ p, 0 ≤ p → p < x.batch.repeatCount → ∃ r ∈ x.runs, r.jobId = id ∧ r.phase = p

/-- What a sequential batch promises. -/
structure Sequenced (members : List String) (x : BatchState) : Prop where
  /-- While a run is going, all runs of earlier phases, and of earlier sub-groups of its phase, have
  settled. -/
  barrier : ∀ r ∈ x.runs, r.going = true → ∀ r' ∈ x.runs,
    r'.phase < r.phase ∨ r'.phase = r.phase ∧ r'.wave < r.wave → r'.status.terminal = true
  once : ∀ r ∈ x.runs, ∀ r' ∈ x.runs, r.jobId = r'.jobId → r.phase = r'.phase → r = r'
  no_more : ∀ r ∈ x.runs, 0 ≤ r.phase ∧ r.phase < x.batch.repeatCount
  /-- Advancing does not throw, and a second call in a row changes nothing. -/
  idempotent : ∀ d, x.store.Fresh x.batch.id d → ∃ s, x.store.advance x.batch d = (none, s) ∧
    ∀ d', s.advance x.batch d' = (none, s)
  /-- While nothing is going, the planner does not wait: it releases a sub-group, plans a phase, or
  is done, with all phases planned. -/
  goes_on : (∀ r ∈ x.runs, r.going = false) → x.store.plannedStep x.batch ≠ .wait ∧
    (x.store.plannedStep x.batch = .done → AllPlanned members x)

/-- A member has a run of every phase once the last is planned. -/
theorem Sound.allPlanned (h : Sound members b x) {r : JobRunRow} (hr : r ∈ x.runs)
    (hlast : x.batch.repeatCount ≤ r.phase + 1) : AllPlanned members x := by
  intro id hid p hp hlt
  exact h.phased'.planned id hid r hr p hp (by omega)

theorem Sound.sequenced (h : Sound members b x) : Sequenced members x where
  barrier r hr hgoing r' hr' hlt := by
    refine h.phased'.barrier r hr hgoing r' hr' ?_
    show toLex (r'.phase, r'.wave) < toLex (r.phase, r.wave)
    rw [Prod.Lex.toLex_lt_toLex]
    exact hlt
  once r hr r' hr' hof hphase := by
    have hsome := (Store.mem_repetitions.mp hr).2.1
    have hsome' := (Store.mem_repetitions.mp hr').2.1
    have hrepeat := (Store.phase_eq_iff hsome r.phase).mp rfl
    have hrepeat' := (Store.phase_eq_iff hsome' r'.phase).mp rfl
    have hid := h.phased'.once r hr r' hr' hof (by rw [hrepeat, hrepeat', hphase])
    exact h.phased.keys.run_eq (Store.mem_repetitions.mp hr).1 (Store.mem_repetitions.mp hr').1 hid
  no_more := h.phased'.bounds
  idempotent d hf := by
    obtain ⟨s, heq, ha⟩ := h.phased'.advanced hf
    exact ⟨s, heq, h.phased'.advance_advance ha⟩
  goes_on hstill := by
    refine ⟨fun hwait ↦ ?_, fun hdone ↦ ?_⟩
    · obtain ⟨r, hr, hgoing⟩ := h.phased'.plannedStep_eq_wait_iff.mp hwait
      have hno := hstill r hr
      rw [hgoing] at hno
      cases hno
    · obtain ⟨c, -, hcurrent, hanswers⟩ := h.phased'.answers
      rw [hdone] at hanswers
      obtain ⟨r, hr, hrc⟩ := hcurrent.attained
      cases hanswers with
      | done hle _ => exact h.allPlanned hr (hrc ▸ hle)

/-- **Sequential batches.**  In every state of every run of a sequential batch `Sequenced` holds;
and in a run in which the batch's status sees every run and nobody stops the batch, it is closed only
when every member has run every phase. -/
theorem sequential_phases {s : Store} {b : PacedBatch} (hs : s.Dispatched b)
    (hseq : b.sequential = true) (hcount : 1 ≤ b.repeatCount) {d : Draws} {es : List BatchEvent}
    {x : BatchState}
    (h : Steps.Guarded (Steps.By exec) DrawsFresh ⟨s.planFirst b d, b⟩ es x) :
    Sequenced ((s.membersOf b.id).map (·.id)) x ∧
      (Steps.Guarded (Steps.By exec) Seen ⟨s.planFirst b d, b⟩ es x →
        x.batch.status.terminal = true → x.store.AllSettled x.batch.id ∧
          AllPlanned ((s.membersOf b.id).map (·.id)) x) := by
  have hstart : Sound ((s.membersOf b.id).map (·.id)) b ⟨s.planFirst b d, b⟩ :=
    ⟨hs.phased hseq hcount d, rfl, rfl, hseq⟩
  have hsound : Sound ((s.membersOf b.id).map (·.id)) b x :=
    Steps.invariant_of_guarded h hstart fun _ _ _ hi he hf ↦ hi.exec hf he
  refine ⟨hsound.sequenced, fun hseen hterminal ↦ ?_⟩
  have hunbroken : Sound ((s.membersOf b.id).map (·.id)) b x ∧ Unbroken x := by
    refine Steps.invariant_of_guarded (I := fun x ↦ Sound _ b x ∧ Unbroken x) (h.and hseen)
      ⟨hstart, ?_, fun hterminal ↦ ?_⟩ fun _ _ _ hi he hg ↦
        ⟨hi.1.exec hg.1 he, hi.2.exec hi.1 hg.1 hg.2 he⟩
    · rw [hs.queued]
      decide
    · rw [hs.queued] at hterminal
      cases hterminal
  obtain ⟨hall, r, hr, hlast⟩ := hunbroken.2.finished hterminal
  exact ⟨hall, hsound.allPlanned hr hlast⟩

/-! ## Two phones, one after the other -/

section Phones

/-- What a call draws, with the ids of the two runs it may add. -/
def phonesDraw (now : Int) (first second : String) : Draws :=
  ⟨now, fun _ ↦ 0, fun i ↦ ⟨now, if i = 0 then first else second, 0⟩⟩

/-- Two phones, each a sub-group of its own, that are to run two phases. -/
def phonesBatch : PacedBatch :=
  ⟨"batch", .queued, none, true, 2, 0, 0, 0, 0, 0, 1⟩

def phonesJob (deviceId : String) (batchSeq : Int) : CreateJobInput where
  kind := .script
  deviceId := deviceId
  params := .null
  batchId := some "batch"
  batchSeq := some batchSeq

/-- The batch's jobs and their first runs. -/
def phonesOps : List Op :=
  [.putDevice ⟨"phone-a", "online"⟩, .putDevice ⟨"phone-b", "online"⟩, .insertBatch ⟨"batch", 0⟩,
    .createJob ⟨⟨0, "job-a", 1⟩, phonesJob "phone-a" 0, by decide⟩,
    .addRun ⟨0, "run-a", 1⟩ "job-a" { trigger := .batch },
    .createJob ⟨⟨0, "job-b", 1⟩, phonesJob "phone-b" 1, by decide⟩,
    .addRun ⟨0, "run-b", 1⟩ "job-b" { trigger := .batch }]

def phonesStore : Store := (phonesOps.foldlM Store.exec Store.empty).getD Store.empty

theorem phones_dispatched : phonesStore.Dispatched phonesBatch where
  reachable := Store.reachable_of_foldlM phonesOps (by rfl)
  nonempty := by decide +kernel
  single := by
    have hall : ∀ j ∈ phonesStore.jobs, j.batchId = some "batch" →
        ∃ r ∈ phonesStore.runs, phonesStore.runsOf j.id = [r] ∧ j.latestRunId = some r.id ∧
          r.status = .queued ∧ r.seq = 1 := by decide +kernel
    intro j hj hb
    obtain ⟨r, -, hr⟩ := hall j hj hb
    exact ⟨r, hr⟩
  queued := rfl

theorem phones_ids : (phonesStore.membersOf phonesBatch.id).map (·.id) = ["job-a", "job-b"] := by
  decide +kernel

/-- The batch when repetition 0 is planned. -/
def phonesStart : BatchState :=
  ⟨phonesStore.planFirst phonesBatch (phonesDraw 0 "" ""), phonesBatch⟩

/-- The scheduler claims the run that is due. -/
def claimDue (now : Int) (x : BatchState) : BatchEvent :=
  match (x.store.claimable now []).find? fun c ↦ x.store.ClaimsRow now [] c with
  | some c => .queue (.claimNext now 60 [] c)
  | none => .queue (.renewHeartbeat now "" 0)

/-- A run ends well. -/
def succeeds (now : Int) (runId : String) (_ : BatchState) : BatchEvent :=
  .queue (.settle now runId { status := .success })

/-- Somebody reruns a job by hand. -/
def reruns (now : Int) (jobId runId : String) (_ : BatchState) : BatchEvent :=
  .queue (.addRun ⟨now, runId, 0⟩ jobId { trigger := .rerun })

/-- The executor host reports that a device has settled. -/
def reports (now : Int) (deviceId first second : String) (_ : BatchState) : BatchEvent :=
  .changed (some deviceId) (phonesDraw now first second)

/-- The events of a script, each chosen in the state it happens in. -/
def scripted : List (BatchState → BatchEvent) → BatchState → List BatchEvent
  | [], _ => []
  | f :: rest, x => f x :: scripted rest ((x.exec (f x)).getD x)

/-- Both phones run both phases. -/
def whole : List BatchEvent := scripted
  [claimDue 1, succeeds 2 "run-a", reports 2 "phone-a" "x" "y",
    claimDue 3, succeeds 4 "run-b", reports 4 "phone-b" "next-a" "next-b",
    claimDue 5, succeeds 6 "next-a", reports 6 "phone-a" "x" "y",
    claimDue 7, succeeds 8 "next-b", reports 8 "phone-b" "x" "y"] phonesStart

def wholeEnd : BatchState := (whole.foldlM exec phonesStart).getD phonesStart

theorem sequential_phases_whole : Sequenced ["job-a", "job-b"] wholeEnd ∧
    wholeEnd.batch.status = .success ∧ wholeEnd.store.AllSettled wholeEnd.batch.id ∧
    AllPlanned ["job-a", "job-b"] wholeEnd := by
  have hfresh : Steps.Guarded (Steps.By exec) DrawsFresh phonesStart whole wholeEnd :=
    Steps.guarded_by_iff.mpr (by decide +kernel)
  have hcount : 1 ≤ phonesBatch.repeatCount := by decide
  have hrun := sequential_phases phones_dispatched rfl hcount hfresh
  rw [phones_ids] at hrun
  have hclosed : wholeEnd.batch.status = .success := by decide +kernel
  have hdone := hrun.2 (Steps.guarded_by_iff.mpr (by decide +kernel)) (by rw [hclosed]; rfl)
  exact ⟨hrun.1, hclosed, hdone.1, hdone.2⟩

/-- The second phone is rerun by hand while its own run is still held. -/
def cutShort : List BatchEvent := scripted
  [claimDue 1, reruns 1 "job-b" "rerun-b", claimDue 2, succeeds 3 "rerun-b",
    reports 3 "phone-b" "x" "y", succeeds 4 "run-a", reports 4 "phone-a" "x" "y",
    claimDue 5, succeeds 6 "run-b", reports 6 "phone-b" "x" "y"] phonesStart

def cutShortEnd : BatchState := (cutShort.foldlM exec phonesStart).getD phonesStart

/-- When the first phone settles, the latest run of the second is the rerun: the batch is closed with
one phase of two, and from there neither advancing nor recomputing it does anything. -/
theorem cutShort_ends_early : phonesStore.Dispatched phonesBatch ∧ phonesBatch.sequential = true ∧
    phonesBatch.repeatCount = 2 ∧
    Steps.Guarded (Steps.By exec) DrawsFresh phonesStart cutShort cutShortEnd ∧
    cutShortEnd.batch.status = .success ∧ (∀ r ∈ cutShortEnd.runs, r.going = false) ∧
    cutShortEnd.store.plannedStep cutShortEnd.batch = .nextPhase 1 ∧
    ¬ AllPlanned ["job-a", "job-b"] cutShortEnd ∧
    ∀ settledDeviceId d, cutShortEnd.store.advance cutShortEnd.batch d = (none, cutShortEnd.store) ∧
      cutShortEnd.exec (.changed settledDeviceId d) = some cutShortEnd := by
  have hstatus : cutShortEnd.batch.status = .success := by decide +kernel
  refine ⟨phones_dispatched, rfl, rfl, Steps.guarded_by_iff.mpr (by decide +kernel), hstatus,
    by decide +kernel, by decide +kernel, fun hplanned ↦ ?_, fun settledDeviceId d ↦ ?_⟩
  · have hno : ∀ r ∈ cutShortEnd.runs, r.jobId = "job-a" → r.phase ≠ 1 := by decide +kernel
    obtain ⟨r, hr, hof, hphase⟩ := hplanned "job-a" (by simp) 1 (by decide) (by decide +kernel)
    exact hno r hr hof hphase
  · have hidle := Store.Idle.advance (s := cutShortEnd.store) (b := cutShortEnd.batch)
      (.inr (.inl (by rw [hstatus]; rfl))) d
    refine ⟨hidle, ?_⟩
    have hcompute : computeBatchStatus (countJobs (cutShortEnd.store.latestRuns
        (cutShortEnd.store.membersOf cutShortEnd.batch.id))) = .success := by decide +kernel
    rw [exec, Store.recompute_sequential (by decide +kernel) (by decide +kernel) hidle]
    dsimp only
    rw [ite_self, hcompute, patch_eq_self hstatus (by decide +kernel)]

end Phones

end BatchState

end Enkaku
