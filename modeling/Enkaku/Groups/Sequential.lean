import Enkaku.Groups.Members

/-!
# What a sequential batch does next

`planSequentialStep` sees, of each member, only its last run of the highest phase.  `Phased` is the
invariant under which that is enough: the phases and sub-groups of the runs there are, no two runs
of one phase on a member, everything of an earlier phase settled, and the barrier between the
sub-groups.  `answers` reads the planner's answer as a fact about all the batch's repetition runs;
above all it waits exactly while some run is going (`plannedStep_eq_wait_iff`).
-/

set_option autoImplicit false

namespace Enkaku

open List

open JobRunRow Pacer

namespace Pacer

/-! ## The planner on its own view -/

theorem foldl_max_spec (l : List Int) (a : Int) :
    a ≤ l.foldl max a ∧ (∀ x ∈ l, x ≤ l.foldl max a) ∧ (l.foldl max a = a ∨ l.foldl max a ∈ l) := by
  induction l generalizing a with
  | nil => simp
  | cons x l ih =>
    obtain ⟨hle, hall, hmem⟩ := ih (max a x)
    rw [foldl_cons]
    refine ⟨(le_max_left a x).trans hle, fun y hy ↦ ?_, ?_⟩
    · rcases mem_cons.mp hy with rfl | hy
      · exact (le_max_right a y).trans hle
      · exact hall y hy
    · rcases hmem with heq | hmem
      · rcases max_choice a x with hmax | hmax
        · exact .inl (heq.trans hmax)
        · exact .inr (mem_cons.mpr (.inl (heq.trans hmax)))
      · exact .inr (mem_cons_of_mem x hmem)

/-- The phases of all the runs the planner sees. -/
def phases (members : List SequentialMember) : List Int :=
  members.flatMap fun m ↦ m.runs.map (·.batchRepeat)

theorem mem_phases {members : List SequentialMember} {p : Int} :
    p ∈ phases members ↔ ∃ m ∈ members, ∃ r ∈ m.runs, r.batchRepeat = p := by
  simp [phases]

theorem currentPhase_eq (members : List SequentialMember) :
    currentPhase members = (phases members).foldl max (-1) := by
  rw [currentPhase]
  generalize (-1 : Int) = a
  induction members generalizing a with
  | nil => rfl
  | cons m rest ih =>
    rw [foldl_cons, ih]
    simp only [phases, flatMap_cons, foldl_append, foldl_map]

/-- A run of the phase that is not going and not held back has settled. -/
theorem terminal_of_not_going {r : PlannedRun} (hgoing : r.going = false)
    (hheld : (r.status = .queued && r.held) = false) : r.status.terminal = true := by
  rw [PlannedRun.going] at hgoing
  cases hs : r.status <;> simp_all [RunStatus.terminal]

/-- The sub-group has settled. -/
def Settled (members : List SequentialMember) (current wave : Int) : Prop :=
  ∀ r ∈ inWave members current wave, r.status.terminal = true

/-- What a walk over the sub-groups of a phase finds. -/
inductive Walked (members : List SequentialMember) (current : Int) (waves : List Int) :
    Option SequentialStep → Prop
  /-- Every sub-group has settled. -/
  | settled (h : ∀ w ∈ waves, Settled members current w) : Walked members current waves none
  /-- Some sub-group is going. -/
  | wait {w : Int} {r : PlannedRun} (hr : r ∈ inWave members current w) (hgoing : r.going = true) :
      Walked members current waves (some .wait)
  /-- The first sub-group that has not settled is held. -/
  | release {w : Int} {r : PlannedRun} (hr : r ∈ inWave members current w)
      (hheld : r.status = .queued ∧ r.held = true)
      (hstill : ∀ r ∈ inWave members current w, r.going = false)
      (hbefore : ∀ v ∈ waves, v < w → Settled members current v) :
      Walked members current waves (some (.release current w))

theorem walked (members : List SequentialMember) (current : Int) {waves : List Int}
    (hsorted : waves.Pairwise (· ≤ ·)) :
    Walked members current waves (walkWaves members current waves) := by
  induction waves with
  | nil => exact .settled (by simp)
  | cons w waves ih =>
    obtain ⟨hle, hsorted⟩ := pairwise_cons.mp hsorted
    rw [walkWaves]
    split
    · rename_i hany
      obtain ⟨r, hr, hgoing⟩ := any_eq_true.mp hany
      exact .wait hr hgoing
    · rename_i hnone
      have hstill : ∀ r ∈ inWave members current w, r.going = false := by
        simpa using hnone
      split
      · rename_i hany
        obtain ⟨r, hr, hheld⟩ := any_eq_true.mp hany
        refine .release hr (by simpa using hheld) hstill fun v hv hlt ↦ ?_
        rcases mem_cons.mp hv with rfl | hv
        · exact absurd hlt (lt_irrefl v)
        · exact absurd hlt (hle v hv).not_gt
      · rename_i hnoheld
        have hpassed : Settled members current w := by
          intro r hr
          refine terminal_of_not_going (hstill r hr) ?_
          rw [Bool.not_eq_true, any_eq_false] at hnoheld
          simpa using hnoheld r hr
        -- the walk goes on past a sub-group that has settled
        have hrest := ih hsorted
        generalize walkWaves members current waves = step at hrest
        cases hrest with
        | settled h =>
          refine .settled fun v hv ↦ ?_
          rcases mem_cons.mp hv with rfl | hv
          · exact hpassed
          · exact h v hv
        | wait hr hgoing => exact .wait hr hgoing
        | release hr hheld hstill hbefore =>
          refine .release hr hheld hstill fun v hv hlt ↦ ?_
          rcases mem_cons.mp hv with rfl | hv
          · exact hpassed
          · exact hbefore v hv hlt

theorem mem_inWave {members : List SequentialMember} {current wave : Int} {r : PlannedRun} :
    r ∈ inWave members current wave ↔
      ∃ m ∈ members, m.wave = wave ∧ m.lastOf current = some r := by
  simp [inWave, and_assoc]

end Pacer

namespace Store

/-! ## The invariant -/

/-- What holds of a sequential batch between any two calls.  `members` are the jobs it was
dispatched with, `repeatCount` the phases it is to run. -/
structure Phased (members : List String) (batchId : String) (repeatCount : Int) (s : Store) :
    Prop where
  keys : Keys s
  numbered : Numbered s
  noGaps : s.NoGaps batchId
  member : ∀ id ∈ members, s.IsMember batchId id
  /-- No run belongs to a phase the batch does not have. -/
  bounds : ∀ r ∈ s.repetitions batchId, 0 ≤ r.phase ∧ r.phase < repeatCount
  wave : ∀ r ∈ s.repetitions batchId, ∃ w, r.batchWave = some w ∧ 0 ≤ w
  /-- A member stays in its sub-group. -/
  sameWave : ∀ r ∈ s.repetitions batchId, ∀ r' ∈ s.repetitions batchId, r.jobId = r'.jobId →
    r.batchWave = r'.batchWave
  /-- No member gets two runs of one phase. -/
  once : ∀ r ∈ s.repetitions batchId, ∀ r' ∈ s.repetitions batchId, r.jobId = r'.jobId →
    r.batchRepeat = r'.batchRepeat → r.id = r'.id
  /-- A phase is planned when the one before it has settled. -/
  earlier : ∀ r ∈ s.repetitions batchId, ∀ r' ∈ s.repetitions batchId, r'.phase < r.phase →
    r'.status.terminal = true
  barrier : Barrier.Holds runKind (· ∈ s.repetitions batchId)
  /-- A phase is planned for every member, and after all the phases before it. -/
  planned : ∀ id ∈ members, ∀ r ∈ s.repetitions batchId, ∀ p, 0 ≤ p → p ≤ r.phase →
    ∃ r' ∈ s.repetitions batchId, r'.jobId = id ∧ r'.phase = p
  /-- Some member is in the sub-group that goes first. -/
  first : ∃ id ∈ members, ∃ r ∈ s.repetitions batchId, r.jobId = id ∧ r.batchWave = some 0

section View

variable {s : Store} {batchId : String}

theorem phase_eq_iff {r : JobRunRow} (h : r.batchRepeat.isSome = true) (p : Int) :
    r.phase = p ↔ r.batchRepeat = some p := by
  obtain ⟨q, hq⟩ := Option.isSome_iff_exists.mp h
  simp [phase, hq]

/-- The member's last run of the phase. -/
def MemberView.last? (v : MemberView) (p : Int) : Option JobRunRow :=
  (v.runs.filter fun r ↦ r.batchRepeat = some p).getLast?

theorem mem_sequentialMembers {v : MemberView} (hv : v ∈ s.sequentialMembers batchId) :
    v.member ∈ s.jobs ∧ v.member.batchId = some batchId := by
  obtain ⟨j, hj, rfl⟩ := mem_map.mp hv
  exact mem_membersOf.mp hj

theorem mem_view_runs {v : MemberView} (hv : v ∈ s.sequentialMembers batchId) {r : JobRunRow} :
    r ∈ v.runs ↔ r ∈ s.repetitions batchId ∧ r.jobId = v.member.id := by
  have hmember := mem_sequentialMembers hv
  obtain ⟨j, hj, rfl⟩ := mem_map.mp hv
  simp only [mem_filter, mem_reverse, mem_runsNewestFirst, mem_repetitions]
  constructor
  · rintro ⟨⟨hr, hof⟩, hsome⟩
    exact ⟨⟨hr, hsome, j, hmember.1, hof.symm, hmember.2⟩, hof⟩
  · rintro ⟨⟨hr, hsome, -⟩, hof⟩
    exact ⟨⟨hr, hof⟩, hsome⟩

theorem exists_view {jobId : String} (h : s.IsMember batchId jobId) :
    ∃ v ∈ s.sequentialMembers batchId, v.member.id = jobId := by
  obtain ⟨j, hj, hid, hb⟩ := h
  exact ⟨_, mem_map_of_mem (mem_membersOf.mpr ⟨hj, hb⟩), hid⟩

/-- Every repetition run is seen. -/
theorem exists_view_run {r : JobRunRow} (hr : r ∈ s.repetitions batchId) :
    ∃ v ∈ s.sequentialMembers batchId, r ∈ v.runs := by
  obtain ⟨v, hv, hid⟩ := exists_view (mem_repetitions.mp hr).2.2
  exact ⟨v, hv, (mem_view_runs hv).mpr ⟨hr, hid.symm⟩⟩

end View

namespace Phased

variable {s : Store} {members : List String} {batchId : String} {n : Int} {v : MemberView}
  {r : JobRunRow}

/-- The sub-group the planner sees a member in is that of each of its runs. -/
theorem view_wave (h : Phased members batchId n s) (hv : v ∈ s.sequentialMembers batchId)
    (hr : r ∈ v.runs) : r.batchWave = some v.wave := by
  obtain ⟨hrep, hof⟩ := (mem_view_runs hv).mp hr
  obtain ⟨w, hw, -⟩ := h.wave r hrep
  have hall : ∀ r' ∈ v.runs, r'.batchWave = some w := by
    intro r' hr'
    obtain ⟨hrep', hof'⟩ := (mem_view_runs hv).mp hr'
    rw [h.sameWave r' hrep' r hrep (hof'.trans hof.symm), hw]
  have hfind : v.wave = ((v.runs.find? fun r ↦ r.batchWave.isSome).bind (·.batchWave)).getD 0 := by
    obtain ⟨j, -, rfl⟩ := mem_map.mp hv
    rfl
  cases hfirst : v.runs.find? fun r ↦ r.batchWave.isSome with
  | none =>
    have hno := find?_eq_none.mp hfirst r hr
    simp [hw] at hno
  | some r' =>
    rw [hfirst, Option.bind_some, hall r' (mem_of_find?_eq_some hfirst)] at hfind
    rw [hfind, hw, Option.getD_some]

/-- A member has one run of a phase, and the planner sees it. -/
theorem last?_eq_some (h : Phased members batchId n s) (hv : v ∈ s.sequentialMembers batchId)
    {p : Int} : v.last? p = some r ↔ r ∈ v.runs ∧ r.batchRepeat = some p := by
  constructor
  · intro hlast
    simpa using mem_of_getLast? hlast
  · rintro ⟨hr, hp⟩
    have hmem : r ∈ v.runs.filter fun r ↦ r.batchRepeat = some p := by simp [hr, hp]
    cases hlast : v.last? p with
    | none =>
      rw [MemberView.last?, getLast?_eq_none_iff] at hlast
      rw [hlast] at hmem
      cases hmem
    | some r' =>
      have hr' : r' ∈ v.runs ∧ r'.batchRepeat = some p := by
        simpa using mem_of_getLast? hlast
      obtain ⟨hrep, hof⟩ := (mem_view_runs hv).mp hr
      obtain ⟨hrep', hof'⟩ := (mem_view_runs hv).mp hr'.1
      have hid := h.once r' hrep' r hrep (hof'.trans hof.symm) (hr'.2.trans hp.symm)
      rw [h.keys.run_eq (mem_repetitions.mp hrep').1 (mem_repetitions.mp hrep).1 hid]

/-- What the planner is given as the member's last run of the phase. -/
theorem lastOf_planned (v : MemberView) (hsome : ∀ r ∈ v.runs, r.batchRepeat.isSome = true)
    (p : Int) : v.planned.lastOf p =
      (v.last? p).map fun r ↦ ⟨r.batchRepeat.getD 0, r.status, r.held⟩ := by
  rw [Pacer.SequentialMember.lastOf, MemberView.planned, filter_map, getLast?_map, MemberView.last?]
  congr 2
  refine filter_congr fun r hr ↦ ?_
  have hiff := phase_eq_iff (hsome r hr) p
  rw [phase] at hiff
  simpa using hiff

/-- The runs of a sub-group and a phase are what the planner finds there. -/
theorem mem_inWave (h : Phased members batchId n s) {p w : Int} {pr : Pacer.PlannedRun} :
    pr ∈ inWave ((s.sequentialMembers batchId).map (·.planned)) p w →
      ∃ r ∈ s.repetitions batchId, r.batchRepeat = some p ∧ r.batchWave = some w ∧
        pr = ⟨p, r.status, r.held⟩ := by
  intro hpr
  obtain ⟨m, hm, hw, hlast⟩ := Pacer.mem_inWave.mp hpr
  obtain ⟨v, hv, rfl⟩ := mem_map.mp hm
  rw [lastOf_planned v fun r hr ↦ (mem_repetitions.mp ((mem_view_runs hv).mp hr).1).2.1] at hlast
  obtain ⟨r, hr, rfl⟩ := Option.map_eq_some_iff.mp hlast
  obtain ⟨hmem, hp⟩ := (h.last?_eq_some hv).mp hr
  have hwave := h.view_wave hv hmem
  refine ⟨r, ((mem_view_runs hv).mp hmem).1, hp, ?_, by rw [hp, Option.getD_some]⟩
  rw [hwave, show v.wave = w from hw]

theorem inWave_mem (h : Phased members batchId n s) {p w : Int}
    (hr : r ∈ s.repetitions batchId) (hp : r.batchRepeat = some p) (hw : r.batchWave = some w) :
    ⟨p, r.status, r.held⟩ ∈ inWave ((s.sequentialMembers batchId).map (·.planned)) p w := by
  obtain ⟨v, hv, hmem⟩ := exists_view_run hr
  have hwave := (h.view_wave hv hmem).symm.trans hw
  refine Pacer.mem_inWave.mpr ⟨v.planned, mem_map_of_mem hv, Option.some.inj hwave, ?_⟩
  rw [lastOf_planned v fun r hr ↦ (mem_repetitions.mp ((mem_view_runs hv).mp hr).1).2.1,
    (h.last?_eq_some hv).mpr ⟨hmem, hp⟩, Option.map_some, hp, Option.getD_some]

end Phased

/-! ## The planner's answer -/

/-- The phase is the highest there is. -/
structure IsCurrent (s : Store) (batchId : String) (c : Int) : Prop where
  le : ∀ r ∈ s.repetitions batchId, r.phase ≤ c
  attained : ∃ r ∈ s.repetitions batchId, r.phase = c

/-- What the planner's answer says about all the repetition runs of the batch. -/
inductive Answers (s : Store) (b : PacedBatch) (c : Int) : Pacer.SequentialStep → Prop
  | wait {r : JobRunRow} (hr : r ∈ s.repetitions b.id) (hgoing : r.going = true) :
      Answers s b c .wait
  | release {w : Int} {r : JobRunRow} (hr : r ∈ s.repetitions b.id) (hphase : r.batchRepeat = some c)
      (hwave : r.batchWave = some w) (hheld : r.status = .queued ∧ r.held = true)
      (hstill : ∀ r ∈ s.repetitions b.id, r.going = false)
      (hclear : Barrier.Clear runKind (· ∈ s.repetitions b.id) (toLex (c, w))) :
      Answers s b c (.release c w)
  | nextPhase (hlt : c + 1 < b.repeatCount)
      (hall : ∀ r ∈ s.repetitions b.id, r.status.terminal = true) :
      Answers s b c (.nextPhase (c + 1))
  | done (hle : b.repeatCount ≤ c + 1)
      (hall : ∀ r ∈ s.repetitions b.id, r.status.terminal = true) :
      Answers s b c .done

namespace Phased

variable {s : Store} {members : List String} {b : PacedBatch} {n : Int}

section

variable (h : Phased members b.id n s)
include h

/-- The planner works on the highest phase there is. -/
theorem isCurrent : s.IsCurrent b.id (currentPhase ((s.sequentialMembers b.id).map (·.planned))) := by
  rw [currentPhase_eq]
  obtain ⟨-, hle, hmem⟩ := foldl_max_spec
    (phases ((s.sequentialMembers b.id).map (·.planned))) (-1)
  generalize (phases ((s.sequentialMembers b.id).map (·.planned))).foldl max (-1) = c at *
  have hseen : ∀ r ∈ s.repetitions b.id, r.phase ≤ c := by
    intro r hr
    obtain ⟨v, hv, hmem⟩ := exists_view_run hr
    refine hle _ (mem_phases.mpr ⟨v.planned, mem_map_of_mem hv, ?_⟩)
    exact ⟨_, mem_map_of_mem hmem, rfl⟩
  refine ⟨hseen, ?_⟩
  rcases hmem with rfl | hmem
  · -- phase 0 is there, so the highest one is not the -1 the maximum starts from
    obtain ⟨id, -, r, hr, -⟩ := h.first
    have hle := hseen r hr
    have hpos := (h.bounds r hr).1
    omega
  · obtain ⟨m, hm, pr, hpr, rfl⟩ := mem_phases.mp hmem
    obtain ⟨v, hv, rfl⟩ := mem_map.mp hm
    obtain ⟨r, hr, rfl⟩ := mem_map.mp hpr
    exact ⟨r, ((mem_view_runs hv).mp hr).1, rfl⟩

/-- The sub-groups the planner walks. -/
theorem wave_mem {r : JobRunRow} (hr : r ∈ s.repetitions b.id)
    {w : Int} (hw : r.batchWave = some w) :
    w ∈ ((((s.sequentialMembers b.id).map (·.planned)).map (·.wave)).dedup).insertionSort
      (· ≤ ·) := by
  obtain ⟨v, hv, hmem⟩ := exists_view_run hr
  obtain rfl : v.wave = w := Option.some.inj ((h.view_wave hv hmem).symm.trans hw)
  rw [mem_insertionSort, mem_dedup]
  exact mem_map_of_mem (mem_map_of_mem hv)

/-- A run of a sub-group that has settled. -/
theorem terminal_of_settled {r : JobRunRow}
    (hr : r ∈ s.repetitions b.id) {c w : Int} (hp : r.batchRepeat = some c) (hw : r.batchWave = some w)
    (hset : Pacer.Settled ((s.sequentialMembers b.id).map (·.planned)) c w) : r.status.terminal = true :=
  hset _ (h.inWave_mem hr hp hw)

/-- **What the planner answers**, as a fact about all the batch's repetition runs. -/
theorem answers : ∃ c, 0 ≤ c ∧ s.IsCurrent b.id c ∧ s.Answers b c (s.plannedStep b) := by
  have hcurrent := h.isCurrent
  rw [plannedStep, planSequentialStep]
  set view := (s.sequentialMembers b.id).map (·.planned) with hview
  generalize currentPhase view = c at hcurrent
  obtain ⟨r₀, hr₀, hr₀c⟩ := hcurrent.attained
  have hc : 0 ≤ c := hr₀c ▸ (h.bounds r₀ hr₀).1
  refine ⟨c, hc, hcurrent, ?_⟩
  rw [if_neg (not_lt.mpr hc)]
  -- a run below the current phase has settled, one of it stands in a sub-group that is walked
  have hcases : ∀ r ∈ s.repetitions b.id, r.status.terminal = true ∨
      r.batchRepeat = some c ∧ ∃ w, r.batchWave = some w := by
    intro r hr
    rcases lt_or_eq_of_le (hcurrent.le r hr) with hlt | heq
    · exact .inl (h.earlier r₀ hr₀ r hr (hr₀c ▸ hlt))
    · obtain ⟨w, hw, -⟩ := h.wave r hr
      exact .inr ⟨(phase_eq_iff (mem_repetitions.mp hr).2.1 c).mp heq, w, hw⟩
  have hwalk := walked view c (pairwise_insertionSort (· ≤ ·)
    ((view.map (·.wave)).dedup))
  dsimp only
  generalize walkWaves view c
    ((view.map (·.wave)).dedup.insertionSort (· ≤ ·)) = step at hwalk ⊢
  cases hwalk with
  | settled hset =>
    have hall : ∀ r ∈ s.repetitions b.id, r.status.terminal = true := by
      intro r hr
      rcases hcases r hr with hterminal | ⟨hp, w, hw⟩
      · exact hterminal
      · exact h.terminal_of_settled hr hp hw (hset w (h.wave_mem hr hw))
    dsimp only
    by_cases hlt : c + 1 < b.repeatCount
    · rw [if_pos hlt]
      exact .nextPhase hlt hall
    · rw [if_neg hlt]
      exact .done (not_lt.mp hlt) hall
  | wait hpr hgoing =>
    obtain ⟨r, hr, -, -, rfl⟩ := h.mem_inWave hpr
    exact .wait hr hgoing
  | @release w pr hpr hheld hstill hbefore =>
    obtain ⟨r, hr, hp, hw, rfl⟩ := h.mem_inWave hpr
    have hnot : r.status.terminal = false := by
      rw [show r.status = .queued from hheld.1]
      rfl
    refine .release hr hp hw hheld (fun r' hr' ↦ ?_) fun r' hr' hlt ↦ ?_
    · rcases hcases r' hr' with hterminal | ⟨hp', w', hw'⟩
      · exact going_eq_false_of_terminal hterminal
      · rcases lt_trichotomy w' w with hlt | rfl | hlt
        · exact going_eq_false_of_terminal
            (h.terminal_of_settled hr' hp' hw' (hbefore w' (h.wave_mem hr' hw') hlt))
        · exact hstill _ (h.inWave_mem hr' hp' hw')
        · -- behind the barrier nothing is going, since the held run is not done
          by_contra hgoing
          have hactive : r'.going = true := by simpa using hgoing
          have hdone := h.barrier r' hr' hactive r hr (by
            rw [runKind, Prod.Lex.toLex_lt_toLex]
            simp [phase, JobRunRow.wave, hp, hp', hw, hw', hlt])
          rw [show r.status.terminal = true from hdone] at hnot
          cases hnot
    · rcases hcases r' hr' with hterminal | ⟨hp', w', hw'⟩
      · exact hterminal
      · have hlt' : w' < w := by
          simpa [runKind, Prod.Lex.toLex_lt_toLex, phase, JobRunRow.wave, hp', hw']
            using hlt
        exact h.terminal_of_settled hr' hp' hw' (hbefore w' (h.wave_mem hr' hw') hlt')

/-- **The planner waits exactly while some run is going.** -/
theorem plannedStep_eq_wait_iff :
    s.plannedStep b = .wait ↔ ∃ r ∈ s.repetitions b.id, r.going = true := by
  obtain ⟨c, -, -, hanswers⟩ := h.answers
  constructor
  · intro hwait
    rw [hwait] at hanswers
    cases hanswers with
    | wait hr hgoing => exact ⟨_, hr, hgoing⟩
  · rintro ⟨r, hr, hgoing⟩
    generalize s.plannedStep b = step at hanswers
    cases hanswers with
    | wait _ _ => rfl
    | release _ _ _ _ hstill _ => simp [hstill r hr] at hgoing
    | nextPhase _ hall | done _ hall => simp [going_eq_false_of_terminal (hall r hr)] at hgoing

end

end Phased

/-! ## What keeps the invariant -/

namespace StaysPut

variable {P : JobRunRow → Prop} {r r' : JobRunRow}

theorem phase (h : StaysPut P r r') : r'.phase = r.phase := by
  rw [JobRunRow.phase, h.batchRepeat, JobRunRow.phase]

theorem wave (h : StaysPut P r r') : r'.wave = r.wave := by
  rw [JobRunRow.wave, h.batchWave, JobRunRow.wave]

theorem became (h : StaysPut P r r') : Barrier.Became runKind r r' where
  stage := by
    show toLex (r'.phase, r'.wave) = toLex (r.phase, r.wave)
    rw [h.phase, h.wave]
  done := h.settled

end StaysPut

/-- **The invariant survives whatever spares the batch**, when a run is released only where
everything on the stages below has settled. -/
theorem Phased.spares {s s' : Store} {members : List String} {batchId : String} {n : Int}
    {P : JobRunRow → Prop} (h : Phased members batchId n s) (hs : Spares P batchId s s')
    (hP : ∀ r ∈ s.repetitions batchId, P r →
      Barrier.Clear runKind (· ∈ s.repetitions batchId) (runKind.stage r))
    (hk : Keys s') (hn : Numbered s') : Phased members batchId n s' where
  keys := hk
  numbered := hn
  noGaps := hs.noGaps h.noGaps
  member id hid := hs.member id (h.member id hid)
  bounds r' hr' := by
    obtain ⟨r, hr, hput⟩ := hs.back r' hr'
    rw [hput.phase]
    exact h.bounds r hr
  wave r' hr' := by
    obtain ⟨r, hr, hput⟩ := hs.back r' hr'
    rw [hput.batchWave]
    exact h.wave r hr
  sameWave r₁' hr₁' r₂' hr₂' hof := by
    obtain ⟨r₁, hr₁, hput₁⟩ := hs.back r₁' hr₁'
    obtain ⟨r₂, hr₂, hput₂⟩ := hs.back r₂' hr₂'
    rw [hput₁.jobId, hput₂.jobId] at hof
    rw [hput₁.batchWave, hput₂.batchWave]
    exact h.sameWave r₁ hr₁ r₂ hr₂ hof
  once r₁' hr₁' r₂' hr₂' hof hrepeat := by
    obtain ⟨r₁, hr₁, hput₁⟩ := hs.back r₁' hr₁'
    obtain ⟨r₂, hr₂, hput₂⟩ := hs.back r₂' hr₂'
    rw [hput₁.jobId, hput₂.jobId] at hof
    rw [hput₁.batchRepeat, hput₂.batchRepeat] at hrepeat
    rw [hput₁.id, hput₂.id]
    exact h.once r₁ hr₁ r₂ hr₂ hof hrepeat
  earlier r₁' hr₁' r₂' hr₂' hlt := by
    obtain ⟨r₁, hr₁, hput₁⟩ := hs.back r₁' hr₁'
    obtain ⟨r₂, hr₂, hput₂⟩ := hs.back r₂' hr₂'
    rw [hput₁.phase, hput₂.phase] at hlt
    exact hput₂.settled (h.earlier r₁ hr₁ r₂ hr₂ hlt)
  barrier := by
    refine h.barrier.activate fun r' hr' ↦ ?_
    obtain ⟨r, hr, hput⟩ := hs.back r' hr'
    exact ⟨r, hr, hput.became, fun hactive ↦ (hput.going hactive).imp_right (hP r hr)⟩
  planned id hid r' hr' p hp hle := by
    obtain ⟨r, hr, hput⟩ := hs.back r' hr'
    obtain ⟨q, hq, hof, hqp⟩ := h.planned id hid r hr p hp (hput.phase ▸ hle)
    obtain ⟨q', hq', hputq⟩ := hs.forth q hq
    exact ⟨q', hq', hputq.jobId.trans hof, hputq.phase.trans hqp⟩
  first := by
    obtain ⟨id, hid, r, hr, hof, hw⟩ := h.first
    obtain ⟨r', hr', hput⟩ := hs.forth r hr
    exact ⟨id, hid, r', hr', hput.jobId.trans hof, hput.batchWave.trans hw⟩

/-- Every call beside the pacer keeps the invariant. -/
theorem Phased.exec {s s' : Store} {members : List String} {batchId : String} {n : Int} {op : Op}
    (h : Phased members batchId n s) (hoff : s.KeepsOff batchId op) (hop : s.exec op = some s') :
    Phased members batchId n s' :=
  h.spares (spares_of_exec h.keys h.numbered hoff hop) (fun _ _ hno ↦ hno.elim)
    (h.keys.change (change_of_exec hop)) (h.numbered.change h.keys (change_of_exec hop))

end Store

end Enkaku
