import Mathlib.Data.List.Perm.Subperm
import Mathlib.Data.List.Range
import Enkaku.Queue.Ops

/-!
# Run numbering

A job's runs are meant to be numbered `1..n`, dense, with `latest_run_id` naming the newest.
`addRun` numbers the next run by the counter `run_count`, and `deleteRuns` sets that counter to how
many rows are left.  The two agree only while no gap opens *below* a run that is kept: the counter
then is the greatest number in use.

`Numbered` is what holds of every reachable state — the counter counts the rows, and no two rows of
a job share a number.  `addRun_numbers_iff` says exactly when the next run is numbered as it should
be, and `numbered_iff_dense` carries it to whole runs: every `addRun` of a run succeeds with a
number above all others, and `latest_run_id` names the newest run throughout, if and only if every
`addRun` finds its job's runs numbered without a gap.
-/

set_option autoImplicit false

namespace Enkaku

open List

/-- The job a call adds a run to. -/
def Op.addsTo : Op → Option String
  | .addRun _ jobId _ => some jobId
  | _ => none

theorem Op.addsTo_eq_some {op : Op} {jobId : String} (h : op.addsTo = some jobId) :
    ∃ env input, op = .addRun env jobId input := by
  cases op <;> simp only [Op.addsTo, Option.some.injEq, reduceCtorEq] at h
  exact ⟨_, _, by rw [h]⟩

/-- The UUID a call draws for a new run. -/
def Op.runUuid : Op → Option String
  | .addRun env _ _ => some env.uuid
  | _ => none

namespace Store

/-! ## What always holds -/

/-- What holds of the numbering in every reachable state. -/
structure Numbered (s : Store) : Prop where
  counted : ∀ j ∈ s.jobs, j.runCount = (s.runsOf j.id).length
  pos : ∀ r ∈ s.runs, 1 ≤ r.seq
  unique : ∀ jobId, ((s.runsOf jobId).map (·.seq)).Nodup

/-- A rewrite leaves a row's identity and number alone. -/
structure SameNumber (r r' : JobRunRow) : Prop where
  id : r'.id = r.id
  jobId : r'.jobId = r.jobId
  seq : r'.seq = r.seq

theorem RunKept.sameNumber {r r' : JobRunRow} (h : RunKept r r') : SameNumber r r' :=
  ⟨h.id, h.jobId, h.seq⟩

theorem sameNumber_claim (now jobTtlSec : Int) (c : Candidate) (r : JobRunRow) :
    SameNumber r (if decide (r.id = c.run.id) then claimPatch now jobTtlSec r else r) := by
  split
  · exact ⟨rfl, rfl, rfl⟩
  · exact ⟨rfl, rfl, rfl⟩

section RunsOf

variable {s : Store} {jobId : String}

theorem mem_runsOf {r : JobRunRow} : r ∈ s.runsOf jobId ↔ r ∈ s.runs ∧ r.jobId = jobId := by
  simp [runsOf]

theorem runsOf_map {f : JobRunRow → JobRunRow} (hf : ∀ r, SameNumber r (f r)) (s : Store)
    (jobs : List JobRow) (jobId : String) :
    runsOf { s with runs := s.runs.map f, jobs := jobs } jobId = (s.runsOf jobId).map f := by
  rw [runsOf, filter_map, runsOf]
  congr 1
  refine filter_congr fun r _ ↦ ?_
  simp [(hf r).jobId]

theorem runsOf_append (s : Store) (r : JobRunRow) (jobs : List JobRow) (jobId : String) :
    runsOf { s with runs := s.runs ++ [r], jobs := jobs } jobId =
      s.runsOf jobId ++ if r.jobId = jobId then [r] else [] := by
  rw [runsOf, filter_append, runsOf]
  by_cases h : r.jobId = jobId <;> simp [h]

theorem runsOf_filter (s : Store) (keep : JobRunRow → Bool) (jobs : List JobRow) (jobId : String) :
    runsOf { s with runs := s.runs.filter keep, jobs := jobs } jobId =
      (s.runsOf jobId).filter keep := by
  rw [runsOf, runsOf, filter_comm]

/-- A job that does not exist has no runs. -/
theorem Keys.runsOf_eq_nil (hk : Keys s) (hjob : ∀ j ∈ s.jobs, j.id ≠ jobId) : s.runsOf jobId = [] := by
  rw [eq_nil_iff_forall_not_mem]
  intro r hr
  obtain ⟨hmem, hof⟩ := mem_runsOf.mp hr
  obtain ⟨j, hj, hid⟩ := hk.run_job r hmem
  exact hjob j hj (hid.trans hof)

/-- A job no deleted run belonged to keeps all its runs. -/
theorem runsOf_filter_eq {keep : JobRunRow → Bool} {jobIds : List String}
    (hjobIds : ∀ r ∈ s.runs, keep r = false → r.jobId ∈ jobIds) (hj : jobId ∉ jobIds) :
    (s.runsOf jobId).filter keep = s.runsOf jobId := by
  rw [filter_eq_self]
  intro r hr
  obtain ⟨hmem, hof⟩ := mem_runsOf.mp hr
  by_contra hkeep
  exact hj (hof ▸ hjobIds r hmem (by simpa using hkeep))

end RunsOf

/-- Rewriting rows in place keeps the numbering. -/
theorem Numbered.mapRows {s : Store} (h : Numbered s) {f : JobRunRow → JobRunRow}
    {g : JobRow → JobRow} (hf : ∀ r, SameNumber r (f r)) (hg : ∀ j, JobCounted j (g j)) :
    Numbered { s with runs := s.runs.map f, jobs := s.jobs.map g } := by
  refine ⟨fun j' hj' ↦ ?_, fun r' hr' ↦ ?_, fun jobId ↦ ?_⟩
  · obtain ⟨j, hj, rfl⟩ := mem_map.mp hj'
    rw [runsOf_map hf, length_map, (hg j).runCount, (hg j).id]
    exact h.counted j hj
  · obtain ⟨r, hr, rfl⟩ := mem_map.mp hr'
    rw [(hf r).seq]
    exact h.pos r hr
  · have hseq : (·.seq) ∘ f = (·.seq) := funext fun r ↦ (hf r).seq
    rw [runsOf_map hf, map_map, hseq]
    exact h.unique jobId

/-- **Every call keeps the counters and the numbers.** -/
theorem Numbered.change {s s' : Store} {op : Op} (hk : Keys s) (h : Numbered s)
    (hc : Change s op s') : Numbered s' := by
  cases hc with
  | rewrite hf hg => exact h.mapRows (fun r ↦ (hf r).sameNumber) hg
  | @claim _ now ttl _ c hc =>
    have hmap := h.mapRows (g := id) (sameNumber_claim now ttl c) JobCounted.refl
    rw [map_id] at hmap
    exact hmap
  | @addRun _ _ job r hjob hof hseq _ hnew _ =>
    refine ⟨fun j' hj' ↦ ?_, fun r' hr' ↦ ?_, fun jobId ↦ ?_⟩
    · obtain ⟨j, hj, rfl⟩ := mem_map.mp hj'
      rw [runsOf_append, (jobKept_latestSet _ _ _ j).id]
      by_cases hid : r.jobId = j.id
      · obtain rfl := hk.job_eq hj hjob (hid.symm.trans hof)
        have hcount := h.counted j hj
        simp only [latestSet, hid, if_true, length_append, length_singleton]
        omega
      · rw [latestSet, if_neg (Ne.symm hid), if_neg hid, append_nil]
        exact h.counted j hj
    · rcases mem_append.mp hr' with hr' | hr'
      · exact h.pos r' hr'
      · obtain rfl := mem_singleton.mp hr'
        omega
    · rw [runsOf_append]
      split
      · rename_i hid
        refine Sql.nodup_insert (h.unique jobId) fun r' hr' ↦ ?_
        obtain ⟨hmem, hof'⟩ := mem_runsOf.mp hr'
        exact hnew r' hmem (hof'.trans hid.symm)
      · rw [append_nil]
        exact h.unique jobId
  | @createJob _ j hid _ _ hcount =>
    refine ⟨fun j' hj' ↦ ?_, h.pos, h.unique⟩
    rcases mem_append.mp hj' with hj' | hj'
    · exact h.counted j' hj'
    · obtain rfl := mem_singleton.mp hj'
      have hnone := hk.runsOf_eq_nil hid
      have hlen : (s.runsOf j'.id).length = 0 := by rw [hnone, length_nil]
      exact hcount.trans hlen.symm
  | @deleteRuns _ keep jobIds hjobIds =>
    refine ⟨fun j' hj' ↦ ?_, fun r hr ↦ h.pos r (mem_of_mem_filter hr), fun jobId ↦ ?_⟩
    · obtain ⟨j, hj, rfl⟩ := mem_map.mp hj'
      rw [(jobKept_recounted _ _ j).id, recounted]
      by_cases hid : j.id ∈ jobIds
      · rw [if_pos hid]
        rfl
      · rw [if_neg hid, runsOf_filter, runsOf_filter_eq hjobIds hid]
        exact h.counted j hj
    · rw [runsOf_filter]
      exact (h.unique jobId).sublist (filter_sublist.map _)
  | devices _ => exact ⟨h.counted, h.pos, h.unique⟩
  | insertBatch _ => exact ⟨h.counted, h.pos, h.unique⟩

theorem Numbered.empty : Numbered Store.empty := ⟨by simp [Store.empty], by simp [Store.empty],
  by simp [Store.empty, runsOf]⟩

theorem Reachable.numbered {s : Store} (h : Reachable s) : Numbered s :=
  h.invariant Numbered.empty fun _ _ _ hk hi hc ↦ hi.change hk hc

/-! ## One call -/

/-- A job's runs are numbered `1..n` without a gap. -/
def Dense (s : Store) (jobId : String) : Prop :=
  ((s.runsOf jobId).map (·.seq)).Perm (List.range' 1 (s.runsOf jobId).length)

/-- The next run of a job gets a number of its own, greater than every number in use. -/
def NumbersNext (s : Store) (env : Ambient) (jobId : String) (input : AddRunInput) : Prop :=
  ∃ r s', s.addRun env jobId input = .ok (r, s') ∧ ∀ r' ∈ s.runsOf jobId, r'.seq < r.seq

/-- Without a gap, the numbers in use are bounded by how many there are. -/
theorem Numbered.dense_iff {s : Store} (h : Numbered s) (jobId : String) :
    s.Dense jobId ↔ ∀ r ∈ s.runsOf jobId, r.seq ≤ (s.runsOf jobId).length := by
  constructor
  · intro hd r hr
    have hmem := hd.subset (mem_map_of_mem hr)
    have hle := mem_range'_1.mp hmem
    omega
  · intro hle
    refine (subperm_of_subset (h.unique jobId) fun n hn ↦ ?_).perm_of_length_le (by simp)
    obtain ⟨r, hr, rfl⟩ := mem_map.mp hn
    have hpos := h.pos r (mem_runsOf.mp hr).1
    have hr' := hle r hr
    rw [mem_range'_1]
    omega

/-- An `addRun` that the two unique keys admit. -/
theorem addRun_eq_ok {s : Store} {env : Ambient} {jobId : String} {job : JobRow}
    (input : AddRunInput) (hjob : s.job? jobId = some job) (hid : ∀ r' ∈ s.runs, r'.id ≠ env.uuid)
    (hseq : ∀ r' ∈ s.runs, r'.jobId = job.id → r'.seq ≠ job.runCount + 1) :
    ∃ s', s.addRun env jobId input = .ok (s.newRun env job input, s') := by
  have hno : (s.runs.any fun r' ↦ r'.id = (s.newRun env job input).id) = false := by
    rw [any_eq_false]
    intro r' hr'
    have hne := hid r' hr'
    simpa [newRun] using hne
  have hfree : (s.runs.any fun r' ↦ r'.jobId = (s.newRun env job input).jobId &&
      r'.seq = (s.newRun env job input).seq) = false := by
    rw [any_eq_false]
    intro r' hr'
    have hne := hseq r' hr'
    simpa [newRun] using hne
  rw [addRun, hjob]
  dsimp only
  rw [insertRun, hno, hfree]
  exact ⟨_, rfl⟩

/-- **When the next run is numbered as it should be**: exactly when the runs there are have no
gap. -/
theorem addRun_numbers_iff {s : Store} (h : Numbered s) {env : Ambient}
    {jobId : String} {job : JobRow} (input : AddRunInput) (hjob : s.job? jobId = some job)
    (hid : ∀ r ∈ s.runs, r.id ≠ env.uuid) : s.NumbersNext env jobId input ↔ s.Dense jobId := by
  obtain ⟨hmem, rfl⟩ := job?_some hjob
  have hcount := h.counted job hmem
  rw [h.dense_iff]
  constructor
  · rintro ⟨r, s', hr, hgt⟩ r' hr'
    obtain ⟨job', hjob', rfl, -⟩ := addRun_ok hr
    cases hjob.symm.trans hjob'
    have hlt : r'.seq < job.runCount + 1 := hgt r' hr'
    omega
  · intro hle
    have hlt : ∀ r' ∈ s.runsOf job.id, r'.seq < job.runCount + 1 := by
      intro r' hr'
      have hr := hle r' hr'
      omega
    obtain ⟨s', hs'⟩ := addRun_eq_ok input hjob hid fun r' hr' hof ↦
      (hlt r' (mem_runsOf.mpr ⟨hr', hof⟩)).ne
    exact ⟨_, s', hs', hlt⟩

/-! ## Whole runs -/

/-- `latest_run_id` names the run created last, which has the greatest number; it is null when the
job has no run. -/
def LatestIsNewest (s : Store) (j : JobRow) : Prop :=
  match (s.runsOf j.id).getLast? with
  | none => j.latestRunId = none
  | some r => j.latestRunId = some r.id ∧ ∀ r' ∈ s.runsOf j.id, r'.seq ≤ r.seq

/-- A call does its part: an `addRun` on an existing job succeeds with a number above all others,
and afterwards every job's `latest_run_id` names its newest run. -/
def NumbersRight (s : Store) (op : Op) : Prop :=
  (∀ env jobId input, op = .addRun env jobId input → (s.job? jobId).isSome = true →
    s.NumbersNext env jobId input) ∧
  ∀ s', s.exec op = some s' → ∀ j ∈ s'.jobs, s'.LatestIsNewest j

/-- An `addRun` finds its job's runs numbered without a gap. -/
def DenseWhenAdding (s : Store) (op : Op) : Prop := ∀ jobId ∈ op.addsTo, s.Dense jobId

/-- The UUID an `addRun` draws is not already the id of a run. -/
def FreshRunId (s : Store) (op : Op) : Prop := ∀ uuid ∈ op.runUuid, ∀ r ∈ s.runs, r.id ≠ uuid

instance (s : Store) (op : Op) : Decidable (s.DenseWhenAdding op) :=
  inferInstanceAs (Decidable (∀ jobId ∈ op.addsTo, List.Perm _ _))

instance (s : Store) (op : Op) : Decidable (s.FreshRunId op) :=
  inferInstanceAs (Decidable (∀ uuid ∈ op.runUuid, ∀ r ∈ s.runs, r.id ≠ uuid))

/-- The invariant of a run that numbers right: a job's runs stand in the order of their numbers and
`latest_run_id` names the last. -/
structure Ordered (s : Store) : Prop where
  sorted : ∀ jobId, (s.runsOf jobId).Pairwise fun r r' ↦ r.seq < r'.seq
  latest : ∀ j ∈ s.jobs, j.latestRunId = (s.runsOf j.id).getLast?.map (·.id)

/-- In a sorted table the run of greatest number is the last. -/
theorem latestOf_eq_getLast? {rows : List JobRunRow}
    (h : rows.Pairwise fun r r' ↦ r.seq < r'.seq) : latestOf rows = rows.getLast? := by
  induction rows using List.reverseRecOn with
  | nil => rfl
  | append_singleton rows r ih =>
    obtain ⟨hrows, -, hlt⟩ := pairwise_append.mp h
    have hih := ih hrows
    rw [latestOf] at hih
    rw [latestOf, foldl_append, hih, getLast?_append]
    cases hl : rows.getLast? with
    | none => rfl
    | some b =>
      have hb := hlt b (mem_of_getLast? hl) r (by simp)
      simp [hb]

theorem Ordered.latestIsNewest {s : Store} (h : Ordered s) {j : JobRow} (hj : j ∈ s.jobs) :
    s.LatestIsNewest j := by
  have hlatest := h.latest j hj
  rw [LatestIsNewest]
  split
  · rename_i hnone
    rw [hlatest, hnone, Option.map_none]
  · rename_i r hr
    refine ⟨by rw [hlatest, hr, Option.map_some], fun r' hr' ↦ ?_⟩
    obtain ⟨front, hfront⟩ := getLast?_eq_some_iff.mp hr
    have hsorted := h.sorted j.id
    rw [hfront] at hsorted hr'
    rcases mem_append.mp hr' with hr' | hr'
    · exact ((pairwise_append.mp hsorted).2.2 r' hr' r (by simp)).le
    · rw [mem_singleton.mp hr']

/-- Rewriting rows in place keeps the order. -/
theorem Ordered.mapRows {s : Store} (h : Ordered s) {f : JobRunRow → JobRunRow}
    {g : JobRow → JobRow} (hf : ∀ r, SameNumber r (f r)) (hg : ∀ j, JobCounted j (g j)) :
    Ordered { s with runs := s.runs.map f, jobs := s.jobs.map g } := by
  refine ⟨fun jobId ↦ ?_, fun j' hj' ↦ ?_⟩
  · rw [runsOf_map hf, pairwise_map]
    simpa only [(hf _).seq] using h.sorted jobId
  · obtain ⟨j, hj, rfl⟩ := mem_map.mp hj'
    have hid : (·.id) ∘ f = (·.id) := funext fun r ↦ (hf r).id
    rw [runsOf_map hf, getLast?_map, Option.map_map, hid, (hg j).latestRunId, (hg j).id]
    exact h.latest j hj

/-- **Every call keeps the order, when an `addRun` finds no gap.** -/
theorem Ordered.change {s s' : Store} {op : Op} (hk : Keys s) (hn : Numbered s) (h : Ordered s)
    (hdense : s.DenseWhenAdding op) (hc : Change s op s') : Ordered s' := by
  cases hc with
  | rewrite hf hg => exact h.mapRows (fun r ↦ (hf r).sameNumber) hg
  | @claim _ now ttl _ c hc =>
    have hmap := h.mapRows (g := id) (sameNumber_claim now ttl c) JobCounted.refl
    rw [map_id] at hmap
    exact hmap
  | @addRun env input job r hjob hof hseq _ _ _ =>
    have hle := (hn.dense_iff job.id).mp (hdense job.id rfl)
    have hcount := hn.counted job hjob
    refine ⟨fun jobId ↦ ?_, fun j' hj' ↦ ?_⟩
    · rw [runsOf_append]
      split
      · rename_i hid
        obtain rfl : job.id = jobId := hof.symm.trans hid
        refine pairwise_append.mpr ⟨h.sorted job.id, by simp, fun r' hr' r'' hr'' ↦ ?_⟩
        have hr := hle r' hr'
        rw [mem_singleton.mp hr'']
        omega
      · rw [append_nil]
        exact h.sorted jobId
    · obtain ⟨j, hj, rfl⟩ := mem_map.mp hj'
      rw [runsOf_append, (jobKept_latestSet _ _ _ j).id]
      by_cases hid : r.jobId = j.id
      · simp [latestSet, hid]
      · rw [latestSet, if_neg (Ne.symm hid), if_neg hid, append_nil]
        exact h.latest j hj
  | @createJob _ j hid _ hlatest hcount =>
    refine ⟨h.sorted, fun j' hj' ↦ ?_⟩
    rcases mem_append.mp hj' with hj' | hj'
    · exact h.latest j' hj'
    · obtain rfl := mem_singleton.mp hj'
      have hnone := hk.runsOf_eq_nil hid
      have hlast : (s.runsOf j'.id).getLast? = none := by rw [hnone, getLast?_nil]
      rw [hlatest]
      exact (congrArg (Option.map (·.id)) hlast).symm
  | @deleteRuns _ keep jobIds hjobIds =>
    refine ⟨fun jobId ↦ ?_, fun j' hj' ↦ ?_⟩
    · rw [runsOf_filter]
      exact (h.sorted jobId).sublist filter_sublist
    · obtain ⟨j, hj, rfl⟩ := mem_map.mp hj'
      rw [(jobKept_recounted _ _ j).id, recounted]
      by_cases hid : j.id ∈ jobIds
      · have hsorted := (h.sorted j.id).sublist (filter_sublist (p := keep))
        rw [← runsOf_filter s keep (s.jobs.map (recounted (s.runs.filter keep) jobIds))] at hsorted
        rw [if_pos hid, ← latestOf_eq_getLast? hsorted]
        rfl
      · rw [if_neg hid, runsOf_filter, runsOf_filter_eq hjobIds hid]
        exact h.latest j hj
  | devices _ => exact ⟨h.sorted, h.latest⟩
  | insertBatch _ => exact ⟨h.sorted, h.latest⟩

theorem Ordered.empty : Ordered Store.empty := ⟨by simp [Store.empty, runsOf], by simp [Store.empty]⟩

/-- **When run numbering is right.**  In a run of the store every call numbers right — each
`addRun` succeeds with a number above all others and `latest_run_id` names the newest run after
every call — if and only if every `addRun` finds its job's runs numbered without a gap. -/
theorem numbered_iff_dense {ops : List Op} {s : Store}
    (h : Steps.Guarded (Steps.By exec) FreshRunId empty ops s) :
    Steps.Guarded (Steps.By exec) NumbersRight empty ops s ↔
      Steps.Guarded (Steps.By exec) DenseWhenAdding empty ops s := by
  constructor
  · intro hright
    refine (h.and hright).imp (I := Reachable) ⟨[], Steps.nil⟩
      (fun _ _ _ hs hop _ ↦ hs.exec hop) ?_
    rintro s op s' hs - ⟨hfresh, hnext, -⟩ jobId hop
    obtain ⟨env, input, rfl⟩ := Op.addsTo_eq_some hop
    cases hjob : s.job? jobId with
    | none =>
      have hno : s.runsOf jobId = [] :=
        hs.keys.runsOf_eq_nil (by simpa [job?] using hjob)
      rw [Dense, hno]
      simp
    | some job =>
      have hn := hnext env jobId input rfl (by rw [hjob, Option.isSome_some])
      exact (addRun_numbers_iff hs.numbered input hjob (hfresh env.uuid rfl)).mp hn
  · intro hdense
    refine (h.and hdense).imp (I := fun s ↦ Reachable s ∧ Ordered s)
      ⟨⟨[], Steps.nil⟩, Ordered.empty⟩ ?_ ?_
    · rintro s op s' ⟨hs, ho⟩ hop ⟨-, hd⟩
      exact ⟨hs.exec hop, ho.change hs.keys hs.numbered hd (change_of_exec hop)⟩
    · rintro s op s' ⟨hs, ho⟩ - ⟨hfresh, hd⟩
      refine ⟨?_, fun s'' hop j hj ↦ ?_⟩
      · rintro env jobId input rfl hsome
        obtain ⟨job, hjob⟩ := Option.isSome_iff_exists.mp hsome
        exact (addRun_numbers_iff hs.numbered input hjob (hfresh env.uuid rfl)).mpr (hd jobId rfl)
      · exact (ho.change hs.keys hs.numbered hd (change_of_exec hop)).latestIsNewest hj

/-! ## Where numbering goes wrong -/

/-- A job whose three runs were cancelled, and the retention sweep that keeps its latest run. -/
def swept : List Op :=
  [.createJob ⟨⟨0, "job", 1⟩, { kind := .script, deviceId := "phone", params := .null },
      by decide⟩,
    .addRun ⟨0, "first", 1⟩ "job" { trigger := .manual },
    .cancelQueuedRun 1 "first",
    .addRun ⟨2, "second", 1⟩ "job" { trigger := .rerun },
    .cancelQueuedRun 3 "second",
    .addRun ⟨4, "third", 1⟩ "job" { trigger := .rerun },
    .cancelQueuedRun 5 "third",
    .deleteRuns ["first", "second"]]

/-- Two more runs of the job. -/
def fourth : Op := .addRun ⟨6, "fourth", 1⟩ "job" { trigger := .rerun }

/-- After the sweep the fourth run gets number 2, below the third's, and takes `latest_run_id` from
it; the fifth is refused by the unique index. -/
theorem swept_numbers_wrong : ∃ s t, Steps.Guarded (Steps.By exec) FreshRunId empty swept s ∧
    Steps.Guarded (Steps.By exec) FreshRunId empty (swept ++ [fourth]) t ∧
    ¬ Steps.Guarded (Steps.By exec) NumbersRight empty (swept ++ [fourth]) t ∧
    (s.runsOf "job").map (·.seq) = [3] ∧
    (t.runsOf "job").map (fun r ↦ (r.id, r.seq)) = [("third", 3), ("fourth", 2)] ∧
    t.jobs.map (·.latestRunId) = [some "fourth"] ∧ t.addRun ⟨7, "fifth", 1⟩ "job" { trigger := .rerun } =
      .error (.uniqueConstraint "idx_job_runs_seq") := by
  refine ⟨(swept.foldlM exec empty).getD empty, ((swept ++ [fourth]).foldlM exec empty).getD empty,
    Steps.guarded_by_iff.mpr (by rfl), Steps.guarded_by_iff.mpr (by rfl), ?_, by rfl, by rfl, by rfl,
    by rfl⟩
  intro h
  obtain ⟨m, hm, -, hnext, -⟩ := Steps.snoc_iff.mp h
  obtain rfl : (swept.foldlM exec empty).getD empty = m :=
    Steps.eq_of_by (Steps.steps_by_iff.mpr (by rfl)) (Steps.Guarded.steps hm)
  obtain ⟨r, s', hr, hlt⟩ := hnext _ _ _ rfl (by rfl)
  obtain ⟨job, hjob, rfl, -⟩ := addRun_ok hr
  obtain rfl : job = _ := (Option.some.inj hjob).symm
  have h32 : 3 < 2 := hlt _ (mem_singleton.mpr rfl)
  omega

/-- A job whose newest run was deleted before the next was added: no gap opened. -/
def newestDeleted : List Op :=
  [.createJob ⟨⟨0, "job", 1⟩, { kind := .script, deviceId := "phone", params := .null },
      by decide⟩,
    .addRun ⟨0, "first", 1⟩ "job" { trigger := .manual },
    .addRun ⟨1, "second", 1⟩ "job" { trigger := .rerun },
    .deleteRuns ["second"],
    .addRun ⟨2, "third", 1⟩ "job" { trigger := .rerun }]

theorem numbered_iff_dense_newestDeleted : Steps.Guarded (Steps.By exec) NumbersRight empty
    newestDeleted ((newestDeleted.foldlM exec empty).getD empty) :=
  (numbered_iff_dense (Steps.guarded_by_iff.mpr (by rfl))).mpr (Steps.guarded_by_iff.mpr (by rfl))

end Store

end Enkaku
