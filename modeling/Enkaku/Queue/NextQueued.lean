import Enkaku.Queue.JobStore

/-!
# The run that is shown as waiting

`nextQueuedRunId` of `job-store.ts`, and the two functions of `scheduler.ts` that tell the console
which run a paced device waits for.

It is a statement of its own beside the claim's: it looks at every queued run of the device, held or
not and due or not, and sorts by priority and creation time only.  `nextQueued_claimed_iff` says when
the two name the same run: exactly when, as soon as one run of the device is due, one that is due comes
before all others by these two columns.
-/

set_option autoImplicit false

namespace Enkaku.Store

/-! ## The statement -/

/-- The queued runs of a device. -/
def queuedOn (s : Store) (deviceId : String) : List JobRunRow :=
  s.runs.filter fun r ↦ decide (r.deviceId = deviceId) && decide (r.status = .queued)

/-- `ORDER BY priority DESC, created_at ASC`: the one row sorts before the other. -/
def ShownBefore (a b : JobRunRow) : Prop :=
  b.priority < a.priority ∨ b.priority = a.priority ∧ a.createdAt < b.createdAt

instance (a b : JobRunRow) : Decidable (ShownBefore a b) := by
  unfold ShownBefore
  infer_instance

/-- The rows `LIMIT 1` may return. -/
def ShownRow (s : Store) (deviceId : String) (r : JobRunRow) : Prop :=
  r ∈ s.queuedOn deviceId ∧ ∀ r' ∈ s.queuedOn deviceId, ¬ ShownBefore r' r

instance (s : Store) (deviceId : String) (r : JobRunRow) : Decidable (s.ShownRow deviceId r) := by
  unfold ShownRow
  infer_instance

/-- `nextQueuedRunId`, in table order where rows tie. -/
def nextQueuedRunId (s : Store) (deviceId : String) : Option String :=
  ((s.queuedOn deviceId).find? fun r ↦ s.ShownRow deviceId r).map (·.id)

/-- What the statement may answer for a device. -/
def MayAnswer (s : Store) (deviceId : String) : Option String → Prop
  | none => s.queuedOn deviceId = []
  | some runId => ∃ r, s.ShownRow deviceId r ∧ r.id = runId

/-- `queuedDeviceIds`. -/
def queuedDeviceIds (s : Store) : List String :=
  ((s.runs.filter fun r ↦ decide (r.status = .queued)).map (·.deviceId)).dedup

/-! ## The broadcast -/

/-- An entry of `pacedBlocked`. -/
structure PacedWait where
  jobId : String
  runId : String
  remainingSec : Int
  deriving DecidableEq, Repr

/-- What `onJobWaiting` is told; its reason is always `paced`. -/
structure JobWaiting where
  jobId : String
  runId : String
  deviceId : String
  waiting : Bool
  remainingSec : Int
  deriving DecidableEq, Repr

section Broadcast

variable (s : Store) (now : Int) (next : String → Option String)

/-- `computePacedBlocked`, with what `nextQueuedRunId` answers. -/
def computePacedBlocked : List (String × PacedWait) :=
  s.queuedDeviceIds.filterMap fun deviceId ↦ do
    let runId ← next deviceId
    let run ← s.run? runId
    let notBefore ← run.notBefore
    if notBefore - now ≤ 0 then none
    else some (deviceId, ⟨run.jobId, run.id, notBefore - now⟩)

/-- `broadcastWaiting`: what is told, and the devices that are waiting now. -/
def broadcastWaiting (pacedBlocked : List (String × PacedWait)) (previouslyWaiting : List String) :
    List JobWaiting × List String :=
  let stillWaiting := pacedBlocked.map (·.1)
  (pacedBlocked.map (fun p ↦ ⟨p.2.jobId, p.2.runId, p.1, true, p.2.remainingSec⟩) ++
    (previouslyWaiting.filter fun d ↦ !stillWaiting.contains d).filterMap fun deviceId ↦ do
      let runId ← next deviceId
      let run ← s.run? runId
      return ⟨run.jobId, run.id, deviceId, false, 0⟩,
    stillWaiting)

end Broadcast

/-! ## The two orders -/

theorem mem_queuedOn {s : Store} {deviceId : String} {r : JobRunRow} :
    r ∈ s.queuedOn deviceId ↔ r ∈ s.runs ∧ r.deviceId = deviceId ∧ r.status = .queued := by
  simp [queuedOn]

theorem ShownBefore.trans {a b c : JobRunRow} (hab : ShownBefore a b) (hbc : ShownBefore b c) :
    ShownBefore a c := by
  simp only [ShownBefore] at *
  omega

theorem ShownBefore.irrefl (a : JobRunRow) : ¬ ShownBefore a a := by
  simp only [ShownBefore]
  omega

/-- The claim sorts by the same two columns first. -/
theorem claimOrder_lt_iff {a b : Candidate} :
    claimOrder a b = .lt ↔ ShownBefore a.run b.run ∨
      (a.run.priority = b.run.priority ∧ a.run.createdAt = b.run.createdAt ∧
        compareBatchSeq a.job.batchSeq b.job.batchSeq = .lt) := by
  simp only [claimOrder, Ordering.then_eq_lt, compare_lt_iff_lt, compare_eq_iff_eq, ShownBefore]
  constructor
  · rintro (h | ⟨h, h' | h'⟩)
    · exact .inl (.inl h)
    · exact .inl (.inr ⟨h, h'⟩)
    · exact .inr ⟨h.symm, h'.1, h'.2⟩
  · rintro ((h | h) | ⟨h, h', h''⟩)
    · exact .inl h
    · exact .inr ⟨h.1, .inl h.2⟩
    · exact .inr ⟨h.symm, .inr ⟨h', h''⟩⟩

theorem compareBatchSeq_trans {a b c : Option Int} (hab : compareBatchSeq a b = .lt)
    (hbc : compareBatchSeq b c = .lt) : compareBatchSeq a c = .lt := by
  cases a <;> cases b <;> cases c <;> simp_all [compareBatchSeq, compare_lt_iff_lt]
  omega

theorem compareBatchSeq_irrefl (a : Option Int) : compareBatchSeq a a ≠ .lt := by
  cases a <;> simp [compareBatchSeq]

/-- A claim that has rows to choose from chooses one. -/
theorem exists_claimsRow {s : Store} {now : Int} {excludeDeviceIds : List String}
    (hne : s.claimable now excludeDeviceIds ≠ []) : ∃ c, s.ClaimsRow now excludeDeviceIds c := by
  obtain ⟨c, hc, hfirst⟩ := Sql.exists_first (fun a b ↦ claimOrder a b = .lt)
    (fun a b c hab hbc ↦ by
      rw [claimOrder_lt_iff] at *
      rcases hab with hab | ⟨hp, ht, hs⟩ <;> rcases hbc with hbc | ⟨hp', ht', hs'⟩
      · exact .inl (hab.trans hbc)
      · simp only [ShownBefore] at *
        omega
      · simp only [ShownBefore] at *
        omega
      · exact .inr ⟨hp.trans hp', ht.trans ht', compareBatchSeq_trans hs hs'⟩)
    (fun a h ↦ by
      rcases claimOrder_lt_iff.mp h with h | ⟨-, -, h⟩
      · exact ShownBefore.irrefl _ h
      · exact compareBatchSeq_irrefl _ h) hne
  exact ⟨c, hc, hfirst⟩

theorem exists_shownRow {s : Store} {deviceId : String} (hne : s.queuedOn deviceId ≠ []) :
    ∃ r, s.ShownRow deviceId r := by
  obtain ⟨r, hr, hfirst⟩ := Sql.exists_first ShownBefore (fun _ _ _ ↦ ShownBefore.trans)
    ShownBefore.irrefl hne
  exact ⟨r, hr, hfirst⟩

/-! ## One run for both -/

/-- A run that the gates of time and of the pacer let start. -/
def Startable (now : Int) (r : JobRunRow) : Prop :=
  r.held = false ∧ ∀ t, r.notBefore = some t → t ≤ now

/-- No other gate of the claim makes a difference: it passes every queued run of the device. -/
def OtherGatesPass (s : Store) (deviceId : String) : Prop :=
  ∀ r ∈ s.queuedOn deviceId, ∃ c ∈ s.candidates, c.run = r ∧ c.device.status = "online" ∧
    s.deviceFree c ∧ (s.batchGate c).isTrue ∧ (s.maxConcurrentGate c).isTrue

/-- As soon as a queued run of the device can start, one that can comes before all others by priority
and creation time alone. -/
def FirstStarts (s : Store) (now : Int) (deviceId : String) : Prop :=
  (∃ r ∈ s.queuedOn deviceId, Startable now r) →
    ∃ r ∈ s.queuedOn deviceId, Startable now r ∧
      ∀ r' ∈ s.queuedOn deviceId, r'.id ≠ r.id → ShownBefore r r'

/-- Every message about a device names the run that is shown for it. -/
theorem runId_of_broadcast {s : Store} {now : Int} {next : String → Option String}
    {previouslyWaiting : List String} {m : JobWaiting}
    (hm : m ∈ (s.broadcastWaiting next (s.computePacedBlocked now next) previouslyWaiting).1) :
    next m.deviceId = some m.runId := by
  have hrun : ∀ {runId : String} {run : JobRunRow}, s.run? runId = some run → run.id = runId := by
    intro runId run h
    simpa using List.find?_some h
  rcases List.mem_append.mp hm with hm | hm
  · obtain ⟨⟨d, paced⟩, hp, rfl⟩ := List.mem_map.mp hm
    obtain ⟨d', -, hpaced⟩ := List.mem_filterMap.mp hp
    obtain ⟨runId, hnext, hpaced⟩ := Option.bind_eq_some_iff.mp hpaced
    obtain ⟨run, hget, hpaced⟩ := Option.bind_eq_some_iff.mp hpaced
    obtain ⟨t, -, hpaced⟩ := Option.bind_eq_some_iff.mp hpaced
    split_ifs at hpaced
    cases hpaced
    rw [hnext, hrun hget]
  · obtain ⟨d, -, hpaced⟩ := List.mem_filterMap.mp hm
    obtain ⟨runId, hnext, hpaced⟩ := Option.bind_eq_some_iff.mp hpaced
    obtain ⟨run, hget, hpaced⟩ := Option.bind_eq_some_iff.mp hpaced
    cases hpaced
    rw [hnext, hrun hget]

section Agree

variable {s : Store} {now : Int} {excludeDeviceIds : List String} {deviceId : String}

section

variable (hother : ∀ v ∈ s.devices, v.id ∈ excludeDeviceIds ↔ v.id ≠ deviceId)
include hother

/-- What is claimed is a queued run of the device that can start. -/
theorem startable_of_claimsRow {c : Candidate} (hc : c ∈ s.claimable now excludeDeviceIds) :
    c.run ∈ s.queuedOn deviceId ∧ Startable now c.run := by
  have hclaimed := claimed_of_mem_claimable hc
  have hdevice : c.run.deviceId = deviceId := by
    by_contra hne
    refine hclaimed.not_excluded ?_
    rw [← hclaimed.device_id] at hne ⊢
    exact (hother _ hclaimed.device_mem).mpr hne
  exact ⟨mem_queuedOn.mpr ⟨hclaimed.run_mem, hdevice, hclaimed.queued⟩, hclaimed.not_held, hclaimed.due⟩

/-- Such a run is one the claim chooses from, when no other gate makes a difference. -/
theorem claimable_of_startable
    (hgates : s.OtherGatesPass deviceId) {r : JobRunRow} (hr : r ∈ s.queuedOn deviceId)
    (hstart : Startable now r) : ∃ c ∈ s.claimable now excludeDeviceIds, c.run = r := by
  obtain ⟨c, hc, rfl, honline, hfree, hbatch, hscript⟩ := hgates r hr
  obtain ⟨-, hdevice, hqueued⟩ := mem_queuedOn.mp hr
  obtain ⟨-, -, -, hmem, hid, -⟩ := mem_candidates hc
  have hallowed : c.run.deviceId ∉ excludeDeviceIds := by
    rw [← hid, hother _ hmem, not_not, hid, hdevice]
  refine ⟨c, List.mem_filter.mpr ⟨hc, ?_⟩, rfl⟩
  simp [claimWhere, hqueued, honline, hfree, hallowed, hbatch, hscript, hstart.1,
    notBeforeGate_iff.mpr hstart.2]

end

/-- **The run shown is the run claimed, exactly when the first run starts.**  Whichever row each of the
two statements returns, and whatever was waiting before: the run that a claim for this device alone
takes is the one `nextQueuedRunId` answers, and the one every message about the device names, if and
only if a run that can start comes before all others of the device by priority and creation time
as soon as there is one that can start. -/
theorem nextQueued_claimed_iff (hids : (s.runs.map (·.id)).Nodup)
    (hother : ∀ v ∈ s.devices, v.id ∈ excludeDeviceIds ↔ v.id ≠ deviceId)
    (hgates : s.OtherGatesPass deviceId) :
    (∀ c, s.ClaimsRow now excludeDeviceIds c →
      (∀ answer, s.MayAnswer deviceId answer → answer = some c.run.id) ∧
      ∀ next : String → Option String, (∀ d, s.MayAnswer d (next d)) → ∀ previouslyWaiting,
        ∀ m ∈ (s.broadcastWaiting next (s.computePacedBlocked now next) previouslyWaiting).1,
          m.deviceId = deviceId → m.runId = c.run.id) ↔
      s.FirstStarts now deviceId := by
  constructor
  · rintro h ⟨x, hx, hstart⟩
    obtain ⟨c₀, hc₀, -⟩ := claimable_of_startable hother hgates hx hstart
    obtain ⟨c, hc⟩ := exists_claimsRow (List.ne_nil_of_mem hc₀)
    obtain ⟨hqueued, hcstart⟩ := startable_of_claimsRow hother hc.1
    have hone : ∀ r, s.ShownRow deviceId r → r = c.run := by
      intro r hr
      have hid := (h c hc).1 (some r.id) ⟨r, hr, rfl⟩
      exact List.inj_on_of_nodup_map hids (mem_queuedOn.mp hr.1).1 (mem_queuedOn.mp hqueued).1
        (Option.some.inj hid)
    have hshown : s.ShownRow deviceId c.run := by
      obtain ⟨r, hr⟩ := exists_shownRow (List.ne_nil_of_mem hqueued)
      exact hone r hr ▸ hr
    refine ⟨c.run, hqueued, hcstart, fun r' hr' hne ↦ ?_⟩
    by_contra hnot
    -- Level with the first row, it could be returned instead.
    refine hne (congrArg JobRunRow.id (hone r' ⟨hr', fun r'' hr'' hbefore ↦ ?_⟩))
    have h₁ := hshown.2 r' hr'
    have h₂ := hshown.2 r'' hr''
    simp only [ShownBefore] at *
    omega
  · intro hfirst c hc
    obtain ⟨hqueued, hcstart⟩ := startable_of_claimsRow hother hc.1
    obtain ⟨r, hr, hstart, hbefore⟩ := hfirst ⟨c.run, hqueued, hcstart⟩
    have hclaimed : c.run.id = r.id := by
      by_contra hne
      obtain ⟨c', hc', rfl⟩ := claimable_of_startable hother hgates hr hstart
      exact hc.2 c' hc' (claimOrder_lt_iff.mpr (.inl (hbefore _ hqueued hne)))
    have hanswer : ∀ answer, s.MayAnswer deviceId answer → answer = some c.run.id := by
      rintro (_ | runId) hanswer
      · exact absurd hanswer (List.ne_nil_of_mem hqueued)
      · obtain ⟨r', hr', rfl⟩ := hanswer
        have hid : r'.id = r.id := by
          by_contra hne
          exact hr'.2 r hr (hbefore _ hr'.1 hne)
        rw [hid, hclaimed]
    refine ⟨hanswer, fun next hnext previouslyWaiting m hm hdevice ↦ ?_⟩
    have hname := runId_of_broadcast hm
    rw [hdevice] at hname
    exact Option.some.inj (hname.symm.trans (hanswer _ (hnext deviceId)))

end Agree

/-! ## A run that is held -/

section Held

/-- A job on the phone, and a run of it at some second; its tables. -/
def phoneJob : JobRow :=
  newJob ⟨0, "job", 1⟩ { kind := .script, scriptId := some "tap", deviceId := "phone", params := .null }

def phoneRun (now : Int) (id : String) (held : Bool) : JobRunRow :=
  newRun empty ⟨now, id, 1⟩ phoneJob { trigger := .batch, held := some held }

def phoneStore (held : Bool) : Store :=
  ⟨[phoneJob], [phoneRun 0 "early" held, phoneRun 1 "late" false], [⟨"phone", "online"⟩], []⟩

theorem nextQueued_claimed_iff_phone :
    (∀ c, (phoneStore false).ClaimsRow 5 [] c →
      (∀ answer, (phoneStore false).MayAnswer "phone" answer → answer = some c.run.id) ∧
      ∀ next : String → Option String, (∀ d, (phoneStore false).MayAnswer d (next d)) →
        ∀ previouslyWaiting, ∀ m ∈ ((phoneStore false).broadcastWaiting next
          ((phoneStore false).computePacedBlocked 5 next) previouslyWaiting).1,
          m.deviceId = "phone" → m.runId = c.run.id) ↔
      (phoneStore false).FirstStarts 5 "phone" :=
  nextQueued_claimed_iff (by decide +kernel) (by decide +kernel) (by
    unfold OtherGatesPass
    decide +kernel)

/-- With the earlier run held by the pacer, the claim takes the later one and the earlier one is shown. -/
theorem nextQueued_shows_held :
    ∃ c, (phoneStore true).ClaimsRow 5 [] c ∧ c.run.id = "late" ∧
      (phoneStore true).nextQueuedRunId "phone" = some "early" ∧
      (phoneStore true).OtherGatesPass "phone" := by
  refine ⟨⟨phoneRun 1 "late" false, phoneJob, ⟨"phone", "online"⟩, none⟩, by decide +kernel, rfl,
    by decide +kernel, ?_⟩
  unfold OtherGatesPass
  decide +kernel

end Held

end Enkaku.Store
