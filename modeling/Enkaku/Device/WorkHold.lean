import Enkaku.Device.Readiness

/-!
# A work hold and a sleeping device

A hold that does not only look is to find the device awake, even if an operator had put it to sleep.
`hold` wakes the device when it is the first one on it.  So it does what it is to do as long as no
hold on a device that was put to sleep comes behind another one (`woken_for_work_iff`).
-/

set_option autoImplicit false

namespace Enkaku.Device

/-- The hold does not need the device awake, or the device was not asleep, or it was woken. -/
def Hold.Paid (h : Hold) : Prop := h.reason.isSleepRespecting = false → h.owed = false

def Caller.Paid : Caller → Prop
  | .hold h => h.Paid
  | .other => True

/-- A hold that is being granted is paid when its wake sequence has run, or it needs none. -/
def Work.Fits (deviceId : String) : Work → Prop
  | .wake phase (.hold h) => h.deviceId = deviceId ∧ (h.Paid ∨ phase = .connecting ∨ phase = .waking)
  | .wake _ .other | .acquire | .sleep .. => True

namespace ReadinessManager

/-- Whenever a work hold was granted on a device that the operator had put to sleep, the wake sequence
has run on the device since. -/
def WokenForWork (s : ReadinessManager) : Prop := ∀ h ∈ s.granted, h.Paid

/-- A work hold on a device that was put to sleep is the first one on it, and the device can be woken:
it is online, no cloud node's, and adb is ready. -/
def FirstOnSleeping (s : ReadinessManager) : Event → Prop
  | .hold deviceId reason => reason.isSleepRespecting = false → s.Slept deviceId →
      s.holdCount deviceId = 0 ∧ s.client ∧
        (OrdMap.get? deviceId s.rows).any fun row ↦ ¬ row.remote ∧ row.status = .online
  | _ => True

instance (s : ReadinessManager) : ∀ e, Decidable (FirstOnSleeping s e)
  | .hold deviceId reason =>
    inferInstanceAs (Decidable (reason.isSleepRespecting = false → s.Slept deviceId →
      s.holdCount deviceId = 0 ∧ s.client ∧
        (OrdMap.get? deviceId s.rows).any fun row ↦ ¬ row.remote ∧ row.status = .online))
  | .release _ | .set .. | .reconcile _ | .resume .. | .releaseAll | .releaseNext | .status ..
  | .session .. | .subsystems .. | .configure _ => isTrue trivial

/-! ## What a call leaves paid -/

variable {s t u : ReadinessManager} {deviceId : String} {caller : Caller} {work : Work} {task : Task}
  {h : Hold} {reason : HoldReason} {e : Event} {es : List Event}

/-- What every event keeps. -/
def TasksFit (s : ReadinessManager) : Prop := ∀ t ∈ s.tasks, t.work.Fits t.deviceId

/-- A part of a call that keeps both. -/
structure Keeps (s t : ReadinessManager) : Prop where
  tasks : TasksFit s → TasksFit t
  granted : WokenForWork s → WokenForWork t

theorem Keeps.refl (s : ReadinessManager) : Keeps s s := ⟨id, id⟩

theorem Keeps.trans (hst : Keeps s t) (htu : Keeps t u) : Keeps s u :=
  ⟨htu.tasks ∘ hst.tasks, htu.granted ∘ hst.granted⟩

theorem Keeps.of_eq (htasks : t.tasks = s.tasks) (hgranted : t.granted = s.granted) : Keeps s t := by
  refine ⟨fun h ↦ ?_, fun h ↦ ?_⟩
  · rwa [TasksFit, htasks]
  · rwa [WokenForWork, hgranted]

section

variable (s : ReadinessManager)

theorem finish_keeps (hpaid : caller.Paid) : Keeps s (s.finish caller) := by
  cases caller with
  | other => exact Keeps.refl s
  | hold h =>
    refine ⟨id, fun hs h' hmem ↦ ?_⟩
    rcases List.mem_append.mp hmem with hmem | hmem
    · exact hs h' hmem
    · obtain rfl := List.mem_singleton.mp hmem
      exact hpaid

theorem await_keeps (work : Work) (hfits : work.Fits deviceId) : Keeps s (s.await deviceId work) := by
  refine ⟨fun hs t hmem ↦ ?_, id⟩
  rcases List.mem_append.mp hmem with hmem | hmem
  · exact hs t hmem
  · obtain rfl := List.mem_singleton.mp hmem
    exact hfits

theorem wake_keeps (hfits : (Work.wake .connecting caller).Fits deviceId)
    (hpaid : s.client = false → caller.Paid) : Keeps s (s.wake deviceId caller) := by
  rw [wake]
  split_ifs with hclient
  · exact await_keeps s _ hfits
  · exact finish_keeps s (hpaid (by simpa using hclient))

variable (deviceId : String)

theorem ensureAwake_other_keeps : Keeps s (s.ensureAwake deviceId .other) := by
  rw [ensureAwake]
  split
  · exact Keeps.refl s
  · split_ifs
    · exact Keeps.refl s
    · exact await_keeps s (.wake .observing .other) trivial
    · exact wake_keeps s trivial fun _ ↦ trivial

theorem releaseAwake_keeps (reconciling : Bool) : Keeps s (s.releaseAwake deviceId reconciling) := by
  rw [releaseAwake]
  have hsame : Keeps s { s with keepAwakeApplied := s.keepAwakeApplied.erase deviceId } :=
    .of_eq rfl rfl
  by_cases hblocking : s.workHolds deviceId > 0
  · rw [if_pos hblocking]
    exact Keeps.refl s
  · rw [if_neg hblocking]
    dsimp only
    split_ifs
    · exact hsame.trans (await_keeps _ (.sleep .connecting reconciling) trivial)
    · exact hsame

theorem releaseDesiredHot_keeps : Keeps s (s.releaseDesiredHot deviceId) := by
  rw [releaseDesiredHot]
  split
  · exact Keeps.refl s
  · exact .of_eq rfl rfl

theorem reconcile_keeps : Keeps s (s.reconcile deviceId) := by
  have hrelease := releaseDesiredHot_keeps s deviceId
  rw [reconcile]
  split
  · exact Keeps.refl s
  next row _ =>
    by_cases hremote : row.remote
    · rw [if_pos hremote]
      exact Keeps.refl s
    · rw [if_neg hremote]
      split
      · exact hrelease.trans (.of_eq rfl rfl)
      · exact hrelease
      · split_ifs
        · exact Keeps.refl s
        · exact await_keeps s (.acquire) trivial
        · exact ensureAwake_other_keeps s deviceId
      · exact hrelease.trans (ensureAwake_other_keeps _ deviceId)
      · exact hrelease.trans (releaseAwake_keeps _ deviceId true)

theorem set_keeps (desired : Readiness) (inUse : Bool) : Keeps s (s.set deviceId desired inUse) := by
  rw [set]
  split
  · exact Keeps.refl s
  next row _ =>
    have hsame : Keeps s { s with rows := OrdMap.set deviceId { row with desired := desired } s.rows } :=
      .of_eq rfl rfl
    split_ifs
    · exact Keeps.refl s
    · exact Keeps.refl s
    · exact Keeps.refl s
    · exact hsame.trans (reconcile_keeps _ deviceId)

theorem release_keeps (h : Hold) : Keeps s (s.release h) := by
  have herase : Keeps s { s with
      holdCounts := countDown h.deviceId s.holdCounts
      holdReasons := dropReason h.deviceId h.reason s.holdReasons
      granted := s.granted.erase h } :=
    ⟨id, fun hs h' hmem ↦ hs h' (List.mem_of_mem_erase hmem)⟩
  rw [release]
  split_ifs
  · exact herase.trans (reconcile_keeps _ h.deviceId)
  · exact herase

end

theorem paid_woken (hpaid : h.Paid) (deviceId : String) : (Hold.woken deviceId h).Paid := by
  rw [Hold.woken]
  split_ifs
  · exact fun _ ↦ rfl
  · exact hpaid

@[simp] theorem woken_deviceId (deviceId : String) (h : Hold) :
    (Hold.woken deviceId h).deviceId = h.deviceId := by
  rw [Hold.woken]
  split_ifs <;> rfl

theorem work_woken {d : String} (hfits : work.Fits d) (deviceId : String) :
    (Work.woken deviceId work).Fits d := by
  cases work with
  | wake phase caller =>
    cases caller with
    | hold h =>
      refine ⟨(woken_deviceId deviceId h).trans hfits.1, ?_⟩
      exact hfits.2.imp_left fun hpaid ↦ paid_woken hpaid deviceId
    | other => trivial
  | acquire => trivial
  | sleep phase reconciling => trivial

theorem woken_keeps (s : ReadinessManager) (deviceId : String) : Keeps s (s.woken deviceId) := by
  refine ⟨fun hs t hmem ↦ ?_, fun hs h hmem ↦ ?_⟩
  · obtain ⟨t', hmem', rfl⟩ := List.mem_map.mp hmem
    exact work_woken (hs t' hmem') deviceId
  · obtain ⟨h', hmem', rfl⟩ := List.mem_map.mp hmem
    exact paid_woken (hs h' hmem') deviceId

/-- The hold whose wake sequence has run is paid. -/
theorem fits_woken (hfits : (Work.wake .waking caller).Fits deviceId) :
    (Work.wake .disconnecting (Caller.woken deviceId caller)).Fits deviceId := by
  cases caller with
  | other => trivial
  | hold h =>
    refine ⟨(woken_deviceId deviceId h).trans hfits.1, .inl ?_⟩
    rw [Hold.woken, if_pos hfits.1]
    exact fun _ ↦ rfl

/-- A hold behind its wake sequence, or before it with nothing owed. -/
theorem paid_of_fits {phase : WakePhase} (hfits : (Work.wake phase caller).Fits deviceId)
    (hphase : phase = .observing ∨ phase = .disconnecting) : caller.Paid := by
  cases caller with
  | other => trivial
  | hold h =>
    refine hfits.2.resolve_right ?_
    rcases hphase with rfl | rfl
    · simp
    · simp

theorem resume_keeps (s : ReadinessManager) (hfits : task.work.Fits task.deviceId) (ok : Bool) :
    Keeps s (s.resume task ok) := by
  obtain ⟨id, deviceId, work⟩ := task
  cases work with
  | wake phase caller =>
    cases phase with
    | observing =>
      have hpaid := paid_of_fits hfits (.inl rfl)
      simp only [resume]
      split_ifs
      · refine wake_keeps s ?_ fun _ ↦ hpaid
        cases caller with
        | hold h => exact ⟨hfits.1, .inl hpaid⟩
        | other => trivial
      · exact finish_keeps s hpaid
    | connecting =>
      simp only [resume]
      split_ifs
      · refine await_keeps s _ ?_
        cases caller with
        | hold h => exact ⟨hfits.1, .inr (.inr rfl)⟩
        | other => trivial
      · exact Keeps.refl s
    | waking => exact (woken_keeps s deviceId).trans (await_keeps _ _ (fits_woken hfits))
    | disconnecting =>
      have hsame : Keeps s { s with
          keepAwakeApplied := s.keepAwakeApplied.insert deviceId
          forcedAsleep := s.forcedAsleep.erase deviceId } := .of_eq rfl rfl
      exact hsame.trans (finish_keeps _ (paid_of_fits hfits (.inr rfl)))
  | acquire =>
    simp only [resume]
    split_ifs
    · exact .of_eq rfl rfl
    · exact ensureAwake_other_keeps s deviceId
  | sleep phase reconciling =>
    cases phase with
    | connecting =>
      simp only [resume]
      split_ifs
      · exact await_keeps s (.sleep .pressing reconciling) trivial
      · exact Keeps.refl s
    | pressing =>
      have hsame : Keeps s { s with dark := s.dark.insert deviceId } := .of_eq rfl rfl
      exact hsame.trans (await_keeps _ (.sleep .disconnecting reconciling) trivial)
    | disconnecting =>
      simp only [resume]
      split_ifs
      · exact .of_eq rfl rfl
      · exact Keeps.refl s

/-! ## When a work hold finds the device woken -/

@[simp] theorem holdCount_countHold (s : ReadinessManager) (deviceId : String) (reason : HoldReason) :
    (s.countHold deviceId reason).holdCount deviceId = s.holdCount deviceId + 1 := by
  simp [holdCount, countHold]

/-- The hold a call asks for. -/
def asked (s : ReadinessManager) (deviceId : String) (reason : HoldReason) : Hold :=
  ⟨s.nextId, deviceId, reason, s.Slept deviceId⟩

theorem ensureAwake_keeps (s : ReadinessManager) (hdevice : h.deviceId = deviceId) (hpaid : h.Paid) :
    Keeps s (s.ensureAwake deviceId (.hold h)) := by
  have hfinish : Keeps s (s.finish (.hold h)) := finish_keeps s (show (Caller.hold h).Paid from hpaid)
  rw [ensureAwake]
  split
  · exact hfinish
  · split_ifs
    · exact hfinish
    · exact await_keeps s _ ⟨hdevice, .inl hpaid⟩
    · exact wake_keeps s ⟨hdevice, .inl hpaid⟩ fun _ ↦ hpaid

/-- A hold that needs no wake. -/
theorem hold_keeps (s : ReadinessManager) (hpaid : (s.asked deviceId reason).Paid) :
    Keeps s (s.hold deviceId reason) := by
  have hcount : Keeps s (s.countHold deviceId reason) := .of_eq rfl rfl
  rw [hold]
  split_ifs
  · exact hcount.trans (ensureAwake_keeps (h := s.asked deviceId reason) _ rfl hpaid)
  · exact hcount.trans (finish_keeps _ (show (Caller.hold (s.asked deviceId reason)).Paid from hpaid))

/-- A device that was put to sleep is not asked whether it is awake. -/
theorem ensureAwake_forced (hforced : deviceId ∈ s.forcedAsleep) :
    s.ensureAwake deviceId caller =
      if s.client ∧ (OrdMap.get? deviceId s.rows).any fun row ↦ ¬ row.remote ∧ row.status = .online then
        s.await deviceId (.wake .connecting caller)
      else s.finish caller := by
  rw [ensureAwake]
  cases OrdMap.get? deviceId s.rows with
  | none => simp
  | some row =>
    simp only [wake, hforced, not_true_eq_false, false_and, if_false, Option.any_some, decide_eq_true_eq]
    by_cases hrow : row.remote ∨ row.status ≠ .online
    · have hneg : ¬ (¬ row.remote ∧ row.status = .online) := by
        rintro ⟨hlocal, honline⟩
        exact hrow.elim hlocal (absurd honline)
      rw [if_pos hrow, if_neg fun hand ↦ hneg hand.2]
    · rw [if_neg hrow]
      rw [not_or, not_ne_iff] at hrow
      by_cases hclient : s.client
      · rw [if_pos hclient, if_pos ⟨hclient, hrow⟩]
      · rw [if_neg hclient, if_neg fun hand ↦ hclient hand.1]

/-- A hold that needs one gets it if it is the first and the device can be woken. -/
theorem hold_of_owed (hreason : reason.isSleepRespecting = false) (hslept : s.Slept deviceId) :
    s.hold deviceId reason =
      if s.holdCount deviceId = 0 ∧ s.client ∧
          (OrdMap.get? deviceId s.rows).any fun row ↦ ¬ row.remote ∧ row.status = .online then
        (s.countHold deviceId reason).await deviceId
          (.wake .connecting (.hold (s.asked deviceId reason)))
      else (s.countHold deviceId reason).finish (.hold (s.asked deviceId reason)) := by
  have hforced : deviceId ∈ (s.countHold deviceId reason).forcedAsleep := hslept.2.1
  rw [hold]
  simp only [holdCount_countHold, hreason, Nat.add_eq_right, Bool.false_eq_true,
    false_and, not_false_eq_true, and_true, ensureAwake_forced hforced]
  by_cases hcount : s.holdCount deviceId = 0
  · simp only [hcount, true_and, if_true]
    rfl
  · simp only [hcount, false_and, if_false]
    rfl

theorem asked_paid_iff :
    (s.asked deviceId reason).Paid ↔ (reason.isSleepRespecting = false → ¬ s.Slept deviceId) := by
  simp [Hold.Paid, asked]

theorem TasksFit.hold (hk : TasksFit s) (deviceId : String) (reason : HoldReason) :
    TasksFit (s.hold deviceId reason) := by
  by_cases hpaid : (s.asked deviceId reason).Paid
  · exact (hold_keeps s hpaid).tasks hk
  · rw [asked_paid_iff, Classical.not_imp, not_not] at hpaid
    rw [hold_of_owed hpaid.1 hpaid.2]
    have hfits : (Work.wake .connecting (.hold (s.asked deviceId reason))).Fits deviceId :=
      ⟨rfl, .inr (.inl rfl)⟩
    split_ifs
    · exact (await_keeps _ _ hfits).tasks hk
    · exact hk

theorem wokenForWork_hold_iff (hs : WokenForWork s) (deviceId : String) (reason : HoldReason) :
    WokenForWork (s.hold deviceId reason) ↔ FirstOnSleeping s (.hold deviceId reason) := by
  by_cases hpaid : (s.asked deviceId reason).Paid
  · refine iff_of_true ((hold_keeps s hpaid).granted hs) fun hreason hslept ↦ ?_
    exact absurd hslept (asked_paid_iff.mp hpaid hreason)
  · have howed := hpaid
    rw [asked_paid_iff, Classical.not_imp, not_not] at howed
    rw [hold_of_owed howed.1 howed.2]
    split_ifs with hfirst
    · exact iff_of_true hs fun _ _ ↦ hfirst
    · refine iff_of_false (fun hwoken ↦ hpaid (hwoken _ ?_)) fun h ↦ hfirst (h howed.1 howed.2)
      exact List.mem_append_right _ (List.mem_singleton.mpr rfl)

theorem TasksFit.leave (hk : TasksFit s) (task : Task) : TasksFit (s.leave task) :=
  fun t hmem ↦ hk t (List.mem_of_mem_erase hmem)

/-- An event other than a `hold` keeps both. -/
theorem step_keeps (hk : TasksFit s) (he : Steps.By step s e t)
    (hne : ∀ deviceId reason, e ≠ .hold deviceId reason) :
    TasksFit t ∧ (WokenForWork s → WokenForWork t) := by
  have hboth {t : ReadinessManager} (h : Keeps s t) : TasksFit t ∧ (WokenForWork s → WokenForWork t) :=
    ⟨h.tasks hk, h.granted⟩
  cases e with
  | hold deviceId reason => exact absurd rfl (hne deviceId reason)
  | release id =>
    rw [Steps.By, step] at he
    split at he
    · cases he
      exact ⟨hk, fun hs ↦ hs⟩
    · cases he
      exact hboth (release_keeps s _)
  | set deviceId desired inUse =>
    cases he
    exact hboth (set_keeps s deviceId desired inUse)
  | reconcile deviceId =>
    cases he
    exact hboth (reconcile_keeps s deviceId)
  | resume id ok =>
    obtain ⟨task, htask, rfl⟩ := Option.map_eq_some_iff.mp he
    have hfits := hk task (List.mem_of_find?_eq_some htask)
    have hkeeps := resume_keeps (s.leave task) hfits ok
    exact ⟨hkeeps.tasks (hk.leave task), hkeeps.granted⟩
  | releaseAll | session deviceId opened | subsystems client sessions | configure maxHot =>
    cases he
    exact hboth (.of_eq rfl rfl)
  | releaseNext =>
    cases he
    rw [releaseNext]
    split
    · exact ⟨hk, id⟩
    next deviceId rest _ =>
      have hsame : Keeps s { s with
          releaseQueue := rest
          holdCounts := OrdMap.erase deviceId s.holdCounts
          holdReasons := OrdMap.erase deviceId s.holdReasons } := .of_eq rfl rfl
      exact hboth (hsame.trans (releaseAwake_keeps _ deviceId false))
  | status deviceId status =>
    obtain ⟨row, _, rfl⟩ := Option.map_eq_some_iff.mp he
    exact hboth (.of_eq rfl rfl)

theorem TasksFit.step (hk : TasksFit s) (he : Steps.By step s e t) : TasksFit t := by
  by_cases hhold : ∃ deviceId reason, e = .hold deviceId reason
  · obtain ⟨deviceId, reason, rfl⟩ := hhold
    cases he
    exact hk.hold deviceId reason
  · exact (step_keeps hk he fun deviceId reason heq ↦ hhold ⟨deviceId, reason, heq⟩).1

theorem wokenForWork_step_iff (hk : TasksFit s) (hs : WokenForWork s) (he : Steps.By step s e t) :
    WokenForWork t ↔ FirstOnSleeping s e := by
  by_cases hhold : ∃ deviceId reason, e = .hold deviceId reason
  · obtain ⟨deviceId, reason, rfl⟩ := hhold
    cases he
    exact wokenForWork_hold_iff hs deviceId reason
  · refine iff_of_true ((step_keeps hk he fun deviceId reason heq ↦ hhold ⟨deviceId, reason, heq⟩).2 hs) ?_
    cases e with
    | hold deviceId reason => exact absurd ⟨deviceId, reason, rfl⟩ hhold
    | _ => trivial

end ReadinessManager

end Enkaku.Device
