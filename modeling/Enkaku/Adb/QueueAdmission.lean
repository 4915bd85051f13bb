import Enkaku.Adb.DeviceQueue
import Enkaku.Adb.SemaphoreCap

/-!
# What the semaphore knows of a task

A task asks the semaphore once, when it passes the gate, and gives its slot back when its body has
settled: the sleepers are the tasks that wait for it, and the holders those between its answer and
the end of their body (`Admitted.step`).  `inFlight` counts the bodies that execute.
-/

set_option autoImplicit false

namespace Enkaku.Adb

open DeviceQueue Semaphore Stage

/-- Replacing one element of a list changes a count by what the two elements count. -/
theorem countP_set_add {α : Type*} (p : α → Bool) {l : List α} {i : Nat} {a : α}
    (h : l[i]? = some a) (b : α) :
    (l.set i b).countP p + (if p a then 1 else 0) = l.countP p + if p b then 1 else 0 := by
  obtain ⟨hi, rfl⟩ := List.getElem?_eq_some_iff.mp h
  rw [List.countP_set hi]
  have hpos : p l[i] = true → 1 ≤ l.countP p := fun hp ↦
    List.one_le_countP_iff.mpr ⟨_, List.getElem_mem hi, hp⟩
  by_cases ha : p l[i] = true
  · have hle := hpos ha
    simp only [ha, if_true]
    omega
  · simp [ha]

/-- Where a task stands with the semaphore. -/
inductive Standing
  | before | waiting | holding | after
  deriving DecidableEq, Repr

def Stage.standing : Stage → Standing
  | .queued | .gated _ => .before
  | .acquiring => .waiting
  | .granted | .running => .holding
  | .settled | .left => .after

namespace DeviceQueue

variable {s s' : DeviceQueue} {e : Event} {t j : Nat} {a b : Task} {serial : String}
  {opts : QueueRunOptions} {c : Standing}

/-- The task stands there with the semaphore. -/
def StandsAt (s : DeviceQueue) (t : Nat) (c : Standing) : Prop :=
  ∃ a, s.tasks[t]? = some a ∧ a.stage.standing = c

theorem standsAt_unique {c c' : Standing} (h : s.StandsAt t c) (h' : s.StandsAt t c') : c = c' := by
  obtain ⟨a, ha, rfl⟩ := h
  obtain ⟨b, hb, rfl⟩ := h'
  rw [Option.some.inj (ha.symm.trans hb)]

theorem standsAt_set (hget : s.tasks[t]? = some a) (htasks : s'.tasks = s.tasks.set t b) :
    s'.StandsAt j c ↔ if t = j then b.stage.standing = c else s.StandsAt j c := by
  have hlt : t < s.tasks.length := (List.getElem?_eq_some_iff.mp hget).1
  rw [StandsAt, StandsAt, htasks, List.getElem?_set]
  by_cases hj : t = j
  · simp [hj, hj ▸ hlt]
  · simp [hj]

structure Admitted (s : DeviceQueue) : Prop where
  sem : s.sem.Kept
  waiting : ∀ t, t ∈ s.sem.woken ++ s.sem.waiters ↔ s.StandsAt t .waiting
  holding : ∀ t, OrdMap.get? t s.sem.releasers = some false ↔ s.StandsAt t .holding
  after : ∀ t, OrdMap.get? t s.sem.releasers = some true → s.StandsAt t .after
  inFlight : s.inFlight = s.tasks.countP (·.stage == .running)

theorem admitted_new {max : Nat} {sem : Semaphore} (h : Semaphore.new max = some sem) :
    Admitted (new sem) := by
  have hkept := kept_of_new h
  rw [Semaphore.new] at h
  obtain ⟨-, ⟨⟩⟩ := Option.ite_none_left_eq_some.mp h
  exact ⟨hkept, by simp [new, StandsAt], by simp [new, StandsAt], by simp [new], by simp [new]⟩

section

variable (h : Admitted s)
include h

/-- A task before the semaphore has not asked it. -/
theorem Admitted.not_used (ht : s.StandsAt t .before) : ¬ s.sem.Used t := by
  rintro (hget | hmem | hmem)
  · cases hflag : OrdMap.get? t s.sem.releasers with
    | none => exact hget hflag
    | some flag =>
      cases flag with
      | false => simpa using standsAt_unique ht ((h.holding t).mp hflag)
      | true => simpa using standsAt_unique ht (h.after t hflag)
  · simpa using standsAt_unique ht ((h.waiting t).mp (List.mem_append_right _ hmem))
  · simpa using standsAt_unique ht ((h.waiting t).mp (List.mem_append_left _ hmem))

/-- The semaphore's queue and its releasers stay as they are. -/
theorem Admitted.congr (hsem : s'.sem.Kept)
    (hqueue : s'.sem.woken ++ s'.sem.waiters = s.sem.woken ++ s.sem.waiters)
    (hreleasers : s'.sem.releasers = s.sem.releasers)
    (hstands : ∀ t c, c ≠ .before → (s.StandsAt t c → s'.StandsAt t c) ∧
      (s'.StandsAt t c → s.StandsAt t c ∨ c = .after))
    (hin : s'.inFlight = s'.tasks.countP (·.stage == .running)) : Admitted s' := by
  have hiff : ∀ t c, c ≠ .before → c ≠ .after → (s.StandsAt t c ↔ s'.StandsAt t c) :=
    fun t c hb ha ↦ ⟨(hstands t c hb).1, fun h' ↦ ((hstands t c hb).2 h').resolve_right ha⟩
  refine ⟨hsem, fun t ↦ ?_, fun t ↦ ?_, fun t ht ↦ ?_, hin⟩
  · rw [hqueue, h.waiting, hiff t _ (by simp) (by simp)]
  · rw [hreleasers, h.holding, hiff t _ (by simp) (by simp)]
  · exact (hstands t _ (by simp)).1 (h.after t (by rwa [hreleasers] at ht))

/-- The tasks that have been there stand where they stood. -/
theorem Admitted.of_tasks_eq (hsem : s'.sem.Kept)
    (hqueue : s'.sem.woken ++ s'.sem.waiters = s.sem.woken ++ s.sem.waiters)
    (hreleasers : s'.sem.releasers = s.sem.releasers) (htasks : s'.tasks = s.tasks)
    (hin : s'.inFlight = s.inFlight) : Admitted s' :=
  h.congr hsem hqueue hreleasers
    (fun t c _ ↦ by rw [StandsAt, StandsAt, htasks]; exact ⟨id, .inl⟩)
    (by rw [hin, htasks, h.inFlight])

/-- A task is moved on without the semaphore. -/
theorem Admitted.move (hget : s.tasks[t]? = some a) (hsem : s'.sem = s.sem)
    (htasks : s'.tasks = s.tasks.set t b)
    (hstand : b.stage.standing = a.stage.standing ∨
      a.stage.standing = .before ∧ b.stage.standing = .after)
    (hin : s'.inFlight + (if a.stage == .running then 1 else 0) =
      s.inFlight + if b.stage == .running then 1 else 0) : Admitted s' := by
  refine h.congr (hsem ▸ h.sem) (by rw [hsem]) (by rw [hsem]) (fun j c hc ↦ ?_) ?_
  · rw [standsAt_set hget htasks]
    split_ifs with hj
    · subst hj
      have hat : s.StandsAt t c ↔ a.stage.standing = c := by simp [StandsAt, hget]
      rw [hat]
      rcases hstand with hsame | ⟨hbefore, hafter⟩
      · rw [hsame]
        exact ⟨id, .inl⟩
      · rw [hbefore, hafter]
        exact ⟨fun heq ↦ absurd heq.symm hc, fun heq ↦ .inr heq.symm⟩
    · exact ⟨id, .inl⟩
  · have hcount := countP_set_add (fun x : Task ↦ x.stage == .running) hget b
    rw [htasks]
    have hs := h.inFlight
    omega

/-- A task is moved on by the semaphore, in whose queue it stands if it waits, and whose releaser it
has from the moment it holds a slot. -/
theorem Admitted.moveTo (flag : Option Bool) (hget : s.tasks[t]? = some a)
    (hsem : s'.sem.Kept) (htasks : s'.tasks = s.tasks.set t b)
    (hqueue : ∀ j, j ∈ s'.sem.woken ++ s'.sem.waiters ↔
      if t = j then b.stage.standing = .waiting else j ∈ s.sem.woken ++ s.sem.waiters)
    (hflag : ∀ j, OrdMap.get? j s'.sem.releasers =
      if t = j then flag else OrdMap.get? j s.sem.releasers)
    (hholding : flag = some false ↔ b.stage.standing = .holding)
    (hafter : flag = some true → b.stage.standing = .after)
    (hin : s'.inFlight + (if a.stage == .running then 1 else 0) =
      s.inFlight + if b.stage == .running then 1 else 0) : Admitted s' := by
  refine ⟨hsem, fun j ↦ ?_, fun j ↦ ?_, fun j hj ↦ ?_, ?_⟩
  · rw [hqueue, standsAt_set hget htasks]
    split_ifs
    · exact Iff.rfl
    · exact h.waiting j
  · rw [hflag, standsAt_set hget htasks]
    split_ifs
    · exact hholding
    · exact h.holding j
  · rw [hflag] at hj
    rw [standsAt_set hget htasks]
    split_ifs at hj ⊢
    · exact hafter hj
    · exact h.after j hj
  · have hcount := countP_set_add (fun x : Task ↦ x.stage == .running) hget b
    rw [htasks]
    have hs := h.inFlight
    omega

theorem Admitted.accept (serial : String) (opts : QueueRunOptions) :
    Admitted (s.accept serial opts) := by
  refine h.congr h.sem (by simp [DeviceQueue.accept]) (by simp [DeviceQueue.accept])
    (fun j c hc ↦ ?_) ?_
  · have hgets : (s.accept serial opts).tasks[j]? = s.tasks[j]? ∨
        s.tasks[j]? = none ∧ (s.accept serial opts).tasks[j]? = some (s.newTask serial opts) := by
      rw [DeviceQueue.accept]
      rcases Nat.lt_trichotomy j s.tasks.length with hj | rfl | hj
      · exact .inl (List.getElem?_append_left hj)
      · exact .inr (by simp)
      · left
        rw [List.getElem?_eq_none (by simp; omega), List.getElem?_eq_none (by omega)]
    rcases hgets with heq | ⟨hnone, hnew⟩
    · rw [StandsAt, StandsAt, heq]
      exact ⟨id, .inl⟩
    · rw [StandsAt, StandsAt, hnone, hnew]
      refine ⟨by simp, fun hat ↦ absurd ?_ hc⟩
      simpa [newTask, standing, eq_comm] using hat
  · simp [DeviceQueue.accept, newTask, h.inFlight]

theorem Admitted.giveUp {r : Refusal} (hget : s.tasks[t]? = some a) : Admitted (s.giveUp t a r) := by
  rw [DeviceQueue.giveUp]
  split_ifs
  · exact h
  · exact h.move hget (b := { a with gaveUpWith := some r }) (by simp) (by simp) (.inl (by simp))
      (by simp)

theorem Admitted.run (serial : String) (opts : QueueRunOptions) : Admitted (s.run serial opts) := by
  rw [DeviceQueue.run]
  split_ifs
  · exact h.of_tasks_eq h.sem (by simp) (by simp) (by simp) (by simp)
  · exact (h.accept serial opts).giveUp (by simp [DeviceQueue.accept])
  · exact h.accept serial opts

theorem Admitted.gatePassed (ht : s.gatePassed t = some s') : Admitted s' := by
  rw [DeviceQueue.gatePassed] at ht
  split at ht
  next a hget =>
    split at ht
    next gate hstage =>
      split_ifs at ht
      have hbefore : s.StandsAt t .before := ⟨a, hget, by simp [hstage, standing]⟩
      split at ht
      next r hgave =>
        cases ht
        exact h.move hget (b := { a with stage := .settled, watching := false }) (by simp) (by simp)
          (.inr (by simp [hstage, standing])) (by simp [hstage])
      next hgave =>
        cases ht
        have hused := h.not_used hbefore
        have hsem := h.sem.acquire hused
        have hnone := get?_eq_none_of_not_used hused
        have hout : t ∉ s.sem.woken ++ s.sem.waiters := by
          rwa [← used_iff_of_get?_eq_none hnone]
        rcases acquire_cases hused with ⟨hmem, hqueue, hrel⟩ | ⟨hmem, hqueue, hrel⟩
        · refine h.moveTo (some false) hget
            (b := { a with stage := .granted, started := true, watching := false })
            hsem (by simp [hmem]) (fun j ↦ ?_) (fun j ↦ ?_)
            (by simp [standing]) (by simp) (by simp [hstage])
          · rw [hqueue]
            by_cases hj : t = j
            · subst hj
              simpa [standing] using hout
            · simp [hj]
          · rw [hrel, OrdMap.get?_set]
        · refine h.moveTo none hget
            (b := { a with stage := .acquiring, started := true, watching := false })
            hsem (by simp [hmem]) (fun j ↦ ?_) (fun j ↦ ?_)
            (by simp [standing]) (by simp) (by simp [hstage])
          · rw [hqueue]
            by_cases hj : t = j
            · simp [hj, standing]
            · simp [hj, Ne.symm hj]
          · rw [hrel]
            by_cases hj : t = j
            · simp [← hj, hnone]
            · simp [hj]
    · simp at ht
  · simp at ht

/-- The task the semaphore woke first waits for it. -/
theorem Admitted.stage_of_woken {ws : List Nat} (hw : s.sem.woken = t :: ws)
    (hget : s.tasks[t]? = some a) : a.stage = .acquiring := by
  obtain ⟨b, hb, hstand⟩ := (h.waiting t).mp (by simp [hw])
  cases hget.symm.trans hb
  cases hstage : a.stage <;> simp [hstage, standing] at hstand ⊢

theorem Admitted.grant (ht : s.grant = some s') : Admitted s' := by
  rw [DeviceQueue.grant] at ht
  split at ht
  next t ws sem hwoken hsem =>
    obtain ⟨a, hget, rfl⟩ := Option.map_eq_some_iff.mp ht
    have hstage := h.stage_of_woken hwoken hget
    have hkept := h.sem.continuation hsem
    rw [continuation, hwoken] at hsem
    cases hsem
    have hnodup := h.sem.nodup
    rw [hwoken, List.cons_append, List.nodup_cons] at hnodup
    refine h.moveTo (some false) hget (b := { a with stage := .granted }) hkept (by simp)
      (fun j ↦ ?_) (fun j ↦ ?_) (by simp [standing]) (by simp) (by simp [hstage])
    · by_cases hj : t = j
      · subst hj
        simpa [Semaphore.grant, Stage.standing] using hnodup.1
      · simp [Semaphore.grant, hwoken, hj, Ne.symm hj]
    · rw [Semaphore.grant, OrdMap.get?_set]
  · simp at ht

theorem Admitted.begin (ht : s.begin t = some s') : Admitted s' := by
  rw [DeviceQueue.begin] at ht
  split at ht
  next a hget =>
    split_ifs at ht with hstage
    cases ht
    exact h.move hget (b := { a with stage := .running }) (by simp) (by simp)
      (.inl (by simp [hstage, standing])) (by simp [hstage])
  · simp at ht

end

theorem answerIdle_sem (s : DeviceQueue) : s.answerIdle.sem = s.sem := by
  rw [answerIdle]
  split_ifs <;> simp

theorem answerIdle_tasks (s : DeviceQueue) : s.answerIdle.tasks = s.tasks := by
  rw [answerIdle]
  split_ifs <;> simp

theorem answerIdle_inFlight (s : DeviceQueue) : s.answerIdle.inFlight = s.inFlight := by
  rw [answerIdle]
  split_ifs <;> simp

/-- A body that executes is counted. -/
theorem Admitted.inFlight_pos (h : Admitted s) (hget : s.tasks[t]? = some a)
    (hstage : a.stage = .running) : 1 ≤ s.inFlight := by
  rw [h.inFlight, List.one_le_countP_iff]
  exact ⟨a, List.mem_of_getElem? hget, by simp [hstage]⟩

theorem Admitted.complete {ok : Bool} (h : Admitted s) (ht : s.complete t ok = some s') :
    Admitted s' := by
  rw [DeviceQueue.complete] at ht
  split at ht
  next a hget =>
    split_ifs at ht with hstage
    cases ht
    have hheld := (h.holding t).mpr ⟨a, hget, by simp [hstage, standing]⟩
    have hpos := h.inFlight_pos hget hstage
    refine h.moveTo (some true) hget (b := { a with stage := .settled }) ?_
      (by simp [answerIdle_tasks]) (fun j ↦ ?_) (fun j ↦ ?_) (by simp [standing])
      (by simp [standing]) ?_
    · simpa [answerIdle_sem] using h.sem.release
    · dsimp only
      rw [answerIdle_sem, queue_release]
      by_cases hj : t = j
      · subst hj
        have hnone : t ∉ s.sem.woken ++ s.sem.waiters := fun hmem ↦ by
          simpa [hheld] using h.sem.fresh t hmem
        simpa [standing] using hnone
      · simp [hj]
    · dsimp only
      rw [answerIdle_sem, releasers_release hheld, OrdMap.get?_set]
    · simp [answerIdle_inFlight, hstage]
      omega
  · simp at ht

theorem Admitted.leave (h : Admitted s) (ht : s.leave t = some s') : Admitted s' := by
  rw [DeviceQueue.leave] at ht
  split at ht
  next a hget =>
    split_ifs at ht with hstage
    obtain ⟨entry, -, rfl⟩ := Option.map_eq_some_iff.mp ht
    exact h.move hget (b := { a with stage := .left }) (by simp) (by simp)
      (.inl (by simp [hstage, standing])) (by simp [hstage])
  · simp at ht

theorem Admitted.turn (h : Admitted s) (ht : s.turn t = some s') : Admitted s' := by
  rw [DeviceQueue.turn] at ht
  split at ht
  next a hget =>
    split_ifs at ht with hturn
    cases ht
    exact h.move hget (b := { a with stage := .gated s.gate }) (by simp) (by simp)
      (.inl (by simp [hturn.1, standing])) (by simp [hturn.1])
  · simp at ht

/-- **Every step keeps what the semaphore knows.** -/
theorem Admitted.step (h : Admitted s) (ht : s.step e = some s') : Admitted s' := by
  cases e with
  | run serial opts =>
    cases ht
    exact h.run serial opts
  | timeout t =>
    rw [DeviceQueue.step, timeout] at ht
    split at ht
    next a hget =>
      split_ifs at ht
      cases ht
      exact h.giveUp hget
    · simp at ht
  | abort t =>
    rw [DeviceQueue.step, abort] at ht
    split at ht
    next a hget =>
      split_ifs at ht
      cases ht
      exact h.giveUp hget
    · simp at ht
  | turn t => exact h.turn ht
  | gatePassed t => exact h.gatePassed ht
  | grant => exact h.grant ht
  | begin t => exact h.begin ht
  | complete t ok => exact h.complete ht
  | leave t => exact h.leave ht
  | pause =>
    cases ht
    rw [pause]
    split_ifs
    · exact h
    · exact h.of_tasks_eq h.sem (by simp) (by simp) (by simp) (by simp)
  | resume =>
    cases ht
    exact h.of_tasks_eq h.sem (by simp [resume]) (by simp [resume]) (by simp [resume])
      (by simp [resume])
  | waitIdle =>
    cases ht
    by_cases hidle : s.inFlight = 0
    · rw [waitIdle, if_pos hidle]
      exact h.of_tasks_eq h.sem (by simp) (by simp) (by simp) (by simp)
    · rw [waitIdle, if_neg hidle]
      exact h.of_tasks_eq h.sem (by simp) (by simp) (by simp) (by simp)
  | idleTimeout i =>
    obtain ⟨w, -, rfl⟩ := Option.map_eq_some_iff.mp ht
    exact h.of_tasks_eq h.sem (by simp) (by simp) (by simp) (by simp)
  | resize max =>
    cases ht
    exact h.of_tasks_eq (h.sem.resize max) (queue_resize _ _)
      (releasers_resize _ _) (by simp) (by simp)

/-- **The queue and its semaphore agree** in every run: it keeps its slots for the tasks that run. -/
theorem queue_admitted {max : Nat} {sem : Semaphore} {es : List Event} {s : DeviceQueue}
    (h0 : Semaphore.new max = some sem) (h : Steps (Steps.By step) (new sem) es s) : Admitted s :=
  h.invariant (admitted_new h0) fun _ _ _ hs ht ↦ hs.step ht

theorem queue_admitted_running : ∃ s, s.inFlight = 1 ∧ Admitted s := by
  have h : Steps (Steps.By step) (new ⟨1, 0, [], [], [], []⟩)
    [.run "a" {}, .turn 0, .gatePassed 0, .begin 0] _ := Steps.steps_by_iff.mpr rfl
  exact ⟨_, rfl, @queue_admitted 1 _ _ _ rfl h⟩

end DeviceQueue

end Enkaku.Adb
