import Enkaku.Adb.QueueFifo

/-!
# When a paused queue that reports idle is idle

`waitIdle` answers true when no body executes.  A task that has passed the gate and waits for the
semaphore is not counted, so it starts behind the answer; and so does one whose gate was opened by a
`resume` and whose continuation had not run when the next `pause` came.  No task starts in the pause
exactly if nobody was on its way from the gate to its body when a `waitIdle` answered (`idle_iff`).
-/

set_option autoImplicit false

namespace Enkaku.Adb.DeviceQueue

open List

variable {s s' u : DeviceQueue} {e : Event} {es ks : List Event} {t : Nat} {a b : Task}
  {serial : String} {opts : QueueRunOptions}

/-- The task is past the gate and its body has not been called. -/
def onItsWay (s : DeviceQueue) (a : Task) : Bool :=
  match a.stage with
  | .gated gate => s.isOpen gate && a.gaveUpWith.isNone
  | .acquiring | .granted => true
  | _ => false

/-- No task is on its way to its body. -/
def Clear (s : DeviceQueue) : Prop := ∀ a ∈ s.tasks, s.onItsWay a = false

/-- **What a pause promises**: once a `waitIdle` that was called in it has answered true, no body
executes. -/
def Idle (s : DeviceQueue) : Prop := s.drained = true → ∀ a ∈ s.tasks, a.stage ≠ .running

instance (s : DeviceQueue) : Decidable s.Idle :=
  inferInstanceAs (Decidable (_ → ∀ a ∈ s.tasks, _))

/-- The condition on a step: where it answers true a `waitIdle` that was called in this pause, no
task is on its way to its body. -/
def Undisturbed (s : DeviceQueue) : Event → Prop
  | .waitIdle => s.openGate = true → s.inFlight = 0 → s.Clear
  | .complete .. => s.inFlight = 1 → s.idleWaiters.any s.isDue = true → s.Clear
  | _ => True

instance (s : DeviceQueue) : Decidable s.Clear := inferInstanceAs (Decidable (∀ a ∈ s.tasks, _))

instance (s : DeviceQueue) : DecidablePred s.Undisturbed
  | .waitIdle => inferInstanceAs (Decidable (_ → _ → _))
  | .complete .. => inferInstanceAs (Decidable (_ → _ → _))
  | .run .. | .timeout _ | .abort _ | .turn _ | .gatePassed _ | .grant | .begin _ | .leave _
  | .pause | .resume | .idleTimeout _ | .resize _ => inferInstanceAs (Decidable True)

/-- Once a `waitIdle` has answered, nothing executes and nothing is on its way. -/
def Still (s : DeviceQueue) : Prop := s.drained = true → s.inFlight = 0 ∧ s.Clear

/-- What every step keeps. -/
structure Paused (s : DeviceQueue) : Prop extends Kept s where
  paused : s.drained = true → s.openGate = true

/-! ## One step -/

/-- The gate, the count and the answers to `waitIdle` are as they were. -/
structure SameGate (s s' : DeviceQueue) : Prop where
  gate : s'.gate = s.gate
  openGate : s'.openGate = s.openGate
  inFlight : s'.inFlight = s.inFlight
  drained : s'.drained = s.drained

theorem SameGate.onItsWay (h : SameGate s s') (a : Task) : s'.onItsWay a = s.onItsWay a := by
  rw [DeviceQueue.onItsWay, DeviceQueue.onItsWay]
  cases a.stage <;> simp [isOpen, h.gate, h.openGate]

section

variable (h : Still s)
include h

/-- A step that sends nobody on its way. -/
theorem Still.of_sameGate (hgate : SameGate s s')
    (htasks : s.drained = true → ∀ b ∈ s'.tasks, s.onItsWay b = true →
      ∃ a ∈ s.tasks, s.onItsWay a = true) : Still s' := by
  intro hdrained
  rw [hgate.drained] at hdrained
  obtain ⟨hin, hclear⟩ := h hdrained
  refine ⟨hgate.inFlight.trans hin, fun b hb ↦ ?_⟩
  rw [hgate.onItsWay]
  by_contra hway
  obtain ⟨a, ha, hway'⟩ := htasks hdrained b hb (by simpa using hway)
  simp [hclear a ha] at hway'

theorem Still.set (hgate : SameGate s s') (hget : s.tasks[t]? = some a)
    (htasks : s'.tasks = s.tasks.set t b)
    (hway : s.drained = true → s.onItsWay b = true → s.onItsWay a = true) : Still s' := by
  refine h.of_sameGate hgate fun hdrained x hx hx' ↦ ?_
  rw [htasks] at hx
  rcases mem_or_eq_of_mem_set hx with hx | rfl
  · exact ⟨x, hx, hx'⟩
  · exact ⟨a, mem_of_getElem? hget, hway hdrained hx'⟩

theorem Still.giveUp {r : Refusal} (hget : s.tasks[t]? = some a) : Still (s.giveUp t a r) := by
  rw [DeviceQueue.giveUp]
  split_ifs
  · exact h
  · refine h.set (b := { a with gaveUpWith := some r }) ⟨by simp, by simp, by simp, by simp⟩ hget
      (by simp) fun _ hway ↦ ?_
    rw [onItsWay] at hway ⊢
    cases hstage : a.stage <;> simp [hstage] at hway ⊢

theorem Still.run : Still (s.run serial opts) := by
  have haccept : Still (s.accept serial opts) := by
    refine h.of_sameGate ⟨by simp [accept], by simp [accept], by simp [accept], by simp [accept]⟩
      fun _ b hb hway ↦ ?_
    rw [accept] at hb
    rcases mem_append.mp hb with hb | hb
    · exact ⟨b, hb, hway⟩
    · obtain rfl : b = s.newTask serial opts := by simpa using hb
      simp [onItsWay, newTask] at hway
  rw [DeviceQueue.run]
  split_ifs
  · exact h.of_sameGate ⟨by simp, by simp, by simp, by simp⟩ fun _ b hb hway ↦ ⟨b, hb, hway⟩
  · exact haccept.giveUp (by simp [accept])
  · exact haccept

theorem Still.turn (hpaused : Paused s) (ht : s.turn t = some s') : Still s' := by
  rw [DeviceQueue.turn] at ht
  split at ht
  next a hget =>
    split_ifs at ht
    cases ht
    refine h.set (b := { a with stage := .gated s.gate }) ⟨by simp, by simp, by simp, by simp⟩ hget
      (by simp) fun hdrained hway ↦ ?_
    -- the gate it finds is closed
    simp [onItsWay, isOpen, hpaused.paused hdrained] at hway
  · simp at ht

theorem Still.gatePassed (ht : s.gatePassed t = some s') : Still s' := by
  rw [DeviceQueue.gatePassed] at ht
  split at ht
  next a hget =>
    split at ht
    next gate hstage =>
      split_ifs at ht with hopen
      split at ht
      next r hgave =>
        cases ht
        exact h.set (b := { a with stage := .settled, watching := false })
          ⟨by simp, by simp, by simp, by simp⟩ hget (by simp) fun _ hway ↦ by simp [onItsWay] at hway
      next hgave =>
        cases ht
        exact h.set
          (b := { a with
            stage := if t ∈ (s.sem.acquire t).waiters then .acquiring else .granted
            started := true
            watching := false })
          ⟨by simp, by simp, by simp, by simp⟩ hget (by simp) fun _ _ ↦ by
            simp [onItsWay, hstage, hopen, hgave]
    · simp at ht
  · simp at ht

theorem Still.grant (hadmitted : Admitted s) (ht : s.grant = some s') : Still s' := by
  rw [DeviceQueue.grant] at ht
  split at ht
  next t ws sem hwoken hsem =>
    obtain ⟨a, hget, rfl⟩ := Option.map_eq_some_iff.mp ht
    have hstage := hadmitted.stage_of_woken hwoken hget
    exact h.set (b := { a with stage := .granted }) ⟨by simp, by simp, by simp, by simp⟩ hget
      (by simp) fun _ _ ↦ by simp [onItsWay, hstage]
  · simp at ht

theorem Still.begin (ht : s.begin t = some s') : Still s' := by
  rw [DeviceQueue.begin] at ht
  split at ht
  next a hget =>
    split_ifs at ht with hstage
    cases ht
    intro hdrained
    have hway := (h hdrained).2 a (mem_of_getElem? hget)
    simp [onItsWay, hstage] at hway
  · simp at ht

theorem Still.leave (ht : s.leave t = some s') : Still s' := by
  rw [DeviceQueue.leave] at ht
  split at ht
  next a hget =>
    split_ifs at ht
    obtain ⟨entry, -, rfl⟩ := Option.map_eq_some_iff.mp ht
    exact h.set (b := { a with stage := .left }) ⟨by simp, by simp, by simp, by simp⟩ hget (by simp)
      fun _ hway ↦ by simp [onItsWay] at hway
  · simp at ht

end

/-- The body that settles is not on its way, before or after. -/
theorem clear_complete {ok : Bool} (hget : s.tasks[t]? = some a) (hstage : a.stage = .running)
    (ht : s.complete t ok = some s') : s'.Clear ↔ s.Clear := by
  have hgate : s'.gate = s.gate ∧ s'.openGate = s.openGate ∧
      s'.tasks = s.tasks.set t { a with stage := .settled } := by
    rw [complete, hget] at ht
    simp only [hstage, if_true] at ht
    cases ht
    rw [answerIdle_eq]
    simp
  obtain ⟨hg, ho, htasks⟩ := hgate
  have hsame : ∀ x, s'.onItsWay x = s.onItsWay x := fun x ↦ by
    rw [onItsWay, onItsWay]
    cases x.stage <;> simp [isOpen, hg, ho]
  have hlt := (List.getElem?_eq_some_iff.mp hget).1
  rw [Clear, Clear, htasks]
  simp only [hsame]
  constructor
  · intro h x hx
    obtain ⟨j, hj⟩ := mem_iff_getElem?.mp hx
    by_cases htj : t = j
    · subst htj
      cases hget.symm.trans hj
      simp [onItsWay, hstage]
    · exact h x (mem_of_getElem? (i := j) (by rw [getElem?_set_ne htj, hj]))
  · intro h x hx
    rcases mem_or_eq_of_mem_set hx with hx | rfl
    · exact h x hx
    · simp [onItsWay]

theorem isDue_congr (hgate : s'.gate = s.gate) (hopen : s'.openGate = s.openGate) :
    s'.isDue = s.isDue := by
  funext w
  simp [isDue, hgate, hopen]

theorem still_complete_iff {ok : Bool} (h : Still s) (hpaused : Paused s)
    (ht : s.complete t ok = some s') : Still s' ↔ s.Undisturbed (.complete t ok) := by
  obtain ⟨a, hget, hstage⟩ : ∃ a, s.tasks[t]? = some a ∧ a.stage = .running := by
    rw [complete] at ht
    split at ht
    next a hget =>
      split_ifs at ht with hstage
      exact ⟨a, hget, hstage⟩
    · simp at ht
  have hpos := hpaused.admitted.inFlight_pos hget hstage
  have hnot : s.drained = false := by
    by_contra hdrained
    have hin := (h (by simpa using hdrained)).1
    omega
  have hclear := clear_complete hget hstage ht
  have hafter : s'.inFlight = s.inFlight - 1 ∧
      s'.drained = (decide (s.inFlight = 1) && s.idleWaiters.any s.isDue) := by
    rw [complete, hget] at ht
    simp only [hstage, if_true] at ht
    cases ht
    rw [answerIdle]
    by_cases hlast : s.inFlight = 1
    · rw [if_pos (by simp [hlast])]
      refine ⟨by simp, ?_⟩
      simp only [hnot, hlast, Bool.false_or, decide_true, Bool.true_and]
      rw [isDue_congr (s := s) (by simp) (by simp)]
    · have hmore : s.inFlight - 1 ≠ 0 := by omega
      simp [hlast, hnot, hmore]
  rw [Still, Undisturbed, hafter.1, hafter.2, hclear]
  by_cases hlast : s.inFlight = 1
  · simp [hlast]
  · simp [hlast]

theorem Paused.step (h : Paused s) (ht : s.step e = some s') : Paused s' := by
  refine ⟨h.toKept.step ht, ?_⟩
  have hkeep : s'.drained = s.drained → s'.openGate = s.openGate →
      s'.drained = true → s'.openGate = true := fun hd ho hdrained ↦ by
    rw [ho]
    exact h.paused (hd ▸ hdrained)
  cases e with
  | run serial opts =>
    cases ht
    have haccept : (s.accept serial opts).drained = s.drained ∧
        (s.accept serial opts).openGate = s.openGate := by simp [accept]
    refine hkeep ?_ ?_ <;> rw [run] <;> split_ifs <;> simp [giveUp, newTask, haccept]
  | timeout t | abort t =>
    simp only [step, timeout, abort] at ht
    split at ht
    · split_ifs at ht
      cases ht
      rw [giveUp]
      split_ifs <;> exact h.paused
    · simp at ht
  | turn t =>
    simp only [step, turn] at ht
    split at ht
    · split_ifs at ht
      cases ht
      exact h.paused
    · simp at ht
  | gatePassed t =>
    rw [DeviceQueue.step, gatePassed] at ht
    split at ht
    · split at ht
      · split_ifs at ht
        split at ht <;> (cases ht; exact h.paused)
      · simp at ht
    · simp at ht
  | grant =>
    simp only [step, grant] at ht
    split at ht
    · obtain ⟨a, -, rfl⟩ := Option.map_eq_some_iff.mp ht
      exact h.paused
    · simp at ht
  | begin t =>
    simp only [step, begin] at ht
    split at ht
    · split_ifs at ht
      cases ht
      exact h.paused
    · simp at ht
  | complete t ok =>
    simp only [step, complete] at ht
    split at ht
    · split_ifs at ht
      cases ht
      intro hdrained
      rw [answerIdle] at hdrained ⊢
      by_cases hlast : s.inFlight - 1 = 0
      · simp only [hlast, if_true, Bool.or_eq_true, any_eq_true] at hdrained ⊢
        rcases hdrained with hdrained | ⟨w, -, hw⟩
        · exact h.paused hdrained
        · simp only [isDue, Bool.and_eq_true] at hw
          exact hw.1.1
      · simp only [hlast, if_false] at hdrained ⊢
        exact h.paused hdrained
    · simp at ht
  | leave t =>
    simp only [step, leave] at ht
    split at ht
    · split_ifs at ht
      obtain ⟨entry, -, rfl⟩ := Option.map_eq_some_iff.mp ht
      exact h.paused
    · simp at ht
  | pause =>
    cases ht
    rw [pause]
    split_ifs
    · exact h.paused
    · simp
  | resume =>
    cases ht
    simp [resume]
  | waitIdle =>
    cases ht
    by_cases hidle : s.inFlight = 0
    · rw [waitIdle, if_pos hidle]
      simp only [Bool.or_eq_true]
      exact fun hd ↦ hd.elim h.paused id
    · rw [waitIdle, if_neg hidle]
      exact h.paused
  | idleTimeout i =>
    obtain ⟨w, -, rfl⟩ := Option.map_eq_some_iff.mp ht
    exact h.paused
  | resize max =>
    cases ht
    exact h.paused

theorem Paused.steps (h : Steps (Steps.By DeviceQueue.step) s es s') (h0 : Paused s) : Paused s' :=
  h.invariant h0 fun _ _ _ hp ht ↦ hp.step ht

/-- **One step** keeps a queue that has answered `waitIdle` still, exactly if it is undisturbed. -/
theorem still_step_iff (h : Still s) (hpaused : Paused s) (ht : s.step e = some s') :
    Still s' ↔ s.Undisturbed e := by
  cases e with
  | run serial opts =>
    cases ht
    exact iff_of_true h.run trivial
  | timeout t | abort t =>
    refine iff_of_true ?_ trivial
    simp only [step, timeout, abort] at ht
    split at ht
    next a hget =>
      split_ifs at ht
      cases ht
      exact h.giveUp hget
    · simp at ht
  | turn t => exact iff_of_true (h.turn hpaused ht) trivial
  | gatePassed t => exact iff_of_true (h.gatePassed ht) trivial
  | grant => exact iff_of_true (h.grant hpaused.admitted ht) trivial
  | begin t => exact iff_of_true (h.begin ht) trivial
  | complete t ok => exact still_complete_iff h hpaused ht
  | leave t => exact iff_of_true (h.leave ht) trivial
  | pause =>
    cases ht
    refine iff_of_true ?_ trivial
    rw [pause]
    split_ifs
    · exact h
    · simp [Still]
  | resume =>
    cases ht
    exact iff_of_true (by simp [Still, resume]) trivial
  | waitIdle =>
    cases ht
    by_cases hidle : s.inFlight = 0
    · rw [waitIdle, if_pos hidle, Undisturbed]
      have hclear : Clear { s with drained := s.drained || s.openGate } ↔ s.Clear := by
        simp [Clear, onItsWay, isOpen]
      rw [Still, hclear]
      simp only [hidle, Bool.or_eq_true, true_and, true_imp_iff]
      exact ⟨fun hs ho ↦ hs (.inr ho), fun hs hd ↦ hd.elim (fun hd ↦ (h hd).2) hs⟩
    · rw [waitIdle, if_neg hidle, Undisturbed]
      refine iff_of_true ?_ fun _ hin ↦ absurd hin hidle
      exact h.of_sameGate ⟨by simp, by simp, by simp, by simp⟩ fun _ b hb hway ↦ ⟨b, hb, hway⟩
  | idleTimeout i =>
    obtain ⟨w, -, rfl⟩ := Option.map_eq_some_iff.mp ht
    refine iff_of_true ?_ trivial
    exact h.of_sameGate ⟨by simp, by simp, by simp, by simp⟩ fun _ b hb hway ↦ ⟨b, hb, hway⟩
  | resize max =>
    cases ht
    refine iff_of_true ?_ trivial
    exact h.of_sameGate ⟨by simp, by simp, by simp, by simp⟩ fun _ b hb hway ↦ ⟨b, hb, hway⟩

/-! ## A task on its way starts -/

/-- Pending continuations alone bring a body to execution, while the pause lasts. -/
def Starts (s : DeviceQueue) : Prop :=
  ∃ ks u, (∀ k ∈ ks, k.isContinuation = true) ∧ Steps (Steps.By step) s ks u ∧
    u.drained = s.drained ∧ ∃ a ∈ u.tasks, a.stage = .running

theorem Starts.cons (hk : e.isContinuation = true) (ht : s.step e = some s')
    (hdrained : s'.drained = s.drained) (h : Starts s') : Starts s := by
  obtain ⟨ks, u, hks, hsteps, hd, hrunning⟩ := h
  exact ⟨e :: ks, u, by simpa [hk] using hks, Steps.cons ht hsteps, hd.trans hdrained, hrunning⟩

theorem starts_of_granted (hget : s.tasks[t]? = some a) (hstage : a.stage = .granted) : Starts s := by
  have hlt := (List.getElem?_eq_some_iff.mp hget).1
  have ht : s.step (.begin t) = some
      { s with
        inFlight := s.inFlight + 1
        tasks := s.tasks.set t { a with stage := .running }
        log := s.log ++ [.began t a.serial] } := by
    simp [step, begin, hget, hstage]
  refine .cons (by simp [Event.isContinuation]) ht (by simp) ⟨[], _, by simp, .nil, by simp, ?_⟩
  exact ⟨{ a with stage := .running }, List.mem_of_getElem? (i := t) (by simp [hlt]), by simp⟩

theorem starts_of_woken {ws : List Nat} (h : Admitted s) (hw : s.sem.woken = t :: ws) : Starts s := by
  obtain ⟨a, hget, -⟩ := (h.waiting t).mp (by simp [hw])
  have hlt := (List.getElem?_eq_some_iff.mp hget).1
  obtain ⟨sem, hsem⟩ : ∃ sem, s.sem.continuation = some sem := by
    simp [Semaphore.continuation, hw]
  have ht : s.step .grant = some
      { s with sem := sem, tasks := s.tasks.set t { a with stage := .granted } } := by
    simp [step, grant, hw, hsem, hget]
  refine .cons (by simp [Event.isContinuation]) ht (by simp) ?_
  exact starts_of_granted (t := t) (a := { a with stage := .granted }) (by simp [hlt]) (by simp)

/-- The semaphore does not let a task sleep with nobody holding a slot. -/
theorem starts_of_acquiring (h : Admitted s) (hget : s.tasks[t]? = some a)
    (hstage : a.stage = .acquiring) : Starts s := by
  have hmem := (h.waiting t).mpr ⟨a, hget, by simp [hstage, Stage.standing]⟩
  cases hwoken : s.sem.woken with
  | cons w ws => exact starts_of_woken h hwoken
  | nil =>
    rw [hwoken, nil_append] at hmem
    have hfull := h.sem.awake (ne_nil_of_mem hmem)
    have hpos := h.sem.pos
    have hin := h.sem.inFlight
    simp only [hwoken, length_nil] at hfull
    obtain ⟨p, hp, hflag⟩ := one_le_countP_iff.mp (show 1 ≤ _ by rw [← hin]; omega)
    have hheld : OrdMap.get? p.1 s.sem.releasers = some false :=
      OrdMap.get?_of_mem h.sem.keys (by
        have hfalse : p.2 = false := by simpa using hflag
        rwa [← hfalse])
    obtain ⟨b, hb, hstand⟩ := (h.holding p.1).mp hheld
    cases hbstage : b.stage <;> simp [hbstage, Stage.standing] at hstand
    case granted => exact starts_of_granted hb hbstage
    case running => exact ⟨[], s, by simp, .nil, by simp, b, mem_of_getElem? hb, hbstage⟩

theorem starts_of_onItsWay (h : Admitted s) (hget : s.tasks[t]? = some a)
    (hway : s.onItsWay a = true) : Starts s := by
  have hlt := (List.getElem?_eq_some_iff.mp hget).1
  cases hstage : a.stage with
  | granted => exact starts_of_granted hget hstage
  | acquiring => exact starts_of_acquiring h hget hstage
  | gated gate =>
    simp only [onItsWay, hstage, Bool.and_eq_true, Option.isNone_iff_eq_none] at hway
    obtain ⟨hopen, hgave⟩ := hway
    obtain ⟨s', ht⟩ : ∃ s', s.step (.gatePassed t) = some s' := by
      simp [step, gatePassed, hget, hstage, hopen, hgave]
    obtain ⟨b, hdrained, hget', hb⟩ : ∃ b, s'.drained = s.drained ∧ s'.tasks[t]? = some b ∧
        (b.stage = .acquiring ∨ b.stage = .granted) := by
      simp only [step, gatePassed, hget, hstage, hopen, if_true, hgave] at ht
      cases ht
      refine ⟨_, by simp, getElem?_set_self hlt, ?_⟩
      by_cases hmem : t ∈ (s.sem.acquire t).waiters <;> simp [hmem]
    refine .cons (by simp [Event.isContinuation]) ht hdrained ?_
    rcases hb with hb | hb
    · exact starts_of_acquiring (h.step ht) hget' hb
    · exact starts_of_granted hget' hb
  | queued | running | settled | left => simp [onItsWay, hstage] at hway

/-- No continuation breaks the pause exactly if nothing executes and nothing is on its way. -/
theorem still_iff_idle (hpaused : Paused s) :
    (∀ ks, (∀ k ∈ ks, k.isContinuation = true) → ∀ u, Steps (Steps.By step) s ks u → Idle u) ↔
      Still s := by
  constructor
  · intro hidle hdrained
    have hnow := hidle [] (by simp) s .nil hdrained
    refine ⟨?_, fun a ha ↦ ?_⟩
    · rw [hpaused.admitted.inFlight, countP_eq_zero]
      exact fun a ha ↦ by simpa using hnow a ha
    · by_contra hway
      obtain ⟨t, hget⟩ := mem_iff_getElem?.mp ha
      obtain ⟨ks, u, hks, hsteps, hd, b, hb, hrunning⟩ :=
        starts_of_onItsWay hpaused.admitted hget (by simpa using hway)
      exact hidle ks hks u hsteps (hd.trans hdrained) b hb hrunning
  · intro hstill ks hks u hu
    suffices hs : Still u ∧ Paused u by
      intro hdrained a ha hrunning
      obtain ⟨t, hget⟩ := mem_iff_getElem?.mp ha
      have hpos := hs.2.admitted.inFlight_pos hget hrunning
      have hzero := (hs.1 hdrained).1
      omega
    induction hu with
    | nil => exact ⟨hstill, hpaused⟩
    | @snoc ks v w e hsteps he ih =>
      obtain ⟨hv, hpv⟩ := ih fun k hk ↦ hks k (mem_append_left _ hk)
      have hcont := hks e (by simp)
      refine ⟨(still_step_iff hv hpv he).mpr ?_, hpv.step he⟩
      cases e <;> simp [Event.isContinuation] at hcont <;> trivial

theorem paused_new {max : Nat} {sem : Semaphore} (h : Semaphore.new max = some sem) : Paused (new sem) :=
  ⟨kept_new h, by simp [new]⟩

/-- **A paused queue that reports idle is idle as long as no `waitIdle` answers while a task is on its
way to its body.**  A run, with the continuations that are pending in the states it reaches, keeps
the promise of every pause exactly if all its steps are undisturbed. -/
theorem idle_iff {max : Nat} {sem : Semaphore} (h0 : Semaphore.new max = some sem)
    (h : Steps (Steps.By step) (new sem) es s) :
    (∀ pre, pre <+: es → ∀ ks, (∀ k ∈ ks, k.isContinuation = true) → ∀ u,
      Steps (Steps.By step) (new sem) (pre ++ ks) u → Idle u) ↔
    Steps.Guarded (Steps.By step) Undisturbed (new sem) es s := by
  have hpaused := paused_new h0
  have hguarded := Steps.always_iff_guarded (I := Still) (J := Paused) h (by simp [Still, new])
    hpaused (fun _ _ _ hp he _ ↦ hp.step he) (fun _ _ _ hp hs he ↦ still_step_iff hs hp he)
  rw [← hguarded]
  refine forall₂_congr fun pre hpre ↦ ⟨fun hall u hu ↦ ?_, fun hall ks hks u hu ↦ ?_⟩
  · exact (still_iff_idle (Paused.steps hu hpaused)).mp fun ks hks v hv ↦
      hall ks hks v (hu.trans hv)
  · obtain ⟨m, hm, hmu⟩ := Steps.append_iff.mp hu
    exact (still_iff_idle (Paused.steps hm hpaused)).mpr (hall m hm) ks hks u hmu

theorem idle_iff_drained :
    ∃ sem s, Semaphore.new 2 = some sem ∧
      Steps (Steps.By step) (new sem) [.run "a" {}, .run "b" {}, .turn 0, .gatePassed 0, .begin 0,
        .pause, .turn 1, .waitIdle, .complete 0 true, .leave 0] s ∧
      ∀ pre, pre <+: [Event.run "a" {}, .run "b" {}, .turn 0, .gatePassed 0, .begin 0,
        .pause, .turn 1, .waitIdle, .complete 0 true, .leave 0] →
        ∀ ks, (∀ k ∈ ks, k.isContinuation = true) → ∀ u,
          Steps (Steps.By step) (new sem) (pre ++ ks) u → Idle u :=
  ⟨_, _, rfl, Steps.steps_by_iff.mpr rfl,
    (idle_iff (show Semaphore.new 2 = some _ from rfl) (Steps.steps_by_iff.mpr rfl)).mpr
      (Steps.guarded_by_iff.mpr (by decide +kernel))⟩

/-- With a cap of one, a task of another serial that waits for the semaphore starts after the
`waitIdle` of the pause has answered. -/
theorem not_idle_saturated :
    ∃ sem s, Semaphore.new 1 = some sem ∧
      Steps (Steps.By step) (new sem) [.run "a" {}, .run "b" {}, .turn 0, .gatePassed 0, .begin 0,
        .turn 1, .gatePassed 1, .pause, .waitIdle, .complete 0 true, .grant, .begin 1] s ∧
      ¬ Idle s :=
  ⟨_, _, rfl, Steps.steps_by_iff.mpr rfl, by decide +kernel⟩

end Enkaku.Adb.DeviceQueue
