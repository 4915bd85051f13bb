import Enkaku.Registry.Cutover
import Enkaku.Lib.Steps
import Mathlib.Data.List.Count

/-!
# One poll at a time

A window has one step, poll or timer at a time (`Kept.token`), whatever happens.  That nothing touches
another window, and that the device has one poll or timer at a time, needs more: no step or poll comes
back to a window that is not its own, and none is armed while a poll of another is still in flight
(`watched_once_iff`).
-/

set_option autoImplicit false

namespace Enkaku.Registry

open List

/-- `done` or `failed`. -/
def CutoverStep.IsOver (step : CutoverStep) : Prop := step = .done ∨ step = .failed

namespace CutoverManager

/-- The polls in flight. -/
def polls (s : CutoverManager) : List CutoverTask := s.tasks.filter (·.phase = .polling)

/-- One poll or timer at a time; nobody touches a window but its own steps and polls; and no poll is in
flight or to come for a window that is over. -/
structure Watched (s : CutoverManager) : Prop where
  single : s.timers.length + s.polls.length ≤ 1
  own : ∀ p ∈ s.acts, p.1 = p.2
  ended : ∀ e ∈ s.session, e.state.step.IsOver →
    s.timers = [] ∧ ∀ p ∈ s.polls, p.window ≠ e.window

/-- If there is a window, it is this one. -/
def Home (s : CutoverManager) (window : Nat) : Prop := ∀ e ∈ s.session, e.window = window

/-- A step or a poll that changes a state comes back to its own window, and a window is armed when no
poll is in flight. -/
def InOwnWindow (s : CutoverManager) : Event → Prop
  | .enabled id (some _) => ∀ t ∈ s.taskOf id .enabling, s.Home t.window
  | .readBack id value => ∀ t ∈ s.taskOf id .reading,
      value.toOption ≠ some (toString t.port) → s.Home t.window
  | .persisted id _ _ => ∀ t ∈ s.taskOf id .persisting,
      s.Home t.window ∧ (s.session.isSome → s.polls = [])
  | .polled id _ => ∀ t ∈ s.taskOf id .polling, s.Home t.window
  | _ => True

instance (s : CutoverManager) (window : Nat) : Decidable (s.Home window) := by
  unfold Home
  infer_instance

instance (s : CutoverManager) : ∀ e, Decidable (InOwnWindow s e)
  | .enabled id (some _) =>
    inferInstanceAs (Decidable (∀ t ∈ s.taskOf id .enabling, s.Home t.window))
  | .readBack id value =>
    inferInstanceAs (Decidable (∀ t ∈ s.taskOf id .reading,
      value.toOption ≠ some (toString t.port) → s.Home t.window))
  | .persisted id _ _ =>
    inferInstanceAs (Decidable (∀ t ∈ s.taskOf id .persisting,
      s.Home t.window ∧ (s.session.isSome → s.polls = [])))
  | .polled id _ => inferInstanceAs (Decidable (∀ t ∈ s.taskOf id .polling, s.Home t.window))
  | .start .. | .enabled _ none | .fire .. | .cancel => isTrue trivial

/-! ## The one thing a window has on the way -/

variable {s t : CutoverManager} {e : Event} {es : List Event} {task : CutoverTask} {timer : PollTimer}
  {window port : Nat} {phase : CutoverPhase} {patch : CutoverState → CutoverState}

/-- How many steps, polls and timers a window has. -/
def tokens (s : CutoverManager) (window : Nat) : Nat :=
  s.tasks.countP (·.window = window) + s.timers.countP (·.window = window)

/-- What every event keeps that meets the condition. -/
structure Kept (s : CutoverManager) : Prop where
  token : ∀ window, s.tokens window ≤ 1
  tasksBelow : ∀ t ∈ s.tasks, t.window < s.windows
  timersBelow : ∀ t ∈ s.timers, t.window < s.windows
  sessionBelow : ∀ e ∈ s.session, e.window < s.windows
  /-- A timer is the one of the window that is there. -/
  timers : ∀ t ∈ s.timers, ∃ e ∈ s.session, e.window = t.window ∧ e.timer = some t.id
  ended : ∀ e ∈ s.session, e.state.step.IsOver → s.tokens e.window = 0

theorem kept_new (tcpPort armWindowSec : Nat) : Kept (new tcpPort armWindowSec) :=
  ⟨by simp [new, tokens], by simp [new], by simp [new], by simp [new], by simp [new], by simp [new]⟩

/-- The one thing this window had on the way goes on. -/
structure Turn (s : CutoverManager) (window : Nat) : Prop where
  kept : Kept s
  free : s.tokens window = 0
  below : window < s.windows
  running : ∀ e ∈ s.session, e.window = window → ¬ e.state.step.IsOver

theorem tokens_of_task_mem (hmem : task ∈ s.tasks) : 0 < s.tokens task.window :=
  Nat.add_pos_left (countP_pos_iff.mpr ⟨task, hmem, by simp⟩) _

theorem tokens_of_timer_mem (hmem : timer ∈ s.timers) : 0 < s.tokens timer.window :=
  Nat.add_pos_right _ (countP_pos_iff.mpr ⟨timer, hmem, by simp⟩)

theorem tokens_leave (hmem : task ∈ s.tasks) (window : Nat) :
    s.tokens window = (s.leave task).tokens window + if task.window = window then 1 else 0 := by
  have hcount := (perm_cons_erase hmem).countP_eq (·.window = window)
  rw [countP_cons] at hcount
  simp only [tokens, leave, decide_eq_true_eq] at hcount ⊢
  omega

/-- The manager without a timer that has fired. -/
def drop (s : CutoverManager) (timer : PollTimer) : CutoverManager :=
  { s with timers := s.timers.erase timer }

theorem tokens_drop (hmem : timer ∈ s.timers) (window : Nat) :
    s.tokens window = (s.drop timer).tokens window + if timer.window = window then 1 else 0 := by
  have hcount := (perm_cons_erase hmem).countP_eq (·.window = window)
  rw [countP_cons] at hcount
  simp only [tokens, drop, decide_eq_true_eq] at hcount ⊢
  omega

theorem Kept.leave (hk : Kept s) (hmem : task ∈ s.tasks) : Turn (s.leave task) task.window := by
  have hle : ∀ window, (s.leave task).tokens window ≤ s.tokens window :=
    fun window ↦ Nat.le.intro (tokens_leave hmem window).symm
  refine ⟨⟨fun window ↦ Nat.le_trans (hle window) (hk.token window),
    fun t ht ↦ hk.tasksBelow t (mem_of_mem_erase ht), hk.timersBelow, hk.sessionBelow, hk.timers,
    fun e he hover ↦ Nat.le_zero.mp (Nat.le_trans (hle _) (Nat.le_of_eq (hk.ended e he hover)))⟩, ?_,
    hk.tasksBelow task hmem, ?_⟩
  · have htoken := hk.token task.window
    have heq := tokens_leave hmem task.window
    rw [if_pos rfl] at heq
    omega
  · intro e he hwindow hover
    have hzero := hk.ended e he hover
    rw [hwindow] at hzero
    exact absurd (tokens_of_task_mem hmem) (by omega)

theorem Kept.drop (hk : Kept s) (hmem : timer ∈ s.timers) : Turn (s.drop timer) timer.window := by
  have hle : ∀ window, (s.drop timer).tokens window ≤ s.tokens window :=
    fun window ↦ Nat.le.intro (tokens_drop hmem window).symm
  refine ⟨⟨fun window ↦ Nat.le_trans (hle window) (hk.token window), hk.tasksBelow,
    fun t ht ↦ hk.timersBelow t (mem_of_mem_erase ht), hk.sessionBelow,
    fun t ht ↦ hk.timers t (mem_of_mem_erase ht),
    fun e he hover ↦ Nat.le_zero.mp (Nat.le_trans (hle _) (Nat.le_of_eq (hk.ended e he hover)))⟩, ?_,
    hk.timersBelow timer hmem, ?_⟩
  · have htoken := hk.token timer.window
    have heq := tokens_drop hmem timer.window
    rw [if_pos rfl] at heq
    omega
  · intro e he hwindow hover
    have hzero := hk.ended e he hover
    rw [hwindow] at hzero
    exact absurd (tokens_of_timer_mem hmem) (by omega)

theorem tokens_await (window' : Nat) :
    (s.await window port phase).tokens window' =
      s.tokens window' + if window = window' then 1 else 0 := by
  simp only [tokens, await, countP_append, countP_cons, countP_nil, decide_eq_true_eq]
  omega

theorem Turn.await (h : Turn s window) (port : Nat) (phase : CutoverPhase) :
    Kept (s.await window port phase) := by
  refine ⟨fun window' ↦ ?_, fun t ht ↦ ?_, h.kept.timersBelow, h.kept.sessionBelow, h.kept.timers,
    fun e he hover ↦ ?_⟩
  · have htoken := h.kept.token window'
    have hfree := h.free
    rw [tokens_await]
    split_ifs with heq
    · exact Nat.le_of_eq (by rw [← heq, hfree])
    · exact htoken
  · rcases mem_append.mp ht with ht | ht
    · exact h.kept.tasksBelow t ht
    · obtain rfl := mem_singleton.mp ht
      exact h.below
  · have hne : window ≠ e.window := fun heq ↦ h.running e he heq.symm hover
    rw [tokens_await, if_neg hne]
    exact h.kept.ended e he hover

/-- If the window is the one that is there, it has no timer. -/
theorem Turn.timers_eq_nil (h : Turn s window) (hhome : s.Home window) : s.timers = [] := by
  refine eq_nil_iff_forall_not_mem.mpr fun t ht ↦ ?_
  obtain ⟨e, he, hwindow, -⟩ := h.kept.timers t ht
  have hpos := tokens_of_timer_mem ht
  rw [← hwindow, hhome e he, h.free] at hpos
  exact Nat.lt_irrefl _ hpos

theorem Turn.polls_ne (h : Turn s window) : ∀ p ∈ s.polls, p.window ≠ window := by
  intro p hp heq
  have hpos := tokens_of_task_mem (mem_of_mem_filter hp)
  rw [heq, h.free] at hpos
  exact Nat.lt_irrefl _ hpos

theorem setState_none (hsession : s.session = none) : s.setState window patch = s := by
  simp [setState, hsession]

variable {entry : CutoverSession}

theorem setState_some (hsession : s.session = some entry) :
    s.setState window patch = { s with
      session := some { entry with state := patch entry.state }
      acts := s.acts ++ [(window, entry.window)] } := by
  simp [setState, hsession]

theorem Turn.setState (h : Turn s window) (hhome : s.Home window) (patch : CutoverState → CutoverState) :
    Kept (s.setState window patch) := by
  cases hsession : s.session with
  | none =>
    rw [setState_none hsession]
    exact h.kept
  | some entry =>
    rw [setState_some hsession]
    have hwindow : entry.window = window := hhome entry hsession
    have hnil := h.timers_eq_nil hhome
    refine ⟨h.kept.token, h.kept.tasksBelow, h.kept.timersBelow, fun e he ↦ ?_, fun t ht ↦ ?_,
      fun e he _ ↦ ?_⟩
    · cases he
      exact h.kept.sessionBelow entry hsession
    · rw [show s.timers = [] from hnil] at ht
      simp at ht
    · cases he
      show s.tokens entry.window = 0
      rw [hwindow]
      exact h.free

/-- A change that does not end the window leaves it its turn. -/
theorem Turn.setState_running (h : Turn s window) (hhome : s.Home window)
    (hpatch : ∀ state, ¬ (patch state).step.IsOver) : Turn (s.setState window patch) window := by
  refine ⟨h.setState hhome patch, ?_, ?_, fun e he _ ↦ ?_⟩
  · rw [CutoverManager.setState]
    split <;> exact h.free
  · rw [CutoverManager.setState]
    split <;> exact h.below
  · cases hsession : s.session with
    | none => simp [setState_none hsession, hsession] at he
    | some entry =>
      rw [setState_some hsession] at he
      cases he
      exact hpatch entry.state

theorem Turn.schedulePoll (h : Turn s window) (hhome : s.Home window) :
    Kept (s.schedulePoll window) := by
  cases hsession : s.session with
  | none => simpa [CutoverManager.schedulePoll, hsession] using h.kept
  | some entry =>
    have hwindow : entry.window = window := hhome entry hsession
    have hnil := h.timers_eq_nil hhome
    simp only [CutoverManager.schedulePoll, hsession, hnil, nil_append]
    have hzero : s.tasks.countP (·.window = window) = 0 := by
      have hfree := h.free
      rw [tokens] at hfree
      omega
    refine ⟨fun window' ↦ ?_, h.kept.tasksBelow, fun t ht ↦ ?_, fun e he ↦ ?_, fun t ht ↦ ?_,
      fun e he hover ↦ ?_⟩
    · have htoken := h.kept.token window'
      simp only [tokens, hnil, countP_nil, countP_cons, decide_eq_true_eq] at htoken ⊢
      split_ifs with heq
      · exact Nat.le_of_eq (by rw [← heq, hzero])
      · exact htoken
    · obtain rfl := mem_singleton.mp ht
      exact h.below
    · cases he
      exact h.kept.sessionBelow entry hsession
    · obtain rfl := mem_singleton.mp ht
      exact ⟨_, rfl, hwindow, rfl⟩
    · cases he
      exact absurd hover (h.running entry hsession hwindow)

/-- The timer of the window that is there is the only one. -/
theorem Kept.clearTimer_timers (hk : Kept s) : s.clearTimer.timers = [] := by
  refine eq_nil_iff_forall_not_mem.mpr fun t ht ↦ ?_
  rw [clearTimer] at ht
  cases hsession : s.session with
  | none =>
    simp only [hsession] at ht
    obtain ⟨e, he, -⟩ := hk.timers t ht
    simp [hsession] at he
  | some entry =>
    simp only [hsession] at ht
    cases hid : entry.timer with
    | none =>
      simp only [hid] at ht
      obtain ⟨e, he, -, htimer⟩ := hk.timers t ht
      cases hsession.symm.trans he
      simp [hid] at htimer
    | some id =>
      simp only [hid] at ht
      obtain ⟨ht, hne⟩ := mem_filter.mp ht
      obtain ⟨e, he, -, htimer⟩ := hk.timers t ht
      cases hsession.symm.trans he
      cases hid.symm.trans htimer
      simp at hne

@[simp]
theorem clearTimer_tasks : s.clearTimer.tasks = s.tasks := by
  rw [clearTimer]
  repeat' split
  all_goals rfl

@[simp]
theorem clearTimer_windows : s.clearTimer.windows = s.windows := by
  rw [clearTimer]
  repeat' split
  all_goals rfl

@[simp]
theorem clearTimer_acts : s.clearTimer.acts = s.acts := by
  rw [clearTimer]
  repeat' split
  all_goals rfl

@[simp]
theorem clearTimer_polls : s.clearTimer.polls = s.polls := by
  rw [polls, clearTimer_tasks, polls]

/-- The window that is there after `clearTimer` is the one from before, in the same state. -/
theorem clearTimer_session : ∀ e ∈ s.clearTimer.session,
    ∃ entry ∈ s.session, e.window = entry.window ∧ e.state = entry.state := by
  intro e he
  rw [clearTimer] at he
  split at he
  · exact ⟨e, he, rfl, rfl⟩
  · rename_i entry hsession
    split at he
    · exact ⟨e, he, rfl, rfl⟩
    · cases he
      exact ⟨entry, hsession, rfl, rfl⟩

theorem Kept.tokens_clearTimer (hk : Kept s) (window : Nat) :
    s.clearTimer.tokens window = s.tasks.countP (·.window = window) := by
  rw [tokens, hk.clearTimer_timers, clearTimer_tasks, countP_nil, Nat.add_zero]

theorem Kept.tokens_clearTimer_le (hk : Kept s) (window : Nat) :
    s.clearTimer.tokens window ≤ s.tokens window := by
  rw [hk.tokens_clearTimer]
  exact Nat.le_add_right _ _

theorem Kept.clearTimer (hk : Kept s) : Kept s.clearTimer := by
  have hnil := hk.clearTimer_timers
  refine ⟨fun window ↦ Nat.le_trans (hk.tokens_clearTimer_le window) (hk.token window), ?_, ?_, ?_, ?_,
    fun e he hover ↦ ?_⟩
  · rw [clearTimer_tasks, clearTimer_windows]
    exact hk.tasksBelow
  · simp [hnil]
  · intro e he
    obtain ⟨entry, hentry, hwindow, -⟩ := clearTimer_session e he
    rw [clearTimer_windows, hwindow]
    exact hk.sessionBelow entry hentry
  · simp [hnil]
  · obtain ⟨entry, hentry, hwindow, hstate⟩ := clearTimer_session e he
    rw [hstate] at hover
    have hzero := hk.ended entry hentry hover
    have hle := hk.tokens_clearTimer_le e.window
    rw [hwindow, hzero] at hle
    rw [hwindow]
    exact Nat.le_zero.mp hle

/-! ## One event -/

theorem taskOf_mem {id : Nat} (htask : task ∈ s.taskOf id phase) : task ∈ s.tasks :=
  mem_of_find?_eq_some htask

theorem taskOf_phase {id : Nat} (htask : task ∈ s.taskOf id phase) : task.phase = phase := by
  have h := find?_some htask
  simp only [decide_eq_true_eq] at h
  exact h.2

theorem Kept.cancel (hk : Kept s) : Kept s.cancel :=
  ⟨hk.clearTimer.token, hk.clearTimer.tasksBelow, hk.clearTimer.timersBelow, by simp [CutoverManager.cancel],
    by simp [CutoverManager.cancel, hk.clearTimer_timers], by simp [CutoverManager.cancel]⟩

/-- A window that has not been given out yet has nothing on the way. -/
theorem Kept.tokens_eq_zero (hk : Kept s) (hwindow : s.windows ≤ window) : s.tokens window = 0 := by
  refine Nat.eq_zero_of_not_pos fun hpos ↦ ?_
  rcases Nat.add_pos_iff_pos_or_pos.mp hpos with h | h
  · obtain ⟨task, hmem, heq⟩ := countP_pos_iff.mp h
    have hbelow := hk.tasksBelow task hmem
    rw [of_decide_eq_true heq] at hbelow
    omega
  · obtain ⟨timer, hmem, heq⟩ := countP_pos_iff.mp h
    have hbelow := hk.timersBelow timer hmem
    rw [of_decide_eq_true heq] at hbelow
    omega

/-- The manager with a new window, before `start` awaits `enableTcp`. -/
theorem Kept.open (hk : Kept s) {declared : List (String × ConnectionMedium)}
    {acts : List (Nat × Nat)} (hwindow : entry.window = s.windows)
    (hrunning : ¬ entry.state.step.IsOver) :
    Turn { s.clearTimer with
      session := some entry, windows := s.windows + 1, declared := declared, acts := acts } s.windows := by
  have hnil := hk.clearTimer_timers
  refine ⟨⟨hk.clearTimer.token, fun t ht ↦ ?_, ?_, fun e he ↦ ?_, ?_, fun e he hover ↦ ?_⟩, ?_, ?_,
    fun e he _ ↦ ?_⟩
  · have hbelow := hk.clearTimer.tasksBelow t ht
    rw [clearTimer_windows] at hbelow
    exact Nat.lt_succ_of_lt hbelow
  · simp [hnil]
  · cases he
    rw [hwindow]
    exact Nat.lt_succ_self _
  · simp [hnil]
  · cases he
    exact absurd hover hrunning
  · exact hk.clearTimer.tokens_eq_zero (by simp)
  · exact Nat.lt_succ_self _
  · cases he
    exact hrunning

theorem Kept.start (hk : Kept s) (port : Option Nat) (medium : ConnectionMedium)
    (address : Option String) (now : Nat) : Kept (s.start port medium address now) := by
  rw [CutoverManager.start]
  simp only [clearTimer_windows]
  exact (hk.open rfl (by simp [CutoverStep.IsOver])).await _ _

/-- A timer that fires is the one of the window that is there. -/
theorem Kept.home_of_timer (hk : Kept s) (hmem : timer ∈ s.timers) : s.Home timer.window := by
  obtain ⟨entry, hentry, hwindow, -⟩ := hk.timers timer hmem
  intro e he
  cases he.symm.trans hentry
  exact hwindow

theorem Turn.poll (h : Turn s window) (hhome : s.Home window) (now : Nat) :
    Kept (s.poll window now) := by
  rw [CutoverManager.poll]
  split
  · exact h.kept
  · split
    · exact (h.setState hhome _).clearTimer
    · exact (h.setState_running hhome fun _ ↦ by simp [CutoverStep.IsOver]).await _ _

theorem setState_home {window' : Nat} (hhome : s.Home window') :
    (s.setState window patch).Home window' := by
  cases hsession : s.session with
  | none =>
    rw [setState_none hsession]
    exact hhome
  | some entry =>
    rw [setState_some hsession]
    intro e he
    cases he
    exact hhome entry hsession

/-- What has been declared and the ghosts are no part of what is kept. -/
theorem Turn.declare (h : Turn s window) (declared : List (String × ConnectionMedium))
    (acts : List (Nat × Nat)) : Turn { s with declared := declared, acts := acts } window :=
  ⟨⟨h.kept.token, h.kept.tasksBelow, h.kept.timersBelow, h.kept.sessionBelow, h.kept.timers,
    h.kept.ended⟩, h.free, h.below, h.running⟩

/-- `poll` says that the window is done, or waits for the next one. -/
theorem polled_eq (s : CutoverManager) (task : CutoverTask) (outcome : ReconnectOutcome) :
    (∃ entry ∈ s.session, ∃ declared patch, s.polled task outcome =
        ({ s with declared := declared, acts := s.acts ++ [(task.window, entry.window)] }.setState
          task.window patch).clearTimer) ∨
    ∃ patch, (∀ state, (patch state).step = .armed) ∧
      s.polled task outcome = (s.setState task.window patch).schedulePoll task.window := by
  unfold polled
  cases hsession : s.session with
  | none =>
    refine .inr ⟨fun state ↦ { state with step := .armed }, fun _ ↦ rfl, ?_⟩
    simp [setState_none hsession, CutoverManager.schedulePoll, hsession]
  | some entry =>
    cases hfound : outcome.found with
    | some address => exact .inl ⟨entry, rfl, _, _, rfl⟩
    | none => exact .inr ⟨_, fun _ ↦ rfl, rfl⟩

theorem Turn.polled (h : Turn s task.window) (hhome : s.Home task.window)
    (outcome : ReconnectOutcome) : Kept (s.polled task outcome) := by
  rcases polled_eq s task outcome with ⟨entry, -, declared, patch, heq⟩ | ⟨patch, hpatch, heq⟩
  · rw [heq]
    exact ((h.declare declared _).setState hhome patch).clearTimer
  · rw [heq]
    refine (h.setState_running hhome fun state ↦ ?_).schedulePoll (setState_home hhome)
    simp [CutoverStep.IsOver, hpatch state]

/-- The port that is read back is the one that was enabled, or the window fails. -/
theorem readBack_eq (s : CutoverManager) (task : CutoverTask) (value : Except String String) :
    (value.toOption = some (toString task.port) ∧
      s.readBack task value = s.await task.window task.port .persisting) ∨
    (value.toOption ≠ some (toString task.port) ∧
      ∃ detail, s.readBack task value = s.fail task.window detail) := by
  cases value with
  | error err => exact .inr ⟨by simp [Except.toOption], _, by rw [readBack]⟩
  | ok serviceReadback =>
    by_cases hport : serviceReadback = toString task.port
    · exact .inl ⟨by simp [Except.toOption, hport], by rw [readBack, if_neg (not_not_intro hport)]⟩
    · exact .inr ⟨by simpa [Except.toOption] using hport, _, by rw [readBack, if_pos hport]⟩

theorem Turn.readBack (h : Turn s task.window) {value : Except String String}
    (hhome : value.toOption ≠ some (toString task.port) → s.Home task.window) :
    Kept (s.readBack task value) := by
  rcases readBack_eq s task value with ⟨-, heq⟩ | ⟨hvalue, detail, heq⟩
  · rw [heq]
    exact h.await _ _
  · rw [heq, CutoverManager.fail]
    exact h.setState (hhome hvalue) _

theorem Turn.persisted (h : Turn s task.window) (hhome : s.Home task.window) (survives : Bool)
    (now : Nat) : Kept (s.persisted task survives now) :=
  (h.setState_running hhome fun _ ↦ by simp [CutoverStep.IsOver]).schedulePoll (setState_home hhome)

theorem Kept.step (hk : Kept s) (hown : InOwnWindow s e) (hstep : s.step e = some t) : Kept t := by
  cases e with
  | start port medium address now =>
    cases hstep
    exact hk.start port medium address now
  | enabled id error =>
    obtain ⟨task, htask, rfl⟩ := Option.map_eq_some_iff.mp hstep
    have hturn := hk.leave (taskOf_mem htask)
    cases error with
    | none => exact hturn.await _ _
    | some error =>
      rw [enabled, fail]
      exact hturn.setState (hown task htask) _
  | readBack id value =>
    obtain ⟨task, htask, rfl⟩ := Option.map_eq_some_iff.mp hstep
    exact (hk.leave (taskOf_mem htask)).readBack (hown task htask)
  | persisted id survives now =>
    obtain ⟨task, htask, rfl⟩ := Option.map_eq_some_iff.mp hstep
    exact (hk.leave (taskOf_mem htask)).persisted (hown task htask).1 survives now
  | fire id now =>
    obtain ⟨timer, htimer, rfl⟩ := Option.map_eq_some_iff.mp hstep
    have hmem := mem_of_find?_eq_some htimer
    exact (hk.drop hmem).poll (hk.home_of_timer hmem) now
  | polled id outcome =>
    obtain ⟨task, htask, rfl⟩ := Option.map_eq_some_iff.mp hstep
    exact (hk.leave (taskOf_mem htask)).polled (hown task htask) outcome
  | cancel =>
    cases hstep
    exact hk.cancel

/-! ## When one event is safe -/

@[simp]
theorem timers_setState : (s.setState window patch).timers = s.timers := by
  rw [setState]
  split <;> rfl

@[simp]
theorem polls_setState : (s.setState window patch).polls = s.polls := by
  rw [setState]
  split <;> rfl

@[simp]
theorem polls_schedulePoll : (s.schedulePoll window).polls = s.polls := by
  rw [schedulePoll]
  split <;> rfl

@[simp]
theorem acts_schedulePoll : (s.schedulePoll window).acts = s.acts := by
  rw [schedulePoll]
  split <;> rfl

theorem schedulePoll_none (hsession : s.session = none) : s.schedulePoll window = s := by
  simp [schedulePoll, hsession]

theorem length_timers_schedulePoll (hsession : s.session = some entry) :
    (s.schedulePoll window).timers.length = s.timers.length + 1 := by
  simp [schedulePoll, hsession]

/-- The window that is there is in the state from before. -/
theorem session_schedulePoll : ∀ e ∈ (s.schedulePoll window).session,
    ∃ entry ∈ s.session, e.state = entry.state := by
  intro e he
  rw [schedulePoll] at he
  split at he
  · exact ⟨e, he, rfl⟩
  · rename_i entry hsession
    cases he
    exact ⟨entry, hsession, rfl⟩

/-- The window that is there is in the new state. -/
theorem session_setState : ∀ e ∈ (s.setState window patch).session,
    ∃ entry ∈ s.session, e.state = patch entry.state := by
  intro e he
  rw [setState] at he
  split at he
  · rename_i hsession
    simp [hsession] at he
  · rename_i entry hsession
    cases he
    exact ⟨entry, hsession, rfl⟩

theorem polls_leave : (s.leave task).polls = s.polls.erase task :=
  erase_filter.symm

theorem polls_leave_of_ne (hphase : task.phase ≠ .polling) : (s.leave task).polls = s.polls := by
  rw [polls_leave]
  refine erase_of_not_mem fun hmem ↦ hphase ?_
  simpa using (mem_filter.mp hmem).2

theorem polls_await_of_ne (hphase : phase ≠ .polling) : (s.await window port phase).polls = s.polls := by
  simp [polls, await, hphase]

theorem length_polls_await : (s.await window port .polling).polls.length = s.polls.length + 1 := by
  simp [polls, await]

theorem mem_acts_setState {p : Nat × Nat} (hp : p ∈ s.acts) : p ∈ (s.setState window patch).acts := by
  rw [setState]
  split
  · exact hp
  · exact mem_append_left _ hp

theorem Watched.leave (hw : Watched s) (task : CutoverTask) : Watched (s.leave task) := by
  refine ⟨?_, hw.own, fun e he hover ↦ ?_⟩
  · have hsingle := hw.single
    have hle : (s.polls.erase task).length ≤ s.polls.length := length_erase_le
    rw [polls_leave]
    exact Nat.le_trans (Nat.add_le_add_left hle _) hsingle
  · rw [polls_leave]
    exact ⟨(hw.ended e he hover).1, fun p hp ↦ (hw.ended e he hover).2 p (mem_of_mem_erase hp)⟩

/-- A poll in flight is the only one. -/
theorem Watched.polls_leave (hw : Watched s) (hmem : task ∈ s.tasks) (hphase : task.phase = .polling) :
    (s.leave task).polls = [] := by
  have hpoll : task ∈ s.polls := mem_filter.mpr ⟨hmem, by simp [hphase]⟩
  have hlength := length_erase_of_mem hpoll
  have hsingle := hw.single
  rw [CutoverManager.polls_leave]
  exact length_eq_zero_iff.mp (by omega)

/-- A timer that was set is the only one, and no poll is in flight. -/
theorem Watched.drop (hw : Watched s) (hmem : timer ∈ s.timers) :
    (s.drop timer).timers = [] ∧ s.polls = [] := by
  have hlength := length_erase_of_mem hmem
  have hpos := length_pos_of_mem hmem
  have hsingle := hw.single
  exact ⟨length_eq_zero_iff.mp (show (s.timers.erase timer).length = 0 by omega),
    length_eq_zero_iff.mp (by omega)⟩

theorem Watched.await (hw : Watched s) (hphase : phase ≠ .polling) :
    Watched (s.await window port phase) := by
  refine ⟨?_, hw.own, fun e he hover ↦ ?_⟩
  · rw [polls_await_of_ne hphase]
    exact hw.single
  · rw [polls_await_of_ne hphase]
    exact hw.ended e he hover

/-- Only the window that is there is touched. -/
theorem own_setState (hown : ∀ p ∈ s.acts, p.1 = p.2) :
    (∀ p ∈ (s.setState window patch).acts, p.1 = p.2) ↔ s.Home window := by
  cases hsession : s.session with
  | none => simpa [setState_none hsession, Home, hsession] using hown
  | some entry =>
    have happ : (∀ p ∈ s.acts ++ [(window, entry.window)], p.1 = p.2) ↔ window = entry.window := by
      constructor
      · exact fun h ↦ h (window, entry.window) (by simp)
      · rintro rfl p hp
        rcases mem_append.mp hp with hp | hp
        · exact hown p hp
        · rw [mem_singleton.mp hp]
    rw [setState_some hsession, happ]
    simp [Home, hsession, eq_comm]

theorem Turn.watched_setState (h : Turn s window) (hw : Watched s) :
    Watched (s.setState window patch) ↔ s.Home window := by
  refine ⟨fun ht ↦ (own_setState hw.own).mp ht.own, fun hhome ↦ ⟨?_, (own_setState hw.own).mpr hhome,
    fun e he _ ↦ ?_⟩⟩
  · rw [timers_setState, polls_setState]
    exact hw.single
  · rw [timers_setState, polls_setState, setState_home hhome e he]
    exact ⟨h.timers_eq_nil hhome, h.polls_ne⟩

/-- A state that is not over, and a timer for the next poll. -/
theorem Turn.watched_schedulePoll (h : Turn s window) (hw : Watched s)
    (hpatch : ∀ state, ¬ (patch state).step.IsOver) :
    Watched ((s.setState window patch).schedulePoll window) ↔
      s.Home window ∧ (s.session.isSome → s.polls = []) := by
  constructor
  · intro ht
    have hown : ∀ p ∈ (s.setState window patch).acts, p.1 = p.2 := by simpa using ht.own
    refine ⟨(own_setState hw.own).mp hown, fun hsome ↦ ?_⟩
    obtain ⟨entry, hsession⟩ := Option.isSome_iff_exists.mp hsome
    have hsingle := ht.single
    rw [length_timers_schedulePoll (by rw [setState_some hsession]), polls_schedulePoll,
      polls_setState] at hsingle
    exact length_eq_zero_iff.mp (by omega)
  · rintro ⟨hhome, hpolls⟩
    have hwatched : Watched (s.setState window patch) := (h.watched_setState hw).mpr hhome
    cases hsession : s.session with
    | none =>
      rw [setState_none hsession, schedulePoll_none hsession]
      exact hw
    | some entry =>
      refine ⟨?_, by simpa using hwatched.own, fun e he hover ↦ ?_⟩
      · rw [length_timers_schedulePoll (by rw [setState_some hsession]), polls_schedulePoll,
          polls_setState, timers_setState, h.timers_eq_nil hhome, hpolls (by simp [hsession])]
        exact Nat.le_refl _
      · obtain ⟨entry', hentry', hstate'⟩ := session_schedulePoll e he
        obtain ⟨entry, -, hstate⟩ := session_setState entry' hentry'
        rw [hstate', hstate] at hover
        exact absurd hover (hpatch entry.state)

theorem Kept.watched_clearTimer (hk : Kept s) (hw : Watched s) : Watched s.clearTimer := by
  have hnil := hk.clearTimer_timers
  refine ⟨?_, ?_, fun e he hover ↦ ?_⟩
  · have hsingle := hw.single
    rw [hnil, clearTimer_polls, length_nil]
    omega
  · rw [clearTimer_acts]
    exact hw.own
  · obtain ⟨entry, hentry, hwindow, hstate⟩ := clearTimer_session e he
    rw [hstate] at hover
    rw [clearTimer_polls, hwindow]
    exact ⟨hnil, (hw.ended entry hentry hover).2⟩

/-- A poll that starts is the only thing on the way. -/
theorem Turn.watched_poll (h : Turn s window) (hw : Watched s) (hhome : s.Home window)
    (htimers : s.timers = []) (hpolls : s.polls = []) (now : Nat) : Watched (s.poll window now) := by
  rw [CutoverManager.poll]
  split
  · exact hw
  · split
    · exact (h.setState hhome _).watched_clearTimer ((h.watched_setState hw).mpr hhome)
    · refine ⟨?_, (own_setState hw.own).mpr hhome, fun e he hover ↦ ?_⟩
      · rw [length_polls_await, polls_setState, hpolls]
        show (s.setState window _).timers.length + 1 ≤ 1
        rw [timers_setState, htimers]
        exact Nat.le_refl _
      · obtain ⟨entry, -, hstate⟩ := session_setState e he
        rw [hstate] at hover
        simp [CutoverStep.IsOver] at hover

theorem Turn.watched_polled (h : Turn s task.window) (hw : Watched s) (hpolls : s.polls = [])
    (outcome : ReconnectOutcome) : Watched (s.polled task outcome) ↔ s.Home task.window := by
  rcases polled_eq s task outcome with ⟨entry, hentry, declared, patch, heq⟩ | ⟨patch, hpatch, heq⟩
  · rw [heq]
    constructor
    · intro ht e he
      obtain rfl := Option.some.inj (he.symm.trans hentry)
      refine (ht.own (task.window, e.window) ?_).symm
      rw [clearTimer_acts]
      exact mem_acts_setState (by simp)
    · intro hhome
      have hturn := h.declare declared (s.acts ++ [(task.window, entry.window)])
      refine (hturn.setState hhome patch).watched_clearTimer ((hturn.watched_setState ⟨hw.single, ?_,
        hw.ended⟩).mpr hhome)
      intro p hp
      rcases mem_append.mp hp with hp | hp
      · exact hw.own p hp
      · rw [mem_singleton.mp hp]
        exact (hhome entry hentry).symm
  · rw [heq, h.watched_schedulePoll hw fun state ↦ by simp [CutoverStep.IsOver, hpatch state]]
    exact and_iff_left fun _ ↦ hpolls

theorem watched_start (hk : Kept s) (hw : Watched s) (port : Option Nat) (medium : ConnectionMedium)
    (address : Option String) (now : Nat) : Watched (s.start port medium address now) := by
  refine Watched.await ⟨?_, ?_, fun e he hover ↦ ?_⟩ (by decide)
  · exact (hk.watched_clearTimer hw).single
  · intro p hp
    rcases mem_append.mp hp with hp | hp
    · exact (hk.watched_clearTimer hw).own p hp
    · rw [mem_singleton.mp hp]
  · cases he
    simp [CutoverStep.IsOver] at hover

theorem Kept.watched_cancel (hk : Kept s) (hw : Watched s) : Watched s.cancel :=
  ⟨(hk.watched_clearTimer hw).single, (hk.watched_clearTimer hw).own, by simp [CutoverManager.cancel]⟩

/-- **One event.**  It leaves one poll or timer and every window to its own if and only if it comes back
to its own window. -/
theorem watched_step_iff (hk : Kept s) (hw : Watched s) (hstep : s.step e = some t) :
    Watched t ↔ InOwnWindow s e := by
  cases e with
  | start port medium address now =>
    cases hstep
    exact iff_of_true (watched_start hk hw port medium address now) trivial
  | enabled id error =>
    obtain ⟨task, htask, rfl⟩ := Option.map_eq_some_iff.mp hstep
    have hturn := hk.leave (taskOf_mem htask)
    cases error with
    | none => exact iff_of_true ((hw.leave task).await (by decide)) trivial
    | some error =>
      rw [enabled, fail, hturn.watched_setState (hw.leave task)]
      simp only [InOwnWindow, htask, Option.mem_some_iff, forall_eq']
      exact Iff.rfl
  | readBack id value =>
    obtain ⟨task, htask, rfl⟩ := Option.map_eq_some_iff.mp hstep
    have hturn := hk.leave (taskOf_mem htask)
    simp only [InOwnWindow, htask, Option.mem_some_iff, forall_eq']
    rcases readBack_eq (s.leave task) task value with ⟨hvalue, heq⟩ | ⟨hvalue, detail, heq⟩
    · rw [heq]
      exact iff_of_true ((hw.leave task).await (by decide)) (absurd hvalue)
    · rw [heq, fail, hturn.watched_setState (hw.leave task)]
      exact ⟨fun hhome _ ↦ hhome, fun hhome ↦ hhome hvalue⟩
  | persisted id survives now =>
    obtain ⟨task, htask, rfl⟩ := Option.map_eq_some_iff.mp hstep
    have hturn := hk.leave (taskOf_mem htask)
    rw [persisted, hturn.watched_schedulePoll (hw.leave task) fun _ ↦ by simp [CutoverStep.IsOver],
      polls_leave_of_ne (by simp [taskOf_phase htask])]
    simp only [InOwnWindow, htask, Option.mem_some_iff, forall_eq']
    exact Iff.rfl
  | fire id now =>
    obtain ⟨timer, htimer, rfl⟩ := Option.map_eq_some_iff.mp hstep
    have hmem := mem_of_find?_eq_some htimer
    obtain ⟨htimers, hpolls⟩ := hw.drop hmem
    have hwatched : Watched (s.drop timer) := by
      refine ⟨?_, hw.own, fun e he hover ↦ ⟨htimers, (hw.ended e he hover).2⟩⟩
      rw [htimers, show (s.drop timer).polls = [] from hpolls]
      exact Nat.zero_le _
    exact iff_of_true ((hk.drop hmem).watched_poll hwatched (hk.home_of_timer hmem) htimers hpolls now)
      trivial
  | polled id outcome =>
    obtain ⟨task, htask, rfl⟩ := Option.map_eq_some_iff.mp hstep
    have hmem := taskOf_mem htask
    rw [(hk.leave hmem).watched_polled (hw.leave task) (hw.polls_leave hmem (taskOf_phase htask))]
    simp only [InOwnWindow, htask, Option.mem_some_iff, forall_eq']
    exact Iff.rfl
  | cancel =>
    cases hstep
    exact iff_of_true (hk.watched_cancel hw) trivial

/-! ## Every run -/

/-- **One poll at a time.**  In a run of one device, whatever is started, started again or cancelled
while a step or a poll awaits, there is never more than one poll or poll timer, no step or poll touches
a window but its own, and a window that is done or failed has none to come, if and only if every step
and poll that changes a state comes back to its own window, and no window is armed while the poll of
another is still in flight. -/
theorem watched_once_iff {tcpPort armWindowSec : Nat}
    (h : Steps (Steps.By step) (new tcpPort armWindowSec) es t) :
    (∀ pre, pre <+: es → ∀ u, Steps (Steps.By step) (new tcpPort armWindowSec) pre u → Watched u) ↔
      Steps.Guarded (Steps.By step) InOwnWindow (new tcpPort armWindowSec) es t := by
  have hwatched : Watched (new tcpPort armWindowSec) := ⟨by simp [new, polls], by simp [new], by simp [new]⟩
  exact Steps.always_iff_guarded h hwatched (kept_new tcpPort armWindowSec)
    (fun _ _ _ hk he hg ↦ hk.step hg he) fun _ _ _ hk hw he ↦ watched_step_iff hk hw he

/-- A window that is armed, and whose poll finds the phone. -/
theorem watched_once_armed : ∃ t,
    Steps (Steps.By step) (new 5555 60)
      [.start none .wired none 0, .enabled 0 none, .readBack 1 (.ok "5555"), .persisted 2 true 5,
        .fire 3 10, .polled 4 (.connected "10.0.0.7:5555")] t ∧
    ∀ pre, pre <+: [.start none .wired none 0, .enabled 0 none, .readBack 1 (.ok "5555"),
        .persisted 2 true 5, .fire 3 10, .polled 4 (.connected "10.0.0.7:5555")] →
      ∀ u, Steps (Steps.By step) (new 5555 60) pre u → Watched u :=
  ⟨_, Steps.steps_by_iff.mpr rfl,
    (watched_once_iff (Steps.steps_by_iff.mpr rfl)).mpr (Steps.guarded_by_iff.mpr (by decide +kernel))⟩

/-- A window that is started again while its poll is in flight: the poll comes back to the new window,
which was still enabling, and arms it. -/
theorem not_watched_restarted : ¬ ∀ (tcpPort armWindowSec : Nat) (es : List Event) (t : CutoverManager),
    Steps (Steps.By step) (new tcpPort armWindowSec) es t → Watched t := by
  intro hall
  have hwatched := hall 5555 60
    [.start none .wired none 0, .enabled 0 none, .readBack 1 (.ok "5555"), .persisted 2 true 5,
      .fire 3 10, .start none .wired none 20, .polled 4 (.notFound 1 none)] _
    (Steps.steps_by_iff.mpr rfl)
  exact absurd hwatched.own (by decide +kernel)

end CutoverManager

end Enkaku.Registry
