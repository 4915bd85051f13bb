import Enkaku.Adb.QueueAdmission

/-!
# One task of a serial at a time

What a step of the queue can do to its tasks is said once (`does_of_step`): it leaves them alone, it
moves one of them on (`Moves`), it accepts one, or it ends the link of one.  What all of these keep
(`Kept`) is that a task whose turn has come has nothing but ended links before it on its serial.
That the tasks of a serial exclude each other, start in the order they were accepted and are counted
by `pending` follows (`fifo`).
-/

set_option autoImplicit false

namespace Enkaku.Adb

open List

def Stage.isPastBody : Stage → Bool
  | .running | .settled | .left => true
  | _ => false

/-- The body of the task was called: a task that was given up on settles without. -/
def Task.hasBegun (task : Task) : Bool := task.started && task.stage.isPastBody

/-- A task that has started has not given up, one behind the gate has started, and one that can still
be given up on is before it. -/
structure Task.Sane (task : Task) : Prop where
  excl : task.started = true → task.gaveUpWith = none
  started : task.stage = .acquiring ∨ task.stage = .granted ∨ task.stage = .running →
    task.started = true
  watching : task.watching = true → task.stage = .queued ∨ ∃ gate, task.stage = .gated gate

namespace DeviceQueue

variable {s s' u : DeviceQueue} {e : Event} {es : List Event} {t j : Nat} {a b : Task}
  {said : List QueueEntry} {serial : String} {opts : QueueRunOptions}

/-! ## What a step does to the tasks -/

/-- The task is given up on because its own timer or its own signal fired. -/
def Cause (e : Event) (t : Nat) (a : Task) : Refusal → Prop
  | .timedOut .. => e = .timeout t
  | .aborted => e = .abort t ∨ a.signal = some true
  | .depth .. => False

/-- What the log says of a task that is moved on. -/
inductive Notes (e : Event) (t : Nat) (a b : Task) : List QueueEntry → Prop
  | nothing (hb : b.hasBegun = a.hasBegun) (hg : b.gaveUpWith = a.gaveUpWith) : Notes e t a b []
  | refused {r : Refusal} (he : Cause e t a r) (hb : b.hasBegun = a.hasBegun)
      (ha : a.gaveUpWith = none) (hg : b.gaveUpWith = some r) :
      Notes e t a b [.answered t (.refused r)]
  | began (ha : a.hasBegun = false) (hb : b.hasBegun = true)
      (hg : b.gaveUpWith = a.gaveUpWith) : Notes e t a b [.began t a.serial]
  | done {ok : Bool} (he : e = .complete t ok) (hb : b.hasBegun = a.hasBegun)
      (hg : b.gaveUpWith = a.gaveUpWith) : Notes e t a b [.answered t (.done ok)]

/-- One task is moved on, on the chain it is on. -/
structure Moves (e : Event) (s s' : DeviceQueue) (t : Nat) (a b : Task) (said : List QueueEntry) :
    Prop where
  get : s.tasks[t]? = some a
  tasks : s'.tasks = s.tasks.set t b := by simp
  entries : s'.entries = s.entries := by simp
  chains : s'.chains = s.chains := by simp
  log : s'.log = s.log ++ said := by simp
  noted : Notes e t a b said
  serial : b.serial = a.serial := by simp
  entry : b.entry = a.entry := by simp
  prev : b.prev = a.prev := by simp
  maxDepth : b.maxDepth = a.maxDepth := by simp
  signal : b.signal = a.signal := by simp
  notLeft : a.stage ≠ .left ∧ b.stage ≠ .left
  turn : b.stage ≠ .queued → a.stage ≠ .queued ∨ s.isTurn a = true
  sane : a.Sane → b.Sane

/-- What a step can do to the tasks. -/
inductive Does (e : Event) (s s' : DeviceQueue) : Prop
  | nothing (tasks : s'.tasks = s.tasks) (entries : s'.entries = s.entries)
      (chains : s'.chains = s.chains)
      (log : ∃ rs : List Refusal, s'.log = s.log ++ rs.map .rejected)
  | moves {t : Nat} {a b : Task} {said : List QueueEntry} (h : Moves e s s' t a b said)
  | accepts {serial : String} {opts : QueueRunOptions}
      (hdepth : ((s.entryOf serial).pending : Int) < (s.newTask serial opts).maxDepth)
      (h : s' = s.accept serial opts ∨
        ∃ t a b said, Moves e (s.accept serial opts) s' t a b said)
  | leaves {t : Nat} {task : Task} {entry : ChainEntry} (get : s.tasks[t]? = some task)
      (stage : task.stage = .settled) (hentry : s.entries[task.entry]? = some entry)
      (h : s' =
        { s with
          tasks := s.tasks.set t { task with stage := .left }
          entries := s.entries.set task.entry { entry with pending := entry.pending - 1 }
          chains :=
            if entry.pending - 1 = 0 then OrdMap.erase task.serial s.chains else s.chains })

theorem Does.rfl : Does e s s := .nothing (by simp) (by simp) (by simp) ⟨[], by simp⟩

theorem giveUp_cases {r : Refusal} (hget : s.tasks[t]? = some a) (hcause : Cause e t a r)
    (hleft : a.stage ≠ .left) :
    s.giveUp t a r = s ∨ ∃ b said, Moves e s (s.giveUp t a r) t a b said := by
  rw [giveUp]
  split_ifs with hgiven
  · exact .inl (by simp)
  · simp only [Bool.or_eq_true, not_or, Bool.not_eq_true, Option.isSome_eq_false_iff,
      Option.isNone_iff_eq_none] at hgiven
    obtain ⟨hstarted, hgave⟩ := hgiven
    refine .inr ⟨{ a with gaveUpWith := some r }, [.answered t (.refused r)], ?_⟩
    exact
      { get := hget
        noted := .refused hcause (by simp [Task.hasBegun]) hgave (by simp)
        notLeft := ⟨hleft, hleft⟩
        turn := .inl
        sane := fun h ↦ ⟨fun h' ↦ by simp [hstarted] at h', h.started, h.watching⟩ }

theorem does_giveUp {r : Refusal} (hget : s.tasks[t]? = some a) (hcause : Cause e t a r)
    (hsane : a.Sane) (hwatching : a.watching = true) : Does e s (s.giveUp t a r) := by
  have hleft : a.stage ≠ .left := by
    rcases hsane.watching hwatching with h | ⟨gate, h⟩ <;> simp [h]
  rcases giveUp_cases hget hcause hleft with heq | ⟨b, said, h⟩
  · rw [heq]
    exact .rfl
  · exact .moves h

theorem does_run : Does (.run serial opts) s (s.run serial opts) := by
  rw [run]
  split_ifs with hdepth habort
  · exact .nothing (by simp) (by simp) (by simp) 
      ⟨[.depth serial (opts.maxDepth.getD defaultMaxQueueDepth)], by simp⟩
  · have hget : (s.accept serial opts).tasks[s.tasks.length]? = some (s.newTask serial opts) := by
      simp [accept]
    refine .accepts (Int.not_le.mp hdepth) ?_
    rcases giveUp_cases hget (e := .run serial opts) (r := .aborted)
      (.inr habort) (by simp [newTask]) with heq | ⟨b, said, h⟩
    · exact .inl heq
    · exact .inr ⟨_, _, _, _, h⟩
  · exact .accepts (Int.not_le.mp hdepth) (.inl (by simp))

theorem does_turn (h : s.turn t = some s') : Does e s s' := by
  rw [turn] at h
  split at h
  next a hget =>
    split_ifs at h with hturn
    obtain ⟨hstage, hprev⟩ := hturn
    cases h
    exact .moves (b := { a with stage := .gated s.gate })
      { get := hget
        noted := .nothing (by simp [Task.hasBegun, Stage.isPastBody, hstage]) (by simp)
        notLeft := by simp [hstage]
        turn := fun _ ↦ .inr hprev
        sane := fun hs ↦ ⟨hs.excl, by simp, fun _ ↦ .inr ⟨s.gate, by simp⟩⟩ }
  · simp at h

theorem does_gatePassed (hsane : ∀ a, s.tasks[t]? = some a → a.Sane)
    (h : s.gatePassed t = some s') : Does e s s' := by
  rw [gatePassed] at h
  split at h
  next a hget =>
    split at h
    next gate hstage =>
      split_ifs at h
      split at h
      next r hgave =>
        cases h
        have hstarted : a.started = false := by
          by_contra hstarted
          simpa [hgave] using (hsane a hget).excl (by simpa using hstarted)
        exact .moves (b := { a with stage := .settled, watching := false })
          { get := hget
            noted := .nothing (by simp [Task.hasBegun, Stage.isPastBody, hstarted]) (by simp)
            notLeft := by simp [hstage]
            turn := fun _ ↦ .inl (by simp [hstage])
            sane := fun hs ↦ ⟨hs.excl, by simp, by simp⟩ }
      next hgave =>
        cases h
        exact .moves
          (b := { a with
            stage := if t ∈ (s.sem.acquire t).waiters then .acquiring else .granted
            started := true
            watching := false })
          { get := hget
            noted := .nothing (by split_ifs <;> simp [Task.hasBegun, Stage.isPastBody, hstage]) (by simp)
            notLeft := by split_ifs <;> simp [hstage]
            turn := fun _ ↦ .inl (by simp [hstage])
            sane := fun hs ↦ ⟨fun _ ↦ hgave, fun _ ↦ by simp, by simp⟩ }
    · simp at h
  · simp at h

theorem does_grant (hadmitted : Admitted s) (h : s.grant = some s') : Does e s s' := by
  rw [grant] at h
  split at h
  next t ws sem hwoken hsem =>
    obtain ⟨a, hget, rfl⟩ := Option.map_eq_some_iff.mp h
    have hstage := hadmitted.stage_of_woken hwoken hget
    exact .moves (b := { a with stage := .granted })
      { get := hget
        noted := .nothing (by simp [Task.hasBegun, Stage.isPastBody, hstage]) (by simp)
        notLeft := by simp [hstage]
        turn := fun _ ↦ .inl (by simp [hstage])
        sane := fun hs ↦ ⟨hs.excl, fun _ ↦ hs.started (.inl hstage), fun hw ↦ by
          simpa [hstage] using hs.watching hw⟩ }
  · simp at h

theorem does_begin (hsane : ∀ a, s.tasks[t]? = some a → a.Sane) (h : s.begin t = some s') :
    Does e s s' := by
  rw [begin] at h
  split at h
  next a hget =>
    split_ifs at h with hstage
    cases h
    have hstarted := (hsane a hget).started (.inr (.inl hstage))
    exact .moves (b := { a with stage := .running })
      { get := hget
        noted := .began (by simp [Task.hasBegun, Stage.isPastBody, hstage])
          (by simp [Task.hasBegun, Stage.isPastBody, hstarted]) (by simp)
        notLeft := by simp [hstage]
        turn := fun _ ↦ .inl (by simp [hstage])
        sane := fun hs ↦ ⟨hs.excl, fun _ ↦ hstarted, fun hw ↦ by
          simpa [hstage] using hs.watching hw⟩ }
  · simp at h

theorem answerIdle_eq (s : DeviceQueue) :
    s.answerIdle = { s with
      idleWaiters := s.answerIdle.idleWaiters, drained := s.answerIdle.drained } := by
  rw [answerIdle]
  split_ifs <;> simp

theorem does_complete {ok : Bool} (h : s.complete t ok = some s') : Does (.complete t ok) s s' := by
  rw [complete] at h
  split at h
  next a hget =>
    split_ifs at h with hstage
    cases h
    rw [answerIdle_eq]
    exact .moves (b := { a with stage := .settled })
      { get := hget
        noted := .done (Eq.refl _) (by simp [Task.hasBegun, Stage.isPastBody, hstage]) (by simp)
        notLeft := by simp [hstage]
        turn := fun _ ↦ .inl (by simp [hstage])
        sane := fun hs ↦ ⟨hs.excl, by simp, fun hw ↦ by simpa [hstage] using hs.watching hw⟩ }
  · simp at h

theorem does_leave (h : s.leave t = some s') : Does e s s' := by
  rw [leave] at h
  split at h
  next a hget =>
    split_ifs at h with hstage
    obtain ⟨entry, hentry, rfl⟩ := Option.map_eq_some_iff.mp h
    exact .leaves hget hstage hentry (by simp)
  · simp at h

/-- **What a step does to the tasks.** -/
theorem does_of_step (hadmitted : Admitted s)
    (hsane : ∀ (t : Nat) (a : Task), s.tasks[t]? = some a → a.Sane)
    (h : s.step e = some s') : Does e s s' := by
  cases e with
  | run serial opts =>
    cases h
    exact does_run
  | timeout t =>
    rw [step, timeout] at h
    split at h
    next a hget =>
      split_ifs at h with hwatching
      cases h
      exact does_giveUp hget (by simp [Cause]) (hsane t a hget) hwatching
    · simp at h
  | abort t =>
    rw [step, abort] at h
    split at h
    next a hget =>
      split_ifs at h with hwatching
      cases h
      exact does_giveUp hget (by simp [Cause]) (hsane t a hget) hwatching.1
    · simp at h
  | turn t => exact does_turn h
  | gatePassed t => exact does_gatePassed (hsane t) h
  | grant => exact does_grant hadmitted h
  | begin t => exact does_begin (hsane t) h
  | complete t ok => exact does_complete h
  | leave t => exact does_leave h
  | pause =>
    cases h
    rw [pause]
    split_ifs
    · exact .rfl
    · exact .nothing (by simp) (by simp) (by simp) ⟨[], by simp⟩
  | resume =>
    cases h
    exact .nothing (by simp [resume]) (by simp [resume]) (by simp [resume]) ⟨[], by simp [resume]⟩
  | waitIdle =>
    cases h
    by_cases hidle : s.inFlight = 0
    · rw [waitIdle, if_pos hidle]
      exact .nothing (by simp) (by simp) (by simp) ⟨[], by simp⟩
    · rw [waitIdle, if_neg hidle]
      exact .nothing (by simp) (by simp) (by simp) ⟨[], by simp⟩
  | idleTimeout i =>
    obtain ⟨w, -, rfl⟩ := Option.map_eq_some_iff.mp h
    exact .nothing (by simp) (by simp) (by simp) ⟨[], by simp⟩
  | resize max =>
    cases h
    exact .nothing (by simp) (by simp) (by simp) ⟨[], by simp⟩

/-! ## The chains -/

/-- The accepted tasks of a serial whose link has not ended. -/
def unfinished (s : DeviceQueue) (serial : String) : Nat :=
  s.tasks.countP fun a ↦ a.serial = serial ∧ a.stage ≠ .left

/-- The links of a serial before a place have ended. -/
def Ended (s : DeviceQueue) (t : Nat) (serial : String) : Prop :=
  ∀ j b, j < t → s.tasks[j]? = some b → b.serial = serial → b.stage = .left

/-- The task is the last of its serial that was accepted. -/
def IsLast (s : DeviceQueue) (t : Nat) (a : Task) : Prop :=
  s.tasks[t]? = some a ∧ ∀ j b, t < j → s.tasks[j]? = some b → b.serial ≠ a.serial

/-- What the task was chained to is the link before it on its serial, if that has not ended. -/
def Linked (s : DeviceQueue) (t : Nat) (a : Task) : Prop :=
  match a.prev with
  | none => s.Ended t a.serial
  | some p => p < t ∧ ∃ c, s.tasks[p]? = some c ∧ c.serial = a.serial ∧
      ∀ j b, p < j → j < t → s.tasks[j]? = some b → b.serial ≠ a.serial

/-- The entry of a serial counts the links that have not ended, and its tail is the last of them. -/
structure Chain (s : DeviceQueue) (serial : String) (e : Nat) (entry : ChainEntry) : Prop where
  get : s.entries[e]? = some entry
  pending : entry.pending = s.unfinished serial
  pos : 0 < entry.pending
  tail : ∃ p c, entry.tail = some p ∧ c.serial = serial ∧ s.IsLast p c
  own : ∀ (t : Nat) (a : Task), s.tasks[t]? = some a → a.serial = serial → a.stage ≠ .left → a.entry = e

structure Chained (s : DeviceQueue) : Prop where
  sane : ∀ (t : Nat) a, s.tasks[t]? = some a → a.Sane
  link : ∀ t a, s.tasks[t]? = some a → s.Linked t a
  turn : ∀ (t : Nat) a, s.tasks[t]? = some a → a.stage ≠ .queued → s.Ended t a.serial
  idle : ∀ serial, OrdMap.get? serial s.chains = none → s.Ended s.tasks.length serial
  chain : ∀ serial e, OrdMap.get? serial s.chains = some e → ∃ entry, s.Chain serial e entry
  distinct : ∀ serial serial' e, OrdMap.get? serial s.chains = some e →
    OrdMap.get? serial' s.chains = some e → serial = serial'
  depth : ∀ t a, s.IsLast t a → (s.unfinished a.serial : Int) ≤ a.maxDepth

theorem chained_new (sem : Semaphore) : Chained (new sem) := by
  constructor <;> simp [new, Ended, IsLast]

/-- What a task that is moved on, or whose link ends, keeps. -/
structure Same (a b : Task) : Prop where
  serial : b.serial = a.serial
  entry : b.entry = a.entry
  prev : b.prev = a.prev
  maxDepth : b.maxDepth = a.maxDepth
  signal : b.signal = a.signal
  left : a.stage = .left → b.stage = .left

theorem same_left (a : Task) : Same a { a with stage := .left } :=
  ⟨by simp, by simp, by simp, by simp, by simp, fun _ ↦ by simp⟩

/-- The tasks of one state are those of the other, further on. -/
structure Evolves (s s' : DeviceQueue) : Prop where
  forth : ∀ {j : Nat} {a : Task}, s.tasks[j]? = some a → ∃ b, s'.tasks[j]? = some b ∧ Same a b
  back : ∀ {j : Nat} {b : Task}, s'.tasks[j]? = some b → ∃ a, s.tasks[j]? = some a ∧ Same a b

theorem evolves_set (hget : s.tasks[t]? = some a) (htasks : s'.tasks = s.tasks.set t b)
    (hsame : Same a b) : Evolves s s' := by
  have hlt : t < s.tasks.length := (List.getElem?_eq_some_iff.mp hget).1
  have hrefl : ∀ x : Task, Same x x := fun x ↦ ⟨by simp, by simp, by simp, by simp, by simp, id⟩
  have hset : ∀ j, s'.tasks[j]? = if t = j then some b else s.tasks[j]? := fun j ↦ by
    rw [htasks, getElem?_set]
    split_ifs <;> simp_all
  constructor
  case forth =>
    intro j x hx
    rw [hset]
    split_ifs with hj
    · obtain rfl := Option.some.inj ((hj ▸ hget).symm.trans hx)
      exact ⟨b, by simp, hsame⟩
    · exact ⟨x, hx, hrefl x⟩
  case back =>
    intro j x hx
    rw [hset] at hx
    split_ifs at hx with hj
    · cases hx
      exact ⟨a, hj ▸ hget, hsame⟩
    · exact ⟨x, hx, hrefl x⟩

namespace Evolves

variable (h : Evolves s s')
include h

theorem ended (hended : s.Ended t serial) : s'.Ended t serial := by
  intro j b hj hb hserial
  obtain ⟨a, ha, hsame⟩ := h.back hb
  exact hsame.left (hended j a hj ha (hsame.serial ▸ hserial))

theorem linked (hsame : Same a b) (hlinked : s.Linked t a) : s'.Linked t b := by
  rw [Linked] at hlinked ⊢
  rw [hsame.prev, hsame.serial]
  cases hprev : a.prev with
  | none =>
    rw [hprev] at hlinked
    exact h.ended hlinked
  | some p =>
    rw [hprev] at hlinked
    obtain ⟨hp, c, hc, hserial, hbetween⟩ := hlinked
    obtain ⟨c', hc', hsame'⟩ := h.forth hc
    refine ⟨hp, c', hc', hsame'.serial.trans hserial, fun j b hpj hjt hb ↦ ?_⟩
    obtain ⟨x, hx, hsame''⟩ := h.back hb
    exact hsame''.serial ▸ hbetween j x hpj hjt hx

theorem isLast (hlast : s'.IsLast t b) : ∃ a, s.IsLast t a ∧ Same a b := by
  obtain ⟨a, ha, hsame⟩ := h.back hlast.1
  refine ⟨a, ⟨ha, fun j x hj hx ↦ ?_⟩, hsame⟩
  obtain ⟨x', hx', hsame'⟩ := h.forth hx
  have hne := hlast.2 j x' hj hx'
  rwa [hsame'.serial, hsame.serial] at hne

theorem isLast' (hlast : s.IsLast t a) : ∃ b, s'.IsLast t b ∧ Same a b := by
  obtain ⟨b, hb, hsame⟩ := h.forth hlast.1
  refine ⟨b, ⟨hb, fun j x hj hx ↦ ?_⟩, hsame⟩
  obtain ⟨x', hx', hsame'⟩ := h.back hx
  have hne := hlast.2 j x' hj hx'
  rwa [← hsame'.serial, ← hsame.serial] at hne

end Evolves

/-- Before a task whose turn has come, the links of its serial have ended. -/
theorem Chained.ended_of_isTurn (h : Chained s) (hget : s.tasks[t]? = some a)
    (hturn : s.isTurn a = true) : s.Ended t a.serial := by
  have hlinked := h.link t a hget
  rw [Linked] at hlinked
  rw [isTurn] at hturn
  cases hprev : a.prev with
  | none =>
    rw [hprev] at hlinked
    exact hlinked
  | some p =>
    rw [hprev] at hlinked hturn
    obtain ⟨hp, c, hc, hserial, hbetween⟩ := hlinked
    have hleft : c.stage = .left := by simpa [hc] using hturn
    have hbefore := h.turn p c hc (by simp [hleft])
    intro j b hj hb hb'
    rcases Nat.lt_trichotomy j p with hjp | rfl | hjp
    · exact hbefore j b hjp hb (hb'.trans hserial.symm)
    · cases hc.symm.trans hb
      exact hleft
    · exact absurd hb' (hbetween j b hjp hj hb)

theorem unfinished_set (serial : String) (hget : s.tasks[t]? = some a) (htasks : s'.tasks = s.tasks.set t b)
    (hserial : b.serial = a.serial) (hleft : a.stage ≠ .left) :
    s'.unfinished serial + (if a.serial = serial ∧ b.stage = .left then 1 else 0) =
      s.unfinished serial := by
  have hcount := countP_set_add
    (fun x : Task ↦ decide (x.serial = serial ∧ x.stage ≠ .left)) hget b
  rw [unfinished, unfinished, htasks]
  simp only [hserial, hleft, decide_eq_true_eq, ne_eq, not_false_eq_true, and_true] at hcount
  by_cases hs : a.serial = serial
  · by_cases hb : b.stage = .left <;> simp [hs, hb] at hcount ⊢ <;> omega
  · simpa [hs] using hcount

theorem unfinished_congr (htasks : s'.tasks = s.tasks) (serial : String) :
    s'.unfinished serial = s.unfinished serial := by
  rw [unfinished, unfinished, htasks]

theorem ended_of_unfinished (h : s.unfinished serial = 0) (t : Nat) : s.Ended t serial := by
  intro j b _ hb hserial
  rw [unfinished, countP_eq_zero] at h
  simpa [hserial] using h b (mem_of_getElem? hb)

/-- The tasks and the chains are as they were. -/
theorem Chained.congr (h : Chained s) (htasks : s'.tasks = s.tasks)
    (hentries : s'.entries = s.entries) (hchains : s'.chains = s.chains) : Chained s' := by
  have hended : ∀ t serial, s.Ended t serial → s'.Ended t serial := fun t serial he ↦ by
    rwa [Ended, htasks, ← Ended]
  have hlast : ∀ t a, s'.IsLast t a ↔ s.IsLast t a := fun t a ↦ by rw [IsLast, IsLast, htasks]
  constructor
  case sane => exact fun t a ha ↦ h.sane t a (htasks ▸ ha)
  case link =>
    intro t a ha
    have hlinked := h.link t a (htasks ▸ ha)
    simpa only [Linked, Ended, htasks] using hlinked
  case turn => exact fun t a ha hstage ↦ hended _ _ (h.turn t a (htasks ▸ ha) hstage)
  case idle => exact fun serial hget ↦ htasks ▸ hended _ _ (h.idle serial (hchains ▸ hget))
  case chain =>
    intro serial e hget
    obtain ⟨entry, hentry, hpending, hpos, ⟨p, c, htail, hserial, hc⟩, hown⟩ :=
      h.chain serial e (hchains ▸ hget)
    exact ⟨entry, hentries ▸ hentry, by rw [unfinished_congr htasks, hpending], hpos,
      ⟨p, c, htail, hserial, (hlast p c).mpr hc⟩, fun t a ha ↦ hown t a (htasks ▸ ha)⟩
  case distinct =>
    intro serial serial' e hget hget'
    exact h.distinct serial serial' e (hchains ▸ hget) (hchains ▸ hget')
  case depth =>
    intro t a ha
    rw [unfinished_congr htasks]
    exact h.depth t a ((hlast t a).mp ha)

theorem Moves.same (h : Moves e s s' t a b said) : Same a b :=
  ⟨h.serial, h.entry, h.prev, h.maxDepth, h.signal, fun hleft ↦ absurd hleft h.notLeft.1⟩

theorem Moves.evolves (h : Moves e s s' t a b said) : Evolves s s' :=
  evolves_set h.get h.tasks h.same

/-- The task at a place after one of them was replaced. -/
theorem get_set_cases (htasks : s'.tasks = s.tasks.set t b) {x : Task}
    (hx : s'.tasks[j]? = some x) : (j = t ∧ x = b) ∨ (j ≠ t ∧ s.tasks[j]? = some x) := by
  rw [htasks, getElem?_set] at hx
  split_ifs at hx with hj hlt
  · exact .inl ⟨hj.symm, (Option.some.inj hx).symm⟩
  · exact .inr ⟨Ne.symm hj, hx⟩

theorem Chained.moves (h : Chained s) (hmoves : Moves e s s' t a b said) : Chained s' := by
  have hev := hmoves.evolves
  have hun : ∀ serial, s'.unfinished serial = s.unfinished serial := fun serial ↦ by
    simpa [hmoves.notLeft.2] using
      unfinished_set serial hmoves.get hmoves.tasks hmoves.serial hmoves.notLeft.1
  constructor
  case sane =>
    intro j x hx
    rcases get_set_cases hmoves.tasks hx with ⟨rfl, rfl⟩ | ⟨-, hx⟩
    · exact hmoves.sane (h.sane _ _ hmoves.get)
    · exact h.sane j x hx
  case link =>
    intro j x hx
    obtain ⟨y, hy, hsame⟩ := hev.back hx
    exact hev.linked hsame (h.link j y hy)
  case turn =>
    intro j x hx hstage
    rcases get_set_cases hmoves.tasks hx with ⟨rfl, rfl⟩ | ⟨-, hx⟩
    · rw [hmoves.serial]
      refine hev.ended ?_
      rcases hmoves.turn hstage with hturn | hturn
      · exact h.turn _ _ hmoves.get hturn
      · exact h.ended_of_isTurn hmoves.get hturn
    · exact hev.ended (h.turn j x hx hstage)
  case idle =>
    intro serial hget
    rw [hmoves.tasks, length_set]
    exact hev.ended (h.idle serial (hmoves.chains ▸ hget))
  case chain =>
    intro serial e hget
    obtain ⟨entry, hentry, hpending, hpos, ⟨p, c, htail, hserial, hc⟩, hown⟩ :=
      h.chain serial e (hmoves.chains ▸ hget)
    obtain ⟨c', hc', hsame⟩ := hev.isLast' hc
    refine ⟨entry, hmoves.entries ▸ hentry, by rw [hun, hpending], hpos,
      ⟨p, c', htail, hsame.serial.trans hserial, hc'⟩, fun j x hx hx' hleft ↦ ?_⟩
    obtain ⟨y, hy, hsame'⟩ := hev.back hx
    rw [hsame'.entry]
    exact hown j y hy (hsame'.serial ▸ hx') fun hy' ↦ hleft (hsame'.left hy')
  case distinct =>
    intro serial serial' e hget hget'
    exact h.distinct serial serial' e (hmoves.chains ▸ hget) (hmoves.chains ▸ hget')
  case depth =>
    intro j x hx
    obtain ⟨y, hy, hsame⟩ := hev.isLast hx
    rw [hun, hsame.serial, hsame.maxDepth]
    exact h.depth j y hy

/-! ## A link ends -/

theorem Chained.leaves (h : Chained s) {task : Task} {entry : ChainEntry}
    (hget : s.tasks[t]? = some task) (hstage : task.stage = .settled)
    (hentry : s.entries[task.entry]? = some entry)
    (htasks : s'.tasks = s.tasks.set t { task with stage := .left })
    (hentries : s'.entries =
      s.entries.set task.entry { entry with pending := entry.pending - 1 })
    (hchains : s'.chains =
      if entry.pending - 1 = 0 then OrdMap.erase task.serial s.chains else s.chains) :
    Chained s' := by
  have hsame := same_left task
  have hev : Evolves s s' := evolves_set hget htasks hsame
  have hleft : task.stage ≠ .left := by simp [hstage]
  have hun : ∀ serial, s'.unfinished serial + (if task.serial = serial then 1 else 0) =
      s.unfinished serial := fun serial ↦ by
    simpa using unfinished_set serial hget htasks hsame.serial hleft
  -- the entry the task holds on to is that of its serial
  obtain ⟨en, hchain, hen⟩ : ∃ en, OrdMap.get? task.serial s.chains = some task.entry ∧
      s.Chain task.serial task.entry en := by
    cases hc : OrdMap.get? task.serial s.chains with
    | none =>
      have hlt := (List.getElem?_eq_some_iff.mp hget).1
      exact absurd (h.idle _ hc t task hlt hget (by simp)) hleft
    | some e =>
      obtain ⟨en, hen⟩ := h.chain _ _ hc
      obtain rfl := hen.own t task hget (by simp) hleft
      exact ⟨en, by simp, hen⟩
  obtain rfl := Option.some.inj (hen.get.symm.trans hentry)
  have hgets : ∀ serial, OrdMap.get? serial s'.chains =
      if en.pending - 1 = 0 ∧ task.serial = serial then none else OrdMap.get? serial s.chains := by
    intro serial
    rw [hchains]
    by_cases hz : en.pending - 1 = 0
    · simp [hz, OrdMap.get?_erase]
    · simp [hz]
  constructor
  case sane =>
    intro j x hx
    rcases get_set_cases htasks hx with ⟨-, rfl⟩ | ⟨-, hx⟩
    · have hsane := h.sane t task hget
      exact ⟨hsane.excl, by simp, fun hw ↦ by simpa [hstage] using hsane.watching hw⟩
    · exact h.sane j x hx
  case link =>
    intro j x hx
    obtain ⟨y, hy, hsame'⟩ := hev.back hx
    exact hev.linked hsame' (h.link j y hy)
  case turn =>
    intro j x hx hst
    rcases get_set_cases htasks hx with ⟨rfl, rfl⟩ | ⟨-, hx⟩
    · exact hev.ended (h.turn j task hget (by simp [hstage]))
    · exact hev.ended (h.turn j x hx hst)
  case idle =>
    intro serial hnone
    rw [hgets] at hnone
    split_ifs at hnone with hz
    · obtain ⟨hz, rfl⟩ := hz
      have hcount := hun task.serial
      have hpending := hen.pending
      exact ended_of_unfinished (by simp only [if_true] at hcount; omega) _
    · rw [htasks, length_set]
      exact hev.ended (h.idle serial hnone)
  case chain =>
    intro serial e hsome
    rw [hgets] at hsome
    split_ifs at hsome with hz
    obtain ⟨entry, hc⟩ := h.chain serial e hsome
    obtain ⟨p, c, htail, hserial, hlast⟩ := hc.tail
    obtain ⟨c', hc', hsame'⟩ := hev.isLast' hlast
    have hown : ∀ (j : Nat) (x : Task), s'.tasks[j]? = some x → x.serial = serial →
        x.stage ≠ .left → x.entry = e := by
      intro j x hx hxs hxl
      obtain ⟨y, hy, hsame''⟩ := hev.back hx
      rw [hsame''.entry]
      exact hc.own j y hy (hsame''.serial ▸ hxs) fun hy' ↦ hxl (hsame''.left hy')
    have hcount := hun serial
    have hpending := hc.pending
    by_cases hserial' : task.serial = serial
    · subst hserial'
      obtain rfl := Option.some.inj (hchain.symm.trans hsome)
      obtain rfl := Option.some.inj (hen.get.symm.trans hc.get)
      have hlt := (List.getElem?_eq_some_iff.mp hen.get).1
      have hpos : en.pending - 1 ≠ 0 := fun hz' ↦ hz ⟨hz', by simp⟩
      simp only [if_true] at hcount
      have hget' : s'.entries[task.entry]? = some { en with pending := en.pending - 1 } := by
        rw [hentries, getElem?_set_self hlt]
      exact ⟨_, hget', show en.pending - 1 = _ by omega, Nat.pos_of_ne_zero hpos,
        ⟨p, c', htail, hsame'.serial.trans hserial, hc'⟩, hown⟩
    · have hne : task.entry ≠ e := fun heq ↦
        hserial' (h.distinct _ _ e (heq ▸ hchain) hsome)
      simp only [if_neg hserial'] at hcount
      exact ⟨entry, by rw [hentries, getElem?_set_ne hne, hc.get], by omega, hc.pos,
        ⟨p, c', htail, hsame'.serial.trans hserial, hc'⟩, hown⟩
  case distinct =>
    intro serial serial' e hsome hsome'
    rw [hgets] at hsome hsome'
    split_ifs at hsome hsome'
    exact h.distinct serial serial' e hsome hsome'
  case depth =>
    intro j x hx
    obtain ⟨y, hy, hsame'⟩ := hev.isLast hx
    have hle := h.depth j y hy
    have hcount := hun y.serial
    rw [hsame'.serial, hsame'.maxDepth]
    omega

/-! ## A task is accepted -/

theorem Chained.chainOf_cases (h : Chained s) (serial : String) :
    (OrdMap.get? serial s.chains = none ∧ s.unfinished serial = 0 ∧ s.entryOf serial = ⟨none, 0⟩ ∧
        s.chainOf serial = (s.entries ++ [⟨none, 0⟩], s.entries.length)) ∨
      ∃ e, OrdMap.get? serial s.chains = some e ∧ s.Chain serial e (s.entryOf serial) ∧
        s.chainOf serial = (s.entries, e) := by
  cases hget : OrdMap.get? serial s.chains with
  | none =>
    left
    have hchain : s.chainOf serial = (s.entries ++ [⟨none, 0⟩], s.entries.length) := by
      simp [chainOf, hget]
    refine ⟨by simp, countP_eq_zero.mpr fun a ha ↦ ?_, by simp [entryOf, hchain], hchain⟩
    obtain ⟨t, ht⟩ := mem_iff_getElem?.mp ha
    have hended := h.idle serial hget t a (List.getElem?_eq_some_iff.mp ht).1 ht
    simpa using hended
  | some e =>
    right
    obtain ⟨entry, hentry⟩ := h.chain serial e hget
    have hchain : s.chainOf serial = (s.entries, e) := by simp [chainOf, hget]
    have heq : s.entryOf serial = entry := by simp [entryOf, hchain, hentry.get]
    exact ⟨e, by simp, heq ▸ hentry, hchain⟩

theorem Chained.pending_entryOf (h : Chained s) (serial : String) :
    (s.entryOf serial).pending = s.unfinished serial := by
  rcases h.chainOf_cases serial with ⟨-, hun, hentry, -⟩ | ⟨e, -, hchain, -⟩
  · rw [hun, hentry]
  · exact hchain.pending

/-- The new task is chained to the last link of its serial. -/
theorem Chained.linked_newTask (h : Chained s) : s.Linked s.tasks.length (s.newTask serial opts) := by
  rw [Linked]
  rcases h.chainOf_cases serial with ⟨hnone, -, hentry, -⟩ | ⟨e, -, hchain, -⟩
  · simpa [newTask, hentry] using h.idle serial hnone
  · obtain ⟨p, c, htail, hserial, hc⟩ := hchain.tail
    simp only [newTask, htail]
    exact ⟨(List.getElem?_eq_some_iff.mp hc.1).1, c, hc.1, hserial,
      fun j b hj _ hb ↦ hserial ▸ hc.2 j b hj hb⟩

theorem get_accept_cases {x : Task} (hx : (s.accept serial opts).tasks[j]? = some x) :
    (j = s.tasks.length ∧ x = s.newTask serial opts) ∨
      (j < s.tasks.length ∧ s.tasks[j]? = some x) := by
  rw [accept] at hx
  rcases Nat.lt_trichotomy j s.tasks.length with hj | rfl | hj
  · exact .inr ⟨hj, by rwa [getElem?_append_left hj] at hx⟩
  · exact .inl ⟨by simp, by simpa [eq_comm] using hx⟩
  · rw [getElem?_eq_none (by simp; omega)] at hx
    simp at hx

theorem get_accept (h : s.tasks[j]? = some a) : (s.accept serial opts).tasks[j]? = some a := by
  rw [accept]
  rw [List.getElem?_append_left (List.getElem?_eq_some_iff.mp h).1, h]

theorem unfinished_accept (serial' : String) :
    (s.accept serial opts).unfinished serial' =
      s.unfinished serial' + if serial = serial' then 1 else 0 := by
  simp only [unfinished, accept, countP_append, countP_singleton, newTask]
  by_cases hs : serial = serial' <;> simp [hs]

theorem ended_accept {serial' : String} (hj : t ≤ s.tasks.length) :
    (s.accept serial opts).Ended t serial' ↔ s.Ended t serial' := by
  constructor
  · exact fun h j b hjt hb ↦ h j b hjt (get_accept hb)
  · intro h j b hjt hb
    rcases get_accept_cases hb with ⟨rfl, -⟩ | ⟨-, hb⟩
    · omega
    · exact h j b hjt hb

theorem linked_accept (hj : t ≤ s.tasks.length) (h : s.Linked t a) :
    (s.accept serial opts).Linked t a := by
  rw [Linked] at h ⊢
  split at h
  · exact (ended_accept hj).mpr h
  · obtain ⟨hp, c, hc, hserial, hbetween⟩ := h
    refine ⟨hp, c, get_accept hc, hserial, fun j b hpj hjt hb ↦ ?_⟩
    rcases get_accept_cases hb with ⟨rfl, -⟩ | ⟨-, hb⟩
    · omega
    · exact hbetween j b hpj hjt hb

theorem isLast_newTask : (s.accept serial opts).IsLast s.tasks.length (s.newTask serial opts) := by
  refine ⟨by simp [accept], fun j b hj hb ↦ ?_⟩
  rcases get_accept_cases hb with ⟨rfl, -⟩ | ⟨hlt, -⟩ <;> omega

theorem Chained.accept (h : Chained s)
    (hdepth : ((s.entryOf serial).pending : Int) < (s.newTask serial opts).maxDepth) :
    Chained (s.accept serial opts) := by
  have hgets : ∀ σ, OrdMap.get? σ (s.accept serial opts).chains =
      if serial = σ then some (s.chainOf serial).2 else OrdMap.get? σ s.chains := fun σ ↦ by
    simp only [DeviceQueue.accept, OrdMap.get?_set]
  -- the entry is there, and no other serial has it
  obtain ⟨hlt, hother⟩ : (s.chainOf serial).2 < (s.chainOf serial).1.length ∧
      ∀ σ e, serial ≠ σ → OrdMap.get? σ s.chains = some e → (s.chainOf serial).2 ≠ e ∧
        (s.chainOf serial).1[e]? = s.entries[e]? := by
    rcases h.chainOf_cases serial with ⟨hnone, -, -, hchain⟩ | ⟨e', hget, hc, hchain⟩
    · refine ⟨by simp [hchain], fun σ e hne he ↦ ?_⟩
      obtain ⟨entry, hentry⟩ := h.chain σ e he
      have hlt := (List.getElem?_eq_some_iff.mp hentry.get).1
      rw [hchain]
      exact ⟨Nat.ne_of_gt hlt, getElem?_append_left hlt⟩
    · refine ⟨by simpa [hchain] using (List.getElem?_eq_some_iff.mp hc.get).1, fun σ e hne he ↦ ?_⟩
      rw [hchain]
      exact ⟨fun heq ↦ hne (h.distinct _ _ e (heq ▸ hget) he), by simp⟩
  have hpending := h.pending_entryOf serial
  constructor
  case sane =>
    intro j x hx
    rcases get_accept_cases hx with ⟨-, rfl⟩ | ⟨-, hx⟩
    · exact ⟨by simp [newTask], by simp [newTask], by simp [newTask]⟩
    · exact h.sane j x hx
  case link =>
    intro j x hx
    rcases get_accept_cases hx with ⟨rfl, rfl⟩ | ⟨hj, hx⟩
    · exact linked_accept (Nat.le_refl _) h.linked_newTask
    · exact linked_accept (Nat.le_of_lt hj) (h.link j x hx)
  case turn =>
    intro j x hx hstage
    rcases get_accept_cases hx with ⟨rfl, rfl⟩ | ⟨hj, hx⟩
    · simp [newTask] at hstage
    · exact (ended_accept (Nat.le_of_lt hj)).mpr (h.turn j x hx hstage)
  case idle =>
    intro σ hnone
    rw [hgets] at hnone
    split_ifs at hnone with hσ
    intro j x hj hx hxs
    rcases get_accept_cases hx with ⟨rfl, rfl⟩ | ⟨hj, hx⟩
    · exact absurd hxs hσ
    · exact h.idle σ hnone j x hj hx hxs
  case chain =>
    intro σ e hsome
    rw [hgets] at hsome
    split_ifs at hsome with hσ
    · subst hσ
      cases hsome
      refine ⟨⟨some s.tasks.length, (s.entryOf serial).pending + 1⟩,
        getElem?_set_self hlt, by simp [unfinished_accept, hpending], by simp,
        ⟨s.tasks.length, _, by simp, by simp [newTask], isLast_newTask⟩, fun j x hx hxs hxl ↦ ?_⟩
      rcases get_accept_cases hx with ⟨rfl, rfl⟩ | ⟨hj, hx⟩
      · simp [newTask]
      · rcases h.chainOf_cases serial with ⟨hnone, -, -, -⟩ | ⟨e', -, hc, hchain⟩
        · exact absurd (h.idle serial hnone j x hj hx hxs) hxl
        · rw [hchain]
          exact hc.own j x hx hxs hxl
    · obtain ⟨entry, hc⟩ := h.chain σ e hsome
      obtain ⟨hne, hsame⟩ := hother σ e hσ hsome
      obtain ⟨p, c, htail, hserial, hlast⟩ := hc.tail
      refine ⟨entry, ?_, by simp [unfinished_accept, hσ, hc.pending], hc.pos,
        ⟨p, c, htail, hserial, get_accept hlast.1, fun j x hj hx ↦ ?_⟩, fun j x hx hxs hxl ↦ ?_⟩
      · rw [DeviceQueue.accept]
        rw [getElem?_set_ne hne, hsame, hc.get]
      · rcases get_accept_cases hx with ⟨rfl, rfl⟩ | ⟨-, hx⟩
        · exact hserial ▸ hσ
        · exact hlast.2 j x hj hx
      · rcases get_accept_cases hx with ⟨rfl, rfl⟩ | ⟨-, hx⟩
        · exact absurd hxs hσ
        · exact hc.own j x hx hxs hxl
  case distinct =>
    intro σ σ' e hsome hsome'
    rw [hgets] at hsome hsome'
    split_ifs at hsome hsome' with hσ hσ' hσ'
    · exact hσ.symm.trans hσ'
    · exact absurd (Option.some.inj hsome) (hother σ' e hσ' hsome').1
    · exact absurd (Option.some.inj hsome') (hother σ e hσ hsome).1
    · exact h.distinct σ σ' e hsome hsome'
  case depth =>
    intro j x hx
    rw [unfinished_accept]
    rcases get_accept_cases hx.1 with ⟨rfl, rfl⟩ | ⟨hj, hget⟩
    · rw [hpending] at hdepth
      simp only [newTask, if_true] at hdepth ⊢
      omega
    · have hne := hx.2 _ _ hj isLast_newTask.1
      have hle := h.depth j x ⟨hget, fun i y hi hy ↦ hx.2 i y hi (get_accept hy)⟩
      rw [if_neg (by simpa [newTask] using hne)]
      simpa using hle

end DeviceQueue

end Enkaku.Adb
