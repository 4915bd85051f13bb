import Enkaku.Adb.QueueChain

/-!
# The adb queue is a mutex of each serial

What callers of `run` see (`Fifo`): the tasks of a serial exclude each other and start in the order
they were accepted, who is refused does not start and who has started is not refused, `pending`
counts the tasks that are not finished and stays below the depth cap, and how a task ends is nothing
to the next.  Every run of the queue is like that (`fifo`).
-/

set_option autoImplicit false

namespace Enkaku.Adb

open List

/-- The task of the serial whose body was called. -/
def QueueEntry.began? (serial : String) : QueueEntry → Option Nat
  | .began t serial' => if serial' = serial then some t else none
  | _ => none

theorem QueueEntry.mem_began {l : List QueueEntry} {t : Nat} {serial : String} :
    t ∈ l.filterMap (began? serial) ↔ .began t serial ∈ l := by
  rw [mem_filterMap]
  constructor
  · rintro ⟨entry, hmem, hentry⟩
    cases entry with
    | began j serial' =>
      obtain ⟨rfl, rfl⟩ : serial' = serial ∧ j = t := by simpa [began?] using hentry
      exact hmem
    | rejected r => simp [began?] at hentry
    | answered j answer => simp [began?] at hentry
  · exact fun hmem ↦ ⟨_, hmem, by simp [began?]⟩

namespace DeviceQueue

variable {s s' u : DeviceQueue} {e : Event} {es : List Event} {t j : Nat} {a b : Task}
  {said : List QueueEntry} {serial : String} {opts : QueueRunOptions}

/-! ## What the log says of the tasks -/

/-- The body of the task of this serial was called. -/
def Begun (s : DeviceQueue) (t : Nat) (serial : String) : Prop :=
  ∃ a, s.tasks[t]? = some a ∧ a.serial = serial ∧ a.hasBegun = true

/-- The queue gave up on the task. -/
def GivenUp (s : DeviceQueue) (t : Nat) (r : Refusal) : Prop :=
  ∃ a, s.tasks[t]? = some a ∧ a.gaveUpWith = some r

theorem begun_set (hget : s.tasks[t]? = some a) (htasks : s'.tasks = s.tasks.set t b)
    (hserial : b.serial = a.serial) :
    s'.Begun j serial ↔ if t = j then a.serial = serial ∧ b.hasBegun = true else s.Begun j serial := by
  have hlt := (List.getElem?_eq_some_iff.mp hget).1
  rw [Begun, Begun, htasks, List.getElem?_set]
  by_cases hj : t = j
  · simp [hj, hj ▸ hlt, hserial]
  · simp [hj]

theorem givenUp_set {r : Refusal} (hget : s.tasks[t]? = some a) (htasks : s'.tasks = s.tasks.set t b) :
    s'.GivenUp j r ↔ if t = j then b.gaveUpWith = some r else s.GivenUp j r := by
  have hlt := (List.getElem?_eq_some_iff.mp hget).1
  rw [GivenUp, GivenUp, htasks, List.getElem?_set]
  by_cases hj : t = j
  · simp [hj, hj ▸ hlt]
  · simp [hj]

/-- The log tells which bodies were called, in the order of the tasks, and on whom the queue gave
up. -/
structure Logged (s : DeviceQueue) : Prop where
  began : ∀ t serial, .began t serial ∈ s.log ↔ s.Begun t serial
  refused : ∀ t r, .answered t (.refused r) ∈ s.log ↔ s.GivenUp t r
  order : ∀ serial, (s.log.filterMap (QueueEntry.began? serial)).Pairwise (· < ·)

theorem logged_new (sem : Semaphore) : Logged (new sem) := by
  constructor <;> simp [new, Begun, GivenUp]

/-- A body of a later task of the serial has not been called. -/
theorem Chained.lt_of_begun (h : Chained s) (hget : s.tasks[t]? = some a) (hleft : a.stage ≠ .left)
    (hnot : a.hasBegun = false) (hj : s.Begun j a.serial) : j < t := by
  obtain ⟨b, hb, hserial, hbegun⟩ := hj
  rcases Nat.lt_trichotomy j t with hlt | rfl | hgt
  · exact hlt
  · cases hget.symm.trans hb
    simp [hnot] at hbegun
  · have hqueued : b.stage ≠ .queued := by
      intro hqueued
      simp [Task.hasBegun, hqueued, Stage.isPastBody] at hbegun
    exact absurd (h.turn j b hb hqueued t a hgt hget hserial.symm) hleft

theorem Logged.moves (h : Logged s) (hchained : Chained s) (hmoves : Moves e s s' t a b said) :
    Logged s' := by
  have hat : ∀ σ, s.Begun t σ ↔ a.serial = σ ∧ a.hasBegun = true := fun σ ↦ by
    simp [Begun, hmoves.get]
  have hgave : ∀ r, s.GivenUp t r ↔ a.gaveUpWith = some r := fun r ↦ by
    simp [GivenUp, hmoves.get]
  refine ⟨fun j σ ↦ ?_, fun j r ↦ ?_, fun σ ↦ ?_⟩
  · rw [begun_set hmoves.get hmoves.tasks hmoves.serial, hmoves.log, mem_append, h.began]
    by_cases hj : t = j
    · subst hj
      rw [hat]
      cases hmoves.noted with
      | nothing hb hg => simp [hb]
      | refused he hb ha hg => simp [hb]
      | began ha hb hg => simp [ha, hb, eq_comm]
      | done he hb hg => simp [hb]
    · cases hmoves.noted <;> simp [hj, Ne.symm hj]
  · rw [givenUp_set hmoves.get hmoves.tasks, hmoves.log, mem_append, h.refused]
    by_cases hj : t = j
    · subst hj
      rw [hgave]
      cases hmoves.noted with
      | nothing hb hg => simp [hg]
      | refused he hb ha hg => simp [ha, hg, eq_comm]
      | began ha hb hg => simp [hg]
      | done he hb hg => simp [hg]
    · cases hmoves.noted <;> simp [hj, Ne.symm hj]
  · have horder := h.order σ
    rw [hmoves.log, filterMap_append]
    cases hmoves.noted with
    | nothing hb hg => simpa using horder
    | refused he hb ha hg => simpa [QueueEntry.began?, filterMap_cons] using horder
    | done he hb hg => simpa [QueueEntry.began?, filterMap_cons] using horder
    | began ha hb hg =>
      by_cases hσ : a.serial = σ
      · subst hσ
        simp only [filterMap_cons, QueueEntry.began?, if_true, filterMap_nil]
        refine pairwise_append.mpr ⟨horder, by simp, fun j hj i hi ↦ ?_⟩
        obtain rfl : i = t := by simpa using hi
        exact hchained.lt_of_begun hmoves.get hmoves.notLeft.1 ha
          ((h.began j _).mp (QueueEntry.mem_began.mp hj))
      · simpa [QueueEntry.began?, filterMap_cons, hσ] using horder

theorem Logged.accept (h : Logged s) : Logged (s.accept serial opts) := by
  have hlog : (s.accept serial opts).log = s.log := by simp [DeviceQueue.accept]
  refine ⟨fun j σ ↦ ?_, fun j r ↦ ?_, fun σ ↦ by rw [hlog]; exact h.order σ⟩
  · rw [hlog, h.began]
    constructor
    · rintro ⟨a, ha, hrest⟩
      exact ⟨a, get_accept ha, hrest⟩
    · rintro ⟨a, ha, hserial, hbegun⟩
      rcases get_accept_cases ha with ⟨-, rfl⟩ | ⟨-, ha⟩
      · simp [newTask, Task.hasBegun] at hbegun
      · exact ⟨a, ha, hserial, hbegun⟩
  · rw [hlog, h.refused]
    constructor
    · rintro ⟨a, ha, hrest⟩
      exact ⟨a, get_accept ha, hrest⟩
    · rintro ⟨a, ha, hgave⟩
      rcases get_accept_cases ha with ⟨-, rfl⟩ | ⟨-, ha⟩
      · simp [newTask] at hgave
      · exact ⟨a, ha, hgave⟩

/-! ## What every step keeps -/

structure Kept (s : DeviceQueue) : Prop where
  admitted : Admitted s
  chained : Chained s
  logged : Logged s

theorem kept_new {max : Nat} {sem : Semaphore} (h : Semaphore.new max = some sem) : Kept (new sem) :=
  ⟨admitted_new h, chained_new sem, logged_new sem⟩

/-- **Every step keeps the chains and the log.** -/
theorem Kept.step (h : Kept s) (ht : s.step e = some s') : Kept s' := by
  have hadmitted := h.admitted.step ht
  cases does_of_step h.admitted h.chained.sane ht with
  | nothing htasks hentries hchains hlog =>
    obtain ⟨rs, hlog⟩ := hlog
    have hnone : ∀ σ, (rs.map QueueEntry.rejected).filterMap (QueueEntry.began? σ) = [] := fun σ ↦ by
      simp [filterMap_map, Function.comp_def, QueueEntry.began?]
    refine ⟨hadmitted, h.chained.congr htasks hentries hchains, fun j σ ↦ ?_, fun j r ↦ ?_, fun σ ↦ ?_⟩
    · rw [Begun, htasks, ← Begun, ← h.logged.began, hlog]
      simp
    · rw [GivenUp, htasks, ← GivenUp, ← h.logged.refused, hlog]
      simp
    · rw [hlog, filterMap_append, hnone, append_nil]
      exact h.logged.order σ
  | moves hmoves => exact ⟨hadmitted, h.chained.moves hmoves, h.logged.moves h.chained hmoves⟩
  | accepts hdepth heq =>
    have haccept := h.chained.accept hdepth
    rcases heq with rfl | ⟨t, a, b, said, hmoves⟩
    · exact ⟨hadmitted, haccept, h.logged.accept⟩
    · exact ⟨hadmitted, haccept.moves hmoves, h.logged.accept.moves haccept hmoves⟩
  | @leaves t task entry hget hstage hentry heq =>
    have htasks : s'.tasks = s.tasks.set t { task with stage := .left } := by simp [heq]
    have hlog : s'.log = s.log := by simp [heq]
    have hat : ∀ σ, s.Begun t σ ↔ task.serial = σ ∧ task.hasBegun = true := fun σ ↦ by
      simp [Begun, hget]
    have hgave : ∀ r, s.GivenUp t r ↔ task.gaveUpWith = some r := fun r ↦ by
      simp [GivenUp, hget]
    refine ⟨hadmitted, h.chained.leaves hget hstage hentry htasks (by simp [heq]) (by simp [heq]),
      fun j σ ↦ ?_, fun j r ↦ ?_, fun σ ↦ ?_⟩
    · rw [hlog, h.logged.began, begun_set hget htasks (by simp)]
      by_cases hj : t = j
      · subst hj
        simp [hat, Task.hasBegun, hstage, Stage.isPastBody]
      · simp [hj]
    · rw [hlog, h.logged.refused, givenUp_set hget htasks]
      by_cases hj : t = j
      · subst hj
        simp [hgave]
      · simp [hj]
    · rw [hlog]
      exact h.logged.order σ

theorem Kept.steps (h : Steps (Steps.By DeviceQueue.step) s es s') (h0 : Kept s) : Kept s' :=
  h.invariant h0 fun _ _ _ hkept ht ↦ hkept.step ht

/-! ## Whose answers are whose -/

/-- The answer is the task's own: its body ended so, its timer or its signal fired, or the signal
had before. -/
def Owned (es : List Event) (s : DeviceQueue) (t : Nat) : Answer → Prop
  | .done ok => .complete t ok ∈ es
  | .refused (.timedOut ..) => .timeout t ∈ es
  | .refused .aborted => .abort t ∈ es ∨ ∃ a, s.tasks[t]? = some a ∧ a.signal = some true
  | .refused (.depth ..) => False

theorem Does.forth (h : Does e s s') (hget : s.tasks[t]? = some a) :
    ∃ b, s'.tasks[t]? = some b ∧ b.signal = a.signal := by
  cases h with
  | nothing htasks => exact ⟨a, htasks ▸ hget, by simp⟩
  | moves hmoves =>
    obtain ⟨b, hb, hsame⟩ := hmoves.evolves.forth hget
    exact ⟨b, hb, hsame.signal⟩
  | accepts hdepth heq =>
    rcases heq with rfl | ⟨t, c, d, said, hmoves⟩
    · exact ⟨a, get_accept hget, by simp⟩
    · obtain ⟨b, hb, hsame⟩ := hmoves.evolves.forth (get_accept hget)
      exact ⟨b, hb, hsame.signal⟩
  | @leaves t c entry hleft hstage hentry heq =>
    have htasks : s'.tasks = s.tasks.set t { c with stage := .left } := by simp [heq]
    have hev := evolves_set hleft htasks (same_left c)
    obtain ⟨b, hb, hsame⟩ := hev.forth hget
    exact ⟨b, hb, hsame.signal⟩

theorem Owned.snoc {answer : Answer} (h : Owned es s t answer) (hdoes : Does e s s') :
    Owned (es ++ [e]) s' t answer := by
  cases answer with
  | done ok => exact mem_append_left _ h
  | refused r =>
    cases r with
    | depth => exact h
    | timedOut => exact mem_append_left _ h
    | aborted =>
      rcases h with h | ⟨a, ha, hsignal⟩
      · exact .inl (mem_append_left _ h)
      · obtain ⟨b, hb, heq⟩ := hdoes.forth ha
        exact .inr ⟨b, hb, heq.trans hsignal⟩

variable {answer : Answer}

theorem Moves.owned (h : Moves e s s' t a b said) (hmem : .answered j answer ∈ said) :
    Owned [e] s' j answer := by
  cases h.noted with
  | nothing => simp at hmem
  | began => simp at hmem
  | done he =>
    obtain ⟨rfl, rfl⟩ : j = t ∧ answer = .done _ := by simpa using hmem
    simp [Owned, he]
  | @refused r he =>
    obtain ⟨rfl, rfl⟩ : j = t ∧ answer = .refused r := by simpa using hmem
    cases r with
    | depth => exact he
    | timedOut =>
      obtain rfl : e = .timeout j := he
      simp [Owned]
    | aborted =>
      refine he.imp (fun he ↦ by simp [he]) fun hsignal ↦ ?_
      obtain ⟨c, hc, hsame⟩ := h.evolves.forth h.get
      exact ⟨c, hc, hsame.signal.trans hsignal⟩

theorem Owned.mono (h : Owned [e] s t answer) : Owned (es ++ [e]) s t answer := by
  cases answer with
  | done ok => exact mem_append_right _ h
  | refused r =>
    cases r with
    | depth => exact h
    | timedOut => exact mem_append_right _ h
    | aborted => exact h.imp_left (mem_append_right _)

/-- An answer that a step adds is the task's own. -/
theorem Does.answered (h : Does e s s') (hmem : .answered j answer ∈ s'.log) :
    .answered j answer ∈ s.log ∨ Owned [e] s' j answer := by
  cases h with
  | nothing htasks hentries hchains hlog =>
    obtain ⟨rs, hlog⟩ := hlog
    left
    simpa [hlog] using hmem
  | moves hmoves =>
    rw [hmoves.log, mem_append] at hmem
    exact hmem.imp_right hmoves.owned
  | @accepts serial opts hdepth heq =>
    have hlog : (s.accept serial opts).log = s.log := by simp [accept]
    rcases heq with rfl | ⟨t, a, b, said, hmoves⟩
    · exact .inl (hlog ▸ hmem)
    · rw [hmoves.log, mem_append, hlog] at hmem
      exact hmem.imp_right hmoves.owned
  | leaves hleft hstage hentry heq =>
    left
    simpa [heq] using hmem

theorem owned (h : Steps (Steps.By step) s es s') (h0 : Kept s) (hlog : s.log = [])
    (hmem : .answered t answer ∈ s'.log) : Owned es s' t answer := by
  induction h with
  | nil => simp [hlog] at hmem
  | snoc hrun he ih =>
    have hkept := Kept.steps hrun h0
    have hdoes := does_of_step hkept.admitted hkept.chained.sane he
    rcases hdoes.answered hmem with hold | hnew
    · exact (ih hold).snoc hdoes
    · exact hnew.mono

/-! ## What callers see -/

/-- **What the queue promises of a run**, of its events and the state it ends in. -/
structure Fifo (es : List Event) (s : DeviceQueue) : Prop where
  /-- Two tasks of a serial do not execute at the same time. -/
  mutex : ∀ (i j : Nat) a b, s.tasks[i]? = some a → s.tasks[j]? = some b → a.serial = b.serial →
    a.stage = .running → b.stage = .running → i = j
  /-- The tasks of a serial start in the order in which they were accepted. -/
  order : ∀ serial, (s.log.filterMap (QueueEntry.began? serial)).Pairwise (· < ·)
  refused : ∀ t r, .answered t (.refused r) ∈ s.log → ∀ serial, .began t serial ∉ s.log
  started : ∀ (t : Nat) a, s.tasks[t]? = some a → a.started = true →
    ∀ r, .answered t (.refused r) ∉ s.log
  pending : ∀ serial, s.pending serial = s.unfinished serial
  /-- `pending` is at most the depth cap of the call that was accepted last. -/
  depth : ∀ t a, s.IsLast t a → (s.pending a.serial : Int) ≤ a.maxDepth
  /-- A task is not answered with what became of another. -/
  own : ∀ t answer, .answered t answer ∈ s.log → Owned es s t answer
  /-- However a task has ended, its link can end. -/
  ends : ∀ (t : Nat) a, s.tasks[t]? = some a → a.stage = .settled → (s.step (.leave t)).isSome
  /-- A task with no unfinished one before it has its turn. -/
  turn : ∀ (t : Nat) a, s.tasks[t]? = some a → a.stage = .queued → s.Ended t a.serial →
    (s.step (.turn t)).isSome
  noEntry : ∀ serial, s.unfinished serial = 0 → OrdMap.get? serial s.chains = none

theorem Chained.pending_eq (h : Chained s) (serial : String) :
    s.pending serial = s.unfinished serial := by
  rw [pending]
  cases hget : OrdMap.get? serial s.chains with
  | none =>
    have hun : s.unfinished serial = 0 := by
      rcases h.chainOf_cases serial with ⟨-, hun, -, -⟩ | ⟨e, hsome, -, -⟩
      · exact hun
      · simp [hget] at hsome
    simp [hun]
  | some e =>
    obtain ⟨entry, hc⟩ := h.chain serial e hget
    simp [hc.get, hc.pending]

theorem Chained.noEntry (h : Chained s) (hun : s.unfinished serial = 0) :
    OrdMap.get? serial s.chains = none := by
  cases hget : OrdMap.get? serial s.chains with
  | none => simp
  | some e =>
    obtain ⟨entry, hc⟩ := h.chain serial e hget
    have hpos := hc.pos
    have hpending := hc.pending
    omega

/-- A settled task holds on to the entry of its serial. -/
theorem Chained.entry (h : Chained s) (hget : s.tasks[t]? = some a) (hleft : a.stage ≠ .left) :
    ∃ entry, s.entries[a.entry]? = some entry := by
  cases hc : OrdMap.get? a.serial s.chains with
  | none => exact absurd (h.idle _ hc t a (List.getElem?_eq_some_iff.mp hget).1 hget (by simp)) hleft
  | some e =>
    obtain ⟨entry, hentry⟩ := h.chain _ _ hc
    exact ⟨entry, hentry.own t a hget (by simp) hleft ▸ hentry.get⟩

theorem Chained.isTurn (h : Chained s) (hget : s.tasks[t]? = some a) (hended : s.Ended t a.serial) :
    s.isTurn a = true := by
  have hlinked := h.link t a hget
  rw [Linked] at hlinked
  rw [DeviceQueue.isTurn]
  cases hprev : a.prev with
  | none => simp
  | some p =>
    rw [hprev] at hlinked
    obtain ⟨hp, c, hc, hserial, -⟩ := hlinked
    simp [hc, hended p c hp hc hserial]

/-- **The adb queue is a FIFO mutex of each serial**, in every run. -/
theorem fifo {max : Nat} {sem : Semaphore} (h0 : Semaphore.new max = some sem)
    (h : Steps (Steps.By step) (new sem) es s) : Fifo es s := by
  have hkept := Kept.steps h (kept_new h0)
  have hchained := hkept.chained
  have hlogged := hkept.logged
  constructor
  case mutex =>
    intro i j a b ha hb hserial hra hrb
    rcases Nat.lt_trichotomy i j with hij | hij | hij
    · have hleft := hchained.turn j b hb (by simp [hrb]) i a hij ha hserial
      simp [hra] at hleft
    · exact hij
    · have hleft := hchained.turn i a ha (by simp [hra]) j b hij hb hserial.symm
      simp [hrb] at hleft
  case order => exact hlogged.order
  case refused =>
    intro t r hmem serial hbegan
    obtain ⟨a, ha, hgave⟩ := (hlogged.refused t r).mp hmem
    obtain ⟨b, hb, -, hbegun⟩ := (hlogged.began t serial).mp hbegan
    cases ha.symm.trans hb
    have hstarted : a.started = true := by
      rw [Task.hasBegun, Bool.and_eq_true] at hbegun
      exact hbegun.1
    simp [(hchained.sane t a ha).excl hstarted] at hgave
  case started =>
    intro t a ha hstarted r hmem
    obtain ⟨b, hb, hgave⟩ := (hlogged.refused t r).mp hmem
    cases ha.symm.trans hb
    simp [(hchained.sane t a ha).excl hstarted] at hgave
  case pending => exact hchained.pending_eq
  case depth =>
    intro t a ha
    rw [hchained.pending_eq]
    exact hchained.depth t a ha
  case own => exact fun t answer hmem ↦ owned h (kept_new h0) (by simp [new]) hmem
  case ends =>
    intro t a ha hstage
    obtain ⟨entry, hentry⟩ := hchained.entry ha (by simp [hstage])
    simp [step, leave, ha, hstage, hentry]
  case turn =>
    intro t a ha hstage hended
    simp [step, turn, ha, hstage, hchained.isTurn ha hended]
  case noEntry => exact fun serial ↦ hchained.noEntry

theorem fifo_two_tasks :
    ∃ sem s, Semaphore.new 1 = some sem ∧
      Steps (Steps.By step) (new sem) [.run "a" {}, .run "a" {}, .turn 0, .gatePassed 0, .begin 0,
        .timeout 1, .complete 0 false, .leave 0, .turn 1, .gatePassed 1, .leave 1] s ∧
      Fifo [.run "a" {}, .run "a" {}, .turn 0, .gatePassed 0, .begin 0, .timeout 1,
        .complete 0 false, .leave 0, .turn 1, .gatePassed 1, .leave 1] s :=
  ⟨_, _, rfl, Steps.steps_by_iff.mpr rfl,
    fifo (show Semaphore.new 1 = some _ from rfl) (Steps.steps_by_iff.mpr rfl)⟩

end DeviceQueue

end Enkaku.Adb
