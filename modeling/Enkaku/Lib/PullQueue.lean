import Enkaku.Lib.Bytes

/-!
# Reading a pushed stream by the number of bytes

A stream pushes its bytes in chunks; a reader asks for a number of bytes at a time and waits until
they are there.  `PullQueue` is the queue between them: the chunks that have arrived, and the read
that waits.  A read is settled by the push that brings its last byte, or at once when they are all
there; the reader goes on some time later (`Event.resume`), and more may arrive in between.

A `Reader` is the program on the other side, as far as it reads.  `Session` is the two together.
`Sound` is what holds of a session whatever the order of events: the bytes the reader has taken, the
read it has not seen yet and what is buffered are together what has arrived (`sound_run`).
-/

set_option autoImplicit false

/-- What a read is settled with. -/
inductive Settled where
  | resolved (bytes : Bytes)
  | rejected
  deriving DecidableEq, Repr

/-- The bytes a settled read hands over. -/
def Settled.bytes : Settled → Bytes
  | resolved bytes => bytes
  | rejected => []

structure PullQueue where
  chunks : List Bytes := []
  waiter : Option Nat := none
  ended : Bool := false
  aborted : Bool := false
  deriving DecidableEq, Repr

namespace PullQueue

/-- The bytes that have arrived and have not been read. -/
def buffered (q : PullQueue) : Bytes := q.chunks.flatten

/-- Settles the read that waits, when that can be done. -/
def flush (q : PullQueue) : PullQueue × Option Settled :=
  match q.waiter with
  | none => (q, none)
  | some need =>
    if need ≤ q.buffered.length then
      let rest := q.buffered.drop need
      ({ q with chunks := if rest.isEmpty then [] else [rest], waiter := none },
        some (.resolved (q.buffered.take need)))
    else if q.ended then ({ q with waiter := none }, some .rejected)
    else (q, none)

/-- A chunk arrives. -/
def push (q : PullQueue) (chunk : Bytes) : PullQueue × Option Settled :=
  { q with chunks := q.chunks ++ [chunk] }.flush

/-- The stream ends. -/
def close (q : PullQueue) : PullQueue × Option Settled := { q with ended := true }.flush

/-- The read that waits is rejected, and so is every later one. -/
def abort (q : PullQueue) : PullQueue × Option Settled :=
  ({ q with chunks := [], waiter := none, ended := true, aborted := true },
    q.waiter.map fun _ ↦ .rejected)

/-- A read of so many bytes. -/
def take (q : PullQueue) (need : Nat) : PullQueue × Option Settled :=
  if q.aborted then (q, some .rejected) else { q with waiter := some need }.flush

theorem flush_aborted (q : PullQueue) : q.flush.1.aborted = q.aborted := by
  rw [flush]
  split
  · rfl
  · dsimp only
    split_ifs <;> rfl

/-- What a flush does: nothing, when no read waits or its bytes are not all there; or it hands the
first bytes over; or it rejects the read, when no more will come. -/
theorem flush_cases (q : PullQueue) :
    (q.flush = (q, none) ∧
      ∀ need, q.waiter = some need → q.buffered.length < need ∧ q.ended = false) ∨
    (∃ chunks bytes, q.waiter = some bytes.length ∧ bytes ++ chunks.flatten = q.buffered ∧
      q.flush = ({ q with chunks := chunks, waiter := none }, some (.resolved bytes))) ∨
    (q.waiter ≠ none ∧ q.ended = true ∧
      q.flush = ({ q with waiter := none }, some .rejected)) := by
  cases hwaiter : q.waiter with
  | none => exact .inl ⟨by rw [flush, hwaiter], fun need h ↦ nomatch h⟩
  | some need =>
    by_cases hneed : need ≤ q.buffered.length
    · refine .inr (.inl ⟨_, q.buffered.take need, ?_, ?_, by rw [flush, hwaiter]; exact if_pos hneed⟩)
      · rw [List.length_take, Nat.min_eq_left hneed]
      · cases hrest : q.buffered.drop need with
        | nil =>
          have happ := List.take_append_drop need q.buffered
          rw [hrest] at happ
          exact happ
        | cons b rest =>
          have happ := List.take_append_drop need q.buffered
          rw [hrest] at happ
          simpa using happ
    · by_cases hended : q.ended = true
      · refine .inr (.inr ⟨by simp, hended, ?_⟩)
        rw [flush, hwaiter]
        simp only [if_neg hneed, if_pos hended]
      · refine .inl ⟨?_, ?_⟩
        · rw [flush, hwaiter]
          simp only [if_neg hneed, if_neg hended]
        · rintro _ ⟨⟩
          exact ⟨Nat.lt_of_not_le hneed, by simpa using hended⟩

end PullQueue

/-- A program that reads: in each state how many bytes it waits for, if it does; and what it goes on
as with them, or when its read is rejected, which is the last one then. -/
structure Reader (σ : Type*) where
  need : σ → Option Nat
  next : σ → Bytes → σ
  fail : σ → σ
  fail_done : ∀ s, need (fail s) = none

/-- A reader, its queue, and the read that has been settled behind its back.  `arrived` is all that
the queue has been given. -/
structure Session (σ : Type*) where
  queue : PullQueue
  mail : Option Settled
  state : σ
  arrived : Bytes

namespace Session

variable {σ : Type*} (r : Reader σ) (accepts : PullQueue → Bytes → Bool)

inductive Event where
  | push (chunk : Bytes)
  | close
  | abort
  | resume
  deriving DecidableEq, Repr

/-- The reader asks for what it needs next. -/
def ask (q : PullQueue) (state : σ) : PullQueue × Option Settled :=
  match r.need state with
  | none => (q, none)
  | some need => q.take need

/-- The reader goes on with what its read was settled with. -/
def goOn (state : σ) : Settled → σ
  | .resolved bytes => r.next state bytes
  | .rejected => r.fail state

/-- The queue after something has happened to it, with the read that settled. -/
def settle (s : Session σ) (p : PullQueue × Option Settled) : Session σ :=
  { s with queue := p.1, mail := s.mail.or p.2 }

/-- One event.  `accepts` says which chunks the queue lets in: none, once it is aborted. -/
def step (s : Session σ) : Event → Session σ
  | .push chunk =>
    if accepts s.queue chunk then
      { s with arrived := s.arrived ++ chunk }.settle (s.queue.push chunk)
    else s
  | .close => if s.queue.aborted then s else s.settle s.queue.close
  | .abort => if s.queue.aborted then s else s.settle s.queue.abort
  | .resume =>
    match s.mail with
    | none => s
    | some settled =>
      let state := goOn r s.state settled
      let p := ask r s.queue state
      { s with queue := p.1, mail := p.2, state := state }

/-- A reader that has just asked for its first bytes. -/
def start (state : σ) : Session σ :=
  let p := ask r {} state
  ⟨p.1, p.2, state, []⟩

def run (state : σ) (events : List Event) : Session σ :=
  events.foldl (step r accepts) (start r state)

/-- A reader that has just asked for its first bytes, when some may be there. -/
def startOn (q : PullQueue) (state : σ) : Session σ :=
  let p := ask r q state
  ⟨p.1, p.2, state, q.buffered⟩

/-! ## What has been read -/

/-- The reader gets from one state to another by taking these bytes. -/
inductive Took (s : σ) : Bytes → σ → Prop
  | refl : Took s [] s
  | step {bytes x : Bytes} {t : σ} (h : Took s bytes t) (hneed : r.need t = some x.length) :
      Took s (bytes ++ x) (r.next t x)

variable {bytes : Bytes}

/-- What holds of every state a reader takes the front of a stream to. -/
theorem Took.invariant {r : Reader σ} {s : σ} {stream : Bytes} {P : Bytes → σ → Prop}
    (hstart : P [] s)
    (hstep : ∀ {bytes t x}, P bytes t → r.need t = some x.length → bytes ++ x <+: stream →
      P (bytes ++ x) (r.next t x)) {t : σ} (h : Took r s bytes t) (hfront : bytes <+: stream) :
    P bytes t := by
  induction h with
  | refl => exact hstart
  | step h hneed ih =>
    exact hstep (ih ((List.prefix_append _ _).trans hfront)) hneed hfront

/-- The bytes a session has handed over, when its reader has not seen them yet. -/
def mailed (s : Session σ) : Bytes := (s.mail.map Settled.bytes).getD []

/-- What holds of a session that a reader in the state `s₀` has begun. -/
structure Sound (s₀ : σ) (s : Session σ) : Prop where
  /-- What has been read, handed over and buffered has arrived, and unless the queue has been
  aborted it is all that has. -/
  took : ∃ bytes t, Took r s₀ bytes t ∧
    (s.state = t ∨ s.queue.ended = true ∧ s.state = r.fail t) ∧
    bytes ++ s.mailed <+: s.arrived ∧
    (s.queue.aborted = false → bytes ++ s.mailed ++ s.queue.buffered = s.arrived)
  /-- A read that has been settled was of that many bytes. -/
  mail : ∀ bytes, s.mail = some (.resolved bytes) → r.need s.state = some bytes.length
  /-- Only the end of the stream rejects a read. -/
  rejected : s.mail = some .rejected → s.queue.ended = true ∧ r.need s.state ≠ none
  /-- While a settled read has not been seen, none waits. -/
  waiter : s.mail ≠ none → s.queue.waiter = none
  /-- Otherwise the reader waits for what it needs, -/
  waits : s.mail = none → s.queue.waiter = r.need s.state
  /-- which is not there yet; nor has the stream ended. -/
  short : s.mail = none → ∀ need, r.need s.state = some need →
    s.queue.buffered.length < need ∧ s.queue.ended = false
  /-- An aborted queue has ended. -/
  ended : s.queue.aborted = true → s.queue.ended = true

variable {r accepts} {s₀ : σ}

variable {q : PullQueue}

/-- A flush on behalf of a reader that waits for what it needs. -/
theorem sound_flush {state t : σ} {arrived : Bytes} (htook : Took r s₀ bytes t)
    (hstate : state = t ∨ q.ended = true ∧ state = r.fail t) (hwaiter : q.waiter = r.need state)
    (harrived : bytes ++ q.buffered = arrived) (haborted : q.aborted = false) :
    Sound r s₀ ⟨q.flush.1, q.flush.2, state, arrived⟩ := by
  have hnot : q.aborted = true → q.ended = true := fun h ↦ absurd (haborted.symm.trans h) (by decide)
  rcases q.flush_cases with ⟨hflush, hshort⟩ | ⟨chunks, x, hx, happ, hflush⟩ | ⟨hne, hended, hflush⟩
  · have hall : bytes ++ mailed (⟨q, none, state, arrived⟩ : Session σ) ++ q.buffered = arrived := by
      rw [mailed, Option.map_none, Option.getD_none, List.append_nil, harrived]
    rw [hflush]
    exact {
      took := ⟨bytes, t, htook, hstate, ⟨_, hall⟩, fun _ ↦ hall⟩
      mail := fun _ h ↦ by cases h
      rejected := fun h ↦ by cases h
      waiter := fun h ↦ absurd rfl h
      waits := fun _ ↦ hwaiter
      short := fun _ need hneed ↦ hshort need (hwaiter.trans hneed)
      ended := hnot }
  · have hall : bytes ++ x ++ chunks.flatten = arrived := by
      rw [List.append_assoc, happ, harrived]
    rw [hflush]
    exact {
      took := ⟨bytes, t, htook, hstate, ⟨_, hall⟩, fun _ ↦ hall⟩
      mail := fun y h ↦ by
        obtain rfl : x = y := by simpa using h
        rw [← hwaiter, hx]
      rejected := fun h ↦ by cases h
      waiter := fun _ ↦ rfl
      waits := fun h ↦ by cases h
      short := fun h ↦ by cases h
      ended := hnot }
  · have hall : bytes ++ [] ++ q.buffered = arrived := by rw [List.append_nil, harrived]
    rw [hflush]
    exact {
      took := ⟨bytes, t, htook, hstate, ⟨_, hall⟩, fun _ ↦ hall⟩
      mail := fun y h ↦ by cases h
      rejected := fun _ ↦ ⟨hended, hwaiter ▸ hne⟩
      waiter := fun _ ↦ rfl
      waits := fun h ↦ by cases h
      short := fun h ↦ by cases h
      ended := hnot }

/-- A queue in which no read waits does not settle one. -/
theorem flush_of_waiter_eq_none (h : q.waiter = none) : q.flush = (q, none) := by
  rw [PullQueue.flush, h]

variable {s : Session σ}

/-- A chunk that arrives, or the end of the stream, while the reader has a settled read to see. -/
theorem sound_flush_mail (hs : Sound r s₀ s) (hmail : s.mail ≠ none) (chunk : Bytes)
    (hchunks : q.buffered = s.queue.buffered ++ chunk) (hwaiter : q.waiter = s.queue.waiter)
    (hended : s.queue.ended = true → q.ended = true) (haborted : q.aborted = s.queue.aborted) :
    Sound r s₀ ({ s with arrived := s.arrived ++ chunk }.settle q.flush) := by
  obtain ⟨bytes, t, htook, hstate, hfront, hall⟩ := hs.took
  rw [flush_of_waiter_eq_none (hwaiter.trans (hs.waiter hmail)), settle, Option.or_none]
  exact {
    took := by
      refine ⟨bytes, t, htook, hstate.imp id fun h ↦ ⟨hended h.1, h.2⟩,
        hfront.trans (List.prefix_append _ _), fun h ↦ ?_⟩
      show bytes ++ s.mailed ++ q.buffered = s.arrived ++ chunk
      rw [hchunks, ← List.append_assoc, hall (haborted ▸ h)]
    mail := hs.mail
    rejected := fun h ↦ ⟨hended (hs.rejected h).1, (hs.rejected h).2⟩
    waiter := fun _ ↦ hwaiter.trans (hs.waiter hmail)
    waits := fun h ↦ absurd h hmail
    short := fun h ↦ absurd h hmail
    ended := fun h ↦ hended (hs.ended (haborted ▸ h)) }

/-- The reader has gone on, and asks for what it needs next. -/
theorem sound_ask {state t : σ} {arrived : Bytes} (htook : Took r s₀ bytes t)
    (hstate : state = t ∨ q.ended = true ∧ state = r.fail t) (hwaiter : q.waiter = none)
    (hfront : bytes <+: arrived) (hall : q.aborted = false → bytes ++ q.buffered = arrived)
    (hended : q.aborted = true → q.ended = true) :
    Sound r s₀ ⟨(ask r q state).1, (ask r q state).2, state, arrived⟩ := by
  have hfront' : bytes ++ [] <+: arrived := by rwa [List.append_nil]
  have hall' : q.aborted = false → bytes ++ [] ++ q.buffered = arrived := by rwa [List.append_nil]
  rw [ask]
  cases hneed : r.need state with
  | none =>
    exact {
      took := ⟨bytes, t, htook, hstate, hfront', hall'⟩
      mail := fun _ h ↦ by cases h
      rejected := fun h ↦ by cases h
      waiter := fun h ↦ absurd rfl h
      waits := fun _ ↦ hwaiter.trans hneed.symm
      short := fun _ need h ↦ by rw [show r.need state = none from hneed] at h; cases h
      ended := hended }
  | some need =>
    by_cases haborted : q.aborted = true
    · simp only [PullQueue.take, if_pos haborted]
      exact {
        took := ⟨bytes, t, htook, hstate, hfront', hall'⟩
        mail := fun _ h ↦ by cases h
        rejected := fun _ ↦ ⟨hended haborted, by rw [hneed]; exact Option.some_ne_none need⟩
        waiter := fun _ ↦ hwaiter
        waits := fun h ↦ by cases h
        short := fun h ↦ by cases h
        ended := hended }
    · simp only [PullQueue.take, if_neg haborted]
      have hlive : q.aborted = false := by simpa using haborted
      exact sound_flush (q := { q with waiter := some need }) htook hstate hneed.symm (hall hlive)
        hlive

theorem sound_start (state : σ) : Sound r state (start r state) :=
  sound_ask .refl (.inl rfl) rfl (List.nil_prefix) (fun _ ↦ rfl) fun h ↦ by cases h

theorem sound_startOn (hwaiter : q.waiter = none) (hended : q.aborted = true → q.ended = true)
    (state : σ) : Sound r state (startOn r q state) :=
  sound_ask .refl (.inl rfl) hwaiter List.nil_prefix (fun _ ↦ List.nil_append _) hended

theorem sound_step (hs : Sound r s₀ s)
    (haccepts : ∀ q chunk, accepts q chunk = true → q.aborted = true → q.ended = false)
    (e : Event) : Sound r s₀ (s.step r accepts e) := by
  obtain ⟨bytes, t, htook, hstate, hfront, hall⟩ := hs.took
  cases e with
  | push chunk =>
    rw [step]
    split_ifs with h
    · have hlive : s.queue.aborted = false := by
        by_contra haborted
        have haborted : s.queue.aborted = true := by simpa using haborted
        exact absurd ((haccepts _ _ h haborted).symm.trans (hs.ended haborted)) (by decide)
      have hbuffered : { s.queue with chunks := s.queue.chunks ++ [chunk] }.buffered =
          s.queue.buffered ++ chunk := by
        simp [PullQueue.buffered]
      by_cases hmail : s.mail = none
      · have hempty : s.mailed = [] := by rw [mailed, hmail]; rfl
        have harrived := hall hlive
        rw [hempty, List.append_nil] at harrived
        rw [settle, hmail, Option.none_or]
        refine sound_flush htook hstate (hs.waits hmail) ?_ hlive
        rw [hbuffered, ← List.append_assoc, harrived]
      · exact sound_flush_mail hs hmail chunk hbuffered rfl id rfl
    · exact hs
  | close =>
    rw [step]
    split_ifs with h
    · exact hs
    · by_cases hmail : s.mail = none
      · have hempty : s.mailed = [] := by rw [mailed, hmail]; rfl
        have harrived := hall (by simpa using h)
        rw [hempty, List.append_nil] at harrived
        rw [settle, hmail, Option.none_or]
        exact sound_flush htook (hstate.imp id fun h ↦ ⟨rfl, h.2⟩) (hs.waits hmail) harrived
          (by simpa using h)
      · have hsound := sound_flush_mail (q := { s.queue with ended := true }) hs hmail []
          (List.append_nil _).symm rfl (fun _ ↦ rfl) rfl
        rwa [List.append_nil] at hsound
  | abort =>
    rw [step]
    split_ifs with h
    · exact hs
    · have hmailed : (s.settle s.queue.abort).mailed = s.mailed := by
        rw [mailed, mailed, settle, PullQueue.abort]
        cases s.mail <;> cases s.queue.waiter <;> rfl
      have hmail : s.mail = none → (s.settle s.queue.abort).mail =
          (r.need s.state).map fun _ ↦ .rejected := by
        intro hmail
        rw [settle, hmail, Option.none_or, PullQueue.abort, hs.waits hmail]
      have hkeeps : s.mail ≠ none → (s.settle s.queue.abort).mail = s.mail := by
        intro hmail
        obtain ⟨settled, hsettled⟩ := Option.ne_none_iff_exists'.mp hmail
        rw [settle, hsettled, Option.some_or]
      exact {
        took := ⟨bytes, t, htook, hstate.imp id fun h ↦ ⟨rfl, h.2⟩, hmailed ▸ hfront,
          fun h ↦ by cases h⟩
        mail := fun x hx ↦ by
          by_cases hnone : s.mail = none
          · rw [hmail hnone] at hx
            cases hneed : r.need s.state <;> rw [hneed] at hx <;> cases hx
          · exact hs.mail x (hkeeps hnone ▸ hx)
        rejected := fun hx ↦ by
          refine ⟨rfl, ?_⟩
          by_cases hnone : s.mail = none
          · rw [hmail hnone] at hx
            intro hneed
            rw [show r.need s.state = none from hneed] at hx
            cases hx
          · exact (hs.rejected (hkeeps hnone ▸ hx)).2
        waiter := fun _ ↦ rfl
        waits := fun hx ↦ by
          by_cases hnone : s.mail = none
          · rw [hmail hnone, Option.map_eq_none_iff] at hx
            exact hx.symm
          · exact absurd (hkeeps hnone ▸ hx) hnone
        short := fun hx need hneed ↦ by
          by_cases hnone : s.mail = none
          · rw [hmail hnone, Option.map_eq_none_iff] at hx
            rw [show r.need s.state = some need from hneed] at hx
            cases hx
          · exact absurd (hkeeps hnone ▸ hx) hnone
        ended := fun _ ↦ rfl }
  | resume =>
    rw [step]
    split
    · exact hs
    · next settled hmail =>
      have hwaiter := hs.waiter (by rw [hmail]; exact Option.some_ne_none settled)
      have hmailed : s.mailed = settled.bytes := by rw [mailed, hmail]; rfl
      rw [hmailed] at hfront hall
      cases settled with
      | resolved x =>
        have hneed := hs.mail x hmail
        -- a reader that has failed needs nothing, so this one has not
        obtain rfl : s.state = t := by
          refine hstate.resolve_right fun h ↦ ?_
          rw [h.2, r.fail_done] at hneed
          cases hneed
        exact sound_ask (htook.step hneed) (.inl rfl) hwaiter hfront hall hs.ended
      | rejected =>
        obtain ⟨hended, hneed⟩ := hs.rejected hmail
        obtain rfl : s.state = t := by
          refine hstate.resolve_right fun h ↦ hneed ?_
          rw [h.2, r.fail_done]
        simp only [Settled.bytes, List.append_nil] at hfront hall
        exact sound_ask htook (.inr ⟨hended, rfl⟩) hwaiter hfront hall hs.ended

/-- **A session is sound** whatever the order of its events. -/
theorem sound_run
    (haccepts : ∀ q chunk, accepts q chunk = true → q.aborted = true → q.ended = false) (state : σ)
    (events : List Event) : Sound r state (run r accepts state events) := by
  induction events using List.reverseRecOn with
  | nil => exact sound_start state
  | append_singleton events e ih =>
    rw [run, List.foldl_append]
    exact sound_step ih haccepts e

/-! ## All that a reader needs -/

/-- Nothing that a reader asks for on this stream goes past its end. -/
def Within (r : Reader σ) (s₀ : σ) (stream : Bytes) : Prop :=
  ∀ ⦃bytes t need⦄, Took r s₀ bytes t → bytes <+: stream → r.need t = some need →
    bytes.length + need ≤ stream.length

/-- A session whose reader has all it needs: no read waits, and none has been rejected. -/
structure Fed (r : Reader σ) (s₀ : σ) (stream : Bytes) (s : Session σ) : Prop where
  live : s.queue.aborted = false
  took : ∃ bytes, Took r s₀ bytes s.state ∧ bytes <+: stream ∧
    bytes ++ s.mailed ++ s.queue.buffered = s.arrived
  arrived : stream <+: s.arrived
  mail : ∀ bytes, s.mail = some (.resolved bytes) → r.need s.state = some bytes.length
  resolved : s.mail ≠ some .rejected
  waiter : s.queue.waiter = none
  /-- When the reader has nothing to see, it is done. -/
  done : s.mail = none → r.need s.state = none

variable {stream : Bytes}

/-- What a reader takes of a stream that has arrived stays within it. -/
theorem Took.within (hwithin : Within r s₀ stream) {arrived : Bytes} {t : σ}
    (h : Took r s₀ bytes t) (hfront : bytes <+: arrived) (harrived : stream <+: arrived) :
    bytes <+: stream := by
  induction h with
  | refl => exact List.nil_prefix
  | @step bytes x t h hneed ih =>
    have hbytes := ih ((List.prefix_append _ _).trans hfront)
    refine List.prefix_of_prefix_length_le hfront harrived ?_
    rw [List.length_append]
    exact hwithin h hbytes hneed

theorem fed_of_sound (hwithin : Within r s₀ stream) (hs : Sound r s₀ s)
    (hended : s.queue.ended = false) (harrived : stream <+: s.arrived) : Fed r s₀ stream s := by
  have hlive : s.queue.aborted = false := by
    by_contra haborted
    exact absurd (hended.symm.trans (hs.ended (by simpa using haborted))) (by decide)
  obtain ⟨bytes, t, htook, hstate, hfront, hall⟩ := hs.took
  obtain rfl : s.state = t := hstate.resolve_right fun h ↦ by
    rw [h.1] at hended
    cases hended
  have hbytes := htook.within hwithin ((List.prefix_append _ _).trans hfront) harrived
  have hdone : s.mail = none → r.need s.state = none := by
    intro hmail
    by_contra hneed
    obtain ⟨need, hneed⟩ := Option.ne_none_iff_exists'.mp hneed
    have hshort := (hs.short hmail need hneed).1
    have henough := hwithin htook hbytes hneed
    have hlength := harrived.length_le
    rw [← hall hlive, mailed, hmail] at hlength
    simp only [Option.map_none, Option.getD_none, List.append_nil, List.length_append] at hlength
    omega
  exact {
    live := hlive
    took := ⟨bytes, htook, hbytes, hall hlive⟩
    arrived := harrived
    mail := hs.mail
    resolved := fun h ↦ absurd (hended.symm.trans (hs.rejected h).1) (by decide)
    waiter := by
      by_cases hmail : s.mail = none
      · rw [hs.waits hmail, hdone hmail]
      · exact hs.waiter hmail
    done := hdone }

/-- **A reader that has all it needs is not stopped** by what arrives later, or by the end. -/
theorem fed_step (hwithin : Within r s₀ stream) (hs : Fed r s₀ stream s) {e : Event}
    (he : e ≠ .abort) : Fed r s₀ stream (s.step r accepts e) := by
  obtain ⟨bytes, htook, hfront, hall⟩ := hs.took
  cases e with
  | push chunk =>
    rw [step]
    split_ifs with h
    · have hflush := flush_of_waiter_eq_none
        (q := { s.queue with chunks := s.queue.chunks ++ [chunk] }) hs.waiter
      rw [PullQueue.push, hflush, settle, Option.or_none]
      refine { hs with took := ⟨bytes, htook, hfront, ?_⟩, arrived := ?_ }
      · rw [← hall]
        simp [PullQueue.buffered, mailed]
      · exact hs.arrived.trans (List.prefix_append _ _)
    · exact hs
  | close =>
    rw [step]
    split_ifs with h
    · exact hs
    · have hflush := flush_of_waiter_eq_none (q := { s.queue with ended := true }) hs.waiter
      rw [PullQueue.close, hflush, settle, Option.or_none]
      exact { hs with }
  | abort => exact absurd rfl he
  | resume =>
    rw [step]
    split
    · exact hs
    · next settled hmail =>
      cases settled with
      | rejected => exact absurd hmail hs.resolved
      | resolved x =>
        have hneed := hs.mail x hmail
        have hmailed : s.mailed = x := by rw [mailed, hmail]; rfl
        rw [hmailed] at hall
        have htook' := htook.step hneed
        have hfront' : bytes ++ x <+: stream := by
          refine htook'.within hwithin ?_ hs.arrived
          rw [← hall]
          exact List.prefix_append _ _
        show Fed r s₀ stream ⟨(ask r s.queue (r.next s.state x)).1, (ask r s.queue (r.next s.state x)).2,
          r.next s.state x, s.arrived⟩
        cases hnext : r.need (r.next s.state x) with
        | none =>
          have hask : ask r s.queue (r.next s.state x) = (s.queue, none) := by rw [ask, hnext]
          rw [hask]
          exact {
            live := hs.live
            took := ⟨bytes ++ x, htook', hfront', by
              rw [mailed, Option.map_none, Option.getD_none, List.append_nil]; exact hall⟩
            arrived := hs.arrived
            mail := fun y hy ↦ by cases hy
            resolved := fun hy ↦ by cases hy
            waiter := hs.waiter
            done := fun _ ↦ hnext }
        | some need =>
          have henough := hwithin htook' hfront' hnext
          have hlength := hs.arrived.length_le
          rw [← hall, List.length_append] at hlength
          have hready : need ≤ s.queue.buffered.length := by omega
          have hqueue : { s.queue with waiter := some need }.buffered = s.queue.buffered := rfl
          have hlive : ¬ s.queue.aborted = true := by rw [hs.live]; decide
          have hrest : (if (s.queue.buffered.drop need).isEmpty = true then []
              else [s.queue.buffered.drop need]).flatten = s.queue.buffered.drop need := by
            split_ifs with hempty
            · exact (List.isEmpty_iff.mp hempty).symm
            · exact List.flatten_singleton
          have hask : ask r s.queue (r.next s.state x) = s.queue.take need := by rw [ask, hnext]
          simp only [hask, PullQueue.take, if_neg hlive, PullQueue.flush, hqueue, if_pos hready]
          exact {
            live := hs.live
            took := ⟨bytes ++ x, htook', hfront', by
              show bytes ++ x ++ s.queue.buffered.take need ++ List.flatten _ = _
              rw [hrest, List.append_assoc, List.take_append_drop]
              exact hall⟩
            arrived := hs.arrived
            mail := fun y hy ↦ by
              obtain rfl : s.queue.buffered.take need = y := by simpa using hy
              rw [List.length_take, Nat.min_eq_left hready]
              exact hnext
            resolved := fun hy ↦ by cases hy
            waiter := rfl
            done := fun hy ↦ by cases hy }

end Session
