import Enkaku.Lib.Bytes

/-!
# Writes on an adb socket

`socket.ts`: `write` sends what the socket takes and then waits for room, in `drainWaiters`; `drain`,
`close` and `error` wake whoever waits there, and a woken write goes on with its loop in a later
microtask.  Waiting is refused when `closed` is set, which `close()`, `abort()` and the idle timeout
do, but not the handlers of the peer's `close` and of `error`.

A write on a dead socket settles exactly when the socket had been closed on this side before it died
(`settles_iff`).
-/

set_option autoImplicit false

namespace Enkaku.SocketWrites

/-- A call of `write` that has not settled: what it was given, and how much of it has been taken. -/
structure Write where
  id : Nat
  data : Bytes
  offset : Nat
  deriving DecidableEq, Repr

/-- The socket, as far as `write` uses it. -/
structure AdbSocket where
  closed : Bool := false
  /-- The writes that wait for room, oldest first. -/
  drainWaiters : Option (List Write) := none
  /-- Those whose promise is resolved and whose continuation has not run. -/
  woken : List Write := []
  /-- The calls that have settled, and whether they resolved. -/
  settled : List (Nat × Bool) := []
  /-- The peer's close, or an error, has been handled. -/
  gone : Bool := false
  deriving DecidableEq, Repr

/-- What happens to a socket.  `answer` is what `socket.write` returns while the socket lives. -/
inductive Input where
  | write (id : Nat) (data : Bytes) (answer : Int)
  | resume (answer : Int)
  | drain
  | close
  | error
  | localClose
  | abort
  | idleTimeout
  deriving DecidableEq, Repr

namespace AdbSocket

/-- The writes that have not settled. -/
def pending (s : AdbSocket) : List Write := s.woken ++ s.drainWaiters.getD []

def settle (s : AdbSocket) (id : Nat) (resolved : Bool) : AdbSocket :=
  { s with settled := s.settled ++ [(id, resolved)] }

/-- `waitForDrain`, on behalf of a write. -/
def waitForDrain (s : AdbSocket) (w : Write) : AdbSocket :=
  if s.closed then s.settle w.id false
  else { s with drainWaiters := some (s.drainWaiters.getD [] ++ [w]) }

/-- The loop of `write`, up to where it waits.  `written` is what `socket.write` returns. -/
def goOn (s : AdbSocket) (w : Write) (written : Int) : AdbSocket :=
  if w.offset < w.data.length then
    let offset := if 0 < written then w.offset + written.toNat else w.offset
    if offset < w.data.length then s.waitForDrain { w with offset := offset }
    else s.settle w.id true
  else s.settle w.id true

/-- `handleDrain`. -/
def handleDrain (s : AdbSocket) : AdbSocket :=
  { s with drainWaiters := none, woken := s.woken ++ s.drainWaiters.getD [] }

/-- One input.  `refused` is what `socket.write` returns on a socket that is gone. -/
def step (refused : Int) (s : AdbSocket) : Input → AdbSocket
  | .write id data answer => s.goOn ⟨id, data, 0⟩ (if s.gone then refused else answer)
  | .resume answer =>
    match s.woken with
    | [] => s
    | w :: woken => { s with woken := woken }.goOn w (if s.gone then refused else answer)
  | .drain => s.handleDrain
  | .close | .error => { s with gone := true }.handleDrain
  | .localClose | .abort | .idleTimeout => { s with closed := true }

def run (refused : Int) (s : AdbSocket) (inputs : List Input) : AdbSocket :=
  inputs.foldl (step refused) s

/-- Every woken write goes on, and nothing else happens. -/
def turns (refused : Int) (s : AdbSocket) : AdbSocket :=
  run refused s (List.replicate s.woken.length (.resume refused))

/-- No write hangs, now or later: whatever happens in between, those that have not settled do when
the woken ones have gone on, and so does a new one, at once. -/
def Settles (refused : Int) (s : AdbSocket) : Prop :=
  ∀ later, let s' := run refused s later
    ((turns refused s').pending = [] ∧
      ∃ outcomes, (turns refused s').settled = s'.settled ++ outcomes ∧
        outcomes.map Prod.fst = s'.pending.map Write.id) ∧
    ∀ id data answer, ∃ resolved,
      (step refused s' (.write id data answer)).settled = s'.settled ++ [(id, resolved)]

/-! ## A socket that has been closed on this side -/

variable {s : AdbSocket}

/-- On a closed socket a write settles when it goes on. -/
theorem goOn_of_closed (h : s.closed = true) (w : Write) (written : Int) :
    ∃ resolved, s.goOn w written = s.settle w.id resolved := by
  rw [goOn]
  by_cases hleft : w.offset < w.data.length
  · rw [if_pos hleft]
    generalize (if 0 < written then w.offset + written.toNat else w.offset) = offset
    by_cases hrest : offset < w.data.length
    · exact ⟨false, by rw [if_pos hrest, waitForDrain, if_pos h]⟩
    · exact ⟨true, by rw [if_neg hrest]⟩
  · exact ⟨true, by rw [if_neg hleft]⟩

/-- Closed, and no write waits any more. -/
structure Released (s : AdbSocket) : Prop where
  closed : s.closed = true
  waiters : s.drainWaiters = none

theorem released_settle (h : Released s) (id : Nat) (resolved : Bool) :
    Released (s.settle id resolved) := ⟨h.closed, h.waiters⟩

/-- Whatever happens, no write waits on such a socket again. -/
theorem released_step (refused : Int) (h : Released s) (i : Input) : Released (s.step refused i) := by
  cases i with
  | write id data answer =>
    obtain ⟨resolved, hgoOn⟩ := goOn_of_closed h.closed ⟨id, data, 0⟩ (if s.gone then refused else answer)
    show Released (s.goOn _ _)
    rw [hgoOn]
    exact released_settle h id resolved
  | resume answer =>
    rw [step]
    split
    · exact h
    · next w woken _ =>
      have hs : Released { s with woken := woken } := ⟨h.closed, h.waiters⟩
      obtain ⟨resolved, hgoOn⟩ := goOn_of_closed hs.closed w (if s.gone then refused else answer)
      rw [hgoOn]
      exact released_settle hs w.id resolved
  | drain => exact ⟨h.closed, rfl⟩
  | close => exact ⟨h.closed, rfl⟩
  | error => exact ⟨h.closed, rfl⟩
  | localClose => exact ⟨rfl, h.waiters⟩
  | abort => exact ⟨rfl, h.waiters⟩
  | idleTimeout => exact ⟨rfl, h.waiters⟩

theorem released_run (refused : Int) (h : Released s) (inputs : List Input) :
    Released (run refused s inputs) := by
  induction inputs using List.reverseRecOn with
  | nil => exact h
  | append_singleton inputs i ih =>
    rw [run, List.foldl_append]
    exact released_step refused ih i

/-- The woken writes of such a socket settle, one after the other. -/
theorem turns_of_released (refused : Int) (h : Released s) :
    (turns refused s).pending = [] ∧
      ∃ outcomes, (turns refused s).settled = s.settled ++ outcomes ∧
        outcomes.map Prod.fst = s.pending.map Write.id := by
  rw [turns]
  induction hwoken : s.woken generalizing s with
  | nil =>
    have hpending : s.pending = [] := by rw [pending, hwoken, h.waiters]; rfl
    exact ⟨hpending, [], (List.append_nil _).symm, by rw [hpending]; rfl⟩
  | cons w woken ih =>
    have hs : Released { s with woken := woken } := ⟨h.closed, h.waiters⟩
    obtain ⟨resolved, hgoOn⟩ := goOn_of_closed hs.closed w (if s.gone then refused else refused)
    have hstep : s.step refused (.resume refused) =
        { s with woken := woken }.settle w.id resolved := by
      rw [step, hwoken]
      exact hgoOn
    obtain ⟨hpending, outcomes, hsettled, hids⟩ := ih (released_settle hs w.id resolved) rfl
    have hrun : run refused s (List.replicate (woken.length + 1) (.resume refused)) =
        run refused ({ s with woken := woken }.settle w.id resolved)
          (List.replicate woken.length (.resume refused)) := by
      rw [List.replicate_succ, run, List.foldl_cons, hstep]
      rfl
    rw [List.length_cons, hrun]
    refine ⟨hpending, (w.id, resolved) :: outcomes, ?_, ?_⟩
    · rw [hsettled]
      show s.settled ++ [(w.id, resolved)] ++ outcomes = _
      rw [List.append_assoc]
      rfl
    · rw [List.map_cons, hids, pending, pending, hwoken]
      rfl

/-! ## A socket that has not -/

/-- On a socket that is gone and not closed, what is left to write waits. -/
theorem goOn_of_gone (h : s.closed = false) {refused : Int} (hrefused : refused ≤ 0) {w : Write}
    (hleft : w.offset < w.data.length) :
    s.goOn w refused = { s with drainWaiters := some (s.drainWaiters.getD [] ++ [w]) } := by
  rw [goOn, if_pos hleft]
  rw [if_neg (Int.not_lt.mpr hrefused), if_pos hleft, waitForDrain, if_neg (by rw [h]; decide)]

/-- **When a write on a dead socket settles.**  Once the peer's close or an error has been handled,
every write that has not settled does so without a further event, and so does every later one, if
and only if the socket had been closed on this side. -/
theorem settles_iff {refused : Int} (hrefused : refused ≤ 0) (inputs : List Input) {e : Input}
    (he : e = .close ∨ e = .error) :
    Settles refused ((run refused {} inputs).step refused e) ↔
      (run refused {} inputs).closed = true := by
  have hstep : (run refused {} inputs).step refused e =
      { run refused {} inputs with gone := true }.handleDrain := by
    rcases he with rfl | rfl <;> rfl
  rw [hstep]
  generalize run refused {} inputs = s
  constructor
  · intro h
    by_contra hopen
    have hopen : s.closed = false := by simpa using hopen
    obtain ⟨resolved, hwrite⟩ := (h []).2 0 [0] refused
    have hopen' : ({ s with gone := true }.handleDrain).closed = false := hopen
    have hleft : (⟨0, [0], 0⟩ : Write).offset < (⟨0, [0], 0⟩ : Write).data.length := by decide
    have hparked := goOn_of_gone hopen' hrefused hleft
    have hsettled : (step refused ({ s with gone := true }.handleDrain) (.write 0 [0] refused)).settled =
        s.settled := by
      show (goOn _ ⟨0, [0], 0⟩ refused).settled = _
      rw [hparked]
      rfl
    rw [show run refused _ [] = { s with gone := true }.handleDrain from rfl, hsettled] at hwrite
    exact absurd (congrArg List.length hwrite) (by simp [handleDrain])
  · intro hclosed later
    have hreleased := released_run refused
      (show Released ({ s with gone := true }.handleDrain) from ⟨hclosed, rfl⟩) later
    refine ⟨turns_of_released refused hreleased, fun id data answer ↦ ?_⟩
    obtain ⟨resolved, hgoOn⟩ := goOn_of_closed hreleased.closed ⟨id, data, 0⟩
      (if (run refused ({ s with gone := true }.handleDrain) later).gone then refused else answer)
    refine ⟨resolved, ?_⟩
    rw [step, hgoOn]
    rfl

/-- A write of which one byte has been taken; then the socket is closed on this side, and dies. -/
theorem settles_iff_closed :
    Settles (-1) ((run (-1) {} [.write 1 [1, 2, 3] 1, .localClose]).step (-1) .close) :=
  (settles_iff (by decide) [.write 1 [1, 2, 3] 1, .localClose] (.inl rfl)).mpr (by decide)

/-- A write of which one byte has been taken waits for room.  The peer closes the connection, the
write goes on, is told that the socket is gone, and waits for room again. -/
theorem write_hangs :
    ((turns (-1) ((run (-1) {} [.write 1 [1, 2, 3] 1]).step (-1) .close)).pending =
        [⟨1, [1, 2, 3], 1⟩] ∧
      (turns (-1) ((run (-1) {} [.write 1 [1, 2, 3] 1]).step (-1) .close)).woken = []) ∧
    ¬ Settles (-1) ((run (-1) {} [.write 1 [1, 2, 3] 1]).step (-1) .close) := by
  refine ⟨⟨by decide, by decide⟩, fun h ↦ ?_⟩
  have hpending := (h []).1.1
  exact nomatch hpending

end AdbSocket

end Enkaku.SocketWrites
