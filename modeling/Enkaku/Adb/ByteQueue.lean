import Enkaku.Lib.PullQueue

/-!
# The byte queue of an adb socket

`socket.ts`: the bytes of a connection go into a `ByteQueue`, which holds no more than `maxBytes` of
them, and reads wait in it.  A read of `-1` bytes waits for the end; what a read of any other
negative number takes is what `subarray` makes of it.

As far as reads are not negative it is a `PullQueue` (`toPull_flush`).  Its streaming mode, which
begins when the last of these reads is over, is left out.
-/

set_option autoImplicit false

namespace Enkaku.AdbSocket

/-- The fields of a `ByteQueue`.  Of `endedError` only whether there is one is kept. -/
structure ByteQueue where
  chunks : List Bytes := []
  waiter : Option Int := none
  ended : Bool := false
  endedError : Bool := false
  aborted : Bool := false
  deriving DecidableEq, Repr

namespace ByteQueue

/-- `concatAll`. -/
def buffered (q : ByteQueue) : Bytes := q.chunks.flatten

/-- Where `subarray(0, need)` ends: a negative number counts from the back. -/
def cut (length : Nat) (need : Int) : Nat := (if need < 0 then length + need else need).toNat

/-- `flush`. -/
def flush (q : ByteQueue) : ByteQueue × Option Settled :=
  match q.waiter with
  | none => (q, none)
  | some need =>
    if need = -1 then
      if !q.ended then (q, none)
      else if q.endedError then ({ q with waiter := none }, some .rejected)
      else ({ q with chunks := [], waiter := none }, some (.resolved q.buffered))
    else if need ≤ q.buffered.length then
      let k := cut q.buffered.length need
      let rest := q.buffered.drop k
      ({ q with chunks := if rest.isEmpty then [] else [rest], waiter := none },
        some (.resolved (q.buffered.take k)))
    else if q.ended then ({ q with waiter := none }, some .rejected)
    else (q, none)

/-- `abort`. -/
def abort (q : ByteQueue) : ByteQueue × Option Settled :=
  if q.aborted then (q, none)
  else
    ({ q with chunks := [], waiter := none, ended := true, endedError := true, aborted := true },
      q.waiter.map fun _ ↦ .rejected)

/-- `push`. -/
def push (maxBytes : Nat) (q : ByteQueue) (chunk : Bytes) : ByteQueue × Option Settled :=
  if q.aborted then (q, none)
  else
    let q := { q with chunks := q.chunks ++ [chunk] }
    if maxBytes < q.buffered.length then q.abort else q.flush

/-- `end`, with or without an error. -/
def finish (q : ByteQueue) (error : Bool) : ByteQueue × Option Settled :=
  if q.aborted then (q, none) else { q with ended := true, endedError := error }.flush

/-- `take`. -/
def take (q : ByteQueue) (n : Int) : ByteQueue × Option Settled :=
  if q.aborted then (q, some .rejected)
  else if q.waiter.isSome then (q, some .rejected)
  else { q with waiter := some n }.flush

/-! ## As a `PullQueue` -/

/-- The queue, when no read is negative. -/
def toPull (q : ByteQueue) : PullQueue := ⟨q.chunks, q.waiter.map Int.toNat, q.ended, q.aborted⟩

/-- No read is negative. -/
def Tame (q : ByteQueue) : Prop := ∀ need, q.waiter = some need → 0 ≤ need

@[simp] theorem toPull_buffered (q : ByteQueue) : q.toPull.buffered = q.buffered := rfl

@[simp] theorem toPull_aborted (q : ByteQueue) : q.toPull.aborted = q.aborted := rfl

variable {q : ByteQueue}

theorem tame_of_waiter (h : q.waiter = none) : Tame q := by
  intro need hneed
  rw [h] at hneed
  cases hneed

theorem toPull_flush (h : Tame q) : (q.flush.1.toPull, q.flush.2) = q.toPull.flush ∧ Tame q.flush.1 := by
  obtain ⟨chunks, waiter, ended, endedError, aborted⟩ := q
  cases waiter with
  | none => exact ⟨rfl, h⟩
  | some need =>
    obtain ⟨n, rfl⟩ := Int.eq_ofNat_of_zero_le (h need rfl)
    have hneed : ¬ (n : Int) = -1 := by omega
    have hcut : cut chunks.flatten.length n = n := by
      rw [cut, if_neg (by omega)]
      exact Int.toNat_natCast n
    have hpull : (toPull ⟨chunks, some (n : Int), ended, endedError, aborted⟩).flush =
        if n ≤ chunks.flatten.length then
          (⟨if (chunks.flatten.drop n).isEmpty then [] else [chunks.flatten.drop n], none, ended,
              aborted⟩, some (.resolved (chunks.flatten.take n)))
        else if ended then (⟨chunks, none, ended, aborted⟩, some .rejected)
        else (⟨chunks, some n, ended, aborted⟩, none) := rfl
    have hflush : flush ⟨chunks, some (n : Int), ended, endedError, aborted⟩ =
        if n ≤ chunks.flatten.length then
          (⟨if (chunks.flatten.drop n).isEmpty then [] else [chunks.flatten.drop n], none, ended,
              endedError, aborted⟩, some (.resolved (chunks.flatten.take n)))
        else if ended then (⟨chunks, none, ended, endedError, aborted⟩, some .rejected)
        else (⟨chunks, some (n : Int), ended, endedError, aborted⟩, none) := by
      simp only [flush, buffered, if_neg hneed, hcut, Int.ofNat_le]
    rw [hpull, hflush]
    by_cases henough : n ≤ chunks.flatten.length
    · rw [if_pos henough, if_pos henough]
      exact ⟨rfl, tame_of_waiter rfl⟩
    · rw [if_neg henough, if_neg henough]
      cases ended with
      | true => exact ⟨rfl, tame_of_waiter rfl⟩
      | false => exact ⟨rfl, h⟩

theorem toPull_abort (hlive : q.aborted = false) :
    (q.abort.1.toPull, q.abort.2) = q.toPull.abort ∧ Tame q.abort.1 := by
  obtain ⟨chunks, waiter, ended, endedError, aborted⟩ := q
  obtain rfl : aborted = false := hlive
  refine ⟨?_, tame_of_waiter rfl⟩
  cases waiter <;> rfl

theorem toPull_finish (h : Tame q) (hlive : q.aborted = false) (error : Bool) :
    ((q.finish error).1.toPull, (q.finish error).2) = q.toPull.close ∧ Tame (q.finish error).1 := by
  rw [finish, if_neg (by rw [hlive]; decide), PullQueue.close]
  exact toPull_flush (q := { q with ended := true, endedError := error }) h

/-- A chunk that fits arrives; one that does not aborts the queue. -/
theorem toPull_push (maxBytes : Nat) (h : Tame q) (hlive : q.aborted = false) (chunk : Bytes) :
    ((push maxBytes q chunk).1.toPull, (push maxBytes q chunk).2) =
        (if maxBytes < q.buffered.length + chunk.length then q.toPull.abort
          else q.toPull.push chunk) ∧ Tame (push maxBytes q chunk).1 := by
  have hlength : { q with chunks := q.chunks ++ [chunk] }.buffered.length =
      q.buffered.length + chunk.length := by
    simp [buffered]
  rw [push, if_neg (by rw [hlive]; decide)]
  dsimp only
  rw [hlength]
  split_ifs with hlarge
  · have habort := toPull_abort (q := { q with chunks := q.chunks ++ [chunk] }) hlive
    exact ⟨habort.1.trans rfl, habort.2⟩
  · exact toPull_flush (q := { q with chunks := q.chunks ++ [chunk] }) h

theorem toPull_take (hwaiter : q.waiter = none) (n : Nat) :
    ((q.take n).1.toPull, (q.take n).2) = q.toPull.take n ∧ Tame (q.take n).1 := by
  rw [take, PullQueue.take, toPull_aborted, hwaiter]
  split_ifs with haborted hsome
  · exact ⟨rfl, tame_of_waiter hwaiter⟩
  · cases hsome
  · refine toPull_flush (q := { q with waiter := some (n : Int) }) ?_
    intro need hneed
    rw [← Option.some.inj hneed]
    exact Int.natCast_nonneg n

end ByteQueue

end Enkaku.AdbSocket
