import Enkaku.Adb.ByteQueue
import Enkaku.Lib.Utf8
import Enkaku.Workflow.SetJson
import Mathlib.Data.List.ReduceOption

/-!
# Requests and blocks on an adb socket

`socket.ts`: a request is its length in four hexadecimal digits and its bytes, and so is a block
that comes back.  `readBlock` reads the four digits with `Number.parseInt` and then as many bytes,
off the queue of the connection, while chunks arrive and the connection may end.

`framing_exact` says that below 65536 bytes both are exact.
-/

set_option autoImplicit false

namespace Enkaku.AdbSocket

open List

open ByteQueue Utf8

/-! ## Requests -/

/-- `out.set(bytes, offset)`. -/
def setAt (out : Bytes) (offset : Nat) (bytes : Bytes) : Bytes :=
  out.take offset ++ (bytes ++ out.drop (offset + bytes.length))

/-- `text.padStart(n, '0')`. -/
def padStart (n : Nat) (text : List Char) : List Char := List.replicate (n - text.length) '0' ++ text

/-- The digits in front of a request of so many bytes. -/
def lengthDigits (n : Nat) : Bytes :=
  Utf8.encode (String.ofList (padStart 4 (Nat.toDigits 16 n)))

/-- `encodeRequest`. -/
def encodeRequest (payload : String) : Bytes :=
  let body := Utf8.encode payload
  setAt (setAt (List.replicate (4 + body.length) 0) 0 (lengthDigits body.length)) 4 body

/-- What four hexadecimal digits say. -/
def hexLength? (front : Bytes) : Option Nat :=
  if front.length = 4 then
    (front.mapM fun b ↦ hexValue? (Char.ofNat b.toNat)).map (List.foldl (fun n d ↦ 16 * n + d) 0)
  else none

/-! ## `readBlock` -/

/-- Where `readBlock` stands.  It throws the error its read was rejected with, or an
`E_ADB_PROTOCOL` with a message. -/
inductive BlockPhase where
  | length
  | body (len : Int)
  | returned (text : String)
  | threw (message : Option String)
  deriving DecidableEq, Repr

namespace BlockPhase

/-- The read it waits for. -/
def need : BlockPhase → Option Int
  | length => some 4
  | body len => some len
  | returned _ | threw _ => none

/-- What it does with the bytes of that read. -/
def next (phase : BlockPhase) (bytes : Bytes) : BlockPhase :=
  match phase with
  | length =>
    let lenHex := (Utf8.decode bytes).toList
    match parseInt16 lenHex with
    | none => threw (some ("bad block length: " ++ String.ofList (quote lenHex)))
    | some len => if len = 0 then returned "" else body len
  | body _ => returned (Utf8.decode bytes)
  | phase => phase

/-- What it goes on as when its read has been settled. -/
def goOn (phase : BlockPhase) : Settled → BlockPhase
  | .resolved bytes => phase.next bytes
  | .rejected => threw none

end BlockPhase

/-- A socket in a `readBlock`: its queue, the read that has been settled behind the back of the
loop, and where that stands.  `arrived` is all that the queue has been given. -/
structure BlockRead where
  queue : ByteQueue
  mail : Option Settled
  phase : BlockPhase
  arrived : Bytes

/-- What happens to a socket: a chunk arrives, it closes, with or without an error, it is aborted or
a deadline passes, or the loop gets to run. -/
inductive SocketInput where
  | data (chunk : Bytes)
  | close (error : Bool)
  | abort
  | resume
  deriving DecidableEq, Repr

namespace BlockRead

/-- The loop asks for what it needs next. -/
def ask (q : ByteQueue) (phase : BlockPhase) : ByteQueue × Option Settled :=
  match phase.need with
  | none => (q, none)
  | some need => q.take need

/-- `readBlock` on a queue. -/
def start (q : ByteQueue) : BlockRead := ⟨(ask q .length).1, (ask q .length).2, .length, q.buffered⟩

def settle (b : BlockRead) (p : ByteQueue × Option Settled) : BlockRead :=
  { b with queue := p.1, mail := b.mail.or p.2 }

/-- A chunk of which nothing is kept has not arrived. -/
def step (maxBytes : Nat) (b : BlockRead) : SocketInput → BlockRead
  | .data chunk =>
    let p := b.queue.push maxBytes chunk
    { b with arrived := if p.1.aborted then b.arrived else b.arrived ++ chunk }.settle p
  | .close error => b.settle (b.queue.finish error)
  | .abort => b.settle b.queue.abort
  | .resume =>
    match b.mail with
    | none => b
    | some settled =>
      let phase := b.phase.goOn settled
      ⟨(ask b.queue phase).1, (ask b.queue phase).2, phase, b.arrived⟩

def run (maxBytes : Nat) (q : ByteQueue) (inputs : List SocketInput) : BlockRead :=
  inputs.foldl (step maxBytes) (start q)

end BlockRead

/-! ## The digits of a length -/

/-- A hexadecimal digit is a letter or a decimal digit, and none of the characters that
`Number.parseInt` treats in a way of its own. -/
theorem hexValue?_char : ∀ n : Fin 256, (hexValue? (Char.ofNat n)).isSome →
    n.val ≤ 0x7F ∧ isJsSpace (Char.ofNat n) = false ∧ Char.ofNat n ≠ '-' ∧ Char.ofNat n ≠ '+' ∧
      Char.ofNat n ≠ 'x' ∧ Char.ofNat n ≠ 'X' := by
  decide +kernel

theorem hexValue?_byte {b : UInt8} {d : Nat} (h : hexValue? (Char.ofNat b.toNat) = some d) :
    b.toNat ≤ 0x7F ∧ isJsSpace (Char.ofNat b.toNat) = false ∧ Char.ofNat b.toNat ≠ '-' ∧
      Char.ofNat b.toNat ≠ '+' ∧ Char.ofNat b.toNat ≠ 'x' ∧ Char.ofNat b.toNat ≠ 'X' :=
  hexValue?_char ⟨b.toNat, b.toNat_lt⟩ (Option.isSome_iff_exists.mpr ⟨d, h⟩)

/-- A letter is read as one. -/
theorem decodeFrom_ascii {b : UInt8} (h : b.toNat ≤ 0x7F) (rest : Bytes) :
    decodeFrom {} (b :: rest) = Char.ofNat b.toNat :: decodeFrom {} rest := by
  have hone := decodeFrom_one h rest
  rwa [UInt8.ofNat_toNat] at hone

variable {front : Bytes} {n : Nat}

/-- What four hexadecimal digits say is what `Number.parseInt` reads. -/
theorem parseInt16_of_hexLength? (h : hexLength? front = some n) :
    front.length = 4 ∧ parseInt16 (decode front).toList = some (n : Int) := by
  rw [hexLength?] at h
  split_ifs at h with hlength
  refine ⟨hlength, ?_⟩
  obtain ⟨a, b, c, d, rfl⟩ : ∃ a b c d, front = [a, b, c, d] := by
    match front, hlength with
    | [a, b, c, d], _ => exact ⟨a, b, c, d, rfl⟩
  obtain ⟨digits, hdigits, hn⟩ := Option.map_eq_some_iff.mp h
  simp only [mapM_cons, mapM_nil, Option.bind_eq_bind, Option.pure_def,
    Option.bind_eq_some_iff, Option.some.injEq] at hdigits
  obtain ⟨va, ha, _, ⟨vb, hb, _, ⟨vc, hc, _, ⟨vd, hd, _, rfl, rfl⟩, rfl⟩, rfl⟩, rfl⟩ := hdigits
  obtain ⟨hascii, hspace, hminus, hplus, -⟩ := hexValue?_byte ha
  obtain ⟨hascii', -, -, -, hx, hX⟩ := hexValue?_byte hb
  have hdecode : (decode [a, b, c, d]).toList =
      [Char.ofNat a.toNat, Char.ofNat b.toNat, Char.ofNat c.toNat, Char.ofNat d.toNat] := by
    rw [decode.eq_2, String.toList_ofList, decodeFrom_ascii hascii, decodeFrom_ascii hascii',
      decodeFrom_ascii (hexValue?_byte hc).1, decodeFrom_ascii (hexValue?_byte hd).1]
    · rfl
    · intro rest hrest
      obtain ⟨rfl, -⟩ := List.cons.inj hrest
      exact absurd hascii (by decide)
  rw [hdecode, parseInt16, skipWs, dropWhile_cons_of_neg (by rw [hspace]; decide)]
  simp only [head?_cons, Option.some.injEq, hminus, hplus, or_self, if_false, take_succ_cons,
    take_zero, List.cons.injEq, hx, hX, and_false, false_and, map_cons, map_nil, ha, hb,
    hc, hd]
  rw [← hn]
  simp [List.reduceOption]

/-- The four digits of a number below 65536. -/
theorem padStart_toDigits (h : n < 65536) :
    padStart 4 (Nat.toDigits 16 n) = [Nat.digitChar (n / 4096), Nat.digitChar (n / 256 % 16),
      Nat.digitChar (n / 16 % 16), Nat.digitChar (n % 16)] := by
  have hmore : ∀ {k}, 16 ≤ k → Nat.toDigits 16 k = Nat.toDigits 16 (k / 16) ++ [Nat.digitChar (k % 16)] :=
    fun hk ↦ Nat.toDigits_of_base_le (by decide) hk
  have hless : ∀ {k}, k < 16 → Nat.toDigits 16 k = [Nat.digitChar k] := Nat.toDigits_of_lt_base
  by_cases h₁ : n < 16
  · rw [hless h₁, show n / 4096 = 0 by omega, show n / 256 % 16 = 0 by omega,
      show n / 16 % 16 = 0 by omega, show n % 16 = n by omega]
    rfl
  by_cases h₂ : n < 256
  · rw [hmore (by omega), hless (by omega), show n / 4096 = 0 by omega,
      show n / 256 % 16 = 0 by omega, show n / 16 % 16 = n / 16 by omega]
    rfl
  by_cases h₃ : n < 4096
  · rw [hmore (by omega), hmore (by omega), hless (by omega), show n / 4096 = 0 by omega,
      show n / 256 % 16 = n / 16 / 16 by omega]
    rfl
  · rw [hmore (by omega), hmore (by omega), hmore (by omega), hless (by omega),
      show n / 4096 = n / 16 / 16 / 16 by omega, show n / 256 % 16 = n / 16 / 16 % 16 by omega]
    rfl

/-- A digit of a length, as it is written and as it is read. -/
theorem digitChar_spec : ∀ d : Fin 16, String.utf8EncodeChar (Nat.digitChar d) =
    [UInt8.ofNat (Nat.digitChar d).toNat] ∧
      hexValue? (Char.ofNat (UInt8.ofNat (Nat.digitChar d).toNat).toNat) = some d.val := by
  decide +kernel

/-- Below 65536 the length is four hexadecimal digits. -/
theorem hexLength?_lengthDigits (h : n < 65536) : hexLength? (lengthDigits n) = some n := by
  have hdigit : ∀ d, d < 16 → String.utf8EncodeChar (Nat.digitChar d) =
      [UInt8.ofNat (Nat.digitChar d).toNat] := fun d hd ↦ (digitChar_spec ⟨d, hd⟩).1
  have hvalue : ∀ d, d < 16 → hexValue? (Char.ofNat (UInt8.ofNat (Nat.digitChar d).toNat).toNat) =
      some d := fun d hd ↦ (digitChar_spec ⟨d, hd⟩).2
  have h₀ : n / 4096 < 16 := by omega
  have h₁ : n / 256 % 16 < 16 := by omega
  have h₂ : n / 16 % 16 < 16 := by omega
  have h₃ : n % 16 < 16 := by omega
  rw [lengthDigits, encode, String.toList_ofList, padStart_toDigits h]
  simp only [flatMap_cons, flatMap_nil, hdigit _ h₀, hdigit _ h₁, hdigit _ h₂, hdigit _ h₃,
    cons_append, nil_append, hexLength?, length_cons, length_nil, mapM_cons,
    mapM_nil, hvalue _ h₀, hvalue _ h₁, hvalue _ h₂, hvalue _ h₃, Option.bind_eq_bind,
    Option.bind_some, Option.pure_def, Option.map_some, foldl_cons, foldl_nil, if_true]
  congr 1
  omega

theorem length_lengthDigits (h : n < 65536) : (lengthDigits n).length = 4 :=
  (parseInt16_of_hexLength? (hexLength?_lengthDigits h)).1

/-- Below 65536 bytes a request is its length and its bytes. -/
theorem encodeRequest_eq {payload : String} (h : (encode payload).length < 65536) :
    encodeRequest payload = lengthDigits (encode payload).length ++ encode payload := by
  have hlength := length_lengthDigits h
  simp only [encodeRequest, setAt, take_zero, nil_append, Nat.zero_add]
  rw [take_left' hlength, hlength, drop_eq_nil_of_le, append_nil]
  rw [length_append, length_drop, length_replicate, hlength]
  omega

/-! ## `readBlock` as a reader -/

/-- `readBlock`, as long as the length it has read is not negative. -/
def blockReader : Reader BlockPhase where
  need phase := phase.need.bind fun n ↦ if 0 ≤ n then some n.toNat else none
  next := BlockPhase.next
  fail _ := .threw none
  fail_done _ := rfl

/-- The length that has been read is negative. -/
def Astray (phase : BlockPhase) : Prop := ∃ len, phase = .body len ∧ len < 0

def accepts (q : PullQueue) (_ : Bytes) : Bool := !q.aborted

namespace BlockRead

def toSession (b : BlockRead) : Session BlockPhase := ⟨b.queue.toPull, b.mail, b.phase, b.arrived⟩

/-- A chunk that does not fit aborts the queue. -/
def event (maxBytes : Nat) (b : BlockRead) : SocketInput → Session.Event
  | .data chunk =>
    if maxBytes < b.queue.buffered.length + chunk.length then .abort else .push chunk
  | .close _ => .close
  | .abort => .abort
  | .resume => .resume

variable {q : ByteQueue}

/-- What a read asks for, when it is not negative. -/
theorem toPull_ask {phase : BlockPhase} (hwaiter : q.waiter = none) (hphase : ¬ Astray phase) :
    ((ask q phase).1.toPull, (ask q phase).2) = Session.ask blockReader q.toPull phase ∧
      (ask q phase).1.Tame := by
  rw [ask, Session.ask]
  cases hneed : phase.need with
  | none =>
    have hnone : blockReader.need phase = none := by simp only [blockReader, hneed, Option.bind_none]
    rw [hnone]
    exact ⟨rfl, tame_of_waiter hwaiter⟩
  | some n =>
    have hpos : 0 ≤ n := by
      cases phase with
      | length =>
        rw [← Option.some.inj hneed]
        decide
      | body len =>
        cases hneed
        exact Int.not_lt.mp fun h ↦ hphase ⟨_, rfl, h⟩
      | returned text => cases hneed
      | threw message => cases hneed
    obtain ⟨k, rfl⟩ := Int.eq_ofNat_of_zero_le hpos
    have hsome : blockReader.need phase = some k := by
      simp only [blockReader, hneed, Option.bind_some, if_pos hpos, Int.toNat_natCast]
    rw [hsome]
    exact toPull_take hwaiter k

theorem toSession_start (hwaiter : q.waiter = none) :
    toSession (start q) = Session.startOn blockReader q.toPull .length ∧ (start q).queue.Tame := by
  have hphase : ¬ Astray .length := fun h ↦ by
    obtain ⟨len, h, -⟩ := h
    cases h
  obtain ⟨hask, htame⟩ := toPull_ask hwaiter hphase
  rw [Session.startOn, ← hask]
  exact ⟨rfl, htame⟩

variable {b : BlockRead}

/-- Nothing reaches a queue that has been aborted. -/
theorem step_of_aborted (maxBytes : Nat) {e : SocketInput} (haborted : b.queue.aborted = true)
    (he : e ≠ .resume) :
    b.step maxBytes e = b ∧
      (toSession b).step blockReader accepts (event maxBytes b e) = toSession b := by
  have hqueue : (toSession b).queue.aborted = true := haborted
  have hrefused (chunk : Bytes) : accepts (toSession b).queue chunk = false := by
    rw [accepts, hqueue]
    rfl
  cases e with
  | data chunk =>
    refine ⟨by simp only [step, ByteQueue.push, haborted, if_true, settle, Option.or_none], ?_⟩
    rw [event]
    split_ifs
    · rw [Session.step, if_pos hqueue]
    · rw [Session.step, if_neg (by rw [hrefused]; decide)]
  | close error =>
    refine ⟨by simp only [step, finish, haborted, if_true, settle, Option.or_none], ?_⟩
    rw [event, Session.step, if_pos hqueue]
  | abort =>
    refine ⟨by simp only [step, abort, haborted, if_true, settle, Option.or_none], ?_⟩
    rw [event, Session.step, if_pos hqueue]
  | resume => exact absurd rfl he

variable {maxBytes : Nat}

/-- A chunk that arrives is pushed, or aborts the queue. -/
theorem toSession_data (htame : b.queue.Tame) (haborted : b.queue.aborted = false) (chunk : Bytes) :
    toSession (b.step maxBytes (.data chunk)) =
        (toSession b).step blockReader accepts (event maxBytes b (.data chunk)) ∧
      (b.step maxBytes (.data chunk)).queue.Tame := by
  have hqueue : (toSession b).queue.aborted = false := haborted
  have haccepts : accepts (toSession b).queue chunk = true := by rw [accepts, hqueue]; rfl
  obtain ⟨hpush, htame'⟩ := toPull_push maxBytes htame haborted chunk
  refine ⟨?_, htame'⟩
  rw [event]
  split_ifs at hpush ⊢ with hlarge
  · have hdead : (b.queue.push maxBytes chunk).1.aborted = true :=
      congrArg (fun p ↦ p.1.aborted) hpush
    rw [Session.step, if_neg (by rw [hqueue]; decide)]
    show toSession (settle _ _) = (toSession b).settle b.queue.toPull.abort
    rw [← hpush]
    simp only [hdead, if_true]
    rfl
  · have hlive : (b.queue.push maxBytes chunk).1.aborted = false := by
      have haborted' : (b.queue.push maxBytes chunk).1.aborted = _ :=
        congrArg (fun p ↦ p.1.aborted) hpush
      rw [haborted', PullQueue.push, PullQueue.flush_aborted]
      exact haborted
    rw [Session.step, if_pos haccepts]
    show toSession (settle _ _) =
      Session.settle { toSession b with arrived := b.arrived ++ chunk } (b.queue.toPull.push chunk)
    rw [← hpush]
    simp only [hlive]
    rfl

/-- The loop goes on with what it was answered. -/
theorem toSession_resume (htame : b.queue.Tame) (hwaiter : b.mail ≠ none → b.queue.waiter = none)
    (hphase : ¬ Astray (b.step maxBytes .resume).phase) :
    toSession (b.step maxBytes .resume) =
        (toSession b).step blockReader accepts (event maxBytes b .resume) ∧
      (b.step maxBytes .resume).queue.Tame := by
  rw [event, Session.step]
  show _ = (match b.mail with
    | none => toSession b
    | some settled => _) ∧ _
  rw [step] at hphase ⊢
  cases hmail : b.mail with
  | none => exact ⟨rfl, htame⟩
  | some settled =>
    rw [hmail] at hphase
    have hidle := hwaiter (by rw [hmail]; exact Option.some_ne_none settled)
    dsimp only at hphase ⊢
    have hgoOn : b.phase.goOn settled = Session.goOn blockReader b.phase settled := by
      cases settled <;> rfl
    rw [hgoOn] at hphase ⊢
    obtain ⟨hask, htame'⟩ := toPull_ask hidle hphase
    refine ⟨?_, htame'⟩
    show _ = (⟨(Session.ask blockReader b.queue.toPull (Session.goOn blockReader b.phase settled)).1,
      (Session.ask blockReader b.queue.toPull (Session.goOn blockReader b.phase settled)).2,
      Session.goOn blockReader b.phase settled, b.arrived⟩ : Session BlockPhase)
    rw [← hask]
    rfl

/-- One step of a socket is one step of the reader and its queue. -/
theorem toSession_step {e : SocketInput} (htame : b.queue.Tame)
    (hwaiter : b.mail ≠ none → b.queue.waiter = none)
    (hphase : ¬ Astray (b.step maxBytes e).phase) :
    toSession (b.step maxBytes e) = (toSession b).step blockReader accepts (event maxBytes b e) ∧
      (b.step maxBytes e).queue.Tame := by
  by_cases he : e = .resume
  · subst he
    exact toSession_resume htame hwaiter hphase
  cases haborted : b.queue.aborted with
  | true =>
    obtain ⟨hstep, hsession⟩ := step_of_aborted maxBytes haborted he
    rw [hstep, hsession]
    exact ⟨rfl, htame⟩
  | false =>
    have hqueue : (toSession b).queue.aborted = false := haborted
    cases e with
    | data chunk => exact toSession_data htame haborted chunk
    | close error =>
      obtain ⟨hfinish, htame'⟩ := toPull_finish htame haborted error
      refine ⟨?_, htame'⟩
      rw [event, Session.step, if_neg (by rw [hqueue]; decide)]
      show _ = (toSession b).settle b.queue.toPull.close
      rw [← hfinish]
      rfl
    | abort =>
      obtain ⟨habort, htame'⟩ := toPull_abort haborted
      refine ⟨?_, htame'⟩
      rw [event, Session.step, if_neg (by rw [hqueue]; decide)]
      show _ = (toSession b).settle b.queue.toPull.abort
      rw [← habort]
      rfl
    | resume => exact absurd rfl he

theorem sound_event {s : Session BlockPhase} (hs : Session.Sound blockReader .length s)
    (e : Session.Event) : Session.Sound blockReader .length (s.step blockReader accepts e) := by
  refine Session.sound_step hs (fun q chunk h haborted ↦ ?_) e
  rw [accepts, haborted] at h
  cases h

/-- What holds of a socket whatever the order of its inputs: its `readBlock` is a sound session of
the reader, or it was one up to where it read a negative length. -/
inductive Follows (b : BlockRead) : Prop
  | onTrack (hsound : Session.Sound blockReader .length (toSession b)) (htame : b.queue.Tame)
  | astray {s : Session BlockPhase} (hsound : Session.Sound blockReader .length s)
      (hastray : Astray s.state) (harrived : s.arrived <+: b.arrived)

/-- What has arrived stays. -/
theorem arrived_step (maxBytes : Nat) (b : BlockRead) (e : SocketInput) :
    b.arrived <+: (b.step maxBytes e).arrived := by
  cases e with
  | data chunk =>
    show b.arrived <+: if _ then b.arrived else b.arrived ++ chunk
    split_ifs
    · exact prefix_rfl
    · exact prefix_append _ _
  | close error => exact prefix_rfl
  | abort => exact prefix_rfl
  | resume =>
    rw [step]
    split <;> exact prefix_rfl

/-- A read that has been settled leaves none waiting. -/
theorem waiter_of_sound (hsound : Session.Sound blockReader .length (toSession b))
    (hmail : b.mail ≠ none) : b.queue.waiter = none :=
  Option.map_eq_none_iff.mp (hsound.waiter hmail)

theorem follows_step (h : Follows b) (e : SocketInput) : Follows (b.step maxBytes e) := by
  cases h with
  | astray hsound hastray harrived =>
    exact .astray hsound hastray (harrived.trans (arrived_step maxBytes b e))
  | onTrack hsound htame =>
    by_cases hphase : Astray (b.step maxBytes e).phase
    · cases e with
      | data chunk => exact .astray hsound hphase (arrived_step maxBytes b _)
      | close error => exact .astray hsound hphase prefix_rfl
      | abort => exact .astray hsound hphase prefix_rfl
      | resume =>
        have hstate : ((toSession b).step blockReader accepts .resume).state =
            (b.step maxBytes .resume).phase ∧
            ((toSession b).step blockReader accepts .resume).arrived = b.arrived := by
          obtain ⟨queue, mail, phase, arrived⟩ := b
          cases mail with
          | none => exact ⟨rfl, rfl⟩
          | some settled => cases settled <;> exact ⟨rfl, rfl⟩
        refine .astray (sound_event hsound .resume) (hstate.1 ▸ hphase) ?_
        rw [hstate.2]
        exact arrived_step maxBytes b _
    · obtain ⟨hstep, htame'⟩ := toSession_step htame (waiter_of_sound hsound) hphase
      exact .onTrack (hstep ▸ sound_event hsound _) htame'

theorem follows_run (maxBytes : Nat) (hwaiter : q.waiter = none)
    (hended : q.aborted = true → q.ended = true) (inputs : List SocketInput) :
    Follows (run maxBytes q inputs) := by
  induction inputs using List.reverseRecOn with
  | nil =>
    obtain ⟨hstart, htame⟩ := toSession_start hwaiter
    refine .onTrack ?_ htame
    show Session.Sound _ _ (toSession (start q))
    rw [hstart]
    exact Session.sound_startOn (Option.map_eq_none_iff.mpr hwaiter) hended BlockPhase.length
  | append_singleton inputs e ih =>
    rw [run, foldl_append]
    exact follows_step ih e

end BlockRead

/-! ## A block on its way -/

/-- Four bytes and what comes of them: as many bytes more and their text, or nothing more. -/
structure Block (front body : Bytes) (final : BlockPhase) : Prop where
  length : front.length = 4
  reads : BlockPhase.length.next front = .body body.length ∧ final = .returned (Utf8.decode body) ∨
    BlockPhase.length.next front = final ∧ body = [] ∧ final.need = none

/-- Where a `readBlock` stands in its block. -/
inductive BlockAt (front body : Bytes) (final : BlockPhase) : Bytes → BlockPhase → Prop
  | length : BlockAt front body final [] .length
  | body (h : BlockPhase.length.next front = .body body.length)
      (hfinal : final = .returned (Utf8.decode body)) :
      BlockAt front body final front (.body body.length)
  | final (h : final.need = none) : BlockAt front body final (front ++ body) final

variable {phase final : BlockPhase} {body : Bytes}

theorem BlockAt.not_astray {bytes : Bytes} (h : BlockAt front body final bytes phase) :
    ¬ Astray phase := by
  rintro ⟨len, rfl, hlen⟩
  cases h with
  | body => exact absurd hlen (by omega)
  | final h => cases h

section

variable (hblock : Block front body final)
include hblock

theorem blockAt_next {rest : Bytes} {bytes x : Bytes}
    (hat : BlockAt front body final bytes phase) (hneed : blockReader.need phase = some x.length)
    (hfront : bytes ++ x <+: front ++ (body ++ rest)) :
    BlockAt front body final (bytes ++ x) (blockReader.next phase x) := by
  cases hat with
  | length =>
    have hlength : x.length = front.length := by
      rw [hblock.length]
      exact (Option.some.inj hneed).symm
    rw [nil_append] at hfront ⊢
    obtain rfl : x = front := (prefix_of_prefix_length_le hfront (prefix_append _ _)
      hlength.le).eq_of_length hlength
    show BlockAt x body final x (BlockPhase.length.next x)
    rcases hblock.reads with ⟨hbody, hfinal⟩ | ⟨hfinal, hempty, hneed'⟩
    · rw [hbody]
      exact .body hbody hfinal
    · rw [hfinal]
      have hat : BlockAt x body final (x ++ body) final := .final hneed'
      rwa [show x ++ body = x by rw [hempty, append_nil]] at hat
  | body hbody hfinal =>
    have hlength : x.length = body.length := by
      have hsome : blockReader.need (.body body.length) = some body.length := by
        simp [blockReader, BlockPhase.need]
      exact Option.some.inj (hneed.symm.trans hsome)
    rw [prefix_append_right_inj] at hfront
    obtain rfl : x = body := (prefix_of_prefix_length_le hfront (prefix_append _ _)
      hlength.le).eq_of_length hlength
    have hat : BlockAt front x final (front ++ x) final := .final (by rw [hfinal]; rfl)
    rw [hfinal] at hat ⊢
    exact hat
  | final h =>
    simp only [blockReader, h, Option.bind_none] at hneed
    cases hneed

/-- A reader that has taken the front of a block stands in it. -/
theorem blockAt_of_took {rest bytes : Bytes} (htook : Session.Took blockReader .length bytes phase)
    (hfront : bytes <+: front ++ (body ++ rest)) : BlockAt front body final bytes phase :=
  htook.invariant .length (fun hat hneed hfront ↦ blockAt_next hblock hat hneed hfront) hfront

theorem need_of_blockAt {bytes : Bytes} (hat : BlockAt front body final bytes phase) {need : Nat}
    (hneed : blockReader.need phase = some need) : bytes.length + need ≤ (front ++ body).length := by
  rw [length_append]
  cases hat with
  | length =>
    rw [← Option.some.inj hneed, hblock.length]
    exact Nat.le_add_right _ _
  | body =>
    have hsome : blockReader.need (.body body.length) = some body.length := by
      simp [blockReader, BlockPhase.need]
    rw [Option.some.inj (hsome.symm.trans hneed)]
  | final h =>
    simp only [blockReader, h, Option.bind_none] at hneed
    cases hneed

theorem within_block : Session.Within blockReader .length (front ++ body) := by
  intro bytes phase need htook hfront hneed
  have hat := blockAt_of_took hblock htook
    (show bytes <+: front ++ (body ++ []) by rwa [append_nil])
  exact need_of_blockAt hblock hat hneed

end

namespace BlockRead

variable {b : BlockRead} {final : BlockPhase}

/-- A `readBlock` in a block does not read a negative length. -/
theorem Follows.sound {front body rest : Bytes} (hblock : Block front body final) (h : Follows b)
    (harrived : b.arrived <+: front ++ (body ++ rest)) :
    Session.Sound blockReader .length (toSession b) ∧ b.queue.Tame ∧ ¬ Astray b.phase := by
  have hnot : ∀ {s : Session BlockPhase}, Session.Sound blockReader .length s →
      s.arrived <+: b.arrived → ¬ Astray s.state := by
    intro s hsound hfront hastray
    obtain ⟨bytes, t, htook, hstate, hbytes, -⟩ := hsound.took
    have hat := blockAt_of_took hblock htook
      (((prefix_append _ _).trans hbytes).trans (hfront.trans harrived))
    rcases hstate with hstate | ⟨-, hstate⟩
    · exact absurd (hstate ▸ hastray) hat.not_astray
    · obtain ⟨len, hlen, -⟩ := hastray
      rw [hstate] at hlen
      cases hlen
  cases h with
  | onTrack hsound htame => exact ⟨hsound, htame, hnot hsound prefix_rfl⟩
  | astray hsound hastray hfront => exact absurd hastray (hnot hsound hfront)

/-- What comes of a block when the loop is over: that, unless the read was rejected; and what is
behind the block has not been touched. -/
theorem Follows.outcome {front body rest : Bytes} (hblock : Block front body final)
    (h : Follows b) (harrived : b.arrived <+: front ++ (body ++ rest))
    (hdone : b.phase.need = none) :
    b.phase = .threw none ∨ b.phase = final ∧
      (b.queue.aborted = false → front ++ body ++ b.queue.buffered = b.arrived) := by
  obtain ⟨hsound, -⟩ := h.sound hblock harrived
  obtain ⟨bytes, t, htook, hstate, hbytes, hall⟩ := hsound.took
  have hat := blockAt_of_took hblock htook (((prefix_append _ _).trans hbytes).trans harrived)
  have hneed : blockReader.need b.phase = none := by
    simp only [blockReader, hdone, Option.bind_none]
  have hmail : b.mail = none := by
    cases hmail : b.mail with
    | none => rfl
    | some settled =>
      cases settled with
      | resolved x => exact absurd (hneed.symm.trans (hsound.mail x hmail)) (by simp)
      | rejected => exact absurd hneed (hsound.rejected hmail).2
  rcases hstate with hstate | ⟨-, hstate⟩
  · have hphase : b.phase = t := hstate
    rw [hphase] at hdone ⊢
    cases hat with
    | length => cases hdone
    | body => cases hdone
    | final =>
      refine .inr ⟨rfl, fun hlive ↦ ?_⟩
      have hempty : (toSession b).mailed = [] := by
        rw [Session.mailed, show (toSession b).mail = none from hmail]
        rfl
      have hall := hall hlive
      rwa [hempty, append_nil] at hall
  · exact .inl hstate

variable {maxBytes : Nat}

/-- A queue that has been aborted stays so. -/
theorem aborted_step (e : SocketInput) (h : b.queue.aborted = true) :
    (b.step maxBytes e).queue.aborted = true := by
  cases e with
  | data chunk =>
    show (b.queue.push maxBytes chunk).1.aborted = true
    rw [ByteQueue.push, if_pos h]
    exact h
  | close error =>
    show (b.queue.finish error).1.aborted = true
    rw [finish, if_pos h]
    exact h
  | abort =>
    show b.queue.abort.1.aborted = true
    rw [abort, if_pos h]
    exact h
  | resume =>
    rw [step]
    split
    · exact h
    · next settled _ =>
      show (ask b.queue (b.phase.goOn settled)).1.aborted = true
      rw [ask]
      split
      · exact h
      · rw [ByteQueue.take, if_pos h]
        exact h

/-- Only an abort, or a chunk too many, aborts a queue. -/
theorem event_ne_abort {e : SocketInput} (h : (b.step maxBytes e).queue.aborted = false) :
    event maxBytes b e ≠ .abort := by
  have hlive : b.queue.aborted = false := by
    by_contra haborted
    rw [aborted_step e (by simpa using haborted)] at h
    cases h
  cases e with
  | data chunk =>
    rw [event]
    split_ifs with hlarge
    · have hlength : { b.queue with chunks := b.queue.chunks ++ [chunk] }.buffered.length =
          b.queue.buffered.length + chunk.length := by
        simp [buffered]
      have hpush : b.queue.push maxBytes chunk =
          { b.queue with chunks := b.queue.chunks ++ [chunk] }.abort := by
        rw [ByteQueue.push, if_neg (by rw [hlive]; decide)]
        exact if_pos (by rwa [hlength])
      have haborted : (b.queue.push maxBytes chunk).1.aborted = false := h
      rw [hpush, abort, if_neg (by rw [hlive]; decide)] at haborted
      cases haborted
    · exact Session.Event.noConfusion
  | close error => exact Session.Event.noConfusion
  | abort =>
    have haborted : b.queue.abort.1.aborted = false := h
    rw [abort, if_neg (by rw [hlive]; decide)] at haborted
    cases haborted
  | resume => exact Session.Event.noConfusion

/-- **A block that has arrived is read**, whatever happens afterwards short of an abort. -/
theorem completes {front body : Bytes} (hblock : Block front body final) {q : ByteQueue}
    (hwaiter : q.waiter = none) (hended : q.aborted = true → q.ended = true)
    {inputs later : List SocketInput} (hopen : (run maxBytes q inputs).queue.ended = false)
    (harrived : front ++ body <+: (run maxBytes q inputs).arrived)
    (hlive : (run maxBytes q (inputs ++ later)).queue.aborted = false)
    (hmail : (run maxBytes q (inputs ++ later)).mail = none) :
    (run maxBytes q (inputs ++ later)).phase = final := by
  have hwithin := within_block hblock
  have hsound : ∀ {b}, Follows b → front ++ body <+: b.arrived →
      Session.Sound blockReader .length (toSession b) ∧ b.queue.Tame ∧ ¬ Astray b.phase := by
    intro b hb hfront
    obtain ⟨rest, hrest⟩ := hfront
    exact hb.sound hblock (show b.arrived <+: front ++ (body ++ rest) by
      rw [← hrest, append_assoc])
  have hfed : ∀ later, (run maxBytes q (inputs ++ later)).queue.aborted = false →
      Session.Fed blockReader .length (front ++ body)
        (toSession (run maxBytes q (inputs ++ later))) := by
    intro later
    induction later using List.reverseRecOn with
    | nil =>
      intro _
      rw [append_nil]
      exact Session.fed_of_sound hwithin (hsound (follows_run maxBytes hwaiter hended _) harrived).1
        hopen harrived
    | append_singleton later e ih =>
      intro hlive
      have hrun : run maxBytes q (inputs ++ (later ++ [e])) =
          (run maxBytes q (inputs ++ later)).step maxBytes e := by
        rw [run, ← append_assoc, foldl_append]
        rfl
      rw [hrun] at hlive ⊢
      have hlive' : (run maxBytes q (inputs ++ later)).queue.aborted = false := by
        by_contra haborted
        rw [aborted_step e (by simpa using haborted)] at hlive
        cases hlive
      have hs := ih hlive'
      have hfront : front ++ body <+: (run maxBytes q (inputs ++ later)).arrived := hs.arrived
      obtain ⟨hsound₀, htame, -⟩ := hsound (follows_run maxBytes hwaiter hended _) hfront
      have hfollows := follows_run maxBytes hwaiter hended (inputs ++ (later ++ [e]))
      rw [hrun] at hfollows
      obtain ⟨-, -, hphase⟩ := hsound hfollows (hfront.trans (arrived_step maxBytes _ e))
      rw [(toSession_step htame (waiter_of_sound hsound₀) hphase).1]
      exact Session.fed_step hwithin hs (event_ne_abort hlive)
  have hs := hfed later hlive
  obtain ⟨bytes, htook, hfront, -⟩ := hs.took
  have hat := blockAt_of_took hblock htook
    (show bytes <+: front ++ (body ++ []) by rwa [append_nil])
  have hdone : blockReader.need (run maxBytes q (inputs ++ later)).phase = none := hs.done hmail
  have hphase : (toSession (run maxBytes q (inputs ++ later))).state =
      (run maxBytes q (inputs ++ later)).phase := rfl
  rw [hphase] at hat
  generalize (run maxBytes q (inputs ++ later)).phase = phase at hat hdone
  cases hat with
  | length => cases hdone
  | body =>
    have hsome : blockReader.need (.body body.length) = some body.length := by
      simp [blockReader, BlockPhase.need]
    exact absurd (hsome.symm.trans hdone) (by simp)
  | final => rfl

end BlockRead

/-! ## Exact framing -/

/-- A block whose four digits say how long it is. -/
theorem block_of_hexLength? (h : hexLength? front = some body.length) :
    Block front body (.returned (decode body)) := by
  obtain ⟨hlength, hparse⟩ := parseInt16_of_hexLength? h
  refine ⟨hlength, ?_⟩
  simp only [BlockPhase.next, hparse]
  by_cases hempty : body = []
  · subst hempty
    exact .inr ⟨rfl, rfl, rfl⟩
  · have hne : ¬ (body.length : Int) = 0 := by
      have hpos := length_pos_iff.mpr hempty
      omega
    rw [if_neg hne]
    exact .inl ⟨rfl, trivial⟩

/-- Four bytes in which no number can be read. -/
theorem block_of_parseInt16 (hlength : front.length = 4)
    (h : parseInt16 (decode front).toList = none) :
    Block front [] (.threw (some ("bad block length: " ++
      String.ofList (quote (decode front).toList)))) := by
  refine ⟨hlength, .inr ⟨?_, rfl, rfl⟩⟩
  simp only [BlockPhase.next, h]

/-- **Framing is exact below 65536 bytes.**  A request is four hexadecimal digits, its length, and
its bytes, which are those of no other text.  A block behind four hexadecimal digits, in whatever
chunks it arrives, is returned as its text, and nothing behind it is touched; it is returned when it
has arrived, unless the queue is aborted.  Four bytes in which no number can be read are refused. -/
theorem framing_exact (payload : String) (maxBytes : Nat) (q : ByteQueue)
    (inputs later : List SocketInput) (front body rest : Bytes) (hwaiter : q.waiter = none)
    (hended : q.aborted = true → q.ended = true) :
    ((Utf8.encode payload).length < 65536 →
      encodeRequest payload = lengthDigits (Utf8.encode payload).length ++ Utf8.encode payload ∧
      hexLength? (lengthDigits (Utf8.encode payload).length) = some (Utf8.encode payload).length ∧
      ∀ payload', Utf8.encode payload' = Utf8.encode payload → payload' = payload) ∧
    (hexLength? front = some body.length →
      (∀ text, (BlockRead.run maxBytes q inputs).arrived <+: front ++ (body ++ rest) →
        (BlockRead.run maxBytes q inputs).phase = .returned text → text = Utf8.decode body ∧
          ((BlockRead.run maxBytes q inputs).queue.aborted = false →
            front ++ body ++ (BlockRead.run maxBytes q inputs).queue.buffered =
              (BlockRead.run maxBytes q inputs).arrived)) ∧
      ((BlockRead.run maxBytes q inputs).queue.ended = false →
        front ++ body <+: (BlockRead.run maxBytes q inputs).arrived →
        (BlockRead.run maxBytes q (inputs ++ later)).queue.aborted = false →
        (BlockRead.run maxBytes q (inputs ++ later)).mail = none →
        (BlockRead.run maxBytes q (inputs ++ later)).phase = .returned (Utf8.decode body))) ∧
    (front.length = 4 → parseInt16 (Utf8.decode front).toList = none →
      (∀ text, (BlockRead.run maxBytes q inputs).arrived <+: front ++ rest →
        (BlockRead.run maxBytes q inputs).phase ≠ .returned text) ∧
      ((BlockRead.run maxBytes q inputs).queue.ended = false →
        front <+: (BlockRead.run maxBytes q inputs).arrived →
        (BlockRead.run maxBytes q (inputs ++ later)).queue.aborted = false →
        (BlockRead.run maxBytes q (inputs ++ later)).mail = none →
        (BlockRead.run maxBytes q (inputs ++ later)).phase = .threw (some ("bad block length: " ++
          String.ofList (quote (Utf8.decode front).toList))))) ∧
    (payload.toList.head? ≠ some Utf8.byteOrderMark → Utf8.decode (Utf8.encode payload) = payload) := by
  have hfollows := BlockRead.follows_run maxBytes hwaiter hended inputs
  refine ⟨fun hshort ↦ ⟨encodeRequest_eq hshort, hexLength?_lengthDigits hshort, ?_⟩,
    fun hlength ↦ ⟨?_, ?_⟩, fun hlength hbad ↦ ⟨?_, ?_⟩, decode_encode⟩
  · intro payload' h
    exact encode_injective h
  · intro text harrived hphase
    have hblock := block_of_hexLength? hlength
    rcases hfollows.outcome hblock harrived (by rw [hphase]; rfl) with h | ⟨h, hrest⟩
    · rw [hphase] at h
      cases h
    · rw [hphase] at h
      exact ⟨BlockPhase.returned.inj h, hrest⟩
  · exact BlockRead.completes (block_of_hexLength? hlength) hwaiter hended
  · intro text harrived hphase
    have hblock := block_of_parseInt16 hlength hbad
    rcases hfollows.outcome hblock harrived (by rw [hphase]; rfl) with h | ⟨h, -⟩
    · rw [hphase] at h
      cases h
    · rw [hphase] at h
      cases h
  · intro hopen harrived
    exact BlockRead.completes (block_of_parseInt16 hlength hbad) hwaiter hended hopen
      (by rwa [append_nil])

namespace Shell

/-- `0005` and `shell`, cut inside both, with three bytes behind them, and the end of the
connection. -/
def inputs : List SocketInput :=
  [.data [0x30, 0x30], .resume, .data [0x30, 0x35, 0x73, 0x68], .resume,
    .data [0x65, 0x6C, 0x6C, 1, 2, 3]]

theorem framing_exact_shell :
    (BlockRead.run 64 {} (inputs ++ [.close false, .resume])).phase = .returned "shell" ∧
      (BlockRead.run 64 {} (inputs ++ [.close false, .resume])).queue.buffered = [1, 2, 3] := by
  have h := framing_exact "shell" 64 {} inputs [.close false, .resume] [0x30, 0x30, 0x30, 0x35]
    [0x73, 0x68, 0x65, 0x6C, 0x6C] [1, 2, 3] rfl (fun h ↦ by cases h)
  refine ⟨?_, by decide +kernel⟩
  rw [(h.2.1 (by decide +kernel)).2 (by decide +kernel) (by decide +kernel) (by decide +kernel)
    (by decide +kernel)]
  decide +kernel

end Shell

/-- The first four bytes of a request are the first four digits of its length. -/
theorem take_encodeRequest (payload : String) (h : 4 ≤ (lengthDigits (encode payload).length).length) :
    (encodeRequest payload).take 4 = (lengthDigits (encode payload).length).take 4 := by
  have hfour : ∀ {xs ys : Bytes}, 4 ≤ xs.length → (xs.take 4 ++ ys).take 4 = xs.take 4 := by
    intro xs ys hxs
    rw [take_append_of_le_length (by rw [length_take]; omega), take_take]
    rfl
  simp only [encodeRequest, setAt, take_zero, nil_append, Nat.zero_add]
  rw [hfour (by rw [length_append]; omega), take_append_of_le_length h]

/-- A request of `n` letters. -/
def letters (n : Nat) : String := String.ofList (List.replicate n 'a')

theorem length_encode_letters (n : Nat) : (encode (letters n)).length = n := by
  have hone : (String.utf8EncodeChar 'a').length = 1 := rfl
  rw [encode, letters, String.toList_ofList, length_flatMap, map_replicate, hone,
    sum_replicate_nat, Nat.mul_one]

/-- A request of 65536 bytes says that it has 4096; a block of a byte that is no UTF-8 is returned
as another text; one that does not fit in the queue is not returned; and `1xyz` is read as 1. -/
theorem framing_differs :
    (hexLength? ((encodeRequest (letters 65536)).take 4) = some 4096 ∧
      (Utf8.encode (letters 65536)).length = 65536) ∧
    ((BlockRead.run 64 {} [.data [0x30, 0x30, 0x30, 0x31, 0xFF], .resume, .resume]).phase =
        .returned "\uFFFD" ∧ Utf8.encode "\uFFFD" ≠ [0xFF]) ∧
    (BlockRead.run 4 {} [.data [0x30, 0x30, 0x30, 0x31, 0x61], .resume, .resume]).phase =
      .threw none ∧
    (hexLength? [0x31, 0x78, 0x79, 0x7A] = none ∧
      (BlockRead.run 64 {} [.data [0x31, 0x78, 0x79, 0x7A, 0x61], .resume, .resume]).phase =
        .returned "a") := by
  have hlength := length_encode_letters 65536
  refine ⟨⟨?_, hlength⟩, ⟨?_, ?_⟩, ?_, ?_, ?_⟩
  · rw [take_encodeRequest, hlength]
    · decide +kernel
    · rw [hlength]
      decide +kernel
  · decide +kernel
  · decide +kernel
  · decide +kernel
  · decide +kernel
  · decide +kernel

end Enkaku.AdbSocket
