import Enkaku.Lib.Bytes
import Enkaku.Lib.Incremental

/-!
# The shell v2 packets

`shell-frames.ts`: the output of a shell command arrives as packets — an id, a length, that many
bytes — in chunks that have nothing to do with them.  `ShellFrameParser` takes the packets that have
arrived whole and keeps the rest.

`chunking_independent` says that how the bytes were cut makes no difference, and that a list of
packets is read back as what it says.
-/

set_option autoImplicit false

namespace Enkaku.ShellFrames

open List

/-! ## The parser -/

/-- `HEADER_LEN`. -/
def headerLen : Nat := 5

def idStdout : UInt8 := 1

def idStderr : UInt8 := 2

def idExit : UInt8 := 3

/-- `ShellResult`. -/
structure ShellResult where
  stdout : String
  stderr : String
  exitCode : Option Nat
  deriving DecidableEq, Repr

/-- The fields of a `ShellFrameParser`. -/
structure ShellFrameParser where
  pending : Bytes := []
  stdoutChunks : List Bytes := []
  stderrChunks : List Bytes := []
  exitCode : Option Nat := none
  deriving DecidableEq, Repr

/-- A packet that has arrived whole, with its id and its payload, and what is behind it. -/
def packet? (pending : Bytes) : Option ((UInt8 × Bytes) × Bytes) :=
  match pending with
  | id :: rest =>
    if pending.length < headerLen then none
    else
      let len := Bytes.ofLe32 rest
      let total := headerLen + len
      if pending.length < total then none
      else some ((id, (pending.take total).drop headerLen), pending.drop total)
  | [] => none

namespace ShellFrameParser

/-- The `switch` on the id of a packet. -/
def receive (p : ShellFrameParser) (packet : UInt8 × Bytes) : ShellFrameParser :=
  if packet.1 = idStdout then { p with stdoutChunks := p.stdoutChunks ++ [packet.2] }
  else if packet.1 = idStderr then { p with stderrChunks := p.stderrChunks ++ [packet.2] }
  else if packet.1 = idExit then { p with exitCode := packet.2.head?.map UInt8.toNat }
  else p

/-- The loop of `drain`.  A packet has a header at least, so the bytes there are are fuel enough. -/
def drainLoop : Nat → ShellFrameParser → ShellFrameParser
  | 0, p => p
  | fuel + 1, p =>
    match packet? p.pending with
    | none => p
    | some (packet, rest) => drainLoop fuel { p.receive packet with pending := rest }

/-- `drain`. -/
def drain (p : ShellFrameParser) : ShellFrameParser := drainLoop p.pending.length p

/-- `push`. -/
def push (p : ShellFrameParser) (chunk : Bytes) : ShellFrameParser :=
  if chunk.isEmpty then p else drain { p with pending := p.pending ++ chunk }

/-- `result`; `decode` is the text decoder. -/
def result (decode : Bytes → String) (p : ShellFrameParser) : ShellResult :=
  ⟨decode p.stdoutChunks.flatten, decode p.stderrChunks.flatten, p.exitCode⟩

end ShellFrameParser

/-! ## The packets in a stream -/

/-- When there is a packet, and which. -/
theorem packet?_eq_some_iff {pending rest : Bytes} {packet : UInt8 × Bytes} :
    packet? pending = some (packet, rest) ↔
      ∃ id tail, pending = id :: tail ∧ 4 + Bytes.ofLe32 tail ≤ tail.length ∧
        packet = (id, (tail.drop 4).take (Bytes.ofLe32 tail)) ∧
        rest = tail.drop (4 + Bytes.ofLe32 tail) := by
  have htotal : ∀ tail, headerLen + Bytes.ofLe32 tail = 4 + Bytes.ofLe32 tail + 1 := by
    intro tail
    rw [headerLen]
    omega
  constructor
  · intro h
    cases pending with
    | nil => exact absurd h (by simp [packet?])
    | cons id tail =>
      rw [packet?] at h
      split_ifs at h with hheader
      dsimp only at h
      split_ifs at h with hlen
      cases h
      rw [htotal, length_cons] at hlen
      refine ⟨id, tail, rfl, by omega, ?_, by rw [htotal, drop_succ_cons]⟩
      rw [htotal, take_succ_cons, headerLen, drop_succ_cons, drop_take]
      congr 2
      omega
  · rintro ⟨id, tail, rfl, hlen, rfl, rfl⟩
    rw [packet?, if_neg (by rw [headerLen, length_cons]; omega)]
    simp only [htotal]
    rw [if_neg (by rw [length_cons]; omega), take_succ_cons, headerLen,
      drop_succ_cons, drop_succ_cons, drop_take]
    congr 4
    omega

/-- The packets of a stream, as an incremental parser takes them. -/
def packets : Incremental UInt8 (UInt8 × Bytes) where
  next? := packet?
  shorter := by
    intro pending packet rest h
    obtain ⟨id, tail, rfl, -, -, rfl⟩ := packet?_eq_some_iff.mp h
    rw [List.length_drop, List.length_cons]
    omega
  append := by
    intro pending packet rest h ys
    obtain ⟨id, tail, rfl, hlen, rfl, rfl⟩ := packet?_eq_some_iff.mp h
    have hword : Bytes.ofLe32 (tail ++ ys) = Bytes.ofLe32 tail :=
      Bytes.ofLe32_append (by omega) ys
    refine packet?_eq_some_iff.mpr ⟨id, tail ++ ys, rfl, ?_, ?_, ?_⟩
    · rw [hword, List.length_append]
      omega
    · rw [hword, List.drop_append_of_le_length (by omega),
        List.take_append_of_le_length (by rw [List.length_drop]; omega)]
    · rw [hword, List.drop_append_of_le_length hlen]

namespace ShellFrameParser

/-- What has been received does not depend on what is pending, nor change it. -/
theorem receive_pending (p : ShellFrameParser) (packet : UInt8 × Bytes) (pending : Bytes) :
    { p with pending := pending }.receive packet = { p.receive packet with pending := pending } := by
  rw [receive, receive]
  split_ifs <;> rfl

theorem foldl_receive_pending (ps : List (UInt8 × Bytes)) (p : ShellFrameParser)
    (pending : Bytes) : ps.foldl receive { p with pending := pending } =
      { ps.foldl receive p with pending := pending } := by
  induction ps generalizing p with
  | nil => rfl
  | cons packet ps ih => rw [foldl_cons, foldl_cons, receive_pending, ih]

/-- The loop takes the packets there are, one after the other, and keeps the rest. -/
theorem drainLoop_eq {fuel : Nat} {p : ShellFrameParser} (h : p.pending.length ≤ fuel) :
    drainLoop fuel p =
      { (packets.run p.pending).1.foldl receive p with pending := (packets.run p.pending).2 } := by
  induction fuel generalizing p with
  | zero =>
    have hnil : p.pending = [] := length_eq_zero_iff.mp (Nat.le_zero.mp h)
    have hrun : packets.run p.pending = ([], p.pending) := packets.run_of_none (by rw [hnil]; rfl)
    rw [hrun]
    rfl
  | succ fuel ih =>
    rw [drainLoop]
    cases hnext : packet? p.pending with
    | none =>
      rw [packets.run_of_none hnext]
      rfl
    | some r =>
      obtain ⟨packet, rest⟩ := r
      have hlt : rest.length < p.pending.length := packets.shorter hnext
      dsimp only
      rw [packets.run_of_some hnext, ih (Nat.le_of_lt_succ (Nat.lt_of_lt_of_le hlt h))]
      rw [foldl_receive_pending]
      rfl

/-- The parser, when packets have been taken and bytes are kept. -/
def after (s : List (UInt8 × Bytes) × Bytes) : ShellFrameParser :=
  { s.1.foldl receive {} with pending := s.2 }

theorem push_after (s : List (UInt8 × Bytes) × Bytes) (hs : packets.next? s.2 = none)
    (chunk : Bytes) : (after s).push chunk = after (packets.feed s chunk) := by
  rw [push]
  split_ifs with hempty
  · obtain rfl := isEmpty_iff.mp hempty
    rw [Incremental.feed, append_nil, packets.run_of_none hs, append_nil]
  · rw [drain, drainLoop_eq (le_rfl), Incremental.feed, after, after, foldl_append]
    rw [foldl_receive_pending, foldl_receive_pending]

/-- The parser a list of chunks leads to. -/
def pushAll (chunks : List Bytes) : ShellFrameParser := chunks.foldl push {}

/-- It has taken the packets that are whole in all the bytes together. -/
theorem pushAll_eq (chunks : List Bytes) : pushAll chunks = after (packets.run chunks.flatten) := by
  rw [← packets.foldl_feed]
  induction chunks using List.reverseRecOn with
  | nil => rfl
  | append_singleton chunks chunk ih =>
    rw [pushAll, foldl_append, foldl_cons, foldl_nil, ← pushAll, ih, push_after,
      foldl_append, foldl_cons, foldl_nil]
    rw [packets.foldl_feed]
    exact packets.next?_run _

end ShellFrameParser

/-! ## Packets, written and read -/

/-- A packet that can be written: its length is a word. -/
structure Packet where
  id : UInt8
  payload : Bytes
  fits : payload.length < 2 ^ 32

/-- The bytes of a packet. -/
def Packet.encode (packet : Packet) : Bytes :=
  packet.id :: (Bytes.le32 packet.payload.length ++ packet.payload)

theorem packet?_encode (packet : Packet) (rest : Bytes) :
    packet? (packet.encode ++ rest) = some ((packet.id, packet.payload), rest) := by
  have hword : Bytes.ofLe32 (Bytes.le32 packet.payload.length ++ (packet.payload ++ rest)) =
      packet.payload.length := Bytes.ofLe32_le32 packet.fits _
  refine packet?_eq_some_iff.mpr
    ⟨packet.id, Bytes.le32 packet.payload.length ++ (packet.payload ++ rest), ?_, ?_, ?_, ?_⟩
  · rw [Packet.encode, cons_append, append_assoc]
  · rw [hword]
    simp
  · rw [hword, drop_left' (Bytes.length_le32 _), take_left]
  · rw [hword, ← drop_drop, drop_left' (Bytes.length_le32 _), drop_left]

theorem run_encode (ps : List Packet) : packets.run (ps.flatMap Packet.encode) =
    (ps.map fun packet ↦ (packet.id, packet.payload), []) := by
  induction ps with
  | nil => rfl
  | cons packet ps ih =>
    have hnext : packets.next? (packet.encode ++ ps.flatMap Packet.encode) =
        some ((packet.id, packet.payload), ps.flatMap Packet.encode) := packet?_encode packet _
    rw [flatMap_cons, packets.run_of_some hnext, ih]
    rfl

/-- The bytes a list of packets carries under an id. -/
def payloadOf (id : UInt8) (ps : List Packet) : Bytes :=
  (ps.filter (·.id = id)).flatMap Packet.payload

/-- The exit code of the exit packet, of several the last one: what its payload starts with. -/
def exitOf (ps : List Packet) : Option Nat :=
  (ps.filter (·.id = idExit)).getLast?.bind fun packet ↦ packet.payload.head?.map UInt8.toNat

theorem payloadOf_concat (id : UInt8) (ps : List Packet) (packet : Packet) :
    payloadOf id (ps ++ [packet]) =
      payloadOf id ps ++ if packet.id = id then packet.payload else [] := by
  rw [payloadOf, filter_append, flatMap_append, ← payloadOf]
  by_cases hid : packet.id = id
  · simp [hid]
  · simp [hid]

theorem exitOf_concat (ps : List Packet) (packet : Packet) : exitOf (ps ++ [packet]) =
    if packet.id = idExit then packet.payload.head?.map UInt8.toNat else exitOf ps := by
  rw [exitOf, filter_append]
  by_cases hid : packet.id = idExit
  · simp [hid]
  · simp [hid, exitOf]

/-- What a parser has, once it has received a list of packets. -/
theorem foldl_receive (ps : List Packet) :
    let p := (ps.map fun packet ↦ (packet.id, packet.payload)).foldl ShellFrameParser.receive {}
    p.stdoutChunks.flatten = payloadOf idStdout ps ∧
      p.stderrChunks.flatten = payloadOf idStderr ps ∧ p.exitCode = exitOf ps := by
  induction ps using List.reverseRecOn with
  | nil => exact ⟨rfl, rfl, rfl⟩
  | append_singleton ps packet ih =>
    obtain ⟨hout, herr, hexit⟩ := ih
    simp only [map_append, map_cons, map_nil, foldl_append, foldl_cons,
      foldl_nil, payloadOf_concat, exitOf_concat, ← hout, ← herr, ← hexit]
    rw [ShellFrameParser.receive]
    by_cases h₁ : packet.id = idStdout
    · simp [h₁, idStdout, idStderr, idExit]
    · by_cases h₂ : packet.id = idStderr
      · simp [h₂, idStdout, idStderr, idExit]
      · by_cases h₃ : packet.id = idExit
        · simp [h₃, idStdout, idStderr, idExit]
        · simp [h₁, h₂, h₃]

/-- **The parser does not depend on chunking.**  Two ways of cutting the same bytes end with the
same result, whatever the bytes are; and the bytes of a list of packets, however they are cut, end
with the payloads the list carries for each stream and with its exit code. -/
theorem chunking_independent (decode : Bytes → String) (chunks : List Bytes) :
    (∀ chunks', chunks'.flatten = chunks.flatten →
      ShellFrameParser.pushAll chunks' = ShellFrameParser.pushAll chunks) ∧
    ∀ ps : List Packet, chunks.flatten = ps.flatMap Packet.encode →
      (ShellFrameParser.pushAll chunks).result decode =
        ⟨decode (payloadOf idStdout ps), decode (payloadOf idStderr ps), exitOf ps⟩ := by
  constructor
  · intro chunks' h
    rw [ShellFrameParser.pushAll_eq, ShellFrameParser.pushAll_eq, h]
  · intro ps h
    obtain ⟨hout, herr, hexit⟩ := foldl_receive ps
    rw [ShellFrameParser.pushAll_eq, h, run_encode, ShellFrameParser.result]
    rw [← hout, ← herr, ← hexit]
    rfl

namespace OkAndSeven

/-- The text decoder, on bytes below 128. -/
def ascii (bytes : Bytes) : String := String.ofList (bytes.map fun b ↦ Char.ofNat b.toNat)

/-- `ok` on the standard output, and the exit code 7. -/
def ps : List Packet := [⟨idStdout, [111, 107], by decide⟩, ⟨idExit, [7], by decide⟩]

/-- Their bytes, cut inside the length of the first packet and inside its payload. -/
def chunks : List Bytes := [[1, 2], [0, 0, 0, 111], [], [107, 3, 1, 0, 0, 0, 7]]

theorem chunking_independent_ok :
    ShellFrameParser.pushAll [chunks.flatten] = ShellFrameParser.pushAll chunks ∧
      (ShellFrameParser.pushAll chunks).result ascii = ⟨"ok", "", some 7⟩ :=
  ⟨(chunking_independent ascii chunks).1 [chunks.flatten] (by decide),
    ((chunking_independent ascii chunks).2 ps (by decide)).trans (by decide)⟩

end OkAndSeven

end Enkaku.ShellFrames
