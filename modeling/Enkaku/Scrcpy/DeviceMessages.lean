import Enkaku.Lib.Staged
import Enkaku.Lib.Utf8

/-!
# Messages from the device

`createDeviceMessageReader` of `device-messages.ts`: what the device says on the control socket is a
type, and a payload of which the type says how long it is.  The reader keeps what has arrived until a
message is whole, and stops for good at a type it does not know.

`delivered_iff` says when it delivers what was sent, however that was cut: unless a text starts with a
byte-order mark, which `TextDecoder` drops.
-/

set_option autoImplicit false

namespace Enkaku.Scrcpy.Control

open List

inductive DeviceMessage where
  | clipboard (text : String)
  | ackClipboard (sequence : UInt64)
  | uhidOutput (id : UInt16) (data : Bytes)
  deriving DecidableEq

/-- What the reader calls. -/
inductive ReaderEvent where
  | onMessage (message : DeviceMessage)
  /-- The type that is not known. -/
  | onError (type : UInt8)
  deriving DecidableEq

/-- The text of the error. -/
def unknownTypeMessage (type : UInt8) : String :=
  s!"unknown scrcpy device message type {type.toNat} — the device message reader has stopped " ++
    "parsing this socket to avoid silently misreading unrelated bytes as message boundaries"

/-! ## The reader -/

/-- One round of the loop of `drain`. -/
def drainStep (buf : Bytes) : Staged.Next Unit UInt8 DeviceMessage UInt8 :=
  match buf with
  | [] => .more
  | type :: _ =>
    if type = 0 then
      if buf.length < 5 then .more
      else
        let len := Bytes.ofBe ((buf.drop 1).take 4)
        if buf.length < 5 + len then .more
        else .found [.clipboard (Utf8.decode ((buf.drop 5).take len))] () (buf.drop (5 + len))
    else if type = 1 then
      if buf.length < 9 then .more
      else .found [.ackClipboard (.ofNat (Bytes.ofBe ((buf.drop 1).take 8)))] () (buf.drop 9)
    else if type = 2 then
      if buf.length < 5 then .more
      else
        let id := Bytes.ofBe ((buf.drop 1).take 2)
        let size := Bytes.ofBe ((buf.drop 3).take 2)
        if buf.length < 5 + size then .more
        else .found [.uhidOutput (.ofNat id) ((buf.drop 5).take size)] () (buf.drop (5 + size))
    else .fail type

/-- A buffer longer than some bytes that are looked at. -/
theorem take_drop_append {buf : Bytes} {n k : Nat} (h : n + k ≤ buf.length) (ys : Bytes) :
    ((buf ++ ys).drop n).take k = (buf.drop n).take k := by
  rw [drop_append_of_le_length (by omega),
    take_append_of_le_length (by rw [length_drop]; omega)]

theorem drainStep_found_spec {buf rest : Bytes} {u : Unit} {out : List DeviceMessage}
    (h : drainStep buf = .found out u rest) :
    rest.length < buf.length ∧ ∀ ys, drainStep (buf ++ ys) = .found out u (rest ++ ys) := by
  rcases buf with _ | ⟨type, buf⟩
  · exact absurd h (by simp [drainStep])
  · have hcons : ∀ ys, (type :: buf) ++ ys = type :: (buf ++ ys) := fun _ ↦ rfl
    simp only [drainStep] at h
    split_ifs at h with h₀ hshort hbody h₁ hshort h₂ hshort hbody
    · obtain ⟨rfl, -, rfl⟩ := Staged.Next.found.inj h
      rw [Nat.not_lt] at hshort hbody
      refine ⟨by rw [length_drop]; omega, fun ys ↦ ?_⟩
      simp only [hcons, drainStep, if_pos h₀]
      rw [← hcons, length_append, take_drop_append (by omega), if_neg (by omega), if_neg (by omega),
        take_drop_append (by omega), drop_append_of_le_length (by omega)]
    · obtain ⟨rfl, -, rfl⟩ := Staged.Next.found.inj h
      rw [Nat.not_lt] at hshort
      refine ⟨by rw [length_drop]; omega, fun ys ↦ ?_⟩
      simp only [hcons, drainStep, if_neg h₀, if_pos h₁]
      rw [← hcons, length_append, take_drop_append (by omega), if_neg (by omega),
        drop_append_of_le_length (by omega)]
    · obtain ⟨rfl, -, rfl⟩ := Staged.Next.found.inj h
      rw [Nat.not_lt] at hshort hbody
      refine ⟨by rw [length_drop]; omega, fun ys ↦ ?_⟩
      simp only [hcons, drainStep, if_neg h₀, if_neg h₁, if_pos h₂]
      rw [← hcons, length_append, take_drop_append (by omega), take_drop_append (by omega),
        if_neg (by omega), if_neg (by omega), take_drop_append (by omega),
        drop_append_of_le_length (by omega)]

theorem drainStep_fail {type : UInt8} {rest : Bytes} (h₀ : type ≠ 0) (h₁ : type ≠ 1) (h₂ : type ≠ 2) :
    drainStep (type :: rest) = .fail type := by
  simp only [drainStep, if_neg h₀, if_neg h₁, if_neg h₂]

theorem eq_cons_of_drainStep_fail {buf : Bytes} {type : UInt8} (h : drainStep buf = .fail type) :
    ∃ rest, buf = type :: rest ∧ type ≠ 0 ∧ type ≠ 1 ∧ type ≠ 2 := by
  rcases buf with _ | ⟨type', buf⟩
  · exact absurd h (by simp [drainStep])
  · simp only [drainStep] at h
    split_ifs at h with h₀ hshort hbody h₁ hshort h₂ hshort hbody
    obtain rfl := Staged.Next.fail.inj h
    exact ⟨buf, rfl, h₀, h₁, h₂⟩

/-- The messages of a stream. -/
def messages : Staged Unit UInt8 DeviceMessage UInt8 where
  next _ := drainStep
  nil _ := rfl
  shorter h := (drainStep_found_spec h).1
  append_found h ys := (drainStep_found_spec h).2 ys
  append_fail h ys := by
    obtain ⟨rest, rfl, h₀, h₁, h₂⟩ := eq_cons_of_drainStep_fail h
    exact drainStep_fail h₀ h₁ h₂

/-- What the closure keeps; nothing looks at the buffer once it has stopped. -/
structure Reader where
  buf : Bytes
  stopped : Bool

/-- `push`: what it calls, and what is kept. -/
def Reader.push (r : Reader) (chunk : Bytes) : List ReaderEvent × Reader :=
  if r.stopped then ([], r)
  else
    let drained := messages.run () (r.buf ++ chunk)
    match drained.2 with
    | .waiting _ kept => (drained.1.map .onMessage, ⟨kept, false⟩)
    | .failed type => (drained.1.map .onMessage ++ [.onError type], ⟨[], true⟩)

/-- What is called for the chunks of a stream. -/
def delivered (chunks : List Bytes) : List ReaderEvent :=
  (chunks.foldl (fun s chunk ↦ (s.1 ++ (s.2.push chunk).1, (s.2.push chunk).2))
    (([] : List ReaderEvent), (⟨[], false⟩ : Reader))).1

/-- What is called for a stream that has been read as far as it can be. -/
def eventsOf (drained : List DeviceMessage × Staged.Left Unit UInt8 UInt8) : List ReaderEvent :=
  match drained.2 with
  | .waiting .. => drained.1.map .onMessage
  | .failed type => drained.1.map .onMessage ++ [.onError type]

def keptOf : Staged.Left Unit UInt8 UInt8 → Reader
  | .waiting _ kept => ⟨kept, false⟩
  | .failed _ => ⟨[], true⟩

/-- Pushing reads what has arrived. -/
theorem push_eq_feed (drained : List DeviceMessage × Staged.Left Unit UInt8 UInt8) (chunk : Bytes) :
    eventsOf drained ++ ((keptOf drained.2).push chunk).1 = eventsOf (messages.feed drained chunk) ∧
      ((keptOf drained.2).push chunk).2 = keptOf (messages.feed drained chunk).2 := by
  obtain ⟨out, left⟩ := drained
  cases left with
  | failed type => simp [keptOf, Reader.push, eventsOf, Staged.feed]
  | waiting u kept =>
    simp only [keptOf, Reader.push, Staged.feed, eventsOf, Bool.false_eq_true, if_false]
    cases (messages.run () (kept ++ chunk)).2 <;> simp

/-- **How the stream is cut makes no difference.** -/
theorem delivered_eq (chunks : List Bytes) :
    delivered chunks = eventsOf (messages.run () chunks.flatten) := by
  have hfold : ∀ (chunks : List Bytes) (drained : List DeviceMessage × Staged.Left Unit UInt8 UInt8),
      (chunks.foldl (fun s chunk ↦ (s.1 ++ (s.2.push chunk).1, (s.2.push chunk).2))
        (eventsOf drained, keptOf drained.2)).1 = eventsOf (chunks.foldl messages.feed drained) := by
    intro chunks
    induction chunks with
    | nil => exact fun _ ↦ rfl
    | cons chunk chunks ih =>
      intro drained
      obtain ⟨hevents, hkept⟩ := push_eq_feed drained chunk
      rw [foldl_cons, foldl_cons]
      rw [hevents, hkept]
      exact ih _
  rw [← Staged.foldl_feed]
  exact hfold chunks ([], .waiting () [])

/-! ## What was sent -/

/-- A message on the wire. -/
def encodeMessage : DeviceMessage → Bytes
  | .clipboard text => 0 :: (Bytes.be 4 (Utf8.encode text).length ++ Utf8.encode text)
  | .ackClipboard sequence => 1 :: Bytes.be 8 sequence.toNat
  | .uhidOutput id data => 2 :: (Bytes.be 2 id.toNat ++ (Bytes.be 2 data.length ++ data))

/-- Its length fits where it is written. -/
def DeviceMessage.Fits : DeviceMessage → Prop
  | .clipboard text => (Utf8.encode text).length < 2 ^ 32
  | .ackClipboard _ => True
  | .uhidOutput _ data => data.length < 2 ^ 16

/-- It is not a text with a byte-order mark in front. -/
def DeviceMessage.Unmarked : DeviceMessage → Prop
  | .clipboard text => text.toList.head? ≠ some Utf8.byteOrderMark
  | .ackClipboard _ | .uhidOutput .. => True

/-- What becomes of a message. -/
def DeviceMessage.readBack : DeviceMessage → DeviceMessage
  | .clipboard text => .clipboard (Utf8.decode (Utf8.encode text))
  | message => message

theorem readBack_eq_iff {message : DeviceMessage} : message.readBack = message ↔ message.Unmarked := by
  cases message with
  | clipboard text => simp [DeviceMessage.readBack, DeviceMessage.Unmarked, Utf8.decode_encode_iff]
  | ackClipboard sequence => simp [DeviceMessage.readBack, DeviceMessage.Unmarked]
  | uhidOutput id data => simp [DeviceMessage.readBack, DeviceMessage.Unmarked]

/-- A message that is there is read, whatever stands behind it. -/
theorem drainStep_encodeMessage {message : DeviceMessage} (h : message.Fits) (rest : Bytes) :
    drainStep (encodeMessage message ++ rest) = .found [message.readBack] () rest := by
  cases message with
  | clipboard text =>
    have hlen : Bytes.ofBe (Bytes.be 4 (Utf8.encode text).length) = (Utf8.encode text).length :=
      Bytes.ofBe_be h
    obtain ⟨b₀, b₁, b₂, b₃, hbe⟩ : ∃ b₀ b₁ b₂ b₃,
      Bytes.be 4 (Utf8.encode text).length = [b₀, b₁, b₂, b₃] := ⟨_, _, _, _, rfl⟩
    rw [hbe] at hlen
    simp only [encodeMessage, hbe, cons_append, nil_append, drainStep, if_true,
      drop_succ_cons, drop_zero, take_succ_cons, take_zero, hlen,
      length_cons, length_append, Nat.add_comm 5, take_left, drop_left]
    rw [if_neg (by omega), if_neg (by omega)]
    rfl
  | ackClipboard sequence =>
    have hsequence : Bytes.ofBe (Bytes.be 8 sequence.toNat) = sequence.toNat :=
      Bytes.ofBe_be sequence.toNat_lt
    simp only [encodeMessage, cons_append, drainStep, drop_succ_cons, drop_zero,
      take_left' (Bytes.length_be 8 _), hsequence, length_cons, length_append,
      Bytes.length_be, drop_left' (Bytes.length_be 8 _)]
    rw [if_neg (by decide), if_pos (by decide), if_neg (by omega), UInt64.ofNat_toNat]
    rfl
  | uhidOutput id data =>
    have hid : Bytes.ofBe (Bytes.be 2 id.toNat) = id.toNat := Bytes.ofBe_be id.toNat_lt
    have hsize : Bytes.ofBe (Bytes.be 2 data.length) = data.length := Bytes.ofBe_be h
    obtain ⟨b₀, b₁, hbe⟩ : ∃ b₀ b₁, Bytes.be 2 id.toNat = [b₀, b₁] := ⟨_, _, rfl⟩
    obtain ⟨b₂, b₃, hbe'⟩ : ∃ b₂ b₃, Bytes.be 2 data.length = [b₂, b₃] := ⟨_, _, rfl⟩
    rw [hbe] at hid
    rw [hbe'] at hsize
    simp only [encodeMessage, hbe, hbe', cons_append, nil_append, drainStep,
      drop_succ_cons, drop_zero, take_succ_cons, take_zero, hid, hsize,
      length_cons, length_append, Nat.add_comm 5, take_left, drop_left]
    rw [if_neg (by decide), if_neg (by decide), if_pos trivial, if_neg (by omega), if_neg (by omega),
      UInt16.ofNat_toNat]
    rfl

/-- Messages are read one after the other, and then what stands behind them. -/
theorem run_encodeMessages {sent : List DeviceMessage} (h : ∀ m ∈ sent, m.Fits) (rest : Bytes) :
    messages.run () (sent.flatMap encodeMessage ++ rest) =
      (sent.map (·.readBack) ++ (messages.run () rest).1, (messages.run () rest).2) := by
  induction sent with
  | nil => rfl
  | cons message sent ih =>
    obtain ⟨hmessage, hsent⟩ := forall_mem_cons.mp h
    have hnext : messages.next () (encodeMessage message ++ (sent.flatMap encodeMessage ++ rest)) =
      .found [message.readBack] () (sent.flatMap encodeMessage ++ rest) :=
      drainStep_encodeMessage hmessage _
    rw [flatMap_cons, append_assoc, Staged.run_of_found hnext, ih hsent]
    rfl

theorem map_readBack_eq_iff {sent : List DeviceMessage} :
    sent.map (·.readBack) = sent ↔ ∀ m ∈ sent, m.Unmarked := by
  have hmap := map_inj_left (l := sent) (f := (·.readBack)) (g := id)
  rw [map_id] at hmap
  exact hmap.trans (forall₂_congr fun _ _ ↦ readBack_eq_iff)

/-- **The reader delivers what was sent exactly if no text starts with a byte-order mark.**  However
the stream is cut: messages alone come as that list, and with a byte behind them that is no type they
come before the error, which comes once, and nothing comes after it, whatever follows. -/
theorem delivered_iff (sent : List DeviceMessage) (hfits : ∀ m ∈ sent, m.Fits)
    (chunks : List Bytes) :
    (chunks.flatten = sent.flatMap encodeMessage →
      (delivered chunks = sent.map .onMessage ↔ ∀ m ∈ sent, m.Unmarked)) ∧
    ∀ type rest, type ≠ 0 → type ≠ 1 → type ≠ 2 →
      chunks.flatten = sent.flatMap encodeMessage ++ type :: rest →
      (delivered chunks = sent.map .onMessage ++ [.onError type] ↔ ∀ m ∈ sent, m.Unmarked) := by
  have hinj : Function.Injective ReaderEvent.onMessage := fun _ _ ↦ ReaderEvent.onMessage.inj
  constructor
  · intro hcut
    have hrun := run_encodeMessages hfits []
    rw [append_nil, Staged.run_nil, append_nil] at hrun
    rw [delivered_eq, hcut, hrun, eventsOf, hinj.list_map.eq_iff, map_readBack_eq_iff]
  · intro type rest h₀ h₁ h₂ hcut
    have hstop : messages.run () (type :: rest) = ([], .failed type) :=
      Staged.run_of_fail (drainStep_fail h₀ h₁ h₂)
    rw [delivered_eq, hcut, run_encodeMessages hfits, hstop, append_nil, eventsOf,
      append_left_inj, hinj.list_map.eq_iff, map_readBack_eq_iff]

/-- A text, an acknowledgement and a report, cut inside a character, and a byte that is no type. -/
theorem delivered_cut :
    delivered [[0, 0, 0, 0], [2, 0xC3], [0xA9, 1, 0, 0, 0, 0, 0, 0, 0], [7, 2, 0, 1, 0, 1, 9], [0x63, 0]] =
      [.onMessage (.clipboard "é"), .onMessage (.ackClipboard 7), .onMessage (.uhidOutput 1 [9]),
        .onError 0x63] := by
  have hfits : ∀ m ∈ [DeviceMessage.clipboard "é", .ackClipboard 7, .uhidOutput 1 [9]], m.Fits := by
    rintro m (_ | ⟨_, _ | ⟨_, _ | ⟨_, hm⟩⟩⟩)
    · show (Utf8.encode "é").length < 2 ^ 32
      decide
    · trivial
    · show [9].length < 2 ^ 16
      decide
    · exact nomatch hm
  refine ((delivered_iff _ hfits _).2 0x63 [0] (by decide) (by decide) (by decide)
    (by decide +kernel)).mpr ?_
  simp [DeviceMessage.Unmarked, Utf8.byteOrderMark]

/-- A text that starts with the mark comes without it. -/
theorem delivered_marked :
    delivered [encodeMessage (.clipboard "\uFEFFa")] = [.onMessage (.clipboard "a")] := by
  decide +kernel

end Enkaku.Scrcpy.Control
