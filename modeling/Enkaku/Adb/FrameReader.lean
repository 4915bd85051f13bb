import Enkaku.Adb.Wire
import Enkaku.Lib.PullQueue

/-!
# Frames off an endpoint's connection

`adbd-shim.ts`: the bytes of a connection go into a `FrameReader`, and the loop of the connection
reads one frame after the other from it — a header, then as many bytes as the header says.

`frames_roundtrip` says that the loop gets the frames that were sent, however their bytes were cut
and whenever the loop gets to run.
-/

set_option autoImplicit false

namespace Enkaku.Wire

open List

/-! ## The reader -/

/-- Where `readFrame` stands. -/
inductive Phase where
  | header
  | payload (header : AdbdHeader)
  | failed
  deriving DecidableEq, Repr

/-- A connection: where its loop stands, and the frames it has been given. -/
structure Connection where
  phase : Phase := .header
  delivered : List (AdbdHeader × Bytes) := []
  deriving DecidableEq, Repr

/-- The loop around `readFrame`: a header, and a payload when it is not empty. -/
def frameReader : Reader Connection where
  need c :=
    match c.phase with
    | .header => some headerBytes
    | .payload header => some header.dataLength.toNat
    | .failed => none
  next c bytes :=
    match c.phase with
    | .header =>
      match decodeHeader bytes with
      | .error _ => { c with phase := .failed }
      | .ok header =>
        if 0 < header.dataLength then { c with phase := .payload header }
        else { c with delivered := c.delivered ++ [(header, [])] }
    | .payload header => ⟨.header, c.delivered ++ [(header, bytes)]⟩
    | .failed => c
  fail c := { c with phase := .failed }
  fail_done _ := rfl

/-- What happens to a connection: a chunk arrives, it ends, or its loop gets to run. -/
inductive Input where
  | data (chunk : Bytes)
  | finish
  | resume
  deriving DecidableEq, Repr

/-- `push`, `end` and the settled promise of `take`. -/
def Input.event : Input → Session.Event
  | data chunk => .push chunk
  | finish => .close
  | resume => .resume

/-- A connection after its inputs.  What is pushed after the end is ignored. -/
def session (inputs : List Input) : Session Connection :=
  Session.run frameReader (fun q _ ↦ !q.ended) {} (inputs.map Input.event)

/-! ## Frames, sent and delivered -/

/-- A frame whose length the header can hold. -/
structure Frame where
  command : UInt32
  arg0 : UInt32
  arg1 : UInt32
  payload : Bytes
  fits : payload.length < 2 ^ 32

namespace Frame

def header (f : Frame) : AdbdHeader := headerOf f.command f.arg0 f.arg1 f.payload

def encode (f : Frame) : Bytes := encodeFrame f.command f.arg0 f.arg1 f.payload

theorem encode_eq (f : Frame) : f.encode = f.header.encode ++ f.payload := rfl

theorem dataLength (f : Frame) : f.header.dataLength.toNat = f.payload.length := by
  show (UInt32.ofNat f.payload.length).toNat = _
  rw [UInt32.toNat_ofNat', Nat.mod_eq_of_lt f.fits]

end Frame

/-- What a frame is delivered as. -/
def delivery (f : Frame) : AdbdHeader × Bytes := (f.header, f.payload)

/-- Where the loop stands when it has taken these bytes of the frames: behind whole frames, or
behind a header more. -/
inductive At (frames : List Frame) : Bytes → Connection → Prop
  | header {done rest : List Frame} (h : frames = done ++ rest) :
      At frames (done.flatMap Frame.encode) ⟨.header, done.map delivery⟩
  | payload {done rest : List Frame} {f : Frame} (h : frames = done ++ f :: rest)
      (hne : f.payload ≠ []) :
      At frames (done.flatMap Frame.encode ++ f.header.encode)
        ⟨.payload f.header, done.map delivery⟩

/-- The front of a list whose length is known. -/
theorem eq_of_append_prefix {bytes x y rest : Bytes} (h : bytes ++ x <+: bytes ++ (y ++ rest))
    (hlength : x.length = y.length) : x = y := by
  rw [prefix_append_right_inj] at h
  exact (prefix_of_prefix_length_le h (prefix_append y rest) hlength.le).eq_of_length
    hlength

theorem next_header (f : Frame) (done : List Frame) :
    frameReader.next ⟨.header, done.map delivery⟩ f.header.encode =
      if f.payload = [] then ⟨.header, (done ++ [f]).map delivery⟩
      else ⟨.payload f.header, done.map delivery⟩ := by
  have hdecode : decodeHeader f.header.encode = .ok f.header := by
    have h := decodeHeader_encode (show f.header.magic = magicOf f.header.command from rfl) []
    rwa [append_nil] at h
  have hlength := f.dataLength
  simp only [frameReader, hdecode]
  by_cases hempty : f.payload = []
  · have hzero : ¬ 0 < f.header.dataLength := by
      rw [UInt32.lt_iff_toNat_lt, hlength, hempty]
      exact Nat.lt_irrefl 0
    rw [if_neg hzero, if_pos hempty, map_append, map_singleton, delivery, hempty]
  · have hpos : 0 < f.header.dataLength := by
      rw [UInt32.lt_iff_toNat_lt, hlength]
      exact length_pos_iff.mpr hempty
    rw [if_pos hpos, if_neg hempty]

/-- One read takes the loop from one such place to the next. -/
theorem at_next {frames : List Frame} {bytes x : Bytes} {c : Connection} (hat : At frames bytes c)
    (hneed : frameReader.need c = some x.length) (hfront : bytes ++ x <+: frames.flatMap Frame.encode) :
    At frames (bytes ++ x) (frameReader.next c x) := by
  cases hat with
  | @header done rest h =>
    have hlength : x.length = headerBytes := (Option.some.inj hneed).symm
    rw [h, flatMap_append] at hfront
    cases rest with
    | nil =>
      rw [prefix_append_right_inj, flatMap_nil, prefix_nil] at hfront
      rw [hfront] at hlength
      exact nomatch hlength
    | cons f rest =>
      rw [flatMap_cons, Frame.encode_eq, append_assoc] at hfront
      obtain rfl := eq_of_append_prefix hfront hlength
      rw [next_header]
      split_ifs with hempty
      · have hframes : frames = (done ++ [f]) ++ rest := by rw [h, append_assoc]; rfl
        have hat := At.header hframes
        rwa [flatMap_append, flatMap_singleton, Frame.encode_eq, hempty, append_nil] at hat
      · exact .payload h hempty
  | @payload done rest f h hne =>
    have hlength : x.length = f.payload.length := by
      rw [← f.dataLength]
      exact (Option.some.inj hneed).symm
    have hframes : frames = (done ++ [f]) ++ rest := by rw [h, append_assoc]; rfl
    have hencode : frames.flatMap Frame.encode =
        done.flatMap Frame.encode ++ f.header.encode ++ (f.payload ++ rest.flatMap Frame.encode) := by
      rw [h, flatMap_append, flatMap_cons, Frame.encode_eq, append_assoc, append_assoc]
    rw [hencode] at hfront
    obtain rfl := eq_of_append_prefix hfront hlength
    have hat := At.header hframes
    rw [flatMap_append, flatMap_singleton, Frame.encode_eq, ← append_assoc,
      map_append, map_singleton] at hat
    exact hat

/-! ## The round trip -/

theorem sound_session (inputs : List Input) : Session.Sound frameReader {} (session inputs) := by
  rw [session]
  exact Session.sound_run (fun q _ hq _ ↦ by simpa using hq) _ _

/-- All that has arrived, in what the loop has been given and what it has not. -/
theorem session_at {frames : List Frame} {inputs : List Input}
    (h : (session inputs).arrived <+: frames.flatMap Frame.encode) :
    ∃ bytes c, At frames bytes c ∧ bytes <+: (session inputs).arrived ∧
      (session inputs).state.delivered = c.delivered ∧
      ((session inputs).queue.ended = false → (session inputs).mail = none →
        (session inputs).state = c ∧
          bytes ++ (session inputs).queue.buffered = (session inputs).arrived) := by
  have hsound := sound_session inputs
  obtain ⟨bytes, c, htook, hstate, hfront, hall⟩ := hsound.took
  have hbytes : bytes <+: (session inputs).arrived := (prefix_append _ _).trans hfront
  refine ⟨bytes, c, ?_, hbytes, ?_, ?_⟩
  · have hstart : At frames [] {} := At.header (nil_append frames).symm
    exact htook.invariant hstart at_next (hbytes.trans h)
  · rcases hstate with hstate | ⟨-, hstate⟩
    · rw [hstate]
    · rw [hstate]
      rfl
  · intro hended hmail
    have hempty : (session inputs).mailed = [] := by rw [Session.mailed, hmail]; rfl
    have hlive : (session inputs).queue.aborted = false := by
      by_contra haborted
      exact absurd (hended.symm.trans (hsound.ended (by simpa using haborted))) (by decide)
    refine ⟨hstate.resolve_right fun hfail ↦ ?_, ?_⟩
    · exact absurd (hended.symm.trans hfail.1) (by decide)
    · have hall := hall hlive
      rwa [hempty, append_nil] at hall

/-- A loop that waits has been given all the frames, when all their bytes have arrived. -/
theorem delivered_eq {frames : List Frame} {inputs : List Input}
    (harrived : (session inputs).arrived = frames.flatMap Frame.encode)
    (hended : (session inputs).queue.ended = false) (hmail : (session inputs).mail = none) :
    (session inputs).state.delivered = frames.map delivery := by
  have hsound := sound_session inputs
  have hfront : (session inputs).arrived <+: frames.flatMap Frame.encode := by rw [harrived]
  obtain ⟨bytes, c, hat, -, hdelivered, hquiet⟩ := session_at hfront
  obtain ⟨hstate, hall⟩ := hquiet hended hmail
  rw [harrived] at hall
  rw [hdelivered]
  cases hat with
  | @header done rest h =>
    cases rest with
    | nil => rw [h, append_nil]
    | cons f rest =>
      have hshort := (hsound.short hmail headerBytes (by rw [hstate]; rfl)).1
      rw [h, flatMap_append, append_cancel_left_eq, flatMap_cons, Frame.encode_eq] at hall
      rw [hall, length_append, length_append, length_encode] at hshort
      omega
  | @payload done rest f h hne =>
    have hshort := (hsound.short hmail f.header.dataLength.toNat (by rw [hstate]; rfl)).1
    rw [h, flatMap_append, append_assoc, append_cancel_left_eq, flatMap_cons,
      Frame.encode_eq, append_assoc, append_cancel_left_eq] at hall
    rw [hall, f.dataLength, length_append] at hshort
    omega

/-- **The frame codec round-trips under any chunking.**  Each frame's header is read back, with the
complement of the command as its magic and the sum of the payload's bytes as its checksum; the loop
is given the frames in order, none before its last byte has arrived; and when all have arrived, and
the loop has run as far as it can, it has been given them all. -/
theorem frames_roundtrip (frames : List Frame) (inputs : List Input)
    (h : (session inputs).arrived <+: frames.flatMap Frame.encode) :
    (∀ f ∈ frames, ∃ header, decodeHeader (f.encode.take headerBytes) = .ok header ∧
      header.command = f.command ∧ header.arg0 = f.arg0 ∧ header.arg1 = f.arg1 ∧
      header.dataLength.toNat = f.payload.length ∧ header.magic = ~~~f.command ∧
      header.dataCheck.toNat = (f.payload.map UInt8.toNat).sum % 2 ^ 32) ∧
    (∃ done, done <+: frames ∧ (session inputs).state.delivered = done.map delivery ∧
      done.flatMap Frame.encode <+: (session inputs).arrived) ∧
    ((session inputs).arrived = frames.flatMap Frame.encode →
      (session inputs).queue.ended = false → (session inputs).mail = none →
      (session inputs).state.delivered = frames.map delivery) := by
  refine ⟨?_, ?_, delivered_eq⟩
  · intro f _
    have hdecode := decodeHeader_encode (show f.header.magic = magicOf f.header.command from rfl) []
    rw [append_nil] at hdecode
    refine ⟨f.header, ?_, rfl, rfl, rfl, f.dataLength, magicOf_eq f.command, toNat_checksum f.payload⟩
    rw [Frame.encode_eq, take_left' (length_encode f.header), hdecode]
  · obtain ⟨bytes, c, hat, hbytes, hdelivered, -⟩ := session_at h
    cases hat with
    | @header done rest h =>
      exact ⟨done, ⟨rest, h.symm⟩, hdelivered, hbytes⟩
    | @payload done rest f h hne =>
      exact ⟨done, ⟨f :: rest, h.symm⟩, hdelivered, (prefix_append _ _).trans hbytes⟩

/-! ## Two frames, and a payload that is too long -/

namespace Two

/-- An `OKAY` without a payload, and a `WRTE` with three bytes. -/
def frames : List Frame :=
  [⟨0x59414b4f, 1, 2, [], by decide⟩, ⟨0x45545257, 1, 2, [10, 20, 30], by decide⟩]

/-- Their bytes, cut inside the first header and inside the payload. -/
def inputs : List Input :=
  let bytes := frames.flatMap Frame.encode
  [.data (bytes.take 20), .resume, .data ((bytes.drop 20).take 29), .resume, .resume,
    .data (bytes.drop 49), .resume]

theorem frames_roundtrip_two : (session inputs).state.delivered = frames.map delivery :=
  (frames_roundtrip frames inputs (by decide +kernel)).2.2 (by decide +kernel) (by decide +kernel)
    (by decide +kernel)

end Two

theorem dataLength_wraps (payload : Bytes) (h : payload.length = 2 ^ 32) :
    ∃ header, decodeHeader (encodeFrame 0 0 0 payload) = .ok header ∧
      header.dataLength.toNat ≠ payload.length := by
  refine ⟨_, decodeHeader_encodeFrame 0 0 0 payload, ?_⟩
  show (UInt32.ofNat payload.length).toNat ≠ payload.length
  rw [h]
  decide

/-- The length of a payload of `2 ^ 32` bytes is read back as 0. -/
theorem header_loses_length :
    ∃ header, decodeHeader (encodeFrame 0 0 0 (List.replicate (2 ^ 32) 0)) = .ok header ∧
      header.dataLength.toNat ≠ (List.replicate (2 ^ 32) (0 : UInt8)).length :=
  dataLength_wraps _ length_replicate

end Enkaku.Wire
