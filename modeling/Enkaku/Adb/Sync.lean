import Enkaku.Lib.Incremental
import Enkaku.Lib.Utf8

/-!
# The `sync:` service, as far as it sends

`sync.ts`: a packet is an id of four letters, a word with its length, and its payload; what stands
in the place of the length of a `DONE` is a value, and the reply to a `STAT` has a fixed width.
`pushFile` cuts a file into packets, whatever pieces the file system hands it over in.

`packets` reads a string of bytes as packets, the way `readPacket` does, and `run_pushPackets` reads
what a push writes.
-/

set_option autoImplicit false

namespace Enkaku.Sync

open List

/-! ## Packets -/

/-- `CHUNK_SIZE`. -/
def chunkSize : Nat := 64 * 1024

/-- `'SEND'`. -/
def idSend : Bytes := [0x53, 0x45, 0x4E, 0x44]

/-- `'DATA'`. -/
def idData : Bytes := [0x44, 0x41, 0x54, 0x41]

/-- `'DONE'`. -/
def idDone : Bytes := [0x44, 0x4F, 0x4E, 0x45]

/-- `'OKAY'`. -/
def idOkay : Bytes := [0x4F, 0x4B, 0x41, 0x59]

/-- `'FAIL'`. -/
def idFail : Bytes := [0x46, 0x41, 0x49, 0x4C]

/-- `'STAT'`. -/
def idStat : Bytes := [0x53, 0x54, 0x41, 0x54]

/-- `AdbError`. -/
structure AdbError where
  code : String
  message : String
  deriving DecidableEq, Repr

/-- `SyncPacket`.  The id is kept as its bytes: four letters are the text of no other four bytes. -/
structure SyncPacket where
  id : Bytes
  payload : Bytes
  deriving DecidableEq, Repr

/-- `encodePacket`. -/
def encodePacket (id payload : Bytes) : Bytes := id ++ (Bytes.le32 payload.length ++ payload)

/-- `encodeValuePacket`. -/
def encodeValuePacket (id : Bytes) (value : Nat) : Bytes := id ++ Bytes.le32 value

/-- What `readPacket` does with the first eight bytes: they are the packet, or so many more of it
are to be read. -/
def afterHeader (header : Bytes) : SyncPacket ⊕ Nat :=
  let id := header.take 4
  if id = idDone then .inl ⟨id, header.drop 4⟩
  else if id = idStat then .inr 8
  else
    let len := Bytes.ofLe32 (header.drop 4)
    if 0 < len then .inr len else .inl ⟨id, []⟩

/-- What it does with those.  The four bytes behind the id of a `STAT` are payload already. -/
def withRest (header rest : Bytes) : SyncPacket :=
  let id := header.take 4
  if id = idStat then ⟨id, header.drop 4 ++ rest⟩ else ⟨id, rest⟩

/-- `readPacket`, on bytes that are there: the packet in front, and what is behind it. -/
def readPacket (bytes : Bytes) : Option (SyncPacket × Bytes) :=
  if bytes.length < 8 then none
  else
    match afterHeader (bytes.take 8) with
    | .inl packet => some (packet, bytes.drop 8)
    | .inr need =>
      if bytes.length < 8 + need then none
      else some (withRest (bytes.take 8) ((bytes.drop 8).take need), bytes.drop (8 + need))

/-- The bytes that make a packet. -/
inductive Framed : Bytes → SyncPacket → Prop
  | header {header : Bytes} {packet : SyncPacket} (hlength : header.length = 8)
      (h : afterHeader header = .inl packet) : Framed header packet
  | payload {header rest : Bytes} (hlength : header.length = 8)
      (h : afterHeader header = .inr rest.length) : Framed (header ++ rest) (withRest header rest)

variable {bytes : Bytes} {packet : SyncPacket}

theorem Framed.length_pos (h : Framed bytes packet) : 0 < bytes.length := by
  cases h with
  | header hlength h => omega
  | payload hlength h =>
    rw [length_append]
    omega

/-- A packet that is there is read, whatever stands behind it. -/
theorem Framed.readPacket (h : Framed bytes packet) (rest : Bytes) :
    readPacket (bytes ++ rest) = some (packet, rest) := by
  cases h with
  | header hlength h =>
    rw [Sync.readPacket, if_neg (by rw [length_append]; omega), take_left' hlength, h]
    show some (packet, (bytes ++ rest).drop 8) = _
    rw [drop_left' hlength]
  | @payload header payload hlength h =>
    have hboth : (header ++ payload).length = 8 + payload.length := by
      rw [length_append, hlength]
    rw [Sync.readPacket, if_neg (by rw [length_append]; omega), append_assoc,
      take_left' hlength, h]
    dsimp only
    rw [if_neg (by simp only [length_append]; omega), drop_left' hlength,
      take_left, ← append_assoc, drop_left' hboth]

/-- Only such bytes are read. -/
theorem framed_of_readPacket {rest : Bytes} (h : readPacket bytes = some (packet, rest)) :
    ∃ front, Framed front packet ∧
      bytes = front ++ rest := by
  rw [readPacket] at h
  split_ifs at h with hshort
  have hlength : (bytes.take 8).length = 8 := by
    rw [length_take]
    omega
  cases hafter : afterHeader (bytes.take 8) with
  | inl p =>
    rw [hafter] at h
    cases h
    exact ⟨_, .header hlength hafter, (take_append_drop 8 bytes).symm⟩
  | inr need =>
    rw [hafter] at h
    dsimp only at h
    split_ifs at h with hneed
    cases h
    have hrest : ((bytes.drop 8).take need).length = need := by
      rw [length_take, length_drop]
      omega
    refine ⟨_, .payload hlength (hafter.trans (congrArg Sum.inr hrest.symm)), ?_⟩
    rw [append_assoc, ← drop_drop, take_append_drop, take_append_drop]

/-- The packets of a stream. -/
def packets : Incremental UInt8 SyncPacket where
  next? := readPacket
  shorter := by
    intro bytes packet rest h
    obtain ⟨front, hframed, rfl⟩ := framed_of_readPacket h
    have hpos := hframed.length_pos
    rw [List.length_append]
    omega
  append := by
    intro bytes packet rest h ys
    obtain ⟨front, hframed, rfl⟩ := framed_of_readPacket h
    rw [List.append_assoc, hframed.readPacket]

/-- Bytes that make a packet are read as it, and then what is behind them. -/
theorem run_framed (h : Framed bytes packet) (rest : Bytes) :
    packets.run (bytes ++ rest) = (packet :: (packets.run rest).1, (packets.run rest).2) :=
  packets.run_of_some (h.readPacket rest)

@[simp] theorem run_nil : packets.run [] = ([], []) := packets.run_of_none rfl

/-- A packet with a payload is read back as it was written. -/
theorem framed_encodePacket {id payload : Bytes} (hid : id.length = 4) (hdone : id ≠ idDone)
    (hstat : id ≠ idStat) (hfits : payload.length < 2 ^ 32) :
    Framed (encodePacket id payload) ⟨id, payload⟩ := by
  have hlength : (id ++ Bytes.le32 payload.length).length = 8 := by
    rw [length_append, hid, Bytes.length_le32]
  have hword : Bytes.ofLe32 (Bytes.le32 payload.length) = payload.length := by
    have h := Bytes.ofLe32_le32 hfits []
    rwa [append_nil] at h
  have hafter : afterHeader (id ++ Bytes.le32 payload.length) =
      if 0 < payload.length then .inr payload.length else .inl ⟨id, []⟩ := by
    simp only [afterHeader, take_left' hid, drop_left' hid, if_neg hdone, if_neg hstat, hword]
  by_cases hempty : payload = []
  · subst hempty
    rw [encodePacket, append_nil]
    exact .header hlength hafter
  · rw [if_pos (length_pos_iff.mpr hempty)] at hafter
    have hframed := Framed.payload hlength hafter
    rw [withRest, take_left' hid, if_neg hstat, append_assoc] at hframed
    exact hframed

/-- A `DONE` is read back with its value. -/
theorem framed_encodeValuePacket (value : Nat) :
    Framed (encodeValuePacket idDone value) ⟨idDone, Bytes.le32 value⟩ :=
  .header rfl rfl

/-! ## Cutting a file -/

/-- The `while` of `chunksOf`: as many full chunks as there are. -/
def fullChunks {size : Nat} (hsize : 0 < size) : Incremental UInt8 Bytes where
  next? buffer := if size ≤ buffer.length then some (buffer.take size, buffer.drop size) else none
  shorter := by
    intro buffer chunk rest h
    split_ifs at h with hfull
    cases h
    rw [List.length_drop]
    omega
  append := by
    intro buffer chunk rest h ys
    split_ifs at h with hfull
    cases h
    rw [if_pos (by rw [List.length_append]; omega), List.take_append_of_le_length hfull,
      List.drop_append_of_le_length hfull]

/-- `chunksOf`: the chunks of a file that is handed over in these pieces. -/
def chunksOf {size : Nat} (hsize : 0 < size) (file : List Bytes) : List Bytes :=
  let s := file.foldl
    (fun s value ↦ if value.isEmpty then s else (fullChunks hsize).feed s value) ([], [])
  if s.2.isEmpty then s.1 else s.1 ++ [s.2]

variable {size : Nat}

/-- Full chunks are a cut of the buffer: each is full, and what is left is not. -/
theorem run_fullChunks (hsize : 0 < size) (buffer : Bytes) :
    ((fullChunks hsize).run buffer).1.flatten ++ ((fullChunks hsize).run buffer).2 = buffer ∧
      (∀ chunk ∈ ((fullChunks hsize).run buffer).1, chunk.length = size) ∧
      ((fullChunks hsize).run buffer).2.length < size := by
  refine (fullChunks hsize).run_induction
    (P := fun xs items left ↦ items.flatten ++ left = xs ∧ (∀ chunk ∈ items, chunk.length = size) ∧
      left.length < size) ?_ ?_ buffer
  · intro xs h
    refine ⟨rfl, fun chunk hchunk ↦ absurd hchunk (not_mem_nil), ?_⟩
    simp only [fullChunks] at h
    split_ifs at h with hfull
    exact Nat.lt_of_not_le hfull
  · rintro xs b rest items left h ⟨happ, hlength, hleft⟩
    simp only [fullChunks] at h
    split_ifs at h with hfull
    cases h
    refine ⟨?_, ?_, hleft⟩
    · rw [flatten_cons, append_assoc, happ, take_append_drop]
    · rintro chunk (_ | ⟨_, hchunk⟩)
      · rw [length_take, Nat.min_eq_left hfull]
      · exact hlength chunk hchunk

/-- An empty piece changes nothing, whether it is passed over or not. -/
theorem foldl_chunks (hsize : 0 < size) (file : List Bytes) :
    file.foldl (fun s value ↦ if value.isEmpty then s else (fullChunks hsize).feed s value)
      ([], []) = (fullChunks hsize).run file.flatten := by
  rw [← (fullChunks hsize).foldl_feed file]
  induction file using List.reverseRecOn with
  | nil => rfl
  | append_singleton file value ih =>
    rw [foldl_append, foldl_append, ih, foldl_cons, foldl_nil, foldl_cons, foldl_nil]
    split_ifs with hempty
    · obtain rfl := isEmpty_iff.mp hempty
      rw [Incremental.feed, append_nil, (fullChunks hsize).foldl_feed,
        Incremental.run_of_none _ ((fullChunks hsize).next?_run _), append_nil]
    · rfl

/-- **A file is cut without loss**, however it is handed over: no chunk is empty or too long, and
together they are the file. -/
theorem chunksOf_spec (hsize : 0 < size) (file : List Bytes) :
    (chunksOf hsize file).flatten = file.flatten ∧
      ∀ chunk ∈ chunksOf hsize file, 1 ≤ chunk.length ∧ chunk.length ≤ size := by
  obtain ⟨happ, hlength, hleft⟩ := run_fullChunks hsize file.flatten
  rw [chunksOf, foldl_chunks]
  have hfull : ∀ chunk ∈ ((fullChunks hsize).run file.flatten).1,
      1 ≤ chunk.length ∧ chunk.length ≤ size := by
    intro chunk hchunk
    rw [hlength chunk hchunk]
    exact ⟨hsize, Nat.le_refl size⟩
  split_ifs with hempty
  · rw [isEmpty_iff.mp hempty, append_nil] at happ
    exact ⟨happ, hfull⟩
  · refine ⟨?_, ?_⟩
    · rw [flatten_append, flatten_singleton, happ]
    · intro chunk hchunk
      rcases mem_append.mp hchunk with hchunk | hchunk
      · exact hfull chunk hchunk
      · rw [mem_singleton.mp hchunk]
        exact ⟨length_pos_iff.mpr fun h ↦ hempty (isEmpty_iff.mpr h), hleft.le⟩

/-! ## Pushing a file -/

/-- The mode that is sent: the one asked for, with the bit of a regular file, in 32 bits. -/
def sentMode (mode : Option Int) : Int := (BitVec.ofInt 32 (mode.getD 0o644) ||| 0o100000#32).toInt

/-- `pathSpec`. -/
def pathSpec (remotePath : String) (mode : Option Int) : String :=
  remotePath ++ "," ++ toString (sentMode mode)

/-- The digits of a number, behind its sign. -/
theorem toList_toString (n : Int) :
    (toString n).toList = if 0 ≤ n then Nat.toDigits 10 n.natAbs else '-' :: Nat.toDigits 10 n.natAbs := by
  rw [Int.toString_eq_repr, Int.repr_eq_if]
  split_ifs with h
  · rw [Nat.toList_repr, show n.toNat = n.natAbs by omega]
  · rw [String.toList_append, Nat.toList_repr, show (-n).toNat = n.natAbs by omega]
    rfl

theorem comma_notMem_toString (n : Int) : ',' ∉ (toString n).toList := by
  have hdigits : ',' ∉ Nat.toDigits 10 n.natAbs := fun h ↦
    absurd (Nat.isDigit_of_mem_toDigits (by decide) (by decide) h) (by decide)
  rw [toList_toString]
  split_ifs
  · exact hdigits
  · simpa using hdigits

theorem toString_int_injective {m n : Int} (h : toString m = toString n) : m = n := by
  have hdash : ∀ k, '-' ∉ Nat.toDigits 10 k := fun k hk ↦
    absurd (Nat.isDigit_of_mem_toDigits (by decide) (by decide) hk) (by decide)
  have hback : ∀ k l, Nat.toDigits 10 k = Nat.toDigits 10 l → k = l := by
    intro k l hkl
    rw [← Nat.ofDigitChars_ten_toDigits (n := k), hkl, Nat.ofDigitChars_ten_toDigits]
  have hlist := congrArg String.toList h
  rw [toList_toString, toList_toString] at hlist
  split_ifs at hlist with hm hn hn
  · have := hback _ _ hlist
    omega
  · exact absurd (hlist ▸ mem_cons_self) (hdash _)
  · exact absurd (hlist ▸ mem_cons_self) (hdash _)
  · have := hback _ _ (List.cons.inj hlist).2
    omega

/-- **No two paths and modes make the same text**: the mode is what follows the last comma. -/
theorem pathSpec_injective {path path' : String} {mode mode' : Option Int}
    (h : pathSpec path mode = pathSpec path' mode') : path = path' ∧ sentMode mode = sentMode mode' := by
  have hlast : ∀ (path : String) (mode : Option Int),
      (pathSpec path mode).toList.reverse.takeWhile (· ≠ ',') =
        (toString (sentMode mode)).toList.reverse := by
    intro path mode
    rw [pathSpec, String.toList_append, String.toList_append, reverse_append,
      reverse_append, takeWhile_append_of_pos]
    · simp
    · intro c hc
      rw [mem_reverse] at hc
      simpa using fun hcomma : c = ',' ↦ comma_notMem_toString _ (hcomma ▸ hc)
  have hmode : toString (sentMode mode) = toString (sentMode mode') := by
    have hrev := hlast path mode
    rw [h, hlast, reverse_inj] at hrev
    exact String.toList_inj.mp hrev.symm
  refine ⟨?_, toString_int_injective hmode⟩
  have hlist := congrArg String.toList h
  rw [pathSpec, pathSpec, hmode, String.toList_append, String.toList_append, String.toList_append,
    String.toList_append, append_cancel_right_eq, append_cancel_right_eq] at hlist
  exact String.toList_inj.mp hlist

/-- The packets of a push, in the order they are written. -/
def pushPackets (remotePath : String) (mode : Option Int) (file : List Bytes) (mtime : Nat) :
    List Bytes :=
  encodePacket idSend (Utf8.encode (pathSpec remotePath mode)) ::
    ((chunksOf (show 0 < chunkSize by decide) file).map (encodePacket idData) ++
      [encodeValuePacket idDone mtime])

/-- Packets are written one after the other, until something stops it: the signal, which is looked
at between them, or a write that is rejected. -/
def writeAll (stopped : Nat → Option AdbError) : Nat → List Bytes → List Bytes × Except AdbError Unit
  | k, [] =>
    match stopped k with
    | some err => ([], .error err)
    | none => ([], .ok ())
  | k, packet :: rest =>
    match stopped k with
    | some err => ([], .error err)
    | none =>
      let r := writeAll stopped (k + 1) rest
      (packet :: r.1, r.2)

/-- `readStatus`, of the packet that has been read. -/
def readStatus (packet : SyncPacket) : Except AdbError Unit :=
  if packet.id = idOkay then .ok ()
  else if packet.id = idFail then
    let text := Utf8.decode packet.payload
    .error ⟨"E_ADB_SYNC_FAIL", if text.isEmpty then "sync operation failed" else text⟩
  else .error ⟨"E_ADB_PROTOCOL", s!"unexpected sync status packet: {Utf8.decode packet.id}"⟩

/-- `pushFile`: what it writes, and what it settles with.  `stopped k` is what stops it in front of
its `k`-th packet, and `reply` what the read of the peer's reply settles with. -/
def pushFile (stopped : Nat → Option AdbError) (reply : Except AdbError SyncPacket)
    (remotePath : String) (mode : Option Int) (file : List Bytes) (mtime : Nat) :
    List Bytes × Except AdbError Unit :=
  let r := writeAll stopped 0 (pushPackets remotePath mode file mtime)
  (r.1, do r.2; readStatus (← reply))

/-- A push writes the front of its packets, and all of them when nothing stops it. -/
theorem writeAll_spec (stopped : Nat → Option AdbError) (k : Nat) (packets : List Bytes) :
    (writeAll stopped k packets).1 <+: packets ∧
      ((writeAll stopped k packets).2 = .ok () → (writeAll stopped k packets).1 = packets) ∧
      ((∀ k, stopped k = none) → (writeAll stopped k packets).2 = .ok ()) := by
  induction packets generalizing k with
  | nil =>
    rw [writeAll]
    cases hstopped : stopped k with
    | none => exact ⟨prefix_rfl, fun _ ↦ rfl, fun _ ↦ rfl⟩
    | some err =>
      refine ⟨prefix_rfl, fun _ ↦ rfl, fun h ↦ ?_⟩
      rw [h k] at hstopped
      cases hstopped
  | cons packet rest ih =>
    obtain ⟨hfront, hall, hends⟩ := ih (k + 1)
    rw [writeAll]
    cases hstopped : stopped k with
    | none =>
      refine ⟨cons_prefix_cons.mpr ⟨rfl, hfront⟩, fun h ↦ ?_, hends⟩
      exact congrArg (packet :: ·) (hall h)
    | some err =>
      refine ⟨List.nil_prefix, fun h ↦ ?_, fun h ↦ ?_⟩
      · cases h
      · rw [h k] at hstopped
        cases hstopped

/-- **What a push writes is read back** as one `SEND`, the `DATA` and one `DONE`. -/
theorem run_pushPackets (remotePath : String) (mode : Option Int) (file : List Bytes) (mtime : Nat)
    (h : (Utf8.encode (pathSpec remotePath mode)).length < 2 ^ 32) :
    packets.run (pushPackets remotePath mode file mtime).flatten =
      (⟨idSend, Utf8.encode (pathSpec remotePath mode)⟩ ::
        ((chunksOf (show 0 < chunkSize by decide) file).map (SyncPacket.mk idData) ++
          [⟨idDone, Bytes.le32 mtime⟩]), []) := by
  have hbounds := (chunksOf_spec (show 0 < chunkSize by decide) file).2
  have hend : packets.run (encodeValuePacket idDone mtime) =
      ([⟨idDone, Bytes.le32 mtime⟩], []) := by
    have hrun := run_framed (framed_encodeValuePacket mtime) []
    rwa [append_nil, run_nil] at hrun
  rw [pushPackets, flatten_cons,
    run_framed (framed_encodePacket rfl (by decide) (by decide) h)]
  generalize chunksOf (show 0 < chunkSize by decide) file = chunks at hbounds
  have hdata : packets.run ((chunks.map (encodePacket idData) ++
      [encodeValuePacket idDone mtime]).flatten) =
      (chunks.map (SyncPacket.mk idData) ++ [⟨idDone, Bytes.le32 mtime⟩], []) := by
    induction chunks with
    | nil => rw [map_nil, nil_append, flatten_singleton, hend]; rfl
    | cons chunk chunks ih =>
      have hfits : chunk.length < 2 ^ 32 :=
        (hbounds chunk (.head _)).2.trans_lt (by decide)
      rw [map_cons, cons_append, flatten_cons,
        run_framed (framed_encodePacket rfl (by decide) (by decide) hfits),
        ih fun c hc ↦ hbounds c (.tail _ hc)]
      rfl
  rw [hdata]

end Enkaku.Sync
