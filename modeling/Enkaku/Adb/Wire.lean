import Enkaku.Lib.Bytes

/-!
# The adb transport's frames

`wire.ts`: a frame is a header of 24 bytes — six words, least significant byte first — and its
payload.  The sixth word is the complement of the first; it is the one thing `decodeHeader` checks.
-/

set_option autoImplicit false

namespace Enkaku.Wire

/-! ## Words -/

/-- `setUint32(_, n, true)`. -/
def wordBytes (n : UInt32) : Bytes := Bytes.le32 n.toNat

/-- `getUint32(offset, true)`. -/
def wordAt (bytes : Bytes) (offset : Nat) : UInt32 := UInt32.ofNat (Bytes.ofLe32 (bytes.drop offset))

/-- A number in hexadecimal, as `toString(16)` writes it. -/
def hex (n : UInt32) : String := String.ofList (Nat.toDigits 16 n.toNat)

/-! ## The codec -/

/-- `COMMAND_NAMES`. -/
def commandNames : List (UInt32 × String) :=
  [(0x434e5953, "SYNC"), (0x4e584e43, "CNXN"), (0x4e45504f, "OPEN"), (0x59414b4f, "OKAY"),
    (0x45534c43, "CLSE"), (0x45545257, "WRTE"), (0x48545541, "AUTH")]

/-- `commandName`. -/
def commandName (command : UInt32) : String := (commandNames.lookup command).getD ("0x" ++ hex command)

/-- `HEADER_BYTES`. -/
def headerBytes : Nat := 24

/-- `AdbdHeader`. -/
structure AdbdHeader where
  command : UInt32
  arg0 : UInt32
  arg1 : UInt32
  dataLength : UInt32
  dataCheck : UInt32
  magic : UInt32
  deriving DecidableEq, Repr

/-- `checksum`: the sum of the bytes, in 32 bits. -/
def checksum (data : Bytes) : UInt32 := data.foldl (fun sum b ↦ sum + b.toUInt32) 0

/-- `command ^ 0xffffffff`. -/
def magicOf (command : UInt32) : UInt32 := command ^^^ 0xffffffff

/-- The header of a frame. -/
def headerOf (command arg0 arg1 : UInt32) (payload : Bytes) : AdbdHeader :=
  ⟨command, arg0, arg1, UInt32.ofNat payload.length, checksum payload, magicOf command⟩

/-- The bytes of a header. -/
def AdbdHeader.encode (h : AdbdHeader) : Bytes :=
  wordBytes h.command ++ (wordBytes h.arg0 ++ (wordBytes h.arg1 ++
    (wordBytes h.dataLength ++ (wordBytes h.dataCheck ++ wordBytes h.magic))))

/-- `encodeFrame`. -/
def encodeFrame (command arg0 arg1 : UInt32) (payload : Bytes) : Bytes :=
  (headerOf command arg0 arg1 payload).encode ++ payload

/-- `decodeHeader`, with the message of its `E_ADB_PROTOCOL` error. -/
def decodeHeader (bytes : Bytes) : Except String AdbdHeader :=
  if bytes.length < headerBytes then
    .error s!"adb header truncated: got {bytes.length} of {headerBytes} bytes"
  else
    let command := wordAt bytes 0
    let magic := wordAt bytes 20
    if magic ≠ magicOf command then
      .error (s!"bad adb frame magic: command={commandName command} magic=0x{hex magic} " ++
        s!"expected=0x{hex (magicOf command)}")
    else .ok ⟨command, wordAt bytes 4, wordAt bytes 8, wordAt bytes 12, wordAt bytes 16, magic⟩

/-! ## Reading a header back -/

@[simp] theorem length_wordBytes (n : UInt32) : (wordBytes n).length = 4 := rfl

theorem wordAt_zero (n : UInt32) (rest : Bytes) : wordAt (wordBytes n ++ rest) 0 = n := by
  rw [wordAt, List.drop_zero, wordBytes, Bytes.ofLe32_le32 n.toNat_lt, UInt32.ofNat_toNat]

theorem wordAt_add (n : UInt32) (rest : Bytes) (offset : Nat) :
    wordAt (wordBytes n ++ rest) (offset + 4) = wordAt rest offset := by
  rw [wordAt, wordAt, Nat.add_comm, ← List.drop_drop, List.drop_left' (length_wordBytes n)]

@[simp] theorem length_encode (h : AdbdHeader) : h.encode.length = headerBytes := rfl

/-- A header is read back, whatever stands behind it. -/
theorem decodeHeader_encode {h : AdbdHeader} (hmagic : h.magic = magicOf h.command) (rest : Bytes) :
    decodeHeader (h.encode ++ rest) = .ok h := by
  have hlength : ¬ (h.encode ++ rest).length < headerBytes := by simp
  rw [decodeHeader, if_neg hlength]
  simp only [AdbdHeader.encode, List.append_assoc, wordAt_zero, wordAt_add _ _ 0, wordAt_add _ _ 4,
    wordAt_add _ _ 8, wordAt_add _ _ 12, wordAt_add _ _ 16]
  rw [if_neg (not_not.mpr hmagic)]

theorem decodeHeader_encodeFrame (command arg0 arg1 : UInt32) (payload : Bytes) :
    decodeHeader (encodeFrame command arg0 arg1 payload) =
      .ok (headerOf command arg0 arg1 payload) :=
  decodeHeader_encode rfl payload

/-- The magic is the complement. -/
theorem magicOf_eq (command : UInt32) : magicOf command = ~~~command := by
  rw [magicOf, show (0xffffffff : UInt32) = -1 by decide, UInt32.xor_neg_one]

/-- The checksum is the sum of the bytes, in 32 bits. -/
theorem toNat_checksum (data : Bytes) : (checksum data).toNat = (data.map UInt8.toNat).sum % 2 ^ 32 := by
  induction data using List.reverseRecOn with
  | nil => rfl
  | append_singleton data b ih =>
    rw [checksum, List.foldl_append, ← checksum, List.foldl_cons, List.foldl_nil, UInt32.toNat_add,
      ih, UInt8.toNat_toUInt32, List.map_append, List.sum_append, Nat.mod_add_mod]
    rfl

end Enkaku.Wire
