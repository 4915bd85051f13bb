import Enkaku.Value
import Enkaku.Lib.Utf16
import Mathlib.Data.List.Nodup

/-!
# The key/value store

`createKvStore` keeps entries in one table, at most one row for a scope, a namespace and a key
(`idx_kv_identity`).  An entry may expire; its row stays until `sweepExpired` or a write takes it.

The table carries what the database keeps of it.  `JSON.stringify`, `JSON.parse`, the box the secrets
are kept in and the collation of `localeCompare` are parameters (`Runtime`).
-/

set_option autoImplicit false

namespace Enkaku.Kv

inductive KvScope where
  | global
  | device (stableId : String)
  deriving DecidableEq, Repr

/-- The columns a write sets. -/
structure KvWrite where
  value : String
  secret : Bool
  hint : Option String
  version : Nat
  expiresAt : Option ℤ
  updatedAt : ℤ
  updatedByJobId : Option String
  positive : 1 ≤ version
  deriving DecidableEq

/-- A row of `kv_entries`. -/
structure KvEntryRow where
  id : Nat
  scope : KvScope
  ns : String
  key : String
  columns : KvWrite
  deriving DecidableEq

namespace KvEntryRow

def version (r : KvEntryRow) : Nat := r.columns.version

/-- The columns of `idx_kv_identity`. -/
def identity (r : KvEntryRow) : KvScope × String × String := (r.scope, r.ns, r.key)

/-- `isExpired`. -/
def isExpired (now : ℤ) (r : KvEntryRow) : Bool := r.columns.expiresAt.any (· ≤ now)

end KvEntryRow

/-- The table.  `nextId` stands for `crypto.randomUUID`: it is the id of no row, now or before. -/
structure KvStore where
  rows : List KvEntryRow
  nextId : Nat
  identities : (rows.map (·.identity)).Nodup
  ids : (rows.map (·.id)).Nodup
  below : ∀ r ∈ rows, r.id < nextId

structure KvEntry where
  key : String
  value : Value
  secret : Bool
  hint : Option String
  version : Nat
  expiresAt : Option ℤ
  updatedAt : ℤ
  deriving DecidableEq

structure KvSetOptions where
  secret : Bool
  hint : Bool
  ttlSec : Option ℤ
  updatedByJobId : Option String
  deriving DecidableEq, Repr

/-- No options given. -/
def KvSetOptions.default : KvSetOptions := ⟨false, true, none, none⟩

structure KvListQuery where
  startsWith : Option String
  limit : Nat
  cursor : Option String
  deriving DecidableEq, Repr

structure Page where
  items : List KvEntry
  nextCursor : Option String
  deriving DecidableEq

structure KvNamespaceSummary where
  ns : String
  entries : Nat
  secrets : Nat
  deriving DecidableEq, Repr

structure KvQuotas where
  maxValueBytes : Nat
  maxKeyLength : Nat
  maxEntriesPerNamespace : Nat
  maxEntriesPerDevice : Nat
  deriving DecidableEq, Repr

/-- What the store throws, with what the text of it names. -/
inductive KvError where
  /-- `E_KV_KEY_INVALID`: too short or too long. -/
  | keyLength (maxKeyLength length : Nat)
  /-- `E_KV_KEY_INVALID`: a character outside the pattern. -/
  | keyCharacter (key : String)
  /-- `E_KV_VALUE_TOO_LARGE`. -/
  | valueTooLarge (bytes maxValueBytes : Nat)
  /-- `E_KV_QUOTA_EXCEEDED` of the namespace. -/
  | namespaceQuota (ns : String) (usage maxEntriesPerNamespace : Nat)
  /-- `E_KV_QUOTA_EXCEEDED` of the device. -/
  | deviceQuota (usage maxEntriesPerDevice : Nat)
  /-- `E_KV_NOT_NUMBER`. -/
  | notNumber (key : String)
  /-- The unique index refuses a row. -/
  | unique
  /-- The text of a row does not parse, or its box does not open. -/
  | corrupt
  deriving DecidableEq, Repr

namespace KvError

/-- The code of an `EnkakuError`; the last two are thrown by what the store calls. -/
def code : KvError → Option String
  | keyLength .. | keyCharacter .. => some "E_KV_KEY_INVALID"
  | valueTooLarge .. => some "E_KV_VALUE_TOO_LARGE"
  | namespaceQuota .. | deviceQuota .. => some "E_KV_QUOTA_EXCEEDED"
  | notNumber .. => some "E_KV_NOT_NUMBER"
  | unique | corrupt => none

def message : KvError → Option String
  | keyLength maxKeyLength length => some s!"key must be 1-{maxKeyLength} characters, got {length}"
  | keyCharacter key =>
    some s!"key \"{key}\" contains a character outside [A-Za-z0-9._:-] — no whitespace, no \"/\""
  | valueTooLarge bytes maxValueBytes =>
    some s!"value is {bytes} bytes, over the maxValueBytes limit of {maxValueBytes}"
  | namespaceQuota ns usage maxEntriesPerNamespace =>
    some (s!"namespace \"{ns}\" already has {usage} entries, at the maxEntriesPerNamespace limit of " ++
      s!"{maxEntriesPerNamespace}")
  | deviceQuota usage maxEntriesPerDevice =>
    some (s!"device already has {usage} kv entries, at the maxEntriesPerDevice limit of " ++
      s!"{maxEntriesPerDevice}")
  | notNumber key =>
    some s!"kv key \"{key}\" does not hold a number — increment refuses to overwrite it"
  | unique | corrupt => none

end KvError

/-- What the store takes from elsewhere. -/
structure Runtime where
  /-- `JSON.stringify(value ?? null)`. -/
  stringify : Value → String
  /-- `JSON.parse`. -/
  parse : String → Option Value
  /-- `encryptNamespacedSecret`. -/
  encrypt : String → String
  /-- `decryptNamespacedSecret`. -/
  decrypt : String → Option String
  localeCompare : String → String → Ordering

/-! ## The table -/

namespace KvStore

def empty : KvStore := ⟨[], 0, List.nodup_nil, List.nodup_nil, by simp⟩

/-- Deletes the rows that do not meet a condition. -/
def keep (s : KvStore) (p : KvEntryRow → Bool) : KvStore where
  rows := s.rows.filter p
  nextId := s.nextId
  identities := s.identities.sublist (List.filter_sublist.map _)
  ids := s.ids.sublist (List.filter_sublist.map _)
  below r hr := s.below r (List.mem_of_mem_filter hr)

/-- Sets the columns of a row. -/
def update (s : KvStore) (id : Nat) (w : KvWrite) : KvStore where
  rows := s.rows.map fun r ↦ if r.id = id then { r with columns := w } else r
  nextId := s.nextId
  identities := by
    have heq : (fun r : KvEntryRow ↦ (if r.id = id then { r with columns := w } else r).identity) =
        (·.identity) := by
      funext r
      split_ifs <;> rfl
    rw [List.map_map, Function.comp_def, heq]
    exact s.identities
  ids := by
    have heq : (fun r : KvEntryRow ↦ (if r.id = id then { r with columns := w } else r).id) =
        (·.id) := by
      funext r
      split_ifs <;> rfl
    rw [List.map_map, Function.comp_def, heq]
    exact s.ids
  below r hr := by
    obtain ⟨r', hr', rfl⟩ := List.mem_map.mp hr
    have hlt := s.below r' hr'
    split_ifs
    · exact hlt
    · exact hlt

/-- Inserts a row, unless the index refuses it. -/
def insert (s : KvStore) (scope : KvScope) (ns key : String) (w : KvWrite) : Except KvError KvStore :=
  if h : (scope, ns, key) ∈ s.rows.map (·.identity) then .error .unique
  else .ok {
    rows := s.rows ++ [⟨s.nextId, scope, ns, key, w⟩]
    nextId := s.nextId + 1
    identities := by
      rw [List.map_append]
      refine List.nodup_append.mpr ⟨s.identities, by simp, fun a ha b hb ↦ ?_⟩
      obtain rfl := List.mem_singleton.mp hb
      rintro rfl
      exact h ha
    ids := by
      rw [List.map_append]
      refine List.nodup_append.mpr ⟨s.ids, by simp, fun a ha b hb ↦ ?_⟩
      obtain rfl := List.mem_singleton.mp hb
      obtain ⟨r, hr, rfl⟩ := List.mem_map.mp ha
      exact Nat.ne_of_lt (s.below r hr)
    below := by
      intro r hr
      rcases List.mem_append.mp hr with hr | hr
      · exact Nat.lt_succ_of_lt (s.below r hr)
      · obtain rfl := List.mem_singleton.mp hr
        exact Nat.lt_succ_self _ }

/-- `getRow`. -/
def getRow (s : KvStore) (scope : KvScope) (ns key : String) : Option KvEntryRow :=
  s.rows.find? (·.identity = (scope, ns, key))

/-- `scanNamespace`. -/
def scanNamespace (s : KvStore) (scope : KvScope) (ns : String) : List KvEntryRow :=
  s.rows.filter fun r ↦ r.scope = scope ∧ r.ns = ns

/-- The rows `countDeviceEntries` counts. -/
def scanDevice (s : KvStore) (stableId : String) : List KvEntryRow :=
  s.rows.filter (·.scope = .device stableId)

/-- `sweepExpired`. -/
def sweepExpired (s : KvStore) (now : ℤ) : KvStore := s.keep fun r ↦ ¬ r.isExpired now

end KvStore

/-! ## What is written and read -/

/-- The length of a string in code units. -/
def lengthOf (s : String) : Nat := (s.toList.flatMap Utf16.units).length

/-- A character of `KEY_PATTERN`. -/
def isKeyChar (c : Char) : Bool :=
  (c.toNat < 128 ∧ c.isAlphanum) ∨ c = '.' ∨ c = '_' ∨ c = ':' ∨ c = '-'

/-- `assertValidKey`. -/
def assertValidKey (key : String) (maxKeyLength : Nat) : Except KvError Unit :=
  if lengthOf key = 0 ∨ lengthOf key > maxKeyLength then
    .error (.keyLength maxKeyLength (lengthOf key))
  else if key.toList.all isKeyChar then .ok ()
  else .error (.keyCharacter key)

/-- `encodeValue`. -/
def encodeValue (rt : Runtime) (value : Value) (maxValueBytes : Nat) : Except KvError String :=
  let json := rt.stringify value
  if json.utf8ByteSize > maxValueBytes then .error (.valueTooLarge json.utf8ByteSize maxValueBytes)
  else .ok json

/-- `secretHint`. -/
def secretHint (plaintext : String) : String :=
  let units := plaintext.toList.flatMap Utf16.units
  if units.length ≤ 8 then "••••"
  else String.ofList (Utf16.decode (units.take 7) ++ '…' :: Utf16.decode (units.drop (units.length - 4)))

/-- The text of a row. -/
def rawOf (rt : Runtime) (r : KvEntryRow) : Except KvError String :=
  if r.columns.secret then
    match rt.decrypt r.columns.value with
    | none => .error .corrupt
    | some raw => .ok raw
  else .ok r.columns.value

/-- `JSON.parse` of a text. -/
def parseOf (rt : Runtime) (raw : String) : Except KvError Value :=
  match rt.parse raw with
  | none => .error .corrupt
  | some value => .ok value

/-- An entry of these columns with this value. -/
def entryOf (key : String) (value : Value) (w : KvWrite) : KvEntry :=
  ⟨key, value, w.secret, w.hint, w.version, w.expiresAt, w.updatedAt⟩

/-- `rowToEntry`. -/
def rowToEntry (rt : Runtime) (r : KvEntryRow) : Except KvError KvEntry := do
  let raw ← rawOf rt r
  let value ← parseOf rt raw
  pure (entryOf r.key value r.columns)

/-- `rowToListEntry`. -/
def rowToListEntry (rt : Runtime) (r : KvEntryRow) : Except KvError KvEntry :=
  if r.columns.secret then .ok (entryOf r.key .null r.columns)
  else do
    let value ← parseOf rt r.columns.value
    pure (entryOf r.key value r.columns)

/-- The columns `writeRow` writes for this text. -/
def columnsOf (rt : Runtime) (now : ℤ) (json : String) (value : Value) (opts : KvSetOptions)
    (existing : Option KvEntryRow) : KvWrite where
  value := if opts.secret then rt.encrypt json else json
  secret := opts.secret
  hint :=
    if opts.secret ∧ opts.hint then
      some (secretHint (match value with | .str s => s | _ => json))
    else none
  version := (existing.map (·.version)).getD 0 + 1
  expiresAt := opts.ttlSec.map (now + ·)
  updatedAt := now
  updatedByJobId := opts.updatedByJobId
  positive := Nat.le_add_left 1 _

/-- The part of `writeRow` that looks at what is to be written. -/
def checkWrite (rt : Runtime) (q : KvQuotas) (key : String) (value : Value) : Except KvError String :=
  assertValidKey key q.maxKeyLength >>= fun _ ↦ encodeValue rt value q.maxValueBytes

/-- The part of `writeRow` that looks at what is there already. -/
def checkQuota (q : KvQuotas) (s : KvStore) (scope : KvScope) (ns : String) : Except KvError Unit :=
  let namespaceUsage := (s.scanNamespace scope ns).length
  if namespaceUsage + 1 > q.maxEntriesPerNamespace then
    .error (.namespaceQuota ns namespaceUsage q.maxEntriesPerNamespace)
  else match scope with
    | .global => .ok ()
    | .device stableId =>
      let deviceUsage := (s.scanDevice stableId).length
      if deviceUsage + 1 > q.maxEntriesPerDevice then
        .error (.deviceQuota deviceUsage q.maxEntriesPerDevice)
      else .ok ()

/-- `writeRow`. -/
def writeRow (rt : Runtime) (q : KvQuotas) (now : ℤ) (s : KvStore) (scope : KvScope)
    (ns key : String) (value : Value) (opts : KvSetOptions) (existing : Option KvEntryRow) :
    Except KvError (KvEntry × KvStore) := do
  let json ← checkWrite rt q key value
  let w := columnsOf rt now json value opts existing
  match existing with
  | none =>
    checkQuota q s scope ns
    let s' ← s.insert scope ns key w
    pure (entryOf key value w, s')
  | some r => pure (entryOf key value w, s.update r.id w)

/-! ## The operations -/

namespace KvStore

/-- `get`. -/
def get (rt : Runtime) (now : ℤ) (s : KvStore) (scope : KvScope) (ns key : String) :
    Except KvError (Option KvEntry) :=
  match s.getRow scope ns key with
  | none => .ok none
  | some r => if r.isExpired now then .ok none else (rowToEntry rt r).map some

/-- `set`. -/
def set (rt : Runtime) (q : KvQuotas) (now : ℤ) (s : KvStore) (scope : KvScope) (ns key : String)
    (value : Value) (opts : KvSetOptions) : Except KvError (KvEntry × KvStore) :=
  writeRow rt q now s scope ns key value opts (s.getRow scope ns key)

/-- `setIfVersion`. -/
def setIfVersion (rt : Runtime) (q : KvQuotas) (now : ℤ) (s : KvStore) (scope : KvScope)
    (ns key : String) (value : Value) (expectedVersion : Nat) (opts : KvSetOptions) :
    Except KvError (Option KvEntry × KvStore) :=
  match s.getRow scope ns key with
  | none => .ok (none, s)
  | some r =>
    if r.version ≠ expectedVersion then .ok (none, s)
    else (writeRow rt q now s scope ns key value opts (some r)).map fun p ↦ (some p.1, p.2)

/-- The number a live row holds. -/
def numberOf (rt : Runtime) (key : String) (r : KvEntryRow) : Except KvError ℚ := do
  let raw ← rawOf rt r
  let parsed ← parseOf rt raw
  match parsed with
  | .num current => pure current
  | _ => throw (.notNumber key)

/-- `increment`. -/
def increment (rt : Runtime) (q : KvQuotas) (now : ℤ) (s : KvStore) (scope : KvScope)
    (ns key : String) (by' : ℚ) : Except KvError (ℚ × KvStore) :=
  let treatedExisting := (s.getRow scope ns key).filter fun r ↦ ¬ r.isExpired now
  let current : Except KvError ℚ :=
    match treatedExisting with
    | none => .ok 0
    | some r => numberOf rt key r
  current >>= fun current ↦
    (writeRow rt q now s scope ns key (.num (current + by')) .default treatedExisting).map
      fun p ↦ (current + by', p.2)

/-- `delete`. -/
def delete (s : KvStore) (scope : KvScope) (ns key : String) (ifVersion : Option Nat) :
    Bool × KvStore :=
  match s.getRow scope ns key with
  | none => (false, s)
  | some r =>
    if ifVersion.any (· ≠ r.version) then (false, s)
    else (true, s.keep (·.id ≠ r.id))

/-- `list`. -/
def list (rt : Runtime) (now : ℤ) (s : KvStore) (scope : KvScope) (ns : String) (q : KvListQuery) :
    Except KvError Page :=
  let rows := (s.scanNamespace scope ns).filter fun r ↦ ¬ r.isExpired now
  let rows := rows.filter fun r ↦ q.startsWith.all fun p ↦ p.toList.isPrefixOf r.key.toList
  let rows := rows.mergeSort fun a b ↦ rt.localeCompare a.key b.key ≠ .gt
  let rows := rows.filter fun r ↦ q.cursor.all fun c ↦
    c.isEmpty ∨ c.toList.flatMap Utf16.units < r.key.toList.flatMap Utf16.units
  let limit := max 1 q.limit
  let page := rows.take limit
  let nextCursor := if rows.length > limit then page.getLast?.map (·.key) else none
  (page.mapM (rowToListEntry rt)).map fun items ↦ ⟨items, nextCursor⟩

/-- `namespaces`. -/
def namespaces (now : ℤ) (s : KvStore) (scope : KvScope) : List KvNamespaceSummary :=
  let rows := s.rows.filter fun r ↦ r.scope = scope ∧ ¬ r.isExpired now
  (((rows.map (·.ns)).dedup).mergeSort fun a b ↦ ¬ b < a).map fun ns ↦
    ⟨ns, (rows.filter (·.ns = ns)).length, (rows.filter fun r ↦ r.ns = ns ∧ r.columns.secret).length⟩

end KvStore

end Enkaku.Kv
