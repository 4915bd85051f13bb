import Enkaku.Lib.Utf8
import Enkaku.Workspace.Path

/-!
# The workspace store

`createWorkspaceStore`: a table of files, each with its bytes in the row (`inline`) or in a file of the
content driver that is named by their hash (`fs`).  Writing picks the driver by size and content type,
deleting unlinks a content file that no other row names, moving touches the row alone.  Listing and
searching read the rows.
-/

set_option autoImplicit false

namespace Enkaku.Workspace

open List

open Js (Text text unit)

/-- What the store takes from its platform: `normalize('NFC')`, the hash, `a.localeCompare(b) <= 0`, and
`new RegExp(pattern)` with its `test`, none for a pattern that it throws for. -/
structure Runtime where
  nfc : Text → Text
  sha256 : Bytes → Text
  localeLe : Text → Text → Bool
  regExp : Text → Option (String → Bool)

/-- A platform on plain text: a text in ASCII is its own normal form, and is compared by its code units; no
two contents have the same hash; a pattern without special characters matches where it stands. -/
def plainRuntime : Runtime where
  nfc := id
  sha256 content := content.map UInt8.toUInt16
  localeLe a b := decide (a.map UInt16.toNat ≤ b.map UInt16.toNat)
  regExp pattern := some fun line ↦ (line.toList.map unit).tails.any pattern.isPrefixOf

/-- `WorkspaceQuotas`. -/
structure WorkspaceQuotas where
  maxFileBytes : Nat
  maxFilesPerScope : Nat
  maxTotalBytesPerScope : Nat
  inlineMaxBytes : Option Nat
  deriving DecidableEq, Repr

/-- `DEFAULT_INLINE_MAX_BYTES`. -/
def defaultInlineMaxBytes : Nat := 65536

/-- `GREP_MAX_HITS`. -/
def grepMaxHits : Nat := 200

def isTextContentType (contentType : Text) : Bool :=
  (text "text/").isPrefixOf contentType || contentType = text "application/json" ||
    contentType = text "application/javascript" || contentType = text "application/typescript" ||
    (text "+json").isSuffixOf contentType || (text "+xml").isSuffixOf contentType

/-- The drivers that keep contents. -/
inductive Storage where
  | inline | fs
  deriving DecidableEq, Repr

/-- A row of `workspace_files`, with its times in seconds. -/
structure WorkspaceFileRow where
  id : Nat
  path : Text
  content : Bytes
  contentType : Text
  size : Nat
  hash : Text
  storage : Storage
  locator : Option Text
  createdBy : Option Text
  updatedBy : Option Text
  createdAt : Nat
  updatedAt : Nat
  deriving DecidableEq, Repr

/-- `WorkspaceFileMeta`. -/
structure WorkspaceFileMeta where
  path : Text
  contentType : Text
  size : Nat
  hash : Text
  createdBy : Option Text
  updatedBy : Option Text
  createdAt : Nat
  updatedAt : Nat
  deriving DecidableEq, Repr

inductive WorkspaceEntryKind where
  | file | dir
  deriving DecidableEq, Repr

/-- `WorkspaceListEntry`. -/
structure WorkspaceListEntry where
  path : Text
  kind : WorkspaceEntryKind
  size : Option Nat
  hash : Option Text
  updatedAt : Option Nat
  deriving DecidableEq, Repr

/-- `WorkspaceWriteInput`. -/
structure WorkspaceWriteInput where
  content : Bytes
  contentType : Option Text
  ifMatch : Option Text
  actor : Option Text
  deriving DecidableEq, Repr

/-- `WorkspaceGrepHit`. -/
structure WorkspaceGrepHit where
  path : Text
  line : Nat
  text : String
  deriving DecidableEq, Repr

/-- `WorkspaceGrepResult`. -/
structure WorkspaceGrepResult where
  hits : List WorkspaceGrepHit
  truncated : Bool
  deriving DecidableEq, Repr

def rowToMeta (row : WorkspaceFileRow) : WorkspaceFileMeta :=
  ⟨row.path, row.contentType, row.size, row.hash, row.createdBy, row.updatedBy, row.createdAt,
    row.updatedAt⟩

/-- The text between two quotes, in an error. -/
def quoted (t : Text) : Text := text "\"" ++ t ++ text "\""

/-- A number, in an error. -/
def digits (n : Nat) : Text := text (toString n)

def notFound (path : Text) : WorkspaceError := ⟨"E_NOT_FOUND", text "no such workspace file: " ++ path, none⟩

def tooLarge (path : Text) (size limit : Nat) : WorkspaceError :=
  ⟨"E_QUOTA", quoted path ++ text " is " ++ digits size ++ text " bytes, over the maxFileBytes limit of " ++
    digits limit ++ text " — raise \"workspace.maxFileBytes\" in Settings to allow larger files", none⟩

def notThereYet (path ifMatch : Text) : WorkspaceError :=
  ⟨"E_STALE", quoted path ++ text " does not exist yet — ifMatch (" ++ quoted ifMatch ++
    text ") only applies when overwriting an existing file", some (ifMatch, none)⟩

def tooManyFiles (scope : Text) (fileCount limit : Nat) : WorkspaceError :=
  ⟨"E_QUOTA", text "scope " ++ quoted scope ++ text " already has " ++ digits fileCount ++
    text " files, at the maxFilesPerScope limit of " ++ digits limit ++
    text " — raise \"workspace.maxFilesPerScope\" in Settings to allow more files", none⟩

/-- The bytes of a scope do not leave room; `what` would take it. -/
def tooManyBytes (scope : Text) (totalBytes : Nat) (what : Text) (limit : Nat) : WorkspaceError :=
  ⟨"E_QUOTA", text "scope " ++ quoted scope ++ text " already holds " ++ digits totalBytes ++
    text " bytes; this " ++ what ++ text " would exceed the maxTotalBytesPerScope limit of " ++ digits limit ++
    text " — raise \"workspace.maxTotalBytesPerScope\" in Settings to allow more", none⟩

def wouldHold (scope : Text) (newTotal : Int) (limit : Nat) : WorkspaceError :=
  ⟨"E_QUOTA", text "scope " ++ quoted scope ++ text " would hold " ++ text (toString newTotal) ++
    text " bytes, over the maxTotalBytesPerScope limit of " ++ digits limit ++
    text " — raise \"workspace.maxTotalBytesPerScope\" in Settings to allow more", none⟩

def alreadyThere (path hash : Text) : WorkspaceError :=
  ⟨"E_EXISTS", quoted path ++ text " already exists — pass ifMatch with its current hash (" ++ quoted hash ++
    text ") to overwrite it", none⟩

def stale (path expected actual : Text) : WorkspaceError :=
  ⟨"E_STALE", quoted path ++ text " changed since you read it (expected hash " ++ quoted expected ++
    text ", current hash " ++ quoted actual ++ text ")", some (expected, some actual)⟩

def targetTaken (path : Text) : WorkspaceError :=
  ⟨"E_EXISTS", quoted path ++ text " already exists — move refuses to overwrite it", none⟩

/-- The store: the table, and the content files by the hash that names them. -/
structure WorkspaceStore where
  rows : List WorkspaceFileRow
  blobs : Text → Option Bytes
  nextId : Nat

namespace WorkspaceStore

/-- A workspace without files. -/
def empty : WorkspaceStore := ⟨[], fun _ ↦ none, 0⟩

def getRow (s : WorkspaceStore) (path : Text) : Option WorkspaceFileRow := s.rows.find? (·.path = path)

def scanUnder (s : WorkspaceStore) (dir : Text) : List WorkspaceFileRow :=
  if dir = text "/" then s.rows else s.rows.filter fun row ↦ dir.isPrefixOf row.path

/-- `scopeUsage(scope).fileCount`. -/
def fileCount (s : WorkspaceStore) (scope : Text) : Nat := (s.scanUnder scope).length

/-- `scopeUsage(scope).totalBytes`. -/
def totalBytes (s : WorkspaceStore) (scope : Text) : Nat := ((s.scanUnder scope).map (·.size)).sum

def driverForWrite (size : Nat) (contentType : Text) (inlineMaxBytes : Nat) : Storage :=
  if size ≤ inlineMaxBytes ∧ isTextContentType contentType then .inline else .fs

/-- `put` of a driver: `inline` keeps nothing, `fs` keeps what is not there yet under the hash. -/
def put (s : WorkspaceStore) (content : Bytes) (hash : Text) : Storage → WorkspaceStore
  | .inline => s
  | .fs => if (s.blobs hash).isSome then s else { s with blobs := Function.update s.blobs hash (some content) }

/-- `bytesFor`: a content file that is not there is an error of the file system. -/
def bytesFor (s : WorkspaceStore) (row : WorkspaceFileRow) : Except WorkspaceError Bytes :=
  match row.storage with
  | .inline => .ok row.content
  | .fs =>
    match row.locator with
    | none => .error ⟨"E_INTERNAL", text "workspace row " ++ quoted row.path ++
        text " has storage \"fs\" but no locator", none⟩
    | some locator =>
      match s.blobs locator with
      | some bytes => .ok bytes
      | none => .error ⟨"ENOENT", text "no such file or directory", none⟩

/-- What a row holds of a content that this driver keeps. -/
def inRow (content : Bytes) : Storage → Bytes
  | .inline => content
  | .fs => []

/-- The locator of a content that this driver keeps. -/
def locatorOf (hash : Text) : Storage → Option Text
  | .inline => none
  | .fs => some hash

/-- The row of a new file; `now` is in milliseconds. -/
def newRow (rt : Runtime) (q : WorkspaceQuotas) (now id : Nat) (path : Text) (input : WorkspaceWriteInput) :
    WorkspaceFileRow :=
  let contentType := input.contentType.getD (text "text/plain")
  let hash := rt.sha256 input.content
  let driver := driverForWrite input.content.length contentType (q.inlineMaxBytes.getD defaultInlineMaxBytes)
  ⟨id, path, inRow input.content driver, contentType, input.content.length, hash, driver,
    locatorOf hash driver, input.actor, input.actor, now / 1000, now / 1000⟩

/-- The row of a file after it is overwritten. -/
def rewritten (rt : Runtime) (q : WorkspaceQuotas) (now : Nat) (input : WorkspaceWriteInput)
    (existing : WorkspaceFileRow) : WorkspaceFileRow :=
  let contentType := input.contentType.getD existing.contentType
  let hash := rt.sha256 input.content
  let driver := driverForWrite input.content.length contentType (q.inlineMaxBytes.getD defaultInlineMaxBytes)
  { existing with
    content := inRow input.content driver, contentType := contentType, size := input.content.length
    hash := hash, storage := driver, locator := locatorOf hash driver, updatedBy := input.actor
    updatedAt := now / 1000 }

/-- The row of a file after it is moved. -/
def relocated (now : Nat) (target : Text) (actor : Option Text) (source : WorkspaceFileRow) :
    WorkspaceFileRow :=
  { source with path := target, updatedBy := actor, updatedAt := now / 1000 }

/-- `update … where id = …`. -/
def updateRow (s : WorkspaceStore) (id : Nat) (f : WorkspaceFileRow → WorkspaceFileRow) : WorkspaceStore :=
  { s with rows := s.rows.map fun row ↦ if row.id = id then f row else row }

/-- `delete … where id = …`. -/
def deleteRow (s : WorkspaceStore) (id : Nat) : WorkspaceStore :=
  { s with rows := s.rows.filter (·.id ≠ id) }

variable (rt : Runtime)

def read (s : WorkspaceStore) (pathRaw : Text) : Except WorkspaceError (WorkspaceFileMeta × Bytes) :=
  match normaliseWorkspacePath rt.nfc pathRaw with
  | .error err => .error err
  | .ok path =>
    match s.getRow path with
    | none => .error (notFound path)
    | some row => (s.bytesFor row).map fun content ↦ (rowToMeta row, content)

/-- The table with a new row, after the content is put. -/
def insert (s : WorkspaceStore) (q : WorkspaceQuotas) (now : Nat) (path : Text)
    (input : WorkspaceWriteInput) : WorkspaceStore :=
  let row := newRow rt q now s.nextId path input
  { s.put input.content row.hash row.storage with rows := s.rows ++ [row], nextId := s.nextId + 1 }

/-- `write` of a path that is not there. -/
def create (s : WorkspaceStore) (q : WorkspaceQuotas) (now : Nat) (path : Text)
    (input : WorkspaceWriteInput) : Except WorkspaceError WorkspaceFileMeta × WorkspaceStore :=
  match input.ifMatch with
  | some ifMatch => (.error (notThereYet path ifMatch), s)
  | none =>
    let scope := scopeOfPath path
    if q.maxFilesPerScope < s.fileCount scope + 1 then
      (.error (tooManyFiles scope (s.fileCount scope) q.maxFilesPerScope), s)
    else if q.maxTotalBytesPerScope < s.totalBytes scope + input.content.length then
      (.error (tooManyBytes scope (s.totalBytes scope) (text "write") q.maxTotalBytesPerScope), s)
    else (.ok (rowToMeta (newRow rt q now s.nextId path input)), s.insert rt q now path input)

/-- The table with a row written anew, after the content is put. -/
def rewrite (s : WorkspaceStore) (q : WorkspaceQuotas) (now : Nat) (existing : WorkspaceFileRow)
    (input : WorkspaceWriteInput) : WorkspaceStore :=
  let row := rewritten rt q now input existing
  (s.put input.content row.hash row.storage).updateRow existing.id (rewritten rt q now input)

/-- `write` of a path that is there. -/
def overwrite (s : WorkspaceStore) (q : WorkspaceQuotas) (now : Nat) (existing : WorkspaceFileRow)
    (input : WorkspaceWriteInput) : Except WorkspaceError WorkspaceFileMeta × WorkspaceStore :=
  match input.ifMatch with
  | none => (.error (alreadyThere existing.path existing.hash), s)
  | some ifMatch =>
    if ifMatch ≠ existing.hash then (.error (stale existing.path ifMatch existing.hash), s)
    else
      let scope := scopeOfPath existing.path
      -- Signed: a file that is named like its scope is not among what is counted for it.
      let newTotal : Int := s.totalBytes scope - existing.size + input.content.length
      if q.maxTotalBytesPerScope < newTotal then
        (.error (wouldHold scope newTotal q.maxTotalBytesPerScope), s)
      else (.ok (rowToMeta (rewritten rt q now input existing)), s.rewrite rt q now existing input)

def write (s : WorkspaceStore) (q : WorkspaceQuotas) (now : Nat) (pathRaw : Text)
    (input : WorkspaceWriteInput) : Except WorkspaceError WorkspaceFileMeta × WorkspaceStore :=
  match normaliseWorkspacePath rt.nfc pathRaw with
  | .error err => (.error err, s)
  | .ok path =>
    if q.maxFileBytes < input.content.length then
      (.error (tooLarge path input.content.length q.maxFileBytes), s)
    else
      match s.getRow path with
      | none => s.create rt q now path input
      | some existing => s.overwrite rt q now existing input

/-- The content file of a row that is gone is unlinked, unless another row names it or unlinking fails. -/
def unlink (s : WorkspaceStore) (gone : WorkspaceFileRow) (unlinks : Bool) : WorkspaceStore :=
  match gone.storage, gone.locator with
  | .fs, some locator =>
    if s.rows.any fun row ↦ row.storage = .fs ∧ row.locator = some locator then s
    else if unlinks then { s with blobs := Function.update s.blobs locator none }
    else s
  | _, _ => s

def delete (s : WorkspaceStore) (pathRaw : Text) (ifMatch : Option Text) (unlinks : Bool) :
    Except WorkspaceError Unit × WorkspaceStore :=
  match normaliseWorkspacePath rt.nfc pathRaw with
  | .error err => (.error err, s)
  | .ok path =>
    match s.getRow path with
    | none => (.error (notFound path), s)
    | some existing =>
      match ifMatch.filter (· ≠ existing.hash) with
      | some expected => (.error (stale path expected existing.hash), s)
      | none =>
        (.ok (), (s.deleteRow existing.id).unlink existing unlinks)

/-- `move`. -/
def moveFile (s : WorkspaceStore) (q : WorkspaceQuotas) (now : Nat) (fromRaw toRaw ifMatch : Text)
    (actor : Option Text) : Except WorkspaceError WorkspaceFileMeta × WorkspaceStore :=
  match normaliseWorkspacePath rt.nfc fromRaw with
  | .error err => (.error err, s)
  | .ok source =>
    match normaliseWorkspacePath rt.nfc toRaw with
    | .error err => (.error err, s)
    | .ok target =>
      match s.getRow source with
      | none => (.error (notFound source), s)
      | some row =>
        if ifMatch ≠ row.hash then (.error (stale source ifMatch row.hash), s)
        else if (s.getRow target).isSome then (.error (targetTaken target), s)
        else
          let destScope := scopeOfPath target
          if destScope ≠ scopeOfPath source ∧ q.maxFilesPerScope < s.fileCount destScope + 1 then
            (.error (tooManyFiles destScope (s.fileCount destScope) q.maxFilesPerScope), s)
          else if destScope ≠ scopeOfPath source ∧
              q.maxTotalBytesPerScope < s.totalBytes destScope + row.size then
            (.error (tooManyBytes destScope (s.totalBytes destScope) (text "move")
              q.maxTotalBytesPerScope), s)
          else
            (.ok (rowToMeta (relocated now target actor row)),
              s.updateRow row.id (relocated now target actor))

/-- The loop of `list`. -/
def childrenOf (dir : Text) (rows : List WorkspaceFileRow) : List (Text × WorkspaceListEntry) :=
  rows.foldl (fun byChild row ↦
    let rest := row.path.drop dir.length
    if unit '/' ∉ rest then
      OrdMap.set row.path ⟨row.path, .file, some row.size, some row.hash, some row.updatedAt⟩ byChild
    else
      let dirPath := dir ++ rest.takeWhile (· ≠ unit '/') ++ text "/"
      if (OrdMap.get? dirPath byChild).isSome then byChild
      else OrdMap.set dirPath ⟨dirPath, .dir, none, none, none⟩ byChild) []

/-- What `list` has for a row: the file itself, or the directory that it is further down in. -/
def childOf (dir : Text) (row : WorkspaceFileRow) : WorkspaceListEntry :=
  let rest := row.path.drop dir.length
  if unit '/' ∉ rest then ⟨row.path, .file, some row.size, some row.hash, some row.updatedAt⟩
  else ⟨dir ++ rest.takeWhile (· ≠ unit '/') ++ text "/", .dir, none, none, none⟩

omit rt in
theorem childrenOf_concat (dir : Text) (rows : List WorkspaceFileRow) (row : WorkspaceFileRow) :
    childrenOf dir (rows ++ [row]) =
      if (childOf dir row).kind = .dir ∧ (OrdMap.get? (childOf dir row).path (childrenOf dir rows)).isSome then
        childrenOf dir rows
      else OrdMap.set (childOf dir row).path (childOf dir row) (childrenOf dir rows) := by
  rw [childrenOf, foldl_append, foldl_cons, foldl_nil, ← childrenOf]
  by_cases hrest : unit '/' ∉ row.path.drop dir.length <;> simp [childOf, hrest]

omit rt in
theorem exists_of_mem_childrenOf {dir : Text} {rows : List WorkspaceFileRow} {p : Text × WorkspaceListEntry}
    (h : p ∈ childrenOf dir rows) : ∃ row ∈ rows, p = ((childOf dir row).path, childOf dir row) := by
  induction rows using List.reverseRecOn with
  | nil => cases h
  | append_singleton rows row ih =>
    have hearlier : p ∈ childrenOf dir rows →
        ∃ other ∈ rows ++ [row], p = ((childOf dir other).path, childOf dir other) :=
      fun hmem ↦ (ih hmem).imp fun other hother ↦ ⟨mem_append_left _ hother.1, hother.2⟩
    rw [childrenOf_concat] at h
    split_ifs at h
    · exact hearlier h
    · rcases OrdMap.mem_of_mem_set h with hp | hmem
      · exact ⟨row, by simp, hp⟩
      · exact hearlier hmem

def list (s : WorkspaceStore) (prefixRaw : Text) : Except WorkspaceError (List WorkspaceListEntry) :=
  match normaliseScopePrefix rt.nfc prefixRaw with
  | .error err => .error err
  | .ok dir => .ok (((childrenOf dir (s.scanUnder dir)).map (·.2)).insertionSort
      fun a b ↦ rt.localeLe a.path b.path = true)

/-- The lines of a text. -/
def linesOf (t : String) : List String := (t.toList.splitOn '\n').map String.ofList

/-- The loop of `grep` over the lines of a row, from the line of this number on. -/
def grepLines (test : String → Bool) (path : Text) : Nat → List String → List WorkspaceGrepHit →
    List WorkspaceGrepHit × Bool
  | _, [], hits => (hits, false)
  | line, t :: rest, hits =>
    if ¬ test t then grepLines test path (line + 1) rest hits
    else if grepMaxHits ≤ hits.length then (hits, true)
    else grepLines test path (line + 1) rest (hits ++ [⟨path, line, t⟩])

/-- The loop of `grep` over the rows. -/
def grepRows (test : String → Bool) : List WorkspaceFileRow → List WorkspaceGrepHit →
    WorkspaceGrepResult
  | [], hits => ⟨hits, false⟩
  | row :: rest, hits =>
    match grepLines test row.path 1 (linesOf (Utf8.decode row.content)) hits with
    | (hits, true) => ⟨hits, true⟩
    | (hits, false) => grepRows test rest hits

def grep (s : WorkspaceStore) (prefixRaw pattern : Text) : Except WorkspaceError WorkspaceGrepResult :=
  match normaliseScopePrefix rt.nfc prefixRaw with
  | .error err => .error err
  | .ok dir =>
    match rt.regExp pattern with
    | none => .ok ⟨[], false⟩
    | some test => .ok (grepRows test
        ((s.scanUnder dir).insertionSort fun a b ↦ rt.localeLe a.path b.path = true) [])

/-! ## Calls -/

/-- A call that writes. -/
inductive Call where
  | write (path : Text) (input : WorkspaceWriteInput)
  | delete (path : Text) (ifMatch : Option Text)
  | move (source target ifMatch : Text) (actor : Option Text)

/-- A call, with the quotas and the clock at that moment, and whether the file system lets a file be
unlinked. -/
structure Request where
  call : Call
  quotas : WorkspaceQuotas
  now : Nat
  unlinks : Bool

/-- One call: whether it is refused, and what it leaves. -/
def exec (s : WorkspaceStore) (r : Request) : Except WorkspaceError Unit × WorkspaceStore :=
  match r.call with
  | .write path input => ((s.write rt r.quotas r.now path input).1.map fun _ ↦ (),
      (s.write rt r.quotas r.now path input).2)
  | .delete path ifMatch => s.delete rt path ifMatch r.unlinks
  | .move source target ifMatch actor =>
    ((s.moveFile rt r.quotas r.now source target ifMatch actor).1.map fun _ ↦ (),
      (s.moveFile rt r.quotas r.now source target ifMatch actor).2)

/-- What a call does that is not refused. -/
inductive Changed (s : WorkspaceStore) (r : Request) : WorkspaceStore → Prop
  | created {pathRaw path : Text} {input : WorkspaceWriteInput} (hcall : r.call = .write pathRaw input)
      (hpath : normaliseWorkspacePath rt.nfc pathRaw = .ok path) (hnew : s.getRow path = none)
      (hifMatch : input.ifMatch = none)
      (hfiles : s.fileCount (scopeOfPath path) + 1 ≤ r.quotas.maxFilesPerScope)
      (hbytes : s.totalBytes (scopeOfPath path) + input.content.length ≤ r.quotas.maxTotalBytesPerScope) :
      Changed s r (s.insert rt r.quotas r.now path input)
  | overwritten {pathRaw path : Text} {input : WorkspaceWriteInput} {existing : WorkspaceFileRow}
      (hcall : r.call = .write pathRaw input)
      (hpath : normaliseWorkspacePath rt.nfc pathRaw = .ok path) (hrow : s.getRow path = some existing)
      (hifMatch : input.ifMatch = some existing.hash)
      (hbytes : (s.totalBytes (scopeOfPath path) : Int) - existing.size + input.content.length ≤
        r.quotas.maxTotalBytesPerScope) :
      Changed s r (s.rewrite rt r.quotas r.now existing input)
  | deleted {pathRaw path : Text} {ifMatch : Option Text} {existing : WorkspaceFileRow}
      (hcall : r.call = .delete pathRaw ifMatch)
      (hpath : normaliseWorkspacePath rt.nfc pathRaw = .ok path) (hrow : s.getRow path = some existing)
      (hifMatch : ∀ expected ∈ ifMatch, expected = existing.hash) :
      Changed s r ((s.deleteRow existing.id).unlink existing r.unlinks)
  | moved {sourceRaw targetRaw source target ifMatch : Text} {actor : Option Text}
      {row : WorkspaceFileRow} (hcall : r.call = .move sourceRaw targetRaw ifMatch actor)
      (hsource : normaliseWorkspacePath rt.nfc sourceRaw = .ok source)
      (htarget : normaliseWorkspacePath rt.nfc targetRaw = .ok target)
      (hrow : s.getRow source = some row) (hifMatch : ifMatch = row.hash) (hfree : s.getRow target = none)
      (hquota : scopeOfPath target ≠ scopeOfPath source →
        s.fileCount (scopeOfPath target) + 1 ≤ r.quotas.maxFilesPerScope ∧
          s.totalBytes (scopeOfPath target) + row.size ≤ r.quotas.maxTotalBytesPerScope) :
      Changed s r (s.updateRow row.id (relocated r.now target actor))

variable {rt : Runtime} {s : WorkspaceStore} {r : Request}

variable {row : WorkspaceFileRow} {path : Text}

theorem path_of_getRow (h : s.getRow path = some row) : row.path = path := by
  simpa using find?_some h

/-- A call is refused and changes nothing, or it does what it is there for. -/
theorem exec_cases (rt : Runtime) (s : WorkspaceStore) (r : Request) :
    (∃ err, s.exec rt r = (.error err, s)) ∨
      ∃ s', s.exec rt r = (.ok (), s') ∧ Changed rt s r s' := by
  rw [exec]
  cases hcall : r.call with
  | write pathRaw input =>
    simp only [write]
    cases hpath : normaliseWorkspacePath rt.nfc pathRaw with
    | error err => exact .inl ⟨err, rfl⟩
    | ok path =>
      simp only
      by_cases hlarge : r.quotas.maxFileBytes < input.content.length
      · rw [if_pos hlarge]
        exact .inl ⟨_, rfl⟩
      · rw [if_neg hlarge]
        cases hrow : s.getRow path with
        | none =>
          simp only [create]
          cases hifMatch : input.ifMatch with
          | some ifMatch => exact .inl ⟨_, rfl⟩
          | none =>
            simp only
            split_ifs with hfiles hbytes
            · exact .inl ⟨_, rfl⟩
            · exact .inl ⟨_, rfl⟩
            · exact .inr ⟨_, rfl, .created hcall hpath hrow hifMatch (Nat.not_lt.mp hfiles)
                (Nat.not_lt.mp hbytes)⟩
        | some existing =>
          simp only [overwrite]
          cases hifMatch : input.ifMatch with
          | none => exact .inl ⟨_, rfl⟩
          | some ifMatch =>
            simp only
            split_ifs with hstale hbytes
            · exact .inl ⟨_, rfl⟩
            · exact .inl ⟨_, rfl⟩
            · rw [not_not] at hstale
              rw [path_of_getRow hrow, Int.not_lt] at hbytes
              exact .inr ⟨_, rfl, .overwritten hcall hpath hrow (hstale ▸ hifMatch) hbytes⟩
  | delete pathRaw ifMatch =>
    simp only [delete]
    cases hpath : normaliseWorkspacePath rt.nfc pathRaw with
    | error err => exact .inl ⟨err, rfl⟩
    | ok path =>
      simp only
      cases hrow : s.getRow path with
      | none => exact .inl ⟨_, rfl⟩
      | some existing =>
        simp only
        cases hstale : ifMatch.filter (· ≠ existing.hash) with
        | some expected => exact .inl ⟨_, rfl⟩
        | none =>
          refine .inr ⟨_, rfl, .deleted hcall hpath hrow fun expected hexpected ↦ ?_⟩
          simpa using Option.filter_eq_none_iff.mp hstale expected hexpected
  | move sourceRaw targetRaw ifMatch actor =>
    simp only [moveFile]
    cases hsource : normaliseWorkspacePath rt.nfc sourceRaw with
    | error err => exact .inl ⟨err, rfl⟩
    | ok source =>
      simp only
      cases htarget : normaliseWorkspacePath rt.nfc targetRaw with
      | error err => exact .inl ⟨err, rfl⟩
      | ok target =>
        simp only
        cases hrow : s.getRow source with
        | none => exact .inl ⟨_, rfl⟩
        | some row =>
          simp only
          split_ifs with hstale htaken hfiles hbytes
          · exact .inl ⟨_, rfl⟩
          · exact .inl ⟨_, rfl⟩
          · exact .inl ⟨_, rfl⟩
          · exact .inl ⟨_, rfl⟩
          · refine .inr ⟨_, rfl, .moved hcall hsource htarget hrow (not_not.mp hstale) ?_ fun hne ↦ ?_⟩
            · simpa using htaken
            · exact ⟨Nat.not_lt.mp fun h ↦ hfiles ⟨hne, h⟩, Nat.not_lt.mp fun h ↦ hbytes ⟨hne, h⟩⟩

/-! ## The table -/

@[simp] theorem put_rows (s : WorkspaceStore) (content : Bytes) (hash : Text) (driver : Storage) :
    (s.put content hash driver).rows = s.rows := by
  cases driver with
  | inline => rfl
  | fs =>
    rw [put]
    split_ifs <;> rfl

@[simp] theorem put_nextId (s : WorkspaceStore) (content : Bytes) (hash : Text) (driver : Storage) :
    (s.put content hash driver).nextId = s.nextId := by
  cases driver with
  | inline => rfl
  | fs =>
    rw [put]
    split_ifs <;> rfl

@[simp] theorem unlink_rows (s : WorkspaceStore) (gone : WorkspaceFileRow) (unlinks : Bool) :
    (s.unlink gone unlinks).rows = s.rows := by
  rw [unlink]
  split
  · split_ifs <;> rfl
  · rfl

@[simp] theorem unlink_nextId (s : WorkspaceStore) (gone : WorkspaceFileRow) (unlinks : Bool) :
    (s.unlink gone unlinks).nextId = s.nextId := by
  rw [unlink]
  split
  · split_ifs <;> rfl
  · rfl

theorem insert_rows (rt : Runtime) (s : WorkspaceStore) (q : WorkspaceQuotas) (now : Nat) (path : Text)
    (input : WorkspaceWriteInput) :
    (s.insert rt q now path input).rows = s.rows ++ [newRow rt q now s.nextId path input] := rfl

theorem rewrite_rows (rt : Runtime) (s : WorkspaceStore) (q : WorkspaceQuotas) (now : Nat)
    (existing : WorkspaceFileRow) (input : WorkspaceWriteInput) :
    (s.rewrite rt q now existing input).rows = (s.updateRow existing.id (rewritten rt q now input)).rows := by
  simp [rewrite, updateRow]

/-- The rows have an id and a path of their own, and each path names something. -/
structure Keyed (s : WorkspaceStore) : Prop where
  ids : (s.rows.map (·.id)).Nodup
  below : ∀ row ∈ s.rows, row.id < s.nextId
  paths : (s.rows.map (·.path)).Nodup
  named : ∀ row ∈ s.rows, ∃ names, Names row.path names

theorem keyed_empty : Keyed empty := by
  refine ⟨?_, ?_, ?_, ?_⟩ <;> simp [empty]

theorem mem_of_getRow (h : s.getRow path = some row) : row ∈ s.rows :=
  mem_of_find?_eq_some h

theorem not_mem_of_getRow (h : s.getRow path = none) : path ∉ s.rows.map (·.path) := by
  intro hmem
  obtain ⟨row, hrow, heq⟩ := mem_map.mp hmem
  exact absurd heq (by simpa using find?_eq_none.mp h row hrow)

/-- A row, and the others. -/
theorem Keyed.perm (hk : Keyed s) (hrow : row ∈ s.rows) :
    s.rows.Perm (row :: (s.deleteRow row.id).rows) := by
  have hnodup := List.Nodup.of_map _ hk.ids
  have herase : s.rows.erase row = (s.deleteRow row.id).rows := by
    rw [hnodup.erase_eq_filter, deleteRow]
    refine filter_congr fun other hother ↦ ?_
    by_cases heq : other = row
    · simp [heq]
    · have hne : other.id ≠ row.id := fun h ↦ heq (inj_on_of_nodup_map hk.ids hother hrow h)
      simp [heq, hne]
  exact herase ▸ perm_cons_erase hrow

/-- Updating a row leaves the others. -/
theorem Keyed.perm_update (hk : Keyed s) (hrow : row ∈ s.rows)
    (f : WorkspaceFileRow → WorkspaceFileRow) :
    (s.updateRow row.id f).rows.Perm (f row :: (s.deleteRow row.id).rows) := by
  have hmap := (hk.perm hrow).map fun other ↦ if other.id = row.id then f other else other
  rw [map_cons, if_pos rfl] at hmap
  have hothers : (s.deleteRow row.id).rows.map (fun other ↦ if other.id = row.id then f other else other) =
      (s.deleteRow row.id).rows := by
    rw [map_congr_left (g := id), map_id]
    intro other hother
    exact if_neg (of_decide_eq_true (mem_filter.mp hother).2)
  rw [hothers] at hmap
  exact hmap

theorem deleteRow_sublist (s : WorkspaceStore) (id : Nat) : (s.deleteRow id).rows.Sublist s.rows :=
  filter_sublist

theorem names_of_normalise {raw : Text} (h : normaliseWorkspacePath rt.nfc raw = .ok path) :
    ∃ names, Names path names := by
  obtain ⟨-, -, -, names, hnames, -⟩ := normalised_iff.mp h
  exact ⟨names, hnames⟩

/-- A row keeps its id, and its path is one that no other row has. -/
theorem Keyed.update (hk : Keyed s) (hrow : row ∈ s.rows)
    {f : WorkspaceFileRow → WorkspaceFileRow} (hid : (f row).id = row.id)
    (hpath : (f row).path ∉ (s.deleteRow row.id).rows.map (·.path))
    (hnames : ∃ names, Names (f row).path names) : Keyed (s.updateRow row.id f) := by
  have hperm := hk.perm_update hrow f
  have hothers := deleteRow_sublist s row.id
  have hids : ((f row :: (s.deleteRow row.id).rows).map (·.id)).Nodup := by
    rw [map_cons, hid, ← map_cons, ((hk.perm hrow).map _).nodup_iff.symm]
    exact hk.ids
  refine ⟨(hperm.map _).nodup_iff.mpr hids, fun other hother ↦ ?_, (hperm.map _).nodup_iff.mpr ?_,
    fun other hother ↦ ?_⟩
  · rcases mem_cons.mp (hperm.mem_iff.mp hother) with rfl | hother
    · exact hid ▸ hk.below row hrow
    · exact hk.below other (hothers.subset hother)
  · exact nodup_cons.mpr ⟨hpath, hk.paths.sublist (hothers.map _)⟩
  · rcases mem_cons.mp (hperm.mem_iff.mp hother) with rfl | hother
    · exact hnames
    · exact hk.named other (hothers.subset hother)

/-- No other row has the path of a row. -/
theorem Keyed.path_not_mem (hk : Keyed s) (hrow : row ∈ s.rows) :
    row.path ∉ (s.deleteRow row.id).rows.map (·.path) := by
  have hnodup := ((hk.perm hrow).map (·.path)).nodup_iff.mp hk.paths
  exact (nodup_cons.mp hnodup).1

theorem Keyed.changed (hk : Keyed s) {s' : WorkspaceStore} (h : Changed rt s r s') : Keyed s' := by
  cases h with
  | @created pathRaw path input hcall hpath hnew hifMatch hfiles hbytes =>
    have hrows := insert_rows rt s r.quotas r.now path input
    have hfresh : s.nextId ∉ s.rows.map (·.id) := by
      intro hmem
      obtain ⟨row, hrow, heq⟩ := mem_map.mp hmem
      exact absurd heq (Nat.ne_of_lt (hk.below row hrow))
    refine ⟨?_, fun row hrow ↦ ?_, ?_, fun row hrow ↦ ?_⟩
    · rw [hrows, map_append]
      exact (perm_append_singleton _ _).nodup_iff.mpr (nodup_cons.mpr ⟨hfresh, hk.ids⟩)
    · show row.id < s.nextId + 1
      rcases mem_append.mp (hrows ▸ hrow) with hrow | hrow
      · exact Nat.lt_succ_of_lt (hk.below row hrow)
      · rw [mem_singleton.mp hrow]
        exact Nat.lt_succ_self _
    · rw [hrows, map_append]
      exact (perm_append_singleton _ _).nodup_iff.mpr
        (nodup_cons.mpr ⟨not_mem_of_getRow hnew, hk.paths⟩)
    · rcases mem_append.mp (hrows ▸ hrow) with hrow | hrow
      · exact hk.named row hrow
      · rw [mem_singleton.mp hrow]
        exact names_of_normalise hpath
  | @overwritten pathRaw path input existing hcall hpath hrow hifMatch hbytes =>
    have hmem := mem_of_getRow hrow
    have hupdated := hk.update hmem (f := rewritten rt r.quotas r.now input) rfl (hk.path_not_mem hmem)
      (hk.named existing hmem)
    have hrows := rewrite_rows rt s r.quotas r.now existing input
    refine ⟨hrows ▸ hupdated.ids, fun row hrow ↦ ?_, hrows ▸ hupdated.paths, hrows ▸ hupdated.named⟩
    have hbelow := hupdated.below row (hrows ▸ hrow)
    rw [rewrite]
    simpa [updateRow] using hbelow
  | deleted hcall hpath hrow hifMatch =>
    have hothers := deleteRow_sublist s
    refine ⟨?_, fun row hrow ↦ ?_, ?_, fun row hrow ↦ ?_⟩
    · rw [unlink_rows]
      exact hk.ids.sublist ((hothers _).map _)
    · rw [unlink_rows] at hrow
      rw [unlink_nextId]
      exact hk.below row ((hothers _).subset hrow)
    · rw [unlink_rows]
      exact hk.paths.sublist ((hothers _).map _)
    · rw [unlink_rows] at hrow
      exact hk.named row ((hothers _).subset hrow)
  | moved hcall hsource htarget hrow hifMatch hfree hquota =>
    have hmem := mem_of_getRow hrow
    refine hk.update hmem rfl (fun htaken ↦ ?_) (names_of_normalise htarget)
    exact not_mem_of_getRow hfree (((deleteRow_sublist s _).map _).subset htaken)

/-- The step of a run: one call, refused or not. -/
def step (rt : Runtime) (s : WorkspaceStore) (r : Request) : Option WorkspaceStore := some (s.exec rt r).2

/-- What a call leaves: what was there, or what it changes. -/
theorem step_cases {s' : WorkspaceStore} (h : s.step rt r = some s') : s' = s ∨ Changed rt s r s' := by
  cases h
  rcases exec_cases rt s r with ⟨err, heq⟩ | ⟨s', heq, hchanged⟩
  · exact .inl (congrArg Prod.snd heq)
  · rw [heq]
    exact .inr hchanged

theorem Keyed.step (hk : Keyed s) {s' : WorkspaceStore} (h : s.step rt r = some s') : Keyed s' := by
  rcases step_cases h with rfl | hchanged
  · exact hk
  · exact hk.changed hchanged

end WorkspaceStore

end Enkaku.Workspace
