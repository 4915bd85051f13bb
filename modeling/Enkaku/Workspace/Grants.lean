import Enkaku.Lib.Steps
import Enkaku.Workspace.Store

/-!
# What a workspace grant covers

An agent is granted prefixes, as its owner typed them.  `validateWorkspaceScope` normalises them and throws
the result away: the strings are stored, intersected along the tree of a run, and compared with the string
that an operation is given, which the store normalises only afterwards.  `grants_cover_iff` says which grants
still cover no more than their directories: those that end in a slash, and those that name a path inside
the directory of another.
-/

set_option autoImplicit false

namespace Enkaku.Workspace

open List

open Js (Text text unit)

/-! ## Scopes -/

structure WorkspaceScope where
  read : List Text
  write : List Text
  deriving DecidableEq, Repr

def validateWorkspaceScope (nfc : Text → Text) (scope : WorkspaceScope) : Except WorkspaceError Unit :=
  match (scope.read ++ scope.write).findSome? fun grant ↦
      match normaliseScopePrefix nfc grant with
      | .error err => some err
      | .ok _ => none with
  | some err => .error err
  | none => .ok ()

def intersectPrefixList (child parent : List Text) : List Text :=
  (child.flatMap fun c ↦ parent.filterMap fun p ↦
    if pathWithinPrefix c p then some c else if pathWithinPrefix p c then some p else none).dedup

def intersectWorkspaceScope (child parent : WorkspaceScope) : WorkspaceScope :=
  ⟨intersectPrefixList child.read parent.read, intersectPrefixList child.write parent.write⟩

/-- The `workspaceScope` of `effectiveAuthorityForRun`, for an agent whose run has these above it. -/
def effectiveScope (own : WorkspaceScope) : List WorkspaceScope → WorkspaceScope
  | [] => own
  | parent :: parents => intersectWorkspaceScope own (effectiveScope parent parents)

/-- An agent that calls: with the agents of the runs above, if it is running. -/
structure Caller where
  actor : Option Text
  own : WorkspaceScope
  run : Option (List WorkspaceScope)

def Caller.workspaceScope (c : Caller) : WorkspaceScope :=
  match c.run with
  | none => c.own
  | some parents => effectiveScope c.own parents

/-! ## Operations -/

/-- A call of the store, with its paths as they are given. -/
inductive StoreCall where
  | read (path : Text)
  | change (call : WorkspaceStore.Call)
  | list (dir : Text)
  | grep (dir pattern : Text)

/-- The operations of `fs` and of `EnkakuVFS`, with contents as bytes. -/
inductive Operation where
  | fsList (dir : Text)
  | fsRead (path : Text)
  | fsWrite (path : Text) (content : Bytes) (contentType ifMatch : Option Text)
  | fsDelete (path : Text) (ifMatch : Option Text)
  | fsMove (source target ifMatch : Text)
  | fsGrep (dir pattern : Text)
  /-- `read`, `stat` and `exists`. -/
  | vfsRead (path : Text)
  | vfsWrite (path : Text) (content : Bytes)
  | vfsWriteIfVersion (path : Text) (content : Bytes) (expected : Text)
  | vfsDelete (path : Text)
  | vfsList
  | vfsGrep (pattern : Text)

/-- Whether the operation is one that writes. -/
def Operation.changes : Operation → Bool
  | .fsWrite .. | .fsDelete .. | .fsMove .. | .vfsWrite .. | .vfsWriteIfVersion .. | .vfsDelete .. => true
  | _ => false

/-- The prefixes that are granted for the operation. -/
def Operation.granted (op : Operation) (scope : WorkspaceScope) : List Text :=
  if op.changes then scope.write else scope.read

/-- `SKILLS_PREFIX`. -/
def skillsPrefix : Text := text "/skills/"

def outOfScope (path : Text) (reason : String) : WorkspaceError :=
  ⟨"E_OUT_OF_SCOPE", quoted path ++ text reason, none⟩

def assertInScope (path : Text) (prefixes : List Text) (reason : String) : Except WorkspaceError Unit :=
  if pathWithinAnyPrefix path prefixes then .ok () else .error (outOfScope path reason)

/-- `assertWritable`, of `fs` and of `EnkakuVFS`: with the reasons that each gives. -/
def assertWritable (c : Caller) (path : Text) (outside readOnly : String) : Except WorkspaceError Unit :=
  match assertInScope path c.workspaceScope.write outside with
  | .error err => .error err
  | .ok () =>
    if c.run.isSome ∧ pathWithinAnyPrefix path [skillsPrefix] then .error (outOfScope path readOnly)
    else .ok ()

namespace Fs

def assertReadable (c : Caller) (path : Text) : Except WorkspaceError Unit :=
  assertInScope path c.workspaceScope.read " is outside this caller's workspace scope"

def assertWritable (c : Caller) (path : Text) : Except WorkspaceError Unit :=
  Workspace.assertWritable c path " is outside this caller's workspace scope"
    (" is read-only to agents — skills are edited by a human through Studio, " ++
      "never by a running agent")

def actor (c : Caller) : Option Text := c.actor.map (text "user:" ++ ·)

end Fs

namespace EnkakuVFS

/-- `toAbsolute`, with the root `/`. -/
def toAbsolute (path : Text) : Text := if text "/" <+: path then path else text "/" ++ path

def assertReadable (c : Caller) (path : Text) : Except WorkspaceError Unit :=
  assertInScope path c.workspaceScope.read " is outside this VFS's read scope"

def assertWritable (c : Caller) (path : Text) : Except WorkspaceError Unit :=
  Workspace.assertWritable c path " is outside this VFS's write scope" " is read-only through this VFS"

def actor (c : Caller) : Option Text :=
  c.actor.map ((if c.run.isSome then text "agent:" else text "user:") ++ ·)

/-- `effectiveReadPrefixes`, with the root `/`. -/
def effectiveReadPrefixes (nfc : Text → Text) (c : Caller) : List Text :=
  (c.workspaceScope.read.filterMap fun grant ↦ (normaliseScopePrefix nfc grant).toOption).dedup

/-- `MAX_WRITE_RETRIES`. -/
def maxWriteRetries : Nat := 10

variable (rt : Runtime) (q : WorkspaceQuotas) (now : Nat)

/-- The loop of `write`: what it asks of the store in so many attempts. -/
def attempts (path : Text) (content : Bytes) (actor : Option Text) : Nat → WorkspaceStore → List StoreCall
  | 0, _ => []
  | n + 1, s =>
    let ask (ifMatch : Option Text) : List StoreCall :=
      let input : WorkspaceWriteInput := ⟨content, none, ifMatch, actor⟩
      .change (.write path input) ::
        match s.write rt q now path input with
        | (.ok _, _) => []
        | (.error err, s') =>
          if err.code = "E_STALE" ∨ err.code = "E_EXISTS" then attempts path content actor n s' else []
    match s.read rt path with
    | .ok (row, _) => .read path :: ask (some row.hash)
    | .error err => .read path :: if err.code = "E_NOT_FOUND" then ask none else []

/-- The loop of `list`; a path of 32 names is in no deeper directory than that. -/
def walk (s : WorkspaceStore) : Nat → Text → List StoreCall
  | 0, _ => []
  | depth + 1, dir => .list dir ::
    match s.list rt dir with
    | .error _ => []
    | .ok entries => entries.flatMap fun entry ↦ if entry.kind = .dir then walk s depth entry.path else []

end EnkakuVFS

/-- What an operation asks of the store. -/
def Caller.calls (rt : Runtime) (q : WorkspaceQuotas) (now : Nat) (s : WorkspaceStore) (c : Caller) :
    Operation → Except WorkspaceError (List StoreCall)
  | .fsList dir => (Fs.assertReadable c dir).map fun _ ↦ [.list dir]
  | .fsRead path => (Fs.assertReadable c path).map fun _ ↦ [.read path]
  | .fsWrite path content contentType ifMatch => (Fs.assertWritable c path).map fun _ ↦
    [.change (.write path ⟨content, contentType, ifMatch, Fs.actor c⟩)]
  | .fsDelete path ifMatch => (Fs.assertWritable c path).map fun _ ↦ [.change (.delete path ifMatch)]
  | .fsMove source target ifMatch => (Fs.assertWritable c source).bind fun _ ↦
    (Fs.assertWritable c target).map fun _ ↦ [.change (.move source target ifMatch (Fs.actor c))]
  | .fsGrep dir pattern => (Fs.assertReadable c dir).map fun _ ↦ [.grep dir pattern]
  | .vfsRead path =>
    (EnkakuVFS.assertReadable c (EnkakuVFS.toAbsolute path)).map fun _ ↦ [.read (EnkakuVFS.toAbsolute path)]
  | .vfsWrite path content =>
    (EnkakuVFS.assertWritable c (EnkakuVFS.toAbsolute path)).map fun _ ↦
      EnkakuVFS.attempts rt q now (EnkakuVFS.toAbsolute path) content (EnkakuVFS.actor c)
        EnkakuVFS.maxWriteRetries s
  | .vfsWriteIfVersion path content expected =>
    (EnkakuVFS.assertWritable c (EnkakuVFS.toAbsolute path)).map fun _ ↦
      [.change (.write (EnkakuVFS.toAbsolute path) ⟨content, none, some expected, EnkakuVFS.actor c⟩)]
  | .vfsDelete path =>
    (EnkakuVFS.assertWritable c (EnkakuVFS.toAbsolute path)).map fun _ ↦
      [.change (.delete (EnkakuVFS.toAbsolute path) none)]
  | .vfsList => .ok ((EnkakuVFS.effectiveReadPrefixes rt.nfc c).flatMap
      (EnkakuVFS.walk rt s (maxSegments + 1)))
  | .vfsGrep pattern => .ok ((EnkakuVFS.effectiveReadPrefixes rt.nfc c).map (.grep · pattern))

/-! ## What a call touches -/

/-- The paths that a call of the store is given. -/
def StoreCall.given : StoreCall → List Text
  | .read path => [path]
  | .change (.write path _) => [path]
  | .change (.delete path _) => [path]
  | .change (.move source target _ _) => [source, target]
  | .list dir => [dir]
  | .grep dir _ => [dir]

/-- The file is one that the call reads or changes. -/
def StoreCall.Touches (rt : Runtime) (s : WorkspaceStore) (call : StoreCall) (path : Text) : Prop :=
  ∃ raw ∈ call.given,
    match call with
    | .read _ | .change _ => normaliseWorkspacePath rt.nfc raw = .ok path
    | .list _ | .grep .. => ∃ dir, normaliseScopePrefix rt.nfc raw = .ok dir ∧
        ∃ row ∈ s.scanUnder dir, row.path = path

variable {s : WorkspaceStore}

open WorkspaceStore in
/-- A call leaves the files alone that it does not touch. -/
theorem mem_exec_of_not_touched {rt : Runtime} (hs : s.Keyed) (r : Request)
    {file : WorkspaceFileRow} (h : ¬ (StoreCall.change r.call).Touches rt s file.path) :
    file ∈ (s.exec rt r).2.rows ↔ file ∈ s.rows := by
  have hupdate : ∀ {row : WorkspaceFileRow} {f : WorkspaceFileRow → WorkspaceFileRow}, row ∈ s.rows →
      file ≠ row → file ≠ f row → (file ∈ (s.updateRow row.id f).rows ↔ file ∈ s.rows) := by
    intro row f hrow hne hne'
    rw [(hs.perm_update hrow f).mem_iff, (hs.perm hrow).mem_iff, mem_cons, mem_cons,
      or_iff_right hne, or_iff_right hne']
  have hother : ∀ {raw path : Text}, raw ∈ (StoreCall.change r.call).given →
      normaliseWorkspacePath rt.nfc raw = .ok path → file.path ≠ path := by
    rintro raw path hraw hpath rfl
    exact h ⟨raw, hraw, hpath⟩
  rcases exec_cases rt s r with ⟨err, heq⟩ | ⟨s', heq, hchanged⟩
  · rw [heq]
  · rw [heq]
    cases hchanged with
    | created hcall hpath =>
      have hne := hother (by rw [hcall]; exact .head _) hpath
      rw [insert_rows, mem_append, mem_singleton, or_iff_left]
      rintro rfl
      exact hne rfl
    | overwritten hcall hpath hrow =>
      have hne := hother (by rw [hcall]; exact .head _) hpath
      have hpathOf := path_of_getRow hrow
      rw [rewrite_rows]
      refine hupdate (mem_of_getRow hrow) ?_ ?_ <;> rintro rfl <;> exact hne hpathOf
    | deleted hcall hpath hrow =>
      have hne := hother (by rw [hcall]; exact .head _) hpath
      rw [unlink_rows, (hs.perm (mem_of_getRow hrow)).mem_iff, mem_cons, or_iff_right]
      rintro rfl
      exact hne (path_of_getRow hrow)
    | moved hcall hsource htarget hrow =>
      have hne := hother (by rw [hcall]; exact .head _) hsource
      have hne' := hother (by rw [hcall]; exact .tail _ (.head _)) htarget
      refine hupdate (mem_of_getRow hrow) ?_ ?_ <;> rintro rfl
      · exact hne (path_of_getRow hrow)
      · exact hne' rfl

open WorkspaceStore in
/-- **A file stays as it is** over a whole run, whose calls are given no path that normalises to its
own; and no two files ever have one path. -/
theorem file_untouched {rt : Runtime} {before after : List Request} {s s' : WorkspaceStore}
    (hs : Steps (Steps.By (WorkspaceStore.step rt)) .empty before s)
    (h : Steps (Steps.By (WorkspaceStore.step rt)) s after s') {file : WorkspaceFileRow}
    (hspared : ∀ r ∈ after, ∀ raw ∈ (StoreCall.change r.call).given,
      normaliseWorkspacePath rt.nfc raw ≠ .ok file.path) :
    s'.Keyed ∧ (file ∈ s'.rows ↔ file ∈ s.rows) := by
  have hkeyed := hs.invariant keyed_empty fun _ _ _ hk hstep ↦ hk.step hstep
  induction h with
  | nil => exact ⟨hkeyed, Iff.rfl⟩
  | snoc _ hstep ih =>
    obtain ⟨ht, hiff⟩ := ih fun r hr ↦ hspared r (mem_append_left _ hr)
    refine ⟨ht.step hstep, ?_⟩
    cases hstep
    rw [mem_exec_of_not_touched ht, hiff]
    rintro ⟨raw, hraw, hpath⟩
    exact hspared _ (mem_append_right _ (mem_singleton_self _)) raw hraw hpath

open WorkspaceStore in
/-- The first note stays when the second is written. -/
theorem file_untouched_notes : ∃ s s' : WorkspaceStore, s'.rows.length = 2 ∧
    ∃ file ∈ s.rows, s'.Keyed ∧ (file ∈ s'.rows ↔ file ∈ s.rows) := by
  let write (path : String) : Request := ⟨.write (text path) ⟨[], none, none, none⟩, ⟨9, 9, 9, none⟩, 0, true⟩
  refine ⟨_, _, ?_, _, .head _, @file_untouched plainRuntime [write "/a"] [write "/b"] _ _ (.single rfl)
    (.single rfl) _ fun r hr raw hraw ↦ ?_⟩
  · decide +kernel
  · obtain rfl : r = write "/b" := mem_singleton.mp hr
    rw [mem_singleton.mp hraw]
    decide

/-! ## Normal forms -/

/-- Normalising goes name by name: nothing composes with a slash or decomposes into one, and nothing else
is equivalent to `skills`. -/
structure IsNfc (nfc : Text → Text) : Prop where
  slash : ∀ before after, nfc (before ++ unit '/' :: after) = nfc before ++ unit '/' :: nfc after
  noSlash : ∀ t, unit '/' ∉ t → unit '/' ∉ nfc t
  eq_nil : ∀ t, nfc t = [] ↔ t = []
  skills : ∀ t, nfc t = text "skills" → t = text "skills"
  idem : ∀ t, nfc (nfc t) = nfc t

theorem isNfc_id : IsNfc id :=
  ⟨fun _ _ ↦ rfl, fun _ h ↦ h, fun _ ↦ Iff.rfl, fun _ h ↦ h, fun _ ↦ rfl⟩

variable {nfc : Text → Text}

/-- Where the normal form has a slash, the string has one. -/
theorem IsNfc.split (hnfc : IsNfc nfc) {t before after : Text} (h : nfc t = before ++ unit '/' :: after) :
    ∃ x y, t = x ++ unit '/' :: y ∧ nfc x = before ∧ nfc y = after := by
  induction hlen : t.length using Nat.strong_induction_on generalizing t before after with
  | _ n ih =>
    by_cases hslash : unit '/' ∈ t
    · obtain ⟨x, y, rfl, hx⟩ := eq_append_cons_of_mem hslash
      rw [hnfc.slash] at h
      rcases append_eq_append_iff.mp h with ⟨more, hbefore, hafter⟩ | ⟨more, hbefore, hafter⟩
      · cases more with
        | nil =>
          rw [nil_append, List.cons.injEq] at hafter
          rw [append_nil] at hbefore
          exact ⟨x, y, rfl, hbefore.symm, hafter.2⟩
        | cons u more =>
          rw [cons_append, List.cons.injEq] at hafter
          obtain ⟨rfl, hafter⟩ := hafter
          obtain ⟨x', y', rfl, hx', hy'⟩ := ih y.length (by simp at hlen; omega) hafter rfl
          refine ⟨x ++ unit '/' :: x', y', by simp, ?_, hy'⟩
          rw [hnfc.slash, hx', hbefore]
      · cases more with
        | nil =>
          rw [nil_append, List.cons.injEq] at hafter
          rw [append_nil] at hbefore
          exact ⟨x, y, rfl, hbefore, hafter.2.symm⟩
        | cons u more =>
          rw [cons_append, List.cons.injEq] at hafter
          refine absurd ?_ (hnfc.noSlash x hx)
          rw [hbefore, ← hafter.1]
          simp
    · refine absurd ?_ (hnfc.noSlash t hslash)
      rw [h]
      simp

/-! ## Directories -/

/-- The path lies inside the directory, name by name; a directory has a slash at its end. -/
def LiesInside (dir path : Text) : Prop :=
  (segments dir).dropLast <+: segments path ∧ (segments dir).dropLast.length < (segments path).length

/-- The path lies inside the directory that one of the grants names. -/
def Inside (nfc : Text → Text) (grants : List Text) (path : Text) : Prop :=
  ∃ grant ∈ grants, ∃ dir, normaliseScopePrefix nfc grant = .ok dir ∧ LiesInside dir path

variable {dir raw : Text}

/-- A prefix is the root, or a path of names with a slash at its end or without. -/
theorem scopePrefix_cases (h : normaliseScopePrefix nfc raw = .ok dir) :
    (raw = text "/" ∧ dir = text "/") ∨ ∃ path, (∃ names, Names (nfc path) names) ∧
      normaliseWorkspacePath nfc path = .ok (nfc path) ∧ dir = nfc path ++ text "/" ∧
      (raw = path ∧ raw.getLast? ≠ some (unit '/') ∨ raw = path ++ text "/") := by
  rw [normaliseScopePrefix] at h
  by_cases hroot : raw = text "/"
  · rw [if_pos hroot] at h
    exact .inl ⟨hroot, (Except.ok.inj h).symm⟩
  rw [if_neg hroot] at h
  simp only at h
  generalize hstrip : (if raw.getLast? = some (unit '/') then raw.dropLast else raw) = path at h
  split at h
  · cases h
  · rename_i found hpath
    obtain rfl : found = nfc path := (normalised_iff.mp hpath).2.1
    have hnames := (normalised_iff.mp hpath).2.2.2.imp fun names h ↦ h.1
    refine .inr ⟨path, hnames, hpath, (Except.ok.inj h).symm, ?_⟩
    by_cases hlast : raw.getLast? = some (unit '/')
    · rw [if_pos hlast] at hstrip
      exact .inr (hstrip ▸ (dropLast_append_getLast? _ hlast).symm)
    · rw [if_neg hlast] at hstrip
      exact .inl ⟨hstrip, hlast⟩

variable {path : Text}

/-- On normal forms, comparing the strings is comparing the names. -/
theorem liesInside_iff {names : List Text} (h : normaliseScopePrefix nfc raw = .ok dir)
    (hpath : Names path names) : LiesInside dir path ↔ pathWithinPrefix path dir = true := by
  rw [LiesInside, pathWithinPrefix, Bool.or_eq_true, decide_eq_true_iff, List.isPrefixOf_iff_prefix,
    hpath.segments]
  rcases scopePrefix_cases h with ⟨-, rfl⟩ | ⟨found, ⟨dirNames, hdir⟩, -, rfl, -⟩
  · have hroot : (segments (text "/")).dropLast = [] := by decide
    rw [hroot, length_nil]
    exact iff_of_true ⟨List.nil_prefix, length_pos_of_ne_nil hpath.ne_nil⟩ (.inl rfl)
  · have hslash := fun name hname ↦ (hdir.names name hname).noSlash
    have hlast : (segments (nfc found ++ text "/")).dropLast = dirNames := by
      have hjoin : nfc found ++ text "/" = join (dirNames ++ [[]]) := by
        rw [hdir.eq, join_append]
        rfl
      rw [hjoin, segments_join, dropLast_concat]
      intro name hname
      rcases mem_append.mp hname with hname | hname
      · exact hslash name hname
      · rw [mem_singleton.mp hname]
        exact not_mem_nil
    have hne : nfc found ++ text "/" ≠ text "/" := by
      rw [hdir.eq, join_eq_intercalate hdir.ne_nil]
      intro heq
      simpa [text] using congrArg List.length heq
    rw [hlast, or_iff_right hne]
    constructor
    · rintro ⟨⟨more, rfl⟩, hlen⟩
      cases more with
      | nil => simp at hlen
      | cons name more =>
        rw [hpath.eq, hdir.eq, join_append]
        exact ⟨name ++ join more, by simp [join, text, unit]⟩
    · rintro ⟨rest, hrest⟩
      have hparts : path = join (dirNames ++ rest.splitOn (unit '/')) := by
        rw [← hrest, hdir.eq, join_append, join_eq_intercalate (splitOn_ne_nil _ _), intercalate_splitOn]
        simp [text, unit]
      have hnames : names = dirNames ++ rest.splitOn (unit '/') := by
        rw [← hpath.segments, hparts, segments_join]
        intro name hname
        rcases mem_append.mp hname with hname | hname
        · exact hslash name hname
        · exact SplitOn.not_mem_of_mem_list_splitOn name hname
      rw [hnames]
      refine ⟨prefix_append _ _, ?_⟩
      rw [length_append]
      exact Nat.lt_add_of_pos_right (length_pos_of_ne_nil (splitOn_ne_nil _ _))

/-! ## The comparison of the strings -/

/-- What the comparison needs: a grant ends in a slash, or names a path inside the directory of a grant. -/
def Closed (nfc : Text → Text) (grants : List Text) : Prop :=
  ∀ grant ∈ grants, grant.getLast? = some (unit '/') ∨ Inside nfc grants (nfc grant)

/-- The string goes through the directory of a grant. -/
def Under (nfc : Text → Text) (grants : List Text) (raw : Text) : Prop :=
  ∃ grant ∈ grants, ∃ dir, normaliseScopePrefix nfc grant = .ok dir ∧
    (dir = text "/" ∨ ∃ x y, raw = x ++ unit '/' :: y ∧ dir = nfc x ++ text "/")

variable {grants : List Text}

theorem under_of_within (hnfc : IsNfc nfc)
    (haccepted : ∀ grant ∈ grants, ∃ dir, normaliseScopePrefix nfc grant = .ok dir)
    (hclosed : Closed nfc grants) (h : pathWithinAnyPrefix raw grants = true) :
    Under nfc grants raw := by
  obtain ⟨grant, hgrant, hwithin⟩ := any_eq_true.mp h
  obtain ⟨dir, hdir⟩ := haccepted grant hgrant
  rw [pathWithinPrefix, Bool.or_eq_true, decide_eq_true_iff, List.isPrefixOf_iff_prefix] at hwithin
  rcases scopePrefix_cases hdir with ⟨-, rfl⟩ | ⟨path, ⟨names, hnames⟩, hpath, rfl, ⟨rfl, hlast⟩ | rfl⟩
  · exact ⟨grant, hgrant, _, hdir, .inl rfl⟩
  · -- The owner left out the slash: the path must be inside another directory.
    obtain ⟨wider, hwider, dir, hwiderDir, hinside⟩ := (hclosed grant hgrant).resolve_left hlast
    rw [liesInside_iff hwiderDir hnames, pathWithinPrefix, Bool.or_eq_true, decide_eq_true_iff,
      List.isPrefixOf_iff_prefix] at hinside
    refine ⟨wider, hwider, dir, hwiderDir, ?_⟩
    rcases scopePrefix_cases hwiderDir with ⟨-, rfl⟩ | ⟨path, -, -, rfl, -⟩
    · exact .inl rfl
    · refine hinside.imp_right ?_
      rintro ⟨after, hafter⟩
      have hmid : nfc grant = nfc path ++ unit '/' :: after := by
        rw [← hafter, append_assoc]
        rfl
      obtain ⟨x, y, hsplit, hx, -⟩ := hnfc.split hmid
      have hroot : grant ≠ text "/" := fun hgrant ↦ hlast (by rw [hgrant]; rfl)
      obtain ⟨rest, rfl⟩ := hwithin.resolve_left hroot
      exact ⟨x, y ++ rest, by rw [hsplit, append_assoc, cons_append], by rw [hx]⟩
  · refine ⟨_, hgrant, _, hdir, .inr ?_⟩
    have hroot : path ++ text "/" ≠ text "/" := by
      intro hroot
      exact (normalised_iff.mp hpath).1 (by simpa [text] using congrArg List.length hroot)
    obtain ⟨rest, rfl⟩ := hwithin.resolve_left hroot
    exact ⟨path, rest, by rw [append_assoc]; rfl, rfl⟩

/-- What lies below a directory that such a string names goes through a granted directory too. -/
theorem Under.below (hnfc : IsNfc nfc) (h : Under nfc grants raw)
    (hdir : normaliseScopePrefix nfc raw = .ok dir) :
    ∃ grant ∈ grants, ∃ wide, normaliseScopePrefix nfc grant = .ok wide ∧ (wide = text "/" ∨ wide <+: dir) := by
  obtain ⟨grant, hgrant, wide, hwide, hunder⟩ := h
  refine ⟨grant, hgrant, wide, hwide, hunder.imp_right ?_⟩
  rintro ⟨x, y, hraw, rfl⟩
  rcases scopePrefix_cases hdir with ⟨hroot, rfl⟩ | ⟨path, -, -, rfl, hpath⟩
  · obtain rfl : x = [] := by
      rw [hraw] at hroot
      cases x with
      | nil => rfl
      | cons u x => simpa [text] using congrArg List.length hroot
    rw [(hnfc.eq_nil []).mpr rfl]
    exact prefix_rfl
  · have hsplit : path = x ∨ ∃ y, path = x ++ unit '/' :: y := by
      rcases hpath with ⟨rfl, -⟩ | rfl
      · exact .inr ⟨y, hraw⟩
      · rcases eq_nil_or_concat y with rfl | ⟨y, u, rfl⟩
        · exact .inl (append_inj_left' hraw rfl)
        · rw [concat_eq_append, ← cons_append, ← append_assoc] at hraw
          exact .inr ⟨y, append_inj_left' hraw rfl⟩
    rcases hsplit with rfl | ⟨y, rfl⟩
    · exact prefix_rfl
    · rw [hnfc.slash]
      exact ⟨nfc y ++ text "/", by simp [text, unit]⟩

/-- So do all strings that extend it. -/
theorem Under.deeper (hnfc : IsNfc nfc) {more : Text} (h : Under nfc grants raw)
    (hdir : normaliseScopePrefix nfc raw = .ok dir) (hmore : dir <+: more) : Under nfc grants more := by
  obtain ⟨grant, hgrant, wide, hwide, hunder⟩ := h.below hnfc hdir
  refine ⟨grant, hgrant, wide, hwide, hunder.imp_right fun hunder ↦ ?_⟩
  obtain ⟨rest, rfl⟩ := hunder.trans hmore
  rcases scopePrefix_cases hwide with ⟨-, rfl⟩ | ⟨path, -, -, rfl, -⟩
  · exact ⟨[], rest, rfl, by rw [(hnfc.eq_nil []).mpr rfl]; rfl⟩
  · exact ⟨nfc path, rest, by rw [append_assoc]; rfl, by rw [hnfc.idem]⟩

variable {call : StoreCall}

/-- A file that a call touches lies inside a granted directory, if what the call is given goes through one. -/
theorem inside_of_touches {rt : Runtime} (hnfc : IsNfc rt.nfc) (hs : s.Keyed)
    (hunder : ∀ raw ∈ call.given, Under rt.nfc grants raw) (h : call.Touches rt s path) :
    Inside rt.nfc grants path := by
  obtain ⟨raw, hraw, htouches⟩ := h
  have hinside : ∀ {grant wide : Text}, grant ∈ grants → normaliseScopePrefix rt.nfc grant = .ok wide →
      (∃ names, Names path names) → wide = text "/" ∨ wide <+: path → Inside rt.nfc grants path := by
    rintro grant wide hgrant hwide ⟨names, hnames⟩ hwithin
    refine ⟨grant, hgrant, wide, hwide, (liesInside_iff hwide hnames).mpr ?_⟩
    simpa [pathWithinPrefix] using hwithin
  have hone : normaliseWorkspacePath rt.nfc raw = .ok path → Inside rt.nfc grants path := by
    intro hpath
    obtain ⟨grant, hgrant, wide, hwide, hthrough⟩ := hunder raw hraw
    refine hinside hgrant hwide (WorkspaceStore.names_of_normalise hpath) (hthrough.imp_right ?_)
    rintro ⟨x, y, rfl, rfl⟩
    rw [(normalised_iff.mp hpath).2.1, hnfc.slash]
    exact ⟨rt.nfc y, by rw [append_assoc]; rfl⟩
  have hall : (∃ dir, normaliseScopePrefix rt.nfc raw = .ok dir ∧ ∃ row ∈ s.scanUnder dir, row.path = path) →
      Inside rt.nfc grants path := by
    rintro ⟨dir, hdir, row, hrow, rfl⟩
    obtain ⟨grant, hgrant, wide, hwide, hthrough⟩ := (hunder raw hraw).below hnfc hdir
    rw [WorkspaceStore.scanUnder] at hrow
    split_ifs at hrow with hroot
    · obtain ⟨names, hnames⟩ := hs.named row hrow
      refine hinside hgrant hwide ⟨names, hnames⟩ (hthrough.imp_right fun hwide ↦ hwide.trans ?_)
      rw [hroot, hnames.eq, join_eq_intercalate hnames.ne_nil]
      exact ⟨_, rfl⟩
    · obtain ⟨hmem, hstarts⟩ := mem_filter.mp hrow
      exact hinside hgrant hwide (hs.named row hmem)
        (hthrough.imp_right fun hwide ↦ hwide.trans (List.isPrefixOf_iff_prefix.mp hstarts))
  cases call with
  | read raw => exact hone htouches
  | change call => exact hone htouches
  | list raw => exact hall htouches
  | grep raw pattern => exact hall htouches

/-- Nothing else is normalised to a path below `/skills/`. -/
theorem skills_of_liesInside (hnfc : IsNfc nfc)
    (hpath : normaliseWorkspacePath nfc raw = .ok path) (h : LiesInside skillsPrefix path) :
    pathWithinAnyPrefix raw [skillsPrefix] = true := by
  obtain ⟨-, rfl, -, names, hnames, -⟩ := normalised_iff.mp hpath
  have hdir : normaliseScopePrefix id skillsPrefix = .ok skillsPrefix := by decide
  have hwithin := (liesInside_iff hdir hnames).mp h
  rw [pathWithinPrefix, Bool.or_eq_true, decide_eq_true_iff, List.isPrefixOf_iff_prefix,
    or_iff_right (by decide)] at hwithin
  obtain ⟨after, hafter⟩ := hwithin
  have hmid : nfc raw = text "/skills" ++ unit '/' :: after := hafter.symm
  obtain ⟨x, y, rfl, hx, -⟩ := hnfc.split hmid
  have hfirst : nfc x = [] ++ unit '/' :: text "skills" := hx
  obtain ⟨x₁, x₂, rfl, hx₁, hx₂⟩ := hnfc.split hfirst
  rw [(hnfc.eq_nil x₁).mp hx₁, hnfc.skills x₂ hx₂, pathWithinAnyPrefix, any_cons, pathWithinPrefix]
  have hstarts : skillsPrefix.isPrefixOf ([] ++ unit '/' :: text "skills" ++ unit '/' :: y) = true :=
    List.isPrefixOf_iff_prefix.mpr ⟨y, rfl⟩
  rw [hstarts, Bool.or_true, Bool.true_or]

/-! ## What the operations let through -/

theorem accepted_of_validate {scope : WorkspaceScope} (h : validateWorkspaceScope nfc scope = .ok ())
    {grant : Text} (hgrant : grant ∈ scope.read ++ scope.write) :
    ∃ dir, normaliseScopePrefix nfc grant = .ok dir := by
  rw [validateWorkspaceScope] at h
  split at h
  · cases h
  · rename_i hnone
    have hgrantNone := findSome?_eq_none_iff.mp hnone grant hgrant
    cases hdir : normaliseScopePrefix nfc grant with
    | error err => simp [hdir] at hgrantNone
    | ok dir => exact ⟨dir, rfl⟩

theorem pathWithinPrefix_trans {mid : Text} (h : pathWithinPrefix path mid = true)
    (h' : pathWithinPrefix mid dir = true) : pathWithinPrefix path dir = true := by
  rw [pathWithinPrefix, Bool.or_eq_true, decide_eq_true_iff, List.isPrefixOf_iff_prefix] at *
  rcases h' with rfl | h'
  · exact .inl rfl
  · rcases h with rfl | h
    · rcases prefix_cons_iff.mp h' with rfl | ⟨rest, rfl, hrest⟩
      · exact .inr List.nil_prefix
      · exact .inl (by rw [prefix_nil.mp hrest]; rfl)
    · exact .inr (h'.trans h)

theorem workspaceScope_cases (c : Caller) : c.workspaceScope = c.own ∨
    ∃ parent, c.workspaceScope = intersectWorkspaceScope c.own parent := by
  rcases c with ⟨actor, own, _ | _ | ⟨parent, parents⟩⟩
  · exact .inl rfl
  · exact .inl rfl
  · exact .inr ⟨effectiveScope parent parents, rfl⟩

theorem exists_of_mem_intersect {child parent : List Text} {grant : Text}
    (h : grant ∈ intersectPrefixList child parent) : ∃ own ∈ child, pathWithinPrefix grant own = true := by
  simp only [intersectPrefixList, mem_dedup, mem_flatMap, mem_filterMap] at h
  obtain ⟨own, hown, p, -, hp⟩ := h
  split_ifs at hp with hchild hparent
  · obtain rfl := Option.some.inj hp
    exact ⟨own, hown, by simp [pathWithinPrefix]⟩
  · obtain rfl := Option.some.inj hp
    exact ⟨own, hown, hparent⟩

variable {op : Operation} {c : Caller}

/-- What an intersection lets through, it lets through for a grant of the agent itself. -/
theorem within_of_workspaceScope (h : pathWithinAnyPrefix raw (op.granted c.workspaceScope) = true) :
    pathWithinAnyPrefix raw (op.granted c.own) = true := by
  rcases workspaceScope_cases c with hown | ⟨parent, hparent⟩
  · rwa [hown] at h
  · obtain ⟨grant, hgrant, hwithin⟩ := any_eq_true.mp h
    have hown : ∃ own ∈ op.granted c.own, pathWithinPrefix grant own = true := by
      rw [hparent, Operation.granted] at hgrant
      rw [Operation.granted]
      split_ifs at hgrant ⊢ <;> exact exists_of_mem_intersect hgrant
    obtain ⟨own, hmem, hgrantOwn⟩ := hown
    exact any_eq_true.mpr ⟨own, hmem, pathWithinPrefix_trans hwithin hgrantOwn⟩

/-- The string is in the scope of the operation, and not one that is closed to it. -/
structure Allowed (c : Caller) (op : Operation) (raw : Text) : Prop where
  within : pathWithinAnyPrefix raw (op.granted c.workspaceScope) = true
  notSkills : op.changes = true → c.run.isSome = true → pathWithinAnyPrefix raw [skillsPrefix] ≠ true

theorem allowed_of_assertInScope {reason : String} (hop : op.changes = false)
    (h : assertInScope raw c.workspaceScope.read reason = .ok ()) : Allowed c op raw := by
  rw [assertInScope] at h
  split_ifs at h with hwithin
  refine ⟨by rwa [Operation.granted, hop], fun hchanges ↦ ?_⟩
  rw [hop] at hchanges
  cases hchanges

theorem allowed_of_assertWritable {outside readOnly : String} (hop : op.changes = true)
    (h : assertWritable c raw outside readOnly = .ok ()) : Allowed c op raw := by
  rw [assertWritable, assertInScope] at h
  split_ifs at h with hwithin hskills
  · exact ⟨by rwa [Operation.granted, if_pos hop], fun _ hrun hmem ↦ hskills ⟨hrun, hmem⟩⟩

theorem map_ok {checked : Except WorkspaceError Unit} {asked calls : List StoreCall}
    (h : (checked.map fun _ ↦ asked) = .ok calls) : checked = .ok () ∧ calls = asked := by
  cases checked with
  | error err => cases h
  | ok _ => exact ⟨rfl, (Except.ok.inj h).symm⟩

theorem given_attempts {rt : Runtime} {q : WorkspaceQuotas} {now : Nat} {content : Bytes}
    {actor : Option Text} {n : Nat}
    (h : call ∈ EnkakuVFS.attempts rt q now path content actor n s) : call.given = [path] := by
  induction n generalizing s with
  | zero => cases h
  | succ n ih =>
    have hask : ∀ {ifMatch : Option Text} {r : Except WorkspaceError WorkspaceFileMeta × WorkspaceStore},
        call ∈ StoreCall.change (.write path ⟨content, none, ifMatch, actor⟩) ::
          (match r with
          | (.ok _, _) => []
          | (.error err, s') => if err.code = "E_STALE" ∨ err.code = "E_EXISTS" then
              EnkakuVFS.attempts rt q now path content actor n s' else []) → call.given = [path] := by
      intro ifMatch r hcall
      rcases mem_cons.mp hcall with rfl | hcall
      · rfl
      · split at hcall
        · cases hcall
        · split_ifs at hcall
          · exact ih hcall
          · cases hcall
    rw [EnkakuVFS.attempts] at h
    simp only at h
    split at h
    · rcases mem_cons.mp h with rfl | h
      · rfl
      · exact hask h
    · rcases mem_cons.mp h with rfl | h
      · rfl
      · split_ifs at h
        · exact hask h
        · cases h

theorem under_walk {rt : Runtime} (hnfc : IsNfc rt.nfc) {depth : Nat}
    (hdir : Under rt.nfc grants dir) (hcall : call ∈ EnkakuVFS.walk rt s depth dir)
    (hraw : raw ∈ call.given) : Under rt.nfc grants raw := by
  induction depth generalizing dir with
  | zero => cases hcall
  | succ depth ih =>
    rw [EnkakuVFS.walk] at hcall
    rcases mem_cons.mp hcall with rfl | hcall
    · rwa [mem_singleton.mp hraw]
    · split at hcall
      · cases hcall
      · rename_i entries hlist
        obtain ⟨entry, hentry, hcall⟩ := mem_flatMap.mp hcall
        split_ifs at hcall with hkind
        · refine ih ?_ hcall
          rw [WorkspaceStore.list] at hlist
          split at hlist
          · cases hlist
          · rename_i listed hlisted
            cases hlist
            rw [mem_insertionSort, mem_map] at hentry
            obtain ⟨p, hp, rfl⟩ := hentry
            obtain ⟨row, -, rfl⟩ := WorkspaceStore.exists_of_mem_childrenOf hp
            refine hdir.deeper hnfc hlisted ?_
            simp only [WorkspaceStore.childOf] at hkind ⊢
            split_ifs at hkind ⊢ with hrest
            exact ⟨_, (append_assoc _ _ _).symm⟩
        · cases hcall

/-- What the store is given was let through, or is a directory granted for reading or below one. -/
theorem given_of_calls {rt : Runtime} (hnfc : IsNfc rt.nfc) {q : WorkspaceQuotas} {now : Nat}
    {calls : List StoreCall} (h : c.calls rt q now s op = .ok calls) (hcall : call ∈ calls)
    (hraw : raw ∈ call.given) : Allowed c op raw ∨ op.changes = false ∧
      ∀ grants, (∀ granted ∈ c.workspaceScope.read, Under rt.nfc grants granted) →
        Under rt.nfc grants raw := by
  have hgranted : ∀ {grants : List Text} {dir : Text}, dir ∈ EnkakuVFS.effectiveReadPrefixes rt.nfc c →
      (∀ granted ∈ c.workspaceScope.read, Under rt.nfc grants granted) → Under rt.nfc grants dir := by
    intro grants dir hdir hunder
    rw [EnkakuVFS.effectiveReadPrefixes, mem_dedup, mem_filterMap] at hdir
    obtain ⟨granted, hmem, hdir⟩ := hdir
    cases hnormalised : normaliseScopePrefix rt.nfc granted with
    | error err =>
      rw [hnormalised] at hdir
      cases hdir
    | ok found =>
      rw [hnormalised] at hdir
      cases hdir
      exact (hunder granted hmem).deeper hnfc hnormalised prefix_rfl
  cases op with
  | fsList dir | fsRead path | fsGrep dir pattern | vfsRead path =>
    obtain ⟨hok, rfl⟩ := map_ok h
    rw [mem_singleton.mp hcall, StoreCall.given, mem_singleton] at hraw
    subst hraw
    exact .inl (allowed_of_assertInScope rfl hok)
  | fsWrite path content contentType ifMatch | fsDelete path ifMatch | vfsWriteIfVersion path content expected
  | vfsDelete path =>
    obtain ⟨hok, rfl⟩ := map_ok h
    rw [mem_singleton.mp hcall, StoreCall.given, mem_singleton] at hraw
    subst hraw
    exact .inl (allowed_of_assertWritable rfl hok)
  | fsMove source target ifMatch =>
    simp only [Caller.calls] at h
    cases hsource : Fs.assertWritable c source with
    | error err =>
      rw [hsource] at h
      cases h
    | ok _ =>
      rw [hsource] at h
      obtain ⟨htarget, rfl⟩ := map_ok h
      rw [mem_singleton.mp hcall, StoreCall.given, mem_pair] at hraw
      rcases hraw with rfl | rfl
      · exact .inl (allowed_of_assertWritable rfl hsource)
      · exact .inl (allowed_of_assertWritable rfl htarget)
  | vfsWrite path content =>
    obtain ⟨hok, rfl⟩ := map_ok h
    rw [given_attempts hcall, mem_singleton] at hraw
    exact .inl (hraw ▸ allowed_of_assertWritable rfl hok)
  | vfsList =>
    cases h
    obtain ⟨dir, hdir, hcall⟩ := mem_flatMap.mp hcall
    exact .inr ⟨rfl, fun grants hunder ↦ under_walk hnfc (hgranted hdir hunder) hcall hraw⟩
  | vfsGrep pattern =>
    cases h
    obtain ⟨dir, hdir, rfl⟩ := mem_map.mp hcall
    rw [StoreCall.given, mem_singleton] at hraw
    exact .inr ⟨rfl, fun grants hunder ↦ hraw ▸ hgranted hdir hunder⟩

/-! ## The grants of an agent -/

/-- Whatever an agent with this scope does, in a run or not: what is touched lies inside a directory that it
was granted. -/
def Confined (rt : Runtime) (own : WorkspaceScope) : Prop :=
  ∀ (c : Caller) (q : WorkspaceQuotas) (now : Nat) (s : WorkspaceStore) (op : Operation)
    (calls : List StoreCall), c.own = own → s.Keyed → c.calls rt q now s op = .ok calls →
    ∀ call ∈ calls, ∀ path, call.Touches rt s path → Inside rt.nfc (op.granted own) path

/-- In a run it changes nothing below `/skills/`. -/
def SkillsKept (rt : Runtime) (own : WorkspaceScope) : Prop :=
  ∀ (c : Caller) (q : WorkspaceQuotas) (now : Nat) (s : WorkspaceStore) (op : Operation)
    (calls : List StoreCall), c.own = own → c.run.isSome = true → op.changes = true →
    c.calls rt q now s op = .ok calls →
    ∀ raw path, .change raw ∈ calls → (StoreCall.change raw).Touches rt s path → ¬ LiesInside skillsPrefix path

/-- **Which grants cover a directory.**  A scope that the agent store accepts keeps its agent inside the
directories it names, if and only if each of its prefixes ends in a slash or names a path inside the
directory of another; what is below `/skills/` is kept from a run in any case. -/
theorem grants_cover_iff {rt : Runtime} (hnfc : IsNfc rt.nfc) {own : WorkspaceScope}
    (hvalid : validateWorkspaceScope rt.nfc own = .ok ()) :
    (Confined rt own ↔ Closed rt.nfc own.read ∧ Closed rt.nfc own.write) ∧ SkillsKept rt own := by
  have haccepted : ∀ {grant : Text}, grant ∈ own.read ++ own.write →
      ∃ dir, normaliseScopePrefix rt.nfc grant = .ok dir := accepted_of_validate hvalid
  -- An agent may ask for the very string that it was granted.
  have hself : ∀ (op : Operation) {grant : Text}, Confined rt own → grant ∈ op.granted own →
      grant ∈ own.read ++ own.write → (∀ q s, ∃ call, (Caller.mk none own none).calls rt q 0 s op = .ok [call] ∧
        (normaliseWorkspacePath rt.nfc grant = .ok (rt.nfc grant) → call.Touches rt s (rt.nfc grant))) →
      grant.getLast? = some (unit '/') ∨ Inside rt.nfc (op.granted own) (rt.nfc grant) := by
    intro op grant h hgranted hgrant hcalls
    obtain ⟨dir, hdir⟩ := haccepted hgrant
    rcases scopePrefix_cases hdir with ⟨rfl, -⟩ | ⟨path, -, hpath, -, ⟨rfl, -⟩ | rfl⟩
    · exact .inl rfl
    · obtain ⟨call, hcall, htouches⟩ := hcalls ⟨0, 0, 0, none⟩ WorkspaceStore.empty
      exact .inr (h _ _ _ _ op _ rfl WorkspaceStore.keyed_empty hcall call (.head _) _
        (htouches hpath))
    · exact .inl (getLast?_append_of_ne_nil _ (by decide))
  refine ⟨⟨fun h ↦ ⟨fun grant hgrant ↦ ?_, fun grant hgrant ↦ ?_⟩, ?_⟩, ?_⟩
  · refine hself (.fsRead grant) h hgrant (mem_append_left _ hgrant) fun q s ↦
      ⟨.read grant, ?_, fun hpath ↦ ⟨grant, .head _, hpath⟩⟩
    have hwithin : pathWithinAnyPrefix grant own.read = true :=
      any_eq_true.mpr ⟨grant, hgrant, by simp [pathWithinPrefix]⟩
    simp [Caller.calls, Fs.assertReadable, assertInScope, Caller.workspaceScope, hwithin, Except.map]
  · refine hself (.fsDelete grant none) h hgrant (mem_append_right _ hgrant) fun q s ↦
      ⟨.change (.delete grant none), ?_, fun hpath ↦ ⟨grant, .head _, hpath⟩⟩
    have hwithin : pathWithinAnyPrefix grant own.write = true :=
      any_eq_true.mpr ⟨grant, hgrant, by simp [pathWithinPrefix]⟩
    simp [Caller.calls, Fs.assertWritable, assertWritable, assertInScope, Caller.workspaceScope, hwithin,
      Except.map]
  · rintro ⟨hread, hwrite⟩ c q now s op calls rfl hs hcalls call hcall path htouches
    have hunder : ∀ {raw : Text}, pathWithinAnyPrefix raw (op.granted c.workspaceScope) = true →
        Under rt.nfc (op.granted c.own) raw := by
      intro raw hwithin
      have hop := within_of_workspaceScope hwithin
      rw [Operation.granted] at hop ⊢
      split_ifs at hop ⊢
      · exact under_of_within hnfc (fun _ hmem ↦ haccepted (mem_append_right _ hmem)) hwrite hop
      · exact under_of_within hnfc (fun _ hmem ↦ haccepted (mem_append_left _ hmem)) hread hop
    refine inside_of_touches hnfc hs (fun raw hraw ↦ ?_) htouches
    rcases given_of_calls hnfc hcalls hcall hraw with hallowed | ⟨hop, hgranted⟩
    · exact hunder hallowed.within
    · refine hgranted _ fun granted hmem ↦ hunder (any_eq_true.mpr ⟨granted, ?_, ?_⟩)
      · rwa [Operation.granted, hop]
      · simp [pathWithinPrefix]
  · rintro c q now s op calls rfl hrun hop hcalls call path hcall ⟨raw, hraw, hpath⟩ hskills
    rcases given_of_calls hnfc hcalls hcall hraw with hallowed | ⟨hreads, -⟩
    · exact hallowed.notSkills hop hrun (skills_of_liesInside hnfc hpath hskills)
    · rw [hop] at hreads
      cases hreads

/-- A grant with the slash, and one inside it without. -/
theorem grants_cover_shared : (Confined plainRuntime ⟨[text "/shared/", text "/shared/notes"], [text "/shared/notes/"]⟩ ↔
    Closed id [text "/shared/", text "/shared/notes"] ∧ Closed id [text "/shared/notes/"]) ∧
    SkillsKept plainRuntime ⟨[text "/shared/", text "/shared/notes"], [text "/shared/notes/"]⟩ :=
  grants_cover_iff isNfc_id (by decide)

/-- Without the slash, the grant reaches a sibling that begins like it. -/
theorem grants_not_cover_shared :
    validateWorkspaceScope id ⟨[text "/shared"], []⟩ = .ok () ∧
      ∃ calls, (Caller.mk none ⟨[text "/shared"], []⟩ (some [])).calls plainRuntime ⟨0, 0, 0, none⟩ 0
          WorkspaceStore.empty (.fsRead (text "/sharedsecret/key")) = .ok calls ∧
        ∃ call ∈ calls, call.Touches plainRuntime WorkspaceStore.empty (text "/sharedsecret/key") ∧
          ¬ Inside id ([text "/shared"] ++ []) (text "/sharedsecret/key") := by
  refine ⟨by decide, _, rfl, .read (text "/sharedsecret/key"), .head _, ⟨_, .head _, by decide⟩, ?_⟩
  rintro ⟨grant, hgrant, dir, hdir, hinside, -⟩
  rw [append_nil, mem_singleton] at hgrant
  subst hgrant
  have hshared : normaliseScopePrefix id (text "/shared") = .ok (text "/shared/") := by decide
  cases hshared.symm.trans hdir
  exact nomatch hinside

end Enkaku.Workspace
