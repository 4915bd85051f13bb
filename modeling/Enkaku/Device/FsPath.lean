import Enkaku.Lib.JsData

/-!
# The paths that the device file manager writes to

`validateWritableDevicePath` compares the spelling of a path with the roots of user storage; the shell
acts on what the spelling resolves to.  A path that is accepted lies strictly below a root if and only if
what follows the root has a name in it (`strictlyInside_iff_named`): a trailing slash or a `.` behind a
root is accepted, and means the root.
-/

set_option autoImplicit false

namespace Enkaku.Device

open Js (Text text unit)

/-- `EnkakuError`, as far as the file manager's paths throw it. -/
structure FsPathError where
  code : String
  message : String
  deriving DecidableEq, Repr

/-- `CONTROL_CHARS`. -/
def isControlChar (u : UInt16) : Bool := u ≤ 0x1f || u == 0x7f

/-- `path.split('/')`. -/
def pathSegments (path : Text) : List Text := path.splitOn (unit '/')

/-- `validateDevicePath`; none stands for a value that is not a string. -/
def validateDevicePath (path : Option Text) (field : String) : Except FsPathError Text :=
  match path with
  | none => .error ⟨"E_BAD_PATH", s!"{field} is required"⟩
  | some path =>
    if path.length = 0 then .error ⟨"E_BAD_PATH", s!"{field} is required"⟩
    else if ¬ text "/" <+: path then .error ⟨"E_BAD_PATH", s!"{field} must be an absolute path"⟩
    else if 4096 < path.length then .error ⟨"E_BAD_PATH", s!"{field} is too long"⟩
    else if path.any isControlChar then
      .error ⟨"E_BAD_PATH", s!"{field} contains a control character or newline, which this API cannot " ++
        "address unambiguously"⟩
    else if (pathSegments path).any (· == text "..") then
      .error ⟨"E_BAD_PATH", s!"{field} must not contain \"..\""⟩
    else .ok path

/-- `DEVICE_FS_WRITABLE_ROOTS`. -/
def deviceFsWritableRoots : List String :=
  ["/sdcard", "/storage/emulated/0", "/storage/self/primary", "/data/local/tmp"]

def isUnderWritableRoot (path : Text) : Bool :=
  deviceFsWritableRoots.any fun root ↦ path = text root || (text root ++ text "/").isPrefixOf path

def validateWritableDevicePath (path : Option Text) (field : String) : Except FsPathError Text :=
  match validateDevicePath path field with
  | .error err => .error err
  | .ok valid =>
    if ¬ isUnderWritableRoot valid then
      .error ⟨"E_PATH_NOT_WRITABLE", s!"{field} must be under one of " ++
        ", ".intercalate deviceFsWritableRoots ++
        " — this API reads anywhere but writes only under user storage"⟩
    else if deviceFsWritableRoots.any fun root ↦ text root = valid then
      .error ⟨"E_PATH_NOT_WRITABLE",
        s!"{field} is a storage root and cannot itself be moved or removed"⟩
    else .ok valid

/-! ## What a path resolves to -/

/-- A segment that names something: not empty, and not the directory itself. -/
def IsName (segment : Text) : Prop := segment ≠ [] ∧ segment ≠ text "."

instance (segment : Text) : Decidable (IsName segment) := by
  unfold IsName
  infer_instance

/-- The names on the way from `/`: empty segments and `.` stay where they are, `..` goes up. -/
def resolve (path : Text) : List Text :=
  (pathSegments path).foldl
    (fun dir segment ↦
      if ¬ IsName segment then dir else if segment = text ".." then dir.dropLast else dir ++ [segment]) []

/-- The names on the way to each root of user storage. -/
def rootNames : List (List Text) := deviceFsWritableRoots.map fun root ↦ resolve (text root)

/-- The path resolves to something strictly below a root, and is neither a root nor above one. -/
structure StrictlyInside (path : Text) : Prop where
  below : ∃ root ∈ rootNames, root <+: resolve path ∧ resolve path ≠ root
  notAbove : ∀ root ∈ rootNames, ¬ resolve path <+: root

/-- What follows a root has a name in it. -/
def NamedBelow (path : Text) : Prop :=
  ∃ root ∈ deviceFsWritableRoots, ∃ rest, path = text root ++ unit '/' :: rest ∧
    ∃ segment ∈ pathSegments rest, IsName segment

/-! ## What is accepted -/

variable {path : Option Text} {field : String} {valid : Text}

/-- What `validateDevicePath` accepts, it returns as it is. -/
theorem validateDevicePath_ok (h : validateDevicePath path field = .ok valid) :
    path = some valid ∧ text ".." ∉ pathSegments valid := by
  unfold validateDevicePath at h
  cases path with
  | none => cases h
  | some path =>
    simp only at h
    split_ifs at h with _ _ _ _ hdots
    cases h
    refine ⟨rfl, fun hmem ↦ hdots ?_⟩
    exact List.any_eq_true.mpr ⟨_, hmem, beq_self_eq_true _⟩

/-- What `validateWritableDevicePath` accepts is a root, a slash and more, and does not go up. -/
theorem validateWritableDevicePath_ok (h : validateWritableDevicePath path field = .ok valid) :
    text ".." ∉ pathSegments valid ∧
    ∃ root ∈ deviceFsWritableRoots, ∃ rest, valid = text root ++ unit '/' :: rest := by
  rw [validateWritableDevicePath] at h
  cases hvalid : validateDevicePath path field with
  | error err => simp [hvalid] at h
  | ok found =>
    simp only [hvalid] at h
    split_ifs at h with hunder hroot
    cases h
    refine ⟨(validateDevicePath_ok hvalid).2, ?_⟩
    obtain ⟨root, hmem, hcase⟩ := List.any_eq_true.mp hunder
    rcases Bool.or_eq_true _ _ |>.mp hcase with heq | hprefix
    · refine absurd (List.any_eq_true.mpr ⟨root, hmem, ?_⟩) hroot
      rw [decide_eq_true_iff] at heq ⊢
      exact heq.symm
    · obtain ⟨rest, rfl⟩ := List.isPrefixOf_iff_prefix.mp hprefix
      exact ⟨root, hmem, rest, by rw [List.append_assoc]; rfl⟩

/-- The names in a path. -/
def names (path : Text) : List Text := (pathSegments path).filter (IsName ·)

/-- A path without `..` resolves to its names. -/
theorem resolve_eq (h : text ".." ∉ pathSegments valid) : resolve valid = names valid := by
  have hfold : ∀ (segments dir : List Text), text ".." ∉ segments →
      segments.foldl (fun dir segment ↦ if ¬ IsName segment then dir
        else if segment = text ".." then dir.dropLast else dir ++ [segment]) dir =
      dir ++ segments.filter (IsName ·) := by
    intro segments
    induction segments with
    | nil => simp
    | cons segment segments ih =>
      intro dir hdots
      rw [List.mem_cons, not_or] at hdots
      rw [List.foldl_cons, ih _ hdots.2]
      by_cases hname : IsName segment
      · rw [if_neg (not_not.mpr hname), if_neg (Ne.symm hdots.1), List.filter_cons_of_pos (by simpa),
          List.append_assoc]
        rfl
      · rw [if_pos hname, List.filter_cons_of_neg (by simpa)]
  exact hfold _ [] h

/-- The names of what follows a root come after the names of the root. -/
theorem names_append (root rest : Text) : names (root ++ unit '/' :: rest) = names root ++ names rest := by
  rw [names, pathSegments, List.splitOn_append_cons_self, List.filter_append]
  rfl

theorem names_ne_nil_iff {rest : Text} :
    names rest ≠ [] ↔ ∃ segment ∈ pathSegments rest, IsName segment := by
  rw [names, ne_eq, List.filter_eq_nil_iff]
  simp

theorem resolve_root : ∀ root ∈ deviceFsWritableRoots, resolve (text root) = names (text root) := by
  decide

/-- No root lies below another one. -/
theorem root_eq_of_prefix : ∀ root ∈ deviceFsWritableRoots, ∀ root' ∈ deviceFsWritableRoots,
    resolve (text root) <+: resolve (text root') → root = root' := by
  decide

/-- The names of a root come before what follows it. -/
theorem resolve_append {root : String} (hroot : root ∈ deviceFsWritableRoots) {rest : Text}
    (h : text ".." ∉ pathSegments (text root ++ unit '/' :: rest)) :
    resolve (text root ++ unit '/' :: rest) = resolve (text root) ++ names rest := by
  rw [resolve_eq h, names_append, resolve_root root hroot]

/-- A name below a root leaves the root, and meets no other one. -/
theorem strictlyInside_of_named (hdots : text ".." ∉ pathSegments valid) (h : NamedBelow valid) :
    StrictlyInside valid := by
  obtain ⟨root, hroot, rest, rfl, hnamed⟩ := h
  have hresolve := resolve_append hroot hdots
  have hlonger : (resolve (text root)).length < (resolve (text root ++ unit '/' :: rest)).length := by
    rw [hresolve, List.length_append]
    have hpos := List.length_pos_iff.mpr (names_ne_nil_iff.mpr hnamed)
    omega
  have hbelow : resolve (text root) <+: resolve (text root ++ unit '/' :: rest) := by
    rw [hresolve]
    exact List.prefix_append _ _
  refine ⟨⟨_, List.mem_map.mpr ⟨root, hroot, rfl⟩, hbelow, fun hsame ↦ ?_⟩, fun other hother habove ↦ ?_⟩
  · exact absurd (congrArg List.length hsame) (by omega)
  · obtain ⟨root', hroot', rfl⟩ := List.mem_map.mp hother
    obtain rfl := root_eq_of_prefix root hroot root' hroot' (hbelow.trans habove)
    exact absurd habove.length_le (by omega)

/-- **What an accepted path resolves to.**  A path that `validateWritableDevicePath` accepts lies strictly
below a root of user storage, and is neither a root nor above one, if and only if what follows the root
has a segment that is neither empty nor `.`. -/
theorem strictlyInside_iff_named (h : validateWritableDevicePath path field = .ok valid) :
    StrictlyInside valid ↔ NamedBelow valid := by
  obtain ⟨hdots, root, hroot, rest, rfl⟩ := validateWritableDevicePath_ok h
  refine ⟨fun hinside ↦ ?_, strictlyInside_of_named hdots⟩
  refine ⟨root, hroot, rest, rfl, names_ne_nil_iff.mp fun hnil ↦ ?_⟩
  refine hinside.notAbove _ (List.mem_map.mpr ⟨root, hroot, rfl⟩) ?_
  rw [resolve_append hroot hdots, hnil, List.append_nil]

/-- The pictures of the camera. -/
theorem strictlyInside_dcim : StrictlyInside (text "/sdcard/./DCIM") ↔ NamedBelow (text "/sdcard/./DCIM") :=
  strictlyInside_iff_named (show validateWritableDevicePath (some (text "/sdcard/./DCIM")) "path" =
    .ok (text "/sdcard/./DCIM") by decide)

/-- The root of user storage with a slash behind it is accepted. -/
theorem root_accepted : ¬ ∀ (path : Option Text) (field : String) (valid : Text),
    validateWritableDevicePath path field = .ok valid → StrictlyInside valid := by
  intro hall
  have hinside := hall (some (text "/sdcard/")) "path" (text "/sdcard/") (by decide)
  exact hinside.notAbove (resolve (text "/sdcard")) (by decide) (by decide)

end Enkaku.Device
