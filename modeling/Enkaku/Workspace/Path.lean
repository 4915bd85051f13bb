import Enkaku.Lib.JsData
import Enkaku.Lib.SplitOn

/-!
# Workspace paths

`normaliseWorkspacePath` is what every operation of the workspace trusts: what it returns is a slash and
at most 32 names with slashes between them (`normalised_iff`).  `scopeOfPath` reads the scope off the
segments of such a path; `normaliseScopePrefix` writes a directory with a slash at its end, and
`pathWithinPrefix` compares strings.
-/

set_option autoImplicit false

namespace Enkaku.Workspace

open Js (Text text unit)

/-- `EnkakuError`, as the workspace throws it, with `detail` for a content that is not the expected one. -/
structure WorkspaceError where
  code : String
  message : Text
  /-- The hash that was expected, and the one there is. -/
  detail : Option (Text × Option Text) := none
  deriving DecidableEq, Repr

/-- What is thrown about a path that is not one. -/
def badPath (raw : Text) (reason : Text) : WorkspaceError :=
  ⟨"E_BAD_PATH", text "invalid workspace path \"" ++ raw ++ text "\": " ++ reason, none⟩

/-- `MAX_BYTES`. -/
def maxBytes : Nat := 512

/-- `MAX_SEGMENTS`. -/
def maxSegments : Nat := 32

/-- `new TextEncoder().encode(t).length`: a surrogate without its partner becomes U+FFFD. -/
def encodedLength : Text → Nat
  | [] => 0
  | [u] => if u < 0x80 then 1 else if u < 0x800 then 2 else 3
  | u :: v :: rest =>
    if Js.isLead u ∧ Js.isTrail v then 4 + encodedLength rest
    else (if u < 0x80 then 1 else if u < 0x800 then 2 else 3) + encodedLength (v :: rest)

/-- The segments of an absolute path: what stands between the slashes, without what comes before the
first. -/
def segments (path : Text) : List Text := (path.splitOn (unit '/')).tail

/-- Why a segment is refused. -/
def segmentFault (segment : Text) : Option Text :=
  if segment = [] then some (text "contains an empty segment (a doubled \"/\")")
  else if segment = text "." ∨ segment = text ".." then
    some (text "contains a \"" ++ segment ++ text "\" segment — rejected rather than resolved")
  else none

/-- What `normaliseWorkspacePath` checks of the normal form of a string. -/
def checkNormalised (raw path : Text) : Except WorkspaceError Text :=
  if ¬ text "/" <+: path then .error (badPath raw (text "must be absolute (start with \"/\")"))
  else if maxBytes < encodedLength path then
    .error (badPath raw (text "exceeds the " ++ text (toString maxBytes) ++ text "-byte limit (" ++
      text (toString (encodedLength path)) ++ text " bytes)"))
  else if 1 < path.length ∧ path.getLast? = some (unit '/') then
    .error (badPath raw (text "must not have a trailing slash"))
  else if segments path = [] ∨ segments path = [[]] then
    .error (badPath raw (text "must name a file, not the root"))
  else if maxSegments < (segments path).length then
    .error (badPath raw (text "exceeds the " ++ text (toString maxSegments) ++ text "-segment limit (" ++
      text (toString (segments path).length) ++ text " segments)"))
  else
    match (segments path).findSome? segmentFault with
    | some reason => .error (badPath raw reason)
    | none => .ok path

/-- `normaliseWorkspacePath`, with `String.prototype.normalize` for NFC. -/
def normaliseWorkspacePath (nfc : Text → Text) (raw : Text) : Except WorkspaceError Text :=
  if raw = [] then .error (badPath raw (text "must be a non-empty string"))
  else checkNormalised raw (nfc raw)

def scopeOfPath (path : Text) : Text :=
  let first := (segments path)[0]?.getD []
  match (segments path)[1]? with
  | some second =>
    if first = text "agents" ∧ second ≠ [] then text "/agents/" ++ second ++ text "/"
    else text "/" ++ first ++ text "/"
  | none => text "/" ++ first ++ text "/"

def normaliseScopePrefix (nfc : Text → Text) (raw : Text) : Except WorkspaceError Text :=
  if raw = text "/" then .ok (text "/")
  else
    let withoutTrailingSlash := if raw.getLast? = some (unit '/') then raw.dropLast else raw
    match normaliseWorkspacePath nfc withoutTrailingSlash with
    | .error err => .error err
    | .ok normalised => .ok (normalised ++ text "/")

def pathWithinPrefix (path dir : Text) : Bool := dir = text "/" || dir.isPrefixOf path

def pathWithinAnyPrefix (path : Text) (dirs : List Text) : Bool := dirs.any (pathWithinPrefix path)

/-! ## The names in a path -/

/-- A name: not empty, not `.` or `..`, and no slash in it. -/
structure IsName (name : Text) : Prop where
  fault : segmentFault name = none
  noSlash : unit '/' ∉ name

theorem IsName.ne_nil {name : Text} (h : IsName name) : name ≠ [] := by
  rintro rfl
  exact nomatch h.fault

/-- The path of these names. -/
def join (names : List Text) : Text := names.flatMap fun name ↦ unit '/' :: name

/-- A path that names something. -/
structure Names (path : Text) (names : List Text) : Prop where
  eq : path = join names
  ne_nil : names ≠ []
  names : ∀ name ∈ names, IsName name

theorem join_append (names more : List Text) : join (names ++ more) = join names ++ join more :=
  List.flatMap_append

variable {names : List Text}

theorem splitOn_join (hnoSlash : ∀ name ∈ names, unit '/' ∉ name) :
    (join names).splitOn (unit '/') = [] :: names := by
  have hsplit : ∀ (first : Text), unit '/' ∉ first →
      (first ++ join names).splitOn (unit '/') = first :: names := by
    induction names with
    | nil =>
      intro first hfirst
      rw [join, List.flatMap_nil, List.append_nil, List.splitOn_eq_singleton hfirst]
    | cons name names ih =>
      intro first hfirst
      have hjoin : first ++ join (name :: names) = first ++ unit '/' :: (name ++ join names) := rfl
      rw [hjoin, List.splitOn_append_cons_self_of_not_mem hfirst,
        ih (fun other hother ↦ hnoSlash other (.tail _ hother)) name
          (hnoSlash name (.head _))]
  exact hsplit [] (by simp)

theorem segments_join (hnoSlash : ∀ name ∈ names, unit '/' ∉ name) : segments (join names) = names := by
  rw [segments, splitOn_join hnoSlash]
  rfl

variable {path : Text}

theorem Names.segments (h : Names path names) : segments path = names := by
  rw [h.eq]
  exact segments_join fun name hname ↦ (h.names name hname).noSlash

theorem join_eq_intercalate (hne : names ≠ []) :
    join names = unit '/' :: [unit '/'].intercalate names := by
  cases names with
  | nil => exact absurd rfl hne
  | cons name names =>
    clear hne
    induction names generalizing name with
    | nil => rfl
    | cons next names ih =>
      have hjoin : join (name :: next :: names) = unit '/' :: (name ++ join (next :: names)) := rfl
      rw [hjoin, ih, List.intercalate_cons_cons]
      simp

/-- An absolute path is the join of its segments. -/
theorem join_segments (h : text "/" <+: path) : join (segments path) = path := by
  obtain ⟨rest, rfl⟩ := h
  have hsplit : (text "/" ++ rest).splitOn (unit '/') = [] :: rest.splitOn (unit '/') := by
    have happend := List.splitOn_append_cons_self ([] : Text) rest (a := unit '/')
    rw [List.splitOn_nil] at happend
    exact happend
  rw [segments, hsplit, List.tail_cons, join_eq_intercalate (List.splitOn_ne_nil _ _),
    List.intercalate_splitOn]
  rfl

/-- No path of names ends in a slash. -/
theorem Names.getLast?_ne (h : Names path names) : path.getLast? ≠ some (unit '/') := by
  intro hlast
  obtain ⟨before, last, rfl⟩ := (List.eq_nil_or_concat names).resolve_left h.ne_nil
  have hname := h.names last (by simp)
  have hjoin : join (before ++ [last]) = (join before ++ [unit '/']) ++ last := by
    rw [join_append, List.append_assoc]
    simp [join]
  rw [h.eq, List.concat_eq_append, hjoin, List.getLast?_append_of_ne_nil _ hname.ne_nil] at hlast
  exact hname.noSlash (List.mem_of_getLast? hlast)

theorem checkNormalised_iff {raw found : Text} : checkNormalised raw found = .ok path ↔
    path = found ∧ encodedLength path ≤ maxBytes ∧
      ∃ names, Names path names ∧ names.length ≤ maxSegments := by
  rw [checkNormalised]
  constructor
  · intro h
    split_ifs at h with habs hbytes hslash hroot hmany
    split at h
    · cases h
    · rename_i hfault
      obtain rfl := Except.ok.inj h
      rw [List.findSome?_eq_none_iff] at hfault
      refine ⟨rfl, Nat.not_lt.mp hbytes, segments found, ⟨(join_segments habs).symm, ?_, ?_⟩,
        Nat.not_lt.mp hmany⟩
      · exact fun hnil ↦ hroot (.inl hnil)
      · intro name hname
        exact ⟨hfault name hname, SplitOn.not_mem_of_mem_list_splitOn name (List.mem_of_mem_tail hname)⟩
  · rintro ⟨rfl, hbytes, names, hnames, hmany⟩
    have hsegments := hnames.segments
    have habs : text "/" <+: path := by
      rw [hnames.eq, join_eq_intercalate hnames.ne_nil]
      exact ⟨_, rfl⟩
    have hroot : ¬ (names = [] ∨ names = [[]]) := by
      rintro (hnil | rfl)
      · exact hnames.ne_nil hnil
      · exact (hnames.names [] (List.mem_singleton_self [])).ne_nil rfl
    have hfault : names.findSome? segmentFault = none := by
      rw [List.findSome?_eq_none_iff]
      exact fun name hname ↦ (hnames.names name hname).fault
    rw [if_neg (not_not.mpr habs), if_neg (Nat.not_lt.mpr hbytes),
      if_neg fun h ↦ hnames.getLast?_ne (And.right h), hsegments, if_neg hroot,
      if_neg (Nat.not_lt.mpr hmany), hfault]

/-- **What a workspace path is.**  `normaliseWorkspacePath` returns the normal form of what it is given,
if that is at most 512 bytes of at most 32 names with a slash before each. -/
theorem normalised_iff {nfc : Text → Text} {raw : Text} :
    normaliseWorkspacePath nfc raw = .ok path ↔ raw ≠ [] ∧ path = nfc raw ∧
      encodedLength path ≤ maxBytes ∧ ∃ names, Names path names ∧ names.length ≤ maxSegments := by
  rw [normaliseWorkspacePath]
  by_cases hraw : raw = []
  · rw [if_pos hraw]
    constructor
    · intro h
      cases h
    · intro h
      exact absurd hraw h.1
  · rw [if_neg hraw, checkNormalised_iff]
    exact ⟨fun h ↦ ⟨hraw, h⟩, fun h ↦ h.2⟩

end Enkaku.Workspace
