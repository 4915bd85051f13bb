import Enkaku.Schema.Validate
import Enkaku.Lib.Utf8

/-!
# The limits of a declared schema

`checkDeclaredSchema`: what `publish` finds in a schema, every finding and not the first one.

The walk follows references along each branch, with the references of that branch only, and counts
its visits.  Every call of it counts one, and past `maxWalkVisits` none goes on, which is how many
calls can stand in one another: that is the bound of the recursion here.

A section that is interrupted is a warning, and `Accepted` leaves it out.
-/

set_option autoImplicit false

namespace Enkaku.Schema

/-! ## Limits and findings -/

def maxSchemaBytes : Nat := 64 * 1024

def maxFields : Nat := 200

def maxEnumMembers : Nat := 200

def maxTitleChars : Nat := 80

def maxDescriptionChars : Nat := 300

def maxLabelChars : Nat := 60

def maxGroupChars : Nat := 40

/-- `MAX_WALK_VISITS`. -/
def maxWalkVisits : Nat := 20000

/-- `DANGEROUS_FIELD_NAMES`. -/
def dangerousFieldNames : List String := ["__proto__", "constructor", "prototype"]

/-- What a finding is about. -/
inductive Limit where
  | maxSchemaBytes | maxDepth | maxFields | maxEnumMembers | maxTitleChars | maxDescriptionChars
  | maxLabelChars | maxGroupChars | fieldNamePattern | hints | showWhen | group | ref | pattern
  deriving DecidableEq, Repr

structure SchemaCheckFinding where
  path : String
  limit : Limit
  message : String
  deriving DecidableEq, Repr

/-! ## One node -/

/-- A finding if a text is too long; the message names it and its length. -/
def lengthFinding (path : String) (limit : Limit) (what : String) (length most : Nat) :
    List SchemaCheckFinding :=
  if length > most then
    [⟨path, limit, what ++ " is " ++ toString length ++ " characters, over the " ++ toString most ++
      "-character limit"⟩]
  else []

/-- What the hints of a node break, once they are parsed. -/
def hintFindings (hints : ParamHints) (path : String) (siblingKeys : Option (List String)) :
    List SchemaCheckFinding :=
  (match hints.group with
    | some group => lengthFinding path .maxGroupChars "group name" (utf16Length group) maxGroupChars
    | none => []) ++
  ((hints.labels.getD []).flatMap fun p ↦
    lengthFinding path .maxLabelChars ("label for \"" ++ p.1 ++ "\"") (utf16Length p.2) maxLabelChars) ++
  match hints.showWhen, siblingKeys with
  | some field, some keys =>
    if field ∈ keys then []
    else [⟨path, .showWhen, "showWhen refers to \"" ++ field ++ "\", which is not a sibling field"⟩]
  | _, _ => []

/-- `checkNode`. -/
def checkNode (host : Host) (node : Node) (path : String) (siblingKeys : Option (List String)) :
    List SchemaCheckFinding :=
  (match node.prop "title" with
    | .str title => lengthFinding path .maxTitleChars "title" (utf16Length title) maxTitleChars
    | _ => []) ++
  (match node.prop "description" with
    | .str text =>
      lengthFinding path .maxDescriptionChars "description" (utf16Length text) maxDescriptionChars
    | _ => []) ++
  (match node.prop "enum" with
    | .arr members =>
      if members.length > maxEnumMembers then
        [⟨path, .maxEnumMembers, toString members.length ++ " enum members, over the " ++
          toString maxEnumMembers ++ "-member limit"⟩]
      else []
    | _ => []) ++
  (match node.prop "pattern" with
    | .str _ =>
      [⟨path, .pattern, "pattern is never evaluated (no author-supplied regular expression is ever " ++
        "compiled, in the browser or the core) — use a semantic kind, format, or a length bound instead"⟩]
    | _ => []) ++
  match node.prop "x-enkaku" with
  | .undefined => []
  | .obj raw =>
    match parseHints (.obj raw) with
    | none => (host.hintMessages (.obj raw)).map fun message ↦ ⟨path, .hints, message⟩
    | some hints => hintFindings hints path siblingKeys
  | _ => [⟨path, .hints, "'x-enkaku' must be an object"⟩]

/-- The section a child asks for. -/
def groupOf : Value → Option String
  | .obj child => (readHints child).group
  | _ => none

/-- The loop of `checkGroupOrder`, with the groups seen so far and the one the last child had. -/
def groupFindings (path : String) (seenGroups : List String) (lastGroup : Option String) :
    Node → List SchemaCheckFinding
  | [] => []
  | (key, child) :: properties =>
    match groupOf child with
    | none => groupFindings path seenGroups none properties
    | some group =>
      if some group = lastGroup then groupFindings path seenGroups lastGroup properties
      else
        (if group ∈ seenGroups then
          [⟨joinPath path key, .group, "group \"" ++ group ++ "\" is not consecutive — it already " ++
            "appeared earlier and is interrupted by a different group, so it will render as two " ++
            "separate sections"⟩]
        else []) ++ groupFindings path (group :: seenGroups) (some group) properties

/-- `checkGroupOrder`. -/
def checkGroupOrder (properties : Node) (path : String) : List SchemaCheckFinding :=
  groupFindings path [] none properties

/-- What the name of a field breaks. -/
def nameFindings (path key : String) : List SchemaCheckFinding :=
  if key ∈ dangerousFieldNames then
    [⟨joinPath path key, .fieldNamePattern, "field name \"" ++ key ++ "\" is a reserved JavaScript " ++
        "property name and cannot be used as a parameter name (prototype-pollution risk)"⟩]
  else if !isIdentifier key.toList then
    [⟨joinPath path key, .fieldNamePattern, "field name \"" ++ key ++ "\" must match " ++
        "/^[A-Za-z_][A-Za-z0-9_]*$/ to keep declaration order a guarantee"⟩]
  else []

/-! ## The walk -/

/-- The variables the walk shares. -/
structure WalkState where
  findings : List SchemaCheckFinding
  fieldCount : Nat
  visits : Nat
  walkBudgetExceeded : Bool

/-- `findings.push(...)`. -/
def WalkState.push (st : WalkState) (findings : List SchemaCheckFinding) : WalkState :=
  { st with findings := st.findings ++ findings }

/-- A walk of a node at a path and a depth, among siblings, after the references of its branch. -/
abbrev Walker := Value → String → Nat → Option (List String) → List String → WalkState → WalkState

/-- The children under `properties`. -/
def walkProperties (walk : Walker) (path : String) (depth : Nat) (refPath : List String)
    (properties : Node) (st : WalkState) : WalkState :=
  let st := { st with fieldCount := st.fieldCount + properties.length }
  let st := st.push (checkGroupOrder properties path)
  properties.foldl
    (fun st p ↦ walk p.2 (joinPath path p.1) (depth + 1) (some (properties.map (·.1))) refPath
      (st.push (nameFindings path p.1)))
    st

/-- The schemas of a list of items. -/
def walkItems (walk : Walker) (path : String) (depth : Nat) (refPath : List String)
    (items : List Value) (st : WalkState) : WalkState :=
  items.zipIdx.foldl (fun st p ↦ walk p.1 (itemPath path p.2) (depth + 1) none refPath st) st

/-- The part of `walk` behind the references. -/
def walkNode (host : Host) (walk : Walker) (node : Node) (path : String) (depth : Nat)
    (siblingKeys : Option (List String)) (refPath : List String) (st : WalkState) : WalkState :=
  if depth > maxDepth then
    st.push [⟨path, .maxDepth, "nested past the " ++ toString maxDepth ++ "-level depth limit"⟩]
  else
    let st := st.push (checkNode host node path siblingKeys)
    let st :=
      match properties? node with
      | some properties => walkProperties walk path depth refPath properties st
      | none => st
    let st :=
      match node.prop "items" with
      | .arr items => walkItems walk path depth refPath items st
      | .undefined => st
      | items => walk items (path ++ "[]") (depth + 1) none refPath st
    match node.prop "prefixItems" with
    | .arr items => walkItems walk path depth refPath items st
    | _ => st

/-- `walk`. -/
def walk (host : Host) (root : Node) : Nat → Walker
  | 0 => fun _ _ _ _ _ st ↦ st
  | fuel + 1 => fun node path depth siblingKeys refPath st ↦
    match node with
    | .obj node =>
      let st := { st with visits := st.visits + 1 }
      if st.visits > maxWalkVisits then
        if st.walkBudgetExceeded then st
        else { st with walkBudgetExceeded := true }.push [⟨path, .ref, "schema is too large to check " ++
          "safely once $ref reuse is expanded — simplify it or remove shared references"⟩]
      else
        match ref? node with
        | some ref =>
          if ref ∈ refPath then
            st.push [⟨path, .ref, "schema contains a self-referential $ref cycle at \"" ++ ref ++ "\""⟩]
          else
            -- What has no target is `undefined` here, and nothing is walked.
            walk host root fuel (resolveRef root ref).toSchema path depth siblingKeys
              (ref :: refPath) st
        | none => walkNode host (walk host root fuel) node path depth siblingKeys refPath st
    | _ => st

/-- The bytes of a schema, if it has a text. -/
def sizeFindings (host : Host) (schema : Value) : List SchemaCheckFinding :=
  match jsonText host schema with
  | some serialized =>
    let bytes := (Utf8.encode serialized).length
    if bytes > maxSchemaBytes then
      [⟨"", .maxSchemaBytes, "schema is " ++ toString bytes ++ " bytes, over the " ++
        toString maxSchemaBytes ++ "-byte limit"⟩]
    else []
  | none => []

/-- `checkDeclaredSchema`. -/
def checkDeclaredSchema (host : Host) (schema : Value) : List SchemaCheckFinding :=
  match schema with
  | .undefined | .null => []
  | .obj root =>
    let st := walk host root (maxWalkVisits + 1) (.obj root) "" 0 none []
      ⟨sizeFindings host schema, 0, 0, false⟩
    st.findings ++
      if st.fieldCount > maxFields then
        [⟨"", .maxFields, toString st.fieldCount ++ " fields, over the " ++ toString maxFields ++
          "-field limit"⟩]
      else []
  | _ => sizeFindings host schema ++ [⟨"", .maxFields, "schema must be a JSON Schema object"⟩]

/-- Nothing is found but warnings. -/
def Accepted (host : Host) (schema : Value) : Prop :=
  ∀ finding ∈ checkDeclaredSchema host schema, finding.limit = .group

instance (host : Host) (schema : Value) : Decidable (Accepted host schema) :=
  inferInstanceAs (Decidable (∀ finding ∈ _, _))

end Enkaku.Schema
