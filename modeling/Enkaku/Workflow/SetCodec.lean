import Enkaku.Lib.SplitOn
import Enkaku.Workflow.SetText

/-!
# The JSON of a `set` node: the codec

`assignmentsToJson` and `jsonToAssignments` of `workflow-set.ts`: a list of assignments as a JSON
document, one property a name, and back.  A string that starts with `=` is an expression, one that
starts with `==` a literal, and one with `{{ … }}` in it a template, compiled to an expression.
-/

set_option autoImplicit false

namespace Enkaku

/-! ## Templates -/

/-- The text before the first `cc`, and the text after it. -/
def splitPair (c : Char) : List Char → Option (List Char × List Char)
  | a :: b :: rest =>
    if a = c ∧ b = c then some ([], rest)
    else (splitPair c (b :: rest)).map fun r ↦ (a :: r.1, r.2)
  | _ => none

/-- The first match of `TEMPLATE_MARKER_RE`: the text before it, what it holds and the text after
it. -/
def templateMarker? (text : List Char) : Option (List Char × List Char × List Char) := do
  let (before, rest) ← splitPair '\x7b' text
  let (inside, after) ← splitPair '\x7d' rest
  return (before, inside, after)

/-- `hasTemplateMarkers`. -/
def hasTemplateMarkers (text : List Char) : Bool := (templateMarker? text).isSome

/-- `text.trim()`. -/
def jsTrim (text : List Char) : List Char := (skipWs (skipWs text).reverse).reverse

/-- The loop of `compileTemplate`.  Every marker takes four characters, so the length of the text is
fuel enough. -/
def templateParts : Nat → List Char → List (List Char)
  | 0, _ => []
  | fuel + 1, text =>
    match templateMarker? text with
    | some (before, inside, after) =>
      (if before.isEmpty then [] else [quote before]) ++
        ("toText(".toList ++ jsTrim inside ++ [')']) :: templateParts fuel after
    | none => if text.isEmpty then [] else [quote text]

/-- `compileTemplate`. -/
def compileTemplate (text : List Char) : List Char :=
  let parts := templateParts (text.length + 1) text
  if parts.isEmpty then quote text else " + ".toList.intercalate parts

/-! ## From JSON -/

namespace JsonLeaf

mutual

/-- A leaf as the constant it becomes. -/
def toValue : JsonLeaf → Value
  | .null | .num none => .null
  | .bool b => .bool b
  | .num (some q) => .num q
  | .str s => .str s
  | .arr items => .arr (itemsToValues items)

def itemsToValues : List JsonLeaf → List Value
  | [] => []
  | item :: items => toValue item :: itemsToValues items

end

end JsonLeaf

/-- `decodeLeaf`. -/
def decodeLeaf : JsonLeaf → ValueExpr
  | .str s =>
    match s.toList with
    | '=' :: '=' :: rest => .const (.str (String.ofList ('=' :: rest)))
    | '=' :: rest => .expr (String.ofList rest)
    | cs => if hasTemplateMarkers cs then .expr (String.ofList (compileTemplate cs)) else .const (.str s)
  | leaf => .const leaf.toValue

/-- `JsonRefuseReason`. -/
inductive JsonRefuseReason where
  | topLevelNotObject | duplicateKey | digitsOnlyKey | malformed
  deriving DecidableEq, Repr

/-- A refusal, with its message. -/
abbrev JsonRefusal := JsonRefuseReason × String

/-- What is said of a key of digits only. -/
def digitsOnlyKeyMessage (key : String) : String :=
  s!"the key \"{key}\" is only digits — dot notation builds nested objects, never an array index (plan 312 §3.4)"

mutual

/-- `collectAssignments` on one entry of an object: a leaf is an assignment, an object goes on. -/
def collectNode (path : List String) : JsonNode → Except JsonRefusal (List SetAssignment)
  | .leaf value => .ok [⟨.const (.str (".".intercalate path)), decodeLeaf value⟩]
  | .obj entries => collectAssignments path entries

/-- `collectAssignments`. -/
def collectAssignments (path : List String) :
    List (String × JsonNode) → Except JsonRefusal (List SetAssignment)
  | [] => .ok []
  | (key, value) :: entries =>
    if isDigitsOnlySegment key then .error (.digitsOnlyKey, digitsOnlyKeyMessage key)
    else do
      let out ← collectNode (path ++ [key]) value
      let rest ← collectAssignments path entries
      return out ++ rest

end

section Codec

variable (nt : NumberText)

/-- `jsonToAssignments`. -/
def jsonToAssignments (text : String) : Except JsonRefusal (List SetAssignment) :=
  match readJson nt text.toList with
  | .error (.duplicateKey key) => .error (.duplicateKey, (JsonError.duplicateKey key).message)
  | .error (.malformed message) => .error (.malformed, message)
  | .ok (.obj entries) => collectAssignments [] entries
  | .ok (.leaf (.arr _)) => .error (.topLevelNotObject,
    "the JSON document must be an object mapping field names to values — a top-level array cannot become assignments")
  | .ok (.leaf _) => .error (.topLevelNotObject,
    "the JSON document must be an object mapping field names to values")

/-! ## To JSON -/

/-- `encodeLeaf`. -/
def encodeLeaf : ValueExpr → Except String Value
  | .const (.str s) => .ok (.str (if s.toList.head? = some '=' then "=" ++ s else s))
  | .const value => .ok value
  | .expr source => .ok (.str ("=" ++ source))
  | _ => .error "this value is a workflow parameter, a node reference, or the run summary — switch it to Fixed or fx before viewing it as JSON"

/-- One turn of the loop of `assignmentsToJson`. -/
def writeAssignment (root : List (String × Value)) (a : SetAssignment) :
    Except String (List (String × Value)) :=
  let nameMessage :=
    "a field whose NAME is an expression cannot be shown as JSON — switch its name to Fixed first"
  match a.name with
  | .const (.str name) =>
    if name.isEmpty then .error nameMessage
    else do
      let value ← encodeLeaf a.value
      setPath root name value
  | _ => .error nameMessage

/-- `assignmentsToJson`. -/
def assignmentsToJson (assignments : List SetAssignment) : Except String String := do
  let root ← assignments.foldlM writeAssignment []
  return String.ofList ((stringify nt 0 (.obj root)).getD [])

end Codec

end Enkaku
