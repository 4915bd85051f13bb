import Enkaku.Workflow.SetJson
import Mathlib

/-!
# Nodes of a parameter schema

What `validate.ts`, `limits.ts` and `reconcile.ts` all read a schema with: properties of objects,
the keywords of a node, its `x-enkaku` hints, and the two readings of a `$ref`.

A schema is JSON, and a node is the list of the properties of an object in it.  A property is read
as JavaScript reads it: what an object has not got itself it may have from `Object.prototype`
(`Read`).  The keywords of a node are no names `Object.prototype` has, so they are read from the
node alone.

`derefNode` knows one form of reference, `resolveRef` every path.
-/

set_option autoImplicit false

namespace Enkaku.Schema

/-- The properties of an object. -/
abbrev Node := List (String × Value)

/-! ## Reading properties -/

/-- What a property of an object is: a value of its own, or what every object inherits. -/
inductive Read where
  /-- JSON, and `undefined` for a property that is not there. -/
  | own (v : Value)
  /-- A function of `Object.prototype`. -/
  | method
  /-- `Object.prototype` itself, which is what `__proto__` reads. -/
  | prototype
  deriving DecidableEq

/-- The functions of `Object.prototype`. -/
def objectMethods : List String :=
  ["constructor", "__defineGetter__", "__defineSetter__", "hasOwnProperty", "__lookupGetter__",
    "__lookupSetter__", "isPrototypeOf", "propertyIsEnumerable", "toString", "valueOf",
    "toLocaleString"]

namespace Read

/-- The properties of its own a plain object has. -/
def fields? : Read → Option Node
  | own (.obj fields) => some fields
  | prototype => some []
  | _ => none

/-- `isPlainObject`. -/
def isPlainObject (r : Read) : Bool := r.fields?.isSome

/-- `object[key]`. -/
def prop : Read → String → Read
  | own (.obj fields), key =>
    match OrdMap.get? key fields with
    | some v => own v
    | none =>
      if key = "__proto__" then prototype
      else if key ∈ objectMethods then method
      else own .undefined
  | prototype, key =>
    if key = "__proto__" then own .null
    else if key ∈ objectMethods then method
    else own .undefined
  | _, _ => own .undefined

/-- What is read, where a schema is expected: a function is no node, and `Object.prototype` is one
without keywords. -/
def toSchema : Read → Value
  | own v => v
  | method => .undefined
  | prototype => .obj []

end Read

/-- A property of a node, `undefined` if it has none. -/
def Node.prop (node : Node) (key : String) : Value := (OrdMap.get? key node).getD .undefined

/-- `joinPath`. -/
def joinPath (path key : String) : String := if path = "" then key else path ++ "." ++ key

/-- The path of an item. -/
def itemPath (path : String) (i : Nat) : String := path ++ "[" ++ toString i ++ "]"

/-- `SCHEMA_LIMITS.maxDepth`. -/
def maxDepth : Nat := 5

/-! ## Keywords -/

/-- `typeof v === 'string'`. -/
def string? : Value → Option String
  | .str s => some s
  | _ => none

/-- `typeof v === 'number'`. -/
def number? : Value → Option ℚ
  | .num q => some q
  | _ => none

/-- `declaredTypes`. -/
def declaredTypes (node : Node) : Option (List String) :=
  match node.prop "type" with
  | .str t => some [t]
  | .arr ts => some (ts.filterMap string?)
  | _ => none

/-- `node.$ref`, if it is a string. -/
def ref? (node : Node) : Option String := string? (node.prop "$ref")

/-- The branches of a node, `anyOf` before `oneOf`. -/
def branches? (node : Node) : Option (List Value) :=
  match node.prop "anyOf", node.prop "oneOf" with
  | .arr branches, _ => some branches
  | _, .arr branches => some branches
  | _, _ => none

/-- `isNullBranch`. -/
def isNullBranch : Value → Bool
  | .obj node => Node.prop node "type" = .str "null"
  | _ => false

/-- `requiredSet`, in order. -/
def requiredKeys (node : Node) : List String :=
  match node.prop "required" with
  | .arr keys => keys.filterMap string?
  | _ => []

/-- `node.properties`, if it is an object. -/
def properties? (node : Node) : Option Node :=
  match node.prop "properties" with
  | .obj properties => some properties
  | _ => none

/-- `isNumericSchema`. -/
def isNumericSchema : Value → Bool
  | .obj node =>
    match declaredTypes node with
    | some types => types.contains "number" || types.contains "integer"
    | none => false
  | _ => false

/-! ## Hints -/

/-- `PARAM_KINDS`. -/
inductive ParamKind where
  | count | chance | duration | timestamp | bytes | bitrate | pixels | temperature | text
  | packageName | workspaceFolder | workspaceFile | artifact | deviceIds | artifactIds
  deriving DecidableEq, Repr

def paramKind? : Value → Option ParamKind
  | .str "count" => some .count
  | .str "chance" => some .chance
  | .str "duration" => some .duration
  | .str "timestamp" => some .timestamp
  | .str "bytes" => some .bytes
  | .str "bitrate" => some .bitrate
  | .str "pixels" => some .pixels
  | .str "temperature" => some .temperature
  | .str "text" => some .text
  | .str "packageName" => some .packageName
  | .str "workspaceFolder" => some .workspaceFolder
  | .str "workspaceFile" => some .workspaceFile
  | .str "artifact" => some .artifact
  | .str "deviceIds" => some .deviceIds
  | .str "artifactIds" => some .artifactIds
  | _ => none

/-- The hints something here reads; the others are checked and dropped. -/
structure ParamHints where
  kind : Option ParamKind
  ordered : Option Bool
  group : Option String
  labels : Option (List (String × String))
  /-- `showWhen.field`. -/
  showWhen : Option String
  deriving DecidableEq

/-- `{}`. -/
def ParamHints.none : ParamHints := ⟨.none, .none, .none, .none, .none⟩

/-- A key of an object schema that need not be there. -/
def optionalKey {α : Type} (read : Value → Option α) (raw : Node) (key : String) :
    Option (Option α) :=
  match raw.prop key with
  | .undefined => some none
  | v => (read v).map some

def bool? : Value → Option Bool
  | .bool b => some b
  | _ => none

/-- A member of a fixed list of strings. -/
def oneOf? (members : List String) (v : Value) : Option String :=
  (string? v).filter (members.contains ·)

/-- `/^\.[a-z0-9]+(?:\.[a-z0-9]+)*$/`. -/
def isExtension (s : String) : Bool :=
  match s.toList.splitOn '.' with
  | [] :: part :: parts => (part :: parts).all fun p ↦ p ≠ [] && p.all fun c ↦ c.isLower || c.isDigit
  | _ => false

/-- One to ten extensions. -/
def extensions? : Value → Option Unit
  | .arr items =>
    if 1 ≤ items.length ∧ items.length ≤ 10 ∧ items.all (fun v ↦ ((string? v).map isExtension).getD false)
    then some () else none
  | _ => none

/-- `z.record(z.string(), z.string())`. -/
def labels? : Value → Option (List (String × String))
  | .obj fields => fields.mapM fun p ↦ (string? p.2).map (p.1, ·)
  | _ => none

def isScalar : Value → Bool
  | .str _ | .num _ | .bool _ => true
  | _ => false

/-- `ShowWhenSchema`: the sibling it names. -/
def showWhen? : Value → Option String
  | .obj raw =>
    match Node.prop raw "field" with
    | .str field =>
      if isScalar (Node.prop raw "is") then some field
      else match Node.prop raw "in" with
        | .arr items => if items.all isScalar then some field else none
        | _ => none
    | _ => none
  | _ => none

def durationUnits : List String := ["ms", "s", "min", "h"]

def enforcementLevels : List String := ["hard", "sampled", "advisory"]

def paramSources : List String :=
  ["registry.transports", "registry.displays", "registry.inputs", "registry.inspectors",
    "registry.networks", "devices", "groups", "scripts"]

/-- At most 200 characters. -/
def hint? (v : Value) : Option String := (string? v).filter fun s ↦ utf16Length s ≤ 200

/-- `ParamHintsSchema.safeParse`: the shape first, then the keys that belong to one kind. -/
def parseHints : Value → Option ParamHints
  | .obj raw => do
    let kind ← optionalKey paramKind? raw "kind"
    let unit ← optionalKey (oneOf? durationUnits) raw "unit"
    let extensions ← optionalKey extensions? raw "extensions"
    let ordered ← optionalKey bool? raw "ordered"
    let _ ← optionalKey bool? raw "multiline"
    let group ← optionalKey string? raw "group"
    let _ ← optionalKey bool? raw "advanced"
    let _ ← optionalKey (oneOf? paramSources) raw "source"
    let labels ← optionalKey labels? raw "labels"
    let showWhen ← optionalKey showWhen? raw "showWhen"
    let _ ← optionalKey (oneOf? enforcementLevels) raw "enforcement"
    let _ ← optionalKey bool? raw "summary"
    let _ ← optionalKey hint? raw "hint"
    guard (kind = some .duration ↔ unit.isSome)
    guard (extensions.isSome → kind = some .workspaceFile)
    return ⟨kind, ordered, group, labels, showWhen⟩
  | _ => none

/-- `readHints`. -/
def readHints (node : Node) : ParamHints := (parseHints (node.prop "x-enkaku")).getD .none

/-! ## References -/

/-- `resolveRef` of `limits.ts`, and `resolveRefOnce` of `reconcile.ts`: one reference, any path. -/
def resolveRef (root : Node) (ref : String) : Read :=
  if ref = "#" then .own (.obj root)
  else
    let rest := if ref.toList.head? = some '#' then ref.toList.tail else ref.toList
    let rest := if ref.toList.head? = some '#' ∧ rest.head? = some '/' then rest.tail else rest
    let segments := ((rest.splitOn '/').filter (· ≠ [])).map String.ofList
    segments.foldl (fun cur segment ↦ if cur.isPlainObject then cur.prop segment else .own .undefined)
      (.own (.obj root))

/-- The name in `/^#\/\$defs\/(.+)$/`. -/
def defsName? (ref : String) : Option String :=
  let name := ref.toList.drop 8
  if ref.toList.take 8 = "#/$defs/".toList ∧ name ≠ [] ∧
      ∀ c ∈ name, c ∉ ['\n', '\r', '\u2028', '\u2029'] then some (String.ofList name)
  else none

/-- The node `derefNode` finds for one reference. -/
def defsTarget (root : Node) (ref : String) : Option Node := do
  let name ← defsName? ref
  if (Read.own (root.prop "$defs")).isPlainObject then
    ((Read.own (root.prop "$defs")).prop name).fields?
  else none

/-- The loop of `derefNode`, with the references followed so far: the node a chain of references
ends in, none where one is met again or has no target.  Every turn but the last follows another name
of `$defs`, which bounds their number. -/
def derefLoop (root : Node) : Nat → Node → List String → Option Node × List String
  | 0, _, visited => (none, visited)
  | fuel + 1, node, visited =>
    match ref? node with
    | none => (some node, visited)
    | some ref =>
      if ref ∈ visited then (none, visited)
      else match defsTarget root ref with
        | none => (none, ref :: visited)
        | some target => derefLoop root fuel target (ref :: visited)

/-- `derefNode`. -/
def derefNode (root node : Node) (visited : List String) : Option Node × List String :=
  derefLoop root ((((Read.own (root.prop "$defs")).fields?).getD []).length + 3) node visited

end Enkaku.Schema
