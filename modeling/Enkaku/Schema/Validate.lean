import Enkaku.Schema.Node

/-!
# Validating parameters

`validateAgainstSchema`: one walk over the schema and the value together, which threads the
references it has followed and pushes an issue for every rule the value breaks.

The walk is a log.  Beside the issues it holds, for the statements about it only, where the walk
asks `derefNode` for a node, where it chooses among branches and where it compares a pair.  What a
node says without its children is `valueIssues`.
-/

set_option autoImplicit false

namespace Enkaku.Schema

/-- What the code has from its surroundings. -/
structure Host where
  /-- How a number is written. -/
  number : NumberText
  /-- `new URL(value)` does not throw. -/
  isUrl : String → Bool
  /-- `Date.parse(value)` is a number. -/
  isDate : String → Bool
  /-- The issues of a `safeParse` of hints that failed. -/
  hintMessages : Value → List String
  hintMessages_ne_nil : ∀ v, hintMessages v ≠ []

structure ParamIssue where
  path : String
  message : String
  deriving DecidableEq, Repr

/-! ## Texts -/

section Texts

variable (host : Host)

/-- `${q}`. -/
def numberText (q : ℚ) : String := String.ofList (host.number.write q)

mutual

/-- `JSON.stringify(value)`; `undefined` has no text. -/
def jsonText : Value → Option String
  | .undefined => none
  | .null => some "null"
  | .bool b => some (if b then "true" else "false")
  | .num q => some (numberText host q)
  | .str s => some (String.ofList (quote s.toList))
  | .arr items => some ("[" ++ ",".intercalate (itemTexts items) ++ "]")
  | .obj fields => some ("\x7b" ++ ",".intercalate (fieldTexts fields) ++ "\x7d")

def itemTexts : List Value → List String
  | [] => []
  | item :: items => (jsonText item).getD "null" :: itemTexts items

def fieldTexts : List (String × Value) → List String
  | [] => []
  | (key, value) :: fields =>
    match jsonText value with
    | some text => (String.ofList (quote key.toList) ++ ":" ++ text) :: fieldTexts fields
    | none => fieldTexts fields

end

mutual

/-- An item as `join` writes it. -/
def joinedText : Value → String
  | .undefined | .null => ""
  | .bool b => if b then "true" else "false"
  | .num q => numberText host q
  | .str s => s
  | .arr items => ",".intercalate (joinedTexts items)
  | .obj _ => "[object Object]"

def joinedTexts : List Value → List String
  | [] => []
  | item :: items => joinedText item :: joinedTexts items

end

end Texts

/-! ## Formats -/

/-- A text of this shape, where `d` stands for a digit. -/
def hasShape (shape cs : List Char) : Bool :=
  shape.length = cs.length && (shape.zip cs).all fun p ↦ if p.1 = 'd' then p.2.isDigit else p.1 = p.2

/-- `/^[^\s@]+@[^\s@]+\.[^\s@]+$/`. -/
def isValidEmail (s : String) : Bool :=
  s.toList.all (!isJsSpace ·) &&
    match s.toList.splitOn '@' with
    | [name, domain] => name ≠ [] && (domain.drop 1).dropLast.contains '.'
    | _ => false

/-- `Z`, an offset or nothing. -/
def isZone (cs : List Char) : Bool :=
  cs = [] || cs = ['Z'] || hasShape "+dd:dd".toList cs || hasShape "-dd:dd".toList cs

/-- `/^\d{4}-\d{2}-\d{2}T\d{2}:\d{2}:\d{2}(\.\d+)?(Z|[+-]\d{2}:\d{2})?$/`. -/
def isDateTimeText (cs : List Char) : Bool :=
  let rest := cs.drop 19
  hasShape "dddd-dd-ddTdd:dd:dd".toList (cs.take 19) &&
    (isZone rest ||
      (rest.head? = some '.' && rest.tail.takeWhile Char.isDigit ≠ [] &&
        isZone (rest.tail.dropWhile Char.isDigit)))

def isValidDateTime (host : Host) (s : String) : Bool := isDateTimeText s.toList && host.isDate s

/-- `/^[A-Za-z_][A-Za-z0-9_]*$/`. -/
def isIdentifier (cs : List Char) : Bool :=
  match cs with
  | [] => false
  | c :: cs => (c.isAlpha || c = '_') && cs.all fun c ↦ c.isAlphanum || c = '_'

/-- `/^[A-Za-z_][A-Za-z0-9_]*(\.[A-Za-z_][A-Za-z0-9_]*)+$/`. -/
def isValidPackageName (s : String) : Bool :=
  2 ≤ (s.toList.splitOn '.').length && (s.toList.splitOn '.').all isIdentifier

/-! ## Rules without children -/

/-- `Number.MAX_SAFE_INTEGER`. -/
def unbounded : ℚ := 9007199254740991

/-- `matchesType`. -/
def matchesType (value : Read) : String → Bool
  | "string" => match value with | .own (.str _) => true | _ => false
  | "number" => match value with | .own (.num _) => true | _ => false
  | "integer" => match value with | .own (.num q) => q.den = 1 | _ => false
  | "boolean" => match value with | .own (.bool _) => true | _ => false
  | "array" => match value with | .own (.arr _) => true | _ => false
  | "object" => value.isPlainObject
  | "null" => value = .own .null
  | _ => true

/-- `value === v`: no two objects are the same one. -/
def isSame (value : Read) (v : Value) : Bool :=
  match value, v with
  | .own _, .arr _ | .own _, .obj _ => false
  | .own w, v => w = v
  | _, _ => false

section Local

variable (host : Host)

/-- An issue if a bound the node has is broken. -/
def boundIssue (node : Node) (keyword : String) (path : String) (broken : ℚ → Bool)
    (message : String → String) : List ParamIssue :=
  match number? (node.prop keyword) with
  | some bound => if broken bound then [⟨path, message (numberText host bound)⟩] else []
  | none => []

/-- `Math.abs(Math.round(ratio) - ratio) > 1e-9`, where the step is positive. -/
def isOffStep (value step : ℚ) : Bool :=
  let ratio := value / step
  0 < step && 1 / 1000000000 < |(⌊ratio + 1 / 2⌋ : ℚ) - ratio|

/-- `checkNumber`. -/
def checkNumber (node : Node) (value : ℚ) (path : String) : List ParamIssue :=
  boundIssue host node "minimum" path (fun b ↦ b ≠ -unbounded && value < b)
      (fun t ↦ "must be at least " ++ t) ++
    boundIssue host node "maximum" path (fun b ↦ b ≠ unbounded && value > b)
      (fun t ↦ "must be at most " ++ t) ++
    boundIssue host node "exclusiveMinimum" path (fun b ↦ value ≤ b)
      (fun t ↦ "must be greater than " ++ t) ++
    boundIssue host node "exclusiveMaximum" path (fun b ↦ value ≥ b)
      (fun t ↦ "must be less than " ++ t) ++
    boundIssue host node "multipleOf" path (isOffStep value) (fun t ↦ "must be a multiple of " ++ t) ++
    if (readHints node).kind = some .chance ∧ (value < 0 ∨ value > 1) then
      [⟨path, "must be between 0 and 1"⟩]
    else []

/-- `checkString`. -/
def checkString (node : Node) (value : String) (path : String) : List ParamIssue :=
  let format := node.prop "format"
  boundIssue host node "minLength" path (fun b ↦ (utf16Length value : ℚ) < b)
      (fun t ↦ "must be at least " ++ t ++ " characters") ++
    boundIssue host node "maxLength" path (fun b ↦ (utf16Length value : ℚ) > b)
      (fun t ↦ "must be at most " ++ t ++ " characters") ++
    (if format = .str "email" ∧ !isValidEmail value then
      [⟨path, "must be a valid email address"⟩] else []) ++
    (if format = .str "uri" ∧ !host.isUrl value then [⟨path, "must be a valid URI"⟩] else []) ++
    (if format = .str "date-time" ∧ !isValidDateTime host value then
      [⟨path, "must be a valid date and time"⟩] else []) ++
    if (readHints node).kind = some .packageName ∧ !isValidPackageName value then
      [⟨path, "must be a valid Android package name (e.g. com.example.app)"⟩]
    else []

/-- The ordered-pair rule of `checkTuple`. -/
def orderIssue (node : Node) (prefixItems values : List Value) (path : String) : List ParamIssue :=
  match prefixItems, values with
  | [item₁, item₂], [.num lo, .num hi] =>
    if isNumericSchema item₁ ∧ isNumericSchema item₂ ∧ (readHints node).ordered ≠ some false ∧ lo > hi
    then [⟨path, "the lower bound cannot be greater than the upper bound"⟩]
    else []
  | _, _ => []

/-- What a node says about a value without going into it, and whether that is all it says. -/
def valueIssues (node : Node) (value : Read) (path : String) : List ParamIssue × Bool :=
  let types := (declaredTypes node).getD []
  if value = .own .undefined then ([], true)
  else if value = .own .null then
    (if (declaredTypes node).isSome ∧ "null" ∉ types then [⟨path, "must not be empty"⟩] else [], true)
  else if (declaredTypes node).isSome ∧ !types.any (matchesType value) then
    ([⟨path, "must be a " ++ " or ".intercalate types⟩], true)
  else match node.prop "enum" with
  | .arr members =>
    (if members.any (isSame value) then []
      else [⟨path, "choose one of: " ++ ", ".intercalate (joinedTexts host members)⟩], true)
  | _ =>
    match OrdMap.get? "const" node with
    | some v =>
      (if isSame value v then [] else [⟨path, "must be " ++ (jsonText host v).getD "undefined"⟩], true)
    | none =>
      if "number" ∈ types ∨ "integer" ∈ types then
        (match value with | .own (.num q) => checkNumber host node q path | _ => [], true)
      else if "string" ∈ types then
        (match value with | .own (.str s) => checkString host node s path | _ => [], true)
      else if "boolean" ∈ types then ([], true)
      else ([], false)

end Local

/-! ## The walk -/

/-- An entry of the log of a walk. -/
inductive Entry where
  | issue (i : ParamIssue)
  /-- Ghost: a node with a `$ref` is met, with so many levels left, and these references followed. -/
  | met (fuel : Nat) (node : Node) (value : Read) (path : String) (visited : List String)
  /-- Ghost: a choice among branches. -/
  | choice (branches : List Value)
  /-- Ghost: the items of a tuple and its values are compared. -/
  | compared (prefixItems values : List Value)

/-- The issues of a log, in order. -/
def issues (log : List Entry) : List ParamIssue :=
  log.filterMap fun
    | .issue i => some i
    | _ => none

/-- A part of the walk: its log, and the references followed after it. -/
abbrev Walk := List String → List Entry × List String

/-- A walk of a node along a value, at a path. -/
abbrev Checker := Value → Read → String → Walk

namespace Walk

/-- No step. -/
def stop (is : List ParamIssue) : Walk := fun visited ↦ (is.map .issue, visited)

/-- One walk after another. -/
def andThen (w w' : Walk) : Walk := fun visited ↦
  let (log, visited) := w visited
  let (log', visited) := w' visited
  (log ++ log', visited)

/-- Notes a ghost entry first. -/
def noting (entry : Entry) (w : Walk) : Walk := fun visited ↦
  let (log, visited) := w visited
  (entry :: log, visited)

/-- `forEach`. -/
def each {α : Type} (f : α → Walk) : List α → Walk
  | [] => stop []
  | a :: as => andThen (f a) (each f as)

end Walk

section Walks

variable (host : Host) (root : Node)

/-- `checkTuple`. -/
def checkTuple (check : Checker) (node : Node) (prefixItems : List Value) (value : Read)
    (path : String) : Walk :=
  match value with
  | .own (.arr values) =>
    if values.length ≠ prefixItems.length then
      .stop [⟨path, "must have exactly " ++ toString prefixItems.length ++ " values"⟩]
    else
      .noting (.compared prefixItems values)
        (.andThen
          (.each (fun p ↦ check p.1.1 (.own p.1.2) (itemPath path p.2))
            (prefixItems.zip values).zipIdx)
          (.stop (orderIssue node prefixItems values path)))
  | _ => .stop [⟨path, "must be a list"⟩]

/-- `checkArray`. -/
def checkArray (check : Checker) (node : Node) (value : Read) (path : String) : Walk :=
  match value with
  | .own (.arr values) =>
    .andThen
      (.stop (boundIssue host node "minItems" path (fun b ↦ (values.length : ℚ) < b)
          (fun t ↦ "must have at least " ++ t ++ " items") ++
        boundIssue host node "maxItems" path (fun b ↦ (values.length : ℚ) > b)
          (fun t ↦ "must have at most " ++ t ++ " items")))
      (match node.prop "items" with
        | .obj items =>
          .each (fun p ↦ check (.obj items) (.own p.1) (itemPath path p.2)) values.zipIdx
        | _ => .stop [])
  | _ => .stop [⟨path, "must be a list"⟩]

/-- `checkObject`. -/
def checkObject (check : Checker) (node : Node) (value : Read) (path : String) : Walk :=
  if value.isPlainObject then
    .andThen
      (.stop (((requiredKeys node).filter fun key ↦ value.prop key = .own .undefined).map fun key ↦
        ⟨joinPath path key, "required"⟩))
      (.each (fun p ↦
          if value.prop p.1 = .own .undefined then .stop []
          else check p.2 (value.prop p.1) (joinPath path p.1))
        ((properties? node).getD []))
  else .stop [⟨path, "must be an object"⟩]

/-- `check`, from where the references of the node are resolved. -/
def checkResolved (check : Checker) (node : Node) (value : Read) (path : String) : Walk :=
  match branches? node with
  | some branches =>
    .noting (.choice branches)
      (if value = .own .null ∧ branches.any isNullBranch then .stop []
      else match branches.filter (!isNullBranch ·) with
        | [real] => check real value path
        | _ => .stop [])
  | none =>
    let (is, done) := valueIssues host node value path
    if done then .stop is
    else match node.prop "prefixItems" with
      | .arr prefixItems => checkTuple check node prefixItems value path
      | _ =>
        let types := (declaredTypes node).getD []
        if "array" ∈ types then checkArray host check node value path
        else if "object" ∈ types ∨ (properties? node).isSome then checkObject check node value path
        else .stop []

/-- `check`, with the levels left before `maxDepth`. -/
def check : Nat → Checker
  | 0 => fun _ _ _ ↦ .stop []
  | fuel + 1 => fun nodeIn value path visited ↦
    match nodeIn with
    | .obj node =>
      let met := if (ref? node).isSome then [Entry.met (fuel + 1) node value path visited] else []
      match derefNode root node visited with
      | (none, visited) => (met, visited)
      | (some resolved, visited) =>
        let (log, visited) := checkResolved host (check fuel) resolved value path visited
        (met ++ log, visited)
    | _ => ([], visited)

/-- `undefined` and `null` are no parameters. -/
def paramsOf (value : Value) : Value :=
  if value = .undefined ∨ value = .null then .obj [] else value

/-- The log of `validateAgainstSchema` for a schema that is an object. -/
def validationLog (value : Value) : List Entry :=
  (check host root (maxDepth + 1) (.obj root) (.own (paramsOf value)) "" []).1

end Walks

/-- `validateAgainstSchema`. -/
def validateAgainstSchema (host : Host) (schema value : Value) : Except (List ParamIssue) Unit :=
  match schema with
  | .obj root =>
    match issues (validationLog host root value) with
    | [] => .ok ()
    | is => .error is
  | _ => .ok ()

end Enkaku.Schema
