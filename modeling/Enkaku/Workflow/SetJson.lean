import Enkaku.Lib.Utf16
import Enkaku.Workflow.Resolve

/-!
# The JSON of a `set` node: reading and writing

`readJson` of `workflow-set.ts`, and the `JSON.stringify(value, null, 2)` its texts come from.

A text is the list of its characters, and what is still unread is all a reading function needs: a
position in an error message is the code units before it.  Every reading function takes fuel, one
unit a call; `readJson` starts with more than any text can use.  Two things JavaScript has and this
does not: a string that is no well-formed UTF-16, and a number that is not finite, which is kept as
the `null` it is stored as.

How a number is written is a parameter.
-/

set_option autoImplicit false

namespace Enkaku

/-! ## Numbers -/

/-- The text of a JSON number: a sign, the digits, a fraction and an exponent. -/
def IsNumberText (cs : List Char) : Prop :=
  ∃ sign whole fraction exponent : List Char,
    cs = sign ++ (whole ++ (fraction ++ exponent)) ∧
    (sign = [] ∨ sign = ['-']) ∧
    (whole ≠ [] ∧ ∀ d ∈ whole, d.isDigit) ∧
    (fraction = [] ∨ ∃ ds, fraction = '.' :: ds ∧ ∀ d ∈ ds, d.isDigit) ∧
    (exponent = [] ∨ ∃ e sign ds, exponent = e :: (sign ++ ds) ∧ (e = 'e' ∨ e = 'E') ∧
      (sign = [] ∨ sign = ['+'] ∨ sign = ['-']) ∧ ds ≠ [] ∧ ∀ d ∈ ds, d.isDigit)

/-- `JSON.stringify` and `Number` on the numbers there are. -/
structure NumberText where
  /-- The finite numbers. -/
  IsNumber : ℚ → Prop
  /-- `JSON.stringify(q)`. -/
  write : ℚ → List Char
  /-- `Number(text)`, none when that is no finite number. -/
  read : List Char → Option ℚ
  isNumberText : ∀ {q : ℚ}, IsNumber q → IsNumberText (write q)
  read_write : ∀ {q : ℚ}, IsNumber q → read (write q) = some q

/-! ## Nodes -/

/-- A leaf of a document: anything but an object.  A number that is not finite is `none`. -/
inductive JsonLeaf where
  | null
  | bool (b : Bool)
  | num (q : Option ℚ)
  | str (s : String)
  | arr (items : List JsonLeaf)
  deriving Repr, Inhabited

/-- What `readJson` makes of a text. -/
inductive JsonNode where
  | leaf (value : JsonLeaf)
  | obj (entries : List (String × JsonNode))
  deriving Repr, Inhabited

/-- What `readJson` throws. -/
inductive JsonError where
  | duplicateKey (key : String)
  | malformed (message : String)
  deriving DecidableEq, Repr

namespace JsonError

/-- `err.message`. -/
def message : JsonError → String
  | duplicateKey key => s!"duplicate key \"{key}\""
  | malformed message => message

end JsonError

/-! ## Characters -/

/-- `/\s/`. -/
def isJsSpace (c : Char) : Bool :=
  ['\t', '\n', '\x0b', '\x0c', '\r', ' ', '\u00a0', '\u1680', '\u2028', '\u2029', '\u202f', '\u205f',
    '\u3000', '\ufeff'].contains c || ('\u2000' ≤ c && c ≤ '\u200a')

/-- `skipWs`. -/
def skipWs (rest : List Char) : List Char := rest.dropWhile isJsSpace

/-- The value of a hexadecimal digit. -/
def hexValue? (c : Char) : Option Nat :=
  if '0' ≤ c ∧ c ≤ '9' then some (c.toNat - 48)
  else if 'a' ≤ c ∧ c ≤ 'f' then some (c.toNat - 87)
  else if 'A' ≤ c ∧ c ≤ 'F' then some (c.toNat - 55)
  else none

/-- `Number.parseInt(text, 16)`: leading space, a sign and `0x` are allowed, and what follows the
digits is not looked at. -/
def parseInt16 (cs : List Char) : Option Int :=
  let cs := skipWs cs
  let negative := cs.head? = some '-'
  let cs := if negative ∨ cs.head? = some '+' then cs.tail else cs
  let cs := if cs.take 2 = ['0', 'x'] ∨ cs.take 2 = ['0', 'X'] then cs.drop 2 else cs
  let digits := (cs.map hexValue?).takeWhile (·.isSome) |>.reduceOption
  let value : Int := digits.foldl (fun n d ↦ 16 * n + d) 0
  if digits.isEmpty then none else some (if negative then -value else value)

/-- The code unit of `String.fromCharCode(Number.parseInt(text, 16))`. -/
def escapedUnit (cs : List Char) : Nat :=
  match parseInt16 cs with
  | none => 0
  | some n => (n % 65536).toNat

/-- The characters within the next `k` code units. -/
def takeUnits : Nat → List Char → List Char
  | 0, _ | _, [] => []
  | k + 1, c :: cs => c :: takeUnits (k + 1 - (Utf16.units c).length) cs

/-- What is left after the next `k` code units. -/
def dropUnits : Nat → List Char → List Char
  | 0, cs => cs
  | _, [] => []
  | k + 1, c :: cs => dropUnits (k + 1 - (Utf16.units c).length) cs

/-- The character of a one-letter escape. -/
def jsonEscape? : Char → Option Char
  | 'n' => some '\n'
  | 't' => some '\t'
  | 'r' => some '\r'
  | 'b' => some '\x08'
  | 'f' => some '\x0c'
  | '"' => some '"'
  | '\\' => some '\\'
  | '/' => some '/'
  | _ => none

/-! ## Reading -/

section Reading

variable (nt : NumberText) (text : List Char)

/-- The position of what is left of the text. -/
def position (rest : List Char) : Nat :=
  utf16Length (String.ofList text) - utf16Length (String.ofList rest)

/-- A `JsonSyntaxError` at a position. -/
def malformedAt {α : Type} (what : String) (rest : List Char) : Except JsonError α :=
  let i := position text rest
  .error (.malformed s!"{what} at position {i}")

/-- `expect`. -/
def expectLit (lit : String) (rest : List Char) : Except JsonError (List Char) :=
  if lit.toList.isPrefixOf rest then .ok (rest.drop lit.toList.length)
  else malformedAt text s!"expected \"{lit}\"" rest

/-- The loop of `readString`: the code units up to the closing quote. -/
def readChars : Nat → List Char → Except JsonError (List Nat × List Char)
  | 0, _ | _ + 1, [] => .error (.malformed "unterminated string")
  | fuel + 1, c :: rest =>
    if c = '"' then .ok ([], rest)
    else if c = '\\' then
      match rest with
      | [] => malformedAt text "bad escape \"\\undefined\"" []
      | e :: after =>
        match jsonEscape? e with
        | some out => do
          let (us, rest) ← readChars fuel after
          return (Utf16.units out ++ us, rest)
        | none =>
          if e = 'u' then do
            let (us, rest) ← readChars fuel (dropUnits 4 after)
            return (escapedUnit (takeUnits 4 after) :: us, rest)
          else malformedAt text s!"bad escape \"\\{e}\"" (e :: after)
    else do
      let (us, rest) ← readChars fuel rest
      return (Utf16.units c ++ us, rest)

/-- `readString`, after the opening quote. -/
def readString (rest : List Char) : Except JsonError (String × List Char) := do
  let (us, rest) ← readChars text (rest.length + 1) rest
  return (String.ofList (Utf16.decode us), rest)

/-- The fraction `readNumber` takes. -/
def fractionToken (cs : List Char) : List Char :=
  if cs.head? = some '.' then '.' :: cs.tail.takeWhile Char.isDigit else []

/-- The sign of an exponent. -/
def exponentSign (cs : List Char) : List Char :=
  if cs.head? = some '+' ∨ cs.head? = some '-' then cs.take 1 else []

/-- The exponent `readNumber` takes. -/
def exponentToken (cs : List Char) : List Char :=
  if cs.head? = some 'e' ∨ cs.head? = some 'E' then
    let sign := exponentSign cs.tail
    cs.take 1 ++ (sign ++ (cs.tail.drop sign.length).takeWhile Char.isDigit)
  else []

/-- The characters `readNumber` takes. -/
def numberToken (cs : List Char) : List Char :=
  let sign := if cs.head? = some '-' then ['-'] else []
  let whole := (cs.drop sign.length).takeWhile Char.isDigit
  let after := (cs.drop sign.length).dropWhile Char.isDigit
  let fraction := fractionToken after
  sign ++ (whole ++ (fraction ++ exponentToken (after.drop fraction.length)))

/-- What a document is refused for that has an object in an array. -/
def objectInArray : String :=
  "an object inside an array cannot become part of a \"set\" node's output"

mutual

/-- `readValue`. -/
def readValue : Nat → List Char → Except JsonError (JsonNode × List Char)
  | 0, rest => malformedAt text "unexpected token" rest
  | fuel + 1, rest =>
    match skipWs rest with
    | [] => malformedAt text "unexpected token" []
    | c :: cs =>
      if c = '{' then
        if (skipWs cs).head? = some '}' then .ok (.obj [], (skipWs cs).tail)
        else do
          let (entries, rest) ← readMembers [] fuel cs
          return (.obj entries, rest)
      else if c = '[' then
        if (skipWs cs).head? = some ']' then .ok (.leaf (.arr []), (skipWs cs).tail)
        else do
          let (items, rest) ← readItems fuel cs
          return (.leaf (.arr items), rest)
      else if c = '"' then do
        let (s, rest) ← readString text cs
        return (.leaf (.str s), rest)
      else if c = 't' then do
        let rest ← expectLit text "true" (c :: cs)
        return (.leaf (.bool true), rest)
      else if c = 'f' then do
        let rest ← expectLit text "false" (c :: cs)
        return (.leaf (.bool false), rest)
      else if c = 'n' then do
        let rest ← expectLit text "null" (c :: cs)
        return (.leaf .null, rest)
      else if c = '-' ∨ c.isDigit then
        let token := numberToken (c :: cs)
        .ok (.leaf (.num (nt.read token)), (c :: cs).drop token.length)
      else malformedAt text "unexpected token" (c :: cs)

/-- The loop of `readObject`, with the keys seen so far. -/
def readMembers : List String → Nat → List Char →
    Except JsonError (List (String × JsonNode) × List Char)
  | _, 0, rest => malformedAt text "unexpected token" rest
  | seen, fuel + 1, rest =>
    if (skipWs rest).head? = some '"' then do
      let (key, rest) ← readString text (skipWs rest).tail
      if seen.contains key then .error (.duplicateKey key)
      else if (skipWs rest).head? = some ':' then do
        let (value, rest) ← readValue fuel (skipWs rest).tail
        if (skipWs rest).head? = some ',' then do
          let (entries, rest) ← readMembers (key :: seen) fuel (skipWs rest).tail
          return ((key, value) :: entries, rest)
        else if (skipWs rest).head? = some '}' then return ([(key, value)], (skipWs rest).tail)
        else malformedAt text "expected \",\" or \"\x7d\"" (skipWs rest)
      else malformedAt text "expected \":\"" (skipWs rest)
    else malformedAt text "expected a string key" (skipWs rest)

/-- The loop of `readArray`. -/
def readItems : Nat → List Char → Except JsonError (List JsonLeaf × List Char)
  | 0, rest => malformedAt text "unexpected token" rest
  | fuel + 1, rest => do
    let (v, rest) ← readValue fuel rest
    match v with
    | .obj _ => malformedAt text objectInArray rest
    | .leaf item =>
      if (skipWs rest).head? = some ',' then do
        let (items, rest) ← readItems fuel (skipWs rest).tail
        return (item :: items, rest)
      else if (skipWs rest).head? = some ']' then return ([item], (skipWs rest).tail)
      else malformedAt text "expected \",\" or \"]\"" (skipWs rest)

end

/-- `readJson`. -/
def readJson : Except JsonError JsonNode := do
  let (value, rest) ← readValue nt text (2 * text.length + 1) text
  if skipWs rest = [] then return value
  else malformedAt text "unexpected trailing content" (skipWs rest)

end Reading

/-! ## Writing -/

/-- A hexadecimal digit, in lower case. -/
def hexDigit (n : Nat) : Char := Char.ofNat (if n < 10 then 48 + n else 87 + n)

/-- A character inside the quotes of `JSON.stringify`. -/
def quoteChar (c : Char) : List Char :=
  if c = '"' then ['\\', '"']
  else if c = '\\' then ['\\', '\\']
  else if c = '\x08' then ['\\', 'b']
  else if c = '\t' then ['\\', 't']
  else if c = '\n' then ['\\', 'n']
  else if c = '\x0c' then ['\\', 'f']
  else if c = '\r' then ['\\', 'r']
  else if c.toNat < 32 then ['\\', 'u', '0', '0', hexDigit (c.toNat / 16), hexDigit (c.toNat % 16)]
  else [c]

/-- `JSON.stringify` of a string. -/
def quote (cs : List Char) : List Char := '"' :: (cs.flatMap quoteChar ++ ['"'])

/-- A new line at a nesting depth, two spaces a level. -/
def newline (depth : Nat) : List Char := '\n' :: List.replicate (2 * depth) ' '

/-- The parts of an array or an object, one a line, between its brackets. -/
def layout (opening closing : Char) (depth : Nat) (parts : List (List Char)) : List Char :=
  if parts.isEmpty then [opening, closing]
  else opening :: (newline (depth + 1) ++ (',' :: newline (depth + 1)).intercalate parts ++
    newline depth ++ [closing])

section Writing

variable (nt : NumberText)

mutual

/-- `JSON.stringify(value, null, 2)` at a nesting depth; `undefined` has no text. -/
def stringify : Nat → Value → Option (List Char)
  | _, .undefined => none
  | _, .null => some "null".toList
  | _, .bool b => some (if b then "true".toList else "false".toList)
  | _, .num q => some (nt.write q)
  | _, .str s => some (quote s.toList)
  | depth, .arr items => some (layout '[' ']' depth (stringifyItems (depth + 1) items))
  | depth, .obj fields => some (layout '{' '}' depth (stringifyFields (depth + 1) fields))

/-- The items of an array, one part each. -/
def stringifyItems : Nat → List Value → List (List Char)
  | _, [] => []
  | depth, item :: items =>
    (stringify depth item).getD "null".toList :: stringifyItems depth items

/-- The properties of an object that have a text. -/
def stringifyFields : Nat → List (String × Value) → List (List Char)
  | _, [] => []
  | depth, (key, value) :: fields =>
    match stringify depth value with
    | some part => (quote key.toList ++ ':' :: ' ' :: part) :: stringifyFields depth fields
    | none => stringifyFields depth fields

end

end Writing

end Enkaku
