import Enkaku.Expr.Ast
import Mathlib

/-!
# The tokeniser and the parser

`parse.ts`: the text of an expression is cut into tokens, and a recursive descent builds the tree.

The tokens end where the text does, so instead of a token for the end the parser's state knows its
offset.  Offsets count UTF-16 code units.  A nesting level is the number of levels below it that
are still allowed: the source counts up to `maxDepth`, `parsers` counts down to nothing.
-/

set_option autoImplicit false

namespace Enkaku

/-- `ExprParseError`. -/
structure ExprParseError where
  message : String
  offset : Nat
  deriving DecidableEq, Repr

/-! ## Tokens -/

/-- A token, by its type, with its value. -/
inductive Tok where
  | num (text : String)
  | str (value : String)
  | ident (name : String)
  | root (name : RootName)
  | punct (text : String)
  | eof
  deriving DecidableEq, Repr

namespace Tok

/-- `token.value`. -/
def value : Tok → String
  | num text => text
  | str value => value
  | ident name => name
  | root name => name.text
  | punct text => text
  | eof => ""

/-- `token.value || '<end>'`. -/
def shown (t : Tok) : String := if t.value.isEmpty then "<end>" else t.value

end Tok

structure Token where
  tok : Tok
  offset : Nat
  deriving DecidableEq, Repr

/-- `PUNCT_2`. -/
def punct2 : List String := ["&&", "||", "==", "!=", "<=", ">="]

/-- `PUNCT_1`. -/
def punct1 : List Char := "+-*/%!<>?:.()[],".toList

def isDigit (c : Char) : Bool := '0' ≤ c && c ≤ '9'

def isIdentStart (c : Char) : Bool := ('a' ≤ c && c ≤ 'z') || ('A' ≤ c && c ≤ 'Z') || c == '_'

def isIdentPart (c : Char) : Bool := isIdentStart c || isDigit c

/-- The characters between tokens. -/
def isSpace (c : Char) : Bool := c == ' ' || c == '\t' || c == '\n' || c == '\r'

/-- How many code units a character takes. -/
def codeUnits (c : Char) : Nat := if c.val > 0xFFFF then 2 else 1

/-- The code units of a text. -/
def unitsOf (cs : List Char) : Nat := (cs.map codeUnits).sum

/-- The rest of a number after its first digit: the digits, then a point with digits after it.
Returns what was read and what is left. -/
def scanNumber (cs : List Char) : List Char × List Char :=
  let whole := cs.takeWhile isDigit
  match cs.dropWhile isDigit with
  | '.' :: d :: rest =>
    if isDigit d then
      (whole ++ '.' :: d :: rest.takeWhile isDigit, rest.dropWhile isDigit)
    else (whole, '.' :: d :: rest)
  | rest => (whole, rest)

/-- The character an escape stands for. -/
def escape? : Char → Option Char
  | 'n' => some '\n'
  | 't' => some '\t'
  | 'r' => some '\r'
  | '\\' => some '\\'
  | '"' => some '"'
  | '\'' => some '\''
  | _ => none

/-- The rest of a string literal after its opening quote: its value and what is left.  `start` is
the offset of the opening quote and `j` the offset reached. -/
def scanString (quote : Char) (start : Nat) :
    Nat → List Char → List Char → Except ExprParseError (List Char × List Char)
  | _, _, [] => .error ⟨"unterminated string literal", start⟩
  | j, out, [c] =>
    if c = quote then .ok (out, [])
    else if c = '\\' then .error ⟨"unknown escape '\\'", j⟩
    else .error ⟨"unterminated string literal", start⟩
  | j, out, c :: esc :: rest =>
    if c = quote then .ok (out, esc :: rest)
    else if c = '\\' then
      match escape? esc with
      | some e => scanString quote start (j + 2) (out ++ [e]) rest
      | none => .error ⟨s!"unknown escape '\\{esc}'", j⟩
    else scanString quote start (j + codeUnits c) (out ++ [c]) (esc :: rest)

/-- The token the text starts with, at an offset, and what is left of the text. -/
def scanToken (offset : Nat) (c : Char) (cs : List Char) : Except ExprParseError (Tok × List Char) :=
  if isDigit c then
    .ok (.num (String.ofList (c :: (scanNumber cs).1)), (scanNumber cs).2)
  else if c = '"' ∨ c = '\'' then
    match scanString c offset (offset + 1) [] cs with
    | .error e => .error e
    | .ok (out, rest) => .ok (.str (String.ofList out), rest)
  else if c = '$' then
    let name := String.ofList (c :: cs.takeWhile isIdentPart)
    match RootName.all.find? fun r ↦ r.text = name with
    | none => .error ⟨s!"unknown root '{name}'", offset⟩
    | some r => .ok (.root r, cs.dropWhile isIdentPart)
  else if isIdentStart c then
    .ok (.ident (String.ofList (c :: cs.takeWhile isIdentPart)), cs.dropWhile isIdentPart)
  else if punct2.contains (String.ofList (c :: cs.take 1)) then
    .ok (.punct (String.ofList (c :: cs.take 1)), cs.drop 1)
  else if punct1.contains c then .ok (.punct (String.ofList [c]), cs)
  else .error ⟨s!"unexpected character '{c}'", offset⟩

/-- The loop of `tokenize`, at an offset.  Every turn reads a character, so `fuel` characters of
text take at most `fuel` turns. -/
def scanTokens : Nat → Nat → List Char → Except ExprParseError (List Token)
  | 0, _, _ => .ok []
  | _ + 1, _, [] => .ok []
  | fuel + 1, offset, c :: cs =>
    if isSpace c then scanTokens fuel (offset + 1) cs
    else
      match scanToken offset c cs with
      | .error e => .error e
      | .ok (tok, rest) =>
        match scanTokens fuel (offset + unitsOf (c :: cs) - unitsOf rest) rest with
        | .error e => .error e
        | .ok tokens => .ok (⟨tok, offset⟩ :: tokens)

/-- `tokenize`. -/
def tokenize (source : String) : Except ExprParseError (List Token) :=
  scanTokens source.toList.length 0 source.toList

/-! ## The state of the parser -/

/-- What is left to read, the offset of the end, and the nodes made so far. -/
structure ParseState where
  rest : List Token
  stop : Nat
  nodeCount : Nat
  deriving DecidableEq, Repr

/-- A step of the parser. -/
abbrev Parsing (α : Type) := StateT ParseState (Except ExprParseError) α

namespace ParseState

/-- `peek`. -/
def peek (s : ParseState) : Token := s.rest.headD ⟨.eof, s.stop⟩

end ParseState

def peek : Parsing Token := fun s ↦ .ok (s.peek, s)

/-- `tokens[pos + 1]`. -/
def peekNext : Parsing (Option Token) := fun s ↦ .ok (s.rest.tail.head?, s)

def advance : Parsing Unit := fun s ↦ .ok ((), { s with rest := s.rest.tail })

def parseError {α : Type} (message : String) (offset : Nat) : Parsing α := fun _ ↦
  .error ⟨message, offset⟩

/-- `match('punct', text)`: the token, when it was there to take. -/
def matchPunct (text : String) : Parsing (Option Token) := do
  let t ← peek
  if t.tok = .punct text then
    advance
    return some t
  else return none

/-- What `expect` throws at `t`. -/
def expected {α : Type} (what : String) (t : Token) : Parsing α :=
  let shown := t.tok.shown
  parseError s!"expected '{what}', got '{shown}'" t.offset

/-- `expect('punct', text)`. -/
def expectPunct (text : String) : Parsing Unit := do
  match ← matchPunct text with
  | some _ => return ()
  | none => expected text (← peek)

/-- `expect('ident')`: the name, and its offset. -/
def expectIdent : Parsing (String × Nat) := do
  let t ← peek
  match t.tok with
  | .ident name =>
    advance
    return (name, t.offset)
  | _ => expected "ident" t

/-- `node`: one more node has been made. -/
def countNode (offset : Nat) : Parsing Unit := fun s ↦
  if exprLimits.maxAstNodes < s.nodeCount + 1 then
    .error ⟨"expression has too many nodes", offset⟩
  else .ok ((), { s with nodeCount := s.nodeCount + 1 })

/-! ## The grammar, level by level -/

/-- `FUNCTION_NAMES`: the closed table, and the two functions of the scope. -/
def functionNames : List String :=
  ["len", "lower", "upper", "trim", "contains", "startsWith", "endsWith", "split", "join",
    "replace", "slice", "padStart", "padEnd", "abs", "floor", "ceil", "round", "min", "max",
    "clamp", "toNumber", "first", "last", "at", "unique", "sort", "reverse", "count", "has",
    "keys", "get", "default", "coalesce", "isEmpty", "notEmpty", "toText", "toJson", "fromJson",
    "type", "pluck", "filterWhere", "rand", "now"]

section Parser

variable {number : Type} (toNumber : String → number)

/-- `KEYWORD_LITERALS`. -/
def keywordLiteral? : String → Option (Literal number)
  | "true" => some (.bool true)
  | "false" => some (.bool false)
  | "null" => some .null
  | _ => none

/-- `expression is nested too deeply`, at the next token. -/
def tooDeep {α : Type} (offset : Nat) : Parsing α := parseError "expression is nested too deeply" offset

/-- A leaf: the token is taken and counted. -/
def leaf (e : Expr number) (offset : Nat) : Parsing (Expr number) := do
  advance
  countNode offset
  return e

variable (inner : Parsing (Expr number))

/-- The arguments after a comma; `fuel` tokens hold at most `fuel` of them. -/
def parseArgs : Nat → List (Expr number) → Parsing (List (Expr number))
  | 0, args => return args
  | fuel + 1, args => do
    match ← matchPunct "," with
    | some _ => parseArgs fuel (args ++ [← inner])
    | none => return args

/-- The tokens left. -/
def tokensLeft : Parsing Nat := fun s ↦ .ok (s.rest.length, s)

/-- What stands between the parentheses of a call. -/
def parseArgList : Parsing (List (Expr number)) := do
  let t ← peek
  if t.tok = .punct ")" then return []
  else
    let arg ← inner
    parseArgs inner (← tokensLeft) [arg]

/-- A call, from its name on. -/
def parseCall (name : String) (offset : Nat) : Parsing (Expr number) :=
  if functionNames.contains name then do
    advance
    advance
    let args ← parseArgList inner
    expectPunct ")"
    countNode offset
    return .call name args
  else parseError s!"unknown function '{name}'" offset

/-- What `parsePrimary` throws at a token that starts nothing. -/
def unexpected {α : Type} (t : Token) : Parsing α :=
  let shown := t.tok.shown
  parseError s!"unexpected token '{shown}'" t.offset

/-- `parsePrimary`; `inner` parses an expression one level down. -/
def parsePrimary : Parsing (Expr number) := do
  let t ← peek
  match t.tok with
  | .num text => leaf (.lit (.num (toNumber text))) t.offset
  | .str value => leaf (.lit (.str value)) t.offset
  | .root name => leaf (.root name) t.offset
  | .ident name =>
    match keywordLiteral? name with
    | some v => leaf (.lit v) t.offset
    | none =>
      if (← peekNext).any fun t ↦ t.tok = .punct "(" then parseCall inner name t.offset
      else parseError s!"bare identifier '{name}' is only legal as a function call" t.offset
  | .punct text =>
    if text = "(" then
      advance
      let e ← inner
      expectPunct ")"
      return e
    else unexpected t
  | .eof => unexpected t

/-- The loop of `parsePostfix`; `fuel` tokens hold at most `fuel` turns of it. -/
def accessLoop : Nat → Expr number → Parsing (Expr number)
  | 0, e => return e
  | fuel + 1, e => do
    match ← matchPunct "." with
    | some _ =>
      let (key, offset) ← expectIdent
      countNode offset
      accessLoop fuel (.member e key)
    | none =>
      match ← matchPunct "[" with
      | some open_ =>
        let idx ← inner
        if idx.isStringLiteral then
          parseError "a string literal index is not allowed; use \".\" or get()" open_.offset
        else
          expectPunct "]"
          countNode open_.offset
          accessLoop fuel (.index e idx)
      | none => return e

/-- `parsePostfix`. -/
def parsePostfix : Parsing (Expr number) := do
  let e ← parsePrimary toNumber inner
  accessLoop inner (← tokensLeft) e

/-- The prefix operator of a token. -/
def unaryOp? : Tok → Option UnaryOp
  | .punct "!" => some .not
  | .punct "-" => some .neg
  | _ => none

/-- `parseUnary`; `below` parses a unary one level down, where there is one. -/
def parseUnary (below : Option (Parsing (Expr number))) : Parsing (Expr number) := do
  let t ← peek
  match unaryOp? t.tok with
  | some op =>
    advance
    match below with
    | none => tooDeep t.offset
    | some unary =>
      let on ← unary
      countNode t.offset
      return .unary op on
  | none => parsePostfix toNumber inner

variable (next : Parsing (Expr number))

/-- The loop of `parseBinaryChain`; `fuel` tokens hold at most `fuel` turns of it. -/
def chainLoop (ops : List BinOp) (offset : Nat) : Nat → Expr number → Parsing (Expr number)
  | 0, l => return l
  | fuel + 1, l => do
    let t ← peek
    match ops.find? fun op ↦ t.tok = .punct op.text with
    | none => return l
    | some op =>
      advance
      let r ← next
      countNode offset
      chainLoop ops offset fuel (.bin op l r)

/-- `parseBinaryChain`. -/
def parseBinaryChain (ops : List BinOp) : Parsing (Expr number) := do
  let t ← peek
  let l ← next
  chainLoop next ops t.offset (← tokensLeft) l

variable (unary : Parsing (Expr number))

def parseMultiplicative : Parsing (Expr number) := parseBinaryChain unary [.mul, .div, .mod]

def parseAdditive : Parsing (Expr number) := parseBinaryChain (parseMultiplicative unary) [.add, .sub]

def parseComparison : Parsing (Expr number) :=
  parseBinaryChain (parseAdditive unary) [.lt, .le, .gt, .ge]

def parseEquality : Parsing (Expr number) := parseBinaryChain (parseComparison unary) [.eq, .ne]

def parseAnd : Parsing (Expr number) := parseBinaryChain (parseEquality unary) [.and]

def parseOr : Parsing (Expr number) := parseBinaryChain (parseAnd unary) [.or]

/-- `parseTernary`; `unary` parses a unary on this level, `inner` an expression one level down. -/
def parseTernary : Parsing (Expr number) := do
  let t ← peek
  let c ← parseOr unary
  match ← matchPunct "?" with
  | some _ =>
    let a ← inner
    expectPunct ":"
    let b ← inner
    countNode t.offset
    return .cond c a b
  | none => return c

/-- The two parsers of a level. -/
structure LevelParsers (number : Type) where
  expr : Parsing (Expr number)
  unary : Parsing (Expr number)

/-- `parseExpr` and `parseUnary`.  With `n` levels allowed, `parseExpr` is on the first of them and
`parseUnary` above them all. -/
def parsers : Nat → LevelParsers number
  | 0 =>
    let expr : Parsing (Expr number) := do tooDeep (← peek).offset
    ⟨expr, parseUnary toNumber expr none⟩
  | n + 1 =>
    let below := parsers n
    let expr := parseTernary below.expr below.unary
    ⟨expr, parseUnary toNumber expr (some below.unary)⟩

/-- `parseProgram`. -/
def parseProgram : Parsing (Expr number) := do
  let e ← (parsers toNumber (exprLimits.maxDepth + 1)).expr
  let t ← peek
  if t.tok = .eof then return e
  else
    let value := t.tok.value
    parseError s!"unexpected token '{value}'" t.offset

/-- `parse`. -/
def parse (source : String) : Except ExprParseError (Expr number) := do
  if exprLimits.maxSourceBytes < source.utf8ByteSize then
    let limit := exprLimits.maxSourceBytes
    throw ⟨s!"expression source exceeds {limit} bytes", 0⟩
  let tokens ← tokenize source
  let (e, _) ← parseProgram toNumber ⟨tokens, unitsOf source.toList, 0⟩
  return e

end Parser

end Enkaku
