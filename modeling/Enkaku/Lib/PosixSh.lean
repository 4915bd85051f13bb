import Mathlib.Data.List.Basic
import Mathlib.Data.Char

/-!
# How a POSIX shell cuts a text into tokens

The quoting rules of `sh`, as far as tokens go: blanks and newlines, operators, comments, the
backslash, single and double quotes, and where an expansion starts.  A word is the list of its
pieces, each a character — quoted or not — or the start of an expansion; what an expansion stands
for, and what an unquoted character may still mean (a pattern, a tilde, a reserved word, an
assignment), is not gone into.  A word all of whose characters are quoted means itself:
`Token.literal`.
-/

set_option autoImplicit false

namespace PosixSh

/-- A piece of a word. -/
inductive Piece where
  | char (c : Char) (quoted : Bool)
  | expansion (c : Char)
  deriving DecidableEq, Repr

inductive Token where
  | word (pieces : List Piece)
  | operator (c : Char)
  | newline
  deriving DecidableEq, Repr

/-- The word that is these characters and nothing else: each of them is quoted. -/
def Token.literal (s : List Char) : Token := .word (s.map (.char · true))

/-- What the lexer is in the middle of. -/
inductive Mode where
  | plain | single | double | comment
  deriving DecidableEq, Repr

/-- The characters operators are made of; control and redirection operators alike. -/
def isOperator (c : Char) : Bool := "|&;<>()".toList.contains c

def isBlank (c : Char) : Bool := c == ' ' || c == '\t'

/-- The characters an expansion starts with. -/
def isExpansion (c : Char) : Bool := c == '$' || c == '`'

/-- The characters a backslash quotes between double quotes. -/
def isEscapedInDouble (c : Char) : Bool := "$`\"\\".toList.contains c

/-- The word in progress, when there is one, as a token. -/
def finish (word : Option (List Piece)) : List Token := (word.map Token.word).toList

/-- One more piece of the word in progress. -/
def push (word : Option (List Piece)) (p : Piece) : Option (List Piece) := some (word.getD [] ++ [p])

/-- The tokens of a text; `none` when a quote is not closed. -/
def lex : Mode → Option (List Piece) → List Char → Option (List Token)
  | .plain, word, [] | .comment, word, [] => some (finish word)
  | .single, _, [] | .double, _, [] => none
  | .comment, word, c :: cs =>
    if c = '\n' then (lex .plain none cs).map (finish word ++ .newline :: ·)
    else lex .comment word cs
  | .single, word, c :: cs =>
    if c = '\'' then lex .plain word cs else lex .single (push word (.char c true)) cs
  | .double, word, [c] => if c = '"' then some (finish word) else none
  | .double, word, c :: d :: cs =>
    if c = '"' then lex .plain word (d :: cs)
    else if c = '\\' ∧ d = '\n' then lex .double word cs
    else if c = '\\' ∧ isEscapedInDouble d then lex .double (push word (.char d true)) cs
    else if isExpansion c then lex .double (push word (.expansion c)) (d :: cs)
    else lex .double (push word (.char c true)) (d :: cs)
  | .plain, word, c :: cs =>
    if c = '\'' then lex .single (some (word.getD [])) cs
    else if c = '"' then lex .double (some (word.getD [])) cs
    else if c = '\\' then
      match cs with
      | [] => some (finish (push word (.char c false)))
      | d :: cs =>
        if d = '\n' then lex .plain word cs else lex .plain (push word (.char d true)) cs
    else if isExpansion c then lex .plain (push word (.expansion c)) cs
    else if isOperator c then (lex .plain none cs).map (finish word ++ .operator c :: ·)
    else if c = '\n' then (lex .plain none cs).map (finish word ++ .newline :: ·)
    else if isBlank c then (lex .plain none cs).map (finish word ++ ·)
    else if c = '#' ∧ word = none then lex .comment none cs
    else lex .plain (push word (.char c false)) cs

/-- The tokens of a text.  A text has no NUL in it. -/
def tokens (text : List Char) : Option (List Token) :=
  if '\x00' ∈ text then none else lex .plain none text

/-! ## Single quotes -/

theorem lex_quote (word : Option (List Piece)) (cs : List Char) :
    lex .plain word ('\'' :: cs) = lex .single (some (word.getD [])) cs := by
  rw [lex.eq_def]
  simp

theorem lex_unquote (word : Option (List Piece)) (cs : List Char) :
    lex .single word ('\'' :: cs) = lex .plain word cs := by
  rw [lex, if_pos rfl]

/-- Between single quotes every other character means itself. -/
theorem lex_single {c : Char} (h : c ≠ '\'') (word : Option (List Piece)) (cs : List Char) :
    lex .single word (c :: cs) = lex .single (push word (.char c true)) cs := by
  rw [lex, if_neg h]

/-- So does what stands behind a backslash outside of quotes. -/
theorem lex_backslash {d : Char} (h : d ≠ '\n') (word : Option (List Piece)) (cs : List Char) :
    lex .plain word ('\\' :: d :: cs) = lex .plain (push word (.char d true)) cs := by
  rw [lex.eq_def]
  simp [h]

/-- A blank ends the word in progress. -/
theorem lex_space (word : Option (List Piece)) (cs : List Char) :
    lex .plain word (' ' :: cs) = (lex .plain none cs).map (finish word ++ ·) := by
  rw [lex.eq_def]
  simp [isExpansion, isOperator, isBlank]

end PosixSh
