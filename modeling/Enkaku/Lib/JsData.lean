import Enkaku.Lib.OrdMap
import Mathlib.Data.UInt
import Mathlib.Tactic.IntervalCases

/-!
# JavaScript data, and its JSON

Plain JavaScript values — primitives, arrays, and objects as the lists of their own properties — with
`JSON.stringify` and `JSON.parse` on them.

A string is the list of its UTF-16 code units, well-formed or not: a surrogate without its partner is
a string too, and JSON writes it as an escape.  What a number is, how it is written and how it is
read is a `NumberFormat`.  An object lists its properties in the order of `Object.keys`; a property
that is new to an object goes behind the others.

`parse_stringify` is the round trip: whatever has no `undefined`, no number that is not finite and
no key twice is read back as it was written.
-/

set_option autoImplicit false

namespace Js

open List

/-! ## Strings and values -/

/-- A string. -/
abbrev Text := List UInt16

/-- The code unit of a character of the basic plane. -/
def unit (c : Char) : UInt16 := UInt16.ofNat c.toNat

/-- A string of such characters. -/
def text (s : String) : Text := s.toList.map unit

/-- A value. -/
inductive Data (number : Type) where
  | undefined
  | null
  | bool (b : Bool)
  | num (n : number)
  | str (s : Text)
  | arr (items : List (Data number))
  | obj (fields : List (Text × Data number))

/-! ## Numbers -/

def isDigit (u : UInt16) : Bool := unit '0' ≤ u && u ≤ unit '9'

/-- A JSON number: no leading zeros, and digits after a point and after an exponent. -/
def IsJsonNumber (cs : Text) : Prop :=
  ∃ sign whole fraction exponent : Text, cs = sign ++ (whole ++ (fraction ++ exponent)) ∧
    (sign = [] ∨ sign = [unit '-']) ∧
    (whole = [unit '0'] ∨ ∃ d ds, whole = d :: ds ∧ d ≠ unit '0' ∧ ∀ x ∈ d :: ds, isDigit x) ∧
    (fraction = [] ∨ ∃ ds, fraction = unit '.' :: ds ∧ ds ≠ [] ∧ ∀ d ∈ ds, isDigit d) ∧
    (exponent = [] ∨ ∃ e sign ds, exponent = e :: (sign ++ ds) ∧ (e = unit 'e' ∨ e = unit 'E') ∧
      (sign = [] ∨ sign = [unit '+'] ∨ sign = [unit '-']) ∧ ds ≠ [] ∧ ∀ d ∈ ds, isDigit d)

/-- The numbers, and their texts. -/
structure NumberFormat (number : Type) where
  finite : number → Bool
  /-- `===` on numbers. -/
  same : number → number → Bool
  /-- `String(n)`, which is also how JSON writes a finite number. -/
  write : number → Text
  /-- The number a JSON number stands for. -/
  read : Text → number
  isJsonNumber : ∀ {n : number}, finite n = true → IsJsonNumber (write n)
  same_read : ∀ {n : number}, finite n = true → same (read (write n)) n = true

/-! ## `JSON.stringify` -/

def isLead (u : UInt16) : Bool := 0xD800 ≤ u && u < 0xDC00

def isTrail (u : UInt16) : Bool := 0xDC00 ≤ u && u < 0xE000

/-- A hexadecimal digit, in lower case. -/
def hexUnit (n : Nat) : UInt16 := UInt16.ofNat (if n < 10 then 48 + n else 87 + n)

/-- `\uXXXX`. -/
def unicodeEscape (u : UInt16) : Text :=
  [unit '\\', unit 'u', hexUnit (u.toNat / 4096), hexUnit (u.toNat / 256 % 16),
    hexUnit (u.toNat / 16 % 16), hexUnit (u.toNat % 16)]

/-- A code unit that is no half of a pair, inside the quotes. -/
def quoteUnit (u : UInt16) : Text :=
  if u = unit '"' then [unit '\\', unit '"']
  else if u = unit '\\' then [unit '\\', unit '\\']
  else if u = unit '\x08' then [unit '\\', unit 'b']
  else if u = unit '\t' then [unit '\\', unit 't']
  else if u = unit '\n' then [unit '\\', unit 'n']
  else if u = unit '\x0c' then [unit '\\', unit 'f']
  else if u = unit '\r' then [unit '\\', unit 'r']
  else if u < 32 ∨ isLead u ∨ isTrail u then unicodeEscape u
  else [u]

/-- What stands between the quotes. -/
def quoteUnits : Text → Text
  | [] => []
  | [u] => quoteUnit u
  | u :: v :: rest =>
    if isLead u && isTrail v then u :: v :: quoteUnits rest
    else quoteUnit u ++ quoteUnits (v :: rest)

/-- `QuoteJSONString`. -/
def quote (s : Text) : Text := unit '"' :: (quoteUnits s ++ [unit '"'])

section Format

variable {number : Type} (nf : NumberFormat number)

/-- Parts with a separator between them. -/
def joined (parts : List Text) : Text := [unit ','].intercalate parts

mutual

/-- `JSON.stringify(v)`; `undefined` has no text. -/
def stringify : Data number → Option Text
  | .undefined => none
  | .null => some (text "null")
  | .bool b => some (text (if b then "true" else "false"))
  | .num n => some (if nf.finite n then nf.write n else text "null")
  | .str s => some (quote s)
  | .arr items => some (unit '[' :: (joined (stringifyItems items) ++ [unit ']']))
  | .obj fields => some (unit '\x7b' :: (joined (stringifyFields fields) ++ [unit '\x7d']))

/-- The texts of the items of an array, where `undefined` is `null`. -/
def stringifyItems : List (Data number) → List Text
  | [] => []
  | v :: items => (stringify v).getD (text "null") :: stringifyItems items

/-- The texts of the properties of an object, of which `undefined` has none. -/
def stringifyFields : List (Text × Data number) → List Text
  | [] => []
  | (k, v) :: fields =>
    match stringify v with
    | none => stringifyFields fields
    | some t => (quote k ++ unit ':' :: t) :: stringifyFields fields

end

/-! ## `JSON.parse` -/

def isSpace (u : UInt16) : Bool :=
  u == unit ' ' || u == unit '\t' || u == unit '\n' || u == unit '\r'

def skipSpace (rest : Text) : Text := rest.dropWhile isSpace

/-- The value of a hexadecimal digit. -/
def hexValue? (u : UInt16) : Option Nat :=
  if unit '0' ≤ u ∧ u ≤ unit '9' then some (u.toNat - 48)
  else if unit 'a' ≤ u ∧ u ≤ unit 'f' then some (u.toNat - 87)
  else if unit 'A' ≤ u ∧ u ≤ unit 'F' then some (u.toNat - 55)
  else none

/-- The code unit of a one-letter escape. -/
def escape? (e : UInt16) : Option UInt16 :=
  if e = unit '"' ∨ e = unit '\\' ∨ e = unit '/' then some e
  else if e = unit 'b' then some (unit '\x08')
  else if e = unit 't' then some (unit '\t')
  else if e = unit 'n' then some (unit '\n')
  else if e = unit 'f' then some (unit '\x0c')
  else if e = unit 'r' then some (unit '\r')
  else none

/-- A string behind its opening quote. -/
def readString : Text → Option (Text × Text)
  | [] => none
  | c :: rest =>
    if c = unit '"' then some ([], rest)
    else if c = unit '\\' then
      match rest with
      | [] => none
      | e :: rest =>
        match escape? e with
        | some out => do
          let (s, rest) ← readString rest
          return (out :: s, rest)
        | none =>
          match rest with
          | a :: b :: c :: d :: rest =>
            if e = unit 'u' then do
              let a ← hexValue? a
              let b ← hexValue? b
              let c ← hexValue? c
              let d ← hexValue? d
              let (s, rest) ← readString rest
              return (UInt16.ofNat (16 * (16 * (16 * a + b) + c) + d) :: s, rest)
            else none
          | _ => none
    else if c < 32 then none
    else do
      let (s, rest) ← readString rest
      return (c :: s, rest)

/-- One digit or more, as many as there are. -/
def readDigits (rest : Text) : Option (Text × Text) :=
  if rest.takeWhile isDigit = [] then none
  else some (rest.takeWhile isDigit, rest.dropWhile isDigit)

/-- What stands before the point of a number: one zero, or digits without one in front. -/
def readWhole (rest : Text) : Option (Text × Text) :=
  if rest.head? = some (unit '0') then some ([unit '0'], rest.tail) else readDigits rest

/-- A fraction, if there is one. -/
def readFraction (rest : Text) : Option (Text × Text) :=
  if rest.head? = some (unit '.') then do
    let (ds, rest) ← readDigits rest.tail
    return (unit '.' :: ds, rest)
  else some ([], rest)

/-- The sign of an exponent. -/
def exponentSign (rest : Text) : Text :=
  if rest.head? = some (unit '+') ∨ rest.head? = some (unit '-') then rest.take 1 else []

/-- An exponent, if there is one. -/
def readExponent (rest : Text) : Option (Text × Text) :=
  if rest.head? = some (unit 'e') ∨ rest.head? = some (unit 'E') then do
    let sign := exponentSign rest.tail
    let (ds, rest') ← readDigits (rest.tail.drop sign.length)
    return (rest.take 1 ++ (sign ++ ds), rest')
  else some ([], rest)

/-- The text of a number. -/
def readNumber (rest : Text) : Option (Text × Text) := do
  let sign := if rest.head? = some (unit '-') then [unit '-'] else []
  let (whole, rest) ← readWhole (rest.drop sign.length)
  let (fraction, rest) ← readFraction rest
  let (exponent, rest) ← readExponent rest
  return (sign ++ (whole ++ (fraction ++ exponent)), rest)

/-- A word. -/
def readWord (word : String) (rest : Text) : Option Text :=
  if (text word).isPrefixOf rest then some (rest.drop (text word).length) else none

/-- The object of a list of members: of two with one key the later wins. -/
def ofMembers (members : List (Text × Data number)) : Data number :=
  .obj (OrdMap.merge [] members)

mutual

/-- A value, on fuel. -/
def readValue : Nat → Text → Option (Data number × Text)
  | 0, _ => none
  | fuel + 1, rest =>
    match skipSpace rest with
    | [] => none
    | c :: cs =>
      if c = unit '\x7b' then
        if (skipSpace cs).head? = some (unit '\x7d') then some (.obj [], (skipSpace cs).tail)
        else do
          let (members, rest) ← readMembers fuel cs
          return (ofMembers members, rest)
      else if c = unit '[' then
        if (skipSpace cs).head? = some (unit ']') then some (.arr [], (skipSpace cs).tail)
        else do
          let (items, rest) ← readItems fuel cs
          return (.arr items, rest)
      else if c = unit '"' then do
        let (s, rest) ← readString cs
        return (.str s, rest)
      else if c = unit 't' then do
        let rest ← readWord "true" (c :: cs)
        return (.bool true, rest)
      else if c = unit 'f' then do
        let rest ← readWord "false" (c :: cs)
        return (.bool false, rest)
      else if c = unit 'n' then do
        let rest ← readWord "null" (c :: cs)
        return (.null, rest)
      else do
        let (token, rest) ← readNumber (c :: cs)
        return (.num (nf.read token), rest)

/-- The items of an array, up to the bracket that closes it. -/
def readItems : Nat → Text → Option (List (Data number) × Text)
  | 0, _ => none
  | fuel + 1, rest => do
    let (v, rest) ← readValue fuel rest
    if (skipSpace rest).head? = some (unit ',') then do
      let (items, rest) ← readItems fuel (skipSpace rest).tail
      return (v :: items, rest)
    else if (skipSpace rest).head? = some (unit ']') then return ([v], (skipSpace rest).tail)
    else none

/-- The members of an object, up to the bracket that closes it. -/
def readMembers : Nat → Text → Option (List (Text × Data number) × Text)
  | 0, _ => none
  | fuel + 1, rest =>
    if (skipSpace rest).head? = some (unit '"') then do
      let (k, rest) ← readString (skipSpace rest).tail
      if (skipSpace rest).head? = some (unit ':') then do
        let (v, rest) ← readValue fuel (skipSpace rest).tail
        if (skipSpace rest).head? = some (unit ',') then do
          let (members, rest) ← readMembers fuel (skipSpace rest).tail
          return ((k, v) :: members, rest)
        else if (skipSpace rest).head? = some (unit '\x7d') then
          return ([(k, v)], (skipSpace rest).tail)
        else none
      else none
    else none

end

/-- `JSON.parse(text)`; `none` when it throws. -/
def parse (text : Text) : Option (Data number) := do
  let (v, rest) ← readValue nf (2 * text.length + 1) text
  if skipSpace rest = [] then some v else none

end Format

/-! ## Reading a string back -/

theorem hexValue?_hexUnit {n : Nat} (h : n < 16) : hexValue? (hexUnit n) = some n := by
  interval_cases n <;> decide

theorem readString_unit {u : UInt16} (hquote : u ≠ unit '"') (hback : u ≠ unit '\\')
    (hcontrol : ¬ u < 32) (rest : Text) :
    readString (u :: rest) = (readString rest).map fun p ↦ (u :: p.1, p.2) := by
  rw [readString.eq_def]
  simp only [hquote, hback, hcontrol, if_false]
  cases readString rest <;> rfl

theorem readString_escape {e out : UInt16} (he : escape? e = some out) (rest : Text) :
    readString (unit '\\' :: e :: rest) = (readString rest).map fun p ↦ (out :: p.1, p.2) := by
  rw [readString.eq_def]
  simp only [show unit '\\' ≠ unit '"' by decide, if_false, if_true, he]
  cases readString rest <;> rfl

theorem readString_unicodeEscape (u : UInt16) (rest : Text) :
    readString (unicodeEscape u ++ rest) = (readString rest).map fun p ↦ (u :: p.1, p.2) := by
  have hu : u.toNat < 65536 := u.toNat_lt
  have hvalue : 16 * (16 * (16 * (u.toNat / 4096) + u.toNat / 256 % 16) + u.toNat / 16 % 16) +
      u.toNat % 16 = u.toNat := by omega
  simp only [unicodeEscape, cons_append, nil_append]
  rw [readString.eq_def]
  simp only [show unit '\\' ≠ unit '"' by decide, if_false, if_true,
    show escape? (unit 'u') = none by decide, hexValue?_hexUnit (show u.toNat / 4096 < 16 by omega),
    hexValue?_hexUnit (show u.toNat / 256 % 16 < 16 by omega),
    hexValue?_hexUnit (show u.toNat / 16 % 16 < 16 by omega),
    hexValue?_hexUnit (show u.toNat % 16 < 16 by omega)]
  cases readString rest with
  | none => rfl
  | some p =>
    show some (UInt16.ofNat _ :: p.1, p.2) = some (u :: p.1, p.2)
    rw [hvalue, UInt16.ofNat_toNat]

theorem readString_quoteUnit (u : UInt16) (rest : Text) :
    readString (quoteUnit u ++ rest) = (readString rest).map fun p ↦ (u :: p.1, p.2) := by
  rw [quoteUnit]
  split_ifs with h₁ h₂ h₃ h₄ h₅ h₆ h₇ h₈
  · rw [h₁]
    exact readString_escape (by decide) rest
  · rw [h₂]
    exact readString_escape (by decide) rest
  · rw [h₃]
    exact readString_escape (by decide) rest
  · rw [h₄]
    exact readString_escape (by decide) rest
  · rw [h₅]
    exact readString_escape (by decide) rest
  · rw [h₆]
    exact readString_escape (by decide) rest
  · rw [h₇]
    exact readString_escape (by decide) rest
  · exact readString_unicodeEscape u rest
  · exact readString_unit h₁ h₂ (fun h ↦ h₈ (.inl h)) rest

/-- **A quoted string is read back**, whatever its code units are. -/
theorem readString_quoteUnits (s rest : Text) :
    readString (quoteUnits s ++ unit '"' :: rest) = some (s, rest) := by
  induction s using quoteUnits.induct with
  | case1 => rw [quoteUnits, nil_append, readString.eq_def]; simp
  | case2 u =>
    rw [quoteUnits, readString_quoteUnit, readString.eq_def]
    simp
  | case3 u v s h ih =>
    have hraw : ∀ x : UInt16, 0xD800 ≤ x → x ≠ unit '"' ∧ x ≠ unit '\\' ∧ ¬ x < 32 := by
      intro x hx
      have hx' : 0xD800 ≤ x.toNat := UInt16.le_iff_toNat_le.mp hx
      refine ⟨?_, ?_, fun hlt ↦ ?_⟩
      · rintro rfl
        revert hx'
        decide
      · rintro rfl
        revert hx'
        decide
      · have := UInt16.lt_iff_toNat_lt.mp hlt
        simp at this
        omega
    have hpair := h
    simp only [isLead, isTrail, Bool.and_eq_true, decide_eq_true_eq] at hpair
    obtain ⟨⟨hu, -⟩, hv, -⟩ := hpair
    have hv' : (0xD800 : UInt16) ≤ v := UInt16.le_trans (by decide) hv
    rw [quoteUnits, if_pos h, cons_append, cons_append,
      readString_unit (hraw u hu).1 (hraw u hu).2.1 (hraw u hu).2.2,
      readString_unit (hraw v hv').1 (hraw v hv').2.1 (hraw v hv').2.2, ih]
    rfl
  | case4 u v s h ih =>
    rw [quoteUnits, if_neg h, append_assoc, readString_quoteUnit, ih]
    rfl

/-! ## Reading a number back -/

/-- What stands behind a number does not go on with it. -/
def StopsNumber (rest : Text) : Prop :=
  ∀ u, rest.head? = some u → isDigit u = false ∧ u ≠ unit '.' ∧ u ≠ unit 'e' ∧ u ≠ unit 'E'

theorem stopsNumber_nil : StopsNumber [] := fun u h ↦ by simp at h

theorem stopsNumber_cons {u : UInt16} (h : u ∈ [unit ',', unit ']', unit '\x7d']) (rest : Text) :
    StopsNumber (u :: rest) := by
  intro x hx
  obtain rfl : u = x := by simpa using hx
  simp only [mem_cons, not_mem_nil, or_false] at h
  rcases h with rfl | rfl | rfl <;> decide

theorem readDigits_append {ds rest : Text} (hne : ds ≠ []) (hds : ∀ d ∈ ds, isDigit d = true)
    (hrest : ∀ u, rest.head? = some u → isDigit u = false) :
    readDigits (ds ++ rest) = some (ds, rest) := by
  have htake : (ds ++ rest).takeWhile isDigit = ds := by
    rw [takeWhile_append_of_pos hds]
    cases rest with
    | nil => simp
    | cons u rest => simp [hrest u rfl]
  have hdrop : (ds ++ rest).dropWhile isDigit = rest := by
    rw [dropWhile_append_of_pos hds]
    cases rest with
    | nil => simp
    | cons u rest => simp [hrest u rfl]
  rw [readDigits, htake, hdrop, if_neg hne]

theorem not_isDigit {u : UInt16} (h : u ∈ [unit '+', unit '-', unit '.', unit 'e', unit 'E']) :
    isDigit u = false := by
  simp only [mem_cons, not_mem_nil, or_false] at h
  rcases h with rfl | rfl | rfl | rfl | rfl <;> decide

theorem ne_of_isDigit {u x : UInt16} (h : isDigit u = true) (hx : isDigit x = false) : u ≠ x := by
  rintro rfl
  rw [hx] at h
  cases h

theorem readExponent_append {exponent rest : Text} (hrest : StopsNumber rest)
    (h : exponent = [] ∨ ∃ e sign ds, exponent = e :: (sign ++ ds) ∧ (e = unit 'e' ∨ e = unit 'E') ∧
      (sign = [] ∨ sign = [unit '+'] ∨ sign = [unit '-']) ∧ ds ≠ [] ∧ ∀ d ∈ ds, isDigit d = true) :
    readExponent (exponent ++ rest) = some (exponent, rest) := by
  rcases h with rfl | ⟨e, sign, ds, rfl, he, hsign, hne, hds⟩
  · rw [nil_append, readExponent, if_neg]
    rintro (h | h)
    · exact (hrest _ h).2.2.1 rfl
    · exact (hrest _ h).2.2.2 rfl
  · have hstop : ∀ u, rest.head? = some u → isDigit u = false := fun u hu ↦ (hrest u hu).1
    have hexp : exponentSign (sign ++ (ds ++ rest)) = sign := by
      obtain ⟨d, ds, rfl⟩ := exists_cons_of_ne_nil hne
      have hd := hds d (.head _)
      rcases hsign with rfl | rfl | rfl
      · have hplus := ne_of_isDigit hd (not_isDigit (show unit '+' ∈ _ by simp))
        have hminus := ne_of_isDigit hd (not_isDigit (show unit '-' ∈ _ by simp))
        simp [exponentSign, hplus, hminus]
      · simp [exponentSign]
      · simp [exponentSign]
    rw [cons_append, readExponent, if_pos (by simpa using he), tail_cons]
    simp only [hexp, append_assoc, drop_left]
    rw [readDigits_append hne hds hstop]
    rfl

theorem readFraction_append {fraction rest : Text}
    (hrest : ∀ u, rest.head? = some u → isDigit u = false ∧ u ≠ unit '.')
    (h : fraction = [] ∨ ∃ ds, fraction = unit '.' :: ds ∧ ds ≠ [] ∧ ∀ d ∈ ds, isDigit d = true) :
    readFraction (fraction ++ rest) = some (fraction, rest) := by
  rcases h with rfl | ⟨ds, rfl, hne, hds⟩
  · rw [nil_append, readFraction, if_neg]
    exact fun h ↦ (hrest _ h).2 rfl
  · rw [cons_append, readFraction, if_pos (by simp), tail_cons,
      readDigits_append hne hds fun u hu ↦ (hrest u hu).1]
    rfl

theorem readWhole_append {whole rest : Text} (hrest : ∀ u, rest.head? = some u → isDigit u = false)
    (h : whole = [unit '0'] ∨
      ∃ d ds, whole = d :: ds ∧ d ≠ unit '0' ∧ ∀ x ∈ d :: ds, isDigit x = true) :
    readWhole (whole ++ rest) = some (whole, rest) := by
  rcases h with rfl | ⟨d, ds, rfl, hd, hds⟩
  · rw [singleton_append, readWhole, if_pos (by simp), tail_cons]
  · rw [readWhole, if_neg (by simpa using hd), readDigits_append (by simp) hds hrest]

/-- **A JSON number is read whole**, up to what does not go on with it. -/
theorem readNumber_append {cs rest : Text} (h : IsJsonNumber cs) (hrest : StopsNumber rest) :
    readNumber (cs ++ rest) = some (cs, rest) := by
  obtain ⟨sign, whole, fraction, exponent, rfl, hsign, hwhole, hfraction, hexponent⟩ := h
  have h₁ : ∀ u, (exponent ++ rest).head? = some u → isDigit u = false ∧ u ≠ unit '.' := by
    intro u hu
    rcases hexponent with rfl | ⟨e, sign, ds, rfl, he, -⟩
    · exact ⟨(hrest u hu).1, (hrest u hu).2.1⟩
    · obtain rfl : e = u := by simpa using hu
      rcases he with rfl | rfl <;> decide
  have h₂ : ∀ u, (fraction ++ (exponent ++ rest)).head? = some u → isDigit u = false := by
    intro u hu
    rcases hfraction with rfl | ⟨ds, rfl, -⟩
    · exact (h₁ u hu).1
    · obtain rfl : unit '.' = u := by simpa using hu
      decide
  obtain ⟨d, tail, hhead, hd⟩ : ∃ d tail, whole = d :: tail ∧ isDigit d = true := by
    rcases hwhole with rfl | ⟨d, ds, rfl, -, hds⟩
    · exact ⟨_, _, rfl, by decide⟩
    · exact ⟨_, _, rfl, hds d (.head _)⟩
  have hminus : d ≠ unit '-' := ne_of_isDigit hd (not_isDigit (by simp))
  have hsign' : (if (sign ++ (whole ++ (fraction ++ (exponent ++ rest)))).head? = some (unit '-')
      then [unit '-'] else []) = sign := by
    rcases hsign with rfl | rfl
    · simp [hhead, hminus]
    · simp
  rw [readNumber]
  simp only [hsign', append_assoc, drop_left, readWhole_append h₂ hwhole,
    readFraction_append h₁ hfraction, readExponent_append hrest hexponent, Option.bind_eq_bind,
    Option.bind_some]
  rfl

/-! ## Reading a value back -/

section Format

variable {number : Type} (nf : NumberFormat number)

mutual

/-- What JSON can carry: nothing undefined, finite numbers, and no key twice in an object. -/
def Plain : Data number → Prop
  | .undefined => False
  | .null => True
  | .bool _ => True
  | .num n => nf.finite n = true
  | .str _ => True
  | .arr items => PlainItems items
  | .obj fields => (fields.map (·.1)).Nodup ∧ PlainFields fields

/-- The items of an array that JSON can carry. -/
def PlainItems : List (Data number) → Prop
  | [] => True
  | v :: items => Plain v ∧ PlainItems items

/-- The properties of an object that JSON can carry. -/
def PlainFields : List (Text × Data number) → Prop
  | [] => True
  | (_, v) :: fields => Plain v ∧ PlainFields fields

end

mutual

/-- A value with the numbers that its text reads as. -/
def reread : Data number → Data number
  | .undefined => .undefined
  | .null => .null
  | .bool b => .bool b
  | .num n => .num (nf.read (nf.write n))
  | .str s => .str s
  | .arr items => .arr (rereadItems items)
  | .obj fields => .obj (rereadFields fields)

def rereadItems : List (Data number) → List (Data number)
  | [] => []
  | v :: items => reread v :: rereadItems items

def rereadFields : List (Text × Data number) → List (Text × Data number)
  | [] => []
  | (k, v) :: fields => (k, reread v) :: rereadFields fields

end

theorem keys_rereadFields (fields : List (Text × Data number)) :
    (rereadFields nf fields).map (·.1) = fields.map (·.1) := by
  induction fields with
  | nil => rfl
  | cons p fields ih => rw [rereadFields, map_cons, map_cons, ih]

theorem isJsonNumber_head {cs : Text} (h : IsJsonNumber cs) :
    ∃ c tail, cs = c :: tail ∧ (c = unit '-' ∨ isDigit c = true) := by
  obtain ⟨sign, whole, fraction, exponent, rfl, hsign, hwhole, -, -⟩ := h
  rcases hsign with rfl | rfl
  · rcases hwhole with rfl | ⟨d, ds, rfl, -, hds⟩
    · exact ⟨unit '0', fraction ++ exponent, rfl, .inr (by decide)⟩
    · exact ⟨d, ds ++ (fraction ++ exponent), rfl, .inr (hds d (.head _))⟩
  · exact ⟨unit '-', whole ++ (fraction ++ exponent), rfl, .inl rfl⟩

variable {c : UInt16}

/-- A number starts with its sign or a digit. -/
theorem ne_of_numberStart (h : c = unit '-' ∨ isDigit c = true) (x : UInt16)
    (hx : x ≠ unit '-' ∧ isDigit x = false) : c ≠ x := by
  rintro rfl
  rcases h with h | h
  · exact hx.1 h
  · exact absurd h (by simp [hx.2])

theorem not_isSpace_of_numberStart (h : c = unit '-' ∨ isDigit c = true) : isSpace c = false := by
  simp [isSpace, ne_of_numberStart h (unit ' ') (by decide),
    ne_of_numberStart h (unit '\t') (by decide), ne_of_numberStart h (unit '\n') (by decide),
    ne_of_numberStart h (unit '\r') (by decide)]

variable {v : Data number}

/-- A value's text starts with neither a space nor what closes an array. -/
theorem stringify_head (hv : Plain nf v) :
    ∃ c tail, stringify nf v = some (c :: tail) ∧ isSpace c = false ∧ c ≠ unit ']' := by
  cases v with
  | undefined => exact hv.elim
  | null => exact ⟨_, _, rfl, by decide, by decide⟩
  | bool b => cases b <;> exact ⟨_, _, rfl, by decide, by decide⟩
  | num n =>
    have hfinite : nf.finite n = true := by simpa only [Plain] using hv
    obtain ⟨c, tail, hwrite, hc⟩ := isJsonNumber_head (nf.isJsonNumber hfinite)
    exact ⟨c, tail, by rw [stringify, if_pos hfinite, hwrite], not_isSpace_of_numberStart hc,
      ne_of_numberStart hc _ (by decide)⟩
  | str s => exact ⟨_, _, by rw [stringify, quote], by decide, by decide⟩
  | arr items => exact ⟨_, _, by rw [stringify], by decide, by decide⟩
  | obj fields => exact ⟨_, _, by rw [stringify], by decide, by decide⟩

theorem exists_stringify (hv : Plain nf v) : ∃ t, stringify nf v = some t := by
  obtain ⟨c, tail, ht, -⟩ := stringify_head nf hv
  exact ⟨_, ht⟩

theorem skipSpace_cons (h : isSpace c = false) (rest : Text) : skipSpace (c :: rest) = c :: rest := by
  rw [skipSpace, dropWhile_cons_of_neg (by simp [h])]

variable {t : Text}

theorem joined_cons {ts : List Text} (h : ts ≠ []) : joined (t :: ts) = t ++ unit ',' :: joined ts := by
  obtain ⟨t', ts, rfl⟩ := exists_cons_of_ne_nil h
  rw [joined, joined, intercalate_cons_cons]
  simp

theorem joined_singleton (t : Text) : joined [t] = t := by simp [joined]

theorem readWord_append (word : String) (rest : Text) :
    readWord word (text word ++ rest) = some rest := by
  rw [readWord, if_pos, drop_left]
  rw [List.isPrefixOf_iff_prefix]
  exact prefix_append _ _

variable {rest : Text} {fuel : Nat}

theorem readValue_word {word : String}
    (h : (word, v) ∈ [("true", .bool true), ("false", .bool false), ("null", .null)]) :
    readValue nf (fuel + 1) (text word ++ rest) = some (v, rest) := by
  have hread := readWord_append word rest
  simp only [mem_cons, not_mem_nil, or_false, Prod.mk.injEq] at h
  rcases h with ⟨rfl, rfl⟩ | ⟨rfl, rfl⟩ | ⟨rfl, rfl⟩
  · rw [show text "true" = unit 't' :: text "rue" by rfl, List.cons_append] at hread ⊢
    rw [readValue, skipSpace_cons (by decide)]
    simp +decide [hread]
  · rw [show text "false" = unit 'f' :: text "alse" by rfl, List.cons_append] at hread ⊢
    rw [readValue, skipSpace_cons (by decide)]
    simp +decide [hread]
  · rw [show text "null" = unit 'n' :: text "ull" by rfl, List.cons_append] at hread ⊢
    rw [readValue, skipSpace_cons (by decide)]
    simp +decide [hread]

theorem readValue_number {n : number} (h : nf.finite n = true) (hrest : StopsNumber rest) :
    readValue nf (fuel + 1) (nf.write n ++ rest) = some (.num (nf.read (nf.write n)), rest) := by
  obtain ⟨c, tail, hwrite, hc⟩ := isJsonNumber_head (nf.isJsonNumber h)
  have hne := ne_of_numberStart hc
  have hread := readNumber_append (nf.isJsonNumber h) hrest
  rw [hwrite] at hread ⊢
  rw [cons_append] at hread ⊢
  rw [readValue, skipSpace_cons (not_isSpace_of_numberStart hc)]
  simp only [hne (unit '\x7b') (by decide), hne (unit '[') (by decide), hne (unit '"') (by decide),
    hne (unit 't') (by decide), hne (unit 'f') (by decide), hne (unit 'n') (by decide), if_false,
    hread]
  rfl

theorem stringifyItems_ne_nil {items : List (Data number)} (h : items ≠ []) :
    stringifyItems nf items ≠ [] := by
  obtain ⟨v, items, rfl⟩ := exists_cons_of_ne_nil h
  rw [stringifyItems]
  exact cons_ne_nil _ _

theorem stringifyFields_cons {k : Text} (h : stringify nf v = some t)
    (fields : List (Text × Data number)) :
    stringifyFields nf ((k, v) :: fields) =
      (quote k ++ unit ':' :: t) :: stringifyFields nf fields := by
  rw [stringifyFields, h]

theorem stringifyFields_ne_nil {fields : List (Text × Data number)} (h : PlainFields nf fields)
    (hne : fields ≠ []) : stringifyFields nf fields ≠ [] := by
  obtain ⟨⟨k, v⟩, fields, rfl⟩ := exists_cons_of_ne_nil hne
  obtain ⟨t, ht⟩ := exists_stringify nf h.1
  rw [stringifyFields_cons nf ht]
  exact cons_ne_nil _ _

theorem joined_head (c : UInt16) (tail : Text) (ts : List Text) :
    ∃ rest, joined ((c :: tail) :: ts) = c :: rest := by
  cases ts with
  | nil => exact ⟨tail, joined_singleton _⟩
  | cons t ts => exact ⟨_, joined_cons (cons_ne_nil t ts)⟩

/-- One member, and what comes behind it. -/
theorem readMembers_field (k : Text) {w : Data number}
    (hread : readValue nf fuel (t ++ rest) = some (w, rest)) :
    readMembers nf (fuel + 1) (quote k ++ unit ':' :: t ++ rest) =
      if (skipSpace rest).head? = some (unit ',') then
        (readMembers nf fuel (skipSpace rest).tail).map fun p ↦ ((k, w) :: p.1, p.2)
      else if (skipSpace rest).head? = some (unit '\x7d') then
        some ([(k, w)], (skipSpace rest).tail)
      else none := by
  have hkey := readString_quoteUnits k (unit ':' :: (t ++ rest))
  rw [append_assoc, quote, cons_append, append_assoc, singleton_append,
    cons_append, readMembers, skipSpace_cons (by decide), head?_cons, if_pos rfl,
    tail_cons, hkey, Option.bind_eq_bind, Option.bind_some]
  simp only [skipSpace_cons (show isSpace (unit ':') = false by decide), head?_cons,
    tail_cons, if_true, hread, Option.bind_eq_bind, Option.bind_some]
  split_ifs
  · cases readMembers nf fuel (skipSpace rest).tail <;> rfl
  · rfl
  · rfl

mutual

/-- **A value's text is read back as the value**, whatever does not go on with it stands behind. -/
theorem readValue_stringify (v : Data number) (hv : Plain nf v) {t rest : Text}
    (ht : stringify nf v = some t) (hrest : StopsNumber rest) (fuel : Nat)
    (hfuel : t.length < fuel) : readValue nf fuel (t ++ rest) = some (reread nf v, rest) := by
  obtain ⟨fuel, rfl⟩ : ∃ n, fuel = n + 1 := ⟨fuel - 1, by omega⟩
  match v with
  | .undefined => exact hv.elim
  | .null =>
    cases ht
    exact readValue_word nf (by simp [reread])
  | .bool b =>
    cases ht
    cases b <;> exact readValue_word nf (by simp [reread])
  | .num n =>
    have hfinite : nf.finite n = true := by simpa only [Plain] using hv
    rw [stringify, if_pos hfinite] at ht
    cases ht
    rw [readValue_number nf hfinite hrest, reread]
  | .str s =>
    cases ht
    rw [quote, cons_append, readValue, skipSpace_cons (by decide)]
    simp +decide [readString_quoteUnits, reread]
  | .arr [] =>
    cases ht
    rw [cons_append, readValue, skipSpace_cons (by decide)]
    simp +decide [joined, stringifyItems, skipSpace_cons, reread, rereadItems]
  | .arr (v :: items) =>
    cases ht
    have hitems : PlainItems nf (v :: items) := by simpa only [Plain] using hv
    obtain ⟨c, tail, hhead, hspace, hclose⟩ := stringify_head nf hitems.1
    obtain ⟨js, hjs⟩ := joined_head c tail (stringifyItems nf items)
    have hread := readItems_stringify (v :: items) hitems (by simp) fuel rest
      (by simp at hfuel; omega)
    rw [stringifyItems, hhead, Option.getD_some, hjs] at hread hfuel ⊢
    rw [cons_append] at hread
    rw [cons_append, append_assoc, cons_append, singleton_append, readValue,
      skipSpace_cons (by decide)]
    simp +decide [skipSpace_cons hspace, hclose, hread, reread]
  | .obj [] =>
    cases ht
    rw [cons_append, readValue, skipSpace_cons (by decide)]
    simp +decide [joined, stringifyFields, skipSpace_cons, reread, rereadFields]
  | .obj ((k, v) :: fields) =>
    cases ht
    obtain ⟨hkeys, hfields⟩ : (((k, v) :: fields).map (·.1)).Nodup ∧
        PlainFields nf ((k, v) :: fields) := by simpa only [Plain] using hv
    have hread := readMembers_stringify ((k, v) :: fields) hfields (by simp) fuel rest
      (by simp at hfuel; omega)
    obtain ⟨t, ht⟩ := exists_stringify nf hfields.1
    obtain ⟨js, hjs⟩ : ∃ js, joined (stringifyFields nf ((k, v) :: fields)) = unit '"' :: js := by
      rw [stringifyFields_cons nf ht, quote, cons_append]
      exact joined_head _ _ _
    rw [hjs] at hread ⊢
    rw [cons_append] at hread
    rw [cons_append, append_assoc, cons_append, singleton_append, readValue,
      skipSpace_cons (by decide)]
    have hmerge : OrdMap.merge [] (rereadFields nf ((k, v) :: fields)) =
        rereadFields nf ((k, v) :: fields) :=
      OrdMap.merge_of_nodup (by rwa [nil_append, keys_rereadFields])
    simp +decide [skipSpace_cons, hread, ofMembers, hmerge, reread]

theorem readItems_stringify (items : List (Data number)) (h : PlainItems nf items)
    (hne : items ≠ []) (fuel : Nat) (rest : Text)
    (hfuel : (joined (stringifyItems nf items)).length + 1 < fuel) :
    readItems nf fuel (joined (stringifyItems nf items) ++ unit ']' :: rest) =
      some (rereadItems nf items, rest) := by
  obtain ⟨fuel, rfl⟩ : ∃ n, fuel = n + 1 := ⟨fuel - 1, by omega⟩
  match items with
  | [] => exact absurd rfl hne
  | [v] =>
    obtain ⟨t, ht⟩ := exists_stringify nf h.1
    simp only [stringifyItems, ht, Option.getD_some, joined_singleton] at hfuel ⊢
    have hread := readValue_stringify v h.1 ht (stopsNumber_cons (u := unit ']') (by simp) rest)
      fuel (by omega)
    rw [readItems, hread]
    simp +decide [skipSpace_cons, rereadItems]
  | v :: w :: items =>
    obtain ⟨t, ht⟩ := exists_stringify nf h.1
    have hjs := joined_cons (t := t) (stringifyItems_ne_nil nf (cons_ne_nil w items))
    rw [stringifyItems, ht, Option.getD_some, hjs] at hfuel ⊢
    rw [length_append, length_cons] at hfuel
    have hread := readValue_stringify v h.1 ht (stopsNumber_cons (u := unit ',') (by simp)
      (joined (stringifyItems nf (w :: items)) ++ unit ']' :: rest)) fuel (by omega)
    have hitems := readItems_stringify (w :: items) h.2 (by simp) fuel rest (by omega)
    rw [append_assoc, cons_append, readItems, hread]
    simp +decide [skipSpace_cons, hitems, rereadItems]

theorem readMembers_stringify (fields : List (Text × Data number)) (h : PlainFields nf fields)
    (hne : fields ≠ []) (fuel : Nat) (rest : Text)
    (hfuel : (joined (stringifyFields nf fields)).length + 1 < fuel) :
    readMembers nf fuel (joined (stringifyFields nf fields) ++ unit '\x7d' :: rest) =
      some (rereadFields nf fields, rest) := by
  obtain ⟨fuel, rfl⟩ : ∃ n, fuel = n + 1 := ⟨fuel - 1, by omega⟩
  match fields with
  | [] => exact absurd rfl hne
  | [(k, v)] =>
    obtain ⟨t, ht⟩ := exists_stringify nf h.1
    rw [stringifyFields_cons nf ht, stringifyFields, joined_singleton] at hfuel ⊢
    rw [length_append, length_cons] at hfuel
    have hread := readValue_stringify v h.1 ht (stopsNumber_cons (u := unit '\x7d') (by simp) rest)
      fuel (by omega)
    rw [readMembers_field nf k hread]
    simp +decide [skipSpace_cons, rereadFields]
  | (k, v) :: p :: fields =>
    obtain ⟨t, ht⟩ := exists_stringify nf h.1
    have hjs := joined_cons (t := quote k ++ unit ':' :: t)
      (stringifyFields_ne_nil nf h.2 (cons_ne_nil p fields))
    rw [stringifyFields_cons nf ht, hjs] at hfuel ⊢
    simp only [length_append, length_cons] at hfuel
    have hread := readValue_stringify v h.1 ht (stopsNumber_cons (u := unit ',') (by simp)
      (joined (stringifyFields nf (p :: fields)) ++ unit '\x7d' :: rest)) fuel (by omega)
    have hfields := readMembers_stringify (p :: fields) h.2 (by simp) fuel rest (by omega)
    rw [append_assoc, cons_append, readMembers_field nf k hread]
    simp +decide [skipSpace_cons, hfields, rereadFields]

end

/-- **The round trip**: what JSON can carry is parsed back from its text. -/
theorem parse_stringify (hv : Plain nf v) (ht : stringify nf v = some t) :
    parse nf t = some (reread nf v) := by
  have hread := readValue_stringify nf v hv ht stopsNumber_nil
    (2 * t.length + 1) (show t.length < 2 * t.length + 1 by omega)
  rw [append_nil] at hread
  rw [parse, hread]
  rfl

end Format

end Js
