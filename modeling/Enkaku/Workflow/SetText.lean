import Enkaku.Workflow.SetJson
import Mathlib.Tactic.IntervalCases
import Mathlib.Data.Bool.AllAny

/-!
# What is written reads back

`readValue` on a text of `stringify`: the value written comes back as a document, and the reader
stops right after it.  The values this is about are the ones a set node's document is made of:
leaves without an object or an `undefined` in them (`Value.isFlat`), and objects of these whose
keys differ (`Value.IsTree`).  The result is `readValue_stringify`; the lemmas before it go by what
the reader meets: spaces, the characters of a string, the parts of a number, the items of an array
and the members of an object.
-/

set_option autoImplicit false

namespace Enkaku

open List

/-! ## Spaces -/

theorem skipWs_cons {c : Char} (h : isJsSpace c = false) (rest : List Char) :
    skipWs (c :: rest) = c :: rest := by
  rw [skipWs, dropWhile_cons_of_neg (by simp [h])]

theorem skipWs_space {c : Char} (h : isJsSpace c = true) (rest : List Char) :
    skipWs (c :: rest) = skipWs rest := by
  rw [skipWs, dropWhile_cons_of_pos h, skipWs]

/-- A new line is skipped with its indentation. -/
theorem skipWs_newline (depth : Nat) (rest : List Char) :
    skipWs (newline depth ++ rest) = skipWs rest := by
  have hpad : ∀ n, skipWs (List.replicate n ' ' ++ rest) = skipWs rest := by
    intro n
    induction n with
    | zero => rfl
    | succ n ih => rw [replicate_succ, cons_append, skipWs_space (by decide), ih]
  rw [newline, cons_append, skipWs_space (by decide), hpad]

/-! ## Strings -/

section Strings

variable (text : List Char)

theorem length_units {c : Char} (h : c.toNat < 0x10000) : (Utf16.units c).length = 1 := by
  rw [Utf16.units, if_pos h]
  rfl

theorem hexDigit_toNat_lt (n : Nat) (h : n < 16) : (hexDigit n).toNat < 0x10000 := by
  interval_cases n <;> decide

/-- A control character comes back from its escape. -/
theorem escapedUnit_hexDigits (n : Nat) (h : n < 32) :
    escapedUnit ['0', '0', hexDigit (n / 16), hexDigit (n % 16)] = n := by
  interval_cases n <;> decide

theorem takeUnits_cons {c : Char} (h : c.toNat < 0x10000) (k : Nat) (cs : List Char) :
    takeUnits (k + 1) (c :: cs) = c :: takeUnits k cs := by
  rw [takeUnits, length_units h, Nat.add_sub_cancel]

theorem dropUnits_cons {c : Char} (h : c.toNat < 0x10000) (k : Nat) (cs : List Char) :
    dropUnits (k + 1) (c :: cs) = dropUnits k cs := by
  rw [dropUnits, length_units h, Nat.add_sub_cancel]

/-- The four digits of an escape are taken off the text. -/
theorem units_hexDigits {n : Nat} (h : n < 32) (cs : List Char) :
    takeUnits 4 ('0' :: '0' :: hexDigit (n / 16) :: hexDigit (n % 16) :: cs) =
        ['0', '0', hexDigit (n / 16), hexDigit (n % 16)] ∧
      dropUnits 4 ('0' :: '0' :: hexDigit (n / 16) :: hexDigit (n % 16) :: cs) = cs := by
  have h0 : ('0' : Char).toNat < 0x10000 := by decide
  have h1 := hexDigit_toNat_lt (n / 16) (by omega)
  have h2 := hexDigit_toNat_lt (n % 16) (by omega)
  refine ⟨?_, ?_⟩
  · rw [takeUnits_cons h0, takeUnits_cons h0, takeUnits_cons h1, takeUnits_cons h2, takeUnits]
  · rw [dropUnits_cons h0, dropUnits_cons h0, dropUnits_cons h1, dropUnits_cons h2, dropUnits]

/-- One character as `quoteChar` writes it is one turn of the reader's loop. -/
theorem readChars_quoteChar (fuel : Nat) (c : Char) (cs : List Char) :
    readChars text (fuel + 1) (quoteChar c ++ cs) =
      (readChars text fuel cs).map fun r ↦ (Utf16.units c ++ r.1, r.2) := by
  have hplain : ∀ {c : Char}, c ≠ '"' → c ≠ '\\' → readChars text (fuel + 1) (c :: cs) =
      (readChars text fuel cs).map fun r ↦ (Utf16.units c ++ r.1, r.2) := by
    intro c hq hb
    rw [readChars.eq_def]
    simp only [hq, hb, if_false]
    rfl
  have hescape : ∀ {e out : Char}, jsonEscape? e = some out →
      readChars text (fuel + 1) ('\\' :: e :: cs) =
        (readChars text fuel cs).map fun r ↦ (Utf16.units out ++ r.1, r.2) := by
    intro e out he
    rw [readChars, if_neg (by decide), if_pos rfl]
    simp only [he]
    rfl
  rw [quoteChar]
  split_ifs with h1 h2 h3 h4 h5 h6 h7 h8
  · subst h1; exact hescape rfl
  · subst h2; exact hescape rfl
  · subst h3; exact hescape rfl
  · subst h4; exact hescape rfl
  · subst h5; exact hescape rfl
  · subst h6; exact hescape rfl
  · subst h7; exact hescape rfl
  · obtain ⟨htake, hdrop⟩ := units_hexDigits h8 cs
    have hunits : Utf16.units c = [c.toNat] := if_pos (by omega)
    simp only [cons_append, nil_append]
    rw [readChars, if_neg (by decide), if_pos rfl]
    simp only [show jsonEscape? 'u' = none from rfl, htake, hdrop, escapedUnit_hexDigits c.toNat h8,
      hunits]
    rfl
  · exact hplain h1 h2

/-- What `quote` writes reads back as the code units of the string. -/
theorem readChars_quote (cs rest : List Char) : ∀ fuel, cs.length < fuel →
    readChars text fuel (cs.flatMap quoteChar ++ '"' :: rest) = .ok (cs.flatMap Utf16.units, rest) := by
  induction cs with
  | nil =>
    rintro (_ | fuel) hfuel
    · exact absurd hfuel (Nat.not_lt_zero _)
    · rfl
  | cons c cs ih =>
    rintro (_ | fuel) hfuel
    · exact absurd hfuel (Nat.not_lt_zero _)
    · rw [flatMap_cons, append_assoc, readChars_quoteChar, ih fuel (by simpa using hfuel)]
      rfl

theorem length_le_flatMap_quoteChar (cs : List Char) : cs.length ≤ (cs.flatMap quoteChar).length := by
  induction cs with
  | nil => exact le_rfl
  | cons c cs ih =>
    have hc : 1 ≤ (quoteChar c).length := by
      rw [quoteChar]
      split_ifs <;> simp
    rw [flatMap_cons, length_append, length_cons]
    omega

/-- A string reads back after its opening quote. -/
theorem readString_quote (s : String) (rest : List Char) :
    readString text (s.toList.flatMap quoteChar ++ '"' :: rest) = .ok (s, rest) := by
  have hlen := length_le_flatMap_quoteChar s.toList
  rw [readString, readChars_quote text s.toList rest _ (by simp only [length_append]; omega)]
  show Except.ok (String.ofList (Utf16.decode (s.toList.flatMap Utf16.units)), rest) = _
  rw [Utf16.decode_flatMap_units, String.ofList_toList]

end Strings

/-! ## Numbers -/

/-- What stands after a value: nothing, a comma or the end of the line. -/
def Delimited (rest : List Char) : Prop := ∀ c, rest.head? = some c → c = ',' ∨ c = '\n'

/-- A text that does not go on with a digit. -/
def StopsDigits (rest : List Char) : Prop := ∀ c, rest.head? = some c → c.isDigit = false

theorem StopsDigits.cons {c : Char} (h : c.isDigit = false) (cs : List Char) :
    StopsDigits (c :: cs) := by
  intro x hx
  rw [← Option.some.inj hx, h]

/-- A text no number goes on with. -/
def StopsNumber (rest : List Char) : Prop :=
  ∀ c, rest.head? = some c → c.isDigit = false ∧ c ≠ '.' ∧ c ≠ 'e' ∧ c ≠ 'E'

variable {rest : List Char}

theorem StopsNumber.stopsDigits (h : StopsNumber rest) : StopsDigits rest :=
  fun c hc ↦ (h c hc).1

theorem Delimited.stopsNumber (h : Delimited rest) : StopsNumber rest := by
  intro c hc
  rcases h c hc with rfl | rfl <;> decide

theorem takeWhile_digits {ds : List Char} (hds : ∀ d ∈ ds, d.isDigit) (hrest : StopsDigits rest) :
    (ds ++ rest).takeWhile Char.isDigit = ds := by
  have hnil : rest.takeWhile Char.isDigit = [] := by
    cases rest with
    | nil => rfl
    | cons c cs => exact takeWhile_cons_of_neg (by simp [hrest c rfl])
  rw [takeWhile_append_of_pos hds, hnil, append_nil]

theorem dropWhile_digits {ds : List Char} (hds : ∀ d ∈ ds, d.isDigit) (hrest : StopsDigits rest) :
    (ds ++ rest).dropWhile Char.isDigit = rest := by
  have hnil : rest.dropWhile Char.isDigit = rest := by
    cases rest with
    | nil => rfl
    | cons c cs => exact dropWhile_cons_of_neg (by simp [hrest c rfl])
  rw [dropWhile_append_of_pos hds, hnil]

/-- A fraction of a number, as far as it goes. -/
theorem fractionToken_append {fraction : List Char}
    (h : fraction = [] ∨ ∃ ds, fraction = '.' :: ds ∧ ∀ d ∈ ds, d.isDigit)
    (hrest : StopsDigits rest) (hdot : fraction = [] → rest.head? ≠ some '.') :
    fractionToken (fraction ++ rest) = fraction := by
  rcases h with rfl | ⟨ds, rfl, hds⟩
  · rw [nil_append, fractionToken, if_neg (hdot rfl)]
  · rw [fractionToken, cons_append, head?_cons, if_pos rfl, tail_cons, takeWhile_digits hds hrest]

theorem exponentSign_append {sign ds : List Char} (h : sign = [] ∨ sign = ['+'] ∨ sign = ['-'])
    (hne : ds ≠ []) (hds : ∀ d ∈ ds, d.isDigit) : exponentSign (sign ++ (ds ++ rest)) = sign := by
  rcases h with rfl | rfl | rfl
  · obtain ⟨d, ds, rfl⟩ := exists_cons_of_ne_nil hne
    have hd := hds d (.head _)
    have hplus : d ≠ '+' := by
      rintro rfl
      exact nomatch hd
    have hminus : d ≠ '-' := by
      rintro rfl
      exact nomatch hd
    simp [exponentSign, hplus, hminus]
  · rfl
  · rfl

/-- An exponent of a number, as far as it goes. -/
theorem exponentToken_append {exponent : List Char}
    (h : exponent = [] ∨ ∃ e sign ds, exponent = e :: (sign ++ ds) ∧ (e = 'e' ∨ e = 'E') ∧
      (sign = [] ∨ sign = ['+'] ∨ sign = ['-']) ∧ ds ≠ [] ∧ ∀ d ∈ ds, d.isDigit)
    (hrest : StopsNumber rest) : exponentToken (exponent ++ rest) = exponent := by
  rcases h with rfl | ⟨e, sign, ds, rfl, he, hsign, hne, hds⟩
  · have hhead : ¬ (rest.head? = some 'e' ∨ rest.head? = some 'E') := by
      rintro (h | h)
      · exact (hrest _ h).2.2.1 (by simp)
      · exact (hrest _ h).2.2.2 (by simp)
    rw [nil_append, exponentToken, if_neg hhead]
  · have hhead : (e :: (sign ++ ds) ++ rest).head? = some 'e' ∨
        (e :: (sign ++ ds) ++ rest).head? = some 'E' := by
      rcases he with rfl | rfl
      · exact .inl rfl
      · exact .inr rfl
    have htail : (e :: (sign ++ ds) ++ rest).tail = sign ++ (ds ++ rest) := by simp
    rw [exponentToken, if_pos hhead, htail, exponentSign_append hsign hne hds]
    simp only [drop_left, takeWhile_digits hds hrest.stopsDigits]
    rfl

/-- The reader takes the whole of a number and nothing after it. -/
theorem numberToken_append {cs : List Char} (h : IsNumberText cs) (hrest : StopsNumber rest) :
    numberToken (cs ++ rest) = cs := by
  obtain ⟨sign, whole, fraction, exponent, rfl, hsign, ⟨hne, hwhole⟩, hfraction, hexponent⟩ := h
  have hexp := exponentToken_append hexponent hrest
  have hstop : StopsDigits (exponent ++ rest) := by
    rcases hexponent with rfl | ⟨e, esign, ds, rfl, rfl | rfl, -⟩
    · exact hrest.stopsDigits
    · exact .cons (by decide) _
    · exact .cons (by decide) _
  have hdot : (exponent ++ rest).head? ≠ some '.' := by
    rcases hexponent with rfl | ⟨e, esign, ds, rfl, rfl | rfl, -⟩
    · exact fun h ↦ (hrest _ h).2.1 (by simp)
    · simp
    · simp
  have hfrac := fractionToken_append hfraction hstop fun _ ↦ hdot
  have hstop' : StopsDigits (fraction ++ (exponent ++ rest)) := by
    rcases hfraction with rfl | ⟨ds, rfl, -⟩
    · exact hstop
    · exact .cons (by decide) _
  have htake := takeWhile_digits hwhole hstop'
  have hdrop := dropWhile_digits hwhole hstop'
  have hassoc : sign ++ (whole ++ (fraction ++ exponent)) ++ rest =
      sign ++ (whole ++ (fraction ++ (exponent ++ rest))) := by simp
  have htoken : (if (sign ++ (whole ++ (fraction ++ (exponent ++ rest)))).head? = some '-' then
      ['-'] else []) = sign := by
    rcases hsign with rfl | rfl
    · obtain ⟨d, ds, rfl⟩ := exists_cons_of_ne_nil hne
      have hd : d ≠ '-' := by
        rintro rfl
        exact absurd (hwhole _ (.head _)) (by decide)
      simp [hd]
    · simp
  rw [hassoc, numberToken, htoken]
  simp only [drop_left, htake, hdrop, hfrac, hexp]

/-! ## Documents -/

namespace Value

mutual

/-- No object and no `undefined` in it: a leaf of a document. -/
def isFlat : Value → Bool
  | .undefined | .obj _ => false
  | .arr items => itemsFlat items
  | _ => true

def itemsFlat : List Value → Bool
  | [] => true
  | item :: items => isFlat item && itemsFlat items

end

mutual

/-- Every number in a value has a property. -/
def Numbers (P : ℚ → Prop) : Value → Prop
  | .num q => P q
  | .arr items => ItemsNumbers P items
  | .obj fields => FieldsNumbers P fields
  | _ => True

def ItemsNumbers (P : ℚ → Prop) : List Value → Prop
  | [] => True
  | item :: items => Numbers P item ∧ ItemsNumbers P items

def FieldsNumbers (P : ℚ → Prop) : List (String × Value) → Prop
  | [] => True
  | (_, value) :: fields => Numbers P value ∧ FieldsNumbers P fields

end

mutual

/-- A document: flat leaves with numbers that have a property, in objects whose keys differ and
have one too. -/
def IsTree (P : ℚ → Prop) (K : String → Prop) : Value → Prop
  | .obj fields => (fields.map (·.1)).Nodup ∧ FieldsTree P K fields
  | v => v.isFlat ∧ v.Numbers P

def FieldsTree (P : ℚ → Prop) (K : String → Prop) : List (String × Value) → Prop
  | [] => True
  | (key, value) :: fields => K key ∧ IsTree P K value ∧ FieldsTree P K fields

end

mutual

/-- The leaf of a document a value is written as. -/
def toLeaf : Value → JsonLeaf
  | .bool b => .bool b
  | .num q => .num (some q)
  | .str s => .str s
  | .arr items => .arr (itemsToLeaves items)
  | .undefined | .null | .obj _ => .null

def itemsToLeaves : List Value → List JsonLeaf
  | [] => []
  | item :: items => toLeaf item :: itemsToLeaves items

end

mutual

/-- The document a value is written as. -/
def toNode : Value → JsonNode
  | .obj fields => .obj (fieldsToNodes fields)
  | v => .leaf v.toLeaf

def fieldsToNodes : List (String × Value) → List (String × JsonNode)
  | [] => []
  | (key, value) :: fields => (key, toNode value) :: fieldsToNodes fields

end

end Value

section Reading

variable {nt : NumberText} (text : List Char)

variable {cs : List Char}

/-- The reader skips what stands before a value. -/
theorem readValue_skipWs (fuel : Nat) {cs' : List Char} (h : skipWs cs = skipWs cs') :
    readValue nt text (fuel + 1) cs = readValue nt text (fuel + 1) cs' := by
  rw [readValue, readValue, h]

theorem readItems_skipWs (fuel : Nat) {cs' : List Char} (h : skipWs cs = skipWs cs') :
    readItems nt text (fuel + 2) cs = readItems nt text (fuel + 2) cs' := by
  rw [readItems, readItems, readValue_skipWs text fuel h]

theorem readMembers_skipWs (seen : List String) (fuel : Nat) {cs' : List Char}
    (h : skipWs cs = skipWs cs') :
    readMembers nt text seen (fuel + 1) cs = readMembers nt text seen (fuel + 1) cs' := by
  rw [readMembers, readMembers, h]

/-- The characters a number may start with. -/
theorem mem_of_number_head {c : Char} (h : c = '-' ∨ c.isDigit) : c ∈ "-0123456789".toList := by
  rcases h with rfl | h
  · decide
  · obtain ⟨h0, h9⟩ : 48 ≤ c.toNat ∧ c.toNat ≤ 57 := by
      simpa [Char.isDigit, UInt32.le_iff_toNat_le] using h
    have hmem : ∀ n, 48 ≤ n → n ≤ 57 → Char.ofNat n ∈ "-0123456789".toList := by
      intro n h0 h9
      interval_cases n <;> decide
    have hc := hmem c.toNat h0 h9
    rwa [Char.ofNat_toNat] at hc

theorem IsNumberText.head (h : IsNumberText cs) : ∃ c tail, cs = c :: tail ∧ (c = '-' ∨ c.isDigit) := by
  obtain ⟨sign, whole, fraction, exponent, rfl, hsign, ⟨hne, hwhole⟩, -⟩ := h
  obtain ⟨d, ds, rfl⟩ := exists_cons_of_ne_nil hne
  rcases hsign with rfl | rfl
  · exact ⟨d, _, rfl, .inr (hwhole d (.head _))⟩
  · exact ⟨'-', _, rfl, .inl rfl⟩

/-- A number is read whole. -/
theorem readValue_number {q : ℚ} (hq : nt.IsNumber q) {rest : List Char} (hrest : Delimited rest)
    (fuel : Nat) : readValue nt text (fuel + 1) (nt.write q ++ rest) =
      .ok (.leaf (.num (some q)), rest) := by
  have hshape := nt.isNumberText hq
  have htoken := numberToken_append hshape hrest.stopsNumber
  obtain ⟨c, cs, hcs, hc⟩ := hshape.head
  have hheads : ∀ c ∈ "-0123456789".toList, isJsSpace c = false ∧ c ≠ '{' ∧ c ≠ '[' ∧ c ≠ '"' ∧
      c ≠ 't' ∧ c ≠ 'f' ∧ c ≠ 'n' := all_iff_forall_prop.mp (by decide)
  obtain ⟨hs, h1, h2, h3, h4, h5, h6⟩ := hheads c (mem_of_number_head hc)
  have hread := nt.read_write hq
  rw [hcs] at htoken hread ⊢
  rw [readValue, cons_append, skipWs_cons hs]
  simp only [h1, h2, h3, h4, h5, h6, if_false, if_pos hc]
  rw [← cons_append, htoken, hread, drop_left]

/-- A string is read whole. -/
theorem readValue_quote (s : String) (rest : List Char) (fuel : Nat) :
    readValue nt text (fuel + 1) (quote s.toList ++ rest) = .ok (.leaf (.str s), rest) := by
  have hread := readString_quote text s rest
  have hassoc : quote s.toList ++ rest = '"' :: (s.toList.flatMap quoteChar ++ '"' :: rest) := by
    simp [quote]
  rw [hassoc, readValue, skipWs_cons (by decide)]
  simp only [show ('"' : Char) ≠ '{' by decide, show ('"' : Char) ≠ '[' by decide, if_false, if_true,
    hread]
  rfl

/-- A text that is neither empty nor starts with a space or a closing bracket. -/
def StartsValue (cs : List Char) : Prop := ∃ c tail, cs = c :: tail ∧ isJsSpace c = false ∧ c ≠ ']'

variable {v : Value} {t : List Char}

theorem stringify_starts (hv : v.Numbers nt.IsNumber) {depth : Nat}
    (ht : stringify nt depth v = some t) : StartsValue t := by
  have hlayout : ∀ {opening closing : Char} {parts : List (List Char)}, isJsSpace opening = false →
      opening ≠ ']' → StartsValue (layout opening closing depth parts) := by
    intro opening closing parts hs hne
    rw [layout]
    split_ifs
    · exact ⟨opening, _, rfl, hs, hne⟩
    · exact ⟨opening, _, rfl, hs, hne⟩
  cases v with
  | undefined => simp [stringify] at ht
  | null =>
    rw [stringify] at ht
    cases ht
    exact ⟨'n', _, rfl, by decide, by decide⟩
  | bool b =>
    rw [stringify] at ht
    cases ht
    cases b
    · exact ⟨'f', _, rfl, by decide, by decide⟩
    · exact ⟨'t', _, rfl, by decide, by decide⟩
  | num q =>
    rw [stringify] at ht
    cases ht
    rw [Value.Numbers] at hv
    obtain ⟨c, cs, hcs, hc⟩ := (nt.isNumberText hv).head
    have hheads : ∀ c ∈ "-0123456789".toList, isJsSpace c = false ∧ c ≠ ']' :=
      all_iff_forall_prop.mp (by decide)
    obtain ⟨hs, hne⟩ := hheads c (mem_of_number_head hc)
    exact ⟨c, cs, hcs, hs, hne⟩
  | str s =>
    rw [stringify] at ht
    cases ht
    exact ⟨'"', _, rfl, by decide, by decide⟩
  | arr items | obj fields =>
    rw [stringify] at ht
    cases ht
    exact hlayout (by decide) (by decide)

theorem exists_stringify_flat (nt : NumberText) (hv : v.isFlat) (depth : Nat) :
    ∃ t, stringify nt depth v = some t := by
  cases v with
  | undefined => simp [Value.isFlat] at hv
  | obj fields => simp [Value.isFlat] at hv
  | _ => exact ⟨_, by rw [stringify]⟩

theorem delimited_newline (depth : Nat) (cs : List Char) : Delimited (newline depth ++ cs) := by
  intro c hc
  rw [newline, cons_append, head?_cons] at hc
  exact .inr (Option.some.inj hc).symm

theorem delimited_comma (cs : List Char) : Delimited (',' :: cs) := by
  intro c hc
  exact .inl (Option.some.inj hc).symm

theorem layout_of_ne_nil {parts : List (List Char)} (h : parts ≠ []) (opening closing : Char)
    (depth : Nat) : layout opening closing depth parts =
      opening :: (newline (depth + 1) ++ ((',' :: newline (depth + 1)).intercalate parts ++
        (newline depth ++ [closing]))) := by
  rw [layout, if_neg (by simpa using h)]
  simp

theorem StartsValue.append (h : StartsValue cs) (cs' : List Char) : StartsValue (cs ++ cs') := by
  obtain ⟨c, tail, rfl, hc⟩ := h
  exact ⟨c, tail ++ cs', rfl, hc⟩

/-- Joined parts start with the first. -/
theorem intercalate_cons (sep part : List Char) (parts : List (List Char)) :
    ∃ after, sep.intercalate (part :: parts) = part ++ after := by
  cases parts with
  | nil => exact ⟨[], by rw [intercalate_singleton, append_nil]⟩
  | cons next parts =>
    rw [intercalate_cons_cons, append_assoc]
    exact ⟨_, rfl⟩

theorem StartsValue.intercalate {part : List Char} (h : StartsValue part) (sep : List Char)
    (parts : List (List Char)) : StartsValue (sep.intercalate (part :: parts)) := by
  obtain ⟨after, hafter⟩ := intercalate_cons sep part parts
  rw [hafter]
  exact h.append after

/-- What stands at the start of a value is not skipped, and closes nothing. -/
theorem StartsValue.skipWs (h : StartsValue cs) : skipWs cs = cs ∧ cs.head? ≠ some ']' := by
  obtain ⟨c, tail, rfl, hspace, hclose⟩ := h
  refine ⟨skipWs_cons hspace tail, ?_⟩
  simpa using hclose

theorem stringifyItems_cons (nt : NumberText) {item : Value} (hitem : item.isFlat) (depth : Nat)
    (items : List Value) : ∃ t, stringify nt depth item = some t ∧
      stringifyItems nt depth (item :: items) = t :: stringifyItems nt depth items := by
  obtain ⟨t, ht⟩ := exists_stringify_flat nt hitem depth
  exact ⟨t, ht, by rw [stringifyItems, ht, Option.getD_some]⟩

/-- A value is read back as a node, wherever it is written. -/
def ReadsBack (nt : NumberText) (v : Value) (node : JsonNode) : Prop :=
  ∀ (depth : Nat) (t : List Char), stringify nt depth v = some t → ∀ rest : List Char,
    Delimited rest → ∀ fuel : Nat, 2 * t.length ≤ fuel →
    readValue nt text (fuel + 1) (t ++ rest) = .ok (node, rest)

/-- The items of an array are read back, up to the bracket that closes it. -/
theorem readItems_intercalate (depth depth' : Nat) (rest : List Char) :
    ∀ {item : Value} {items : List Value}, Value.itemsFlat (item :: items) →
    (∀ v ∈ item :: items, ReadsBack text nt v (.leaf v.toLeaf)) → ∀ fuel : Nat,
    2 * ((',' :: newline depth).intercalate (stringifyItems nt depth (item :: items))).length ≤ fuel →
    readItems nt text (fuel + 2) ((',' :: newline depth).intercalate
        (stringifyItems nt depth (item :: items)) ++ (newline depth' ++ ']' :: rest)) =
      .ok (Value.itemsToLeaves (item :: items), rest)
  | item, [], hflat, hreads, fuel, hfuel => by
    obtain ⟨hitem, -⟩ := Bool.and_eq_true_iff.mp hflat
    obtain ⟨t, ht, hparts⟩ := stringifyItems_cons nt hitem depth []
    have hafter : skipWs (newline depth' ++ ']' :: rest) = ']' :: rest := by
      rw [skipWs_newline, skipWs_cons (by decide)]
    rw [hparts, stringifyItems, intercalate_singleton] at hfuel ⊢
    rw [readItems, hreads item (.head _) depth t ht _ (delimited_newline depth' _) _ (by omega)]
    simp only [bind, Except.bind, hafter, head?_cons]
    rfl
  | item, next :: items, hflat, hreads, fuel, hfuel => by
    obtain ⟨hitem, hitems⟩ := Bool.and_eq_true_iff.mp hflat
    obtain ⟨t, ht, hparts⟩ := stringifyItems_cons nt hitem depth (next :: items)
    obtain ⟨t', ht', hparts'⟩ := stringifyItems_cons nt
      (Bool.and_eq_true_iff.mp hitems).1 depth items
    have hjoin : (',' :: newline depth).intercalate (stringifyItems nt depth (item :: next :: items)) =
        t ++ ',' :: (newline depth ++
          (',' :: newline depth).intercalate (stringifyItems nt depth (next :: items))) := by
      rw [hparts, hparts', intercalate_cons_cons]
      simp
    rw [hjoin] at hfuel ⊢
    simp only [length_append, length_cons] at hfuel
    obtain ⟨fuel, rfl⟩ : ∃ f, fuel = f + 1 := ⟨fuel - 1, by omega⟩
    have ih := readItems_intercalate depth depth' rest hitems
      (fun v hv ↦ hreads v (.tail _ hv)) fuel (by omega)
    rw [← readItems_skipWs text fuel (skipWs_newline depth _)] at ih
    rw [append_assoc, cons_append, append_assoc, readItems,
      hreads item (.head _) depth t ht _ (delimited_comma _) _ (by omega)]
    simp only [bind, Except.bind, skipWs_cons (show isJsSpace ',' = false by decide), head?_cons,
      tail_cons, if_true, ih]
    rfl

/-- An array is read back when its items are. -/
theorem readsBack_array {items : List Value} (hflat : Value.itemsFlat items)
    (hnum : Value.ItemsNumbers nt.IsNumber items)
    (hreads : ∀ v ∈ items, ReadsBack text nt v (.leaf v.toLeaf)) :
    ReadsBack text nt (.arr items) (.leaf (Value.toLeaf (.arr items))) := by
  intro depth t ht rest hrest fuel hfuel
  rw [stringify] at ht
  cases ht
  cases items with
  | nil => rfl
  | cons item items =>
    obtain ⟨t, ht, hparts⟩ := stringifyItems_cons nt (Bool.and_eq_true_iff.mp hflat).1
      (depth + 1) items
    have hne : stringifyItems nt (depth + 1) (item :: items) ≠ [] := by
      rw [hparts]
      exact cons_ne_nil _ _
    have hstarts := ((stringify_starts hnum.1 ht).intercalate (',' :: newline (depth + 1))
      (stringifyItems nt (depth + 1) items)).append (newline depth ++ ']' :: rest)
    rw [← hparts] at hstarts
    obtain ⟨hskip, hhead⟩ := hstarts.skipWs
    rw [← skipWs_newline (depth + 1)] at hskip
    rw [layout_of_ne_nil hne] at hfuel ⊢
    simp only [length_cons, length_append] at hfuel
    obtain ⟨fuel, rfl⟩ : ∃ f, fuel = f + 2 := ⟨fuel - 2, by omega⟩
    have hread := readItems_intercalate text (depth + 1) depth rest hflat hreads fuel (by omega)
    rw [← readItems_skipWs text fuel (skipWs_newline (depth + 1) _)] at hread
    simp only [cons_append, append_assoc, nil_append]
    rw [readValue, skipWs_cons (by decide)]
    simp only [show ('[' : Char) ≠ '{' by decide, if_false, if_true, hskip, hhead, hread]
    rfl

mutual

/-- A leaf is read back. -/
theorem readsBack_flat : ∀ v : Value, v.isFlat → v.Numbers nt.IsNumber →
    ReadsBack text nt v (.leaf v.toLeaf)
  | .undefined, hflat, _ => by simp [Value.isFlat] at hflat
  | .obj _, hflat, _ => by simp [Value.isFlat] at hflat
  | .null, _, _ => by
    intro depth t ht rest _ fuel _
    rw [stringify] at ht
    cases ht
    rfl
  | .bool b, _, _ => by
    intro depth t ht rest _ fuel _
    rw [stringify] at ht
    cases ht
    cases b <;> rfl
  | .num q, _, hnum => by
    intro depth t ht rest hrest fuel _
    rw [stringify] at ht
    cases ht
    rw [Value.Numbers] at hnum
    rw [readValue_number text hnum hrest, Value.toLeaf]
  | .str s, _, _ => by
    intro depth t ht rest hrest fuel _
    rw [stringify] at ht
    cases ht
    rw [readValue_quote, Value.toLeaf]
  | .arr items, hflat, hnum => by
    rw [Value.isFlat] at hflat
    rw [Value.Numbers] at hnum
    exact readsBack_array text hflat hnum (readsBack_items items hflat hnum)

theorem readsBack_items : ∀ items : List Value, Value.itemsFlat items →
    Value.ItemsNumbers nt.IsNumber items → ∀ v ∈ items, ReadsBack text nt v (.leaf v.toLeaf)
  | [], _, _ => nofun
  | item :: items, hflat, hnum => by
    obtain ⟨hitem, hitems⟩ := Bool.and_eq_true_iff.mp hflat
    exact forall_mem_cons.mpr
      ⟨readsBack_flat item hitem hnum.1, readsBack_items items hitems hnum.2⟩

end

/-! ### Objects -/

variable {P : ℚ → Prop} {K : String → Prop}

theorem exists_stringify_tree (nt : NumberText) (hv : v.IsTree P K) (depth : Nat) :
    ∃ t, stringify nt depth v = some t := by
  cases v with
  | undefined => simp [Value.IsTree, Value.isFlat] at hv
  | _ => exact ⟨_, by rw [stringify]⟩

theorem stringifyFields_cons (nt : NumberText) (hv : v.IsTree P K) (depth : Nat) (key : String)
    (fields : List (String × Value)) :
    ∃ t, stringify nt depth v = some t ∧ stringifyFields nt depth ((key, v) :: fields) =
      (quote key.toList ++ ':' :: ' ' :: t) :: stringifyFields nt depth fields := by
  obtain ⟨t, ht⟩ := exists_stringify_tree nt hv depth
  exact ⟨t, ht, by rw [stringifyFields, ht]⟩

/-- A member up to what stands after its value. -/
theorem readMembers_value {seen : List String} {key : String} (hkey : key ∉ seen)
    {node : JsonNode} (hread : ReadsBack text nt v node) {depth : Nat}
    (ht : stringify nt depth v = some t) {rest : List Char} (hrest : Delimited rest) {fuel : Nat}
    (hfuel : 2 * t.length ≤ fuel) :
    readMembers nt text seen (fuel + 2) (quote key.toList ++ ':' :: ' ' :: t ++ rest) =
      if (skipWs rest).head? = some ',' then do
        let (entries, rest) ← readMembers nt text (key :: seen) (fuel + 1) (skipWs rest).tail
        return ((key, node) :: entries, rest)
      else if (skipWs rest).head? = some '\x7d' then .ok ([(key, node)], (skipWs rest).tail)
      else malformedAt text "expected \",\" or \"\x7d\"" (skipWs rest) := by
  have hassoc : quote key.toList ++ ':' :: ' ' :: t ++ rest =
      '"' :: (key.toList.flatMap quoteChar ++ '"' :: (':' :: ' ' :: (t ++ rest))) := by
    simp [quote]
  have hspace : skipWs (' ' :: (t ++ rest)) = skipWs (t ++ rest) := skipWs_space (by decide) _
  have hvalue := hread depth t ht rest hrest fuel hfuel
  rw [← readValue_skipWs text fuel hspace] at hvalue
  rw [hassoc, readMembers, skipWs_cons (by decide), head?_cons, if_pos rfl, tail_cons,
    readString_quote]
  have hseen : seen.contains key = false := by simpa using hkey
  simp only [bind, Except.bind, hseen, Bool.false_eq_true, if_false,
    skipWs_cons (show isJsSpace ':' = false by decide), head?_cons, tail_cons, if_true,
    hvalue]
  rfl

/-- The members of an object are read back, up to the brace that closes it. -/
theorem readMembers_intercalate (depth depth' : Nat) (rest : List Char) :
    ∀ {key : String} {v : Value} {fields : List (String × Value)}
    (seen : List String), Value.FieldsTree P K ((key, v) :: fields) →
    (((key, v) :: fields).map (·.1)).Nodup → (∀ k ∈ ((key, v) :: fields).map (·.1), k ∉ seen) →
    (∀ p ∈ (key, v) :: fields, ReadsBack text nt p.2 p.2.toNode) → ∀ fuel : Nat,
    2 * ((',' :: newline depth).intercalate (stringifyFields nt depth ((key, v) :: fields))).length ≤
      fuel →
    readMembers nt text seen (fuel + 2) ((',' :: newline depth).intercalate
        (stringifyFields nt depth ((key, v) :: fields)) ++ (newline depth' ++ '\x7d' :: rest)) =
      .ok (Value.fieldsToNodes ((key, v) :: fields), rest)
  | key, v, [], seen, htree, _, hseen, hreads, fuel, hfuel => by
    obtain ⟨-, hv, -⟩ := htree
    obtain ⟨t, ht, hparts⟩ := stringifyFields_cons nt hv depth key []
    have hafter : skipWs (newline depth' ++ '\x7d' :: rest) = '\x7d' :: rest := by
      rw [skipWs_newline, skipWs_cons (by decide)]
    rw [hparts, stringifyFields, intercalate_singleton] at hfuel ⊢
    simp only [length_append, length_cons] at hfuel
    rw [readMembers_value text (hseen key (.head _)) (hreads _ (.head _)) ht
      (delimited_newline depth' _) (by omega)]
    simp only [hafter, head?_cons]
    rfl
  | key, v, (key', v') :: fields, seen, htree, hnodup, hseen, hreads, fuel, hfuel => by
    obtain ⟨-, hv, hfields⟩ := htree
    obtain ⟨t, ht, hparts⟩ := stringifyFields_cons nt hv depth key ((key', v') :: fields)
    obtain ⟨t', ht', hparts'⟩ := stringifyFields_cons nt hfields.2.1 depth key' fields
    have hjoin : (',' :: newline depth).intercalate
          (stringifyFields nt depth ((key, v) :: (key', v') :: fields)) =
        quote key.toList ++ ':' :: ' ' :: t ++ ',' :: (newline depth ++ (',' :: newline depth).intercalate
          (stringifyFields nt depth ((key', v') :: fields))) := by
      rw [hparts, hparts', intercalate_cons_cons]
      simp
    rw [hjoin] at hfuel ⊢
    simp only [length_append, length_cons] at hfuel
    obtain ⟨fuel, rfl⟩ : ∃ f, fuel = f + 1 := ⟨fuel - 1, by omega⟩
    rw [map_cons, nodup_cons] at hnodup
    have hfresh : ∀ k ∈ ((key', v') :: fields).map (·.1), k ∉ key :: seen := by
      intro k hk hmem
      rcases mem_cons.mp hmem with rfl | hmem
      · exact hnodup.1 hk
      · exact hseen k (.tail _ hk) hmem
    have ih := readMembers_intercalate depth depth' rest (key :: seen) hfields hnodup.2 hfresh
      (fun p hp ↦ hreads p (.tail _ hp)) fuel (by omega)
    rw [← readMembers_skipWs text _ _ (skipWs_newline depth _)] at ih
    rw [append_assoc (quote key.toList ++ ':' :: ' ' :: t), cons_append,
      append_assoc (newline depth), readMembers_value text (hseen key (.head _)) (hreads _ (.head _)) ht
        (delimited_comma _) (by omega)]
    simp only [skipWs_cons (show isJsSpace ',' = false by decide), head?_cons, tail_cons,
      if_true, ih]
    rfl

/-- An object is read back when its properties are. -/
theorem readsBack_object {fields : List (String × Value)} (htree : Value.FieldsTree P K fields)
    (hnodup : (fields.map (·.1)).Nodup) (hreads : ∀ p ∈ fields, ReadsBack text nt p.2 p.2.toNode) :
    ReadsBack text nt (.obj fields) (Value.toNode (.obj fields)) := by
  intro depth t ht rest hrest fuel hfuel
  rw [stringify] at ht
  cases ht
  cases fields with
  | nil => rfl
  | cons p fields =>
    obtain ⟨key, v⟩ := p
    obtain ⟨t, ht, hparts⟩ := stringifyFields_cons nt htree.2.1 (depth + 1) key fields
    have hne : stringifyFields nt (depth + 1) ((key, v) :: fields) ≠ [] := by
      rw [hparts]
      exact cons_ne_nil _ _
    obtain ⟨after, hafter⟩ := intercalate_cons (',' :: newline (depth + 1))
      (quote key.toList ++ ':' :: ' ' :: t) (stringifyFields nt (depth + 1) fields)
    rw [← hparts] at hafter
    have hhead : (skipWs ((',' :: newline (depth + 1)).intercalate
        (stringifyFields nt (depth + 1) ((key, v) :: fields)) ++ (newline depth ++ '\x7d' :: rest))).head? =
        some '"' := by
      rw [hafter, quote, cons_append, cons_append, cons_append,
        skipWs_cons (by decide)]
      rfl
    rw [layout_of_ne_nil hne] at hfuel ⊢
    simp only [length_cons, length_append] at hfuel
    obtain ⟨fuel, rfl⟩ : ∃ f, fuel = f + 2 := ⟨fuel - 2, by omega⟩
    have hread := readMembers_intercalate text (depth + 1) depth rest [] htree hnodup
      (fun _ _ ↦ not_mem_nil) hreads fuel (by omega)
    rw [← readMembers_skipWs text _ _ (skipWs_newline (depth + 1) _)] at hread
    simp only [cons_append, append_assoc, nil_append]
    rw [readValue, skipWs_cons (by decide)]
    simp only [if_true, skipWs_newline, hhead, hread]
    rfl

mutual

/-- **A document is read back.** -/
theorem readsBack_tree {K : String → Prop} : ∀ v : Value, v.IsTree nt.IsNumber K →
    ReadsBack text nt v v.toNode
  | .obj fields, hv => by
    rw [Value.IsTree] at hv
    exact readsBack_object text hv.2 hv.1 (readsBack_fields fields hv.2)
  | .undefined, hv | .null, hv | .bool _, hv | .num _, hv | .str _, hv | .arr _, hv => by
    simp only [Value.IsTree] at hv
    exact readsBack_flat text _ hv.1 hv.2

theorem readsBack_fields {K : String → Prop} : ∀ fields : List (String × Value),
    Value.FieldsTree nt.IsNumber K fields → ∀ p ∈ fields, ReadsBack text nt p.2 p.2.toNode
  | [], _ => nofun
  | (key, v) :: fields, htree => by
    obtain ⟨-, hv, hfields⟩ := htree
    exact forall_mem_cons.mpr ⟨readsBack_tree v hv, readsBack_fields fields hfields⟩

end

/-- **The reader gives back what was written.** -/
theorem readJson_stringify (hv : v.IsTree nt.IsNumber K) (ht : stringify nt 0 v = some t) :
    readJson nt t = .ok v.toNode := by
  have hread := readsBack_tree t v hv 0 t ht [] (nofun) (2 * t.length) le_rfl
  rw [append_nil] at hread
  rw [readJson, hread]
  rfl

end Reading

end Enkaku
