import Enkaku.Lib.Throwing
import Enkaku.Workflow.SetCodec
import Mathlib

/-!
# JSON texts, and what the reader makes of them

`JsonText` is the grammar of JSON: which texts are JSON and what their values are.  It knows nothing
of `readJson`.  The reader may refuse a JSON text — for a key that comes twice, or an object in an
array — but what it makes of one is its value, with the keys of every object differing
(`readJson_sound`).

A number that is no finite one is `none`, as it is for the reader, and the numbers are read by the
same `NumberText`.
-/

set_option autoImplicit false

namespace Enkaku

open List

open JsonNode Throwing

/-- A JSON value. -/
inductive Json where
  | null
  | bool (b : Bool)
  | num (q : Option ℚ)
  | str (s : String)
  | arr (items : List Json)
  | obj (fields : List (String × Json))
  deriving Inhabited

/-! ## The grammar -/

/-- Insignificant space. -/
def IsJsonSpace (ws : List Char) : Prop := ∀ c ∈ ws, c ∈ [' ', '\t', '\n', '\r']

/-- A number: no leading zeros, and digits after a point and after an exponent. -/
def IsJsonNumber (cs : List Char) : Prop :=
  ∃ sign whole fraction exponent : List Char,
    cs = sign ++ (whole ++ (fraction ++ exponent)) ∧
    (sign = [] ∨ sign = ['-']) ∧
    (whole = ['0'] ∨ ∃ d ds, whole = d :: ds ∧ d ≠ '0' ∧ ∀ x ∈ d :: ds, x.isDigit) ∧
    (fraction = [] ∨ ∃ ds, fraction = '.' :: ds ∧ ds ≠ [] ∧ ∀ d ∈ ds, d.isDigit) ∧
    (exponent = [] ∨ ∃ e sign ds, exponent = e :: (sign ++ ds) ∧ (e = 'e' ∨ e = 'E') ∧
      (sign = [] ∨ sign = ['+'] ∨ sign = ['-']) ∧ ds ≠ [] ∧ ∀ d ∈ ds, d.isDigit)

/-- The characters between the quotes of a string, with the code units they stand for. -/
inductive JsonChars : List Char → List Nat → Prop
  | nil : JsonChars [] []
  | plain {c : Char} {cs : List Char} {us : List Nat} (hquote : c ≠ '"') (hback : c ≠ '\\')
      (hcontrol : 32 ≤ c.toNat) (h : JsonChars cs us) : JsonChars (c :: cs) (Utf16.units c ++ us)
  | escape {e out : Char} {cs : List Char} {us : List Nat} (he : jsonEscape? e = some out)
      (h : JsonChars cs us) : JsonChars ('\\' :: e :: cs) (Utf16.units out ++ us)
  | unicode {c₁ c₂ c₃ c₄ : Char} {n₁ n₂ n₃ n₄ : Nat} {cs : List Char} {us : List Nat}
      (h₁ : hexValue? c₁ = some n₁) (h₂ : hexValue? c₂ = some n₂) (h₃ : hexValue? c₃ = some n₃)
      (h₄ : hexValue? c₄ = some n₄) (h : JsonChars cs us) :
      JsonChars ('\\' :: 'u' :: c₁ :: c₂ :: c₃ :: c₄ :: cs)
        ((16 * (16 * (16 * n₁ + n₂) + n₃) + n₄) :: us)

/-- A string, with its quotes. -/
def IsJsonString (cs : List Char) (s : String) : Prop :=
  ∃ inner us, cs = '"' :: (inner ++ ['"']) ∧ JsonChars inner us ∧ s = String.ofList (Utf16.decode us)

/-- A value between two spaces. -/
structure JsonPart where
  before : List Char
  text : List Char
  after : List Char
  value : Json

def JsonPart.chars (p : JsonPart) : List Char := p.before ++ (p.text ++ p.after)

def JsonPart.IsSpaced (p : JsonPart) : Prop := IsJsonSpace p.before ∧ IsJsonSpace p.after

/-- A key and a value, with the spaces around them. -/
structure JsonMember where
  lead : List Char
  keyText : List Char
  key : String
  trail : List Char
  part : JsonPart

def JsonMember.chars (m : JsonMember) : List Char :=
  m.lead ++ (m.keyText ++ (m.trail ++ ':' :: m.part.chars))

structure JsonMember.IsSpaced (m : JsonMember) : Prop where
  lead : IsJsonSpace m.lead
  trail : IsJsonSpace m.trail
  part : m.part.IsSpaced
  key : IsJsonString m.keyText m.key

/-- The text is JSON, and this is its value. -/
inductive JsonText (nt : NumberText) : List Char → Json → Prop
  | litNull : JsonText nt "null".toList .null
  | litTrue : JsonText nt "true".toList (.bool true)
  | litFalse : JsonText nt "false".toList (.bool false)
  | number {cs : List Char} (h : IsJsonNumber cs) : JsonText nt cs (.num (nt.read cs))
  | string {cs : List Char} {s : String} (h : IsJsonString cs s) : JsonText nt cs (.str s)
  | emptyArr {ws : List Char} (h : IsJsonSpace ws) : JsonText nt ('[' :: (ws ++ [']'])) (.arr [])
  | arr {parts : List JsonPart} (hne : parts ≠ []) (hws : ∀ p ∈ parts, p.IsSpaced)
      (h : ∀ p ∈ parts, JsonText nt p.text p.value) :
      JsonText nt ('[' :: ([','].intercalate (parts.map JsonPart.chars) ++ [']']))
        (.arr (parts.map JsonPart.value))
  | emptyObj {ws : List Char} (h : IsJsonSpace ws) :
      JsonText nt ('\x7b' :: (ws ++ ['\x7d'])) (.obj [])
  | obj {members : List JsonMember} (hne : members ≠ []) (hws : ∀ m ∈ members, m.IsSpaced)
      (h : ∀ m ∈ members, JsonText nt m.part.text m.part.value) :
      JsonText nt ('\x7b' :: ([','].intercalate (members.map JsonMember.chars) ++ ['\x7d']))
        (.obj (members.map fun m ↦ (m.key, m.part.value)))

/-- A JSON document: a value between two spaces. -/
def IsJsonDocument (nt : NumberText) (text : String) (value : Json) : Prop :=
  ∃ p : JsonPart, text.toList = p.chars ∧ p.value = value ∧ p.IsSpaced ∧ JsonText nt p.text p.value

/-! ## What the reader makes -/

namespace JsonLeaf

mutual

def toJson : JsonLeaf → Json
  | .null => .null
  | .bool b => .bool b
  | .num q => .num q
  | .str s => .str s
  | .arr items => .arr (itemsToJson items)

def itemsToJson : List JsonLeaf → List Json
  | [] => []
  | item :: items => toJson item :: itemsToJson items

end

end JsonLeaf

namespace JsonNode

mutual

/-- The value a document stands for. -/
def toJson : JsonNode → Json
  | .leaf value => value.toJson
  | .obj entries => .obj (entriesToJson entries)

def entriesToJson : List (String × JsonNode) → List (String × Json)
  | [] => []
  | (key, value) :: entries => (key, toJson value) :: entriesToJson entries

end

mutual

/-- The keys of every object differ. -/
def Distinct : JsonNode → Prop
  | .leaf _ => True
  | .obj entries => (entries.map (·.1)).Nodup ∧ EntriesDistinct entries

def EntriesDistinct : List (String × JsonNode) → Prop
  | [] => True
  | (_, value) :: entries => Distinct value ∧ EntriesDistinct entries

end

end JsonNode

/-! ### Spaces and heads -/

section Sound

variable {nt : NumberText} (text : List Char)

variable {c : Char}

theorem isJsSpace_of_isJsonSpace (h : c ∈ [' ', '\t', '\n', '\r']) : isJsSpace c = true := by
  simp only [mem_cons, not_mem_nil, or_false] at h
  rcases h with rfl | rfl | rfl | rfl <;> decide

theorem skipWs_isJsonSpace {ws : List Char} (h : IsJsonSpace ws) (rest : List Char) :
    skipWs (ws ++ rest) = skipWs rest := by
  induction ws with
  | nil => simp
  | cons c ws ih =>
    rw [cons_append, skipWs_space (isJsSpace_of_isJsonSpace (h c (by simp))),
      ih fun x hx ↦ h x (.tail _ hx)]

variable {rest : List Char}

theorem stopsNumber_isJsonSpace {ws : List Char} (h : IsJsonSpace ws) (hrest : StopsNumber rest) :
    StopsNumber (ws ++ rest) := by
  cases ws with
  | nil => exact hrest
  | cons c ws =>
    intro x hx
    obtain rfl : c = x := by simpa using hx
    have hmem := h c (by simp)
    simp only [mem_cons, not_mem_nil, or_false] at hmem
    rcases hmem with rfl | rfl | rfl | rfl <;> decide

theorem stopsNumber_cons {c : Char} (h : c ∈ [',', ']', '\x7d']) (rest : List Char) :
    StopsNumber (c :: rest) := by
  intro x hx
  obtain rfl : c = x := by simpa using hx
  simp only [mem_cons, not_mem_nil, or_false] at h
  rcases h with rfl | rfl | rfl <;> decide

variable {cs : List Char}

theorem IsJsonNumber.isNumberText (h : IsJsonNumber cs) : IsNumberText cs := by
  obtain ⟨sign, whole, fraction, exponent, rfl, hsign, hwhole, hfraction, hexponent⟩ := h
  refine ⟨sign, whole, fraction, exponent, by simp, hsign, ?_, ?_, hexponent⟩
  · rcases hwhole with rfl | ⟨d, ds, rfl, -, hds⟩
    · exact ⟨by simp, forall_mem_singleton.mpr (by decide)⟩
    · exact ⟨by simp, hds⟩
  · exact hfraction.imp_right fun ⟨ds, heq, _, hds⟩ ↦ ⟨ds, heq, hds⟩

/-- A value starts with no space and no bracket that closes. -/
def StartsJson (cs : List Char) : Prop :=
  ∃ c tail, cs = c :: tail ∧ isJsSpace c = false ∧ c ≠ ']' ∧ c ≠ '\x7d'

theorem JsonText.starts {j : Json} (h : JsonText nt cs j) : StartsJson cs := by
  cases h with
  | litNull => exact ⟨'n', _, rfl, by decide, by decide, by decide⟩
  | litTrue => exact ⟨'t', _, rfl, by decide, by decide, by decide⟩
  | litFalse => exact ⟨'f', _, rfl, by decide, by decide, by decide⟩
  | number h =>
    obtain ⟨c, tail, rfl, hc⟩ := h.isNumberText.head
    have hheads : ∀ c ∈ "-0123456789".toList, isJsSpace c = false ∧ c ≠ ']' ∧ c ≠ '\x7d' :=
      all_iff_forall_prop.mp (by decide)
    exact ⟨c, tail, rfl, hheads c (mem_of_number_head hc)⟩
  | string h =>
    obtain ⟨inner, us, rfl, -, -⟩ := h
    exact ⟨'"', _, rfl, by decide, by decide, by decide⟩
  | emptyArr => exact ⟨'[', _, rfl, by decide, by decide, by decide⟩
  | arr => exact ⟨'[', _, rfl, by decide, by decide, by decide⟩
  | emptyObj => exact ⟨'\x7b', _, rfl, by decide, by decide, by decide⟩
  | obj => exact ⟨'\x7b', _, rfl, by decide, by decide, by decide⟩

/-! ### Strings -/

/-- A hexadecimal digit is no space, sign or `x`. -/
theorem hexValue?_ne {n : Nat} (h : hexValue? c = some n) :
    isJsSpace c = false ∧ c ≠ '-' ∧ c ≠ '+' ∧ c ≠ 'x' ∧ c ≠ 'X' ∧ c.toNat < 128 := by
  have hne : ∀ {x : Char}, hexValue? x = none → c ≠ x := by
    rintro x hx rfl
    simp [hx] at h
  have hspaces : ∀ x ∈ ['\t', '\n', '\x0b', '\x0c', '\r', ' ', '\u00a0', '\u1680', '\u2028', '\u2029',
      '\u202f', '\u205f', '\u3000', '\ufeff'], hexValue? x = none :=
    all_iff_forall_prop.mp (by decide)
  have hsmall : c.toNat < 128 := by
    rw [hexValue?] at h
    split_ifs at h with h1 h2 h3
    · have := UInt32.le_iff_toNat_le.mp h1.2
      simp at this
      omega
    · have := UInt32.le_iff_toNat_le.mp h2.2
      simp at this
      omega
    · have := UInt32.le_iff_toNat_le.mp h3.2
      simp at this
      omega
  refine ⟨?_, hne (by decide), hne (by decide), hne (by decide), hne (by decide), hsmall⟩
  rw [isJsSpace, Bool.or_eq_false_iff]
  constructor
  · rw [contains_eq_mem, decide_eq_false_iff_not]
    exact fun hmem ↦ hne (hspaces c hmem) (by simp)
  · rw [Bool.and_eq_false_iff]
    left
    rw [decide_eq_false_iff_not]
    intro hle
    have := UInt32.le_iff_toNat_le.mp hle
    simp at this
    omega

theorem hexValue?_lt {n : Nat} (h : hexValue? c = some n) : n < 16 := by
  have hle : ∀ {x y : Char}, x ≤ y → x.toNat ≤ y.toNat := fun h ↦ UInt32.le_iff_toNat_le.mp h
  rw [hexValue?] at h
  split_ifs at h with h1 h2 h3
  · have := hle h1.2
    have := Option.some.inj h
    simp at *
    omega
  · have := hle h2.2
    have := Option.some.inj h
    simp at *
    omega
  · have := hle h3.2
    have := Option.some.inj h
    simp at *
    omega

/-- The code unit of four hexadecimal digits. -/
theorem escapedUnit_hex {c₁ c₂ c₃ c₄ : Char} {n₁ n₂ n₃ n₄ : Nat} (h₁ : hexValue? c₁ = some n₁)
    (h₂ : hexValue? c₂ = some n₂) (h₃ : hexValue? c₃ = some n₃) (h₄ : hexValue? c₄ = some n₄) :
    escapedUnit [c₁, c₂, c₃, c₄] = 16 * (16 * (16 * n₁ + n₂) + n₃) + n₄ := by
  obtain ⟨hspace, hminus, hplus, -, -, -⟩ := hexValue?_ne h₁
  obtain ⟨-, -, -, hx, hX, -⟩ := hexValue?_ne h₂
  have hparse : parseInt16 [c₁, c₂, c₃, c₄] =
      some (16 * (16 * (16 * (n₁ : Int) + n₂) + n₃) + n₄) := by
    rw [parseInt16, skipWs_cons hspace]
    simp [hminus, hplus, hx, hX, h₁, h₂, h₃, h₄, List.reduceOption]
  have := hexValue?_lt h₁
  have := hexValue?_lt h₂
  have := hexValue?_lt h₃
  have := hexValue?_lt h₄
  rw [escapedUnit, hparse]
  dsimp only
  omega

/-- The reader takes the characters of a string up to the quote that closes it. -/
theorem readChars_sound {us : List Nat} (h : JsonChars cs us) (rest : List Char) :
    ∀ {fuel : Nat} {r : List Nat × List Char},
      readChars text fuel (cs ++ '"' :: rest) = .ok r → r = (us, rest) := by
  have hnone : ∀ {cs : List Char} {r : List Nat × List Char}, readChars text 0 cs ≠ .ok r :=
    fun {cs r} hr ↦ by simp [readChars] at hr
  induction h with
  | nil =>
    intro fuel r hr
    cases fuel with
    | zero => exact absurd hr hnone
    | succ fuel =>
      rw [nil_append, readChars.eq_def] at hr
      simp only [if_true] at hr
      exact (Except.ok.inj hr).symm
  | plain hquote hback _ _ ih =>
    intro fuel r hr
    cases fuel with
    | zero => exact absurd hr hnone
    | succ fuel =>
      rw [cons_append, readChars.eq_def] at hr
      simp only [hquote, hback, if_false] at hr
      obtain ⟨r', hr', hpure⟩ := exists_of_bind_eq_ok hr
      obtain rfl := ih hr'
      exact (Except.ok.inj hpure).symm
  | escape he _ ih =>
    intro fuel r hr
    cases fuel with
    | zero => exact absurd hr hnone
    | succ fuel =>
      rw [cons_append, cons_append, readChars.eq_def] at hr
      simp only [show ('\\' : Char) ≠ '"' by decide, if_false, if_true, he] at hr
      obtain ⟨r', hr', hpure⟩ := exists_of_bind_eq_ok hr
      obtain rfl := ih hr'
      exact (Except.ok.inj hpure).symm
  | @unicode c₁ c₂ c₃ c₄ n₁ n₂ n₃ n₄ cs us h₁ h₂ h₃ h₄ _ ih =>
    intro fuel r hr
    cases fuel with
    | zero => exact absurd hr hnone
    | succ fuel =>
      have hsmall : ∀ {c : Char} {n : Nat}, hexValue? c = some n → c.toNat < 0x10000 :=
        fun hc ↦ by have := (hexValue?_ne hc).2.2.2.2.2; omega
      have htake : takeUnits 4 (c₁ :: c₂ :: c₃ :: c₄ :: (cs ++ '"' :: rest)) = [c₁, c₂, c₃, c₄] := by
        rw [takeUnits_cons (hsmall h₁), takeUnits_cons (hsmall h₂), takeUnits_cons (hsmall h₃),
          takeUnits_cons (hsmall h₄), takeUnits]
      have hdrop : dropUnits 4 (c₁ :: c₂ :: c₃ :: c₄ :: (cs ++ '"' :: rest)) = cs ++ '"' :: rest := by
        rw [dropUnits_cons (hsmall h₁), dropUnits_cons (hsmall h₂), dropUnits_cons (hsmall h₃),
          dropUnits_cons (hsmall h₄), dropUnits]
      simp only [cons_append] at hr
      rw [readChars.eq_def] at hr
      simp only [show ('\\' : Char) ≠ '"' by decide, if_false, if_true,
        show jsonEscape? 'u' = none by decide, htake, hdrop, escapedUnit_hex h₁ h₂ h₃ h₄] at hr
      obtain ⟨r', hr', hpure⟩ := exists_of_bind_eq_ok hr
      obtain rfl := ih hr'
      exact (Except.ok.inj hpure).symm

/-- The reader takes a string whole, from behind its opening quote. -/
theorem readString_sound {s : String} (h : IsJsonString cs s) (rest : List Char)
    {r : String × List Char} (hr : readString text (cs ++ rest).tail = .ok r) : r = (s, rest) := by
  obtain ⟨inner, us, rfl, hchars, rfl⟩ := h
  rw [readString] at hr
  obtain ⟨r', hr', hpure⟩ := exists_of_bind_eq_ok hr
  have htail : ('"' :: (inner ++ ['"']) ++ rest).tail = inner ++ '"' :: rest := by simp
  rw [htail] at hr'
  obtain rfl := readChars_sound text hchars rest hr'
  exact (Except.ok.inj hpure).symm

/-! ### Values -/

/-- Whatever the reader makes of the text is the value, and it stops behind it. -/
def ReadsAs (nt : NumberText) (cs : List Char) (j : Json) : Prop :=
  ∀ {fuel : Nat} {rest : List Char} {r : JsonNode × List Char}, StopsNumber rest →
    readValue nt text fuel (cs ++ rest) = .ok r → r.1.toJson = j ∧ r.1.Distinct ∧ r.2 = rest

theorem readValue_ne_zero {r : JsonNode × List Char} :
    readValue nt text 0 cs ≠ .ok r := fun hr ↦ by simp [readValue, malformedAt] at hr

/-- A value with the spaces around it. -/
theorem ReadsAs.part {p : JsonPart} (hp : p.IsSpaced) (h : ReadsAs text nt p.text p.value)
    {fuel : Nat} {r : JsonNode × List Char} (hrest : StopsNumber rest)
    (hr : readValue nt text fuel (p.chars ++ rest) = .ok r) :
    r.1.toJson = p.value ∧ r.1.Distinct ∧ r.2 = p.after ++ rest := by
  cases fuel with
  | zero => exact absurd hr (readValue_ne_zero text)
  | succ fuel =>
    have hassoc : p.chars ++ rest = p.before ++ (p.text ++ (p.after ++ rest)) := by
      simp [JsonPart.chars]
    rw [hassoc, readValue_skipWs text fuel (skipWs_isJsonSpace hp.1 _)] at hr
    exact h (stopsNumber_isJsonSpace hp.2 hrest) hr

theorem expectLit_sound {lit : String} {r : List Char}
    (h : expectLit text lit (lit.toList ++ rest) = .ok r) : r = rest := by
  have hfront : lit.toList.isPrefixOf (lit.toList ++ rest) = true := by
    rw [List.isPrefixOf_iff_prefix]
    exact prefix_append _ _
  rw [expectLit, if_pos hfront, drop_left] at h
  exact (Except.ok.inj h).symm

theorem readsAs_literal (leaf : JsonLeaf) {lit : String} (hlit : lit.toList = c :: cs)
    (hread : ∀ fuel rest, readValue nt text (fuel + 1) (c :: cs ++ rest) =
      (do let rest ← expectLit text lit (c :: cs ++ rest); return (.leaf leaf, rest))) :
    ReadsAs text nt lit.toList leaf.toJson := by
  intro fuel rest r _ hr
  cases fuel with
  | zero => exact absurd hr (readValue_ne_zero text)
  | succ fuel =>
    rw [hlit, hread] at hr
    obtain ⟨rest', hrest', hpure⟩ := exists_of_bind_eq_ok hr
    rw [← hlit] at hrest'
    obtain rfl := expectLit_sound text hrest'
    cases hpure
    exact ⟨by simp [toJson], by simp [JsonNode.Distinct], by simp⟩

theorem readsAs_number (h : IsJsonNumber cs) : ReadsAs text nt cs (.num (nt.read cs)) := by
  intro fuel rest r hrest hr
  cases fuel with
  | zero => exact absurd hr (readValue_ne_zero text)
  | succ fuel =>
    have htoken := numberToken_append h.isNumberText hrest
    obtain ⟨c, tail, rfl, hc⟩ := h.isNumberText.head
    have hheads : ∀ c ∈ "-0123456789".toList, isJsSpace c = false ∧ c ≠ '\x7b' ∧ c ≠ '[' ∧ c ≠ '"' ∧
        c ≠ 't' ∧ c ≠ 'f' ∧ c ≠ 'n' := all_iff_forall_prop.mp (by decide)
    obtain ⟨hs, h1, h2, h3, h4, h5, h6⟩ := hheads c (mem_of_number_head hc)
    rw [readValue, cons_append, skipWs_cons hs] at hr
    simp only [h1, h2, h3, h4, h5, h6, if_false, if_pos hc] at hr
    rw [← cons_append, htoken, drop_left] at hr
    cases hr
    exact ⟨by simp [toJson, JsonLeaf.toJson], by simp [JsonNode.Distinct], by simp⟩

theorem readsAs_string {s : String} (h : IsJsonString cs s) : ReadsAs text nt cs (.str s) := by
  intro fuel rest r _ hr
  cases fuel with
  | zero => exact absurd hr (readValue_ne_zero text)
  | succ fuel =>
    have hread := fun r ↦ readString_sound text h rest (r := r)
    obtain ⟨inner, us, rfl, hchars, rfl⟩ := h
    rw [readValue, cons_append, skipWs_cons (by decide)] at hr
    simp only [show ('"' : Char) ≠ '\x7b' by decide, show ('"' : Char) ≠ '[' by decide, if_false,
      if_true] at hr
    obtain ⟨r', hr', hpure⟩ := exists_of_bind_eq_ok hr
    obtain rfl := hread r' (by simpa using hr')
    cases hpure
    exact ⟨by simp [toJson, JsonLeaf.toJson], by simp [JsonNode.Distinct], by simp⟩

/-- The items of an array, up to the bracket that closes it. -/
theorem readItems_sound (rest : List Char) {parts : List JsonPart} (hne : parts ≠ [])
    (hws : ∀ p ∈ parts, p.IsSpaced) (h : ∀ p ∈ parts, ReadsAs text nt p.text p.value) :
    ∀ {fuel : Nat} {r : List JsonLeaf × List Char},
      readItems nt text fuel ([','].intercalate (parts.map JsonPart.chars) ++ ']' :: rest) = .ok r →
      JsonLeaf.itemsToJson r.1 = parts.map JsonPart.value ∧ r.2 = rest := by
  induction parts with
  | nil => exact absurd rfl hne
  | cons p parts ih =>
    intro fuel r hr
    obtain ⟨hp, hps⟩ := forall_mem_cons.mp hws
    obtain ⟨hreads, hreadss⟩ := forall_mem_cons.mp h
    cases fuel with
    | zero => simp [readItems, malformedAt] at hr
    | succ fuel =>
      rw [readItems] at hr
      obtain ⟨⟨node, rest'⟩, hnode, hr⟩ := exists_of_bind_eq_ok hr
      have hbracket : isJsSpace ']' = false := by decide
      have hcomma : isJsSpace ',' = false := by decide
      cases parts with
      | nil =>
        simp only [map_cons, map_nil, intercalate_singleton] at hnode
        obtain ⟨hvalue, -, hrest'⟩ := hreads.part text hp (stopsNumber_cons (by simp) _) hnode
        subst hrest'
        cases node with
        | obj => simp [malformedAt] at hr
        | leaf item =>
          simp only [skipWs_isJsonSpace hp.2, skipWs_cons hbracket, head?_cons,
            show ¬ some ']' = some ',' by decide, if_false, if_true] at hr
          cases hr
          exact ⟨by simpa [JsonLeaf.itemsToJson, toJson] using hvalue, by simp⟩
      | cons next parts =>
        simp only [map_cons, intercalate_cons_cons, append_assoc, cons_append, nil_append] at hnode
        obtain ⟨hvalue, -, hrest'⟩ := hreads.part text hp (stopsNumber_cons (by simp) _) hnode
        subst hrest'
        cases node with
        | obj => simp [malformedAt] at hr
        | leaf item =>
          simp only [skipWs_isJsonSpace hp.2, skipWs_cons hcomma, head?_cons, if_true, tail_cons] at hr
          obtain ⟨⟨items, rest'⟩, hitems, hpure⟩ := exists_of_bind_eq_ok hr
          cases hpure
          obtain ⟨hvalues, hrest'⟩ := ih (by simp) hps hreadss (by simpa using hitems)
          refine ⟨?_, hrest'⟩
          rw [map_cons, ← hvalues]
          simpa [JsonLeaf.itemsToJson, toJson] using hvalue

/-- One turn of the loop over the members: the key is new, the value is read, and the loop looks at
what stands behind it. -/
theorem readMembers_turn {m : JsonMember} (hm : m.IsSpaced)
    (h : ReadsAs text nt m.part.text m.part.value) {seen : List String} {fuel : Nat}
    {after : List Char} (hafter : StopsNumber after) (hskip : skipWs after = after)
    {r : List (String × JsonNode) × List Char}
    (hr : readMembers nt text seen (fuel + 1) (m.chars ++ after) = .ok r) :
    m.key ∉ seen ∧ ∃ node : JsonNode, node.toJson = m.part.value ∧ node.Distinct ∧
      (if after.head? = some ',' then do
          let (entries, rest) ← readMembers nt text (m.key :: seen) fuel after.tail
          return ((m.key, node) :: entries, rest)
        else if after.head? = some '\x7d' then return ([(m.key, node)], after.tail)
        else malformedAt text "expected \",\" or \"\x7d\"" after) = Except.ok r := by
  have hassoc : m.chars ++ after =
      m.lead ++ (m.keyText ++ (m.trail ++ ':' :: (m.part.chars ++ after))) := by
    simp [JsonMember.chars]
  have hread := fun r ↦ readString_sound text hm.key (m.trail ++ ':' :: (m.part.chars ++ after)) (r := r)
  obtain ⟨inner, us, hkey, -, -⟩ := hm.key
  have hquote : skipWs (m.chars ++ after) =
      m.keyText ++ (m.trail ++ ':' :: (m.part.chars ++ after)) := by
    rw [hassoc, skipWs_isJsonSpace hm.lead, hkey, cons_append, skipWs_cons (by decide)]
  rw [readMembers, hquote] at hr
  rw [if_pos (by simp [hkey])] at hr
  obtain ⟨⟨key, rest⟩, hstring, hr⟩ := exists_of_bind_eq_ok hr
  obtain ⟨rfl, rfl⟩ := Prod.mk.inj (hread _ hstring)
  dsimp only at hr
  by_cases hseen : seen.contains m.key = true
  · simp only [hseen, if_true] at hr
    simp at hr
  · rw [if_neg hseen, skipWs_isJsonSpace hm.trail, skipWs_cons (by decide), head?_cons,
      if_pos rfl, tail_cons] at hr
    obtain ⟨⟨node, rest⟩, hnode, hr⟩ := exists_of_bind_eq_ok hr
    obtain ⟨hvalue, hdistinct, hrest⟩ := h.part text hm.part hafter hnode
    subst hrest
    rw [skipWs_isJsonSpace hm.part.2, hskip] at hr
    exact ⟨by simpa using hseen, node, hvalue, hdistinct, hr⟩

/-- The members of an object, up to the bracket that closes it. -/
theorem readMembers_sound (rest : List Char) {members : List JsonMember} (hne : members ≠ [])
    (hws : ∀ m ∈ members, m.IsSpaced)
    (h : ∀ m ∈ members, ReadsAs text nt m.part.text m.part.value) :
    ∀ {seen : List String} {fuel : Nat} {r : List (String × JsonNode) × List Char},
      readMembers nt text seen fuel
          ([','].intercalate (members.map JsonMember.chars) ++ '\x7d' :: rest) = .ok r →
      entriesToJson r.1 = members.map (fun m ↦ (m.key, m.part.value)) ∧
        ((r.1.map (·.1)).Nodup ∧ ∀ k ∈ r.1.map (·.1), k ∉ seen) ∧
        JsonNode.EntriesDistinct r.1 ∧ r.2 = rest := by
  induction members with
  | nil => exact absurd rfl hne
  | cons m members ih =>
    intro seen fuel r hr
    obtain ⟨hm, hms⟩ := forall_mem_cons.mp hws
    obtain ⟨hreads, hreadss⟩ := forall_mem_cons.mp h
    cases fuel with
    | zero => simp [readMembers, malformedAt] at hr
    | succ fuel =>
      cases members with
      | nil =>
        simp only [map_cons, map_nil, intercalate_singleton] at hr
        obtain ⟨hseen, node, hvalue, hdistinct, hr⟩ := readMembers_turn text hm hreads
          (stopsNumber_cons (by simp) _) (skipWs_cons (by decide) _) hr
        simp only [head?_cons, show ¬ some '\x7d' = some ',' by decide, if_false, if_true,
          tail_cons] at hr
        cases hr
        simp [entriesToJson, JsonNode.EntriesDistinct, hvalue, hdistinct, hseen]
      | cons next members =>
        simp only [map_cons, intercalate_cons_cons, append_assoc, cons_append, nil_append] at hr
        obtain ⟨hseen, node, hvalue, hdistinct, hr⟩ := readMembers_turn text hm hreads
          (stopsNumber_cons (by simp) _) (skipWs_cons (by decide) _) hr
        simp only [head?_cons, if_true, tail_cons] at hr
        obtain ⟨⟨entries, rest'⟩, hentries, hpure⟩ := exists_of_bind_eq_ok hr
        cases hpure
        obtain ⟨hvalues, ⟨hnodup, hnew⟩, hdistincts, hrest'⟩ :=
          ih (by simp) hms hreadss (by simpa using hentries)
        refine ⟨?_, ⟨?_, ?_⟩, ⟨hdistinct, hdistincts⟩, hrest'⟩
        · rw [map_cons, ← hvalues, ← hvalue]
          simp [entriesToJson]
        · exact nodup_cons.mpr ⟨fun hmem ↦ hnew _ hmem (by simp), hnodup⟩
        · intro k hk
          rcases mem_cons.mp hk with rfl | hk
          · exact hseen
          · exact fun hmem ↦ hnew k hk (.tail _ hmem)

/-- Behind the spaces a part starts with its value. -/
theorem head?_skipWs_part {p : JsonPart} (hp : p.IsSpaced) (h : StartsJson p.text)
    (rest : List Char) : (skipWs (p.chars ++ rest)).head? ≠ some ']' := by
  obtain ⟨c, tail, htext, hspace, hbracket, -⟩ := h
  have hassoc : p.chars ++ rest = p.before ++ (c :: (tail ++ (p.after ++ rest))) := by
    simp [JsonPart.chars, htext]
  rw [hassoc, skipWs_isJsonSpace hp.1, skipWs_cons hspace]
  simpa using hbracket

theorem head?_skipWs_member {m : JsonMember} (hm : m.IsSpaced) (rest : List Char) :
    (skipWs (m.chars ++ rest)).head? ≠ some '\x7d' := by
  obtain ⟨inner, us, hkey, -, -⟩ := hm.key
  have hassoc : m.chars ++ rest =
      m.lead ++ ('"' :: (inner ++ ['"'] ++ (m.trail ++ ':' :: (m.part.chars ++ rest)))) := by
    simp [JsonMember.chars, hkey]
  rw [hassoc, skipWs_isJsonSpace hm.lead, skipWs_cons (by decide)]
  simp

theorem readsAs_arr {parts : List JsonPart} (hne : parts ≠ []) (hws : ∀ p ∈ parts, p.IsSpaced)
    (hstarts : ∀ p ∈ parts, StartsJson p.text)
    (h : ∀ p ∈ parts, ReadsAs text nt p.text p.value) :
    ReadsAs text nt ('[' :: ([','].intercalate (parts.map JsonPart.chars) ++ [']']))
      (.arr (parts.map JsonPart.value)) := by
  intro fuel rest r _ hr
  cases fuel with
  | zero => exact absurd hr (readValue_ne_zero text)
  | succ fuel =>
    have hhead : (skipWs ([','].intercalate (parts.map JsonPart.chars) ++ ']' :: rest)).head? ≠
        some ']' := by
      obtain ⟨p, parts, rfl⟩ := exists_cons_of_ne_nil hne
      obtain ⟨hp, -⟩ := forall_mem_cons.mp hws
      obtain ⟨hstart, -⟩ := forall_mem_cons.mp hstarts
      cases parts with
      | nil => simpa using head?_skipWs_part hp hstart (']' :: rest)
      | cons next parts =>
        simp only [map_cons, intercalate_cons_cons, append_assoc]
        exact head?_skipWs_part hp hstart _
    rw [readValue, cons_append, skipWs_cons (by decide), append_assoc] at hr
    simp only [show ('[' : Char) ≠ '\x7b' by decide, if_false, if_true, cons_append,
      nil_append, hhead] at hr
    obtain ⟨⟨items, rest'⟩, hitems, hpure⟩ := exists_of_bind_eq_ok hr
    cases hpure
    obtain ⟨hvalues, hrest⟩ := readItems_sound text rest hne hws h hitems
    exact ⟨by simpa [toJson, JsonLeaf.toJson] using hvalues, by simp [JsonNode.Distinct],
      hrest⟩

theorem readsAs_obj {members : List JsonMember} (hne : members ≠ [])
    (hws : ∀ m ∈ members, m.IsSpaced)
    (h : ∀ m ∈ members, ReadsAs text nt m.part.text m.part.value) :
    ReadsAs text nt ('\x7b' :: ([','].intercalate (members.map JsonMember.chars) ++ ['\x7d']))
      (.obj (members.map fun m ↦ (m.key, m.part.value))) := by
  intro fuel rest r _ hr
  cases fuel with
  | zero => exact absurd hr (readValue_ne_zero text)
  | succ fuel =>
    have hhead : (skipWs ([','].intercalate (members.map JsonMember.chars) ++ '\x7d' :: rest)).head? ≠
        some '\x7d' := by
      obtain ⟨m, members, rfl⟩ := exists_cons_of_ne_nil hne
      obtain ⟨hm, -⟩ := forall_mem_cons.mp hws
      cases members with
      | nil => simpa using head?_skipWs_member hm ('\x7d' :: rest)
      | cons next members =>
        simp only [map_cons, intercalate_cons_cons, append_assoc]
        exact head?_skipWs_member hm _
    rw [readValue, cons_append, skipWs_cons (by decide), append_assoc] at hr
    simp only [if_true, cons_append, nil_append, hhead, if_false] at hr
    obtain ⟨⟨entries, rest'⟩, hentries, hpure⟩ := exists_of_bind_eq_ok hr
    cases hpure
    obtain ⟨hvalues, ⟨hnodup, -⟩, hdistinct, hrest⟩ :=
      readMembers_sound text rest hne hws h hentries
    exact ⟨by simpa [toJson] using hvalues, ⟨hnodup, hdistinct⟩, hrest⟩

/-- **The reader makes nothing of a JSON text but its value.** -/
theorem JsonText.readsAs {j : Json} (h : JsonText nt cs j) : ReadsAs text nt cs j := by
  induction h with
  | litNull =>
    exact readsAs_literal text .null (c := 'n') rfl fun fuel rest ↦ by
      rw [readValue, cons_append, skipWs_cons (by decide)]
      simp
  | litTrue =>
    exact readsAs_literal text (.bool true) (c := 't') rfl fun fuel rest ↦ by
      rw [readValue, cons_append, skipWs_cons (by decide)]
      simp
  | litFalse =>
    exact readsAs_literal text (.bool false) (c := 'f') rfl fun fuel rest ↦ by
      rw [readValue, cons_append, skipWs_cons (by decide)]
      simp
  | number h => exact readsAs_number text h
  | string h => exact readsAs_string text h
  | emptyArr h =>
    intro fuel rest r _ hr
    cases fuel with
    | zero => exact absurd hr (readValue_ne_zero text)
    | succ fuel =>
      rw [readValue, cons_append, skipWs_cons (by decide), append_assoc] at hr
      simp only [show ('[' : Char) ≠ '\x7b' by decide, if_false, if_true, skipWs_isJsonSpace h,
        cons_append, nil_append, skipWs_cons (show isJsSpace ']' = false by decide),
        head?_cons, tail_cons] at hr
      cases hr
      simp [toJson, JsonLeaf.toJson, JsonLeaf.itemsToJson, JsonNode.Distinct]
  | arr hne hws h ih => exact readsAs_arr text hne hws (fun p hp ↦ (h p hp).starts) ih
  | emptyObj h =>
    intro fuel rest r _ hr
    cases fuel with
    | zero => exact absurd hr (readValue_ne_zero text)
    | succ fuel =>
      rw [readValue, cons_append, skipWs_cons (by decide), append_assoc] at hr
      simp only [if_true, skipWs_isJsonSpace h, cons_append, nil_append,
        skipWs_cons (show isJsSpace '\x7d' = false by decide), head?_cons,
        tail_cons] at hr
      cases hr
      simp [toJson, entriesToJson, JsonNode.Distinct, JsonNode.EntriesDistinct]
  | obj hne hws h ih => exact readsAs_obj text hne hws ih

end Sound

/-- **What `readJson` makes of a JSON document is its value**, with the keys of every object
differing. -/
theorem readJson_sound {nt : NumberText} {text : String} {value : Json} {node : JsonNode}
    (h : IsJsonDocument nt text value) (hr : readJson nt text.toList = .ok node) :
    node.toJson = value ∧ node.Distinct := by
  obtain ⟨p, htext, rfl, hspaced, hjson⟩ := h
  rw [readJson] at hr
  obtain ⟨⟨node', rest⟩, hvalue, hr⟩ := exists_of_bind_eq_ok hr
  have hstop : StopsNumber [] := fun c hc ↦ by simp at hc
  have hreads : ReadsAs text.toList nt p.text p.value := hjson.readsAs text.toList
  obtain ⟨heq, hdistinct, -⟩ := ReadsAs.part text.toList hspaced hreads hstop
    (by rw [append_nil, ← htext]; exact hvalue)
  dsimp only at hr
  split_ifs at hr
  · cases hr
    exact ⟨heq, hdistinct⟩
  · simp [malformedAt] at hr

end Enkaku
