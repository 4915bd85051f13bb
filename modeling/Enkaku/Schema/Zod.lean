import Enkaku.Schema.Node

/-!
# Schemas that parse

What a Zod schema makes of a value: the parsed value, or nothing where the value is refused.  An
object is parsed key by key, in the order of the schema; a property that is `undefined` is as good as
none, and none is left in what was parsed.

`Idempotent` is what the schemas of a stored document have in common: what they have parsed they parse
again, to itself.
-/

set_option autoImplicit false

namespace Enkaku.Zod

open List Option

open Schema

/-- A schema, as its `safeParse`. -/
abbrev ZodType := Value → Option Value

/-- `value[key]`, `undefined` if the value has it not. -/
def field (v : Value) (key : String) : Value :=
  match v with
  | .obj raw => Node.prop raw key
  | _ => .undefined

/-! ## The schemas -/

/-- `z.string()`, with its checks. -/
def string (ok : String → Bool) : ZodType
  | .str s => if ok s then some (.str s) else none
  | _ => none

/-- `z.number()`, with its checks. -/
def number (ok : ℚ → Bool) : ZodType
  | .num q => if ok q then some (.num q) else none
  | _ => none

def boolean : ZodType
  | .bool b => some (.bool b)
  | _ => none

def literal (v : Value) : ZodType := fun w ↦ if w = v then some w else none

/-- `z.enum(members)`. -/
def enum (members : List String) : ZodType := string (members.contains ·)

def unknown : ZodType := some

def optional (z : ZodType) : ZodType := fun v ↦ if v = .undefined then some v else z v

def withDefault (z : ZodType) (value : Value) : ZodType :=
  fun v ↦ if v = .undefined then some value else z v

/-- `z.array(z)`, with its checks of the length. -/
def array (z : ZodType) (ok : ℕ → Bool) : ZodType
  | .arr items => if ok items.length then (items.mapM z).map .arr else none
  | _ => none

/-- `z.record(z.string(), z)`, with the checks of the keys. -/
def record (ok : String → Bool) (z : ZodType) : ZodType
  | .obj raw =>
    if raw.all (ok ·.1) then (raw.mapM fun p ↦ (z p.2).map (p.1, ·)).map .obj else none
  | _ => none

/-- The properties an object schema makes. -/
def shape (fields : List (String × ZodType)) (raw : Node) : Option Node :=
  (fields.mapM fun p : String × ZodType ↦ (p.2 (raw.prop p.1)).map (p.1, ·)).map fun out ↦
    out.filter fun p ↦ p.2 ≠ .undefined

/-- `z.object(fields)`. -/
def object (fields : List (String × ZodType)) : ZodType
  | .obj raw => (shape fields raw).map .obj
  | _ => none

/-- `z.object(fields).strict()`. -/
def strictObject (fields : List (String × ZodType)) : ZodType
  | .obj raw =>
    if raw.all (fun p ↦ fields.any (·.1 = p.1)) then object fields (.obj raw) else none
  | _ => none

def union (options : List ZodType) : ZodType := fun v ↦ options.findSome? (· v)

/-- `z.discriminatedUnion(key, options)`, with the literals of the key. -/
def discriminatedUnion (key : String) (options : List (String × ZodType)) : ZodType := fun v ↦
  match field v key with
  | .str k => (OrdMap.get? k options).bind (· v)
  | _ => none

/-- `superRefine`, by whether it adds no issue. -/
def refine (z : ZodType) (ok : Value → Bool) : ZodType := fun v ↦ (z v).filter ok

section Values

variable {z : ZodType}

@[simp] theorem string_str {ok : String → Bool} {s : String} :
    string ok (.str s) = if ok s then some (.str s) else none := rfl

@[simp] theorem enum_str {members : List String} {s : String} :
    enum members (.str s) = if members.contains s then some (.str s) else none := rfl

@[simp] theorem number_num {ok : ℚ → Bool} {q : ℚ} :
    number ok (.num q) = if ok q then some (.num q) else none := rfl

@[simp] theorem boolean_bool {b : Bool} : boolean (.bool b) = some (.bool b) := rfl

@[simp] theorem array_nil {ok : ℕ → Bool} :
    array z ok (.arr []) = if ok 0 then some (.arr []) else none := rfl

@[simp] theorem record_nil {ok : String → Bool} : record ok z (.obj []) = some (.obj []) := rfl

end Values

/-! ## What is parsed is parsed again -/

def Idempotent (z : ZodType) : Prop := ∀ v w, z v = some w → z w = some w

/-- What is parsed is there. -/
def Requires (z : ZodType) : Prop := z .undefined = none

instance (z : ZodType) : Decidable (Requires z) := inferInstanceAs (Decidable (_ = none))

section Idempotent

variable {z : ZodType} {v w : Value} {raw out : Node} {fields : List (String × ZodType)} {key : String}

theorem idempotent_of_eq (h : ∀ v w, z v = some w → w = v) : Idempotent z := by
  intro v w hv
  have hw := h v w hv
  rwa [← hw] at hv

theorem eq_of_boolean (h : boolean v = some w) : w = v := by
  cases v with
  | bool b => exact (Option.some.inj h).symm
  | _ => simp [boolean] at h

theorem string_eq_some {ok : String → Bool} (h : string ok v = some w) :
    ∃ s, v = .str s ∧ ok s = true ∧ w = v := by
  cases v with
  | str s =>
    rw [string] at h
    split_ifs at h with hok
    exact ⟨s, rfl, hok, (Option.some.inj h).symm⟩
  | _ => simp [string] at h

theorem eq_of_string {ok : String → Bool} (h : string ok v = some w) : w = v :=
  (string_eq_some h).choose_spec.2.2

@[simp] theorem idempotent_string (ok : String → Bool) : Idempotent (string ok) :=
  idempotent_of_eq fun _ _ ↦ eq_of_string

@[simp] theorem idempotent_enum (members : List String) : Idempotent (enum members) := idempotent_string _

theorem number_eq_some {ok : ℚ → Bool} (h : number ok v = some w) :
    ∃ q, v = .num q ∧ ok q = true ∧ w = v := by
  cases v with
  | num q =>
    rw [number] at h
    split_ifs at h with hok
    exact ⟨q, rfl, hok, (Option.some.inj h).symm⟩
  | _ => simp [number] at h

theorem eq_of_number {ok : ℚ → Bool} (h : number ok v = some w) : w = v :=
  (number_eq_some h).choose_spec.2.2

@[simp] theorem idempotent_number (ok : ℚ → Bool) : Idempotent (number ok) :=
  idempotent_of_eq fun _ _ ↦ eq_of_number

@[simp] theorem idempotent_boolean : Idempotent boolean := idempotent_of_eq fun _ _ ↦ eq_of_boolean

theorem literal_eq_some {c : Value} : literal c v = some w ↔ v = c ∧ w = c := by
  rw [literal]
  split_ifs with h
  · rw [some_inj, h]
    exact ⟨fun h ↦ ⟨rfl, h.symm⟩, fun h ↦ h.2.symm⟩
  · simp [h]

@[simp] theorem idempotent_literal (c : Value) : Idempotent (literal c) := fun _ _ h ↦
  literal_eq_some.mpr ⟨(literal_eq_some.mp h).2, (literal_eq_some.mp h).2⟩

@[simp] theorem idempotent_unknown : Idempotent unknown := fun _ _ _ ↦ rfl

@[simp] theorem idempotent_optional (h : Idempotent z) : Idempotent (optional z) := by
  intro v w hv
  rw [optional] at hv
  split_ifs at hv with hundefined
  · rw [← Option.some.inj hv, optional, if_pos hundefined]
  · rw [optional]
    split_ifs
    · rfl
    · exact h v w hv

theorem idempotent_withDefault {value : Value} (h : Idempotent z) (hz : Requires z)
    (hvalue : z value = some value) : Idempotent (withDefault z value) := by
  intro v w hv
  have hw : z w = some w := by
    rw [withDefault] at hv
    split_ifs at hv
    · rwa [← Option.some.inj hv]
    · exact h v w hv
  rw [withDefault, if_neg]
  · exact hw
  · rintro rfl
    rw [hz] at hw
    exact some_ne_none _ hw.symm

@[simp] theorem requires_string (ok : String → Bool) : Requires (string ok) := rfl

@[simp] theorem requires_enum (members : List String) : Requires (enum members) := rfl

@[simp] theorem requires_number (ok : ℚ → Bool) : Requires (number ok) := rfl

@[simp] theorem requires_boolean : Requires boolean := rfl

@[simp] theorem requires_literal_str (s : String) : Requires (literal (.str s)) := rfl

@[simp] theorem requires_array (ok : ℕ → Bool) : Requires (array z ok) := rfl

@[simp] theorem requires_record (ok : String → Bool) : Requires (record ok z) := rfl

@[simp] theorem requires_object : Requires (object fields) := rfl

@[simp] theorem requires_strictObject : Requires (strictObject fields) := rfl

@[simp] theorem idempotent_withDefault_boolean (b : Bool) : Idempotent (withDefault boolean (.bool b)) :=
  idempotent_withDefault idempotent_boolean requires_boolean rfl

@[simp] theorem idempotent_withDefault_enum {members : List String} {s : String} (h : s ∈ members) :
    Idempotent (withDefault (enum members) (.str s)) :=
  idempotent_withDefault (idempotent_enum members) (requires_enum members)
    (if_pos (contains_iff_mem.mpr h))

theorem eq_of_withDefault {value : Value} (hvalue : value ≠ .undefined)
    (h : withDefault z value v = some v) : z v = some v := by
  rw [withDefault] at h
  split_ifs at h with hundefined
  · exact absurd ((Option.some.inj h).trans hundefined) hvalue
  · exact h

theorem mapM_eq_some_of_idempotent (h : Idempotent z) {items out : List Value}
    (hitems : items.mapM z = some out) : out.mapM z = some out := by
  induction items generalizing out with
  | nil =>
    cases hitems
    rfl
  | cons item items ih =>
    rw [mapM_cons] at hitems
    obtain ⟨w, hw, hrest⟩ := bind_eq_some_iff.mp hitems
    obtain ⟨ws, hws, hout⟩ := bind_eq_some_iff.mp hrest
    cases hout
    rw [mapM_cons, h item w hw, ih hws]
    rfl

/-- Every item of what was parsed is parsed from an item. -/
theorem exists_of_mem_mapM {α β : Type} {f : α → Option β} {items : List α} {out : List β}
    (h : items.mapM f = some out) {w : β} (hw : w ∈ out) : ∃ v ∈ items, f v = some w := by
  induction items generalizing out with
  | nil =>
    cases h
    exact nomatch hw
  | cons item items ih =>
    rw [mapM_cons] at h
    obtain ⟨u, hu, hrest⟩ := bind_eq_some_iff.mp h
    obtain ⟨us, hus, hout⟩ := bind_eq_some_iff.mp hrest
    cases hout
    rcases mem_cons.mp hw with rfl | hw
    · exact ⟨item, mem_cons_self, hu⟩
    · obtain ⟨v, hv, hvw⟩ := ih hus hw
      exact ⟨v, .tail _ hv, hvw⟩

/-- And every item is parsed to one of them. -/
theorem exists_mem_of_mapM {α β : Type} {f : α → Option β} {items : List α} {out : List β}
    (h : items.mapM f = some out) {v : α} (hv : v ∈ items) : ∃ w ∈ out, f v = some w := by
  induction items generalizing out with
  | nil => exact nomatch hv
  | cons item items ih =>
    rw [mapM_cons] at h
    obtain ⟨u, hu, hrest⟩ := bind_eq_some_iff.mp h
    obtain ⟨us, hus, hout⟩ := bind_eq_some_iff.mp hrest
    cases hout
    rcases mem_cons.mp hv with rfl | hv
    · exact ⟨u, mem_cons_self, hu⟩
    · obtain ⟨w, hw, hvw⟩ := ih hus hv
      exact ⟨w, .tail _ hw, hvw⟩

theorem exists_mapM {items : List Value} (h : ∀ v ∈ items, ∃ w, z v = some w) :
    ∃ out, items.mapM z = some out := by
  induction items with
  | nil => exact ⟨[], rfl⟩
  | cons item items ih =>
    rw [forall_mem_cons] at h
    obtain ⟨u, hu⟩ := h.1
    obtain ⟨us, hus⟩ := ih h.2
    exact ⟨u :: us, by rw [mapM_cons, hu, hus]; rfl⟩

/-- What the schema keeps of every item it keeps of all. -/
theorem map_of_mapM {β : Type} {f g : Value → β} {items out : List Value}
    (h : items.mapM z = some out) (hfg : ∀ v ∈ items, ∀ w, z v = some w → f w = g v) :
    out.map f = items.map g := by
  induction items generalizing out with
  | nil =>
    cases h
    rfl
  | cons item items ih =>
    rw [forall_mem_cons] at hfg
    rw [mapM_cons] at h
    obtain ⟨u, hu, hrest⟩ := bind_eq_some_iff.mp h
    obtain ⟨us, hus, hout⟩ := bind_eq_some_iff.mp hrest
    cases hout
    rw [map_cons, map_cons, hfg.1 u hu, ih hus hfg.2]

theorem length_of_mapM {items out : List Value} (h : items.mapM z = some out) :
    out.length = items.length := by
  have hmap := map_of_mapM (f := fun _ ↦ ()) (g := fun _ ↦ ()) h fun _ _ _ _ ↦ rfl
  simpa using congrArg List.length hmap

theorem array_eq_some {ok : ℕ → Bool} (h : array z ok v = some w) :
    ∃ items out, v = .arr items ∧ w = .arr out ∧ ok items.length = true ∧
      items.mapM z = some out := by
  cases v with
  | arr items =>
    rw [array] at h
    split_ifs at h with hok
    obtain ⟨out, hout, rfl⟩ := map_eq_some_iff.mp h
    exact ⟨items, out, rfl, rfl, hok, hout⟩
  | _ => simp [array] at h

@[simp] theorem idempotent_array (ok : ℕ → Bool) (h : Idempotent z) : Idempotent (array z ok) := by
  intro v w hv
  obtain ⟨items, out, rfl, rfl, hok, hout⟩ := array_eq_some hv
  rw [array, length_of_mapM hout, if_pos hok, mapM_eq_some_of_idempotent h hout]
  rfl

@[simp] theorem idempotent_withDefault_array {ok : ℕ → Bool} (h : Idempotent z) (hok : ok 0 = true) :
    Idempotent (withDefault (array z ok) (.arr [])) :=
  idempotent_withDefault (idempotent_array ok h) (requires_array ok) (if_pos hok)

@[simp] theorem idempotent_record (ok : String → Bool) (h : Idempotent z) : Idempotent (record ok z) := by
  intro v w hv
  cases v with
  | obj raw =>
    rw [record] at hv
    split_ifs at hv with hok
    obtain ⟨out, hout, rfl⟩ := map_eq_some_iff.mp hv
    have hmap : ∀ {raw out : Node}, raw.mapM (fun p ↦ (z p.2).map (p.1, ·)) = some out →
        raw.all (ok ·.1) = true → out.all (ok ·.1) = true ∧
          out.mapM (fun p ↦ (z p.2).map (p.1, ·)) = some out := by
      intro raw
      induction raw with
      | nil =>
        intro out hout _
        cases hout
        exact ⟨rfl, rfl⟩
      | cons p raw ih =>
        intro out hout hok
        rw [mapM_cons] at hout
        obtain ⟨q, hq, hrest⟩ := bind_eq_some_iff.mp hout
        obtain ⟨qs, hqs, heq⟩ := bind_eq_some_iff.mp hrest
        cases heq
        obtain ⟨u, hu, rfl⟩ := map_eq_some_iff.mp hq
        rw [all_cons, Bool.and_eq_true] at hok
        obtain ⟨hall, hmapM⟩ := ih hqs hok.2
        refine ⟨by rw [all_cons, hall, Bool.and_true]; exact hok.1, ?_⟩
        rw [mapM_cons, hmapM, h _ u hu]
        rfl
    obtain ⟨hall, hmapM⟩ := hmap hout hok
    rw [record, if_pos hall, hmapM]
    rfl
  | _ => simp [record] at hv

@[simp] theorem idempotent_withDefault_record (ok : String → Bool) (h : Idempotent z) :
    Idempotent (withDefault (record ok z) (.obj [])) :=
  idempotent_withDefault (idempotent_record ok h) (requires_record ok) rfl

@[simp] theorem idempotent_refine {ok : Value → Bool} (h : Idempotent z) : Idempotent (refine z ok) := by
  intro v w hv
  obtain ⟨hz, hok⟩ := filter_eq_some_iff.mp hv
  exact filter_eq_some_iff.mpr ⟨h v w hz, hok⟩

end Idempotent

/-! ## Objects -/

section Object

variable {v w : Value} {raw raw' out : Node} {fields fields' : List (String × ZodType)} {key : String}

/-- The properties as they are parsed, `undefined` or not. -/
def parsed (fields : List (String × ZodType)) (raw : Node) : Option Node :=
  fields.mapM fun p : String × ZodType ↦ (p.2 (raw.prop p.1)).map (p.1, ·)

variable {p : String × ZodType}

theorem parsed_cons : parsed (p :: fields) raw = some out ↔
    ∃ u rest, p.2 (raw.prop p.1) = some u ∧ parsed fields raw = some rest ∧
      out = (p.1, u) :: rest := by
  rw [parsed, mapM_cons]
  constructor
  · intro h
    obtain ⟨q, hq, hrest⟩ := bind_eq_some_iff.mp h
    obtain ⟨rest, hparsed, heq⟩ := bind_eq_some_iff.mp hrest
    obtain ⟨u, hu, rfl⟩ := map_eq_some_iff.mp hq
    exact ⟨u, rest, hu, hparsed, (Option.some.inj heq).symm⟩
  · rintro ⟨u, rest, hu, hrest, rfl⟩
    rw [← parsed, hu, hrest]
    rfl

theorem keys_parsed (h : parsed fields raw = some out) : out.map (·.1) = fields.map (·.1) := by
  induction fields generalizing out with
  | nil =>
    cases h
    rfl
  | cons p fields ih =>
    obtain ⟨u, rest, -, hrest, rfl⟩ := parsed_cons.mp h
    rw [map_cons, map_cons, ih hrest]

theorem get?_parsed (hkeys : (fields.map (·.1)).Nodup) (h : parsed fields raw = some out)
    (hp : p ∈ fields) : ∃ u, OrdMap.get? p.1 out = some u ∧ p.2 (raw.prop p.1) = some u := by
  induction fields generalizing out with
  | nil => exact nomatch hp
  | cons q fields ih =>
    obtain ⟨u, rest, hu, hrest, rfl⟩ := parsed_cons.mp h
    rw [map_cons, nodup_cons] at hkeys
    rcases mem_cons.mp hp with rfl | hp
    · exact ⟨u, if_pos rfl, hu⟩
    · obtain ⟨u', hget, hu'⟩ := ih hkeys.2 hrest hp
      refine ⟨u', ?_, hu'⟩
      rw [OrdMap.get?, if_neg, hget]
      exact fun heq ↦ hkeys.1 (heq ▸ mem_map_of_mem hp)

/-- What an object schema has made of each key. -/
theorem prop_of_shape (hkeys : (fields.map (·.1)).Nodup) (h : shape fields raw = some out)
    (hp : p ∈ fields) : p.2 (raw.prop p.1) = some (out.prop p.1) := by
  obtain ⟨all, hall, rfl⟩ := map_eq_some_iff.mp h
  obtain ⟨u, hget, hu⟩ := get?_parsed hkeys hall hp
  have hnodup : (all.map (·.1)).Nodup := by rwa [keys_parsed hall]
  rw [hu, Node.prop, OrdMap.get?_filter hnodup, hget]
  by_cases hundefined : u = .undefined
  · simp [Option.filter, hundefined]
  · simp [Option.filter, hundefined]

theorem mem_keys_of_shape (h : shape fields raw = some out) {p : String × Value} (hp : p ∈ out) :
    p.1 ∈ fields.map (·.1) := by
  obtain ⟨all, hall, rfl⟩ := map_eq_some_iff.mp h
  rw [← keys_parsed hall]
  exact mem_map_of_mem (mem_of_mem_filter hp)

theorem parsed_congr (h : ∀ p ∈ fields, p.2 (raw'.prop p.1) = p.2 (raw.prop p.1)) :
    parsed fields raw' = parsed fields raw := by
  induction fields with
  | nil => rfl
  | cons p fields ih =>
    rw [forall_mem_cons] at h
    rw [parsed, mapM_cons, h.1, ← parsed, ih h.2, parsed, parsed, mapM_cons]

theorem exists_parsed (h : ∀ p ∈ fields, ∃ u, p.2 (raw.prop p.1) = some u) :
    ∃ out, parsed fields raw = some out := by
  induction fields with
  | nil => exact ⟨[], rfl⟩
  | cons p fields ih =>
    rw [forall_mem_cons] at h
    obtain ⟨u, hu⟩ := h.1
    obtain ⟨rest, hrest⟩ := ih h.2
    exact ⟨(p.1, u) :: rest, parsed_cons.mpr ⟨u, rest, hu, hrest, rfl⟩⟩

/-- An object is parsed if every key of the schema is. -/
theorem exists_shape (h : ∀ p ∈ fields, ∃ u, p.2 (raw.prop p.1) = some u) :
    ∃ out, shape fields raw = some out := by
  obtain ⟨all, hall⟩ := exists_parsed h
  exact ⟨_, congrArg (Option.map _) hall⟩

/-- What an object schema has parsed it parses again. -/
theorem shape_shape (hkeys : (fields.map (·.1)).Nodup) (hfields : ∀ p ∈ fields, Idempotent p.2)
    (h : shape fields raw = some out) : shape fields out = some out := by
  have hcongr : parsed fields out = parsed fields raw := parsed_congr fun p hp ↦ by
    have hprop := prop_of_shape hkeys h hp
    rw [hprop, hfields p hp _ _ hprop]
  rw [← h]
  exact congrArg (Option.map _) hcongr

theorem object_eq_some (h : object fields v = some w) :
    ∃ raw out, v = .obj raw ∧ w = .obj out ∧ shape fields raw = some out := by
  cases v with
  | obj raw =>
    obtain ⟨out, hout, rfl⟩ := map_eq_some_iff.mp h
    exact ⟨raw, out, rfl, rfl, hout⟩
  | _ => simp [object] at h

theorem strictObject_eq_some (h : strictObject fields v = some w) :
    ∃ raw out, v = .obj raw ∧ w = .obj out ∧ shape fields raw = some out ∧
      ∀ p ∈ raw, p.1 ∈ fields.map (·.1) := by
  cases v with
  | obj raw =>
    rw [strictObject] at h
    split_ifs at h with hknown
    obtain ⟨raw', out, hraw, rfl, hout⟩ := object_eq_some h
    cases hraw
    refine ⟨raw, out, rfl, rfl, hout, fun p hp ↦ ?_⟩
    simpa using all_eq_true.mp hknown p hp
  | _ => simp [strictObject] at h

theorem strictObject_of_shape (hknown : ∀ p ∈ raw, p.1 ∈ fields.map (·.1))
    (h : shape fields raw = some out) : strictObject fields (.obj raw) = some (.obj out) := by
  rw [strictObject, if_pos, object, h]
  · rfl
  · exact all_eq_true.mpr fun p hp ↦ by simpa using hknown p hp

/-- What a strict object has made of each key. -/
theorem field_of_strictObject (hkeys : (fields.map (·.1)).Nodup) (h : strictObject fields v = some w)
    {z : ZodType} (hp : (key, z) ∈ fields) : z (field v key) = some (field w key) := by
  obtain ⟨raw, out, rfl, rfl, hout, -⟩ := strictObject_eq_some h
  exact prop_of_shape hkeys hout hp

theorem idempotent_object (hkeys : (fields.map (·.1)).Nodup)
    (hfields : ∀ p ∈ fields, Idempotent p.2) : Idempotent (object fields) := by
  intro v w h
  obtain ⟨raw, out, rfl, rfl, hout⟩ := object_eq_some h
  rw [object, shape_shape hkeys hfields hout]
  rfl

theorem idempotent_strictObject (hkeys : (fields.map (·.1)).Nodup)
    (hfields : ∀ p ∈ fields, Idempotent p.2) : Idempotent (strictObject fields) := by
  intro v w h
  obtain ⟨raw, out, rfl, rfl, hout, -⟩ := strictObject_eq_some h
  exact strictObject_of_shape (fun p hp ↦ mem_keys_of_shape hout hp)
    (shape_shape hkeys hfields hout)

theorem mem_of_prop_ne (h : out.prop key ≠ .undefined) : key ∈ out.map (·.1) := by
  by_contra hmem
  rw [← OrdMap.get?_eq_none_iff] at hmem
  rw [Node.prop, hmem] at h
  exact h rfl

/-- A strict object does not take what another has parsed with a key of its own. -/
theorem strictObject_apart (hkeys : (fields.map (·.1)).Nodup)
    (hfields : ∀ p ∈ fields, Idempotent p.2) (hp : p ∈ fields) (hrequires : Requires p.2)
    (hother : p.1 ∉ fields'.map (·.1)) (h : strictObject fields v = some w) :
    strictObject fields' w = none := by
  obtain ⟨raw, out, rfl, rfl, hout, -⟩ := strictObject_eq_some h
  have hagain := prop_of_shape hkeys (shape_shape hkeys hfields hout) hp
  have hne : Node.prop out p.1 ≠ .undefined := by
    intro hundefined
    rw [hundefined, hrequires] at hagain
    exact some_ne_none _ hagain.symm
  obtain ⟨q, hq, hkey⟩ := mem_map.mp (mem_of_prop_ne hne)
  rw [strictObject, if_neg]
  intro hall
  exact hother (by simpa [hkey] using all_eq_true.mp hall q hq)

/-- An object schema does not take what another has parsed without a key it requires. -/
theorem object_apart (hkeys : (fields'.map (·.1)).Nodup) (hp : p ∈ fields')
    (hrequires : Requires p.2) (hother : p.1 ∉ fields.map (·.1)) (h : object fields v = some w) :
    object fields' w = none := by
  obtain ⟨raw, out, rfl, rfl, hout⟩ := object_eq_some h
  have hundefined : Node.prop out p.1 = .undefined := by
    by_contra hne
    obtain ⟨q, hq, hkey⟩ := mem_map.mp (mem_of_prop_ne hne)
    exact hother (hkey ▸ mem_keys_of_shape hout hq)
  rcases hagain : object fields' (.obj out) with _ | u
  · rfl
  · obtain ⟨raw', out', hraw, rfl, hout'⟩ := object_eq_some hagain
    cases hraw
    have hprop := prop_of_shape hkeys hout' hp
    rw [hundefined, hrequires] at hprop
    exact nomatch hprop

/-! ## Unions -/

variable {options : List ZodType}

/-- What an option has parsed no option before it takes. -/
theorem idempotent_union (h : ∀ z ∈ options, Idempotent z)
    (hapart : options.Pairwise fun z z' ↦ ∀ v w, z' v = some w → z w = none) :
    Idempotent (union options) := by
  intro v w hv
  induction options with
  | nil => exact absurd hv (by simp [union])
  | cons z options ih =>
    rw [forall_mem_cons] at h
    rw [pairwise_cons] at hapart
    rw [union, findSome?_cons] at hv ⊢
    rcases hz : z v with _ | u
    · rw [hz] at hv
      have hw : z w = none := by
        obtain ⟨z', hz', hw⟩ := exists_of_findSome?_eq_some hv
        exact hapart.1 z' hz' v w hw
      rw [hw]
      exact ih h.2 hapart.2 hv
    · rw [hz] at hv
      obtain rfl := Option.some.inj hv
      rw [h.1 v u hz]

/-- Options that make nothing else of a value. -/
theorem idempotent_union_of_eq (h : ∀ z ∈ options, ∀ v w, z v = some w → w = v) :
    Idempotent (union options) := by
  refine idempotent_of_eq fun v w hv ↦ ?_
  obtain ⟨z, hz, hw⟩ := exists_of_findSome?_eq_some hv
  exact h z hz v w hw

/-- Strict objects of which each has a key that none before it knows. -/
theorem idempotent_union_strictObject (forms : List (List (String × ZodType)))
    (hkeys : ∀ form ∈ forms, (form.map (·.1)).Nodup)
    (hfields : ∀ form ∈ forms, ∀ p ∈ form, Idempotent p.2)
    (hapart : forms.Pairwise fun form form' ↦ ∃ p ∈ form', Requires p.2 ∧ p.1 ∉ form.map (·.1)) :
    Idempotent (union (forms.map strictObject)) := by
  refine idempotent_union ?_ (pairwise_map.mpr (hapart.imp_of_mem ?_))
  · intro z hz
    obtain ⟨form, hform, rfl⟩ := mem_map.mp hz
    exact idempotent_strictObject (hkeys form hform) (hfields form hform)
  · rintro form form' - hform' ⟨p, hp, hrequires, hother⟩ v w h
    exact strictObject_apart (hkeys form' hform') (hfields form' hform') hp hrequires hother h

/-- Objects of which each has a key that none behind it knows. -/
theorem idempotent_union_object {forms : List (List (String × ZodType))}
    (hkeys : ∀ form ∈ forms, (form.map (·.1)).Nodup)
    (hfields : ∀ form ∈ forms, ∀ p ∈ form, Idempotent p.2)
    (hapart : forms.Pairwise fun form form' ↦ ∃ p ∈ form, Requires p.2 ∧ p.1 ∉ form'.map (·.1)) :
    Idempotent (union (forms.map object)) := by
  refine idempotent_union ?_ (pairwise_map.mpr (hapart.imp_of_mem ?_))
  · intro z hz
    obtain ⟨form, hform, rfl⟩ := mem_map.mp hz
    exact idempotent_object (hkeys form hform) (hfields form hform)
  · rintro form form' hform - ⟨p, hp, hrequires, hother⟩ v w h
    exact object_apart (hkeys form hform) hp hrequires hother h

/-- What every option requires the union does. -/
@[simp] theorem requires_union (h : ∀ z ∈ options, Requires z) : Requires (union options) :=
  findSome?_eq_none_iff.mpr h

theorem idempotent_discriminatedUnion {options : List (String × ZodType)}
    (h : ∀ p ∈ options, Idempotent p.2)
    (hliteral : ∀ p ∈ options, ∀ v w, p.2 v = some w → field w key = .str p.1) :
    Idempotent (discriminatedUnion key options) := by
  intro v w hv
  rw [discriminatedUnion] at hv
  split at hv
  · rename_i k hk
    obtain ⟨z, hz, hw⟩ := bind_eq_some_iff.mp hv
    have hmem := OrdMap.mem_of_get? hz
    rw [discriminatedUnion, hliteral (k, z) hmem v w hw]
    exact bind_eq_some_iff.mpr ⟨z, hz, h (k, z) hmem v w hw⟩
  · simp at hv

end Object

end Enkaku.Zod
