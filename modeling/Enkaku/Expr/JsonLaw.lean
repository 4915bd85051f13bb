import Enkaku.Expr.Eval

/-!
# `fromJson` after `toJson`

A value goes through `toJson` and `fromJson` in four steps: `toJsonSafe` copies it, `JSON.stringify`
writes the copy, `JSON.parse` reads it, and `fromJsonValue` copies what was read.  The first copy is
made of ordinary objects, and there a key `__proto__` names the prototype: `safe` is what is left.
The other three lose nothing.

`fromJson_toJson_iff` says when the value that comes out equals the one that went in.
-/

set_option autoImplicit false

namespace Enkaku.Evaluator

open List

open Js Throwing

open Js (Data Text)

variable {number : Type}

/-! ## Values within the limits -/

mutual

/-- How many values there are in a value. -/
def size : Data number → Nat
  | .arr items => sizeItems items + 1
  | .obj fields => sizeFields fields + 1
  | _ => 1

def sizeItems : List (Data number) → Nat
  | [] => 0
  | v :: items => size v + sizeItems items

def sizeFields : List (Text × Data number) → Nat
  | [] => 0
  | (_, v) :: fields => size v + sizeFields fields

end

mutual

/-- A value at this depth has nothing in it that lies too deep, and no array that is too long. -/
def Within (depth : Nat) : Data number → Prop
  | .arr items => depth ≤ exprLimits.maxDepth ∧ items.length ≤ exprLimits.maxArrayLength ∧
      WithinItems (depth + 1) items
  | .obj fields => depth ≤ exprLimits.maxDepth ∧ WithinFields (depth + 1) fields
  | _ => depth ≤ exprLimits.maxDepth

def WithinItems (depth : Nat) : List (Data number) → Prop
  | [] => True
  | v :: items => Within depth v ∧ WithinItems depth items

def WithinFields (depth : Nat) : List (Text × Data number) → Prop
  | [] => True
  | (_, v) :: fields => Within depth v ∧ WithinFields depth fields

end

mutual

/-- No object in the value has a property `__proto__`. -/
def KeepsKeys : Data number → Prop
  | .arr items => KeepsItems items
  | .obj fields => KeepsFields fields
  | _ => True

def KeepsItems : List (Data number) → Prop
  | [] => True
  | v :: items => KeepsKeys v ∧ KeepsItems items

def KeepsFields : List (Text × Data number) → Prop
  | [] => True
  | (k, v) :: fields => k ≠ protoKey ∧ KeepsKeys v ∧ KeepsFields fields

end

/-! ## The first copy -/

mutual

/-- What `toJsonSafe` makes of a value. -/
def safe : Data number → Data number
  | .undefined => .null
  | .arr items => .arr (safeItems items)
  | .obj fields => .obj (safeFields fields)
  | v => v

def safeItems : List (Data number) → List (Data number)
  | [] => []
  | v :: items => safe v :: safeItems items

def safeFields : List (Text × Data number) → List (Text × Data number)
  | [] => []
  | (k, v) :: fields => if k = protoKey then safeFields fields else (k, safe v) :: safeFields fields

end

theorem keys_safeFields (fields : List (Text × Data number)) :
    (safeFields fields).map (·.1) = (fields.map (·.1)).filter (· ≠ protoKey) := by
  induction fields with
  | nil => rfl
  | cons p fields ih =>
    rw [safeFields, map_cons, filter_cons]
    by_cases hk : p.1 = protoKey
    · simp [hk, ih]
    · simp [hk, ih]

variable (nf : Js.NumberFormat number)

mutual

theorem toJsonSafe_run (v : Data number) (hv : Js.Plain nf v) (fuel draws : Nat) :
    toJsonSafe v ⟨size v + fuel, draws⟩ = .ok (safe v, ⟨fuel, draws⟩) := by
  match v with
  | .undefined => exact hv.elim
  | .null | .bool _ | .num _ | .str _ =>
    show toJsonSafe _ ⟨1 + fuel, draws⟩ = _
    rw [toJsonSafe, Nat.add_comm, bind_of_ok (spend_run fuel draws)]
    rfl
  | .arr items =>
    have hitems := toJsonSafeItems_run items (by simpa only [Js.Plain] using hv) fuel draws
    rw [toJsonSafe, size, Nat.add_right_comm, bind_of_ok (spend_run _ draws), bind_of_ok hitems, safe]
    rfl
  | .obj fields =>
    obtain ⟨hkeys, hfields⟩ : (fields.map (·.1)).Nodup ∧ Js.PlainFields nf fields := by
      simpa only [Js.Plain] using hv
    have hrun := toJsonSafeFields_run fields hfields [] hkeys fuel draws
    rw [toJsonSafe, size, Nat.add_right_comm, bind_of_ok (spend_run _ draws), bind_of_ok hrun, safe]
    rfl

theorem toJsonSafeItems_run (items : List (Data number)) (h : Js.PlainItems nf items)
    (fuel draws : Nat) : toJsonSafeItems items ⟨sizeItems items + fuel, draws⟩ =
      .ok (safeItems items, ⟨fuel, draws⟩) := by
  match items with
  | [] =>
    rw [sizeItems, Nat.zero_add]
    rfl
  | v :: items =>
    have hv := toJsonSafe_run v h.1 (sizeItems items + fuel) draws
    have hitems := toJsonSafeItems_run items h.2 fuel draws
    rw [toJsonSafeItems, sizeItems, Nat.add_assoc, bind_of_ok hv, bind_of_ok hitems]
    rfl

/-- The keys the copy has so far are none of those that are still to come. -/
theorem toJsonSafeFields_run (fields : List (Text × Data number)) (h : Js.PlainFields nf fields)
    (out : List (Text × Data number)) (hkeys : (out.map (·.1) ++ fields.map (·.1)).Nodup)
    (fuel draws : Nat) : toJsonSafeFields out fields ⟨sizeFields fields + fuel, draws⟩ =
      .ok (out ++ safeFields fields, ⟨fuel, draws⟩) := by
  match fields with
  | [] =>
    rw [sizeFields, Nat.zero_add, safeFields, append_nil]
    rfl
  | (k, v) :: fields =>
    have hv := toJsonSafe_run v h.1 (sizeFields fields + fuel) draws
    have hout : k ∉ out.map (·.1) := fun hk ↦
      (nodup_append.mp hkeys).2.2 k hk k (.head _) rfl
    rw [toJsonSafeFields, sizeFields, Nat.add_assoc, bind_of_ok hv, safeFields]
    rw [map_cons] at hkeys
    by_cases hk : k = protoKey
    · rw [assign, if_pos hk, if_pos hk]
      exact toJsonSafeFields_run fields h.2 out
        (hkeys.sublist (List.Sublist.append_left (sublist_cons_self _ _) _)) fuel draws
    · have hrest := toJsonSafeFields_run fields h.2 (out ++ [(k, safe v)]) (by simpa using hkeys)
        fuel draws
      rw [assign, if_neg hk, if_neg hk,
        OrdMap.set_of_get?_eq_none (OrdMap.get?_eq_none_iff.mpr hout), hrest, append_assoc,
        singleton_append]

end

mutual

theorem plain_safe (v : Data number) (hv : Js.Plain nf v) : Js.Plain nf (safe v) := by
  match v with
  | .undefined => exact hv.elim
  | .null | .bool _ | .num _ | .str _ => exact hv
  | .arr items => exact plain_safeItems items hv
  | .obj fields =>
    refine ⟨?_, plain_safeFields fields hv.2⟩
    rw [keys_safeFields]
    exact hv.1.filter _

theorem plain_safeItems (items : List (Data number)) (h : Js.PlainItems nf items) :
    Js.PlainItems nf (safeItems items) := by
  match items with
  | [] => trivial
  | v :: items => exact ⟨plain_safe v h.1, plain_safeItems items h.2⟩

theorem plain_safeFields (fields : List (Text × Data number)) (h : Js.PlainFields nf fields) :
    Js.PlainFields nf (safeFields fields) := by
  match fields with
  | [] => trivial
  | (k, v) :: fields =>
    rw [safeFields]
    split_ifs
    · exact plain_safeFields fields h.2
    · exact ⟨plain_safe v h.1, plain_safeFields fields h.2⟩

end

theorem length_safeItems (items : List (Data number)) : (safeItems items).length = items.length := by
  induction items with
  | nil => rfl
  | cons v items ih => rw [safeItems, length_cons, length_cons, ih]

theorem length_rereadItems (items : List (Data number)) :
    (rereadItems nf items).length = items.length := by
  induction items with
  | nil => rfl
  | cons v items ih => rw [rereadItems, length_cons, length_cons, ih]

/-! ## The second copy -/

mutual

/-- `fromJsonValue` copies what lies within the limits as it is. -/
theorem fromJsonValue_reread (v : Data number) (hv : Js.Plain nf v) (depth : Nat)
    (hdepth : Within depth v) : fromJsonValue depth (reread nf (safe v)) = reread nf (safe v) := by
  match v with
  | .undefined => exact hv.elim
  | .null | .bool _ | .num _ | .str _ =>
    have hle : depth ≤ exprLimits.maxDepth := hdepth
    simp only [safe, reread]
    rw [fromJsonValue.eq_def, if_neg (Nat.not_lt.mpr hle)]
  | .arr items =>
    obtain ⟨hle, hlength, hitems⟩ := hdepth
    rw [safe, reread, fromJsonValue, if_neg (Nat.not_lt.mpr hle),
      fromJsonItems_reread items hv (depth + 1) hitems, take_of_length_le]
    rwa [length_rereadItems, length_safeItems]
  | .obj fields =>
    obtain ⟨hle, hfields⟩ := hdepth
    rw [safe, reread, fromJsonValue, if_neg (Nat.not_lt.mpr hle),
      fromJsonFields_reread fields hv.2 (depth + 1) hfields, OrdMap.merge_of_nodup,
      nil_append]
    rw [nil_append, keys_rereadFields, keys_safeFields]
    exact hv.1.filter _

theorem fromJsonItems_reread (items : List (Data number)) (h : Js.PlainItems nf items)
    (depth : Nat) (hdepth : WithinItems depth items) :
    fromJsonItems depth (rereadItems nf (safeItems items)) =
      rereadItems nf (safeItems items) := by
  match items with
  | [] => rfl
  | v :: items =>
    rw [safeItems, rereadItems, fromJsonItems, fromJsonValue_reread v h.1 depth hdepth.1,
      fromJsonItems_reread items h.2 depth hdepth.2]

theorem fromJsonFields_reread (fields : List (Text × Data number)) (h : Js.PlainFields nf fields)
    (depth : Nat) (hdepth : WithinFields depth fields) :
    fromJsonFields depth (rereadFields nf (safeFields fields)) =
      rereadFields nf (safeFields fields) := by
  match fields with
  | [] => rfl
  | (k, v) :: fields =>
    have hrest := fromJsonFields_reread fields h.2 depth hdepth.2
    rw [safeFields]
    split_ifs
    · exact hrest
    · rw [rereadFields, fromJsonFields, fromJsonValue_reread v h.1 depth hdepth.1, hrest]

end

/-! ## Whether the copy is equal -/

mutual

/-- A copy that keeps every key is the value. -/
theorem safe_of_keepsKeys (v : Data number) (hv : Js.Plain nf v) (hkeys : KeepsKeys v) : safe v = v := by
  match v with
  | .undefined => exact hv.elim
  | .null | .bool _ | .num _ | .str _ => rfl
  | .arr items => rw [safe, safeItems_of_keepsItems items hv hkeys]
  | .obj fields => rw [safe, safeFields_of_keepsFields fields hv.2 hkeys]

theorem safeItems_of_keepsItems (items : List (Data number)) (h : Js.PlainItems nf items)
    (hkeys : KeepsItems items) : safeItems items = items := by
  match items with
  | [] => rfl
  | v :: items =>
    rw [safeItems, safe_of_keepsKeys v h.1 hkeys.1, safeItems_of_keepsItems items h.2 hkeys.2]

theorem safeFields_of_keepsFields (fields : List (Text × Data number))
    (h : Js.PlainFields nf fields) (hkeys : KeepsFields fields) : safeFields fields = fields := by
  match fields with
  | [] => rfl
  | (k, v) :: fields =>
    rw [safeFields, if_neg hkeys.1, safe_of_keepsKeys v h.1 hkeys.2.1,
      safeFields_of_keepsFields fields h.2 hkeys.2.2]

end

theorem length_rereadFields (fields : List (Text × Data number)) :
    (rereadFields nf fields).length = fields.length := by
  have h := congrArg List.length (keys_rereadFields nf fields)
  rwa [length_map, length_map] at h

/-- Every key is there in the copy only where none of them is `__proto__`. -/
theorem protoKey_notMem {fields : List (Text × Data number)}
    (h : (safeFields fields).length = fields.length) : protoKey ∉ fields.map (·.1) := by
  have hlength : ((fields.map (·.1)).filter (· ≠ protoKey)).length = (fields.map (·.1)).length := by
    rw [← keys_safeFields, length_map, length_map, h]
  intro hmem
  have hne := length_filter_eq_length_iff.mp hlength protoKey hmem
  simp at hne

variable (nm : Numbers number)

theorem deepEqual_leaf {a : Data number} (harr : ∀ as, a ≠ .arr as) (hobj : ∀ as, a ≠ .obj as)
    (b : Data number) (fuel draws : Nat) :
    deepEqual nm a b ⟨fuel + 1, draws⟩ = .ok (identical nm a b, ⟨fuel, draws⟩) := by
  rw [deepEqual, bind_of_ok (spend_run fuel draws)]
  · rfl
  · exact harr
  · exact hobj

mutual

/-- What is read back equals what was written. -/
theorem deepEqual_reread (v : Data number) (hv : Js.Plain nm.toNumberFormat v) (fuel draws : Nat) :
    deepEqual nm (reread nm.toNumberFormat v) v ⟨size v + fuel, draws⟩ =
      .ok (true, ⟨fuel, draws⟩) := by
  match v with
  | .undefined => exact hv.elim
  | .null =>
    rw [Nat.add_comm, size, reread, deepEqual_leaf nm (by simp) (by simp)]
    · rfl
    all_goals simp
  | .bool b =>
    rw [Nat.add_comm, size, reread, deepEqual_leaf nm (by simp) (by simp)]
    · simp [identical]
    all_goals simp
  | .num n =>
    have hfinite : nm.finite n = true := by simpa only [Js.Plain] using hv
    rw [Nat.add_comm, size, reread, deepEqual_leaf nm (by simp) (by simp)]
    · simp [identical, nm.same_read hfinite]
    all_goals simp
  | .str s =>
    rw [Nat.add_comm, size, reread, deepEqual_leaf nm (by simp) (by simp)]
    · simp [identical]
    all_goals simp
  | .arr items =>
    have hitems := deepEqualItems_reread items hv fuel draws
    rw [reread, deepEqual, size, Nat.add_right_comm, bind_of_ok (spend_run _ draws),
      if_neg (not_not.mpr (length_rereadItems _ items)), hitems]
  | .obj fields =>
    have hfields := deepEqualFields_reread fields hv.2 fields
      (fun p hp ↦ OrdMap.get?_of_mem hv.1 hp) fuel draws
    rw [reread, deepEqual, size, Nat.add_right_comm, bind_of_ok (spend_run _ draws),
      if_neg (not_not.mpr (length_rereadFields _ fields)), hfields]

theorem deepEqualItems_reread (items : List (Data number))
    (h : Js.PlainItems nm.toNumberFormat items) (fuel draws : Nat) :
    deepEqualItems nm (rereadItems nm.toNumberFormat items) items
      ⟨sizeItems items + fuel, draws⟩ = .ok (true, ⟨fuel, draws⟩) := by
  match items with
  | [] =>
    rw [sizeItems, Nat.zero_add]
    rfl
  | v :: items =>
    have hv := deepEqual_reread v h.1 (sizeItems items + fuel) draws
    rw [rereadItems, deepEqualItems, sizeItems, Nat.add_assoc, bind_of_ok hv, if_pos rfl,
      deepEqualItems_reread items h.2 fuel draws]

/-- The keys that are still to come are looked up in the whole object. -/
theorem deepEqualFields_reread (fields : List (Text × Data number))
    (h : Js.PlainFields nm.toNumberFormat fields) (bs : List (Text × Data number))
    (hbs : ∀ p ∈ fields, OrdMap.get? p.1 bs = some p.2) (fuel draws : Nat) :
    deepEqualFields nm bs (rereadFields nm.toNumberFormat fields)
      ⟨sizeFields fields + fuel, draws⟩ = .ok (true, ⟨fuel, draws⟩) := by
  match fields with
  | [] =>
    rw [sizeFields, Nat.zero_add]
    rfl
  | (k, v) :: fields =>
    have hk : OrdMap.get? k bs = some v := hbs (k, v) (.head _)
    have hv := deepEqual_reread v h.1 (sizeFields fields + fuel) draws
    have hrest := deepEqualFields_reread fields h.2 bs
      (fun p hp ↦ hbs p (.tail _ hp)) fuel draws
    rw [rereadFields, deepEqualFields, hk, sizeFields, Nat.add_assoc]
    simp only [bind_of_ok hv, if_true, hrest]

end

mutual

/-- A copy that equals the value has all its keys. -/
theorem keepsKeys_of_deepEqual (v : Data number) (hv : Js.Plain nm.toNumberFormat v) {s s' : EvalState}
    (h : deepEqual nm (reread nm.toNumberFormat (safe v)) v s = .ok (true, s')) : KeepsKeys v := by
  match v with
  | .undefined | .null | .bool _ | .num _ | .str _ => trivial
  | .arr items =>
    rw [safe, reread, deepEqual] at h
    obtain ⟨-, s₁, -, h⟩ := ok_of_bind h
    rw [if_neg (not_not.mpr (by rw [length_rereadItems, length_safeItems]))] at h
    exact keepsItems_of_deepEqual items hv h
  | .obj fields =>
    rw [safe, reread, deepEqual] at h
    obtain ⟨-, s₁, -, h⟩ := ok_of_bind h
    split_ifs at h with hlength
    · exact absurd (pure_ok_iff.mp h).1 (by decide)
    · rw [not_not, length_rereadFields] at hlength
      exact keepsFields_of_deepEqual fields hv.2 fields (fun p hp ↦ OrdMap.get?_of_mem hv.1 hp)
        (protoKey_notMem hlength) h

theorem keepsItems_of_deepEqual (items : List (Data number))
    (hitems : Js.PlainItems nm.toNumberFormat items) {s s' : EvalState}
    (h : deepEqualItems nm (rereadItems nm.toNumberFormat (safeItems items)) items s =
      .ok (true, s')) : KeepsItems items := by
  match items with
  | [] => trivial
  | v :: items =>
    rw [safeItems, rereadItems, deepEqualItems] at h
    obtain ⟨same, s₁, hv, h⟩ := ok_of_bind h
    cases same with
    | false => exact absurd (pure_ok_iff.mp h).1 (by decide)
    | true => exact ⟨keepsKeys_of_deepEqual v hitems.1 hv, keepsItems_of_deepEqual items hitems.2 h⟩

theorem keepsFields_of_deepEqual (fields : List (Text × Data number))
    (hfields : Js.PlainFields nm.toNumberFormat fields) (bs : List (Text × Data number))
    (hbs : ∀ p ∈ fields, OrdMap.get? p.1 bs = some p.2)
    (hproto : protoKey ∉ fields.map (·.1)) {s s' : EvalState}
    (h : deepEqualFields nm bs (rereadFields nm.toNumberFormat (safeFields fields)) s =
      .ok (true, s')) : KeepsFields fields := by
  match fields with
  | [] => trivial
  | (k, v) :: fields =>
    rw [map_cons, mem_cons, not_or] at hproto
    have hk : OrdMap.get? k bs = some v := hbs (k, v) (.head _)
    rw [safeFields, if_neg (Ne.symm hproto.1), rereadFields, deepEqualFields, hk] at h
    obtain ⟨same, s₁, hv, h⟩ := ok_of_bind h
    cases same with
    | false => exact absurd (pure_ok_iff.mp h).1 (by decide)
    | true =>
      exact ⟨Ne.symm hproto.1, keepsKeys_of_deepEqual v hfields.1 hv,
        keepsFields_of_deepEqual fields hfields.2 bs
          (fun p hp ↦ hbs p (.tail _ hp)) hproto.2 h⟩

end

/-! ## The law -/

/-- `fromJson(toJson($name))`. -/
def throughJson (name : RootName) : Expr number := .call "fromJson" [.call "toJson" [.root name]]

/-- `w == v`, with as much fuel as it takes. -/
def Equals (w v : Data number) : Prop := ∃ s s', deepEqual nm w v s = .ok (true, s')

/-- The value is small enough: for the copies, for the steps of the evaluation — one for each value
in it, and five for the nodes and the calls — and for the string in between. -/
structure Fits (v : Data number) : Prop where
  nested : Within 0 v
  steps : size v + 5 ≤ exprLimits.maxSteps
  bytes : ∀ t, Js.stringify nm.toNumberFormat v = some t → byteLength t ≤ exprLimits.maxStringBytes

variable {nm}

theorem toJson_run {v : Data number} (hv : Js.Plain nm.toNumberFormat v) {t : Text}
    (ht : stringify nm.toNumberFormat (safe v) = some t) (fuel draws : Nat) :
    toJson nm v ⟨size v + fuel, draws⟩ = boundString t ⟨fuel, draws⟩ := by
  rw [toJson, bind_of_ok (toJsonSafe_run nm.toNumberFormat v hv fuel draws), ht]

theorem fromJson_run {v : Data number} (hv : Js.Plain nm.toNumberFormat v) (hdepth : Within 0 v)
    {t : Text} (ht : stringify nm.toNumberFormat (safe v) = some t) (s : EvalState) :
    fromJson nm (.str t) s = .ok (reread nm.toNumberFormat (safe v), s) := by
  have hparse := parse_stringify nm.toNumberFormat (plain_safe nm.toNumberFormat v hv) ht
  rw [fromJson]
  simp only [hparse, fromJsonValue_reread nm.toNumberFormat v hv 0 hdepth]
  rfl

section Law

variable (others : String → Option (ExprFn number)) (scope : ExprScope number)

/-- The value that comes out, or the limit on strings. -/
theorem evaluate_throughJson {name : RootName} {v : Data number} (hname : scope.root name = v)
    (hv : Js.Plain nm.toNumberFormat v) (hfits : Fits nm v) {t : Text}
    (ht : stringify nm.toNumberFormat (safe v) = some t) :
    evaluate nm others scope (throughJson name) =
      if exprLimits.maxStringBytes < byteLength t then
        .error (.expr ⟨.limit, "string result exceeds the size limit"⟩)
      else .ok (reread nm.toNumberFormat (safe v)) := by
  obtain ⟨k, hk⟩ := Nat.exists_eq_add_of_le hfits.steps
  have hfuel : exprLimits.maxSteps = size v + (k + 1) + 1 + 1 + 1 + 1 := by omega
  have hroot : evalNode nm others scope (.root name) ⟨size v + (k + 1) + 1 + 1, scope.draws⟩ =
      .ok (scope.root name, ⟨size v + (k + 1) + 1, scope.draws⟩) := evalNode_root name _ _
  have hcall : evalNode nm others scope (.call "toJson" [.root name])
      ⟨size v + (k + 1) + 1 + 1 + 1, scope.draws⟩ = boundString t ⟨k + 1, scope.draws⟩ := by
    rw [evalNode_call hroot, applyFunction_toJson, hname, toJson_run hv ht]
  rw [evaluate, throughJson, hfuel]
  split_ifs with hbytes
  · rw [boundString, if_pos hbytes] at hcall
    rw [evalNode_call_error hcall]
    rfl
  · rw [boundString, if_neg hbytes] at hcall
    rw [evalNode_call hcall, applyFunction_fromJson, fromJson_run hv hfits.nested ht]
    rfl

/-- **`fromJson` undoes `toJson` exactly when no key is `__proto__`.**  The value is any root of any
scope, whatever the other functions of the table do. -/
theorem fromJson_toJson_iff (name : RootName)
    (hv : Js.Plain nm.toNumberFormat (scope.root name)) (hfits : Fits nm (scope.root name)) :
    (∃ w, evaluate nm others scope (throughJson name) = .ok w ∧ Equals nm w (scope.root name)) ↔
      KeepsKeys (scope.root name) := by
  obtain ⟨t, ht⟩ := exists_stringify nm.toNumberFormat (plain_safe nm.toNumberFormat _ hv)
  rw [evaluate_throughJson others scope rfl hv hfits ht]
  constructor
  · rintro ⟨w, hw, s, s', hequal⟩
    split_ifs at hw with hbytes
    cases hw
    exact keepsKeys_of_deepEqual nm _ hv hequal
  · intro hkeys
    have hsafe := safe_of_keepsKeys nm.toNumberFormat _ hv hkeys
    rw [hsafe] at ht ⊢
    refine ⟨_, if_neg (Nat.not_lt.mpr (hfits.bytes t ht)), ?_⟩
    exact ⟨⟨size (scope.root name) + 0, 0⟩, _, deepEqual_reread nm _ hv 0 0⟩

end Law

/-! ## A scope with one digit in it -/

namespace Digit

/-- The numbers of one digit. -/
def numbers : Numbers (Fin 10) where
  finite _ := true
  same a b := a == b
  write n := [UInt16.ofNat (48 + n)]
  read cs := Fin.ofNat 10 ((cs.headD 48).toNat - 48)
  isJsonNumber := by
    intro n _
    refine ⟨[], [UInt16.ofNat (48 + n)], [], [], by simp, .inl rfl, ?_, .inl rfl, .inl rfl⟩
    by_cases hn : n = 0
    · subst hn
      exact .inl rfl
    · refine .inr ⟨_, [], rfl, ?_, ?_⟩
      · revert n
        decide
      · intro x hx
        obtain rfl := List.mem_singleton.mp hx
        revert n
        decide
  same_read := by
    intro n _
    revert n
    decide
  ofNat n := Fin.ofNat 10 n
  add := (· + ·)
  sub := (· - ·)
  mul := (· * ·)
  div := (· / ·)
  mod := (· % ·)
  neg n := n
  lt a b := a < b
  le a b := a ≤ b
  floor n := n
  truthy n := n ≠ 0
  index? n := some n
  draw n _ := n

/-- A scope whose input is a value. -/
def scope (input : Data (Fin 10)) : ExprScope (Fin 10) where
  params := .obj []
  nodes := .obj []
  input := input
  run := .obj []
  now := 0
  random := 0
  device := .obj []

/-- `{"items": [7, null]}`. -/
def plain : Data (Fin 10) := .obj [(Js.text "items", .arr [.num 7, .null])]

/-- `{"__proto__": 7}`. -/
def proto : Data (Fin 10) := .obj [(protoKey, .num 7)]

theorem plain_plain : Js.Plain numbers.toNumberFormat plain :=
  ⟨by decide, ⟨rfl, trivial, trivial⟩, trivial⟩

theorem fits_plain : Fits numbers plain where
  nested := ⟨by decide, ⟨by decide, by decide, show 2 ≤ exprLimits.maxDepth by decide,
    show 2 ≤ exprLimits.maxDepth by decide, trivial⟩, trivial⟩
  steps := by decide
  bytes := by
    intro t ht
    cases ht
    decide +kernel

/-- `{"items": [7, null]}` comes back. -/
theorem fromJson_toJson_items :
    ∃ w, evaluate numbers (fun _ ↦ none) (scope plain) (throughJson .input) = .ok w ∧
      Equals numbers w plain :=
  (fromJson_toJson_iff (fun _ ↦ none) (scope plain) .input plain_plain fits_plain).mpr
    ⟨by decide, ⟨trivial, trivial, trivial⟩, trivial⟩

theorem plain_proto : Js.Plain numbers.toNumberFormat proto := ⟨by decide, rfl, trivial⟩

theorem fits_proto : Fits numbers proto where
  nested := ⟨by decide, show 1 ≤ exprLimits.maxDepth by decide, trivial⟩
  steps := by decide
  bytes := by
    intro t ht
    cases ht
    decide +kernel

/-- `{"__proto__": 7}` comes back as `{}`, which is not equal to it. -/
theorem fromJson_toJson_proto :
    Js.Plain numbers.toNumberFormat proto ∧ Fits numbers proto ∧
      ¬ ∃ w, evaluate numbers (fun _ ↦ none) (scope proto) (throughJson .input) = .ok w ∧
        Equals numbers w proto := by
  refine ⟨plain_proto, fits_proto, ?_⟩
  rintro ⟨w, hw, s, s', h⟩
  have hempty : evaluate numbers (fun _ ↦ none) (scope proto) (throughJson .input) =
      .ok (.obj []) := by
    rw [evaluate_throughJson _ _ rfl plain_proto fits_proto rfl]
    rfl
  cases hempty.symm.trans hw
  rw [proto, deepEqual] at h
  obtain ⟨-, s₁, -, h⟩ := ok_of_bind h
  exact absurd (pure_ok_iff.mp h).1 (by decide)

end Digit

end Enkaku.Evaluator
