import Enkaku.Workflow.Resolve

/-!
# `setPath` on shared objects

`Resolve.lean` writes a path of a value.  The code does it on objects that are shared: it copies the
object it is given, copies every object on the way down, hangs each copy into the one above it, and
writes the last field.  Here is that, on a heap of objects; `setPathOn_refines` says that it makes the
value the other one makes, and leaves every object there was as it was.

An object the code copies has the fields of the original and inherits from `Object.prototype`, where
it finds the methods all objects have and the accessor `__proto__`.  Reading that one gives the
prototype, and writing it changes the prototype and makes no field.
-/

set_option autoImplicit false

namespace Enkaku

/-! ## The heap -/

/-- What a variable or a field holds. -/
inductive HeapValue where
  | undefined
  | null
  | bool (b : Bool)
  | num (q : ℚ)
  | str (s : String)
  | method (name : String)
  | ref (address : Nat)
  deriving DecidableEq, Repr

/-- An object: its own enumerable fields and its prototype, or the items of an array.
`Object.prototype` has no enumerable fields. -/
inductive HeapCell where
  | object (fields : List (String × HeapValue)) (proto : HeapValue)
  | array (items : List HeapValue)
  | objectPrototype
  deriving DecidableEq, Repr

/-- The objects by their addresses; none is ever freed. -/
abbrev Heap := List HeapCell

namespace Heap

/-- The address of `Object.prototype`. -/
def prototypeAddress : Nat := 0

/-- The methods of `Object.prototype`. -/
def methods : List String :=
  ["constructor", "hasOwnProperty", "isPrototypeOf", "propertyIsEnumerable", "toLocaleString",
    "toString", "valueOf", "__defineGetter__", "__defineSetter__", "__lookupGetter__",
    "__lookupSetter__"]

variable (heap : Heap)

/-- `isPlainObject`. -/
def isPlainObject : HeapValue → Bool
  | .ref address =>
    match heap[address]? with
    | some (.object _ _) | some .objectPrototype => true
    | _ => false
  | _ => false

/-- The fields of `{ ...x }`. -/
def spread : HeapValue → List (String × HeapValue)
  | .ref address =>
    match heap[address]? with
    | some (.object fields _) => fields
    | _ => []
  | _ => []

/-- A new object, which inherits from `Object.prototype`. -/
def copyOf (fields : List (String × HeapValue)) : HeapCell := .object fields (.ref prototypeAddress)

/-- `object[key]`, of an object that inherits from `Object.prototype`. -/
def readField (address : Nat) (key : String) : HeapValue :=
  match heap[address]? with
  | some (.object fields proto) =>
    match OrdMap.get? key fields with
    | some x => x
    | none =>
      if key = "__proto__" then proto
      else if methods.contains key then .method key
      else .undefined
  | _ => .undefined

/-- What an object is after `object[key] = x`, when it inherits from `Object.prototype`: without a
field of its own of that name, `__proto__` sets the prototype, to an object or to `null`. -/
def written (fields : List (String × HeapValue)) (proto : HeapValue) (key : String) (x : HeapValue) :
    HeapCell :=
  if key = "__proto__" ∧ (OrdMap.get? key fields).isNone then
    match x with
    | .null | .ref _ | .method _ => .object fields x
    | _ => .object fields proto
  else .object (OrdMap.set key x fields) proto

/-- `object[key] = x`. -/
def writeField (address : Nat) (key : String) (x : HeapValue) : Heap :=
  match heap[address]? with
  | some (.object fields proto) => heap.set address (written fields proto key x)
  | _ => heap

end Heap

/-! ## `setPath` -/

/-- The loop of `setPath` and the write after it, from the object the cursor is at. -/
def setPathLoop : List String → Nat → HeapValue → Heap → Heap
  | [], _, _, heap => heap
  | [segment], cursor, x, heap => heap.writeField cursor segment x
  | segment :: rest, cursor, x, heap =>
    let existing := heap.readField cursor segment
    let next := Heap.copyOf (if heap.isPlainObject existing then heap.spread existing else [])
    let address := heap.length
    setPathLoop rest address x (Heap.writeField (heap ++ [next]) cursor segment (.ref address))

/-- `setPath`: the address of the result, and the heap after it. -/
def setPathOn (base : HeapValue) (name : String) (x : HeapValue) (heap : Heap) :
    Except String (Nat × Heap) :=
  let segments := name.splitOn "."
  match segments.find? fun s ↦ s.isEmpty || isDigitsOnlySegment s with
  | some segment =>
    if segment.isEmpty then
      .error s!"\"{name}\" has an empty segment — dot notation needs a name on both sides of every \".\""
    else
      .error s!"\"{name}\": the segment \"{segment}\" is only digits — dot notation builds nested objects, never an array index (plan 312 §3.4)"
  | none =>
    let root := heap.length
    .ok (root, setPathLoop segments root x (heap ++ [Heap.copyOf (heap.spread base)]))

/-! ## What a heap says a value is -/

mutual

/-- The value at an address; its prototype is no part of it. -/
def Denotes (heap : Heap) : Value → HeapValue → Prop
  | .undefined, x => x = .undefined
  | .null, x => x = .null
  | .bool b, x => x = .bool b
  | .num q, x => x = .num q
  | .str s, x => x = .str s
  | .arr items, x => ∃ address xs, x = .ref address ∧ heap[address]? = some (.array xs) ∧
      ItemsDenote heap items xs
  | .obj fields, x => ∃ address xs proto, x = .ref address ∧ heap[address]? = some (.object xs proto) ∧
      FieldsDenote heap fields xs

def ItemsDenote (heap : Heap) : List Value → List HeapValue → Prop
  | [], xs => xs = []
  | v :: vs, xs => ∃ y ys, xs = y :: ys ∧ Denotes heap v y ∧ ItemsDenote heap vs ys

def FieldsDenote (heap : Heap) : List (String × Value) → List (String × HeapValue) → Prop
  | [], xs => xs = []
  | (key, v) :: vs, xs => ∃ y ys, xs = (key, y) :: ys ∧ Denotes heap v y ∧ FieldsDenote heap vs ys

end

/-- Every object is still there, and what it was. -/
def Heap.Extends (heap heap' : Heap) : Prop := ∀ (a : Nat) (c : HeapCell), heap[a]? = some c → heap'[a]? = some c

theorem Heap.extends_append (heap : Heap) (cells : List HeapCell) : heap.Extends (heap ++ cells) := by
  intro a c hc
  rw [List.getElem?_append_left (List.getElem?_eq_some_iff.mp hc).1, hc]

section Denotes

variable {heap heap' : Heap}

mutual

theorem Denotes.mono (h : heap.Extends heap') : ∀ (v : Value) (x : HeapValue),
    Denotes heap v x → Denotes heap' v x
  | .undefined, _, hv | .null, _, hv | .bool _, _, hv | .num _, _, hv | .str _, _, hv => by
    simpa only [Denotes] using hv
  | .arr items, _, hv => by
    rw [Denotes] at hv ⊢
    obtain ⟨a, xs, rfl, hcell, hitems⟩ := hv
    exact ⟨a, xs, rfl, h a _ hcell, ItemsDenote.mono h items xs hitems⟩
  | .obj fields, _, hv => by
    rw [Denotes] at hv ⊢
    obtain ⟨a, xs, proto, rfl, hcell, hfields⟩ := hv
    exact ⟨a, xs, proto, rfl, h a _ hcell, FieldsDenote.mono h fields xs hfields⟩

theorem ItemsDenote.mono (h : heap.Extends heap') : ∀ (vs : List Value) (xs : List HeapValue),
    ItemsDenote heap vs xs → ItemsDenote heap' vs xs
  | [], _, hvs => by simpa only [ItemsDenote] using hvs
  | v :: vs, _, hvs => by
    rw [ItemsDenote] at hvs ⊢
    obtain ⟨y, ys, rfl, hy, hys⟩ := hvs
    exact ⟨y, ys, rfl, Denotes.mono h v y hy, ItemsDenote.mono h vs ys hys⟩

theorem FieldsDenote.mono (h : heap.Extends heap') :
    ∀ (vs : List (String × Value)) (xs : List (String × HeapValue)),
      FieldsDenote heap vs xs → FieldsDenote heap' vs xs
  | [], _, hvs => by simpa only [FieldsDenote] using hvs
  | (key, v) :: vs, _, hvs => by
    rw [FieldsDenote] at hvs ⊢
    obtain ⟨y, ys, rfl, hy, hys⟩ := hvs
    exact ⟨y, ys, rfl, Denotes.mono h v y hy, FieldsDenote.mono h vs ys hys⟩

end

mutual

/-- A heap says of no value that it is two. -/
theorem Denotes.unique : ∀ (v w : Value) (x : HeapValue), Denotes heap v x → Denotes heap w x → v = w
  | .undefined, w, _, hv, hw | .null, w, _, hv, hw | .bool _, w, _, hv, hw | .num _, w, _, hv, hw
  | .str _, w, _, hv, hw => by
    rw [Denotes] at hv
    subst hv
    cases w <;> simp_all [Denotes]
  | .arr items, w, _, hv, hw => by
    rw [Denotes] at hv
    obtain ⟨a, xs, rfl, hcell, hitems⟩ := hv
    cases w with
    | arr items' =>
      rw [Denotes] at hw
      obtain ⟨a', xs', heq, hcell', hitems'⟩ := hw
      obtain rfl := HeapValue.ref.inj heq
      obtain rfl := HeapCell.array.inj (Option.some.inj (hcell.symm.trans hcell'))
      rw [ItemsDenote.unique items items' xs hitems hitems']
    | obj fields =>
      rw [Denotes] at hw
      obtain ⟨a', xs', proto, heq, hcell', -⟩ := hw
      obtain rfl := HeapValue.ref.inj heq
      simp [hcell] at hcell'
    | _ => simp [Denotes] at hw
  | .obj fields, w, _, hv, hw => by
    rw [Denotes] at hv
    obtain ⟨a, xs, proto, rfl, hcell, hfields⟩ := hv
    cases w with
    | arr items' =>
      rw [Denotes] at hw
      obtain ⟨a', xs', heq, hcell', -⟩ := hw
      obtain rfl := HeapValue.ref.inj heq
      simp [hcell] at hcell'
    | obj fields' =>
      rw [Denotes] at hw
      obtain ⟨a', xs', proto', heq, hcell', hfields'⟩ := hw
      obtain rfl := HeapValue.ref.inj heq
      obtain ⟨rfl, -⟩ := HeapCell.object.inj (Option.some.inj (hcell.symm.trans hcell'))
      rw [FieldsDenote.unique fields fields' xs hfields hfields']
    | _ => simp [Denotes] at hw

theorem ItemsDenote.unique : ∀ (vs ws : List Value) (xs : List HeapValue),
    ItemsDenote heap vs xs → ItemsDenote heap ws xs → vs = ws
  | [], ws, _, hvs, hws => by
    rw [ItemsDenote] at hvs
    subst hvs
    cases ws with
    | nil => rfl
    | cons w ws => simp [ItemsDenote] at hws
  | v :: vs, ws, _, hvs, hws => by
    rw [ItemsDenote] at hvs
    obtain ⟨y, ys, rfl, hy, hys⟩ := hvs
    cases ws with
    | nil => simp [ItemsDenote] at hws
    | cons w ws =>
      rw [ItemsDenote] at hws
      obtain ⟨y', ys', heq, hy', hys'⟩ := hws
      cases heq
      rw [Denotes.unique v w y hy hy', ItemsDenote.unique vs ws ys hys hys']

theorem FieldsDenote.unique : ∀ (vs ws : List (String × Value)) (xs : List (String × HeapValue)),
    FieldsDenote heap vs xs → FieldsDenote heap ws xs → vs = ws
  | [], ws, _, hvs, hws => by
    rw [FieldsDenote] at hvs
    subst hvs
    cases ws with
    | nil => rfl
    | cons w ws => simp [FieldsDenote] at hws
  | (key, v) :: vs, ws, _, hvs, hws => by
    rw [FieldsDenote] at hvs
    obtain ⟨y, ys, rfl, hy, hys⟩ := hvs
    cases ws with
    | nil => simp [FieldsDenote] at hws
    | cons w ws =>
      obtain ⟨key', w⟩ := w
      rw [FieldsDenote] at hws
      obtain ⟨y', ys', heq, hy', hys'⟩ := hws
      obtain ⟨hhead, rfl⟩ := List.cons.inj heq
      cases hhead
      rw [Denotes.unique v w y hy hy', FieldsDenote.unique vs ws ys hys hys']

end

theorem FieldsDenote.get? {vs : List (String × Value)} {xs : List (String × HeapValue)}
    (h : FieldsDenote heap vs xs) (key : String) :
    (OrdMap.get? key vs = none ∧ OrdMap.get? key xs = none) ∨
      ∃ v x, OrdMap.get? key vs = some v ∧ OrdMap.get? key xs = some x ∧ Denotes heap v x := by
  induction vs generalizing xs with
  | nil =>
    rw [FieldsDenote] at h
    subst h
    exact .inl ⟨rfl, rfl⟩
  | cons p vs ih =>
    obtain ⟨k, v⟩ := p
    rw [FieldsDenote] at h
    obtain ⟨y, ys, rfl, hy, hys⟩ := h
    by_cases hk : k = key
    · exact .inr ⟨v, y, by simp [OrdMap.get?, hk], by simp [OrdMap.get?, hk], hy⟩
    · simpa [OrdMap.get?, hk] using ih hys

theorem FieldsDenote.set {vs : List (String × Value)} {xs : List (String × HeapValue)}
    (h : FieldsDenote heap vs xs) {v : Value} {x : HeapValue} (hv : Denotes heap v x) (key : String) :
    FieldsDenote heap (OrdMap.set key v vs) (OrdMap.set key x xs) := by
  induction vs generalizing xs with
  | nil =>
    rw [FieldsDenote] at h
    subst h
    rw [OrdMap.set, OrdMap.set, FieldsDenote]
    exact ⟨x, [], rfl, hv, by rw [FieldsDenote]⟩
  | cons p vs ih =>
    obtain ⟨k, w⟩ := p
    rw [FieldsDenote] at h
    obtain ⟨y, ys, rfl, hy, hys⟩ := h
    rw [OrdMap.set, OrdMap.set]
    split_ifs with hk
    · rw [FieldsDenote]
      exact ⟨x, ys, rfl, hv, hys⟩
    · rw [FieldsDenote]
      exact ⟨y, _, rfl, hy, ih hys⟩

end Denotes

/-! ## The write -/

/-- A write changes the object it is to, and no other. -/
theorem getElem?_writeField {heap : Heap} {address : Nat} {fields : List (String × HeapValue)}
    {proto : HeapValue} (hcell : heap[address]? = some (.object fields proto)) (key : String)
    (x : HeapValue) (a : Nat) :
    (heap.writeField address key x)[a]? =
      if a = address then some (Heap.written fields proto key x) else heap[a]? := by
  have hlt := (List.getElem?_eq_some_iff.mp hcell).1
  rw [Heap.writeField, hcell]
  rw [List.getElem?_set]
  by_cases h : address = a
  · rw [if_pos h, if_pos (h ▸ hlt), if_pos h.symm]
  · rw [if_neg h, if_neg (Ne.symm h)]

theorem length_writeField (heap : Heap) (address : Nat) (key : String) (x : HeapValue) :
    (heap.writeField address key x).length = heap.length := by
  rw [Heap.writeField]
  split
  · exact List.length_set
  · rfl

variable {v : Value} {fields : List (String × Value)} {x : HeapValue}

/-- A write to an object with these fields makes what one turn of `setSegments` does. -/
theorem written_denotes {heap : Heap} {xs : List (String × HeapValue)}
    (hfields : FieldsDenote heap fields xs) (hv : Denotes heap v x) (proto : HeapValue)
    (key : String) :
    ∃ ys proto', Heap.written xs proto key x = .object ys proto' ∧
      FieldsDenote heap (if writesPrototype key fields then fields else OrdMap.set key v fields) ys := by
  have hsame : (key = "__proto__" ∧ (OrdMap.get? key xs).isNone) ↔ writesPrototype key fields := by
    rw [writesPrototype, Bool.and_eq_true, decide_eq_true_eq]
    rcases hfields.get? key with ⟨h, h'⟩ | ⟨w, y, h, h', -⟩
    · simp [h, h']
    · simp [h, h']
  unfold Heap.written
  by_cases hproto : writesPrototype key fields
  · rw [if_pos (hsame.mpr hproto), if_pos hproto]
    cases x with
    | undefined | bool _ | num _ | str _ => exact ⟨xs, proto, rfl, hfields⟩
    | null => exact ⟨xs, .null, rfl, hfields⟩
    | method name => exact ⟨xs, .method name, rfl, hfields⟩
    | ref a => exact ⟨xs, .ref a, rfl, hfields⟩
  · rw [if_neg fun h ↦ hproto (hsame.mp h), if_neg hproto]
    exact ⟨_, proto, rfl, hfields.set hv key⟩

/-- What a copied object holds under a name, copied: the fields of the object that is there. -/
theorem existing_denotes {old heap : Heap} (hold : old.Extends heap)
    (hroot : old[Heap.prototypeAddress]? = some .objectPrototype) {cursor : Nat}
    {xs : List (String × HeapValue)} (hcell : heap[cursor]? = some (Heap.copyOf xs))
    (hfields : FieldsDenote old fields xs) (key : String) :
    FieldsDenote old
      (match OrdMap.get? key fields with
        | some (.obj inner) => inner
        | _ => [])
      (if heap.isPlainObject (heap.readField cursor key) then
        heap.spread (heap.readField cursor key) else []) := by
  have hnil : FieldsDenote old [] [] := by rw [FieldsDenote]
  have hproto := hold _ _ hroot
  have hread : heap.readField cursor key =
      match OrdMap.get? key xs with
      | some x => x
      | none => if key = "__proto__" then .ref Heap.prototypeAddress
        else if Heap.methods.contains key then .method key else .undefined := by
    rw [Heap.readField, hcell]
    rfl
  rw [hread]
  rcases hfields.get? key with ⟨hv, hx⟩ | ⟨v, x, hv, hx, hden⟩
  · rw [hv, hx]
    split_ifs
    · simpa [Heap.spread, hproto] using hnil
    all_goals exact hnil
  · rw [hv, hx]
    cases v with
    | obj inner =>
      rw [Denotes] at hden
      obtain ⟨a, ys, proto, rfl, ha, hys⟩ := hden
      have ha' := hold _ _ ha
      rw [Heap.isPlainObject, ha']
      simpa [Heap.spread, ha'] using hys
    | arr items =>
      rw [Denotes] at hden
      obtain ⟨a, ys, rfl, ha, -⟩ := hden
      simpa [Heap.isPlainObject, hold _ _ ha] using hnil
    | undefined | null | bool _ | num _ | str _ =>
      rw [Denotes] at hden
      subst hden
      simpa [Heap.isPlainObject] using hnil

/-- The loop writes what `setSegments` says into the copy it starts at, and changes no other object. -/
theorem setPathLoop_refines {old : Heap}
    (hroot : old[Heap.prototypeAddress]? = some .objectPrototype) (hv : Denotes old v x)
    (segments : List String) :
    ∀ {heap : Heap} {cursor : Nat} {fields : List (String × Value)} {xs : List (String × HeapValue)},
      old.Extends heap → old.length ≤ cursor → heap[cursor]? = some (Heap.copyOf xs) →
      FieldsDenote old fields xs →
      ∃ ys proto, (setPathLoop segments cursor x heap)[cursor]? = some (.object ys proto) ∧
        FieldsDenote (setPathLoop segments cursor x heap) (setSegments segments v fields) ys ∧
        (∀ a, a ≠ cursor → a < heap.length →
          (setPathLoop segments cursor x heap)[a]? = heap[a]?) := by
  induction segments with
  | nil =>
    intro heap cursor fields xs hold hcursor hcell hfields
    rw [setPathLoop, setSegments]
    exact ⟨xs, _, hcell, FieldsDenote.mono hold _ _ hfields, fun _ _ _ ↦ rfl⟩
  | cons segment rest ih =>
    intro heap cursor fields xs hold hcursor hcell hfields
    have hlt := (List.getElem?_eq_some_iff.mp hcell).1
    cases rest with
    | nil =>
      obtain ⟨ys, proto, hwritten, hys⟩ :=
        written_denotes hfields hv (.ref Heap.prototypeAddress) segment
      have hget := getElem?_writeField hcell segment x
      rw [setPathLoop, setSegments]
      have hext : old.Extends (heap.writeField cursor segment x) := by
        intro a c ha
        have hne : a ≠ cursor := by
          have := (List.getElem?_eq_some_iff.mp ha).1
          omega
        rw [hget, if_neg hne, hold a c ha]
      refine ⟨ys, proto, by rw [hget, if_pos rfl, hwritten], FieldsDenote.mono hext _ _ hys, ?_⟩
      intro a hne _
      rw [hget, if_neg hne]
    | cons segment' rest =>
      set existing := heap.readField cursor segment
      set inner := if heap.isPlainObject existing then heap.spread existing else [] with hinner
      have hden := existing_denotes hold hroot hcell hfields segment
      -- The heap with the copy of what is there, and the copy hung into the cursor.
      have hcell' : (heap ++ [Heap.copyOf inner])[cursor]? = some (Heap.copyOf xs) := by
        rw [List.getElem?_append_left hlt, hcell]
      have hget := getElem?_writeField hcell' segment (.ref heap.length)
      set heap' := Heap.writeField (heap ++ [Heap.copyOf inner]) cursor segment (.ref heap.length)
        with hheap'
      have hlen : heap'.length = heap.length + 1 := by
        rw [hheap', length_writeField, List.length_append, List.length_singleton]
      have hext : old.Extends heap' := by
        intro a c ha
        have hbound := (List.getElem?_eq_some_iff.mp (hold a c ha)).1
        have hne : a ≠ cursor := by
          have := (List.getElem?_eq_some_iff.mp ha).1
          omega
        rw [hget, if_neg hne, List.getElem?_append_left hbound, hold a c ha]
      have hcopy : heap'[heap.length]? = some (Heap.copyOf inner) := by
        rw [hget, if_neg (by omega), List.getElem?_concat_length]
      obtain ⟨ys, proto, hys, hysden, hframe⟩ := ih hext (by omega) hcopy hden
      have hturn : setPathLoop (segment :: segment' :: rest) cursor x heap =
          setPathLoop (segment' :: rest) heap.length x heap' := rfl
      rw [hturn]
      set result := setPathLoop (segment' :: rest) heap.length x heap' with hresult
      have hframe' : ∀ a, a ≠ cursor → a < heap.length → result[a]? = heap[a]? := by
        intro a hne ha
        rw [hframe a (by omega) (by omega), hget, if_neg hne, List.getElem?_append_left ha]
      have hext' : old.Extends result := by
        intro a c ha
        have hbound := (List.getElem?_eq_some_iff.mp ha).1
        rw [hframe' a (by omega) (by omega), hold a c ha]
      have hlink : Denotes result
          (.obj (setSegments (segment' :: rest) v
            (match OrdMap.get? segment fields with
              | some (.obj inner) => inner
              | _ => [])))
          (.ref heap.length) := by
        rw [Denotes]
        exact ⟨heap.length, ys, proto, rfl, hys, hysden⟩
      obtain ⟨zs, proto', hwritten, hzs⟩ := written_denotes (FieldsDenote.mono hext' _ _ hfields)
        hlink (.ref Heap.prototypeAddress) segment
      refine ⟨zs, proto', ?_, ?_, hframe'⟩
      · rw [hframe cursor (by omega) (by omega), hget, if_pos rfl, hwritten]
      · exact hzs

/-- **`setPath` makes what the values say, out of copies.**  On any heap, whatever is shared in it, it
refuses what the other one refuses; otherwise the result is a new object, of the value the other one
makes, and every object there was is what it was. -/
theorem setPathOn_refines {heap : Heap}
    (hroot : heap[Heap.prototypeAddress]? = some .objectPrototype) {base : HeapValue}
    (hbase : Denotes heap (.obj fields) base) (hv : Denotes heap v x) (name : String) :
    match setPath fields name v with
    | .error e => setPathOn base name x heap = .error e
    | .ok fields' => ∃ heap', setPathOn base name x heap = .ok (heap.length, heap') ∧
        heap.Extends heap' ∧ Denotes heap' (.obj fields') (.ref heap.length) := by
  rw [setPath, setPathOn]
  cases hfind : (name.splitOn ".").find? fun s ↦ s.isEmpty || isDigitsOnlySegment s with
  | some segment =>
    dsimp only
    by_cases hempty : segment.isEmpty
    · rw [if_pos hempty, if_pos hempty]
    · rw [if_neg hempty, if_neg hempty]
  | none =>
    rw [Denotes] at hbase
    obtain ⟨a, xs, proto, rfl, ha, hxs⟩ := hbase
    have hspread : heap.spread (.ref a) = xs := by rw [Heap.spread, ha]
    rw [hspread]
    obtain ⟨ys, proto', hys, hden, hframe⟩ := setPathLoop_refines hroot hv (name.splitOn ".")
      (heap.extends_append [Heap.copyOf xs]) (le_rfl) List.getElem?_concat_length hxs
    refine ⟨_, rfl, fun b c hb ↦ ?_, ?_⟩
    · have hlt := (List.getElem?_eq_some_iff.mp hb).1
      rw [hframe b (by omega) (by rw [List.length_append]; omega),
        heap.extends_append _ b c hb]
    · rw [Denotes]
      exact ⟨heap.length, ys, proto', rfl, hys, hden⟩

end Enkaku
