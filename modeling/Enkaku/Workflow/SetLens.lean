import Enkaku.Workflow.SetHeap
import Enkaku.Workflow.SetRoundTrip

/-!
# `setPath` as a lens

What is written at a name is read back there by `resolvePath`, every path beside it reads as before,
and a second write at a name makes the first one unseen — all of it except for `__proto__`.  A segment
of that name, where the object has no field of its own that is called so, writes the prototype, which
no path reads (`touchesPrototype`).

The laws are shown of `setSegments` first, and carried over to objects that are shared by
`setPathOn_refines`.
-/

set_option autoImplicit false

namespace Enkaku

/-! ## The laws, of values -/

/-- On its way down a name, a write meets the prototype. -/
def touchesPrototype : List String → List (String × Value) → Bool
  | [], _ => false
  | segment :: rest, fields =>
    writesPrototype segment fields || touchesPrototype rest (innerFields (OrdMap.get? segment fields))

section Laws

variable {segment : String} {rest : List String} {u v : Value} {fields : List (String × Value)}

theorem setSegments_proto (h : writesPrototype segment fields) :
    setSegments (segment :: rest) v fields = fields := by
  cases rest with
  | nil => rw [setSegments, if_pos h]
  | cons next rest =>
    rw [setSegments, if_pos h]
    simp

/-- What a write puts under the first segment of a name. -/
def writtenBelow (rest : List String) (v : Value) (existing : Option Value) : Value :=
  if rest = [] then v else .obj (setSegments rest v (innerFields existing))

theorem setSegments_set (h : writesPrototype segment fields = false) :
    setSegments (segment :: rest) v fields =
      OrdMap.set segment (writtenBelow rest v (OrdMap.get? segment fields)) fields := by
  cases rest with
  | nil => rw [setSegments, h, if_neg Bool.false_ne_true, writtenBelow, if_pos rfl]
  | cons next rest =>
    rw [setSegments, h, if_neg Bool.false_ne_true, writtenBelow, if_neg (List.cons_ne_nil _ _)]
    · cases OrdMap.get? segment fields with
      | none => rfl
      | some w => cases w <;> rfl
    · simp

theorem get?_of_writesPrototype (h : writesPrototype segment fields) :
    OrdMap.get? segment fields = none := by
  rw [writesPrototype, Bool.and_eq_true] at h
  exact Option.isNone_iff_eq_none.mp h.2

theorem writesPrototype_set (w : Value) : writesPrototype segment (OrdMap.set segment w fields) = false := by
  simp [writesPrototype]

theorem resolveSegments_obj : resolveSegments (.obj fields) (segment :: rest) =
    (OrdMap.get? segment fields).bind fun v ↦ resolveSegments v rest := by
  rw [resolveSegments]

/-- What is written is read back, unless the write met the prototype. -/
theorem resolveSegments_setSegments {segments : List String} (hne : segments ≠ []) :
    resolveSegments (.obj (setSegments segments v fields)) segments =
      if touchesPrototype segments fields then none else some v := by
  induction segments generalizing fields with
  | nil => exact absurd rfl hne
  | cons segment rest ih =>
    rw [touchesPrototype, resolveSegments_obj]
    cases hproto : writesPrototype segment fields with
    | true => rw [setSegments_proto hproto, get?_of_writesPrototype hproto, Bool.true_or]; rfl
    | false =>
      rw [setSegments_set hproto, OrdMap.get?_set_self, Bool.false_or, Option.bind_some, writtenBelow]
      by_cases hrest : rest = []
      · subst hrest
        rw [if_pos rfl, resolveSegments, touchesPrototype, if_neg Bool.false_ne_true]
      · rw [if_neg hrest, ih hrest]

/-- Nothing but an object stands on the way of a name. -/
def ClearWay (segments : List String) (fields : List (String × Value)) : Prop :=
  ∀ way, way <+: segments → way ≠ segments →
    ∀ w, resolveSegments (.obj fields) way = some w → ∃ inner, w = .obj inner

/-- One of two paths goes on where the other ends. -/
def Comparable (path path' : List String) : Prop := path <+: path' ∨ path' <+: path

theorem resolveSegments_nil_obj {path : List String} (h : path ≠ []) :
    resolveSegments (.obj []) path = none := by
  obtain ⟨segment, rest, rfl⟩ := List.exists_cons_of_ne_nil h
  rw [resolveSegments_obj, OrdMap.get?_nil]
  rfl

/-- A path beside the name reads as before. -/
theorem resolveSegments_beside {segments path : List String} (hway : ClearWay segments fields)
    (hbeside : ¬ Comparable path segments) :
    resolveSegments (.obj (setSegments segments v fields)) path = resolveSegments (.obj fields) path := by
  induction segments generalizing path fields with
  | nil => exact absurd (.inr (List.nil_prefix)) hbeside
  | cons segment rest ih =>
    cases path with
    | nil => exact absurd (.inl List.nil_prefix) hbeside
    | cons step path =>
      rw [resolveSegments_obj, resolveSegments_obj]
      cases hproto : writesPrototype segment fields with
      | true => rw [setSegments_proto hproto]
      | false =>
        rw [setSegments_set hproto]
        by_cases hstep : segment = step
        · subst hstep
          have hbeside' : ¬ Comparable path rest := fun h ↦ hbeside
            (h.imp (List.prefix_cons_inj _).mpr (List.prefix_cons_inj _).mpr)
          have hpath : path ≠ [] := by
            rintro rfl
            exact hbeside' (.inl List.nil_prefix)
          have hrest : rest ≠ [] := by
            rintro rfl
            exact hbeside' (.inr List.nil_prefix)
          rw [OrdMap.get?_set_self, Option.bind_some, writtenBelow, if_neg hrest]
          cases hget : OrdMap.get? segment fields with
          | none =>
            have hclear : ClearWay rest [] := by
              intro way hfront _ w hw
              cases way with
              | nil =>
                rw [resolveSegments] at hw
                exact ⟨[], (Option.some.inj hw).symm⟩
              | cons x way =>
                rw [resolveSegments_nil_obj (List.cons_ne_nil x way)] at hw
                exact nomatch hw
            have hsame := ih hclear hbeside'
            rw [resolveSegments_nil_obj hpath] at hsame
            exact hsame
          | some w =>
            obtain ⟨inner, rfl⟩ := hway [segment] (by simp) (by simpa using Ne.symm hrest) w (by
              rw [resolveSegments_obj, hget, Option.bind_some, resolveSegments])
            refine ih ?_ hbeside'
            intro way hfront hne w' hw'
            refine hway (segment :: way) ((List.prefix_cons_inj _).mpr hfront)
              (fun h ↦ hne (List.cons.inj h).2) w' ?_
            rw [resolveSegments_obj, hget]
            exact hw'
        · rw [OrdMap.get?_set_of_ne hstep]

/-- A second write at a name makes the first one unseen. -/
theorem setSegments_setSegments (segments : List String) :
    setSegments segments v (setSegments segments u fields) = setSegments segments v fields := by
  induction segments generalizing fields with
  | nil => rfl
  | cons segment rest ih =>
    cases hproto : writesPrototype segment fields with
    | true => rw [setSegments_proto hproto, setSegments_proto hproto]
    | false =>
      rw [setSegments_set (v := u) hproto, setSegments_set (writesPrototype_set _),
        setSegments_set (v := v) hproto, OrdMap.get?_set_self, OrdMap.set_set]
      by_cases hrest : rest = []
      · simp only [writtenBelow, if_pos hrest]
      · simp only [writtenBelow, if_neg hrest]
        exact congrArg (fun inner ↦ OrdMap.set segment (.obj inner) fields) ih

end Laws

/-! ## The laws, of shared objects -/

/-- The segments of a path; the empty path has none. -/
def pathSegments (path : String) : List String := if path.isEmpty then [] else path.splitOn "."

theorem resolvePath_some (v : Value) (path : String) :
    resolvePath v (some path) = resolveSegments v (pathSegments path) := by
  rw [resolvePath, pathSegments]
  split_ifs with h
  · rw [resolveSegments]
  · rfl

/-- What `setPath(base, name, x)` has to be for `setPath` to be a lens: `base` and all it is made of
are unchanged, `name` reads as `x`, every path beside it as before, and it makes no difference what
had been written at `name` first. -/
structure IsLensWrite (heap : Heap) (base : HeapValue) (fields : List (String × Value)) (name : String)
    (x : HeapValue) (v : Value) (root : Nat) (heap' : Heap) : Prop where
  unchanged : heap.Extends heap' ∧ Denotes heap' (.obj fields) base
  result : ∃ result, Denotes heap' (.obj result) (.ref root)
  get : ∀ result, Denotes heap' (.obj result) (.ref root) → resolvePath (.obj result) (some name) = some v
  beside : ∀ result, Denotes heap' (.obj result) (.ref root) → ∀ path,
    ClearWay (pathSegments name) fields → ¬ Comparable (pathSegments path) (pathSegments name) →
      resolvePath (.obj result) (some path) = resolvePath (.obj fields) (some path)
  again : ∀ y u, Denotes heap u y → ∃ first heap₁ second heap₂ result,
    setPathOn base name y heap = .ok (first, heap₁) ∧
      setPathOn (.ref first) name x heap₁ = .ok (second, heap₂) ∧
      Denotes heap₂ (.obj result) (.ref second) ∧ Denotes heap' (.obj result) (.ref root)

/-- A name that is accepted: the segments it is split into, and what it is written as. -/
theorem setPath_of_setPathOn {heap heap' : Heap}
    (hroot : heap[Heap.prototypeAddress]? = some .objectPrototype) {base x : HeapValue}
    {fields : List (String × Value)} (hbase : Denotes heap (.obj fields) base) {v : Value}
    (hv : Denotes heap v x) {name : String} {root : Nat}
    (h : setPathOn base name x heap = .ok (root, heap')) :
    (∀ (fields : List (String × Value)) (v : Value),
      setPath fields name v = .ok (setSegments (pathSegments name) v fields)) ∧
      pathSegments name ≠ [] ∧ heap.Extends heap' ∧
      Denotes heap' (.obj (setSegments (pathSegments name) v fields)) (.ref root) := by
  have hrefines := setPathOn_refines hroot hbase hv name
  have hfind : (name.splitOn ".").find? (fun s ↦ s.isEmpty || isDigitsOnlySegment s) = none := by
    cases hfind : (name.splitOn ".").find? fun s ↦ s.isEmpty || isDigitsOnlySegment s with
    | none => rfl
    | some segment =>
      rw [setPathOn, hfind] at h
      dsimp only at h
      split_ifs at h
  have hname : pathSegments name = name.splitOn "." := by
    rw [pathSegments, if_neg]
    intro hempty
    have hnil : name = "" := by simpa using hempty
    have hsplit : "".splitOn "." = [""] := SplitOn.splitOn_eq "" '.'
    rw [hnil, hsplit] at hfind
    cases hfind
  have hset : ∀ (fields : List (String × Value)) (v : Value),
      setPath fields name v = .ok (setSegments (pathSegments name) v fields) := by
    intro fields v
    rw [setPath, hfind, hname]
  rw [hset] at hrefines
  obtain ⟨heap'', hok, hext, hden⟩ := hrefines
  cases h.symm.trans hok
  refine ⟨hset, ?_, hext, hden⟩
  rw [hname]
  exact SplitOn.splitOn_ne_nil name '.'

/-- **`setPath` is a lens exactly where it does not meet the prototype.**  On any heap of objects, for
every name it accepts and every value: the laws hold if and only if no segment of the name is
`__proto__` where the object has no field of its own of that name. -/
theorem setPathOn_lens_iff {heap heap' : Heap}
    (hroot : heap[Heap.prototypeAddress]? = some .objectPrototype) {base x : HeapValue}
    {fields : List (String × Value)} (hbase : Denotes heap (.obj fields) base) {v : Value}
    (hv : Denotes heap v x) {name : String} {root : Nat}
    (h : setPathOn base name x heap = .ok (root, heap')) :
    IsLensWrite heap base fields name x v root heap' ↔
      touchesPrototype (pathSegments name) fields = false := by
  obtain ⟨hset, hne, hext, hden⟩ := setPath_of_setPathOn hroot hbase hv h
  have hread : resolvePath (.obj (setSegments (pathSegments name) v fields)) (some name) =
      if touchesPrototype (pathSegments name) fields then none else some v := by
    rw [resolvePath_some, resolveSegments_setSegments hne]
  constructor
  · intro hlens
    have hget := hlens.get _ hden
    rw [hread] at hget
    by_contra htouch
    rw [Bool.not_eq_false] at htouch
    rw [if_pos htouch] at hget
    exact nomatch hget
  · intro htouch
    have honly : ∀ result, Denotes heap' (.obj result) (.ref root) →
        result = setSegments (pathSegments name) v fields := fun result hresult ↦
      Value.obj.inj (Denotes.unique _ _ _ hresult hden)
    refine ⟨⟨hext, Denotes.mono hext _ _ hbase⟩, ⟨_, hden⟩, fun result hresult ↦ ?_,
      fun result hresult path hway hbeside ↦ ?_, fun y u hu ↦ ?_⟩
    · rw [honly result hresult, hread, if_neg (by simp [htouch])]
    · rw [honly result hresult, resolvePath_some, resolvePath_some]
      exact resolveSegments_beside hway hbeside
    · have hfirst := setPathOn_refines hroot hbase hu name
      rw [hset] at hfirst
      obtain ⟨heap₁, hok₁, hext₁, hden₁⟩ := hfirst
      have hsecond := setPathOn_refines (hext₁ _ _ hroot) hden₁ (Denotes.mono hext₁ _ _ hv) name
      rw [hset, setSegments_setSegments] at hsecond
      obtain ⟨heap₂, hok₂, -, hden₂⟩ := hsecond
      exact ⟨_, heap₁, _, heap₂, _, hok₁, hok₂, hden₂, hden⟩

/-- A heap with an object `{ a: { b: 1 } }` at address 2. -/
def lensHeap : Heap :=
  [.objectPrototype, .object [("b", .num 1)] (.ref 0), .object [("a", .ref 1)] (.ref 0)]

theorem lensHeap_denotes : Denotes lensHeap (.obj [("a", .obj [("b", .num 1)])]) (.ref 2) := by
  simp [Denotes, FieldsDenote, lensHeap]

theorem setPathOn_lens_iff_nested :
    IsLensWrite lensHeap (.ref 2) [("a", .obj [("b", .num 1)])] "a.c" (.num 2) (.num 2) 3
        [.objectPrototype, .object [("b", .num 1)] (.ref 0), .object [("a", .ref 1)] (.ref 0),
          .object [("a", .ref 4)] (.ref 0), .object [("b", .num 1), ("c", .num 2)] (.ref 0)] ↔
      touchesPrototype (pathSegments "a.c") [("a", .obj [("b", .num 1)])] = false :=
  have hsplit : "a.c".splitOn "." = ["a", "c"] := SplitOn.splitOn_eq "a.c" '.'
  setPathOn_lens_iff rfl lensHeap_denotes (by rw [Denotes]) (by rw [setPathOn, hsplit]; decide +kernel)

/-- `setPath({}, '__proto__', 1)` is `{}`: what was written is not read back. -/
theorem setPathOn_proto_lost :
    ∃ heap', setPathOn (.ref 1) "__proto__" (.num 1) [.objectPrototype, .object [] (.ref 0)] =
        .ok (2, heap') ∧ Denotes heap' (.obj []) (.ref 2) ∧
      resolvePath (.obj []) (some "__proto__") ≠ some (.num 1) := by
  have hsplit : "__proto__".splitOn "." = ["__proto__"] := SplitOn.splitOn_eq "__proto__" '.'
  refine ⟨[.objectPrototype, .object [] (.ref 0), .object [] (.ref 0)], ?_,
    by simp [Denotes, FieldsDenote], ?_⟩
  · rw [setPathOn, hsplit]
    decide +kernel
  · rw [resolvePath_some, pathSegments, hsplit]
    decide +kernel

end Enkaku
