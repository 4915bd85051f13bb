import Enkaku.Lib.Throwing
import Enkaku.Workflow.SetCodec

/-!
# The JSON of a `set` node: when it reads back

Assignments that `assignmentsToJson` writes come back from `jsonToAssignments` exactly when they are
`Faithful`: no constant has an object in it, no literal string has a template marker (unless it is
escaped), no expression starts with `=`, no name writes a prototype, and no name goes through the
field another one writes.

The document of such assignments is a tree whose leaves are the assignments (`Value.leaves`), and
reading it back lists the leaves (`jsonToAssignments_stringify`).
-/

set_option autoImplicit false

namespace Enkaku

open List

open JsonLeaf ValueExpr

/-! ## Paths -/

/-- Neither path begins with the other. -/
def Apart (p q : List String) : Prop := ¬ p <+: q ∧ ¬ q <+: p

theorem Apart.symm {p q : List String} (h : Apart p q) : Apart q p := ⟨h.2, h.1⟩

variable {s : String}

theorem Apart.of_cons {p q : List String} (h : Apart (s :: p) (s :: q)) : Apart p q :=
  ⟨fun hp ↦ h.1 (cons_prefix_cons.mpr ⟨rfl, hp⟩), fun hq ↦ h.2 (cons_prefix_cons.mpr ⟨rfl, hq⟩)⟩

theorem apart_cons_iff {t : String} {p q : List String} :
    Apart (s :: p) (t :: q) ↔ s ≠ t ∨ Apart p q := by
  by_cases h : s = t
  · subst h
    simp [Apart]
  · simp [Apart, h, Ne.symm h]

/-! ## Leaves -/

namespace Value

mutual

/-- The leaves of a document, with the path to each. -/
def leaves : Value → List (List String × Value)
  | .obj fields => fieldLeaves fields
  | v => [([], v)]

def fieldLeaves : List (String × Value) → List (List String × Value)
  | [] => []
  | (key, value) :: fields =>
    (leaves value).map (fun l ↦ (key :: l.1, l.2)) ++ fieldLeaves fields

end

theorem fieldLeaves_append (fields fields' : List (String × Value)) :
    fieldLeaves (fields ++ fields') = fieldLeaves fields ++ fieldLeaves fields' := by
  induction fields with
  | nil => rfl
  | cons p fields ih => rw [cons_append, fieldLeaves, fieldLeaves, ih, append_assoc]

theorem leaves_flat {v : Value} (h : v.isFlat) : v.leaves = [([], v)] := by
  cases v with
  | obj fields => simp [isFlat] at h
  | _ => simp [leaves]

theorem leaves_obj (fields : List (String × Value)) :
    (Value.obj fields).leaves = fieldLeaves fields := by
  rw [leaves]

theorem mem_fieldLeaves_iff {fields : List (String × Value)} {l : List String × Value} :
    l ∈ fieldLeaves fields ↔ ∃ p ∈ fields, ∃ l' ∈ p.2.leaves, l = (p.1 :: l'.1, l'.2) := by
  induction fields with
  | nil => simp [fieldLeaves]
  | cons p fields ih =>
    obtain ⟨key, value⟩ := p
    simp only [fieldLeaves, mem_append, ih, mem_map, exists_mem_cons_iff, eq_comm]

theorem fieldLeaves_mem {key : String} {value : Value} {fields : List (String × Value)}
    (h : (key, value) ∈ fields) {l : List String × Value} (hl : l ∈ value.leaves) :
    (key :: l.1, l.2) ∈ fieldLeaves fields := by
  exact mem_fieldLeaves_iff.mpr ⟨_, h, l, hl, rfl⟩

end Value

/-- The fields an existing value brings to a write below it. -/
def innerFields : Option Value → List (String × Value)
  | some (.obj inner) => inner
  | _ => []

variable {fields : List (String × Value)} {value : Value}

theorem setSegments_cons {segment next : String} {rest : List String} (h : segment ≠ "__proto__") :
    setSegments (segment :: next :: rest) value fields = OrdMap.set segment
      (.obj (setSegments (next :: rest) value (innerFields (OrdMap.get? segment fields)))) fields := by
  have hproto : writesPrototype segment fields = false := by simp [writesPrototype, h]
  rw [setSegments, hproto, if_neg Bool.false_ne_true]
  · cases OrdMap.get? segment fields with
    | none => rfl
    | some w => cases w <;> rfl
  · simp

/-- Writing at a key trades the leaves below it for those of the new value. -/
theorem fieldLeaves_set (value : Value) {key : String} {old : List (List String × Value)}
    (hold : ∀ w, OrdMap.get? key fields = some w → w.leaves = old)
    (hnone : OrdMap.get? key fields = none → old = []) :
    ∃ rest, (Value.fieldLeaves fields).Perm (old.map (fun l ↦ (key :: l.1, l.2)) ++ rest) ∧
      (Value.fieldLeaves (OrdMap.set key value fields)).Perm
        (value.leaves.map (fun l ↦ (key :: l.1, l.2)) ++ rest) := by
  rcases OrdMap.set_cases key value fields with ⟨hget, hset⟩ | ⟨l, w, r, hfields, hget, hset⟩
  · refine ⟨Value.fieldLeaves fields, ?_, ?_⟩
    · rw [hnone hget]
      exact .refl _
    · rw [hset, Value.fieldLeaves_append, Value.fieldLeaves, Value.fieldLeaves, append_nil]
      exact perm_append_comm
  · refine ⟨Value.fieldLeaves l ++ Value.fieldLeaves r, ?_, ?_⟩
    · rw [← hold w hget, hfields, Value.fieldLeaves_append, Value.fieldLeaves]
      exact perm_append_comm_assoc _ _ _
    · rw [hset, Value.fieldLeaves_append, Value.fieldLeaves]
      exact perm_append_comm_assoc _ _ _

/-- **A write adds its leaf.**  A value written at a path that is apart from all there are is one
more leaf, and no other changes. -/
theorem perm_setSegments (hflat : value.isFlat) :
    ∀ {path : List String} {fields : List (String × Value)}, path ≠ [] → "__proto__" ∉ path →
    (∀ l ∈ Value.fieldLeaves fields, Apart path l.1) →
    (Value.fieldLeaves (setSegments path value fields)).Perm
      ((path, value) :: Value.fieldLeaves fields)
  | [], _, hne, _, _ => absurd rfl hne
  | [segment], fields, _, hproto, hapart => by
    have hwrites : writesPrototype segment fields = false := by
      simp [writesPrototype, Ne.symm (mem_singleton.not.mp hproto)]
    -- an object the write replaces has no leaves: they would be below the path
    have hold : ∀ w, OrdMap.get? segment fields = some w → w.leaves = [] := by
      intro w hw
      refine eq_nil_iff_forall_not_mem.mpr fun l hl ↦ ?_
      have h := hapart _ (Value.fieldLeaves_mem (OrdMap.mem_of_get? hw) hl)
      exact h.1 (cons_prefix_cons.mpr ⟨rfl, List.nil_prefix⟩)
    obtain ⟨rest, hbefore, hafter⟩ := fieldLeaves_set value hold fun _ ↦ rfl
    rw [setSegments, hwrites, if_neg Bool.false_ne_true]
    rw [Value.leaves_flat hflat] at hafter
    exact hafter.trans (hbefore.symm.cons _)
  | segment :: next :: rest, fields, _, hproto, hapart => by
    rw [mem_cons, not_or] at hproto
    -- a leaf where the path goes on would begin it
    have hold : ∀ w, OrdMap.get? segment fields = some w →
        w.leaves = Value.fieldLeaves (innerFields (OrdMap.get? segment fields)) := by
      intro w hw
      have hleaf : w.leaves = [([], w)] → False := by
        intro hleaves
        have h := hapart _ (Value.fieldLeaves_mem (OrdMap.mem_of_get? hw)
          (hleaves ▸ (.head _) : ([], w) ∈ w.leaves))
        exact h.2 (cons_prefix_cons.mpr ⟨rfl, List.nil_prefix⟩)
      rw [hw]
      cases w with
      | obj inner => exact Value.leaves_obj inner
      | _ => exact (hleaf (by simp [Value.leaves])).elim
    have hinner : ∀ l ∈ Value.fieldLeaves (innerFields (OrdMap.get? segment fields)),
        Apart (next :: rest) l.1 := by
      intro l hl
      cases hw : OrdMap.get? segment fields with
      | none =>
        rw [hw] at hl
        exact nomatch hl
      | some w =>
        rw [← hold w hw] at hl
        exact (hapart _ (Value.fieldLeaves_mem (OrdMap.mem_of_get? hw) hl)).of_cons
    have ih := perm_setSegments hflat (cons_ne_nil next rest) hproto.2 hinner
    have hnone : OrdMap.get? segment fields = none →
        Value.fieldLeaves (innerFields (OrdMap.get? segment fields)) = [] := by
      intro hget
      rw [hget]
      rfl
    obtain ⟨others, hbefore, hafter⟩ := fieldLeaves_set (.obj (setSegments (next :: rest) value
      (innerFields (OrdMap.get? segment fields)))) hold hnone
    rw [Value.leaves_obj] at hafter
    rw [setSegments_cons (Ne.symm hproto.1)]
    refine hafter.trans (((ih.map _).append_right others).trans ?_)
    rw [map_cons, cons_append]
    exact hbefore.symm.cons _

/-! ## The tree of a document -/

/-- A key that a name can have written: it holds no dot, does not read as an index and is not the
prototype. -/
def IsFieldKey (key : String) : Prop :=
  '.' ∉ key.toList ∧ isDigitsOnlySegment key = false ∧ key ≠ "__proto__"

variable {P : ℚ → Prop} {K : String → Prop}

theorem fieldsTree_iff : Value.FieldsTree P K fields ↔ ∀ p ∈ fields, K p.1 ∧ p.2.IsTree P K := by
  induction fields with
  | nil => simp [Value.FieldsTree]
  | cons p fields ih =>
    obtain ⟨key, value⟩ := p
    rw [Value.FieldsTree, ih, forall_mem_cons, and_assoc]

variable {v : Value}

theorem isTree_flat (h : v.isFlat) : v.IsTree P K ↔ v.Numbers P := by
  cases v with
  | obj fields => simp [Value.isFlat] at h
  | _ => simp [Value.IsTree, h]

theorem isTree_obj :
    (Value.obj fields).IsTree P K ↔
      (fields.map (·.1)).Nodup ∧ ∀ p ∈ fields, K p.1 ∧ p.2.IsTree P K := by
  rw [Value.IsTree, fieldsTree_iff]

/-- Setting a key of a tree to a tree. -/
theorem isTree_set (h : (Value.obj fields).IsTree P K) {key : String} (hkey : K key)
    (hvalue : value.IsTree P K) : (Value.obj (OrdMap.set key value fields)).IsTree P K := by
  rw [isTree_obj] at h ⊢
  obtain ⟨hnodup, hfields⟩ := h
  rcases OrdMap.set_cases key value fields with ⟨hget, hset⟩ | ⟨l, w, r, rfl, -, hset⟩
  · have hnew := OrdMap.get?_eq_none_iff.mp hget
    rw [hset, map_append]
    refine ⟨?_, ?_⟩
    · refine nodup_append.mpr ⟨hnodup, pairwise_singleton _ key, ?_⟩
      intro k hk k' hk' heq
      obtain rfl := mem_singleton.mp hk'
      exact hnew (heq ▸ hk)
    · intro p hp
      rcases mem_append.mp hp with hp | hp
      · exact hfields p hp
      · rw [mem_singleton.mp hp]
        exact ⟨hkey, hvalue⟩
  · rw [hset]
    refine ⟨by simpa using hnodup, ?_⟩
    intro p hp
    rcases mem_append.mp hp with hp | hp
    · exact hfields p (mem_append_left _ hp)
    · rcases mem_cons.mp hp with rfl | hp
      · exact ⟨hkey, hvalue⟩
      · exact hfields p (mem_append_right _ (.tail _ hp))

/-- A write keeps a tree a tree. -/
theorem isTree_setSegments (hvalue : value.IsTree P IsFieldKey) :
    ∀ {path : List String} {fields : List (String × Value)},
    (∀ s ∈ path, '.' ∉ s.toList ∧ isDigitsOnlySegment s = false) →
    (Value.obj fields).IsTree P IsFieldKey →
    (Value.obj (setSegments path value fields)).IsTree P IsFieldKey := by
  -- in a tree no object has a property of its own called `__proto__`
  have hproto : ∀ {fields : List (String × Value)}, (Value.obj fields).IsTree P IsFieldKey →
      writesPrototype "__proto__" fields = true := by
    intro fields htree
    have hnone : OrdMap.get? "__proto__" fields = none := by
      rw [OrdMap.get?_eq_none_iff]
      intro hmem
      obtain ⟨p, hp, hkey⟩ := mem_map.mp hmem
      exact ((isTree_obj.mp htree).2 p hp).1.2.2 hkey
    simp [writesPrototype, hnone]
  intro path
  induction path with
  | nil => exact fun _ htree ↦ htree
  | cons segment rest ih =>
    intro fields hpath htree
    obtain ⟨hdot, hdigits⟩ := hpath segment (.head _)
    by_cases hseg : segment = "__proto__"
    · subst hseg
      cases rest with
      | nil => rwa [setSegments, hproto htree, if_pos rfl]
      | cons next rest => rwa [setSegments, hproto htree, if_pos rfl]; simp
    · cases rest with
      | nil =>
        have hwrites : writesPrototype segment fields = false := by simp [writesPrototype, hseg]
        rw [setSegments, hwrites, if_neg Bool.false_ne_true]
        exact isTree_set htree ⟨hdot, hdigits, hseg⟩ hvalue
      | cons next rest =>
        rw [setSegments_cons hseg]
        refine isTree_set htree ⟨hdot, hdigits, hseg⟩
          (ih (fun s hs ↦ hpath s (.tail _ hs)) ?_)
        cases hget : OrdMap.get? segment fields with
        | none => simp [innerFields, isTree_obj]
        | some w =>
          cases w with
          | obj inner => exact ((isTree_obj.mp htree).2 _ (OrdMap.mem_of_get? hget)).2
          | _ => simp [innerFields, isTree_obj]

/-- The leaves of an object whose keys differ are apart. -/
theorem pairwise_fieldLeaves (hnodup : (fields.map (·.1)).Nodup)
    (h : ∀ p ∈ fields, p.2.leaves.Pairwise fun l l' ↦ Apart l.1 l'.1) :
    (Value.fieldLeaves fields).Pairwise fun l l' ↦ Apart l.1 l'.1 := by
  induction fields with
  | nil => exact .nil
  | cons p fields ih =>
    obtain ⟨key, value⟩ := p
    rw [map_cons, nodup_cons] at hnodup
    obtain ⟨hvalue, hfields⟩ := forall_mem_cons.mp h
    rw [Value.fieldLeaves, pairwise_append]
    refine ⟨?_, ih hnodup.2 hfields, ?_⟩
    · rw [pairwise_map]
      exact hvalue.imp fun hl ↦ apart_cons_iff.mpr (.inr hl)
    · intro l hl l' hl'
      obtain ⟨l, -, rfl⟩ := mem_map.mp hl
      obtain ⟨p, hp, l', -, rfl⟩ := Value.mem_fieldLeaves_iff.mp hl'
      refine apart_cons_iff.mpr (.inl fun hkey ↦ ?_)
      exact hnodup.1 (mem_map.mpr ⟨p, hp, hkey.symm⟩)

mutual

/-- The leaves of a tree are apart. -/
theorem pairwise_leaves {P : ℚ → Prop} {K : String → Prop} : ∀ v : Value, v.IsTree P K →
    v.leaves.Pairwise fun l l' ↦ Apart l.1 l'.1
  | .obj fields, hv => by
    rw [Value.IsTree] at hv
    rw [Value.leaves_obj]
    exact pairwise_fieldLeaves hv.1 (pairwise_leaves_fields fields hv.2)
  | .undefined, _ | .null, _ | .bool _, _ | .num _, _ | .str _, _ | .arr _, _ => by
    simp only [Value.leaves]
    exact pairwise_singleton _ _

theorem pairwise_leaves_fields {P : ℚ → Prop} {K : String → Prop} :
    ∀ fields : List (String × Value), Value.FieldsTree P K fields →
    ∀ p ∈ fields, p.2.leaves.Pairwise fun l l' ↦ Apart l.1 l'.1
  | [], _ => nofun
  | (key, v) :: fields, htree => by
    obtain ⟨-, hv, hfields⟩ := htree
    exact forall_mem_cons.mpr ⟨pairwise_leaves v hv, pairwise_leaves_fields fields hfields⟩

end

mutual

/-- The keys on the way to a leaf are keys of the tree. -/
theorem keys_of_mem_leaves {P : ℚ → Prop} {K : String → Prop} : ∀ v : Value, v.IsTree P K →
    ∀ l ∈ v.leaves, ∀ s ∈ l.1, K s
  | .obj fields, hv => by
    rw [Value.IsTree] at hv
    rw [Value.leaves_obj]
    exact keys_of_mem_fieldLeaves fields hv.2
  | .undefined, _ | .null, _ | .bool _, _ | .num _, _ | .str _, _ | .arr _, _ => by
    simp [Value.leaves]

theorem keys_of_mem_fieldLeaves {P : ℚ → Prop} {K : String → Prop} :
    ∀ fields : List (String × Value), Value.FieldsTree P K fields →
    ∀ l ∈ Value.fieldLeaves fields, ∀ s ∈ l.1, K s
  | [], _ => nofun
  | (key, v) :: fields, htree => by
    obtain ⟨hkey, hv, hfields⟩ := htree
    have hleaves := keys_of_mem_leaves v hv
    have hrest := keys_of_mem_fieldLeaves fields hfields
    intro l hl
    rw [Value.fieldLeaves] at hl
    rcases mem_append.mp hl with hl | hl
    · obtain ⟨l', hl', rfl⟩ := mem_map.mp hl
      exact forall_mem_cons.mpr ⟨hkey, hleaves l' hl'⟩
    · exact hrest l hl

end

/-! ## Reading a document back -/

/-- The assignment a leaf reads back as. -/
def decodedLeaf (l : List String × Value) : SetAssignment :=
  ⟨.const (.str (".".intercalate l.1)), decodeLeaf l.2.toLeaf⟩

mutual

theorem collectNode_toNode {P : ℚ → Prop} (path : List String) : ∀ v : Value,
    v.IsTree P IsFieldKey → collectNode path v.toNode =
      .ok (v.leaves.map fun l ↦ decodedLeaf (path ++ l.1, l.2))
  | .obj fields, hv => by
    rw [Value.IsTree] at hv
    rw [Value.toNode, collectNode, Value.leaves_obj]
    exact collectAssignments_toNodes path fields hv.2
  | .undefined, _ | .null, _ | .bool _, _ | .num _, _ | .str _, _ | .arr _, _ => by
    simp only [Value.toNode, collectNode, Value.leaves, map_cons, map_nil, decodedLeaf, append_nil]

theorem collectAssignments_toNodes {P : ℚ → Prop} (path : List String) :
    ∀ fields : List (String × Value), Value.FieldsTree P IsFieldKey fields →
    collectAssignments path (Value.fieldsToNodes fields) =
      .ok ((Value.fieldLeaves fields).map fun l ↦ decodedLeaf (path ++ l.1, l.2))
  | [], _ => rfl
  | (key, v) :: fields, htree => by
    obtain ⟨hkey, hv, hfields⟩ := htree
    rw [Value.fieldsToNodes, collectAssignments, hkey.2.1, if_neg Bool.false_ne_true,
      collectNode_toNode (path ++ [key]) v hv, collectAssignments_toNodes path fields hfields,
      Value.fieldLeaves, map_append, map_map]
    simp [Function.comp_def, bind, Except.bind, pure, Except.pure]

end

/-! ## Leaves and values -/

theorem decodeLeaf_escaped {rest : List Char} (h : s.toList = '=' :: '=' :: rest) :
    decodeLeaf (.str s) = .const (.str (String.ofList ('=' :: rest))) := by
  simp only [decodeLeaf, h]

theorem decodeLeaf_expr {rest : List Char} (h : s.toList = '=' :: rest)
    (hrest : rest.head? ≠ some '=') : decodeLeaf (.str s) = .expr (String.ofList rest) := by
  simp only [decodeLeaf, h]
  cases rest with
  | nil => rfl
  | cons c rest =>
    have hc : c ≠ '=' := by simpa using hrest
    split
    · rename_i heq
      simp_all
    · rename_i heq
      simp_all
    · rename_i heq
      simp_all

theorem decodeLeaf_plain (h : s.toList.head? ≠ some '=') :
    decodeLeaf (.str s) = if hasTemplateMarkers s.toList then
      .expr (String.ofList (compileTemplate s.toList)) else .const (.str s) := by
  rw [decodeLeaf]
  split
  · rename_i heq
    simp [heq] at h
  · rename_i heq
    simp [heq] at h
  · rfl

theorem mem_templateParts {part : List Char} : ∀ {fuel : Nat} {cs : List Char},
    part ∈ templateParts fuel cs → part.head? = some '"' ∨ part.head? = some 't'
  | 0, _, h => nomatch h
  | fuel + 1, cs, h => by
    rw [templateParts] at h
    split at h
    · rename_i before inside after hmarker
      rcases mem_append.mp h with h | h
      · split_ifs at h
        · exact nomatch h
        · rw [mem_singleton.mp h]
          exact .inl rfl
      · rcases mem_cons.mp h with rfl | h
        · exact .inr rfl
        · exact mem_templateParts h
    · split_ifs at h
      · exact nomatch h
      · rw [mem_singleton.mp h]
        exact .inl rfl

/-- A compiled template starts with a quote or with a call. -/
theorem head?_compileTemplate (cs : List Char) : (compileTemplate cs).head? ≠ some '=' := by
  cases hparts : templateParts (cs.length + 1) cs with
  | nil =>
    simp only [compileTemplate, hparts, isEmpty_nil, if_true]
    simp [quote]
  | cons part parts =>
    have hhead := mem_templateParts (hparts ▸ mem_cons_self : part ∈ templateParts _ cs)
    obtain ⟨after, hafter⟩ := intercalate_cons " + ".toList part parts
    simp only [compileTemplate, hparts, isEmpty_cons, Bool.false_eq_true, if_false, hafter]
    cases part with
    | nil => simp at hhead
    | cons c part =>
      rcases hhead with h | h
      · rw [cons_append, head?_cons, Option.some.inj h]
        decide
      · rw [cons_append, head?_cons, Option.some.inj h]
        decide

mutual

/-- A leaf of a document is no object and has none in it. -/
theorem isFlat_toValue : ∀ leaf : JsonLeaf, leaf.toValue.isFlat
  | .null | .bool _ | .num none | .num (some _) | .str _ => by simp [toValue, Value.isFlat]
  | .arr items => by
    rw [toValue, Value.isFlat]
    exact itemsFlat_toValues items

theorem itemsFlat_toValues : ∀ items : List JsonLeaf,
    Value.itemsFlat (itemsToValues items)
  | [] => rfl
  | item :: items => Bool.and_eq_true_iff.mpr ⟨isFlat_toValue item, itemsFlat_toValues items⟩

end

mutual

theorem toValue_toLeaf : ∀ v : Value, v.isFlat → v.toLeaf.toValue = v
  | .undefined, h | .obj _, h => by simp [Value.isFlat] at h
  | .null, _ | .bool _, _ | .num _, _ | .str _, _ => by simp [Value.toLeaf, toValue]
  | .arr items, h => by
    rw [Value.isFlat] at h
    rw [Value.toLeaf, toValue, itemsToValues_itemsToLeaves items h]

theorem itemsToValues_itemsToLeaves : ∀ items : List Value, Value.itemsFlat items →
    itemsToValues (Value.itemsToLeaves items) = items
  | [], _ => rfl
  | item :: items, h => by
    obtain ⟨hitem, hitems⟩ := Bool.and_eq_true_iff.mp h
    rw [Value.itemsToLeaves, itemsToValues, toValue_toLeaf item hitem,
      itemsToValues_itemsToLeaves items hitems]

end

/-! ## The condition -/

/-- A value that reads back: a literal that is flat and, as a string, no template unless it starts
with `=`; or an expression that does not start with `=`. -/
def ValueExpr.faithful : ValueExpr → Bool
  | .const (.str s) => s.toList.head? = some '=' || !hasTemplateMarkers s.toList
  | .const value => value.isFlat
  | .expr source => source.toList.head? ≠ some '='
  | _ => false

/-- A string by how it starts: with `==`, with one `=`, or with neither. -/
theorem escape_cases (s : String) : (∃ rest, s.toList = '=' :: '=' :: rest) ∨
    (∃ rest, s.toList = '=' :: rest ∧ rest.head? ≠ some '=') ∨ s.toList.head? ≠ some '=' := by
  by_cases h : s.toList.head? = some '='
  · obtain ⟨rest, hrest⟩ : ∃ rest, s.toList = '=' :: rest := by
      cases hs : s.toList with
      | nil => simp [hs] at h
      | cons c rest =>
        rw [hs] at h
        exact ⟨rest, by rw [Option.some.inj h]⟩
    by_cases h' : rest.head? = some '='
    · cases rest with
      | nil => simp at h'
      | cons c rest =>
        rw [Option.some.inj h'] at hrest
        exact .inl ⟨rest, hrest⟩
    · exact .inr (.inl ⟨rest, hrest, h'⟩)
  · exact .inr (.inr h)

/-- What `decodeLeaf` gives reads back. -/
theorem faithful_decodeLeaf (leaf : JsonLeaf) : (decodeLeaf leaf).faithful := by
  cases leaf with
  | str s =>
    rcases escape_cases s with ⟨rest, hs⟩ | ⟨rest, hs, hrest⟩ | hs
    · rw [decodeLeaf_escaped hs]
      simp [faithful]
    · rw [decodeLeaf_expr hs hrest]
      simpa [faithful] using hrest
    · rw [decodeLeaf_plain hs]
      split_ifs with hmarkers
      · simpa [faithful] using head?_compileTemplate s.toList
      · simp [faithful, hmarkers]
  | null | bool b => simp [decodeLeaf, toValue, faithful, Value.isFlat]
  | num q => cases q <;> simp [decodeLeaf, toValue, faithful, Value.isFlat]
  | arr items =>
    have hflat := isFlat_toValue (.arr items)
    rw [toValue] at hflat
    rw [decodeLeaf, toValue, faithful]
    · exact hflat
    · simp
    · simp

variable {e : ValueExpr}

/-- What `encodeLeaf` writes. -/
theorem encodeLeaf_cases (he : encodeLeaf e = .ok v) :
    (∃ s, e = .const (.str s) ∧ v = .str (if s.toList.head? = some '=' then "=" ++ s else s)) ∨
    (e = .const v ∧ ∀ s, v ≠ .str s) ∨ ∃ source, e = .expr source ∧ v = .str ("=" ++ source) := by
  cases e with
  | const value =>
    cases value with
    | str s => exact .inl ⟨s, rfl, (Except.ok.inj he).symm⟩
    | _ =>
      cases he
      exact .inr (.inl ⟨rfl, by simp⟩)
  | expr source => exact .inr (.inr ⟨source, rfl, (Except.ok.inj he).symm⟩)
  | _ => exact nomatch he

/-- A value that reads back is written as a leaf that reads back as it. -/
theorem decodeLeaf_encodeLeaf (h : e.faithful) (he : encodeLeaf e = .ok v) :
    decodeLeaf v.toLeaf = e := by
  rcases encodeLeaf_cases he with ⟨s, rfl, rfl⟩ | ⟨rfl, hstr⟩ | ⟨source, rfl, rfl⟩
  · rw [Value.toLeaf]
    split_ifs with hs
    · obtain ⟨rest, hrest⟩ : ∃ rest, s.toList = '=' :: rest := by
        rcases escape_cases s with ⟨rest, hs⟩ | ⟨rest, hs, -⟩ | hs'
        · exact ⟨_, hs⟩
        · exact ⟨rest, hs⟩
        · exact absurd hs hs'
      have hlist : ("=" ++ s).toList = '=' :: '=' :: rest := by
        rw [String.toList_append, hrest]
        rfl
      rw [decodeLeaf_escaped hlist, ← hrest, String.ofList_toList]
    · have hmarkers : hasTemplateMarkers s.toList = false := by
        simpa [faithful, hs] using h
      rw [decodeLeaf_plain hs, hmarkers, if_neg Bool.false_ne_true]
  · have hflat : v.isFlat := by
      cases v with
      | str s => exact absurd rfl (hstr s)
      | _ => exact h
    cases v with
    | str s => exact absurd rfl (hstr s)
    | undefined | obj fields => simp [Value.isFlat] at hflat
    | null | bool b | num q => rfl
    | arr items =>
      have hvalue := toValue_toLeaf (.arr items) hflat
      rw [Value.toLeaf] at hvalue ⊢
      rw [decodeLeaf, hvalue]
      simp
  · have hhead : source.toList.head? ≠ some '=' := by simpa [faithful] using h
    have hlist : ("=" ++ source).toList = '=' :: source.toList := by
      rw [String.toList_append]
      rfl
    rw [Value.toLeaf, decodeLeaf_expr hlist hhead, String.ofList_toList]

/-- What is written of a value that reads back is flat. -/
theorem isFlat_encodeLeaf (h : e.faithful) (he : encodeLeaf e = .ok v) : v.isFlat := by
  rcases encodeLeaf_cases he with ⟨s, rfl, rfl⟩ | ⟨rfl, hstr⟩ | ⟨source, rfl, rfl⟩
  · rfl
  · cases v with
    | str s => exact absurd rfl (hstr s)
    | _ => exact h
  · rfl

/-- The path a name writes. -/
def SetAssignment.path (a : SetAssignment) : List String :=
  match a.name with
  | .const (.str name) => name.splitOn "."
  | _ => []

/-- **When assignments read back.** -/
structure Faithful (as : List SetAssignment) : Prop where
  value : ∀ a ∈ as, a.value.faithful
  /-- No name writes a prototype. -/
  proto : ∀ a ∈ as, "__proto__" ∉ a.path
  /-- No name goes through the field another one writes. -/
  apart : as.Pairwise fun a b ↦ Apart a.path b.path

variable {name : String} {a : SetAssignment}

theorem path_eq (h : a.name = .const (.str name)) : a.path = name.splitOn "." := by
  rw [SetAssignment.path, h]

theorem path_ne_nil (h : a.name = .const (.str name)) : a.path ≠ [] := by
  rw [path_eq h]
  exact SplitOn.splitOn_ne_nil name '.'

/-- Joining the path gives the name. -/
theorem intercalate_path (h : a.name = .const (.str name)) : ".".intercalate a.path = name := by
  rw [path_eq h]
  exact SplitOn.intercalate_splitOn name '.'

theorem dot_not_mem_path (h : s ∈ a.path) : '.' ∉ s.toList := by
  rw [SetAssignment.path] at h
  split at h
  · exact SplitOn.not_mem_of_mem_splitOn h
  · exact nomatch h

/-- What one turn of the loop writes. -/
theorem writeAssignment_cases {root root' : List (String × Value)}
    (h : writeAssignment root a = .ok root') :
    ∃ name v, a.name = .const (.str name) ∧ encodeLeaf a.value = .ok v ∧
      (∀ s ∈ a.path, isDigitsOnlySegment s = false) ∧ root' = setSegments a.path v root := by
  rw [writeAssignment] at h
  split at h
  · rename_i name hname
    split_ifs at h
    obtain ⟨v, hv, hset⟩ := Throwing.exists_of_bind_eq_ok h
    have hpath := path_eq hname
    rw [setPath] at hset
    split at hset
    · split_ifs at hset
    · rename_i hfind
      refine ⟨name, v, hname, hv, ?_, ?_⟩
      · intro s hs
        have hbad := find?_eq_none.mp hfind s (hpath ▸ hs)
        simp only [Bool.or_eq_true, not_or, Bool.not_eq_true] at hbad
        exact hbad.2
      · rw [hpath, Except.ok.inj hset]
  · exact nomatch h

/-- An assignment that can be shown: a literal name of segments that are neither empty nor an index,
and a value that has a text. -/
def Writable (a : SetAssignment) : Prop :=
  ∃ name v, a.name = .const (.str name) ∧ name ≠ "" ∧ encodeLeaf a.value = .ok v ∧
    ∀ s ∈ a.path, s ≠ "" ∧ isDigitsOnlySegment s = false

theorem Writable.exists_write (h : Writable a) (root : List (String × Value)) :
    ∃ root', writeAssignment root a = .ok root' := by
  obtain ⟨name, v, hname, hne, hv, hpath⟩ := h
  have hsegments := path_eq hname
  have hfind : (name.splitOn ".").find? (fun s ↦ s.isEmpty || isDigitsOnlySegment s) = none := by
    rw [find?_eq_none]
    intro s hs
    obtain ⟨hs1, hs2⟩ := hpath s (hsegments ▸ hs)
    simp [hs1, hs2]
  refine ⟨setSegments (name.splitOn ".") v root, ?_⟩
  rw [writeAssignment, hname]
  simp only [hv, bind, Except.bind]
  rw [if_neg (by simpa using hne), setPath, hfind]

/-- Assignments that can be shown are. -/
theorem exists_assignmentsToJson (nt : NumberText) {as : List SetAssignment}
    (h : ∀ a ∈ as, Writable a) : ∃ j, assignmentsToJson nt as = .ok j := by
  have hfold : ∀ (as : List SetAssignment) (root : List (String × Value)),
      (∀ a ∈ as, Writable a) → ∃ root', as.foldlM writeAssignment root = .ok root' := by
    intro as
    induction as with
    | nil => exact fun root _ ↦ ⟨root, rfl⟩
    | cons a as ih =>
      intro root h
      obtain ⟨next, hnext⟩ := (h a (.head _)).exists_write root
      obtain ⟨root', hroot'⟩ := ih next fun b hb ↦ h b (.tail _ hb)
      refine ⟨root', ?_⟩
      rw [foldlM_cons, hnext]
      exact hroot'
  obtain ⟨root, hroot⟩ := hfold as [] h
  exact ⟨_, by rw [assignmentsToJson, hroot]; rfl⟩

/-! ## The loop of `assignmentsToJson` -/

/-- The loop builds a tree. -/
theorem isTree_foldlM : ∀ {as : List SetAssignment} {root root' : List (String × Value)},
    (∀ a ∈ as, a.value.faithful) → (∀ a ∈ as, ∀ v, encodeLeaf a.value = .ok v → v.Numbers P) →
    (Value.obj root).IsTree P IsFieldKey → as.foldlM writeAssignment root = .ok root' →
    (Value.obj root').IsTree P IsFieldKey
  | [], _, _, _, _, htree, h => by
    cases h
    exact htree
  | a :: as, root, root', hfaithful, hnum, htree, h => by
    rw [foldlM_cons] at h
    obtain ⟨next, hnext, hrest⟩ := Throwing.exists_of_bind_eq_ok h
    obtain ⟨name, v, -, hv, hdigits, rfl⟩ := writeAssignment_cases hnext
    have hflat := isFlat_encodeLeaf (hfaithful a (.head _)) hv
    have hvalue : v.IsTree P IsFieldKey :=
      (isTree_flat hflat).mpr (hnum a (.head _) v hv)
    refine isTree_foldlM (fun b hb ↦ hfaithful b (.tail _ hb))
      (fun b hb ↦ hnum b (.tail _ hb)) ?_ hrest
    exact isTree_setSegments hvalue (fun s hs ↦ ⟨dot_not_mem_path hs, hdigits s hs⟩) htree

/-- The leaves of the tree are the assignments, when no two of them meet. -/
theorem perm_foldlM : ∀ {as : List SetAssignment} {root root' : List (String × Value)},
    Faithful as → (∀ a ∈ as, ∀ l ∈ Value.fieldLeaves root, Apart a.path l.1) →
    as.foldlM writeAssignment root = .ok root' →
    ((Value.fieldLeaves root').map decodedLeaf).Perm
      (as ++ (Value.fieldLeaves root).map decodedLeaf)
  | [], _, _, _, _, h => by
    cases h
    exact .refl _
  | a :: as, root, root', hfaithful, hapart, h => by
    rw [foldlM_cons] at h
    obtain ⟨next, hnext, hrest⟩ := Throwing.exists_of_bind_eq_ok h
    obtain ⟨name, v, hname, hv, -, rfl⟩ := writeAssignment_cases hnext
    have ha := hfaithful.value a (.head _)
    have hleaf : decodedLeaf (a.path, v) = a := by
      rw [decodedLeaf, intercalate_path hname, decodeLeaf_encodeLeaf ha hv, ← hname]
    have hperm := perm_setSegments (isFlat_encodeLeaf ha hv) (path_ne_nil hname)
      (hfaithful.proto a (.head _)) (hapart a (.head _))
    obtain ⟨hfirst, hothers⟩ := pairwise_cons.mp hfaithful.apart
    have hapart' : ∀ b ∈ as, ∀ l ∈ Value.fieldLeaves (setSegments a.path v root),
        Apart b.path l.1 := by
      intro b hb l hl
      rcases mem_cons.mp (hperm.mem_iff.mp hl) with rfl | hl
      · exact (hfirst b hb).symm
      · exact hapart b (.tail _ hb) l hl
    have hfaithful' : Faithful as :=
      ⟨fun b hb ↦ hfaithful.value b (.tail _ hb), fun b hb ↦ hfaithful.proto b (.tail _ hb), hothers⟩
    have hmap := hperm.map decodedLeaf
    rw [map_cons, hleaf] at hmap
    calc (Value.fieldLeaves root').map decodedLeaf
      _ |>.Perm (as ++ (Value.fieldLeaves (setSegments a.path v root)).map decodedLeaf) :=
        perm_foldlM hfaithful' hapart' hrest
      _ |>.Perm (as ++ a :: (Value.fieldLeaves root).map decodedLeaf) := hmap.append_left as
      _ |>.Perm (a :: as ++ (Value.fieldLeaves root).map decodedLeaf) := perm_middle

mutual

theorem faithful_collectNode (path : List String) : ∀ (node : JsonNode) {bs : List SetAssignment},
    collectNode path node = .ok bs → ∀ b ∈ bs, b.value.faithful
  | .leaf value, bs, h => by
    rw [collectNode] at h
    cases h
    intro b hb
    rw [mem_singleton.mp hb]
    exact faithful_decodeLeaf value
  | .obj entries, bs, h => by
    rw [collectNode] at h
    exact faithful_collectAssignments path entries h

theorem faithful_collectAssignments (path : List String) :
    ∀ (entries : List (String × JsonNode)) {bs : List SetAssignment},
    collectAssignments path entries = .ok bs → ∀ b ∈ bs, b.value.faithful
  | [], bs, h => by
    rw [collectAssignments] at h
    cases h
    exact nofun
  | (key, value) :: entries, bs, h => by
    rw [collectAssignments] at h
    split_ifs at h
    obtain ⟨out, hout, h⟩ := Throwing.exists_of_bind_eq_ok h
    obtain ⟨rest, hrest, h⟩ := Throwing.exists_of_bind_eq_ok h
    cases h
    have hvalue := faithful_collectNode (path ++ [key]) value hout
    have hentries := faithful_collectAssignments path entries hrest
    exact forall_mem_append.mpr ⟨hvalue, hentries⟩

end

section RoundTrip

variable (nt : NumberText)

/-- **The document of a tree reads back as its leaves.** -/
theorem jsonToAssignments_stringify {fields : List (String × Value)}
    (h : (Value.obj fields).IsTree nt.IsNumber IsFieldKey) :
    jsonToAssignments nt (String.ofList ((stringify nt 0 (.obj fields)).getD [])) =
      .ok ((Value.fieldLeaves fields).map decodedLeaf) := by
  obtain ⟨t, ht⟩ := exists_stringify_tree nt h 0
  have hread := readJson_stringify h ht
  rw [Value.toNode] at hread
  rw [ht, Option.getD_some, jsonToAssignments, String.toList_ofList, hread]
  rw [Value.IsTree] at h
  exact collectAssignments_toNodes [] fields h.2

/-- What `jsonToAssignments` gives has values that read back. -/
theorem faithful_of_jsonToAssignments {text : String} {bs : List SetAssignment}
    (h : jsonToAssignments nt text = .ok bs) : ∀ b ∈ bs, b.value.faithful := by
  rw [jsonToAssignments] at h
  split at h
  · exact nomatch h
  · exact nomatch h
  · exact faithful_collectAssignments [] _ h
  · exact nomatch h
  · exact nomatch h

/-- What is left of a name when a leaf reads back: its path. -/
theorem path_decodedLeaf {l : List String × Value} (hne : l.1 ≠ [])
    (hdot : ∀ s ∈ l.1, '.' ∉ s.toList) : (decodedLeaf l).path = l.1 :=
  SplitOn.splitOn_intercalate hne hdot

/-- **Assignments read back exactly when they are faithful.**  For assignments that
`assignmentsToJson` writes, `jsonToAssignments` gives the same ones back, in some order, if and only
if every value reads back, no name writes a prototype, and no name goes through another's field. -/
theorem jsonToAssignments_perm_iff {as : List SetAssignment} {j : String}
    (hnum : ∀ a ∈ as, ∀ v, a.value = .const v → v.Numbers nt.IsNumber)
    (h : assignmentsToJson nt as = .ok j) :
    (∃ bs, jsonToAssignments nt j = .ok bs ∧ bs.Perm as) ↔ Faithful as := by
  obtain ⟨root, hroot, hj⟩ := Throwing.exists_of_bind_eq_ok h
  cases hj
  have hwritten : ∀ a ∈ as, ∀ v, encodeLeaf a.value = .ok v → v.Numbers nt.IsNumber := by
    intro a ha v hv
    rcases encodeLeaf_cases hv with ⟨s, -, rfl⟩ | ⟨hconst, -⟩ | ⟨source, -, rfl⟩
    · simp [Value.Numbers]
    · exact hnum a ha v hconst
    · simp [Value.Numbers]
  have hempty : (Value.obj []).IsTree nt.IsNumber IsFieldKey := by simp [isTree_obj]
  refine ⟨?_, ?_⟩
  · rintro ⟨bs, hbs, hperm⟩
    have hvalues : ∀ a ∈ as, a.value.faithful := fun a ha ↦
      faithful_of_jsonToAssignments nt hbs a (hperm.mem_iff.mpr ha)
    have htree := isTree_foldlM hvalues hwritten hempty hroot
    rw [jsonToAssignments_stringify nt htree] at hbs
    cases hbs
    have hkeys := keys_of_mem_leaves _ htree
    have hapart := pairwise_leaves _ htree
    rw [Value.leaves_obj] at hkeys hapart
    have hpath : ∀ l ∈ Value.fieldLeaves root, (decodedLeaf l).path = l.1 := by
      intro l hl
      obtain ⟨p, -, l', -, rfl⟩ := Value.mem_fieldLeaves_iff.mp hl
      exact path_decodedLeaf (cons_ne_nil _ _) fun s hs ↦ (hkeys _ hl s hs).1
    refine ⟨hvalues, ?_, ?_⟩
    · intro a ha hmem
      obtain ⟨l, hl, rfl⟩ := mem_map.mp (hperm.mem_iff.mpr ha)
      rw [hpath l hl] at hmem
      exact (hkeys l hl _ hmem).2.2 rfl
    · refine hperm.pairwise ?_ fun h ↦ h.symm
      rw [pairwise_map]
      refine hapart.imp_of_mem fun {l l'} hl hl' h ↦ ?_
      rw [hpath l hl, hpath l' hl']
      exact h
  · intro hfaithful
    have htree := isTree_foldlM hfaithful.value hwritten hempty hroot
    have hperm := perm_foldlM hfaithful (fun _ _ _ hl ↦ absurd hl not_mem_nil) hroot
    rw [show Value.fieldLeaves [] = [] from rfl, map_nil, append_nil] at hperm
    exact ⟨_, jsonToAssignments_stringify nt htree, hperm⟩

end RoundTrip

/-! ## Fixed assignments -/

/-- The whole numbers a double holds exactly, as they are written and read. -/
def wholeNumbers : NumberText where
  IsNumber q := ∃ n : ℕ, n ≤ 2 ^ 53 ∧ q = n
  write q := Nat.toDigits 10 q.num.toNat
  read cs := if cs.all Char.isDigit then some (Nat.ofDigitChars 10 cs 0 : ℚ) else none
  isNumberText := by
    intro q _
    refine ⟨[], Nat.toDigits 10 q.num.toNat, [], [], by simp, .inl rfl, ⟨Nat.toDigits_ne_nil, ?_⟩,
      .inl rfl, .inl rfl⟩
    exact fun d hd ↦ Nat.isDigit_of_mem_toDigits (by decide) (by decide) hd
  read_write := by
    rintro q ⟨n, -, rfl⟩
    have hdigits : (Nat.toDigits 10 n).all Char.isDigit := by
      rw [List.all_eq_true]
      exact fun d hd ↦ Nat.isDigit_of_mem_toDigits (by decide) (by decide) hd
    have hnum : ((n : ℚ).num).toNat = n := by simp
    rw [hnum, if_pos hdigits, Nat.ofDigitChars_ten_toDigits]

/-- A name without a dot, and its path. -/
theorem splitOn_singleton (h : '.' ∉ name.toList) : name.splitOn "." = [name] :=
  @SplitOn.splitOn_intercalate [name] '.' (by simp) (by simpa using h)

/-- Two fields of one object: a number and an expression. -/
def reportAssignments : List SetAssignment :=
  [⟨.const (.str "report.count"), .const (.num 3)⟩, ⟨.const (.str "report.at"), .expr "$now"⟩]

theorem jsonToAssignments_perm_iff_report : ∃ j,
    assignmentsToJson wholeNumbers reportAssignments = .ok j ∧
    ((∃ bs, jsonToAssignments wholeNumbers j = .ok bs ∧ bs.Perm reportAssignments) ↔
      Faithful reportAssignments) := by
  have hcount : "report.count".splitOn "." = ["report", "count"] :=
    @SplitOn.splitOn_intercalate ["report", "count"] '.' (by simp) (by decide)
  have hat : "report.at".splitOn "." = ["report", "at"] :=
    @SplitOn.splitOn_intercalate ["report", "at"] '.' (by simp) (by decide)
  have hwritable : ∀ a ∈ reportAssignments, Writable a := by
    intro a ha
    rcases mem_cons.mp ha with rfl | ha
    · refine ⟨"report.count", .num 3, rfl, by decide, rfl, ?_⟩
      rw [path_eq rfl, hcount]
      decide
    · obtain rfl := mem_singleton.mp ha
      refine ⟨"report.at", .str ("=" ++ "$now"), rfl, by decide, rfl, ?_⟩
      rw [path_eq rfl, hat]
      decide
  have hnum : ∀ a ∈ reportAssignments, ∀ v, a.value = .const v → v.Numbers wholeNumbers.IsNumber := by
    intro a ha v hv
    rcases mem_cons.mp ha with rfl | ha
    · obtain rfl := ValueExpr.const.inj hv
      exact ⟨3, by decide, by norm_num⟩
    · obtain rfl := mem_singleton.mp ha
      exact nomatch hv
  obtain ⟨j, hj⟩ := exists_assignmentsToJson wholeNumbers hwritable
  exact ⟨j, hj, jsonToAssignments_perm_iff wholeNumbers hnum hj⟩

/-- A literal text with a template marker in it. -/
def markedAssignments : List SetAssignment := [⟨.const (.str "greeting"), .const (.str "\x7b\x7b name \x7d\x7d")⟩]

/-- A literal `{{ name }}` reads back as an expression. -/
theorem markedAssignments_change : ¬ ∀ (as : List SetAssignment) (j : String),
    (as.map (·.name)).Nodup → assignmentsToJson wholeNumbers as = .ok j →
    ∃ bs, jsonToAssignments wholeNumbers j = .ok bs ∧ bs.Perm as := by
  intro h
  have hwritable : ∀ a ∈ markedAssignments, Writable a := by
    intro a ha
    obtain rfl := mem_singleton.mp ha
    refine ⟨"greeting", .str "\x7b\x7b name \x7d\x7d", rfl, by decide, rfl, ?_⟩
    rw [path_eq rfl, splitOn_singleton (by decide)]
    decide
  obtain ⟨j, hj⟩ := exists_assignmentsToJson wholeNumbers hwritable
  obtain ⟨bs, hbs, hperm⟩ := h markedAssignments j (by simp [markedAssignments]) hj
  have hfaithful := faithful_of_jsonToAssignments wholeNumbers hbs _
    (hperm.mem_iff.mpr (.head _))
  exact nomatch hfaithful

end Enkaku
