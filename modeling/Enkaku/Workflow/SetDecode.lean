import Enkaku.Workflow.JsonText
import Enkaku.Workflow.SetRoundTrip

/-!
# The JSON of a `set` node: what its assignments make

`jsonToAssignments` flattens a document to one assignment a leaf, whose name is the path to it, and
`setPath` splits the name again.  For a document of plain leaves the assignments make the object the
text stands for exactly if every key is a name a segment can have, and no key holds an empty object
(`produces_iff`): a key with a dot is taken apart, an empty one is refused by `setPath`, one that is
`__proto__` is written where nobody looks, and an empty object has no leaf.
-/

set_option autoImplicit false

namespace Enkaku

open List

open JsonLeaf

/-! ## JSON values -/

namespace Json

mutual

/-- A JSON value as the core handles it. -/
def toValue : Json → Value
  | .null | .num none => .null
  | .bool b => .bool b
  | .num (some q) => .num q
  | .str s => .str s
  | .arr items => .arr (itemsToValues items)
  | .obj fields => .obj (fieldsToValues fields)

def itemsToValues : List Json → List Value
  | [] => []
  | item :: items => toValue item :: itemsToValues items

def fieldsToValues : List (String × Json) → List (String × Value)
  | [] => []
  | (key, value) :: fields => (key, toValue value) :: fieldsToValues fields

end

mutual

/-- No string leaf is an expression, an escaped literal or a template. -/
def plain : Json → Bool
  | .str s => s.toList.head? ≠ some '=' && !hasTemplateMarkers s.toList
  | .obj fields => fieldsPlain fields
  | _ => true

def fieldsPlain : List (String × Json) → Bool
  | [] => true
  | (_, value) :: fields => plain value && fieldsPlain fields

end

/-- The name of a segment that `setPath` writes: it is not empty, holds no dot and is not the
prototype. -/
def isFieldName (key : String) : Bool := key ≠ "" && !key.toList.contains '.' && key ≠ "__proto__"

def isEmptyObj : Json → Bool
  | .obj [] => true
  | _ => false

mutual

/-- Every key is the name of a segment, and none holds an empty object. -/
def writable : Json → Bool
  | .obj fields => fieldsWritable fields
  | _ => true

def fieldsWritable : List (String × Json) → Bool
  | [] => true
  | (key, value) :: fields =>
    isFieldName key && !value.isEmptyObj && writable value && fieldsWritable fields

end

end Json

/-- Two values with the same keys at every level, in whatever order, and the same leaves. -/
inductive Value.Alike : Value → Value → Prop
  | leaf {v : Value} (h : ∀ fields, v ≠ .obj fields) : Alike v v
  | obj {fields fields' : List (String × Value)}
      (keys : ∀ k, OrdMap.get? k fields = none ↔ OrdMap.get? k fields' = none)
      (h : ∀ k v v', OrdMap.get? k fields = some v → OrdMap.get? k fields' = some v' → Alike v v') :
      Alike (.obj fields) (.obj fields')

/-! ## Running assignments -/

/-- The name and the value of an assignment, if both are constants. -/
def SetAssignment.constant? (a : SetAssignment) : Option (String × Value) :=
  match a.name, a.value with
  | .const (.str name), .const value => some (name, value)
  | _, _ => none

/-- Writes with `setPath`, in order. -/
def runWrites (root : List (String × Value)) (writes : List (String × Value)) :
    Except String (List (String × Value)) :=
  writes.foldlM (fun root w ↦ setPath root w.1 w.2) root

/-- The assignments are constants, and make this object of the empty one. -/
def Produces (as : List SetAssignment) (fields : List (String × Value)) : Prop :=
  ∃ writes, as.mapM SetAssignment.constant? = some writes ∧ runWrites [] writes = .ok fields

mutual

/-- The writes a node of a document becomes. -/
def nodeWrites (path : List String) : JsonNode → List (String × Value)
  | .leaf value => [(".".intercalate path, value.toValue)]
  | .obj entries => entryWrites path entries

def entryWrites (path : List String) : List (String × JsonNode) → List (String × Value)
  | [] => []
  | (key, value) :: entries => nodeWrites (path ++ [key]) value ++ entryWrites path entries

end

/-! ## The assignments of a plain document -/

theorem decodeLeaf_of_plain {leaf : JsonLeaf} (h : leaf.toJson.plain = true) :
    decodeLeaf leaf = .const leaf.toValue := by
  cases leaf with
  | str s =>
    simp only [toJson, Json.plain, Bool.and_eq_true, decide_eq_true_eq, Bool.not_eq_true'] at h
    obtain ⟨hhead, hmarkers⟩ := h
    rw [decodeLeaf]
    split
    · simp_all
    · simp_all
    · simp [hmarkers, toValue]
  | _ => simp [decodeLeaf]

mutual

theorem constants_collectNode {path : List String} : ∀ {node : JsonNode} {as : List SetAssignment},
    node.toJson.plain = true → collectNode path node = .ok as →
    as.mapM SetAssignment.constant? = some (nodeWrites path node)
  | .leaf leaf, as, hplain, h => by
    rw [collectNode] at h
    cases h
    rw [JsonNode.toJson] at hplain
    simp [decodeLeaf_of_plain hplain, SetAssignment.constant?, nodeWrites]
  | .obj entries, as, hplain, h => by
    rw [collectNode] at h
    rw [JsonNode.toJson, Json.plain] at hplain
    rw [nodeWrites]
    exact constants_collectAssignments hplain h

theorem constants_collectAssignments {path : List String} :
    ∀ {entries : List (String × JsonNode)} {as : List SetAssignment},
    Json.fieldsPlain (JsonNode.entriesToJson entries) = true →
    collectAssignments path entries = .ok as →
    as.mapM SetAssignment.constant? = some (entryWrites path entries)
  | [], as, _, h => by
    rw [collectAssignments] at h
    cases h
    simp [entryWrites]
  | (key, value) :: entries, as, hplain, h => by
    rw [JsonNode.entriesToJson, Json.fieldsPlain, Bool.and_eq_true] at hplain
    rw [collectAssignments] at h
    split_ifs at h
    obtain ⟨out, hout, h⟩ := Throwing.exists_of_bind_eq_ok h
    obtain ⟨rest, hrest, hpure⟩ := Throwing.exists_of_bind_eq_ok h
    cases hpure
    rw [mapM_append, constants_collectNode hplain.1 hout,
      constants_collectAssignments hplain.2 hrest, entryWrites]
    simp

end

/-! ## Writes below a path -/

/-- Changes the fields below a path, making the objects on the way. -/
def putAt : List String → (List (String × Value) → List (String × Value)) →
    List (String × Value) → List (String × Value)
  | [], f, fields => f fields
  | segment :: rest, f, fields =>
    OrdMap.set segment (.obj (putAt rest f (innerFields (OrdMap.get? segment fields)))) fields

mutual

/-- What the writes of a node below a key add to the fields there. -/
def addNode (key : String) : JsonNode → List (String × Value) → List (String × Value)
  | .leaf value, fields => OrdMap.set key value.toValue fields
  | .obj entries, fields =>
    OrdMap.set key (.obj (addEntries entries (innerFields (OrdMap.get? key fields)))) fields

def addEntries : List (String × JsonNode) → List (String × Value) → List (String × Value)
  | [], fields => fields
  | (key, value) :: entries, fields => addEntries entries (addNode key value fields)

end

theorem putAt_putAt (f g : List (String × Value) → List (String × Value)) (path : List String)
    (fields : List (String × Value)) :
    putAt path g (putAt path f fields) = putAt path (fun fs ↦ g (f fs)) fields := by
  induction path generalizing fields with
  | nil => simp [putAt]
  | cons segment rest ih =>
    simp only [putAt, OrdMap.get?_set_self, innerFields, OrdMap.set_set]
    rw [ih]

theorem putAt_snoc (f : List (String × Value) → List (String × Value)) (path : List String)
    (key : String) (fields : List (String × Value)) :
    putAt (path ++ [key]) f fields = putAt path (fun fs ↦
      OrdMap.set key (.obj (f (innerFields (OrdMap.get? key fs)))) fs) fields := by
  induction path generalizing fields with
  | nil => simp [putAt]
  | cons segment rest ih => rw [cons_append, putAt, putAt, ih]

/-- `setPath` of a path that has no prototype in it. -/
theorem setSegments_snoc (value : Value) (key : String) {path : List String}
    (hproto : ∀ s ∈ path ++ [key], s ≠ "__proto__") (fields : List (String × Value)) :
    setSegments (path ++ [key]) value fields = putAt path (OrdMap.set key value) fields := by
  induction path generalizing fields with
  | nil =>
    have hwrites : writesPrototype key fields = false := by
      simp [writesPrototype, hproto key (by simp)]
    simp [setSegments, hwrites, putAt]
  | cons segment rest ih =>
    obtain ⟨next, rest', hrest⟩ := exists_cons_of_ne_nil (show rest ++ [key] ≠ [] by simp)
    have ih' := ih (fun s hs ↦ hproto s (.tail _ hs))
      (innerFields (OrdMap.get? segment fields))
    rw [hrest] at ih'
    rw [cons_append, hrest, setSegments_cons (hproto segment (by simp)), ih', putAt]

/-- A segment that `setPath` takes as it is. -/
def IsSegment (s : String) : Prop := Json.isFieldName s = true ∧ isDigitsOnlySegment s = false

theorem setPath_intercalate {path : List String} (hne : path ≠ []) (h : ∀ s ∈ path, IsSegment s)
    (root : List (String × Value)) (value : Value) :
    setPath root (".".intercalate path) value = .ok (setSegments path value root) := by
  have hsplit : (".".intercalate path).splitOn "." = path :=
    SplitOn.splitOn_intercalate hne fun s hs ↦ by
      have hname := (h s hs).1
      simp only [Json.isFieldName, Bool.and_eq_true, Bool.not_eq_true', contains_eq_mem,
        decide_eq_false_iff_not] at hname
      exact hname.1.2
  have hfind : path.find? (fun s ↦ s.isEmpty || isDigitsOnlySegment s) = none := by
    rw [find?_eq_none]
    intro s hs
    obtain ⟨hname, hdigits⟩ := h s hs
    simp only [Json.isFieldName, Bool.and_eq_true, decide_eq_true_eq] at hname
    simp [hdigits, hname.1.1]
  rw [setPath, hsplit, hfind]

theorem runWrites_append (root : List (String × Value)) (ws ws' : List (String × Value)) :
    runWrites root (ws ++ ws') = (do let r ← runWrites root ws; runWrites r ws') := by
  rw [runWrites, foldlM_append]
  simp [runWrites]

mutual

/-- The writes of a node change the fields above its key. -/
theorem runWrites_node {path : List String} {key : String} (hpath : ∀ s ∈ path, IsSegment s)
    (hkey : IsSegment key) (root : List (String × Value)) :
    ∀ {node : JsonNode} {as : List SetAssignment}, node.toJson.writable = true →
    node.toJson.isEmptyObj = false → collectNode (path ++ [key]) node = .ok as →
    runWrites root (nodeWrites (path ++ [key]) node) = .ok (putAt path (addNode key node) root)
  | .leaf leaf, as, _, _, _ => by
    have hsegments : ∀ s ∈ path ++ [key], IsSegment s := by
      simpa [or_imp, forall_and] using ⟨hpath, hkey⟩
    have hproto : ∀ s ∈ path ++ [key], s ≠ "__proto__" := fun s hs ↦ by
      have hname := (hsegments s hs).1
      simp only [Json.isFieldName, Bool.and_eq_true, decide_eq_true_eq] at hname
      exact hname.2
    rw [nodeWrites, runWrites, foldlM_cons, setPath_intercalate (by simp) hsegments,
      setSegments_snoc _ _ hproto]
    simp [addNode, pure, Except.pure, bind, Except.bind]
  | .obj entries, as, hwritable, hempty, h => by
    rw [collectNode] at h
    rw [JsonNode.toJson] at hwritable hempty
    rw [Json.writable] at hwritable
    have hne : entries ≠ [] := by
      rintro rfl
      simp [JsonNode.entriesToJson, Json.isEmptyObj] at hempty
    have hsegments : ∀ s ∈ path ++ [key], IsSegment s := by
      simpa [or_imp, forall_and] using ⟨hpath, hkey⟩
    rw [nodeWrites, runWrites_entries hsegments root hwritable hne h, putAt_snoc]
    simp [addNode]

/-- The writes of an object that is not empty change its fields. -/
theorem runWrites_entries {path : List String} (hpath : ∀ s ∈ path, IsSegment s)
    (root : List (String × Value)) :
    ∀ {entries : List (String × JsonNode)} {as : List SetAssignment},
    Json.fieldsWritable (JsonNode.entriesToJson entries) = true → entries ≠ [] →
    collectAssignments path entries = .ok as →
    runWrites root (entryWrites path entries) = .ok (putAt path (addEntries entries) root)
  | [], as, _, hne, _ => absurd rfl hne
  | (key, value) :: entries, as, hwritable, _, h => by
    rw [JsonNode.entriesToJson, Json.fieldsWritable] at hwritable
    simp only [Bool.and_eq_true, Bool.not_eq_true'] at hwritable
    obtain ⟨⟨⟨hname, hempty⟩, hvalue⟩, hentries⟩ := hwritable
    rw [collectAssignments] at h
    split_ifs at h with hdigits
    obtain ⟨out, hout, h⟩ := Throwing.exists_of_bind_eq_ok h
    obtain ⟨rest, hrest, -⟩ := Throwing.exists_of_bind_eq_ok h
    rw [entryWrites, runWrites_append,
      runWrites_node hpath ⟨hname, by simpa using hdigits⟩ root hvalue hempty hout]
    by_cases hne : entries = []
    · subst hne
      simp [entryWrites, runWrites, addEntries, pure, Except.pure, bind, Except.bind]
    · have hnext := runWrites_entries hpath (putAt path (addNode key value) root) hentries hne hrest
      simp only [bind, Except.bind, hnext, putAt_putAt]
      simp [addEntries]

end

/-! ## A document whose keys differ -/

mutual

theorem toValue_toJson_leaf : ∀ leaf : JsonLeaf, leaf.toJson.toValue = leaf.toValue
  | .null | .bool _ | .num none | .num (some _) | .str _ => by
    simp [toJson, Json.toValue, toValue]
  | .arr items => by
    rw [toJson, Json.toValue, toValue, toValues_itemsToJson items]

theorem toValues_itemsToJson : ∀ items : List JsonLeaf,
    Json.itemsToValues (itemsToJson items) = itemsToValues items
  | [] => by simp [itemsToJson, Json.itemsToValues, itemsToValues]
  | item :: items => by
    rw [itemsToJson, Json.itemsToValues, itemsToValues, toValue_toJson_leaf item,
      toValues_itemsToJson items]

end

/-- The fields of a document. -/
def entryValues (entries : List (String × JsonNode)) : List (String × Value) :=
  Json.fieldsToValues (JsonNode.entriesToJson entries)

theorem entryValues_cons (key : String) (value : JsonNode) (entries : List (String × JsonNode)) :
    entryValues ((key, value) :: entries) = (key, value.toJson.toValue) :: entryValues entries := by
  simp [entryValues, JsonNode.entriesToJson, Json.fieldsToValues]

theorem keys_entryValues (entries : List (String × JsonNode)) :
    (entryValues entries).map (·.1) = entries.map (·.1) := by
  induction entries with
  | nil => simp [entryValues, JsonNode.entriesToJson, Json.fieldsToValues]
  | cons p entries ih =>
    obtain ⟨key, value⟩ := p
    rw [entryValues_cons, map_cons, map_cons, ih]

mutual

theorem addNode_eq {key : String} : ∀ {node : JsonNode} {fields : List (String × Value)},
    node.Distinct → OrdMap.get? key fields = none →
    addNode key node fields = fields ++ [(key, node.toJson.toValue)]
  | .leaf leaf, fields, _, hnone => by
    rw [addNode, OrdMap.set_of_get?_eq_none hnone, JsonNode.toJson, toValue_toJson_leaf]
  | .obj entries, fields, hdistinct, hnone => by
    rw [JsonNode.Distinct] at hdistinct
    rw [addNode, OrdMap.set_of_get?_eq_none hnone, hnone, innerFields,
      addEntries_eq hdistinct.2 hdistinct.1 (by simp), nil_append, JsonNode.toJson,
      Json.toValue, entryValues]
    simp

/-- The writes of entries with new keys append their fields. -/
theorem addEntries_eq : ∀ {entries : List (String × JsonNode)} {fields : List (String × Value)},
    JsonNode.EntriesDistinct entries → (entries.map (·.1)).Nodup →
    (∀ p ∈ entries, OrdMap.get? p.1 fields = none) →
    addEntries entries fields = fields ++ entryValues entries
  | [], fields, _, _, _ => by
    simp [addEntries, entryValues, JsonNode.entriesToJson, Json.fieldsToValues]
  | (key, value) :: entries, fields, hdistinct, hnodup, hnew => by
    rw [JsonNode.EntriesDistinct] at hdistinct
    rw [map_cons, nodup_cons] at hnodup
    obtain ⟨hkey, hrest⟩ := forall_mem_cons.mp hnew
    rw [addEntries, addNode_eq hdistinct.1 hkey, addEntries_eq hdistinct.2 hnodup.2, entryValues_cons]
    · simp
    · intro p hp
      rw [← OrdMap.set_of_get?_eq_none hkey, OrdMap.get?_set_of_ne]
      · exact hrest p hp
      · intro heq
        exact hnodup.1 (heq ▸ mem_map_of_mem hp)

end

variable {entries : List (String × JsonNode)}

/-- **The assignments of a writable document make its value.** -/
theorem runWrites_entryWrites {as : List SetAssignment} (hdistinct : (JsonNode.obj entries).Distinct)
    (hwritable : (JsonNode.obj entries).toJson.writable = true)
    (h : collectAssignments [] entries = .ok as) :
    runWrites [] (entryWrites [] entries) = .ok (entryValues entries) := by
  rw [JsonNode.Distinct] at hdistinct
  rw [JsonNode.toJson, Json.writable] at hwritable
  by_cases hne : entries = []
  · subst hne
    simp [entryWrites, runWrites, entryValues, JsonNode.entriesToJson, Json.fieldsToValues, pure,
      Except.pure]
  · rw [runWrites_entries (by simp) [] hwritable hne h, putAt,
      addEntries_eq hdistinct.2 hdistinct.1 (by simp), nil_append]

/-! ## What no assignments make -/

/-- A property of every key of a value, and what it holds, at every level. -/
inductive Value.Tidy (P : String → Value → Prop) : Value → Prop
  | leaf {v : Value} (h : ∀ fields, v ≠ .obj fields) : Tidy P v
  | obj {fields : List (String × Value)} (hp : ∀ k v, OrdMap.get? k fields = some v → P k v)
      (h : ∀ k v, OrdMap.get? k fields = some v → Tidy P v) : Tidy P (.obj fields)

namespace Value

variable {P : String → Value → Prop}

theorem Tidy.alike {v w : Value} (h : Tidy P v) (hP : ∀ k v w, Alike v w → P k v → P k w)
    (halike : Alike v w) : Tidy P w := by
  induction halike with
  | leaf hleaf => exact h
  | @obj fields fields' keys hsame ih =>
    cases h with
    | leaf hleaf => exact absurd rfl (hleaf fields)
    | obj hp hrest =>
      have hfind : ∀ k w, OrdMap.get? k fields' = some w → ∃ v, OrdMap.get? k fields = some v := by
        intro k w hw
        cases hget : OrdMap.get? k fields with
        | none => simp [(keys k).mp hget] at hw
        | some v => exact ⟨v, by simp⟩
      refine .obj (fun k w hw ↦ ?_) fun k w hw ↦ ?_
      · obtain ⟨v, hv⟩ := hfind k w hw
        exact hP k v w (hsame k v w hv hw) (hp k v hv)
      · obtain ⟨v, hv⟩ := hfind k w hw
        exact ih k v w hv hw (hrest k v hv)

theorem tidy_set {fields : List (String × Value)} (h : Tidy P (.obj fields)) {key : String}
    {value : Value} (hvalue : Tidy P value) (hkey : P key value) :
    Tidy P (.obj (OrdMap.set key value fields)) := by
  cases h with
  | leaf hleaf => exact absurd rfl (hleaf fields)
  | obj hp hrest =>
    refine .obj (fun k w hw ↦ ?_) fun k w hw ↦ ?_
    · rw [OrdMap.get?_set] at hw
      split_ifs at hw with hk
      · cases hw
        exact hk ▸ hkey
      · exact hp k w hw
    · rw [OrdMap.get?_set] at hw
      split_ifs at hw with hk
      · cases hw
        exact hvalue
      · exact hrest k w hw

theorem tidy_innerFields {fields : List (String × Value)} (h : Tidy P (.obj fields)) (key : String) :
    Tidy P (.obj (innerFields (OrdMap.get? key fields))) := by
  have hnil : Tidy P (.obj []) := .obj (by simp) (by simp)
  cases hget : OrdMap.get? key fields with
  | none => exact hnil
  | some w =>
    cases h with
    | leaf hleaf => exact absurd rfl (hleaf fields)
    | obj hp hrest =>
      cases w with
      | obj inner => exact hrest key _ hget
      | _ => exact hnil

end Value

/-- The key is the name of a segment. -/
def Named (key : String) (_ : Value) : Prop := Json.isFieldName key = true

/-- The field is no empty object. -/
def Full (_ : String) (value : Value) : Prop := value ≠ .obj []

theorem named_iff {key : String} {value : Value} :
    Named key value ↔ key ≠ "" ∧ '.' ∉ key.toList ∧ key ≠ "__proto__" := by
  simp [Named, Json.isFieldName, and_assoc]

/-- `setPath` makes no key but the names of segments: what is written to the prototype is lost. -/
theorem named_setSegments {value : Value} (hleaf : ∀ fields, value ≠ .obj fields) :
    ∀ {path : List String} {fields : List (String × Value)},
    (∀ s ∈ path, s ≠ "" ∧ '.' ∉ s.toList) → Value.Tidy Named (.obj fields) →
    Value.Tidy Named (.obj (setSegments path value fields)) := by
  intro path
  induction path with
  | nil => exact fun _ htidy ↦ htidy
  | cons segment rest ih =>
    intro fields hpath htidy
    obtain ⟨⟨hne, hdot⟩, hrest⟩ := forall_mem_cons.mp hpath
    by_cases hseg : segment = "__proto__"
    · subst hseg
      have hwrites : writesPrototype "__proto__" fields = true := by
        cases hget : OrdMap.get? "__proto__" fields with
        | none => simp [writesPrototype, hget]
        | some w =>
          cases htidy with
          | leaf hleaf => exact absurd rfl (hleaf fields)
          | obj hp _ => exact absurd rfl (named_iff.mp (hp _ w hget)).2.2
      cases rest with
      | nil => rwa [setSegments, hwrites, if_pos rfl]
      | cons next rest => rwa [setSegments, hwrites, if_pos rfl]; simp
    · have hnamed : ∀ w, Named segment w := fun w ↦ named_iff.mpr ⟨hne, hdot, hseg⟩
      cases rest with
      | nil =>
        have hwrites : writesPrototype segment fields = false := by simp [writesPrototype, hseg]
        rw [setSegments, hwrites, if_neg Bool.false_ne_true]
        exact Value.tidy_set htidy (.leaf hleaf) (hnamed _)
      | cons next rest =>
        rw [setSegments_cons hseg]
        exact Value.tidy_set htidy (ih hrest (Value.tidy_innerFields htidy segment)) (hnamed _)

/-- Away from the prototype it makes no empty object. -/
theorem full_setSegments {value : Value} (hleaf : ∀ fields, value ≠ .obj fields) :
    ∀ {path : List String} {fields : List (String × Value)}, path ≠ [] →
    (∀ s ∈ path, s ≠ "__proto__") → Value.Tidy Full (.obj fields) →
    Value.Tidy Full (.obj (setSegments path value fields)) ∧ setSegments path value fields ≠ [] := by
  have hset : ∀ (key : String) (v : Value) (fields : List (String × Value)),
      OrdMap.set key v fields ≠ [] := by
    intro key v fields hnil
    have hget := OrdMap.get?_set_self key v fields
    simp [hnil] at hget
  intro path
  induction path with
  | nil => exact fun hne ↦ absurd rfl hne
  | cons segment rest ih =>
    intro fields _ hpath htidy
    obtain ⟨hseg, hrest⟩ := forall_mem_cons.mp hpath
    cases rest with
    | nil =>
      have hwrites : writesPrototype segment fields = false := by simp [writesPrototype, hseg]
      rw [setSegments, hwrites, if_neg Bool.false_ne_true]
      exact ⟨Value.tidy_set htidy (.leaf hleaf) (hleaf []), hset _ _ _⟩
    | cons next rest =>
      obtain ⟨hinner, hne⟩ := ih (by simp) hrest (Value.tidy_innerFields htidy segment)
      rw [setSegments_cons hseg]
      exact ⟨Value.tidy_set htidy hinner (by simpa [Full] using hne), hset _ _ _⟩

/-- What every write keeps holds of what the writes make. -/
theorem tidy_runWrites {P : String → Value → Prop} {writes : List (String × Value)}
    (hwrite : ∀ w ∈ writes, ∀ root root', setPath root w.1 w.2 = .ok root' →
      Value.Tidy P (.obj root) → Value.Tidy P (.obj root')) :
    ∀ {root fields : List (String × Value)}, Value.Tidy P (.obj root) →
      runWrites root writes = .ok fields → Value.Tidy P (.obj fields) := by
  induction writes with
  | nil =>
    intro root fields htidy h
    cases h
    exact htidy
  | cons w writes ih =>
    intro root fields htidy h
    obtain ⟨hw, hws⟩ := forall_mem_cons.mp hwrite
    rw [runWrites, foldlM_cons] at h
    obtain ⟨root', hroot', h⟩ := Throwing.exists_of_bind_eq_ok h
    exact ih hws (hw root root' hroot' htidy) h

theorem setPath_eq_ok {root root' : List (String × Value)} {name : String} {value : Value}
    (h : setPath root name value = .ok root') :
    (∀ s ∈ name.splitOn ".", s ≠ "" ∧ '.' ∉ s.toList) ∧
      root' = setSegments (name.splitOn ".") value root := by
  rw [setPath] at h
  split at h
  · split_ifs at h
  next hfind =>
    refine ⟨fun s hs ↦ ⟨?_, SplitOn.not_mem_of_mem_splitOn hs⟩, (Except.ok.inj h).symm⟩
    have hok := find?_eq_none.mp hfind s hs
    rintro rfl
    simp at hok

mutual

/-- The values of the writes are leaves. -/
theorem leaf_nodeWrites {path : List String} : ∀ {node : JsonNode},
    ∀ w ∈ nodeWrites path node, ∀ fields, w.2 ≠ .obj fields
  | .leaf leaf, w, hw, fields => by
    rw [nodeWrites, mem_singleton] at hw
    subst hw
    cases leaf with
    | num q => cases q <;> simp [toValue]
    | _ => simp [toValue]
  | .obj entries, w, hw, fields => by
    rw [nodeWrites] at hw
    exact leaf_entryWrites w hw fields

theorem leaf_entryWrites {path : List String} : ∀ {entries : List (String × JsonNode)},
    ∀ w ∈ entryWrites path entries, ∀ fields, w.2 ≠ .obj fields
  | [], w, hw, fields => by simp [entryWrites] at hw
  | (key, value) :: entries, w, hw, fields => by
    rw [entryWrites, mem_append] at hw
    rcases hw with hw | hw
    · exact leaf_nodeWrites w hw fields
    · exact leaf_entryWrites w hw fields

end

theorem tidy_nil (P : String → Value → Prop) : Value.Tidy P (.obj []) := .obj (by simp) (by simp)

/-- Every key the assignments make is the name of a segment. -/
theorem named_of_runWrites {fields : List (String × Value)}
    (h : runWrites [] (entryWrites [] entries) = .ok fields) : Value.Tidy Named (.obj fields) := by
  refine tidy_runWrites (fun w hw root root' hset htidy ↦ ?_) (tidy_nil _) h
  obtain ⟨hsegments, rfl⟩ := setPath_eq_ok hset
  exact named_setSegments (leaf_entryWrites w hw) hsegments htidy

/-- A field of a document whose keys differ. -/
theorem tidy_entry {P : String → Value → Prop} (hnodup : (entries.map (·.1)).Nodup)
    (h : Value.Tidy P (.obj (entryValues entries))) {key : String} {value : JsonNode}
    (hmem : (key, value) ∈ entries) :
    P key value.toJson.toValue ∧ Value.Tidy P value.toJson.toValue := by
  have hfield : (key, value.toJson.toValue) ∈ entryValues entries := by
    clear h hnodup
    induction entries with
    | nil => simp at hmem
    | cons p entries ih =>
      obtain ⟨k, v⟩ := p
      rw [entryValues_cons]
      rcases mem_cons.mp hmem with heq | hmem
      · cases heq
        simp
      · exact .tail _ (ih hmem)
  have hget := OrdMap.get?_of_mem (by rwa [keys_entryValues]) hfield
  cases h with
  | leaf hleaf => exact absurd rfl (hleaf _)
  | obj hp hrest => exact ⟨hp _ _ hget, hrest _ _ hget⟩

mutual

/-- Below keys that are names, a write is to a path of names. -/
theorem names_nodeWrites {path : List String} (hne : path ≠ [])
    (hpath : ∀ s ∈ path, Json.isFieldName s = true) : ∀ {node : JsonNode}, node.Distinct →
    Value.Tidy Named node.toJson.toValue → ∀ w ∈ nodeWrites path node,
      ∃ p, p ≠ [] ∧ (∀ s ∈ p, Json.isFieldName s = true) ∧ w.1 = ".".intercalate p
  | .leaf leaf, _, _, w, hw => by
    rw [nodeWrites, mem_singleton] at hw
    exact ⟨path, hne, hpath, by rw [hw]⟩
  | .obj entries, hdistinct, htidy, w, hw => by
    rw [JsonNode.Distinct] at hdistinct
    rw [nodeWrites] at hw
    exact names_entryWrites hpath hdistinct.2 (fun _ _ ↦ tidy_entry hdistinct.1 htidy) w hw

theorem names_entryWrites {path : List String} (hpath : ∀ s ∈ path, Json.isFieldName s = true) :
    ∀ {entries : List (String × JsonNode)}, JsonNode.EntriesDistinct entries →
    (∀ key value, (key, value) ∈ entries →
      Named key value.toJson.toValue ∧ Value.Tidy Named value.toJson.toValue) →
    ∀ w ∈ entryWrites path entries,
      ∃ p, p ≠ [] ∧ (∀ s ∈ p, Json.isFieldName s = true) ∧ w.1 = ".".intercalate p
  | [], _, _, w, hw => by simp [entryWrites] at hw
  | (key, value) :: entries, hdistinct, hkeys, w, hw => by
    rw [JsonNode.EntriesDistinct] at hdistinct
    rw [entryWrites, mem_append] at hw
    rcases hw with hw | hw
    · obtain ⟨hnamed, htidy⟩ := hkeys key value (by simp)
      have hpath' : ∀ s ∈ path ++ [key], Json.isFieldName s = true := by
        simpa [or_imp, forall_and] using ⟨hpath, hnamed⟩
      exact names_nodeWrites (by simp) hpath' hdistinct.1 htidy w hw
    · exact names_entryWrites hpath hdistinct.2
        (fun k v hmem ↦ hkeys k v (.tail _ hmem)) w hw

end

/-- With keys that are names, the assignments make no empty object below the root. -/
theorem full_of_runWrites {fields : List (String × Value)} (hdistinct : (JsonNode.obj entries).Distinct)
    (htidy : Value.Tidy Named (.obj (entryValues entries)))
    (h : runWrites [] (entryWrites [] entries) = .ok fields) : Value.Tidy Full (.obj fields) := by
  rw [JsonNode.Distinct] at hdistinct
  refine tidy_runWrites (fun w hw root root' hset hfull ↦ ?_) (tidy_nil _) h
  obtain ⟨path, hne, hnames, hw1⟩ := names_entryWrites (by simp) hdistinct.2
    (fun _ _ ↦ tidy_entry hdistinct.1 htidy) w hw
  have hname : ∀ s ∈ path, s ≠ "" ∧ '.' ∉ s.toList ∧ s ≠ "__proto__" := fun s hs ↦
    (@named_iff s .null).mp (hnames s hs)
  have hsplit : w.1.splitOn "." = path := by
    rw [hw1, SplitOn.splitOn_intercalate hne fun s hs ↦ (hname s hs).2.1]
  obtain ⟨-, rfl⟩ := setPath_eq_ok hset
  rw [hsplit]
  exact (full_setSegments (leaf_entryWrites w hw) hne (fun s hs ↦ (hname s hs).2.2) hfull).1

mutual

/-- A document with nothing but names for keys, and no empty object below the root, is writable. -/
theorem writable_of_tidy : ∀ {node : JsonNode}, node.Distinct →
    Value.Tidy Named node.toJson.toValue → Value.Tidy Full node.toJson.toValue →
    node.toJson.writable = true
  | .leaf leaf, _, _, _ => by
    cases leaf <;> simp [JsonNode.toJson, toJson, Json.writable]
  | .obj entries, hdistinct, hnamed, hfull => by
    rw [JsonNode.Distinct] at hdistinct
    rw [JsonNode.toJson, Json.writable]
    exact fieldsWritable_of_tidy hdistinct.2 (fun _ _ ↦ tidy_entry hdistinct.1 hnamed)
      fun _ _ ↦ tidy_entry hdistinct.1 hfull

theorem fieldsWritable_of_tidy : ∀ {entries : List (String × JsonNode)},
    JsonNode.EntriesDistinct entries →
    (∀ key value, (key, value) ∈ entries →
      Named key value.toJson.toValue ∧ Value.Tidy Named value.toJson.toValue) →
    (∀ key value, (key, value) ∈ entries →
      Full key value.toJson.toValue ∧ Value.Tidy Full value.toJson.toValue) →
    Json.fieldsWritable (JsonNode.entriesToJson entries) = true
  | [], _, _, _ => by simp [JsonNode.entriesToJson, Json.fieldsWritable]
  | (key, value) :: entries, hdistinct, hnamed, hfull => by
    rw [JsonNode.EntriesDistinct] at hdistinct
    obtain ⟨hkey, hvalue⟩ := hnamed key value (by simp)
    obtain ⟨hne, hvalue'⟩ := hfull key value (by simp)
    have hempty : value.toJson.isEmptyObj = false := by
      rw [Bool.eq_false_iff]
      intro hempty
      rw [Json.isEmptyObj.eq_def] at hempty
      split at hempty
      next hobj => exact hne (by rw [hobj, Json.toValue, Json.fieldsToValues])
      next => exact absurd hempty Bool.false_ne_true
    have hrest := fieldsWritable_of_tidy hdistinct.2
      (fun k v hmem ↦ hnamed k v (.tail _ hmem))
      fun k v hmem ↦ hfull k v (.tail _ hmem)
    have hfirst := writable_of_tidy hdistinct.1 hvalue hvalue'
    rw [Named] at hkey
    rw [JsonNode.entriesToJson, Json.fieldsWritable, hkey, hempty, hfirst, hrest]
    simp

end

/-! ## The whole document -/

mutual

/-- A value is like itself. -/
theorem Value.Alike.refl : ∀ v : Value, Value.Alike v v
  | .obj fields => .obj (fun _ ↦ Iff.rfl) fun k v v' hv hv' ↦ by
      cases hv.symm.trans hv'
      exact fieldsAlike fields k v (OrdMap.mem_of_get? hv)
  | .undefined | .null | .bool _ | .num _ | .str _ | .arr _ => .leaf (by simp)

theorem fieldsAlike : ∀ (fields : List (String × Value)) (k : String) (v : Value),
    (k, v) ∈ fields → Value.Alike v v
  | [], _, _, h => nomatch h
  | (key, value) :: fields, k, v, h => by
    by_cases heq : (k, v) = (key, value)
    · obtain ⟨rfl, rfl⟩ := Prod.mk.inj heq
      exact Value.Alike.refl v
    · exact fieldsAlike fields k v (mem_of_ne_of_mem heq h)

end

section Document

variable {nt : NumberText} {text : String} {value : Json} {as : List SetAssignment}

/-- An accepted document is an object, and its assignments are the writes of its entries. -/
theorem entries_of_jsonToAssignments (hdoc : IsJsonDocument nt text value)
    (hplain : value.plain = true) (h : jsonToAssignments nt text = .ok as) :
    ∃ entries, value = (JsonNode.obj entries).toJson ∧ (JsonNode.obj entries).Distinct ∧
      collectAssignments [] entries = .ok as ∧
      as.mapM SetAssignment.constant? = some (entryWrites [] entries) := by
  rw [jsonToAssignments.eq_def] at h
  split at h
  · exact nomatch h
  · exact nomatch h
  next entries hread =>
    obtain ⟨rfl, hdistinct⟩ := readJson_sound hdoc hread
    refine ⟨entries, rfl, hdistinct, h, ?_⟩
    rw [JsonNode.toJson, Json.plain] at hplain
    exact constants_collectAssignments hplain h
  · exact nomatch h
  · exact nomatch h

theorem toValue_obj (entries : List (String × JsonNode)) :
    (JsonNode.obj entries).toJson.toValue = .obj (entryValues entries) := by
  rw [JsonNode.toJson, Json.toValue, entryValues]

theorem produces_of_writable (hdoc : IsJsonDocument nt text value) (hplain : value.plain = true)
    (h : jsonToAssignments nt text = .ok as) (hwritable : value.writable = true) :
    ∃ fields, Produces as fields ∧ Value.Alike (.obj fields) value.toValue := by
  obtain ⟨entries, rfl, hdistinct, hcollect, hwrites⟩ := entries_of_jsonToAssignments hdoc hplain h
  refine ⟨entryValues entries, ⟨_, hwrites, runWrites_entryWrites hdistinct hwritable hcollect⟩, ?_⟩
  rw [toValue_obj]
  exact .refl _

/-- What the assignments make has only names for keys and no empty object, and so has the document
that is like it. -/
theorem writable_of_produces (hdoc : IsJsonDocument nt text value) (hplain : value.plain = true)
    (h : jsonToAssignments nt text = .ok as) {fields : List (String × Value)}
    (hproduces : Produces as fields) (halike : Value.Alike (.obj fields) value.toValue) :
    value.writable = true := by
  obtain ⟨entries, rfl, hdistinct, -, hwrites⟩ := entries_of_jsonToAssignments hdoc hplain h
  obtain ⟨writes, hwrites', hrun⟩ := hproduces
  cases hwrites.symm.trans hwrites'
  have hnamed := (named_of_runWrites hrun).alike (fun _ _ _ _ hk ↦ hk) halike
  have hfull' := full_of_runWrites hdistinct (by rwa [← toValue_obj]) hrun
  have hfull := hfull'.alike (fun _ v w hvw hv ↦ ?_) halike
  · exact writable_of_tidy hdistinct hnamed hfull
  · rintro rfl
    cases hvw with
    | leaf hleaf => exact hleaf [] rfl
    | @obj inner _ keys _ =>
      refine hv ?_
      cases inner with
      | nil => rfl
      | cons p inner => simpa [OrdMap.get?] using (keys p.1).mpr (by simp)

/-- **The assignments of an accepted document make its value exactly if it is writable**: every key
is the name of a segment, and none holds an empty object. -/
theorem produces_iff (hdoc : IsJsonDocument nt text value) (hplain : value.plain = true)
    (h : jsonToAssignments nt text = .ok as) :
    (∃ fields, Produces as fields ∧ Value.Alike (.obj fields) value.toValue) ↔
      value.writable = true :=
  ⟨fun ⟨_, hproduces, halike⟩ ↦ writable_of_produces hdoc hplain h hproduces halike,
    produces_of_writable hdoc hplain h⟩

end Document

/-! ## Documents of one member -/

/-- Characters that stand for themselves in a string. -/
def Unescaped (s : String) : Prop := ∀ c ∈ s.toList, c ≠ '"' ∧ c ≠ '\\' ∧ 32 ≤ c.toNat

instance (s : String) : Decidable (Unescaped s) := List.decidableBAll _ s.toList

theorem isJsonString_quoted {s : String} (h : Unescaped s) :
    IsJsonString ('"' :: (s.toList ++ ['"'])) s := by
  have hchars : ∀ cs : List Char, (∀ c ∈ cs, c ≠ '"' ∧ c ≠ '\\' ∧ 32 ≤ c.toNat) →
      JsonChars cs (cs.flatMap Utf16.units) := by
    intro cs hcs
    induction cs with
    | nil => exact .nil
    | cons c cs ih =>
      obtain ⟨⟨hquote, hback, hcontrol⟩, hcs⟩ := forall_mem_cons.mp hcs
      exact .plain hquote hback hcontrol (ih hcs)
  exact ⟨s.toList, _, by simp, hchars _ h,
    by rw [Utf16.decode_flatMap_units, String.ofList_toList]⟩

/-- `{"key":"value"}`. -/
def memberText (key value : String) : String :=
  String.ofList ('\x7b' :: '"' :: (key.toList ++
    ('"' :: ':' :: '"' :: (value.toList ++ ['"', '\x7d']))))

theorem isJsonDocument_member {nt : NumberText} {key value : String} (hkey : Unescaped key)
    (hvalue : Unescaped value) :
    IsJsonDocument nt (memberText key value) (.obj [(key, .str value)]) := by
  have hspace : IsJsonSpace [] := by simp [IsJsonSpace]
  let part : JsonPart := ⟨[], '"' :: (value.toList ++ ['"']), [], .str value⟩
  let m : JsonMember := ⟨[], '"' :: (key.toList ++ ['"']), key, [], part⟩
  have hspaced : ∀ x ∈ [m], x.IsSpaced := by
    simpa using ⟨hspace, hspace, ⟨hspace, hspace⟩, isJsonString_quoted hkey⟩
  have hvalues : ∀ x ∈ [m], JsonText nt x.part.text x.part.value := by
    simpa using .string (isJsonString_quoted hvalue)
  refine ⟨⟨[], _, [], _⟩, ?_, ?_, ⟨hspace, hspace⟩, .obj (by simp) hspaced hvalues⟩
  · simp [memberText, JsonPart.chars, JsonMember.chars, m, part]
  · simp [m, part]

theorem readString_unescaped (text : List Char) {s : String} (h : Unescaped s) (rest : List Char) :
    readString text (s.toList ++ '"' :: rest) = .ok (s, rest) := by
  have hquote : s.toList.flatMap quoteChar = s.toList := by
    have hchars : ∀ cs : List Char, (∀ c ∈ cs, c ≠ '"' ∧ c ≠ '\\' ∧ 32 ≤ c.toNat) →
        cs.flatMap quoteChar = cs := by
      intro cs hcs
      induction cs with
      | nil => simp
      | cons c cs ih =>
        obtain ⟨⟨hquote, hback, hcontrol⟩, hcs⟩ := forall_mem_cons.mp hcs
        have hc : quoteChar c = [c] := by
          have hne : ∀ d : Char, d.toNat < 32 → c ≠ d := by
            rintro d hd rfl
            omega
          simp [quoteChar, hquote, hback, hne '\n' (by decide), hne '\t' (by decide),
            hne '\r' (by decide), hne (Char.ofNat 8) (by decide), hne (Char.ofNat 12) (by decide)]
          omega
        rw [flatMap_cons, hc, ih hcs, singleton_append]
    exact hchars _ h
  have hread := readString_quote text s rest
  rwa [hquote] at hread

/-- The member is read, and becomes one assignment. -/
theorem jsonToAssignments_memberText (nt : NumberText) {key value : String} (hkey : Unescaped key)
    (hvalue : Unescaped value) (hdigits : isDigitsOnlySegment key = false) :
    jsonToAssignments nt (memberText key value) =
      .ok [⟨.const (.str key), decodeLeaf (.str value)⟩] := by
  have hquote : ∀ cs, skipWs ('"' :: cs) = '"' :: cs := fun _ ↦ skipWs_cons (by decide) _
  have hcolon : ∀ cs, skipWs (':' :: cs) = ':' :: cs := fun _ ↦ skipWs_cons (by decide) _
  have hopen : ∀ cs, skipWs ('\x7b' :: cs) = '\x7b' :: cs := fun _ ↦ skipWs_cons (by decide) _
  have hclose : ∀ cs, skipWs ('\x7d' :: cs) = '\x7d' :: cs := fun _ ↦ skipWs_cons (by decide) _
  have hstring : ∀ (text : List Char) (fuel : Nat),
      readValue nt text (fuel + 1) ('"' :: (value.toList ++ '"' :: ['\x7d'])) =
        .ok (.leaf (.str value), ['\x7d']) := by
    intro text fuel
    rw [readValue, hquote]
    simp [readString_unescaped text hvalue, bind, Except.bind, pure, Except.pure]
  have hmembers : ∀ (text : List Char) (fuel : Nat),
      readMembers nt text [] (fuel + 2) ('"' :: (key.toList ++ '"' :: ':' :: '"' ::
        (value.toList ++ '"' :: ['\x7d']))) = .ok ([(key, .leaf (.str value))], []) := by
    intro text fuel
    rw [readMembers, hquote]
    simp [readString_unescaped text hkey, hcolon, hstring text fuel, hclose, bind, Except.bind,
      pure, Except.pure]
  have hread : readJson nt (memberText key value).toList =
      .ok (.obj [(key, .leaf (.str value))]) := by
    obtain ⟨fuel, hfuel⟩ : ∃ fuel, 2 * (memberText key value).toList.length + 1 = fuel + 3 := by
      refine ⟨2 * (memberText key value).toList.length - 2, ?_⟩
      simp [memberText]
    rw [readJson, hfuel, memberText, String.toList_ofList, readValue, hopen]
    simp [hquote, hmembers, show skipWs [] = [] by simp [skipWs], bind, Except.bind, pure,
      Except.pure]
  rw [jsonToAssignments, hread]
  simp [collectAssignments, hdigits, collectNode, bind, Except.bind, pure, Except.pure]

theorem produces_iff_greeting : ∃ as,
    jsonToAssignments wholeNumbers (memberText "greeting" "hi") = .ok as ∧
    ((∃ fields, Produces as fields ∧
        Value.Alike (.obj fields) (Json.obj [("greeting", .str "hi")]).toValue) ↔
      (Json.obj [("greeting", .str "hi")]).writable = true) :=
  have has := jsonToAssignments_memberText wholeNumbers (show Unescaped "greeting" by decide)
    (show Unescaped "hi" by decide) (by decide)
  ⟨_, has, produces_iff (isJsonDocument_member (by decide) (by decide)) (by decide) has⟩

/-- The key `a.b` becomes a path of two segments. -/
theorem dottedKey_lost : ¬ ∀ (text : String) (value : Json) (as : List SetAssignment),
    IsJsonDocument wholeNumbers text value → value.plain = true →
    jsonToAssignments wholeNumbers text = .ok as →
    ∃ fields, Produces as fields ∧ Value.Alike (.obj fields) value.toValue := by
  intro hall
  have hdoc : IsJsonDocument wholeNumbers (memberText "a.b" "hi") (.obj [("a.b", .str "hi")]) :=
    isJsonDocument_member (by decide) (by decide)
  have has := jsonToAssignments_memberText wholeNumbers (show Unescaped "a.b" by decide)
    (show Unescaped "hi" by decide) (by decide)
  obtain ⟨fields, hproduces, halike⟩ := hall _ _ _ hdoc (by decide) has
  exact absurd (writable_of_produces hdoc (by decide) has hproduces halike) (by decide)

end Enkaku
