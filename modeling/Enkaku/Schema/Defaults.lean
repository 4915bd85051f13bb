import Enkaku.Schema.Limits
import Enkaku.Schema.Quiet
import Enkaku.Workflow.SetRoundTrip

/-!
# Filling in defaults

`applySchemaDefaults`: every property a schema declares a default for and the caller left out.

A node with `properties` is a group, and the code rebuilds it whatever stands there: an object with
its members filled in, and an object of defaults alone for everything else.  Each branch follows
references of its own, where `check` shares the references it has followed between branches.

`applySchemaDefaults_onlyAdds` is what filling does and does not do to the values that were supplied,
to the verdict of `validateAgainstSchema` and to what is filled already.
-/

set_option autoImplicit false

namespace Enkaku.Schema

/-! ## The code -/

/-- `UNSAFE_DEFAULT_KEYS`. -/
def unsafeDefaultKeys : List String := ["__proto__", "constructor", "prototype"]

/-- `if (filled !== undefined) base[key] = filled`.  What is filled is a function only where the
object inherits that very function, and reads the same whether it is written or not. -/
def assignFilled (base : Node) (key : String) : Read → Node
  | .own .undefined => base
  | .own v => OrdMap.set key v base
  | .method | .prototype => base

/-- How a child is filled. -/
abbrev Filler := Node → Read → Read

/-- One turn of the loop of `fillDefaults`. -/
def fillProperty (fill : Filler) (base : Node) (p : String × Value) : Node :=
  if p.1 ∈ unsafeDefaultKeys then base
  else match p.2 with
    | .obj child => assignFilled base p.1 (fill child ((Read.own (.obj base)).prop p.1))
    | _ => base

/-- `fillDefaults`, with the levels left before `maxDepth`. -/
def fillDefaults (root : Node) : Nat → List String → Filler
  | 0, _ => fun _ value ↦ value
  | fuel + 1, visited => fun node value ↦
    match derefNode root node visited with
    | (none, _) => value
    | (some resolved, visited) =>
      match properties? resolved with
      | some properties =>
        .own (.obj (properties.foldl (fillProperty (fillDefaults root fuel visited))
          (value.fields?.getD [])))
      | none =>
        if value = .own .undefined ∧ resolved.prop "default" ≠ .undefined then
          .own (resolved.prop "default")
        else value

/-- `applySchemaDefaults`. -/
def applySchemaDefaults (schema value : Value) : Value :=
  match schema with
  | .obj root =>
    match fillDefaults root (maxDepth + 1) [] root (.own value) with
    | .own filled => filled
    | _ => value
  | _ => value

/-! ## What is asked of it -/

/-- What a path of keys leads to. -/
def valueAt : List String → Value → Option Value
  | [], v => some v
  | key :: path, .obj fields => (OrdMap.get? key fields).bind (valueAt path)
  | _ :: _, _ => none

/-- Nothing that was supplied is lost: at its path it stands as it is, and an object as an object. -/
def Keeps (supplied filled : Value) : Prop :=
  ∀ path v, valueAt path supplied = some v → v ≠ .undefined →
    ∃ w, valueAt path filled = some w ∧ (w = v ∨ ∃ fields fields', v = .obj fields ∧ w = .obj fields')

/-- Filling only adds. -/
structure OnlyAdds (host : Host) (schema value : Value) : Prop where
  keeps : Keeps value (applySchemaDefaults schema value)
  valid : validateAgainstSchema host schema value = .ok () →
    validateAgainstSchema host schema (applySchemaDefaults schema value) = .ok ()
  idempotent : applySchemaDefaults schema (applySchemaDefaults schema value) =
    applySchemaDefaults schema value

mutual

/-- No object in a value has a key twice. -/
def Distinct : Value → Prop
  | .arr items => DistinctItems items
  | .obj fields => (fields.map (·.1)).Nodup ∧ DistinctFields fields
  | _ => True

def DistinctItems : List Value → Prop
  | [] => True
  | v :: items => Distinct v ∧ DistinctItems items

def DistinctFields : List (String × Value) → Prop
  | [] => True
  | (_, v) :: fields => Distinct v ∧ DistinctFields fields

end

section Conditions

variable (host : Host) (root : Node)

/-- Every default that can be filled in satisfies its node. -/
def DefaultsHold : Nat → List String → Node → Prop
  | 0, _, _ => True
  | fuel + 1, visited, node =>
    match derefNode root node visited with
    | (none, _) => True
    | (some resolved, visited) =>
      match properties? resolved with
      | some properties =>
        ∀ p ∈ properties, p.1 ∉ unsafeDefaultKeys → ∀ child, p.2 = .obj child →
          DefaultsHold fuel visited child
      | none =>
        resolved.prop "default" ≠ .undefined →
          Holds host root (fuel + 1) (.obj node) (.own (resolved.prop "default"))

/-- A member of a group nothing was supplied for, if something is made of its child. -/
def defaultMember (make : Node → Bool → Value) (p : String × Value) : Option (String × Value) :=
  if p.1 ∈ unsafeDefaultKeys then none
  else match p.2 with
    | .obj child =>
      match make child (p.1 ∈ objectMethods) with
      | .undefined => none
      | v => some (p.1, v)
    | _ => none

/-- What a schema makes of a node by itself; of a leaf nothing where a function is inherited. -/
def defaultOf : Nat → List String → Node → Bool → Value
  | 0, _, _, _ => .undefined
  | fuel + 1, visited, node, inherited =>
    match derefNode root node visited with
    | (none, _) => .undefined
    | (some resolved, visited) =>
      match properties? resolved with
      | some properties => .obj (properties.filterMap (defaultMember (defaultOf fuel visited)))
      | none => if inherited then .undefined else resolved.prop "default"

/-- A property of every group that filling comes to: `atGroup` of the group and what stands there, and
the same inside of it if an object stands there and `into` lets it. -/
def AtGroups (into : Node → Prop) (atGroup : Nat → List String → Node → Node → Read → Prop) :
    Nat → List String → Node → Read → Prop
  | 0, _, _, _ => True
  | fuel + 1, visited, node, value =>
    match derefNode root node visited with
    | (none, _) => True
    | (some resolved, visited') =>
      match properties? resolved with
      | none => True
      | some properties =>
        atGroup (fuel + 1) visited node resolved value ∧
          ∀ fields, value.fields? = some fields → into resolved →
            ∀ p ∈ properties, p.1 ∉ unsafeDefaultKeys → ∀ child, p.2 = .obj child →
              AtGroups into atGroup fuel visited' child ((Read.own (.obj fields)).prop p.1)

/-- Where a group stands in the schema, an object was supplied or nothing. -/
def Mergeable : Nat → List String → Node → Read → Prop :=
  AtGroups root (fun _ ↦ True) fun _ _ _ _ value ↦
    value.isPlainObject ∨ value = .own .undefined ∨ value = .method

/-- A group that was supplied has no branches beside its properties. -/
def Apart : Nat → List String → Node → Read → Prop :=
  AtGroups root (checksMembers host) fun _ _ _ resolved value ↦
    value.isPlainObject → branches? resolved = none

/-- A group that was left out satisfies its node when it is made of its defaults. -/
def GroupsHold : Nat → List String → Node → Read → Prop :=
  AtGroups root (checksMembers host) fun fuel visited node _ value ↦
    ¬value.isPlainObject → Holds host root fuel (.obj node) (.own (defaultOf root fuel visited node false))

end Conditions

/-! ## What is filled -/

section Filled

variable {root : Node}

theorem fillDefaults_cases (root : Node) (fuel : Nat) (visited : List String) (node : Node)
    (value : Read) :
    fillDefaults root fuel visited node value = value ∨
      ∃ v, v ≠ .undefined ∧ fillDefaults root fuel visited node value = .own v := by
  cases fuel with
  | zero => exact .inl rfl
  | succ fuel =>
    simp only [fillDefaults]
    split
    · exact .inl rfl
    · split
      · exact .inr ⟨_, by simp, rfl⟩
      · split_ifs with h
        · exact .inr ⟨_, h.2, rfl⟩
        · exact .inl rfl

/-- JSON is filled to JSON. -/
theorem exists_fillDefaults_own (root : Node) (fuel : Nat) (visited : List String) (node : Node)
    (v : Value) : ∃ w, fillDefaults root fuel visited node (.own v) = .own w := by
  rcases fillDefaults_cases root fuel visited node (.own v) with h | ⟨w, -, h⟩
  · exact ⟨v, h⟩
  · exact ⟨w, h⟩

theorem own_applySchemaDefaults (root : Node) (value : Value) :
    .own (applySchemaDefaults (.obj root) value) =
      fillDefaults root (maxDepth + 1) [] root (.own value) := by
  obtain ⟨w, h⟩ := exists_fillDefaults_own root (maxDepth + 1) [] root value
  rw [applySchemaDefaults, h]

theorem prop_congr {fields fields' : Node} {key : String}
    (h : OrdMap.get? key fields = OrdMap.get? key fields') :
    (Read.own (.obj fields)).prop key = (Read.own (.obj fields')).prop key := by
  simp only [Read.prop, h]

theorem prop_of_get? {fields : Node} {key : String} {v : Value} (h : OrdMap.get? key fields = some v) :
    (Read.own (.obj fields)).prop key = .own v := by
  simp only [Read.prop, h]

/-- Only `__proto__` reads the prototype. -/
theorem prop_ne_prototype {key : String} (h : key ∉ unsafeDefaultKeys) (fields : Node) :
    (Read.own (.obj fields)).prop key ≠ .prototype := by
  have hkey : key ≠ "__proto__" := fun heq ↦ h (by simp [heq, unsafeDefaultKeys])
  simp only [Read.prop]
  split
  · simp
  · simp only [hkey, if_false]
    split_ifs <;> simp

/-- A value that is not there may be inherited. -/
theorem prop_of_get?_eq_none {fields : Node} {key : String} (h : OrdMap.get? key fields = none)
    (hkey : key ∉ unsafeDefaultKeys) :
    (Read.own (.obj fields)).prop key = if key ∈ objectMethods then .method else .own .undefined := by
  have hproto : key ≠ "__proto__" := fun heq ↦ hkey (by simp [heq, unsafeDefaultKeys])
  simp only [Read.prop, h, hproto, if_false]

theorem get?_assignFilled_of_ne {base : Node} {key key' : String} (h : key ≠ key') (filled : Read) :
    OrdMap.get? key' (assignFilled base key filled) = OrdMap.get? key' base := by
  unfold assignFilled
  split
  · rfl
  · exact OrdMap.get?_set_of_ne h _ _
  · rfl
  · rfl

/-- What is assigned is what is read, where it is a value or what was read before. -/
theorem prop_assignFilled {base : Node} {key : String} {filled : Read}
    (h : filled = (Read.own (.obj base)).prop key ∨ ∃ v, v ≠ .undefined ∧ filled = .own v) :
    (Read.own (.obj (assignFilled base key filled))).prop key = filled := by
  unfold assignFilled
  split
  · rcases h with h | ⟨v, hv, h⟩
    · exact h.symm
    · exact absurd (Read.own.inj h).symm hv
  · exact prop_of_get? (OrdMap.get?_set_self _ _ _)
  · rcases h with h | ⟨v, -, h⟩
    · exact h.symm
    · cases h
  · rcases h with h | ⟨v, -, h⟩
    · exact h.symm
    · cases h

/-- Writing back what is read changes nothing. -/
theorem assignFilled_prop (base : Node) (key : String) :
    assignFilled base key ((Read.own (.obj base)).prop key) = base := by
  cases h : OrdMap.get? key base with
  | some v =>
    rw [prop_of_get? h]
    have hset : OrdMap.set key v base = base := by
      obtain ⟨l, r, hbase, hset⟩ := OrdMap.set_of_get?_eq_some h v
      rw [hset, ← hbase]
    cases v <;> first | rfl | exact hset
  | none =>
    simp only [Read.prop, h]
    split_ifs <;> rfl

/-! ### The members of a group -/

variable {fill : Filler} {properties base : Node} {key : String} {child : Node}

theorem get?_fillProperty {p : String × Value}
    (h : p.1 = key → key ∉ unsafeDefaultKeys → ∀ child, p.2 ≠ .obj child) :
    OrdMap.get? key (fillProperty fill base p) = OrdMap.get? key base := by
  unfold fillProperty
  split_ifs with hunsafe
  · rfl
  · split
    · rename_i child hchild
      refine get?_assignFilled_of_ne (fun heq ↦ ?_) _
      exact h heq (heq ▸ hunsafe) child hchild
    · rfl

/-- A key no safe child has stays as it was. -/
theorem get?_foldl_fillProperty
    (h : ∀ p ∈ properties, p.1 = key → key ∉ unsafeDefaultKeys → ∀ child, p.2 ≠ .obj child) :
    OrdMap.get? key (properties.foldl (fillProperty fill) base) = OrdMap.get? key base := by
  induction properties generalizing base with
  | nil => rfl
  | cons p properties ih =>
    rw [List.foldl_cons, ih fun q hq ↦ h q (.tail _ hq)]
    exact get?_fillProperty (h p (.head _))

section

variable (hfill : ∀ child value, fill child value = value ∨ ∃ v, v ≠ .undefined ∧ fill child value = .own v)
include hfill

/-- A child is filled from what stood at its key. -/
theorem prop_foldl_fillProperty
    (hnodup : (properties.map (·.1)).Nodup) (hmem : (key, .obj child) ∈ properties)
    (hkey : key ∉ unsafeDefaultKeys) (base : Node) :
    (Read.own (.obj (properties.foldl (fillProperty fill) base))).prop key =
      fill child ((Read.own (.obj base)).prop key) := by
  obtain ⟨before, behind, rfl⟩ := List.append_of_mem hmem
  rw [List.map_append, List.map_cons, List.nodup_append, List.nodup_cons] at hnodup
  obtain ⟨-, ⟨hbehind, -⟩, hbefore⟩ := hnodup
  have hbefore : ∀ p ∈ before, p.1 ≠ key := fun p hp ↦
    hbefore p.1 (List.mem_map_of_mem hp) key (.head _)
  have hbehind : ∀ p ∈ behind, p.1 ≠ key := by
    intro p hp heq
    exact hbehind (heq ▸ List.mem_map_of_mem (f := (·.1)) hp)
  rw [List.foldl_append, List.foldl_cons]
  set base' := before.foldl (fillProperty fill) base with hbase'
  have hsame : (Read.own (.obj base')).prop key = (Read.own (.obj base)).prop key :=
    prop_congr (get?_foldl_fillProperty fun p hp heq ↦ absurd heq (hbefore p hp))
  have hturn : fillProperty fill base' (key, .obj child) =
      assignFilled base' key (fill child ((Read.own (.obj base')).prop key)) := by
    rw [fillProperty, if_neg hkey]
  rw [prop_congr (get?_foldl_fillProperty fun p hp heq ↦ absurd heq (hbehind p hp)), hturn,
    prop_assignFilled (hfill child _), hsame]

/-- No member is lost. -/
theorem prop_foldl_fillProperty_ne_undefined (hnodup : (properties.map (·.1)).Nodup)
    (h : (Read.own (.obj base)).prop key ≠ .own .undefined) :
    (Read.own (.obj (properties.foldl (fillProperty fill) base))).prop key ≠ .own .undefined := by
  by_cases hchild : key ∉ unsafeDefaultKeys ∧ ∃ child, (key, .obj child) ∈ properties
  · obtain ⟨hkey, child, hmem⟩ := hchild
    rw [prop_foldl_fillProperty hfill hnodup hmem hkey]
    rcases hfill child ((Read.own (.obj base)).prop key) with hsame | ⟨v, hv, hown⟩
    · rwa [hsame]
    · rw [hown]
      exact fun heq ↦ hv (Read.own.inj heq)
  · rwa [prop_congr (get?_foldl_fillProperty ?_)]
    rintro ⟨key', v⟩ hmem rfl hkey child rfl
    exact hchild ⟨hkey, child, hmem⟩

end

/-- Members that are filled already stay as they are. -/
theorem foldl_fillProperty_eq_self
    (h : ∀ p ∈ properties, p.1 ∉ unsafeDefaultKeys → ∀ child, p.2 = .obj child →
      fill child ((Read.own (.obj base)).prop p.1) = (Read.own (.obj base)).prop p.1) :
    properties.foldl (fillProperty fill) base = base := by
  induction properties with
  | nil => rfl
  | cons p properties ih =>
    have hturn : fillProperty fill base p = base := by
      unfold fillProperty
      split_ifs with hunsafe
      · rfl
      · split
        · rename_i child hchild
          rw [h p (.head _) hunsafe child hchild, assignFilled_prop]
        · rfl
    rw [List.foldl_cons, hturn]
    exact ih fun q hq ↦ h q (.tail _ hq)

end Filled

/-! ## Keys that are not there twice -/

section Keys

variable {root node resolved fields members : Node} {key : String}

theorem DistinctFields.of_mem {p : String × Value} (h : DistinctFields fields) (hp : p ∈ fields) :
    Distinct p.2 := by
  induction fields with
  | nil => simp at hp
  | cons q fields ih =>
    obtain ⟨k, v⟩ := q
    rw [DistinctFields] at h
    rcases List.mem_cons.mp hp with rfl | hp
    · exact h.1
    · exact ih h.2 hp

theorem Distinct.prop (h : Distinct (.obj fields)) (key : String) : Distinct (Node.prop fields key) := by
  rw [Distinct] at h
  rw [Node.prop]
  cases hget : OrdMap.get? key fields with
  | none => simp [Distinct]
  | some v => exact h.2.of_mem (OrdMap.mem_of_get? hget)

theorem Distinct.properties (h : Distinct (.obj node)) (hproperties : properties? node = some members) :
    Distinct (.obj members) := by
  have hprop := h.prop "properties"
  unfold properties? at hproperties
  split at hproperties
  · rename_i hvalue
    rw [hvalue] at hprop
    exact Option.some.inj hproperties ▸ hprop
  · cases hproperties

theorem Distinct.defsTarget {ref : String} {target : Node} (h : Distinct (.obj root))
    (htarget : defsTarget root ref = some target) : Distinct (.obj target) := by
  unfold Schema.defsTarget at htarget
  cases hname : defsName? ref with
  | none => simp [hname] at htarget
  | some name =>
    simp only [hname, Option.bind_eq_bind, Option.bind_some] at htarget
    split_ifs at htarget with hobject
    cases hdefs : Node.prop root "$defs" with
    | obj defs =>
      have hdistinct : Distinct (.obj defs) := hdefs ▸ h.prop "$defs"
      rw [hdefs] at htarget
      cases hget : OrdMap.get? name defs with
      | some v =>
        have hv : Distinct v := by
          rw [Distinct] at hdistinct
          exact hdistinct.2.of_mem (OrdMap.mem_of_get? hget)
        rw [prop_of_get? hget] at htarget
        cases v <;> simp only [Read.fields?, Option.some.injEq, reduceCtorEq] at htarget
        exact htarget ▸ hv
      | none =>
        simp only [Read.prop, hget] at htarget
        split_ifs at htarget <;> simp only [Read.fields?, Option.some.injEq, reduceCtorEq] at htarget
        simp [← htarget, Distinct, DistinctFields]
    | _ => simp [hdefs, Read.isPlainObject, Read.fields?] at hobject

theorem Distinct.derefNode {visited : List String} (h : Distinct (.obj root))
    (hnode : Distinct (.obj node)) (hderef : (derefNode root node visited).1 = some resolved) :
    Distinct (.obj resolved) := by
  rw [Schema.derefNode] at hderef
  generalize ((((Read.own (root.prop "$defs")).fields?).getD []).length + 3) = fuel at hderef
  induction fuel generalizing node visited with
  | zero => simp [derefLoop] at hderef
  | succ fuel ih =>
    rw [derefLoop] at hderef
    split at hderef
    · exact Option.some.inj hderef ▸ hnode
    · split_ifs at hderef
      split at hderef
      · cases hderef
      · rename_i htarget
        exact ih (h.defsTarget htarget) hderef

/-- The members of a group have different keys, and so have the nodes in them. -/
theorem Distinct.group {visited visited' : List String} (h : Distinct (.obj root))
    (hnode : Distinct (.obj node)) (hderef : Schema.derefNode root node visited = (some resolved, visited'))
    (hproperties : properties? resolved = some members) :
    (members.map (·.1)).Nodup ∧ ∀ p ∈ members, Distinct p.2 := by
  have hresolved : Distinct (.obj resolved) := by
    refine h.derefNode hnode (?_ : (Schema.derefNode root node visited).1 = _)
    rw [hderef]
  have hmembers := hresolved.properties hproperties
  rw [Distinct] at hmembers
  exact ⟨hmembers.1, fun p hp ↦ hmembers.2.of_mem hp⟩

end Keys

/-! ## Filling again -/

section Again

variable {root : Node}

variable {visited visited' : List String} {fuel : Nat}

theorem fillDefaults_none {node : Node} (hderef : derefNode root node visited = (none, visited'))
    (value : Read) : fillDefaults root (fuel + 1) visited node value = value := by
  simp only [fillDefaults, hderef]

theorem fillDefaults_leaf {node resolved : Node}
    (hderef : derefNode root node visited = (some resolved, visited'))
    (hproperties : properties? resolved = none) (value : Read) :
    fillDefaults root (fuel + 1) visited node value =
      if value = .own .undefined then .own (resolved.prop "default") else value := by
  simp only [fillDefaults, hderef, hproperties]
  split_ifs with h h' h'
  · rfl
  · exact absurd h.1 h'
  · have hdefault : resolved.prop "default" = .undefined := by
      by_contra hne
      exact h ⟨h', hne⟩
    rw [h', hdefault]
  · rfl

theorem fillDefaults_group {node resolved properties : Node}
    (hderef : derefNode root node visited = (some resolved, visited'))
    (hproperties : properties? resolved = some properties) (value : Read) :
    fillDefaults root (fuel + 1) visited node value =
      .own (.obj (properties.foldl (fillProperty (fillDefaults root fuel visited'))
        (value.fields?.getD []))) := by
  simp only [fillDefaults, hderef, hproperties]

/-- Filling twice is filling once. -/
theorem fillDefaults_fillDefaults (hroot : Distinct (.obj root)) (fuel : Nat) (visited : List String)
    {node : Node} (hnode : Distinct (.obj node)) (value : Read) :
    fillDefaults root fuel visited node (fillDefaults root fuel visited node value) =
      fillDefaults root fuel visited node value := by
  induction fuel generalizing visited node value with
  | zero => rfl
  | succ fuel ih =>
    rcases hderef : derefNode root node visited with ⟨target, visited'⟩
    cases target with
    | none => rw [fillDefaults_none hderef, fillDefaults_none hderef]
    | some resolved =>
      cases hproperties : properties? resolved with
      | none =>
        rw [fillDefaults_leaf hderef hproperties, fillDefaults_leaf hderef hproperties]
        split_ifs with h h' <;> simp_all
      | some properties =>
        have hdistinct := hroot.group hnode hderef hproperties
        rw [fillDefaults_group hderef hproperties, fillDefaults_group hderef hproperties]
        congr 2
        refine foldl_fillProperty_eq_self fun p hp hunsafe child hchild ↦ ?_
        obtain ⟨key, v⟩ := p
        obtain rfl : v = .obj child := hchild
        have hfilled := prop_foldl_fillProperty (fillDefaults_cases root fuel visited') hdistinct.1 hp
          hunsafe (value.fields?.getD [])
        have hagain := ih visited' (hdistinct.2 _ hp) ((Read.own (.obj (value.fields?.getD []))).prop key)
        rw [← hfilled] at hagain
        exact hagain

end Again

/-! ## What was supplied -/

section Supplied

variable {root : Node} {into : Node → Prop} {atGroup : Nat → List String → Node → Node → Read → Prop}

variable {visited : List String} {fuel : Nat}

theorem atGroups_group {visited' : List String} {node resolved properties : Node}
    (hderef : derefNode root node visited = (some resolved, visited'))
    (hproperties : properties? resolved = some properties) (value : Read) :
    AtGroups root into atGroup (fuel + 1) visited node value ↔
      atGroup (fuel + 1) visited node resolved value ∧
        ∀ fields, value.fields? = some fields → into resolved →
          ∀ p ∈ properties, p.1 ∉ unsafeDefaultKeys → ∀ child, p.2 = .obj child →
            AtGroups root into atGroup fuel visited' child ((Read.own (.obj fields)).prop p.1) := by
  simp only [AtGroups, hderef, hproperties]

/-- Where nothing was supplied there is nothing to go into. -/
theorem atGroups_of_fields?_none {node : Node} {value : Read} (hvalue : value.fields? = none)
    (h : ∀ fuel visited node resolved, atGroup fuel visited node resolved value) :
    AtGroups root into atGroup fuel visited node value := by
  cases fuel with
  | zero => exact trivial
  | succ fuel =>
    rcases hderef : derefNode root node visited with ⟨target, visited'⟩
    cases target with
    | none => simp only [AtGroups, hderef]
    | some resolved =>
      cases hproperties : properties? resolved with
      | none => simp only [AtGroups, hderef, hproperties]
      | some properties =>
        rw [atGroups_group hderef hproperties]
        exact ⟨h _ _ _ _, fun fields hfields ↦ by simp [hvalue] at hfields⟩

theorem valueAt_undefined {path : List String} {v : Value} (h : valueAt path .undefined = some v) :
    v = .undefined := by
  cases path with
  | nil => exact (Option.some.inj h).symm
  | cons key path => simp [valueAt] at h

theorem Keeps.refl (v : Value) : Keeps v v := fun _ u hu _ ↦ ⟨u, hu, .inl rfl⟩

theorem keeps_undefined (w : Value) : Keeps .undefined w := fun _ _ hu hne ↦
  absurd (valueAt_undefined hu) hne

/-- A member that was supplied is filled where it stands. -/
theorem get?_foldl_of_own (root : Node) (fuel : Nat) (visited : List String)
    {properties fields child : Node} {key : String} {u : Value} (hdistinct : (properties.map (·.1)).Nodup)
    (hmem : (key, .obj child) ∈ properties) (hkey : key ∉ unsafeDefaultKeys)
    (hget : OrdMap.get? key fields = some u) (hu : u ≠ .undefined) :
    ∃ u', fillDefaults root fuel visited child (.own u) = .own u' ∧
      OrdMap.get? key (properties.foldl (fillProperty (fillDefaults root fuel visited)) fields) =
        some u' := by
  have hprop := prop_foldl_fillProperty (fillDefaults_cases root fuel visited) hdistinct hmem hkey
    fields
  rw [prop_of_get? hget] at hprop
  obtain ⟨u', hu', hne⟩ : ∃ u', fillDefaults root fuel visited child (.own u) = .own u' ∧
      u' ≠ .undefined := by
    rcases fillDefaults_cases root fuel visited child (.own u) with h | ⟨u', hne, h⟩
    · exact ⟨u, h, hu⟩
    · exact ⟨u', h, hne⟩
  refine ⟨u', hu', ?_⟩
  rw [hu'] at hprop
  cases hfilled : OrdMap.get? key
      (properties.foldl (fillProperty (fillDefaults root fuel visited)) fields) with
  | some u'' =>
    rw [prop_of_get? hfilled] at hprop
    rw [Read.own.inj hprop]
  | none =>
    rw [prop_of_get?_eq_none hfilled hkey] at hprop
    split_ifs at hprop
    exact absurd (Read.own.inj hprop).symm hne

/-- The members of a group are kept if each is that is filled. -/
theorem keeps_group {properties fields : Node} {fill : Filler}
    (h : ∀ key child u, (key, .obj child) ∈ properties → key ∉ unsafeDefaultKeys →
      OrdMap.get? key fields = some u → u ≠ .undefined →
      ∃ u', OrdMap.get? key (properties.foldl (fillProperty fill) fields) = some u' ∧ Keeps u u') :
    Keeps (.obj fields) (.obj (properties.foldl (fillProperty fill) fields)) := by
  intro path v hv hne
  cases path with
  | nil =>
    cases hv
    exact ⟨_, rfl, .inr ⟨_, _, rfl, rfl⟩⟩
  | cons key path =>
    rw [valueAt] at hv
    obtain ⟨u, hget, hv⟩ := Option.bind_eq_some_iff.mp hv
    have hu : u ≠ .undefined := by
      rintro rfl
      exact hne (valueAt_undefined hv)
    by_cases hchild : key ∉ unsafeDefaultKeys ∧ ∃ child, (key, .obj child) ∈ properties
    · obtain ⟨hkey, child, hmem⟩ := hchild
      obtain ⟨u', hget', hkeeps⟩ := h key child u hmem hkey hget hu
      obtain ⟨w, hw, hsame⟩ := hkeeps path v hv hne
      exact ⟨w, by rw [valueAt, hget', Option.bind_some, hw], hsame⟩
    · have hget' : OrdMap.get? key (properties.foldl (fillProperty fill) fields) = some u := by
        rw [get?_foldl_fillProperty, hget]
        rintro ⟨key', u'⟩ hmem rfl hkey child rfl
        exact hchild ⟨hkey, child, hmem⟩
      exact ⟨v, by rw [valueAt, hget', Option.bind_some, hv], .inl rfl⟩

theorem Keeps.of_member {fields fields' : Node} {key : String} {u u' : Value}
    (h : Keeps (.obj fields) (.obj fields')) (hget : OrdMap.get? key fields = some u)
    (hget' : OrdMap.get? key fields' = some u') : Keeps u u' := by
  intro path v hv hne
  obtain ⟨w, hw, hsame⟩ := h (key :: path) v (by rw [valueAt, hget, Option.bind_some, hv]) hne
  rw [valueAt, hget', Option.bind_some] at hw
  exact ⟨w, hw, hsame⟩

theorem mergeable_of_absent {node : Node} {value : Read}
    (h : value = .own .undefined ∨ value = .method) : Mergeable root fuel visited node value := by
  refine atGroups_of_fields?_none ?_ fun _ _ _ _ ↦ .inr h
  rcases h with rfl | rfl <;> rfl

/-- **What was supplied is kept if and only if no group stands where something else was supplied.** -/
theorem keeps_iff_mergeable (hroot : Distinct (.obj root)) (fuel : Nat) (visited : List String)
    {node : Node} (hnode : Distinct (.obj node)) {v w : Value}
    (h : fillDefaults root fuel visited node (.own v) = .own w) :
    Keeps v w ↔ Mergeable root fuel visited node (.own v) := by
  induction fuel generalizing visited node v w with
  | zero =>
    cases h
    exact iff_of_true (.refl _) trivial
  | succ fuel ih =>
    rcases hderef : derefNode root node visited with ⟨target, visited'⟩
    cases target with
    | none =>
      rw [fillDefaults_none hderef] at h
      cases h
      exact iff_of_true (.refl _) (by simp only [Mergeable, AtGroups, hderef])
    | some resolved =>
      cases hproperties : properties? resolved with
      | none =>
        refine iff_of_true ?_ (by simp only [Mergeable, AtGroups, hderef, hproperties])
        rw [fillDefaults_leaf hderef hproperties] at h
        split_ifs at h with hv
        · cases hv
          exact keeps_undefined _
        · cases h
          exact .refl _
      | some properties =>
        have hdistinct := hroot.group hnode hderef hproperties
        rw [fillDefaults_group hderef hproperties] at h
        rw [Mergeable, atGroups_group hderef hproperties]
        cases h
        cases v with
        | undefined =>
          exact iff_of_true (keeps_undefined _) ⟨.inr (.inl rfl), fun fields hfields ↦ by simp [Read.fields?] at hfields⟩
        | obj fields =>
          constructor
          · intro hkeeps
            refine ⟨.inl rfl, fun fields' hfields _ p hp hkey child hchild ↦ ?_⟩
            obtain rfl : fields = fields' := Option.some.inj hfields
            obtain ⟨key, v⟩ := p
            obtain rfl : v = .obj child := hchild
            cases hget : OrdMap.get? key fields with
            | none =>
              rw [prop_of_get?_eq_none hget hkey]
              refine mergeable_of_absent ?_
              split_ifs <;> simp
            | some u =>
              rw [prop_of_get? hget]
              by_cases hu : u = .undefined
              · exact mergeable_of_absent (.inl (by rw [hu]))
              · obtain ⟨u', hfill, hget'⟩ := get?_foldl_of_own root fuel visited'
                  hdistinct.1 hp hkey hget hu
                exact (ih visited' (hdistinct.2 _ hp) hfill).mp (hkeeps.of_member hget hget')
          · rintro ⟨-, hmembers⟩
            refine keeps_group fun key child u hp hkey hget hu ↦ ?_
            obtain ⟨u', hfill, hget'⟩ := get?_foldl_of_own root fuel visited' hdistinct.1 hp hkey hget hu
            refine ⟨u', hget', (ih visited' (hdistinct.2 _ hp) hfill).mpr ?_⟩
            have hmember := hmembers fields rfl trivial _ hp hkey child rfl
            rwa [prop_of_get? hget] at hmember
        | _ =>
          refine iff_of_false (fun hkeeps ↦ ?_) (by simp [Read.isPlainObject, Read.fields?])
          obtain ⟨w, hw, hsame⟩ := hkeeps [] _ rfl (by simp)
          cases hw
          simp at hsame

end Supplied

/-! ## What was left out -/

section LeftOut

variable {root : Node}

/-- What is read where nothing was supplied. -/
def absent (inherited : Bool) : Read := if inherited then .method else .own .undefined

/-- What is filled in for nothing: what is made of the node, or nothing. -/
def FillsAbsent (fill : Read → Read) (made : Bool → Value) : Prop :=
  ∀ inherited, made inherited = .undefined ∧ fill (absent inherited) = absent inherited ∨
    made inherited ≠ .undefined ∧ fill (absent inherited) = .own (made inherited)

theorem prop_absent {fields : Node} {key : String} (h : OrdMap.get? key fields = none)
    (hkey : key ∉ unsafeDefaultKeys) :
    (Read.own (.obj fields)).prop key = absent (key ∈ objectMethods) := by
  rw [prop_of_get?_eq_none h hkey, absent]
  simp only [decide_eq_true_eq]

/-- An object of defaults alone has them in the order of the schema. -/
theorem foldl_fillProperty_absent {fill : Filler} {make : Node → Bool → Value} {properties base : Node}
    (hfill : ∀ key child, (key, .obj child) ∈ properties →
      FillsAbsent (fill child) (make child))
    (hnodup : (properties.map (·.1)).Nodup)
    (hnew : ∀ p ∈ properties, OrdMap.get? p.1 base = none) :
    properties.foldl (fillProperty fill) base = base ++ properties.filterMap (defaultMember make) := by
  induction properties generalizing base with
  | nil => simp
  | cons p properties ih =>
    obtain ⟨key, v⟩ := p
    rw [List.map_cons, List.nodup_cons] at hnodup
    have hkeys : ∀ q ∈ properties, q.1 ≠ key := by
      intro q hq heq
      exact hnodup.1 (heq ▸ List.mem_map_of_mem (f := (·.1)) hq)
    have hget : OrdMap.get? key base = none := hnew (key, v) (.head _)
    have hturn : fillProperty fill base (key, v) = base ++ (defaultMember make (key, v)).toList := by
      by_cases hunsafe : key ∈ unsafeDefaultKeys
      · simp [fillProperty, defaultMember, hunsafe]
      · cases v with
        | obj child =>
          rw [fillProperty, defaultMember, if_neg hunsafe, if_neg hunsafe]
          simp only []
          rw [prop_absent hget hunsafe]
          rcases hfill key child (.head _) (key ∈ objectMethods) with
            ⟨hmade, hfilled⟩ | ⟨hmade, hfilled⟩
          · rw [hmade, hfilled, absent]
            split_ifs <;> simp [assignFilled]
          · simp only [hfilled]
            generalize make child (key ∈ objectMethods) = made at hmade
            cases made with
            | undefined => exact absurd rfl hmade
            | _ => simp [assignFilled, OrdMap.set_of_get?_eq_none hget]
        | _ => simp [fillProperty, defaultMember]
    have hnew' : ∀ q ∈ properties, OrdMap.get? q.1 (fillProperty fill base (key, v)) = none := by
      intro q hq
      rw [get?_fillProperty fun heq ↦ absurd heq.symm (hkeys q hq)]
      exact hnew q (.tail _ hq)
    rw [List.foldl_cons, ih (fun k child hmem ↦ hfill k child (.tail _ hmem)) hnodup.2 hnew',
      hturn, List.append_assoc, List.filterMap_cons]
    cases defaultMember make (key, v) <;> rfl

theorem fillDefaults_absent (hroot : Distinct (.obj root)) (fuel : Nat) (visited : List String)
    {node : Node} (hnode : Distinct (.obj node)) :
    FillsAbsent (fillDefaults root fuel visited node) (defaultOf root fuel visited node) := by
  intro inherited
  induction fuel generalizing visited node inherited with
  | zero => exact .inl ⟨rfl, rfl⟩
  | succ fuel ih =>
    rcases hderef : derefNode root node visited with ⟨target, visited'⟩
    cases target with
    | none =>
      refine .inl ⟨?_, ?_⟩
      · simp only [defaultOf, hderef]
      · simp only [fillDefaults_none hderef]
    | some resolved =>
      cases hproperties : properties? resolved with
      | none =>
        simp only [fillDefaults_leaf hderef hproperties, defaultOf, hderef, hproperties, absent]
        cases inherited with
        | true => exact .inl ⟨rfl, rfl⟩
        | false =>
          simp only [Bool.false_eq_true, if_false, if_true]
          by_cases hdefault : resolved.prop "default" = .undefined
          · exact .inl ⟨hdefault, by rw [hdefault]⟩
          · exact .inr ⟨hdefault, trivial⟩
      | some properties =>
        have hdistinct := hroot.group hnode hderef hproperties
        have hfields : ((absent inherited).fields?).getD [] = [] := by
          cases inherited <;> rfl
        simp only [fillDefaults_group hderef hproperties, defaultOf, hderef, hproperties, hfields]
        rw [foldl_fillProperty_absent (fun _ _ hmem ↦ ih visited' (hdistinct.2 _ hmem)) hdistinct.1
          fun _ _ ↦ rfl]
        exact .inr ⟨by simp, by simp⟩

end LeftOut

/-! ## The verdict -/

section Verdict

variable {host : Host} {root : Node}

variable {visited : List String}

theorem derefNode_nil {visited' : List String} {node resolved : Node}
    (hderef : derefNode root node visited = (some resolved, visited')) :
    (derefNode root node []).1 = some resolved := by
  have hagree := derefNode_agree root node visited
  rw [hderef] at hagree
  simpa [eq_comm] using hagree

/-- An object, where it is not the prototype of all. -/
theorem eq_obj_of_fields? {value : Read} {fields : Node} (hvalue : value ≠ .prototype)
    (h : value.fields? = some fields) : value = .own (.obj fields) := by
  unfold Read.fields? at h
  split at h
  · rw [Option.some.inj h]
  · exact absurd rfl hvalue
  · cases h

variable {fuel : Nat}

/-- A group that was left out is made of its defaults. -/
theorem fillDefaults_of_not_plain (hroot : Distinct (.obj root)) {visited' : List String}
    {node resolved properties : Node} {value : Read} (hnode : Distinct (.obj node))
    (hderef : derefNode root node visited = (some resolved, visited'))
    (hproperties : properties? resolved = some properties) (hplain : ¬value.isPlainObject)
    (hmerge : value.isPlainObject ∨ value = .own .undefined ∨ value = .method) :
    fillDefaults root (fuel + 1) visited node value =
      .own (defaultOf root (fuel + 1) visited node false) := by
  obtain ⟨inherited, rfl⟩ : ∃ inherited, value = absent inherited := by
    rcases hmerge with hobject | rfl | rfl
    · exact absurd hobject hplain
    · exact ⟨false, rfl⟩
    · exact ⟨true, rfl⟩
  have hsame : defaultOf root (fuel + 1) visited node inherited =
      defaultOf root (fuel + 1) visited node false := by
    simp only [defaultOf, hderef, hproperties]
  rcases fillDefaults_absent hroot (fuel + 1) visited hnode inherited with ⟨hmade, -⟩ | ⟨-, hfill⟩
  · simp only [defaultOf, hderef, hproperties, reduceCtorEq] at hmade
  · rw [hfill, hsame]

/-- A member whose schema is no object, or whose key is not filled, keeps its value. -/
theorem prop_foldl_of_not_child {properties fields : Node} {key : String} {v : Value}
    (hnodup : (properties.map (·.1)).Nodup) (hp : (key, v) ∈ properties)
    (hchild : ¬(key ∉ unsafeDefaultKeys ∧ ∃ child, v = .obj child)) :
    (Read.own (.obj (properties.foldl (fillProperty (fillDefaults root fuel visited)) fields))).prop
      key = (Read.own (.obj fields)).prop key := by
  refine prop_congr (get?_foldl_fillProperty ?_)
  rintro ⟨key', v'⟩ hmem rfl hkey child rfl
  have hv : v = .obj child :=
    Option.some.inj ((OrdMap.get?_of_mem hnodup hp).symm.trans (OrdMap.get?_of_mem hnodup hmem))
  exact hchild ⟨hkey, child, hv⟩

/-- An object that passes the check passes it when it is filled, when each member that is filled
does. -/
theorem holds_filled {visited' followed : List String} {node resolved properties fields : Node}
    {path : String} (hderef : derefNode root node visited = (some resolved, visited'))
    (hproperties : properties? resolved = some properties) (hnodup : (properties.map (·.1)).Nodup)
    (hquiet : Quiet root (check host root (fuel + 1) (.obj node) (.own (.obj fields)) path) followed)
    (hbranches : branches? resolved = none)
    (hmembers : checksMembers host resolved → ∀ key child, (key, .obj child) ∈ properties →
      key ∉ unsafeDefaultKeys →
      ((Read.own (.obj fields)).prop key ≠ .own .undefined → ∃ path followed,
        Quiet root (check host root fuel (.obj child) ((Read.own (.obj fields)).prop key) path)
          followed) →
      fillDefaults root fuel visited' child ((Read.own (.obj fields)).prop key) ≠ .own .undefined →
      Holds host root fuel (.obj child)
        (fillDefaults root fuel visited' child ((Read.own (.obj fields)).prop key))) :
    Holds host root (fuel + 1) (.obj node) (.own (.obj
      (properties.foldl (fillProperty (fillDefaults root fuel visited')) fields))) := by
  obtain ⟨followed', hchecked⟩ := hquiet.of_check (derefNode_nil hderef)
  refine holds_of_resolved fun target htarget ↦ ?_
  obtain rfl : resolved = target := Option.some.inj ((derefNode_nil hderef).symm.trans htarget)
  refine group_silent hchecked hbranches fun hinto path' ↦ ?_
  obtain ⟨-, hrequired, hpresent⟩ :=
    (hchecked.of_group hbranches (by rw [hproperties]; rfl) hinto).of_checkObject
  rw [hproperties, Option.getD_some] at hpresent
  refine checkObject_silent rfl (fun key hkey ↦ ?_) fun p hp hfilled ↦ ?_
  · exact prop_foldl_fillProperty_ne_undefined (fillDefaults_cases root fuel visited') hnodup
      (hrequired key hkey)
  · rw [hproperties, Option.getD_some] at hp
    obtain ⟨key, v⟩ := p
    have hmember : (Read.own (.obj fields)).prop key ≠ .own .undefined → ∃ path followed,
        Quiet root (check host root fuel v ((Read.own (.obj fields)).prop key) path) followed := by
      intro hne
      obtain ⟨followed'', hquiet⟩ := hpresent (key, v) hp hne
      exact ⟨_, followed'', hquiet⟩
    by_cases hchild : key ∉ unsafeDefaultKeys ∧ ∃ child, v = .obj child
    · obtain ⟨hkey, child, rfl⟩ := hchild
      rw [prop_foldl_fillProperty (fillDefaults_cases root fuel visited') hnodup hp hkey] at hfilled ⊢
      exact hmembers hinto key child hp hkey hmember hfilled _
    · rw [prop_foldl_of_not_child hnodup hp hchild] at hfilled ⊢
      obtain ⟨path, followed, hquiet⟩ := hmember hfilled
      exact holds_of_quiet hquiet _

/-- **What passes the check passes it when it is filled.** -/
theorem holds_fillDefaults (hroot : Distinct (.obj root)) {node : Node} {value : Read}
    (hnode : Distinct (.obj node)) (hvalue : value ≠ .prototype)
    (hdefaults : DefaultsHold host root fuel visited node)
    (hmerge : Mergeable root fuel visited node value)
    (hapart : Apart host root fuel visited node value)
    (hgroups : GroupsHold host root fuel visited node value) (hquiet : value ≠ .own .undefined →
      ∃ path followed, Quiet root (check host root fuel (.obj node) value path) followed)
    (hfilled : fillDefaults root fuel visited node value ≠ .own .undefined) :
    Holds host root fuel (.obj node) (fillDefaults root fuel visited node value) := by
  induction fuel generalizing visited node value with
  | zero => exact fun path ↦ silent_stop rfl
  | succ fuel ih =>
    rcases hderef : derefNode root node visited with ⟨target, visited'⟩
    cases target with
    | none =>
      rw [fillDefaults_none hderef] at hfilled ⊢
      obtain ⟨path, followed, hquiet⟩ := hquiet hfilled
      exact holds_of_quiet hquiet
    | some resolved =>
      cases hproperties : properties? resolved with
      | none =>
        rw [fillDefaults_leaf hderef hproperties] at hfilled ⊢
        split_ifs at hfilled ⊢ with habsent
        · simp only [DefaultsHold, hderef, hproperties] at hdefaults
          exact hdefaults fun hdefault ↦ hfilled (by rw [hdefault])
        · obtain ⟨path, followed, hquiet⟩ := hquiet habsent
          exact holds_of_quiet hquiet
      | some properties =>
        have hdistinct := hroot.group hnode hderef hproperties
        rw [Mergeable, atGroups_group hderef hproperties] at hmerge
        rw [Apart, atGroups_group hderef hproperties] at hapart
        rw [GroupsHold, atGroups_group hderef hproperties] at hgroups
        cases hfields : value.fields? with
        | none =>
          -- Nothing an object could be filled from: the group is made of its defaults.
          have hplain : ¬value.isPlainObject := by simp [Read.isPlainObject, hfields]
          rw [fillDefaults_of_not_plain hroot hnode hderef hproperties hplain hmerge.1]
          exact hgroups.1 hplain
        | some fields =>
          obtain rfl := eq_obj_of_fields? hvalue hfields
          obtain ⟨path, followed, hquiet⟩ := hquiet (by simp)
          rw [fillDefaults_group hderef hproperties, hfields, Option.getD_some]
          simp only [DefaultsHold, hderef, hproperties] at hdefaults
          refine holds_filled hderef hproperties hdistinct.1 hquiet (hapart.1 rfl)
            fun hinto key child hp hkey hmember hfilled ↦ ?_
          exact ih (hdistinct.2 _ hp) (prop_ne_prototype hkey fields) (hdefaults _ hp hkey child rfl)
            (hmerge.2 fields rfl trivial _ hp hkey child rfl)
            (hapart.2 fields rfl hinto _ hp hkey child rfl)
            (hgroups.2 fields rfl hinto _ hp hkey child rfl) hmember hfilled

/-- A group is always filled with an object. -/
theorem groupsHold_of_not_plain {node : Node} {value : Read}
    (hfilled : ¬(fillDefaults root fuel visited node value).isPlainObject) :
    GroupsHold host root fuel visited node value := by
  cases fuel with
  | zero => exact trivial
  | succ fuel =>
    rcases hderef : derefNode root node visited with ⟨target, visited'⟩
    cases target with
    | none => simp only [GroupsHold, AtGroups, hderef]
    | some resolved =>
      cases hproperties : properties? resolved with
      | none => simp only [GroupsHold, AtGroups, hderef, hproperties]
      | some properties =>
        rw [fillDefaults_group hderef hproperties] at hfilled
        exact absurd rfl hfilled

/-- Where a filled value passes the check, so do the groups that were left out. -/
theorem groupsHold_of_quiet (hroot : Distinct (.obj root)) {node : Node} {value : Read}
    {path : String} {followed : List String} (hnode : Distinct (.obj node))
    (hvalue : value ≠ .prototype) (hmerge : Mergeable root fuel visited node value)
    (hapart : Apart host root fuel visited node value)
    (hquiet : Quiet root (check host root fuel (.obj node)
      (fillDefaults root fuel visited node value) path) followed) :
    GroupsHold host root fuel visited node value := by
  induction fuel generalizing visited node value path followed with
  | zero => exact trivial
  | succ fuel ih =>
    rcases hderef : derefNode root node visited with ⟨target, visited'⟩
    cases target with
    | none => simp only [GroupsHold, AtGroups, hderef]
    | some resolved =>
      cases hproperties : properties? resolved with
      | none => simp only [GroupsHold, AtGroups, hderef, hproperties]
      | some properties =>
        have hdistinct := hroot.group hnode hderef hproperties
        rw [Mergeable, atGroups_group hderef hproperties] at hmerge
        rw [Apart, atGroups_group hderef hproperties] at hapart
        rw [GroupsHold, atGroups_group hderef hproperties]
        refine ⟨fun hplain ↦ ?_, fun fields hfields hmembers p hp hkey child hchild ↦ ?_⟩
        · rw [fillDefaults_of_not_plain hroot hnode hderef hproperties hplain hmerge.1] at hquiet
          exact holds_of_quiet hquiet
        · obtain rfl := eq_obj_of_fields? hvalue hfields
          obtain ⟨key, v⟩ := p
          obtain rfl : v = .obj child := hchild
          rw [fillDefaults_group hderef hproperties, hfields, Option.getD_some] at hquiet
          obtain ⟨followed', hchecked⟩ := hquiet.of_check (derefNode_nil hderef)
          obtain ⟨-, -, hpresent⟩ :=
            (hchecked.of_group (hapart.1 rfl) (by rw [hproperties]; rfl) hmembers).of_checkObject
          rw [hproperties, Option.getD_some] at hpresent
          have hprop := prop_foldl_fillProperty (fillDefaults_cases root fuel visited') hdistinct.1 hp
            hkey fields
          have hmember := hpresent (key, .obj child) hp
          simp only [hprop] at hmember
          by_cases hfilled : fillDefaults root fuel visited' child
              ((Read.own (.obj fields)).prop key) = .own .undefined
          · exact groupsHold_of_not_plain (by simp [hfilled, Read.isPlainObject, Read.fields?])
          · obtain ⟨followed'', hmember⟩ := hmember hfilled
            exact ih (hdistinct.2 _ hp) (prop_ne_prototype hkey fields)
              (hmerge.2 fields rfl trivial _ hp hkey child rfl)
              (hapart.2 fields rfl hmembers _ hp hkey child rfl) hmember

end Verdict

/-! ## The whole schema -/

section Schemas

variable (host : Host)

/-- A property of a schema that is an object. -/
def AtSchema (p : Node → Prop) : Value → Prop
  | .obj root => p root
  | _ => True

/-- The defaults of a schema satisfy their nodes. -/
def DefaultsSatisfy : Value → Prop :=
  AtSchema fun root ↦ DefaultsHold host root (maxDepth + 1) [] root

/-- The validation of a value follows every reference it meets. -/
def FollowsAll (root : Node) (value : Value) : Prop :=
  ∀ e ∈ validationLog host root value, Followed root e

/-- When filling only adds.  A verdict is kept if the validation of the value follows every reference,
if the groups that were supplied are told by their properties, and if those that were left out can
be made of their defaults. -/
def Fillable (schema value : Value) : Prop :=
  AtSchema (fun root ↦
    Mergeable root (maxDepth + 1) [] root (.own value) ∧
      (validateAgainstSchema host schema value = .ok () →
        FollowsAll host root value ∧ Apart host root (maxDepth + 1) [] root (.own value) ∧
          GroupsHold host root (maxDepth + 1) [] root (.own value)))
    schema

/-- What follows from filling only adding. -/
def FillableParts (schema value : Value) : Prop :=
  AtSchema (fun root ↦
    Mergeable root (maxDepth + 1) [] root (.own value) ∧
      (validateAgainstSchema host schema value = .ok () →
        FollowsAll host root (applySchemaDefaults schema value) →
          Apart host root (maxDepth + 1) [] root (.own value) →
            GroupsHold host root (maxDepth + 1) [] root (.own value)))
    schema

variable {host}

theorem validateAgainstSchema_iff (root : Node) (value : Value) :
    validateAgainstSchema host (.obj root) value = .ok () ↔
      issues (validationLog host root value) = [] := by
  rw [validateAgainstSchema]
  cases issues (validationLog host root value) <;> simp

theorem paramsOf_eq_self {value : Value} (h : value ≠ .undefined) (h' : value ≠ .null) :
    paramsOf value = value := by
  simp [paramsOf, h, h']

variable {root : Node} {value : Value}

theorem keeps_applySchemaDefaults_iff (hroot : Distinct (.obj root)) (value : Value) :
    Keeps value (applySchemaDefaults (.obj root) value) ↔
      Mergeable root (maxDepth + 1) [] root (.own value) :=
  keeps_iff_mergeable hroot _ _ hroot (own_applySchemaDefaults root value).symm

theorem applySchemaDefaults_twice (hroot : Distinct (.obj root)) (value : Value) :
    applySchemaDefaults (.obj root) (applySchemaDefaults (.obj root) value) =
      applySchemaDefaults (.obj root) value := by
  have hagain := fillDefaults_fillDefaults hroot (maxDepth + 1) [] hroot (.own value)
  rw [← own_applySchemaDefaults, ← own_applySchemaDefaults] at hagain
  exact Read.own.inj hagain

/-- A valid value is valid when it is filled. -/
theorem valid_applySchemaDefaults (hroot : Distinct (.obj root))
    (hdefaults : DefaultsHold host root (maxDepth + 1) [] root)
    (hmerge : Mergeable root (maxDepth + 1) [] root (.own value)) (hfollows : FollowsAll host root value)
    (hapart : Apart host root (maxDepth + 1) [] root (.own value))
    (hgroups : GroupsHold host root (maxDepth + 1) [] root (.own value))
    (hvalid : issues (validationLog host root value) = []) :
    issues (validationLog host root (applySchemaDefaults (.obj root) value)) = [] := by
  have hkeeps := (keeps_applySchemaDefaults_iff hroot value).mpr hmerge
  have hholds := holds_fillDefaults hroot hroot (by simp) hdefaults hmerge hapart hgroups
  rw [← own_applySchemaDefaults] at hholds
  generalize hfilled : applySchemaDefaults (.obj root) value = filled at hkeeps hholds ⊢
  by_cases hvalue : value = .undefined
  · subst hvalue
    by_cases hnone : filled = .undefined ∨ filled = .null
    · have hparams : paramsOf filled = paramsOf .undefined := by
        rw [paramsOf, if_pos hnone]
        rfl
      rwa [validationLog, hparams, ← validationLog]
    · rw [not_or] at hnone
      rw [validationLog, paramsOf_eq_self hnone.1 hnone.2]
      exact hholds (fun hne ↦ absurd rfl hne) (fun heq ↦ hnone.1 (Read.own.inj heq)) _ _
  · obtain ⟨w, hw, rfl | ⟨fields, fields', rfl, rfl⟩⟩ := hkeeps [] value rfl hvalue
    · rwa [Option.some.inj hw]
    · cases hw
      exact hholds (fun _ ↦ ⟨"", [], hvalid, hfollows⟩) (by simp) _ _

/-- **Filling schema defaults only adds**: it keeps what was supplied, it keeps a valid value valid and
filling twice is filling once, as long as no group stands where something else was supplied and, for
a value that is valid, as long as its validation skips nothing and the groups it leaves out can be
made of their defaults.  Keeping what was supplied needs the first of these, and a verdict that skips
nothing the last. -/
theorem applySchemaDefaults_onlyAdds (host : Host) {schema : Value} (value : Value)
    (hschema : Distinct schema) (hdefaults : DefaultsSatisfy host schema) :
    (Fillable host schema value → OnlyAdds host schema value) ∧
      (OnlyAdds host schema value → FillableParts host schema value) := by
  cases schema with
  | obj root =>
    constructor
    · rintro ⟨hmerge, hgood⟩
      refine ⟨(keeps_applySchemaDefaults_iff hschema value).mpr hmerge, fun hvalid ↦ ?_,
        applySchemaDefaults_twice hschema value⟩
      obtain ⟨hfollows, hapart, hgroups⟩ := hgood hvalid
      rw [validateAgainstSchema_iff] at hvalid ⊢
      exact valid_applySchemaDefaults hschema hdefaults hmerge hfollows hapart hgroups hvalid
    · intro h
      have hmerge := (keeps_applySchemaDefaults_iff hschema value).mp h.keeps
      refine ⟨hmerge, fun hvalid hfollows hapart ↦ ?_⟩
      have hfilled := (validateAgainstSchema_iff _ _).mp (h.valid hvalid)
      by_cases hplain : (fillDefaults root (maxDepth + 1) [] root (.own value)).isPlainObject
      · rw [← own_applySchemaDefaults] at hplain
        have hparams : paramsOf (applySchemaDefaults (.obj root) value) =
            applySchemaDefaults (.obj root) value := by
          refine paramsOf_eq_self ?_ ?_ <;> rintro heq <;> rw [heq] at hplain <;> cases hplain
        have hquiet : Quiet root (check host root (maxDepth + 1) (.obj root)
            (.own (applySchemaDefaults (.obj root) value)) "") [] := by
          rw [← hparams]
          exact ⟨hfilled, hfollows⟩
        rw [own_applySchemaDefaults] at hquiet
        exact groupsHold_of_quiet hschema hschema (by simp) hmerge hapart hquiet
      · exact groupsHold_of_not_plain hplain
  | _ =>
    refine ⟨fun _ ↦ ⟨.refl _, fun hvalid ↦ hvalid, rfl⟩, fun _ ↦ trivial⟩

end Schemas

/-! ## One group -/

/-- Surroundings in which the whole numbers have a text. -/
def plainHost : Host where
  number := wholeNumbers
  isUrl _ := true
  isDate _ := true
  hintMessages _ := ["Invalid input"]
  hintMessages_ne_nil _ := by simp

def modeNode : Node := [("type", .str "string"), ("default", .str "auto")]

def settingsNode : Node := [("type", .str "object"), ("properties", .obj [("mode", .obj modeNode)])]

/-- A group with a default in it. -/
def settingsSchema : Node :=
  [("type", .str "object"), ("properties", .obj [("settings", .obj settingsNode)])]

theorem settingsSchema_distinct : Distinct (.obj settingsSchema) := by
  simp [settingsSchema, settingsNode, modeNode, Distinct, DistinctFields]

theorem settingsSchema_defaults : DefaultsSatisfy plainHost (.obj settingsSchema) := by
  have hmode : DefaultsHold plainHost settingsSchema 4 [] modeNode := by
    intro _ path visited
    rfl
  simp only [DefaultsSatisfy, AtSchema, maxDepth, DefaultsHold]
  intro p hp _ child hchild
  obtain rfl : p = ("settings", .obj settingsNode) := by simpa using hp
  cases hchild
  intro p hp _ child hchild
  obtain rfl : p = ("mode", .obj modeNode) := by simpa using hp
  cases hchild
  exact hmode

/-- There are two groups to come to. -/
theorem atGroups_settings {into : Node → Prop} {atGroup : Nat → List String → Node → Node → Read → Prop}
    (hroot : atGroup 6 [] settingsSchema settingsSchema (.own (.obj [("settings", .obj [])])))
    (hsettings : atGroup 5 [] settingsNode settingsNode (.own (.obj []))) :
    AtGroups settingsSchema into atGroup 6 [] settingsSchema (.own (.obj [("settings", .obj [])])) := by
  refine ⟨hroot, fun fields hfields _ p hp _ child hchild ↦ ?_⟩
  cases hfields
  obtain rfl : p = ("settings", .obj settingsNode) := by simpa using hp
  cases hchild
  refine ⟨hsettings, fun fields hfields _ p hp _ child hchild ↦ ?_⟩
  obtain rfl : p = ("mode", .obj modeNode) := by simpa using hp
  cases hchild
  exact trivial

/-- The group is supplied, and its member is not. -/
theorem applySchemaDefaults_onlyAdds_settings :
    OnlyAdds plainHost (.obj settingsSchema) (.obj [("settings", .obj [])]) := by
  refine (applySchemaDefaults_onlyAdds plainHost _ settingsSchema_distinct settingsSchema_defaults).1
    ⟨atGroups_settings (.inl rfl) (.inl rfl), fun _ ↦ ⟨?_, ?_, ?_⟩⟩
  · have hlog : validationLog plainHost settingsSchema (.obj [("settings", .obj [])]) = [] := rfl
    simp [FollowsAll, hlog]
  · exact atGroups_settings (fun _ ↦ rfl) fun _ ↦ rfl
  · exact atGroups_settings (fun hplain ↦ absurd rfl hplain) fun hplain ↦ absurd rfl hplain

-- A group that may be left out, and a member of it that may not, are made to fail.
example :
    let retry : Value := .obj [("type", .str "object"), ("required", .arr [.str "max"]),
      ("properties", .obj [("max", .obj [("type", .str "integer")])])]
    let schema : Value := .obj [("type", .str "object"), ("properties", .obj [("retry", retry)])]
    (validateAgainstSchema plainHost schema (.obj [])).isOk = true ∧
      (validateAgainstSchema plainHost schema (applySchemaDefaults schema (.obj []))).isOk = false := by
  decide +kernel

/-- The author says `null`, and an object of defaults takes its place. -/
theorem applySchemaDefaults_overwrites :
    Accepted plainHost (.obj settingsSchema) ∧ Distinct (.obj settingsSchema) ∧
      DefaultsSatisfy plainHost (.obj settingsSchema) ∧
      ¬OnlyAdds plainHost (.obj settingsSchema) (.obj [("settings", .null)]) := by
  refine ⟨by decide +kernel, settingsSchema_distinct, settingsSchema_defaults, fun h ↦ ?_⟩
  have hfilled : applySchemaDefaults (.obj settingsSchema) (.obj [("settings", .null)]) =
      .obj [("settings", .obj [("mode", .str "auto")])] := by decide +kernel
  have hkeeps := h.keeps ["settings"] .null rfl (by simp)
  rw [hfilled] at hkeeps
  obtain ⟨w, hw, hsame⟩ := hkeeps
  cases hw
  simp at hsame

end Enkaku.Schema
