import Enkaku.Schema.Defaults
import Enkaku.Schema.Zod

/-!
# Clamping a stored schema

`clampSchema` of `schema/clamp.ts`: the schema a form is rendered from, with texts and choices
shortened, fields beyond the limit dropped and nothing below the limit of the depth.

The walk counts the levels that are left until the limit, and so it ends for every schema.  Behind a
reference it changes nothing, and a shortened text is the limit and an ellipsis, one character more
than `checkDeclaredSchema` takes.
-/

set_option autoImplicit false

namespace Enkaku.Schema

open List

/-! ## Texts -/

/-- So many UTF-16 units of a string.  Where a pair is cut in half, U+FFFD stands for the half. -/
def sliceUnits : ℕ → List Char → List Char
  | _, [] => []
  | 0, _ :: _ => []
  | n + 1, c :: cs =>
    if c.val > 0xFFFF then
      match n with
      | 0 => ['\uFFFD']
      | n + 1 => c :: sliceUnits n cs
    else c :: sliceUnits n cs

def truncate (value : String) (max : ℕ) : String :=
  if utf16Length value > max then String.ofList (sliceUnits max value.toList ++ ['…']) else value

/-! ## The walk -/

/-- The variables the walk shares. -/
structure ClampState where
  clamped : List SchemaCheckFinding
  fieldBudget : ℕ
  droppedFields : ℕ
  droppedBranches : ℕ

/-- `clamped.push(...)`. -/
def ClampState.report (st : ClampState) (finding : SchemaCheckFinding) : ClampState :=
  { st with clamped := st.clamped ++ [finding] }

/-- What a walk makes of a node at a path. -/
abbrev Clamper := Value → String → ClampState → Value × ClampState

/-- A text of a node that is too long. -/
def clampText (key : String) (max : ℕ) (finding : SchemaCheckFinding) (out : Node) (st : ClampState) :
    Node × ClampState :=
  match out.prop key with
  | .str s =>
    if utf16Length s > max then (OrdMap.set key (.str (truncate s max)) out, st.report finding)
    else (out, st)
  | _ => (out, st)

def clampEnum (path : String) (out : Node) (st : ClampState) : Node × ClampState :=
  match out.prop "enum" with
  | .arr members =>
    if members.length > maxEnumMembers then
      (OrdMap.set "enum" (.arr (members.take maxEnumMembers)) out,
        st.report ⟨path, .maxEnumMembers,
          "choice list was shortened to " ++ toString maxEnumMembers ++ " options"⟩)
    else (out, st)
  | _ => (out, st)

/-- What is assigned key by key: a key `__proto__` makes no property. -/
def assigned (entries : Node) : Node := entries.filter (·.1 ≠ "__proto__")

/-- A label that is too long. -/
def isLongLabel : Value → Bool
  | .str s => utf16Length s > maxLabelChars
  | _ => false

def clampLabel : Value → Value
  | .str s => .str (truncate s maxLabelChars)
  | v => v

def clampLabels (path : String) (hints : Node) (st : ClampState) : Node × ClampState :=
  match hints.prop "labels" with
  | .obj labels =>
    (OrdMap.set "labels" (.obj (assigned (labels.map fun p ↦ (p.1, clampLabel p.2)))) hints,
      if labels.any (isLongLabel ·.2) then
        st.report ⟨path, .maxLabelChars, "one or more option labels were shortened"⟩
      else st)
  | _ => (hints, st)

def clampHints (path : String) (out : Node) (st : ClampState) : Node × ClampState :=
  match out.prop "x-enkaku" with
  | .obj hints =>
    let (hints, st) :=
      clampText "group" maxGroupChars ⟨path, .maxGroupChars, "section name was shortened"⟩ hints st
    let (hints, st) := clampLabels path hints st
    (OrdMap.set "x-enkaku" (.obj hints) out, st)
  | _ => (out, st)

/-- The loop over `properties`: a field for as long as the budget lasts. -/
def clampEntries (child : Clamper) (path : String) : Node → ClampState → Node × ClampState
  | [], st => ([], st)
  | (key, v) :: entries, st =>
    if st.fieldBudget = 0 then
      clampEntries child path entries { st with droppedFields := st.droppedFields + 1 }
    else
      let (w, st) := child v (joinPath path key) { st with fieldBudget := st.fieldBudget - 1 }
      let (rest, st) := clampEntries child path entries st
      ((key, w) :: rest, st)

/-- `key in nextProps`: one of the properties, one of what `__proto__` was assigned, or one that every
object has. -/
def isIn (entries : Node) (key : String) : Bool :=
  key ∈ (assigned entries).map (·.1) ||
    (match OrdMap.get? "__proto__" entries with
      | some (.obj fields) => key ∈ fields.map (·.1)
      | _ => false) ||
    key = "__proto__" || key ∈ objectMethods

def clampRequired (entries : Node) (out : Node) : Node :=
  match out.prop "required" with
  | .arr names =>
    OrdMap.set "required" (.arr (names.filter fun v ↦
      match v with
      | .str name => isIn entries name
      | _ => false)) out
  | _ => out

def clampProperties (child : Clamper) (path : String) (out : Node) (st : ClampState) :
    Node × ClampState :=
  match properties? out with
  | some properties =>
    let (entries, st) := clampEntries child path properties st
    (clampRequired entries (OrdMap.set "properties" (.obj (assigned entries)) out), st)
  | none => (out, st)

/-- The schemas of a list. -/
def clampList (child : Clamper) (path : ℕ → String) :
    List Value → ℕ → ClampState → List Value × ClampState
  | [], _, st => ([], st)
  | v :: vs, i, st =>
    let (w, st) := child v (path i) st
    let (ws, st) := clampList child path vs (i + 1) st
    (w :: ws, st)

/-- A keyword with a list of schemas. -/
def clampListAt (child : Clamper) (key : String) (path : ℕ → String) (out : Node) (st : ClampState) :
    Node × ClampState :=
  match out.prop key with
  | .arr vs =>
    let (ws, st) := clampList child path vs 0 st
    (OrdMap.set key (.arr ws) out, st)
  | _ => (out, st)

def clampItems (child : Clamper) (path : String) (out : Node) (st : ClampState) : Node × ClampState :=
  match out.prop "items" with
  | .arr _ => clampListAt child "items" (itemPath path) out st
  | .undefined => (out, st)
  | v =>
    let (w, st) := child v (path ++ "[]") st
    (OrdMap.set "items" w out, st)

/-- The path of a branch. -/
def branchPath (path : String) (i : ℕ) : String := path ++ "<" ++ toString i ++ ">"

/-- What a node says itself. -/
def clampKeywords (path : String) (out : Node) (st : ClampState) : Node × ClampState :=
  let (out, st) :=
    clampText "title" maxTitleChars ⟨path, .maxTitleChars, "title was shortened"⟩ out st
  let (out, st) :=
    clampText "description" maxDescriptionChars
      ⟨path, .maxDescriptionChars, "description was shortened"⟩ out st
  let (out, st) := clampEnum path out st
  clampHints path out st

/-- The schemas in it. -/
def clampPlaces (child : Clamper) (path : String) (out : Node) (st : ClampState) : Node × ClampState :=
  let (out, st) := clampProperties child path out st
  let (out, st) := clampItems child path out st
  let (out, st) := clampListAt child "prefixItems" (itemPath path) out st
  let (out, st) := clampListAt child "anyOf" (branchPath path) out st
  clampListAt child "oneOf" (branchPath path) out st

/-- The part of `clampNode` behind the limit of the depth. -/
def clampBody (child : Clamper) (node : Node) (path : String) (st : ClampState) : Value × ClampState :=
  let (out, st) := clampKeywords path node st
  let (out, st) := clampPlaces child path out st
  (.obj out, st)

/-- What stands for a node that is too deep. -/
def tooDeep (node : Node) : Node :=
  [("type", .str "string"),
    ("title", match node.prop "title" with
      | .str title => .str title
      | _ => .undefined),
    ("description", .str "too deeply nested to render"), ("readOnly", .bool true)]

/-- `clampNode`, of what is no object or a reference, and with a body for any other node. -/
def clampWith (body : Node → String → ClampState → Value × ClampState) : Clamper := fun v path st ↦
  match v with
  | .obj node => if (ref? node).isSome then (.obj node, st) else body node path st
  | _ => (.obj [], st)

/-- `clampNode`, with the levels that are left until the limit of the depth. -/
def clampNode : ℕ → Clamper
  | 0 => clampWith fun node _ st ↦
    (.obj (tooDeep node), { st with droppedBranches := st.droppedBranches + 1 })
  | left + 1 => clampWith (clampBody (clampNode left))

structure ClampedSchema where
  schema : Value
  clamped : List SchemaCheckFinding

/-- A plural, where there is one. -/
def plural (n : ℕ) : String := if n = 1 then "" else "s"

/-- What is said of the fields and the branches that were dropped. -/
def droppedFindings (st : ClampState) : List SchemaCheckFinding :=
  (if st.droppedFields > 0 then
    [⟨"", .maxFields, toString st.droppedFields ++ " field" ++ plural st.droppedFields ++
      " were removed to stay under the " ++ toString maxFields ++ "-field limit"⟩] else []) ++
  if st.droppedBranches > 0 then
    [⟨"", .maxDepth, toString st.droppedBranches ++ " section" ++ plural st.droppedBranches ++
      " were stopped past the " ++ toString maxDepth ++ "-level depth limit"⟩] else []

def clampSchema (schemaIn : Value) : ClampedSchema :=
  match schemaIn with
  | .obj root =>
    let (schema, st) := clampNode (maxDepth + 1) (.obj root) "" ⟨[], maxFields, 0, 0⟩
    ⟨schema, st.clamped ++ droppedFindings st⟩
  | _ => ⟨.obj [], []⟩

/-! ## Lengths -/

theorem utf16Length_ofList (cs : List Char) :
    utf16Length (String.ofList cs) = (cs.map fun c ↦ if c.val > 0xFFFF then 2 else 1).sum := by
  rw [utf16Length, String.toList_ofList]

theorem utf16Length_sliceUnits {n : ℕ} {cs : List Char} (h : n ≤ utf16Length (String.ofList cs)) :
    utf16Length (String.ofList (sliceUnits n cs)) = n := by
  rw [utf16Length_ofList] at h ⊢
  induction cs generalizing n with
  | nil =>
    have hn : n = 0 := by simpa using h
    subst hn
    rfl
  | cons c cs ih =>
    rw [map_cons, sum_cons] at h
    cases n with
    | zero => rfl
    | succ n =>
      unfold sliceUnits
      by_cases hpair : c.val > 0xFFFF
      · rw [if_pos hpair]
        rw [if_pos hpair] at h
        cases n with
        | zero => rfl
        | succ n =>
          rw [map_cons, sum_cons, if_pos hpair, ih (by omega)]
          omega
      · rw [if_neg hpair]
        rw [if_neg hpair] at h
        rw [map_cons, sum_cons, if_neg hpair, ih (by omega)]
        omega

/-- A text that is shortened is one character longer than the limit. -/
theorem utf16Length_truncate {value : String} {max : ℕ} (h : utf16Length value > max) :
    utf16Length (truncate value max) = max + 1 := by
  have hslice : utf16Length (String.ofList (sliceUnits max value.toList)) = max :=
    utf16Length_sliceUnits (by rw [String.ofList_toList]; omega)
  rw [utf16Length_ofList] at hslice
  rw [truncate, if_pos h, utf16Length_ofList, map_append, sum_append, hslice]
  rfl

/-! ## What a walk is to keep -/

/-- The schemas of a list. -/
def listAt : Value → List Value
  | .arr vs => vs
  | _ => []

/-- The schemas of `items`, a list or one. -/
def itemsAt : Value → List Value
  | .arr vs => vs
  | .undefined => []
  | v => [v]

/-- The schemas under `properties`. -/
def fieldSchemas (node : Node) : List Value := ((properties? node).getD []).map (·.2)

/-- The schemas in a node that the publish gate goes to as well. -/
def walkedSchemas (node : Node) : List Value :=
  fieldSchemas node ++ itemsAt (node.prop "items") ++ listAt (node.prop "prefixItems")

/-- And its branches. -/
def branchSchemas (node : Node) : List Value := listAt (node.prop "anyOf") ++ listAt (node.prop "oneOf")

/-- The schemas a node has in it. -/
def children (node : Node) : List Value := walkedSchemas node ++ branchSchemas node

/-- A text that is within its limit, or that was shortened, and then it is one character over. -/
def TextWithin (reported : List SchemaCheckFinding) (limit : Limit) (max : ℕ) (v : Value) : Prop :=
  ∀ s, v = .str s →
    utf16Length s ≤ max ∨ utf16Length s = max + 1 ∧ ∃ f ∈ reported, f.limit = limit

/-- Names that are properties of an object though it has no such field. -/
def Inherits (node : Node) (name : String) : Prop :=
  name = "__proto__" ∨ name ∈ objectMethods ∨
    "__proto__" ∈ ((properties? node).getD []).map (·.1)

/-- A node and what it was rebuilt to, with what was reported by then. -/
structure Within (reported : List SchemaCheckFinding) (node out : Node) : Prop where
  ref : ref? out = none
  title : TextWithin reported .maxTitleChars maxTitleChars (out.prop "title")
  description : TextWithin reported .maxDescriptionChars maxDescriptionChars (out.prop "description")
  enum : ∀ members, out.prop "enum" = .arr members → members.length ≤ maxEnumMembers
  group : ∀ hints, out.prop "x-enkaku" = .obj hints →
    TextWithin reported .maxGroupChars maxGroupChars (Node.prop hints "group")
  labels : ∀ hints labels, out.prop "x-enkaku" = .obj hints → Node.prop hints "labels" = .obj labels →
    ∀ p ∈ labels, TextWithin reported .maxLabelChars maxLabelChars p.2
  required : ∀ properties names, properties? out = some properties → out.prop "required" = .arr names →
    ∀ v ∈ names, ∃ name, v = .str name ∧ (name ∈ properties.map (·.1) ∨ Inherits node name)

/-- A schema and what it was rebuilt to, down to so many levels: a reference is left alone, and what is
no object, or stands too deep, is replaced. -/
def Rebuilt (R : Node → Node → Prop) : ℕ → Value → Value → Prop
  | left, .obj node, w =>
    if (ref? node).isSome then w = .obj node
    else match left with
      | 0 => w = .obj (tooDeep node)
      | left + 1 => ∃ out, w = .obj out ∧ R node out ∧
          (∀ c' ∈ walkedSchemas out, ∃ c ∈ walkedSchemas node, Rebuilt R left c c') ∧
            ∀ c' ∈ branchSchemas out, ∃ c ∈ branchSchemas node, Rebuilt R left c c'
  | _, _, w => w = .obj []

/-- The fields of all the nodes of a schema, down to so many levels. -/
def fieldsOf : ℕ → Value → ℕ
  | left + 1, .obj node =>
    if (ref? node).isSome then 0
    else ((properties? node).getD []).length + ((children node).map (fieldsOf left)).sum
  | _, _ => 0

/-- A node of which nothing is lost but by a limit: no name is `__proto__`, and only names of fields
are required. -/
structure RegularNode (node : Node) : Prop where
  fields : ∀ properties, properties? node = some properties → "__proto__" ∉ properties.map (·.1)
  labels : ∀ hints labels, node.prop "x-enkaku" = .obj hints → Node.prop hints "labels" = .obj labels →
    "__proto__" ∉ labels.map (·.1)
  required : ∀ properties names, properties? node = some properties → node.prop "required" = .arr names →
    ∀ v ∈ names, ∃ name, v = .str name ∧ name ∈ properties.map (·.1)

/-- A schema of such nodes, with an object in every place of a node. -/
def RegularSchema : ℕ → Value → Prop
  | left, .obj node =>
    ref? node = none →
      match left with
      | 0 => True
      | left + 1 => RegularNode node ∧ ∀ c ∈ children node, RegularSchema left c
  | _, _ => False

/-- How much was reported, or is to be. -/
def ClampState.noise (st : ClampState) : ℕ :=
  st.clamped.length + st.droppedFields + st.droppedBranches

/-- What was reported stays, and so many fields more are taken from the budget. -/
structure Advances (st st' : ClampState) (spent : ℕ) : Prop where
  reported : st.clamped ⊆ st'.clamped
  noise : st.noise ≤ st'.noise
  budget : spent + st'.fieldBudget ≤ st.fieldBudget

theorem Advances.refl (st : ClampState) : Advances st st 0 :=
  ⟨.refl _, le_rfl, by omega⟩

theorem Advances.trans {st st' st'' : ClampState} {m n : ℕ} (h : Advances st st' m)
    (h' : Advances st' st'' n) : Advances st st'' (m + n) := by
  refine ⟨List.Subset.trans h.reported h'.reported, h.noise.trans h'.noise, ?_⟩
  have := h.budget
  have := h'.budget
  omega

theorem advances_report (st : ClampState) (finding : SchemaCheckFinding) :
    Advances st (st.report finding) 0 := by
  refine ⟨subset_append_left _ _, ?_, by simp [ClampState.report]⟩
  simp only [ClampState.noise, ClampState.report, length_append, length_singleton]
  omega

theorem noise_report (st : ClampState) (finding : SchemaCheckFinding) :
    (st.report finding).noise = st.noise + 1 := by
  simp only [ClampState.noise, ClampState.report, length_append, length_singleton]
  omega

section Mono

variable {reported reported' : List SchemaCheckFinding} {node out : Node}

theorem TextWithin.mono {limit : Limit} {max : ℕ} {v : Value}
    (h : TextWithin reported limit max v) (hsub : reported ⊆ reported') :
    TextWithin reported' limit max v := by
  intro s hs
  rcases h s hs with hle | ⟨hone, f, hf, hlimit⟩
  · exact .inl hle
  · exact .inr ⟨hone, f, hsub hf, hlimit⟩

theorem Within.mono (h : Within reported node out) (hsub : reported ⊆ reported') :
    Within reported' node out where
  ref := h.ref
  title := h.title.mono hsub
  description := h.description.mono hsub
  enum := h.enum
  group hints hhints := (h.group hints hhints).mono hsub
  labels hints labels hhints hlabels p hp := (h.labels hints labels hhints hlabels p hp).mono hsub
  required := h.required

theorem Rebuilt.exists_obj {R : Node → Node → Prop} {left : ℕ} {v w : Value} (h : Rebuilt R left v w) :
    ∃ fields, w = .obj fields := by
  cases v with
  | obj node =>
    cases left with
    | zero =>
      simp only [Rebuilt] at h
      split_ifs at h
      · exact ⟨_, h⟩
      · exact ⟨_, h⟩
    | succ left =>
      simp only [Rebuilt] at h
      split_ifs at h
      · exact ⟨_, h⟩
      · obtain ⟨out, hw, -⟩ := h
        exact ⟨out, hw⟩
  | _ => exact ⟨[], by cases left <;> exact h⟩

theorem Rebuilt.mono {R R' : Node → Node → Prop} (hR : ∀ n o, R n o → R' n o) {left : ℕ} {v w : Value}
    (h : Rebuilt R left v w) : Rebuilt R' left v w := by
  induction left generalizing v w with
  | zero =>
    cases v with
    | obj node => simpa only [Rebuilt] using h
    | _ => exact h
  | succ left ih =>
    cases v with
    | obj node =>
      simp only [Rebuilt] at h ⊢
      split_ifs at h ⊢
      · exact h
      · obtain ⟨out, hw, hout, hwalked, hbranches⟩ := h
        refine ⟨out, hw, hR _ _ hout, fun c' hc' ↦ ?_, fun c' hc' ↦ ?_⟩
        · obtain ⟨c, hc, hrebuilt⟩ := hwalked c' hc'
          exact ⟨c, hc, ih hrebuilt⟩
        · obtain ⟨c, hc, hrebuilt⟩ := hbranches c' hc'
          exact ⟨c, hc, ih hrebuilt⟩
    | _ => exact h

end Mono

/-! ## Children -/

/-- What a walk does to a schema with so many levels left. -/
structure ChildSpec (left : ℕ) (v : Value) (st : ClampState) (r : Value × ClampState) : Prop where
  rebuilt : Rebuilt (Within r.2.clamped) left v r.1
  advances : Advances st r.2 (fieldsOf left r.1)
  unchanged : r.2.noise = st.noise → RegularSchema left v → r.1 = v

/-- And to the schemas in one place of a node. -/
structure ChildrenSpec (left : ℕ) (vs : List Value) (st : ClampState) (ws : List Value)
    (st' : ClampState) (fields : ℕ) : Prop where
  rebuilt : ∀ w ∈ ws, ∃ v ∈ vs, Rebuilt (Within st'.clamped) left v w
  advances : Advances st st' (fields + (ws.map (fieldsOf left)).sum)
  unchanged : st'.noise = st.noise → (∀ v ∈ vs, RegularSchema left v) → ws = vs

def Clamps (left : ℕ) (child : Clamper) : Prop := ∀ v path st, ChildSpec left v st (child v path st)

section Children

variable {left : ℕ} {child : Clamper}

theorem childrenSpec_nil (st : ClampState) (vs : List Value) (h : vs = []) :
    ChildrenSpec left vs st [] st 0 :=
  ⟨nofun, .refl st, fun _ _ ↦ h.symm⟩

theorem ChildSpec.cons {v w : Value} {vs ws : List Value} {st st' st'' : ClampState} {fields : ℕ}
    (h : ChildSpec left v st (w, st')) (hs : ChildrenSpec left vs st' ws st'' fields) :
    ChildrenSpec left (v :: vs) st (w :: ws) st'' fields := by
  refine ⟨fun u hu ↦ ?_, ?_, fun hnoise hregular ↦ ?_⟩
  · rcases mem_cons.mp hu with rfl | hu
    · exact ⟨v, mem_cons_self, h.rebuilt.mono fun _ _ hw ↦ hw.mono hs.advances.reported⟩
    · obtain ⟨u', hu', hrebuilt⟩ := hs.rebuilt u hu
      exact ⟨u', .tail _ hu', hrebuilt⟩
  · have hadvances := h.advances.trans hs.advances
    rw [map_cons, sum_cons]
    rwa [Nat.add_left_comm]
  · rw [forall_mem_cons] at hregular
    have hfirst := h.advances.noise
    have hrest := hs.advances.noise
    dsimp only at hfirst
    have hv : w = v := h.unchanged (by dsimp only; omega) hregular.1
    rw [hv, hs.unchanged (by omega) hregular.2]

theorem clampList_spec (hchild : Clamps left child) (path : ℕ → String) (vs : List Value) (i : ℕ)
    (st : ClampState) :
    ChildrenSpec left vs st (clampList child path vs i st).1 (clampList child path vs i st).2 0 := by
  induction vs generalizing i st with
  | nil => exact childrenSpec_nil st [] rfl
  | cons v vs ih => exact (hchild v (path i) st).cons (ih (i + 1) (child v (path i) st).2)

/-- A field more is taken from the budget. -/
theorem ChildrenSpec.spend {vs ws : List Value} {st st' : ClampState} {fields : ℕ}
    (h : ChildrenSpec left vs { st with fieldBudget := st.fieldBudget - 1 } ws st' fields)
    (hbudget : st.fieldBudget ≠ 0) : ChildrenSpec left vs st ws st' (fields + 1) := by
  refine ⟨h.rebuilt, ⟨h.advances.reported, h.advances.noise, ?_⟩, h.unchanged⟩
  have hle := h.advances.budget
  dsimp only at hle
  omega

theorem clampEntries_spec (hchild : Clamps left child) (path : String) (entries : Node)
    (st : ClampState) :
    ChildrenSpec left (entries.map (·.2)) st ((clampEntries child path entries st).1.map (·.2))
        (clampEntries child path entries st).2 (clampEntries child path entries st).1.length ∧
      (clampEntries child path entries st).1.map (·.1) ⊆ entries.map (·.1) ∧
      ((clampEntries child path entries st).2.noise = st.noise →
        (clampEntries child path entries st).1.map (·.1) = entries.map (·.1)) := by
  induction entries generalizing st with
  | nil => exact ⟨childrenSpec_nil st [] rfl, .refl _, fun _ ↦ rfl⟩
  | cons p entries ih =>
    obtain ⟨key, v⟩ := p
    rw [clampEntries]
    by_cases hbudget : st.fieldBudget = 0
    · rw [if_pos hbudget]
      obtain ⟨hspec, hkeys, -⟩ := ih { st with droppedFields := st.droppedFields + 1 }
      have hquiet : (clampEntries child path entries
          { st with droppedFields := st.droppedFields + 1 }).2.noise ≠ st.noise := by
        have hnoise := hspec.advances.noise
        simp only [ClampState.noise] at hnoise ⊢
        omega
      refine ⟨⟨fun w hw ↦ ?_, ⟨hspec.advances.reported, ?_, hspec.advances.budget⟩,
        fun hnoise ↦ absurd hnoise hquiet⟩, fun k hk ↦ .tail _ (hkeys hk),
        fun hnoise ↦ absurd hnoise hquiet⟩
      · obtain ⟨u, hu, hrebuilt⟩ := hspec.rebuilt w hw
        exact ⟨u, .tail _ hu, hrebuilt⟩
      · have hnoise := hspec.advances.noise
        simp only [ClampState.noise] at hnoise ⊢
        omega
    · rw [if_neg hbudget]
      have hfirst := hchild v (joinPath path key) { st with fieldBudget := st.fieldBudget - 1 }
      obtain ⟨hspec, hkeys, hsame⟩ :=
        ih (child v (joinPath path key) { st with fieldBudget := st.fieldBudget - 1 }).2
      refine ⟨(hfirst.cons hspec).spend hbudget, ?_, fun hnoise ↦ ?_⟩
      · exact cons_subset_cons _ hkeys
      · have hone := hfirst.advances.noise
        have hrest := hspec.advances.noise
        have hkeep : (clampEntries child path entries (child v (joinPath path key)
            { st with fieldBudget := st.fieldBudget - 1 }).2).2.noise =
            (child v (joinPath path key) { st with fieldBudget := st.fieldBudget - 1 }).2.noise := by
          have hbase : ({ st with fieldBudget := st.fieldBudget - 1 } : ClampState).noise =
              st.noise := rfl
          dsimp only at hnoise
          omega
        exact congrArg (key :: ·) (hsame hkeep)

end Children

/-! ## The steps of a node -/

section Steps

variable {left : ℕ} {child : Clamper} {out : Node} {st : ClampState} {key : String}

theorem prop_set (k k' : String) (v : Value) (m : Node) :
    Node.prop (OrdMap.set k v m) k' = if k = k' then v else m.prop k' := by
  rw [Node.prop, OrdMap.get?_set]
  split_ifs <;> rfl

theorem prop_set_of_ne {k k' : String} (h : k ≠ k') (v : Value) (m : Node) :
    Node.prop (OrdMap.set k v m) k' = m.prop k' := by
  rw [prop_set, if_neg h]

variable {v : Value}

/-- What is set to what it is changes nothing. -/
theorem set_prop {k : String} {m : Node} (h : m.prop k = v) (hv : v ≠ .undefined) :
    OrdMap.set k v m = m := by
  rw [Node.prop] at h
  rcases hget : OrdMap.get? k m with _ | w
  · rw [hget] at h
    exact absurd h.symm hv
  · obtain ⟨l, r, hm, hset⟩ := OrdMap.set_of_get?_eq_some hget v
    rw [hget] at h
    obtain rfl : w = v := h
    rw [hset, ← hm]

/-- What a step does to a node: other keywords stay, and if nothing is reported all does. -/
structure StepSpec (keys : List String) (out : Node) (st : ClampState) (r : Node × ClampState)
    (spent : ℕ) : Prop where
  frame : ∀ k ∉ keys, r.1.prop k = out.prop k
  advances : Advances st r.2 spent

theorem stepSpec_same (keys : List String) : StepSpec keys out st (out, st) 0 :=
  ⟨fun _ _ ↦ rfl, .refl st⟩

theorem clampText_spec (key : String) (max : ℕ) (finding : SchemaCheckFinding) (out : Node)
    (st : ClampState) : StepSpec [key] out st (clampText key max finding out st) 0 ∧
      TextWithin (clampText key max finding out st).2.clamped finding.limit max
        ((clampText key max finding out st).1.prop key) ∧
      ((clampText key max finding out st).2.noise = st.noise →
        clampText key max finding out st = (out, st)) := by
  rw [clampText]
  split
  · rename_i text htext
    split_ifs with hlong
    · refine ⟨⟨fun k hk ↦ prop_set_of_ne (by simpa [eq_comm] using hk) _ _, advances_report _ _⟩, ?_, ?_⟩
      · intro s' hs'
        rw [prop_set, if_pos rfl] at hs'
        cases hs'
        exact .inr ⟨utf16Length_truncate hlong, finding, by simp [ClampState.report], rfl⟩
      · intro hnoise
        rw [noise_report] at hnoise
        omega
    · refine ⟨stepSpec_same _, ?_, fun _ ↦ rfl⟩
      intro s' hs'
      obtain rfl := Value.str.inj (htext.symm.trans hs')
      exact .inl (by omega)
  · rename_i hno
    exact ⟨stepSpec_same _, fun s' hs' ↦ absurd hs' (hno s'), fun _ ↦ rfl⟩

theorem clampEnum_spec (path : String) (out : Node) (st : ClampState) :
    StepSpec ["enum"] out st (clampEnum path out st) 0 ∧
      (∀ members, (clampEnum path out st).1.prop "enum" = .arr members →
        members.length ≤ maxEnumMembers) ∧
      ((clampEnum path out st).2.noise = st.noise → clampEnum path out st = (out, st)) := by
  rw [clampEnum]
  split
  · rename_i members hmembers
    split_ifs with hmany
    · refine ⟨⟨fun k hk ↦ prop_set_of_ne (by simpa [eq_comm] using hk) _ _, advances_report _ _⟩, ?_, ?_⟩
      · intro members' hmembers'
        rw [prop_set, if_pos rfl] at hmembers'
        cases hmembers'
        exact length_take_le _ _
      · intro hnoise
        rw [noise_report] at hnoise
        omega
    · refine ⟨stepSpec_same _, ?_, fun _ ↦ rfl⟩
      intro members' hmembers'
      obtain rfl := Value.arr.inj (hmembers.symm.trans hmembers')
      omega
  · rename_i hno
    exact ⟨stepSpec_same _, fun members hmembers ↦ absurd hmembers (hno members), fun _ ↦ rfl⟩

theorem clampLabel_of_not_long (h : isLongLabel v = false) : clampLabel v = v := by
  cases v with
  | str s =>
    have hle : ¬ utf16Length s > maxLabelChars := by simpa [isLongLabel] using h
    rw [clampLabel, truncate, if_neg hle]
  | _ => rfl

variable {entries : Node}

theorem assigned_of_not_mem (h : "__proto__" ∉ entries.map (·.1)) : assigned entries = entries := by
  refine filter_eq_self.mpr fun p hp ↦ ?_
  rw [decide_eq_true_eq]
  exact fun heq ↦ h (heq ▸ mem_map_of_mem hp)

theorem clampLabels_spec (path : String) (hints : Node) (st : ClampState) :
    StepSpec ["labels"] hints st (clampLabels path hints st) 0 ∧
      (∀ labels, (clampLabels path hints st).1.prop "labels" = .obj labels →
        ∀ p ∈ labels, TextWithin (clampLabels path hints st).2.clamped .maxLabelChars maxLabelChars p.2) ∧
      ((clampLabels path hints st).2.noise = st.noise →
        (∀ labels, hints.prop "labels" = .obj labels → "__proto__" ∉ labels.map (·.1)) →
          clampLabels path hints st = (hints, st)) := by
  rw [clampLabels]
  split
  · rename_i labels hlabels
    refine ⟨⟨fun k hk ↦ prop_set_of_ne (by simpa [eq_comm] using hk) _ _, ?_⟩, ?_, ?_⟩
    · dsimp only
      split_ifs
      · exact advances_report _ _
      · exact .refl _
    · intro labels' hlabels' p hp s hs
      rw [prop_set, if_pos rfl] at hlabels'
      cases hlabels'
      obtain ⟨q, hq, rfl⟩ := mem_map.mp (mem_of_mem_filter hp)
      rcases hlong : isLongLabel q.2 with _ | _
      · dsimp only at hs
        rw [clampLabel_of_not_long hlong] at hs
        rw [hs] at hlong
        exact .inl (by simpa [isLongLabel] using hlong)
      · rw [if_pos (any_eq_true.mpr ⟨q, hq, hlong⟩)]
        cases hv : q.2 with
        | str s' =>
          rw [hv] at hs hlong
          cases hs
          have hgt : utf16Length s' > maxLabelChars := by simpa [isLongLabel] using hlong
          exact .inr ⟨utf16Length_truncate hgt, _, mem_append_right _ (.head _), rfl⟩
        | _ => simp [hv, isLongLabel] at hlong
    · intro hnoise hproto
      by_cases hany : labels.any (isLongLabel ·.2) = true
      · simp only [hany, if_true] at hnoise
        rw [noise_report] at hnoise
        omega
      · rw [if_neg hany]
        have hmap : labels.map (fun p ↦ (p.1, clampLabel p.2)) = labels := by
          have hsame : ∀ p ∈ labels, (p.1, clampLabel p.2) = p := fun p hp ↦ by
            rw [clampLabel_of_not_long (by simpa using fun h ↦ hany (any_eq_true.mpr ⟨p, hp, h⟩))]
          rw [map_congr_left hsame, map_id']
        rw [hmap, assigned_of_not_mem (hproto labels hlabels), set_prop hlabels (by simp)]
  · rename_i hno
    exact ⟨stepSpec_same _, fun labels hlabels ↦ absurd hlabels (hno labels), fun _ _ ↦ rfl⟩

theorem clampHints_spec (path : String) (out : Node) (st : ClampState) :
    StepSpec ["x-enkaku"] out st (clampHints path out st) 0 ∧
      (∀ hints, (clampHints path out st).1.prop "x-enkaku" = .obj hints →
        TextWithin (clampHints path out st).2.clamped .maxGroupChars maxGroupChars
            (Node.prop hints "group") ∧
          ∀ labels, Node.prop hints "labels" = .obj labels →
            ∀ p ∈ labels, TextWithin (clampHints path out st).2.clamped .maxLabelChars maxLabelChars p.2) ∧
      ((clampHints path out st).2.noise = st.noise →
        (∀ hints labels, out.prop "x-enkaku" = .obj hints → Node.prop hints "labels" = .obj labels →
          "__proto__" ∉ labels.map (·.1)) → clampHints path out st = (out, st)) := by
  rw [clampHints]
  split
  · rename_i hints hhints
    have hgroup := clampText_spec "group" maxGroupChars
      ⟨path, .maxGroupChars, "section name was shortened"⟩ hints st
    rcases h1 : clampText "group" maxGroupChars
      ⟨path, .maxGroupChars, "section name was shortened"⟩ hints st with ⟨hints1, st1⟩
    rw [h1] at hgroup
    obtain ⟨hgroup, htext, hsame⟩ := hgroup
    have hlabels := clampLabels_spec path hints1 st1
    rcases h2 : clampLabels path hints1 st1 with ⟨hints2, st2⟩
    rw [h2] at hlabels
    obtain ⟨hlabels, hlong, hsame'⟩ := hlabels
    dsimp only at htext hlong hsame hsame' ⊢
    rw [h2]
    refine ⟨⟨fun k hk ↦ prop_set_of_ne (by simpa [eq_comm] using hk) _ _,
      hgroup.advances.trans hlabels.advances⟩, ?_, ?_⟩
    · intro hints' hhints'
      rw [prop_set, if_pos rfl] at hhints'
      cases hhints'
      refine ⟨?_, hlong⟩
      rw [hlabels.frame "group" (by decide)]
      exact htext.mono hlabels.advances.reported
    · intro hnoise hproto
      have hle := hgroup.advances.noise
      have hle' := hlabels.advances.noise
      dsimp only at hle hle' hnoise
      obtain ⟨rfl, rfl⟩ := Prod.mk.inj (hsame (by omega))
      obtain ⟨rfl, rfl⟩ := Prod.mk.inj (hsame' hnoise fun labels hl ↦ hproto _ labels hhints hl)
      rw [set_prop hhints (by simp)]
  · rename_i hno
    exact ⟨stepSpec_same _, fun hints hhints ↦ absurd hhints (hno hints), fun _ _ ↦ rfl⟩

/-- What a step does to the schemas in one place of a node. -/
structure PlaceSpec (left : ℕ) (keys : List String) (place : Node → List Value) (out : Node)
    (st : ClampState) (r : Node × ClampState) (fields : ℕ) : Prop where
  frame : ∀ k ∉ keys, r.1.prop k = out.prop k
  rebuilt : ∀ w ∈ place r.1, ∃ v ∈ place out, Rebuilt (Within r.2.clamped) left v w
  advances : Advances st r.2 (fields + ((place r.1).map (fieldsOf left)).sum)

theorem placeSpec_same (keys : List String) {place : Node → List Value} (h : place out = []) :
    PlaceSpec left keys place out st (out, st) 0 := by
  refine ⟨fun _ _ ↦ rfl, ?_, ?_⟩
  · dsimp only
    rw [h]
    exact nofun
  · dsimp only
    rw [h]
    exact .refl st

theorem listAt_eq_nil (h : ∀ vs, v ≠ .arr vs) : listAt v = [] := by
  cases v with
  | arr vs => exact absurd rfl (h vs)
  | _ => rfl

theorem itemsAt_eq_singleton (h : ∀ vs, v ≠ .arr vs) (h' : v ≠ .undefined) : itemsAt v = [v] := by
  cases v with
  | arr vs => exact absurd rfl (h vs)
  | undefined => exact absurd rfl h'
  | _ => rfl

theorem clampListAt_spec (hchild : Clamps left child) (key : String) (path : ℕ → String) (out : Node)
    (st : ClampState) :
    PlaceSpec left [key] (fun n ↦ listAt (n.prop key)) out st (clampListAt child key path out st) 0 ∧
      ((clampListAt child key path out st).2.noise = st.noise →
        (∀ v ∈ listAt (out.prop key), RegularSchema left v) →
          (clampListAt child key path out st).1 = out) := by
  rw [clampListAt]
  split
  · rename_i vs hvs
    have hlist := clampList_spec hchild path vs 0 st
    rcases h : clampList child path vs 0 st with ⟨ws, st'⟩
    rw [h] at hlist
    have hset : Node.prop (OrdMap.set key (.arr ws) out) key = .arr ws := by rw [prop_set, if_pos rfl]
    refine ⟨⟨fun k hk ↦ prop_set_of_ne (by simpa [eq_comm] using hk) _ _, ?_, ?_⟩, ?_⟩
    · dsimp only
      rw [hset, hvs]
      exact hlist.rebuilt
    · dsimp only
      rw [hset]
      exact hlist.advances
    · intro hnoise hregular
      rw [hvs] at hregular
      have hws : ws = vs := hlist.unchanged hnoise hregular
      dsimp only
      rw [hws, set_prop hvs (by simp)]
  · rename_i hno
    exact ⟨placeSpec_same _ (listAt_eq_nil hno), fun _ _ ↦ rfl⟩

theorem clampItems_spec (hchild : Clamps left child) (path : String) (out : Node) (st : ClampState) :
    PlaceSpec left ["items"] (fun n ↦ itemsAt (n.prop "items")) out st (clampItems child path out st) 0 ∧
      ((clampItems child path out st).2.noise = st.noise →
        (∀ v ∈ itemsAt (out.prop "items"), RegularSchema left v) →
          (clampItems child path out st).1 = out) := by
  rw [clampItems]
  split
  · rename_i vs hvs
    have hitems : ∀ m : Node, ∀ vs, m.prop "items" = .arr vs →
        itemsAt (m.prop "items") = listAt (m.prop "items") := fun m vs h ↦ by rw [h, itemsAt, listAt]
    obtain ⟨hlist, hsame⟩ := clampListAt_spec hchild "items" (itemPath path) out st
    have hout : ∃ ws, (clampListAt child "items" (itemPath path) out st).1.prop "items" = .arr ws := by
      rw [clampListAt, hvs]
      exact ⟨_, by rw [prop_set, if_pos rfl]⟩
    obtain ⟨ws, hws⟩ := hout
    refine ⟨⟨hlist.frame, ?_, ?_⟩, ?_⟩
    · rw [hitems _ ws hws, hitems _ vs hvs]
      exact hlist.rebuilt
    · rw [hitems _ ws hws]
      exact hlist.advances
    · rw [hitems _ vs hvs]
      exact hsame
  · rename_i hundefined
    exact ⟨placeSpec_same _ (by rw [hundefined, itemsAt]), fun _ _ ↦ rfl⟩
  · rename_i hno hundefined
    have hone := hchild (out.prop "items") (path ++ "[]") st
    rcases h : child (out.prop "items") (path ++ "[]") st with ⟨w, st'⟩
    rw [h] at hone
    obtain ⟨fields, rfl⟩ := hone.rebuilt.exists_obj
    have hset : itemsAt (Node.prop (OrdMap.set "items" (.obj fields) out) "items") = [.obj fields] := by
      rw [prop_set, if_pos rfl]
      rfl
    refine ⟨⟨fun k hk ↦ prop_set_of_ne (by simpa [eq_comm] using hk) _ _, ?_, ?_⟩, ?_⟩
    · dsimp only
      rw [hset, itemsAt_eq_singleton hno hundefined]
      intro w hw
      obtain rfl := mem_singleton.mp hw
      exact ⟨_, mem_singleton_self _, hone.rebuilt⟩
    · dsimp only
      rw [hset]
      have hadvances := hone.advances
      simpa using hadvances
    · intro hnoise hregular
      rw [itemsAt_eq_singleton hno hundefined] at hregular
      have hw : Value.obj fields = out.prop "items" :=
        hone.unchanged hnoise (hregular _ (.head _))
      dsimp only
      rw [set_prop hw.symm (by simp)]

theorem properties?_congr {node node' : Node} (h : node'.prop "properties" = node.prop "properties") :
    properties? node' = properties? node := by
  rw [properties?, properties?, h]

theorem prop_clampRequired {k : String} (hk : k ≠ "required") :
    (clampRequired entries out).prop k = out.prop k := by
  rw [clampRequired]
  split
  · exact prop_set_of_ne (Ne.symm hk) _ _
  · rfl

/-- Nothing that is assigned costs more than all the entries. -/
theorem sum_assigned_le (f : Value → ℕ) (entries : Node) :
    (assigned entries).length + (((assigned entries).map (·.2)).map f).sum ≤
      entries.length + ((entries.map (·.2)).map f).sum := by
  induction entries with
  | nil => exact le_rfl
  | cons p entries ih =>
    rw [assigned] at ih ⊢
    rw [filter_cons]
    split_ifs
    · simp only [length_cons, map_cons, sum_cons]
      omega
    · simp only [length_cons, map_cons, sum_cons]
      omega

theorem isIn_assigned {name : String} (h : isIn entries name = true) :
    name ∈ (assigned entries).map (·.1) ∨ name = "__proto__" ∨ name ∈ objectMethods ∨
      "__proto__" ∈ entries.map (·.1) := by
  rw [isIn, Bool.or_eq_true, Bool.or_eq_true, Bool.or_eq_true, decide_eq_true_eq, decide_eq_true_eq,
    decide_eq_true_eq] at h
  rcases h with ((hown | hproto) | hname) | hmethod
  · exact .inl hown
  · split at hproto
    · rename_i fields hget
      exact .inr (.inr (.inr (mem_map_of_mem (OrdMap.mem_of_get? hget))))
    · exact nomatch hproto
  · exact .inr (.inl hname)
  · exact .inr (.inr (.inl hmethod))

theorem eq_of_map_eq {entries' : Node} (hkeys : entries.map (·.1) = entries'.map (·.1))
    (hvalues : entries.map (·.2) = entries'.map (·.2)) : entries = entries' := by
  induction entries generalizing entries' with
  | nil => exact (map_eq_nil_iff.mp hkeys.symm).symm
  | cons p entries ih =>
    cases entries' with
    | nil => exact nomatch hkeys
    | cons p' entries' =>
      rw [map_cons, map_cons, List.cons.injEq] at hkeys hvalues
      rw [ih hkeys.2 hvalues.2, Prod.ext hkeys.1 hvalues.1]

theorem clampProperties_spec (hchild : Clamps left child) (path : String) (out : Node)
    (st : ClampState) :
    PlaceSpec left ["properties", "required"] fieldSchemas out st (clampProperties child path out st)
        ((properties? (clampProperties child path out st).1).getD []).length ∧
      (∀ properties names, properties? (clampProperties child path out st).1 = some properties →
        (clampProperties child path out st).1.prop "required" = .arr names →
          ∀ v ∈ names, ∃ name, v = .str name ∧ (name ∈ properties.map (·.1) ∨ Inherits out name)) ∧
      ((clampProperties child path out st).2.noise = st.noise →
        (∀ v ∈ fieldSchemas out, RegularSchema left v) → RegularNode out →
          (clampProperties child path out st).1 = out) := by
  rw [clampProperties]
  split
  · rename_i properties hproperties
    obtain ⟨hentries, hkeys, hsame⟩ := clampEntries_spec hchild path properties st
    rcases h : clampEntries child path properties st with ⟨entries, st'⟩
    rw [h] at hentries hkeys hsame
    dsimp only at hentries hkeys hsame ⊢
    have hfields : fieldSchemas out = properties.map (·.2) := by rw [fieldSchemas, hproperties]; rfl
    have hprop : properties? (clampRequired entries (OrdMap.set "properties" (.obj (assigned entries)) out)) =
        some (assigned entries) := by
      rw [properties?, prop_clampRequired (by decide), prop_set, if_pos rfl]
    have hplace : fieldSchemas
        (clampRequired entries (OrdMap.set "properties" (.obj (assigned entries)) out)) =
        (assigned entries).map (·.2) := by
      rw [fieldSchemas, hprop]
      rfl
    refine ⟨⟨fun k hk ↦ ?_, ?_, ?_⟩, ?_, ?_⟩
    · simp only [mem_cons, not_mem_nil, or_false, not_or] at hk
      dsimp only
      rw [prop_clampRequired hk.2, prop_set_of_ne (Ne.symm hk.1)]
    · dsimp only
      rw [hplace, hfields]
      intro w hw
      obtain ⟨p, hp, rfl⟩ := mem_map.mp hw
      exact hentries.rebuilt p.2 (mem_map_of_mem (mem_of_mem_filter hp))
    · dsimp only
      rw [hplace, hprop]
      have hle := sum_assigned_le (fieldsOf left) entries
      have hbudget := hentries.advances.budget
      exact ⟨hentries.advances.reported, hentries.advances.noise, by dsimp only [Option.getD]; omega⟩
    · intro ps names hps hnames v hv
      rw [hprop] at hps
      cases hps
      have hfilter : ∃ name, v = .str name ∧ isIn entries name = true := by
        rw [clampRequired] at hnames
        split at hnames
        · rw [prop_set, if_pos rfl] at hnames
          cases hnames
          have hin := (mem_filter.mp hv).2
          split at hin
          · exact ⟨_, rfl, hin⟩
          · cases hin
        · rename_i hno
          exact absurd hnames (hno names)
      obtain ⟨name, rfl, hin⟩ := hfilter
      refine ⟨name, rfl, ?_⟩
      rcases isIn_assigned hin with hown | hname | hmethod | hproto
      · exact .inl hown
      · exact .inr (.inl hname)
      · exact .inr (.inr (.inl hmethod))
      · refine .inr (.inr (.inr ?_))
        rw [hproperties]
        exact hkeys hproto
    · intro hnoise hregular hnode
      rw [hfields] at hregular
      have hentriesEq : entries = properties :=
        eq_of_map_eq (hsame hnoise) (hentries.unchanged hnoise hregular)
      have hassigned : assigned entries = properties := by
        rw [hentriesEq, assigned_of_not_mem (hnode.fields properties hproperties)]
      have hobj : out.prop "properties" = .obj properties := by
        rw [properties?] at hproperties
        split at hproperties
        · rename_i ps hps
          rw [hps, Option.some_inj.mp hproperties]
        · exact absurd hproperties.symm (Option.some_ne_none _)
      rw [hassigned, set_prop hobj (by simp), clampRequired]
      split
      · rename_i names hnames
        rw [filter_eq_self.mpr, set_prop hnames (by simp)]
        intro v hv
        obtain ⟨name, rfl, hname⟩ := hnode.required properties names hproperties hnames v hv
        dsimp only
        rw [isIn, hassigned, decide_eq_true hname]
        rfl
      · rfl
  · rename_i hnone
    refine ⟨⟨fun _ _ ↦ rfl, ?_, ?_⟩, ?_, fun _ _ _ ↦ rfl⟩
    · rw [fieldSchemas, hnone]
      rintro _ ⟨⟩
    · rw [fieldSchemas, hnone]
      exact .refl st
    · intro properties names hproperties
      rw [hnone] at hproperties
      cases hproperties

/-- A node with its keywords clamped. -/
structure KeywordsSpec (node : Node) (st : ClampState) (out : Node) (st' : ClampState) : Prop where
  frame : ∀ k ∉ ["title", "description", "enum", "x-enkaku"], out.prop k = node.prop k
  advances : Advances st st' 0
  title : TextWithin st'.clamped .maxTitleChars maxTitleChars (out.prop "title")
  description : TextWithin st'.clamped .maxDescriptionChars maxDescriptionChars (out.prop "description")
  enum : ∀ members, out.prop "enum" = .arr members → members.length ≤ maxEnumMembers
  hints : ∀ hints, out.prop "x-enkaku" = .obj hints →
    TextWithin st'.clamped .maxGroupChars maxGroupChars (Node.prop hints "group") ∧
      ∀ labels, Node.prop hints "labels" = .obj labels →
        ∀ p ∈ labels, TextWithin st'.clamped .maxLabelChars maxLabelChars p.2
  unchanged : st'.noise = st.noise → RegularNode node → out = node

theorem clampKeywords_spec (path : String) (node : Node) (st : ClampState) :
    KeywordsSpec node st (clampKeywords path node st).1 (clampKeywords path node st).2 := by
  rw [clampKeywords]
  have h1 := clampText_spec "title" maxTitleChars ⟨path, .maxTitleChars, "title was shortened"⟩ node st
  rcases hstep1 : clampText "title" maxTitleChars ⟨path, .maxTitleChars, "title was shortened"⟩ node st
    with ⟨n1, st1⟩
  rw [hstep1] at h1
  obtain ⟨h1, htitle, hsame1⟩ := h1
  dsimp only at htitle hsame1 ⊢
  have h2 := clampText_spec "description" maxDescriptionChars
    ⟨path, .maxDescriptionChars, "description was shortened"⟩ n1 st1
  rcases hstep2 : clampText "description" maxDescriptionChars
    ⟨path, .maxDescriptionChars, "description was shortened"⟩ n1 st1 with ⟨n2, st2⟩
  rw [hstep2] at h2
  obtain ⟨h2, hdescription, hsame2⟩ := h2
  dsimp only at hdescription hsame2 ⊢
  have h3 := clampEnum_spec path n2 st2
  rcases hstep3 : clampEnum path n2 st2 with ⟨n3, st3⟩
  rw [hstep3] at h3
  obtain ⟨h3, henum, hsame3⟩ := h3
  dsimp only at henum hsame3 ⊢
  have h4 := clampHints_spec path n3 st3
  rcases hstep4 : clampHints path n3 st3 with ⟨n4, st4⟩
  rw [hstep4] at h4
  obtain ⟨h4, hhints, hsame4⟩ := h4
  dsimp only at hhints hsame4 ⊢
  have h24 := (h2.advances.trans h3.advances).trans h4.advances
  have h34 := h3.advances.trans h4.advances
  refine ⟨fun k hk ↦ ?_, h1.advances.trans h24, ?_, ?_, ?_, hhints, fun hnoise hnode ↦ ?_⟩
  · simp only [mem_cons, not_mem_nil, or_false, not_or] at hk
    rw [h4.frame k (by simpa using hk.2.2.2), h3.frame k (by simpa using hk.2.2.1),
      h2.frame k (by simpa using hk.2.1), h1.frame k (by simpa using hk.1)]
  · rw [h4.frame _ (by decide), h3.frame _ (by decide), h2.frame _ (by decide)]
    exact htitle.mono h24.reported
  · rw [h4.frame _ (by decide), h3.frame _ (by decide)]
    exact hdescription.mono h34.reported
  · rw [h4.frame _ (by decide)]
    exact henum
  · have hle1 := h1.advances.noise
    have hle2 := h2.advances.noise
    have hle3 := h3.advances.noise
    have hle4 := h4.advances.noise
    dsimp only at hle1 hle2 hle3 hle4
    obtain ⟨rfl, rfl⟩ := Prod.mk.inj (hsame1 (by omega))
    obtain ⟨rfl, rfl⟩ := Prod.mk.inj (hsame2 (by omega))
    obtain ⟨rfl, rfl⟩ := Prod.mk.inj (hsame3 (by omega))
    exact (Prod.mk.inj (hsame4 (by omega) hnode.labels)).1

/-- A node with the schemas in it clamped. -/
structure PlacesSpec (left : ℕ) (node : Node) (st : ClampState) (out : Node) (st' : ClampState) :
    Prop where
  frame : ∀ k ∉ ["properties", "required", "items", "prefixItems", "anyOf", "oneOf"],
    out.prop k = node.prop k
  walked : ∀ c' ∈ walkedSchemas out, ∃ c ∈ walkedSchemas node, Rebuilt (Within st'.clamped) left c c'
  branches : ∀ c' ∈ branchSchemas out, ∃ c ∈ branchSchemas node, Rebuilt (Within st'.clamped) left c c'
  advances : Advances st st'
    (((properties? out).getD []).length + ((children out).map (fieldsOf left)).sum)
  required : ∀ properties names, properties? out = some properties → out.prop "required" = .arr names →
    ∀ v ∈ names, ∃ name, v = .str name ∧ (name ∈ properties.map (·.1) ∨ Inherits node name)
  unchanged : st'.noise = st.noise → RegularNode node → (∀ c ∈ children node, RegularSchema left c) →
    out = node

theorem clampPlaces_spec (hchild : Clamps left child) (path : String) (node : Node) (st : ClampState) :
    PlacesSpec left node st (clampPlaces child path node st).1 (clampPlaces child path node st).2 := by
  rw [clampPlaces]
  have h5 := clampProperties_spec hchild path node st
  rcases hstep5 : clampProperties child path node st with ⟨n5, st5⟩
  rw [hstep5] at h5
  obtain ⟨h5, hrequired, hsame5⟩ := h5
  dsimp only at hrequired hsame5 ⊢
  have h6 := clampItems_spec hchild path n5 st5
  rcases hstep6 : clampItems child path n5 st5 with ⟨n6, st6⟩
  rw [hstep6] at h6
  obtain ⟨h6, hsame6⟩ := h6
  dsimp only at hsame6 ⊢
  have h7 := clampListAt_spec hchild "prefixItems" (itemPath path) n6 st6
  rcases hstep7 : clampListAt child "prefixItems" (itemPath path) n6 st6 with ⟨n7, st7⟩
  rw [hstep7] at h7
  obtain ⟨h7, hsame7⟩ := h7
  dsimp only at hsame7 ⊢
  have h8 := clampListAt_spec hchild "anyOf" (branchPath path) n7 st7
  rcases hstep8 : clampListAt child "anyOf" (branchPath path) n7 st7 with ⟨n8, st8⟩
  rw [hstep8] at h8
  obtain ⟨h8, hsame8⟩ := h8
  dsimp only at hsame8 ⊢
  have h9 := clampListAt_spec hchild "oneOf" (branchPath path) n8 st8
  rcases hstep9 : clampListAt child "oneOf" (branchPath path) n8 st8 with ⟨n9, st9⟩
  rw [hstep9] at h9
  obtain ⟨h9, hsame9⟩ := h9
  dsimp only at hsame9 ⊢
  have hframe : ∀ k ∉ ["items", "prefixItems", "anyOf", "oneOf"], n9.prop k = n5.prop k := by
    intro k hk
    simp only [mem_cons, not_mem_nil, or_false, not_or] at hk
    rw [h9.frame k (by simpa using hk.2.2.2), h8.frame k (by simpa using hk.2.2.1),
      h7.frame k (by simpa using hk.2.1), h6.frame k (by simpa using hk.1)]
  have hproperties : properties? n9 = properties? n5 := properties?_congr (hframe _ (by decide))
  -- each place of the result is as its own step has left it
  have hfields : fieldSchemas n9 = fieldSchemas n5 := by rw [fieldSchemas, fieldSchemas, hproperties]
  have hitems : n9.prop "items" = n6.prop "items" := by
    rw [h9.frame _ (by decide), h8.frame _ (by decide), h7.frame _ (by decide)]
  have hprefixItems : n9.prop "prefixItems" = n7.prop "prefixItems" := by
    rw [h9.frame _ (by decide), h8.frame _ (by decide)]
  have hanyOf : n9.prop "anyOf" = n8.prop "anyOf" := h9.frame _ (by decide)
  -- and each step has found its place as the node has it
  have hitems' : n5.prop "items" = node.prop "items" := h5.frame _ (by decide)
  have hprefixItems' : n6.prop "prefixItems" = node.prop "prefixItems" := by
    rw [h6.frame _ (by decide), h5.frame _ (by decide)]
  have hanyOf' : n7.prop "anyOf" = node.prop "anyOf" := by
    rw [h7.frame _ (by decide), h6.frame _ (by decide), h5.frame _ (by decide)]
  have honeOf' : n8.prop "oneOf" = node.prop "oneOf" := by
    rw [h8.frame _ (by decide), h7.frame _ (by decide), h6.frame _ (by decide), h5.frame _ (by decide)]
  have h89 := h8.advances.trans h9.advances
  have h79 := h7.advances.trans h89
  have h69 := h6.advances.trans h79
  have hmono : ∀ {st' : ClampState} {c c' : Value}, st'.clamped ⊆ st9.clamped →
      Rebuilt (Within st'.clamped) left c c' → Rebuilt (Within st9.clamped) left c c' :=
    fun hsub h ↦ h.mono fun _ _ hw ↦ hw.mono hsub
  refine ⟨fun k hk ↦ ?_, ?_, ?_, ?_, ?_, ?_⟩
  · simp only [mem_cons, not_mem_nil, or_false, not_or] at hk
    rw [hframe k (by simpa using hk.2.2), h5.frame k (by simpa using ⟨hk.1, hk.2.1⟩)]
  · intro c' hc'
    simp only [walkedSchemas, mem_append, hfields, hitems, hprefixItems] at hc'
    simp only [walkedSchemas, mem_append]
    rcases hc' with (hc' | hc') | hc'
    · obtain ⟨c, hc, hrebuilt⟩ := h5.rebuilt c' hc'
      exact ⟨c, .inl (.inl hc), hmono h69.reported hrebuilt⟩
    · obtain ⟨c, hc, hrebuilt⟩ := h6.rebuilt c' hc'
      exact ⟨c, .inl (.inr (hitems' ▸ hc)), hmono h79.reported hrebuilt⟩
    · obtain ⟨c, hc, hrebuilt⟩ := h7.rebuilt c' hc'
      exact ⟨c, .inr (hprefixItems' ▸ hc), hmono h89.reported hrebuilt⟩
  · intro c' hc'
    simp only [branchSchemas, mem_append, hanyOf] at hc'
    simp only [branchSchemas, mem_append]
    rcases hc' with hc' | hc'
    · obtain ⟨c, hc, hrebuilt⟩ := h8.rebuilt c' hc'
      exact ⟨c, .inl (hanyOf' ▸ hc), hmono h9.advances.reported hrebuilt⟩
    · obtain ⟨c, hc, hrebuilt⟩ := h9.rebuilt c' hc'
      exact ⟨c, .inr (honeOf' ▸ hc), hrebuilt⟩
  · have hall := h5.advances.trans h69
    simp only [children, walkedSchemas, branchSchemas, map_append, sum_append, hproperties,
      hfields, hitems, hprefixItems, hanyOf]
    refine ⟨hall.reported, hall.noise, ?_⟩
    have hbudget := hall.budget
    dsimp only at hbudget
    omega
  · intro properties names hps hnames
    rw [hproperties] at hps
    rw [hframe _ (by decide)] at hnames
    exact hrequired properties names hps hnames
  · intro hnoise hnode hregular
    simp only [children, walkedSchemas, branchSchemas, mem_append] at hregular
    have hle5 := h5.advances.noise
    have hle6 := h6.advances.noise
    have hle7 := h7.advances.noise
    have hle8 := h8.advances.noise
    have hle9 := h9.advances.noise
    dsimp only at hle5 hle6 hle7 hle8 hle9
    obtain rfl := hsame5 (by omega) (fun v hv ↦ hregular v (.inl (.inl (.inl hv)))) hnode
    obtain rfl := hsame6 (by omega) fun v hv ↦ hregular v (.inl (.inl (.inr hv)))
    obtain rfl := hsame7 (by omega) fun v hv ↦ hregular v (.inl (.inr hv))
    obtain rfl := hsame8 (by omega) fun v hv ↦ hregular v (.inr (.inl hv))
    exact hsame9 (by omega) fun v hv ↦ hregular v (.inr (.inr hv))

theorem within_of_specs {node n n' : Node} {st st' st'' : ClampState} (href : ref? node = none)
    (hkeywords : KeywordsSpec node st n st') (hplaces : PlacesSpec left n st' n' st'') :
    Within st''.clamped node n' := by
  have hreported := hplaces.advances.reported
  have hn : properties? n = properties? node := properties?_congr (hkeywords.frame _ (by decide))
  refine ⟨?_, ?_, ?_, ?_, fun hints hhints ↦ ?_, fun hints labels hhints hlabels p hp ↦ ?_,
    fun properties names hproperties hnames v hv ↦ ?_⟩
  · rw [ref?, hplaces.frame _ (by decide), hkeywords.frame _ (by decide)]
    exact href
  · rw [hplaces.frame _ (by decide)]
    exact hkeywords.title.mono hreported
  · rw [hplaces.frame _ (by decide)]
    exact hkeywords.description.mono hreported
  · rw [hplaces.frame _ (by decide)]
    exact hkeywords.enum
  · rw [hplaces.frame _ (by decide)] at hhints
    exact (hkeywords.hints hints hhints).1.mono hreported
  · rw [hplaces.frame _ (by decide)] at hhints
    exact ((hkeywords.hints hints hhints).2 labels hlabels p hp).mono hreported
  · obtain ⟨name, hname, hin⟩ := hplaces.required properties names hproperties hnames v hv
    rw [Inherits, hn] at hin
    exact ⟨name, hname, hin⟩

theorem walkedSchemas_eq {node n : Node} (hn : ∀ k ∈ ["properties", "items", "prefixItems"],
    n.prop k = node.prop k) : walkedSchemas n = walkedSchemas node := by
  have hproperties : properties? n = properties? node := properties?_congr (hn _ (by simp))
  rw [walkedSchemas, walkedSchemas, fieldSchemas, fieldSchemas, hproperties, hn "items" (by simp),
    hn "prefixItems" (by simp)]

theorem branchSchemas_eq {node n : Node} (hn : ∀ k ∈ ["anyOf", "oneOf"], n.prop k = node.prop k) :
    branchSchemas n = branchSchemas node := by
  rw [branchSchemas, branchSchemas, hn "anyOf" (by simp), hn "oneOf" (by simp)]

theorem clampBody_spec (hchild : Clamps left child) {node : Node} (href : ref? node = none)
    (path : String) (st : ClampState) :
    ChildSpec (left + 1) (.obj node) st (clampBody child node path st) := by
  have hkeywords := clampKeywords_spec path node st
  rcases hstep : clampKeywords path node st with ⟨n, st'⟩
  rw [hstep] at hkeywords
  have hplaces := clampPlaces_spec hchild path n st'
  rcases hstep' : clampPlaces child path n st' with ⟨n', st''⟩
  rw [hstep'] at hplaces
  have hbody : clampBody child node path st = (.obj n', st'') := by
    rw [clampBody, hstep]
    dsimp only
    rw [hstep']
  dsimp only at hkeywords hplaces
  have hwithin := within_of_specs href hkeywords hplaces
  have hwalked : walkedSchemas n = walkedSchemas node :=
    walkedSchemas_eq fun k hk ↦ hkeywords.frame k (by revert k; decide)
  have hbranches : branchSchemas n = branchSchemas node :=
    branchSchemas_eq fun k hk ↦ hkeywords.frame k (by revert k; decide)
  rw [hbody]
  refine ⟨?_, ?_, fun hnoise hregular ↦ ?_⟩
  · simp only [Rebuilt, href, Option.isSome_none, Bool.false_eq_true, if_false]
    exact ⟨n', rfl, hwithin, hwalked ▸ hplaces.walked, hbranches ▸ hplaces.branches⟩
  · have hadvances := hkeywords.advances.trans hplaces.advances
    rw [fieldsOf, hwithin.ref, Option.isSome_none, if_neg (by simp)]
    rwa [Nat.zero_add] at hadvances
  · obtain ⟨hnode, hchildrenRegular⟩ := hregular href
    have hle := hkeywords.advances.noise
    have hle' := hplaces.advances.noise
    dsimp only at hnoise
    obtain rfl := hkeywords.unchanged (by omega) hnode
    exact congrArg Value.obj (hplaces.unchanged (by omega) hnode hchildrenRegular)

/-- What is no object becomes the empty schema. -/
theorem childSpec_empty (hv : ∀ node, v ≠ .obj node) (st : ClampState) :
    ChildSpec left v st (.obj [], st) := by
  have hfields : fieldsOf left (.obj []) = 0 := by
    cases left with
    | zero => rfl
    | succ left => rfl
  refine ⟨?_, by rw [hfields]; exact .refl st, fun _ hregular ↦ ?_⟩
  · cases v with
    | obj node => exact absurd rfl (hv node)
    | _ => cases left <;> rfl
  · cases v with
    | obj node => exact absurd rfl (hv node)
    | _ => cases left <;> exact absurd hregular (by simp [RegularSchema])

/-- A reference is left alone. -/
theorem childSpec_ref {node : Node} (href : (ref? node).isSome = true) (st : ClampState) :
    ChildSpec left (.obj node) st (.obj node, st) := by
  refine ⟨?_, ?_, fun _ _ ↦ rfl⟩
  · cases left <;> simp [Rebuilt, href]
  · have hfields : fieldsOf left (.obj node) = 0 := by cases left <;> simp [fieldsOf, href]
    rw [hfields]
    exact .refl st

theorem clampWith_spec {body : Node → String → ClampState → Value × ClampState}
    (hbody : ∀ node path st, ref? node = none → ChildSpec left (.obj node) st (body node path st)) :
    Clamps left (clampWith body) := by
  intro v path st
  cases v with
  | obj node =>
    rw [clampWith]
    split_ifs with href
    · exact childSpec_ref href st
    · exact hbody node path st (by simpa using href)
  | _ => exact childSpec_empty (by simp) st

/-- **What `clampNode` does**, with so many levels left. -/
theorem clamps_clampNode (left : ℕ) : Clamps left (clampNode left) := by
  induction left with
  | zero =>
    refine clampWith_spec fun node path st href ↦ ?_
    refine ⟨by simp [Rebuilt, href], ⟨.refl _, ?_, by simp [fieldsOf]⟩, fun hnoise ↦ ?_⟩
    · simp only [ClampState.noise]
      omega
    · simp only [ClampState.noise] at hnoise
      omega
  | succ left ih => exact clampWith_spec fun node path st href ↦ clampBody_spec ih href path st

end Steps

/-! ## What the publish gate finds in it -/

/-- No node the gate goes to is a reference, down to so many levels. -/
def RefFree : ℕ → Value → Prop
  | left, .obj node =>
    ref? node = none ∧
      match left with
      | 0 => True
      | left + 1 => ∀ c ∈ walkedSchemas node, RefFree left c
  | _, _ => True

/-- A finding that clamping leaves room for: none about choices or fields, and one about a text only if
such a text was shortened. -/
def Spared (reported : List SchemaCheckFinding) (limit : Limit) : Prop :=
  limit ≠ .maxEnumMembers ∧ limit ≠ .maxFields ∧
    (limit ∈ [.maxTitleChars, .maxDescriptionChars, .maxLabelChars, .maxGroupChars] →
      ∃ f ∈ reported, f.limit = limit)

section Gate

variable {reported : List SchemaCheckFinding} {node out : Node} {host : Host}

/-- What clamping is not about. -/
def otherLimits : List Limit :=
  [.maxSchemaBytes, .maxDepth, .fieldNamePattern, .hints, .showWhen, .group, .ref, .pattern]

variable {limit : Limit}

theorem spared_of_other (h : limit ∈ otherLimits) : Spared reported limit := by
  fin_cases h <;> simp [Spared]

variable {f : SchemaCheckFinding}

theorem spared_of_singleton {path message : String} (h : limit ∈ otherLimits)
    (hf : f ∈ [⟨path, limit, message⟩]) : Spared reported f.limit := by
  obtain rfl := mem_singleton.mp hf
  exact spared_of_other h

variable {v : Value}

/-- A text that is found too long was shortened. -/
theorem spared_of_text {path what : String} {max : ℕ} {s : String}
    (h : TextWithin reported limit max v) (hs : v = .str s) (hlimit : limit ≠ .maxEnumMembers)
    (hlimit' : limit ≠ .maxFields) (hf : f ∈ lengthFinding path limit what (utf16Length s) max) :
    Spared reported f.limit := by
  rw [lengthFinding] at hf
  split_ifs at hf with hlong
  · obtain rfl := mem_singleton.mp hf
    refine ⟨hlimit, hlimit', fun _ ↦ ?_⟩
    rcases h s hs with hle | ⟨-, hreported⟩
    · omega
    · exact hreported
  · exact nomatch hf

/-- The group and the labels of hints are as they stand. -/
theorem texts_of_parseHints {raw : Node} {hints : ParamHints} (h : parseHints (.obj raw) = some hints) :
    (∀ group, hints.group = some group → raw.prop "group" = .str group) ∧
      ∀ labels, hints.labels = some labels →
        ∃ fields, raw.prop "labels" = .obj fields ∧ ∀ p ∈ labels, (p.1, Value.str p.2) ∈ fields := by
  have hkey : ∀ {α : Type} (read : Value → Option α) (key : String) (a : α),
      optionalKey read raw key = some (some a) → read (raw.prop key) = some a := by
    intro α read key a hread
    rw [optionalKey] at hread
    split at hread
    · exact absurd (Option.some.inj hread).symm (Option.some_ne_none _)
    · obtain ⟨b, hb, heq⟩ := Option.map_eq_some_iff.mp hread
      rw [hb, Option.some.inj heq]
  have hstring : ∀ {v : Value} {s : String}, string? v = some s → v = .str s := by
    intro v s hv
    cases v with
    | str s' => rw [Option.some.inj hv]
    | _ => exact absurd hv (by simp [string?])
  simp only [parseHints, Option.bind_eq_bind, Option.bind_eq_some_iff] at h
  obtain ⟨kind, -, unit, -, extensions, -, ordered, -, _, -, group, hgroup, _, -, _, -, labels, hlabels,
    showWhen, -, _, -, _, -, _, -, _, -, _, -, h⟩ := h
  cases h
  refine ⟨fun g hg ↦ ?_, fun ls hls ↦ ?_⟩
  · obtain rfl : group = some g := hg
    exact hstring (hkey string? "group" g hgroup)
  · obtain rfl : labels = some ls := hls
    have hread := hkey labels? "labels" ls hlabels
    cases hlabelsValue : raw.prop "labels" with
    | obj fields =>
      rw [hlabelsValue, labels?] at hread
      refine ⟨fields, rfl, fun p hp ↦ ?_⟩
      obtain ⟨q, hq, hpq⟩ := Zod.exists_of_mem_mapM hread hp
      obtain ⟨s, hs, rfl⟩ := Option.map_eq_some_iff.mp hpq
      rw [← hstring hs]
      exact hq
    | _ => simp [hlabelsValue, labels?] at hread

theorem spared_of_hintFindings {raw : Node} {hints : ParamHints}
    (h : parseHints (.obj raw) = some hints)
    (hgroup : TextWithin reported .maxGroupChars maxGroupChars (raw.prop "group"))
    (hlabels : ∀ labels, raw.prop "labels" = .obj labels →
      ∀ p ∈ labels, TextWithin reported .maxLabelChars maxLabelChars p.2) {path : String}
    {siblingKeys : Option (List String)} (hf : f ∈ hintFindings hints path siblingKeys) :
    Spared reported f.limit := by
  obtain ⟨hgroupText, hlabelTexts⟩ := texts_of_parseHints h
  simp only [hintFindings, mem_append] at hf
  rcases hf with (hf | hf) | hf
  · split at hf
    · rename_i group hsome
      exact spared_of_text hgroup (hgroupText group hsome) (by decide) (by decide) hf
    · exact nomatch hf
  · obtain ⟨p, hp, hf⟩ := mem_flatMap.mp hf
    rcases hsome : hints.labels with _ | labels
    · simp [hsome] at hp
    · rw [hsome, Option.getD_some] at hp
      obtain ⟨fields, hfields, hmem⟩ := hlabelTexts labels hsome
      exact spared_of_text (hlabels fields hfields _ (hmem p hp)) rfl (by decide) (by decide) hf
  · split at hf
    · split_ifs at hf
      · exact nomatch hf
      · exact spared_of_singleton (by decide) hf
    · exact nomatch hf

/-- What the gate finds in one node that was rebuilt. -/
theorem spared_of_checkNode (h : Within reported node out) {path : String}
    {siblingKeys : Option (List String)} (hf : f ∈ checkNode host out path siblingKeys) :
    Spared reported f.limit := by
  simp only [checkNode, mem_append] at hf
  rcases hf with (((hf | hf) | hf) | hf) | hf
  · split at hf
    · rename_i title htitle
      exact spared_of_text h.title htitle (by decide) (by decide) hf
    · exact nomatch hf
  · split at hf
    · rename_i text htext
      exact spared_of_text h.description htext (by decide) (by decide) hf
    · exact nomatch hf
  · split at hf
    · rename_i members hmembers
      rw [if_neg (Nat.not_lt.mpr (h.enum members hmembers))] at hf
      exact nomatch hf
    · exact nomatch hf
  · split at hf
    · exact spared_of_singleton (by decide) hf
    · exact nomatch hf
  · split at hf
    · exact nomatch hf
    · rename_i raw hraw
      split at hf
      · obtain ⟨message, -, rfl⟩ := mem_map.mp hf
        exact spared_of_singleton (by decide) (.head _)
      · rename_i hints hhints
        exact spared_of_hintFindings hhints (h.group raw hraw) (h.labels raw · hraw) hf
    · exact spared_of_singleton (by decide) hf

/-- What a part of the gate's walk adds. -/
structure Notes (reported : List SchemaCheckFinding) (st st' : WalkState) (fields : ℕ) : Prop where
  findings : ∀ f ∈ st'.findings, f ∈ st.findings ∨ Spared reported f.limit
  fieldCount : st'.fieldCount ≤ st.fieldCount + fields

theorem Notes.refl (st : WalkState) : Notes reported st st 0 := ⟨fun _ hf ↦ .inl hf, le_rfl⟩

theorem Notes.trans {st st' st'' : WalkState} {m n : ℕ} (h : Notes reported st st' m)
    (h' : Notes reported st' st'' n) : Notes reported st st'' (m + n) := by
  refine ⟨fun f hf ↦ ?_, ?_⟩
  · rcases h'.findings f hf with hf | hf
    · exact h.findings f hf
    · exact .inr hf
  · have := h.fieldCount
    have := h'.fieldCount
    omega

theorem Notes.mono {st st' : WalkState} {m n : ℕ} (h : Notes reported st st' m) (hle : m ≤ n) :
    Notes reported st st' n :=
  ⟨h.findings, by have := h.fieldCount; omega⟩

theorem notes_push (reported : List SchemaCheckFinding) (st : WalkState) {findings : List SchemaCheckFinding}
    (h : ∀ f ∈ findings, Spared reported f.limit) : Notes reported st (st.push findings) 0 := by
  refine ⟨fun f hf ↦ ?_, le_rfl⟩
  rcases mem_append.mp hf with hf | hf
  · exact .inl hf
  · exact .inr (h f hf)

theorem spared_of_groupFindings {path : String} {seen : List String} {last : Option String}
    {properties : Node} (hf : f ∈ groupFindings path seen last properties) :
    Spared reported f.limit := by
  induction properties generalizing seen last with
  | nil => exact nomatch hf
  | cons p properties ih =>
    rw [groupFindings] at hf
    split at hf
    · exact ih hf
    · split_ifs at hf
      · exact ih hf
      · rcases mem_append.mp hf with hf | hf
        · exact spared_of_singleton (by decide) hf
        · exact ih hf
      · exact ih (by simpa using hf)

theorem spared_of_nameFindings {path key : String} (hf : f ∈ nameFindings path key) :
    Spared reported f.limit := by
  rw [nameFindings] at hf
  split_ifs at hf
  · exact spared_of_singleton (by decide) hf
  · exact spared_of_singleton (by decide) hf
  · exact nomatch hf

/-- A walk over schemas, one after another, adds what each of them adds. -/
theorem notes_foldl {α : Type} {step : WalkState → α → WalkState} (cost : α → ℕ) (as : List α)
    (h : ∀ a ∈ as, ∀ st, Notes reported st (step st a) (cost a)) (st : WalkState) :
    Notes reported st (as.foldl step st) (as.map cost).sum := by
  induction as generalizing st with
  | nil => exact .refl st
  | cons a as ih =>
    rw [forall_mem_cons] at h
    rw [map_cons, sum_cons]
    exact (h.1 st).trans (ih h.2 (step st a))

section Walk

variable {walk : Walker} {path : String} {depth : ℕ} {refPath : List String} {cost : Value → ℕ}

/-- A walker that adds what the children of a node cost. -/
def WalksAt (reported : List SchemaCheckFinding) (walk : Walker) (depth : ℕ) (refPath : List String)
    (cost : Value → ℕ) (c : Value) : Prop :=
  ∀ path siblingKeys st, Notes reported st (walk c path depth siblingKeys refPath st) (cost c)

theorem notes_walkProperties {properties : Node} {st : WalkState}
    (h : ∀ c ∈ properties.map (·.2), WalksAt reported walk (depth + 1) refPath cost c) :
    Notes reported st (walkProperties walk path depth refPath properties st)
      (properties.length + ((properties.map (·.2)).map cost).sum) := by
  rw [walkProperties]
  have hcount : Notes reported st { st with fieldCount := st.fieldCount + properties.length }
      properties.length := ⟨fun _ hf ↦ .inl hf, le_rfl⟩
  have hgroup := notes_push reported
    { st with fieldCount := st.fieldCount + properties.length }
    fun f (hf : f ∈ checkGroupOrder properties path) ↦ spared_of_groupFindings hf
  have hfold := notes_foldl (fun p : String × Value ↦ cost p.2) properties
    (fun p hp st ↦ by
      have hname := notes_push reported st
        fun f (hf : f ∈ nameFindings path p.1) ↦ spared_of_nameFindings hf
      have hwalk := h p.2 (mem_map_of_mem hp) (joinPath path p.1) (some (properties.map (·.1)))
        (st.push (nameFindings path p.1))
      simpa using hname.trans hwalk)
    (({ st with fieldCount := st.fieldCount + properties.length } : WalkState).push
      (checkGroupOrder properties path))
  rw [map_map]
  simpa [Function.comp_def] using (hcount.trans hgroup).trans hfold

theorem notes_walkItems {items : List Value} {st : WalkState}
    (h : ∀ c ∈ items, WalksAt reported walk (depth + 1) refPath cost c) :
    Notes reported st (walkItems walk path depth refPath items st) (items.map cost).sum := by
  rw [walkItems]
  have hfold := notes_foldl (fun p : Value × ℕ ↦ cost p.1) items.zipIdx
    (fun p hp st ↦ h p.1 (fst_mem_of_mem_zipIdx hp) (itemPath path p.2) none st) st
  have hcost : items.zipIdx.map (fun p ↦ cost p.1) = items.map cost := by
    conv_rhs => rw [← zipIdx_map_fst 0 items, map_map]
    rfl
  rwa [hcost] at hfold

/-- The part of the walk behind the references, where the depth is within the limit. -/
theorem notes_walkNode {siblingKeys : Option (List String)} (hwithin : Within reported node out)
    (hchildren : ∀ c ∈ walkedSchemas out, WalksAt reported walk (depth + 1) refPath cost c)
    (hdepth : depth ≤ maxDepth) (st : WalkState) :
    Notes reported st (walkNode host walk out path depth siblingKeys refPath st)
      (((properties? out).getD []).length + ((walkedSchemas out).map cost).sum) := by
  simp only [walkedSchemas, mem_append] at hchildren
  rw [walkNode, if_neg (Nat.not_lt.mpr hdepth)]
  have hcheck := notes_push reported st
    fun f (hf : f ∈ checkNode host out path siblingKeys) ↦ spared_of_checkNode hwithin hf
  have hproperties : ∀ st, Notes reported st
      (match properties? out with
        | some properties => walkProperties walk path depth refPath properties st
        | none => st) (((properties? out).getD []).length + ((fieldSchemas out).map cost).sum) := by
    intro st
    rw [fieldSchemas]
    rcases h : properties? out with _ | properties
    · exact .refl st
    · refine notes_walkProperties fun c hc ↦ hchildren c (.inl (.inl ?_))
      rwa [fieldSchemas, h]
  have hitems : ∀ st, Notes reported st
      (match out.prop "items" with
        | .arr items => walkItems walk path depth refPath items st
        | .undefined => st
        | items => walk items (path ++ "[]") (depth + 1) none refPath st)
      ((itemsAt (out.prop "items")).map cost).sum := by
    intro st
    split
    · rename_i items hitems
      rw [hitems] at hchildren ⊢
      exact notes_walkItems fun c hc ↦ hchildren c (.inl (.inr hc))
    · rename_i hundefined
      rw [hundefined]
      exact .refl st
    · rename_i hno hundefined
      rw [itemsAt_eq_singleton hno hundefined] at hchildren ⊢
      have hone := hchildren _ (.inl (.inr (.head _)))
      simpa using hone (path ++ "[]") none st
  have hprefixItems : ∀ st, Notes reported st
      (match out.prop "prefixItems" with
        | .arr items => walkItems walk path depth refPath items st
        | _ => st) ((listAt (out.prop "prefixItems")).map cost).sum := by
    intro st
    split
    · rename_i items hitems
      rw [hitems] at hchildren ⊢
      exact notes_walkItems fun c hc ↦ hchildren c (.inr hc)
    · rename_i hno
      rw [listAt_eq_nil hno]
      exact .refl st
  refine (((hcheck.trans (hproperties _)).trans (hitems _)).trans (hprefixItems _)).mono ?_
  simp only [walkedSchemas, map_append, sum_append]
  omega

end Walk

/-- A rebuilt schema is an object, and it is no reference where the schema had none. -/
theorem ref?_of_rebuilt {left : ℕ} (h : Rebuilt (Within reported) left v (.obj out))
    (hfree : RefFree left v) : ref? out = none := by
  cases v with
  | obj node =>
    have href : ref? node = none := by cases left <;> exact hfree.1
    cases left with
    | zero =>
      simp only [Rebuilt, href, Option.isSome_none, Bool.false_eq_true, if_false] at h
      cases h
      rfl
    | succ left =>
      simp only [Rebuilt, href, Option.isSome_none, Bool.false_eq_true, if_false] at h
      obtain ⟨out', hout, hwithin, -⟩ := h
      cases hout
      exact hwithin.ref
  | _ =>
    obtain rfl : out = [] := by cases left <;> exact Value.obj.inj h
    rfl

theorem within_nil : Within reported [] [] := by
  refine ⟨rfl, ?_, ?_, ?_, ?_, ?_, ?_⟩
  all_goals intro; simp [Node.prop, properties?]

/-- What stands above the limit of the depth was rebuilt, with the schemas in it. -/
theorem children_of_rebuilt {left : ℕ} (h : Rebuilt (Within reported) (left + 1) v (.obj out))
    (hfree : RefFree (left + 1) v) :
    ∃ node, Within reported node out ∧
      ∀ c' ∈ walkedSchemas out, ∃ c, Rebuilt (Within reported) left c c' ∧ RefFree left c := by
  cases v with
  | obj node =>
    obtain ⟨href, hchildrenFree⟩ := hfree
    simp only [Rebuilt, href, Option.isSome_none, Bool.false_eq_true, if_false] at h
    obtain ⟨out', hout, hwithin, hwalked, -⟩ := h
    cases hout
    refine ⟨node, hwithin, fun c' hc' ↦ ?_⟩
    obtain ⟨c, hc, hrebuilt⟩ := hwalked c' hc'
    exact ⟨c, hrebuilt, hchildrenFree c hc⟩
  | _ =>
    obtain rfl : out = [] := Value.obj.inj h
    refine ⟨[], within_nil, fun c' hc' ↦ ?_⟩
    simp [walkedSchemas, fieldSchemas, properties?, Node.prop, itemsAt, listAt] at hc'

/-- The gate's walk over a schema that was rebuilt. -/
theorem notes_walk (host : Host) (root : Node) (fuel : ℕ) {left depth : ℕ}
    (hdepth : depth + left = maxDepth + 1) {w : Value} (h : Rebuilt (Within reported) left v w)
    (hfree : RefFree left v) (refPath : List String) :
    WalksAt reported (walk host root fuel) depth refPath (fieldsOf left) w := by
  induction fuel generalizing left depth v w with
  | zero => exact fun path siblingKeys st ↦ (Notes.refl st).mono (Nat.zero_le _)
  | succ fuel ih =>
    intro path siblingKeys st
    obtain ⟨out, rfl⟩ := h.exists_obj
    rw [walk]
    dsimp only
    have hvisits : Notes reported st { st with visits := st.visits + 1 } 0 :=
      ⟨fun _ hf ↦ .inl hf, Nat.le_refl _⟩
    split_ifs with hmany hexceeded
    · exact hvisits.mono (Nat.zero_le _)
    · have hexceeded : Notes reported { st with visits := st.visits + 1 }
          { st with visits := st.visits + 1, walkBudgetExceeded := true } 0 :=
        ⟨fun _ hf ↦ .inl hf, le_rfl⟩
      refine ((hvisits.trans hexceeded).trans (notes_push reported _ fun f hf ↦ ?_)).mono (Nat.zero_le _)
      exact spared_of_singleton (by decide) hf
    · have href := ref?_of_rebuilt h hfree
      simp only [href]
      cases left with
      | zero =>
        have hdeep : depth > maxDepth := by omega
        rw [walkNode, if_pos hdeep]
        refine (hvisits.trans (notes_push reported _ fun f hf ↦ ?_)).mono (Nat.zero_le _)
        exact spared_of_singleton (by decide) hf
      | succ left =>
        obtain ⟨node, hwithin, hchildren⟩ := children_of_rebuilt h hfree
        have hwalks : ∀ c' ∈ walkedSchemas out,
            WalksAt reported (walk host root fuel) (depth + 1) refPath (fieldsOf left) c' := by
          intro c' hc'
          obtain ⟨c, hrebuilt, hcfree⟩ := hchildren c' hc'
          exact ih (by omega) hrebuilt hcfree
        rw [fieldsOf, href, Option.isSome_none, if_neg (by simp)]
        refine (hvisits.trans (notes_walkNode hwithin hwalks (by omega) _)).mono ?_
        rw [children, map_append, sum_append]
        omega

end Gate

/-! ## A clamped schema -/

/-- What clamping does for a stored schema: every node it rebuilds is within the limits, but for the
ellipsis of a text that it says it has shortened; all of them together have no more fields than the
limit; where no reference leads the gate to what was left alone, the gate finds no more than that; and
if nothing was to be clamped, a regular schema is as it was. -/
structure ClampsWithin (host : Host) (schemaIn : Value) : Prop where
  rebuilt : Rebuilt (Within (clampSchema schemaIn).clamped) (maxDepth + 1) schemaIn
    (clampSchema schemaIn).schema
  fields : fieldsOf (maxDepth + 1) (clampSchema schemaIn).schema ≤ maxFields
  spared : RefFree (maxDepth + 1) schemaIn →
    ∀ f ∈ checkDeclaredSchema host (clampSchema schemaIn).schema,
      Spared (clampSchema schemaIn).clamped f.limit
  unchanged : (clampSchema schemaIn).clamped = [] → RegularSchema (maxDepth + 1) schemaIn →
    (clampSchema schemaIn).schema = schemaIn

theorem noise_eq_zero {st : ClampState} (h : st.clamped ++ droppedFindings st = []) : st.noise = 0 := by
  obtain ⟨hclamped, hdropped⟩ := append_eq_nil_iff.mp h
  obtain ⟨hfields, hbranches⟩ := append_eq_nil_iff.mp hdropped
  have hfields : st.droppedFields = 0 := by
    by_contra hne
    rw [if_pos (Nat.pos_of_ne_zero hne)] at hfields
    exact cons_ne_nil _ _ hfields
  have hbranches : st.droppedBranches = 0 := by
    by_contra hne
    rw [if_pos (Nat.pos_of_ne_zero hne)] at hbranches
    exact cons_ne_nil _ _ hbranches
  rw [ClampState.noise, hclamped, hfields, hbranches]
  rfl

/-- What the gate finds in a schema that was rebuilt with no more fields than the limit. -/
theorem spared_of_checkDeclaredSchema (host : Host) {reported : List SchemaCheckFinding} {v : Value}
    {root : Node} (h : Rebuilt (Within reported) (maxDepth + 1) v (.obj root))
    (hfree : RefFree (maxDepth + 1) v) (hfields : fieldsOf (maxDepth + 1) (.obj root) ≤ maxFields) :
    ∀ f ∈ checkDeclaredSchema host (.obj root), Spared reported f.limit := by
  have hsize : ∀ f ∈ sizeFindings host (.obj root), Spared reported f.limit := by
    intro f hf
    rw [sizeFindings] at hf
    split at hf
    · dsimp only at hf
      split_ifs at hf
      · exact spared_of_singleton (by decide) hf
      · exact nomatch hf
    · exact nomatch hf
  have hwalk := notes_walk host root (maxWalkVisits + 1) (Nat.zero_add _) h hfree [] "" none
    ⟨sizeFindings host (.obj root), 0, 0, false⟩
  intro f hf
  rw [checkDeclaredSchema] at hf
  have hcount := hwalk.fieldCount
  dsimp only at hcount
  rw [if_neg (by omega), append_nil] at hf
  rcases hwalk.findings f hf with hf | hf
  · exact hsize f hf
  · exact hf

/-- **Clamping brings a schema within the limits**, as far as it goes: it leaves alone what is behind a
reference, and an ellipsis is one character more. -/
theorem clampsWithin (host : Host) (schemaIn : Value) : ClampsWithin host schemaIn := by
  have hempty : ∀ v : Value, (∀ node, v ≠ .obj node) → clampSchema v = ⟨.obj [], []⟩ →
      ClampsWithin host v := by
    intro v hv hclamp
    have hspec : ChildSpec (maxDepth + 1) v ⟨[], maxFields, 0, 0⟩ (.obj [], ⟨[], maxFields, 0, 0⟩) :=
      childSpec_empty hv _
    have hfields : fieldsOf (maxDepth + 1) (.obj []) ≤ maxFields := Nat.zero_le _
    refine ⟨?_, ?_, fun hfree ↦ ?_, fun _ hregular ↦ ?_⟩
    · rw [hclamp]
      exact hspec.rebuilt
    · rw [hclamp]
      exact hfields
    · rw [hclamp]
      exact spared_of_checkDeclaredSchema host hspec.rebuilt hfree hfields
    · rw [hclamp]
      exact hspec.unchanged rfl hregular
  cases schemaIn with
  | obj root =>
    have hspec := clamps_clampNode (maxDepth + 1) (.obj root) "" ⟨[], maxFields, 0, 0⟩
    rcases hnode : clampNode (maxDepth + 1) (.obj root) "" ⟨[], maxFields, 0, 0⟩ with ⟨schema, st⟩
    rw [hnode] at hspec
    have hclamp : clampSchema (.obj root) = ⟨schema, st.clamped ++ droppedFindings st⟩ := by
      rw [clampSchema, hnode]
    have hrebuilt : Rebuilt (Within (st.clamped ++ droppedFindings st)) (maxDepth + 1) (.obj root)
        schema := hspec.rebuilt.mono fun _ _ h ↦ h.mono (subset_append_left _ _)
    have hfields : fieldsOf (maxDepth + 1) schema ≤ maxFields := by
      have hbudget := hspec.advances.budget
      dsimp only at hbudget
      omega
    refine ⟨?_, ?_, fun hfree ↦ ?_, fun hnone hregular ↦ ?_⟩
    · rw [hclamp]
      exact hrebuilt
    · rw [hclamp]
      exact hfields
    · rw [hclamp]
      obtain ⟨out, rfl⟩ := hrebuilt.exists_obj
      exact spared_of_checkDeclaredSchema host hrebuilt hfree hfields
    · rw [hclamp] at hnone ⊢
      exact hspec.unchanged (noise_eq_zero hnone) hregular
  | _ => exact hempty _ (by simp) rfl

/-- A text of so many characters. -/
def textOfLength (n : ℕ) : Value := .str (String.ofList (List.replicate n 'x'))

/-- What is not clamped: a title keeps an ellipsis beyond its limit, and one behind a reference all it
has; a name that every object has stays required; and what is no schema is replaced without a word. -/
theorem clampSchema_leaves :
    (∃ f ∈ checkDeclaredSchema plainHost (clampSchema (.obj [("title", textOfLength 81)])).schema,
        f.limit = .maxTitleChars) ∧
      (∃ f ∈ checkDeclaredSchema plainHost (clampSchema (.obj
          [("properties", .obj [("field", .obj [("$ref", .str "#/$defs/long")])]),
            ("$defs", .obj [("long", .obj [("title", textOfLength 100)])])])).schema,
        f.limit = .maxTitleChars) ∧
      (clampSchema (.obj [("properties", .obj []), ("required", .arr [.str "toString"])])).schema =
        .obj [("properties", .obj []), ("required", .arr [.str "toString"])] ∧
      clampSchema .null = ⟨.obj [], []⟩ := by
  refine ⟨?_, ?_, ?_, rfl⟩
  · decide +kernel
  · decide +kernel
  · decide +kernel

end Enkaku.Schema
