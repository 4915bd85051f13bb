import Enkaku.Schema.Clamp

/-!
# The walk of the publish gate

What the walk of `checkDeclaredSchema` does with a node is a list of steps (`Act`): it reports
findings, counts fields and goes to the schemas of `walkedSchemas`, and to no others.

Two things follow.  The walk ends for every schema (`walk_fuel`): every call counts a visit, and past
`maxWalkVisits` none goes on, so that no more calls stand in one another than that.  And where it
finds nothing but interrupted sections, every node it came to passed (`Passed`): it is not too deep,
keeps the limits (`NodeWithin`), and no reference that leads to it was followed on the way before.
-/

set_option autoImplicit false

namespace Enkaku.Schema

open List

/-! ## The steps of a node -/

/-- A step of the walk of a node. -/
inductive Act where
  | push (findings : List SchemaCheckFinding)
  | count (fields : ℕ)
  | visit (schema : Value) (path : String) (siblingKeys : Option (List String))

/-- What a step does, at a depth and after the references of a branch. -/
def Act.run (walk : Walker) (depth : ℕ) (refPath : List String) (st : WalkState) : Act → WalkState
  | push findings => st.push findings
  | count fields => { st with fieldCount := st.fieldCount + fields }
  | visit schema path siblingKeys => walk schema path (depth + 1) siblingKeys refPath st

/-- The steps under `properties`. -/
def propertyActs (path : String) (properties : Node) : List Act :=
  .count properties.length :: .push (checkGroupOrder properties path) ::
    properties.flatMap fun p ↦
      [.push (nameFindings path p.1), .visit p.2 (joinPath path p.1) (some (properties.map (·.1)))]

/-- The steps of a list of items. -/
def itemActs (path : String) (items : List Value) : List Act :=
  items.zipIdx.map fun p ↦ .visit p.1 (itemPath path p.2) none

/-- The steps of a node that is not too deep. -/
def acts (host : Host) (node : Node) (path : String) (siblingKeys : Option (List String)) : List Act :=
  .push (checkNode host node path siblingKeys) ::
    ((properties? node).map (propertyActs path)).getD [] ++
    (match node.prop "items" with
      | .arr items => itemActs path items
      | .undefined => []
      | items => [.visit items (path ++ "[]") none]) ++
    itemActs path (listAt (node.prop "prefixItems"))

section Acts

variable {host : Host} {walk : Walker} {node : Node} {path : String} {depth : ℕ}
  {siblingKeys : Option (List String)} {refPath : List String} {st : WalkState}

theorem walkProperties_eq (properties : Node) :
    walkProperties walk path depth refPath properties st =
      (propertyActs path properties).foldl (Act.run walk depth refPath) st := by
  rw [walkProperties, propertyActs, foldl_cons, foldl_cons, foldl_flatMap]
  rfl

theorem walkItems_eq (items : List Value) :
    walkItems walk path depth refPath items st =
      (itemActs path items).foldl (Act.run walk depth refPath) st := by
  rw [walkItems, itemActs, foldl_map]
  rfl

theorem walkProperties?_eq (properties? : Option Node) :
    (match properties? with
      | some properties => walkProperties walk path depth refPath properties st
      | none => st) =
    ((properties?.map (propertyActs path)).getD []).foldl (Act.run walk depth refPath) st := by
  cases properties? with
  | none => rfl
  | some properties => exact walkProperties_eq properties

theorem walkItemsAt_eq (v : Value) :
    (match v with
      | .arr items => walkItems walk path depth refPath items st
      | .undefined => st
      | items => walk items (path ++ "[]") (depth + 1) none refPath st) =
    (match v with
      | .arr items => itemActs path items
      | .undefined => []
      | items => [.visit items (path ++ "[]") none]).foldl (Act.run walk depth refPath) st := by
  split
  · exact walkItems_eq _
  · rfl
  · rfl

theorem walkListAt_eq (v : Value) :
    (match v with
      | .arr items => walkItems walk path depth refPath items st
      | _ => st) =
    (itemActs path (listAt v)).foldl (Act.run walk depth refPath) st := by
  cases v with
  | arr items => exact walkItems_eq items
  | _ => rfl

/-- The walk of a node takes its steps, one after another. -/
theorem walkNode_eq (hdepth : depth ≤ maxDepth) :
    walkNode host walk node path depth siblingKeys refPath st =
      (acts host node path siblingKeys).foldl (Act.run walk depth refPath) st := by
  rw [walkNode, if_neg (Nat.not_lt.mpr hdepth), acts, foldl_append, foldl_append, foldl_cons]
  rw [← walkListAt_eq, ← walkItemsAt_eq, ← walkProperties?_eq]
  rfl

theorem exists_visit_of_mem {items : List Value} {c : Value} (hc : c ∈ items) (path : String) :
    ∃ path', Act.visit c path' none ∈ itemActs path items := by
  rw [← zipIdx_map_fst 0 items] at hc
  obtain ⟨p, hp, rfl⟩ := mem_map.mp hc
  exact ⟨itemPath path p.2, mem_map.mpr ⟨p, hp, rfl⟩⟩

/-- The walk checks every name of a field. -/
theorem push_names_mem {key : String} (hkey : key ∈ ((properties? node).getD []).map (·.1)) :
    Act.push (nameFindings path key) ∈ acts host node path siblingKeys := by
  obtain ⟨p, hp, rfl⟩ := mem_map.mp hkey
  cases hproperties : properties? node with
  | none => simp [hproperties] at hp
  | some properties =>
    rw [hproperties, Option.getD_some] at hp
    rw [acts, hproperties, Option.map_some, Option.getD_some, propertyActs]
    refine mem_append_left _ (mem_append_left _ (.tail _ ?_))
    exact .tail _ (mem_cons_of_mem _
      (mem_flatMap.mpr ⟨p, hp, mem_cons_self⟩))

/-- The walk goes to every schema of `walkedSchemas`. -/
theorem exists_visit (host : Host) {c : Value} (hc : c ∈ walkedSchemas node) (path : String)
    (siblingKeys : Option (List String)) :
    ∃ path' siblingKeys', Act.visit c path' siblingKeys' ∈ acts host node path siblingKeys := by
  simp only [walkedSchemas, mem_append] at hc
  simp only [acts, mem_append, mem_cons]
  rcases hc with (hc | hc) | hc
  · rw [fieldSchemas] at hc
    obtain ⟨p, hp, rfl⟩ := mem_map.mp hc
    cases hproperties : properties? node with
    | none => simp [hproperties] at hp
    | some properties =>
      rw [hproperties, Option.getD_some] at hp
      refine ⟨joinPath path p.1, some (properties.map (·.1)), .inl (.inl (.inr ?_))⟩
      rw [Option.map_some, Option.getD_some, propertyActs]
      exact .tail _ (mem_cons_of_mem _
        (mem_flatMap.mpr ⟨p, hp, .tail _ (.head _)⟩))
  · split
    · rename_i items hitems
      rw [hitems] at hc
      obtain ⟨path', hmem⟩ := exists_visit_of_mem hc path
      exact ⟨path', none, .inl (.inr hmem)⟩
    · rename_i hundefined
      rw [hundefined] at hc
      cases hc
    · rename_i hno hundefined
      rw [itemsAt_eq_singleton hno hundefined, mem_singleton] at hc
      exact ⟨path ++ "[]", none, .inl (.inr (by rw [hc]; exact .head _))⟩
  · obtain ⟨path', hmem⟩ := exists_visit_of_mem hc path
    exact ⟨path', none, .inr hmem⟩

end Acts

/-! ## What the walk leaves behind -/

/-- Nothing was found but warnings. -/
def WalkState.Clean (st : WalkState) : Prop := ∀ f ∈ st.findings, f.limit = .group

/-- What gave up said so. -/
def WalkState.Budgeted (st : WalkState) : Prop := st.walkBudgetExceeded = true → ¬ st.Clean

/-- What a part of the walk keeps of the variables. -/
structure Grows (st st' : WalkState) : Prop where
  findings : st.findings ⊆ st'.findings
  visits : st.visits ≤ st'.visits
  budgeted : st.Budgeted → st'.Budgeted

theorem Grows.refl (st : WalkState) : Grows st st := ⟨.refl _, le_rfl, id⟩

theorem Grows.trans {st st' st'' : WalkState} (h : Grows st st') (h' : Grows st' st'') : Grows st st'' :=
  ⟨fun _ hf ↦ h'.findings (h.findings hf), h.visits.trans h'.visits, h'.budgeted ∘ h.budgeted⟩

theorem Grows.clean {st st' : WalkState} (h : Grows st st') (hclean : st'.Clean) : st.Clean :=
  fun f hf ↦ hclean f (h.findings hf)

theorem grows_push (st : WalkState) (findings : List SchemaCheckFinding) :
    Grows st (st.push findings) := by
  refine ⟨subset_append_left _ _, le_rfl, fun h hexceeded hclean ↦ ?_⟩
  exact h hexceeded fun f hf ↦ hclean f (mem_append_left _ hf)

theorem clean_of_push {st : WalkState} {findings : List SchemaCheckFinding}
    (h : (st.push findings).Clean) : ∀ f ∈ findings, f.limit = .group :=
  fun f hf ↦ h f (mem_append_right _ hf)

/-- A walker that keeps what there is. -/
def GrowsAll (walk : Walker) : Prop :=
  ∀ v path depth siblingKeys refPath st, Grows st (walk v path depth siblingKeys refPath st)

section Growth

variable {walker : Walker} {depth : ℕ} {refPath : List String}

theorem grows_act (hwalk : GrowsAll walker) (st : WalkState) (a : Act) :
    Grows st (a.run walker depth refPath st) := by
  cases a with
  | push findings => exact grows_push st findings
  | count fields => exact ⟨.refl _, le_rfl, id⟩
  | visit schema path siblingKeys => exact hwalk ..

theorem grows_acts (hwalk : GrowsAll walker) (as : List Act) (st : WalkState) :
    Grows st (as.foldl (Act.run walker depth refPath) st) := by
  induction as generalizing st with
  | nil => exact .refl st
  | cons a as ih => exact (grows_act hwalk st a).trans (ih _)

/-- The steps between two states of a walk that finds nothing find nothing. -/
theorem exists_clean_act (hwalk : GrowsAll walker) {as : List Act} {st : WalkState}
    (h : (as.foldl (Act.run walker depth refPath) st).Clean) {a : Act} (ha : a ∈ as) :
    ∃ st', Grows st st' ∧ (a.run walker depth refPath st').Clean := by
  induction as generalizing st with
  | nil => exact nomatch ha
  | cons b as ih =>
    rw [foldl_cons] at h
    rcases mem_cons.mp ha with rfl | ha
    · exact ⟨st, .refl st, (grows_acts hwalk as _).clean h⟩
    · obtain ⟨st', hgrows, hclean⟩ := ih h ha
      exact ⟨st', (grows_act hwalk st b).trans hgrows, hclean⟩

theorem grows_visited (st : WalkState) : Grows st { st with visits := st.visits + 1 } :=
  ⟨.refl _, Nat.le_succ _, id⟩

theorem grows_walk (host : Host) (root : Node) (fuel : ℕ) : GrowsAll (walk host root fuel) := by
  induction fuel with
  | zero => exact fun v path depth siblingKeys refPath st ↦ .refl st
  | succ fuel ih =>
    intro v path depth siblingKeys refPath st
    rw [walk.eq_def]
    dsimp only
    split
    · rename_i node
      refine (grows_visited st).trans ?_
      split_ifs with hmany hexceeded
      · exact .refl _
      · refine ⟨subset_append_left _ _, le_rfl, fun _ _ hclean ↦ ?_⟩
        have hlimit : Limit.ref = Limit.group :=
          hclean _ (mem_append_right _ (.head _))
        exact nomatch hlimit
      · split
        · split_ifs
          · exact grows_push _ _
          · exact ih ..
        · by_cases hdepth : depth ≤ maxDepth
          · rw [walkNode_eq hdepth]
            exact grows_acts ih _ _
          · rw [walkNode, if_pos (Nat.lt_of_not_le hdepth)]
            exact grows_push _ _
    · exact .refl st

end Growth

/-! ## The walk ends -/

section Fuel

variable {host : Host} {root : Node} {depth : ℕ} {refPath : List String}

theorem acts_congr {walk walk' : Walker} (hwalk : GrowsAll walk) (as : List Act) {st : WalkState}
    (h : ∀ v path siblingKeys st', st.visits ≤ st'.visits →
      walk' v path (depth + 1) siblingKeys refPath st' =
        walk v path (depth + 1) siblingKeys refPath st') :
    as.foldl (Act.run walk' depth refPath) st = as.foldl (Act.run walk depth refPath) st := by
  induction as generalizing st with
  | nil => rfl
  | cons a as ih =>
    have hstep : a.run walk' depth refPath st = a.run walk depth refPath st := by
      cases a with
      | visit schema path siblingKeys => exact h _ _ _ _ (le_rfl)
      | _ => rfl
    rw [foldl_cons, foldl_cons, hstep]
    exact ih fun v path siblingKeys st' hle ↦
      h v path siblingKeys st' ((grows_act hwalk st a).visits.trans hle)

/-- A walk with levels enough for the visits that are left does the same with more of them. -/
theorem walk_fuel_of_visits {fuel fuel' : ℕ} (hle : fuel ≤ fuel') {st : WalkState} (hfuel : 0 < fuel)
    (hvisits : maxWalkVisits < st.visits + fuel) (v : Value) (path : String) (depth : ℕ)
    (siblingKeys : Option (List String)) (refPath : List String) :
    walk host root fuel' v path depth siblingKeys refPath st =
      walk host root fuel v path depth siblingKeys refPath st := by
  induction fuel generalizing fuel' st v path depth siblingKeys refPath with
  | zero => exact absurd hfuel (Nat.lt_irrefl 0)
  | succ fuel ih =>
    obtain ⟨fuel', rfl⟩ : ∃ n, fuel' = n + 1 := ⟨fuel' - 1, by omega⟩
    cases v with
    | obj node =>
      rw [walk, walk]
      dsimp only
      by_cases hmany : st.visits + 1 > maxWalkVisits
      · rw [if_pos hmany, if_pos hmany]
      · rw [if_neg hmany, if_neg hmany]
        have hrest : ∀ v path depth siblingKeys refPath (st' : WalkState), st.visits + 1 ≤ st'.visits →
            walk host root fuel' v path depth siblingKeys refPath st' =
              walk host root fuel v path depth siblingKeys refPath st' :=
          fun v path depth siblingKeys refPath st' hst' ↦
            ih (by omega) (by omega) (by omega) v path depth siblingKeys refPath
        cases ref? node with
        | some ref =>
          dsimp only
          split_ifs
          · rfl
          · exact hrest _ _ _ _ _ _ (le_rfl)
        | none =>
          by_cases hdepth : depth ≤ maxDepth
          · rw [walkNode_eq hdepth, walkNode_eq hdepth]
            exact acts_congr (grows_walk host root fuel) _ fun v path siblingKeys st' hst' ↦
              hrest _ _ _ _ _ _ hst'
          · rw [walkNode, walkNode, if_pos (Nat.lt_of_not_le hdepth), if_pos (Nat.lt_of_not_le hdepth)]
    | _ => rfl

/-- **The walk ends**: however many calls may stand in one another, no more than `maxWalkVisits + 1`
do. -/
theorem walk_fuel {fuel : ℕ} (hfuel : maxWalkVisits < fuel) (v : Value) (path : String) (depth : ℕ)
    (siblingKeys : Option (List String)) (refPath : List String) (st : WalkState) :
    walk host root fuel v path depth siblingKeys refPath st =
      walk host root (maxWalkVisits + 1) v path depth siblingKeys refPath st :=
  walk_fuel_of_visits hfuel (Nat.succ_pos _) (by omega) v path depth siblingKeys refPath

end Fuel

/-! ## One node -/

/-- A node within the limits. -/
structure NodeWithin (node : Node) : Prop where
  pattern : node.prop "pattern" = .undefined
  title : ∀ s, node.prop "title" = .str s → utf16Length s ≤ maxTitleChars
  description : ∀ s, node.prop "description" = .str s → utf16Length s ≤ maxDescriptionChars
  enum : ∀ members, node.prop "enum" = .arr members → members.length ≤ maxEnumMembers
  group : ∀ hints s, node.prop "x-enkaku" = .obj hints → Node.prop hints "group" = .str s →
    utf16Length s ≤ maxGroupChars
  labels : ∀ hints labels, node.prop "x-enkaku" = .obj hints → Node.prop hints "labels" = .obj labels →
    ∀ p ∈ labels, ∀ s, p.2 = .str s → utf16Length s ≤ maxLabelChars
  names : ∀ key ∈ ((properties? node).getD []).map (·.1),
    key ∉ dangerousFieldNames ∧ isIdentifier key.toList = true

/-- A pattern, if there is one, is a text. -/
def PatternIsText (node : Node) : Prop :=
  (∀ s, node.prop "pattern" ≠ .str s) → node.prop "pattern" = .undefined

section One

variable {host : Host} {node : Node} {path : String} {siblingKeys : Option (List String)}

theorem le_of_lengthFinding {limit : Limit} {what : String} {length most : ℕ} (hlimit : limit ≠ .group)
    (h : ∀ f ∈ lengthFinding path limit what length most, f.limit = .group) : length ≤ most := by
  by_contra hmore
  rw [lengthFinding, if_pos (by omega)] at h
  exact hlimit (h _ (.head _))

/-- The texts of hints are in what is parsed. -/
theorem hints_of_texts {raw : Node} {hints : ParamHints} (h : parseHints (.obj raw) = some hints) :
    (∀ s, raw.prop "group" = .str s → hints.group = some s) ∧
      ∀ fields, raw.prop "labels" = .obj fields →
        ∀ p ∈ fields, ∀ s, p.2 = .str s → (p.1, s) ∈ hints.labels.getD [] := by
  simp only [parseHints, Option.bind_eq_bind, Option.bind_eq_some_iff] at h
  obtain ⟨kind, -, unit, -, extensions, -, ordered, -, _, -, group, hgroup, _, -, _, -, labels, hlabels,
    showWhen, -, _, -, _, -, _, -, _, -, _, -, h⟩ := h
  cases h
  refine ⟨fun s hs ↦ ?_, fun fields hfields p hp s hs ↦ ?_⟩
  · rw [optionalKey, hs] at hgroup
    exact (Option.some.inj hgroup).symm
  · rw [optionalKey, hfields] at hlabels
    obtain ⟨ls, hls, rfl⟩ := Option.map_eq_some_iff.mp hlabels
    obtain ⟨q, hq, hpq⟩ := Zod.exists_mem_of_mapM hls hp
    rw [hs] at hpq
    cases hpq
    exact hq

/-- A node in which the gate finds nothing but warnings keeps the limits. -/
theorem nodeWithin_of_checkNode
    (h : ∀ f ∈ checkNode host node path siblingKeys, f.limit = .group)
    (hnames : ∀ key ∈ ((properties? node).getD []).map (·.1),
      ∃ path, ∀ f ∈ nameFindings path key, f.limit = .group)
    (hpattern : PatternIsText node) : NodeWithin node := by
  simp only [checkNode, forall_mem_append] at h
  obtain ⟨⟨⟨⟨htitle, hdescription⟩, henum⟩, htext⟩, hhints⟩ := h
  have hparsed : ∀ raw, node.prop "x-enkaku" = .obj raw →
      ∃ hints, parseHints (.obj raw) = some hints ∧
        ∀ f ∈ hintFindings hints path siblingKeys, f.limit = .group := by
    intro raw hraw
    rw [hraw] at hhints
    cases hparse : parseHints (.obj raw) with
    | some hints => exact ⟨hints, rfl, by simpa only [hparse] using hhints⟩
    | none =>
      simp only [hparse] at hhints
      obtain ⟨message, hmessage⟩ := exists_mem_of_ne_nil _ (host.hintMessages_ne_nil (.obj raw))
      have hlimit : Limit.hints = Limit.group := hhints _ (mem_map_of_mem hmessage)
      cases hlimit
  refine ⟨hpattern fun s hs ↦ ?_, fun s hs ↦ ?_, fun s hs ↦ ?_, fun members hmembers ↦ ?_,
    fun raw s hraw hs ↦ ?_, fun raw fields hraw hfields p hp s hs ↦ ?_, fun key hkey ↦ ?_⟩
  · rw [hs] at htext
    have hlimit : Limit.pattern = Limit.group := htext _ (.head _)
    cases hlimit
  · rw [hs] at htitle
    exact le_of_lengthFinding (by decide) htitle
  · rw [hs] at hdescription
    exact le_of_lengthFinding (by decide) hdescription
  · rw [hmembers] at henum
    by_contra hmany
    dsimp only at henum
    rw [if_pos (by omega)] at henum
    have hlimit : Limit.maxEnumMembers = Limit.group := henum _ (.head _)
    cases hlimit
  · obtain ⟨hints, hparse, hfound⟩ := hparsed raw hraw
    simp only [hintFindings, forall_mem_append, (hints_of_texts hparse).1 s hs] at hfound
    exact le_of_lengthFinding (by decide) hfound.1.1
  · obtain ⟨hints, hparse, hfound⟩ := hparsed raw hraw
    simp only [hintFindings, forall_mem_append, forall_mem_flatMap] at hfound
    exact le_of_lengthFinding (by decide)
      (hfound.1.2 _ ((hints_of_texts hparse).2 fields hfields p hp s hs))
  · obtain ⟨path, hfound⟩ := hnames key hkey
    have hlimit : Limit.fieldNamePattern ≠ Limit.group := by decide
    rw [nameFindings] at hfound
    split_ifs at hfound with hdangerous hidentifier
    · exact absurd (hfound _ (.head _)) hlimit
    · exact absurd (hfound _ (.head _)) hlimit
    · exact ⟨hdangerous, by simpa using hidentifier⟩

end One

/-! ## What the gate has passed -/

/-- The walk came to a schema, at a depth and after the references of its branch, and in what it did
from there it found nothing but warnings. -/
def Passed (host : Host) (root : Node) (v : Value) (depth : ℕ) (refPath : List String) : Prop :=
  ∃ fuel path siblingKeys st, 0 < fuel ∧ maxWalkVisits < WalkState.visits st + fuel ∧ st.Budgeted ∧
    (walk host root fuel v path depth siblingKeys refPath st).Clean

section Passed

variable {host : Host} {root node : Node} {v : Value} {depth : ℕ} {refPath : List String}

theorem passed_root (h : Accepted host (.obj root)) : Passed host root (.obj root) 0 [] := by
  refine ⟨maxWalkVisits + 1, "", none, ⟨sizeFindings host (.obj root), 0, 0, false⟩,
    Nat.succ_pos _, by simp, nofun, fun f hf ↦ ?_⟩
  refine h f ?_
  rw [checkDeclaredSchema]
  exact mem_append_left _ hf

section

variable (h : Passed host root (.obj node) depth refPath)
include h

/-- A call that was made counted its visit, and there were visits left. -/
theorem Passed.exists_call :
    ∃ fuel path siblingKeys st, 0 < fuel ∧ maxWalkVisits < WalkState.visits st + fuel ∧ st.Budgeted ∧
      (match ref? node with
        | some ref =>
          if ref ∈ refPath then
            st.push [⟨path, .ref, "schema contains a self-referential $ref cycle at \"" ++ ref ++ "\""⟩]
          else walk host root fuel (resolveRef root ref).toSchema path depth siblingKeys
            (ref :: refPath) st
        | none => walkNode host (walk host root fuel) node path depth siblingKeys refPath st).Clean := by
  obtain ⟨fuel, path, siblingKeys, st, hfuel, hvisits, hbudgeted, hclean⟩ := h
  obtain ⟨fuel, rfl⟩ : ∃ n, fuel = n + 1 := ⟨fuel - 1, by omega⟩
  have hvisited := (grows_visited st).budgeted hbudgeted
  rw [walk] at hclean
  dsimp only at hclean
  split_ifs at hclean with hmany hexceeded
  · exact absurd hclean (hvisited hexceeded)
  · have hlimit : Limit.ref = Limit.group := clean_of_push hclean _ (.head _)
    cases hlimit
  · exact ⟨fuel, path, siblingKeys, { st with visits := st.visits + 1 }, by omega, by simp; omega,
      hvisited, hclean⟩

/-- Behind a reference the walk goes on, and the reference was not followed on the way. -/
theorem Passed.of_ref {ref : String} (href : ref? node = some ref) :
    ref ∉ refPath ∧ Passed host root (resolveRef root ref).toSchema depth (ref :: refPath) := by
  obtain ⟨fuel, path, siblingKeys, st, hfuel, hvisits, hbudgeted, hclean⟩ := h.exists_call
  rw [href] at hclean
  dsimp only at hclean
  split_ifs at hclean with hcycle
  · have hlimit : Limit.ref = Limit.group := clean_of_push hclean _ (.head _)
    exact nomatch hlimit
  · exact ⟨hcycle, fuel, path, siblingKeys, st, hfuel, hvisits, hbudgeted, hclean⟩

/-- **A node that passed is not too deep and keeps the limits**, and the schemas in it passed. -/
theorem Passed.of_node (href : ref? node = none) :
    depth ≤ maxDepth ∧ (PatternIsText node → NodeWithin node) ∧
      ∀ c ∈ walkedSchemas node, Passed host root c (depth + 1) refPath := by
  obtain ⟨fuel, path, siblingKeys, st, hfuel, hvisits, hbudgeted, hclean⟩ := h.exists_call
  rw [href] at hclean
  have hdepth : depth ≤ maxDepth := by
    by_contra hdeep
    rw [walkNode, if_pos (Nat.lt_of_not_le hdeep)] at hclean
    have hlimit : Limit.maxDepth = Limit.group := clean_of_push hclean _ (.head _)
    cases hlimit
  rw [walkNode_eq hdepth] at hclean
  have hgrows := grows_walk host root fuel
  have hpushed : ∀ findings, Act.push findings ∈ acts host node path siblingKeys →
      ∀ f ∈ findings, f.limit = .group := by
    intro findings hmem
    obtain ⟨st', -, hpush⟩ := exists_clean_act hgrows hclean hmem
    exact clean_of_push hpush
  refine ⟨hdepth, nodeWithin_of_checkNode (hpushed _ (.head _)) fun key hkey ↦ ?_, fun c hc ↦ ?_⟩
  · exact ⟨path, hpushed _ (push_names_mem hkey)⟩
  · obtain ⟨path', siblingKeys', hmem⟩ := exists_visit host hc path siblingKeys
    obtain ⟨st', hst, hvisit⟩ := exists_clean_act hgrows hclean hmem
    have hmore := hst.visits
    exact ⟨fuel, path', siblingKeys', st', hfuel, by omega, hst.budgeted hbudgeted, hvisit⟩

end

end Passed

end Enkaku.Schema
