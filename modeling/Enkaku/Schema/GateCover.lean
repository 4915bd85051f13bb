import Enkaku.Schema.GateWalk

/-!
# What the publish gate covers

The walk of the gate and the walk of the validator over one schema.  The validator goes from a node to
the schemas of `nextSchemas`, and along its references to the entries of `$defs` (`Leads`).  A node it
can come to is reached along such steps, on a way that notes how deep it leads and whether it leaves
the walk of the gate, which it does in two places: the branches of a node, which the gate does not
follow, and a name of `$defs` with a slash in it, which the gate takes for a path (`Misses`).

On a way the gate has followed every node passed (`passed_of_way`), so that it is within the limits and
stands on no cycle.  The run of the validator depends on what is beyond the limit of the depth only if
a node is too deep, and it turns back at a reference only if one is met a second time, which may be in
another place.
-/

set_option autoImplicit false

namespace Enkaku.Schema

open List

/-! ## The steps of the validator -/

/-- The schema of all the items. -/
def itemSchema (node : Node) : List Value :=
  match node.prop "items" with
  | .obj items => [.obj items]
  | _ => []

/-- The schemas in a node that the validator goes to, where the node has no branches. -/
def checkedSchemas (node : Node) : List Value :=
  fieldSchemas node ++ itemSchema node ++ listAt (node.prop "prefixItems")

/-- The one branch the validator takes. -/
def realBranch (branches : List Value) : List Value :=
  match branches.filter (!isNullBranch ·) with
  | [real] => [real]
  | _ => []

/-- The schemas the validator goes to from a node that is no reference. -/
def nextSchemas (node : Node) : List Value :=
  match branches? node with
  | some branches => realBranch branches
  | none => checkedSchemas node

/-- A name of `$defs` with a slash in it. -/
def Misses (ref : String) : Bool := (ref.toList.drop 8).contains '/'

/-- A step of the validator between nodes: how many levels it goes down, and whether it leaves the walk
of the gate. -/
inductive Leads (root : Node) : Node → ℕ → Bool → Node → Prop
  | ref {node target : Node} {ref : String} (href : ref? node = some ref)
      (htarget : defsTarget root ref = some target) : Leads root node 0 (Misses ref) target
  | next {node child : Node} (href : ref? node = none) (hchild : .obj child ∈ nextSchemas node) :
      Leads root node 1 (branches? node).isSome child

/-- A way of the validator: its steps, how many levels they go down, and whether one of them leaves the
walk of the gate. -/
inductive Way (root : Node) : Node → ℕ → Bool → Node → Prop
  | refl (node : Node) : Way root node 0 false node
  | tail {node mid last : Node} {depth levels : ℕ} {missed off : Bool}
      (h : Way root node depth missed mid) (hstep : Leads root mid levels off last) :
      Way root node (depth + levels) (missed || off) last

/-- A node the validator can come to. -/
abbrev Reaches (root : Node) (depth : ℕ) (missed : Bool) (node : Node) : Prop :=
  Way root root depth missed node

/-- A node that leads back to itself. -/
def OnCycle (root node : Node) : Prop :=
  ∃ next levels off depth missed, Leads root node levels off next ∧ Way root next depth missed node

section Ways

variable {root node mid last : Node} {depth depth' levels : ℕ} {missed missed' off : Bool}

theorem Way.trans (h : Way root node depth missed mid) (h' : Way root mid depth' missed' last) :
    Way root node (depth + depth') (missed || missed') last := by
  induction h' with
  | refl => simpa using h
  | tail _ hstep ih =>
    rw [← Nat.add_assoc, ← Bool.or_assoc]
    exact ih.tail hstep

theorem Leads.way (h : Leads root node levels off last) : Way root node levels off last := by
  have hway := Way.tail (.refl node) h
  rwa [Nat.zero_add, Bool.false_or] at hway

theorem Leads.levels_of_none (h : Leads root node levels off last) (href : ref? node = none) :
    levels = 1 := by
  cases h with
  | ref href' => exact absurd (href.symm.trans href') (Option.some_ne_none _).symm
  | next => rfl

end Ways

/-! ## What a node on the way of the gate has passed -/

theorem exists_defsName {ref name : String} (h : defsName? ref = some name) :
    ref.toList = "#/$defs/".toList ++ name.toList ∧ name.toList ≠ [] := by
  rw [defsName?] at h
  split_ifs at h with hname
  cases h
  obtain ⟨htake, hne, -⟩ := hname
  have hdrop : (String.ofList (ref.toList.drop 8)).toList = ref.toList.drop 8 := String.toList_ofList
  rw [hdrop, ← htake, take_append_drop]
  exact ⟨rfl, hne⟩

/-- The gate resolves a reference to an entry of `$defs` as the validator does, if it takes the name
for one. -/
theorem resolveRef_of_defsTarget {root target : Node} {ref : String}
    (h : defsTarget root ref = some target) (hname : Misses ref = false) :
    (resolveRef root ref).toSchema = .obj target := by
  rw [defsTarget] at h
  obtain ⟨name, hdefsName, h⟩ := Option.bind_eq_some_iff.mp h
  obtain ⟨hlist, hne⟩ := exists_defsName hdefsName
  have hslash : '/' ∉ name.toList := by
    rw [Misses, hlist] at hname
    simpa using hname
  have hsplit : ("$defs/".toList ++ name.toList).splitOn '/' = ["$defs".toList, name.toList] := by
    have happend := splitOn_append_cons_self_of_not_mem
      (show '/' ∉ "$defs".toList by decide) name.toList
    rw [splitOn_eq_singleton hslash] at happend
    exact happend
  have hdefs : (Read.own (.obj root)).prop "$defs" = .own (root.prop "$defs") := by
    rw [Read.prop, Node.prop]
    cases OrdMap.get? "$defs" root <;> rfl
  have hroot : (Read.own (.obj root)).isPlainObject = true := rfl
  split_ifs at h with hobject
  have hresolve : resolveRef root ref = ((Read.own (root.prop "$defs")).prop name) := by
    have hne' : ref ≠ "#" := by
      rintro rfl
      exact absurd (congrArg List.length hlist) (by simp)
    have hsegments : (([("$defs".toList), name.toList].filter (· ≠ [])).map String.ofList) =
        ["$defs", name] := by
      simp [hne]
    rw [resolveRef, if_neg hne', hlist]
    simp only [String.reduceToList, cons_append, nil_append, head?_cons, if_true,
      tail_cons, true_and] at hsplit hsegments ⊢
    rw [hsplit, hsegments, foldl_cons, foldl_cons, foldl_nil, if_pos hroot, hdefs, if_pos hobject]
  rw [hresolve]
  cases hprop : (Read.own (root.prop "$defs")).prop name with
  | own v =>
    rw [hprop] at h
    cases v with
    | obj fields => rw [Read.toSchema, ← Option.some.inj h]
    | _ => exact absurd h (by simp [Read.fields?])
  | method =>
    rw [hprop] at h
    exact absurd h (by simp [Read.fields?])
  | prototype =>
    rw [hprop] at h
    rw [Read.toSchema, ← Option.some.inj h]

theorem mem_walkedSchemas {node : Node} {c : Value} (hc : c ∈ checkedSchemas node) :
    c ∈ walkedSchemas node := by
  simp only [checkedSchemas, walkedSchemas, mem_append] at hc ⊢
  rcases hc with (hc | hc) | hc
  · exact .inl (.inl hc)
  · rw [itemSchema] at hc
    cases hitems : node.prop "items" with
    | obj items =>
      rw [hitems] at hc
      exact .inl (.inr hc)
    | _ =>
      rw [hitems] at hc
      cases hc
  · exact .inr hc

section Passed

variable {host : Host} {root node last : Node} {depth levels : ℕ} {refPath : List String}

/-- The gate follows a step of the validator, if it does not miss it, and notes a reference. -/
theorem passed_of_leads (hpassed : Passed host root (.obj node) depth refPath)
    (h : Leads root node levels false last) :
    ∃ refPath', refPath ⊆ refPath' ∧ (∀ ref, ref? node = some ref → ref ∈ refPath') ∧
      Passed host root (.obj last) (depth + levels) refPath' := by
  generalize hoff : false = off at h
  cases h with
  | @ref _ ref href htarget =>
    obtain ⟨-, hbehind⟩ := hpassed.of_ref href
    rw [resolveRef_of_defsTarget htarget hoff.symm] at hbehind
    refine ⟨ref :: refPath, subset_cons_self _ _, fun ref' href' ↦ ?_, hbehind⟩
    rw [href] at href'
    rw [← Option.some.inj href']
    exact .head _
  | next href hchild =>
    have hbranches : branches? node = none := by simpa using hoff.symm
    rw [nextSchemas, hbranches] at hchild
    refine ⟨refPath, .refl _, fun ref' href' ↦ ?_, ?_⟩
    · rw [href] at href'
      exact absurd href' (Option.some_ne_none ref').symm
    · exact (hpassed.of_node href).2.2 _ (mem_walkedSchemas hchild)

/-- **A node on a way that the gate does not miss has passed.** -/
theorem passed_of_way {missed : Bool} (h : Way root node levels missed last) (hmissed : missed = false)
    (hpassed : Passed host root (.obj node) depth refPath) :
    ∃ refPath', refPath ⊆ refPath' ∧ Passed host root (.obj last) (depth + levels) refPath' := by
  induction h with
  | refl => exact ⟨refPath, .refl _, hpassed⟩
  | tail _ hstep ih =>
    obtain ⟨hmissed, hoff⟩ := Bool.or_eq_false_iff.mp hmissed
    obtain ⟨refPath', hsubset, hmid⟩ := ih hmissed
    rw [hoff] at hstep
    obtain ⟨refPath'', hsubset', -, hlast⟩ := passed_of_leads hmid hstep
    exact ⟨refPath'', fun ref href ↦ hsubset' (hsubset href), by rwa [← Nat.add_assoc]⟩

/-- No node that passed is on a cycle the gate follows.  A reference on it would be met again on the
same branch, and else every turn leads deeper. -/
theorem not_cycle_of_passed {next : Node} {depth' : ℕ}
    (hpassed : Passed host root (.obj node) depth refPath) (hstep : Leads root node levels false next)
    (hback : Way root next depth' false node) : False := by
  induction hleft : maxDepth - depth using Nat.strong_induction_on generalizing depth refPath with
  | _ left ih =>
    obtain ⟨refPath', -, hnoted, hnext⟩ := passed_of_leads hpassed hstep
    obtain ⟨refPath'', hsubset, hagain⟩ := passed_of_way hback rfl hnext
    cases href : ref? node with
    | some ref => exact (hagain.of_ref href).1 (hsubset (hnoted ref href))
    | none =>
      have hlevels := hstep.levels_of_none href
      have hdepth := (hagain.of_node href).1
      exact ih _ (by omega) hagain rfl

end Passed

/-! ## The nodes the validator can come to -/

/-- What the gate is to promise of a node at a depth. -/
structure Good (root : Node) (depth : ℕ) (node : Node) : Prop where
  depth : depth ≤ maxDepth
  within : NodeWithin node
  acyclic : ¬ OnCycle root node

/-- What the gate does not look at is as it promises: what stands where it does not go, what a node has
beside a reference, and a pattern that is no text. -/
structure GoodBeyond (root : Node) : Prop where
  missed : ∀ depth node, Reaches root depth true node → Good root depth node
  beside : ∀ depth node, Reaches root depth false node → ref? node ≠ none →
    depth ≤ maxDepth ∧ NodeWithin node
  patterns : ∀ depth node, Reaches root depth false node → ref? node = none → PatternIsText node

/-- **The gate inspects every node it does not miss.** -/
theorem good_of_reaches {host : Host} {root : Node} (haccepted : Accepted host (.obj root))
    (hbeyond : GoodBeyond root) {depth : ℕ} {missed : Bool} {node : Node}
    (h : Reaches root depth missed node) : Good root depth node := by
  cases missed with
  | true => exact hbeyond.missed depth node h
  | false =>
    obtain ⟨refPath, -, hpassed⟩ := passed_of_way h rfl (passed_root haccepted)
    rw [Nat.zero_add] at hpassed
    have hacyclic : ¬ OnCycle root node := by
      rintro ⟨next, levels, off, depth', missed', hstep, hback⟩
      have hround := h.trans (hstep.way.trans hback)
      rw [Bool.false_or] at hround
      cases hmissed : off || missed' with
      | true =>
        rw [hmissed] at hround
        exact (hbeyond.missed _ node hround).acyclic ⟨next, levels, off, depth', missed', hstep, hback⟩
      | false =>
        obtain ⟨rfl, rfl⟩ := Bool.or_eq_false_iff.mp hmissed
        exact not_cycle_of_passed hpassed hstep hback
    cases href : ref? node with
    | some ref =>
      obtain ⟨hdepth, hwithin⟩ := hbeyond.beside depth node h (by simp [href])
      exact ⟨hdepth, hwithin, hacyclic⟩
    | none =>
      obtain ⟨hdepth, hwithin, -⟩ := hpassed.of_node href
      exact ⟨hdepth, hwithin (hbeyond.patterns depth node h href), hacyclic⟩

/-! ## Two walks of one value -/

/-- How a walk finds the node behind references. -/
abbrev Deref := Node → List String → Option Node × List String

/-- `check` with another `derefNode`, and with something else beyond the limit of the depth. -/
def checkBy (host : Host) (deref : Deref) (beyond : Checker) : ℕ → Checker
  | 0 => beyond
  | fuel + 1 => fun nodeIn value path visited ↦
    match nodeIn with
    | .obj node =>
      let met := if (ref? node).isSome then [Entry.met (fuel + 1) node value path visited] else []
      match deref node visited with
      | (none, visited) => (met, visited)
      | (some resolved, visited) =>
        let (log, visited) :=
          checkResolved host (checkBy host deref beyond fuel) resolved value path visited
        (met ++ log, visited)
    | _ => ([], visited)

/-- `check` itself does nothing there. -/
def nothing : Checker := fun _ _ _ ↦ .stop []

/-- A relation between walks that their parts carry. -/
structure Carried (R : Walk → Walk → Prop) : Prop where
  stop : ∀ is, R (.stop is) (.stop is)
  andThen : ∀ {w₁ w₁' w₂ w₂'}, R w₁ w₁' → R w₂ w₂' → R (.andThen w₁ w₂) (.andThen w₁' w₂')
  choice : ∀ {w w'} branches, R w w' → R (.noting (.choice branches) w) (.noting (.choice branches) w')
  compared : ∀ {w w'} items values, R w w' →
    R (.noting (.compared items values) w) (.noting (.compared items values) w')

section Carried

variable {R : Walk → Walk → Prop} {host : Host} {check₁ check₂ : Checker} {node : Node}

theorem Carried.each (hR : Carried R) {α : Type} {f g : α → Walk} {as : List α}
    (h : ∀ a ∈ as, R (f a) (g a)) : R (.each f as) (.each g as) := by
  induction as with
  | nil => exact hR.stop []
  | cons a as ih =>
    rw [forall_mem_cons] at h
    exact hR.andThen h.1 (ih h.2)

section Places

variable {value : Read} {path : String}

theorem Carried.checkTuple (hR : Carried R) {items : List Value}
    (h : ∀ c ∈ items, ∀ value path, R (check₁ c value path) (check₂ c value path)) :
    R (checkTuple check₁ node items value path) (checkTuple check₂ node items value path) := by
  unfold Schema.checkTuple
  split
  · split_ifs
    · exact hR.stop _
    · refine hR.compared _ _ (hR.andThen (hR.each fun p hp ↦ h _ ?_ _ _) (hR.stop _))
      exact (of_mem_zip (fst_mem_of_mem_zipIdx hp)).1
  · exact hR.stop _

theorem Carried.checkArray (hR : Carried R)
    (h : ∀ c ∈ itemSchema node, ∀ value path, R (check₁ c value path) (check₂ c value path)) :
    R (checkArray host check₁ node value path) (checkArray host check₂ node value path) := by
  rw [itemSchema] at h
  unfold Schema.checkArray
  split
  · refine hR.andThen (hR.stop _) ?_
    cases hitems : node.prop "items" with
    | obj items =>
      rw [hitems] at h
      exact hR.each fun p _ ↦ h _ (.head _) _ _
    | _ => exact hR.stop []
  · exact hR.stop _

theorem Carried.checkObject (hR : Carried R)
    (h : ∀ c ∈ fieldSchemas node, ∀ value path, R (check₁ c value path) (check₂ c value path)) :
    R (checkObject check₁ node value path) (checkObject check₂ node value path) := by
  rw [Schema.checkObject, Schema.checkObject]
  split_ifs
  · refine hR.andThen (hR.stop _) (hR.each fun p hp ↦ ?_)
    split_ifs
    · exact hR.stop []
    · exact h _ (mem_map_of_mem hp) _ _
  · exact hR.stop _

end Places

/-- Two checkers that are related on the schemas the walk goes to are related on the node. -/
theorem Carried.checkResolved (host : Host) (hR : Carried R)
    (h : ∀ c ∈ nextSchemas node, ∀ value path, R (check₁ c value path) (check₂ c value path))
    (value : Read) (path : String) :
    R (checkResolved host check₁ node value path) (checkResolved host check₂ node value path) := by
  rw [nextSchemas] at h
  rw [Schema.checkResolved, Schema.checkResolved]
  cases hbranches : branches? node with
  | some branches =>
    rw [hbranches] at h
    refine hR.choice branches ?_
    split_ifs
    · exact hR.stop []
    · dsimp only [realBranch] at h
      split
      · rename_i real hreal
        rw [hreal] at h
        exact h real (.head _) value path
      · exact hR.stop []
  | none =>
    rw [hbranches] at h
    simp only [checkedSchemas, mem_append] at h
    dsimp only
    by_cases hdone : (valueIssues host node value path).2
    · rw [if_pos hdone, if_pos hdone]
      exact hR.stop _
    rw [if_neg hdone, if_neg hdone]
    split
    · rename_i items hitems
      rw [hitems] at h
      exact hR.checkTuple fun c hc ↦ h c (.inr hc)
    · by_cases harray : "array" ∈ (declaredTypes node).getD []
      · rw [if_pos harray, if_pos harray]
        exact hR.checkArray fun c hc ↦ h c (.inl (.inr hc))
      rw [if_neg harray, if_neg harray]
      split_ifs
      · exact hR.checkObject fun c hc ↦ h c (.inl (.inl hc))
      · exact hR.stop []

end Carried

/-! ## The limit of the depth -/

section Depth

variable {host : Host} {root : Node}

theorem way_of_derefLoop {fuel : ℕ} {node resolved : Node} {visited : List String}
    (h : (derefLoop root fuel node visited).1 = some resolved) :
    ref? resolved = none ∧ ∃ missed, Way root node 0 missed resolved := by
  induction fuel generalizing node visited with
  | zero => exact absurd h (Option.some_ne_none resolved).symm
  | succ fuel ih =>
    rw [derefLoop] at h
    cases href : ref? node with
    | none =>
      simp only [href] at h
      obtain rfl := Option.some.inj h
      exact ⟨href, false, .refl node⟩
    | some ref =>
      simp only [href] at h
      split_ifs at h
      cases htarget : defsTarget root ref with
      | none =>
        rw [htarget] at h
        exact absurd h (Option.some_ne_none resolved).symm
      | some target =>
        rw [htarget] at h
        obtain ⟨hresolved, missed, hway⟩ := ih h
        have hfirst := (Leads.ref href htarget).way.trans hway
        exact ⟨hresolved, _, hfirst⟩

/-- What may stand beyond the limit of the depth: what is no object is no node. -/
def Inert (beyond : Checker) : Prop :=
  ∀ v, (∀ node, v ≠ .obj node) → ∀ value path, beyond v value path = .stop []

/-- No run of the validator comes to a node beyond the limit of the depth: it makes no difference what
is done there. -/
def NeverCutOff (host : Host) (root : Node) : Prop :=
  ∀ value beyond, Inert beyond →
    checkBy host (derefNode root) beyond (maxDepth + 1) (.obj root) (.own (paramsOf value)) "" [] =
      check host root (maxDepth + 1) (.obj root) (.own (paramsOf value)) "" []

theorem carried_eq : Carried Eq := by
  refine ⟨fun is ↦ rfl, ?_, ?_, ?_⟩
  · rintro _ _ _ _ rfl rfl
    rfl
  · rintro _ _ _ rfl
    rfl
  · rintro _ _ _ _ rfl
    rfl

section

variable (hdepth : ∀ depth missed node, Reaches root depth missed node → depth ≤ maxDepth)
include hdepth

theorem checkBy_eq_check {beyond : Checker} (hinert : Inert beyond) (fuel : ℕ) {depth : ℕ}
    (hfuel : depth + fuel = maxDepth + 1) {v : Value}
    (hv : ∀ node, v = .obj node → ∃ missed, Reaches root depth missed node) (value : Read)
    (path : String) :
    checkBy host (derefNode root) beyond fuel v value path = check host root fuel v value path := by
  induction fuel generalizing depth v value path with
  | zero =>
    refine hinert v (fun node hnode ↦ ?_) value path
    obtain ⟨missed, hreaches⟩ := hv node hnode
    have := hdepth depth missed node hreaches
    omega
  | succ fuel ih =>
    funext visited
    cases v with
    | obj node =>
      obtain ⟨missed, hreaches⟩ := hv node rfl
      rw [checkBy, check]
      dsimp only
      rcases hderef : derefNode root node visited with ⟨_ | resolved, visited'⟩
      · rfl
      · have hresolved : (derefNode root node visited).1 = some resolved := by rw [hderef]
        obtain ⟨href, missed', hway⟩ := way_of_derefLoop hresolved
        have hless : depth + 1 + fuel = maxDepth + 1 := by omega
        have hsame : ∀ c ∈ nextSchemas resolved, ∀ value path,
            checkBy host (derefNode root) beyond fuel c value path =
              check host root fuel c value path := by
          intro c hc value path
          refine ih hless (fun child hchild ↦ ?_) value path
          rw [hchild] at hc
          exact ⟨_, (hreaches.trans hway).tail (.next href hc)⟩
        have hnext := carried_eq.checkResolved host hsame value path
        dsimp only
        rw [hnext]
    | _ => rfl

theorem neverCutOff : NeverCutOff host root := by
  intro value beyond hinert
  rw [checkBy_eq_check hdepth hinert (maxDepth + 1) (Nat.zero_add _)]
  rintro node hnode
  cases hnode
  exact ⟨false, .refl root⟩

end

end Depth

/-! ## References met again -/

/-- The loop of `derefNode` comes to a reference that was followed. -/
def comesBack (root : Node) : ℕ → Node → List String → Bool
  | 0, _, _ => false
  | fuel + 1, node, visited =>
    match ref? node with
    | none => false
    | some ref =>
      if ref ∈ visited then true
      else match defsTarget root ref with
        | none => false
        | some target => comesBack root fuel target (ref :: visited)

/-- How many turns `derefNode` has. -/
def turns (root : Node) : ℕ := (((Read.own (root.prop "$defs")).fields?).getD []).length + 3

/-- The return of `derefNode` for a cycle is taken. -/
def TakesCycleReturn (root : Node) : Entry → Prop
  | .met _ node _ _ visited => comesBack root (turns root) node visited = true
  | _ => False

/-- No run of the validator takes it. -/
def NeverTurnsBack (host : Host) (root : Node) : Prop :=
  ∀ value, ∀ e ∈ validationLog host root value, ¬ TakesCycleReturn root e

/-- The references a chain goes through, up to one it comes to again, whatever was followed before. -/
def followLoop (root : Node) : ℕ → Node → List String → Option Node × List String
  | 0, _, refs => (none, refs)
  | fuel + 1, node, refs =>
    match ref? node with
    | none => (some node, refs)
    | some ref =>
      if ref ∈ refs then (none, ref :: refs)
      else match defsTarget root ref with
        | none => (none, ref :: refs)
        | some target => followLoop root fuel target (ref :: refs)

/-- Follows the references of a node from there, and adds them to those of the walk. -/
def followRefs (root : Node) : Deref := fun node visited ↦
  let (target, refs) := followLoop root (turns root) node []
  (target, refs ++ visited)

/-- The references a value leads to in a schema, each as often as it is met, where every one is
followed. -/
def refsMet (host : Host) (root : Node) (value : Value) : List String :=
  (checkBy host (followRefs root) nothing (maxDepth + 1) (.obj root) (.own (paramsOf value)) "" []).2

section Again

variable {host : Host} {root : Node}

theorem suffix_followLoop (fuel : ℕ) (node : Node) (refs : List String) :
    refs <:+ (followLoop root fuel node refs).2 := by
  induction fuel generalizing node refs with
  | zero => exact suffix_refl _
  | succ fuel ih =>
    rw [followLoop]
    cases ref? node with
    | none => exact suffix_refl _
    | some ref =>
      dsimp only
      split_ifs
      · exact suffix_cons _ _
      · cases defsTarget root ref with
        | none => exact suffix_cons _ _
        | some target => exact (suffix_cons _ _).trans (ih target _)

/-- The loop of `derefNode` follows a chain to its end if none of its references was followed, and else
it turns back. -/
theorem derefLoop_or (root : Node) (fuel : ℕ) (node : Node) {refs visited : List String}
    (h : (refs ++ visited).Nodup) :
    ((followLoop root fuel node refs).2 ++ visited).Nodup ∧
        comesBack root fuel node (refs ++ visited) = false ∧
        derefLoop root fuel node (refs ++ visited) =
          ((followLoop root fuel node refs).1, (followLoop root fuel node refs).2 ++ visited) ∨
      ¬ ((followLoop root fuel node refs).2 ++ visited).Nodup ∧
        comesBack root fuel node (refs ++ visited) = true := by
  induction fuel generalizing node refs with
  | zero => exact .inl ⟨h, rfl, rfl⟩
  | succ fuel ih =>
    rw [followLoop, comesBack, derefLoop]
    cases href : ref? node with
    | none => exact .inl ⟨h, rfl, rfl⟩
    | some ref =>
      dsimp only
      by_cases hrefs : ref ∈ refs
      · rw [if_pos hrefs, if_pos (mem_append_left _ hrefs)]
        refine .inr ⟨fun hnodup ↦ ?_, rfl⟩
        exact (nodup_cons.mp hnodup).1 (mem_append_left _ hrefs)
      rw [if_neg hrefs]
      by_cases hvisited : ref ∈ visited
      · rw [if_pos (mem_append_right _ hvisited)]
        refine .inr ⟨fun hnodup ↦ ?_, rfl⟩
        have hmem : ref ∈ (match defsTarget root ref with
            | none => (none, ref :: refs)
            | some target => followLoop root fuel target (ref :: refs)).2 := by
          cases defsTarget root ref with
          | none => exact .head _
          | some target => exact (suffix_followLoop fuel target _).subset (.head _)
        exact (nodup_append.mp hnodup).2.2 ref hmem ref hvisited rfl
      have hnew : ref ∉ refs ++ visited := fun hmem ↦ (mem_append.mp hmem).elim hrefs hvisited
      rw [if_neg hnew, if_neg hnew]
      cases defsTarget root ref with
      | none => exact .inl ⟨nodup_cons.mpr ⟨hnew, h⟩, rfl, rfl⟩
      | some target => exact ih target (nodup_cons.mpr ⟨hnew, h⟩)

theorem andThen_apply (w w' : Walk) (visited : List String) :
    Walk.andThen w w' visited =
      ((w visited).1 ++ (w' (w visited).2).1, (w' (w visited).2).2) := rfl

theorem noting_apply (entry : Entry) (w : Walk) (visited : List String) :
    Walk.noting entry w visited = (entry :: (w visited).1, (w visited).2) := rfl

/-- A walk with the references followed so far, beside one that follows every reference: they do the
same as long as none is met again, and where one is, the first turns back. -/
def Agrees (root : Node) (w w' : Walk) : Prop :=
  ∀ visited : List String, visited <:+ (w' visited).2 ∧ (visited.Nodup →
    (w' visited).2.Nodup ∧ w visited = w' visited ∧ (∀ e ∈ (w visited).1, ¬ TakesCycleReturn root e) ∨
      ¬ (w' visited).2.Nodup ∧ ∃ e ∈ (w visited).1, TakesCycleReturn root e)

theorem agrees_stop (is : List ParamIssue) : Agrees root (.stop is) (.stop is) := by
  refine fun visited ↦ ⟨suffix_refl _, fun hnodup ↦ .inl ⟨hnodup, rfl, fun e he ↦ ?_⟩⟩
  obtain ⟨i, -, rfl⟩ := mem_map.mp he
  exact id

theorem Agrees.andThen {w₁ w₁' w₂ w₂' : Walk} (h₁ : Agrees root w₁ w₁') (h₂ : Agrees root w₂ w₂') :
    Agrees root (.andThen w₁ w₂) (.andThen w₁' w₂') := by
  intro visited
  obtain ⟨hsuffix₁, hdoes₁⟩ := h₁ visited
  obtain ⟨hsuffix₂, hdoes₂⟩ := h₂ (w₁' visited).2
  refine ⟨hsuffix₁.trans hsuffix₂, fun hnodup ↦ ?_⟩
  rcases hdoes₁ hnodup with ⟨hnodup₁, heq₁, hnone₁⟩ | ⟨htwice₁, e, he, hturns⟩
  · rw [andThen_apply, andThen_apply, heq₁]
    rcases hdoes₂ hnodup₁ with ⟨hnodup₂, heq₂, hnone₂⟩ | ⟨htwice₂, e, he, hturns⟩
    · refine .inl ⟨hnodup₂, by rw [heq₂], fun e he ↦ ?_⟩
      rcases mem_append.mp he with he | he
      · exact hnone₁ e (heq₁ ▸ he)
      · exact hnone₂ e he
    · exact .inr ⟨htwice₂, e, mem_append_right _ he, hturns⟩
  · exact .inr ⟨fun hnodup₂ ↦ htwice₁ (hnodup₂.sublist hsuffix₂.sublist), e,
      mem_append_left _ he, hturns⟩

theorem Agrees.noting {w w' : Walk} {entry : Entry} (hentry : ¬ TakesCycleReturn root entry)
    (h : Agrees root w w') : Agrees root (.noting entry w) (.noting entry w') := by
  intro visited
  obtain ⟨hsuffix, hdoes⟩ := h visited
  refine ⟨hsuffix, fun hnodup ↦ ?_⟩
  rcases hdoes hnodup with ⟨hnodup', heq, hnone⟩ | ⟨htwice, e, he, hturns⟩
  · refine .inl ⟨hnodup', by rw [noting_apply, noting_apply, heq], ?_⟩
    exact forall_mem_cons.mpr ⟨hentry, hnone⟩
  · exact .inr ⟨htwice, e, .tail _ he, hturns⟩

theorem carried_agrees (root : Node) : Carried (Agrees root) :=
  ⟨agrees_stop, .andThen, fun _ ↦ .noting id, fun _ _ ↦ .noting id⟩

theorem mem_met {fuel : ℕ} {node : Node} {visited : List String} (value : Read) (path : String)
    (h : (ref? node).isSome = true) :
    Entry.met (fuel + 1) node value path visited ∈
      (check host root (fuel + 1) (.obj node) value path visited).1 := by
  rw [check]
  dsimp only
  rw [if_pos h]
  split
  · exact .head _
  · exact mem_append_left _ (.head _)

theorem ref?_of_comesBack {fuel : ℕ} {node : Node} {visited : List String}
    (h : comesBack root fuel node visited = true) : (ref? node).isSome = true := by
  cases fuel with
  | zero => exact absurd h Bool.false_ne_true
  | succ fuel =>
    rw [comesBack] at h
    cases href : ref? node with
    | none => simp [href] at h
    | some ref => rfl

/-- The validator beside the walk that follows every reference. -/
theorem agrees_check (fuel : ℕ) (v : Value) (value : Read) (path : String) :
    Agrees root (check host root fuel v value path)
      (checkBy host (followRefs root) nothing fuel v value path) := by
  induction fuel generalizing v value path with
  | zero => exact agrees_stop []
  | succ fuel ih =>
    intro visited
    cases v with
    | obj node =>
      have hnext : ∀ resolved, Agrees root
          (checkResolved host (check host root fuel) resolved value path)
          (checkResolved host (checkBy host (followRefs root) nothing fuel) resolved value path) :=
        fun resolved ↦ (carried_agrees root).checkResolved host (fun c _ ↦ ih c) value path
      have hsuffix : (followLoop root (turns root) node []).2 ++ visited <:+
          (checkBy host (followRefs root) nothing (fuel + 1) (.obj node) value path visited).2 := by
        rw [checkBy]
        dsimp only [followRefs]
        cases (followLoop root (turns root) node []).1 with
        | none => exact suffix_refl _
        | some resolved => exact (hnext resolved _).1
      refine ⟨(suffix_append _ _).trans hsuffix, fun hnodup ↦ ?_⟩
      have hchain := derefLoop_or root (turns root) node
        (show (([] : List String) ++ visited).Nodup from hnodup)
      rcases hchain with ⟨hnodup', hback, hloop⟩ | ⟨htwice, hback⟩
      · have hmet : ∀ e ∈ (if (ref? node).isSome then
            [Entry.met (fuel + 1) node value path visited] else []), ¬ TakesCycleReturn root e := by
          intro e he
          split_ifs at he
          · obtain rfl := mem_singleton.mp he
            exact fun hturns ↦ Bool.false_ne_true (hback.symm.trans hturns)
          · exact nomatch he
        have hderef : derefNode root node visited = _ := hloop
        rw [check, checkBy]
        dsimp only [followRefs]
        rw [hderef]
        cases (followLoop root (turns root) node []).1 with
        | none => exact .inl ⟨hnodup', rfl, hmet⟩
        | some resolved =>
          dsimp only
          rcases (hnext resolved _).2 hnodup' with ⟨hnodup₂, heq, hnone⟩ | ⟨htwice, e, he, hturns⟩
          · refine .inl ⟨hnodup₂, by rw [heq], fun e he ↦ ?_⟩
            rcases mem_append.mp he with he | he
            · exact hmet e he
            · exact hnone e he
          · exact .inr ⟨htwice, e, mem_append_right _ he, hturns⟩
      · refine .inr ⟨fun hnodup' ↦ htwice (hnodup'.sublist hsuffix.sublist), _,
          mem_met value path (ref?_of_comesBack hback), hback⟩
    | _ => exact agrees_stop [] visited

/-- The validator turns back at no reference of a value, where none is met twice, and only there. -/
theorem neverTurnsBack_iff (host : Host) (root : Node) :
    NeverTurnsBack host root ↔ ∀ value, (refsMet host root value).Nodup := by
  refine forall_congr' fun value ↦ ?_
  rw [refsMet, validationLog]
  rcases ((agrees_check (maxDepth + 1) (.obj root) (.own (paramsOf value)) "") []).2 List.nodup_nil with
    ⟨hnodup, -, hnone⟩ | ⟨htwice, e, he, hturns⟩
  · exact iff_of_true hnone hnodup
  · exact iff_of_false (fun hnone ↦ hnone e he hturns) htwice

end Again

/-! ## The gate and the validator -/

/-- What the gate is to promise of a schema that it accepts: every node the validator can come to is
within the limits and on no cycle, and no run of the validator is cut off or turns back. -/
def GateCovers (host : Host) (schema : Value) : Prop :=
  Accepted host schema → ∀ root, schema = .obj root →
    (∀ depth missed node, Reaches root depth missed node → Good root depth node) ∧
      NeverCutOff host root ∧ NeverTurnsBack host root

/-- **The gate's walk ends for every schema**, and it promises what it is to exactly where what it does
not look at is in order and no value leads to a reference twice. -/
theorem gateCovers_iff (host : Host) (schema : Value) :
    (∀ root, schema = .obj root → ∀ fuel, maxWalkVisits < fuel →
      walk host root fuel (.obj root) "" 0 none [] ⟨sizeFindings host schema, 0, 0, false⟩ =
        walk host root (maxWalkVisits + 1) (.obj root) "" 0 none []
          ⟨sizeFindings host schema, 0, 0, false⟩) ∧
      (GateCovers host schema ↔
        (Accepted host schema → ∀ root, schema = .obj root →
          GoodBeyond root ∧ ∀ value, (refsMet host root value).Nodup)) := by
  refine ⟨fun root _ fuel hfuel ↦ walk_fuel hfuel _ _ _ _ _ _, ?_⟩
  refine forall_congr' fun haccepted ↦ forall_congr' fun root ↦ forall_congr' fun hroot ↦ ?_
  rw [← neverTurnsBack_iff]
  constructor
  · rintro ⟨hgood, -, hturns⟩
    refine ⟨⟨fun depth node h ↦ hgood depth true node h, fun depth node h _ ↦ ?_,
      fun depth node h _ _ ↦ ?_⟩, hturns⟩
    · exact ⟨(hgood depth false node h).depth, (hgood depth false node h).within⟩
    · exact (hgood depth false node h).within.pattern
  · rintro ⟨hbeyond, hturns⟩
    have hgood : ∀ depth missed node, Reaches root depth missed node → Good root depth node :=
      fun depth missed node h ↦ good_of_reaches (hroot ▸ haccepted) hbeyond h
    exact ⟨hgood, neverCutOff fun depth missed node h ↦ (hgood depth missed node h).depth, hturns⟩

/-- A field that may be null, and else is a text with a pattern. -/
def patternInBranch : Node :=
  [("properties", .obj [("name", .obj [("anyOf", .arr
    [.obj [("type", .str "string"), ("pattern", .str "^a+$")], .obj [("type", .str "null")]])])])]

/-- A text behind a reference. -/
def textRef : Node := [("$ref", .str "#/$defs/text")]

/-- Two fields with one reference. -/
def sharedReference : Node :=
  [("properties", .obj [("first", .obj textRef), ("second", .obj textRef)]),
    ("$defs", .obj [("text", .obj [("type", .str "string")])])]

theorem followRefs_of_target {root node target : Node} {ref : String} (href : ref? node = some ref)
    (htarget : defsTarget root ref = some target) (hend : ref? target = none) (visited : List String) :
    followRefs root node visited = (some target, ref :: visited) := by
  rw [followRefs, turns, followLoop, href]
  dsimp only
  rw [if_neg not_mem_nil, htarget]
  dsimp only
  rw [followLoop, hend]
  rfl

theorem defsTarget_text :
    defsTarget sharedReference "#/$defs/text" = some [("type", .str "string")] := by
  have hname : defsName? "#/$defs/text" = some "text" := by simp [defsName?]
  rw [defsTarget, hname]
  rfl

/-- Two texts. -/
def twoTexts : Value := .obj [("first", .str "x"), ("second", .str "y")]

theorem checkBy_sharedReference {deref : Deref}
    (hroot : deref sharedReference [] = (some sharedReference, []))
    (hfollow : ∀ visited,
      deref textRef visited = (some [("type", .str "string")], "#/$defs/text" :: visited)) :
    (checkBy plainHost deref nothing (maxDepth + 1) (.obj sharedReference) (.own twoTexts) "" []).2 =
      ["#/$defs/text", "#/$defs/text"] := by
  have hfields : ∀ c : Checker, checkResolved plainHost c sharedReference (.own twoTexts) "" =
      .andThen (.stop []) (.andThen (c (.obj textRef) (.own (.str "x")) "first")
        (.andThen (c (.obj textRef) (.own (.str "y")) "second") (.stop []))) := fun c ↦ rfl
  have htext : ∀ s path visited, (checkBy plainHost deref nothing 5 (.obj textRef) (.own (.str s)) path
      visited).2 = "#/$defs/text" :: visited := by
    intro s path visited
    rw [checkBy]
    dsimp only
    rw [hfollow]
    rfl
  rw [maxDepth, checkBy]
  dsimp only
  rw [hroot]
  dsimp only
  rw [hfields]
  simp only [andThen_apply, htext]
  rfl

/-- They lead to the reference twice. -/
theorem refsMet_sharedReference :
    refsMet plainHost sharedReference twoTexts = ["#/$defs/text", "#/$defs/text"] := by
  have hparams : paramsOf twoTexts = twoTexts := rfl
  rw [refsMet, hparams]
  exact checkBy_sharedReference rfl (followRefs_of_target rfl defsTarget_text rfl)

/-- The gate accepts a pattern in a branch, and two uses of a reference, at the second of which the
validator turns back. -/
theorem gate_misses :
    ¬ GateCovers plainHost (.obj patternInBranch) ∧ ¬ GateCovers plainHost (.obj sharedReference) := by
  constructor
  · intro h
    obtain ⟨hgood, -⟩ := h (by decide +kernel) patternInBranch rfl
    have hfield : Leads patternInBranch patternInBranch 1 false _ :=
      .next rfl (.head _)
    have hbranch := (hfield.way.tail (.next rfl (.head _)))
    exact absurd (hgood _ _ _ hbranch).within.pattern (by decide)
  · intro h
    obtain ⟨-, -, hturns⟩ := h (by decide +kernel) sharedReference rfl
    have hdistinct := (neverTurnsBack_iff plainHost sharedReference).mp hturns twoTexts
    rw [refsMet_sharedReference] at hdistinct
    exact nomatch hdistinct

end Enkaku.Schema
