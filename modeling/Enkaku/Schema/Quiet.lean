import Enkaku.Schema.Validate

/-!
# Checks that find nothing

`check` shares one set of followed references between all branches of a walk, so that what it finds
in a place depends on the places before it.  A reference that was followed is not followed again, and
what is behind it goes unchecked: a place that was checked and where nothing was found is one where
nothing is found after any other places (`holds_of_quiet`), as long as no reference met there had
been followed before.
-/

set_option autoImplicit false

namespace Enkaku.Schema

open List

/-! ## References -/

/-- References followed before keep a reference from being followed, and change nothing else. -/
theorem derefLoop_agree (root : Node) (fuel : Nat) (node : Node) {visited visited' : List String}
    (h : visited' ⊆ visited) :
    (derefLoop root fuel node visited).1 = none ∨
      (derefLoop root fuel node visited).1 = (derefLoop root fuel node visited').1 := by
  induction fuel generalizing node visited visited' with
  | zero => exact .inl rfl
  | succ fuel ih =>
    rw [derefLoop, derefLoop]
    cases ref? node with
    | none => exact .inr rfl
    | some ref =>
      by_cases hv : ref ∈ visited
      · exact .inl (by simp [hv])
      · have hv' : ref ∉ visited' := fun hmem ↦ hv (h hmem)
        cases ht : defsTarget root ref with
        | none => exact .inl (by simp [hv, ht])
        | some target =>
          simp only [hv, hv', if_false, ht]
          exact ih target (cons_subset_cons _ h)

theorem derefNode_agree (root node : Node) (visited : List String) :
    (derefNode root node visited).1 = none ∨
      (derefNode root node visited).1 = (derefNode root node []).1 :=
  derefLoop_agree root _ node (nil_subset _)

theorem derefNode_of_ref?_none {root node : Node} (h : ref? node = none) (visited : List String) :
    derefNode root node visited = (some node, visited) := by
  rw [derefNode, derefLoop, h]

/-! ## Parts of a walk -/

/-- Whether no reference followed before kept `check` from a node. -/
def Followed (root : Node) : Entry → Prop
  | .met _ node _ _ visited => (derefNode root node visited).1 = (derefNode root node []).1
  | _ => True

/-- A part of a walk that went everywhere and found nothing. -/
def Quiet (root : Node) (w : Walk) (visited : List String) : Prop :=
  issues (w visited).1 = [] ∧ ∀ e ∈ (w visited).1, Followed root e

/-- A part of a walk that finds nothing whenever it is walked. -/
def Silent (w : Walk) : Prop := ∀ visited, issues (w visited).1 = []

theorem issues_append (log log' : List Entry) : issues (log ++ log') = issues log ++ issues log' :=
  filterMap_append

@[simp] theorem issues_nil : issues [] = [] := rfl

@[simp] theorem issues_map_issue (is : List ParamIssue) : issues (is.map .issue) = is := by
  simp [issues, filterMap_map]

section Parts

variable {root : Node} {w w' : Walk} {visited : List String} {is : List ParamIssue}

theorem Quiet.nil_of_stop (h : Quiet root (.stop is) visited) : is = [] := by
  have his := h.1
  rw [Walk.stop, issues_map_issue] at his
  exact his

theorem silent_stop (h : is = []) : Silent (.stop is) := by
  intro visited
  simp [Walk.stop, h]

theorem Quiet.left (h : Quiet root (.andThen w w') visited) : Quiet root w visited := by
  obtain ⟨his, hall⟩ := h
  simp only [Walk.andThen, issues_append, append_eq_nil_iff] at his
  exact ⟨his.1, fun e he ↦ hall e (by simp [Walk.andThen, he])⟩

theorem Quiet.right (h : Quiet root (.andThen w w') visited) : ∃ visited', Quiet root w' visited' := by
  obtain ⟨his, hall⟩ := h
  simp only [Walk.andThen, issues_append, append_eq_nil_iff] at his
  exact ⟨(w visited).2, his.2, fun e he ↦ hall e (by simp [Walk.andThen, he])⟩

theorem silent_andThen (h : Silent w) (h' : Silent w') : Silent (.andThen w w') := by
  intro visited
  simp [Walk.andThen, issues_append, h visited, h' (w visited).2]

theorem Quiet.of_noting {entry : Entry} (h : Quiet root (.noting entry w) visited) :
    Quiet root w visited := by
  obtain ⟨his, hall⟩ := h
  refine ⟨?_, fun e he ↦ hall e (.tail _ he)⟩
  change issues ([entry] ++ (w visited).1) = [] at his
  rw [issues_append, append_eq_nil_iff] at his
  exact his.2

theorem silent_noting {entry : Entry} (hentry : issues [entry] = []) (h : Silent w) :
    Silent (.noting entry w) := by
  intro visited
  change issues ([entry] ++ (w visited).1) = []
  rw [issues_append, hentry, h visited, append_nil]

theorem Quiet.of_each {α : Type} {f : α → Walk} {as : List α} (h : Quiet root (.each f as) visited) :
    ∀ a ∈ as, ∃ visited', Quiet root (f a) visited' := by
  induction as generalizing visited with
  | nil => simp
  | cons b as ih =>
    intro a ha
    rcases mem_cons.mp ha with rfl | ha
    · exact ⟨visited, Quiet.left h⟩
    · obtain ⟨visited', h'⟩ := Quiet.right h
      exact ih h' a ha

theorem silent_each {α : Type} {f : α → Walk} {as : List α} (h : ∀ a ∈ as, Silent (f a)) :
    Silent (.each f as) := by
  induction as with
  | nil => exact silent_stop rfl
  | cons a as ih =>
    exact silent_andThen (h a (.head _)) (ih fun b hb ↦ h b (.tail _ hb))

end Parts

/-! ## Rules without children -/

/-- An issue at another path. -/
def ParamIssue.at (path : String) (i : ParamIssue) : ParamIssue := { i with path := path }

section Local

variable (host : Host)

theorem boundIssue_path (node : Node) (keyword path : String) (broken : ℚ → Bool)
    (message : String → String) :
    boundIssue host node keyword path broken message =
      (boundIssue host node keyword "" broken message).map (.at path) := by
  rw [boundIssue, boundIssue]
  cases number? (node.prop keyword) with
  | none => rfl
  | some bound => cases h : broken bound <;> simp [h, ParamIssue.at]

theorem checkNumber_path (node : Node) (q : ℚ) (path : String) :
    checkNumber host node q path = (checkNumber host node q "").map (.at path) := by
  simp only [checkNumber, boundIssue_path host _ _ path, map_append]
  congr 1
  split_ifs <;> rfl

theorem checkString_path (node : Node) (s path : String) :
    checkString host node s path = (checkString host node s "").map (.at path) := by
  simp only [checkString, boundIssue_path host _ _ path, map_append, apply_ite (List.map _),
    map_cons, map_nil]
  rfl

theorem orderIssue_path (node : Node) (items values : List Value) (path : String) :
    orderIssue node items values path = (orderIssue node items values "").map (.at path) := by
  unfold orderIssue
  split
  · split_ifs <;> rfl
  · rfl

/-- What a node says about a value is the same at any path. -/
theorem valueIssues_path (node : Node) (value : Read) (path : String) :
    valueIssues host node value path =
      ((valueIssues host node value "").1.map (.at path), (valueIssues host node value "").2) := by
  simp only [valueIssues]
  by_cases hundefined : value = .own .undefined
  · simp [hundefined]
  by_cases hnull : value = .own .null
  · rw [if_neg hundefined, if_neg hundefined, if_pos hnull, if_pos hnull]
    split_ifs <;> rfl
  rw [if_neg hundefined, if_neg hundefined, if_neg hnull, if_neg hnull]
  by_cases htypes : (declaredTypes node).isSome ∧
      !((declaredTypes node).getD []).any (matchesType value)
  · rw [if_pos htypes, if_pos htypes]
    rfl
  rw [if_neg htypes, if_neg htypes]
  split
  · split_ifs <;> rfl
  split
  · split_ifs <;> rfl
  split_ifs
  · split
    · rw [checkNumber_path]
    · rfl
  · split
    · rw [checkString_path]
    · rfl
  · rfl
  · rfl

/-- No two objects are told apart without going into them. -/
theorem valueIssues_obj (node fields fields' : Node) (path : String) :
    valueIssues host node (.own (.obj fields)) path =
      valueIssues host node (.own (.obj fields')) path := by
  have hmatches : matchesType (.own (.obj fields)) = matchesType (.own (.obj fields')) := by
    funext type
    unfold matchesType
    split <;> simp [Read.isPlainObject, Read.fields?]
  have hsame : isSame (.own (.obj fields)) = isSame (.own (.obj fields')) := by
    funext v
    cases v <;> simp [isSame]
  simp only [valueIssues, hmatches, hsame]
  simp

end Local

/-! ## The walk -/

section Walks

variable {host : Host} {root : Node} {check' : Checker} {node : Node} {items : List Value}
  {value : Read} {path : String} {visited : List String}

/-- Where a checker went everywhere and found nothing, it finds nothing at any path. -/
def Steady (root : Node) (check : Checker) : Prop :=
  ∀ node value path visited, Quiet root (check node value path) visited →
    ∀ path', Silent (check node value path')

theorem checkTuple_silent (hc : Steady root check')
    (h : Quiet root (checkTuple check' node items value path) visited) (path' : String) :
    Silent (checkTuple check' node items value path') := by
  unfold checkTuple at h ⊢
  split at h
  · rename_i values
    split_ifs at h ⊢ with hlength
    · simpa using h.nil_of_stop
    · refine silent_noting rfl (silent_andThen (silent_each fun p hp ↦ ?_) (silent_stop ?_))
      · obtain ⟨visited', hp⟩ := h.of_noting.left.of_each p hp
        exact hc _ _ _ _ hp _
      · obtain ⟨visited', horder⟩ := h.of_noting.right
        have hnil := horder.nil_of_stop
        rw [orderIssue_path, map_eq_nil_iff] at hnil ⊢
        exact hnil
  · simpa using h.nil_of_stop

theorem checkArray_silent (hc : Steady root check')
    (h : Quiet root (checkArray host check' node value path) visited) (path' : String) :
    Silent (checkArray host check' node value path') := by
  unfold checkArray at h ⊢
  split at h
  · refine silent_andThen (silent_stop ?_) ?_
    · have hnil := h.left.nil_of_stop
      simp only [boundIssue_path host _ _ path, boundIssue_path host _ _ path', append_eq_nil_iff,
        map_eq_nil_iff] at hnil ⊢
      exact hnil
    · obtain ⟨visited', hitems⟩ := h.right
      split at hitems
      · refine silent_each fun p hp ↦ ?_
        obtain ⟨visited'', hp⟩ := hitems.of_each p hp
        exact hc _ _ _ _ hp _
      · exact silent_stop rfl
  · simpa using h.nil_of_stop

/-- What a check that finds nothing says about an object. -/
theorem Quiet.of_checkObject (h : Quiet root (checkObject check' node value path) visited) :
    value.isPlainObject ∧ (∀ key ∈ requiredKeys node, value.prop key ≠ .own .undefined) ∧
      ∀ p ∈ (properties? node).getD [], value.prop p.1 ≠ .own .undefined →
        ∃ visited', Quiet root (check' p.2 (value.prop p.1) (joinPath path p.1)) visited' := by
  unfold checkObject at h
  split_ifs at h with hobject
  · refine ⟨hobject, fun key hkey hmissing ↦ ?_, fun p hp hpresent ↦ ?_⟩
    · have hnil := h.left.nil_of_stop
      rw [map_eq_nil_iff, filter_eq_nil_iff] at hnil
      exact hnil key hkey (by simpa using hmissing)
    · obtain ⟨visited', hmembers⟩ := h.right
      obtain ⟨visited'', hmember⟩ := hmembers.of_each p hp
      rw [if_neg hpresent] at hmember
      exact ⟨visited'', hmember⟩
  · simpa using h.nil_of_stop

theorem checkObject_silent (hobject : value.isPlainObject)
    (hrequired : ∀ key ∈ requiredKeys node, value.prop key ≠ .own .undefined)
    (hmembers : ∀ p ∈ (properties? node).getD [], value.prop p.1 ≠ .own .undefined →
      Silent (check' p.2 (value.prop p.1) (joinPath path p.1))) :
    Silent (checkObject check' node value path) := by
  rw [checkObject, if_pos hobject]
  refine silent_andThen (silent_stop ?_) (silent_each fun p hp ↦ ?_)
  · rw [map_eq_nil_iff, filter_eq_nil_iff]
    exact fun key hkey ↦ by simpa using hrequired key hkey
  · split_ifs with hpresent
    · exact silent_stop rfl
    · exact hmembers p hp hpresent

theorem checkResolved_silent (hc : Steady root check')
    (h : Quiet root (checkResolved host check' node value path) visited) (path' : String) :
    Silent (checkResolved host check' node value path') := by
  unfold checkResolved at h ⊢
  split at h
  · refine silent_noting rfl ?_
    have h := h.of_noting
    split_ifs at h ⊢
    · exact silent_stop rfl
    · split at h
      · exact hc _ _ _ _ h _
      · exact silent_stop rfl
  · rw [valueIssues_path] at h ⊢
    simp only [] at h ⊢
    by_cases hdone : (valueIssues host node value "").2
    · rw [if_pos hdone] at h ⊢
      have hnil := h.nil_of_stop
      rw [map_eq_nil_iff] at hnil
      exact silent_stop (by rw [hnil, map_nil])
    · rw [if_neg hdone] at h ⊢
      split at h
      · exact checkTuple_silent hc h path'
      · split_ifs at h ⊢
        · exact checkArray_silent hc h path'
        · obtain ⟨hobject, hrequired, hmembers⟩ := h.of_checkObject
          refine checkObject_silent hobject hrequired fun p hp hpresent ↦ ?_
          obtain ⟨visited', hmember⟩ := hmembers p hp hpresent
          exact hc _ _ _ _ hmember _
        · exact silent_stop rfl

/-- The check of an object goes on to its members. -/
def checksMembers (host : Host) (node : Node) : Prop :=
  (valueIssues host node (.own (.obj [])) "").2 = false

variable {fields fields' : Node}

section

variable (h : Quiet root (checkResolved host check' node (.own (.obj fields)) path) visited)
include h

/-- The check of an object that finds nothing checks its members, where it goes on to them. -/
theorem Quiet.of_group (hbranches : branches? node = none) (hproperties : (properties? node).isSome)
    (hmembers : checksMembers host node) :
    Quiet root (checkObject check' node (.own (.obj fields)) path) visited := by
  rw [checksMembers] at hmembers
  rw [checkResolved, hbranches] at h
  rw [valueIssues_path, valueIssues_obj host node fields []] at h
  simp only [hmembers, Bool.false_eq_true, if_false] at h
  split at h
  · simpa using h.nil_of_stop
  · split_ifs at h with harray hobject
    · simpa using h.nil_of_stop
    · exact h
    · exact absurd (.inr hproperties) hobject

/-- What the check finds in an object depends on its members alone. -/
theorem group_silent
    (hbranches : branches? node = none)
    (hmembers : checksMembers host node →
      ∀ path', Silent (checkObject check' node (.own (.obj fields')) path'))
    (path' : String) :
    Silent (checkResolved host check' node (.own (.obj fields')) path') := by
  by_cases hgoes : checksMembers host node
  · rw [checksMembers] at hgoes
    rw [checkResolved, hbranches] at h ⊢
    rw [valueIssues_path, valueIssues_obj host node _ []] at h ⊢
    simp only [hgoes, Bool.false_eq_true, if_false] at h ⊢
    split at h
    · simpa using h.nil_of_stop
    · split_ifs at h ⊢
      · simpa using h.nil_of_stop
      · exact hmembers hgoes path'
      · exact silent_stop rfl
  · rw [checksMembers, Bool.not_eq_false] at hgoes
    rw [checkResolved, hbranches] at h ⊢
    rw [valueIssues_path, valueIssues_obj host node _ []] at h ⊢
    simp only [hgoes, if_true] at h ⊢
    have hnil := h.nil_of_stop
    rw [map_eq_nil_iff] at hnil
    exact silent_stop (by rw [hnil, map_nil])

end

end Walks

section Check

variable {host : Host} {root : Node} {fuel : Nat} {node resolved : Node} {value : Read} {path : String}
  {visited : List String}

/-- `check` finds nothing, wherever it is and whatever references it has followed. -/
def Holds (host : Host) (root : Node) (fuel : Nat) (node : Value) (value : Read) : Prop :=
  ∀ path, Silent (check host root fuel node value path)

/-- A check that went everywhere came to the node behind its references. -/
theorem Quiet.of_check (h : Quiet root (check host root (fuel + 1) (.obj node) value path) visited)
    (hresolved : (derefNode root node []).1 = some resolved) :
    ∃ visited', Quiet root (checkResolved host (check host root fuel) resolved value path) visited' := by
  have hfollowed : (derefNode root node visited).1 = (derefNode root node []).1 := by
    cases href : ref? node with
    | none => rw [derefNode_of_ref?_none href, derefNode_of_ref?_none href]
    | some ref =>
      refine h.2 (.met (fuel + 1) node value path visited) ?_
      rw [check]
      simp only [href, Option.isSome_some, if_true]
      split <;> simp
  rw [hresolved] at hfollowed
  obtain ⟨his, hall⟩ := h
  rw [check] at his hall
  rcases hderef : derefNode root node visited with ⟨target, visited'⟩
  rw [hderef] at hfollowed
  obtain rfl : target = some resolved := hfollowed
  simp only [hderef, issues_append, append_eq_nil_iff, mem_append] at his hall
  exact ⟨visited', his.2, fun e he ↦ hall e (.inr he)⟩

theorem holds_of_resolved
    (h : ∀ resolved, (derefNode root node []).1 = some resolved →
      ∀ path, Silent (checkResolved host (check host root fuel) resolved value path)) :
    Holds host root (fuel + 1) (.obj node) value := by
  intro path visited
  have hmet : issues (if (ref? node).isSome then
      [Entry.met (fuel + 1) node value path visited] else []) = [] := by
    split_ifs <;> rfl
  rw [check]
  rcases hderef : derefNode root node visited with ⟨target, visited'⟩
  cases target with
  | none => simpa only [hderef] using hmet
  | some resolved =>
    have hagree := derefNode_agree root node visited
    rw [hderef] at hagree
    have hresolved : (derefNode root node []).1 = some resolved := by
      simpa [eq_comm] using hagree
    simp only [hderef, issues_append, hmet, nil_append]
    exact h resolved hresolved path visited'

/-- **Where the check went everywhere and found nothing, it finds nothing at any time.** -/
theorem holds_of_quiet {nodeIn : Value}
    (h : Quiet root (check host root fuel nodeIn value path) visited) :
    Holds host root fuel nodeIn value := by
  induction fuel generalizing nodeIn value path visited with
  | zero => exact fun path' ↦ silent_stop rfl
  | succ fuel ih =>
    have hc : Steady root (check host root fuel) := fun _ _ _ _ hquiet ↦ ih hquiet
    cases nodeIn with
    | obj node =>
      refine holds_of_resolved fun resolved hresolved path' ↦ ?_
      obtain ⟨visited', hquiet⟩ := h.of_check hresolved
      exact checkResolved_silent hc hquiet path'
    | _ => exact fun path' visited' ↦ rfl

end Check

end Enkaku.Schema
