import Enkaku.Workflow.SetCodec
import Mathlib

/-!
# Selectors

`selector-match.ts` and `selector-analysis.ts`: finding a node of a UI tree by a selector, hit-testing a
point, and proposing selectors for a node with the number of nodes that each of them matches.

A proposed id is the trimmed id of the node without its package, and `matches` compares it with the id
as it is: blanks that were trimmed keep the node from being matched by what was proposed for it.

A node is told from another by its place in depth-first order (`nodes`), so that equal nodes of a tree
are not confused.
-/

set_option autoImplicit false

namespace Enkaku.Ui

open List

/-! ## Trees -/

structure Point where
  x : ℚ
  y : ℚ
  deriving DecidableEq

structure Bounds where
  left : ℚ
  top : ℚ
  right : ℚ
  bottom : ℚ
  deriving DecidableEq

structure UiNode where
  resourceId : String
  text : String
  desc : String
  className : String
  packageName : String
  bounds : Bounds
  clickable : Bool
  enabled : Bool
  focused : Bool
  index : ℤ
  children : List UiNode

inductive Selector where
  | id (id : String)
  | desc (desc : String)
  | text (text : String)
  | point (point : Point)
  deriving DecidableEq

mutual

/-- The nodes of a tree, in depth-first order. -/
def nodes : UiNode → List UiNode
  | node@⟨_, _, _, _, _, _, _, _, _, _, children⟩ => node :: nodesOf children

def nodesOf : List UiNode → List UiNode
  | [] => []
  | child :: children => nodes child ++ nodesOf children

end

/-! ## Matching -/

/-- `Math.round`. -/
def round (q : ℚ) : ℚ := ⌊q + 1 / 2⌋

def centerOf (b : Bounds) : Point := ⟨round ((b.left + b.right) / 2), round ((b.top + b.bottom) / 2)⟩

/-- `s.trim()`. -/
def trim (s : String) : String := String.ofList (jsTrim s.toList)

/-- `matches`. -/
def UiNode.matches (node : UiNode) : Selector → Bool
  | .id id => node.resourceId = id || (":id/".toList ++ id.toList).isSuffixOf node.resourceId.toList
  | .desc desc => trim node.desc = trim desc
  | .text text => trim node.text = trim text
  | .point _ => false

def containsPoint (b : Bounds) (p : Point) : Bool :=
  p.x ≥ b.left && p.x ≤ b.right && p.y ≥ b.top && p.y ≤ b.bottom

mutual

def hitTest (point : Point) : UiNode → Option UiNode
  | node@⟨_, _, _, _, _, bounds, _, _, _, _, children⟩ =>
    if !containsPoint bounds point then none
    else
      let hits := hitsOf point children
      (hits.find? (·.clickable)).or (hits.head?.or (some node))

/-- The `hits` of the loop over the children. -/
def hitsOf (point : Point) : List UiNode → List UiNode
  | [] => []
  | child :: children => (hitTest point child).toList ++ hitsOf point children

end

/-- The node that stands for a point. -/
def pointNode (point : Point) : UiNode :=
  ⟨"", "", "", "synthetic-point", "", ⟨point.x, point.y, point.x + 1, point.y + 1⟩, true, true, false, 0,
    []⟩

mutual

def matchSelector (sel : Selector) : UiNode → Option UiNode
  | node@⟨_, _, _, _, _, _, _, _, _, _, children⟩ =>
    match sel with
    | .point point => some (pointNode point)
    | sel => if node.matches sel then some node else matchFirst sel children

/-- The loop over the children. -/
def matchFirst (sel : Selector) : List UiNode → Option UiNode
  | [] => none
  | child :: children => (matchSelector sel child).or (matchFirst sel children)

end

/-! ## Proposing -/

mutual

/-- The walk of `countMatches`, for a selector that is no point. -/
def countWalk (sel : Selector) : UiNode → ℕ
  | node@⟨_, _, _, _, _, _, _, _, _, _, children⟩ =>
    (if node.matches sel then 1 else 0) + countWalks sel children

def countWalks (sel : Selector) : List UiNode → ℕ
  | [] => 0
  | child :: children => countWalk sel child + countWalks sel children

end

def countMatches (root : UiNode) (sel : Selector) : ℕ :=
  match sel with
  | .point _ => 1
  | sel => countWalk sel root

inductive SelectorCandidateKind where
  | id | desc | text | point
  deriving DecidableEq, Repr

structure SelectorCandidate where
  kind : SelectorCandidateKind
  selector : Selector
  count : Option ℕ
  expandsTo : Option String
  note : String
  deriving DecidableEq

/-- What stands after the first `:id/`. -/
def afterMarker? : List Char → Option (List Char)
  | [] => none
  | c :: cs => if ":id/".toList.isPrefixOf (c :: cs) then some (cs.drop 3) else afterMarker? cs

def shortIdOf (resourceId : String) : String :=
  match afterMarker? resourceId.toList with
  | some name => String.ofList name
  | none => resourceId

/-- The characters that `escapeForDisplay` escapes. -/
def displayEscaped : List Char :=
  ['.', '*', '+', '?', '^', '$', '\x7b', '\x7d', '(', ')', '|', '[', ']', '\\']

def escapeForDisplay (s : String) : String :=
  String.ofList (s.toList.flatMap fun c ↦ if c ∈ displayEscaped then ['\\', c] else [c])

def noteFor (count : ℕ) : String :=
  if count = 0 then "matches 0 nodes in this tree"
  else if count = 1 then "1 match — safe to use"
  else toString count ++ " matches — find always returns the first one, in depth-first order"

/-- The candidate of a kind, with what it counts. -/
def candidateFor (root : UiNode) (kind : SelectorCandidateKind) (selector : Selector)
    (expandsTo : Option String) : SelectorCandidate :=
  ⟨kind, selector, some (countMatches root selector), expandsTo, noteFor (countMatches root selector)⟩

def proposeSelectors (root node : UiNode) : List SelectorCandidate :=
  let resourceId := trim node.resourceId
  let short := shortIdOf resourceId
  let desc := trim node.desc
  let text := trim node.text
  (if resourceId ≠ "" then
    [candidateFor root .id (.id short)
      (if short ≠ resourceId then some ("resourceIdMatches: .*:id/" ++ escapeForDisplay short) else none)]
  else []) ++
  (if desc ≠ "" then [candidateFor root .desc (.desc desc) none] else []) ++
  (if text ≠ "" then [candidateFor root .text (.text text) none] else []) ++
  [⟨.point, .point (centerOf node.bounds), none, none,
    "bypasses the inspector entirely — it is not counted against the tree and can never be used as " ++
      "an existence check"⟩]

/-! ## Counting and finding -/

mutual

theorem countWalk_eq (sel : Selector) :
    ∀ node, countWalk sel node = (nodes node).countP (·.matches sel)
  | ⟨_, _, _, _, _, _, _, _, _, _, children⟩ => by
    rw [countWalk, nodes, countP_cons, countWalks_eq sel children, Nat.add_comm]

theorem countWalks_eq (sel : Selector) :
    ∀ children, countWalks sel children = (nodesOf children).countP (·.matches sel)
  | [] => rfl
  | child :: children => by
    rw [countWalks, nodesOf, countP_append, countWalk_eq sel child, countWalks_eq sel children]

end

/-- What is counted is how many nodes match. -/
theorem countMatches_eq {sel : Selector} (hsel : ∀ point, sel ≠ .point point) (root : UiNode) :
    countMatches root sel = (nodes root).countP (·.matches sel) := by
  cases sel with
  | point point => exact absurd rfl (hsel point)
  | _ => exact countWalk_eq _ root

mutual

theorem matchSelector_eq {sel : Selector} (hsel : ∀ point, sel ≠ .point point) :
    ∀ node, matchSelector sel node = (nodes node).find? (·.matches sel)
  | ⟨_, _, _, _, _, _, _, _, _, _, children⟩ => by
    rw [matchSelector, nodes, find?_cons]
    · split_ifs with hmatches
      · rw [hmatches]
      · rw [eq_false_of_ne_true hmatches, matchFirst_eq hsel children]
    · exact hsel

theorem matchFirst_eq {sel : Selector} (hsel : ∀ point, sel ≠ .point point) :
    ∀ children, matchFirst sel children = (nodesOf children).find? (·.matches sel)
  | [] => rfl
  | child :: children => by
    rw [matchFirst, nodesOf, find?_append, matchSelector_eq hsel child, matchFirst_eq hsel children]

end

/-! ## Hit-testing -/

/-- A node below another one, where all from the one to the other contain a point. -/
inductive Under (point : Point) : UiNode → UiNode → Prop
  | here {node : UiNode} (hnode : containsPoint node.bounds point = true) : Under point node node
  | child {node child below : UiNode} (hnode : containsPoint node.bounds point = true)
      (hchild : child ∈ node.children) (h : Under point child below) : Under point node below

/-- What a hit is: the point is in it and in all above it, and in none of its children. -/
def IsHit (point : Point) (root node : UiNode) : Prop :=
  Under point root node ∧ ∀ child ∈ node.children, containsPoint child.bounds point = false

/-- What hit-testing a tree gives. -/
def HitTested (point : Point) (root : UiNode) : Prop :=
  (hitTest point root = none ↔ containsPoint root.bounds point = false) ∧
    ∀ node, hitTest point root = some node → IsHit point root node

/-- What is found below the children of a node. -/
def HitsBelow (point : Point) (children : List UiNode) : Prop :=
  (∀ hit ∈ hitsOf point children, ∃ child ∈ children, IsHit point child hit) ∧
    (hitsOf point children = [] → ∀ child ∈ children, containsPoint child.bounds point = false)

theorem hitTest_eq (point : Point) (node : UiNode) :
    hitTest point node =
      if !containsPoint node.bounds point then none
      else ((hitsOf point node.children).find? (·.clickable)).or
        ((hitsOf point node.children).head?.or (some node)) := by
  cases node
  rfl

theorem hitTested_of_children {point : Point} {root : UiNode} (h : HitsBelow point root.children) :
    HitTested point root := by
  obtain ⟨hhits, hnone⟩ := h
  rw [HitTested, hitTest_eq]
  cases hroot : containsPoint root.bounds point with
  | false => simp
  | true =>
    rw [Bool.not_true, if_neg Bool.false_ne_true]
    refine ⟨by cases hitsOf point root.children <;> simp, fun node hnode ↦ ?_⟩
    have hbelow : ∀ hit ∈ hitsOf point root.children, IsHit point root hit := by
      intro hit hmem
      obtain ⟨child, hchild, hunder, hdeepest⟩ := hhits hit hmem
      exact ⟨.child hroot hchild hunder, hdeepest⟩
    rcases Option.or_eq_some_iff.mp hnode with hclickable | ⟨-, hnode⟩
    · exact hbelow node (mem_of_find?_eq_some hclickable)
    · rcases Option.or_eq_some_iff.mp hnode with hfirst | ⟨hempty, hnode⟩
      · exact hbelow node (mem_of_head? hfirst)
      · cases hnode
        exact ⟨.here hroot, hnone (head?_eq_none_iff.mp hempty)⟩

mutual

/-- **Hit-testing finds a deepest node**, and none only outside the tree. -/
theorem hitTested (point : Point) : ∀ root, HitTested point root
  | ⟨_, _, _, _, _, _, _, _, _, _, children⟩ => hitTested_of_children (hitsBelow point children)

theorem hitsBelow (point : Point) : ∀ children, HitsBelow point children
  | [] => ⟨by simp [hitsOf], by simp⟩
  | child :: children => by
    obtain ⟨hnone, hsome⟩ := hitTested point child
    obtain ⟨hhits, hrest⟩ := hitsBelow point children
    rw [HitsBelow, hitsOf]
    refine ⟨fun hit hmem ↦ ?_, fun hempty ↦ ?_⟩
    · rcases mem_append.mp hmem with hmem | hmem
      · exact ⟨child, mem_cons_self, hsome hit (Option.mem_toList.mp hmem)⟩
      · obtain ⟨child', hchild', hhit⟩ := hhits hit hmem
        exact ⟨child', .tail _ hchild', hhit⟩
    · obtain ⟨hchild, hchildren⟩ := append_eq_nil_iff.mp hempty
      exact forall_mem_cons.mpr ⟨hnone.mp (Option.toList_eq_nil_iff.mp hchild), hrest hchildren⟩

end

/-! ## Trimmed texts -/

/-- A text without blanks at its ends. -/
def Trimmed (cs : List Char) : Prop :=
  (∀ c ∈ cs.head?, isJsSpace c = false) ∧ ∀ c ∈ cs.getLast?, isJsSpace c = false

theorem head?_skipWs {cs : List Char} {c : Char} (h : (skipWs cs).head? = some c) :
    isJsSpace c = false := by
  have hhead := head?_dropWhile_not isJsSpace cs
  rw [skipWs] at h
  rw [h] at hhead
  exact hhead

/-- What is trimmed away is blank. -/
theorem exists_blanks (cs : List Char) :
    ∃ front back, cs = front ++ jsTrim cs ++ back ∧ (∀ c ∈ front, isJsSpace c = true) ∧
      (∀ c ∈ back, isJsSpace c = true) ∧ Trimmed (jsTrim cs) := by
  have hback : skipWs cs = jsTrim cs ++ ((skipWs cs).reverse.takeWhile isJsSpace).reverse := by
    rw [jsTrim, ← reverse_append]
    generalize skipWs cs = rest
    rw [skipWs, takeWhile_append_dropWhile, reverse_reverse]
  have hfront : cs = cs.takeWhile isJsSpace ++ skipWs cs := takeWhile_append_dropWhile.symm
  refine ⟨cs.takeWhile isJsSpace, ((skipWs cs).reverse.takeWhile isJsSpace).reverse, ?_,
    fun c hc ↦ mem_takeWhile_imp hc, fun c hc ↦ mem_takeWhile_imp (mem_reverse.mp hc),
    fun c hc ↦ ?_, fun c hc ↦ ?_⟩
  · rw [append_assoc, ← hback]
    exact hfront
  · have hhead : (skipWs cs).head? = some c := by
      rw [hback, head?_append, Option.mem_def.mp hc]
      rfl
    exact head?_skipWs hhead
  · rw [jsTrim, getLast?_reverse] at hc
    exact head?_skipWs hc

/-- Nothing is trimmed from a text that has no blanks at its ends. -/
theorem jsTrim_of_trimmed {cs : List Char} (h : Trimmed cs) : jsTrim cs = cs := by
  have hskip : ∀ {cs : List Char}, (∀ c ∈ cs.head?, isJsSpace c = false) → skipWs cs = cs := by
    intro cs hhead
    cases cs with
    | nil => rfl
    | cons c cs => exact dropWhile_cons_of_neg (by simp [hhead c rfl])
  rw [jsTrim, hskip h.1, hskip (by simpa [head?_reverse] using h.2), reverse_reverse]

theorem trim_trim (s : String) : trim (trim s) = trim s := by
  obtain ⟨-, -, -, -, -, htrimmed⟩ := exists_blanks s.toList
  rw [trim, trim, String.toList_ofList, jsTrim_of_trimmed htrimmed]

/-! ## Short ids -/

/-- The marker before the name of an id. -/
abbrev marker : List Char := ":id/".toList

theorem exists_of_afterMarker? {cs name : List Char} (h : afterMarker? cs = some name) :
    ∃ before, cs = before ++ (marker ++ name) := by
  induction cs with
  | nil => exact absurd h (by simp [afterMarker?])
  | cons c cs ih =>
    rw [afterMarker?] at h
    split_ifs at h with hmarker
    · obtain ⟨rest, hrest⟩ := List.isPrefixOf_iff_prefix.mp hmarker
      cases h
      refine ⟨[], ?_⟩
      have htail : cs.drop 3 = rest := by
        have hdrop := congrArg (List.drop 4) hrest
        simpa using hdrop.symm
      rw [nil_append, htail]
      exact hrest.symm
    · obtain ⟨before, rfl⟩ := ih h
      exact ⟨c :: before, rfl⟩

theorem afterMarker?_eq_none {cs : List Char} : afterMarker? cs = none ↔ ¬ marker <:+: cs := by
  induction cs with
  | nil => simp [afterMarker?]
  | cons c cs ih =>
    rw [afterMarker?, infix_cons_iff]
    split_ifs with hmarker
    · have hyes : marker <+: c :: cs := List.isPrefixOf_iff_prefix.mp hmarker
      exact ⟨False.elim, fun h ↦ absurd (.inl hyes) h⟩
    · rw [ih]
      have hno : ¬ marker <+: c :: cs := fun h ↦ hmarker (List.isPrefixOf_iff_prefix.mpr h)
      exact ⟨fun h ↦ not_or.mpr ⟨hno, h⟩, fun h ↦ (not_or.mp h).2⟩

/-- The id of a node has no blanks that its proposed id lacks and `matches` sees: none at its end, and
none at its front either if there is no marker. -/
def IdReads (node : UiNode) : Prop :=
  (∀ c ∈ node.resourceId.toList.getLast?, isJsSpace c = false) ∧
    (marker <:+: (trim node.resourceId).toList ∨
      ∀ c ∈ node.resourceId.toList.head?, isJsSpace c = false)

theorem getLast?_of_suffix {xs ys : List Char} (h : xs <:+ ys) (hne : xs ≠ []) :
    ys.getLast? = xs.getLast? := by
  obtain ⟨before, rfl⟩ := h
  rw [getLast?_append_of_ne_nil _ hne]

theorem eq_nil_of_blanks {back t : List Char} (hback : ∀ c ∈ back, isJsSpace c = true)
    (hlast : ∀ c ∈ (t ++ back).getLast?, isJsSpace c = false) : back = [] := by
  by_contra hne
  rw [getLast?_append_of_ne_nil _ hne, getLast?_eq_some_getLast hne] at hlast
  have hblank := hback _ (getLast_mem hne)
  rw [hlast _ rfl] at hblank
  exact Bool.false_ne_true hblank

section Short

variable {raw front t back name : List Char}

/-- With a marker in it. -/
theorem reads_marked (hraw : raw = front ++ t ++ back) (hback : ∀ c ∈ back, isJsSpace c = true)
    (htrimmed : Trimmed t) (hname : afterMarker? t = some name) :
    raw = name ∨ marker ++ name <:+ raw ↔ ∀ c ∈ raw.getLast?, isJsSpace c = false := by
  obtain ⟨before, hbefore⟩ := exists_of_afterMarker? hname
  have hsuffix : marker ++ name <:+ t := ⟨before, hbefore.symm⟩
  have hlast : t.getLast? = (marker ++ name).getLast? := getLast?_of_suffix hsuffix (by simp)
  constructor
  · rintro (heq | hmatch)
    · have hlength := congrArg List.length (hraw.symm.trans heq)
      have hlong := hsuffix.length_le
      have hmarker : marker.length = 4 := rfl
      rw [length_append, length_append] at hlength
      rw [length_append] at hlong
      omega
    · rw [getLast?_of_suffix hmatch (by simp), ← hlast]
      exact htrimmed.2
  · intro hends
    rw [hraw] at hends
    obtain rfl := eq_nil_of_blanks hback hends
    rw [hraw, append_nil]
    exact .inr (hsuffix.trans (suffix_append _ _))

/-- Without one, the whole of the trimmed id is proposed. -/
theorem reads_unmarked (hraw : raw = front ++ t ++ back) (hfront : ∀ c ∈ front, isJsSpace c = true)
    (hback : ∀ c ∈ back, isJsSpace c = true) (htrimmed : Trimmed t) (hne : t ≠ []) :
    raw = t ∨ marker ++ t <:+ raw ↔
      (∀ c ∈ raw.getLast?, isJsSpace c = false) ∧ ∀ c ∈ raw.head?, isJsSpace c = false := by
  constructor
  · rintro (rfl | hmatch)
    · exact ⟨htrimmed.2, htrimmed.1⟩
    · have hends : ∀ c ∈ raw.getLast?, isJsSpace c = false := by
        rw [getLast?_of_suffix hmatch (by simp), getLast?_append_of_ne_nil _ hne]
        exact htrimmed.2
      rw [hraw] at hends
      obtain rfl := eq_nil_of_blanks hback hends
      rw [append_nil] at hraw
      obtain ⟨before, hbefore⟩ := hmatch
      rw [hraw, ← append_assoc] at hbefore
      have hmarker := append_cancel_right hbefore
      have hmem : '/' ∈ front := by
        rw [← hmarker]
        exact mem_append_right _ (by decide)
      exact absurd (hfront '/' hmem) (by decide)
  · rintro ⟨hends, hstarts⟩
    rw [hraw] at hends
    obtain rfl := eq_nil_of_blanks hback hends
    rw [append_nil] at hraw
    cases front with
    | nil => exact .inl hraw
    | cons c front =>
      rw [hraw] at hstarts
      have hblank := hstarts c rfl
      rw [hfront c mem_cons_self] at hblank
      exact absurd hblank.symm Bool.false_ne_true

end Short

/-- **A node is matched by the id proposed for it** if no blanks are in the way. -/
theorem matches_short_iff {node : UiNode} (hne : trim node.resourceId ≠ "") :
    node.matches (.id (shortIdOf (trim node.resourceId))) = true ↔ IdReads node := by
  obtain ⟨front, back, hraw, hfront, hback, htrimmed⟩ := exists_blanks node.resourceId.toList
  have htrim : (trim node.resourceId).toList = jsTrim node.resourceId.toList := String.toList_ofList
  have hnil : jsTrim node.resourceId.toList ≠ [] := by
    intro hempty
    exact hne (String.toList_inj.mp (htrim.trans hempty))
  rw [UiNode.matches, Bool.or_eq_true, decide_eq_true_iff, isSuffixOf_iff_suffix,
    ← String.toList_inj, IdReads, shortIdOf, htrim]
  cases hname : afterMarker? (jsTrim node.resourceId.toList) with
  | some name =>
    have hmarker : marker <:+: jsTrim node.resourceId.toList := by
      by_contra hno
      rw [afterMarker?_eq_none.mpr hno] at hname
      exact absurd hname (Option.some_ne_none name).symm
    rw [String.toList_ofList, reads_marked hraw hback htrimmed hname]
    exact ⟨fun h ↦ ⟨h, .inl hmarker⟩, And.left⟩
  | none =>
    have hmarker : ¬ marker <:+: jsTrim node.resourceId.toList := afterMarker?_eq_none.mp hname
    rw [htrim, reads_unmarked hraw hfront hback htrimmed hnil, or_iff_right hmarker]

/-! ## What is proposed -/

/-- What a candidate that was proposed for the node in a place of a tree is to be. -/
structure Finds (root : UiNode) (i : ℕ) (c : SelectorCandidate) : Prop where
  counted : c.count = some ((nodes root).countP (·.matches c.selector))
  found : 1 ≤ (nodes root).countP (·.matches c.selector)
  first : matchSelector c.selector root =
    (nodes root)[(nodes root).findIdx (·.matches c.selector)]?
  exact : c.count = some 1 → (nodes root).findIdx (·.matches c.selector) = i

/-- The one element that is counted is the first that is found. -/
theorem findIdx_of_countP_eq_one {α : Type} {p : α → Bool} {xs : List α} {i : ℕ} (hi : i < xs.length)
    (hp : p xs[i] = true) (h : xs.countP p = 1) : xs.findIdx p = i := by
  rw [findIdx_eq hi]
  refine ⟨hp, fun j hj ↦ ?_⟩
  by_contra hother
  rw [Bool.not_eq_false] at hother
  rw [← take_append_drop i xs, countP_append] at h
  have hbefore : 0 < (xs.take i).countP p :=
    countP_pos_iff.mpr ⟨xs[j], mem_take_iff_getElem.mpr ⟨j, by omega, rfl⟩, hother⟩
  have hafter : 0 < (xs.drop i).countP p := by
    refine countP_pos_iff.mpr ⟨xs[i], mem_drop_iff_getElem.mpr ⟨0, by omega, ?_⟩, hp⟩
    simp
  omega

/-- A candidate finds the node exactly if it matches it, or else more than one other. -/
theorem finds_iff {root : UiNode} {i : ℕ} {kind : SelectorCandidateKind} {selector : Selector}
    {expandsTo : Option String} (hselector : ∀ point, selector ≠ .point point)
    (hi : i < (nodes root).length) :
    Finds root i (candidateFor root kind selector expandsTo) ↔
      (nodes root)[i].matches selector = true ∨ 2 ≤ (nodes root).countP (·.matches selector) := by
  have hcount : (candidateFor root kind selector expandsTo).count =
      some ((nodes root).countP (·.matches selector)) := congrArg some (countMatches_eq hselector root)
  have hfirst : matchSelector selector root =
      (nodes root)[(nodes root).findIdx (·.matches selector)]? := by
    rw [matchSelector_eq hselector, find?_eq_getElem?_findIdx]
  constructor
  · rintro ⟨-, hfound, -, hexact⟩
    by_contra hno
    obtain ⟨hother, hfew⟩ := not_or.mp hno
    have hone : (nodes root).countP (·.matches selector) = 1 := by
      change 1 ≤ (nodes root).countP (·.matches selector) at hfound
      omega
    have hidx : (nodes root).findIdx (·.matches selector) = i := hexact (by rw [hcount, hone])
    exact hother ((findIdx_eq hi).mp hidx).1
  · rintro (hmatches | hmany)
    · refine ⟨hcount, ?_, hfirst, fun hone ↦ ?_⟩
      · exact countP_pos_iff.mpr ⟨_, getElem_mem hi, hmatches⟩
      · rw [hcount] at hone
        exact findIdx_of_countP_eq_one hi hmatches (Option.some.inj hone)
    · refine ⟨hcount, ?_, hfirst, fun hone ↦ ?_⟩
      · change 1 ≤ (nodes root).countP (·.matches selector)
        omega
      · rw [hcount] at hone
        have hone := Option.some.inj hone
        omega

theorem exists_id_candidate (root : UiNode) {node : UiNode} (hne : trim node.resourceId ≠ "") :
    ∃ expandsTo, candidateFor root .id (.id (shortIdOf (trim node.resourceId))) expandsTo ∈
      proposeSelectors root node := by
  rw [proposeSelectors, if_pos hne]
  exact ⟨_, mem_append_left _
    (mem_append_left _ (mem_append_left _ (.head _)))⟩

/-- **What is proposed for a node finds it** exactly if its id reads as it is proposed, or there is none,
or the proposed id matches other nodes and more than one; and hit-testing finds a deepest node. -/
theorem selectors_find_iff (root : UiNode) (i : Fin (nodes root).length) :
    ((∀ c ∈ proposeSelectors root (nodes root)[i], c.kind ≠ .point → Finds root i c) ∧
        ∀ point, HitTested point root) ↔
      trim (nodes root)[i].resourceId = "" ∨ IdReads (nodes root)[i] ∨
        2 ≤ (nodes root).countP (·.matches (.id (shortIdOf (trim (nodes root)[i].resourceId)))) := by
  have hi := i.isLt
  rw [and_iff_left fun point ↦ hitTested point root]
  have hdesc : ∀ expandsTo, Finds root i
      (candidateFor root .desc (.desc (trim (nodes root)[i].desc)) expandsTo) := by
    refine fun expandsTo ↦ (finds_iff (by simp) hi).mpr (.inl ?_)
    simp [UiNode.matches, trim_trim]
  have htext : ∀ expandsTo, Finds root i
      (candidateFor root .text (.text (trim (nodes root)[i].text)) expandsTo) := by
    refine fun expandsTo ↦ (finds_iff (by simp) hi).mpr (.inl ?_)
    simp [UiNode.matches, trim_trim]
  have hid : trim (nodes root)[i].resourceId ≠ "" → ∀ expandsTo,
      (Finds root i (candidateFor root .id
        (.id (shortIdOf (trim (nodes root)[i].resourceId))) expandsTo) ↔
        IdReads (nodes root)[i] ∨
          2 ≤ (nodes root).countP (·.matches (.id (shortIdOf (trim (nodes root)[i].resourceId))))) := by
    intro hne expandsTo
    rw [finds_iff (by simp) hi, ← matches_short_iff hne]
    rfl
  constructor
  · intro h
    by_cases hne : trim (nodes root)[i].resourceId = ""
    · exact .inl hne
    · obtain ⟨expandsTo, hmem⟩ := exists_id_candidate root hne
      exact .inr ((hid hne expandsTo).mp (h _ hmem (by simp [candidateFor])))
  · intro h c hc hkind
    simp only [proposeSelectors, mem_append, mem_ite_nil_right, mem_singleton] at hc
    rcases hc with ((⟨hne, rfl⟩ | ⟨-, rfl⟩) | ⟨-, rfl⟩) | rfl
    · exact (hid hne _).mpr (h.resolve_left hne)
    · exact hdesc none
    · exact htext none
    · exact absurd rfl hkind

/-- A node with an id that ends with a blank. -/
def blankNode : UiNode :=
  ⟨"com.app:id/feed ", "", "", "", "", ⟨0, 0, 1, 1⟩, false, true, false, 0, []⟩

/-- Nothing matches the id proposed for it. -/
theorem blankNode_unfound :
    ∃ c ∈ proposeSelectors blankNode blankNode, c.kind = .id ∧ c.count = some 0 ∧
      matchSelector c.selector blankNode = none := by
  decide +kernel

end Enkaku.Ui
