import Mathlib

/-!
# Searches of a directed graph

A graph is given by the successors of each vertex; `Path` is a walk of one edge or more, `Reaches` of
any number.

* `pathExists` — is there a path?  A stack of vertices, and the set of those visited.
* `reachable` — what is reached from a vertex, breadth first.
* `findCycle` — the first vertex that a depth-first search comes back to.

The searches are given the vertices of the graph, which bound the turns they take.  A search that
finds no cycle leaves the vertices it has explored in topological order (`Topological`), by which
walks are bounded and functions on the vertices are followed.
-/

set_option autoImplicit false

namespace Digraph

open List

variable {α : Type} (succ : α → List α)

/-- There is an edge. -/
def Edge (a b : α) : Prop := b ∈ succ a

/-- A walk of one edge or more. -/
abbrev Path (a b : α) : Prop := Relation.TransGen (Edge succ) a b

/-- A walk of any number of edges. -/
abbrev Reaches (a b : α) : Prop := Relation.ReflTransGen (Edge succ) a b

variable {succ} {a b : α}

/-- A walk does not leave a set that no edge leaves. -/
theorem Reaches.mem_of_closed {s : List α} (h : Reaches succ a b) (ha : a ∈ s)
    (hs : ∀ v ∈ s, succ v ⊆ s) : b ∈ s := by
  induction h with
  | refl => exact ha
  | tail _ hedge ih => exact hs _ ih hedge

variable {l : List α}

/-- A walk along a list of vertices, each an edge from the one before it. -/
theorem path_of_chain (hchain : (a :: l).IsChain (Edge succ)) (hb : b ∈ l) : Path succ a b := by
  induction l generalizing a with
  | nil => exact nomatch hb
  | cons c l ih =>
    obtain ⟨hac, hrest⟩ := isChain_cons_cons.mp hchain
    rcases mem_cons.mp hb with rfl | hb
    · exact .single hac
    · exact .head hac (ih hrest hb)

/-- Where no vertex comes back to itself, a walk passes each vertex once. -/
theorem nodup_of_chain (hchain : l.IsChain (Edge succ)) (hacyclic : ∀ v ∈ l, ¬ Path succ v v) :
    l.Nodup := by
  induction l with
  | nil => exact nodup_nil
  | cons a l ih =>
    refine nodup_cons.mpr ⟨fun ha ↦ ?_, ih hchain.tail fun v hv ↦ ?_⟩
    · exact hacyclic a (.head _) (path_of_chain hchain ha)
    · exact hacyclic v (.tail _ hv)

/-! ## Topological order -/

variable (succ) in
/-- Every vertex of the list stands before its successors, which are in the list. -/
inductive Topological : List α → Prop
  | nil : Topological []
  | cons {v : α} {l : List α} (hnew : v ∉ l) (hsucc : succ v ⊆ l) (h : Topological l) :
      Topological (v :: l)

section

variable (h : Topological succ l)
include h

/-- No edge leaves a list in topological order. -/
theorem Topological.closed : ∀ v ∈ l, succ v ⊆ l := by
  induction h with
  | nil => exact fun v hv ↦ nomatch hv
  | @cons v l hnew hsucc h ih =>
    intro w hw
    rcases mem_cons.mp hw with rfl | hw
    · exact fun u hu ↦ .tail _ (hsucc hu)
    · exact fun u hu ↦ .tail _ (ih w hw hu)

/-- No vertex of such a list comes back to itself. -/
theorem Topological.not_path (ha : a ∈ l) : ¬ Path succ a a := by
  induction h with
  | nil => exact nomatch ha
  | @cons v l hnew hsucc h ih =>
    intro hpath
    rcases mem_cons.mp ha with rfl | ha
    · obtain ⟨w, haw, hreach⟩ := Relation.TransGen.head'_iff.mp hpath
      exact hnew (Reaches.mem_of_closed hreach (hsucc haw) h.closed)
    · exact ih ha hpath

theorem Topological.nodup : l.Nodup := by
  induction h with
  | nil => exact nodup_nil
  | cons hnew _ _ ih => exact nodup_cons.mpr ⟨hnew, ih⟩

/-- Vertices that no edge leads to may be left out. -/
theorem Topological.filter (p : α → Bool) (hp : ∀ v, ∀ w ∈ succ v, p w) :
    Topological succ (l.filter p) := by
  induction h with
  | nil => exact .nil
  | @cons v l hnew hsucc h ih =>
    by_cases hv : p v = true
    · rw [filter_cons_of_pos hv]
      refine .cons (fun hmem ↦ hnew (mem_of_mem_filter hmem)) (fun w hw ↦ ?_) ih
      exact mem_filter.mpr ⟨hsucc hw, hp v w hw⟩
    · rwa [filter_cons_of_neg hv]

end

/-! ## Is there a path? -/

variable [DecidableEq α] {nodes : List α} {target : α}

variable (succ) in
/-- The loop of the search: the vertices visited, and the stack. -/
def search (target : α) : Nat → List α → List α → Bool
  | 0, _, _ => false
  | _ + 1, _, [] => false
  | fuel + 1, visited, cur :: stack =>
    if cur = target then true
    else if cur ∈ visited then search target fuel visited stack
    else search target fuel (cur :: visited) ((succ cur).reverse ++ stack)

variable (succ) in
/-- How many edges leave vertices that have not been visited. -/
def edgesLeft (nodes visited : List α) : Nat :=
  ((nodes.filter fun v ↦ v ∉ visited).map fun v ↦ (succ v).length).sum

variable (succ) in
/-- Is there a path of one edge or more? -/
def pathExists (nodes : List α) (source target : α) : Bool :=
  search succ target ((succ source).length + edgesLeft succ nodes [] + 1) []
    (succ source).reverse

variable {visited : List α} {fuel : Nat}

theorem search_sound {stack : List α} (h : search succ target fuel visited stack = true) :
    ∃ v ∈ stack, Reaches succ v target := by
  induction fuel generalizing visited stack with
  | zero => exact nomatch h
  | succ fuel ih =>
    cases stack with
    | nil => exact nomatch h
    | cons cur stack =>
      rw [search] at h
      split_ifs at h with htarget hvisited
      · exact ⟨cur, mem_cons_self, htarget ▸ .refl⟩
      · obtain ⟨v, hv, hreach⟩ := ih h
        exact ⟨v, .tail _ hv, hreach⟩
      · obtain ⟨v, hv, hreach⟩ := ih h
        rcases mem_append.mp hv with hv | hv
        · exact ⟨cur, mem_cons_self, .head (mem_reverse.mp hv) hreach⟩
        · exact ⟨v, .tail _ hv, hreach⟩

/-- To visit a vertex takes its edges off those that are left. -/
theorem edgesLeft_visit (ha : succ a ≠ [] → a ∈ nodes) (hnew : a ∉ visited) :
    (succ a).length + edgesLeft succ nodes (a :: visited) ≤ edgesLeft succ nodes visited := by
  have hcount : (if a ∈ nodes then (succ a).length else 0) + edgesLeft succ nodes (a :: visited) ≤
      edgesLeft succ nodes visited := by
    clear ha
    induction nodes with
    | nil => simp [edgesLeft]
    | cons v nodes ih =>
      by_cases hva : v = a
      · subst hva
        simp only [edgesLeft, mem_cons, true_or, if_true, not_true_eq_false, decide_false,
          Bool.false_eq_true, not_false_eq_true, filter_cons_of_neg, hnew, decide_true,
          filter_cons_of_pos, map_cons, sum_cons] at ih ⊢
        split_ifs at ih <;> omega
      · have hav : a ≠ v := fun he ↦ hva he.symm
        by_cases hv : v ∈ visited
        · simpa [edgesLeft, hav, hv] using ih
        · simp only [edgesLeft, mem_cons, hav, hva, hv, false_or, or_self, not_false_eq_true,
            decide_true, filter_cons_of_pos, map_cons, sum_cons] at ih ⊢
          omega
  by_cases hnone : succ a = []
  · rw [hnone, length_nil]
    split_ifs at hcount <;> omega
  · rwa [if_pos (ha hnone)] at hcount

theorem search_complete (hnodes : ∀ v, succ v ≠ [] → v ∈ nodes) {stack : List α}
    (hfuel : stack.length + edgesLeft succ nodes visited < fuel)
    (hvisited : ∀ v ∈ visited, v ≠ target ∧ ∀ w ∈ succ v, w ∈ visited ∨ w ∈ stack)
    (ha : a ∈ visited ∨ a ∈ stack) (h : Reaches succ a target) :
    search succ target fuel visited stack = true := by
  induction fuel generalizing visited stack a with
  | zero => exact absurd hfuel (Nat.not_lt_zero _)
  | succ fuel ih =>
    cases stack with
    | nil =>
      have hmem : target ∈ visited := by
        refine h.mem_of_closed (ha.resolve_right not_mem_nil) fun v hv w hw ↦ ?_
        exact ((hvisited v hv).2 w hw).resolve_right not_mem_nil
      exact absurd rfl (hvisited target hmem).1
    | cons cur stack =>
      rw [length_cons] at hfuel
      rw [search]
      split_ifs with htarget hcur
      · rfl
      · refine ih (by omega) (fun v hv ↦ ⟨(hvisited v hv).1, fun w hw ↦ ?_⟩) ?_ h
        · rcases (hvisited v hv).2 w hw with hw | hw
          · exact .inl hw
          · rcases mem_cons.mp hw with rfl | hw
            · exact .inl hcur
            · exact .inr hw
        · rcases ha with ha | ha
          · exact .inl ha
          · rcases mem_cons.mp ha with rfl | ha
            · exact .inl hcur
            · exact .inr ha
      · have hleft : (succ cur).length + edgesLeft succ nodes (cur :: visited) ≤
            edgesLeft succ nodes visited := edgesLeft_visit (hnodes cur) hcur
        refine ih ?_ (fun v hv ↦ ?_) ?_ h
        · rw [length_append, length_reverse]
          omega
        · rcases mem_cons.mp hv with rfl | hv
          · exact ⟨htarget, fun w hw ↦ .inr (mem_append_left _ (mem_reverse.mpr hw))⟩
          · refine ⟨(hvisited v hv).1, fun w hw ↦ ?_⟩
            rcases (hvisited v hv).2 w hw with hw | hw
            · exact .inl (.tail _ hw)
            · rcases mem_cons.mp hw with rfl | hw
              · exact .inl (.head _)
              · exact .inr (mem_append_right _ hw)
        · rcases ha with ha | ha
          · exact .inl (.tail _ ha)
          · rcases mem_cons.mp ha with rfl | ha
            · exact .inl (.head _)
            · exact .inr (mem_append_right _ ha)

/-- **The search finds a path when there is one, and only then.** -/
theorem pathExists_iff (hnodes : ∀ v, succ v ≠ [] → v ∈ nodes) :
    pathExists succ nodes a b = true ↔ Path succ a b := by
  constructor
  · intro h
    obtain ⟨v, hv, hreach⟩ := search_sound h
    exact .head' (mem_reverse.mp hv) hreach
  · intro h
    obtain ⟨v, hav, hreach⟩ := Relation.TransGen.head'_iff.mp h
    refine search_complete hnodes ?_ (fun v hv ↦ nomatch hv)
      (.inr (mem_reverse.mpr hav)) hreach
    rw [length_reverse]
    omega

/-! ## What is reached -/

/-- A vertex not reached before is marked and put into the queue. -/
def enqueue (p : List α × List α) (next : α) : List α × List α :=
  if next ∈ p.2 then p else (p.1 ++ [next], p.2 ++ [next])

variable (succ) in
/-- The loop of the search: the queue, and the vertices reached. -/
def explore : Nat → List α × List α → List α
  | 0, p => p.2
  | _ + 1, ([], reached) => reached
  | fuel + 1, (cur :: queue, reached) => explore fuel ((succ cur).foldl enqueue (queue, reached))

variable (succ) in
/-- The vertices reached from one of them, itself among them. -/
def reachable (nodes : List α) (source : α) : List α :=
  explore succ (nodes.length + 2) ([source], [source])

/-- How many vertices have not been reached. -/
def unreached (nodes reached : List α) : Nat := nodes.countP fun v ↦ v ∉ reached

theorem unreached_mono {few many : List α} (h : few ⊆ many) :
    unreached nodes many ≤ unreached nodes few := by
  refine countP_mono_left fun v _ hv ↦ ?_
  have hmany : v ∉ many := of_decide_eq_true hv
  exact decide_eq_true fun hfew ↦ hmany (h hfew)

theorem unreached_append {reached : List α} (ha : a ∈ nodes) (hnew : a ∉ reached) :
    unreached nodes (reached ++ [a]) + 1 ≤ unreached nodes reached := by
  have hcount : unreached nodes (reached ++ [a]) + (if a ∈ nodes then 1 else 0) ≤
      unreached nodes reached := by
    clear ha
    induction nodes with
    | nil => simp [unreached]
    | cons v nodes ih =>
      rw [unreached, unreached] at ih ⊢
      rw [countP_cons, countP_cons]
      by_cases hva : v = a
      · subst hva
        rw [if_neg (by simp), if_pos (.head _), if_pos (decide_eq_true hnew)]
        split_ifs at ih <;> omega
      · have hsame : (v ∉ reached ++ [a]) ↔ v ∉ reached := by simp [hva]
        have hmem : a ∈ v :: nodes ↔ a ∈ nodes := by simp [Ne.symm hva]
        simp only [hsame, hmem]
        omega
  rwa [if_pos ha] at hcount

/-! ## Is there a cycle? -/

/-- The marks of a depth-first search: the vertices on its stack, those fully explored, the last
first, and the vertex it has come back to. -/
structure Marks (α : Type) where
  active : List α := []
  explored : List α := []
  found : Option α := none

/-- One successor of the vertex a search is at; `visit` goes on from a vertex not marked yet. -/
def visitNext (visit : α → Marks α → Marks α) (s : Marks α) (next : α) : Marks α :=
  if s.found.isSome then s
  else if next ∈ s.active then { s with found := some next }
  else if next ∈ s.explored then s
  else visit next s

variable (succ) in
/-- The search goes on from a vertex. -/
def visit : Nat → α → Marks α → Marks α
  | 0, _, s => s
  | fuel + 1, v, s =>
    let s' := (succ v).foldl (visitNext (visit fuel)) { s with active := v :: s.active }
    if s'.found.isSome then s'
    else { s' with active := s'.active.erase v, explored := v :: s'.explored }

variable (succ) in
/-- The first vertex that a search from `source` comes back to. -/
def findCycle (nodes : List α) (source : α) : Option α :=
  (visit succ (nodes.length + 1) source {}).found

/-- The vertices explored are in topological order, and apart from those on the stack. -/
structure Marks.Ordered (succ : α → List α) (s : Marks α) : Prop where
  topological : Topological succ s.explored
  apart : ∀ v ∈ s.explored, v ∉ s.active

/-- What a search that has come back to nothing has done: it has explored some more. -/
structure Explores (succ : α → List α) (s s' : Marks α) : Prop where
  active : s'.active = s.active
  more : s.explored ⊆ s'.explored
  ordered : s'.Ordered succ

variable {s : Marks α}

theorem visitNext_of_found {visit : α → Marks α → Marks α} (h : s.found.isSome) (l : List α) :
    l.foldl (visitNext visit) s = s := by
  induction l with
  | nil => rfl
  | cons c l ih => rw [foldl_cons, visitNext, if_pos h, ih]

theorem visitNext_all
    (hvisit : ∀ {v : α} {s : Marks α}, s.Ordered succ → v ∈ nodes → v ∉ s.active → v ∉ s.explored →
      unreached nodes (s.active ++ s.explored) ≤ fuel → (visit succ fuel v s).found = none →
      Explores succ s (visit succ fuel v s) ∧ v ∈ (visit succ fuel v s).explored) (hl : l ⊆ nodes)
    (hs : s.Ordered succ) (hfuel : unreached nodes (s.active ++ s.explored) ≤ fuel)
    (hnone : (l.foldl (visitNext (visit succ fuel)) s).found = none) :
    Explores succ s (l.foldl (visitNext (visit succ fuel)) s) ∧
      l ⊆ (l.foldl (visitNext (visit succ fuel)) s).explored := by
  induction l generalizing s with
  | nil => exact ⟨⟨rfl, fun _ h ↦ h, hs⟩, nil_subset _⟩
  | cons c l ih =>
    obtain ⟨hc, hl⟩ := cons_subset.mp hl
    rw [foldl_cons] at hnone ⊢
    have hnext : (visitNext (visit succ fuel) s c).found = none := by
      cases hfound : (visitNext (visit succ fuel) s c).found with
      | none => rfl
      | some v =>
        have hsome : (visitNext (visit succ fuel) s c).found.isSome := by rw [hfound]; rfl
        rw [visitNext_of_found hsome, hfound] at hnone
        exact nomatch hnone
    have hone : Explores succ s (visitNext (visit succ fuel) s c) ∧
        c ∈ (visitNext (visit succ fuel) s c).explored := by
      rw [visitNext] at hnext ⊢
      split_ifs at hnext ⊢ with hfound hactive hexplored
      · rw [hnext] at hfound
        exact nomatch hfound
      · exact ⟨⟨rfl, fun _ h ↦ h, hs⟩, hexplored⟩
      · exact hvisit hs hc hactive hexplored hfuel hnext
    obtain ⟨h₁, hc₁⟩ := hone
    have hmore : s.active ++ s.explored ⊆ (visitNext (visit succ fuel) s c).active ++
        (visitNext (visit succ fuel) s c).explored := by
      rw [h₁.active]
      exact append_subset.mpr ⟨subset_append_left .., fun v hv ↦ mem_append_right _ (h₁.more hv)⟩
    obtain ⟨h₂, hl₂⟩ := ih hl h₁.ordered (Nat.le_trans (unreached_mono hmore) hfuel) hnone
    refine ⟨⟨h₂.active.trans h₁.active, fun v hv ↦ h₂.more (h₁.more hv), h₂.ordered⟩, ?_⟩
    exact cons_subset.mpr ⟨h₂.more hc₁, hl₂⟩

theorem visit_explores (hnodes : ∀ v, succ v ⊆ nodes) {v : α} (hs : s.Ordered succ)
    (hv : v ∈ nodes) (hactive : v ∉ s.active) (hexplored : v ∉ s.explored)
    (hfuel : unreached nodes (s.active ++ s.explored) ≤ fuel)
    (hnone : (visit succ fuel v s).found = none) :
    Explores succ s (visit succ fuel v s) ∧ v ∈ (visit succ fuel v s).explored := by
  induction fuel generalizing v s with
  | zero =>
    have hpos := unreached_append hv (show v ∉ s.active ++ s.explored by simp [hactive, hexplored])
    omega
  | succ fuel ih =>
    have hless := unreached_append hv (show v ∉ s.active ++ s.explored by simp [hactive, hexplored])
    have hmore : s.active ++ s.explored ++ [v] ⊆ v :: s.active ++ s.explored := by
      intro w hw
      simp only [mem_append, mem_cons, not_mem_nil, or_false, cons_append] at hw ⊢
      tauto
    have hleft : unreached nodes (v :: s.active ++ s.explored) ≤
        unreached nodes (s.active ++ s.explored ++ [v]) := unreached_mono hmore
    have hstart : Marks.Ordered succ { s with active := v :: s.active } := by
      refine ⟨hs.topological, fun w hw hmem ↦ ?_⟩
      rcases mem_cons.mp hmem with rfl | hmem
      · exact hexplored hw
      · exact hs.apart w hw hmem
    rw [visit] at hnone ⊢
    split_ifs at hnone ⊢ with hfound
    · rw [hnone] at hfound
      exact nomatch hfound
    · obtain ⟨hx, hsub⟩ := visitNext_all ih (hnodes v) hstart (by dsimp only; omega) hnone
      have hnew : v ∉ ((succ v).foldl (visitNext (visit succ fuel))
          { s with active := v :: s.active }).explored := by
        intro hmem
        refine hx.ordered.apart v hmem ?_
        rw [hx.active]
        exact .head _
      refine ⟨⟨?_, fun w hw ↦ .tail _ (hx.more hw), ?_, ?_⟩, mem_cons_self⟩
      · rw [hx.active, erase_cons_head]
      · exact .cons hnew hsub hx.ordered.topological
      · intro w hw
        rw [hx.active, erase_cons_head]
        rcases mem_cons.mp hw with rfl | hw
        · exact hactive
        · intro hmem
          refine hx.ordered.apart w hw ?_
          rw [hx.active]
          exact .tail _ hmem

/-- **A search that comes back to nothing** has explored what it can reach, in topological order. -/
theorem topological_of_findCycle (hnodes : ∀ v, succ v ⊆ nodes) (ha : a ∈ nodes)
    (h : findCycle succ nodes a = none) : ∃ l, Topological succ l ∧ a ∈ l ∧ l ⊆ nodes := by
  have hstart : Marks.Ordered succ {} := ⟨.nil, fun v hv ↦ nomatch hv⟩
  have hfuel : unreached nodes ([] ++ []) ≤ nodes.length + 1 :=
    Nat.le_trans countP_le_length (Nat.le_succ _)
  obtain ⟨hx, hmem⟩ := visit_explores hnodes hstart ha not_mem_nil not_mem_nil hfuel h
  refine ⟨_, hx.ordered.topological.filter (fun v ↦ v ∈ nodes) ?_, ?_, ?_⟩
  · exact fun v w hw ↦ decide_eq_true (hnodes v hw)
  · exact mem_filter.mpr ⟨hmem, decide_eq_true ha⟩
  · exact fun v hv ↦ of_decide_eq_true (mem_filter.mp hv).2

end Digraph
