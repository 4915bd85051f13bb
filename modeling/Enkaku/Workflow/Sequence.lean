import Enkaku.Workflow.Linear

/-!
# Reordering a sequence

`planSequence` of `workflow-linear.ts`: the chain of ids a new order of the actions is wired through,
and the gaps that no longer belong anywhere.

A gap moves with the action it precedes.  Whether a `delay` is a gap is read off its place, though, so
what `foldGaps` makes of the chain can differ from the order asked for: a delay that was an action, by
standing first or last or behind another delay, becomes the gap of the action it is moved before.
`FoldsBack` says when this does not happen.
-/

set_option autoImplicit false

namespace Enkaku

open List

/-- `gapOf.get(id)`; of two steps with one id the later one counts. -/
def gapOf (steps : List LinearStep) (id : String) : Option WorkflowNode :=
  (steps.reverse.find? fun s ↦ s.node.id = id).bind (·.delayBefore)

/-- What `planSequence` returns. -/
structure SequencePlan where
  chain : List String
  stranded : List String
  deriving DecidableEq, Repr

/-- `planSequence`. -/
def planSequence (steps : List LinearStep) (order : List WorkflowNode) : SequencePlan :=
  let chain := order.zipIdx.flatMap fun p ↦
    (if 0 < p.2 then ((gapOf steps p.1.id).map (·.id)).toList else []) ++ [p.1.id]
  let gaps := steps.filterMap (·.delayBefore)
  { chain := chain
    stranded := (gaps.filter fun d ↦ !chain.contains d.id).map (·.id) }

/-- The nodes of a chain, among those of the view. -/
def chainNodes (nodes : List WorkflowNode) (chain : List String) : List WorkflowNode :=
  chain.filterMap fun id ↦ nodes.find? (·.id = id)

/-- Every delay that stands between two others in the order has a gap of its own. -/
def FoldsBack (steps : List LinearStep) (order : List WorkflowNode) : Prop :=
  ∀ before node after, order = before ++ node :: after → before ≠ [] → after ≠ [] →
    (readGap node).isSome → (gapOf steps node.id).isSome

/-! ## The rows of a plan -/

/-- The rows in a new order: every action with its gap. -/
def rowsInOrder (steps : List LinearStep) (order : List WorkflowNode) : List LinearStep :=
  order.map fun n ↦ ⟨n, gapOf steps n.id⟩

/-- The first row without its gap. -/
def dropFirstGap : List LinearStep → List LinearStep
  | [] => []
  | s :: rows => ⟨s.node, none⟩ :: rows

@[simp] theorem rowNodes_nil : rowNodes [] = [] := rfl

@[simp] theorem rowNodes_cons (s : LinearStep) (rows : List LinearStep) :
    rowNodes (s :: rows) = s.delayBefore.toList ++ s.node :: rowNodes rows := by
  simp [rowNodes]

theorem map_node_dropFirstGap (rows : List LinearStep) :
    (dropFirstGap rows).map (·.node) = rows.map (·.node) := by
  cases rows <;> rfl

theorem rowNodes_dropFirstGap_sublist (rows : List LinearStep) :
    (rowNodes (dropFirstGap rows)).Sublist (rowNodes rows) := by
  cases rows with
  | nil => exact .refl _
  | cons s rows =>
    rw [dropFirstGap, rowNodes_cons, rowNodes_cons]
    exact sublist_append_right _ _

/-- The chain is the rows, written out. -/
theorem chain_eq_rowNodes (steps : List LinearStep) (order : List WorkflowNode) :
    (planSequence steps order).chain = (rowNodes (dropFirstGap (rowsInOrder steps order))).map (·.id) := by
  have hlater : ∀ (order : List WorkflowNode) (k : Nat), 0 < k →
      ((order.zipIdx k).flatMap fun p ↦
        (if 0 < p.2 then ((gapOf steps p.1.id).map (·.id)).toList else []) ++ [p.1.id]) =
      (rowNodes (rowsInOrder steps order)).map (·.id) := by
    intro order
    induction order with
    | nil => exact fun _ _ ↦ rfl
    | cons n order ih =>
      intro k hk
      rw [zipIdx_cons, flatMap_cons, ih (k + 1) (Nat.succ_pos k), if_pos hk]
      simp [rowsInOrder, Option.toList_map]
  cases order with
  | nil => rfl
  | cons n order =>
    have hrest := hlater order 1 Nat.one_pos
    simp only [planSequence, zipIdx_cons, flatMap_cons, Nat.zero_add, hrest]
    simp [rowsInOrder, dropFirstGap]

section View

variable {steps : List LinearStep}

/-- Every step of a view finds its own gap. -/
theorem gapOf_of_mem (hids : (steps.map (·.node.id)).Nodup) {s : LinearStep} (hs : s ∈ steps) :
    gapOf steps s.node.id = s.delayBefore := by
  have hfind : steps.reverse.find? (fun t ↦ t.node.id = s.node.id) = some s := by
    cases h : steps.reverse.find? (fun t ↦ t.node.id = s.node.id) with
    | none =>
      have := find?_eq_none.mp h s (mem_reverse.mpr hs)
      simp at this
    | some t =>
      have ht : t ∈ steps := mem_reverse.mp (mem_of_find?_eq_some h)
      have hid : t.node.id = s.node.id := by simpa using find?_some h
      rw [inj_on_of_nodup_map hids ht hs hid]
  rw [gapOf, hfind]
  rfl

/-- The rows in a new order are the steps in a new order. -/
theorem perm_rowsInOrder (hids : (steps.map (·.node.id)).Nodup) {order : List WorkflowNode}
    (horder : order.Perm (steps.map (·.node))) : (rowsInOrder steps order).Perm steps := by
  have hself : (steps.map (·.node)).map (fun n ↦ LinearStep.mk n (gapOf steps n.id)) = steps := by
    rw [map_map]
    conv_rhs => rw [← map_id steps]
    refine map_congr_left fun s hs ↦ ?_
    rw [Function.comp_apply, gapOf_of_mem hids hs, id]
  have h := horder.map fun n ↦ LinearStep.mk n (gapOf steps n.id)
  rwa [hself] at h

theorem map_node_rowsInOrder (steps : List LinearStep) (order : List WorkflowNode) :
    (rowsInOrder steps order).map (·.node) = order := by
  rw [rowsInOrder, map_map]
  exact map_id order

end View

/-! ## Conservation -/

variable {rows : List LinearStep}

/-- Among the ids of the rows, those of the actions are the actions in order. -/
theorem filter_rowNodes {p : String → Bool} (hnode : ∀ s ∈ rows, p s.node.id)
    (hgap : ∀ s ∈ rows, ∀ g ∈ s.delayBefore, ¬ p g.id) :
    ((rowNodes rows).map (·.id)).filter p = rows.map (·.node.id) := by
  induction rows with
  | nil => rfl
  | cons s rows ih =>
    rw [forall_mem_cons] at hnode hgap
    have hfirst : (s.delayBefore.toList.map (·.id)).filter p = [] := by
      cases h : s.delayBefore with
      | none => rfl
      | some g => simp [hgap.1 g h]
    rw [rowNodes_cons, map_append, filter_append, hfirst, map_cons,
      filter_cons_of_pos hnode.1, ih hnode.2 hgap.2]
    rfl

variable {s : LinearStep}

/-- A gap among the rows stands right before its action. -/
theorem infix_of_gap (hs : s ∈ rows) {g : WorkflowNode} (hg : s.delayBefore = some g) :
    [g, s.node] <:+: rowNodes rows := by
  induction rows with
  | nil => exact nomatch hs
  | cons t rows ih =>
    rw [rowNodes_cons]
    rcases mem_cons.mp hs with rfl | hs
    · exact ⟨[], rowNodes rows, by simp [hg]⟩
    · exact (ih hs).trans (suffix_append_of_suffix (suffix_cons _ _)).isInfix

/-! ## Folding a chain back -/

variable {acc : List LinearStep}

theorem foldGap_gap {node : WorkflowNode} (hacc : acc ≠ []) (hgap : (readGap node).isSome) :
    foldGap (acc, none) node = (acc, some node) := by
  rw [foldGap, if_pos (by simp [hgap, hacc])]

theorem foldGap_action {node : WorkflowNode} (hgap : readGap node = none)
    (pending : Option WorkflowNode) :
    foldGap (acc, pending) node = (acc ++ [⟨node, pending⟩], none) := by
  rw [foldGap, if_neg (by simp [hgap])]

theorem foldGap_pending (g node : WorkflowNode) :
    foldGap (acc, some g) node = (acc ++ [⟨node, some g⟩], none) := by
  rw [foldGap, if_neg (by simp)]

/-- A row whose gap is a gap, or whose action is none, is read back as it was. -/
def IsRow (s : LinearStep) : Prop :=
  (∀ g ∈ s.delayBefore, (readGap g).isSome) ∧ (s.delayBefore = none → readGap s.node = none)

/-- Such rows are read back one by one. -/
theorem foldl_rows (hrows : ∀ s ∈ rows, IsRow s) (hacc : acc ≠ []) :
    (rowNodes rows).foldl foldGap (acc, none) = (acc ++ rows, none) := by
  induction rows generalizing acc with
  | nil => simp
  | cons s rows ih =>
    obtain ⟨⟨hgap, hnode⟩, hrest⟩ := forall_mem_cons.mp hrows
    have hnext : acc ++ [s] ≠ [] := by simp
    have hone : (s.delayBefore.toList ++ [s.node]).foldl foldGap (acc, none) = (acc ++ [s], none) := by
      obtain ⟨node, delayBefore⟩ := s
      cases delayBefore with
      | none =>
        rw [Option.toList_none, nil_append, foldl_cons, foldl_nil, foldGap_action (hnode rfl)]
      | some g =>
        rw [Option.toList_some, singleton_append, foldl_cons, foldl_cons, foldl_nil,
          foldGap_gap hacc (hgap g rfl), foldGap_pending]
    rw [rowNodes_cons, ← singleton_append, ← append_assoc, foldl_append, hone,
      ih hrest hnext, append_assoc]
    rfl

/-- What has been read stays. -/
theorem prefix_foldl_foldGap (nodes : List WorkflowNode) (s : List LinearStep × Option WorkflowNode) :
    s.1 <+: (nodes.foldl foldGap s).1 := by
  induction nodes generalizing s with
  | nil => exact prefix_refl _
  | cons node nodes ih =>
    refine .trans ?_ (ih _)
    rw [foldGap]
    split_ifs
    · exact prefix_refl _
    · exact prefix_append _ _

theorem prefix_foldGaps (nodes : List WorkflowNode) :
    (nodes.foldl foldGap ([], none)).1 <+: (foldGaps nodes).1 := by
  rw [foldGaps]
  cases (nodes.foldl foldGap ([], none)).2 with
  | none => exact prefix_refl _
  | some gap => exact prefix_append _ _

/-- The gaps of a view are gaps. -/
theorem readGap_of_foldGaps {ordered : List WorkflowNode} (hs : s ∈ (foldGaps ordered).1)
    {g : WorkflowNode} (hg : s.delayBefore = some g) : (readGap g).isSome := by
  have hfold : ∀ (nodes : List WorkflowNode) (t : List LinearStep × Option WorkflowNode),
      (∀ s ∈ t.1, ∀ g ∈ s.delayBefore, (readGap g).isSome) → (∀ g ∈ t.2, (readGap g).isSome) →
      (∀ s ∈ (nodes.foldl foldGap t).1, ∀ g ∈ s.delayBefore, (readGap g).isSome) := by
    intro nodes
    induction nodes with
    | nil => exact fun _ h _ ↦ h
    | cons node nodes ih =>
      intro t hsteps hpending
      rw [foldl_cons]
      refine ih _ ?_ ?_
      · rw [foldGap]
        split_ifs
        · exact hsteps
        · exact forall_mem_append.mpr ⟨hsteps, forall_mem_singleton.mpr hpending⟩
      · rw [foldGap]
        split_ifs with h
        · rintro g hg
          cases hg
          exact (Bool.and_eq_true_iff.mp (Bool.and_eq_true_iff.mp h).1).1
        · rintro _ ⟨⟩
  have hall := hfold ordered ([], none) (by simp) (by simp)
  rw [foldGaps] at hs
  cases hpending : (ordered.foldl foldGap ([], none)).2 with
  | none =>
    rw [hpending] at hs
    exact hall s hs g hg
  | some gap =>
    rw [hpending] at hs
    rcases mem_append.mp hs with hs | hs
    · exact hall s hs g hg
    · rw [mem_singleton.mp hs] at hg
      cases hg

/-- A first action is an action. -/
theorem foldGap_first (first : WorkflowNode) : foldGap ([], none) first = ([⟨first, none⟩], none) := by
  rw [foldGap, if_neg (by simp)]
  rfl

theorem foldl_row (hs : IsRow s) (hacc : acc ≠ []) (nodes : List WorkflowNode) :
    (s.delayBefore.toList ++ s.node :: nodes).foldl foldGap (acc, none) =
      nodes.foldl foldGap (acc ++ [s], none) := by
  have h := foldl_rows (forall_mem_singleton.mpr hs) hacc
  rw [rowNodes_cons, rowNodes_nil] at h
  rw [← singleton_append, ← append_assoc, foldl_append, h]

/-- A delay between two others that has no gap of its own becomes the gap of what comes after it. -/
theorem exists_gap_of_foldl (hgaps : ∀ s ∈ rows, ∀ g ∈ s.delayBefore, (readGap g).isSome)
    {before after : List LinearStep} (hrows : rows = before ++ s :: after) (hafter : after ≠ [])
    (hshape : (readGap s.node).isSome) (hnone : s.delayBefore = none) (hacc : acc ≠ []) :
    ∃ r ∈ ((rowNodes rows).foldl foldGap (acc, none)).1, ∃ t ∈ rows, r.delayBefore = some t.node := by
  induction before generalizing rows acc with
  | nil =>
    obtain ⟨u, after, rfl⟩ := exists_cons_of_ne_nil hafter
    obtain ⟨x, nodes, hx⟩ : ∃ x nodes, rowNodes (u :: after) = x :: nodes :=
      exists_cons_of_ne_nil (by simp)
    subst hrows
    rw [nil_append, rowNodes_cons, hnone, hx, Option.toList_none, nil_append, foldl_cons,
      foldl_cons, foldGap_gap hacc hshape, foldGap_pending]
    exact ⟨⟨x, some s.node⟩, (prefix_foldl_foldGap _ _).subset (by simp), s, mem_cons_self, rfl⟩
  | cons t before ih =>
    subst hrows
    obtain ⟨htgaps, hgaps⟩ := forall_mem_cons.mp hgaps
    by_cases ht : IsRow t
    · rw [cons_append, rowNodes_cons, foldl_row ht hacc]
      obtain ⟨r, hr, u, hu, hdelay⟩ := ih hgaps rfl (show acc ++ [t] ≠ [] by simp)
      exact ⟨r, hr, u, .tail _ hu, hdelay⟩
    · -- The row before it is one of these itself.
      have hbad : t.delayBefore = none ∧ (readGap t.node).isSome := by
        by_contra hnot
        refine ht ⟨htgaps, fun hdelay ↦ ?_⟩
        cases hread : readGap t.node with
        | none => rfl
        | some g => exact absurd ⟨hdelay, by simp [hread]⟩ hnot
      obtain ⟨x, nodes, hx⟩ : ∃ x nodes, rowNodes (before ++ s :: after) = x :: nodes :=
        exists_cons_of_ne_nil (by simp [rowNodes])
      rw [cons_append, rowNodes_cons, hbad.1, hx, Option.toList_none, nil_append,
        foldl_cons, foldl_cons, foldGap_gap hacc hbad.2, foldGap_pending]
      exact ⟨⟨x, some t.node⟩, (prefix_foldl_foldGap _ _).subset (by simp), t, mem_cons_self, rfl⟩

/-- The chain of a first row and later ones is read back exactly when none of the later ones, the
last one apart, is a delay without a gap. -/
theorem foldGaps_rows_iff {first : WorkflowNode}
    (hids : ((rowNodes (⟨first, none⟩ :: rows)).map (·.id)).Nodup)
    (hgaps : ∀ s ∈ rows, ∀ g ∈ s.delayBefore, (readGap g).isSome) :
    (foldGaps (rowNodes (⟨first, none⟩ :: rows))).1.map (·.node) = first :: rows.map (·.node) ↔
      ∀ before s after, rows = before ++ s :: after → after ≠ [] →
        (readGap s.node).isSome → s.delayBefore.isSome := by
  have hfirst : ∀ nodes : List WorkflowNode, (first :: nodes).foldl foldGap ([], none) =
      nodes.foldl foldGap ([⟨first, none⟩], none) := fun nodes ↦ by
    rw [foldl_cons, foldGap_first]
  have hrow : ∀ s ∈ rows, ((readGap s.node).isSome → s.delayBefore.isSome) → IsRow s := by
    intro s hs himp
    refine ⟨hgaps s hs, fun hnone ↦ Option.not_isSome_iff_eq_none.mp fun hshape ↦ ?_⟩
    simpa [hnone] using himp hshape
  rw [rowNodes_cons, Option.toList_none, nil_append] at hids ⊢
  constructor
  · intro hback before s after hsplit hafter hshape
    by_contra hnone
    obtain ⟨r, hr, t, ht, hdelay⟩ := exists_gap_of_foldl hgaps hsplit hafter hshape
      (Option.not_isSome_iff_eq_none.mp hnone) (cons_ne_nil ⟨first, none⟩ [])
    rw [← hfirst] at hr
    have hr := (prefix_foldGaps _).subset hr
    have hplaces := (perm_rowPlaces (foldGaps (first :: rowNodes rows)).1).nodup_iff.mpr
      (by rwa [rowNodes_foldGaps])
    rw [rowPlaces, nodup_append] at hplaces
    have hnode : t.node.id ∈ (foldGaps (first :: rowNodes rows)).1.map (·.node.id) := by
      have : t.node ∈ (foldGaps (first :: rowNodes rows)).1.map (·.node) := by
        rw [hback]
        exact .tail _ (mem_map_of_mem ht)
      obtain ⟨u, hu, heq⟩ := mem_map.mp this
      exact mem_map.mpr ⟨u, hu, by rw [heq]⟩
    exact hplaces.2.2 _ hnode _ (mem_filterMap.mpr ⟨r, hr, by rw [hdelay]; rfl⟩) rfl
  · intro hshapes
    rcases eq_nil_or_concat rows with rfl | ⟨init, last, rfl⟩
    · rw [foldGaps, hfirst]
      rfl
    · rw [concat_eq_append] at *
      have hinit : ∀ s ∈ init, IsRow s := by
        intro s hs
        obtain ⟨before, after, rfl⟩ := append_of_mem hs
        exact hrow s (by simp) (hshapes before s (after ++ [last]) (by simp) (by simp))
      by_cases hlast : IsRow last
      · have hall : ∀ s ∈ init ++ [last], IsRow s :=
          forall_mem_append.mpr ⟨hinit, forall_mem_singleton.mpr hlast⟩
        rw [foldGaps, hfirst, foldl_rows hall (by simp)]
        rfl
      · have hbad : last.delayBefore = none ∧ (readGap last.node).isSome := by
          by_contra hnot
          refine hlast (hrow last (by simp) fun hshape ↦ ?_)
          exact Option.ne_none_iff_isSome.mp fun hnone ↦ hnot ⟨hnone, hshape⟩
        rw [foldGaps, hfirst, rowNodes_append, foldl_append, foldl_rows hinit (by simp),
          rowNodes_cons, hbad.1, Option.toList_none, nil_append, rowNodes_nil, foldl_cons,
          foldl_nil, foldGap_gap (by simp) hbad.2]
        simp

/-! ## The plan -/

/-- The nodes of a chain are found by their ids. -/
theorem chainNodes_map {nodes : List WorkflowNode} (hids : (nodes.map (·.id)).Nodup)
    {chain : List WorkflowNode} (hsub : ∀ n ∈ chain, n ∈ nodes) :
    chainNodes nodes (chain.map (·.id)) = chain := by
  have hfind : ∀ n ∈ chain, nodes.find? (·.id = n.id) = some n := by
    intro n hn
    cases h : nodes.find? (·.id = n.id) with
    | none => exact absurd (find?_eq_none.mp h n (hsub n hn)) (by simp)
    | some m =>
      have hm : m.id = n.id := by simpa using find?_some h
      rw [inj_on_of_nodup_map hids (mem_of_find?_eq_some h) (hsub n hn) hm]
  rw [chainNodes, filterMap_map]
  calc chain.filterMap (fun n ↦ nodes.find? (·.id = n.id))
      = chain.filterMap some := filterMap_congr hfind
    _ = chain := filterMap_some

section Plan

variable {ordered order : List WorkflowNode}

section

variable (hids : (ordered.map (·.id)).Nodup)
include hids

/-- The actions and the gaps of a view all differ. -/
theorem nodup_rowPlaces : (rowPlaces (foldGaps ordered).1).Nodup :=
  (perm_rowPlaces _).nodup_iff.mpr (by rwa [rowNodes_foldGaps])

theorem nodup_node_ids : ((foldGaps ordered).1.map (·.node.id)).Nodup :=
  (nodup_append.mp (nodup_rowPlaces hids)).1

/-- The rows of an order are the run order, in another order. -/
theorem perm_rowNodes_rowsInOrder (horder : order.Perm ((foldGaps ordered).1.map (·.node))) :
    (rowNodes (rowsInOrder (foldGaps ordered).1 order)).Perm ordered := by
  have hperm := perm_rowsInOrder (nodup_node_ids hids) horder
  have h : (rowNodes (rowsInOrder (foldGaps ordered).1 order)).Perm (rowNodes (foldGaps ordered).1) :=
    hperm.flatMap_right _
  rwa [rowNodes_foldGaps] at h

theorem nodup_rowsInOrder_ids (horder : order.Perm ((foldGaps ordered).1.map (·.node))) :
    ((rowNodes (dropFirstGap (rowsInOrder (foldGaps ordered).1 order))).map (·.id)).Nodup :=
  (((perm_rowNodes_rowsInOrder hids horder).map _).nodup_iff.mpr hids).sublist
    ((rowNodes_dropFirstGap_sublist _).map _)

end

variable {s : LinearStep}

theorem mem_dropFirstGap {rows : List LinearStep} (hs : s ∈ dropFirstGap rows) :
    ∃ t ∈ rows, t.node = s.node ∧ ∀ g ∈ s.delayBefore, t.delayBefore = some g := by
  cases rows with
  | nil => exact nomatch hs
  | cons t rows =>
    rcases mem_cons.mp hs with rfl | hs
    · exact ⟨t, mem_cons_self, rfl, by simp⟩
    · exact ⟨s, .tail _ hs, rfl, fun g hg ↦ hg⟩

variable {g : WorkflowNode}

/-- No id of a gap is the id of an action. -/
theorem gap_id_not_node (hids : (ordered.map (·.id)).Nodup) (hs : s ∈ (foldGaps ordered).1)
    (hg : s.delayBefore = some g) : g.id ∉ (foldGaps ordered).1.map (·.node.id) := by
  intro hmem
  refine (nodup_append.mp (nodup_rowPlaces hids)).2.2 _ hmem _ ?_ rfl
  exact mem_filterMap.mpr ⟨s, hs, by rw [hg]; rfl⟩

/-- A gap has one step. -/
theorem step_of_gap {steps : List LinearStep} (hplaces : (rowPlaces steps).Nodup) {t : LinearStep}
    (hs : s ∈ steps) (ht : t ∈ steps) {g' : WorkflowNode} (hg : s.delayBefore = some g)
    (hg' : t.delayBefore = some g') (hid : g.id = g'.id) : s = t := by
  have hgaps := pairwise_filterMap.mp (nodup_append.mp hplaces).2.1
  have hsg : s.delayBefore.map (·.id) = some g.id := by rw [hg]; rfl
  have htg : t.delayBefore.map (·.id) = some g.id := by rw [hg', hid]; rfl
  by_contra hne
  obtain ⟨before, after, rfl⟩ := append_of_mem hs
  rw [pairwise_append, pairwise_cons] at hgaps
  rcases mem_append.mp ht with ht | ht
  · exact hgaps.2.2 t ht s (.head _) _ htg _ hsg rfl
  · rcases mem_cons.mp ht with rfl | ht
    · exact hne rfl
    · exact hgaps.2.1.1 t ht _ hsg _ htg rfl

variable (hids : (ordered.map (·.id)).Nodup) (horder : order.Perm ((foldGaps ordered).1.map (·.node)))

include hids horder

/-- The actions stand in the order asked for. -/
theorem chain_actions :
    (planSequence (foldGaps ordered).1 order).chain.filter
      ((foldGaps ordered).1.map (·.node.id)).contains = order.map (·.id) := by
  have hrows := perm_rowsInOrder (nodup_node_ids hids) horder
  rw [chain_eq_rowNodes, filter_rowNodes]
  · calc (dropFirstGap (rowsInOrder (foldGaps ordered).1 order)).map (·.node.id)
        = ((dropFirstGap (rowsInOrder (foldGaps ordered).1 order)).map (·.node)).map (·.id) := by
          rw [map_map]
          rfl
      _ = order.map (·.id) := by rw [map_node_dropFirstGap, map_node_rowsInOrder]
  · intro s hs
    obtain ⟨t, ht, hnode, -⟩ := mem_dropFirstGap hs
    rw [← hnode, contains_iff_mem]
    exact mem_map_of_mem (hrows.subset ht)
  · intro s hs g hg
    obtain ⟨t, ht, -, hgap⟩ := mem_dropFirstGap hs
    rw [contains_iff_mem]
    exact gap_id_not_node hids (hrows.subset ht) (hgap g hg)

/-- A gap in the chain stands right before the action it belonged to. -/
theorem chain_gap (hs : s ∈ (foldGaps ordered).1) (hg : s.delayBefore = some g)
    (hmem : g.id ∈ (planSequence (foldGaps ordered).1 order).chain) :
    [g.id, s.node.id] <:+: (planSequence (foldGaps ordered).1 order).chain := by
  have hrows := perm_rowsInOrder (nodup_node_ids hids) horder
  have hnot := gap_id_not_node hids hs hg
  have hplaces := nodup_rowPlaces hids
  rw [chain_eq_rowNodes] at hmem ⊢
  have hperm := perm_rowPlaces (dropFirstGap (rowsInOrder (foldGaps ordered).1 order))
  rcases mem_append.mp (hperm.mem_iff.mpr hmem) with hnode | hgap
  · obtain ⟨t, ht, hid⟩ := mem_map.mp hnode
    obtain ⟨u, hu, hnode, -⟩ := mem_dropFirstGap ht
    exact absurd (mem_map.mpr ⟨u, hrows.subset hu, by rw [hnode, hid]⟩) hnot
  · obtain ⟨t, ht, hid⟩ := mem_filterMap.mp hgap
    obtain ⟨g', hg', hid⟩ := Option.map_eq_some_iff.mp hid
    obtain ⟨u, hu, hnode, hdelay⟩ := mem_dropFirstGap ht
    -- A gap has one row.
    have hus : u = s := step_of_gap hplaces (hrows.subset hu) hs (hdelay g' hg') hg hid
    have hinfix := (infix_of_gap ht hg').map (fun n : WorkflowNode ↦ n.id)
    rw [map_cons, map_singleton, hid, ← hnode, hus] at hinfix
    exact hinfix

/-- The chain and what is left over are all of the view. -/
theorem perm_chain_stranded :
    ((planSequence (foldGaps ordered).1 order).chain ++
      (planSequence (foldGaps ordered).1 order).stranded).Perm (ordered.map (·.id)) := by
  set view := (foldGaps ordered).1 with hview
  have hrows := perm_rowsInOrder (nodup_node_ids hids) horder
  have hplaces := nodup_rowPlaces hids
  have hchain : (planSequence view order).chain.Nodup := by
    rw [chain_eq_rowNodes]
    exact nodup_rowsInOrder_ids hids horder
  have hsub : ∀ id ∈ (planSequence view order).chain, id ∈ ordered.map (·.id) := by
    intro id hid
    rw [chain_eq_rowNodes] at hid
    exact ((perm_rowNodes_rowsInOrder hids horder).map _).subset
      (((rowNodes_dropFirstGap_sublist _).map _).subset hid)
  have hstranded : ∀ id, id ∈ (planSequence view order).stranded ↔
      id ∈ view.filterMap (fun s ↦ s.delayBefore.map (·.id)) ∧
        id ∉ (planSequence view order).chain := by
    intro id
    simp only [planSequence, mem_map, mem_filter, mem_filterMap, Option.map_eq_some_iff,
      Bool.not_eq_true', contains_eq_mem, decide_eq_false_iff_not]
    constructor
    · rintro ⟨g, ⟨⟨s, hs, hg⟩, hnot⟩, rfl⟩
      exact ⟨⟨s, hs, g, hg, rfl⟩, hnot⟩
    · rintro ⟨⟨s, hs, g, hg, rfl⟩, hnot⟩
      exact ⟨g, ⟨⟨s, hs, hg⟩, hnot⟩, rfl⟩
  have hnodup : (planSequence view order).stranded.Nodup := by
    have hgaps : ((view.filterMap (·.delayBefore)).map (·.id)).Nodup := by
      rw [map_filterMap]
      exact (nodup_append.mp hplaces).2.1
    exact hgaps.sublist (filter_sublist.map _)
  refine (perm_ext_iff_of_nodup ?_ hids).mpr fun id ↦ ?_
  · refine nodup_append.mpr ⟨hchain, hnodup, fun a ha b hb heq ↦ ?_⟩
    exact ((hstranded b).mp hb).2 (heq ▸ ha)
  · have hall : id ∈ ordered.map (·.id) ↔ id ∈ rowPlaces view := by
      rw [(perm_rowPlaces view).mem_iff, hview, rowNodes_foldGaps]
    rw [mem_append, hstranded]
    constructor
    · rintro (hid | ⟨hid, -⟩)
      · exact hsub id hid
      · exact hall.mpr (mem_append_right _ hid)
    · intro hid
      by_cases hmem : id ∈ (planSequence view order).chain
      · exact .inl hmem
      · rcases mem_append.mp (hall.mp hid) with hnode | hgap
        · -- Every action is in the chain.
          have haction : id ∈ order.map (·.id) := by
            obtain ⟨s, hs, rfl⟩ := mem_map.mp hnode
            exact mem_map_of_mem (horder.symm.subset (mem_map_of_mem hs))
          rw [← chain_actions hids horder] at haction
          exact .inl (mem_filter.mp haction).1
        · exact .inr ⟨hgap, hmem⟩

/-- The nodes of the chain are the rows of the plan. -/
theorem chainNodes_chain :
    chainNodes ordered (planSequence (foldGaps ordered).1 order).chain =
      rowNodes (dropFirstGap (rowsInOrder (foldGaps ordered).1 order)) := by
  rw [chain_eq_rowNodes, chainNodes_map hids]
  exact fun n hn ↦ (perm_rowNodes_rowsInOrder hids horder).subset
    ((rowNodes_dropFirstGap_sublist _).subset hn)

/-- What is read back is the order, exactly when every delay between two others has a gap. -/
theorem foldGaps_chain_iff :
    (foldGaps (chainNodes ordered (planSequence (foldGaps ordered).1 order).chain)).1.map (·.node) =
      order ↔ FoldsBack (foldGaps ordered).1 order := by
  have hrows := perm_rowsInOrder (nodup_node_ids hids) horder
  have hnodup := nodup_rowsInOrder_ids hids horder
  rw [chainNodes_chain hids horder]
  cases order with
  | nil =>
    refine iff_of_true rfl ?_
    rintro before node after hnil -
    exact absurd hnil.symm (by simp)
  | cons first rest =>
    have hgaps : ∀ s ∈ rowsInOrder (foldGaps ordered).1 rest, ∀ g ∈ s.delayBefore, (readGap g).isSome :=
      fun s hs g hg ↦ readGap_of_foldGaps (hrows.subset (.tail _ hs)) hg
    have hiff : (foldGaps (rowNodes (⟨first, none⟩ :: rowsInOrder (foldGaps ordered).1 rest))).1.map (·.node) =
        first :: (rowsInOrder (foldGaps ordered).1 rest).map (·.node) ↔ _ := foldGaps_rows_iff hnodup hgaps
    rw [map_node_rowsInOrder] at hiff
    refine hiff.trans ⟨fun h before node after hsplit hbefore hafter hshape ↦ ?_,
      fun h before s after hsplit hafter hshape ↦ ?_⟩
    · obtain ⟨x, before, rfl⟩ := exists_cons_of_ne_nil hbefore
      obtain ⟨-, hrest⟩ := List.cons.inj hsplit
      refine h (rowsInOrder (foldGaps ordered).1 before) ⟨node, gapOf (foldGaps ordered).1 node.id⟩
        (rowsInOrder (foldGaps ordered).1 after) ?_
        (by simpa [rowsInOrder] using hafter) hshape
      rw [hrest]
      exact map_append
    · obtain ⟨before', rest', hrest, hb, htail⟩ := map_eq_append_iff.mp hsplit
      obtain ⟨node, after', rfl, rfl, ha⟩ := map_eq_cons_iff.mp htail
      refine h (first :: before') node after' (by rw [hrest]; rfl) (by simp) ?_ hshape
      rintro rfl
      exact hafter ha.symm

end Plan

/-- **Reordering a sequence.**  Writing the steps of a view out gives the run order back.  The chain of
any new order has the actions in that order, each gap at most once and right before the action it
belonged to, and together with the stranded gaps it is all of the view.  It reads back as the new
order exactly when every delay it puts between two others has a gap of its own. -/
theorem planSequence_conserves {ordered order : List WorkflowNode} (hids : (ordered.map (·.id)).Nodup)
    (horder : order.Perm ((foldGaps ordered).1.map (·.node))) :
    rowNodes (foldGaps ordered).1 = ordered ∧
      (planSequence (foldGaps ordered).1 order).chain.filter
        ((foldGaps ordered).1.map (·.node.id)).contains = order.map (·.id) ∧
      (planSequence (foldGaps ordered).1 order).chain.Nodup ∧
      (∀ s ∈ (foldGaps ordered).1, ∀ g, s.delayBefore = some g →
        g.id ∈ (planSequence (foldGaps ordered).1 order).chain →
          [g.id, s.node.id] <:+: (planSequence (foldGaps ordered).1 order).chain) ∧
      ((planSequence (foldGaps ordered).1 order).chain ++
        (planSequence (foldGaps ordered).1 order).stranded).Perm (ordered.map (·.id)) ∧
      ((foldGaps (chainNodes ordered (planSequence (foldGaps ordered).1 order).chain)).1.map (·.node) =
        order ↔ FoldsBack (foldGaps ordered).1 order) := by
  refine ⟨rowNodes_foldGaps ordered, chain_actions hids horder, ?_,
    fun s hs g hg hmem ↦ chain_gap hids horder hs hg hmem, perm_chain_stranded hids horder,
    foldGaps_chain_iff hids horder⟩
  rw [chain_eq_rowNodes]
  exact nodup_rowsInOrder_ids hids horder

/-- An action, and a wait of one second. -/
def sequenceAction (id : String) : WorkflowNode := ⟨id, true, .step (.set ⟨[], false, none⟩)⟩

def sequenceWait (id : String) : WorkflowNode :=
  ⟨id, true, .step (.delay ⟨.const (.num 1000), 1000, none⟩)⟩

/-- Two actions with a wait between them, and a wait at the end. -/
def waitingSequence : List WorkflowNode :=
  [sequenceAction "a", sequenceWait "w", sequenceAction "b", sequenceWait "d"]

theorem planSequence_conserves_swapped :
    (planSequence (foldGaps waitingSequence).1
      [sequenceAction "b", sequenceAction "a", sequenceWait "d"]).chain = ["b", "a", "d"] ∧
    (planSequence (foldGaps waitingSequence).1
      [sequenceAction "b", sequenceAction "a", sequenceWait "d"]).stranded = ["w"] ∧
    ((foldGaps (chainNodes waitingSequence (planSequence (foldGaps waitingSequence).1
      [sequenceAction "b", sequenceAction "a", sequenceWait "d"]).chain)).1.map (·.node) =
        [sequenceAction "b", sequenceAction "a", sequenceWait "d"] ↔
      FoldsBack (foldGaps waitingSequence).1
        [sequenceAction "b", sequenceAction "a", sequenceWait "d"]) :=
  ⟨by decide +kernel, by decide +kernel,
    (@planSequence_conserves waitingSequence
      [sequenceAction "b", sequenceAction "a", sequenceWait "d"] (by decide +kernel)
      (List.Perm.swap (sequenceAction "a") (sequenceAction "b") [sequenceWait "d"])).2.2.2.2.2⟩

/-- Moved between two actions, the wait at the end is no action any more. -/
theorem planSequence_folds_wait :
    ¬ ∀ ordered order : List WorkflowNode, (ordered.map (·.id)).Nodup →
      order.Perm ((foldGaps ordered).1.map (·.node)) →
        (foldGaps (chainNodes ordered (planSequence (foldGaps ordered).1 order).chain)).1.map (·.node) =
          order := by
  intro h
  have hback := h [sequenceAction "a", sequenceAction "b", sequenceWait "d"]
    [sequenceAction "a", sequenceWait "d", sequenceAction "b"] (by decide +kernel)
    ((List.Perm.swap (sequenceAction "b") (sequenceWait "d") []).cons (sequenceAction "a"))
  exact absurd (congrArg List.length hback) (by decide +kernel)

end Enkaku
