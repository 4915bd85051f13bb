import Enkaku.Lib.OrdMap
import Mathlib.Data.List.Induction

/-!
# The layout of an upgraded document

`rankAndRow` of `workflows/upgrade.ts`: the rank of a node is how far it is along forward edges from
the first, its row the place among the nodes of that rank.

A rank is no higher than the place of the node in the array (`ranksFit_ranks`), so that no layout leaves
the canvas (`rankAndRow_le`).
-/

set_option autoImplicit false

namespace Enkaku.RankLayout

def columnWidthPx : ℕ := 240

def rowHeightPx : ℕ := 130

structure RankEdge where
  from_ : String
  to_ : String

/-- Where a node stands. -/
structure RankPoint where
  x : ℕ
  y : ℕ

/-- `indexOf`; of an id that is there twice, the last place. -/
def indexOf (ids : List String) : List (String × ℕ) :=
  ids.zipIdx.foldl (fun m p ↦ OrdMap.set p.1 p.2 m) []

/-- `indexOf.get(id) ?? 0`. -/
def indexIn (ids : List String) (id : String) : ℕ := (OrdMap.get? id (indexOf ids)).getD 0

def forwardEdges (ids : List String) (edges : List RankEdge) : List RankEdge :=
  edges.filter fun e ↦ indexIn ids e.from_ < indexIn ids e.to_

/-- One edge of a pass: the ranks, and whether any has changed. -/
def relax (acc : List (String × ℕ) × Bool) (e : RankEdge) : List (String × ℕ) × Bool :=
  match OrdMap.get? e.from_ acc.1 with
  | none => acc
  | some fromRank =>
    -- no rank at all is lower than any
    if (OrdMap.get? e.to_ acc.1).all (· < fromRank + 1) then
      (OrdMap.set e.to_ (fromRank + 1) acc.1, true)
    else acc

/-- So many passes over the edges, or as many as change something. -/
def passes (edges : List RankEdge) : ℕ → List (String × ℕ) → List (String × ℕ)
  | 0, rank => rank
  | n + 1, rank =>
    let (rank', changed) := edges.foldl relax (rank, false)
    if changed then passes edges n rank' else rank'

/-- What no pass has reached has its place for a rank. -/
def ranks (ids : List String) (edges : List RankEdge) : List (String × ℕ) :=
  match ids with
  | [] => []
  | first :: _ =>
    ids.foldl
      (fun rank id ↦ if (OrdMap.get? id rank).isSome then rank
        else OrdMap.set id (indexIn ids id) rank)
      (passes (forwardEdges ids edges) ids.length [(first, 0)])

/-- The ids of each rank, in the order of the array. -/
def byRank (ids : List String) (rank : List (String × ℕ)) : List (ℕ × List String) :=
  ids.foldl
    (fun m id ↦
      let r := (OrdMap.get? id rank).getD 0
      OrdMap.set r ((OrdMap.get? r m).getD [] ++ [id]) m) []

def rankAndRow (ids : List String) (edges : List RankEdge) : List (String × RankPoint) :=
  (byRank ids (ranks ids edges)).foldl
    (fun positions p ↦
      p.2.zipIdx.foldl
        (fun positions q ↦
          OrdMap.set q.1 ⟨p.1 * columnWidthPx, q.2 * rowHeightPx⟩ positions) positions) []

/-! ## Ranks -/

section Bounds

variable {ids : List String} {edges : List RankEdge} {id : String} {r : ℕ}

theorem indexIn_lt (h : ids ≠ []) : indexIn ids id < ids.length := by
  have hall : ∀ i, OrdMap.get? id (indexOf ids) = some i → i < ids.length := by
    refine List.foldlRecOn ids.zipIdx _ (motive := fun m ↦
      ∀ i, OrdMap.get? id m = some i → i < ids.length) (fun i hi ↦ by simp at hi) ?_
    intro m hm p hp i hi
    rw [OrdMap.get?_set] at hi
    split_ifs at hi
    · rw [← Option.some.inj hi]
      exact (List.mem_zipIdx' hp).1
    · exact hm i hi
  rw [indexIn]
  rcases hget : OrdMap.get? id (indexOf ids) with _ | i
  · exact List.length_pos_of_ne_nil h
  · exact hall i hget

/-- Ranks that are no higher than the places. -/
def RanksFit (ids : List String) (rank : List (String × ℕ)) : Prop :=
  ∀ id r, OrdMap.get? id rank = some r → r ≤ indexIn ids id

variable {rank : List (String × ℕ)}

theorem RanksFit.set (h : RanksFit ids rank) (hr : r ≤ indexIn ids id) :
    RanksFit ids (OrdMap.set id r rank) := by
  intro id' r' hget
  rw [OrdMap.get?_set] at hget
  split_ifs at hget with heq
  · rw [← Option.some.inj hget, ← heq]
    exact hr
  · exact h id' r' hget

theorem RanksFit.relax {acc : List (String × ℕ) × Bool} {e : RankEdge} (h : RanksFit ids acc.1)
    (he : indexIn ids e.from_ < indexIn ids e.to_) : RanksFit ids (relax acc e).1 := by
  rw [RankLayout.relax]
  split
  · exact h
  · rename_i fromRank hfrom
    split_ifs
    · have hle := h _ _ hfrom
      exact h.set (by omega)
    · exact h

theorem RanksFit.passes {n : ℕ} (h : RanksFit ids rank) :
    RanksFit ids (passes (forwardEdges ids edges) n rank) := by
  induction n generalizing rank with
  | zero => exact h
  | succ n ih =>
    have hpass : RanksFit ids ((forwardEdges ids edges).foldl RankLayout.relax (rank, false)).1 := by
      refine List.foldlRecOn (forwardEdges ids edges) _
        (motive := fun acc : List (String × ℕ) × Bool ↦ RanksFit ids acc.1) h ?_
      intro acc hacc e he
      exact hacc.relax (by simpa using (List.mem_filter.mp he).2)
    rw [RankLayout.passes]
    dsimp only
    split_ifs
    · exact ih hpass
    · exact hpass

/-- A rank is no higher than the place. -/
theorem ranksFit_ranks : RanksFit ids (ranks ids edges) := by
  cases ids with
  | nil => exact fun _ _ h ↦ absurd h.symm (Option.some_ne_none _)
  | cons first rest =>
    have hfirst : RanksFit (first :: rest) [(first, 0)] := by
      intro id r hget
      rw [OrdMap.get?] at hget
      split_ifs at hget
      · rw [← Option.some.inj hget]
        exact Nat.zero_le _
      · cases hget
    refine List.foldlRecOn (first :: rest) _ (motive := RanksFit (first :: rest)) hfirst.passes ?_
    intro rank hrank id _
    split_ifs
    · exact hrank
    · exact hrank.set (Nat.le_refl _)

/-! ## Positions -/

/-- The ids of a rank: the rank is that of a place, and there are no more of them than ids so far. -/
theorem get?_byRank (h : RanksFit ids rank) (hids : ids ≠ []) {r : ℕ} {rowIds : List String}
    (hget : OrdMap.get? r (byRank ids rank) = some rowIds) :
    r < ids.length ∧ rowIds.length ≤ ids.length := by
  have hall : ∀ done : List String, ∀ r rowIds,
      OrdMap.get? r (byRank done rank) = some rowIds →
        r < ids.length ∧ rowIds.length ≤ done.length := by
    intro done
    induction done using List.reverseRecOn with
    | nil => exact nofun
    | append_singleton done id ih =>
      intro r rowIds hget
      have hrank : (OrdMap.get? id rank).getD 0 < ids.length := by
        rcases hid : OrdMap.get? id rank with _ | r
        · exact List.length_pos_of_ne_nil hids
        · exact Nat.lt_of_le_of_lt (h id r hid) (indexIn_lt hids)
      rw [byRank, List.foldl_append, ← byRank, List.foldl_cons, List.foldl_nil, OrdMap.get?_set] at hget
      rw [List.length_append, List.length_singleton]
      split_ifs at hget with heq
      · cases hget
        refine ⟨heq ▸ hrank, ?_⟩
        rw [List.length_append, List.length_singleton]
        rcases hold : OrdMap.get? ((OrdMap.get? id rank).getD 0) (byRank done rank) with _ | old
        · simp
        · have hlen := (ih _ _ hold).2
          simpa using hlen
      · obtain ⟨hr, hlen⟩ := ih r rowIds hget
        exact ⟨hr, by omega⟩
  exact hall ids r rowIds hget

theorem nodup_byRank : ((byRank ids rank).map (·.1)).Nodup := by
  have hnil : (([] : List (ℕ × List String)).map (·.1)).Nodup := List.nodup_nil
  refine List.foldlRecOn ids _ (motive := fun m : List (ℕ × List String) ↦ (m.map (·.1)).Nodup) hnil
    ?_
  intro m hm id _
  exact OrdMap.nodup_set hm _ _

/-- **No layout is larger than its ids**, a column or a row for each. -/
theorem rankAndRow_le {p : RankPoint} (hget : OrdMap.get? id (rankAndRow ids edges) = some p) :
    p.x ≤ ids.length * columnWidthPx ∧ p.y ≤ ids.length * rowHeightPx := by
  rcases eq_or_ne ids [] with rfl | hids
  · exact nomatch hget
  · refine List.foldlRecOn (byRank ids (ranks ids edges)) _ (motive := fun positions ↦
      ∀ p : RankPoint, OrdMap.get? id positions = some p →
        p.x ≤ ids.length * columnWidthPx ∧ p.y ≤ ids.length * rowHeightPx)
      (fun p h ↦ absurd h.symm (Option.some_ne_none _)) ?_ p hget
    intro positions hpositions row hrow
    obtain ⟨hr, hlen⟩ := get?_byRank ranksFit_ranks hids
      ((OrdMap.mem_iff_get? nodup_byRank).mp hrow)
    refine List.foldlRecOn row.2.zipIdx _ (motive := fun positions ↦
      ∀ p : RankPoint, OrdMap.get? id positions = some p →
        p.x ≤ ids.length * columnWidthPx ∧ p.y ≤ ids.length * rowHeightPx) hpositions ?_
    intro positions hpositions q hq p hget
    rw [OrdMap.get?_set] at hget
    split_ifs at hget
    · cases hget
      have hplace := (List.mem_zipIdx' hq).1
      exact ⟨Nat.mul_le_mul_right _ (Nat.le_of_lt hr), Nat.mul_le_mul_right _ (by omega)⟩
    · exact hpositions p hget

end Bounds

end Enkaku.RankLayout
