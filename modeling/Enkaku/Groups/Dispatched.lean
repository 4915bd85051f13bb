import Enkaku.Groups.Members

/-!
# A batch as it is dispatched

`createBatch` inserts the member jobs of a batch with one queued run each, in one transaction, and
then has the pacer plan repetition 0.  `Dispatched` is the state between the two, and `planFirst_eq`
says, row by row, what the pacer makes of it.
-/

set_option autoImplicit false

namespace Enkaku.Store

open List

/-- What `createBatch` has inserted when it calls `planFirst`. -/
structure Dispatched (s : Store) (b : PacedBatch) : Prop where
  reachable : s.Reachable
  /-- A batch without a usable device is refused. -/
  nonempty : s.membersOf b.id ≠ []
  /-- Every member job has its first run, queued. -/
  single : ∀ j ∈ s.jobs, j.batchId = some b.id →
    ∃ r, s.runsOf j.id = [r] ∧ j.latestRunId = some r.id ∧ r.status = .queued ∧ r.seq = 1
  queued : b.status = .queued

/-- What planning repetition 0 for the members `l` makes of a row. -/
def firstRow (b : PacedBatch) (d : Draws) (l : List (JobRow × Nat)) (r : JobRunRow) : JobRunRow :=
  match l.find? fun p ↦ p.1.id = r.jobId with
  | some p => firstPacing b d p.2 r r
  | none => r

section FirstRow

variable {s : Store} {b : PacedBatch} {d : Draws}

/-- Planning a run leaves its identity, its number and its status. -/
structure SamePlace (r r' : JobRunRow) : Prop extends SameNumber r r' where
  status : r'.status = r.status

theorem samePlace_firstPacing (b : PacedBatch) (d : Draws) (i : Nat) (run r : JobRunRow) :
    SamePlace r (firstPacing b d i run r) := by
  rw [firstPacing]
  split
  · dsimp only
    split <;> exact ⟨⟨rfl, rfl, rfl⟩, rfl⟩
  · exact ⟨⟨rfl, rfl, rfl⟩, rfl⟩

theorem samePlace_firstRow (b : PacedBatch) (d : Draws) (l : List (JobRow × Nat))
    (r : JobRunRow) : SamePlace r (firstRow b d l r) := by
  rw [firstRow]
  split
  · exact samePlace_firstPacing b d _ r r
  · exact ⟨⟨rfl, rfl, rfl⟩, rfl⟩

theorem mem_of_runsOf_eq {jobId : String} {r : JobRunRow} (h : s.runsOf jobId = [r]) :
    r ∈ s.runs ∧ r.jobId = jobId :=
  mem_runsOf.mp (h ▸ mem_singleton.mpr rfl)

/-- Row by row, one turn of the loop of `planFirst`. -/
theorem planFirstMember_eq (hk : Keys s) {p : JobRow × Nat} {r : JobRunRow}
    (hone : s.runsOf p.1.id = [r]) (hlatest : p.1.latestRunId = some r.id) :
    planFirstMember b d s p = { s with
      runs := s.runs.map fun x ↦ if x.jobId = p.1.id then firstPacing b d p.2 x x else x } := by
  obtain ⟨hmem, hof⟩ := mem_of_runsOf_eq hone
  have hrun : s.run? r.id = some r := by
    cases hf : s.run? r.id with
    | none => simpa using find?_eq_none.mp hf r hmem
    | some r' =>
      have hid : r'.id = r.id := by simpa using find?_some hf
      rw [hk.run_eq (mem_of_find?_eq_some hf) hmem hid]
  rw [planFirstMember, hlatest, Option.bind_some, hrun]
  dsimp only
  rw [updateRun, Sql.update]
  congr 1
  refine map_congr_left fun x hx ↦ ?_
  -- the member's one run is the row its latest_run_id names
  by_cases hid : x.id = r.id
  · obtain rfl := hk.run_eq hx hmem hid
    simp [hof]
  · have hne : x.jobId ≠ p.1.id := by
      intro hxof
      have hxin : x ∈ s.runsOf p.1.id := mem_runsOf.mpr ⟨hx, hxof⟩
      rw [hone, mem_singleton] at hxin
      exact hid (congrArg JobRunRow.id hxin)
    simp [hid, hne]

/-- Row by row, the loop of `planFirst`. -/
theorem foldl_planFirst (b : PacedBatch) (d : Draws) {l : List (JobRow × Nat)} {s : Store}
    (hk : Keys s) (hnodup : (l.map (·.1.id)).Nodup)
    (hone : ∀ p ∈ l, ∃ r, s.runsOf p.1.id = [r] ∧ p.1.latestRunId = some r.id) :
    l.foldl (planFirstMember b d) s = { s with runs := s.runs.map (firstRow b d l) } := by
  induction l generalizing s with
  | nil =>
    have hid : firstRow b d [] = id := rfl
    rw [foldl_nil, hid, map_id]
  | cons p l ih =>
    obtain ⟨hnotin, hnodup⟩ := nodup_cons.mp hnodup
    obtain ⟨r, hr, hlatest⟩ := hone p (.head _)
    rw [foldl_cons, planFirstMember_eq hk hr hlatest]
    set f : JobRunRow → JobRunRow := fun x ↦
      if x.jobId = p.1.id then firstPacing b d p.2 x x else x with hf
    have hplace : ∀ x, SamePlace x (f x) := by
      intro x
      rw [hf]
      dsimp only
      split
      · exact samePlace_firstPacing b d _ x x
      · exact ⟨⟨rfl, rfl, rfl⟩, rfl⟩
    have hkeys := hk.mapRows (f := f) (g := id) (fun x ↦ (hplace x).id) (fun x ↦ (hplace x).jobId)
      JobKept.refl
    rw [map_id] at hkeys
    rw [ih hkeys hnodup fun q hq ↦ ?_]
    · simp only [map_map]
      congr 1
      refine map_congr_left fun x _ ↦ ?_
      rw [Function.comp_apply, hf]
      dsimp only
      by_cases hx : x.jobId = p.1.id
      · have hno : l.find? (fun q ↦ q.1.id = p.1.id) = none := by
          refine find?_eq_none.mpr fun q hq ↦ ?_
          have hmem : q.1.id ∈ l.map (·.1.id) := mem_map_of_mem hq
          intro heq
          rw [of_decide_eq_true heq] at hmem
          exact hnotin hmem
        rw [if_pos hx, firstRow, (samePlace_firstPacing b d p.2 x x).jobId, hx, hno, firstRow,
          find?_cons_of_pos (by simp [hx])]
      · rw [if_neg hx, firstRow, firstRow, find?_cons_of_neg (by simpa using Ne.symm hx)]
    · obtain ⟨r', hr', hlatest'⟩ := hone q (mem_cons_of_mem p hq)
      have hmap := runsOf_map (fun x ↦ (hplace x).toSameNumber) s s.jobs q.1.id
      refine ⟨f r', ?_, by rw [(hplace r').id, hlatest']⟩
      rw [hmap, hr', map_singleton]

theorem zipIdx_map_id (l : List JobRow) : (l.zipIdx.map fun p ↦ p.1.id) = l.map (·.id) := by
  conv_rhs => rw [← zipIdx_map_fst 0 l, map_map]
  rfl

/-- **What `planFirst` does** to a batch just dispatched. -/
theorem Dispatched.planFirst_eq (h : Dispatched s b) (hpaced : b.isPaced = true) (d : Draws) :
    s.planFirst b d = { s with
      runs := s.runs.map (firstRow b d (s.membersOf b.id).zipIdx) } := by
  rw [planFirst, if_pos hpaced]
  refine foldl_planFirst b d h.reachable.keys ?_ fun p hp ↦ ?_
  · rw [zipIdx_map_id]
    exact nodup_membersOf h.reachable.keys b.id
  · obtain ⟨hmem, hb⟩ := mem_membersOf.mp (fst_mem_of_mem_zipIdx hp)
    obtain ⟨r, hr, hlatest, -⟩ := h.single p.1 hmem hb
    exact ⟨r, hr, hlatest⟩

end FirstRow

end Enkaku.Store
