import Mathlib.Data.List.Sort
import Enkaku.Db.Schema
import Enkaku.Workflow.StepCompute

/-!
# The table `workflow_steps`

The record a workflow run leaves: one row per step of the walk, numbered by `seq` within the run.
The index `idx_workflow_steps_seq` makes `(run_id, seq)` unique, and an insert that repeats a pair
is refused.  The pair names the row, so the random primary key is left out.
-/

set_option autoImplicit false

namespace Enkaku

/-- A row of `workflow_steps`.  Instants are epoch seconds. -/
structure StepRow where
  runId : String
  seq : Nat
  stepId : String
  kind : StepKind
  jobId : Option String := none
  jobRunId : Option String := none
  status : StepStatus
  startedAt : Option Int
  finishedAt : Option Int
  output : Value := .null
  outputTruncated : Option String := none
  input : Value := .null
  takenEdge : Option Edge := none
  pinned : Bool := false
  verdict : Option PredicateTrace := none
  error : Option String := none
  errorCode : Option String := none
  deriving Repr

namespace StepTable

/-- `SELECT * FROM workflow_steps WHERE run_id = …`. -/
def rowsOf (rows : List StepRow) (runId : String) : List StepRow :=
  rows.filter fun r ↦ r.runId = runId

variable {rows : List StepRow} {runId : String} {r : StepRow}

theorem mem_rowsOf : r ∈ rowsOf rows runId ↔ r ∈ rows ∧ r.runId = runId := by
  simp [rowsOf]

theorem rowsOf_append (rows rows' : List StepRow) (runId : String) :
    rowsOf (rows ++ rows') runId = rowsOf rows runId ++ rowsOf rows' runId := List.filter_append ..

/-- The pair the unique index covers. -/
def key (r : StepRow) : String × Nat := (r.runId, r.seq)

/-- The refusal of the unique index. -/
def refused : StoreError := .uniqueConstraint "idx_workflow_steps_seq"

instance lawfulBEqKey : LawfulBEq (String × Nat) := inferInstance

/-- `INSERT INTO workflow_steps`. -/
def insert (rows : List StepRow) (r : StepRow) : Except StoreError (List StepRow) :=
  if key r ∈ rows.map key then .error refused else .ok (rows ++ [r])

theorem insert_eq_ok_iff {rows' : List StepRow} :
    insert rows r = .ok rows' ↔ key r ∉ rows.map key ∧ rows' = rows ++ [r] := by
  rw [insert]
  by_cases h : key r ∈ rows.map key
  · rw [if_pos h]
    simp [h]
  · rw [if_neg h]
    simp only [h, not_false_eq_true, true_and, Except.ok.injEq]
    exact eq_comm

theorem insert_of_fresh (h : key r ∉ rows.map key) :
    insert rows r = .ok (rows ++ [r]) := insert_eq_ok_iff.mpr ⟨h, rfl⟩

theorem insert_eq_error_iff {e : StoreError} :
    insert rows r = .error e ↔ key r ∈ rows.map key ∧ e = refused := by
  rw [insert]
  by_cases h : key r ∈ rows.map key
  · rw [if_pos h]
    simp only [h, true_and, Except.error.injEq]
    exact eq_comm
  · rw [if_neg h]
    simp [h]

/-- Inserts that stand one after the other outside any transaction: the rows before a refused one
stay. -/
def insertAll : List StepRow → List StepRow → List StepRow × Option StoreError
  | rows, [] => (rows, none)
  | rows, r :: new =>
    match insert rows r with
    | .error e => (rows, some e)
    | .ok rows => insertAll rows new

/-- Inserts none of which repeats a pair all happen. -/
theorem insertAll_of_fresh {new : List StepRow} (h : ∀ r ∈ new, key r ∉ rows.map key)
    (hnd : (new.map key).Nodup) : insertAll rows new = (rows ++ new, none) := by
  induction new generalizing rows with
  | nil => simp [insertAll]
  | cons r new ih =>
    rw [List.map_cons, List.nodup_cons] at hnd
    have hr := insert_of_fresh (h r (by simp))
    have hrest : ∀ r' ∈ new, key r' ∉ (rows ++ [r]).map key := by
      intro r' hr'
      have hold := h r' (by simp [hr'])
      have hne : key r' ≠ key r := fun he ↦ hnd.1 (he ▸ List.mem_map_of_mem hr')
      simpa [hne] using hold
    rw [insertAll, hr]
    simpa using ih hrest hnd.2

/-- The first insert of a sequence decides whether it is refused at once. -/
theorem insertAll_refused {new : List StepRow} (h : key r ∈ rows.map key) :
    insertAll rows (r :: new) = (rows, some refused) := by
  rw [insertAll, insert_eq_error_iff.mpr ⟨h, rfl⟩]

/-- `UPDATE workflow_steps SET … WHERE id = …`, for the row of this run and `seq`. -/
def update (rows : List StepRow) (runId : String) (seq : Nat) (set : StepRow → StepRow) :
    List StepRow :=
  rows.map fun r ↦ if key r = (runId, seq) then set r else r

/-- The row just inserted is the only one its update reaches. -/
theorem update_append_of_fresh {f : StepRow → StepRow} (h : key r ∉ rows.map key) :
    update (rows ++ [r]) r.runId r.seq f = rows ++ [f r] := by
  have hrows : rows.map (fun r' ↦ if key r' = key r then f r' else r') = rows := by
    refine (List.map_congr_left fun r' hr' ↦ ?_).trans (List.map_id rows)
    have hne : key r' ≠ key r := fun he ↦ h (he ▸ List.mem_map_of_mem hr')
    rw [if_neg hne, id]
  rw [update, List.map_append]
  show rows.map (fun r' ↦ if key r' = key r then f r' else r') ++ _ = _
  rw [hrows]
  simp [key]

/-- `(highestWritten?.seq ?? -1) + 1`: the first number after every row of the run. -/
def nextSeq (rows : List StepRow) (runId : String) : Nat :=
  ((rowsOf rows runId).map fun r ↦ r.seq + 1).foldr max 0

theorem lt_nextSeq (h : r ∈ rowsOf rows runId) : r.seq < nextSeq rows runId := by
  rw [nextSeq]
  generalize rowsOf rows runId = l at h ⊢
  induction l with
  | nil => simp at h
  | cons r' rest ih =>
    rw [List.map_cons, List.foldr_cons]
    rcases List.mem_cons.mp h with rfl | h
    · omega
    · have := ih h
      omega

/-- A number no row of the run has is free. -/
theorem key_notMem_of_lt (hr : r.runId = runId) (h : ∀ r' ∈ rowsOf rows runId, r'.seq < r.seq) :
    key r ∉ rows.map key := by
  intro hmem
  obtain ⟨r', hr', he⟩ := List.mem_map.mp hmem
  have hrun : r'.runId = runId := (congrArg Prod.fst he).trans hr
  have hseq : r'.seq = r.seq := congrArg Prod.snd he
  have := h r' (mem_rowsOf.mpr ⟨hr', hrun⟩)
  omega

/-- A block of rows numbered upward from a number no row of the run has reached goes in. -/
theorem insertAll_block {β : Type*} {k : Nat} {l : List β} {f : β × Nat → StepRow}
    (hf : ∀ p, key (f p) = (runId, k + p.2)) (hfree : ∀ r ∈ rowsOf rows runId, r.seq < k) :
    insertAll rows (l.zipIdx.map f) = (rows ++ l.zipIdx.map f, none) := by
  refine insertAll_of_fresh ?_ ?_
  · intro r hr
    obtain ⟨p, -, rfl⟩ := List.mem_map.mp hr
    have hrun : (f p).runId = runId := congrArg Prod.fst (hf p)
    have hseq : (f p).seq = k + p.2 := congrArg Prod.snd (hf p)
    refine key_notMem_of_lt hrun fun r' hr' ↦ ?_
    have := hfree r' hr'
    omega
  · have hkeys : (l.zipIdx.map f).map key = (List.range' 0 l.length).map fun i ↦ (runId, k + i) := by
      rw [← List.zipIdx_map_snd 0 l, List.map_map, List.map_map]
      exact List.map_congr_left fun p _ ↦ hf p
    rw [hkeys]
    refine List.Nodup.map (fun i j he ↦ ?_) List.nodup_range'
    have : k + i = k + j := congrArg Prod.snd he
    omega

end StepTable

end Enkaku
