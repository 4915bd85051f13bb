import Enkaku.Workflow.Settle

/-!
# Every node once in the rows of a run

`meets` is the walk as far as it is logged: the step nodes the loop comes to, turn by turn, enabled or
not.  The rows of the loop are exactly these (`Tallies`); the `finally` block adds a row for every node
that `runCounts` does not know.  A node that is switched off is not counted there, so when the walk
passes one it is logged twice: `leave_eachOnce_iff`.
-/

set_option autoImplicit false

namespace Enkaku

open List

open StepTable

namespace Walk

variable {deps : OrchestratorDeps} {w : WorkflowRun} {x : Walk} {t : Tick} {ts : List Tick}
  {node : WorkflowNode} {met : List WorkflowNode}

/-! ## The walk -/

/-- The step node a turn comes to, enabled or not. -/
def meets? (deps : OrchestratorDeps) (w : WorkflowRun) (x : Walk) (t : Tick) : Option WorkflowNode :=
  if x.threw = false ∧ t.abortedBefore = false ∧ t.elapsedMs ≤ deps.maxTotalMs ∧
      x.step < w.doc.maxSteps then
    (x.cursor.bind w.doc.node?).filter fun node ↦ node.step?.isSome
  else none

/-- The step nodes the loop comes to, turn by turn. -/
def meets (deps : OrchestratorDeps) (w : WorkflowRun) : Walk → List Tick → List WorkflowNode
  | _, [] => []
  | x, t :: ts => (x.meets? deps w t).toList ++ meets deps w (x.iterate deps w t) ts

/-- The executions of a walk. -/
def executedIds (met : List WorkflowNode) : List String := (met.filter (·.enabled)).map (·.id)

/-- Every node of a document is accounted for once: the rows of the run are numbered without a gap,
every execution of a node has one row, and every node but the start and the ends that was never
executed has one row that says so. -/
structure EachOnce (w : WorkflowRun) (rows : List StepRow) (executed : List String) : Prop where
  gapless : (rowsOf rows w.run.id).map (·.seq) = List.range (rowsOf rows w.run.id).length
  executions : ∀ node ∈ w.doc.nodes, (rowsOf rows w.run.id).countP
    (fun r ↦ decide (r.stepId = node.id ∧ r.status ≠ .skipped)) = executed.count node.id
  skipped : ∀ node ∈ w.doc.nodes, node.step?.isSome = true → node.id ∉ executed →
    (rowsOf rows w.run.id).countP
      (fun r ↦ decide (r.stepId = node.id ∧ r.status = .skipped)) = 1

/-! ## What a turn meets -/

theorem step?_eq_some {n : StepNode} : node.step? = some n ↔ node.body = .step n := by
  rw [WorkflowNode.step?]
  cases node.body <;> simp

theorem meets?_eq_some : x.meets? deps w t = some node ↔ x.At w node ∧
    t.abortedBefore = false ∧ t.elapsedMs ≤ deps.maxTotalMs ∧ ∃ n, node.body = .step n := by
  rw [meets?]
  split_ifs with hgo
  · obtain ⟨hthrew, hab, htotal, hbudget⟩ := hgo
    rw [Option.filter_eq_some_iff, Option.bind_eq_some_iff]
    constructor
    · rintro ⟨⟨c, hc, hnode⟩, hstep⟩
      have hid := WorkflowDoc.id_of_node? hnode
      obtain ⟨n, hn⟩ := Option.isSome_iff_exists.mp hstep
      exact ⟨⟨hthrew, by rw [hc, hid], by rw [hid, hnode], hbudget⟩, hab, htotal, n,
        step?_eq_some.mp hn⟩
    · rintro ⟨hat, -, -, n, hb⟩
      exact ⟨⟨node.id, hat.cursor, hat.node⟩, by rw [step?_eq_some.mpr hb]; rfl⟩
  · refine iff_of_false (by simp) ?_
    rintro ⟨hat, hab, htotal, -⟩
    exact hgo ⟨hat.threw, hab, htotal, hat.budget⟩

/-- A turn that meets no step node writes nothing and counts nothing. -/
theorem iterate_of_meets?_eq_none (h : x.meets? deps w t = none) :
    (x.iterate deps w t).rows = x.rows ∧ (x.iterate deps w t).seq = x.seq ∧
      (x.iterate deps w t).runCounts = x.runCounts ∧
      (x.iterate deps w t).carriedOverIds = x.carriedOverIds ∧
      ((x.iterate deps w t).threw = false → x.threw = false) := by
  rw [iterate]
  split
  next cursor hc hthrew =>
    split_ifs with hab htotal hsteps
    · exact ⟨rfl, rfl, rfl, rfl, fun _ ↦ hthrew⟩
    · exact ⟨rfl, rfl, rfl, rfl, id⟩
    · exact ⟨rfl, rfl, rfl, rfl, id⟩
    · cases hnode : w.doc.node? cursor with
      | none => exact ⟨rfl, rfl, rfl, rfl, id⟩
      | some node =>
        have hid := WorkflowDoc.id_of_node? hnode
        have hat : x.At w node :=
          ⟨hthrew, by rw [hc, hid], by rw [hid, hnode], Nat.lt_of_not_le hsteps⟩
        dsimp only
        rw [reach]
        split
        next next hb => exact ⟨rfl, rfl, rfl, rfl, id⟩
        next status message hb => cases status <;> exact ⟨rfl, rfl, rfl, rfl, id⟩
        next n hb =>
          have hmeets := meets?_eq_some.mpr
            ⟨hat, by simpa using hab, Int.not_lt.mp htotal, n, hb⟩
          rw [h] at hmeets
          cases hmeets
  next => exact ⟨rfl, rfl, rfl, rfl, id⟩

/-! ## The rows are the walk -/

/-- The rows and the counts of the loop say what it has met. -/
structure Tallies (w : WorkflowRun) (x : Walk) (met : List WorkflowNode) : Prop where
  seqs : (rowsOf x.rows w.run.id).map (·.seq) = List.range met.length
  counter : x.seq ≤ met.length ∧ (x.threw = false → x.seq = met.length)
  rows : (rowsOf x.rows w.run.id).map (fun r ↦ (r.stepId, decide (r.status = .skipped))) =
    met.map fun node ↦ (node.id, !node.enabled)
  counts : ∀ id, (OrdMap.get? id x.runCounts).isSome = true ↔ id ∈ executedIds met
  nodes : ∀ node ∈ met, w.doc.node? node.id = some node ∧ node.step?.isSome = true
  carried : x.carriedOverIds = []

theorem Tallies.numbered (h : x.Tallies w met) (hthrew : x.threw = false) : x.Numbered w := by
  intro r hr
  have hmem : r.seq ∈ List.range met.length := h.seqs ▸ mem_map_of_mem hr
  rw [h.counter.2 hthrew]
  exact mem_range.mp hmem

/-- One more row, of the node that is met. -/
theorem Tallies.append (h : x.Tallies w met) {y : Walk} {r : StepRow} (hat : x.At w node)
    (hstep : node.step?.isSome = true) (hr : key r = (w.run.id, x.seq)) (hid : r.stepId = node.id)
    (hskipped : decide (r.status = .skipped) = !node.enabled) (hrows : y.rows = x.rows ++ [r])
    (hseq : y.seq ≤ x.seq + 1 ∧ (y.threw = false → y.seq = x.seq + 1))
    (hcounts : y.runCounts = if node.enabled then (x.count node.id).runCounts else x.runCounts)
    (hcarried : y.carriedOverIds = x.carriedOverIds) : y.Tallies w (met ++ [node]) := by
  have hnum : r.seq = met.length := (congrArg Prod.snd hr).trans (h.counter.2 hat.threw)
  have hself : rowsOf [r] w.run.id = [r] := by
    have hrun : r.runId = w.run.id := congrArg Prod.fst hr
    simp [rowsOf, hrun]
  have hlen : (met ++ [node]).length = met.length + 1 := by simp
  refine ⟨?_, ?_, ?_, fun id ↦ ?_, ?_, hcarried.trans h.carried⟩
  · rw [hrows, rowsOf_append, hself, map_append, h.seqs, hlen, range_succ, map_singleton, hnum]
  · rw [hlen, ← h.counter.2 hat.threw]
    exact hseq
  · rw [hrows, rowsOf_append, hself, map_append, h.rows, map_append, map_singleton,
      map_singleton, hid, hskipped]
  · have hold := h.counts id
    rw [hcounts]
    cases hon : node.enabled with
    | false =>
      simpa [executedIds, hon] using hold
    | true =>
      simp only [if_true, count, OrdMap.get?_set]
      by_cases heq : node.id = id
      · simp [executedIds, hon, heq]
      · rw [if_neg heq, hold]
        simp [executedIds, hon, Ne.symm heq]
  · intro node' hnode'
    rcases mem_append.mp hnode' with hnode' | hnode'
    · exact h.nodes node' hnode'
    · obtain rfl := mem_singleton.mp hnode'
      exact ⟨hat.node, hstep⟩

/-- **A turn logs what it meets.** -/
theorem Tallies.iterate (h : x.Tallies w met) :
    (x.iterate deps w t).Tallies w (met ++ (x.meets? deps w t).toList) := by
  cases hmeets : x.meets? deps w t with
  | none =>
    obtain ⟨hrows, hseq, hcounts, hcarried, hthrew⟩ := iterate_of_meets?_eq_none hmeets
    rw [Option.toList_none, append_nil]
    refine ⟨?_, ?_, ?_, ?_, h.nodes, hcarried.trans h.carried⟩
    · rw [hrows]
      exact h.seqs
    · rw [hseq]
      exact ⟨h.counter.1, fun ht ↦ h.counter.2 (hthrew ht)⟩
    · rw [hrows]
      exact h.rows
    · rw [hcounts]
      exact h.counts
  | some node =>
    obtain ⟨hat, hab, htotal, n, hb⟩ := meets?_eq_some.mp hmeets
    have hstep : node.step?.isSome = true := by
      rw [step?_eq_some.mpr hb]
      rfl
    have hkey := (h.numbered hat.threw).fresh
    rw [iterate_at hat hab htotal, reach, hb, Option.toList_some]
    dsimp only
    split_ifs with hon
    · cases hh : handle deps w x node n t with
      | error err =>
        -- The row stands as it was inserted, and the counter is not raised.
        rw [execute_of_thrown hkey hh]
        refine h.append hat hstep rfl rfl (by rw [hon]; rfl) rfl ⟨Nat.le_succ _, fun ht ↦ ?_⟩ ?_ rfl
        · have htrue : true = false := ht
          cases htrue
        · rw [if_pos hon]
          rfl
      | ok hd =>
        rw [execute_of_handled hkey hh]
        have hstatus : decide (hd.status = .skipped) = !node.enabled := by
          rw [hon]
          exact decide_eq_false (handle_status hh).2
        have hseq : (x.executed deps w node n t hd).seq = x.seq + 1 := Nat.add_right_comm ..
        refine h.append hat hstep rfl rfl hstatus rfl ⟨hseq.le, fun _ ↦ hseq⟩ ?_ rfl
        rw [if_pos hon]
        rfl
    · rw [skip_of_fresh hkey]
      have hoff : node.enabled = false := by simpa using hon
      have hseq : (x.passOver w node n t (x.rows ++ [x.passedRow w node n t])).seq = x.seq + 1 :=
        (Nat.add_assoc ..).symm
      refine h.append hat hstep rfl rfl (by rw [hoff]; rfl) rfl ⟨hseq.le, fun _ ↦ hseq⟩ ?_ rfl
      rw [if_neg hon]
      rfl

theorem Tallies.iterates (h : x.Tallies w met) (ts : List Tick) :
    (x.iterates deps w ts).Tallies w (met ++ meets deps w x ts) := by
  induction ts generalizing x met with
  | nil =>
    rw [meets, append_nil]
    exact h
  | cons t ts ih =>
    rw [meets, ← append_assoc]
    exact ih h.iterate

/-- A run that is not a resume starts with nothing met. -/
theorem tallies_setup (hresume : w.resumeFrom? = none) {rows : List StepRow}
    (hfirst : rowsOf rows w.run.id = []) (now : Int) : (w.setup now rows).Tallies w [] := by
  have hsetup : (w.setup now rows).rows = rows ∧ (w.setup now rows).seq = 0 ∧
      (w.setup now rows).runCounts = [] ∧ (w.setup now rows).carriedOverIds = [] := by
    rw [WorkflowRun.setup, hresume]
    exact ⟨rfl, rfl, rfl, rfl⟩
  obtain ⟨hrows, hseq, hcounts, hcarried⟩ := hsetup
  refine ⟨?_, ⟨hseq.le, fun _ ↦ hseq⟩, ?_, fun id ↦ ?_, by simp, hcarried⟩
  · rw [hrows, hfirst]
    rfl
  · rw [hrows, hfirst]
    rfl
  · rw [hcounts]
    simp [executedIds]

/-! ## Leaving -/

/-- Rows numbered from zero without a gap: the next number is how many there are. -/
theorem nextSeq_of_seqs {rows : List StepRow} {runId : String} {n : Nat}
    (h : (rowsOf rows runId).map (·.seq) = List.range n) : nextSeq rows runId = n := by
  have hmax : ∀ n, ((List.range n).map (· + 1)).foldr max 0 = n := by
    intro n
    induction n with
    | zero => rfl
    | succ n ih =>
      rw [range_succ_eq_map, map_cons, foldr_cons, map_map]
      have hshift : ∀ l : List Nat, (l.map ((· + 1) ∘ Nat.succ)).foldr max 0 ≤
          (l.map (· + 1)).foldr max 0 + 1 ∧ ((l.map (· + 1)).foldr max 0 + 1 ≤
            max 1 ((l.map ((· + 1) ∘ Nat.succ)).foldr max 0)) := by
        intro l
        induction l with
        | nil => simp
        | cons a l ihl =>
          simp only [map_cons, foldr_cons, Function.comp_apply]
          omega
      have := hshift (List.range n)
      rw [ih] at this
      omega
  rw [nextSeq, ← hmax n, ← h, map_map]
  rfl

/-- The nodes that are logged on leaving. -/
theorem unreached_ids (h : x.Tallies w met) : (x.unreachedRows w).map (·.stepId) =
    (w.doc.nodes.filter fun node ↦ node.step?.isSome ∧ node.id ∉ executedIds met).map (·.id) := by
  rw [unreachedRows, map_map]
  have hids : ((fun r : StepRow ↦ r.stepId) ∘ fun p : (WorkflowNode × StepNode) × Nat ↦
      skippedRow w.run.id (x.skipSeq w + p.2) p.1.1 p.1.2 none none) = (fun p ↦ p.1.id) ∘ Prod.fst := rfl
  rw [hids, ← map_map, zipIdx_map_fst, unreached]
  induction w.doc.nodes with
  | nil => rfl
  | cons node nodes ih =>
    have hcounts := h.counts node.id
    cases hn : node.step? with
    | none => simpa [hn] using ih
    | some n =>
      by_cases hmem : node.id ∈ executedIds met
      · have hsome := hcounts.mpr hmem
        simpa [hn, hmem, hsome] using ih
      · have hnone : (OrdMap.get? node.id x.runCounts).isSome = false := by
          simpa using mt hcounts.mp hmem
        simpa [hn, hmem, hnone, h.carried] using ih

theorem unreached_skipped {r : StepRow} (hr : r ∈ x.unreachedRows w) :
    r.status = .skipped ∧ r.runId = w.run.id := by
  obtain ⟨p, -, rfl⟩ := mem_map.mp hr
  exact ⟨rfl, rfl⟩

/-- The rows of the run after it was left: those of the loop, those of the nodes it never reached, and
perhaps the one of the cleanup. -/
theorem rowsOf_leave (x : Walk) (later : Int) (child : ChildOutcome) :
    ∃ cleanup : List StepRow, rowsOf (x.leave deps w later child).rows w.run.id =
        rowsOf x.rows w.run.id ++ x.unreachedRows w ++ cleanup ∧
      (∀ r ∈ cleanup, r.stepId = onFailStepId) ∧
      cleanup.map (·.seq) = (List.range cleanup.length).map
        (x.skipSeq w + (x.unreachedRows w).length + ·) := by
  have hself : rowsOf (x.unreachedRows w) w.run.id = x.unreachedRows w :=
    filter_eq_self.mpr fun r hr ↦ decide_eq_true (unreached_skipped hr).2
  rcases (leave_rows deps w x later child).2 with hrows | ⟨run, hrows⟩
  · refine ⟨[], ?_, by simp, rfl⟩
    rw [hrows, rowsOf_append, hself, append_nil]
  · refine ⟨[cleanupRow w.run.id (x.skipSeq w + (x.unreachedRows w).length) later run], ?_, ?_, rfl⟩
    · rw [hrows, rowsOf_append, rowsOf_append, hself]
      simp [rowsOf, cleanupRow]
    · intro r hr
      obtain rfl := mem_singleton.mp hr
      rfl

theorem unreached_seqs (x : Walk) (w : WorkflowRun) : (x.unreachedRows w).map (·.seq) =
    (List.range (x.unreachedRows w).length).map (x.skipSeq w + ·) := by
  have hseqs : ((fun r : StepRow ↦ r.seq) ∘ fun p : (WorkflowNode × StepNode) × Nat ↦
      skippedRow w.run.id (x.skipSeq w + p.2) p.1.1 p.1.2 none none) = (x.skipSeq w + ·) ∘ Prod.snd :=
    rfl
  rw [unreachedRows, map_map, hseqs, ← map_map, zipIdx_map_snd, length_map,
    length_zipIdx, range_eq_range']

/-- The rows of a node in the loop: one for each time it was met. -/
theorem Tallies.countP (h : x.Tallies w met) (id : String) (skipped : Bool) :
    (rowsOf x.rows w.run.id).countP
        (fun r ↦ decide (r.stepId = id ∧ decide (r.status = .skipped) = skipped)) =
      met.countP fun node ↦ decide (node.id = id ∧ (!node.enabled) = skipped) := by
  have hrows := congrArg (List.countP fun p : String × Bool ↦ decide (p.1 = id ∧ p.2 = skipped)) h.rows
  rwa [countP_map, countP_map] at hrows

/-- A step node that was never executed is logged once on leaving, and no other node is. -/
theorem countP_unreached (h : x.Tallies w met) (hids : (w.doc.nodes.map (·.id)).Nodup)
    (hnode : node ∈ w.doc.nodes) (hstep : node.step?.isSome = true)
    (hnever : node.id ∉ executedIds met) :
    (x.unreachedRows w).countP (fun r ↦ decide (r.stepId = node.id ∧ r.status = .skipped)) = 1 := by
  have hcount : (x.unreachedRows w).countP
      (fun r ↦ decide (r.stepId = node.id ∧ r.status = .skipped)) =
        ((x.unreachedRows w).map (·.stepId)).count node.id := by
    rw [List.count, countP_map]
    refine countP_congr fun r hr ↦ ?_
    simp [(unreached_skipped hr).1]
  rw [hcount, unreached_ids h]
  refine count_eq_one_of_mem (hids.sublist (filter_sublist.map _)) ?_
  refine mem_map.mpr ⟨node, mem_filter.mpr ⟨hnode, ?_⟩, rfl⟩
  simp [hstep, hnever]

theorem count_executedIds (met : List WorkflowNode) (id : String) : (executedIds met).count id =
    met.countP fun node ↦ decide (node.id = id ∧ (!node.enabled) = false) := by
  rw [executedIds, List.count, countP_map, countP_filter]
  refine countP_congr fun node _ ↦ ?_
  simp

/-- **Every node is logged once, exactly when no node that is switched off is passed.**  For every run
that is not a resume and has no rows yet, after any turns of its loop and its `finally` block. -/
theorem leave_eachOnce_iff (deps : OrchestratorDeps) (w : WorkflowRun) (now : Int)
    (rows : List StepRow) (ts : List Tick) (later : Int) (child : ChildOutcome)
    (hresume : w.resumeFrom? = none) (hfirst : rowsOf rows w.run.id = [])
    (hids : (w.doc.nodes.map (·.id)).Nodup) (hcleanup : ∀ node ∈ w.doc.nodes, node.id ≠ onFailStepId) :
    EachOnce w ((after deps w now rows ts).leave deps w later child).rows
        (executedIds (meets deps w (w.setup now rows) ts)) ↔
      ∀ node ∈ meets deps w (w.setup now rows) ts, node.enabled = true := by
  have h : (after deps w now rows ts).Tallies w (meets deps w (w.setup now rows) ts) :=
    (tallies_setup hresume hfirst now).iterates ts
  generalize after deps w now rows ts = x at h
  generalize meets deps w (w.setup now rows) ts = met at h
  obtain ⟨cleanup, hrows, hcleanupId, hcleanupSeq⟩ := @rowsOf_leave deps w x later child
  have hskip : x.skipSeq w = met.length := by
    rw [skipSeq, nextSeq_of_seqs h.seqs]
    exact max_eq_right h.counter.1
  have hcleanup0 : ∀ (node : WorkflowNode) (p : StepRow → Prop) [DecidablePred p],
      node ∈ w.doc.nodes → cleanup.countP (fun r ↦ decide (r.stepId = node.id ∧ p r)) = 0 := by
    intro node p _ hnode
    refine countP_eq_zero.mpr fun r hr ↦ ?_
    have hne := hcleanup node hnode
    simp [hcleanupId r hr, Ne.symm hne]
  -- What the rows say of a step node that was never executed.
  have hskipped : ∀ node ∈ w.doc.nodes, node.step?.isSome = true → node.id ∉ executedIds met →
      (rowsOf (x.leave deps w later child).rows w.run.id).countP
          (fun r ↦ decide (r.stepId = node.id ∧ r.status = .skipped)) =
        (met.countP fun m ↦ decide (m.id = node.id ∧ (!m.enabled) = true)) + 1 := by
    intro node hnode hstep hnever
    rw [hrows, countP_append, countP_append, hcleanup0 node _ hnode,
      countP_unreached h hids hnode hstep hnever, ← h.countP]
    simp
  constructor
  · intro hone node hnode
    by_contra hoff
    obtain ⟨hlookup, hstep⟩ := h.nodes node hnode
    have hmem := WorkflowDoc.mem_of_node? hlookup
    have hnever : node.id ∉ executedIds met := by
      intro hexec
      obtain ⟨node', hnode', hid⟩ := mem_map.mp hexec
      obtain ⟨hmet, hon⟩ := mem_filter.mp hnode'
      have hsame : some node' = some node := by
        rw [← (h.nodes node' hmet).1, hid, hlookup]
      cases hsame
      exact hoff hon
    have hcount := (hskipped node hmem hstep hnever).symm.trans (hone.skipped node hmem hstep hnever)
    have hpos : 0 < met.countP fun m ↦ decide (m.id = node.id ∧ (!m.enabled) = true) :=
      countP_pos_iff.mpr ⟨node, hnode, by simpa using hoff⟩
    omega
  · intro hon
    refine ⟨?_, fun node hnode ↦ ?_, fun node hnode hstep hnever ↦ ?_⟩
    · have hlen : (rowsOf x.rows w.run.id).length = met.length := by
        simpa using congrArg List.length h.seqs
      rw [hrows, map_append, map_append, h.seqs, unreached_seqs, hcleanupSeq, hskip,
        length_append, length_append, hlen, range_add, range_add]
    · rw [hrows, countP_append, countP_append, hcleanup0 node _ hnode, count_executedIds, ← h.countP]
      have hnone : (x.unreachedRows w).countP
          (fun r ↦ decide (r.stepId = node.id ∧ r.status ≠ .skipped)) = 0 := by
        refine countP_eq_zero.mpr fun r hr ↦ ?_
        simp [(unreached_skipped hr).1]
      rw [hnone]
      simp
    · rw [hskipped node hnode hstep hnever, countP_eq_zero.mpr]
      intro m hm
      simp [hon m hm]

end Walk

/-! ## A node that is switched off -/

namespace SwitchedOff

def off : WorkflowNode := ⟨"off", false, .step (.delay ⟨.const (.num 10), 1000, some "wait"⟩)⟩

def wait : WorkflowNode := ⟨"wait", true, .step (.delay ⟨.const (.num 10), 1000, none⟩)⟩

/-- Two delays, of which the first is switched off; the entry leads to one of them. -/
def doc (first : String) : WorkflowDoc where
  name := "flow"
  params := []
  entry := "start"
  nodes := [⟨"start", true, .start (some first)⟩, off, wait]
  maxSteps := 50
  onFail := none

def run (first : String) : WorkflowRun :=
  Bare.workflow (doc first) (Bare.run "run" { trigger := .manual, seed := some 7 })

def ticks : List Tick := List.replicate 4 (Bare.tick .null)

/-- No cleanup. -/
def noChild : ChildOutcome := .threw ⟨"no cleanup", none, none, none⟩

/-- A walk that goes round the node that is switched off. -/
theorem leave_eachOnce_iff_beside :
    Walk.EachOnce (run "wait")
        ((Walk.after Bare.deps (run "wait") 0 [] ticks).leave Bare.deps (run "wait") 0 noChild).rows
        (Walk.executedIds (Walk.meets Bare.deps (run "wait") ((run "wait").setup 0 []) ticks)) ↔
      ∀ node ∈ Walk.meets Bare.deps (run "wait") ((run "wait").setup 0 []) ticks,
        node.enabled = true :=
  Walk.leave_eachOnce_iff Bare.deps (run "wait") 0 [] ticks 0 noChild rfl rfl (by decide)
    (by decide +kernel)

/-- A walk that passes it: the node is logged twice. -/
theorem not_eachOnce_passed :
    ((Walk.after Bare.deps (run "off") 0 [] ticks).leave Bare.deps (run "off") 0 noChild).rows.map
        (fun r ↦ (r.seq, r.stepId, r.status)) =
      [(0, "off", .skipped), (1, "wait", .success), (2, "off", .skipped)] ∧
      ¬ Walk.EachOnce (run "off")
        ((Walk.after Bare.deps (run "off") 0 [] ticks).leave Bare.deps (run "off") 0 noChild).rows
        (Walk.executedIds (Walk.meets Bare.deps (run "off") ((run "off").setup 0 []) ticks)) := by
  refine ⟨by decide +kernel, fun h ↦ ?_⟩
  have hcount := h.skipped off (.tail _ (.head _)) rfl (by decide +kernel)
  exact absurd hcount (by decide +kernel)

end SwitchedOff

end Enkaku
