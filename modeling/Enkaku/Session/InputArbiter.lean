import Enkaku.Lib.Steps
import Mathlib.Data.List.Perm.Basic

/-!
# A lane of the input arbiter

`createInputArbiter` runs the actions of a lane one at a time and lets the others wait, a person's
before a job's and otherwise in the order they came.  When an action settles its callback clears the
running slot and resolves the caller, and the lane advances in a later microtask: a caller that
submits again at once finds the slot free.

Everything but the order and the cap holds of every run (`Kept`).  The order holds as long as nobody
takes the free slot before one who waits for it, and the cap as long as it is not lowered below the
number of those who wait (`in_order_iff`).
-/

set_option autoImplicit false

namespace Enkaku.Session

open List

/-- `InputSource.kind`. -/
inductive SourceKind where
  | user
  | job
  | agent
  deriving DecidableEq, Repr

/-- `PRIORITY_OF`. -/
def SourceKind.priority : SourceKind → Nat
  | user => 0
  | job | agent => 1

/-- A `QueueItem`, named by the number of its submission. -/
structure QueueItem where
  id : Nat
  kind : SourceKind
  deriving DecidableEq, Repr

def QueueItem.priority (item : QueueItem) : Nat := item.kind.priority

/-- It is of higher priority, or of the same and submitted earlier. -/
def QueueItem.Precedes (a b : QueueItem) : Prop :=
  a.priority < b.priority ∨ (a.priority = b.priority ∧ a.id < b.id)

instance (a b : QueueItem) : Decidable (a.Precedes b) := by
  unfold QueueItem.Precedes
  infer_instance

/-- How a submission settles. -/
inductive Outcome where
  /-- As its action did. -/
  | ran
  /-- `E_INPUT_BUSY`. -/
  | busy
  deriving DecidableEq, Repr

/-- A `LaneState`, with the cap it is under.  The last five fields are there for the statements about
runs, `advances` apart: that many `finally` callbacks are still to run. -/
structure Lane where
  maxQueueDepth : Nat
  running : Option QueueItem
  queue : List QueueItem
  refusals : Nat
  advances : Nat
  /-- The number of submissions. -/
  submitted : Nat
  /-- The actions that were started and have not settled. -/
  active : List QueueItem
  /-- The actions that were started, each with those that waited then. -/
  started : List (QueueItem × List QueueItem)
  settled : List (Nat × Outcome)
  deriving DecidableEq, Repr

namespace Lane

/-- `createLaneState`. -/
def new (maxQueueDepth : Nat) : Lane := ⟨maxQueueDepth, none, [], 0, 0, 0, [], [], []⟩

/-- `runNow`. -/
def runNow (l : Lane) (item : QueueItem) : Lane :=
  { l with
    running := some item
    active := l.active ++ [item]
    started := l.started ++ [(item, l.queue)] }

/-- `insertSorted`. -/
def insertSorted (queue : List QueueItem) (item : QueueItem) : List QueueItem :=
  queue.takeWhile (fun q ↦ ¬ q.priority > item.priority) ++
    item :: queue.dropWhile (fun q ↦ ¬ q.priority > item.priority)

/-- Refuses a submission. -/
def refuse (l : Lane) (id : Nat) : Lane :=
  { l with refusals := l.refusals + 1, settled := l.settled ++ [(id, .busy)] }

/-- `submit`. -/
def submit (l : Lane) (kind : SourceKind) : Lane :=
  let item : QueueItem := ⟨l.submitted, kind⟩
  let l := { l with submitted := l.submitted + 1 }
  if l.running.isNone then l.runNow item
  else if l.queue.length ≥ l.maxQueueDepth then l.refuse item.id
  else { l with queue := insertSorted l.queue item }

/-- The callback of an action that settled. -/
def settle (l : Lane) (item : QueueItem) : Lane :=
  { l with
    running := none
    active := l.active.erase item
    advances := l.advances + 1
    settled := l.settled ++ [(item.id, .ran)] }

/-- `advance`. -/
def advance (l : Lane) : Lane :=
  if l.running.isSome then l
  else match l.queue with
    | [] => l
    | next :: queue => { l with queue := queue }.runNow next

/-- What happens to a lane. -/
inductive Event
  | submit (kind : SourceKind)
  /-- The action of this submission settles. -/
  | settle (id : Nat)
  /-- A `finally` callback runs. -/
  | advance
  /-- The wait budget of a submission is over. -/
  | expire (id : Nat)
  /-- The setting behind `maxQueueDepth` changes. -/
  | configure (maxQueueDepth : Nat)
  deriving DecidableEq, Repr

/-- One event; none if it cannot happen. -/
def step (l : Lane) : Event → Option Lane
  | .submit kind => some (l.submit kind)
  | .settle id => (l.active.find? (·.id = id)).map l.settle
  | .advance => if l.advances = 0 then none else some { l with advances := l.advances - 1 }.advance
  | .expire id =>
    (l.queue.find? (·.id = id)).map fun item ↦ { l with queue := l.queue.erase item }.refuse item.id
  | .configure maxQueueDepth => some { l with maxQueueDepth := maxQueueDepth }

/-! ## What the arbiter promises -/

/-- How often a submission has settled, waits or runs. -/
def places (l : Lane) (id : Nat) : Nat :=
  (l.settled.map (·.1)).count id + (l.queue.map (·.id)).count id + (l.active.map (·.id)).count id

/-- One action at a time, in order, with no more waiting than the cap says; a refused action never
runs, and every submission has settled once, or waits, or runs, and waits for nothing once the
actions have settled and the callbacks have run. -/
structure Orderly (l : Lane) : Prop where
  one : l.active.length ≤ 1
  order : ∀ p ∈ l.started, ∀ w ∈ p.2, ¬ w.Precedes p.1
  depth : l.queue.length ≤ l.maxQueueDepth
  busy : ∀ p ∈ l.started, (p.1.id, .busy) ∉ l.settled
  once : ∀ id, l.places id = if id < l.submitted then 1 else 0
  drained : l.active = [] → l.advances = 0 → l.queue = []

/-- Nobody takes a free slot before one who waits and precedes him, and the cap is not lowered below
the number of those who wait. -/
def InTurn (l : Lane) : Event → Prop
  | .submit kind => l.running = none → ∀ w ∈ l.queue, ¬ w.Precedes ⟨l.submitted, kind⟩
  | .configure maxQueueDepth => l.queue.length ≤ maxQueueDepth
  | _ => True

instance (l : Lane) : ∀ e, Decidable (InTurn l e)
  | .submit kind =>
    inferInstanceAs (Decidable (l.running = none → ∀ w ∈ l.queue, ¬ w.Precedes ⟨l.submitted, kind⟩))
  | .configure maxQueueDepth => inferInstanceAs (Decidable (l.queue.length ≤ maxQueueDepth))
  | .settle _ | .advance | .expire _ => isTrue trivial

/-! ## What every event keeps -/

variable {l m : Lane} {e : Event} {es : List Event} {id : Nat} {item : QueueItem}

theorem insertSorted_perm (queue : List QueueItem) (item : QueueItem) :
    (insertSorted queue item).Perm (item :: queue) := by
  refine perm_middle.trans ?_
  rw [takeWhile_append_dropWhile]

theorem insertSorted_cons (q : QueueItem) (queue : List QueueItem) (item : QueueItem) :
    insertSorted (q :: queue) item =
      if q.priority > item.priority then item :: q :: queue else q :: insertSorted queue item := by
  by_cases h : q.priority > item.priority
  · simp [insertSorted, h]
  · simp [insertSorted, h, Nat.not_lt.mp h]

/-- What is inserted comes behind those it does not overtake. -/
theorem sorted_insertSorted {queue : List QueueItem} (h : queue.Pairwise QueueItem.Precedes)
    (hnew : ∀ w ∈ queue, w.id < item.id) : (insertSorted queue item).Pairwise QueueItem.Precedes := by
  induction queue with
  | nil => simp [insertSorted]
  | cons q queue ih =>
    obtain ⟨hq, hqueue⟩ := pairwise_cons.mp h
    obtain ⟨hid, hnew⟩ := forall_mem_cons.mp hnew
    rw [insertSorted_cons]
    split_ifs with hlt
    · refine pairwise_cons.mpr ⟨fun w hw ↦ ?_, h⟩
      rcases mem_cons.mp hw with rfl | hw
      · exact .inl hlt
      · rcases hq w hw with hpriority | ⟨hpriority, -⟩
        · exact .inl (by omega)
        · exact .inl (by omega)
    · refine pairwise_cons.mpr ⟨fun w hw ↦ ?_, ih hqueue hnew⟩
      rcases mem_cons.mp ((insertSorted_perm queue item).mem_iff.mp hw) with rfl | hw
      · rw [QueueItem.Precedes]
        omega
      · exact hq w hw

/-- What every event keeps, in whatever order they come. -/
structure Kept (l : Lane) : Prop where
  active : l.active = l.running.toList
  sorted : l.queue.Pairwise QueueItem.Precedes
  once : ∀ id, l.places id = if id < l.submitted then 1 else 0
  /-- What was started runs or has settled by itself. -/
  started : ∀ p ∈ l.started, p.1 ∈ l.active ∨ (p.1.id, .ran) ∈ l.settled
  awake : l.queue ≠ [] → l.running.isSome ∨ l.advances ≠ 0

theorem kept_new (maxQueueDepth : Nat) : Kept (new maxQueueDepth) :=
  ⟨by simp [new], by simp [new], by simp [new, places], by simp [new], by simp [new]⟩

theorem Kept.id_lt (h : Kept l) (hitem : item ∈ l.queue) : item.id < l.submitted := by
  have hcount : 0 < (l.queue.map (·.id)).count item.id :=
    count_pos_iff.mpr (mem_map_of_mem hitem)
  have honce := h.once item.id
  rw [places] at honce
  split_ifs at honce with hlt
  · exact hlt
  · omega

/-- An action that was started has not been refused. -/
theorem Kept.not_busy (h : Kept l) {p : QueueItem × List QueueItem} (hp : p ∈ l.started) :
    (p.1.id, .busy) ∉ l.settled := by
  intro hbusy
  have honce := h.once p.1.id
  have hle : l.places p.1.id ≤ 1 := by
    rw [honce]
    split_ifs <;> omega
  rw [places] at hle
  rcases h.started p hp with hactive | hran
  · have hsettled : 0 < (l.settled.map (·.1)).count p.1.id :=
      count_pos_iff.mpr (mem_map.mpr ⟨_, hbusy, rfl⟩)
    have hrunning : 0 < (l.active.map (·.id)).count p.1.id :=
      count_pos_iff.mpr (mem_map_of_mem hactive)
    omega
  · -- the two entries are different ones with the same name
    have hsub : [(p.1.id, Outcome.busy), (p.1.id, .ran)].Subperm l.settled :=
      subperm_of_subset (by simp) (by simp [hbusy, hran])
    have hcount : 2 ≤ (l.settled.map (·.1)).count p.1.id := by
      obtain ⟨l', hperm, hsublist⟩ := hsub
      have hle' := (hsublist.map (·.1)).count_le p.1.id
      rw [(hperm.map (·.1)).count_eq] at hle'
      simpa using hle'
    omega

/-- Starting an action that stands nowhere yet. -/
theorem kept_runNow (hactive : l.active = []) (hsorted : l.queue.Pairwise QueueItem.Precedes)
    (hstarted : ∀ p ∈ l.started, p.1 ∈ l.active ∨ (p.1.id, .ran) ∈ l.settled)
    (hnew : ∀ id, l.places id + (if item.id = id then 1 else 0) = if id < l.submitted then 1 else 0) :
    Kept (l.runNow item) := by
  refine ⟨by simp [runNow, hactive], hsorted, fun id ↦ ?_, fun p hp ↦ ?_, by simp [runNow]⟩
  · have hid := hnew id
    simp only [places, hactive, map_nil, count_nil] at hid
    simp only [places, runNow, hactive, nil_append, map_cons, map_nil, count_cons, count_nil, beq_iff_eq]
    omega
  · rcases mem_append.mp hp with hp | hp
    · rcases hstarted p hp with hmem | hran
      · simp [hactive] at hmem
      · exact .inr hran
    · obtain rfl := mem_singleton.mp hp
      exact .inl (by simp [runNow])

section

variable (h : Kept l)
include h

theorem Kept.active_eq_nil (hnone : l.running = none) : l.active = [] := by
  simp [h.active, hnone]

theorem Kept.submit (kind : SourceKind) : Kept (l.submit kind) := by
  have hnext : ∀ id, l.places id + (if l.submitted = id then 1 else 0) =
      if id < l.submitted + 1 then 1 else 0 := by
    intro id
    rw [h.once id]
    split_ifs <;> omega
  rw [Lane.submit]
  split_ifs with hnone hfull
  · rw [Option.isNone_iff_eq_none] at hnone
    exact kept_runNow (h.active_eq_nil hnone) h.sorted h.started hnext
  · refine ⟨h.active, h.sorted, fun id ↦ ?_, fun p hp ↦ ?_, h.awake⟩
    · have hid := hnext id
      show places _ id = if id < l.submitted + 1 then 1 else 0
      simp only [places, refuse, map_append, map_cons, map_nil, count_append,
        count_cons, count_nil, beq_iff_eq] at hid ⊢
      omega
    · exact (h.started p hp).imp_right fun hran ↦ mem_append_left _ hran
  · refine ⟨h.active, sorted_insertSorted h.sorted fun w hw ↦ h.id_lt hw, fun id ↦ ?_, h.started,
      fun _ ↦ .inl ?_⟩
    · have hid := hnext id
      have hcount := ((insertSorted_perm l.queue ⟨l.submitted, kind⟩).map (·.id)).count_eq id
      simp only [places, map_cons, count_cons, beq_iff_eq] at hid hcount ⊢
      omega
    · simpa [Option.isSome_iff_ne_none] using hnone

theorem Kept.settle (hitem : item ∈ l.active) : Kept (l.settle item) := by
  have hrunning : l.running = some item := by
    rw [h.active, Option.mem_toList] at hitem
    simpa using hitem
  have hactive : l.active = [item] := by simp [h.active, hrunning]
  refine ⟨by simp [Lane.settle, hactive], h.sorted, fun id ↦ ?_, fun p hp ↦ .inr ?_,
    fun _ ↦ .inr (by simp [Lane.settle])⟩
  · have hid := h.once id
    simp only [places, hactive, Lane.settle, erase_cons_head, map_append, map_cons,
      map_nil, count_append, count_cons, count_nil, beq_iff_eq] at hid ⊢
    omega
  · rcases h.started p hp with hmem | hran
    · rw [hactive, mem_singleton] at hmem
      simp [Lane.settle, hmem]
    · exact mem_append_left _ hran

theorem Kept.advance : Kept { l with advances := l.advances - 1 }.advance := by
  rw [Lane.advance]
  split_ifs with hrunning
  · exact ⟨h.active, h.sorted, h.once, h.started, fun _ ↦ .inl hrunning⟩
  · have hnone : l.running = none := by simpa [Option.isSome_iff_ne_none] using hrunning
    cases hqueue : l.queue with
    | nil =>
      refine ⟨h.active, List.Pairwise.nil, fun id ↦ ?_, h.started, fun hne ↦ absurd rfl hne⟩
      simpa only [places, hqueue] using h.once id
    | cons next queue =>
      have hsorted := h.sorted
      rw [hqueue] at hsorted
      refine kept_runNow (h.active_eq_nil hnone) (pairwise_cons.mp hsorted).2 h.started
        fun id ↦ ?_
      have hid := h.once id
      simp only [places, hqueue, map_cons, count_cons, beq_iff_eq] at hid ⊢
      omega

theorem Kept.expire (hitem : item ∈ l.queue) :
    Kept ({ l with queue := l.queue.erase item }.refuse item.id) := by
  refine ⟨h.active, h.sorted.sublist erase_sublist, fun id ↦ ?_, fun p hp ↦ ?_, fun hne ↦ ?_⟩
  · have hid := h.once id
    have hcount := ((perm_cons_erase hitem).map (·.id)).count_eq id
    show places _ id = if id < l.submitted then 1 else 0
    simp only [places, refuse, map_append, map_cons, map_nil, count_append,
      count_cons, count_nil, beq_iff_eq] at hid hcount ⊢
    omega
  · exact (h.started p hp).imp_right fun hran ↦ mem_append_left _ hran
  · exact h.awake (ne_nil_of_mem hitem)

theorem Kept.step (he : Steps.By step l e m) : Kept m := by
  cases e with
  | submit kind =>
    cases he
    exact h.submit kind
  | settle id =>
    obtain ⟨item, hfind, rfl⟩ := Option.map_eq_some_iff.mp he
    exact h.settle (mem_of_find?_eq_some hfind)
  | advance =>
    rw [Steps.By, Lane.step] at he
    split_ifs at he
    cases he
    exact h.advance
  | expire id =>
    obtain ⟨item, hfind, rfl⟩ := Option.map_eq_some_iff.mp he
    exact h.expire (mem_of_find?_eq_some hfind)
  | configure maxQueueDepth =>
    cases he
    exact ⟨h.active, h.sorted, h.once, h.started, h.awake⟩

/-! ## When the lane is orderly -/

theorem Kept.orderly (horder : ∀ p ∈ l.started, ∀ w ∈ p.2, ¬ w.Precedes p.1)
    (hdepth : l.queue.length ≤ l.maxQueueDepth) : Orderly l := by
  refine ⟨?_, horder, hdepth, fun p hp ↦ h.not_busy hp, h.once, fun hactive hadvances ↦ ?_⟩
  · rw [h.active]
    cases l.running <;> simp
  · by_contra hne
    rcases h.awake hne with hrunning | hadvancing
    · rw [h.active] at hactive
      cases hnone : l.running with
      | none => simp [hnone] at hrunning
      | some item => simp [hnone] at hactive
    · exact hadvancing hadvances

end

/-- The order of the actions started before and of one more. -/
theorem order_append_iff {started : List (QueueItem × List QueueItem)} {queue : List QueueItem} :
    (∀ p ∈ started ++ [(item, queue)], ∀ w ∈ p.2, ¬ w.Precedes p.1) ↔
      (∀ p ∈ started, ∀ w ∈ p.2, ¬ w.Precedes p.1) ∧ ∀ w ∈ queue, ¬ w.Precedes item := by
  simp [or_imp, forall_and]

theorem QueueItem.not_precedes {a b : QueueItem} (h : a.Precedes b) : ¬ b.Precedes a := by
  simp only [QueueItem.Precedes] at h ⊢
  omega

theorem orderly_step_iff (hk : Kept l) (ho : Orderly l) (he : Steps.By step l e m) :
    Orderly m ↔ InTurn l e := by
  have hm := hk.step he
  cases e with
  | submit kind =>
    cases he
    rw [Lane.submit] at hm ⊢
    split_ifs at hm ⊢ with hnone hfull
    · rw [Option.isNone_iff_eq_none] at hnone
      refine ⟨fun h _ ↦ (order_append_iff.mp h.order).2, fun hturn ↦ ?_⟩
      exact hm.orderly (order_append_iff.mpr ⟨ho.order, hturn hnone⟩) ho.depth
    · exact iff_of_true (hm.orderly ho.order ho.depth) fun h ↦ absurd (by simp [h]) hnone
    · refine iff_of_true (hm.orderly ho.order ?_) fun h ↦ absurd (by simp [h]) hnone
      rw [(insertSorted_perm _ _).length_eq]
      exact Nat.not_le.mp hfull
  | settle id =>
    obtain ⟨item, hfind, rfl⟩ := Option.map_eq_some_iff.mp he
    exact iff_of_true (hm.orderly ho.order ho.depth) trivial
  | advance =>
    rw [Steps.By, Lane.step] at he
    split_ifs at he
    cases he
    refine iff_of_true ?_ trivial
    rw [Lane.advance] at hm ⊢
    split_ifs at hm ⊢ with hrunning
    · exact hm.orderly ho.order ho.depth
    · have hsorted := hk.sorted
      have hdepth := ho.depth
      cases hqueue : l.queue with
      | nil =>
        simp only [hqueue] at hm ⊢
        exact hm.orderly ho.order (by simp)
      | cons next queue =>
        simp only [hqueue] at hm ⊢
        rw [hqueue] at hsorted hdepth
        refine hm.orderly (order_append_iff.mpr ⟨ho.order, fun w hw ↦ ?_⟩) ?_
        · exact QueueItem.not_precedes ((pairwise_cons.mp hsorted).1 w hw)
        · exact Nat.le_of_succ_le hdepth
  | expire id =>
    obtain ⟨item, hfind, rfl⟩ := Option.map_eq_some_iff.mp he
    exact iff_of_true (hm.orderly ho.order (Nat.le_trans length_erase_le ho.depth)) trivial
  | configure maxQueueDepth =>
    cases he
    exact ⟨fun h ↦ h.depth, fun hturn ↦ hm.orderly ho.order hturn⟩

/-- **A lane keeps its order exactly as long as nobody takes a free slot out of turn and the cap is
not lowered below the number of those who wait.** -/
theorem in_order_iff {maxQueueDepth : Nat} (h : Steps (Steps.By step) (new maxQueueDepth) es m) :
    (∀ pre, pre <+: es → ∀ u, Steps (Steps.By step) (new maxQueueDepth) pre u → Orderly u) ↔
      Steps.Guarded (Steps.By step) InTurn (new maxQueueDepth) es m := by
  have hkept := kept_new maxQueueDepth
  have horderly : Orderly (new maxQueueDepth) := hkept.orderly (by simp [new]) (by simp [new])
  exact Steps.always_iff_guarded h horderly hkept (fun _ _ _ hk he _ ↦ hk.step he)
    fun _ _ _ hk ho he ↦ orderly_step_iff hk ho he

/-- A person overtakes a job that waits. -/
theorem in_order_iff_user_first : ∃ m,
    Steps (Steps.By step) (new 2)
      [.submit .job, .submit .job, .submit .user, .settle 0, .advance, .settle 2, .advance] m ∧
    ∀ pre, pre <+: [.submit .job, .submit .job, .submit .user, .settle 0, .advance, .settle 2,
        .advance] →
      ∀ u, Steps (Steps.By step) (new 2) pre u → Orderly u :=
  ⟨_, Steps.steps_by_iff.mpr rfl,
    (in_order_iff (Steps.steps_by_iff.mpr rfl)).mpr (Steps.guarded_by_iff.mpr (by decide))⟩

/-- A caller that submits again when its action resolves is started before one who waits. -/
theorem not_orderly_resubmitted : ¬ ∀ (maxQueueDepth : Nat) (es : List Event) (m : Lane),
    Steps (Steps.By step) (new maxQueueDepth) es m → Orderly m := by
  intro hall
  have horderly := hall 2 [.submit .job, .submit .job, .settle 0, .submit .job] _
    (Steps.steps_by_iff.mpr rfl)
  exact nomatch horderly.order

end Lane

end Enkaku.Session
