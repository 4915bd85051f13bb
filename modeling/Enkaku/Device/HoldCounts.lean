import Enkaku.Device.Readiness

/-!
# The holds and the hot sessions are accounted for

A hold counts from the call on, so that nobody puts the device to sleep while it is being woken.  Then
the counts are those of the holds that were granted and not released, or are being granted, and the
standing sessions are those in the map, unless one of these happens (`accounted_iff`): a `hold` call
rejects, for its transport does not connect; a session is acquired for a device that has got one in
the meantime, or when the budget has been used up; `releaseAll` hands back a device with holds; the
budget is lowered below the number of standing sessions.
-/

set_option autoImplicit false

namespace Enkaku.Device

open List OrdMap

/-- What the counts tell of a hold. -/
def Hold.key (h : Hold) : String × HoldReason := (h.deviceId, h.reason)

def Caller.keys : Caller → List (String × HoldReason)
  | .hold h => [h.key]
  | .other => []

def Work.keys : Work → List (String × HoldReason)
  | .wake _ caller => caller.keys
  | .acquire | .sleep .. => []

namespace ReadinessManager

/-- The holds that were granted and not released, and those that are being granted. -/
def held (s : ReadinessManager) : List (String × HoldReason) :=
  s.granted.map Hold.key ++ s.tasks.flatMap (·.work.keys)

/-- The counts are those of the holds, and the standing sessions those in the map: no more than the
budget, and each other one that was acquired has been released, once. -/
structure Accounted (s : ReadinessManager) : Prop where
  counts : ∀ deviceId, s.holdCount deviceId = s.held.countP (·.1 = deviceId)
  reasons : ∀ deviceId reason, s.holdReason deviceId reason = s.held.count (deviceId, reason)
  budget : s.desiredHotRelease.length ≤ s.maxHot
  standing : (s.desiredHotRelease ++ s.released).Perm s.acquired
  once : s.acquired.Nodup

/-- What has to be so when a task goes on. -/
def Task.Fine (s : ReadinessManager) (ok : Bool) (t : Task) : Prop :=
  match t.work with
  | .wake .connecting (.hold _) => ok
  | .acquire => ok → OrdMap.get? t.deviceId s.desiredHotRelease = none ∧
      s.desiredHotRelease.length < s.maxHot
  | _ => True

instance (s : ReadinessManager) (ok : Bool) (t : Task) : Decidable (Task.Fine s ok t) := by
  unfold Task.Fine
  split <;> infer_instance

/-- No `hold` call rejects, no session is acquired twice or over the budget, and none with holds is
handed back. -/
def Fine (s : ReadinessManager) : Event → Prop
  | .resume id ok => ∀ t ∈ s.taskOf id, Task.Fine s ok t
  | .releaseNext => ∀ deviceId ∈ s.releaseQueue.head?, ∀ k ∈ s.held, k.1 ≠ deviceId
  | .configure maxHot => s.desiredHotRelease.length ≤ maxHot
  | _ => True

instance (s : ReadinessManager) : ∀ e, Decidable (Fine s e)
  | .resume id ok => inferInstanceAs (Decidable (∀ t ∈ s.taskOf id, Task.Fine s ok t))
  | .releaseNext =>
    inferInstanceAs (Decidable (∀ deviceId ∈ s.releaseQueue.head?, ∀ k ∈ s.held, k.1 ≠ deviceId))
  | .configure maxHot => inferInstanceAs (Decidable (s.desiredHotRelease.length ≤ maxHot))
  | .hold .. | .release _ | .set .. | .reconcile _ | .releaseAll | .status .. | .session ..
  | .subsystems .. => isTrue trivial

/-! ## What a call does to what is accounted -/

variable {s t u : ReadinessManager} {deviceId : String} {extra extra' : List (String × HoldReason)}

/-- The names in use: of the tasks, and of the sessions that were acquired. -/
def names (s : ReadinessManager) : List Nat := s.tasks.map (·.id) ++ s.acquired.map (·.2)

/-- What every event keeps. -/
structure Kept (s : ReadinessManager) : Prop where
  names : s.names.Nodup
  below : ∀ i ∈ s.names, i < s.nextId
  keys : (s.desiredHotRelease.map (·.1)).Nodup

/-- A part of a call that counts nothing and leaves these holds, those there were and `extra`. -/
structure Leaves (extra : List (String × HoldReason)) (s t : ReadinessManager) : Prop where
  holdCounts : t.holdCounts = s.holdCounts
  holdReasons : t.holdReasons = s.holdReasons
  held : t.held.Perm (s.held ++ extra)
  maxHot : t.maxHot = s.maxHot
  hot : t.desiredHotRelease.length ≤ s.desiredHotRelease.length
  standing : (t.desiredHotRelease ++ t.released).Perm (s.desiredHotRelease ++ s.released)
  acquired : t.acquired = s.acquired
  kept : Kept s → Kept t

theorem Leaves.refl (s : ReadinessManager) : Leaves [] s s :=
  ⟨rfl, rfl, by simp, rfl, le_rfl, List.Perm.refl _, rfl, id⟩

theorem Leaves.trans (h : Leaves extra s t) (h' : Leaves extra' t u) :
    Leaves (extra ++ extra') s u where
  holdCounts := h'.holdCounts.trans h.holdCounts
  holdReasons := h'.holdReasons.trans h.holdReasons
  held := by
    rw [← append_assoc]
    exact h'.held.trans (h.held.append_right _)
  maxHot := h'.maxHot.trans h.maxHot
  hot := Nat.le_trans h'.hot h.hot
  standing := h'.standing.trans h.standing
  acquired := h'.acquired.trans h.acquired
  kept hk := h'.kept (h.kept hk)

/-- The fields that are accounted for. -/
def books (s : ReadinessManager) :=
  (s.holdCounts, s.holdReasons, s.granted, s.tasks, s.maxHot, s.desiredHotRelease, s.released,
    s.acquired, s.nextId)

/-- A change of what is not accounted for. -/
theorem Leaves.of_books (h : t.books = s.books) : Leaves [] s t := by
  simp only [books, Prod.mk.injEq] at h
  obtain ⟨hcounts, hreasons, hgranted, htasks, hmaxHot, hhot, hreleased, hacquired, hnext⟩ := h
  have hnames : t.names = s.names := by
    rw [ReadinessManager.names, ReadinessManager.names, htasks, hacquired]
  refine ⟨hcounts, hreasons, ?_, hmaxHot, Nat.le_of_eq (congrArg List.length hhot), ?_, hacquired,
    fun hk ↦ ⟨hnames ▸ hk.names, fun i hi ↦ ?_, hhot ▸ hk.keys⟩⟩
  · rw [ReadinessManager.held, ReadinessManager.held, hgranted, htasks, append_nil]
  · rw [hhot, hreleased]
  · rw [hnext]
    exact hk.below i (hnames ▸ hi)

section

variable (s : ReadinessManager)

theorem finish_leaves (caller : Caller) : Leaves caller.keys s (s.finish caller) := by
  cases caller with
  | other => exact Leaves.refl s
  | hold h =>
    refine ⟨rfl, rfl, ?_, rfl, le_rfl, List.Perm.refl _, rfl, fun hk ↦ ⟨hk.names, hk.below, hk.keys⟩⟩
    simp only [held, finish, map_append, map_cons, map_nil, Caller.keys]
    rw [append_assoc, append_assoc]
    exact perm_append_comm.append_left _

theorem await_leaves (deviceId : String) (work : Work) : Leaves work.keys s (s.await deviceId work) := by
  refine ⟨rfl, rfl, ?_, rfl, le_rfl, List.Perm.refl _, rfl, fun hk ↦ ⟨?_, fun i hi ↦ ?_, hk.keys⟩⟩
  · simp [held, await, flatMap_append]
  · have hperm : (s.await deviceId work).names.Perm (s.nextId :: s.names) := by
      simp only [names, await, map_append, map_cons, map_nil, append_assoc, singleton_append]
      exact perm_middle
    rw [hperm.nodup_iff, nodup_cons]
    exact ⟨fun hmem ↦ Nat.lt_irrefl _ (hk.below _ hmem), hk.names⟩
  · simp only [names, await, map_append, map_cons, map_nil, append_assoc,
      singleton_append, mem_append, mem_cons] at hi
    have hle : i ≤ s.nextId := by
      rcases hi with hi | rfl | hi
      · exact Nat.le_of_lt (hk.below i (mem_append_left _ hi))
      · exact le_rfl
      · exact Nat.le_of_lt (hk.below i (mem_append_right _ hi))
    exact Nat.lt_succ_of_le hle

theorem wake_leaves (deviceId : String) (caller : Caller) :
    Leaves caller.keys s (s.wake deviceId caller) := by
  rw [wake]
  split_ifs
  · exact await_leaves s deviceId (.wake .connecting caller)
  · exact finish_leaves s caller

theorem ensureAwake_leaves (deviceId : String) (caller : Caller) :
    Leaves caller.keys s (s.ensureAwake deviceId caller) := by
  rw [ensureAwake]
  split
  · exact finish_leaves s caller
  · split_ifs
    · exact finish_leaves s caller
    · exact await_leaves s deviceId (.wake .observing caller)
    · exact wake_leaves s deviceId caller

theorem releaseAwake_leaves (deviceId : String) (reconciling : Bool) :
    Leaves [] s (s.releaseAwake deviceId reconciling) := by
  rw [releaseAwake]
  have hsame : Leaves [] s { s with keepAwakeApplied := s.keepAwakeApplied.erase deviceId } :=
    .of_books rfl
  by_cases hblocking : s.workHolds deviceId > 0
  · rw [if_pos hblocking]
    exact Leaves.refl s
  · rw [if_neg hblocking]
    dsimp only
    split_ifs
    · exact hsame.trans (await_leaves _ deviceId (.sleep .connecting reconciling))
    · exact hsame

end

/-- A session that is handed back goes from the map to those that were released. -/
theorem releaseDesiredHot_leaves (hk : Kept s) (deviceId : String) :
    Leaves [] s (s.releaseDesiredHot deviceId) := by
  rw [releaseDesiredHot]
  split
  · exact Leaves.refl s
  next sub hsub =>
    have hperm : s.desiredHotRelease.Perm
        ((deviceId, sub) :: OrdMap.erase deviceId s.desiredHotRelease) :=
      perm_erase hk.keys hsub
    refine ⟨rfl, rfl, by simp [held], rfl, length_erase_le _ _, ?_, rfl, fun hk ↦
      ⟨hk.names, hk.below, nodup_erase hk.keys _⟩⟩
    show (OrdMap.erase deviceId s.desiredHotRelease ++ (s.released ++ [(deviceId, sub)])).Perm _
    rw [← append_assoc]
    refine (perm_append_singleton _ _).trans ?_
    rw [← cons_append]
    exact hperm.symm.append_right _

theorem reconcile_leaves (hk : Kept s) (deviceId : String) : Leaves [] s (s.reconcile deviceId) := by
  have hrelease := releaseDesiredHot_leaves hk deviceId
  rw [reconcile]
  split
  · exact Leaves.refl s
  next row _ =>
    by_cases hremote : row.remote
    · rw [if_pos hremote]
      exact Leaves.refl s
    · rw [if_neg hremote]
      split
      · exact hrelease.trans (.of_books rfl)
      · exact hrelease
      · split_ifs
        · exact Leaves.refl s
        · exact await_leaves s deviceId .acquire
        · exact ensureAwake_leaves s deviceId .other
      · exact hrelease.trans (ensureAwake_leaves _ deviceId .other)
      · exact hrelease.trans (releaseAwake_leaves _ deviceId true)

theorem set_leaves (hk : Kept s) (deviceId : String) (desired : Readiness) (inUse : Bool) :
    Leaves [] s (s.set deviceId desired inUse) := by
  rw [set]
  split
  · exact Leaves.refl s
  next row _ =>
    have hsame : Leaves [] s
        { s with rows := OrdMap.set deviceId { row with desired := desired } s.rows } :=
      .of_books rfl
    split_ifs
    · exact Leaves.refl s
    · exact Leaves.refl s
    · exact Leaves.refl s
    · exact hsame.trans (reconcile_leaves (hsame.kept hk) deviceId)

@[simp] theorem woken_key (deviceId : String) (h : Hold) : (Hold.woken deviceId h).key = h.key := by
  rw [Hold.woken]
  split_ifs <;> rfl

@[simp] theorem woken_keys (deviceId : String) (work : Work) :
    (Work.woken deviceId work).keys = work.keys := by
  cases work with
  | wake phase caller =>
    cases caller with
    | hold h => exact congrArg ([·]) (woken_key deviceId h)
    | other => rfl
  | acquire => rfl
  | sleep phase reconciling => rfl

theorem woken_leaves (s : ReadinessManager) (deviceId : String) : Leaves [] s (s.woken deviceId) := by
  refine ⟨rfl, rfl, ?_, rfl, le_rfl, List.Perm.refl _, rfl, fun hk ↦ ?_⟩
  · simp [held, woken, flatMap_map, Function.comp_def]
  · have hnames : (s.woken deviceId).names = s.names := by simp [names, woken, Function.comp_def]
    exact ⟨hnames ▸ hk.names, fun i hi ↦ hk.below i (hnames ▸ hi), hk.keys⟩

/-! ## The counts -/

/-- The counts are those of these holds. -/
def Counts (s : ReadinessManager) (l : List (String × HoldReason)) : Prop :=
  (∀ deviceId, s.holdCount deviceId = l.countP (·.1 = deviceId)) ∧
    ∀ deviceId reason, s.holdReason deviceId reason = l.count (deviceId, reason)

variable {l l' : List (String × HoldReason)} {key : String × HoldReason} {task : Task} {h : Hold}

theorem Counts.perm (hc : Counts s l) (hperm : l.Perm l') : Counts s l' :=
  ⟨fun deviceId ↦ (hc.1 deviceId).trans (hperm.countP_eq _),
    fun deviceId reason ↦ (hc.2 deviceId reason).trans (hperm.count_eq _)⟩

theorem Counts.congr (hc : Counts s l) (hcounts : t.holdCounts = s.holdCounts)
    (hreasons : t.holdReasons = s.holdReasons) : Counts t l := by
  refine ⟨fun deviceId ↦ ?_, fun deviceId reason ↦ ?_⟩
  · rw [holdCount, hcounts]
    exact hc.1 deviceId
  · rw [holdReason, byReason, hreasons]
    exact hc.2 deviceId reason

/-- The counts know how many holds there are. -/
theorem Counts.not_cons (hc : Counts s (key :: l)) : ¬ Counts s l := by
  intro hc'
  have heq := (hc.1 key.1).symm.trans (hc'.1 key.1)
  simp at heq

theorem Counts.countHold (hc : Counts s l) (deviceId : String) (reason : HoldReason) :
    Counts (s.countHold deviceId reason) (l ++ [(deviceId, reason)]) := by
  refine ⟨fun d ↦ ?_, fun d r ↦ ?_⟩
  · rw [countP_append, ← hc.1 d]
    by_cases hd : deviceId = d
    · subst hd
      simp [holdCount, ReadinessManager.countHold]
    · simp [holdCount, ReadinessManager.countHold, get?_set_of_ne hd, hd]
  · rw [count_append, ← hc.2 d r]
    by_cases hd : deviceId = d
    · subst hd
      by_cases hr : reason = r
      · subst hr
        simp [holdReason, byReason, ReadinessManager.countHold]
      · simp [holdReason, byReason, ReadinessManager.countHold, get?_set_of_ne hr, hr]
    · simp [holdReason, byReason, ReadinessManager.countHold, get?_set_of_ne hd, hd]

theorem getD_countDown {α : Type} [DecidableEq α] {counts : List (α × Nat)} {k : α}
    (hpos : 0 < (OrdMap.get? k counts).getD 0) (k' : α) :
    (OrdMap.get? k' (countDown k counts)).getD 0 =
      (OrdMap.get? k' counts).getD 0 - if k = k' then 1 else 0 := by
  obtain ⟨n, hn⟩ : ∃ n, OrdMap.get? k counts = some n := by
    cases h : OrdMap.get? k counts with
    | none => simp [h] at hpos
    | some n => exact ⟨n, rfl⟩
  simp only [countDown, hn, Option.getD_some]
  by_cases hk : k = k'
  · subst hk
    by_cases hzero : n - 1 = 0
    · simp [hn, hzero]
    · simp [hn, hzero]
  · by_cases hzero : n - 1 = 0
    · simp [hzero, hk, get?_erase_of_ne hk]
    · simp [hzero, hk, get?_set_of_ne hk]

/-- The number of holds on a device for this reason, read off the map. -/
def reasonIn (holdReasons : List (String × List (HoldReason × Nat))) (deviceId : String)
    (reason : HoldReason) : Nat :=
  (OrdMap.get? reason ((OrdMap.get? deviceId holdReasons).getD [])).getD 0

theorem reasonIn_dropReason {holdReasons : List (String × List (HoldReason × Nat))}
    {deviceId : String} {reason : HoldReason} (hpos : 0 < reasonIn holdReasons deviceId reason)
    (d : String) (r : HoldReason) :
    reasonIn (dropReason deviceId reason holdReasons) d r =
      reasonIn holdReasons d r - if deviceId = d ∧ reason = r then 1 else 0 := by
  cases hget : OrdMap.get? deviceId holdReasons with
  | none => simp [reasonIn, hget] at hpos
  | some byReason =>
    have hinner : 0 < (OrdMap.get? reason byReason).getD 0 := by simpa [reasonIn, hget] using hpos
    have hafter := getD_countDown hinner r
    simp only [dropReason, hget]
    generalize countDown reason byReason = after at hafter ⊢
    by_cases hd : deviceId = d
    · subst hd
      have hbefore : reasonIn holdReasons deviceId r = (OrdMap.get? r byReason).getD 0 := by
        simp [reasonIn, hget]
      rw [hbefore]
      simp only [true_and]
      rw [← hafter]
      by_cases hnil : after = []
      · simp [hnil, reasonIn]
      · simp [hnil, reasonIn]
    · by_cases hnil : after = []
      · simp [hnil, reasonIn, hd, get?_erase_of_ne hd]
      · simp [hnil, reasonIn, hd, get?_set_of_ne hd]

/-- The counts with one hold less. -/
theorem Counts.drop (hc : Counts s (h.key :: l)) (hcounts : t.holdCounts = countDown h.deviceId s.holdCounts)
    (hreasons : t.holdReasons = dropReason h.deviceId h.reason s.holdReasons) : Counts t l := by
  refine ⟨fun d ↦ ?_, fun d r ↦ ?_⟩
  · have hpos : 0 < s.holdCount h.deviceId := by
      rw [hc.1 h.deviceId]
      simp [Hold.key]
    have heq := hc.1 d
    rw [holdCount, hcounts, getD_countDown hpos]
    rw [holdCount, countP_cons] at heq
    rw [heq]
    by_cases hd : h.deviceId = d
    · simp [Hold.key, hd]
    · simp [Hold.key, hd]
  · have hpos : 0 < s.holdReason h.deviceId h.reason := by
      rw [hc.2 h.deviceId h.reason]
      simp [Hold.key]
    have heq := hc.2 d r
    rw [count_cons] at heq
    have hdrop : t.holdReason d r = reasonIn (dropReason h.deviceId h.reason s.holdReasons) d r := by
      rw [← hreasons]
      rfl
    rw [hdrop, reasonIn_dropReason hpos, show reasonIn s.holdReasons d r = s.holdReason d r from rfl, heq]
    simp [Hold.key]

/-- A device that is handed back has no counts. -/
theorem Counts.erase_iff {deviceId : String} (hc : Counts s l)
    (hcounts : t.holdCounts = OrdMap.erase deviceId s.holdCounts)
    (hreasons : t.holdReasons = OrdMap.erase deviceId s.holdReasons) :
    Counts t l ↔ ∀ k ∈ l, k.1 ≠ deviceId := by
  constructor
  · intro hc' k hk heq
    have hzero := hc'.1 deviceId
    rw [holdCount, hcounts, get?_erase_self, Option.getD_none] at hzero
    have hpos : 0 < l.countP (·.1 = deviceId) := countP_pos_iff.mpr ⟨k, hk, by simpa using heq⟩
    omega
  · intro hnone
    refine ⟨fun d ↦ ?_, fun d r ↦ ?_⟩
    · by_cases hd : deviceId = d
      · subst hd
        rw [holdCount, hcounts, get?_erase_self, Option.getD_none, eq_comm, countP_eq_zero]
        simpa using hnone
      · rw [holdCount, hcounts, get?_erase_of_ne hd]
        exact hc.1 d
    · by_cases hd : deviceId = d
      · subst hd
        rw [holdReason, byReason, hreasons, get?_erase_self, eq_comm]
        exact count_eq_zero.mpr fun hmem ↦ hnone _ hmem rfl
      · rw [holdReason, byReason, hreasons, get?_erase_of_ne hd]
        exact hc.2 d r

/-! ## When all is accounted for -/

theorem Accounted.toCounts (ha : Accounted s) : Counts s s.held := ⟨ha.counts, ha.reasons⟩

/-- The sessions are accounted for as before. -/
theorem Leaves.accounted_after_iff (hl : Leaves extra s t) (hbudget : s.desiredHotRelease.length ≤ s.maxHot)
    (hstanding : (s.desiredHotRelease ++ s.released).Perm s.acquired) (honce : s.acquired.Nodup) :
    Accounted t ↔ Counts s (s.held ++ extra) := by
  constructor
  · intro ha
    exact (ha.toCounts.congr hl.holdCounts.symm hl.holdReasons.symm).perm hl.held
  · intro hc
    have hc' := (hc.congr hl.holdCounts hl.holdReasons).perm hl.held.symm
    refine ⟨hc'.1, hc'.2, ?_, ?_, ?_⟩
    · rw [hl.maxHot]
      exact Nat.le_trans hl.hot hbudget
    · rw [hl.acquired]
      exact hl.standing.trans hstanding
    · rw [hl.acquired]
      exact honce

theorem Leaves.accounted (hl : Leaves [] s t) (ha : Accounted s) : Accounted t :=
  (hl.accounted_after_iff ha.budget ha.standing ha.once).mpr (by simpa using ha.toCounts)

/-- A task that leaves takes its hold along. -/
theorem leave_held (hmem : task ∈ s.tasks) : s.held.Perm ((s.leave task).held ++ task.work.keys) := by
  have hperm : (s.tasks.flatMap (·.work.keys)).Perm
      (task.work.keys ++ (s.tasks.erase task).flatMap (·.work.keys)) := by
    have hcons := (perm_cons_erase hmem).flatMap_right fun t ↦ t.work.keys
    rwa [flatMap_cons] at hcons
  simp only [held, leave, append_assoc]
  exact (hperm.trans perm_append_comm).append_left _

theorem leave_names (hmem : task ∈ s.tasks) : s.names.Perm (task.id :: (s.leave task).names) := by
  simp only [names, leave]
  rw [← cons_append, ← map_cons]
  exact ((perm_cons_erase hmem).map _).append_right _

theorem Kept.leave (hk : Kept s) (hmem : task ∈ s.tasks) : Kept (s.leave task) := by
  have hperm := leave_names hmem
  have hnodup := hperm.nodup_iff.mp hk.names
  exact ⟨(nodup_cons.mp hnodup).2, fun i hi ↦ hk.below i (hperm.mem_iff.mpr (.tail _ hi)), hk.keys⟩

/-- A task goes on with its hold. -/
theorem Leaves.accounted_of_leave (hl : Leaves task.work.keys (s.leave task) t) (ha : Accounted s)
    (hmem : task ∈ s.tasks) : Accounted t := by
  refine (hl.accounted_after_iff ha.budget ha.standing ha.once).mpr ?_
  exact (ha.toCounts.perm (leave_held hmem)).congr rfl rfl

/-- A task goes on without its hold. -/
theorem accounted_leave_iff (ha : Accounted s) (hmem : task ∈ s.tasks) :
    Accounted (s.leave task) ↔ task.work.keys = [] := by
  have hiff := (Leaves.refl (s.leave task)).accounted_after_iff ha.budget ha.standing ha.once
  rw [hiff, append_nil]
  have hc := (ha.toCounts.perm (leave_held hmem)).congr (t := s.leave task) rfl rfl
  constructor
  · intro hc'
    cases hkeys : task.work.keys with
    | nil => rfl
    | cons key rest =>
      obtain rfl : rest = [] := by
        cases hwork : task.work with
        | wake phase caller => cases caller <;> simp_all [Work.keys, Caller.keys]
        | acquire => simp [hwork, Work.keys] at hkeys
        | sleep phase reconciling => simp [hwork, Work.keys] at hkeys
      rw [hkeys] at hc
      exact absurd hc' (hc.perm perm_append_comm).not_cons
  · intro hkeys
    simpa [hkeys] using hc

/-! ## Each event -/

variable {e : Event} {es : List Event} {ok : Bool} {reason : HoldReason}

theorem hold_leaves (s : ReadinessManager) (deviceId : String) (reason : HoldReason) :
    Leaves [(deviceId, reason)] (s.countHold deviceId reason) (s.hold deviceId reason) := by
  rw [hold]
  split_ifs
  · exact ensureAwake_leaves _ deviceId (.hold ⟨s.nextId, deviceId, reason, s.Slept deviceId⟩)
  · exact finish_leaves _ (.hold ⟨s.nextId, deviceId, reason, s.Slept deviceId⟩)

theorem Kept.countHold (hk : Kept s) (deviceId : String) (reason : HoldReason) :
    Kept (s.countHold deviceId reason) :=
  ⟨hk.names, fun i hi ↦ Nat.lt_succ_of_lt (hk.below i hi), hk.keys⟩

theorem Accounted.hold (ha : Accounted s) (deviceId : String) (reason : HoldReason) :
    Accounted (s.hold deviceId reason) :=
  ((hold_leaves s deviceId reason).accounted_after_iff ha.budget ha.standing ha.once).mpr
    (ha.toCounts.countHold deviceId reason)

/-- The counts and the grants after a `release`, before the device is reconciled. -/
def dropHold (s : ReadinessManager) (h : Hold) : ReadinessManager :=
  { s with
    holdCounts := countDown h.deviceId s.holdCounts
    holdReasons := dropReason h.deviceId h.reason s.holdReasons
    granted := s.granted.erase h }

theorem release_leaves (hk : Kept s) (h : Hold) : Leaves [] (s.dropHold h) (s.release h) := by
  rw [release]
  split_ifs
  · exact reconcile_leaves (s := s.dropHold h) ⟨hk.names, hk.below, hk.keys⟩ h.deviceId
  · exact Leaves.refl _

theorem Accounted.dropHold (ha : Accounted s) (hmem : h ∈ s.granted) : Accounted (s.dropHold h) := by
  have hperm : s.held.Perm (h.key :: (s.dropHold h).held) := by
    simp only [held, ReadinessManager.dropHold]
    rw [← cons_append, ← map_cons]
    exact ((perm_cons_erase hmem).map _).append_right _
  have hc := (ha.toCounts.perm hperm).drop (t := s.dropHold h) rfl rfl
  exact ⟨hc.1, hc.2, ha.budget, ha.standing, ha.once⟩

/-- A task of a wake goes on with its hold, or it throws. -/
theorem resume_wake_leaves (s : ReadinessManager) {phase : WakePhase} {caller : Caller}
    (hwork : task.work = .wake phase caller) (hthrow : phase = .connecting → ok = true) :
    Leaves caller.keys s (s.resume task ok) := by
  cases phase with
  | observing =>
    simp only [resume, hwork]
    split_ifs
    · exact wake_leaves s task.deviceId caller
    · exact finish_leaves s caller
  | connecting =>
    simp only [resume, hwork, hthrow rfl, if_true]
    exact await_leaves s task.deviceId (.wake .waking caller)
  | waking =>
    simp only [resume, hwork]
    have hl := (woken_leaves s task.deviceId).trans
      (await_leaves (s.woken task.deviceId) task.deviceId (Work.woken task.deviceId (.wake .disconnecting caller)))
    rwa [woken_keys] at hl
  | disconnecting =>
    simp only [resume, hwork]
    have hsame : Leaves [] s { s with
        keepAwakeApplied := s.keepAwakeApplied.insert task.deviceId
        forcedAsleep := s.forcedAsleep.erase task.deviceId } :=
      .of_books rfl
    exact hsame.trans (finish_leaves _ caller)

theorem resume_sleep_leaves (s : ReadinessManager) {phase : SleepPhase} {reconciling : Bool}
    (hwork : task.work = .sleep phase reconciling) : Leaves [] s (s.resume task ok) := by
  cases phase with
  | connecting =>
    simp only [resume, hwork]
    split_ifs
    · exact await_leaves s task.deviceId (.sleep .pressing reconciling)
    · exact Leaves.refl s
  | pressing =>
    simp only [resume, hwork]
    have hsame : Leaves [] s { s with dark := s.dark.insert task.deviceId } :=
      .of_books rfl
    exact hsame.trans (await_leaves _ task.deviceId (.sleep .disconnecting reconciling))
  | disconnecting =>
    simp only [resume, hwork]
    split_ifs
    · exact .of_books rfl
    · exact Leaves.refl s

/-- A session that was acquired. -/
def enter (s : ReadinessManager) (task : Task) : ReadinessManager :=
  { s.leave task with
    desiredHotRelease := OrdMap.set task.deviceId task.id s.desiredHotRelease
    acquired := s.acquired ++ [(task.deviceId, task.id)] }

theorem Kept.enter (hk : Kept s) (hmem : task ∈ s.tasks) : Kept (s.enter task) := by
  have hperm : (s.enter task).names.Perm s.names := by
    refine List.Perm.trans ?_ (leave_names hmem).symm
    simp only [ReadinessManager.names, ReadinessManager.enter, ReadinessManager.leave, map_append,
      map_cons, map_nil]
    rw [← append_assoc]
    exact perm_append_singleton _ _
  exact ⟨hperm.nodup_iff.mpr hk.names, fun i hi ↦ hk.below i (hperm.mem_iff.mp hi),
    nodup_set hk.keys _ _⟩

theorem Kept.acquired (hk : Kept s) : s.acquired.Nodup :=
  List.Nodup.of_map _ (hk.names.sublist (sublist_append_right _ _))

/-- A session is accounted for exactly if the device had none and the budget has room. -/
theorem accounted_enter_iff (hk : Kept s) (ha : Accounted s) (hmem : task ∈ s.tasks)
    (hwork : task.work = .acquire) :
    Accounted (s.enter task) ↔ OrdMap.get? task.deviceId s.desiredHotRelease = none ∧
      s.desiredHotRelease.length < s.maxHot := by
  have hc : Counts (s.enter task) (s.enter task).held := by
    have hleave := (accounted_leave_iff ha hmem).mpr (by simp [hwork, Work.keys])
    exact hleave.toCounts.congr rfl rfl
  constructor
  · intro hentered
    have hlength := hentered.standing.length_eq
    have hbefore := ha.standing.length_eq
    simp only [length_append] at hlength hbefore
    have hset : (OrdMap.set task.deviceId task.id s.desiredHotRelease).length =
        s.desiredHotRelease.length + 1 := by
      simp only [enter, leave, length_append, length_singleton] at hlength
      omega
    cases hget : OrdMap.get? task.deviceId s.desiredHotRelease with
    | none =>
      have hbudget : (OrdMap.set task.deviceId task.id s.desiredHotRelease).length ≤ s.maxHot :=
        hentered.budget
      exact ⟨rfl, by omega⟩
    | some sub =>
      obtain ⟨l, r, hm, hset'⟩ := set_of_get?_eq_some hget task.id
      rw [hset', hm] at hset
      simp at hset
  · rintro ⟨hnone, hroom⟩
    have hset := set_of_get?_eq_none hnone task.id
    refine ⟨hc.1, hc.2, ?_, ?_, (hk.enter hmem).acquired⟩
    · show (OrdMap.set task.deviceId task.id s.desiredHotRelease).length ≤ s.maxHot
      rw [hset, length_append]
      exact hroom
    · show (OrdMap.set task.deviceId task.id s.desiredHotRelease ++ s.released).Perm
        (s.acquired ++ [(task.deviceId, task.id)])
      rw [hset, append_assoc]
      refine List.Perm.trans (List.Perm.append_left _ perm_append_comm) ?_
      rw [← append_assoc]
      exact ha.standing.append_right _

theorem resume_eq_enter (hwork : task.work = .acquire) : (s.leave task).resume task true = s.enter task := by
  simp [resume, hwork, enter, leave]

theorem Kept.resume (hk : Kept s) (hmem : task ∈ s.tasks) : Kept ((s.leave task).resume task ok) := by
  have hleave := hk.leave hmem
  cases hwork : task.work with
  | wake phase caller =>
    by_cases hthrow : phase = .connecting → ok = true
    · exact (resume_wake_leaves _ hwork hthrow).kept hleave
    · obtain ⟨rfl, hok⟩ := Classical.not_imp.mp hthrow
      simpa [ReadinessManager.resume, hwork, hok] using hleave
  | acquire =>
    cases ok with
    | true =>
      rw [resume_eq_enter hwork]
      exact hk.enter hmem
    | false =>
      simp only [ReadinessManager.resume, hwork]
      exact (ensureAwake_leaves _ task.deviceId .other).kept hleave
  | sleep phase reconciling => exact (resume_sleep_leaves _ hwork).kept hleave

theorem accounted_resume_iff (hk : Kept s) (ha : Accounted s) (hmem : task ∈ s.tasks) :
    Accounted ((s.leave task).resume task ok) ↔ Task.Fine s ok task := by
  cases hwork : task.work with
  | wake phase caller =>
    by_cases hthrow : phase = .connecting → ok = true
    · have hl : Leaves task.work.keys (s.leave task) ((s.leave task).resume task ok) := by
        rw [hwork]
        exact resume_wake_leaves _ hwork hthrow
      refine iff_of_true (hl.accounted_of_leave ha hmem) ?_
      rw [Task.Fine, hwork]
      cases phase with
      | connecting => cases caller <;> simp [hthrow rfl]
      | _ => exact trivial
    · obtain ⟨rfl, hok⟩ := Classical.not_imp.mp hthrow
      have heq : (s.leave task).resume task ok = s.leave task := by
        simp [resume, hwork, hok]
      rw [heq, accounted_leave_iff ha hmem, Task.Fine, hwork]
      cases caller with
      | hold h => simp [Work.keys, Caller.keys, hok]
      | other => simp [Work.keys, Caller.keys]
  | acquire =>
    cases ok with
    | true =>
      rw [resume_eq_enter hwork, accounted_enter_iff hk ha hmem hwork, Task.Fine, hwork]
      simp
    | false =>
      have hl : Leaves task.work.keys (s.leave task) ((s.leave task).resume task false) := by
        simp only [resume, hwork]
        exact ensureAwake_leaves _ task.deviceId .other
      refine iff_of_true (hl.accounted_of_leave ha hmem) ?_
      rw [Task.Fine, hwork]
      simp
  | sleep phase reconciling =>
    have hl : Leaves task.work.keys (s.leave task) ((s.leave task).resume task ok) := by
      rw [hwork]
      exact resume_sleep_leaves _ hwork
    refine iff_of_true (hl.accounted_of_leave ha hmem) ?_
    rw [Task.Fine, hwork]
    exact trivial

theorem mem_of_taskOf {id : Nat} (h : s.taskOf id = some task) : task ∈ s.tasks :=
  mem_of_find?_eq_some h

/-- The manager after a worker of `releaseAll` has dropped the counts of a device. -/
def dropCounts (s : ReadinessManager) (deviceId : String) (rest : List String) : ReadinessManager :=
  { s with
    releaseQueue := rest
    holdCounts := OrdMap.erase deviceId s.holdCounts
    holdReasons := OrdMap.erase deviceId s.holdReasons }

theorem Kept.step (hk : Kept s) (he : Steps.By step s e t) : Kept t := by
  have hsame {t : ReadinessManager} (hl : Leaves [] s t) : Kept t := hl.kept hk
  cases e with
  | hold deviceId reason =>
    cases he
    exact (hold_leaves s deviceId reason).kept (hk.countHold deviceId reason)
  | release id =>
    rw [Steps.By, ReadinessManager.step] at he
    split at he
    · cases he
      exact hk
    next h _ =>
      cases he
      exact (release_leaves hk h).kept ⟨hk.names, hk.below, hk.keys⟩
  | set deviceId desired inUse =>
    cases he
    exact hsame (set_leaves hk deviceId desired inUse)
  | reconcile deviceId =>
    cases he
    exact hsame (reconcile_leaves hk deviceId)
  | resume id ok =>
    obtain ⟨task, htask, rfl⟩ := Option.map_eq_some_iff.mp he
    exact hk.resume (mem_of_taskOf htask)
  | releaseAll | session deviceId opened | subsystems client sessions =>
    cases he
    exact hsame (.of_books rfl)
  | releaseNext =>
    cases he
    rw [releaseNext]
    split
    · exact hk
    next deviceId rest _ =>
      exact (releaseAwake_leaves (s.dropCounts deviceId rest) deviceId false).kept
        ⟨hk.names, hk.below, hk.keys⟩
  | status deviceId status =>
    obtain ⟨row, _, rfl⟩ := Option.map_eq_some_iff.mp he
    exact hsame (.of_books rfl)
  | configure maxHot =>
    cases he
    exact ⟨hk.names, hk.below, hk.keys⟩

theorem accounted_step_iff (hk : Kept s) (ha : Accounted s) (he : Steps.By step s e t) :
    Accounted t ↔ Fine s e := by
  have hsame {t : ReadinessManager} (hl : Leaves [] s t) : Accounted t ↔ True :=
    iff_of_true (hl.accounted ha) trivial
  cases e with
  | hold deviceId reason =>
    cases he
    exact iff_of_true (ha.hold deviceId reason) trivial
  | release id =>
    rw [Steps.By, ReadinessManager.step] at he
    split at he
    · cases he
      exact iff_of_true ha trivial
    next h hfind =>
      cases he
      exact iff_of_true
        ((release_leaves hk h).accounted (ha.dropHold (mem_of_find?_eq_some hfind))) trivial
  | set deviceId desired inUse =>
    cases he
    exact hsame (set_leaves hk deviceId desired inUse)
  | reconcile deviceId =>
    cases he
    exact hsame (reconcile_leaves hk deviceId)
  | resume id ok =>
    obtain ⟨task, htask, rfl⟩ := Option.map_eq_some_iff.mp he
    rw [accounted_resume_iff hk ha (mem_of_taskOf htask), Fine, htask]
    simp
  | releaseAll | session deviceId opened | subsystems client sessions =>
    cases he
    exact hsame (.of_books rfl)
  | releaseNext =>
    cases he
    rw [Fine, releaseNext]
    cases hqueue : s.releaseQueue with
    | nil => exact iff_of_true ha (by simp)
    | cons deviceId rest =>
      have hl := releaseAwake_leaves (s.dropCounts deviceId rest) deviceId false
      have hiff : Accounted ((s.dropCounts deviceId rest).releaseAwake deviceId false) ↔
          ∀ k ∈ s.held, k.1 ≠ deviceId := by
        rw [hl.accounted_after_iff ha.budget ha.standing ha.once, append_nil]
        exact ha.toCounts.erase_iff rfl rfl
      simpa [dropCounts] using hiff
  | status deviceId status =>
    obtain ⟨row, _, rfl⟩ := Option.map_eq_some_iff.mp he
    exact hsame (.of_books rfl)
  | configure maxHot =>
    cases he
    exact ⟨fun h ↦ h.budget, fun h ↦ ⟨ha.counts, ha.reasons, h, ha.standing, ha.once⟩⟩

/-- **The holds and the standing sessions are accounted for exactly as long as no `hold` call rejects,
no session is acquired twice or over the budget, no device with holds is handed back and the budget
is not lowered below what stands.** -/
theorem accounted_iff {rows : List (String × DeviceRow)} {client sessions : Bool}
    {opened : List String} {maxHot : Nat}
    (h : Steps (Steps.By step) (new rows client sessions opened maxHot) es t) :
    (∀ pre, pre <+: es →
        ∀ u, Steps (Steps.By step) (new rows client sessions opened maxHot) pre u → Accounted u) ↔
      Steps.Guarded (Steps.By step) Fine (new rows client sessions opened maxHot) es t := by
  have hkept : Kept (new rows client sessions opened maxHot) :=
    ⟨by simp [new, names], by simp [new, names], by simp [new]⟩
  have haccounted : Accounted (new rows client sessions opened maxHot) :=
    ⟨by simp [new, holdCount, held], by simp [new, holdReason, byReason, held], by simp [new],
      by simp [new], by simp [new]⟩
  exact Steps.always_iff_guarded h haccounted hkept (fun _ _ _ hk he _ ↦ hk.step he)
    fun _ _ _ hk ha he ↦ accounted_step_iff hk ha he

/-- A device that is to be awake, which a hold wakes. -/
theorem accounted_woken : ∃ t,
    Steps (Steps.By step) (new [("d", ⟨.awake, .online, false⟩)] true true [] 1)
      [.hold "d" .job, .resume 1 true, .resume 2 true, .hold "d" .viewer, .resume 3 true,
        .release 0, .release 0] t ∧
    ∀ pre, pre <+: [.hold "d" .job, .resume 1 true, .resume 2 true, .hold "d" .viewer,
        .resume 3 true, .release 0, .release 0] →
      ∀ u, Steps (Steps.By step) (new [("d", ⟨.awake, .online, false⟩)] true true [] 1) pre u →
        Accounted u :=
  ⟨_, Steps.steps_by_iff.mpr rfl,
    (accounted_iff (Steps.steps_by_iff.mpr rfl)).mpr (Steps.guarded_by_iff.mpr (by decide))⟩

/-- A hold on a device whose transport does not connect is not granted, and counts. -/
theorem not_accounted_rejected : ¬ ∀ (rows : List (String × DeviceRow)) (client sessions : Bool)
    (opened : List String) (maxHot : Nat) (es : List Event) (t : ReadinessManager),
    Steps (Steps.By step) (new rows client sessions opened maxHot) es t → Accounted t := by
  intro hall
  have haccounted := hall [("d", ⟨.awake, .online, false⟩)] true true [] 1
    [.hold "d" .job, .resume 1 false] _ (Steps.steps_by_iff.mpr rfl)
  exact absurd (haccounted.counts "d") (by decide)

end ReadinessManager

end Enkaku.Device
