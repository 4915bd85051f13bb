import Enkaku.Adb.Semaphore

/-!
# When the adb cap holds

What every call keeps (`Kept.step`), and the condition under which no acquire is counted in at or
above the cap (`safe_iff`).  A slot is taken twice when a fresh `acquire` finds the slot free that a
woken waiter has not counted itself in for, when a `resize` counts the slots of the woken waiters as
free, and when a `release` under a lowered cap wakes a waiter although too many slots are held.
-/

set_option autoImplicit false

namespace Enkaku.Adb.Semaphore

open List

open Semaphore

variable {s t u : Semaphore} {e : Event} {es : List Event} {id : Nat}

theorem wakeWhile_eq (max : Nat) (waiters : List Nat) : ∀ projected woken,
    wakeWhile max projected waiters woken =
      (waiters.drop (max - projected), woken ++ waiters.take (max - projected)) := by
  induction waiters with
  | nil => simp [wakeWhile]
  | cons w ws ih =>
    intro projected woken
    rw [wakeWhile]
    by_cases h : projected < max
    · obtain ⟨k, hk⟩ : ∃ k, max - projected = k + 1 := ⟨max - projected - 1, by omega⟩
      have hk' : max - (projected + 1) = k := by omega
      rw [if_pos h, ih, hk, hk']
      simp
    · have hk : max - projected = 0 := by omega
      simp [h, hk]

/-! ## What every call keeps -/

/-- The log, the names and the releasers agree. -/
structure Booked (s : Semaphore) : Prop where
  fifo : s.log.filterMap Entry.waited? ++ (s.woken ++ s.waiters) = s.log.filterMap Entry.slept?
  nodup : (s.woken ++ s.waiters).Nodup
  fresh : ∀ id ∈ s.woken ++ s.waiters, OrdMap.get? id s.releasers = none
  keys : (s.releasers.map (·.1)).Nodup
  inFlight : s.inFlight = s.releasers.countP (!·.2)
  grants : s.log.countP Entry.isGrant = s.releasers.length
  releases : s.log.countP Entry.isRelease = s.releasers.countP (·.2)
  once : ∀ id, s.log.count (.released id) = if OrdMap.get? id s.releasers = some true then 1 else 0

/-- **What every call keeps.** -/
structure Kept (s : Semaphore) : Prop extends Booked s where
  pos : 1 ≤ s.max
  /-- A waiter sleeps only when every free slot is promised to a woken one. -/
  awake : s.waiters ≠ [] → s.max ≤ s.inFlight + s.woken.length

theorem kept_of_new {max : Nat} (h : new max = some s) : Kept s := by
  rw [new] at h
  obtain ⟨hmax, ⟨⟩⟩ := Option.ite_none_left_eq_some.mp h
  exact ⟨⟨by simp, by simp, by simp, by simp, by simp, by simp, by simp, by simp⟩, Nat.not_lt.mp hmax,
    by simp⟩

theorem used_iff_of_get?_eq_none (h : OrdMap.get? id s.releasers = none) :
    s.Used id ↔ id ∈ s.woken ++ s.waiters := by
  rw [Used, mem_append, or_comm (a := id ∈ s.woken)]
  simp [h]

theorem get?_eq_none_of_not_used (h : ¬ s.Used id) : OrdMap.get? id s.releasers = none := by
  by_contra hget
  exact h (.inl hget)

/-- Counting in an acquire that nobody knows, or the first of the woken ones. -/
theorem Booked.grant (h : Booked s) (waited : Bool) {woken : List Nat}
    (hwoken : s.woken = if waited then id :: woken else woken)
    (hid : OrdMap.get? id s.releasers = none) (hne : ∀ j ∈ woken ++ s.waiters, id ≠ j) :
    Booked (grant { s with woken := woken } id waited) := by
  have hset := OrdMap.set_of_get?_eq_none hid false
  have hsub : (woken ++ s.waiters).Sublist (s.woken ++ s.waiters) := by
    rw [hwoken]
    cases waited <;> simp
  constructor
  case fifo =>
    have hfifo := h.fifo
    rw [hwoken] at hfifo
    cases waited <;>
      simpa [Semaphore.grant, Entry.waited?, Entry.slept?, filterMap_cons] using hfifo
  case nodup => exact h.nodup.sublist hsub
  case fresh =>
    intro j hj
    simpa [Semaphore.grant, OrdMap.get?_set_of_ne (hne j hj)] using h.fresh j (hsub.subset hj)
  case keys => exact OrdMap.nodup_set h.keys _ _
  case inFlight => simp [Semaphore.grant, hset, h.inFlight]
  case grants => simp [Semaphore.grant, hset, h.grants, Entry.isGrant]
  case releases => simp [Semaphore.grant, hset, h.releases, Entry.isRelease]
  case once =>
    intro j
    have honce := h.once j
    by_cases hj : id = j
    · subst hj
      simpa [Semaphore.grant, hid] using honce
    · simpa [Semaphore.grant, OrdMap.get?_set_of_ne hj] using honce

theorem Booked.inFlight_pos (h : Booked s) (hid : OrdMap.get? id s.releasers = some false) :
    1 ≤ s.inFlight := by
  rw [h.inFlight, one_le_countP_iff]
  exact ⟨_, OrdMap.mem_of_get? hid, by simp⟩

theorem Booked.sleep (h : Booked s) (hid : ¬ s.Used id) :
    Booked { s with waiters := s.waiters ++ [id], log := s.log ++ [.slept id] } := by
  have hnone := get?_eq_none_of_not_used hid
  rw [used_iff_of_get?_eq_none hnone] at hid
  constructor
  case fifo => simp [Entry.waited?, Entry.slept?, filterMap_cons, ← h.fifo]
  case nodup =>
    rw [← append_assoc, nodup_append]
    refine ⟨h.nodup, by simp, fun a ha b hb heq ↦ hid ?_⟩
    obtain rfl : b = id := by simpa using hb
    exact heq ▸ ha
  case fresh =>
    intro j hj
    rw [← append_assoc, mem_append, mem_singleton] at hj
    rcases hj with hj | rfl
    · exact h.fresh j hj
    · exact hnone
  case keys => exact h.keys
  case inFlight => exact h.inFlight
  case grants => simpa [Entry.isGrant] using h.grants
  case releases => simpa [Entry.isRelease] using h.releases
  case once =>
    intro j
    simpa using h.once j

/-- Waking `n` waiters. -/
theorem Booked.wake (h : Booked s) (n max : Nat) :
    Booked { s with
      max := max, waiters := s.waiters.drop n, woken := s.woken ++ s.waiters.take n } := by
  have happend : s.woken ++ s.waiters.take n ++ s.waiters.drop n = s.woken ++ s.waiters := by
    rw [append_assoc, take_append_drop]
  exact ⟨by simpa only [happend] using h.fifo, by simpa only [happend] using h.nodup,
    by simpa only [happend] using h.fresh, h.keys, h.inFlight, h.grants, h.releases, h.once⟩

theorem Booked.countOut (h : Booked s) (hid : OrdMap.get? id s.releasers = some false) :
    Booked { s with
      releasers := OrdMap.set id true s.releasers
      inFlight := s.inFlight - 1
      log := s.log ++ [.released id] } := by
  obtain ⟨l, r, hl, hset⟩ := OrdMap.set_of_get?_eq_some hid true
  constructor
  case fifo => simpa [Entry.waited?, Entry.slept?, filterMap_cons] using h.fifo
  case nodup => exact h.nodup
  case fresh =>
    intro j hj
    have hnone := h.fresh j hj
    have hne : id ≠ j := by
      rintro rfl
      simp [hid] at hnone
    simpa [OrdMap.get?_set_of_ne hne] using hnone
  case keys => exact OrdMap.nodup_set h.keys _ _
  case inFlight =>
    have hin := h.inFlight
    rw [hl] at hin
    simp at hin
    simp [hset]
    omega
  case grants =>
    have hgrants := h.grants
    rw [hl] at hgrants
    simpa [hset, Entry.isGrant] using hgrants
  case releases =>
    have hreleases := h.releases
    rw [hl] at hreleases
    simp at hreleases
    simp [hset, Entry.isRelease]
    omega
  case once =>
    intro j
    have honce := h.once j
    by_cases hj : id = j
    · subst hj
      simp [hid] at honce
      simp [count_append, honce]
    · simpa [OrdMap.get?_set_of_ne hj, hj, count_append] using honce

theorem wakeNext_eq (s : Semaphore) :
    s.wakeNext = { s with
      waiters := s.waiters.drop 1, woken := s.woken ++ s.waiters.take 1 } := by
  rw [wakeNext]
  split
  next h => cases s; simp_all
  next w ws h => simp [h]

theorem Kept.acquire (h : Kept s) (hid : ¬ s.Used id) : Kept (s.acquire id) := by
  have hnone := get?_eq_none_of_not_used hid
  rw [Semaphore.acquire]
  split_ifs with hfull
  · refine ⟨h.toBooked.grant false rfl hnone ?_, h.pos, fun hw ↦ ?_⟩
    · rintro j hj rfl
      exact hid ((used_iff_of_get?_eq_none hnone).mpr hj)
    · have hawake := h.awake hw
      simp [grant]
      omega
  · refine ⟨h.toBooked.sleep hid, h.pos, fun _ ↦ ?_⟩
    dsimp only
    omega

theorem Kept.continuation (h : Kept s) (ht : s.continuation = some t) : Kept t := by
  rw [Semaphore.continuation] at ht
  split at ht
  · simp at ht
  next w ws hwoken =>
    cases ht
    have hnodup := h.nodup
    rw [hwoken, cons_append, nodup_cons] at hnodup
    refine ⟨h.toBooked.grant true hwoken (h.fresh w (by simp [hwoken])) ?_, h.pos,
      fun hw ↦ ?_⟩
    · rintro j hj rfl
      exact hnodup.1 hj
    · have hle := h.awake hw
      simp only [hwoken, length_cons] at hle
      simp [grant]
      omega

/-- The slot a release frees is promised to the waiter it wakes. -/
theorem Kept.release (h : Kept s) : Kept (s.release id) := by
  rw [Semaphore.release]
  split_ifs with hid
  · rw [wakeNext_eq]
    refine ⟨(h.toBooked.countOut hid).wake 1 _, h.pos, fun hw ↦ ?_⟩
    have hwaiters : 1 < s.waiters.length := drop_eq_nil_iff.not.mp hw |> Nat.not_le.mp
    have hle := h.awake (ne_nil_of_length_pos (by omega))
    simp only [length_append, length_take]
    omega
  · exact h

theorem Kept.resize (h : Kept s) (max : Nat) : Kept (s.resize max) := by
  rw [Semaphore.resize]
  split_ifs with hmax
  · exact h
  · rw [wakeWhile_eq]
    refine ⟨h.toBooked.wake _ _, Nat.not_lt.mp hmax, fun hw ↦ ?_⟩
    have hlt : max - s.inFlight < s.waiters.length := by simpa using hw
    simp only [length_append, length_take]
    omega

theorem Kept.step (h : Kept s) (ht : s.step e = some t) : Kept t := by
  cases e with
  | acquire id =>
    rw [Semaphore.step] at ht
    obtain ⟨hid, ⟨⟩⟩ := Option.ite_none_left_eq_some.mp ht
    exact h.acquire hid
  | continuation => exact h.continuation ht
  | release id =>
    rw [Semaphore.step] at ht
    obtain ⟨-, ⟨⟩⟩ := Option.ite_none_left_eq_some.mp ht
    exact h.release
  | resize max =>
    cases ht
    exact h.resize max

theorem Kept.steps (h : Steps (Steps.By Semaphore.step) s es t) (h0 : Kept s) : Kept t :=
  h.invariant h0 fun _ _ _ hkept ht ↦ hkept.step ht

/-! ## Who sleeps and who holds -/

theorem releasers_wakeNext (s : Semaphore) : s.wakeNext.releasers = s.releasers := by
  rw [wakeNext_eq]

theorem queue_wakeNext (s : Semaphore) :
    s.wakeNext.woken ++ s.wakeNext.waiters = s.woken ++ s.waiters := by
  rw [wakeNext_eq, append_assoc, take_append_drop]

theorem releasers_resize (s : Semaphore) (max : Nat) : (s.resize max).releasers = s.releasers := by
  rw [resize]
  split_ifs <;> simp

/-- Being woken keeps a sleeper's place in the queue. -/
theorem queue_resize (s : Semaphore) (max : Nat) :
    (s.resize max).woken ++ (s.resize max).waiters = s.woken ++ s.waiters := by
  rw [resize]
  split_ifs
  · simp
  · simp only [wakeWhile_eq]
    rw [append_assoc, take_append_drop]

theorem queue_release (s : Semaphore) (id : Nat) :
    (s.release id).woken ++ (s.release id).waiters = s.woken ++ s.waiters := by
  rw [release]
  split_ifs
  · exact queue_wakeNext _
  · simp

theorem releasers_release (h : OrdMap.get? id s.releasers = some false) :
    (s.release id).releasers = OrdMap.set id true s.releasers := by
  rw [release, if_pos h, releasers_wakeNext]

/-- An acquire is counted in at once, or sleeps behind all others. -/
theorem acquire_cases (hid : ¬ s.Used id) :
    (id ∉ (s.acquire id).waiters ∧ (s.acquire id).woken ++ (s.acquire id).waiters =
        s.woken ++ s.waiters ∧ (s.acquire id).releasers = OrdMap.set id false s.releasers) ∨
      (id ∈ (s.acquire id).waiters ∧ (s.acquire id).woken ++ (s.acquire id).waiters =
        s.woken ++ s.waiters ++ [id] ∧ (s.acquire id).releasers = s.releasers) := by
  rw [acquire]
  split_ifs
  · exact .inl ⟨fun hmem ↦ hid (.inr (.inl hmem)), by simp [grant], by simp [grant]⟩
  · exact .inr ⟨by simp, by simp, by simp⟩

/-! ## A releaser counts once -/

/-- A releaser's flag is set by calling it and stays. -/
theorem flag_step (h : Kept s) (ht : s.step e = some t) :
    OrdMap.get? id t.releasers = some true ↔
      OrdMap.get? id s.releasers = some true ∨ e = .release id := by
  cases e with
  | acquire j =>
    rw [Semaphore.step] at ht
    obtain ⟨hj, ⟨⟩⟩ := Option.ite_none_left_eq_some.mp ht
    have hnone := get?_eq_none_of_not_used hj
    rw [acquire]
    split_ifs
    · rw [grant, OrdMap.get?_set]
      by_cases hji : j = id
      · subst hji
        simp [hnone]
      · simp [hji]
    · simp
  | continuation =>
    rw [Semaphore.step, continuation] at ht
    split at ht
    · simp at ht
    next w ws hwoken =>
      cases ht
      have hnone := h.fresh w (by simp [hwoken])
      rw [grant, OrdMap.get?_set]
      by_cases hwi : w = id
      · subst hwi
        simp [hnone]
      · simp [hwi]
  | release j =>
    rw [Semaphore.step] at ht
    obtain ⟨hj, ⟨⟩⟩ := Option.ite_none_left_eq_some.mp ht
    rw [release]
    split_ifs with hflag
    · rw [releasers_wakeNext, OrdMap.get?_set]
      by_cases hji : j = id
      · simp [hji]
      · simp [hji]
    · refine ⟨.inl, ?_⟩
      rintro (hid | hid)
      · exact hid
      · obtain rfl : j = id := by simpa using hid
        -- the releaser exists and its flag is set
        cases hget : OrdMap.get? j s.releasers with
        | none => exact absurd hget hj
        | some b => cases b <;> simp_all
  | resize max =>
    cases ht
    simp [releasers_resize]

theorem flag_iff_mem (h : Steps (Steps.By step) s es t) (h0 : Kept s) (hnone : s.releasers = []) :
    OrdMap.get? id t.releasers = some true ↔ .release id ∈ es := by
  induction h with
  | nil => simp [hnone]
  | snoc hrun he ih =>
    rw [flag_step (Kept.steps hrun h0) he, ih, mem_append, mem_singleton, eq_comm (b := _)]

/-! ## The cap -/

/-- Every slot promised to a woken waiter is free. -/
def Covered (s : Semaphore) : Prop := s.woken ≠ [] → s.inFlight + s.woken.length ≤ s.max

/-- The condition on a call under which the slots promised to woken waiters stay free: an `acquire`
does not take the last of them, a `release` that wakes a waiter is not one of more holders than the
cap allows, a `resize` has room for those woken before beside those it wakes. -/
def Fits (s : Semaphore) : Event → Prop
  | .acquire _ => s.woken = [] ∨ s.max ≤ s.inFlight ∨ s.inFlight + s.woken.length < s.max
  | .continuation => True
  | .release id =>
    OrdMap.get? id s.releasers = some false → s.woken = [] → s.waiters ≠ [] → s.inFlight ≤ s.max
  | .resize max =>
    1 ≤ max → s.woken ≠ [] →
      s.inFlight + s.woken.length + min s.waiters.length (max - s.inFlight) ≤ max

instance (s : Semaphore) : DecidablePred s.Fits
  | .acquire _ => inferInstanceAs (Decidable (_ ∨ _))
  | .continuation => inferInstanceAs (Decidable True)
  | .release _ => inferInstanceAs (Decidable (_ → _ → _ → _))
  | .resize _ => inferInstanceAs (Decidable (_ → _ → _))

theorem capped_snoc_granted {waited : Bool} {l : List Nat} :
    Capped (grant { s with woken := l } id waited) ↔ Capped s ∧ s.inFlight < s.max := by
  constructor
  · refine fun h ↦ ⟨fun j w n m hmem ↦ h j w n m ?_, h id waited s.inFlight s.max ?_⟩
    · exact mem_append_left _ hmem
    · simp [grant]
  · rintro ⟨hs, hlt⟩ j w n m hmem
    rcases mem_append.mp hmem with hmem | hmem
    · exact hs j w n m hmem
    · obtain ⟨-, -, rfl, rfl⟩ : j = id ∧ w = waited ∧ n = s.inFlight ∧ m = s.max := by
        simpa using hmem
      exact hlt

theorem capped_congr (h : ∀ id waited n m, .granted id waited n m ∈ s.log ↔
    .granted id waited n m ∈ t.log) : Capped s ↔ Capped t := by
  simp only [Capped, h]

/-- **One call** keeps the promises exactly if it fits. -/
theorem held_step_iff (hkept : Kept s) (hcapped : Capped s) (hcovered : Covered s)
    (ht : s.step e = some t) : Capped t ∧ Covered t ↔ s.Fits e := by
  cases e with
  | acquire id =>
    rw [Semaphore.step] at ht
    obtain ⟨-, ⟨⟩⟩ := Option.ite_none_left_eq_some.mp ht
    rw [acquire, Fits]
    split_ifs with hfree
    · have hgrant : Capped (s.grant id false) := capped_snoc_granted.mpr ⟨hcapped, hfree⟩
      refine (and_iff_right hgrant).trans ?_
      simp only [Covered, grant]
      by_cases hwoken : s.woken = []
      · simp [hwoken]
      · simp only [hwoken, ne_eq, not_false_eq_true, true_imp_iff, false_or]
        omega
    · have hlog : Capped { s with waiters := s.waiters ++ [id], log := s.log ++ [.slept id] } :=
        (capped_congr (by simp)).mpr hcapped
      refine (and_iff_right hlog).trans ?_
      exact ⟨fun _ ↦ .inr (.inl (Nat.not_lt.mp hfree)), fun _ ↦ hcovered⟩
  | continuation =>
    rw [Semaphore.step, continuation] at ht
    split at ht
    · simp at ht
    next w ws hwoken =>
      cases ht
      have hle := hcovered (by simp [hwoken])
      rw [hwoken, length_cons] at hle
      refine ⟨fun _ ↦ trivial, fun _ ↦ ⟨capped_snoc_granted.mpr ⟨hcapped, by omega⟩, fun _ ↦ ?_⟩⟩
      simp only [grant]
      omega
  | release id =>
    rw [Semaphore.step] at ht
    obtain ⟨-, ⟨⟩⟩ := Option.ite_none_left_eq_some.mp ht
    rw [release, Fits]
    split_ifs with hid
    · have hlog : Capped (wakeNext { s with
          releasers := OrdMap.set id true s.releasers
          inFlight := s.inFlight - 1
          log := s.log ++ [.released id] }) := by
        refine (capped_congr (by simp [wakeNext_eq])).mpr hcapped
      have hpos := hkept.inFlight_pos hid
      have hpromise := hcovered
      refine (and_iff_right hlog).trans ?_
      rw [wakeNext_eq]
      simp only [Covered, hid, true_imp_iff] at hpromise ⊢
      cases hwaiters : s.waiters with
      | nil =>
        simp
        intro hwoken
        have := hpromise hwoken
        omega
      | cons w ws =>
        by_cases hwoken : s.woken = []
        · simp [hwoken]
          omega
        · have := hpromise hwoken
          simp [hwoken]
          omega
    · simp [hid, hcapped, hcovered]
  | resize max =>
    cases ht
    rw [resize, Fits]
    split_ifs with hmax
    · simp [hcapped, hcovered, Nat.not_le.mpr hmax]
    · refine (and_iff_right ((capped_congr (by simp)).mpr hcapped)).trans ?_
      have hpromise := hcovered
      simp only [wakeWhile_eq, Covered, length_append, length_take] at hpromise ⊢
      by_cases hwoken : s.woken = []
      · simp [hwoken]
        omega
      · simp [hwoken]
        omega

/-- The pending continuations alone keep the promises. -/
theorem held_continuations {n : Nat} (hkept : Kept s) (hheld : Capped s ∧ Covered s)
    (h : Steps (Steps.By step) s (List.replicate n .continuation) t) : Capped t ∧ Covered t := by
  induction n generalizing t with
  | zero =>
    obtain rfl := Steps.eq_of_by h .nil
    exact hheld
  | succ n ih =>
    rw [replicate_succ'] at h
    obtain ⟨m, hm, he⟩ := Steps.snoc_iff.mp h
    have hm' := ih hm
    exact (held_step_iff (Kept.steps hm hkept) hm'.1 hm'.2 he).mpr trivial

/-- If the slots promised to the woken waiters are not free, one of these is counted in at or above
the cap. -/
theorem covered_of_continuations {woken : List Nat} (hwoken : s.woken = woken)
    (h : ∀ n u, Steps (Steps.By step) s (List.replicate n .continuation) u → Capped u) : Covered s := by
  induction woken generalizing s with
  | nil => exact fun hne ↦ absurd hwoken hne
  | cons w ws ih =>
    intro _
    have hstep : s.step .continuation = some (grant { s with woken := ws } w true) := by
      rw [step, continuation, hwoken]
    have hnow := (capped_snoc_granted.mp (h 1 _ (Steps.single hstep))).2
    have hlater := ih (s := grant { s with woken := ws } w true) rfl fun n u hu ↦
      h (n + 1) u (by simpa [replicate_succ] using Steps.cons hstep hu)
    rw [hwoken, length_cons]
    by_cases hws : ws = []
    · rw [hws, length_nil]
      omega
    · have hle := hlater hws
      simp only [grant] at hle
      omega

/-- Everything but the cap holds whatever happens. -/
theorem safe_iff_capped {max : Nat} (h0 : new max = some s) (h : Steps (Steps.By step) s es t) :
    Safe es t ↔ Capped t := by
  have hs := kept_of_new h0
  have ht := Kept.steps h hs
  have hnone : s.releasers = [] := by
    rw [new] at h0
    obtain ⟨-, ⟨⟩⟩ := Option.ite_none_left_eq_some.mp h0
    rfl
  refine ⟨Safe.capped, fun hcapped ↦ ⟨hcapped, fun id ↦ ?_, ?_, ⟨_, ht.fifo⟩, fun hwoken hw ↦ ?_⟩⟩
  · simp only [ht.once, flag_iff_mem h hs hnone]
  · rw [ht.inFlight, ht.grants, ht.releases, length_eq_countP_add_countP (·.2)]
    simp [Nat.add_comm]
  · simpa [hwoken] using ht.awake hw

/-- **The cap holds as long as every call fits.**  A run and the continuations that are pending in
the states it reaches keep what the semaphore promises exactly if no call of the run takes or
promises a slot that is promised already. -/
theorem safe_iff {max : Nat} (h0 : new max = some s) (h : Steps (Steps.By step) s es t) :
    (∀ pre, pre <+: es → ∀ n u, Steps (Steps.By step) s (pre ++ List.replicate n .continuation) u →
      Safe (pre ++ List.replicate n .continuation) u) ↔
    Steps.Guarded (Steps.By step) Fits s es t := by
  have hs := kept_of_new h0
  have hheld : Capped s ∧ Covered s := by
    rw [new] at h0
    obtain ⟨-, ⟨⟩⟩ := Option.ite_none_left_eq_some.mp h0
    exact ⟨by simp [Capped], by simp [Covered]⟩
  have hguarded := Steps.always_iff_guarded (I := fun s ↦ Capped s ∧ Covered s) (J := Kept) h hheld hs
    (fun _ _ _ hkept he _ ↦ hkept.step he)
    (fun _ _ _ hkept hheld he ↦ held_step_iff hkept hheld.1 hheld.2 he)
  rw [← hguarded]
  refine forall₂_congr fun pre hpre ↦ ⟨fun hall u hu ↦ ?_, fun hall n u hu ↦ ?_⟩
  · have hcapped : ∀ n v, Steps (Steps.By step) u (List.replicate n .continuation) v → Capped v :=
      fun n v hv ↦ (hall n v (hu.trans hv)).capped
    exact ⟨hcapped 0 u .nil, covered_of_continuations rfl hcapped⟩
  · obtain ⟨rest, rfl⟩ := hpre
    obtain ⟨m, hm, hmu⟩ := Steps.append_iff.mp hu
    exact (safe_iff_capped h0 hu).mpr
      (held_continuations (Kept.steps hm hs) (hall m hm) hmu).1

theorem safe_iff_one_slot :
    ∃ s t, new 1 = some s ∧
      Steps (Steps.By step) s [.acquire 0, .acquire 1, .release 0, .continuation, .release 1] t ∧
      ∀ pre, pre <+: [Event.acquire 0, .acquire 1, .release 0, .continuation, .release 1] →
        ∀ n u, Steps (Steps.By step) s (pre ++ List.replicate n .continuation) u →
          Safe (pre ++ List.replicate n .continuation) u :=
  ⟨_, _, rfl, Steps.steps_by_iff.mpr rfl,
    (safe_iff (show new 1 = some _ from rfl) (Steps.steps_by_iff.mpr rfl)).mpr
      (Steps.guarded_by_iff.mpr (by decide))⟩

/-- A slot that is handed over is taken by another acquire before the continuation runs: with a cap
of one, two acquires are counted in. -/
theorem not_safe_handed_over :
    ∃ s t, new 1 = some s ∧
      Steps (Steps.By step) s [.acquire 0, .acquire 1, .release 0, .acquire 2, .continuation] t ∧
      ¬ Safe [.acquire 0, .acquire 1, .release 0, .acquire 2, .continuation] t :=
  ⟨_, _, rfl, Steps.steps_by_iff.mpr rfl,
    fun h ↦ absurd (h.capped 1 true 1 1 (by decide)) (by decide)⟩

end Enkaku.Adb.Semaphore
