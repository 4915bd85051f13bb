import Enkaku.Schedules.Runner
import Enkaku.Lib.Steps
import Mathlib.Data.List.Pairwise

/-!
# Every occurrence once

A fire stands for the occurrences since the one before it (`Fire.StandsFor`).  As long as every fire
claims a schedule that nobody has claimed since its caller read it (`Unclaimed`), the claims of a
schedule follow one on another (`Kept.follow`), so that no occurrence is dispatched twice and
`lastFiredAt` never goes back (`fired_once`).
-/

set_option autoImplicit false

namespace Enkaku.Schedules

open List

/-- What a fire stands for: the occurrences of its schedule from `first` to the time it is due. -/
def Fire.StandsFor (cron : Croner) (f : Fire) (second : Nat) : Prop :=
  f.first ≤ second ∧ second ≤ f.dueAt / 1000 ∧
    cron.Occurs f.schedule.cron f.schedule.timezone second

/-- Two fires of one schedule for one occurrence. -/
def Fire.Repeats (cron : Croner) (a b : Fire) : Prop :=
  a.schedule.id = b.schedule.id ∧ ∃ second, a.StandsFor cron second ∧ b.StandsFor cron second

namespace ScheduleRunner

/-- No occurrence is dispatched twice; the catch-up dispatches none that a wake has claimed before; and no
claim sets `lastFiredAt` back. -/
structure OncePerOccurrence (cron : Croner) (s : ScheduleRunner) : Prop where
  once : s.dispatched.Pairwise fun a b ↦ ¬ a.fire.Repeats cron b.fire
  claimed : ∀ w ∈ s.claims, ∀ d ∈ s.dispatched, w.isCatchUp = false → d.fire.isCatchUp = true →
    w.id < d.fire.id → ¬ w.Repeats cron d.fire
  forward : ∀ c ∈ s.claims, ∀ last ∈ c.before, last ≤ c.dueAt / 1000

/-- The rows that a catch-up claims before it awaits again. -/
def claimedRows (cron : Croner) (now : Nat) : List ScheduleRow → List ScheduleRow
  | [] => []
  | schedule :: rest =>
    match schedule.lastFiredAt with
    | none => claimedRows cron now rest
    | some last =>
      match cron.occurrencesBetween schedule.cron schedule.timezone (last * 1000) now with
      | .error _ => claimedRows cron now rest
      | .ok missed =>
        if missed = 0 then claimedRows cron now rest
        else
          match schedule.catchUp with
          | .skip => schedule :: claimedRows cron now rest
          | .once => [schedule]

/-- Nobody has claimed a schedule since the caller that claims it now has read it. -/
def Unclaimed (cron : Croner) (s : ScheduleRunner) : Event → Prop
  | .wake _ | .tick _ => ∀ p ∈ s.due, ∀ last ∈ s.lastFired p.1, last < p.2
  | .resume id _ => ∀ p ∈ s.pass? id, ∀ row ∈ claimedRows cron p.now p.rest,
      s.lastFired row.id = row.lastFiredAt
  | _ => True

instance (cron : Croner) (s : ScheduleRunner) : ∀ e, Decidable (Unclaimed cron s e)
  | .wake _ => inferInstanceAs (Decidable (∀ p ∈ s.due, ∀ last ∈ s.lastFired p.1, last < p.2))
  | .tick _ => inferInstanceAs (Decidable (∀ p ∈ s.due, ∀ last ∈ s.lastFired p.1, last < p.2))
  | .resume id _ => inferInstanceAs (Decidable (∀ p ∈ s.pass? id,
      ∀ row ∈ claimedRows cron p.now p.rest, s.lastFired row.id = row.lastFiredAt))
  | .advance .. | .start .. | .stop | .reload | .woken .. | .progress .. | .restart => isTrue trivial

variable {cron : Croner} {s t : ScheduleRunner} {e : Event} {es : List Event} {fire : Fire}
  {k : String}

theorem lastFired_claim_of_ne (hne : k ≠ fire.schedule.id) :
    (s.claim fire).lastFired k = s.lastFired k := by
  show ((s.update fire.schedule.id _).row? k).bind _ = _
  rw [row?_update, if_neg hne, lastFired]
  exact fun _ ↦ rfl

variable {row : ScheduleRow}

theorem lastFired_claim (hrow : s.row? fire.schedule.id = some row) :
    (s.claim fire).lastFired fire.schedule.id = some (fire.dueAt / 1000) := by
  show ((s.update fire.schedule.id _).row? fire.schedule.id).bind _ = _
  rw [row?_update, if_pos rfl, hrow]
  · rfl
  · exact fun _ ↦ rfl

theorem ids_claim : (s.claim fire).ids = s.ids :=
  ids_update fun _ ↦ rfl

/-! ## One fire -/

/-- Nothing is claimed. -/
structure Unmoved (s t : ScheduleRunner) : Prop where
  claims : t.claims = s.claims
  nextId : s.nextId ≤ t.nextId
  lastFired : ∀ k, t.lastFired k = s.lastFired k
  ids : t.ids = s.ids
  cache : t.nextFireCache = s.nextFireCache
  passes : t.passes = s.passes
  sleeping : t.sleeping = s.sleeping

theorem Unmoved.trans {u : ScheduleRunner} (h : Unmoved s t) (h' : Unmoved t u) : Unmoved s u :=
  ⟨h'.claims.trans h.claims, Nat.le_trans h.nextId h'.nextId,
    fun k ↦ (h'.lastFired k).trans (h.lastFired k), h'.ids.trans h.ids, h'.cache.trans h.cache,
    h'.passes.trans h.passes, h'.sleeping.trans h.sleeping⟩

theorem unmoved_update (s : ScheduleRunner) (id : String) {f : ScheduleRow → ScheduleRow}
    (hf : ∀ row, (f row).id = row.id) (hlast : ∀ row, (f row).lastFiredAt = row.lastFiredAt) :
    Unmoved s (s.update id f) :=
  ⟨rfl, le_rfl, fun _ ↦ lastFired_update hf hlast, ids_update hf, rfl, rfl, rfl⟩

theorem unmoved_dispatch (fire : Fire) (creation : Creation) : Unmoved s (s.dispatch fire creation) := by
  cases creation with
  | failed outcome => exact unmoved_update s _ (fun _ ↦ rfl) fun _ ↦ rfl
  | created members =>
    rw [dispatch]
    split_ifs
    · have h := unmoved_update s fire.schedule.id
        (f := fun row ↦ { row with lastFireOutcome := some .dispatched }) (fun _ ↦ rfl) fun _ ↦ rfl
      exact ⟨h.claims, h.nextId, h.lastFired, h.ids, h.cache, h.passes, h.sleeping⟩
    · have h := unmoved_update s fire.schedule.id
        (f := fun row ↦ { row with lastFireOutcome := some .dispatched, batchId := some s.nextId })
        (fun _ ↦ rfl) fun _ ↦ rfl
      exact ⟨h.claims, Nat.le_succ _, h.lastFired, h.ids, h.cache, h.passes, h.sleeping⟩

/-- The fire is dispatched once, or not at all. -/
theorem dispatched_dispatch (s : ScheduleRunner) (fire : Fire) (creation : Creation) :
    (s.dispatch fire creation).dispatched = s.dispatched ∨
      ∃ d, d.fire = fire ∧ (s.dispatch fire creation).dispatched = s.dispatched ++ [d] := by
  cases creation with
  | failed outcome => exact .inl rfl
  | created members =>
    rw [dispatch]
    split_ifs <;> exact .inr ⟨_, rfl, rfl⟩

/-- What a call of `fireOnce` does, as far as the claims go: it claims its time, and is then over, asleep
or dispatched. -/
structure ClaimedBy (s t : ScheduleRunner) (fire : Fire) : Prop where
  claims : t.claims = s.claims ++ [fire]
  nextId : s.nextId < t.nextId
  lastFired : ∀ k, t.lastFired k = (s.claim fire).lastFired k
  ids : t.ids = s.ids
  cache : t.nextFireCache = s.nextFireCache
  passes : t.passes = s.passes
  goesOn : (t.sleeping = s.sleeping ∧ t.dispatched = s.dispatched) ∨
    (t.sleeping = s.sleeping ++ [fire] ∧ t.dispatched = s.dispatched) ∨
    (t.sleeping = s.sleeping ∧ ∃ d, d.fire = fire ∧ t.dispatched = s.dispatched ++ [d])

theorem ClaimedBy.of_unmoved {u : ScheduleRunner} (h : Unmoved (s.claim fire) u)
    (hdispatched : u.dispatched = s.dispatched) : ClaimedBy s u fire :=
  ⟨h.claims, h.nextId, h.lastFired, h.ids.trans ids_claim, h.cache, h.passes, .inl ⟨h.sleeping, hdispatched⟩⟩

theorem unmoved_stopPrevious (s : ScheduleRunner) (schedule : ScheduleRow) (active : Bool)
    (m : Meeting) : Unmoved s (s.stopPrevious schedule active m) ∧
      (s.stopPrevious schedule active m).dispatched = s.dispatched := by
  rw [stopPrevious]
  split
  · exact ⟨⟨rfl, le_rfl, fun _ ↦ rfl, rfl, rfl, rfl, rfl⟩, rfl⟩
  · split_ifs
    · exact ⟨⟨rfl, le_rfl, fun _ ↦ rfl, rfl, rfl, rfl, rfl⟩, rfl⟩
    · exact ⟨⟨rfl, le_rfl, fun _ ↦ rfl, rfl, rfl, rfl, rfl⟩, rfl⟩

variable {schedule : ScheduleRow}

/-- A call that finds an agent dispatcher, or needs none, claims its time. -/
theorem claimedBy_fireOnce {m : Meeting} (dueAt first : Nat) (isCatchUp : Bool)
    (hwired : ¬ (schedule.target = .agent ∧ ¬ m.wired)) :
    ClaimedBy s (s.fireOnce schedule dueAt first isCatchUp m) (s.fireOf schedule dueAt first isCatchUp) := by
  rw [fireOnce, if_neg hwired]
  by_cases hskip : s.isPreviousActive schedule m ∧ schedule.onOverlap = .skip
  · rw [if_pos hskip]
    exact .of_unmoved (unmoved_update _ _ (fun _ ↦ rfl) fun _ ↦ rfl) rfl
  · rw [if_neg hskip]
    obtain ⟨hstop, hstopped⟩ := unmoved_stopPrevious (s.claim (s.fireOf schedule dueAt first isCatchUp))
      schedule (s.isPreviousActive schedule m) m
    by_cases hsleep : 0 < pickJitterMs schedule.jitterSec m.draw
    · rw [if_pos hsleep]
      exact ⟨hstop.claims, hstop.nextId, hstop.lastFired, hstop.ids.trans ids_claim, hstop.cache,
        hstop.passes,
        .inr (.inl ⟨by simp only [hstop.sleeping]; rfl, hstopped⟩)⟩
    · rw [if_neg hsleep]
      have hunmoved := hstop.trans (unmoved_dispatch (s.fireOf schedule dueAt first isCatchUp) m.creation)
      refine ⟨hunmoved.claims, hunmoved.nextId, hunmoved.lastFired, hunmoved.ids.trans ids_claim,
        hunmoved.cache, hunmoved.passes, ?_⟩
      rcases dispatched_dispatch _ (s.fireOf schedule dueAt first isCatchUp) m.creation with heq | ⟨d, hd, heq⟩
      · exact .inl ⟨hunmoved.sleeping, heq.trans hstopped⟩
      · refine .inr (.inr ⟨hunmoved.sleeping, d, hd, heq.trans ?_⟩)
        rw [hstopped]
        rfl

theorem fireOnce_cases (schedule : ScheduleRow) (dueAt first : Nat) (isCatchUp : Bool) (m : Meeting) :
    s.fireOnce schedule dueAt first isCatchUp m = s ∨
      ClaimedBy s (s.fireOnce schedule dueAt first isCatchUp m)
        (s.fireOf schedule dueAt first isCatchUp) := by
  by_cases hwired : schedule.target = .agent ∧ ¬ m.wired
  · rw [fireOnce]
    exact .inl (if_pos hwired)
  · exact .inr (claimedBy_fireOnce dueAt first isCatchUp hwired)

/-! ## What every claim keeps -/

/-- What every event keeps that claims only what nobody has claimed. -/
structure Kept (s : ScheduleRunner) : Prop where
  /-- The claims of a schedule follow one on another. -/
  follow : s.claims.Pairwise fun a b ↦ a.id < b.id ∧
    (a.schedule.id = b.schedule.id → a.dueAt / 1000 < b.first)
  below : ∀ c ∈ s.claims, c.id < s.nextId
  reached : ∀ c ∈ s.claims, ∃ last, s.lastFired c.schedule.id = some last ∧ c.dueAt / 1000 ≤ last
  forward : ∀ c ∈ s.claims, ∀ last ∈ c.before, last ≤ c.dueAt / 1000
  sleeping : ∀ f ∈ s.sleeping, f ∈ s.claims
  dispatched : ∀ d ∈ s.dispatched, d.fire ∈ s.claims
  distinct : (s.sleeping.map (·.id) ++ s.dispatched.map (·.fire.id)).Nodup
  ids : s.ids.Nodup
  cached : (s.nextFireCache.map (·.1)).Nodup
  rests : ∀ p ∈ s.passes, (p.rest.map (·.id)).Nodup

theorem kept_new (clock : Nat) (table : ScheduleTable) : Kept (new clock table) := by
  refine ⟨?_, ?_, ?_, ?_, ?_, ?_, ?_, ids_new clock table, ?_, ?_⟩ <;> simp [new]

section

variable (hk : Kept s)
include hk

/-- Two claims of a schedule stand for different occurrences. -/
theorem Kept.not_repeats {a b : Fire} (ha : a ∈ s.claims) (hb : b ∈ s.claims)
    (hne : a.id ≠ b.id) : ¬ a.Repeats cron b := by
  have hpair : s.claims.Pairwise fun a b ↦ a.id ≠ b.id → ¬ a.Repeats cron b := by
    refine hk.follow.imp ?_
    rintro a b ⟨-, hfollow⟩ - ⟨hsame, second, ⟨-, hle, -⟩, hge, -⟩
    have hlt := hfollow hsame
    omega
  have hsymm : Std.Symm fun a b : Fire ↦ a.id ≠ b.id → ¬ a.Repeats cron b := by
    refine ⟨?_⟩
    rintro a b h hne ⟨hsame, second, hb, ha⟩
    exact h hne.symm ⟨hsame.symm, second, ha, hb⟩
  exact hpair.forall ha hb (fun heq ↦ hne (congrArg Fire.id heq)) hne

theorem Kept.once : OncePerOccurrence cron s := by
  refine ⟨?_, fun w hw d hd _ _ hlt ↦ hk.not_repeats hw (hk.dispatched d hd) (Nat.ne_of_lt hlt), hk.forward⟩
  have hnodup := (nodup_append.mp hk.distinct).2.1
  rw [List.Nodup, pairwise_map] at hnodup
  exact hnodup.imp_of_mem fun ha hb hne ↦
    hk.not_repeats (hk.dispatched _ ha) (hk.dispatched _ hb) hne

section

variable (h : ClaimedBy s t fire)
include h

/-- Who sleeps has claimed. -/
theorem Kept.sleeping_claimed : ∀ f ∈ t.sleeping, f ∈ t.claims := by
  intro f hf
  rw [h.claims]
  rcases h.goesOn with ⟨heq, -⟩ | ⟨heq, -⟩ | ⟨heq, -⟩
  · exact mem_append_left _ (hk.sleeping f (heq ▸ hf))
  · rw [heq] at hf
    rcases mem_append.mp hf with hf | hf
    · exact mem_append_left _ (hk.sleeping f hf)
    · exact mem_append_right _ hf
  · exact mem_append_left _ (hk.sleeping f (heq ▸ hf))

/-- What is dispatched has been claimed. -/
theorem Kept.dispatched_claimed : ∀ d ∈ t.dispatched, d.fire ∈ t.claims := by
  intro d hd
  rw [h.claims]
  rcases h.goesOn with ⟨-, heq⟩ | ⟨-, heq⟩ | ⟨-, d', hd', heq⟩
  · exact mem_append_left _ (hk.dispatched d (heq ▸ hd))
  · exact mem_append_left _ (hk.dispatched d (heq ▸ hd))
  · rw [heq] at hd
    rcases mem_append.mp hd with hd | hd
    · exact mem_append_left _ (hk.dispatched d hd)
    · rw [mem_singleton.mp hd, hd']
      exact mem_append_right _ (.head _)

/-- A claim with a new id is asleep or dispatched once. -/
theorem Kept.distinct_claimed (hid : fire.id = s.nextId) :
    (t.sleeping.map (·.id) ++ t.dispatched.map (·.fire.id)).Nodup := by
  have hfresh : fire.id ∉ s.sleeping.map (·.id) ++ s.dispatched.map (·.fire.id) := by
    rw [hid]
    intro hmem
    rcases mem_append.mp hmem with hmem | hmem
    · obtain ⟨f, hf, heq⟩ := mem_map.mp hmem
      exact Nat.ne_of_lt (hk.below f (hk.sleeping f hf)) heq
    · obtain ⟨d, hd, heq⟩ := mem_map.mp hmem
      exact Nat.ne_of_lt (hk.below d.fire (hk.dispatched d hd)) heq
  have hcons := nodup_cons.mpr ⟨hfresh, hk.distinct⟩
  rcases h.goesOn with ⟨hsleep, hdisp⟩ | ⟨hsleep, hdisp⟩ | ⟨hsleep, d, rfl, hdisp⟩
  · rw [hsleep, hdisp]
    exact hk.distinct
  · rw [hsleep, hdisp, map_append, append_assoc]
    exact (perm_middle.nodup_iff).mpr hcons
  · rw [hsleep, hdisp, map_append, ← append_assoc]
    exact (perm_append_singleton _ _).nodup_iff.mpr hcons

theorem Kept.claimed (hid : fire.id = s.nextId) (hbefore : fire.before = s.lastFired fire.schedule.id)
    (hrow : s.row? fire.schedule.id = some row)
    (hfirst : ∀ last ∈ s.lastFired fire.schedule.id, last < fire.first ∧ last ≤ fire.dueAt / 1000) :
    Kept t := by
  have hnew : ∀ c ∈ s.claims, c.schedule.id = fire.schedule.id → c.dueAt / 1000 < fire.first ∧
      c.dueAt / 1000 ≤ fire.dueAt / 1000 := by
    intro c hc hsame
    obtain ⟨last, hlast, hle⟩ := hk.reached c hc
    rw [hsame] at hlast
    obtain ⟨hlt, hdue⟩ := hfirst last hlast
    exact ⟨Nat.lt_of_le_of_lt hle hlt, Nat.le_trans hle hdue⟩
  refine ⟨?_, fun c hc ↦ ?_, fun c hc ↦ ?_, fun c hc ↦ ?_, hk.sleeping_claimed h,
    hk.dispatched_claimed h, hk.distinct_claimed h hid, h.ids ▸ hk.ids, h.cache ▸ hk.cached,
    h.passes ▸ hk.rests⟩
  · rw [h.claims]
    refine pairwise_append.mpr ⟨hk.follow, pairwise_singleton _ _, fun a ha b hb ↦ ?_⟩
    obtain rfl := mem_singleton.mp hb
    exact ⟨hid ▸ hk.below a ha, fun hsame ↦ (hnew a ha hsame).1⟩
  · rw [h.claims] at hc
    rcases mem_append.mp hc with hc | hc
    · exact Nat.lt_trans (hk.below c hc) h.nextId
    · rw [mem_singleton.mp hc, hid]
      exact h.nextId
  · rw [h.claims] at hc
    rw [h.lastFired]
    rcases mem_append.mp hc with hc | hc
    · by_cases hsame : c.schedule.id = fire.schedule.id
      · rw [hsame, lastFired_claim hrow]
        exact ⟨_, rfl, (hnew c hc hsame).2⟩
      · rw [lastFired_claim_of_ne hsame]
        exact hk.reached c hc
    · rw [mem_singleton.mp hc, lastFired_claim hrow]
      exact ⟨_, rfl, le_rfl⟩
  · rw [h.claims] at hc
    rcases mem_append.mp hc with hc | hc
    · exact hk.forward c hc
    · rw [mem_singleton.mp hc, hbefore]
      exact fun last hlast ↦ (hfirst last hlast).2

end

/-- Where nothing is claimed, what matters is what is dispatched. -/
theorem Kept.of_unmoved (h : Unmoved s t) (hdispatched : ∀ d ∈ t.dispatched, d.fire ∈ s.claims)
    (hdistinct : (s.sleeping.map (·.id) ++ t.dispatched.map (·.fire.id)).Nodup) : Kept t := by
  refine ⟨h.claims ▸ hk.follow, fun c hc ↦ ?_, fun c hc ↦ ?_, h.claims ▸ hk.forward, fun f hf ↦ ?_,
    h.claims ▸ hdispatched, h.sleeping ▸ hdistinct, h.ids ▸ hk.ids, h.cache ▸ hk.cached,
    h.passes ▸ hk.rests⟩
  · exact Nat.lt_of_lt_of_le (hk.below c (h.claims ▸ hc)) h.nextId
  · rw [h.lastFired]
    exact hk.reached c (h.claims ▸ hc)
  · rw [h.claims]
    exact hk.sleeping f (h.sleeping ▸ hf)

theorem Kept.unmoved (h : Unmoved s t) (hdispatched : t.dispatched = s.dispatched) : Kept t :=
  hk.of_unmoved h (hdispatched ▸ hk.dispatched) (hdispatched ▸ hk.distinct)

/-- A claim that is neither asleep nor dispatched is dispatched. -/
theorem Kept.dispatch (h : Unmoved s t) {d : Dispatched}
    (hdispatched : t.dispatched = s.dispatched ++ [d]) (hclaim : d.fire ∈ s.claims)
    (hfresh : d.fire.id ∉ s.sleeping.map (·.id) ++ s.dispatched.map (·.fire.id)) : Kept t := by
  refine hk.of_unmoved h (fun d' hd' ↦ ?_) ?_
  · rw [hdispatched] at hd'
    rcases mem_append.mp hd' with hd' | hd'
    · exact hk.dispatched d' hd'
    · rw [mem_singleton.mp hd']
      exact hclaim
  · rw [hdispatched, map_append, ← append_assoc]
    exact (perm_append_singleton _ _).nodup_iff.mpr (nodup_cons.mpr ⟨hfresh, hk.distinct⟩)

/-- A fire whose jitter is over dispatches what it has claimed. -/
theorem Kept.woken {f : Fire} (hf : f ∈ s.sleeping) (creation : Creation) :
    Kept ({ s with sleeping := s.sleeping.erase f }.dispatch f creation) := by
  have hperm := (perm_cons_erase hf).map Fire.id
  have hnodup := (hperm.append_right (s.dispatched.map (·.fire.id))).nodup_iff.mp hk.distinct
  obtain ⟨hfresh, hnodup⟩ := nodup_cons.mp hnodup
  have hawake : Kept { s with sleeping := s.sleeping.erase f } :=
    ⟨hk.follow, hk.below, hk.reached, hk.forward, fun g hg ↦ hk.sleeping g (mem_of_mem_erase hg),
      hk.dispatched, hnodup, hk.ids, hk.cached, hk.rests⟩
  have hunmoved := unmoved_dispatch (s := { s with sleeping := s.sleeping.erase f }) f creation
  rcases dispatched_dispatch { s with sleeping := s.sleeping.erase f } f creation with heq | ⟨d, rfl, heq⟩
  · exact hawake.unmoved hunmoved heq
  · exact hawake.dispatch hunmoved heq (hk.sleeping d.fire hf) hfresh

end

/-! ## Wakes and the catch-up -/

theorem fireOnce_of_ne (dueAt first : Nat) (isCatchUp : Bool) (m : Meeting) (hne : k ≠ schedule.id) :
    (s.fireOnce schedule dueAt first isCatchUp m).lastFired k = s.lastFired k := by
  rcases fireOnce_cases schedule dueAt first isCatchUp m with heq | h
  · rw [heq]
  · rw [h.lastFired, lastFired_claim_of_ne hne]

theorem Kept.fireOnce (hk : Kept s) (hrow : s.row? schedule.id = some row) {dueAt first : Nat}
    (isCatchUp : Bool) (m : Meeting)
    (hfirst : ∀ last ∈ s.lastFired schedule.id, last < first ∧ last ≤ dueAt / 1000) :
    Kept (s.fireOnce schedule dueAt first isCatchUp m) := by
  rcases fireOnce_cases schedule dueAt first isCatchUp m with heq | h
  · rw [heq]
    exact hk
  · exact hk.claimed h rfl rfl hrow hfirst

theorem fireDue_of_ne {p : String × Nat} (meeting : String → Meeting) (hne : k ≠ p.1) :
    (s.fireDue p meeting).lastFired k = s.lastFired k := by
  rw [fireDue]
  split
  · rfl
  · rename_i schedule hrow
    split_ifs
    · exact fireOnce_of_ne _ _ _ _ (row?_id hrow ▸ hne)
    · rfl

theorem Kept.fireDue (hk : Kept s) {p : String × Nat} (meeting : String → Meeting)
    (hfresh : ∀ last ∈ s.lastFired p.1, last < p.2) : Kept (s.fireDue p meeting) := by
  rw [ScheduleRunner.fireDue]
  split
  · exact hk
  · rename_i schedule hrow
    have hid := row?_id hrow
    split_ifs
    · refine hk.fireOnce (hid ▸ hrow) _ _ fun last hlast ↦ ?_
      rw [hid] at hlast
      have hlt := hfresh last hlast
      rw [Nat.mul_div_cancel _ (by decide)]
      exact ⟨hlt, Nat.le_of_lt hlt⟩
    · exact hk

theorem Kept.fireAll (meeting : String → Meeting) (due : List (String × Nat)) (hk : Kept s)
    (hnodup : (due.map (·.1)).Nodup) (hfresh : ∀ p ∈ due, ∀ last ∈ s.lastFired p.1, last < p.2) :
    Kept (due.foldl (fun s p ↦ s.fireDue p meeting) s) := by
  induction due generalizing s with
  | nil => exact hk
  | cons p due ih =>
    obtain ⟨hnot, hnodup⟩ := nodup_cons.mp hnodup
    refine ih (hk.fireDue meeting (hfresh p (.head _))) hnodup fun q hq last hlast ↦ ?_
    have hne : q.1 ≠ p.1 := by
      intro heq
      exact hnot (mem_map.mpr ⟨q, hq, heq⟩)
    rw [fireDue_of_ne meeting hne] at hlast
    exact hfresh q (.tail _ hq) last hlast

/-- The keys of the cache are ids of rows. -/
theorem cache_sublist (s : ScheduleRunner) :
    ((s.recomputeCache cron).nextFireCache.map (·.1)).Sublist s.ids := by
  rw [recomputeCache, ids]
  generalize s.rows = rows
  induction rows with
  | nil => exact List.Sublist.refl _
  | cons row rows ih =>
    rw [filterMap_cons]
    split
    · exact ih.cons _
    · rename_i p hp
      have hid : p.1 = row.id := by
        split_ifs at hp
        split at hp
        · exact congrArg Prod.fst (Option.some.inj hp).symm
        · cases hp
      rw [map_cons, hid]
      exact ih.cons_cons _

theorem Kept.recompute (hk : Kept s) : Kept (s.recomputeCache cron).armTimer :=
  ⟨hk.follow, hk.below, hk.reached, hk.forward, hk.sleeping, hk.dispatched, hk.distinct, hk.ids,
    hk.ids.sublist (cache_sublist s), hk.rests⟩

theorem Kept.wake (hk : Kept s) (meeting : String → Meeting)
    (hfresh : ∀ p ∈ s.due, ∀ last ∈ s.lastFired p.1, last < p.2) : Kept (s.wake cron meeting) := by
  rw [ScheduleRunner.wake]
  split_ifs
  · exact (hk.fireAll meeting _ (hk.cached.sublist (filter_sublist.map _)) hfresh).recompute
  · exact hk

theorem claimedBy_recordMissed (schedule : ScheduleRow) (now first : Nat) :
    ClaimedBy s (s.recordMissed schedule now first) (s.fireOf schedule now first true) :=
  .of_unmoved (unmoved_update _ _ (fun _ ↦ rfl) fun _ ↦ rfl) rfl

theorem row?_of_lastFired {last : Nat} (h : s.lastFired k = some last) : ∃ row, s.row? k = some row := by
  obtain ⟨row, hrow, -⟩ := Option.bind_eq_some_iff.mp h
  exact ⟨row, hrow⟩

theorem mem_of_mem_claimedRows {now : Nat} {rest : List ScheduleRow}
    (h : row ∈ claimedRows cron now rest) : row ∈ rest := by
  induction rest with
  | nil => exact h
  | cons schedule rest ih =>
    rw [claimedRows] at h
    split at h
    · exact .tail _ (ih h)
    · split at h
      · exact .tail _ (ih h)
      · split_ifs at h
        · exact .tail _ (ih h)
        · split at h
          · rcases mem_cons.mp h with rfl | h
            · exact .head _
            · exact .tail _ (ih h)
          · rw [mem_singleton.mp h]
            exact .head _

/-- What the catch-up claims for a schedule comes after what was claimed for it before. -/
theorem after_last (hcron : cron.IsForward) {last now missed : Nat}
    (hmissed : cron.occurrencesBetween schedule.cron schedule.timezone (last * 1000) now = .ok missed)
    (hsome : missed ≠ 0) (hread : s.lastFired schedule.id = some last) :
    ∀ l ∈ s.lastFired schedule.id, l < last + 1 ∧ l ≤ now / 1000 := by
  intro l hl
  cases hread.symm.trans hl
  have hlt := hcron.lt_of_missed hmissed hsome
  exact ⟨Nat.lt_succ_self _, (Nat.le_div_iff_mul_le (by decide)).mpr (Nat.le_of_lt hlt)⟩

theorem Kept.catchUp (hcron : cron.IsForward) (now : Nat) (meeting : String → Meeting)
    (rest : List ScheduleRow) (hk : Kept s) (hnodup : (rest.map (·.id)).Nodup)
    (hread : ∀ row ∈ claimedRows cron now rest, s.lastFired row.id = row.lastFiredAt) :
    Kept (s.catchUp cron now meeting rest) := by
  induction rest generalizing s with
  | nil => exact hk.recompute
  | cons schedule rest ih =>
    obtain ⟨hnot, hrest⟩ := nodup_cons.mp hnodup
    rw [ScheduleRunner.catchUp]
    rw [claimedRows] at hread
    cases hlast : schedule.lastFiredAt with
    | none =>
      simp only [hlast] at hread ⊢
      exact ih hk hrest hread
    | some last =>
      simp only [hlast] at hread ⊢
      cases hmissed : cron.occurrencesBetween schedule.cron schedule.timezone (last * 1000) now with
      | error err =>
        simp only [hmissed] at hread ⊢
        exact ih hk hrest hread
      | ok missed =>
        simp only [hmissed] at hread ⊢
        by_cases hzero : missed = 0
        · rw [if_pos hzero] at hread ⊢
          exact ih hk hrest hread
        · rw [if_neg hzero] at hread ⊢
          cases hcatch : schedule.catchUp with
          | skip =>
            simp only [hcatch] at hread ⊢
            have hself := (hread schedule (.head _)).trans hlast
            obtain ⟨row, hrow⟩ := row?_of_lastFired hself
            have hclaimed := claimedBy_recordMissed (s := s) schedule now (last + 1)
            refine ih (hk.claimed hclaimed rfl rfl hrow (after_last hcron hmissed hzero hself)) hrest
              fun row' hrow' ↦ ?_
            have hne : row'.id ≠ schedule.id := by
              intro heq
              exact hnot (mem_map.mpr ⟨row', mem_of_mem_claimedRows hrow', heq⟩)
            rw [hclaimed.lastFired, lastFired_claim_of_ne hne]
            exact hread row' (.tail _ hrow')
          | once =>
            simp only [hcatch] at hread ⊢
            have hself := (hread schedule (.head _)).trans hlast
            obtain ⟨row, hrow⟩ := row?_of_lastFired hself
            have hfired := hk.fireOnce hrow true (meeting schedule.id)
              (after_last hcron hmissed hzero hself)
            refine ⟨hfired.follow, fun c hc ↦ Nat.lt_succ_of_lt (hfired.below c hc), hfired.reached,
              hfired.forward, hfired.sleeping, hfired.dispatched, hfired.distinct, hfired.ids,
              hfired.cached, fun p hp ↦ ?_⟩
            rcases mem_append.mp hp with hp | hp
            · exact hfired.rests p hp
            · rw [mem_singleton.mp hp]
              exact hrest

/-! ## Every run -/

theorem Kept.step (hcron : cron.IsForward) (hk : Kept s) (hunclaimed : Unclaimed cron s e)
    (hstep : s.step cron e = some t) : Kept t := by
  cases e with
  | advance ms | stop =>
    cases hstep
    exact hk.unmoved ⟨rfl, le_rfl, fun _ ↦ rfl, rfl, rfl, rfl, rfl⟩ rfl
  | start meeting =>
    cases hstep
    rw [ScheduleRunner.start]
    split_ifs
    · exact hk
    · have hrunning : Kept { s with running := true } :=
        hk.unmoved ⟨rfl, le_rfl, fun _ ↦ rfl, rfl, rfl, rfl, rfl⟩ rfl
      refine hrunning.catchUp hcron _ _ _ (hk.ids.sublist (filter_sublist.map _)) fun row hrow ↦ ?_
      have hmem := mem_of_mem_filter (mem_of_mem_claimedRows hrow)
      show (s.row? row.id).bind _ = _
      rw [row?_of_mem hk.ids hmem]
      rfl
  | reload =>
    cases hstep
    exact hk.recompute
  | wake meeting | tick meeting =>
    obtain ⟨-, ⟨⟩⟩ := Option.ite_none_right_eq_some.mp hstep
    exact hk.wake meeting hunclaimed
  | resume id meeting =>
    obtain ⟨p, hp, rfl⟩ := Option.map_eq_some_iff.mp hstep
    have hwithout : Kept { s with passes := s.passes.erase p } :=
      ⟨hk.follow, hk.below, hk.reached, hk.forward, hk.sleeping, hk.dispatched, hk.distinct, hk.ids,
        hk.cached, fun q hq ↦ hk.rests q (mem_of_mem_erase hq)⟩
    exact hwithout.catchUp hcron _ _ _ (hk.rests p (mem_of_find?_eq_some hp)) (hunclaimed p hp)
  | woken id creation =>
    obtain ⟨f, hf, rfl⟩ := Option.map_eq_some_iff.mp hstep
    exact hk.woken (mem_of_find?_eq_some hf) creation
  | progress id members =>
    obtain ⟨-, ⟨⟩⟩ := Option.ite_none_right_eq_some.mp hstep
    exact hk.unmoved ⟨rfl, le_rfl, fun _ ↦ rfl, rfl, rfl, rfl, rfl⟩ rfl
  | restart =>
    cases hstep
    exact ⟨hk.follow, hk.below, hk.reached, hk.forward, by simp, hk.dispatched,
      (nodup_append.mp hk.distinct).2.1, hk.ids, by simp, by simp⟩

/-- **Every occurrence once.**  In every run in which a wake, a tick or a catch-up that goes on claims
only schedules that nobody has claimed since it read them, no two calls of `fireOnce` dispatch the same
occurrence of a schedule, the catch-up dispatches none that a wake has claimed, and no claim sets
`lastFiredAt` back. -/
theorem fired_once {clock : Nat} {table : ScheduleTable} (hcron : cron.IsForward)
    (h : Steps.Guarded (Steps.By (step cron)) (Unclaimed cron) (new clock table) es t) :
    OncePerOccurrence cron t :=
  (Steps.invariant_of_guarded h (kept_new clock table)
    fun _ _ _ hk he hg ↦ Kept.step hcron hk hg he).once

/-- A schedule that runs every minute and catches up once, after up to ten seconds. -/
def minutely (id : String) (jitterSec : Nat) : Schedule :=
  ⟨id, "* * * * *", "UTC", true, .once, .queue, jitterSec, .script, 0⟩

/-- A batch of one member, after this draw. -/
def oneMember (draw : Nat) : Meeting := ⟨true, false, [], draw, .created [.queued]⟩

/-- One schedule that catches up, and then fires when it is due. -/
theorem fired_once_alone : ∃ t,
    Steps (Steps.By (step .everyMinute)) (new 200000 ⟨[(minutely "a" 10, some 0)], by decide⟩)
      [.start fun _ ↦ oneMember 5000, .woken 0 (.created [.queued]), .resume 1 fun _ ↦ oneMember 0,
        .advance 40000, .wake fun _ ↦ oneMember 0] t ∧ OncePerOccurrence .everyMinute t := by
  have hrun : Steps.Guarded (Steps.By (step .everyMinute)) (Unclaimed .everyMinute)
      (new 200000 ⟨[(minutely "a" 10, some 0)], by decide⟩)
      [.start fun _ ↦ oneMember 5000, .woken 0 (.created [.queued]), .resume 1 fun _ ↦ oneMember 0,
        .advance 40000, .wake fun _ ↦ oneMember 0] _ := Steps.guarded_by_iff.mpr rfl
  exact ⟨_, hrun.steps, fired_once Croner.everyMinute_isForward hrun⟩

/-- Two schedules that have missed three minutes.  While the catch-up sleeps the jitter of the first one,
the fallback tick fires the second; then the catch-up fires it again, for the same minutes. -/
theorem not_fired_once_slept : ¬ ∀ (cron : Croner) (clock : Nat) (table : ScheduleTable)
    (es : List Event) (t : ScheduleRunner), cron.IsForward →
      Steps (Steps.By (step cron)) (new clock table) es t → OncePerOccurrence cron t := by
  intro hall
  have honce := (hall .everyMinute 200000
    ⟨[(minutely "a" 10, some 0), (minutely "b" 0, some 0)], by decide⟩
    [.start fun _ ↦ oneMember 5000, .tick fun _ ↦ oneMember 0, .tick fun _ ↦ oneMember 0,
      .woken 0 (.created [.queued]), .resume 1 fun _ ↦ oneMember 0] _
    Croner.everyMinute_isForward (Steps.steps_by_iff.mpr rfl)).once
  have hrepeats := rel_of_pairwise_cons honce (.tail _ (.head _))
  exact hrepeats ⟨rfl, 60, ⟨by decide, by decide, 0, rfl⟩, by decide, by decide, 0, rfl⟩

end ScheduleRunner

end Enkaku.Schedules
