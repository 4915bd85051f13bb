import Enkaku.Registry.DeviceNumbers
import Mathlib.Data.List.Perm.Basic
import Mathlib.Tactic.Linarith

/-!
# Compacting the numbers

The two passes of `compactDeviceNumbers` get past the unique index at every row: `park_spec` for the
placeholders, which are below all numbers there are, and `place_spec` for the final numbers, which by
then nobody holds.  `compact_renumbers` is the whole: the devices have the numbers from 1 on, in the
order they were in.
-/

set_option autoImplicit false

namespace Enkaku.DeviceFarm

open List OrdMap

variable {f : DeviceFarm} {stableId : String} {n : Int} {rows : Numbers} {changes : List Change}

/-! ## The two passes -/

theorem Numbers.insert_eq (hnone : OrdMap.get? stableId rows = none) (hfree : ∀ r ∈ rows, r.2 ≠ n) :
    Numbers.insert rows stableId n = .ok (OrdMap.set stableId n rows) := by
  refine if_neg ?_
  rintro (h | ⟨r, hr, hn⟩)
  · exact h hnone
  · exact hfree r hr hn

theorem Numbers.update_eq (hsome : OrdMap.get? stableId rows ≠ none)
    (hfree : ∀ r ∈ rows, r.1 ≠ stableId → r.2 ≠ n) :
    Numbers.update rows stableId n = .ok (OrdMap.set stableId n rows) := by
  rw [Numbers.update, if_neg hsome]
  refine if_neg ?_
  rintro ⟨r, hr, hne, hn⟩
  exact hfree r hr hne hn

/-- The first pass moves the changing rows below zero, and leaves the others. -/
theorem park_spec {i : Nat} (hkeys : (rows.map (·.1)).Nodup)
    (hdistinct : (changes.map (·.stableId)).Nodup) (habove : ∀ r ∈ rows, -(i : Int) ≤ r.2)
    (hhas : ∀ c ∈ changes, c.fromNumber ≠ 0 → OrdMap.get? c.stableId rows ≠ none) :
    ∃ parked, park i changes rows = .ok parked ∧ (parked.map (·.1)).Nodup ∧
      (∀ s, (∀ c ∈ changes, c.fromNumber ≠ 0 → c.stableId ≠ s) →
        OrdMap.get? s parked = OrdMap.get? s rows) ∧
      ∀ c ∈ changes, c.fromNumber ≠ 0 → ∃ k < 0, OrdMap.get? c.stableId parked = some k := by
  induction changes generalizing i rows with
  | nil => exact ⟨rows, rfl, hkeys, fun s _ ↦ rfl, by simp⟩
  | cons c changes ih =>
    rw [map_cons, nodup_cons] at hdistinct
    obtain ⟨hc, hdistinct⟩ := hdistinct
    have hother : ∀ c' ∈ changes, c.stableId ≠ c'.stableId := by
      intro c' hc' heq
      exact hc (heq ▸ mem_map_of_mem hc')
    by_cases hfrom : c.fromNumber = 0
    · have habove' : ∀ r ∈ rows, -((i + 1 : ℕ) : Int) ≤ r.2 := by
        intro r hr
        have := habove r hr
        omega
      obtain ⟨parked, hpark, hkeys', hsame, hmoved⟩ := ih hkeys hdistinct habove'
        fun c' hc' ↦ hhas c' (.tail _ hc')
      refine ⟨parked, ?_, hkeys', fun s hs ↦ hsame s fun c' hc' ↦ hs c' (.tail _ hc'),
        fun c' hc' hne ↦ ?_⟩
      · rw [park, parkRow, if_neg (not_not.mpr hfrom)]
        exact hpark
      · rcases mem_cons.mp hc' with rfl | hc'
        · exact absurd hfrom hne
        · exact hmoved c' hc' hne
    · -- Every number so far is above the placeholder of this row.
      have hupdate : parkRow rows i c = .ok (OrdMap.set c.stableId (-(i + 1)) rows) := by
        rw [parkRow, if_pos hfrom]
        refine Numbers.update_eq (hhas c (.head _) hfrom) fun r hr _ heq ↦ ?_
        have := habove r hr
        omega
      obtain ⟨parked, hpark, hkeys', hsame, hmoved⟩ :=
        @ih (OrdMap.set c.stableId (-(i + 1)) rows) (i + 1)
          (nodup_set hkeys _ _) hdistinct
          (by
            intro r hr
            rcases (mem_set_iff hkeys).mp hr with ⟨-, hr⟩ | ⟨-, hr⟩
            · omega
            · have := habove r hr
              omega)
          (by
            intro c' hc' hne
            rw [get?_set_of_ne (hother c' hc')]
            exact hhas c' (.tail _ hc') hne)
      refine ⟨parked, ?_, hkeys', fun s hs ↦ ?_, fun c' hc' hne ↦ ?_⟩
      · rw [park, hupdate]
        exact hpark
      · rw [hsame s fun c' hc' ↦ hs c' (.tail _ hc'), get?_set_of_ne (hs c (.head _) hfrom)]
      · rcases mem_cons.mp hc' with rfl | hc'
        · refine ⟨-(i + 1), by omega, ?_⟩
          rw [hsame _ fun c'' hc'' _ ↦ (hother c'' hc'').symm, get?_set_self]
        · exact hmoved c' hc' hne

/-- The second pass gives every change its number, when nobody holds one of them. -/
theorem place_spec (hkeys : (rows.map (·.1)).Nodup) (hdistinct : (changes.map (·.stableId)).Nodup)
    (htargets : (changes.map (·.toNumber)).Nodup)
    (hfrom : ∀ c ∈ changes, c.fromNumber = 0 ↔ OrdMap.get? c.stableId rows = none)
    (hfree : ∀ c ∈ changes, ∀ r ∈ rows, r.2 ≠ c.toNumber) :
    ∃ final, place changes rows = .ok final ∧ (final.map (·.1)).Nodup ∧
      (∀ s, s ∉ changes.map (·.stableId) → OrdMap.get? s final = OrdMap.get? s rows) ∧
      ∀ c ∈ changes, OrdMap.get? c.stableId final = some c.toNumber := by
  induction changes generalizing rows with
  | nil => exact ⟨rows, rfl, hkeys, fun s _ ↦ rfl, by simp⟩
  | cons c changes ih =>
    rw [map_cons, nodup_cons] at hdistinct htargets
    have hother : ∀ c' ∈ changes, c.stableId ≠ c'.stableId := by
      intro c' hc' heq
      exact hdistinct.1 (heq ▸ mem_map_of_mem hc')
    have hwrite : placeRow rows c = .ok (OrdMap.set c.stableId c.toNumber rows) := by
      have hc := hfrom c (.head _)
      rw [placeRow]
      split_ifs with hzero
      · exact Numbers.insert_eq (hc.mp hzero) (hfree c (.head _))
      · exact Numbers.update_eq (fun h ↦ hzero (hc.mpr h))
          fun r hr _ ↦ hfree c (.head _) r hr
    obtain ⟨final, hplace, hkeys', hsame, hgiven⟩ :=
      @ih (OrdMap.set c.stableId c.toNumber rows) (nodup_set hkeys _ _)
        hdistinct.2 htargets.2
        (by
          intro c' hc'
          rw [get?_set_of_ne (hother c' hc')]
          exact hfrom c' (.tail _ hc'))
        (by
          intro c' hc' r hr
          rcases (mem_set_iff hkeys).mp hr with ⟨-, hr⟩ | ⟨-, hr⟩
          · intro heq
            exact htargets.1 (mem_map.mpr ⟨c', hc', by rw [← heq, hr]⟩)
          · exact hfree c' (.tail _ hc') r hr)
    refine ⟨final, ?_, hkeys', fun s hs ↦ ?_, fun c' hc' ↦ ?_⟩
    · rw [place, hwrite]
      exact hplace
    · rw [map_cons, mem_cons, not_or] at hs
      rw [hsame s hs.2, get?_set_of_ne (Ne.symm hs.1)]
    · rcases mem_cons.mp hc' with rfl | hc'
      · rw [hsame _ hdistinct.1, get?_set_self]
      · exact hgiven c' hc'

/-! ## The targets -/

theorem perm_sorted (f : DeviceFarm) : f.sorted.Perm f.devices :=
  (perm_insertionSort _ _).trans (perm_insertionSort _ _)

theorem compareNumbers_total (a b : Int) : compareNumbers a b ≤ 0 ∨ compareNumbers b a ≤ 0 := by
  simp only [compareNumbers]
  split_ifs <;> omega

theorem compareNumbers_trans {a b c : Int} (hab : compareNumbers a b ≤ 0)
    (hbc : compareNumbers b c ≤ 0) : compareNumbers a c ≤ 0 := by
  simp only [compareNumbers] at *
  split_ifs at * <;> omega

theorem pairwise_sorted (f : DeviceFarm) : f.sorted.Pairwise fun a b ↦
    compareNumbers (currentNumber f.current a.stableId) (currentNumber f.current b.stableId) ≤ 0 := by
  have : Std.Total fun a b : Device ↦
      compareNumbers (currentNumber f.current a.stableId) (currentNumber f.current b.stableId) ≤ 0 :=
    ⟨fun _ _ ↦ compareNumbers_total _ _⟩
  have : IsTrans Device fun a b ↦
      compareNumbers (currentNumber f.current a.stableId) (currentNumber f.current b.stableId) ≤ 0 :=
    ⟨fun _ _ _ ↦ compareNumbers_trans⟩
  exact pairwise_insertionSort _ _

theorem length_targets (f : DeviceFarm) : f.targets.length = f.devices.length := by
  rw [targets, length_mapIdx, (perm_sorted f).length_eq]

theorem targets_stableIds (f : DeviceFarm) : f.targets.map (·.stableId) = f.sorted.map (·.stableId) := by
  rw [targets]
  refine ext_getElem (by simp) fun i _ _ ↦ by simp

theorem targets_toNumbers (f : DeviceFarm) :
    f.targets.map (·.toNumber) = (List.range f.devices.length).map fun i : Nat ↦ (i : Int) + 1 := by
  rw [← length_targets, targets]
  refine ext_getElem (by simp) fun i _ _ ↦ by simp

theorem currentNumber_eq (hf : f.Sound) (hlive : stableId ∈ f.devices.map (·.stableId)) :
    OrdMap.get? stableId f.current = f.lookupDeviceNumber stableId := by
  rw [current, get?_filter hf.keys, lookupDeviceNumber]
  cases OrdMap.get? stableId f.numbers with
  | none => rfl
  | some n => simp [Option.filter, hlive]

theorem currentNumber_of_target (hf : f.Sound) {t : Change} (ht : t ∈ f.targets) :
    t.stableId ∈ f.devices.map (·.stableId) ∧
      t.fromNumber = (f.lookupDeviceNumber t.stableId).getD 0 ∧ 0 < t.toNumber ∧
      t.toNumber ≤ f.devices.length := by
  obtain ⟨i, hi, rfl⟩ := mem_mapIdx.mp ht
  have hlive : f.sorted[i].stableId ∈ f.devices.map (·.stableId) :=
    mem_map_of_mem ((perm_sorted f).subset (getElem_mem hi))
  rw [(perm_sorted f).length_eq] at hi
  refine ⟨hlive, ?_, by dsimp only; omega, by dsimp only; omega⟩
  rw [currentNumber, currentNumber_eq hf hlive]

theorem target_of_live (hlive : stableId ∈ f.devices.map (·.stableId)) :
    ∃ t ∈ f.targets, t.stableId = stableId := by
  rw [← ((perm_sorted f).map (·.stableId)).mem_iff, ← targets_stableIds] at hlive
  exact mem_map.mp hlive

theorem target_ext (hf : f.Sound) {s t : Change} (hs : s ∈ f.targets) (ht : t ∈ f.targets)
    (h : s.stableId = t.stableId) : s = t := by
  refine inj_on_of_nodup_map ?_ hs ht h
  rw [targets_stableIds, ((perm_sorted f).map (·.stableId)).nodup_iff]
  exact hf.stableIds

theorem nodup_toNumbers (f : DeviceFarm) : (f.targets.map (·.toNumber)).Nodup := by
  rw [targets_toNumbers]
  exact nodup_range.map fun i j h ↦ by simpa using h

theorem mem_changes {c : Change} : c ∈ f.changes ↔ c ∈ f.targets ∧ c.fromNumber ≠ c.toNumber := by
  simp [DeviceFarm.changes]

theorem nodup_changes (hf : f.Sound) : (f.changes.map (·.stableId)).Nodup := by
  have htargets : (f.targets.map (·.stableId)).Nodup := by
    rw [targets_stableIds, ((perm_sorted f).map (·.stableId)).nodup_iff]
    exact hf.stableIds
  exact htargets.sublist (filter_sublist.map _)

theorem current_pos (hf : f.Sound) {r : String × Int} (hr : r ∈ f.current) : 0 < r.2 :=
  hf.positive r (mem_of_mem_filter hr)

/-- `from` is the number a device has. -/
theorem fromNumber_of_current (hf : f.Sound) {t : Change} (ht : t ∈ f.targets)
    (hn : OrdMap.get? t.stableId f.current = some n) : t.fromNumber = n := by
  obtain ⟨hlive, hlookup, -⟩ := currentNumber_of_target hf ht
  rw [hlookup, ← currentNumber_eq hf hlive, hn]
  rfl

theorem fromNumber_eq_zero_iff (hf : f.Sound) {t : Change} (ht : t ∈ f.targets) :
    t.fromNumber = 0 ↔ OrdMap.get? t.stableId f.current = none := by
  obtain ⟨hlive, hlookup, -⟩ := currentNumber_of_target hf ht
  rw [hlookup, ← currentNumber_eq hf hlive]
  cases hget : OrdMap.get? t.stableId f.current with
  | none => simp
  | some n => simpa using (current_pos hf (mem_of_get? hget)).ne'

/-! ## The compaction -/

/-- What the first pass leaves. -/
structure Parked (f : DeviceFarm) (parked : Numbers) : Prop where
  keys : (parked.map (·.1)).Nodup
  same : ∀ s, (∀ c ∈ f.changes, c.fromNumber ≠ 0 → c.stableId ≠ s) →
    OrdMap.get? s parked = OrdMap.get? s f.current
  moved : ∀ c ∈ f.changes, c.fromNumber ≠ 0 → ∃ k < 0, OrdMap.get? c.stableId parked = some k

section

variable (hf : f.Sound)
include hf

theorem park_changes : ∃ parked, park 0 f.changes f.current = .ok parked ∧ Parked f parked := by
  have habove : ∀ r ∈ f.current, -((0 : ℕ) : Int) ≤ r.2 := by
    intro r hr
    have := current_pos hf hr
    omega
  have hhas : ∀ c ∈ f.changes, c.fromNumber ≠ 0 → OrdMap.get? c.stableId f.current ≠ none :=
    fun c hc hne h ↦ hne ((fromNumber_eq_zero_iff hf (mem_changes.mp hc).1).mpr h)
  obtain ⟨parked, hpark, hkeys, hsame, hmoved⟩ :=
    park_spec (hf.keys.sublist (filter_sublist.map _)) (nodup_changes hf) habove hhas
  exact ⟨parked, hpark, hkeys, hsame, hmoved⟩

/-- A row with a number after the first pass is the row of a device that keeps it. -/
theorem Parked.stays {parked : Numbers} (h : Parked f parked) {r : String × Int}
    (hr : r ∈ parked) (hpos : 0 < r.2) : ∃ t ∈ f.targets, t ∉ f.changes ∧ t.toNumber = r.2 := by
  have hget : OrdMap.get? r.1 parked = some r.2 := get?_of_mem h.keys hr
  have hunmoved : ∀ c ∈ f.changes, c.fromNumber ≠ 0 → c.stableId ≠ r.1 := by
    intro c hc hne heq
    obtain ⟨k, hk, hget'⟩ := h.moved c hc hne
    rw [heq, hget] at hget'
    cases hget'
    omega
  rw [h.same r.1 hunmoved] at hget
  have hlive : r.1 ∈ f.devices.map (·.stableId) := by
    simpa [current] using (mem_filter.mp (mem_of_get? hget)).2
  obtain ⟨t, ht, htid⟩ := target_of_live hlive
  rw [← htid] at hget
  have hfrom := fromNumber_of_current hf ht hget
  have hnot : t ∉ f.changes := fun hc ↦ hunmoved t hc (by omega) htid
  refine ⟨t, ht, hnot, ?_⟩
  by_contra hne
  exact hnot (mem_changes.mpr ⟨ht, by omega⟩)

/-- The second pass gives every device its target, and nobody else has a number then. -/
theorem Parked.place {parked : Numbers} (h : Parked f parked) :
    ∃ final, DeviceFarm.place f.changes parked = .ok final ∧ (final.map (·.1)).Nodup ∧
      (∀ t ∈ f.targets, OrdMap.get? t.stableId final = some t.toNumber) ∧
      ∀ s, s ∉ f.devices.map (·.stableId) → OrdMap.get? s final = none := by
  have hfrom : ∀ c ∈ f.changes, c.fromNumber = 0 ↔ OrdMap.get? c.stableId parked = none := by
    intro c hc
    have ht := (mem_changes.mp hc).1
    by_cases hzero : c.fromNumber = 0
    · rw [h.same c.stableId fun c' hc' hne heq ↦ hne ?_]
      · exact fromNumber_eq_zero_iff hf ht
      · rwa [target_ext hf (mem_changes.mp hc').1 ht heq]
    · obtain ⟨k, -, hk⟩ := h.moved c hc hzero
      simp [hzero, hk]
  have hfree : ∀ c ∈ f.changes, ∀ r ∈ parked, r.2 ≠ c.toNumber := by
    intro c hc r hr heq
    have ht := (mem_changes.mp hc).1
    obtain ⟨-, -, hpos, -⟩ := currentNumber_of_target hf ht
    obtain ⟨t, ht', hnot, hto⟩ := h.stays hf hr (by omega)
    obtain rfl : t = c := inj_on_of_nodup_map (nodup_toNumbers f) ht' ht (by omega)
    exact hnot hc
  obtain ⟨final, hplace, hkeys, hrest, hgiven⟩ := place_spec h.keys (nodup_changes hf)
    ((nodup_toNumbers f).sublist (filter_sublist.map _)) hfrom hfree
  -- Beside the changes both passes leave what there was.
  have hbeside : ∀ s, (∀ c ∈ f.changes, c.stableId ≠ s) →
      OrdMap.get? s final = OrdMap.get? s f.current := by
    intro s hs
    rw [hrest s fun hm ↦ ?_, h.same s fun c hc _ ↦ hs c hc]
    obtain ⟨c, hc, heq⟩ := mem_map.mp hm
    exact hs c hc heq
  refine ⟨final, hplace, hkeys, fun t ht ↦ ?_, fun s hs ↦ ?_⟩
  · by_cases hc : t ∈ f.changes
    · exact hgiven t hc
    · have heq : t.fromNumber = t.toNumber := by
        by_contra hne
        exact hc (mem_changes.mpr ⟨ht, hne⟩)
      obtain ⟨-, -, hpos, -⟩ := currentNumber_of_target hf ht
      rw [hbeside _ fun c hc' heq' ↦ hc (target_ext hf (mem_changes.mp hc').1 ht heq' ▸ hc')]
      cases hget : OrdMap.get? t.stableId f.current with
      | none =>
        have := (fromNumber_eq_zero_iff hf ht).mpr hget
        omega
      | some n => rw [← fromNumber_of_current hf ht hget, heq]
  · have hother : ∀ c ∈ f.changes, c.stableId ≠ s := by
      rintro c hc rfl
      exact hs (currentNumber_of_target hf (mem_changes.mp hc).1).1
    rw [hbeside s hother, get?_eq_none_iff]
    intro hm
    obtain ⟨r, hr, rfl⟩ := mem_map.mp hm
    exact hs (by simpa [current] using (mem_filter.mp hr).2)

/-- The compaction goes through, and its table is that of the targets. -/
theorem compact_spec : ∃ numbers : Numbers,
    f.compactDeviceNumbers = .ok ({ f with numbers := numbers, next := some (f.targets.length + 1) },
      ⟨f.changes, f.orphans.insertionSort fun a b ↦ a.2 ≤ b.2⟩) ∧
    (numbers.map (·.1)).Nodup ∧
    numbers.Perm (f.targets.map fun t ↦ (t.stableId, t.toNumber)) := by
  obtain ⟨parked, hpark, hparked⟩ := park_changes hf
  obtain ⟨final, hplace, hkeys, hfinal, hlive⟩ := hparked.place hf
  refine ⟨final, ?_, hkeys, ?_⟩
  · simp only [compactDeviceNumbers, hpark, hplace, Bind.bind, Except.bind]
    rfl
  have hnodup : (f.targets.map fun t ↦ (t.stableId, t.toNumber)).Nodup := by
    refine List.Nodup.of_map (·.1) ?_
    have hids : (f.targets.map (·.stableId)).Nodup := by
      rw [targets_stableIds, ((perm_sorted f).map (·.stableId)).nodup_iff]
      exact hf.stableIds
    simpa [Function.comp_def] using hids
  refine (perm_ext_iff_of_nodup hkeys.of_map hnodup).mpr fun r ↦ ?_
  obtain ⟨s, n⟩ := r
  rw [mem_iff_get? hkeys]
  constructor
  · intro hget
    by_cases hs : s ∈ f.devices.map (·.stableId)
    · obtain ⟨t, ht, rfl⟩ := target_of_live hs
      obtain rfl := Option.some.inj ((hfinal t ht).symm.trans hget)
      exact mem_map.mpr ⟨t, ht, rfl⟩
    · exact absurd (hlive s hs) (by simp [hget])
  · intro hmem
    obtain ⟨t, ht, heq⟩ := mem_map.mp hmem
    cases heq
    exact hfinal t ht

/-- An earlier device has the earlier target. -/
theorem earlier_targets {s t : Change} (hs : s ∈ f.targets) (ht : t ∈ f.targets)
    (h : Earlier (f.lookupDeviceNumber s.stableId) (f.lookupDeviceNumber t.stableId)) :
    s.toNumber < t.toNumber := by
  obtain ⟨hslive, hsfrom, -⟩ := currentNumber_of_target hf hs
  obtain ⟨htlive, htfrom, -⟩ := currentNumber_of_target hf ht
  obtain ⟨i, hi, rfl⟩ := mem_mapIdx.mp hs
  obtain ⟨j, hj, rfl⟩ := mem_mapIdx.mp ht
  dsimp only at *
  have hpositive : ∀ {u : String} {m : Int}, f.lookupDeviceNumber u = some m → 0 < m :=
    fun hu ↦ hf.positive _ (mem_of_get? hu)
  by_contra hle
  rcases Nat.lt_or_ge j i with hji | hij
  · -- The devices are sorted by number, those without one last.
    have hsorted := pairwise_iff_getElem.mp (pairwise_sorted f) j i hj hi hji
    rw [hsfrom, htfrom] at hsorted
    cases hm : f.lookupDeviceNumber f.sorted[i].stableId with
    | none => simp [hm, Earlier] at h
    | some m =>
      have hmpos := hpositive hm
      cases hn : f.lookupDeviceNumber f.sorted[j].stableId with
      | none =>
        simp [hm, hn, compareNumbers, hmpos.ne, hmpos.ne'] at hsorted
      | some n =>
        have hnpos := hpositive hn
        rw [hm, hn] at h hsorted
        have hlt : m < n := h
        simp only [Option.getD_some, compareNumbers, hmpos.ne', hnpos.ne', or_self, if_false] at hsorted
        omega
  · obtain rfl : i = j := by omega
    cases hm : f.lookupDeviceNumber f.sorted[i].stableId with
    | none => simp [hm, Earlier] at h
    | some m => simp [hm, Earlier] at h

/-- **The compaction renumbers the devices from 1 on.** -/
theorem compact_renumbers : ∃ f' report,
    f.compactDeviceNumbers = .ok (f', report) ∧ f'.Sound ∧ Renumbered f f' report := by
  obtain ⟨numbers, heq, hkeys, hperm⟩ := compact_spec hf
  have hfst : (numbers.map (·.1)).Perm (f.devices.map (·.stableId)) := by
    have hmap := hperm.map (·.1)
    rw [map_map, Function.comp_def, targets_stableIds] at hmap
    exact hmap.trans ((perm_sorted f).map _)
  have hsnd : (numbers.map (·.2)).Perm
      ((List.range f.devices.length).map fun i : Nat ↦ (i : Int) + 1) := by
    have hmap := hperm.map (·.2)
    rwa [map_map, Function.comp_def, targets_toNumbers] at hmap
  have hmem : ∀ s n, OrdMap.get? s numbers = some n ↔
      ∃ t ∈ f.targets, t.stableId = s ∧ t.toNumber = n := by
    intro s n
    rw [← mem_iff_get? hkeys, hperm.mem_iff, mem_map]
    simp
  refine ⟨_, _, heq, ⟨hf.deviceIds, hf.stableIds, hkeys, ?_, ?_, ?_⟩, ⟨hfst, hsnd, ?_, ?_, ?_, ?_, ?_⟩⟩
  · rw [hsnd.nodup_iff, ← targets_toNumbers]
    exact nodup_toNumbers f
  · intro r hr
    obtain ⟨t, ht, rfl⟩ := mem_map.mp (hperm.subset hr)
    exact (currentNumber_of_target hf ht).2.2.1
  · intro r hr
    obtain ⟨t, ht, rfl⟩ := mem_map.mp (hperm.subset hr)
    have hle := (currentNumber_of_target hf ht).2.2.2
    simp only [readWatermark, Option.getD_some, length_targets]
    omega
  · intro a ha b hb hab
    obtain ⟨s, hs, hsid⟩ := target_of_live (mem_map.mpr ⟨a, ha, rfl⟩)
    obtain ⟨t, ht, htid⟩ := target_of_live (mem_map.mpr ⟨b, hb, rfl⟩)
    have hlt := earlier_targets hf hs ht (by rwa [hsid, htid])
    rw [lookupDeviceNumber, lookupDeviceNumber, (hmem _ _).mpr ⟨s, hs, hsid, rfl⟩,
      (hmem _ _).mpr ⟨t, ht, htid, rfl⟩]
    exact hlt
  · intro r
    simp [mem_insertionSort, orphans]
  · intro c
    rw [mem_changes]
    constructor
    · rintro ⟨ht, hne⟩
      obtain ⟨hlive, hfrom, -⟩ := currentNumber_of_target hf ht
      exact ⟨hlive, hfrom, (hmem _ _).mpr ⟨c, ht, rfl, rfl⟩, hne⟩
    · rintro ⟨-, hfrom, hto, hne⟩
      obtain ⟨t, ht, htid, hto⟩ := (hmem _ _).mp hto
      obtain ⟨-, htfrom, -⟩ := currentNumber_of_target hf ht
      have hct : c = t := by
        cases c
        cases t
        simp_all
      exact ⟨hct ▸ ht, hne⟩
  · rw [(perm_insertionSort _ _).nodup_iff]
    exact (hf.keys.of_map).filter _
  · exact nodup_changes hf

end

end Enkaku.DeviceFarm
