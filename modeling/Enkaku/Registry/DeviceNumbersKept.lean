import Enkaku.Registry.DeviceNumbersCompact

/-!
# The numbers of the devices, in every run

What `device-number.ts` promises, for every sequence of calls: `call_carries` for the calls one by one,
`compact_renumbers` for the compaction with its two passes, and `numbers_kept` for runs.

The watermark is what remembers: every number that was reserved since the last compaction is below it.
That it gets past a number that is taken needs `n + 1` to be more than `n`.
-/

set_option autoImplicit false

namespace Enkaku.DeviceFarm

open List

variable {f f' : DeviceFarm} {stableId : String} {n : Int} {rows : Numbers}

/-! ## The next number -/

theorem addOne_pos (h : 0 ≤ n) : 0 < addOne n := by
  rw [addOne]
  split_ifs <;> omega

theorem highestAssigned_nonneg (hf : f.Sound) : 0 ≤ f.highestAssigned := by
  rw [highestAssigned]
  cases hmax : (f.numbers.map (·.2)).max? with
  | none => exact le_rfl
  | some m =>
    obtain ⟨r, hr, rfl⟩ := mem_map.mp (max?_mem hmax)
    exact (hf.positive r hr).le

theorem readWatermark_le_nextNumber (f : DeviceFarm) : f.readWatermark ≤ f.nextNumber := le_max_left _ _

theorem nextNumber_pos (hf : f.Sound) : 0 < f.nextNumber :=
  lt_of_lt_of_le (addOne_pos (highestAssigned_nonneg hf)) (le_max_right _ _)

theorem lt_nextNumber (hf : f.Sound) {r : String × Int} (hr : r ∈ f.numbers) : r.2 < f.nextNumber :=
  (hf.below r hr).trans_le f.readWatermark_le_nextNumber

/-! ## Writing a row -/

theorem Numbers.nodup_set (hnumbers : (rows.map (·.2)).Nodup)
    (hfree : ∀ r ∈ rows, r.1 ≠ stableId → r.2 ≠ n) (hkeys : (rows.map (·.1)).Nodup) :
    ((OrdMap.set stableId n rows).map (·.2)).Nodup := by
  rcases OrdMap.set_cases stableId n rows with ⟨hnone, hset⟩ | ⟨l, w, r, rfl, -, hset⟩
  · rw [OrdMap.get?_eq_none_iff] at hnone
    rw [hset, map_append, nodup_append]
    refine ⟨hnumbers, by simp, fun a ha b hb ↦ ?_⟩
    obtain ⟨r, hr, rfl⟩ := mem_map.mp ha
    obtain rfl : b = n := by simpa using hb
    exact hfree r hr fun heq ↦ hnone (heq ▸ mem_map_of_mem hr)
  · have hbeside : ∀ r' ∈ l ++ r, r'.2 ≠ n := by
      intro r' hr'
      refine hfree r' (by simp at hr' ⊢; tauto) ?_
      rintro rfl
      rw [map_append, map_cons, nodup_middle, nodup_cons, ← map_append] at hkeys
      exact hkeys.1 (mem_map.mpr ⟨r', hr', rfl⟩)
    rw [map_append, map_cons, nodup_middle, nodup_cons, ← map_append]
      at hnumbers
    rw [hset, map_append, map_cons, nodup_middle, nodup_cons, ← map_append]
    refine ⟨fun hmem ↦ ?_, hnumbers.2⟩
    obtain ⟨r', hr', hn⟩ := mem_map.mp hmem
    exact hbeside r' hr' hn

/-- A row written: the tables stay sound when the number is nobody else's and below the watermark. -/
theorem Sound.set (hf : f.Sound) {next : Option Int} (hpos : 0 < n)
    (hfree : ∀ r ∈ f.numbers, r.1 ≠ stableId → r.2 ≠ n) (hnext : f.readWatermark ≤ next.getD 1)
    (hn : n < next.getD 1) :
    Sound { f with numbers := OrdMap.set stableId n f.numbers, next := next } where
  deviceIds := hf.deviceIds
  stableIds := hf.stableIds
  keys := OrdMap.nodup_set hf.keys _ _
  numbers := Numbers.nodup_set hf.numbers hfree hf.keys
  positive r hr := by
    rcases (OrdMap.mem_set_iff hf.keys).mp hr with ⟨-, h⟩ | ⟨-, hr⟩
    · exact h ▸ hpos
    · exact hf.positive r hr
  below r hr := by
    rcases (OrdMap.mem_set_iff hf.keys).mp hr with ⟨-, h⟩ | ⟨-, hr⟩
    · exact h ▸ hn
    · exact (hf.below r hr).trans_le hnext

/-! ## The calls one by one -/

/-- What a call other than a compaction does to the numbers. -/
structure Carries (f : DeviceFarm) (e : Event) (f' : DeviceFarm) : Prop where
  sound : f'.Sound
  watermark : f.readWatermark ≤ f'.readWatermark
  sticky : ∀ stableId n, f.lookupDeviceNumber stableId = some n → ¬ e.Renumbers stableId →
    f'.lookupDeviceNumber stableId = some n
  fresh : ∀ stableId n, e.Allocates stableId → f.lookupDeviceNumber stableId = none →
    f'.lookupDeviceNumber stableId = some n → f.readWatermark ≤ n

variable {e : Event}

section

variable (hf : f.Sound)
include hf

/-- A call that touches the devices only. -/
theorem Carries.of_numbers (hids : (f'.devices.map (·.id)).Nodup)
    (hstable : (f'.devices.map (·.stableId)).Nodup) (hnumbers : f'.numbers = f.numbers)
    (hnext : f'.next = f.next) : Carries f e f' := by
  have hmark : f'.readWatermark = f.readWatermark := congrArg (·.getD 1) hnext
  refine ⟨⟨hids, hstable, ?_, ?_, ?_, ?_⟩, hmark.ge, ?_, ?_⟩
  · rw [hnumbers]
    exact hf.keys
  · rw [hnumbers]
    exact hf.numbers
  · rw [hnumbers]
    exact hf.positive
  · rw [hnumbers, hmark]
    exact hf.below
  · intro s n h _
    rwa [lookupDeviceNumber, hnumbers]
  · intro s n _ hnone hsome
    rw [lookupDeviceNumber, hnumbers] at hsome
    exact absurd (hnone.symm.trans hsome) (by simp)

theorem Carries.refl : Carries f e f :=
  .of_numbers hf hf.deviceIds hf.stableIds rfl rfl

/-- Devices that are removed. -/
theorem Carries.of_sublist (hdevices : f'.devices.Sublist f.devices)
    (hnumbers : f'.numbers = f.numbers) (hnext : f'.next = f.next) : Carries f e f' :=
  .of_numbers hf (hf.deviceIds.sublist (hdevices.map _)) (hf.stableIds.sublist (hdevices.map _))
    hnumbers hnext

/-- An allocation answers the number there is, or takes the next one. -/
theorem allocateDeviceNumber_eq :
    (∃ n, f.lookupDeviceNumber stableId = some n ∧
      f.allocateDeviceNumber stableId = .ok (f, ⟨n, false⟩)) ∨
    (f.lookupDeviceNumber stableId = none ∧ f.allocateDeviceNumber stableId =
      .ok ({ f with numbers := OrdMap.set stableId f.nextNumber f.numbers,
                    next := some (addOne f.nextNumber) }, ⟨f.nextNumber, true⟩)) := by
  rw [allocateDeviceNumber, lookupDeviceNumber]
  cases hget : OrdMap.get? stableId f.numbers with
  | some n => exact .inl ⟨n, rfl, rfl⟩
  | none =>
    refine .inr ⟨rfl, ?_⟩
    have hinsert : Numbers.insert f.numbers stableId f.nextNumber =
        .ok (OrdMap.set stableId f.nextNumber f.numbers) := by
      refine if_neg ?_
      rintro (h | ⟨r, hr, hn⟩)
      · exact h hget
      · exact absurd (lt_nextNumber hf hr) (by omega)
    simp only [hinsert]
    rfl

/-- The next number taken by a device that has none. -/
theorem Carries.next (hroom : f.nextNumber < addOne f.nextNumber)
    (hnone : f.lookupDeviceNumber stableId = none) :
    Carries f (.allocateDeviceNumber stableId)
      { f with numbers := OrdMap.set stableId f.nextNumber f.numbers,
               next := some (addOne f.nextNumber) } where
  sound := hf.set (nextNumber_pos hf) (fun r hr _ ↦ (lt_nextNumber hf hr).ne)
    (f.readWatermark_le_nextNumber.trans hroom.le) hroom
  watermark := f.readWatermark_le_nextNumber.trans hroom.le
  sticky s n hs _ := by
    have hne : stableId ≠ s := by
      rintro rfl
      exact absurd (hnone.symm.trans hs) (by simp)
    exact (OrdMap.get?_set_of_ne hne _ _).trans hs
  fresh s n hs _ hsome := by
    obtain rfl : stableId = s := hs
    obtain rfl := Option.some.inj ((OrdMap.get?_set_self _ _ _).symm.trans hsome)
    exact f.readWatermark_le_nextNumber

theorem allocate_carries
    (hroom : LeavesRoom ⟨f, []⟩ (.allocateDeviceNumber stableId)) :
    ∃ f' a, f.allocateDeviceNumber stableId = .ok (f', a) ∧
      Carries f (.allocateDeviceNumber stableId) f' ∧ f'.devices = f.devices ∧
      f'.lookupDeviceNumber stableId = some a.number ∧
      (a.fresh = true ↔ f.lookupDeviceNumber stableId = none) := by
  rcases @allocateDeviceNumber_eq f stableId hf with ⟨n, hsome, heq⟩ | ⟨hnone, heq⟩
  · exact ⟨f, _, heq, Carries.refl hf, rfl, hsome, by simp [hsome]⟩
  · refine ⟨_, _, heq, Carries.next hf (hroom _ ?_) hnone, rfl, OrdMap.get?_set_self _ _ _, ?_⟩
    · exact if_pos hnone
    · exact iff_of_true rfl hnone

theorem set_carries {q : ℚ} (hset : f.setDeviceNumber stableId q = .ok f')
    (hroom : LeavesRoom ⟨f, []⟩ (.setDeviceNumber stableId q)) :
    Carries f (.setDeviceNumber stableId q) f' := by
  simp only [setDeviceNumber] at hset
  by_cases hbad : q.den ≠ 1 ∨ q ≤ 0
  · simp [hbad] at hset
  rw [if_neg hbad] at hset
  rw [not_or, not_not, not_le] at hbad
  have hpos : 0 < q.num := Rat.num_pos.mpr hbad.2
  have hlt : q.num < addOne q.num := hroom _ (if_pos hbad)
  cases hholder : (f.numbers.find? fun r ↦ decide (r.2 = q.num)).filter
      fun r ↦ decide (r.1 ≠ stableId) with
  | some holder =>
    rw [hholder] at hset
    cases hset
  | none =>
    have hfree : ∀ r ∈ f.numbers, r.1 ≠ stableId → r.2 ≠ q.num := by
      intro r hr hne heq
      cases hfind : f.numbers.find? fun r ↦ decide (r.2 = q.num) with
      | none => exact absurd heq (by simpa using find?_eq_none.mp hfind r hr)
      | some h =>
        -- The number is unique, so the row that is found is this one.
        have hsame : h = r := by
          refine inj_on_of_nodup_map hf.numbers (mem_of_find?_eq_some hfind) hr ?_
          rw [heq]
          simpa using find?_some hfind
        simp [hfind, Option.filter, hsame, hne] at hholder
    have hupsert : Numbers.upsert f.numbers stableId q.num =
        .ok (OrdMap.set stableId q.num f.numbers) := by
      rw [Numbers.upsert]
      split_ifs with hget
      · refine if_neg ?_
        rintro (h | ⟨r, hr, hn⟩)
        · exact h hget
        · refine hfree r hr ?_ hn
          rintro rfl
          exact OrdMap.get?_eq_none_iff.mp hget (mem_map_of_mem hr)
      · rw [Numbers.update, if_neg hget]
        refine if_neg ?_
        rintro ⟨r, hr, hne, hn⟩
        exact hfree r hr hne hn
    rw [hholder] at hset
    simp only [hupsert] at hset
    cases hset
    have hmark : f.readWatermark ≤
        (if f.readWatermark < addOne q.num then some (addOne q.num) else f.next).getD 1 ∧
        q.num < (if f.readWatermark < addOne q.num then some (addOne q.num) else f.next).getD 1 := by
      split_ifs with hmark
      · exact ⟨hmark.le, hlt⟩
      · exact ⟨le_rfl, hlt.trans_le (not_lt.mp hmark)⟩
    refine ⟨hf.set hpos hfree hmark.1 hmark.2, hmark.1, fun s n hs hne ↦ ?_, ?_⟩
    · exact (OrdMap.get?_set_of_ne hne _ _).trans hs
    · intro s n hs
      exact hs.elim

theorem release_carries :
    Carries f (.releaseDeviceNumber stableId) (f.releaseDeviceNumber stableId) where
  sound :=
    { deviceIds := hf.deviceIds
      stableIds := hf.stableIds
      keys := OrdMap.nodup_erase hf.keys _
      numbers := hf.numbers.sublist (filter_sublist.map _)
      positive := fun r hr ↦ hf.positive r (mem_of_mem_filter hr)
      below := fun r hr ↦ hf.below r (mem_of_mem_filter hr) }
  watermark := le_rfl
  sticky _ _ hs hne := (OrdMap.get?_erase_of_ne hne _).trans hs
  fresh _ _ hs := hs.elim

theorem insertDevice_nodup {d : Device} (h : f.insertDevice d = .ok f') :
    (f'.devices.map (·.id)).Nodup ∧ (f'.devices.map (·.stableId)).Nodup ∧
      f'.numbers = f.numbers ∧ f'.next = f.next := by
  rw [insertDevice] at h
  split_ifs at h with hused
  cases h
  refine ⟨?_, ?_, rfl, rfl⟩
  · rw [map_append, nodup_append]
    refine ⟨hf.deviceIds, by simp, fun a ha b hb ↦ ?_⟩
    obtain ⟨d', hd', rfl⟩ := mem_map.mp ha
    obtain rfl : b = d.id := by simpa using hb
    exact fun heq ↦ hused ⟨d', hd', .inl heq⟩
  · rw [map_append, nodup_append]
    refine ⟨hf.stableIds, by simp, fun a ha b hb ↦ ?_⟩
    obtain ⟨d', hd', rfl⟩ := mem_map.mp ha
    obtain rfl : b = d.stableId := by simpa using hb
    exact fun heq ↦ hused ⟨d', hd', .inr heq⟩

/-- An admission allocates where it makes a device, and touches no number elsewhere. -/
theorem admit_carries {id : String} {row : Option Device}
    (hroom : LeavesRoom ⟨f, []⟩ (.admitDevice stableId id))
    (h : f.admitDevice stableId id = .ok (f', row)) : Carries f (.admitDevice stableId id) f' := by
  rw [admitDevice] at h
  by_cases hblocked : stableId ∈ f.blocked
  · rw [if_pos hblocked] at h
    cases h
    exact Carries.refl hf
  rw [if_neg hblocked] at h
  cases hfind : f.devices.find? fun d ↦ decide (d.stableId = stableId) with
  | some existing =>
    rw [hfind] at h
    cases h
    exact Carries.of_sublist hf (List.Sublist.refl _) rfl rfl
  | none =>
    simp only [hfind] at h
    by_cases hdiscovered : stableId ∉ f.discovered
    · rw [if_pos hdiscovered] at h
      cases h
      exact Carries.refl hf
    rw [if_neg hdiscovered] at h
    have hadmits : f.Admits stableId := by
      refine ⟨hblocked, fun hmem ↦ ?_, not_not.mp hdiscovered⟩
      obtain ⟨d, hd, rfl⟩ := mem_map.mp hmem
      simpa using find?_eq_none.mp hfind d hd
    cases hinsert : f.insertDevice ⟨id, stableId⟩ with
    | error e => simp [hinsert, Bind.bind, Except.bind] at h
    | ok g =>
      obtain ⟨hids, hstable, hnumbers, hnext⟩ := insertDevice_nodup hf hinsert
      have hg : Carries f (.insertDevice ⟨id, stableId⟩) g :=
        Carries.of_numbers hf hids hstable hnumbers hnext
      have hlookup : ∀ s, g.lookupDeviceNumber s = f.lookupDeviceNumber s := by
        intro s
        rw [lookupDeviceNumber, hnumbers, lookupDeviceNumber]
      have hnumber : g.nextNumber = f.nextNumber := by
        rw [nextNumber, readWatermark, highestAssigned, hnumbers, hnext]
        rfl
      have hroom' : LeavesRoom ⟨g, []⟩ (.allocateDeviceNumber stableId) := by
        intro n hn
        refine hroom n ?_
        simp only [takes, hlookup, hnumber] at hn ⊢
        split_ifs at hn with hnone
        · rwa [if_pos ⟨hadmits, hnone⟩]
        · cases hn
      obtain ⟨g', a, hallocate, hcarries, -⟩ := allocate_carries hg.sound hroom'
      simp only [hinsert, hallocate, Bind.bind, Except.bind] at h
      cases h
      have hlast : Carries g' (.recordSighting stableId)
          { g' with discovered := g'.discovered.filter (· ≠ stableId) } :=
        Carries.of_sublist hcarries.sound (List.Sublist.refl _) rfl rfl
      refine ⟨hlast.sound, hg.watermark.trans hcarries.watermark, fun s n hs hne ↦ ?_,
        fun s n hs hnone hsome ↦ ?_⟩
      · exact hcarries.sticky s n ((hlookup s).trans hs) not_false
      · exact hg.watermark.trans
          (hcarries.fresh s n hs ((hlookup s).trans hnone) hsome)

theorem call_carries (hroom : LeavesRoom ⟨f, []⟩ e) (he : e ≠ .compactDeviceNumbers) :
    Carries f e (f.call e).1 := by
  cases e with
  | allocateDeviceNumber stableId =>
    obtain ⟨f', a, heq, hcarries, -⟩ := allocate_carries hf hroom
    rw [call, heq]
    exact hcarries
  | setDeviceNumber stableId n =>
    rw [call]
    cases hset : f.setDeviceNumber stableId n with
    | error e => exact Carries.refl hf
    | ok f' => exact set_carries hf hset hroom
  | releaseDeviceNumber stableId => exact release_carries hf
  | compactDeviceNumbers => exact absurd rfl he
  | admitDevice stableId id =>
    rw [call]
    cases hadmit : f.admitDevice stableId id with
    | error e => exact Carries.refl hf
    | ok p => exact admit_carries hf hroom hadmit
  | insertDevice d =>
    rw [call]
    cases hinsert : f.insertDevice d with
    | error e => exact Carries.refl hf
    | ok f' =>
      obtain ⟨hids, hstable, hnumbers, hnext⟩ := insertDevice_nodup hf hinsert
      exact Carries.of_numbers hf hids hstable hnumbers hnext
  | recordSighting stableId =>
    rw [call, recordSighting]
    split_ifs
    · exact Carries.refl hf
    · exact Carries.of_sublist hf (List.Sublist.refl _) rfl rfl
  | forget id connected =>
    rw [call, forget]
    split
    · exact Carries.refl hf
    · dsimp only [recordSighting]
      split_ifs <;> exact Carries.of_sublist hf filter_sublist rfl rfl
  | block id =>
    rw [call, block]
    split
    · exact Carries.refl hf
    · exact Carries.of_sublist hf filter_sublist rfl rfl
  | unblock stableId => exact Carries.of_sublist hf (List.Sublist.refl _) rfl rfl

end

/-! ## Runs -/

theorem mem_sinceCompaction {log : List Entry} {x y : Entry} (h : y ∈ sinceCompaction (log ++ [x])) :
    x.event ≠ .compactDeviceNumbers ∧ (y = x ∨ y ∈ sinceCompaction log) := by
  rw [sinceCompaction, reverse_append, reverse_singleton, singleton_append, takeWhile_cons] at h
  split_ifs at h with hx
  · refine ⟨by simpa using hx, ?_⟩
    rw [mem_reverse, mem_cons] at h
    rcases h with h | h
    · exact .inl h
    · exact .inr (mem_reverse.mpr h)
  · simp at h

/-- What every run keeps. -/
structure Remembers (w : World) : Prop where
  sound : w.farm.Sound
  /-- Every number that was reserved since the last compaction is below the watermark. -/
  below : ∀ y ∈ sinceCompaction w.log, ∀ r ∈ y.before.numbers, r.2 < w.farm.readWatermark
  kept : History.Each Kept w.log

/-- The watermark is past every number reserved so far, this call's tables included. -/
theorem Remembers.reserved {w : World} (h : Remembers w) {y : Entry}
    (hy : y ∈ sinceCompaction w.log ++ [w.entry e]) {r : String × Int} (hr : r ∈ y.before.numbers) :
    r.2 < w.farm.readWatermark := by
  rcases mem_append.mp hy with hy | hy
  · exact h.below y hy r hr
  · obtain rfl := mem_singleton.mp hy
    exact h.sound.below r hr

/-- What a call comes to, when adding one to the number it takes gives a greater one. -/
theorem Remembers.entry {w : World} (h : Remembers w) (hroom : LeavesRoom w e) :
    Kept w.log (w.entry e) := by
  by_cases he : e = .compactDeviceNumbers
  · subst he
    obtain ⟨f', report, heq, -, hrenumbered⟩ := compact_renumbers h.sound
    have hcall : w.farm.call .compactDeviceNumbers = (f', .compacted report) := by
      rw [call, heq]
      rfl
    refine ⟨fun _ _ _ hnot ↦ absurd trivial hnot, fun _ _ hnot ↦ hnot.elim, fun _ hnot ↦ ?_,
      fun _ ↦ ⟨report, congrArg Prod.snd hcall, ?_⟩⟩
    · cases hnot
    · rw [World.entry, hcall]
      exact hrenumbered
  · have hcarries : Carries w.farm e (w.farm.call e).1 := call_carries h.sound hroom he
    refine ⟨hcarries.sticky, fun s n hs hnone hsome y hy hmem ↦ ?_, fun s hs ↦ ?_,
      fun heq ↦ absurd heq he⟩
    · obtain ⟨r, hr, rfl⟩ := mem_map.mp hmem
      exact absurd (hcarries.fresh s _ hs hnone hsome) (not_le.mpr (h.reserved hy hr))
    · obtain rfl : e = .allocateDeviceNumber s := hs
      obtain ⟨f', a, heq, -, -, hnumber, hfresh⟩ := allocate_carries h.sound hroom
      have hcall : w.farm.call (.allocateDeviceNumber s) = (f', .allocated a) := by
        rw [call, heq]
        rfl
      refine ⟨a, congrArg Prod.snd hcall, ?_, hfresh⟩
      rw [World.entry, hcall]
      exact hnumber

/-- One call keeps what the run remembers. -/
theorem Remembers.step {w w' : World} (h : Remembers w) (hstep : DeviceFarm.step w e = some w')
    (hroom : LeavesRoom w e) : Remembers w' := by
  obtain rfl : _ = w' := Option.some.inj hstep
  have hkept : History.Each Kept (w.log ++ [w.entry e]) :=
    History.each_snoc.mpr ⟨h.kept, h.entry hroom⟩
  by_cases he : e = .compactDeviceNumbers
  · subst he
    obtain ⟨f', report, heq, hsound, -⟩ := compact_renumbers h.sound
    have hafter : (w.entry .compactDeviceNumbers).after = f' := by
      rw [World.entry, call, heq]
      rfl
    refine ⟨hafter ▸ hsound, fun y hy ↦ ?_, hkept⟩
    exact absurd rfl (mem_sinceCompaction hy).1
  · have hcarries : Carries w.farm e (w.entry e).after := call_carries h.sound hroom he
    refine ⟨hcarries.sound, fun y hy r hr ↦ ?_, hkept⟩
    refine (h.reserved (e := e) ?_ hr).trans_le hcarries.watermark
    rcases (mem_sinceCompaction hy).2 with rfl | hy
    · simp
    · simp [hy]

/-- **The numbers are sticky and never issued again.**  In every run of calls from sound tables, as
long as adding one to each number that is taken into use gives a greater one: the reserved numbers
are distinct and positive, a device keeps its number until it is set, released or compacted, an
allocation gives out no number that was reserved since the last compaction, and a compaction
goes through and renumbers the devices from 1 on. -/
theorem numbers_kept (hf : f.Sound) {es : List Event} {w : World}
    (h : Steps.Guarded (Steps.By DeviceFarm.step) LeavesRoom ⟨f, []⟩ es w) :
    (w.farm.numbers.map (·.1)).Nodup ∧ (w.farm.numbers.map (·.2)).Nodup ∧
      (∀ r ∈ w.farm.numbers, 0 < r.2) ∧ History.Each Kept w.log := by
  have hinv : Remembers w := by
    refine Steps.invariant_of_guarded h ⟨hf, by simp [sinceCompaction], History.each_nil⟩ ?_
    intro s e t hs he hroom
    exact hs.step he hroom
  exact ⟨hinv.sound.keys, hinv.sound.numbers, hinv.sound.positive, hinv.kept⟩

/-- The tables of a new installation. -/
def newFarm : DeviceFarm := ⟨[], [], some 1, [], []⟩

theorem numbers_kept_phones :
    ∃ w : World, (w.farm.numbers = [("b", 1), ("c", 2)] ∧ w.log.length = 10) ∧
      (w.farm.numbers.map (·.1)).Nodup ∧ (w.farm.numbers.map (·.2)).Nodup ∧
      (∀ r ∈ w.farm.numbers, 0 < r.2) ∧ History.Each Kept w.log := by
  have hrun : Steps.Guarded (Steps.By DeviceFarm.step) LeavesRoom ⟨newFarm, []⟩
      [.recordSighting "a", .recordSighting "b", .recordSighting "c", .admitDevice "a" "1",
        .admitDevice "b" "2", .admitDevice "c" "3", .setDeviceNumber "c" 7, .forget "1" false,
        .compactDeviceNumbers, .allocateDeviceNumber "b"] _ :=
    Steps.guarded_by_iff.mpr rfl
  exact ⟨_, ⟨by decide +kernel, by decide +kernel⟩, numbers_kept
    ⟨by simp [newFarm], by simp [newFarm], by simp [newFarm], by simp [newFarm],
      by simp [newFarm], by simp [newFarm]⟩ hrun⟩

/-- A device is given the number 2^53 - 1 by hand.  The next one gets 2^53, and so does the one after
it. -/
theorem numbers_issued_twice :
    ∃ w : World, Steps (Steps.By DeviceFarm.step) ⟨newFarm, []⟩
      [.setDeviceNumber "a" 9007199254740991, .allocateDeviceNumber "b", .releaseDeviceNumber "b",
        .allocateDeviceNumber "c"] w ∧ ¬ History.Each Kept w.log := by
  refine ⟨_, Steps.steps_by_iff.mpr rfl, fun h ↦ ?_⟩
  have hlast := h [_, _, _] _ [] rfl
  -- The number was the one of the device whose reservation is released.
  exact hlast.fresh "c" 9007199254740992 rfl rfl rfl _
    (mem_of_getElem? (i := 2) rfl) (mem_of_getElem? (i := 1) rfl)

end Enkaku.DeviceFarm
