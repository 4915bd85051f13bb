import Enkaku.Lib.OrdMap
import Mathlib.Data.List.Induction

/-!
# The device tracker

`tracker.ts`: the adb server pushes snapshots of its devices, and the tracker says what has changed
since the last one.  After a reconnect the removals are withheld for a while: what a snapshot does
not mention is carried over from the last one.

The events are the tracker's word to the rest of the program: `events_replay` says that whoever
applies them in order has the devices the tracker has, and what a settle window withholds.
-/

set_option autoImplicit false

namespace Enkaku.Tracker

/-! ## Snapshots and events -/

/-- `TrackedDevice`, as far as a snapshot of `host:track-devices` fills it. -/
structure TrackedDevice where
  serial : String
  state : String
  deriving DecidableEq, Repr

inductive TrackerEvent where
  | add (serial state : String)
  | remove (serial : String)
  | change (serial state : String)
  deriving DecidableEq, Repr

/-- The states by serial: `new Map(devices.map((d) => [d.serial, d.state]))`. -/
def stateMap (devices : List TrackedDevice) : List (String × String) :=
  OrdMap.merge [] (devices.map fun d ↦ (d.serial, d.state))

/-- The event of a serial of the new snapshot, when it is new or its state is another. -/
def upsert? (prevMap : List (String × String)) (p : String × String) : Option TrackerEvent :=
  match OrdMap.get? p.1 prevMap with
  | none => some (.add p.1 p.2)
  | some old => if old ≠ p.2 then some (.change p.1 p.2) else none

/-- `diffSnapshots`. -/
def diffSnapshots (prev next : List TrackedDevice) : List TrackerEvent :=
  let prevMap := stateMap prev
  let nextMap := stateMap next
  nextMap.filterMap (upsert? prevMap) ++
    ((prevMap.map (·.1)).filter fun serial ↦ (OrdMap.get? serial nextMap).isNone).map .remove

/-! ## The tracker -/

/-- The fields of a `DeviceTracker` that its snapshots read and write, and the flag of its loop. -/
structure DeviceTracker where
  current : List TrackedDevice := []
  settleUntil : Int := 0
  reconnecting : Bool := false
  deriving DecidableEq, Repr

/-- What happens to a tracker: its loop starts, a connection is made, a snapshot arrives. -/
inductive Input where
  | start
  | connected (now : Int)
  | snapshot (now : Int) (next : List TrackedDevice)

namespace DeviceTracker

/-- `settling`: a settle window is open. -/
def settling (t : DeviceTracker) (now : Int) : Bool := 0 < t.settleUntil && now < t.settleUntil

/-- The snapshot, with every device it does not mention carried over while a window is open. -/
def effective (t : DeviceTracker) (now : Int) (next : List TrackedDevice) : List TrackedDevice :=
  if t.settling now then
    next ++ t.current.filter fun d ↦ !(next.map (·.serial)).contains d.serial
  else next

/-- `emitFromSnapshot`, with the events it emits. -/
def emitFromSnapshot (t : DeviceTracker) (now : Int) (next : List TrackedDevice) :
    DeviceTracker × List TrackerEvent :=
  ({ t with current := t.effective now next }, diffSnapshots t.current (t.effective now next))

/-- What `runLoop` does to the window when it has connected: only a reconnect opens one. -/
def connected (graceMs : Int) (t : DeviceTracker) (now : Int) : DeviceTracker :=
  { t with
    settleUntil := if t.reconnecting ∧ 0 < graceMs then now + graceMs else 0
    reconnecting := true }

/-- One input, and the events it makes the tracker emit. -/
def step (graceMs : Int) (t : DeviceTracker) : Input → DeviceTracker × List TrackerEvent
  | .start => ({ t with reconnecting := false }, [])
  | .connected now => (t.connected graceMs now, [])
  | .snapshot now next => t.emitFromSnapshot now next

/-- A tracker after its inputs, and all it has emitted. -/
def run (graceMs : Int) (inputs : List Input) : DeviceTracker × List TrackerEvent :=
  inputs.foldl (fun r input ↦ ((r.1.step graceMs input).1, r.2 ++ (r.1.step graceMs input).2))
    ({}, [])

end DeviceTracker

/-! ## Replaying the events -/

/-- What an event does to a map of states. -/
def apply (m : List (String × String)) : TrackerEvent → List (String × String)
  | .add serial state => OrdMap.set serial state m
  | .remove serial => OrdMap.erase serial m
  | .change serial state => OrdMap.set serial state m

/-- The map the events lead to, from an empty one. -/
def replay (events : List TrackerEvent) : List (String × String) := events.foldl apply []

theorem nodup_stateMap (devices : List TrackedDevice) : ((stateMap devices).map (·.1)).Nodup :=
  OrdMap.nodup_merge (by simp) _

theorem get?_stateMap_eq_none_iff {devices : List TrackedDevice} {serial : String} :
    OrdMap.get? serial (stateMap devices) = none ↔ serial ∉ devices.map (·.serial) := by
  rw [stateMap, OrdMap.get?_merge_eq_none_iff, List.map_map]
  simp [Function.comp_def]

/-- The additions and changes of a snapshot write the bindings that are not there already. -/
theorem foldl_apply_upsert (prevMap m nextMap : List (String × String)) :
    (nextMap.filterMap (upsert? prevMap)).foldl apply m =
      OrdMap.merge m (nextMap.filter fun p ↦ OrdMap.get? p.1 prevMap ≠ some p.2) := by
  induction nextMap generalizing m with
  | nil => rfl
  | cons p nextMap ih =>
    rw [List.filterMap_cons, List.filter_cons, upsert?]
    cases hget : OrdMap.get? p.1 prevMap with
    | none => simpa [apply, OrdMap.merge] using ih (OrdMap.set p.1 p.2 m)
    | some old =>
      by_cases hold : old = p.2
      · simpa [hold] using ih m
      · simpa [hold, apply, OrdMap.merge] using ih (OrdMap.set p.1 p.2 m)

theorem foldl_apply_remove (serials : List String) (m : List (String × String)) :
    (serials.map TrackerEvent.remove).foldl apply m =
      serials.foldl (fun m serial ↦ OrdMap.erase serial m) m := by
  rw [List.foldl_map]
  rfl

/-- **A diff leads from the one snapshot to the other**, for whoever has the states of the first. -/
theorem get?_foldl_diffSnapshots {prev next : List TrackedDevice} {m : List (String × String)}
    (hm : ∀ serial, OrdMap.get? serial m = OrdMap.get? serial (stateMap prev)) (serial : String) :
    OrdMap.get? serial ((diffSnapshots prev next).foldl apply m) =
      OrdMap.get? serial (stateMap next) := by
  have hnodup : (((stateMap next).filter fun p ↦
      OrdMap.get? p.1 (stateMap prev) ≠ some p.2).map (·.1)).Nodup :=
    (nodup_stateMap next).sublist (List.filter_sublist.map _)
  rw [diffSnapshots, List.foldl_append, foldl_apply_upsert, foldl_apply_remove,
    OrdMap.get?_foldl_erase, OrdMap.get?_merge hnodup, OrdMap.get?_filter (nodup_stateMap next), hm]
  have hremoved : serial ∈ ((stateMap prev).map (·.1)).filter
      (fun serial ↦ (OrdMap.get? serial (stateMap next)).isNone) ↔
        OrdMap.get? serial (stateMap prev) ≠ none ∧ OrdMap.get? serial (stateMap next) = none := by
    rw [List.mem_filter, Option.isNone_iff_eq_none]
    refine and_congr_left fun _ ↦ ?_
    rw [ne_eq, OrdMap.get?_eq_none_iff, not_not]
  by_cases h : OrdMap.get? serial (stateMap prev) ≠ none ∧ OrdMap.get? serial (stateMap next) = none
  · rw [if_pos (hremoved.mpr h), h.2]
  · rw [if_neg (mt hremoved.mp h)]
    cases hnext : OrdMap.get? serial (stateMap next) with
    | none =>
      -- nor was it there before
      have hprev : OrdMap.get? serial (stateMap prev) = none := not_not.mp fun hp ↦ h ⟨hp, hnext⟩
      rw [hprev]
      rfl
    | some state =>
      by_cases hsame : OrdMap.get? serial (stateMap prev) = some state
      · simp [hsame, Option.filter]
      · simp [hsame, Option.filter]

/-! ## Runs -/

namespace DeviceTracker

theorem run_concat (graceMs : Int) (inputs : List Input) (input : Input) :
    run graceMs (inputs ++ [input]) =
      (((run graceMs inputs).1.step graceMs input).1,
        (run graceMs inputs).2 ++ ((run graceMs inputs).1.step graceMs input).2) := by
  rw [run, List.foldl_append]
  rfl

/-- What has been emitted leads to what the tracker holds. -/
theorem get?_replay (graceMs : Int) (inputs : List Input) (serial : String) :
    OrdMap.get? serial (replay (run graceMs inputs).2) =
      OrdMap.get? serial (stateMap (run graceMs inputs).1.current) := by
  induction inputs using List.reverseRecOn generalizing serial with
  | nil => rfl
  | append_singleton inputs input ih =>
    rw [run_concat]
    cases input with
    | start | connected now => rw [step, List.append_nil]; exact ih serial
    | snapshot now next =>
      rw [step, emitFromSnapshot, replay, List.foldl_append]
      exact get?_foldl_diffSnapshots ih serial

/-- While a window is open, no device of the tracker is missing from what it goes on with. -/
theorem get?_effective_ne_none {t : DeviceTracker} {now : Int} (h : t.settling now = true)
    (next : List TrackedDevice) {d : TrackedDevice} (hd : d ∈ t.current) :
    OrdMap.get? d.serial (stateMap (t.effective now next)) ≠ none := by
  intro hnone
  refine (get?_stateMap_eq_none_iff.mp hnone) ?_
  rw [effective, if_pos h, List.map_append, List.mem_append]
  by_cases hnext : d.serial ∈ next.map (·.serial)
  · exact .inl hnext
  · refine .inr (List.mem_map_of_mem (List.mem_filter.mpr ⟨hd, ?_⟩))
    simpa using hnext

theorem remove_notMem {t : DeviceTracker} {now : Int} (h : t.settling now = true)
    (next : List TrackedDevice) (serial : String) :
    .remove serial ∉ (t.emitFromSnapshot now next).2 := by
  rw [emitFromSnapshot, diffSnapshots, List.mem_append, not_or]
  constructor
  · rw [List.mem_filterMap]
    rintro ⟨p, -, hp⟩
    rw [upsert?] at hp
    split at hp
    · cases hp
    · split_ifs at hp
      cases hp
  · rw [List.mem_map]
    rintro ⟨serial, hserial, -⟩
    rw [List.mem_filter, Option.isNone_iff_eq_none] at hserial
    obtain ⟨d, hd, rfl⟩ : ∃ d ∈ t.current, d.serial = serial := by
      have hmem : serial ∈ t.current.map (·.serial) := by
        by_contra hnot
        exact OrdMap.get?_eq_none_iff.mp (get?_stateMap_eq_none_iff.mpr hnot) hserial.1
      simpa using hmem
    exact get?_effective_ne_none h next hd hserial.2

end DeviceTracker

/-- **The events replay to the tracker's state.**  At the end of any run, whoever has applied the
events has the states the tracker has; a snapshot that arrives while a settle window is open removes
nothing; and one that arrives when none is open — the first after a window, say — is what the
tracker then holds. -/
theorem events_replay (graceMs : Int) (inputs : List Input) :
    let t := (DeviceTracker.run graceMs inputs).1
    (∀ serial, OrdMap.get? serial (replay (DeviceTracker.run graceMs inputs).2) =
      OrdMap.get? serial (stateMap t.current)) ∧
    (∀ now next, t.settling now = true →
      ∀ serial, .remove serial ∉ (t.emitFromSnapshot now next).2) ∧
    ∀ now next, t.settling now = false →
      stateMap (t.emitFromSnapshot now next).1.current = stateMap next := by
  refine ⟨DeviceTracker.get?_replay graceMs inputs, ?_, ?_⟩
  · intro now next h serial
    exact DeviceTracker.remove_notMem h next serial
  · intro now next h
    rw [DeviceTracker.emitFromSnapshot, DeviceTracker.effective, if_neg (by simp [h])]

namespace Reconnect

/-- A phone, and a reconnect whose first snapshot is empty. -/
def inputs : List Input :=
  [.start, .connected 100, .snapshot 100 [⟨"a", "device"⟩], .connected 200, .snapshot 210 []]

/-- The phone stays while the window is open, and is gone with the next snapshot. -/
theorem events_replay_reconnect : let t := (DeviceTracker.run 50 inputs).1
    .remove "a" ∉ (t.emitFromSnapshot 220 []).2 ∧
      stateMap (t.emitFromSnapshot 260 []).1.current = stateMap [] :=
  ⟨(events_replay 50 inputs).2.1 220 [] (by decide) "a",
    (events_replay 50 inputs).2.2 260 [] (by decide)⟩

end Reconnect

end Enkaku.Tracker
