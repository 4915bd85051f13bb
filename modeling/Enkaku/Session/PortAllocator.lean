import Enkaku.Lib.OrdMap
import Enkaku.Lib.Steps

/-!
# The ports of the sessions

`PortAllocator.claim` looks a port up in the registry, awaits a bind test of it, and enters it in the
registry when the test has answered.  Other calls come between the look and the entry.

A claim holds a port of its own as long as no port is entered that somebody entered meanwhile
(`held_once_iff`).
-/

set_option autoImplicit false

namespace Enkaku.Session

open List

/-- Why a claim went past a port. -/
inductive PortAllocator.Refusal
  /-- It was in the registry. -/
  | inUse
  /-- Its bind test failed. -/
  | notBindable
  deriving DecidableEq, Repr

/-- A `claim` that awaits its bind test.  The ports it went past are there for the statements about
it only. -/
structure PortAllocator.Claim where
  id : Nat
  deviceId : String
  /-- The port under test. -/
  port : Nat
  /-- The ports of the range after it. -/
  rest : List Nat
  tried : List (Nat × PortAllocator.Refusal)
  deriving DecidableEq, Repr

/-- A port a claim has returned and nobody has released. -/
structure PortAllocator.Hold where
  deviceId : String
  port : Nat
  deriving DecidableEq, Repr

/-- The allocator, with the claims in flight, the ports its callers hold and what the failed claims
tried. -/
structure PortAllocator where
  rangeStart : Nat
  rangeEnd : Nat
  inUse : List (Nat × String)
  claims : List PortAllocator.Claim
  held : List PortAllocator.Hold
  failed : List (List (Nat × PortAllocator.Refusal))
  deriving DecidableEq, Repr

namespace PortAllocator

/-- The constructor. -/
def new (rangeStart rangeEnd : Nat) : PortAllocator := ⟨rangeStart, rangeEnd, [], [], [], []⟩

/-- The ports of the range. -/
def ports (s : PortAllocator) : List Nat :=
  List.range' s.rangeStart (s.rangeEnd + 1 - s.rangeStart)

/-- The loop of `claim` up to its next bind test: the ports in use it goes past, the port it tests
and the ports after that. -/
def nextTest (inUse : List (Nat × String)) : List Nat → List Nat × Option (Nat × List Nat)
  | [] => ([], none)
  | port :: ports =>
    if (OrdMap.get? port inUse).isSome then
      (port :: (nextTest inUse ports).1, (nextTest inUse ports).2)
    else ([], some (port, ports))

/-- Goes on with a claim at these ports: to its next bind test, or to the end of the range, where it
throws `port_range_exhausted`. -/
def goOn (s : PortAllocator) (id : Nat) (deviceId : String) (ports : List Nat)
    (tried : List (Nat × Refusal)) : PortAllocator :=
  let tried := tried ++ (nextTest s.inUse ports).1.map (·, .inUse)
  match (nextTest s.inUse ports).2 with
  | some (port, rest) => { s with claims := s.claims ++ [⟨id, deviceId, port, rest, tried⟩] }
  | none => { s with failed := s.failed ++ [tried] }

/-- What happens to the allocator. -/
inductive Event
  /-- `claim` up to its first bind test. -/
  | claim (id : Nat) (deviceId : String)
  /-- The bind test of a claim answers, and the claim goes on. -/
  | tested (id : Nat) (free : Bool)
  /-- `release`. -/
  | release (port : Nat)
  /-- `releaseDevice`. -/
  | releaseDevice (deviceId : String)
  deriving DecidableEq, Repr

def claimOf (s : PortAllocator) (id : Nat) : Option Claim := s.claims.find? (·.id = id)

/-- One event; none if it cannot happen. -/
def step (s : PortAllocator) : Event → Option PortAllocator
  | .claim id deviceId =>
    if (s.claimOf id).isSome then none else some (s.goOn id deviceId s.ports [])
  | .tested id free =>
    match s.claimOf id with
    | none => none
    | some c =>
      let s := { s with claims := s.claims.filter (·.id ≠ id) }
      if free then
        some { s with
          inUse := OrdMap.set c.port c.deviceId s.inUse
          held := s.held ++ [⟨c.deviceId, c.port⟩] }
      else some (s.goOn id c.deviceId c.rest (c.tried ++ [(c.port, .notBindable)]))
  | .release port =>
    some { s with inUse := OrdMap.erase port s.inUse, held := s.held.filter (·.port ≠ port) }
  | .releaseDevice deviceId =>
    some { s with
      inUse := s.inUse.filter (·.2 ≠ deviceId), held := s.held.filter (·.deviceId ≠ deviceId) }

/-! ## What the allocator promises -/

/-- A port is held once, it lies in the range, the registry has it for its holder whatever another
device releases, and a claim fails only after every port of the range was refused to it. -/
structure Safe (s : PortAllocator) : Prop where
  distinct : (s.held.map (·.port)).Nodup
  inRange : ∀ h ∈ s.held, s.rangeStart ≤ h.port ∧ h.port ≤ s.rangeEnd
  registered : ∀ h ∈ s.held, OrdMap.get? h.port s.inUse = some h.deviceId
  exhausted : ∀ tried ∈ s.failed, ∀ port, s.rangeStart ≤ port → port ≤ s.rangeEnd →
    ∃ r, (port, r) ∈ tried

/-- No port is entered that the registry has already. -/
def Untaken (s : PortAllocator) : Event → Prop
  | .tested id true => ∀ c ∈ s.claimOf id, OrdMap.get? c.port s.inUse = none
  | _ => True

instance (s : PortAllocator) : ∀ e, Decidable (Untaken s e)
  | .tested id true => inferInstanceAs (Decidable (∀ c ∈ s.claimOf id, _))
  | .tested _ false | .claim _ _ | .release _ | .releaseDevice _ => isTrue trivial

/-! ## What every event keeps -/

variable {s t : PortAllocator} {e : Event} {es : List Event} {id : Nat} {deviceId : String}

theorem mem_ports {port : Nat} : port ∈ s.ports ↔ s.rangeStart ≤ port ∧ port ≤ s.rangeEnd := by
  rw [ports, mem_range'_1]
  omega

/-- A port is gone past, or it is the one under test, or it comes after it. -/
theorem nextTest_cases (inUse : List (Nat × String)) {port : Nat} {ps : List Nat} (h : port ∈ ps) :
    port ∈ (nextTest inUse ps).1 ∨
      ∃ next rest, (nextTest inUse ps).2 = some (next, rest) ∧ (port = next ∨ port ∈ rest) := by
  induction ps with
  | nil => simp at h
  | cons p ps ih =>
    rw [nextTest]
    split_ifs with hp
    · rcases mem_cons.mp h with rfl | h
      · exact .inl (by simp)
      · rcases ih h with hskip | hnext
        · exact .inl (.tail _ hskip)
        · exact .inr hnext
    · exact .inr ⟨p, ps, rfl, mem_cons.mp h⟩

theorem mem_of_nextTest (inUse : List (Nat × String)) {ps rest : List Nat} {next port : Nat}
    (h : (nextTest inUse ps).2 = some (next, rest)) (hport : port = next ∨ port ∈ rest) : port ∈ ps := by
  induction ps with
  | nil => simp [nextTest] at h
  | cons p ps ih =>
    rw [nextTest] at h
    split_ifs at h with hp
    · exact .tail _ (ih h)
    · cases h
      exact mem_cons.mpr hport

/-- A claim has been at every port of the range before the one it tests. -/
structure Claim.Fits (c : Claim) (ports : List Nat) : Prop where
  port : c.port ∈ ports
  rest : ∀ p ∈ c.rest, p ∈ ports
  tried : ∀ p ∈ ports, (∃ r, (p, r) ∈ c.tried) ∨ p = c.port ∨ p ∈ c.rest

/-- What every event keeps, whatever it enters. -/
structure Kept (s : PortAllocator) : Prop where
  keys : (s.inUse.map (·.1)).Nodup
  /-- The registry has only ports that are held. -/
  backed : ∀ port d, OrdMap.get? port s.inUse = some d → ⟨d, port⟩ ∈ s.held
  claims : ∀ c ∈ s.claims, c.Fits s.ports
  inRange : ∀ h ∈ s.held, h.port ∈ s.ports
  exhausted : ∀ tried ∈ s.failed, ∀ port ∈ s.ports, ∃ r, (port, r) ∈ tried

theorem kept_new (rangeStart rangeEnd : Nat) : Kept (new rangeStart rangeEnd) :=
  ⟨by simp [new], by simp [new], by simp [new], by simp [new], by simp [new]⟩

theorem Kept.goOn (h : Kept s) {ps : List Nat} {tried : List (Nat × Refusal)}
    (hps : ∀ p ∈ ps, p ∈ s.ports) (htried : ∀ p ∈ s.ports, (∃ r, (p, r) ∈ tried) ∨ p ∈ ps) :
    Kept (s.goOn id deviceId ps tried) := by
  have hgone : ∀ p ∈ s.ports,
      (∃ r, (p, r) ∈ tried ++ (nextTest s.inUse ps).1.map (·, Refusal.inUse)) ∨
        ∃ next rest, (nextTest s.inUse ps).2 = some (next, rest) ∧ (p = next ∨ p ∈ rest) := by
    intro p hp
    rcases htried p hp with ⟨r, hr⟩ | hmem
    · exact .inl ⟨r, mem_append_left _ hr⟩
    · rcases nextTest_cases s.inUse hmem with hskip | hnext
      · exact .inl ⟨.inUse, mem_append_right _ (mem_map_of_mem hskip)⟩
      · exact .inr hnext
  rw [PortAllocator.goOn]
  cases hnext : (nextTest s.inUse ps).2 with
  | none =>
    refine ⟨h.keys, h.backed, h.claims, h.inRange, fun tried' ht p hp ↦ ?_⟩
    rcases mem_append.mp ht with ht | ht
    · exact h.exhausted tried' ht p hp
    · obtain rfl := mem_singleton.mp ht
      rcases hgone p hp with htried | ⟨next, rest, hsome, -⟩
      · exact htried
      · simp [hnext] at hsome
  | some r =>
    obtain ⟨next, rest⟩ := r
    refine ⟨h.keys, h.backed, fun c hc ↦ ?_, h.inRange, h.exhausted⟩
    rcases mem_append.mp hc with hc | hc
    · exact h.claims c hc
    · obtain rfl := mem_singleton.mp hc
      refine ⟨hps _ (mem_of_nextTest _ hnext (.inl rfl)),
        fun p hp ↦ hps _ (mem_of_nextTest _ hnext (.inr hp)), fun p hp ↦ ?_⟩
      rcases hgone p hp with htried | ⟨next', rest', hsome, hor⟩
      · exact .inl htried
      · cases hnext.symm.trans hsome
        exact .inr hor

theorem mem_of_claimOf {c : Claim} (h : s.claimOf id = some c) : c ∈ s.claims :=
  mem_of_find?_eq_some h

/-- The claim that is answered leaves. -/
theorem Kept.leave (h : Kept s) (p : Claim → Bool) : Kept { s with claims := s.claims.filter p } :=
  ⟨h.keys, h.backed, fun c hc ↦ h.claims c (mem_of_mem_filter hc), h.inRange, h.exhausted⟩

theorem Kept.step (h : Kept s) (he : Steps.By step s e t) : Kept t := by
  cases e with
  | claim id deviceId =>
    rw [Steps.By, PortAllocator.step] at he
    split_ifs at he
    cases he
    exact h.goOn (fun _ hp ↦ hp) fun _ hp ↦ .inr hp
  | tested id free =>
    rw [Steps.By, PortAllocator.step] at he
    split at he
    · cases he
    next c hc =>
      have hfits := h.claims c (mem_of_claimOf hc)
      cases free with
      | false =>
        cases he
        refine (h.leave _).goOn (fun p hp ↦ hfits.rest p hp) fun p hp ↦ ?_
        rcases hfits.tried p hp with ⟨r, hr⟩ | rfl | hrest
        · exact .inl ⟨r, mem_append_left _ hr⟩
        · exact .inl ⟨.notBindable, by simp⟩
        · exact .inr hrest
      | true =>
        cases he
        refine ⟨OrdMap.nodup_set h.keys _ _, fun port d hget ↦ ?_, (h.leave _).claims,
          fun hold hmem ↦ ?_, h.exhausted⟩
        · rw [OrdMap.get?_set] at hget
          split_ifs at hget with hport
          · cases hget
            simp [hport]
          · exact mem_append_left _ (h.backed port d hget)
        · rcases mem_append.mp hmem with hmem | hmem
          · exact h.inRange hold hmem
          · obtain rfl := mem_singleton.mp hmem
            exact hfits.port
  | release port =>
    cases he
    refine ⟨OrdMap.nodup_erase h.keys _, fun p d hget ↦ ?_, h.claims,
      fun hold hmem ↦ h.inRange hold (mem_of_mem_filter hmem), h.exhausted⟩
    rw [OrdMap.get?_erase] at hget
    split_ifs at hget with hp
    exact mem_filter.mpr ⟨h.backed p d hget, by simpa using Ne.symm hp⟩
  | releaseDevice deviceId =>
    cases he
    refine ⟨h.keys.sublist (filter_sublist.map _), fun p d hget ↦ ?_, h.claims,
      fun hold hmem ↦ h.inRange hold (mem_of_mem_filter hmem), h.exhausted⟩
    rw [OrdMap.get?_filter h.keys, Option.filter_eq_some_iff] at hget
    exact mem_filter.mpr ⟨h.backed p d hget.1, by simpa using hget.2⟩

/-! ## When a port is held once -/

theorem Kept.safe (h : Kept s) (hdistinct : (s.held.map (·.port)).Nodup)
    (hregistered : ∀ hold ∈ s.held, OrdMap.get? hold.port s.inUse = some hold.deviceId) : Safe s :=
  ⟨hdistinct, fun hold hmem ↦ mem_ports.mp (h.inRange hold hmem), hregistered,
    fun tried ht port hlo hhi ↦ h.exhausted tried ht port (mem_ports.mpr ⟨hlo, hhi⟩)⟩

@[simp] theorem goOn_held (ps : List Nat) (tried : List (Nat × Refusal)) :
    (s.goOn id deviceId ps tried).held = s.held := by
  rw [goOn]
  split <;> simp

@[simp] theorem goOn_inUse (ps : List Nat) (tried : List (Nat × Refusal)) :
    (s.goOn id deviceId ps tried).inUse = s.inUse := by
  rw [goOn]
  split <;> simp

/-- An event keeps the promise exactly if it enters no port that is taken. -/
theorem safe_step_iff (hk : Kept s) (hs : Safe s) (he : Steps.By step s e t) : Safe t ↔ Untaken s e := by
  have ht := hk.step he
  cases e with
  | claim id deviceId =>
    rw [Steps.By, PortAllocator.step] at he
    split_ifs at he
    cases he
    exact iff_of_true (ht.safe (by simpa using hs.distinct) (by simpa using hs.registered)) trivial
  | tested id free =>
    rw [Steps.By, PortAllocator.step] at he
    split at he
    · cases he
    next c hc =>
      cases free with
      | false =>
        cases he
        exact iff_of_true (ht.safe (by simpa using hs.distinct) (by simpa using hs.registered))
          trivial
      | true =>
        cases he
        have hiff : Untaken s (.tested id true) ↔ OrdMap.get? c.port s.inUse = none := by
          simp [Untaken, hc]
        rw [hiff]
        constructor
        · intro hsafe
          by_contra hne
          obtain ⟨d, hd⟩ := Option.ne_none_iff_exists'.mp hne
          have hnodup := hsafe.distinct
          simp only [map_append, map_cons, map_nil, nodup_append] at hnodup
          exact hnodup.2.2 _ (mem_map_of_mem (hk.backed _ _ hd)) _ (by simp) rfl
        · intro hnone
          have hnew : ∀ hold ∈ s.held, hold.port ≠ c.port := by
            rintro hold hmem heq
            rw [← heq, hs.registered hold hmem] at hnone
            simp at hnone
          refine ht.safe ?_ fun hold hmem ↦ ?_
          · simp only [map_append, map_cons, map_nil, nodup_append]
            refine ⟨hs.distinct, by simp, fun a ha b hb ↦ ?_⟩
            obtain ⟨hold, hmem, rfl⟩ := mem_map.mp ha
            obtain rfl := mem_singleton.mp hb
            exact hnew hold hmem
          · rcases mem_append.mp hmem with hmem | hmem
            · rw [OrdMap.get?_set_of_ne (hnew hold hmem).symm]
              exact hs.registered hold hmem
            · obtain rfl := mem_singleton.mp hmem
              simp
  | release port =>
    cases he
    refine iff_of_true (ht.safe (hs.distinct.sublist (filter_sublist.map _)) ?_) trivial
    intro hold hmem
    obtain ⟨hmem, hport⟩ := mem_filter.mp hmem
    have hne : hold.port ≠ port := by simpa using hport
    rw [OrdMap.get?_erase_of_ne hne.symm]
    exact hs.registered hold hmem
  | releaseDevice deviceId =>
    cases he
    refine iff_of_true (ht.safe (hs.distinct.sublist (filter_sublist.map _)) ?_) trivial
    intro hold hmem
    obtain ⟨hmem, hdevice⟩ := mem_filter.mp hmem
    rw [OrdMap.get?_filter hk.keys, hs.registered hold hmem]
    simpa using hdevice

/-- **A claimed port belongs to one session exactly as long as no claim enters a port that was taken
during its bind test.** -/
theorem held_once_iff {rangeStart rangeEnd : Nat}
    (h : Steps (Steps.By step) (new rangeStart rangeEnd) es t) :
    (∀ pre, pre <+: es → ∀ u, Steps (Steps.By step) (new rangeStart rangeEnd) pre u → Safe u) ↔
      Steps.Guarded (Steps.By step) Untaken (new rangeStart rangeEnd) es t := by
  have hkept := kept_new rangeStart rangeEnd
  have hsafe : Safe (new rangeStart rangeEnd) := hkept.safe (by simp [new]) (by simp [new])
  exact Steps.always_iff_guarded h hsafe hkept (fun _ _ _ hk he _ ↦ hk.step he)
    fun _ _ _ hk hs he ↦ safe_step_iff hk hs he

/-- Two devices that claim one after the other. -/
theorem held_once_one_by_one : ∃ t,
    Steps (Steps.By step) (new 1 2)
      [.claim 0 "a", .tested 0 true, .claim 1 "b", .tested 1 true, .releaseDevice "a"] t ∧
    ∀ pre, pre <+: [.claim 0 "a", .tested 0 true, .claim 1 "b", .tested 1 true, .releaseDevice "a"] →
      ∀ u, Steps (Steps.By step) (new 1 2) pre u → Safe u :=
  ⟨_, Steps.steps_by_iff.mpr rfl,
    (held_once_iff (Steps.steps_by_iff.mpr rfl)).mpr (Steps.guarded_by_iff.mpr (by decide))⟩

/-- Two devices that claim together are both given the first port. -/
theorem not_safe_together : ¬ ∀ (rangeStart rangeEnd : Nat) (es : List Event) (t : PortAllocator),
    Steps (Steps.By step) (new rangeStart rangeEnd) es t → Safe t := by
  intro hall
  have hsafe := hall 1 2 [.claim 0 "a", .claim 1 "b", .tested 0 true, .tested 1 true] _
    (Steps.steps_by_iff.mpr rfl)
  exact nomatch hsafe.distinct

end PortAllocator

end Enkaku.Session
