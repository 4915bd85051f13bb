import Enkaku.Lib.Steps
import Enkaku.Network.ReverseRegistry

/-!
# The reverse registry tells the truth

Whatever is bound on the phone has to be accounted for: by the entry of the registry, or by a call
that has yet to hear of its command (`Accounted`).  `Kept` is what the registry and the phone are to
each other while that holds, and `KeepsTrack` is the condition on a step that keeps it so.
-/

set_option autoImplicit false

namespace Enkaku.ReverseRegistry

open List

/-! ## What a binding is accounted for by -/

/-- The answer of the call will be seen: it writes to the entry of the registry, or sets one. -/
def Counts (s : ReverseRegistry) (c : ReverseCall) : Prop :=
  c.isAllocate ∨ ∃ r, c.entry? = some r ∧ s.entry = some r

/-- What is bound to a device port is on record, or will be when `calls` have ended: the entry is on
the port, and live or being issued; a first allocation has bound it; or a removal is under way and no
entry wants the port. -/
def Accounted (s : ReverseRegistry) (calls : List PendingCall) (port : Nat) : Prop :=
  (∃ e, s.get = some e ∧ e.devicePort = port ∧
    (e.establishedAt.isSome ∨ ∃ c ∈ calls, ∃ r, c.call.entry? = some r ∧ s.entry = some r)) ∨
  (∃ c ∈ calls, c.call.isAllocate ∧ c.carriedOut ∧ c.call.port = port) ∨
  ((∀ e, s.get = some e → e.devicePort ≠ port) ∧
    ∃ c ∈ calls, c.call.removes? = some port ∧ c.carriedOut = false)

/-- When carrying out the command of a call keeps track. -/
def MayCarryOut (s : ReverseRegistry) (c : ReverseCall) : Prop :=
  match c with
  -- the entry is still the one of the call, or the phone carries just that already
  | .establish _ _ port host | .online _ _ port host => s.Counts c ∨ s.phone.bound port = some host
  -- the entry, and every other first allocation that is carried out, has the same reverse
  | .allocate _ host port _ =>
    (∀ e, s.get = some e → e.devicePort = port ∧ e.hostPort = host) ∧
      ∀ c ∈ s.pending, c.call.isAllocate → c.carriedOut → c.call.adds? = some (port, host)
  -- nothing on record is taken away
  | .release _ port =>
    (∀ e, s.get = some e → e.devicePort = port → e.establishedAt = none) ∧
      ∀ c ∈ s.pending, c.carriedOut → s.Counts c.call → ∀ host, c.call.adds? ≠ some (port, host)

/-- When a step keeps track of what is bound on the phone. -/
def KeepsTrack (s : ReverseRegistry) : ReverseEvent → Prop
  -- nothing stays bound on another port, and no first allocation is about to record another reverse
  | .establish serial host devicePort => mustSerial serial ≠ none →
    ∀ port, s.pinned devicePort = some port →
      (∀ x, s.phone.bound x ≠ none → x = port ∨
        ∃ c ∈ s.pending, c.call.removes? = some x ∧ c.carriedOut = false) ∧
      ∀ c ∈ s.pending, c.call.isAllocate → c.carriedOut → c.call.adds? = some (port, host)
  | .release _ | .online _ _ | .succeed _ _ => True
  -- no call is about to record a reverse that goes with the phone
  | .offline => ∀ c ∈ s.pending, c.carriedOut → s.Counts c.call → c.call.adds? = none
  | .carryOut i => ∀ c, s.pending[i]? = some c → s.MayCarryOut c.call
  -- what stays bound on the port is accounted for without the call
  | .fail i _ => ∀ c, s.pending[i]? = some c → s.phone.bound c.call.port ≠ none →
    s.Accounted (s.pending.eraseIdx i) c.call.port

/-! ## The parts of a state -/

section Parts

variable {s : ReverseRegistry} {e : ReverseEntry} {r : Nat} {c : ReverseCall} {a : ReverseAnswer}

@[simp] theorem get_answer : (s.answer a).get = s.get := rfl

@[simp] theorem get_await : (s.await c).get = s.get := rfl

@[simp] theorem get_setEntry : (s.setEntry e).get = some e := by
  simp [setEntry, get]

theorem get_eq_some : s.get = some e ↔ ∃ r, s.entry = some r ∧ s.objects[r]? = some e :=
  Option.bind_eq_some_iff

theorem get_of_entry (hentry : s.entry = some r) (hget : s.get = some e) : s.objects[r]? = some e := by
  rwa [get, hentry, Option.bind_some] at hget

theorem get_write {f : ReverseEntry → ReverseEntry} :
    (s.write r f).get = if s.entry = some r then s.get.map f else s.get := by
  cases hentry : s.entry with
  | none => simp [write, get, hentry]
  | some r' =>
    by_cases hr : r = r'
    · subst hr
      simp [write, get, hentry, getElem?_modify_eq]
    · have hne : some r' ≠ some r := fun h ↦ hr (Option.some.inj h).symm
      simp [write, get, hentry, hne, getElem?_modify, hr]

end Parts

/-! ## The invariant -/

/-- **The registry keeps track of the phone.** -/
structure Kept (s : ReverseRegistry) : Prop where
  entry : ∀ r, s.entry = some r → r < s.objects.length
  /-- A call and the object it writes to are about one reverse. -/
  object : ∀ c ∈ s.pending, ∀ r, c.call.entry? = some r →
    ∃ e, s.objects[r]? = some e ∧ c.call.adds? = some (e.devicePort, e.hostPort)
  accounted : ∀ x, s.phone.bound x ≠ none → s.Accounted s.pending x
  live : ∀ e, s.get = some e → e.establishedAt.isSome → s.phone.bound e.devicePort = some e.hostPort
  carried : ∀ c ∈ s.pending, c.carriedOut → s.Counts c.call → ∀ x y, c.call.adds? = some (x, y) →
    s.phone.bound x = some y
  /-- A first allocation that is carried out has the reverse of the entry. -/
  first : ∀ c ∈ s.pending, c.call.isAllocate → c.carriedOut → ∀ e, s.get = some e →
    c.call.adds? = some (e.devicePort, e.hostPort)
  same : ∀ c ∈ s.pending, c.call.isAllocate → c.carriedOut → ∀ c' ∈ s.pending, c'.call.isAllocate →
    c'.carriedOut → c.call.adds? = c'.call.adds?
  since : ∀ x y, s.phone.bound x = some y → (x, y) ∈ s.phone.since

theorem kept_empty : Kept empty := by
  refine ⟨?_, ?_, ?_, ?_, ?_, ?_, ?_, ?_⟩ <;> simp [empty, get]

section Steps

variable {s : ReverseRegistry} {c : ReverseCall} {i : Nat}

variable {x : Nat}

theorem Accounted.mono {calls calls' : List PendingCall} (h : s.Accounted calls x)
    (hsub : calls ⊆ calls') : s.Accounted calls' x := by
  rcases h with ⟨e, he, hport, hlive⟩ | ⟨c, hc, hfirst⟩ | ⟨hfree, c, hc, hremoves⟩
  · exact .inl ⟨e, he, hport, hlive.imp id fun ⟨c, hc, hentry⟩ ↦ ⟨c, hsub hc, hentry⟩⟩
  · exact .inr (.inl ⟨c, hsub hc, hfirst⟩)
  · exact .inr (.inr ⟨hfree, c, hsub hc, hremoves⟩)

theorem Kept.answer (h : Kept s) (a : ReverseAnswer) : Kept (s.answer a) :=
  ⟨h.entry, h.object, h.accounted, h.live, h.carried, h.first, h.same, h.since⟩

variable {s' : ReverseRegistry}

/-- A call comes in: what is bound has to be accounted for anew, and no call may count again. -/
theorem Kept.grow (h : Kept s) (hpending : s'.pending = s.pending ++ [⟨c, false⟩])
    (hphone : s'.phone = s.phone) (hentry : ∀ r, s'.entry = some r → r < s'.objects.length)
    (hobjects : ∀ (r : Nat) (e : ReverseEntry), s.objects[r]? = some e →
      ∃ e' : ReverseEntry, s'.objects[r]? = some e' ∧
        (e'.devicePort, e'.hostPort) = (e.devicePort, e.hostPort))
    (hobject : ∀ r, c.entry? = some r → ∃ e, s'.objects[r]? = some e ∧
      c.adds? = some (e.devicePort, e.hostPort))
    (haccounted : ∀ x, s.phone.bound x ≠ none → s'.Accounted s'.pending x)
    (hlive : ∀ e, s'.get = some e → e.establishedAt.isSome →
      s.phone.bound e.devicePort = some e.hostPort)
    (hcounts : ∀ d ∈ s.pending, s'.Counts d.call → s.Counts d.call)
    (hfirst : ∀ d ∈ s.pending, d.call.isAllocate → d.carriedOut → ∀ e, s'.get = some e →
      d.call.adds? = some (e.devicePort, e.hostPort)) : Kept s' := by
  have hmem {d : PendingCall} (hd : d ∈ s'.pending) (hcarried : d.carriedOut) : d ∈ s.pending := by
    rw [hpending] at hd
    rcases mem_append.mp hd with hd | hd
    · exact hd
    · obtain rfl := mem_singleton.mp hd
      exact nomatch hcarried
  refine ⟨hentry, fun d hd r hr ↦ ?_, hphone ▸ haccounted, hphone ▸ hlive,
    fun d hd hcarried hc ↦ ?_, fun d hd hisfirst hcarried ↦ hfirst d (hmem hd hcarried) hisfirst hcarried,
    fun d hd hisfirst hcarried d' hd' hisfirst' hcarried' ↦
      h.same d (hmem hd hcarried) hisfirst hcarried d' (hmem hd' hcarried') hisfirst' hcarried',
    hphone ▸ h.since⟩
  · rw [hpending] at hd
    rcases mem_append.mp hd with hd | hd
    · obtain ⟨e, he, hadds⟩ := h.object d hd r hr
      obtain ⟨e', he', hports⟩ := hobjects r e he
      exact ⟨e', he', hports ▸ hadds⟩
    · obtain rfl := mem_singleton.mp hd
      exact hobject r hr
  · rw [hphone]
    exact h.carried d (hmem hd hcarried) hcarried (hcounts d (hmem hd hcarried) hc)

/-- A call that only waits for its command. -/
theorem Kept.await (h : Kept s) (hc : c.entry? = none) : Kept (s.await c) := by
  refine h.grow (c := c) rfl rfl h.entry (fun r e he ↦ ⟨e, he, rfl⟩) (fun r hr ↦ ?_) (fun x hx ↦ ?_)
    h.live (fun d _ hd ↦ hd) h.first
  · exact nomatch hc.symm.trans hr
  · exact Accounted.mono (h.accounted x hx) (subset_append_left _ _)

/-- A call ends, when all that is bound is accounted for without it. -/
theorem Kept.remove (h : Kept s)
    (haccounted : ∀ x, s.phone.bound x ≠ none → s.Accounted (s.pending.eraseIdx i) x) :
    Kept { s with pending := s.pending.eraseIdx i } := by
  have hmem {d : PendingCall} (hd : d ∈ s.pending.eraseIdx i) : d ∈ s.pending :=
    mem_of_mem_eraseIdx hd
  exact ⟨h.entry, fun d hd ↦ h.object d (hmem hd), haccounted, h.live,
    fun d hd ↦ h.carried d (hmem hd), fun d hd ↦ h.first d (hmem hd),
    fun d hd hfirst hcarried d' hd' ↦ h.same d (hmem hd) hfirst hcarried d' (hmem hd'), h.since⟩

variable {d : PendingCall}

theorem mem_eraseIdx_of_ne {d' : PendingCall} (hi : s.pending[i]? = some d) (hd : d' ∈ s.pending)
    (hne : d' ≠ d) : d' ∈ s.pending.eraseIdx i := by
  obtain ⟨j, hj⟩ := getElem?_of_mem hd
  refine mem_eraseIdx_iff_getElem?.mpr ⟨j, fun heq ↦ hne ?_, hj⟩
  rw [heq, hi] at hj
  exact (Option.some.inj hj).symm

/-! ## One step -/

/-- Without an entry only first allocations count. -/
theorem counts_of_forgotten {d : ReverseCall}
    (hd : ({ s with entry := none } : ReverseRegistry).Counts d) : s.Counts d := by
  rcases hd with hfirst | ⟨r, -, hentry⟩
  · exact .inl hfirst
  · exact nomatch hentry

/-- `release` forgets the entry, and what it had bound is about to be removed. -/
theorem Kept.releaseEntry (h : Kept s) (serial : Option String) : Kept (s.releaseEntry serial) := by
  have hnone : ∀ e, ({ s with entry := none } : ReverseRegistry).get ≠ some e := fun e he ↦ nomatch he
  rw [ReverseRegistry.releaseEntry]
  cases hget : s.get with
  | none =>
    have hkept : Kept { s with entry := none } := by
      refine ⟨fun r hr ↦ ?_, h.object, fun x hx ↦ ?_, fun e he ↦ absurd he (hnone e),
        fun d hd hcarried hc ↦ h.carried d hd hcarried (counts_of_forgotten hc),
        fun _ _ _ _ e he ↦ absurd he (hnone e), h.same, h.since⟩
      · exact nomatch hr
      · rcases h.accounted x hx with ⟨e, he, -⟩ | hfirst | ⟨-, hremoves⟩
        · exact nomatch hget.symm.trans he
        · exact .inr (.inl hfirst)
        · exact .inr (.inr ⟨fun e he ↦ absurd he (hnone e), hremoves⟩)
    exact hkept.answer _
  | some e =>
    refine h.grow (c := .release (serial.getD e.serial) e.devicePort) rfl rfl (fun r hr ↦ ?_)
      (fun r e he ↦ ⟨e, he, rfl⟩) (fun r hr ↦ ?_) (fun x hx ↦ ?_) (fun e he ↦ absurd he (hnone e))
      (fun d _ hd ↦ counts_of_forgotten hd) (fun _ _ _ _ e he ↦ absurd he (hnone e))
    · exact nomatch hr
    · exact nomatch hr
    · -- the removal takes the place of the entry in the account
      rcases h.accounted x hx with ⟨e', he', rfl, -⟩ | ⟨d, hd, hfirst⟩ | ⟨-, d, hd, hremoves⟩
      · cases hget.symm.trans he'
        exact .inr (.inr ⟨fun e he ↦ absurd he (hnone e), _, mem_append_right _ (.head _), rfl, rfl⟩)
      · exact .inr (.inl ⟨d, mem_append_left _ hd, hfirst⟩)
      · exact .inr (.inr ⟨fun e he ↦ absurd he (hnone e), d, mem_append_left _ hd, hremoves⟩)

variable {deviceId : String} {range : DevicePortRange}

theorem Kept.walk (h : Kept s) (serial : String) (hostPort port : Nat) (tried : List Nat)
    (lastErr : String) : Kept (s.walk deviceId range serial hostPort port tried lastErr) := by
  rw [ReverseRegistry.walk]
  split_ifs
  · exact h.await rfl
  · exact h.answer _

/-- A call that writes to an object had it made before. -/
theorem Kept.lt_of_entry? (h : Kept s) (hd : d ∈ s.pending) {r : Nat}
    (hr : d.call.entry? = some r) : r < s.objects.length := by
  obtain ⟨e, he, -⟩ := h.object d hd r hr
  exact (List.getElem?_eq_some_iff.mp he).1

/-- `establish` makes a new entry, on a port with nothing else beside it. -/
theorem Kept.establish (h : Kept s) {serial : Option String} {hostPort : Nat} {devicePort : Option Nat}
    (hguard : s.KeepsTrack (.establish serial hostPort devicePort)) :
    Kept (s.establish deviceId range serial hostPort devicePort) := by
  rw [ReverseRegistry.establish]
  cases hserial : mustSerial serial with
  | none => exact h.answer _
  | some serial' =>
    cases hpinned : s.pinned devicePort with
    | none => exact h.walk _ _ _ _ _
    | some port =>
      obtain ⟨hbound, hfirst⟩ := hguard (by simp [hserial]) port hpinned
      let made : ReverseEntry := ⟨deviceId, serial', port, hostPort, none⟩
      let c : ReverseCall := .establish s.objects.length serial' port hostPort
      show Kept ((s.setEntry made).await c)
      have hget : ((s.setEntry made).await c).get = some made := by simp
      have hnew : (⟨c, false⟩ : PendingCall) ∈ s.pending ++ [⟨c, false⟩] :=
        mem_append_right _ (.head _)
      refine h.grow (c := c) rfl rfl (fun r hr ↦ ?_) (fun r e he ↦ ?_) (fun r hr ↦ ?_) (fun x hx ↦ ?_)
        (fun e he hlive ↦ ?_) (fun d hd hc ↦ ?_) (fun d hd hisfirst hcarried e he ↦ ?_)
      · cases hr
        simp [ReverseRegistry.await, ReverseRegistry.setEntry]
      · exact ⟨e, (List.getElem?_append_left (List.getElem?_eq_some_iff.mp he).1).trans he, rfl⟩
      · cases hr
        exact ⟨made, getElem?_concat_length, rfl⟩
      · by_cases hport : x = port
        · exact .inl ⟨made, hget, hport.symm, .inr ⟨_, hnew, _, rfl, rfl⟩⟩
        · obtain ⟨d, hd, hremoves⟩ := (hbound x hx).resolve_left hport
          refine .inr (.inr ⟨fun e he ↦ ?_, d, mem_append_left _ hd, hremoves⟩)
          cases hget.symm.trans he
          exact fun heq ↦ hport heq.symm
      · cases hget.symm.trans he
        exact nomatch hlive
      · rcases hc with hisfirst | ⟨r, hr, hentry⟩
        · exact .inl hisfirst
        · cases hentry
          exact absurd (h.lt_of_entry? hd hr) (Nat.lt_irrefl _)
      · cases hget.symm.trans he
        exact hfirst d hd hisfirst hcarried

/-- What writing to an object leaves of the ports. -/
theorem objects_write {r : Nat} {f : ReverseEntry → ReverseEntry}
    (hf : ∀ e, ((f e).devicePort, (f e).hostPort) = (e.devicePort, e.hostPort)) (r' : Nat)
    (e : ReverseEntry) (he : s.objects[r']? = some e) :
    ∃ e' : ReverseEntry, (s.write r f).objects[r']? = some e' ∧
      (e'.devicePort, e'.hostPort) = (e.devicePort, e.hostPort) := by
  rw [write, getElem?_modify, he]
  refine ⟨_, rfl, ?_⟩
  split_ifs
  · exact hf e
  · rfl

theorem Kept.handleDeviceOnline (h : Kept s) (enabled : Bool) (serial : Option String) :
    Kept (s.handleDeviceOnline deviceId enabled serial) := by
  rw [ReverseRegistry.handleDeviceOnline]
  split
  next r e hentry hget =>
    split_ifs
    · cases hserial : mustSerial serial with
      | none => exact h.answer _
      | some serial' =>
        let f : ReverseEntry → ReverseEntry := fun e ↦ { e with serial := serial', establishedAt := none }
        let c : ReverseCall := .online r serial' e.devicePort e.hostPort
        show Kept ((s.write r f).await c)
        have hobjects := objects_write (s := s) (r := r) (f := f) fun _ ↦ rfl
        have hget' : ((s.write r f).await c).get = some (f e) := by
          rw [get_await, get_write, if_pos hentry, hget, Option.map_some]
        have hnew : (⟨c, false⟩ : PendingCall) ∈ s.pending ++ [⟨c, false⟩] :=
          mem_append_right _ (.head _)
        refine h.grow (c := c) rfl rfl (fun r' hr' ↦ ?_) hobjects (fun r' hr' ↦ ?_) (fun x hx ↦ ?_)
          (fun e' he' hlive ↦ ?_) (fun d hd hc ↦ hc) (fun d hd hisfirst hcarried e' he' ↦ ?_)
        · show r' < (s.objects.modify r f).length
          rw [length_modify]
          exact h.entry r' hr'
        · cases hr'
          obtain ⟨e', he', hports⟩ := hobjects r e (get_of_entry hentry hget)
          exact ⟨e', he', congrArg some hports.symm⟩
        · rcases h.accounted x hx with ⟨e', he', rfl, -⟩ | ⟨d, hd, hfirst⟩ | ⟨hfree, d, hd, hremoves⟩
          · cases hget.symm.trans he'
            exact .inl ⟨f e, hget', rfl, .inr ⟨_, hnew, r, rfl, hentry⟩⟩
          · exact .inr (.inl ⟨d, mem_append_left _ hd, hfirst⟩)
          · refine .inr (.inr ⟨fun e' he' ↦ ?_, d, mem_append_left _ hd, hremoves⟩)
            cases hget'.symm.trans he'
            exact hfree e hget
        · cases hget'.symm.trans he'
          exact nomatch hlive
        · cases hget'.symm.trans he'
          exact h.first d hd hisfirst hcarried e hget
    · exact h.releaseEntry serial
  · exact h.answer _

theorem handleDeviceOffline_of_none (h : s.entry = none) :
    s.handleDeviceOffline = { s with phone := ⟨fun _ ↦ none, []⟩ } := by
  unfold handleDeviceOffline
  dsimp only
  split
  next => rfl
  next hr => cases h.symm.trans hr

theorem handleDeviceOffline_of_some {r : Nat} (h : s.entry = some r) : s.handleDeviceOffline =
    { s with phone := ⟨fun _ ↦ none, []⟩ }.write r fun e ↦ { e with establishedAt := none } := by
  unfold handleDeviceOffline
  dsimp only
  split
  next hr => cases h.symm.trans hr
  next hr =>
    cases h.symm.trans hr
    rfl

/-- A disconnect takes everything bound away, and nothing is live. -/
theorem Kept.handleDeviceOffline (h : Kept s) (hguard : s.KeepsTrack .offline) :
    Kept s.handleDeviceOffline := by
  let t : ReverseRegistry := { s with phone := ⟨fun _ ↦ none, []⟩ }
  have hbound : ∀ x, t.phone.bound x = none := fun _ ↦ rfl
  have hcarried : ∀ d ∈ t.pending, d.carriedOut → t.Counts d.call → ∀ x y,
      d.call.adds? = some (x, y) → t.phone.bound x = some y := by
    intro d hd hcarried hc x y hadds
    rw [hguard d hd hcarried hc] at hadds
    cases hadds
  cases hentry : t.entry with
  | none =>
    rw [handleDeviceOffline_of_none (s := s) hentry]
    have hnone : t.get = none := by rw [get, hentry, Option.bind_none]
    exact ⟨h.entry, h.object, fun x hx ↦ absurd (hbound x) hx,
      fun e he ↦ absurd (hnone.symm.trans he) (Option.some_ne_none e).symm, hcarried, h.first, h.same,
      fun x y hxy ↦ by cases hxy⟩
  | some r =>
    let f : ReverseEntry → ReverseEntry := fun e ↦ { e with establishedAt := none }
    rw [handleDeviceOffline_of_some (s := s) hentry]
    show Kept (t.write r f)
    have hobjects := objects_write (s := t) (r := r) (f := f) fun _ ↦ rfl
    have hget : ∀ e, (t.write r f).get = some e → ∃ e', s.get = some e' ∧ f e' = e := fun e he ↦ by
      rw [get_write, if_pos hentry] at he
      exact Option.map_eq_some_iff.mp he
    refine ⟨fun r' hr' ↦ ?_, fun d hd r' hr' ↦ ?_, fun x hx ↦ absurd (hbound x) hx,
      fun e he hlive ↦ ?_, hcarried, fun d hd hfirst hout e he ↦ ?_, h.same, fun x y hxy ↦ by cases hxy⟩
    · show r' < (s.objects.modify r f).length
      rw [length_modify]
      exact h.entry r' hr'
    · obtain ⟨e, he, hadds⟩ := h.object d hd r' hr'
      obtain ⟨e', he', hports⟩ := hobjects r' e he
      exact ⟨e', he', hports ▸ hadds⟩
    · obtain ⟨e', -, rfl⟩ := hget e he
      cases hlive
    · obtain ⟨e', he', rfl⟩ := hget e he
      exact h.first d hd hfirst hout e' he'

/-! ## Commands -/

theorem mem_set_of_ne {d' d'' : PendingCall} (hi : s.pending[i]? = some d) (hd : d' ∈ s.pending)
    (hne : d' ≠ d) : d' ∈ s.pending.set i d'' := by
  obtain ⟨j, hj⟩ := getElem?_of_mem hd
  have hij : i ≠ j := fun heq ↦ hne (by rw [← heq, hi] at hj; exact (Option.some.inj hj).symm)
  exact mem_of_getElem? ((getElem?_set_ne hij).trans hj)

/-- The state in which the phone has carried out the command of the `i`-th call. -/
def carriedOut (s : ReverseRegistry) (i : Nat) (c : ReverseCall) : ReverseRegistry :=
  { s with phone := c.command.carryOut s.phone, pending := s.pending.set i ⟨c, true⟩ }

theorem removes?_of_adds? {p : Nat × Nat} (h : c.adds? = some p) : c.removes? = none := by
  cases c with
  | release => exact nomatch h
  | _ => rfl

theorem accounted_set (hi : s.pending[i]? = some ⟨c, false⟩) (h : s.Accounted s.pending x)
    (hx : c.removes? ≠ some x) : s.Accounted (s.pending.set i ⟨c, true⟩) x := by
  rcases h with ⟨e, he, hport, hlive⟩ | ⟨d, hd, hfirst, hcarried, hport⟩ | ⟨hfree, d, hd, hremoves, hnot⟩
  · refine .inl ⟨e, he, hport, hlive.imp id fun ⟨d, hd, r, hr, hentry⟩ ↦ ?_⟩
    by_cases hdc : d = ⟨c, false⟩
    · subst hdc
      exact ⟨_, List.mem_set (List.getElem?_eq_some_iff.mp hi).1 _, r, hr, hentry⟩
    · exact ⟨d, mem_set_of_ne hi hd hdc, r, hr, hentry⟩
  · refine .inr (.inl ⟨d, mem_set_of_ne hi hd fun hdc ↦ ?_, hfirst, hcarried, hport⟩)
    rw [hdc] at hcarried
    exact nomatch hcarried
  · refine .inr (.inr ⟨hfree, d, mem_set_of_ne hi hd fun hdc ↦ hx ?_, hremoves, hnot⟩)
    rw [hdc] at hremoves
    exact hremoves

/-- The phone binds a reverse: it agrees with what is on record of its port, and is accounted for. -/
theorem Kept.bind (h : Kept s) (port host : Nat) (hi : s.pending[i]? = some ⟨c, false⟩)
    (hphone : c.command.carryOut s.phone =
      ⟨Function.update s.phone.bound port (some host), (port, host) :: s.phone.since⟩)
    (hadds : c.adds? = some (port, host))
    (hlive : ∀ e, s.get = some e → e.establishedAt.isSome → e.devicePort = port → e.hostPort = host)
    (hcarried : ∀ d ∈ s.pending, d.carriedOut → s.Counts d.call → ∀ y,
      d.call.adds? = some (port, y) → y = host)
    (haccounted : s.Accounted (s.pending.set i ⟨c, true⟩) port)
    (hfirst : c.isAllocate → ∀ e, s.get = some e → (e.devicePort, e.hostPort) = (port, host))
    (hsame : c.isAllocate → ∀ d ∈ s.pending, d.call.isAllocate → d.carriedOut →
      d.call.adds? = some (port, host)) : Kept (s.carriedOut i c) := by
  have hmem {d : PendingCall} (hd : d ∈ s.pending.set i ⟨c, true⟩) : d = ⟨c, true⟩ ∨ d ∈ s.pending :=
    (mem_or_eq_of_mem_set hd).symm
  have hbound : (s.carriedOut i c).phone.bound = Function.update s.phone.bound port (some host) := by
    rw [ReverseRegistry.carriedOut, hphone]
  have hsince : (s.carriedOut i c).phone.since = (port, host) :: s.phone.since := by
    rw [ReverseRegistry.carriedOut, hphone]
  refine ⟨h.entry, fun d hd ↦ ?_, fun x hx ↦ ?_, fun e he hest ↦ ?_, fun d hd hout hc x y hxy ↦ ?_,
    fun d hd hisfirst hout e he ↦ ?_, fun d hd hisfirst hout d' hd' hisfirst' hout' ↦ ?_,
    fun x y hxy ↦ ?_⟩
  · rcases hmem hd with rfl | hd
    · exact h.object ⟨c, false⟩ (mem_of_getElem? hi)
    · exact h.object d hd
  · by_cases hport : x = port
    · subst hport
      exact haccounted
    · rw [hbound, Function.update_of_ne hport] at hx
      exact accounted_set hi (h.accounted x hx) (by simp [removes?_of_adds? hadds])
  · rw [hbound]
    by_cases hport : e.devicePort = port
    · rw [hport, Function.update_self, hlive e he hest hport]
    · rw [Function.update_of_ne hport]
      exact h.live e he hest
  · rw [hbound]
    rcases hmem hd with rfl | hd
    · cases hadds.symm.trans hxy
      exact Function.update_self ..
    · by_cases hport : x = port
      · subst hport
        rw [Function.update_self, hcarried d hd hout hc y hxy]
      · rw [Function.update_of_ne hport]
        exact h.carried d hd hout hc x y hxy
  · rcases hmem hd with rfl | hd
    · exact hadds.trans (congrArg some (hfirst hisfirst e he).symm)
    · exact h.first d hd hisfirst hout e he
  · rcases hmem hd with rfl | hd <;> rcases hmem hd' with rfl | hd'
    · rfl
    · exact hadds.trans (hsame hisfirst d' hd' hisfirst' hout').symm
    · exact (hsame hisfirst' d hd hisfirst hout).trans hadds.symm
    · exact h.same d hd hisfirst hout d' hd' hisfirst' hout'
  · rw [hsince]
    rw [hbound] at hxy
    by_cases hport : x = port
    · subst hport
      rw [Function.update_self] at hxy
      rw [← Option.some.inj hxy]
      exact .head _
    · rw [Function.update_of_ne hport] at hxy
      exact .tail _ (h.since x y hxy)

/-- A call of the entry is about the reverse of the entry. -/
theorem Kept.adds?_of_entry (h : Kept s) (hd : d ∈ s.pending) {r : Nat}
    (hr : d.call.entry? = some r) (hentry : s.entry = some r) :
    ∃ e, s.get = some e ∧ d.call.adds? = some (e.devicePort, e.hostPort) := by
  obtain ⟨e, he, hadds⟩ := h.object d hd r hr
  exact ⟨e, get_eq_some.mpr ⟨r, hentry, he⟩, hadds⟩

/-- What counts and is carried out is the reverse of the entry. -/
theorem Kept.adds?_of_counts (h : Kept s) (hd : d ∈ s.pending) (hout : d.carriedOut)
    (hc : s.Counts d.call) {e : ReverseEntry} (he : s.get = some e) :
    d.call.adds? = some (e.devicePort, e.hostPort) := by
  rcases hc with hfirst | ⟨r, hr, hentry⟩
  · exact h.first d hd hfirst hout e he
  · obtain ⟨e', he', hadds⟩ := h.adds?_of_entry hd hr hentry
    rwa [Option.some.inj (he.symm.trans he')]

/-- An entry's call binds its reverse. -/
theorem Kept.bindEntry (h : Kept s) (port host : Nat) (hi : s.pending[i]? = some ⟨c, false⟩) {r : Nat}
    (hphone : c.command.carryOut s.phone =
      ⟨Function.update s.phone.bound port (some host), (port, host) :: s.phone.since⟩)
    (hadds : c.adds? = some (port, host)) (hr : c.entry? = some r) (hnot : c.isAllocate = false)
    (hguard : s.Counts c ∨ s.phone.bound port = some host) : Kept (s.carriedOut i c) := by
  have hc : (⟨c, false⟩ : PendingCall) ∈ s.pending := mem_of_getElem? hi
  have hports (hcounts : s.Counts c) : s.entry = some r ∧
      ∃ e, s.get = some e ∧ (e.devicePort, e.hostPort) = (port, host) := by
    rcases hcounts with hfirst | ⟨r', hr', hentry⟩
    · exact absurd hfirst (by simp [hnot])
    · cases hr.symm.trans hr'
      obtain ⟨e, he, hadds'⟩ := h.adds?_of_entry hc hr hentry
      exact ⟨hentry, e, he, (Option.some.inj (hadds.symm.trans hadds')).symm⟩
  refine h.bind port host hi hphone hadds (fun e he hest hport ↦ ?_) (fun d hd hout hcounts y hy ↦ ?_) ?_
    (fun hfirst ↦ absurd hfirst (by simp [hnot])) (fun hfirst ↦ absurd hfirst (by simp [hnot]))
  · rcases hguard with hcounts | hbound
    · obtain ⟨-, e', he', hports⟩ := hports hcounts
      cases he.symm.trans he'
      exact (Prod.mk.inj hports).2
    · have hlive := h.live e he hest
      rw [hport, hbound] at hlive
      exact (Option.some.inj hlive).symm
  · rcases hguard with hcounts' | hbound
    · obtain ⟨-, e, he, hports⟩ := hports hcounts'
      have hsame := (h.adds?_of_counts hd hout hcounts he).symm.trans hy
      rw [hports] at hsame
      exact (Prod.mk.inj (Option.some.inj hsame)).2.symm
    · have hbound' := h.carried d hd hout hcounts port y hy
      exact Option.some.inj (hbound'.symm.trans hbound)
  · rcases hguard with hcounts | hbound
    · obtain ⟨hentry, e, he, hports⟩ := hports hcounts
      exact .inl ⟨e, he, (Prod.mk.inj hports).1,
        .inr ⟨_, List.mem_set (List.getElem?_eq_some_iff.mp hi).1 _, r, hr, hentry⟩⟩
    · exact accounted_set hi (h.accounted port (by simp [hbound])) (by simp [removes?_of_adds? hadds])

theorem Kept.carriedOut (h : Kept s) (hi : s.pending[i]? = some ⟨c, false⟩) (hguard : s.MayCarryOut c) :
    Kept (s.carriedOut i c) := by
  cases c with
  | establish r serial port host | online r serial port host =>
    exact h.bindEntry port host hi rfl rfl rfl rfl hguard
  | allocate serial host port tried =>
    obtain ⟨hentry, hfirst⟩ := hguard
    refine h.bind port host hi rfl rfl (fun e he _ _ ↦ (hentry e he).2)
      (fun d hd hout hcounts y hy ↦ ?_) ?_ (fun _ e he ↦ Prod.ext (hentry e he).1 (hentry e he).2)
      (fun _ ↦ hfirst)
    · rcases hcounts with hisfirst | ⟨r, hr, hr'⟩
      · have hsame := (hfirst d hd hisfirst hout).symm.trans hy
        exact (Prod.mk.inj (Option.some.inj hsame)).2.symm
      · obtain ⟨e, he, hadds⟩ := h.adds?_of_entry hd hr hr'
        have hsame := hadds.symm.trans hy
        exact (Prod.mk.inj (Option.some.inj hsame)).2.symm.trans (hentry e he).2
    · exact .inr (.inl ⟨_, List.mem_set (List.getElem?_eq_some_iff.mp hi).1 _, rfl, rfl, rfl⟩)
  | release serial port =>
    obtain ⟨hentry, hcounts⟩ := hguard
    have hmem {d : PendingCall} (hd : d ∈ s.pending.set i ⟨.release serial port, true⟩) :
        d = ⟨.release serial port, true⟩ ∨ d ∈ s.pending := (mem_or_eq_of_mem_set hd).symm
    have hbound : (s.carriedOut i (.release serial port)).phone.bound =
        Function.update s.phone.bound port none := rfl
    refine ⟨h.entry, fun d hd ↦ ?_, fun x hx ↦ ?_, fun e he hest ↦ ?_, fun d hd hout hc x y hxy ↦ ?_,
      fun d hd hisfirst hout e he ↦ ?_, fun d hd hisfirst hout d' hd' hisfirst' hout' ↦ ?_,
      fun x y hxy ↦ ?_⟩
    · rcases hmem hd with rfl | hd
      · exact h.object ⟨.release serial port, false⟩ (mem_of_getElem? hi)
      · exact h.object d hd
    · rw [hbound] at hx
      by_cases hport : x = port
      · rw [hport, Function.update_self] at hx
        exact absurd rfl hx
      · rw [Function.update_of_ne hport] at hx
        exact accounted_set hi (h.accounted x hx) fun heq ↦ hport (Option.some.inj heq).symm
    · have hport : e.devicePort ≠ port := fun hport ↦ by
        rw [hentry e he hport] at hest
        exact nomatch hest
      rw [hbound, Function.update_of_ne hport]
      exact h.live e he hest
    · rcases hmem hd with rfl | hd
      · exact nomatch hxy
      · have hport : x ≠ port := fun hport ↦ hcounts d hd hout hc y (hport ▸ hxy)
        rw [hbound, Function.update_of_ne hport]
        exact h.carried d hd hout hc x y hxy
    · rcases hmem hd with rfl | hd
      · exact nomatch hisfirst
      · exact h.first d hd hisfirst hout e he
    · rcases hmem hd with rfl | hd
      · exact nomatch hisfirst
      · rcases hmem hd' with rfl | hd'
        · exact nomatch hisfirst'
        · exact h.same d hd hisfirst hout d' hd' hisfirst' hout'
    · rw [hbound] at hxy
      by_cases hport : x = port
      · rw [hport, Function.update_self] at hxy
        exact nomatch hxy
      · rw [Function.update_of_ne hport] at hxy
        exact h.since x y hxy

/-! ## Answers -/

theorem port_of_adds? {p : Nat × Nat} (h : c.adds? = some p) : c.port = p.1 := by
  cases c with
  | release => exact nomatch h
  | _ => exact congrArg Prod.fst (Option.some.inj h)

theorem port_of_removes? (h : c.removes? = some x) : c.port = x := by
  cases c with
  | release => exact Option.some.inj h
  | _ => exact nomatch h

section

variable (h : Kept s)
include h

/-- What another port is accounted for by is not the call. -/
theorem accounted_erase (hi : s.pending[i]? = some ⟨c, false⟩)
    (hx : s.Accounted s.pending x) (hport : x ≠ c.port) : s.Accounted (s.pending.eraseIdx i) x := by
  rcases hx with ⟨e, he, rfl, hlive⟩ | ⟨d, hd, hfirst, hout, rfl⟩ | ⟨hfree, d, hd, hremoves, hnot⟩
  · refine .inl ⟨e, he, rfl, hlive.imp id fun ⟨d, hd, r, hr, hentry⟩ ↦ ?_⟩
    refine ⟨d, mem_eraseIdx_of_ne hi hd fun hdc ↦ ?_, r, hr, hentry⟩
    obtain ⟨e', he', hadds⟩ := h.adds?_of_entry hd hr hentry
    cases he.symm.trans he'
    rw [hdc] at hadds
    exact hport (port_of_adds? hadds).symm
  · refine .inr (.inl ⟨d, mem_eraseIdx_of_ne hi hd fun hdc ↦ ?_, hfirst, hout, rfl⟩)
    rw [hdc] at hout
    exact nomatch hout
  · refine .inr (.inr ⟨hfree, d, mem_eraseIdx_of_ne hi hd fun hdc ↦ ?_, hremoves, hnot⟩)
    rw [hdc] at hremoves
    exact hport (port_of_removes? hremoves).symm

theorem Kept.failed (hi : s.pending[i]? = some ⟨c, false⟩)
    (hguard : s.phone.bound c.port ≠ none → s.Accounted (s.pending.eraseIdx i) c.port) (err : String) :
    Kept (({ s with pending := s.pending.eraseIdx i } : ReverseRegistry).failed deviceId range c err) := by
  have hrest : Kept { s with pending := s.pending.eraseIdx i } := h.remove fun x hx ↦ by
    by_cases hport : x = c.port
    · exact hport ▸ hguard (hport ▸ hx)
    · exact accounted_erase h hi (h.accounted x hx) hport
  cases c with
  | establish | release | online => exact hrest.answer _
  | allocate serial host port tried => exact hrest.walk _ _ _ _ _

/-- The call of an entry writes that it is live. -/
theorem Kept.writeLive (now : Nat) {r : Nat} (hc : (⟨c, true⟩ : PendingCall) ∈ s.pending)
    (hr : c.entry? = some r) : Kept (s.write r fun e ↦ { e with establishedAt := some now }) := by
  let f : ReverseEntry → ReverseEntry := fun e ↦ { e with establishedAt := some now }
  show Kept (s.write r f)
  have hobjects := objects_write (s := s) (r := r) (f := f) fun _ ↦ rfl
  have hget (e' : ReverseEntry) (he' : (s.write r f).get = some e') : ∃ e, s.get = some e ∧
      (e' = e ∨ s.entry = some r ∧ e' = f e) ∧
        (e'.devicePort, e'.hostPort) = (e.devicePort, e.hostPort) := by
    rw [get_write] at he'
    split_ifs at he' with hentry
    · obtain ⟨e, he, rfl⟩ := Option.map_eq_some_iff.mp he'
      exact ⟨e, he, .inr ⟨hentry, rfl⟩, rfl⟩
    · exact ⟨e', he', .inl rfl, rfl⟩
  refine ⟨fun r' hr' ↦ ?_, fun d hd r' hr' ↦ ?_, fun x hx ↦ ?_, fun e' he' hest ↦ ?_, h.carried,
    fun d hd hfirst hout e' he' ↦ ?_, h.same, h.since⟩
  · show r' < (s.objects.modify r f).length
    rw [length_modify]
    exact h.entry r' hr'
  · obtain ⟨e, he, hadds⟩ := h.object d hd r' hr'
    obtain ⟨e', he', hports⟩ := hobjects r' e he
    exact ⟨e', he', hports ▸ hadds⟩
  · rcases h.accounted x hx with ⟨e, he, rfl, hlive⟩ | hfirst | ⟨hfree, hremoves⟩
    · by_cases hentry : s.entry = some r
      · exact .inl ⟨f e, by rw [get_write, if_pos hentry, he, Option.map_some], rfl, .inl rfl⟩
      · exact .inl ⟨e, by rw [get_write, if_neg hentry, he], rfl, hlive⟩
    · exact .inr (.inl hfirst)
    · refine .inr (.inr ⟨fun e' he' ↦ ?_, hremoves⟩)
      obtain ⟨e, he, -, hports⟩ := hget e' he'
      rw [(Prod.mk.inj hports).1]
      exact hfree e he
  · obtain ⟨e, he, hwhich, hports⟩ := hget e' he'
    obtain ⟨hdevice, hhost⟩ := Prod.mk.inj hports
    rw [hdevice, hhost]
    rcases hwhich with rfl | ⟨hentry, -⟩
    · exact h.live e' he hest
    · obtain ⟨e'', he'', hadds⟩ := h.adds?_of_entry hc hr hentry
      cases he.symm.trans he''
      exact h.carried _ hc rfl (.inr ⟨r, hr, hentry⟩) _ _ hadds
  · obtain ⟨e, he, -, hports⟩ := hget e' he'
    rw [hports]
    exact h.first d hd hfirst hout e he

/-- What a call of the entry has bound is accounted for by the entry, once it is live. -/
theorem Kept.endLive (now : Nat) {r : Nat} (hi : s.pending[i]? = some ⟨c, true⟩)
    (hr : c.entry? = some r) (hnot : c.isAllocate = false) :
    Kept (({ s with pending := s.pending.eraseIdx i } : ReverseRegistry).write r fun e ↦
      { e with establishedAt := some now }) := by
  have hc : (⟨c, true⟩ : PendingCall) ∈ s.pending := mem_of_getElem? hi
  have hlive := h.writeLive now hc hr
  refine hlive.remove (i := i) fun x hx ↦ ?_
  rcases hlive.accounted x hx with ⟨e, he, hport, hwhy⟩ | ⟨d, hd, hfirst, hout, hport⟩ |
    ⟨hfree, d, hd, hremoves, hout⟩
  · refine .inl ⟨e, he, hport, ?_⟩
    rcases hwhy with hest | ⟨d, hd, r', hr', hentry⟩
    · exact .inl hest
    · by_cases hentry' : s.entry = some r
      · rw [get_write, if_pos hentry'] at he
        obtain ⟨e', -, rfl⟩ := Option.map_eq_some_iff.mp he
        exact .inl rfl
      · refine .inr ⟨d, mem_eraseIdx_of_ne hi hd fun hdc ↦ ?_, r', hr', hentry⟩
        rw [hdc] at hr'
        exact hentry' (Option.some.inj (hr.symm.trans hr') ▸ hentry)
  · refine .inr (.inl ⟨d, mem_eraseIdx_of_ne hi hd fun hdc ↦ ?_, hfirst, hout, hport⟩)
    rw [hdc, hnot] at hfirst
    exact nomatch hfirst
  · refine .inr (.inr ⟨hfree, d, mem_eraseIdx_of_ne hi hd fun hdc ↦ ?_, hremoves, hout⟩)
    rw [hdc] at hout
    exact nomatch hout

/-- A first allocation sets the entry. -/
theorem Kept.allocated {serial : String} {host port now : Nat} {tried : List Nat}
    (hi : s.pending[i]? = some ⟨.allocate serial host port tried, true⟩) :
    Kept (({ s with pending := s.pending.eraseIdx i } : ReverseRegistry).setEntry
      ⟨deviceId, serial, port, host, some now⟩) := by
  let made : ReverseEntry := ⟨deviceId, serial, port, host, some now⟩
  let t : ReverseRegistry := ({ s with pending := s.pending.eraseIdx i } : ReverseRegistry).setEntry made
  show Kept t
  have hc := mem_of_getElem? hi
  have hget : t.get = some made := get_setEntry
  have hmem {d : PendingCall} (hd : d ∈ t.pending) : d ∈ s.pending := mem_of_mem_eraseIdx hd
  have hbound : s.phone.bound port = some host := h.carried _ hc rfl (.inl rfl) port host rfl
  refine ⟨fun r hr ↦ ?_, fun d hd r hr ↦ ?_, fun x hx ↦ ?_, fun e he _ ↦ ?_,
    fun d hd hout hcounts ↦ h.carried d (hmem hd) hout ?_, fun d hd hfirst hout e he ↦ ?_,
    fun d hd hfirst hout d' hd' ↦ h.same d (hmem hd) hfirst hout d' (hmem hd'), h.since⟩
  · cases hr
    show s.objects.length < (s.objects ++ [made]).length
    simp
  · obtain ⟨e, he, hadds⟩ := h.object d (hmem hd) r hr
    exact ⟨e, (List.getElem?_append_left (List.getElem?_eq_some_iff.mp he).1).trans he, hadds⟩
  · by_cases hport : x = port
    · exact .inl ⟨made, hget, hport.symm, .inl rfl⟩
    rcases h.accounted x hx with ⟨e, he, hx', -⟩ | ⟨d, hd, hfirst, hout, hx'⟩ | ⟨-, d, hd, hremoves, hout⟩
    · have hsame := Option.some.inj (h.first _ hc rfl rfl e he)
      exact absurd (hx'.symm.trans (Prod.mk.inj hsame).1.symm) hport
    · have hsame := h.same d hd hfirst hout _ hc rfl rfl
      exact absurd (hx'.symm.trans (port_of_adds? hsame)) hport
    · refine .inr (.inr ⟨fun e he ↦ ?_, d, mem_eraseIdx_of_ne hi hd fun hdc ↦ ?_, hremoves, hout⟩)
      · cases hget.symm.trans he
        exact fun heq ↦ hport heq.symm
      · rw [hdc] at hout
        exact nomatch hout
  · cases hget.symm.trans he
    exact hbound
  · rcases hcounts with hfirst | ⟨r, hr, hentry⟩
    · exact .inl hfirst
    · cases hentry
      exact absurd (h.lt_of_entry? (hmem hd) hr) (Nat.lt_irrefl _)
  · cases hget.symm.trans he
    exact h.same d (hmem hd) hfirst hout _ hc rfl rfl

theorem Kept.succeeded (hi : s.pending[i]? = some ⟨c, true⟩) (now : Nat) :
    Kept (({ s with pending := s.pending.eraseIdx i } : ReverseRegistry).succeeded deviceId c now) := by
  cases c with
  | establish r serial port host =>
    have hlive := h.endLive now hi rfl rfl
    rw [ReverseRegistry.succeeded]
    split
    · exact hlive.answer _
    · exact hlive
  | allocate serial host port tried => exact (h.allocated hi).answer _
  | release serial port =>
    have hrest : Kept { s with pending := s.pending.eraseIdx i } := h.remove fun x hx ↦ by
      rcases h.accounted x hx with ⟨e, he, hport, hwhy⟩ | ⟨d, hd, hfirst, hout⟩ |
        ⟨hfree, d, hd, hremoves, hout⟩
      · refine .inl ⟨e, he, hport, hwhy.imp id fun ⟨d, hd, r, hr, hentry⟩ ↦ ?_⟩
        refine ⟨d, mem_eraseIdx_of_ne hi hd fun hdc ↦ ?_, r, hr, hentry⟩
        rw [hdc] at hr
        exact nomatch hr
      · refine .inr (.inl ⟨d, mem_eraseIdx_of_ne hi hd fun hdc ↦ ?_, hfirst, hout⟩)
        rw [hdc] at hfirst
        exact nomatch hfirst
      · refine .inr (.inr ⟨hfree, d, mem_eraseIdx_of_ne hi hd fun hdc ↦ ?_, hremoves, hout⟩)
        rw [hdc] at hout
        exact nomatch hout
    exact hrest.answer _
  | online r serial port host => exact (h.endLive now hi rfl rfl).answer _

/-- **A step that keeps track keeps the registry and the phone together.** -/
theorem Kept.step {s' : ReverseRegistry} {e : ReverseEvent}
    (hstep : s.step deviceId range e = some s') (hguard : s.KeepsTrack e) : Kept s' := by
  cases e with
  | establish serial host port =>
    cases hstep
    exact h.establish hguard
  | release serial =>
    cases hstep
    exact h.releaseEntry serial
  | online enabled serial =>
    cases hstep
    exact h.handleDeviceOnline enabled serial
  | offline =>
    cases hstep
    exact h.handleDeviceOffline hguard
  | carryOut i =>
    rw [ReverseRegistry.step] at hstep
    split at hstep
    next c hi =>
      cases hstep
      exact h.carriedOut hi (hguard _ hi)
    · exact nomatch hstep
  | succeed i now =>
    rw [ReverseRegistry.step] at hstep
    split at hstep
    next c hi =>
      cases hstep
      exact h.succeeded hi now
    · exact nomatch hstep
  | fail i err =>
    rw [ReverseRegistry.step] at hstep
    split at hstep
    next c hi =>
      cases hstep
      exact h.failed hi (hguard _ hi) err
    · exact nomatch hstep

end

/-! ## The port of an entry -/

/-- The entry keeps its device port, unless a caller asks for another. -/
def SticksToPort (s : ReverseRegistry) (e : ReverseEvent) (s' : ReverseRegistry) : Prop :=
  ∀ old new, s.get = some old → s'.get = some new → new.devicePort ≠ old.devicePort →
    ∃ serial host, e = .establish serial host (some new.devicePort)

theorem sticks_of_get {e : ReverseEvent} (h : s'.get = none ∨ s'.get = s.get) : SticksToPort s e s' := by
  intro old new hold hnew hne
  rcases h with hnone | hsame
  · exact nomatch hnone.symm.trans hnew
  · rw [hsame, hold] at hnew
    exact absurd (congrArg ReverseEntry.devicePort (Option.some.inj hnew)).symm hne

theorem sticks_of_write {t : ReverseRegistry} {e : ReverseEvent} {r : Nat}
    {f : ReverseEntry → ReverseEntry} (ht : t.get = s.get)
    (hf : ∀ e, (f e).devicePort = e.devicePort) : SticksToPort s e (t.write r f) := by
  intro old new hold hnew hne
  rw [get_write, ht, hold] at hnew
  split_ifs at hnew
  · cases hnew
    exact absurd (hf old) hne
  · exact absurd (congrArg ReverseEntry.devicePort (Option.some.inj hnew)).symm hne

@[simp] theorem get_walk {serial : String} {host port : Nat} {tried : List Nat} {err : String} :
    (s.walk deviceId range serial host port tried err).get = s.get := by
  rw [walk]
  split_ifs <;> rfl

theorem get_releaseEntry {serial : Option String} : (s.releaseEntry serial).get = none := by
  rw [ReverseRegistry.releaseEntry]
  split <;> rfl

/-- **Only a caller moves an entry to another port.** -/
theorem Kept.sticksToPort {e : ReverseEvent} (h : Kept s)
    (hstep : s.step deviceId range e = some s') : SticksToPort s e s' := by
  cases e with
  | establish serial host devicePort =>
    cases hstep
    rw [ReverseRegistry.establish]
    cases mustSerial serial with
    | none => exact sticks_of_get (.inr rfl)
    | some serial' =>
      cases hpinned : s.pinned devicePort with
      | none => exact sticks_of_get (.inr get_walk)
      | some port =>
        intro old new hold hnew hne
        rw [get_await, get_setEntry] at hnew
        cases hnew
        cases hasked : devicePort with
        | some asked =>
          rw [pinned, hasked, Option.some_or] at hpinned
          exact ⟨serial, host, by rw [Option.some.inj hpinned]⟩
        | none =>
          rw [pinned, hasked, hold, Option.none_or, Option.map_some] at hpinned
          exact absurd (Option.some.inj hpinned).symm hne
  | release serial =>
    cases hstep
    exact sticks_of_get (.inl get_releaseEntry)
  | online enabled serial =>
    cases hstep
    rw [ReverseRegistry.handleDeviceOnline]
    split
    · split_ifs
      · cases mustSerial serial with
        | none => exact sticks_of_get (.inr rfl)
        | some serial' => exact sticks_of_write rfl fun _ ↦ rfl
      · exact sticks_of_get (.inl get_releaseEntry)
    · exact sticks_of_get (.inr rfl)
  | offline =>
    cases hstep
    rw [ReverseRegistry.handleDeviceOffline]
    split
    · exact sticks_of_get (.inr rfl)
    · exact sticks_of_write rfl fun _ ↦ rfl
  | carryOut i =>
    rw [ReverseRegistry.step] at hstep
    split at hstep
    · cases hstep
      exact sticks_of_get (.inr rfl)
    · exact nomatch hstep
  | succeed i now =>
    rw [ReverseRegistry.step] at hstep
    split at hstep
    next c hi =>
      cases hstep
      cases c with
      | establish r serial port host =>
        rw [ReverseRegistry.succeeded]
        split <;> exact sticks_of_write rfl fun _ ↦ rfl
      | allocate serial host port tried =>
        intro old new hold hnew hne
        cases get_setEntry.symm.trans hnew
        have hsame := h.first _ (mem_of_getElem? hi) rfl rfl old hold
        exact absurd (Prod.mk.inj (Option.some.inj hsame)).1 hne
      | release serial port => exact sticks_of_get (.inr rfl)
      | online r serial port host => exact sticks_of_write rfl fun _ ↦ rfl
    · exact nomatch hstep
  | fail i err =>
    rw [ReverseRegistry.step] at hstep
    split at hstep
    next c hi =>
      cases hstep
      cases c with
      | allocate => exact sticks_of_get (.inr get_walk)
      | _ => exact sticks_of_get (.inr rfl)
    · exact nomatch hstep

end Steps

/-! ## The truth -/

/-- **The registry tells the truth.** -/
structure TellsTruth (s : ReverseRegistry) : Prop where
  /-- Once all calls have ended, the one reverse bound on the phone is the live entry's. -/
  bound : s.pending = [] → ∀ x y, s.phone.bound x = some y ↔
    ∃ e, s.get = some e ∧ e.establishedAt.isSome ∧ e.devicePort = x ∧ e.hostPort = y
  /-- A live entry's reverse has been carried out since the last disconnect. -/
  succeeded : ∀ e, s.get = some e → e.establishedAt.isSome →
    (e.devicePort, e.hostPort) ∈ s.phone.since

theorem Kept.tellsTruth {s : ReverseRegistry} (h : Kept s) : TellsTruth s := by
  refine ⟨fun hsettled x y ↦ ⟨fun hbound ↦ ?_, ?_⟩, fun e he hlive ↦ h.since _ _ (h.live e he hlive)⟩
  · rcases h.accounted x (by simp [hbound]) with ⟨e, he, rfl, hlive | ⟨d, hd, -⟩⟩ | ⟨d, hd, -⟩ | ⟨-, d, hd, -⟩
    · refine ⟨e, he, hlive, rfl, ?_⟩
      exact Option.some.inj ((h.live e he hlive).symm.trans hbound)
    all_goals
      rw [hsettled] at hd
      exact nomatch hd
  · rintro ⟨e, he, hlive, rfl, rfl⟩
    exact h.live e he hlive

/-- **The registry tells the truth as long as no step loses track.** -/
theorem tells_truth (deviceId : String) (range : DevicePortRange) {es : List ReverseEvent}
    {s : ReverseRegistry} (hrun : Steps.Guarded (Steps.By (step deviceId range)) KeepsTrack empty es s) :
    TellsTruth s ∧ ∀ e s', s.step deviceId range e = some s' → SticksToPort s e s' := by
  have hkept : Kept s := Steps.invariant_of_guarded hrun kept_empty
    fun _ _ _ hi hstep hguard ↦ hi.step hstep hguard
  exact ⟨hkept.tellsTruth, fun _ _ ↦ hkept.sticksToPort⟩

/-! ## Runs of one phone -/

namespace Phone1

/-- The default range. -/
def range : DevicePortRange := ⟨28100, 28299⟩

def after (es : List ReverseEvent) : Option ReverseRegistry := es.foldlM (step "dev-1" range) empty

/-- A reverse is allocated, the phone is replugged, and the reverse is issued again. -/
def replugged : List ReverseEvent :=
  [.establish (some "SER-1") 9000 none, .carryOut 0, .succeed 0 1, .offline,
    .online true (some "SER-1"), .carryOut 0, .succeed 0 2]

/-- The entry is live again, on the port it had. -/
theorem replugged_live : ∃ s, after replugged = some s ∧ TellsTruth s ∧ s.pending = [] ∧
    s.get = some ⟨"dev-1", "SER-1", 28100, 9000, some 2⟩ := by
  have hrun : ∃ s, Steps.Guarded (Steps.By (step "dev-1" range)) KeepsTrack empty replugged s := by
    refine ⟨_, .cons ⟨rfl, ?_⟩ (.cons ⟨rfl, ?_⟩ (.cons ⟨rfl, trivial⟩ (.cons ⟨rfl, ?_⟩
      (.cons ⟨rfl, trivial⟩ (.cons ⟨rfl, ?_⟩ (.cons ⟨rfl, trivial⟩ .nil))))))⟩
    · exact fun _ port hport ↦ nomatch hport
    · intro c hc
      cases hc
      refine ⟨fun e he ↦ (nomatch he), fun d hd _ hout ↦ ?_⟩
      obtain rfl := mem_singleton.mp hd
      exact nomatch hout
    · exact fun c hc ↦ nomatch hc
    · intro c hc
      cases hc
      exact .inl (.inr ⟨0, rfl, rfl⟩)
  obtain ⟨s, hs⟩ := hrun
  have hafter : after replugged = some s := Steps.steps_by_iff.mp hs.steps
  refine ⟨s, hafter, (tells_truth "dev-1" range hs).1, ?_⟩
  obtain rfl := Option.some.inj ((show after replugged = some _ from rfl).symm.trans hafter)
  exact ⟨rfl, rfl⟩

/-- `release` comes while the reverse of a persisted route is being issued, and the phone carries the
removal out first. -/
def overtaken : List ReverseEvent :=
  [.establish (some "SER-1") 9000 (some 28100), .release (some "SER-1"), .carryOut 1, .succeed 1 1,
    .carryOut 0, .succeed 0 2]

/-- A caller asks for another device port. -/
def repinned : List ReverseEvent :=
  [.establish (some "SER-1") 9000 none, .carryOut 0, .succeed 0 1,
    .establish (some "SER-1") 9000 (some 28150), .carryOut 0, .succeed 0 2]

/-- **Bound ports that nobody records.**  All calls have ended: after a release that overtakes an
establish there is no entry, and after a re-pin the entry is on another port. -/
theorem left_bound :
    (∃ s, after overtaken = some s ∧ s.pending = [] ∧ s.get = none ∧ s.phone.bound 28100 = some 9000 ∧
      ¬TellsTruth s) ∧
    ∃ s, after repinned = some s ∧ s.pending = [] ∧
      s.get = some ⟨"dev-1", "SER-1", 28150, 9000, some 2⟩ ∧ s.phone.bound 28100 = some 9000 ∧
      ¬TellsTruth s := by
  refine ⟨⟨_, rfl, rfl, rfl, rfl, fun h ↦ ?_⟩, ⟨_, rfl, rfl, rfl, rfl, fun h ↦ ?_⟩⟩
  · obtain ⟨e, he, -⟩ := (h.bound rfl 28100 9000).mp rfl
    exact nomatch he
  · obtain ⟨e, he, -, hport, -⟩ := (h.bound rfl 28100 9000).mp rfl
    cases he
    exact nomatch hport

end Phone1

end Enkaku.ReverseRegistry
