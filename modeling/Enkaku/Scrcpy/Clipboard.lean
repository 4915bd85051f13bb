import Enkaku.Lib.Steps
import Mathlib

/-!
# The clipboard of a session

`createClipboardControl` lets one call at a time wait on the device and starts the next one when it
settles.  A call that times out settles, and the device may answer it all the same.  A set knows its
own acknowledgement by the sequence number; a get takes the next clipboard that comes.

All but the last holds of every run (`Kept`).  A get is answered with its own clipboard as long as
none arrives that was meant for another (`answers_own_iff`).
-/

set_option autoImplicit false

namespace Enkaku.Scrcpy

open List

inductive CopyKey where
  | none
  | copy
  | cut
  deriving DecidableEq, Repr

/-- What a caller asks for: `getClipboard` or `setClipboard`. -/
inductive ClipboardCall where
  | get (copyKey : CopyKey)
  | set (text : String) (paste : Bool)
  deriving DecidableEq, Repr

/-- What is written to the device. -/
inductive ControlMessage where
  | getClipboard (copyKey : CopyKey)
  | setClipboard (sequence : Nat) (text : String) (paste : Bool)
  deriving DecidableEq, Repr

/-- What the device writes, as far as the clipboard goes. -/
inductive DeviceMessage where
  | clipboard (text : String)
  | ackClipboard (sequence : Nat)
  deriving DecidableEq, Repr

/-- The device's answer.  `encodeSetClipboard` writes the low 64 bits of the sequence number, and the
device sends back what it reads. -/
def ControlMessage.reply (text : String) : ControlMessage → DeviceMessage
  | getClipboard _ => .clipboard text
  | setClipboard sequence _ _ => .ackClipboard (sequence % 2 ^ 64)

namespace Clipboard

/-- How a call settles.  The request that was answered is there for the statements only. -/
inductive Outcome where
  | text (text : String) (request : Nat)
  | acknowledged (request : Nat)
  /-- `E_CLIPBOARD_TIMEOUT`. -/
  | timeout
  deriving DecidableEq, Repr

/-- A call that was started and whose callback has not run.  It listens to the device while it has
no outcome. -/
structure Started where
  id : Nat
  call : ClipboardCall
  /-- The sequence number of a set. -/
  sequence : Nat
  outcome : Option Outcome
  deriving DecidableEq, Repr

/-- A message on its way to the device or answered by it later, with the call that wrote it. -/
structure Sent where
  id : Nat
  message : ControlMessage
  deriving DecidableEq, Repr

end Clipboard

open Clipboard in
/-- The state of `createClipboardControl`, with the calls it has seen and the messages the device has
not answered, in the order they were written. -/
structure Clipboard where
  sequence : Nat
  queue : List (Nat × ClipboardCall)
  active : Bool
  /-- The number of calls. -/
  calls : Nat
  started : List Started
  sent : List Sent
  settled : List (Nat × Outcome)
  deriving DecidableEq, Repr

namespace Clipboard

/-- `createClipboardControl`. -/
def new : Clipboard := ⟨0, [], false, 0, [], [], []⟩

/-- A task of the queue: subscribes and writes. -/
def task (s : Clipboard) (id : Nat) : ClipboardCall → Clipboard
  | .get copyKey =>
    { s with
      started := s.started ++ [⟨id, .get copyKey, 0, none⟩]
      sent := s.sent ++ [⟨id, .getClipboard copyKey⟩] }
  | .set text paste =>
    { s with
      sequence := s.sequence + 1
      started := s.started ++ [⟨id, .set text paste, s.sequence + 1, none⟩]
      sent := s.sent ++ [⟨id, .setClipboard (s.sequence + 1) text paste⟩] }

/-- `runNext`. -/
def runNext (s : Clipboard) : Clipboard :=
  match s.queue with
  | [] => { s with active := false }
  | (id, call) :: queue => { s with queue := queue }.task id call

/-- `enqueue`. -/
def enqueue (s : Clipboard) (call : ClipboardCall) : Clipboard :=
  let id := s.calls
  let s := { s with calls := s.calls + 1 }
  if s.active then { s with queue := s.queue ++ [(id, call)] }
  else { s with active := true }.task id call

/-- What a call does with a message of the device, the answer to `request`. -/
def Started.hear (m : DeviceMessage) (request : Nat) (c : Started) : Started :=
  match c.outcome, c.call, m with
  | none, .get _, .clipboard text => { c with outcome := some (.text text request) }
  | none, .set _ _, .ackClipboard sequence =>
    if sequence = c.sequence then { c with outcome := some (.acknowledged request) } else c
  | _, _, _ => c

/-- The timer of a call. -/
def Started.expire (id : Nat) (c : Started) : Started :=
  if c.id = id ∧ c.outcome = none then { c with outcome := some .timeout } else c

/-- What happens to the clipboard. -/
inductive Event
  | call (call : ClipboardCall)
  /-- The device answers the `k`-th message it has not answered, and none of those before it. -/
  | deliver (k : Nat) (text : String)
  /-- The timer of a call fires. -/
  | timeout (id : Nat)
  /-- The callback of a call with an outcome runs. -/
  | settle (id : Nat)
  deriving DecidableEq, Repr

/-- One event; none if it cannot happen. -/
def step (s : Clipboard) : Event → Option Clipboard
  | .call call => some (s.enqueue call)
  | .deliver k text =>
    s.sent[k]?.map fun r ↦ { s with
      sent := s.sent.drop (k + 1)
      started := s.started.map (Started.hear (r.message.reply text) r.id) }
  | .timeout id =>
    if s.started.any fun c ↦ c.id = id ∧ c.outcome = none then
      some { s with started := s.started.map (Started.expire id) }
    else none
  | .settle id =>
    match s.started.find? (·.id = id) with
    | none => none
    | some c => c.outcome.map fun o ↦
      { s with started := s.started.erase c, settled := s.settled ++ [(id, o)] }.runNext

/-! ## What the clipboard promises -/

/-- The outcome of this call is not the answer to another one. -/
def Outcome.Own (id : Nat) : Outcome → Prop
  | text _ request | acknowledged request => request = id
  | timeout => True

/-- How often a call has settled, waits in the queue or was started. -/
def places (s : Clipboard) (id : Nat) : Nat :=
  (s.settled.map (·.1)).count id + (s.queue.map (·.1)).count id + (s.started.map (·.id)).count id

/-- Calls settle with answers of their own, one waits on the device at a time, each has settled once
or stands somewhere, and while calls are queued one is started, which can settle. -/
structure Safe (s : Clipboard) : Prop where
  settled : ∀ p ∈ s.settled, p.2.Own p.1
  started : ∀ c ∈ s.started, ∀ o ∈ c.outcome, o.Own c.id
  one : s.started.length ≤ 1
  once : ∀ id, s.places id = if id < s.calls then 1 else 0
  next : s.queue ≠ [] → s.started ≠ []
  settles : ∀ c ∈ s.started, (s.step (.timeout c.id)).isSome ∨ (s.step (.settle c.id)).isSome

/-- A get that listens and the clipboard that arrives. -/
def Sent.Meets (r : Sent) (c : Started) : Prop :=
  (∃ copyKey, r.message = .getClipboard copyKey) ∧ (∃ copyKey, c.call = .get copyKey) ∧
    c.outcome = none

instance (r : Sent) (c : Started) : Decidable (r.Meets c) := by
  have hmessage : Decidable (∃ copyKey, r.message = .getClipboard copyKey) :=
    match r.message with
    | .getClipboard copyKey => isTrue ⟨copyKey, rfl⟩
    | .setClipboard .. => isFalse (by simp)
  have hcall : Decidable (∃ copyKey, c.call = .get copyKey) :=
    match c.call with
    | .get copyKey => isTrue ⟨copyKey, rfl⟩
    | .set .. => isFalse (by simp)
  unfold Sent.Meets
  infer_instance

/-- A clipboard that arrives while a get waits is the answer to it. -/
def Addressed (s : Clipboard) : Event → Prop
  | .deliver k _ => ∀ r ∈ s.sent[k]?, ∀ c ∈ s.started, r.Meets c → r.id = c.id
  | _ => True

instance (s : Clipboard) : ∀ e, Decidable (Addressed s e)
  | .deliver k _ =>
    inferInstanceAs (Decidable (∀ r ∈ s.sent[k]?, ∀ c ∈ s.started, r.Meets c → r.id = c.id))
  | .call _ | .timeout _ | .settle _ => isTrue trivial

/-! ## What every event keeps -/

variable {s t : Clipboard} {e : Event} {es : List Event} {id : Nat} {c : Started} {r : Sent}

/-- What is known of a call that was started, whatever the device answers. -/
structure Started.Fits (c : Started) (sent : List Sent) : Prop where
  /-- A message with its sequence number is its own. -/
  own : ∀ r ∈ sent, ∀ text paste text' paste' sequence, c.call = .set text paste →
    r.message = .setClipboard sequence text' paste' → sequence % 2 ^ 64 = c.sequence → r.id = c.id
  acknowledged : ∀ request, c.outcome = some (.acknowledged request) → request = c.id

/-- What every event keeps, whatever the device answers. -/
structure Kept (s : Clipboard) : Prop where
  active : s.active = !s.started.isEmpty
  one : s.started.length ≤ 1
  once : ∀ id, s.places id = if id < s.calls then 1 else 0
  next : s.started = [] → s.queue = []
  sequence : ∀ r ∈ s.sent, ∀ sequence text paste,
    r.message = .setClipboard sequence text paste → sequence ≤ s.sequence
  fits : ∀ c ∈ s.started, c.Fits s.sent
  acknowledged : ∀ p ∈ s.settled, ∀ request, p.2 = .acknowledged request → request = p.1

theorem kept_new : Kept new :=
  ⟨by simp [new], by simp [new], by simp [new, places], by simp [new], by simp [new],
    by simp [new], by simp [new]⟩

/-- Starting a call that stands nowhere yet. -/
theorem kept_task {call : ClipboardCall} (hactive : s.active = true) (hstarted : s.started = [])
    (hsequence : ∀ r ∈ s.sent, ∀ sequence text paste,
      r.message = .setClipboard sequence text paste → sequence ≤ s.sequence)
    (hacknowledged : ∀ p ∈ s.settled, ∀ request, p.2 = .acknowledged request → request = p.1)
    (hnew : ∀ i, s.places i + (if id = i then 1 else 0) = if i < s.calls then 1 else 0) :
    Kept (s.task id call) := by
  cases call with
  | get copyKey =>
    refine ⟨by simp [task, hactive], by simp [task, hstarted], fun i ↦ ?_, by simp [task],
      fun r hr sequence text paste hmessage ↦ ?_, fun c hc ↦ ?_, hacknowledged⟩
    · have hi := hnew i
      show places _ i = if i < s.calls then 1 else 0
      simp only [places, task, hstarted, map_nil, count_nil, nil_append,
        map_cons, count_cons, beq_iff_eq] at hi ⊢
      omega
    · rcases mem_append.mp hr with hr | hr
      · exact hsequence r hr sequence text paste hmessage
      · obtain rfl := mem_singleton.mp hr
        simp at hmessage
    · obtain rfl : c = _ := by simpa [task, hstarted] using hc
      exact ⟨by simp, by simp⟩
  | set text paste =>
    refine ⟨by simp [task, hactive], by simp [task, hstarted], fun i ↦ ?_, by simp [task],
      fun r hr sequence text paste hmessage ↦ ?_, fun c hc ↦ ?_, hacknowledged⟩
    · have hi := hnew i
      show places _ i = if i < s.calls then 1 else 0
      simp only [places, task, hstarted, map_nil, count_nil, nil_append,
        map_cons, count_cons, beq_iff_eq] at hi ⊢
      omega
    · rcases mem_append.mp hr with hr | hr
      · exact Nat.le_succ_of_le (hsequence r hr sequence text paste hmessage)
      · obtain rfl := mem_singleton.mp hr
        simp only [ControlMessage.setClipboard.injEq] at hmessage
        exact Nat.le_of_eq hmessage.1.symm
    · obtain rfl : c = _ := by simpa [task, hstarted] using hc
      refine ⟨fun r hr _ _ text' paste' sequence _ hmessage hmod ↦ ?_, by simp⟩
      rcases mem_append.mp hr with hr | hr
      · -- those before it have smaller numbers, and taking the low bits makes none larger
        have hle := hsequence r hr sequence text' paste' hmessage
        have hmodle := Nat.mod_le sequence (2 ^ 64)
        have hmod' : sequence % 2 ^ 64 = s.sequence + 1 := hmod
        omega
      · obtain rfl := mem_singleton.mp hr
        rfl

theorem Kept.started_eq_nil (h : Kept s) (hactive : s.active = false) : s.started = [] := by
  have heq := h.active
  rw [hactive] at heq
  simpa using heq

theorem Kept.enqueue (h : Kept s) (call : ClipboardCall) : Kept (s.enqueue call) := by
  have hnext : ∀ i, s.places i + (if s.calls = i then 1 else 0) =
      if i < s.calls + 1 then 1 else 0 := by
    intro i
    rw [h.once i]
    split_ifs <;> omega
  rw [Clipboard.enqueue]
  split_ifs with hactive
  · refine ⟨h.active, h.one, fun i ↦ ?_, fun hnil ↦ ?_, h.sequence, h.fits, h.acknowledged⟩
    · have hi := hnext i
      show places _ i = if i < s.calls + 1 then 1 else 0
      simp only [places, map_append, map_cons, map_nil, count_append,
        count_cons, count_nil, beq_iff_eq] at hi ⊢
      omega
    · have heq := h.active
      have hactive' : s.active = true := hactive
      rw [hactive', show s.started = [] from hnil] at heq
      simp at heq
  · exact kept_task rfl (h.started_eq_nil (by simpa using hactive)) h.sequence h.acknowledged hnext

@[simp] theorem Started.expire_id (i : Nat) (c : Started) : (c.expire i).id = c.id := by
  rw [expire]
  split <;> rfl

/-- The call and its number stay what they are, and an outcome stays. -/
theorem Started.hear_cases (m : DeviceMessage) (request : Nat) (c : Started) :
    c.hear m request = c ∨
      (∃ copyKey text, c.call = .get copyKey ∧ m = .clipboard text ∧ c.outcome = none ∧
        c.hear m request = { c with outcome := some (.text text request) }) ∨
      (∃ text paste, c.call = .set text paste ∧ m = .ackClipboard c.sequence ∧
        c.hear m request = { c with outcome := some (.acknowledged request) }) := by
  obtain ⟨id, call, sequence, outcome⟩ := c
  cases outcome with
  | some o => exact .inl rfl
  | none =>
    cases call with
    | get copyKey =>
      cases m with
      | clipboard text => exact .inr (.inl ⟨copyKey, text, rfl, rfl, rfl, rfl⟩)
      | ackClipboard n => exact .inl rfl
    | set text paste =>
      cases m with
      | clipboard text => exact .inl rfl
      | ackClipboard n =>
        by_cases hn : n = sequence
        · subst hn
          exact .inr (.inr ⟨text, paste, rfl, rfl, by simp [hear]⟩)
        · exact .inl (by simp [hear, hn])

@[simp] theorem Started.hear_id (m : DeviceMessage) (request : Nat) (c : Started) :
    (c.hear m request).id = c.id := by
  rcases c.hear_cases m request with heq | ⟨_, _, -, -, -, heq⟩ | ⟨_, _, -, -, heq⟩ <;> rw [heq]

variable {sent : List Sent}

theorem Started.Fits.sublist {sent' : List Sent} (h : c.Fits sent) (hsub : ∀ r ∈ sent', r ∈ sent) :
    c.Fits sent' :=
  ⟨fun r hr ↦ h.own r (hsub r hr), h.acknowledged⟩

theorem Started.Fits.hear (h : c.Fits sent) (hr : r ∈ sent) (text : String) :
    (c.hear (r.message.reply text) r.id).Fits sent := by
  rcases c.hear_cases (r.message.reply text) r.id with heq | ⟨_, _, -, -, -, heq⟩ |
    ⟨text', paste, hcall, hm, heq⟩
  · rw [heq]
    exact h
  · rw [heq]
    exact ⟨h.own, by simp⟩
  · rw [heq]
    refine ⟨h.own, fun request hrequest ↦ ?_⟩
    obtain rfl : r.id = request := by simpa using hrequest
    cases hmessage : r.message with
    | getClipboard copyKey => simp [hmessage, ControlMessage.reply] at hm
    | setClipboard sequence text'' paste' =>
      rw [hmessage, ControlMessage.reply, DeviceMessage.ackClipboard.injEq] at hm
      exact h.own r hr _ _ _ _ _ hcall hmessage hm

theorem Started.Fits.expire (h : c.Fits sent) (i : Nat) : (c.expire i).Fits sent := by
  rw [Started.expire]
  split_ifs
  · exact ⟨h.own, by simp⟩
  · exact h

/-- Giving outcomes to the calls that were started. -/
theorem Kept.map (h : Kept s) {f : Started → Started} (hid : ∀ c, (f c).id = c.id)
    (hsent : ∀ r ∈ sent, r ∈ s.sent) (hfits : ∀ c ∈ s.started, (f c).Fits sent) :
    Kept { s with sent := sent, started := s.started.map f } := by
  refine ⟨by simpa using h.active, by simpa using h.one, fun i ↦ ?_, fun hnil ↦ ?_,
    fun r hr ↦ h.sequence r (hsent r hr), fun c hc ↦ ?_, h.acknowledged⟩
  · have hi := h.once i
    have hids : (s.started.map f).map (·.id) = s.started.map (·.id) := by simp [hid]
    show places _ i = if i < s.calls then 1 else 0
    simpa only [places, hids] using hi
  · exact h.next (map_eq_nil_iff.mp hnil)
  · obtain ⟨c', hc', rfl⟩ := mem_map.mp hc
    exact hfits c' hc'

/-- The call that settles was the only one. -/
theorem Kept.started_eq (h : Kept s) (hc : c ∈ s.started) : s.started = [c] := by
  obtain ⟨c', heq⟩ := length_eq_one_iff.mp
    (Nat.le_antisymm h.one (length_pos_of_mem hc))
  rw [heq, mem_singleton] at hc
  rw [heq, hc]

theorem Kept.settle (h : Kept s) (hc : c ∈ s.started) {o : Outcome} (ho : c.outcome = some o) :
    Kept { s with started := s.started.erase c, settled := s.settled ++ [(c.id, o)] }.runNext := by
  have hstarted := h.started_eq hc
  have hacknowledged : ∀ p ∈ s.settled ++ [(c.id, o)], ∀ request,
      p.2 = .acknowledged request → request = p.1 := by
    intro p hp request hrequest
    rcases mem_append.mp hp with hp | hp
    · exact h.acknowledged p hp request hrequest
    · obtain rfl := mem_singleton.mp hp
      exact (h.fits c hc).acknowledged request (ho.trans (congrArg some hrequest))
  rw [runNext]
  cases hqueue : s.queue with
  | nil =>
    simp only [hstarted, erase_cons_head]
    refine ⟨rfl, by simp, fun i ↦ ?_, by simp, h.sequence, by simp, hacknowledged⟩
    have hi := h.once i
    show places _ i = if i < s.calls then 1 else 0
    simp only [places, hstarted, hqueue, map_append, map_cons, map_nil,
      count_append, count_cons, count_nil, beq_iff_eq] at hi ⊢
    omega
  | cons p queue =>
    simp only [hstarted, erase_cons_head]
    refine kept_task ?_ rfl h.sequence hacknowledged fun i ↦ ?_
    · simpa [hstarted] using h.active
    · have hi := h.once i
      show places _ i + (if p.1 = i then 1 else 0) = if i < s.calls then 1 else 0
      simp only [places, hstarted, hqueue, map_append, map_cons, map_nil,
        count_append, count_cons, count_nil, beq_iff_eq] at hi ⊢
      omega

theorem Kept.step (h : Kept s) (he : Steps.By step s e t) : Kept t := by
  cases e with
  | call call =>
    cases he
    exact h.enqueue call
  | deliver k text =>
    obtain ⟨r, hr, rfl⟩ := Option.map_eq_some_iff.mp he
    have hmem := mem_of_getElem? hr
    have hdrop : ∀ r ∈ s.sent.drop (k + 1), r ∈ s.sent := fun r ↦ mem_of_mem_drop
    exact h.map (fun c ↦ c.hear_id _ _) hdrop fun c hc ↦ ((h.fits c hc).hear hmem text).sublist hdrop
  | timeout id =>
    rw [Steps.By, Clipboard.step] at he
    split_ifs at he
    cases he
    exact h.map (fun c ↦ c.expire_id _) (fun _ hr ↦ hr) fun c hc ↦ (h.fits c hc).expire id
  | settle id =>
    rw [Steps.By, Clipboard.step] at he
    split at he
    · cases he
    next c hfind =>
      obtain ⟨o, ho, rfl⟩ := Option.map_eq_some_iff.mp he
      obtain rfl : c.id = id := by simpa using find?_some hfind
      exact h.settle (mem_of_find?_eq_some hfind) ho

/-! ## When a reply answers its own request -/

/-- A call that was started can settle: by its timer, or by its callback. -/
theorem Kept.settles (h : Kept s) (hc : c ∈ s.started) :
    (s.step (.timeout c.id)).isSome ∨ (s.step (.settle c.id)).isSome := by
  cases houtcome : c.outcome with
  | none => exact .inl (by simp [Clipboard.step, h.started_eq hc, houtcome])
  | some o => exact .inr (by simp [Clipboard.step, h.started_eq hc, houtcome])

theorem Kept.safe (h : Kept s) (hsettled : ∀ p ∈ s.settled, p.2.Own p.1)
    (hstarted : ∀ c ∈ s.started, ∀ o ∈ c.outcome, o.Own c.id) : Safe s :=
  ⟨hsettled, hstarted, h.one, h.once, mt h.next, fun _ hc ↦ h.settles hc⟩

theorem task_safe {call : ClipboardCall} (h : Kept (s.task id call))
    (hsettled : ∀ p ∈ s.settled, p.2.Own p.1)
    (hstarted : ∀ c ∈ s.started, ∀ o ∈ c.outcome, o.Own c.id) : Safe (s.task id call) := by
  refine h.safe ?_ fun c hc o ho ↦ ?_
  · cases call <;> exact hsettled
  · have hmem : c ∈ s.started ∨ c.outcome = none := by
      cases call with
      | get copyKey => exact (mem_append.mp hc).imp_right (by simp_all)
      | set text paste => exact (mem_append.mp hc).imp_right (by simp_all)
    rcases hmem with hmem | hnone
    · exact hstarted c hmem o ho
    · simp [hnone] at ho

theorem Sent.meets_hear {text : String} (h : r.Meets c) :
    (c.hear (r.message.reply text) r.id).outcome = some (.text text r.id) := by
  obtain ⟨⟨_, hmessage⟩, ⟨_, hcall⟩, houtcome⟩ := h
  simp [Started.hear, hmessage, hcall, houtcome, ControlMessage.reply]

/-- A message leaves a call with an outcome of its own exactly if it does not meet another's get. -/
theorem hear_own_iff {text : String} (hr : r ∈ sent) (hfits : c.Fits sent)
    (hown : ∀ o ∈ c.outcome, o.Own c.id) :
    (∀ o ∈ (c.hear (r.message.reply text) r.id).outcome, o.Own c.id) ↔
      (r.Meets c → r.id = c.id) := by
  by_cases hmeets : r.Meets c
  · simp [Sent.meets_hear hmeets, hmeets, Outcome.Own]
  · refine iff_of_true ?_ fun h ↦ absurd h hmeets
    rcases c.hear_cases (r.message.reply text) r.id with heq | ⟨copyKey, text', hcall, hm, hnone, -⟩ |
      ⟨_, _, -, -, heq⟩
    · rw [heq]
      exact hown
    · refine absurd ⟨?_, ⟨copyKey, hcall⟩, hnone⟩ hmeets
      cases hmessage : r.message with
      | getClipboard copyKey' => exact ⟨copyKey', rfl⟩
      | setClipboard sequence text'' paste => simp [hmessage, ControlMessage.reply] at hm
    · intro o ho
      have hacknowledged := (hfits.hear hr text).acknowledged
      rw [heq] at ho hacknowledged
      obtain rfl : Outcome.acknowledged r.id = o := by simpa using ho
      exact hacknowledged r.id rfl

theorem safe_step_iff (hk : Kept s) (hs : Safe s) (he : Steps.By step s e t) :
    Safe t ↔ Addressed s e := by
  have ht := hk.step he
  cases e with
  | call call =>
    cases he
    refine iff_of_true ?_ trivial
    rw [Clipboard.enqueue] at ht ⊢
    split_ifs at ht ⊢
    · exact ht.safe hs.settled hs.started
    · exact task_safe ht hs.settled hs.started
  | deliver k text =>
    obtain ⟨r, hr, rfl⟩ := Option.map_eq_some_iff.mp he
    have hmem := mem_of_getElem? hr
    have hiff : ∀ c ∈ s.started, (∀ o ∈ (c.hear (r.message.reply text) r.id).outcome, o.Own c.id) ↔
        (r.Meets c → r.id = c.id) :=
      fun c hc ↦ hear_own_iff hmem (hk.fits c hc) (hs.started c hc)
    constructor
    · intro hsafe r' hr' c hc
      obtain rfl : r = r' := Option.some.inj (hr.symm.trans hr')
      refine (hiff c hc).mp ?_
      simpa using hsafe.started _ (mem_map_of_mem hc)
    · intro haddressed
      refine ht.safe hs.settled fun c' hc' ↦ ?_
      obtain ⟨c, hc, rfl⟩ := mem_map.mp hc'
      simpa using (hiff c hc).mpr (haddressed r hr c hc)
  | timeout id =>
    rw [Steps.By, Clipboard.step] at he
    split_ifs at he
    cases he
    refine iff_of_true (ht.safe hs.settled fun c' hc' ↦ ?_) trivial
    obtain ⟨c, hc, rfl⟩ := mem_map.mp hc'
    rw [Started.expire]
    split_ifs
    · simp [Outcome.Own]
    · exact hs.started c hc
  | settle id =>
    rw [Steps.By, Clipboard.step] at he
    split at he
    · cases he
    next c hfind =>
      obtain ⟨o, ho, rfl⟩ := Option.map_eq_some_iff.mp he
      obtain rfl : c.id = id := by simpa using find?_some hfind
      have hc := mem_of_find?_eq_some hfind
      have hsettled : ∀ p ∈ s.settled ++ [(c.id, o)], p.2.Own p.1 := by
        intro p hp
        rcases mem_append.mp hp with hp | hp
        · exact hs.settled p hp
        · obtain rfl := mem_singleton.mp hp
          exact hs.started c hc o ho
      have hstarted : ∀ c' ∈ s.started.erase c, ∀ o ∈ c'.outcome, o.Own c'.id :=
        fun c' hc' ↦ hs.started c' (mem_of_mem_erase hc')
      refine iff_of_true ?_ trivial
      rw [runNext] at ht ⊢
      cases hqueue : s.queue with
      | nil =>
        simp only [hqueue] at ht ⊢
        exact ht.safe hsettled hstarted
      | cons p queue =>
        simp only [hqueue] at ht ⊢
        exact task_safe ht hsettled hstarted

/-- **The clipboard keeps its promises exactly as long as no clipboard that was meant for another get
arrives while one waits.** -/
theorem answers_own_iff (h : Steps (Steps.By step) new es t) :
    (∀ pre, pre <+: es → ∀ u, Steps (Steps.By step) new pre u → Safe u) ↔
      Steps.Guarded (Steps.By step) Addressed new es t := by
  have hsafe : Safe new := kept_new.safe (by simp [new]) (by simp [new])
  exact Steps.always_iff_guarded h hsafe kept_new (fun _ _ _ hk he _ ↦ hk.step he)
    fun _ _ _ hk hs he ↦ safe_step_iff hk hs he

/-- A get that times out and a set behind it, which the device answers after the get. -/
theorem answers_own_late : ∃ t,
    Steps (Steps.By step) new
      [.call (.get .none), .call (.set "b" false), .timeout 0, .settle 0, .deliver 0 "a",
        .deliver 0 "", .settle 1] t ∧
    ∀ pre, pre <+: [.call (.get .none), .call (.set "b" false), .timeout 0, .settle 0,
        .deliver 0 "a", .deliver 0 "", .settle 1] →
      ∀ u, Steps (Steps.By step) new pre u → Safe u :=
  ⟨_, Steps.steps_by_iff.mpr rfl,
    (answers_own_iff (Steps.steps_by_iff.mpr rfl)).mpr (Steps.guarded_by_iff.mpr (by decide))⟩

/-- The get behind one that timed out is answered with the late reply to that one. -/
theorem not_safe_late : ¬ ∀ (es : List Event) (t : Clipboard),
    Steps (Steps.By step) new es t → Safe t := by
  intro hall
  have hsafe := hall [.call (.get .none), .call (.get .copy), .timeout 0, .settle 0,
    .deliver 0 "old", .settle 1] _ (Steps.steps_by_iff.mpr rfl)
  exact absurd (hsafe.settled (1, .text "old" 0) (by decide)) (by simp [Outcome.Own])

end Clipboard

end Enkaku.Scrcpy
