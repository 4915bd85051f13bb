import Enkaku.Adb.StreamMux

/-!
# The table of the stream mux

What holds of the table, the stream objects and the callbacks in every state of the mux, whatever the
host and the backends do: a stream in the table has its own host id and is not closing, a backend's
callbacks hold the stream it is attached to, and no promise settles twice.

Most operations leave all of this alone (`SameTable`): they move chunks and log.
-/

set_option autoImplicit false

namespace Enkaku.Adb.StreamMux

variable {s t u : StreamMux}

/-! ## Reading an operation -/

theorem modify_states (k j : Nat) (f : StreamState → StreamState) :
    (s.modify k f).states j = if j = k then f (s.states k) else s.states j := by
  simp [modify, Function.update_apply]

@[simp] theorem modify_states_self (k : Nat) (f : StreamState → StreamState) :
    (s.modify k f).states k = f (s.states k) := by simp [modify]

@[simp] theorem log_trace (es : List Entry) : (s.log es).trace = s.trace ++ es := by rw [log]

@[simp] theorem log_states (es : List Entry) : (s.log es).states = s.states := by rw [log]

@[simp] theorem log_get (es : List Entry) (h : Nat) : (s.log es).get h = s.get h := by simp [log, get]

@[simp] theorem closeBackend_states (b : Option Nat) : (s.closeBackend b).states = s.states := by
  rw [closeBackend, log_states]

@[simp] theorem closeBackend_get (b : Option Nat) (h : Nat) : (s.closeBackend b).get h = s.get h := by
  rw [closeBackend, log_get]

@[simp] theorem modify_get (k h : Nat) (f : StreamState → StreamState) :
    (s.modify k f).get h = s.get h := by simp [modify, get]

theorem give_states (n k j : Nat) : (s.give n k).states j =
    if j = k then { s.states k with backend := some n, writeReady := true } else s.states j := by
  rw [give, modify_states]

@[simp] theorem give_get (n k h : Nat) : (s.give n k).get h = s.get h := by simp [give, modify, get]

@[simp] theorem give_trace (n k : Nat) : (s.give n k).trace = s.trace := by simp [give, modify]

/-! ## What an operation logs -/

/-- The trace has grown by entries of a kind. -/
def Adds (p : Entry → Prop) (s t : StreamMux) : Prop :=
  ∃ es, t.trace = s.trace ++ es ∧ ∀ e ∈ es, p e

namespace Adds

variable {p q : Entry → Prop}

theorem refl (s : StreamMux) : Adds p s s := ⟨[], by simp, by simp⟩

theorem trans (h : Adds p s t) (h' : Adds p t u) : Adds p s u := by
  obtain ⟨es, hes, hp⟩ := h
  obtain ⟨es', hes', hp'⟩ := h'
  refine ⟨es ++ es', by rw [hes', hes, List.append_assoc], fun e he ↦ ?_⟩
  rcases List.mem_append.mp he with he | he
  · exact hp e he
  · exact hp' e he

theorem imp (h : Adds p s t) (himp : ∀ e, p e → q e) : Adds q s t := by
  obtain ⟨es, hes, hp⟩ := h
  exact ⟨es, hes, fun e he ↦ himp e (hp e he)⟩

/-- Only the trace counts. -/
theorem of_trace (h : t.trace = s.trace) : Adds p s t := ⟨[], by simp [h], by simp⟩

theorem log {es : List Entry} (h : ∀ e ∈ es, p e) (s : StreamMux) : Adds p s (s.log es) :=
  ⟨es, by simp, h⟩

section Book

variable (hp : ∀ e : Entry, e.isBook = true → p e)
include hp

theorem closeBackend (s : StreamMux) (b : Option Nat) : Adds p s (s.closeBackend b) := by
  refine log (fun e he ↦ hp e ?_) s
  obtain ⟨n, -, rfl⟩ := List.mem_map.mp he
  simp [Entry.isBook]

theorem delete (s : StreamMux) (hostId by_ : Nat) : Adds p s (s.delete hostId by_) := by
  rw [StreamMux.delete]
  split
  · exact refl s
  next k _ => exact ⟨[.removed k by_], by simp, by simpa using hp _ (by simp [Entry.isBook])⟩

theorem finishStream (s : StreamMux) (k : Nat) (reason : String) :
    Adds p s (s.finishStream k reason) := by
  rw [StreamMux.finishStream]
  split
  · exact refl s
  · exact (delete hp s _ _).trans (log (by simpa using hp _ (by simp [Entry.isBook])) _)

/-- `beginClose` sends one CLSE at most. -/
theorem beginClose {k : Nat} {cause : Cause}
    (hclse : ∀ ourId hostId, p (.send (some k) cause (.clse ourId hostId))) (s : StreamMux)
    (reason : String) : Adds p s (s.beginClose k cause reason) := by
  rw [StreamMux.beginClose]
  split
  · exact finishStream hp s k reason
  · refine trans (trans (trans (t := s.modify k fun st ↦ { st with closing := true }) ?_
      (closeBackend hp _ _)) (log ?_ _)) (finishStream hp _ _ _)
    · exact of_trace (by simp [modify])
    · simpa using hclse _ _

theorem tearDown (s : StreamMux) (reason : String) (k : Nat) : Adds p s (s.tearDown reason k) := by
  obtain ⟨es, hes, hpes⟩ := closeBackend hp s (s.states k).backend
  refine trans (t := { s.closeBackend (s.states k).backend with
    streams := OrdMap.erase (s.states k).hostId s.streams }) ⟨es, hes, hpes⟩ (log ?_ _)
  simpa using And.intro (hp _ (by simp [Entry.isBook])) (hp _ (by simp [Entry.isBook]))

theorem closeAll (s : StreamMux) (reason : String) : Adds p s (s.closeAll reason) := by
  rw [StreamMux.closeAll]
  generalize s.streams.map (·.2) = ks
  induction ks generalizing s with
  | nil => exact refl s
  | cons k ks ih => exact (tearDown hp s reason k).trans (ih _)

end Book

theorem ack {k : Nat} (hokay : ∀ hostId, p (.send (some k) .ack (.okay k hostId))) (s : StreamMux)
    (hostId : Nat) : Adds p s (s.ack hostId k) := by
  rw [StreamMux.ack]
  split
  · exact log (by simpa using hokay _) s
  · exact refl s

theorem pump {k : Nat} (hwrte : ∀ hostId data, p (.send (some k) .pump (.wrte k hostId data)))
    (s : StreamMux) : Adds p s (s.pump k) := by
  rw [StreamMux.pump]
  split
  · split
    · exact refl s
    next chunk rest _ =>
      exact trans (t := s.modify k fun st ↦ { st with outbox := rest, writeReady := false })
        (of_trace (by simp [modify])) (log (by simpa using hwrte _ _) _)
  · exact refl s

theorem onData {k : Nat} (hwrte : ∀ hostId data, p (.send (some k) .pump (.wrte k hostId data)))
    (htook : ∀ chunk, p (.took k chunk)) (s : StreamMux) (chunk : Chunk) :
    Adds p s (s.onData k chunk) := by
  refine trans (trans (t := s.modify k fun st ↦ { st with outbox := st.outbox ++ [chunk] })
    (of_trace (by simp [modify])) (log ?_ _)) (pump hwrte _)
  simpa using htook chunk

theorem onDatas {k : Nat} (hwrte : ∀ hostId data, p (.send (some k) .pump (.wrte k hostId data)))
    (htook : ∀ chunk, p (.took k chunk)) (s : StreamMux) (chunks : List Chunk) :
    Adds p s (s.onDatas k chunks) := by
  induction chunks generalizing s with
  | nil => exact refl s
  | cons chunk chunks ih => exact (onData hwrte htook s chunk).trans (ih _)

end Adds

/-! ## Operations that leave the table alone -/

/-- All but the outboxes, the windows and the trace is as it was. -/
structure SameTable (s t : StreamMux) : Prop where
  streams : t.streams = s.streams
  nextOurId : t.nextOurId = s.nextOurId
  pending : t.pending = s.pending
  handlers : t.handlers = s.handlers
  deferred : t.deferred = s.deferred
  hostId : ∀ k, (t.states k).hostId = (s.states k).hostId
  service : ∀ k, (t.states k).service = (s.states k).service
  backend : ∀ k, (t.states k).backend = (s.states k).backend
  closing : ∀ k, (t.states k).closing = (s.states k).closing

namespace SameTable

theorem refl (s : StreamMux) : SameTable s s := by constructor <;> simp

theorem trans (h : SameTable s t) (h' : SameTable t u) : SameTable s u where
  streams := h'.streams.trans h.streams
  nextOurId := h'.nextOurId.trans h.nextOurId
  pending := h'.pending.trans h.pending
  handlers := h'.handlers.trans h.handlers
  deferred := h'.deferred.trans h.deferred
  hostId k := (h'.hostId k).trans (h.hostId k)
  service k := (h'.service k).trans (h.service k)
  backend k := (h'.backend k).trans (h.backend k)
  closing k := (h'.closing k).trans (h.closing k)

theorem get (h : SameTable s t) (hostId : Nat) : t.get hostId = s.get hostId := by
  rw [StreamMux.get, h.streams, ← StreamMux.get]

variable (s : StreamMux)

theorem log (es : List Entry) : SameTable s (s.log es) := by
  constructor <;> simp [StreamMux.log]

theorem modify (k : Nat) {f : StreamState → StreamState}
    (hf : ∀ st, (f st).hostId = st.hostId ∧ (f st).service = st.service ∧
      (f st).backend = st.backend ∧ (f st).closing = st.closing) : SameTable s (s.modify k f) := by
  have hstate : ∀ j, (s.modify k f).states j = f (s.states j) ∨
      (s.modify k f).states j = s.states j := by
    intro j
    rw [modify_states]
    split_ifs with hj
    · exact .inl (by rw [hj])
    · exact .inr (by simp)
  constructor
  case hostId =>
    intro j
    rcases hstate j with h | h <;> rw [h]
    exact (hf _).1
  case service =>
    intro j
    rcases hstate j with h | h <;> rw [h]
    exact (hf _).2.1
  case backend =>
    intro j
    rcases hstate j with h | h <;> rw [h]
    exact (hf _).2.2.1
  case closing =>
    intro j
    rcases hstate j with h | h <;> rw [h]
    exact (hf _).2.2.2
  all_goals simp [StreamMux.modify]

theorem pump (k : Nat) : SameTable s (s.pump k) := by
  rw [StreamMux.pump]
  split
  · split
    · exact refl s
    · exact (modify s k fun _ ↦ by simp).trans (log _ _)
  · exact refl s

theorem onData (k : Nat) (chunk : Chunk) : SameTable s (s.onData k chunk) :=
  ((modify s k fun _ ↦ by simp).trans (log _ _)).trans (pump _ _)

theorem onDatas (k : Nat) (chunks : List Chunk) : SameTable s (s.onDatas k chunks) := by
  induction chunks generalizing s with
  | nil => exact refl s
  | cons chunk chunks ih => exact (onData s k chunk).trans (ih _)

theorem closeBackend (b : Option Nat) : SameTable s (s.closeBackend b) := log s _

theorem ack (h k : Nat) : SameTable s (s.ack h k) := by
  rw [StreamMux.ack]
  split
  · exact log s _
  · exact refl s

theorem handleOkay (h : Nat) : SameTable s (s.handleOkay h) := by
  rw [StreamMux.handleOkay]
  split
  · exact refl s
  · exact ((modify s _ fun _ ↦ by simp).trans (log _ _)).trans (pump _ _)

end SameTable

/-! ## The table -/

/-- The table, the stream objects and the callbacks fit together. -/
structure Table (s : StreamMux) : Prop where
  keys : ∀ h k, s.get h = some k →
    (s.states k).hostId = h ∧ k < s.nextOurId ∧ (s.states k).closing = false
  fresh : ∀ k, s.nextOurId ≤ k → (s.states k).backend = none ∧ (s.states k).closing = false
  waits : ∀ n ∈ s.pending, n < s.nextOurId ∧ s.handlers n = none
  pending : s.pending.Nodup
  handlers : ∀ n k, s.handlers n = some k →
    n < s.nextOurId ∧ k < s.nextOurId ∧ (s.states k).backend = some n
  deferred : ∀ h k, (h, k) ∈ s.deferred → (s.states k).backend ≠ none

namespace Table

theorem of_same (h : Table s) (hst : SameTable s t) : Table t where
  keys i k hk := by
    rw [hst.get] at hk
    rw [hst.hostId, hst.nextOurId, hst.closing]
    exact h.keys i k hk
  fresh k hk := by
    rw [hst.nextOurId] at hk
    rw [hst.backend, hst.closing]
    exact h.fresh k hk
  waits n hn := by
    rw [hst.pending] at hn
    rw [hst.nextOurId, hst.handlers]
    exact h.waits n hn
  pending := hst.pending ▸ h.pending
  handlers n k hk := by
    rw [hst.handlers] at hk
    rw [hst.nextOurId, hst.backend]
    exact h.handlers n k hk
  deferred i k hk := by
    rw [hst.deferred] at hk
    rw [hst.backend]
    exact h.deferred i k hk

theorem init : Table StreamMux.init := by constructor <;> simp [StreamMux.init, StreamMux.get]

theorem delete (h : Table s) (hostId by_ : Nat) : Table (s.delete hostId by_) := by
  rw [StreamMux.delete]
  split
  · exact h
  · refine ⟨fun i k hk ↦ h.keys i k ?_, h.fresh, h.waits, h.pending, h.handlers, h.deferred⟩
    rw [StreamMux.get] at hk ⊢
    rw [OrdMap.get?_erase] at hk
    split_ifs at hk
    exact hk

end Table

theorem delete_get (hostId by_ i : Nat) :
    (s.delete hostId by_).get i = if hostId = i then none else s.get i := by
  rw [delete]
  split
  next hnone =>
    split_ifs with hi
    · rw [← hi, hnone]
    · simp
  · rw [get, OrdMap.get?_erase, ← get]

@[simp] theorem delete_states (hostId by_ : Nat) : (s.delete hostId by_).states = s.states := by
  rw [delete]
  split <;> simp

theorem tearDown_get (reason : String) (k i : Nat) :
    (s.tearDown reason k).get i = if (s.states k).hostId = i then none else s.get i := by
  rw [tearDown, log_get, get, OrdMap.get?_erase, get]

@[simp] theorem tearDown_states (reason : String) (k : Nat) :
    (s.tearDown reason k).states = s.states := by
  rw [tearDown, log_states]
  exact closeBackend_states (s.states k).backend

theorem finishStream_get (k : Nat) (reason : String) (i : Nat) :
    (s.finishStream k reason).get i = if (s.states k).hostId = i then none else s.get i := by
  rw [finishStream]
  split
  next hnone =>
    split_ifs with hi
    · rw [← hi, hnone]
    · simp
  · rw [log_get, delete_get]

@[simp] theorem finishStream_states (k : Nat) (reason : String) :
    (s.finishStream k reason).states = s.states := by
  rw [finishStream]
  split <;> simp

/-- Closing a stream takes whatever has its host id out of the table. -/
theorem beginClose_get (k : Nat) (cause : Cause) (reason : String) (i : Nat) :
    (s.beginClose k cause reason).get i = if (s.states k).hostId = i then none else s.get i := by
  rw [beginClose]
  split
  · rw [finishStream_get]
  · simp [finishStream_get]

theorem beginClose_states (k : Nat) (cause : Cause) (reason : String) (j : Nat) :
    (s.beginClose k cause reason).states j =
      if j = k then { s.states k with closing := true } else s.states j := by
  rw [beginClose]
  split
  next hclosing =>
    rw [finishStream_states]
    split_ifs with hj
    · rw [hj, ← hclosing]
    · simp
  · simp [modify_states]

/-- The ids, the promises, the callbacks and the deferred writes are as they were. -/
structure SameRest (s t : StreamMux) : Prop where
  nextOurId : t.nextOurId = s.nextOurId
  pending : t.pending = s.pending
  handlers : t.handlers = s.handlers
  deferred : t.deferred = s.deferred

namespace SameRest

theorem trans (h : SameRest s t) (h' : SameRest t u) : SameRest s u where
  nextOurId := h'.nextOurId.trans h.nextOurId
  pending := h'.pending.trans h.pending
  handlers := h'.handlers.trans h.handlers
  deferred := h'.deferred.trans h.deferred

theorem of_same (h : SameTable s t) : SameRest s t :=
  ⟨h.nextOurId, h.pending, h.handlers, h.deferred⟩

theorem modify (s : StreamMux) (k : Nat) (f : StreamState → StreamState) :
    SameRest s (s.modify k f) := by constructor <;> simp [StreamMux.modify]

theorem delete (s : StreamMux) (hostId by_ : Nat) : SameRest s (s.delete hostId by_) := by
  rw [StreamMux.delete]
  split <;> constructor <;> simp

theorem finishStream (s : StreamMux) (k : Nat) (reason : String) :
    SameRest s (s.finishStream k reason) := by
  rw [StreamMux.finishStream]
  split
  · exact of_same (.refl s)
  · exact (delete s _ _).trans (of_same (.log _ _))

theorem beginClose (s : StreamMux) (k : Nat) (cause : Cause) (reason : String) :
    SameRest s (s.beginClose k cause reason) := by
  rw [StreamMux.beginClose]
  split
  · exact finishStream s k reason
  · exact (((modify s k _).trans (of_same (.closeBackend _ _))).trans (of_same (.log _ _))).trans
      (finishStream _ _ _)

end SameRest

namespace Table

section

variable (h : Table s)
include h

theorem beginClose {k : Nat} (hk : k < s.nextOurId) (cause : Cause) (reason : String) :
    Table (s.beginClose k cause reason) := by
  have hrest := SameRest.beginClose s k cause reason
  have hbackend : ∀ j, ((s.beginClose k cause reason).states j).backend = (s.states j).backend := by
    intro j
    rw [beginClose_states]
    split_ifs with hj <;> simp [hj]
  refine ⟨fun i j hj ↦ ?_, fun j hj ↦ ?_, ?_, ?_, ?_, ?_⟩
  · rw [beginClose_get] at hj
    split_ifs at hj with hi
    obtain ⟨rfl, hlt, hclosing⟩ := h.keys i j hj
    have hjk : j ≠ k := fun heq ↦ hi (by rw [heq])
    rw [beginClose_states, if_neg hjk, hrest.nextOurId]
    exact ⟨by simp, hlt, hclosing⟩
  · rw [hrest.nextOurId] at hj
    rw [beginClose_states, if_neg (by omega)]
    exact h.fresh j hj
  · rw [hrest.pending, hrest.nextOurId, hrest.handlers]
    exact h.waits
  · exact hrest.pending ▸ h.pending
  · rw [hrest.nextOurId, hrest.handlers]
    simpa only [hbackend] using h.handlers
  · rw [hrest.deferred]
    simpa only [hbackend] using h.deferred

theorem handleOpen (maxStreams hostId : Nat) (payload : String) :
    Table (s.handleOpen maxStreams hostId payload) := by
  rw [StreamMux.handleOpen]
  split_ifs with hfull
  · exact h.of_same (.log _ _)
  · have hstates : ∀ (x : StreamState) k, k ≠ s.nextOurId →
        Function.update s.states s.nextOurId x k = s.states k := fun x k hk ↦ by simp [hk]
    have hnone : (s.states s.nextOurId).backend = none := (h.fresh _ (le_rfl)).1
    refine ⟨fun i k hk ↦ ?_, fun k hk ↦ ?_, fun n hn ↦ ?_, ?_, fun n k hk ↦ ?_, fun i k hk ↦ ?_⟩
    · rw [StreamMux.get] at hk
      dsimp only at hk ⊢
      rw [OrdMap.get?_set] at hk
      split_ifs at hk with hi
      · cases hk
        simp [hi]
      · obtain ⟨hid, hlt, hclosing⟩ := h.keys i k hk
        rw [hstates _ k (by omega)]
        exact ⟨hid, by omega, hclosing⟩
    · dsimp only at hk ⊢
      rw [hstates _ k (by omega)]
      exact h.fresh k (by omega)
    · rcases List.mem_append.mp hn with hn | hn
      · exact ⟨Nat.lt_succ_of_lt (h.waits n hn).1, (h.waits n hn).2⟩
      · obtain rfl := List.mem_singleton.mp hn
        refine ⟨Nat.lt_succ_self _, ?_⟩
        cases hhandler : s.handlers s.nextOurId with
        | none => simp
        | some k => exact absurd (h.handlers _ k hhandler).1 (Nat.lt_irrefl _)
    · refine List.nodup_append.mpr ⟨h.pending, by simp, fun a ha b hb ↦ ?_⟩
      obtain rfl := List.mem_singleton.mp hb
      exact Nat.ne_of_lt (h.waits a ha).1
    · obtain ⟨hn, hlt, hbackend⟩ := h.handlers n k hk
      dsimp only
      rw [hstates _ k (by omega)]
      exact ⟨by omega, by omega, hbackend⟩
    · have hbackend := h.deferred i k hk
      dsimp only
      rw [hstates _ k fun heq ↦ hbackend (heq ▸ hnone)]
      exact hbackend

/-- Giving a stream that has none the backend that has come. -/
theorem give {n k : Nat} (hn : n < s.nextOurId) (hpending : n ∉ s.pending)
    (hk : k < s.nextOurId) (hbackend : (s.states k).backend = none) : Table (s.give n k) := by
  have hstates : ∀ j, j ≠ k → (s.give n k).states j = s.states j := fun j hj ↦ by
    rw [give_states, if_neg hj]
  refine ⟨fun i j hj ↦ ?_, fun j hj ↦ ?_, fun m hm ↦ ?_, h.pending, fun m j hj ↦ ?_, fun i j hj ↦ ?_⟩
  · obtain ⟨hid, hlt, hclosing⟩ := h.keys i j hj
    rw [give_states]
    split_ifs with hjk
    · exact ⟨hjk ▸ hid, hlt, hjk ▸ hclosing⟩
    · exact ⟨hid, hlt, hclosing⟩
  · rw [hstates j fun heq ↦ by rw [heq] at hj; exact absurd hk (Nat.not_lt.mpr hj)]
    exact h.fresh j hj
  · have hmn : m ≠ n := fun heq ↦ hpending (heq ▸ hm)
    rw [StreamMux.give]
    dsimp only
    rw [Function.update_of_ne hmn]
    exact h.waits m hm
  · rw [StreamMux.give] at hj
    dsimp only at hj
    by_cases hmn : m = n
    · subst hmn
      rw [Function.update_self] at hj
      cases hj
      exact ⟨hn, hk, by simp [give_states]⟩
    · rw [Function.update_of_ne hmn] at hj
      obtain ⟨hm, hj', hmj⟩ := h.handlers m j hj
      rw [hstates j fun heq ↦ by rw [heq, hbackend] at hmj; simp at hmj]
      exact ⟨hm, hj', hmj⟩
  · have hj' := h.deferred i j hj
    rw [hstates j fun heq ↦ hj' (heq ▸ hbackend)]
    exact hj'

theorem callBack {k : Nat} (hk : k < s.nextOurId) (early : List Chunk) (ends : Bool) :
    Table (s.callBack k early ends) := by
  have hearly := h.of_same (.onDatas s k early)
  rw [StreamMux.callBack]
  split_ifs
  · refine hearly.beginClose ?_ _ _
    rw [(SameTable.onDatas s k early).nextOurId]
    exact hk
  · exact hearly

theorem resolved {n : Nat} (hn : n ∈ s.pending) (early : List Chunk) (ends : Bool) :
    Table (s.resolved n early ends) := by
  have hreturned : Table ({ s with pending := s.pending.erase n, trace := s.trace ++ [Entry.returned n] }) :=
    ⟨h.keys, h.fresh, fun m hm ↦ h.waits m (List.mem_of_mem_erase hm), h.pending.erase n, h.handlers,
      h.deferred⟩
  rw [StreamMux.resolved]
  split
  · exact hreturned.of_same (.closeBackend _ _)
  next k hk =>
    rw [attach]
    split_ifs with hbackend
    · exact hreturned.of_same (.closeBackend _ _)
    · have hk' := (hreturned.keys _ k hk).2.1
      exact ((hreturned.give (h.waits n hn).1 (List.Nodup.not_mem_erase h.pending) hk'
        (not_not.mp hbackend)).callBack hk' early ends).of_same (.log _ _)

theorem rejected (n : Nat) : Table (s.rejected n) := by
  have hrejected : Table ({ s with pending := s.pending.erase n }) :=
    ⟨h.keys, h.fresh, fun m hm ↦ h.waits m (List.mem_of_mem_erase hm), h.pending.erase n, h.handlers,
      h.deferred⟩
  exact (hrejected.delete _ _).of_same (.log _ _)

theorem handleWrte (hostId : Nat) (payload : Chunk) (defers : Bool) :
    Table (s.handleWrte hostId payload defers) := by
  rw [StreamMux.handleWrte]
  split
  · exact h.of_same (.log _ _)
  next k hk =>
    split
    · exact h.of_same (.log _ _)
    next n hn =>
      have hlog := h.of_same (.log s [.wrote n payload])
      split_ifs
      · refine ⟨hlog.keys, hlog.fresh, hlog.waits, hlog.pending, hlog.handlers, fun i j hj ↦ ?_⟩
        rcases List.mem_append.mp hj with hj | hj
        · exact h.deferred i j hj
        · obtain ⟨rfl, rfl⟩ := Prod.mk.inj (List.mem_singleton.mp hj)
          simp [hn]
      · exact hlog.of_same (.ack _ _ _)

theorem settled (hostId k : Nat) : Table (s.settled hostId k) := by
  refine Table.of_same ?_ (.ack _ _ _)
  exact ⟨h.keys, h.fresh, h.waits, h.pending, h.handlers,
    fun i j hj ↦ h.deferred i j (List.mem_of_mem_erase hj)⟩

theorem tearDown (reason : String) (k : Nat) : Table (s.tearDown reason k) := by
  refine Table.of_same ?_ (.log _ _)
  refine ⟨fun i j hj ↦ h.keys i j ?_, h.fresh, h.waits, h.pending, h.handlers, h.deferred⟩
  rw [StreamMux.get, OrdMap.get?_erase] at hj
  split_ifs at hj
  exact hj

theorem closeAll (reason : String) : Table (s.closeAll reason) := by
  rw [StreamMux.closeAll]
  generalize s.streams.map (·.2) = ks
  induction ks generalizing s with
  | nil => exact h
  | cons k ks ih => exact ih (h.tearDown reason k)

/-- **Every step keeps the table.** -/
theorem step {maxStreams : Nat} {e : MuxEvent} (hstep : s.step maxStreams e = some t) : Table t := by
  cases e with
  | open_ hostId payload =>
    cases hstep
    exact h.handleOpen _ _ _
  | okay hostId =>
    cases hstep
    exact h.of_same (.handleOkay _ _)
  | wrte hostId payload defers =>
    cases hstep
    exact h.handleWrte _ _ _
  | clse hostId =>
    cases hstep
    rw [handleClse]
    split
    · exact h
    next k hk => exact h.beginClose (h.keys _ k hk).2.1 _ _
  | other =>
    cases hstep
    exact h
  | resolved n early ends =>
    obtain ⟨hn, ⟨⟩⟩ := Option.ite_none_right_eq_some.mp hstep
    exact h.resolved hn _ _
  | rejected n =>
    obtain ⟨-, ⟨⟩⟩ := Option.ite_none_right_eq_some.mp hstep
    exact h.rejected n
  | data n chunk =>
    obtain ⟨k, -, rfl⟩ := Option.map_eq_some_iff.mp hstep
    exact h.of_same (.onData _ _ _)
  | ended n =>
    obtain ⟨k, hk, rfl⟩ := Option.map_eq_some_iff.mp hstep
    exact h.beginClose (h.handlers n k hk).2.1 _ _
  | settled hostId k =>
    obtain ⟨-, ⟨⟩⟩ := Option.ite_none_right_eq_some.mp hstep
    exact h.settled _ _
  | closeAll reason =>
    cases hstep
    exact h.closeAll reason

end

end Table

end Enkaku.Adb.StreamMux
