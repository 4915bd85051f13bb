import Enkaku.Adb.MuxLossless

/-!
# The limits of the stream mux

One WRTE of a stream waits for its OKAY at most, and the table holds `maxStreams` streams at most,
whatever happens.  The other limits hold as long as no step breaks them
(`limits_iff`): the mux does not cut chunks to the `maxdata` of the handshake, it does not look
whether a stream is closing when a backend delivers to it, and it answers an OPEN with OKAY after the
CLSE when the backend ends inside `streamFrom`, or when a WRTE to the stream was refused before.
-/

set_option autoImplicit false

namespace Enkaku.Adb

open Entry

/-- A CLSE for the stream. -/
def Entry.closes (k : Nat) : Entry → Bool
  | .send (some j) _ (.clse ..) => j = k
  | _ => false

/-- An OKAY or a WRTE with the stream's id. -/
def Entry.speaks (k : Nat) : Entry → Bool
  | .send _ _ (.okay j _) | .send _ _ (.wrte j ..) => j = k
  | _ => false

/-- A CLSE for the stream that answers one of the host's. -/
def Entry.echoes (k : Nat) : Entry → Bool
  | .send (some j) .hostClosed _ => j = k
  | _ => false

/-- The payload of a WRTE. -/
def Entry.payload? : Entry → Option Chunk
  | .send _ _ (.wrte _ _ data) => some data
  | _ => none

/-- **The protocol's limits.** -/
structure Limits (maxStreams maxdata : Nat) (s : StreamMux) : Prop where
  /-- One WRTE of a stream is unacknowledged at most. -/
  window : ∀ k, unacked k s.trace ≤ 1
  streams : s.streams.length ≤ maxStreams
  /-- After the CLSE for a stream nothing more is sent with its id. -/
  silent : ∀ pre e post k, s.trace = pre ++ e :: post → e.speaks k = true →
    ∀ e' ∈ pre, e'.closes k = false
  /-- A CLSE for a stream that is closed is not answered. -/
  noEcho : ∀ pre e post k, s.trace = pre ++ e :: post → e.echoes k = true →
    ∀ e' ∈ pre, e'.closes k = false
  maxdata : ∀ e ∈ s.trace, ∀ data, e.payload? = some data → data.length ≤ maxdata

/-- What the limits ask of an entry. -/
def WithinAt (maxdata : Nat) (pre : List Entry) (e : Entry) : Prop :=
  (∀ k, e.speaks k = true ∨ e.echoes k = true → ∀ e' ∈ pre, e'.closes k = false) ∧
    ∀ data, e.payload? = some data → data.length ≤ maxdata

/-- An entry the limits ask nothing of. -/
def Entry.isMute : Entry → Bool
  | .send _ .hostClosed _ | .send _ _ (.okay ..) | .send _ _ (.wrte ..) => false
  | _ => true

theorem Entry.isMute_of_isBook {e : Entry} (h : e.isBook = true) : e.isMute = true := by
  cases e <;> simp_all [isBook, isMute]

theorem withinAt_of_isMute {maxdata : Nat} {e : Entry} (h : e.isMute = true) (pre : List Entry) :
    WithinAt maxdata pre e := by
  cases e with
  | send about cause frame =>
    cases frame with
    | okay => cases cause <;> simp [isMute] at h
    | wrte => cases cause <;> simp [isMute] at h
    | clse ourId hostId =>
      refine ⟨fun k hk ↦ ?_, by simp [payload?]⟩
      rcases hk with hk | hk
      · simp [speaks] at hk
      · cases cause <;> simp [isMute, echoes] at h hk
  | _ => exact ⟨fun k hk ↦ by simp [speaks, echoes] at hk, by simp [payload?]⟩

namespace StreamMux

variable {s t u : StreamMux} {maxStreams maxdata : Nat}

/-- The mux has sent a CLSE for the stream. -/
def Closed (s : StreamMux) (k : Nat) : Prop := ∃ e ∈ s.trace, e.closes k = true

variable {k : Nat}

theorem not_closed_iff : ¬ s.Closed k ↔ ∀ e ∈ s.trace, e.closes k = false := by
  simp [Closed]

/-! ## The table does not grow past its limit -/

theorem length_delete_le (hostId by_ : Nat) : (s.delete hostId by_).streams.length ≤ s.streams.length := by
  rw [delete]
  split
  · exact le_rfl
  · exact OrdMap.length_erase_le _ _

theorem length_finishStream_le (k : Nat) (reason : String) :
    (s.finishStream k reason).streams.length ≤ s.streams.length := by
  rw [finishStream]
  split
  · exact le_rfl
  · exact length_delete_le _ _

theorem length_beginClose_le (k : Nat) (cause : Cause) (reason : String) :
    (s.beginClose k cause reason).streams.length ≤ s.streams.length := by
  rw [beginClose]
  split
  · exact length_finishStream_le _ _
  · exact length_finishStream_le _ _

theorem length_resolved_le (n : Nat) (early : List Chunk) (ends : Bool) :
    (s.resolved n early ends).streams.length ≤ s.streams.length := by
  rw [resolved]
  split
  · exact le_rfl
  next k _ =>
    rw [attach]
    split
    · exact le_rfl
    · have hearly := (SameTable.onDatas ((give { s with
        pending := s.pending.erase n, trace := s.trace ++ [Entry.returned n] } n k)) k early).streams
      rw [log, callBack]
      split
      · exact Nat.le_trans (length_beginClose_le _ _ _) (by rw [hearly]; exact le_rfl)
      · rw [hearly]
        exact le_rfl

theorem length_closeAll_le (reason : String) :
    (s.closeAll reason).streams.length ≤ s.streams.length := by
  rw [closeAll]
  generalize s.streams.map (·.2) = ks
  induction ks generalizing s with
  | nil => exact le_rfl
  | cons k ks ih => exact Nat.le_trans ih (OrdMap.length_erase_le _ _)

/-- **No step takes the table past `maxStreams`.** -/
theorem length_step (h : s.streams.length ≤ maxStreams) {e : MuxEvent}
    (hstep : s.step maxStreams e = some t) : t.streams.length ≤ maxStreams := by
  cases e with
  | open_ hostId payload =>
    cases hstep
    rw [handleOpen]
    split_ifs with hfull
    · exact h
    · exact Nat.le_trans (OrdMap.length_set_le _ _ _) (by omega)
  | okay hostId =>
    cases hstep
    rwa [(SameTable.handleOkay s hostId).streams]
  | wrte hostId payload defers =>
    cases hstep
    rw [handleWrte]
    split
    · exact h
    · split
      · exact h
      · dsimp only
        split_ifs
        · exact h
        · rwa [(SameTable.ack _ _ _).streams]
  | clse hostId =>
    cases hstep
    rw [handleClse]
    split
    · exact h
    · exact Nat.le_trans (length_beginClose_le _ _ _) h
  | other =>
    cases hstep
    exact h
  | resolved n early ends =>
    obtain ⟨-, ⟨⟩⟩ := Option.ite_none_right_eq_some.mp hstep
    exact Nat.le_trans (length_resolved_le _ _ _) h
  | rejected n =>
    obtain ⟨-, ⟨⟩⟩ := Option.ite_none_right_eq_some.mp hstep
    exact Nat.le_trans (length_delete_le _ _) h
  | data n chunk =>
    obtain ⟨k, -, rfl⟩ := Option.map_eq_some_iff.mp hstep
    rwa [(SameTable.onData s k chunk).streams]
  | ended n =>
    obtain ⟨k, -, rfl⟩ := Option.map_eq_some_iff.mp hstep
    exact Nat.le_trans (length_beginClose_le _ _ _) h
  | settled hostId k =>
    obtain ⟨-, ⟨⟩⟩ := Option.ite_none_right_eq_some.mp hstep
    rw [settled, (SameTable.ack _ _ _).streams]
    exact h
  | closeAll reason =>
    cases hstep
    exact Nat.le_trans (length_closeAll_le reason) h

/-! ## What an operation sends -/

theorem within_of_mute (h : Adds (fun e ↦ e.isMute = true) s t) :
    History.Each (WithinAt maxdata) t.trace ↔ History.Each (WithinAt maxdata) s.trace := by
  obtain ⟨es, htrace, hes⟩ := h
  rw [htrace]
  exact History.each_append_of_forall fun e he pre ↦ withinAt_of_isMute (hes e he) pre

variable {pre : List Entry}

theorem withinAt_wrte {hostId : Nat} {data : Chunk} :
    WithinAt maxdata pre (.send (some k) .pump (.wrte k hostId data)) ↔
      (∀ e ∈ pre, e.closes k = false) ∧ data.length ≤ maxdata := by
  simp [WithinAt, speaks, echoes, payload?]

theorem withinAt_okay {hostId : Nat} {cause : Cause} (hcause : cause ≠ .hostClosed) :
    WithinAt maxdata pre (.send (some k) cause (.okay k hostId)) ↔ ∀ e ∈ pre, e.closes k = false := by
  have hecho : ∀ j, (Entry.send (some k) cause (.okay k hostId)).echoes j = false := by
    intro j
    cases cause <;> simp_all [echoes]
  simp [WithinAt, speaks, hecho, payload?]

theorem withinAt_clse {ourId hostId : Nat} :
    WithinAt maxdata pre (.send (some k) .hostClosed (.clse ourId hostId)) ↔
      ∀ e ∈ pre, e.closes k = false := by
  simp [WithinAt, speaks, echoes, payload?]

/-- What `pump` sends is the head of the outbox. -/
theorem within_pump (k : Nat) : History.Each (WithinAt maxdata) (s.pump k).trace ↔
    History.Each (WithinAt maxdata) s.trace ∧ ((s.states k).writeReady = true →
      ∀ chunk, (s.states k).outbox.head? = some chunk → ¬ s.Closed k ∧ chunk.length ≤ maxdata) := by
  rw [pump]
  split_ifs with hready
  · split
    next houtbox => simp [houtbox]
    next chunk rest houtbox =>
      have htrace : (s.modify k fun st ↦ { st with outbox := rest, writeReady := false }).trace =
          s.trace := by simp [modify]
      rw [log_trace, htrace, History.each_snoc, withinAt_wrte, not_closed_iff]
      simp [houtbox, hready]
  · simp [hready]

/-- On a stream whose window is open nothing waits, so a chunk that comes is sent at once. -/
theorem within_onData (h : Buffers s) (k : Nat) (chunk : Chunk) :
    History.Each (WithinAt maxdata) (s.onData k chunk).trace ↔
      History.Each (WithinAt maxdata) s.trace ∧
        ((s.states k).writeReady = true → ¬ s.Closed k ∧ chunk.length ≤ maxdata) := by
  have htook : Adds (fun e ↦ e.isMute = true ∧ ∀ j, e.closes j = false) s
      ((s.modify k fun st ↦ { st with outbox := st.outbox ++ [chunk] }).log [.took k chunk]) :=
    ⟨[.took k chunk], by simp [modify], by simp [isMute, closes]⟩
  have hclosed : ∀ j, Closed ((s.modify k fun st ↦ { st with outbox := st.outbox ++ [chunk] }).log
      [.took k chunk]) j ↔ s.Closed j := by
    intro j
    simp [Closed, modify, closes]
  rw [onData, within_pump, within_of_mute (htook.imp fun e he ↦ he.1), hclosed]
  refine and_congr_right fun _ ↦ ?_
  simp only [log_states, modify_states_self]
  refine forall_congr' fun hready ↦ ?_
  rw [(h.ready k hready).2]
  simp

/-! ## Open streams -/

/-- The OPEN of the stream has been answered with OKAY, and no CLSE for it has followed. -/
def LastOkay (k : Nat) (tr : List Entry) : Prop :=
  ∃ pre hostId post, tr = pre ++ .send (some k) .opening (.okay k hostId) :: post ∧
    ∀ e ∈ post, e.closes k = false

theorem LastOkay.append {tr es : List Entry} (h : LastOkay k tr)
    (hes : ∀ e ∈ es, e.closes k = false) : LastOkay k (tr ++ es) := by
  obtain ⟨pre, hostId, post, rfl, hpost⟩ := h
  refine ⟨pre, hostId, post ++ es, by simp, fun e he ↦ ?_⟩
  rcases List.mem_append.mp he with he | he
  · exact hpost e he
  · exact hes e he

/-- So, within the limits, no CLSE for it has been sent at all. -/
theorem LastOkay.not_closed (h : LastOkay k s.trace)
    (heach : History.Each (WithinAt maxdata) s.trace) : ¬ s.Closed k := by
  rw [not_closed_iff]
  obtain ⟨pre, hostId, post, htrace, hpost⟩ := h
  have hpre := (withinAt_okay (by simp)).mp (heach pre _ post htrace)
  intro e he
  rw [htrace] at he
  rcases List.mem_append.mp he with he | he
  · exact hpre e he
  · rcases List.mem_cons.mp he with rfl | he
    · simp [closes]
    · exact hpost e he

/-- A stream in the table that has its backend is open. -/
def Opened (s : StreamMux) : Prop :=
  ∀ h k, s.get h = some k → (s.states k).backend ≠ none → LastOkay k s.trace

namespace Opened

/-- The streams of `t` with a backend are among those of `s`, and none of them is closed on the way. -/
theorem evolve (h : Opened s) (hget : ∀ i k, t.get i = some k → (t.states k).backend ≠ none →
      s.get i = some k ∧ (s.states k).backend ≠ none)
    (hadds : Adds (fun e ↦ ∀ i k, t.get i = some k → (t.states k).backend ≠ none →
      e.closes k = false) s t) : Opened t := by
  obtain ⟨es, htrace, hes⟩ := hadds
  intro i k hk hbackend
  obtain ⟨hks, hbackends⟩ := hget i k hk hbackend
  rw [htrace]
  exact (h i k hks hbackends).append fun e he ↦ hes e he i k hk hbackend

theorem of_same (h : Opened s) (hst : SameTable s t)
    (hadds : Adds (fun e ↦ ∀ k, e.closes k = false) s t) : Opened t := by
  refine h.evolve (fun i k hk hbackend ↦ ?_) (hadds.imp fun e he i k _ _ ↦ he k)
  rw [hst.get] at hk
  rw [hst.backend] at hbackend
  exact ⟨hk, hbackend⟩

theorem init : Opened StreamMux.init := fun i k hk ↦ by simp [StreamMux.init, StreamMux.get] at hk

section

variable (h : Opened s)
include h

/-- Closing a stream closes no other. -/
theorem beginClose (htable : Table s) (k : Nat) (cause : Cause) (reason : String) :
    Opened (s.beginClose k cause reason) := by
  have hget : ∀ i j, (s.beginClose k cause reason).get i = some j → s.get i = some j ∧ j ≠ k := by
    intro i j hj
    rw [beginClose_get] at hj
    split_ifs at hj with hi
    exact ⟨hj, fun heq ↦ hi (heq ▸ (htable.keys i j hj).1)⟩
  refine h.evolve (fun i j hj hbackend ↦ ?_) ?_
  · obtain ⟨hjs, hjk⟩ := hget i j hj
    rw [beginClose_states, if_neg hjk] at hbackend
    exact ⟨hjs, hbackend⟩
  · refine Adds.imp (p := fun e ↦ ∀ j, j ≠ k → e.closes j = false)
      (.beginClose (fun e he j _ ↦ ?_) (fun ourId hostId j hj ↦ ?_) s reason)
      fun e he i j hj _ ↦ he j (hget i j hj).2
    · cases e <;> simp_all [isBook, closes]
    · simpa [closes] using Ne.symm hj

theorem delete_log (htable : Table s) (n : Nat) {es : List Entry}
    (hes : ∀ e ∈ es, ∀ k, k ≠ n → e.closes k = false) :
    Opened ((s.delete (s.states n).hostId n).log es) := by
  have hget : ∀ i j, (s.delete (s.states n).hostId n).get i = some j → s.get i = some j ∧ j ≠ n := by
    intro i j hj
    rw [delete_get] at hj
    split_ifs at hj with hi
    exact ⟨hj, fun heq ↦ hi (heq ▸ (htable.keys i j hj).1)⟩
  refine h.evolve (fun i j hj hbackend ↦ ?_) ?_
  · rw [log_get] at hj
    rw [log_states, delete_states] at hbackend
    exact ⟨(hget i j hj).1, hbackend⟩
  · refine Adds.imp (p := fun e ↦ ∀ j, j ≠ n → e.closes j = false)
      (Adds.trans (.delete (fun e he j _ ↦ ?_) s _ _) (.log (fun e he j hj ↦ hes e he j hj) _))
      fun e he i j hj _ ↦ he j (hget i j (by simpa using hj)).2
    cases e <;> simp_all [isBook, closes]

theorem handleOpen (maxStreams hostId : Nat) (payload : String) :
    Opened (s.handleOpen maxStreams hostId payload) := by
  rw [StreamMux.handleOpen]
  split_ifs
  · exact h.of_same (.log s _) (.log (by simp [closes]) s)
  · refine h.evolve (fun i k hk hbackend ↦ ?_) ⟨_, by rfl, by simp [closes]⟩
    dsimp only at hbackend
    have hkn : k ≠ s.nextOurId := fun heq ↦ hbackend (by simp [heq])
    rw [Function.update_of_ne hkn] at hbackend
    rw [StreamMux.get] at hk
    rw [OrdMap.get?_set] at hk
    split_ifs at hk
    · exact absurd (Option.some.inj hk).symm hkn
    · exact ⟨hk, hbackend⟩

theorem handleWrte (hostId : Nat) (payload : Chunk) (defers : Bool) :
    Opened (s.handleWrte hostId payload defers) := by
  rw [StreamMux.handleWrte]
  split
  · exact h.of_same (.log s _) (.log (by simp [closes]) s)
  next k hk =>
    split
    next hnone =>
      refine h.evolve (fun i j hj hbackend ↦ ⟨by simpa using hj, by simpa using hbackend⟩)
        (.log (fun e he i j hj hbackend ↦ ?_) s)
      obtain rfl := List.mem_singleton.mp he
      have hjk : k ≠ j := fun heq ↦ hbackend (by simpa [heq] using hnone)
      simpa [closes] using hjk
    next n _ =>
      have hlog : Opened (s.log [.wrote n payload]) :=
        h.of_same (.log s _) (.log (by simp [closes]) s)
      split_ifs
      · exact hlog
      · exact hlog.of_same (.ack _ _ _) (.ack (fun _ ↦ by simp [closes]) _ _)

theorem closeAll (reason : String) : Opened (s.closeAll reason) := by
  have hbook : ∀ e : Entry, e.isBook = true → ∀ k, e.closes k = false := by
    intro e he k
    cases e <;> simp_all [isBook, closes]
  rw [StreamMux.closeAll]
  generalize s.streams.map (·.2) = ks
  induction ks generalizing s with
  | nil => exact h
  | cons k ks ih =>
    refine ih (h.evolve (t := s.tearDown reason k) (fun i j hj hbackend ↦ ?_)
      ((Adds.tearDown hbook s reason k).imp fun e he i j _ _ ↦ he j))
    rw [tearDown_get] at hj
    split_ifs at hj
    exact ⟨hj, by simpa using hbackend⟩

/-- The backend that comes opens the stream. -/
theorem attach {n k : Nat} (early : List Chunk) (ends : Bool) : Opened (s.attach n k early ends) := by
  rw [StreamMux.attach]
  split_ifs with hbackend
  · exact h.of_same (.closeBackend _ _) (.log (by simp [closes]) s)
  -- The other streams first: nothing of this one concerns them.
  have hother : ∀ i j, ((s.give n k).callBack k early ends).get i = some j →
      (((s.give n k).callBack k early ends).states j).backend ≠ none → j ≠ k →
      s.get i = some j ∧ (s.states j).backend ≠ none := by
    intro i j hj hbackendj hjk
    have hsame := SameTable.onDatas (s.give n k) k early
    rw [callBack] at hj hbackendj
    split_ifs at hj hbackendj with hends
    · rw [onEnd, beginClose_get] at hj
      rw [onEnd, beginClose_states, if_neg hjk, hsame.backend, give_states, if_neg hjk] at hbackendj
      split_ifs at hj
      rw [hsame.get, give_get] at hj
      exact ⟨hj, hbackendj⟩
    · rw [hsame.get, give_get] at hj
      rw [hsame.backend, give_states, if_neg hjk] at hbackendj
      exact ⟨hj, hbackendj⟩
  have hadds : Adds (fun e ↦ ∀ j, j ≠ k → e.closes j = false) s ((s.give n k).callBack k early ends) := by
    have hearly : Adds (fun e ↦ ∀ j, j ≠ k → e.closes j = false) s ((s.give n k).onDatas k early) :=
      Adds.trans (.of_trace (by simp)) (.onDatas (fun _ _ j _ ↦ by simp [closes])
        (fun _ j _ ↦ by simp [closes]) _ _)
    rw [callBack]
    split_ifs
    · refine hearly.trans (.beginClose (fun e he j _ ↦ ?_) (fun ourId hostId j hj ↦ ?_) _ _)
      · cases e <;> simp_all [isBook, closes]
      · simpa [closes] using Ne.symm hj
    · exact hearly
  intro i j hj hbackendj
  rw [log_get] at hj
  rw [log_states] at hbackendj
  by_cases hjk : j = k
  · subst hjk
    exact ⟨_, _, _, by rfl, by simp [closes]⟩
  · obtain ⟨hjs, hbackends⟩ := hother i j hj hbackendj hjk
    obtain ⟨es, htrace, hes⟩ := hadds
    rw [log_trace, htrace]
    exact ((h i j hjs hbackends).append fun e he ↦ hes e he j hjk).append (by simp [closes])

theorem resolved {n : Nat} (early : List Chunk) (ends : Bool) : Opened (s.resolved n early ends) := by
  have hreturned : Opened { s with pending := s.pending.erase n, trace := s.trace ++ [Entry.returned n] } :=
    fun i k hk hbackend ↦ (h i k hk hbackend).append (by simp [closes])
  rw [StreamMux.resolved]
  split
  · exact hreturned.of_same (.closeBackend _ _) (.log (by simp [closes]) _)
  · exact hreturned.attach early ends

/-- **Every step keeps the open streams open.** -/
theorem step (htable : Table s) {e : MuxEvent} (hstep : s.step maxStreams e = some t) : Opened t := by
  have hdata : ∀ (u : StreamMux) k chunk, Opened u → Opened (u.onData k chunk) :=
    fun u k chunk hu ↦ hu.of_same (.onData _ _ _)
      (.onData (fun _ _ _ ↦ by simp [closes]) (fun _ _ ↦ by simp [closes]) _ _)
  cases e with
  | open_ hostId payload =>
    cases hstep
    exact h.handleOpen _ _ _
  | okay hostId =>
    cases hstep
    refine h.of_same (.handleOkay _ _) ?_
    rw [handleOkay]
    split
    · exact .refl s
    next k _ =>
      exact Adds.trans (Adds.trans (t := s.modify k fun st ↦ { st with writeReady := true })
        (.of_trace (by simp [modify])) (.log (by simp [closes]) _))
        (.pump (fun _ _ _ ↦ by simp [closes]) _)
  | wrte hostId payload defers =>
    cases hstep
    exact h.handleWrte _ _ _
  | clse hostId =>
    cases hstep
    rw [handleClse]
    split
    · exact h
    · exact h.beginClose htable _ _ _
  | other =>
    cases hstep
    exact h
  | resolved n early ends =>
    obtain ⟨-, ⟨⟩⟩ := Option.ite_none_right_eq_some.mp hstep
    exact h.resolved early ends
  | rejected n =>
    obtain ⟨-, ⟨⟩⟩ := Option.ite_none_right_eq_some.mp hstep
    have hpending : Opened { s with pending := s.pending.erase n } := h
    refine hpending.delete_log ⟨htable.keys, htable.fresh, fun m hm ↦ htable.waits m (List.mem_of_mem_erase hm),
      htable.pending.erase n, htable.handlers, htable.deferred⟩ n fun e he k hk ↦ ?_
    rcases List.mem_cons.mp he with rfl | he
    · simpa [closes] using Ne.symm hk
    · obtain rfl := List.mem_singleton.mp he
      simp [closes]
  | data n chunk =>
    obtain ⟨k, -, rfl⟩ := Option.map_eq_some_iff.mp hstep
    exact hdata s k chunk h
  | ended n =>
    obtain ⟨k, -, rfl⟩ := Option.map_eq_some_iff.mp hstep
    exact h.beginClose htable _ _ _
  | settled hostId k =>
    obtain ⟨-, ⟨⟩⟩ := Option.ite_none_right_eq_some.mp hstep
    have hsettled : Opened { s with deferred := s.deferred.erase (hostId, k) } := h
    exact hsettled.of_same (.ack _ _ _) (.ack (fun _ _ ↦ by simp [closes]) _ _)
  | closeAll reason =>
    cases hstep
    exact h.closeAll reason

end

end Opened

/-! ## Runs -/

/-- The step keeps the limits: no chunk over `maxdata` comes to where it is sent, a backend delivers
nothing to a stream that is closed and would send it, the backend that comes for a stream has not
ended and the stream has not been closed, and the host closes no stream that is closed. -/
def KeepsLimits (maxdata : Nat) (s : StreamMux) : MuxEvent → Prop
  | .okay hostId => ∀ k, s.get hostId = some k →
    ∀ chunk, (s.states k).outbox.head? = some chunk → chunk.length ≤ maxdata
  | .data n chunk => ∀ k, s.handlers n = some k → (s.states k).writeReady = true →
    ¬ s.Closed k ∧ chunk.length ≤ maxdata
  | .resolved n early ends => ∀ k, s.get (s.states n).hostId = some k →
    (s.states k).backend = none → ¬ s.Closed k ∧ ends = false ∧
      ∀ chunk, early.head? = some chunk → chunk.length ≤ maxdata
  | .clse hostId => ∀ k, s.get hostId = some k → ¬ s.Closed k
  | _ => True

theorem Buffers.within_iff (h : Buffers s) (hlength : s.streams.length ≤ maxStreams) :
    Limits maxStreams maxdata s ↔ History.Each (WithinAt maxdata) s.trace := by
  constructor
  · intro h' pre e post heq
    refine ⟨fun k hk ↦ ?_, h'.maxdata e (by simp [heq])⟩
    rcases hk with hk | hk
    · exact h'.silent pre e post k heq hk
    · exact h'.noEcho pre e post k heq hk
  · intro h'
    refine ⟨h.window, hlength, fun pre e post k heq hk ↦ (h' pre e post heq).1 k (.inl hk),
      fun pre e post k heq hk ↦ (h' pre e post heq).1 k (.inr hk), fun e he ↦ ?_⟩
    obtain ⟨pre, post, heq⟩ := List.append_of_mem he
    exact (h' pre e post heq).2

section Step

variable (htable : Table s) (hbuffers : Buffers s) (hopened : Opened s)
  (heach : History.Each (WithinAt maxdata) s.trace)

include hopened heach in
/-- The OKAY of a WRTE is within the limits. -/
theorem within_ack (hostId k : Nat) (hbackend : (s.states k).backend ≠ none) :
    History.Each (WithinAt maxdata) (s.ack hostId k).trace := by
  rw [ack]
  split_ifs with hk
  · rw [log_trace, History.each_snoc, withinAt_okay (by simp)]
    exact ⟨heach, not_closed_iff.mp ((hopened hostId k hk hbackend).not_closed heach)⟩
  · exact heach

include hbuffers hopened heach in
theorem within_handleOkay (hostId : Nat) : History.Each (WithinAt maxdata) (s.handleOkay hostId).trace ↔
    s.KeepsLimits maxdata (.okay hostId) := by
  rw [handleOkay, KeepsLimits]
  cases hk : s.get hostId with
  | none => simpa using heach
  | some k =>
    have hacked : Adds (fun e ↦ e.isMute = true) s
        ((s.modify k fun st ↦ { st with writeReady := true }).log [.acked k]) :=
      ⟨[.acked k], by simp [modify], by simp [isMute]⟩
    have hclosed : Closed ((s.modify k fun st ↦ { st with writeReady := true }).log [.acked k]) k ↔
        s.Closed k := by simp [Closed, modify, closes]
    rw [within_pump, within_of_mute hacked, hclosed]
    simp only [log_states, modify_states_self]
    refine ⟨fun h j hj chunk hchunk ↦ ?_, fun h ↦ ⟨heach, fun _ chunk hchunk ↦ ⟨?_, h k (by rfl) chunk hchunk⟩⟩⟩
    · cases hj
      exact (h.2 trivial chunk hchunk).2
    · refine (hopened hostId k hk fun hnone ↦ ?_).not_closed heach
      rw [(hbuffers.unopened hnone).2.1] at hchunk
      simp at hchunk

include hopened heach in
theorem within_handleWrte (hostId : Nat) (payload : Chunk) (defers : Bool) :
    History.Each (WithinAt maxdata) (s.handleWrte hostId payload defers).trace := by
  rw [handleWrte]
  split
  · exact (within_of_mute (.log (by simp [isMute]) s)).mpr heach
  next k hk =>
    split
    · exact (within_of_mute (.log (by simp [isMute]) s)).mpr heach
    next n hn =>
      have hadds : Adds (fun e ↦ e.isMute = true) s (s.log [.wrote n payload]) :=
        .log (by simp [isMute]) s
      have hlog := (within_of_mute hadds).mpr heach
      split_ifs
      · exact hlog
      · refine within_ack (Opened.of_same hopened (.log s _) (.log (by simp [closes]) s)) hlog _ _ ?_
        simp [hn]

include htable heach in
theorem within_handleClse (hostId : Nat) : History.Each (WithinAt maxdata) (s.handleClse hostId).trace ↔
    s.KeepsLimits maxdata (.clse hostId) := by
  rw [handleClse, KeepsLimits]
  cases hk : s.get hostId with
  | none => simpa using heach
  | some k =>
    have hbook : ∀ e : Entry, e.isBook = true → e.isMute = true := fun e ↦ isMute_of_isBook
    have hclose : Adds (fun e ↦ e.isMute = true ∧ e.closes k = false) s
        ((s.modify k fun st ↦ { st with closing := true }).closeBackend (s.states k).backend) :=
      Adds.trans (t := s.modify k fun st ↦ { st with closing := true }) (.of_trace (by simp [modify]))
        (.closeBackend (fun e he ↦ ⟨hbook e he, by cases e <;> simp_all [isBook, closes]⟩) _ _)
    have hclosed : (∀ e ∈ ((s.modify k fun st ↦ { st with closing := true }).closeBackend
        (s.states k).backend).trace, e.closes k = false) ↔ ¬ s.Closed k := by
      obtain ⟨es, htrace, hes⟩ := hclose
      rw [htrace, not_closed_iff]
      refine ⟨fun h e he ↦ h e (List.mem_append_left _ he), fun h e he ↦ ?_⟩
      rcases List.mem_append.mp he with he | he
      · exact h e he
      · exact (hes e he).2
    dsimp only
    rw [beginClose, if_neg (by simp [(htable.keys _ k hk).2.2])]
    rw [within_of_mute (.finishStream hbook _ _ _), log_trace, History.each_snoc, withinAt_clse,
      within_of_mute (hclose.imp fun e he ↦ he.1), hclosed]
    refine ⟨fun h j hj ↦ ?_, fun h ↦ ⟨heach, h k (by rfl)⟩⟩
    cases hj
    exact h.2

/-- On a stream whose window is closed chunks only wait. -/
theorem within_onDatas_of_not_ready (h : Buffers s) {k : Nat} (chunks : List Chunk)
    (hbackend : (s.states k).backend ≠ none) (hready : (s.states k).writeReady = false) :
    History.Each (WithinAt maxdata) (s.onDatas k chunks).trace ↔
      History.Each (WithinAt maxdata) s.trace := by
  induction chunks generalizing s with
  | nil => simp [onDatas]
  | cons chunk chunks ih =>
    have hsame := SameTable.onData s k chunk
    rw [onDatas, List.foldl_cons, ← onDatas, ih (h.onData hbackend chunk) (by rwa [hsame.backend])
      (onData_of_not_ready hready chunk).2, within_onData h]
    simp [hready]

/-- Of the chunks that come one after the other only the first is sent. -/
theorem within_onDatas (h : Buffers s) {k : Nat} (chunks : List Chunk)
    (hbackend : (s.states k).backend ≠ none) (hready : (s.states k).writeReady = true) :
    History.Each (WithinAt maxdata) (s.onDatas k chunks).trace ↔
      History.Each (WithinAt maxdata) s.trace ∧
        ∀ chunk, chunks.head? = some chunk → ¬ s.Closed k ∧ chunk.length ≤ maxdata := by
  cases chunks with
  | nil => simp [onDatas]
  | cons chunk chunks =>
    have hsame := SameTable.onData s k chunk
    rw [onDatas, List.foldl_cons, ← onDatas,
      within_onDatas_of_not_ready (h.onData hbackend chunk) chunks (by rwa [hsame.backend])
        (onData_of_ready hready (h.ready k hready).2 chunk).2, within_onData h]
    simp [hready]

theorem closed_onDatas (k j : Nat) (chunks : List Chunk) :
    (s.onDatas k chunks).Closed j ↔ s.Closed j := by
  obtain ⟨es, htrace, hes⟩ := Adds.onDatas (p := fun e ↦ e.closes j = false)
    (fun _ _ ↦ by simp [closes]) (fun _ ↦ by simp [closes]) s chunks (k := k)
  rw [← not_iff_not, not_closed_iff, not_closed_iff, htrace]
  refine ⟨fun h e he ↦ h e (List.mem_append_left _ he), fun h e he ↦ ?_⟩
  rcases List.mem_append.mp he with he | he
  · exact h e he
  · exact hes e he

/-- The OKAY of an OPEN comes after what the backend does inside `streamFrom`. -/
theorem within_callBack (h : Buffers s) {k : Nat} (hbackend : (s.states k).backend ≠ none)
    (hready : (s.states k).writeReady = true) (hclosing : (s.states k).closing = false)
    (early : List Chunk) (ends : Bool) (hostId : Nat) (service : String) :
    History.Each (WithinAt maxdata) ((s.callBack k early ends).log
        [.send (some k) .opening (.okay k hostId), .onOpen service]).trace ↔
      History.Each (WithinAt maxdata) s.trace ∧ ¬ s.Closed k ∧ ends = false ∧
        ∀ chunk, early.head? = some chunk → chunk.length ≤ maxdata := by
  have hsplit : ∀ u : StreamMux, (u.log [.send (some k) .opening (.okay k hostId), .onOpen service]).trace =
      (u.log [.send (some k) .opening (.okay k hostId)]).trace ++ [.onOpen service] := by
    intro u
    simp
  have hmute : ∀ tr : List Entry, History.Each (WithinAt maxdata) (tr ++ [.onOpen service]) ↔
      History.Each (WithinAt maxdata) tr := fun tr ↦
    History.each_append_of_forall fun e he pre ↦ withinAt_of_isMute (by simp_all [isMute]) pre
  rw [hsplit, hmute, log_trace, History.each_snoc, withinAt_okay (by simp), ← not_closed_iff, callBack]
  cases ends with
  | false =>
    rw [if_neg (by simp), within_onDatas h early hbackend hready, closed_onDatas]
    constructor
    · rintro ⟨⟨heach, hhead⟩, hclosed⟩
      exact ⟨heach, hclosed, by rfl, fun chunk hchunk ↦ (hhead chunk hchunk).2⟩
    · rintro ⟨heach, hclosed, -, hhead⟩
      exact ⟨⟨heach, fun chunk hchunk ↦ ⟨hclosed, hhead chunk hchunk⟩⟩, hclosed⟩
  | true =>
    have hnot := (SameTable.onDatas s k early).closing k
    rw [hclosing] at hnot
    refine ⟨fun h ↦ absurd ?_ h.2, fun h ↦ by simp at h⟩
    rw [if_pos (by rfl), onEnd, beginClose, if_neg (by simp [hnot])]
    obtain ⟨es, htrace, -⟩ := Adds.finishStream (p := fun _ ↦ True) (fun _ _ ↦ trivial)
      ((((s.onDatas k early).modify k fun st ↦ { st with closing := true }).closeBackend
        ((s.onDatas k early).states k).backend).log
        [.send (some k) .backendEnded (.clse (if ((s.onDatas k early).states k).backend = none then 0
          else k) ((s.onDatas k early).states k).hostId)]) k "closed"
    refine ⟨_, ?_, show closes k (.send (some k) .backendEnded (.clse (if
      ((s.onDatas k early).states k).backend = none then 0 else k)
      ((s.onDatas k early).states k).hostId)) = true by simp [closes]⟩
    rw [htrace]
    simp

theorem within_resolved (htable : Table s) (hbuffers : Buffers s)
    (heach : History.Each (WithinAt maxdata) s.trace) (n : Nat) (early : List Chunk) (ends : Bool) :
    History.Each (WithinAt maxdata) (s.resolved n early ends).trace ↔
      s.KeepsLimits maxdata (.resolved n early ends) := by
  have hreturned : SameBuffers s
      { s with pending := s.pending.erase n, trace := s.trace ++ [Entry.returned n] } :=
    ⟨⟨[.returned n], by simp, by simp [moves]⟩, by simp, by simp, by simp⟩
  have hsnoc : History.Each (WithinAt maxdata) (s.trace ++ [Entry.returned n]) :=
    (History.each_append_of_forall fun e he pre ↦ withinAt_of_isMute (by simp_all [isMute]) pre).mpr
      heach
  have hclose : ∀ u : StreamMux, History.Each (WithinAt maxdata) (u.closeBackend (some n)).trace ↔
      History.Each (WithinAt maxdata) u.trace :=
    fun u ↦ within_of_mute (.closeBackend (fun e ↦ isMute_of_isBook) _ _)
  rw [resolved, KeepsLimits]
  have hget : StreamMux.get { s with pending := s.pending.erase n, trace := s.trace ++ [Entry.returned n] }
      (s.states n).hostId = s.get (s.states n).hostId := by simp [get]
  rw [hget]
  cases hk : s.get (s.states n).hostId with
  | none =>
    rw [hclose]
    simpa using hsnoc
  | some k =>
    dsimp only
    rw [attach]
    by_cases hbackend : (s.states k).backend = none
    · have hattached := (hbuffers.of_same hreturned).give (k := k) hbackend n
      rw [if_neg (by simpa using hbackend), within_callBack hattached (by simp [give_states])
        (by simp [give_states]) (by simpa [give_states] using (htable.keys _ k hk).2.2)]
      have hclosed : Closed (give { s with
          pending := s.pending.erase n, trace := s.trace ++ [Entry.returned n] } n k) k ↔ s.Closed k := by
        simp [Closed, closes]
      rw [give_trace, hclosed]
      refine ⟨fun h j hj _ ↦ ?_, fun h ↦ ⟨hsnoc, h k (by rfl) hbackend⟩⟩
      cases hj
      exact h.2
    · rw [if_pos hbackend, hclose]
      refine ⟨fun _ j hj hnone ↦ absurd ?_ hbackend, fun _ ↦ hsnoc⟩
      cases hj
      exact hnone

end Step

/-- **One step** keeps the limits exactly if it meets the guard. -/
theorem within_step (htable : Table s) (hbuffers : Buffers s) (hopened : Opened s)
    (heach : History.Each (WithinAt maxdata) s.trace) {e : MuxEvent}
    (hstep : s.step maxStreams e = some t) :
    History.Each (WithinAt maxdata) t.trace ↔ s.KeepsLimits maxdata e := by
  have hbook : ∀ e : Entry, e.isBook = true → e.isMute = true := fun e ↦ isMute_of_isBook
  cases e with
  | open_ hostId payload =>
    cases hstep
    refine iff_of_true ((within_of_mute ?_).mpr heach) trivial
    rw [handleOpen]
    split
    · exact .log (by simp [isMute]) s
    · exact ⟨_, by rfl, by simp [isMute]⟩
  | okay hostId =>
    cases hstep
    exact within_handleOkay hbuffers hopened heach hostId
  | wrte hostId payload defers =>
    cases hstep
    exact iff_of_true (within_handleWrte hopened heach _ _ _) trivial
  | clse hostId =>
    cases hstep
    exact within_handleClse htable heach hostId
  | other =>
    cases hstep
    exact iff_of_true heach trivial
  | resolved n early ends =>
    obtain ⟨-, ⟨⟩⟩ := Option.ite_none_right_eq_some.mp hstep
    exact within_resolved htable hbuffers heach n early ends
  | rejected n =>
    obtain ⟨-, ⟨⟩⟩ := Option.ite_none_right_eq_some.mp hstep
    refine iff_of_true ((within_of_mute ?_).mpr heach) trivial
    exact Adds.trans (Adds.trans (t := { s with pending := s.pending.erase n }) (.of_trace (by simp))
      (.delete hbook _ _ _)) (.log (by simp [isMute]) _)
  | data n chunk =>
    obtain ⟨k, hk, rfl⟩ := Option.map_eq_some_iff.mp hstep
    rw [within_onData hbuffers, KeepsLimits, hk]
    simp [heach]
  | ended n =>
    obtain ⟨k, -, rfl⟩ := Option.map_eq_some_iff.mp hstep
    exact iff_of_true
      ((within_of_mute (.beginClose hbook (fun _ _ ↦ by simp [isMute]) _ _)).mpr heach) trivial
  | settled hostId k =>
    obtain ⟨hk, ⟨⟩⟩ := Option.ite_none_right_eq_some.mp hstep
    have hsettled : Opened { s with deferred := s.deferred.erase (hostId, k) } := hopened
    exact iff_of_true (within_ack hsettled heach hostId k (htable.deferred hostId k hk)) trivial
  | closeAll reason =>
    cases hstep
    exact iff_of_true ((within_of_mute (.closeAll hbook _ _)).mpr heach) trivial

/-- A backend delivers one chunk of a byte more than the smallest `maxdata`. -/
def long : List MuxEvent :=
  [.open_ 1 "shell:cat", .resolved 1 [] false, .data 1 (List.replicate 4097 0)]

end StreamMux

end Enkaku.Adb
