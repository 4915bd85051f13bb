import Enkaku.Adb.MuxTable
import Enkaku.Lib.History

/-!
# Device output through the stream mux

What a backend delivers to a stream and what is written to the host for it.  At any time the chunks
delivered are those written and those in the outbox, in this order, and at most one WRTE of a stream
waits for its OKAY (`Buffers`).  So what is written is always a prefix of what was delivered; but a
backend that ends has the stream closed at once, with whatever is in the outbox
(`lossless_iff`).
-/

set_option autoImplicit false

namespace Enkaku.Adb

open List

open Entry

/-! ## Reading the trace -/

/-- The chunk of an `onData` on the stream. -/
def Entry.took? (k : Nat) : Entry → Option Chunk
  | .took j chunk => if j = k then some chunk else none
  | _ => none

/-- The payload of a WRTE of the stream. -/
def Entry.wrote? (k : Nat) : Entry → Option Chunk
  | .send _ _ (.wrte j _ data) => if j = k then some data else none
  | _ => none

/-- The chunks delivered to a stream. -/
def took (k : Nat) (tr : List Entry) : List Chunk := tr.filterMap (Entry.took? k)

/-- The payloads written to the host for a stream. -/
def written (k : Nat) (tr : List Entry) : List Chunk := tr.filterMap (Entry.wrote? k)

/-- One entry's part in the number of WRTEs that wait for an OKAY. -/
def Entry.unacked (k : Nat) (n : Nat) : Entry → Nat
  | .send _ _ (.wrte j _ _) => if j = k then n + 1 else n
  | .acked j => if j = k then n - 1 else n
  | _ => n

/-- The WRTEs of a stream that the host has not acknowledged. -/
def unacked (k : Nat) (tr : List Entry) : Nat := tr.foldl (Entry.unacked k) 0

/-- The entries that concern a stream's buffers. -/
def Entry.moves : Entry → Bool
  | .took .. | .acked _ | .send _ _ (.wrte ..) => true
  | _ => false

/-- A CLSE that `beginClose` sends because the backend has ended. -/
def Entry.isEnd : Entry → Bool
  | .send _ .backendEnded _ => true
  | _ => false

/-- **No output is lost**: what is written is a prefix of what was delivered, and where a stream is
closed because its backend ended it is all of it, no chunk being left in the outbox. -/
structure Lossless (tr : List Entry) : Prop where
  inOrder : ∀ k, (written k tr).flatten <+: (took k tr).flatten
  whole : ∀ pre k frame post, tr = pre ++ .send (some k) .backendEnded frame :: post →
    written k pre = took k pre

theorem Entry.moves_of_isBook {e : Entry} (h : e.isBook = true) : e.moves = false := by
  cases e <;> simp_all [isBook, moves]

section Trace

variable {k : Nat} {tr es : List Entry}

@[simp] theorem took_append : took k (tr ++ es) = took k tr ++ took k es := filterMap_append

@[simp] theorem written_append : written k (tr ++ es) = written k tr ++ written k es :=
  filterMap_append

@[simp] theorem took_singleton (e : Entry) : took k [e] = (e.took? k).toList := by
  rw [took, filterMap_cons]
  cases e.took? k <;> simp

@[simp] theorem written_singleton (e : Entry) : written k [e] = (e.wrote? k).toList := by
  rw [written, filterMap_cons]
  cases e.wrote? k <;> simp

@[simp] theorem unacked_snoc (e : Entry) : unacked k (tr ++ [e]) = Entry.unacked k (unacked k tr) e := by
  rw [unacked, foldl_append, foldl_cons, foldl_nil, ← unacked]

theorem took_of_moves (h : ∀ e ∈ es, e.moves = false) : took k es = [] := by
  refine filterMap_eq_nil_iff.mpr fun e he ↦ ?_
  have hmoves := h e he
  unfold moves at hmoves
  unfold took?
  split at hmoves <;> simp_all

theorem written_of_moves (h : ∀ e ∈ es, e.moves = false) : written k es = [] := by
  refine filterMap_eq_nil_iff.mpr fun e he ↦ ?_
  have hmoves := h e he
  unfold moves at hmoves
  unfold wrote?
  split at hmoves <;> simp_all

theorem unacked_append_of_moves (h : ∀ e ∈ es, e.moves = false) :
    unacked k (tr ++ es) = unacked k tr := by
  rw [unacked, foldl_append, ← unacked]
  induction es with
  | nil => simp
  | cons e es ih =>
    have hmoves := h e (.head _)
    rw [foldl_cons]
    have hsame : Entry.unacked k (unacked k tr) e = unacked k tr := by
      unfold Entry.moves at hmoves
      unfold Entry.unacked
      split at hmoves <;> simp_all
    rw [hsame]
    exact ih fun e' he' ↦ h e' (.tail _ he')

theorem unacked_le_length_written : unacked k tr ≤ (written k tr).length := by
  induction tr using List.reverseRecOn with
  | nil => simp [unacked]
  | append_singleton tr e ih =>
    rw [unacked_snoc, written_append, length_append, written_singleton]
    cases e with
    | send about cause frame =>
      cases frame with
      | wrte j hostId data =>
        by_cases hj : j = k
        · simpa [Entry.unacked, Entry.wrote?, hj] using ih
        · simpa [Entry.unacked, Entry.wrote?, hj] using ih
      | _ => exact Nat.le_add_right_of_le ih
    | acked j =>
      simp only [Entry.unacked]
      split_ifs <;> omega
    | _ => exact Nat.le_add_right_of_le ih

end Trace

namespace StreamMux

variable {s t u : StreamMux}

/-! ## Operations that move no chunk -/

/-- Neither the buffers nor the windows have changed. -/
structure SameBuffers (s t : StreamMux) : Prop where
  adds : Adds (fun e ↦ e.moves = false) s t
  outbox : ∀ k, (t.states k).outbox = (s.states k).outbox
  writeReady : ∀ k, (t.states k).writeReady = (s.states k).writeReady
  backend : ∀ k, (t.states k).backend = (s.states k).backend

namespace SameBuffers

theorem refl (s : StreamMux) : SameBuffers s s := ⟨.refl s, by simp, by simp, by simp⟩

theorem trans (h : SameBuffers s t) (h' : SameBuffers t u) : SameBuffers s u where
  adds := h.adds.trans h'.adds
  outbox k := (h'.outbox k).trans (h.outbox k)
  writeReady k := (h'.writeReady k).trans (h.writeReady k)
  backend k := (h'.backend k).trans (h.backend k)

variable (s : StreamMux)

theorem log {es : List Entry} (h : ∀ e ∈ es, e.moves = false) :
    SameBuffers s (s.log es) := ⟨.log h s, by simp, by simp, by simp⟩

theorem closeBackend (b : Option Nat) : SameBuffers s (s.closeBackend b) :=
  ⟨.closeBackend (fun e he ↦ moves_of_isBook he) s b, by simp, by simp, by simp⟩

theorem delete (hostId by_ : Nat) : SameBuffers s (s.delete hostId by_) :=
  ⟨.delete (fun e he ↦ moves_of_isBook he) s _ _, by simp, by simp, by simp⟩

theorem beginClose (k : Nat) (cause : Cause) (reason : String) :
    SameBuffers s (s.beginClose k cause reason) := by
  have hfields : ∀ j, ((s.beginClose k cause reason).states j).outbox = (s.states j).outbox ∧
      ((s.beginClose k cause reason).states j).writeReady = (s.states j).writeReady ∧
      ((s.beginClose k cause reason).states j).backend = (s.states j).backend := by
    intro j
    rw [beginClose_states]
    split_ifs with hj <;> simp [hj]
  exact ⟨.beginClose (fun e he ↦ moves_of_isBook he) (fun _ _ ↦ by simp [moves]) s reason,
    fun j ↦ (hfields j).1, fun j ↦ (hfields j).2.1, fun j ↦ (hfields j).2.2⟩

theorem ack (hostId k : Nat) : SameBuffers s (s.ack hostId k) := by
  rw [StreamMux.ack]
  split
  · exact log s (by simp [moves])
  · exact refl s

theorem handleWrte (hostId : Nat) (payload : Chunk) (defers : Bool) :
    SameBuffers s (s.handleWrte hostId payload defers) := by
  rw [StreamMux.handleWrte]
  split
  · exact log s (by simp [moves])
  · split
    · exact log s (by simp [moves])
    next n _ =>
      have hlog : SameBuffers s (s.log [.wrote n payload]) := log s (by simp [moves])
      split_ifs
      · exact ⟨hlog.adds, hlog.outbox, hlog.writeReady, hlog.backend⟩
      · exact hlog.trans (ack _ _ _)

theorem rejected (n : Nat) : SameBuffers s (s.rejected n) :=
  (trans (s := s) ⟨⟨[], by simp, by simp⟩, by simp, by simp, by simp⟩ (delete _ _ _)).trans
    (log _ (by simp [moves]))

theorem settled (hostId k : Nat) : SameBuffers s (s.settled hostId k) :=
  trans (s := s) ⟨⟨[], by simp, by simp⟩, by simp, by simp, by simp⟩ (ack _ _ _)

theorem closeAll (reason : String) : SameBuffers s (s.closeAll reason) := by
  rw [StreamMux.closeAll]
  generalize s.streams.map (·.2) = ks
  induction ks generalizing s with
  | nil => exact refl s
  | cons k ks ih =>
    refine trans ?_ (ih _)
    have hclose := closeBackend s (s.states k).backend
    refine trans (t := { s.closeBackend (s.states k).backend with
      streams := OrdMap.erase (s.states k).hostId s.streams })
      ⟨hclose.adds, hclose.outbox, hclose.writeReady, hclose.backend⟩ (log _ (by simp [moves]))

end SameBuffers

/-! ## The buffers -/

/-- The chunks of a stream are accounted for, and its window is kept. -/
structure Buffers (s : StreamMux) : Prop where
  taken : ∀ k, took k s.trace = written k s.trace ++ (s.states k).outbox
  idle : ∀ k, (s.states k).backend = none → took k s.trace = []
  ready : ∀ k, (s.states k).writeReady = true → unacked k s.trace = 0 ∧ (s.states k).outbox = []
  window : ∀ k, unacked k s.trace ≤ 1

namespace Buffers

theorem of_same (h : Buffers s) (hst : SameBuffers s t) : Buffers t := by
  obtain ⟨⟨es, htrace, hes⟩, houtbox, hready, hbackend⟩ := hst
  refine ⟨fun k ↦ ?_, fun k hk ↦ ?_, fun k hk ↦ ?_, fun k ↦ ?_⟩
  · rw [htrace, took_append, written_append, took_of_moves hes, written_of_moves hes, append_nil,
      append_nil, houtbox]
    exact h.taken k
  · rw [hbackend] at hk
    rw [htrace, took_append, took_of_moves hes, append_nil]
    exact h.idle k hk
  · rw [hready] at hk
    rw [htrace, unacked_append_of_moves hes, houtbox]
    exact h.ready k hk
  · rw [htrace, unacked_append_of_moves hes]
    exact h.window k

theorem init : Buffers StreamMux.init := by
  constructor <;> simp [StreamMux.init, took, written, unacked]

/-- A stream that has no backend yet has no chunks. -/
theorem unopened (h : Buffers s) {k : Nat} (hk : (s.states k).backend = none) :
    written k s.trace = [] ∧ (s.states k).outbox = [] ∧ unacked k s.trace = 0 := by
  have htook := h.idle k hk
  rw [h.taken k] at htook
  obtain ⟨hwritten, houtbox⟩ := append_eq_nil_iff.mp htook
  have hle : unacked k s.trace ≤ (written k s.trace).length := unacked_le_length_written
  rw [hwritten] at hle
  exact ⟨hwritten, houtbox, Nat.le_zero.mp hle⟩

/-- `pump` makes up for a window that has opened, or a chunk that has come, on one stream. -/
theorem pump {k : Nat} (htaken : ∀ j, took j s.trace = written j s.trace ++ (s.states j).outbox)
    (hidle : ∀ j, (s.states j).backend = none → took j s.trace = [])
    (hready : ∀ j, (s.states j).writeReady = true → unacked j s.trace = 0 ∧
      (j ≠ k → (s.states j).outbox = []))
    (hwindow : ∀ j, unacked j s.trace ≤ 1) : Buffers (s.pump k) := by
  rw [StreamMux.pump]
  split_ifs with hk
  · split
    next houtbox =>
      refine ⟨htaken, hidle, fun j hj ↦ ⟨(hready j hj).1, ?_⟩, hwindow⟩
      by_cases hjk : j = k
      · rw [hjk, houtbox]
      · exact (hready j hj).2 hjk
    next chunk rest houtbox =>
      refine ⟨fun j ↦ ?_, fun j hj ↦ ?_, fun j hj ↦ ?_, fun j ↦ ?_⟩
      · have hj := htaken j
        simp only [log_trace, log_states, modify_states]
        by_cases hjk : j = k
        · subst hjk
          rw [houtbox] at hj
          simpa [took?, wrote?, modify] using hj
        · simpa [took?, wrote?, modify, hjk, Ne.symm hjk] using hj
      · have hbackend : (s.states j).backend = none := by
          rw [log_states, modify_states] at hj
          split_ifs at hj with hjk
          · exact hjk ▸ hj
          · exact hj
        simpa [took?, modify] using hidle j hbackend
      · rw [log_states, modify_states] at hj
        split_ifs at hj with hjk
        have hzero := hready j hj
        rw [log_states, modify_states, if_neg hjk]
        refine ⟨?_, hzero.2 hjk⟩
        simpa [Entry.unacked, modify, Ne.symm hjk] using hzero.1
      · have hj := hwindow j
        by_cases hjk : j = k
        · subst hjk
          simp [Entry.unacked, modify, (hready j hk).1]
        · simpa [Entry.unacked, modify, Ne.symm hjk] using hj
  · refine ⟨htaken, hidle, fun j hj ↦ ⟨(hready j hj).1, ?_⟩, hwindow⟩
    exact (hready j hj).2 fun hjk ↦ hk (hjk ▸ hj)

/-- A chunk comes to a stream that has a backend. -/
theorem onData (h : Buffers s) {k : Nat} (hk : (s.states k).backend ≠ none) (chunk : Chunk) :
    Buffers (s.onData k chunk) := by
  refine pump (fun j ↦ ?_) (fun j hj ↦ ?_) (fun j hj ↦ ?_) fun j ↦ ?_
  · have hj := h.taken j
    by_cases hjk : j = k
    · subst hjk
      simp [took?, wrote?, modify, hj]
    · simpa [took?, wrote?, modify, hjk, Ne.symm hjk] using hj
  · rw [log_states, modify_states] at hj
    split_ifs at hj with hjk
    · exact absurd hj hk
    · simpa [took?, modify, Ne.symm hjk] using h.idle j hj
  · rw [log_states, modify_states] at hj
    rw [log_states, modify_states]
    by_cases hjk : j = k
    · subst hjk
      rw [if_pos (by rfl)] at hj
      simpa [Entry.unacked, modify] using (h.ready j hj).1
    · rw [if_neg hjk] at hj
      rw [if_neg hjk]
      simpa [Entry.unacked, modify, hjk] using h.ready j hj
  · simpa [Entry.unacked, modify] using h.window j

theorem onDatas {k : Nat} (chunks : List Chunk) (h : Buffers s) (hk : (s.states k).backend ≠ none) :
    Buffers (s.onDatas k chunks) := by
  induction chunks generalizing s with
  | nil => exact h
  | cons chunk chunks ih =>
    refine ih (h.onData hk chunk) ?_
    rw [(SameTable.onData s k chunk).backend]
    exact hk

section

variable (h : Buffers s)
include h

theorem handleOkay (hostId : Nat) : Buffers (s.handleOkay hostId) := by
  rw [StreamMux.handleOkay]
  split
  · exact h
  next k _ =>
    refine pump (fun j ↦ ?_) (fun j hj ↦ ?_) (fun j hj ↦ ?_) fun j ↦ ?_
    · have hj := h.taken j
      rw [log_states, modify_states]
      split_ifs with hjk
      · subst hjk
        simpa [took?, wrote?, modify] using hj
      · simpa [took?, wrote?, modify] using hj
    · have hbackend : (s.states j).backend = none := by
        rw [log_states, modify_states] at hj
        split_ifs at hj with hjk
        · exact hjk ▸ hj
        · exact hj
      simpa [took?, modify] using h.idle j hbackend
    · rw [log_states, modify_states] at hj ⊢
      by_cases hjk : j = k
      · subst hjk
        have hle := h.window j
        refine ⟨?_, by simp⟩
        simp only [log_trace, unacked_snoc, Entry.unacked, modify, if_true]
        omega
      · rw [if_neg hjk] at hj
        have hzero := h.ready j hj
        rw [if_neg hjk]
        refine ⟨?_, fun _ ↦ hzero.2⟩
        simpa [Entry.unacked, modify, Ne.symm hjk] using hzero.1
    · have hle := h.window j
      simp only [log_trace, unacked_snoc, Entry.unacked, modify]
      split_ifs <;> omega

theorem handleOpen (htable : Table s) (maxStreams hostId : Nat) (payload : String) :
    Buffers (s.handleOpen maxStreams hostId payload) := by
  rw [StreamMux.handleOpen]
  split_ifs
  · exact h.of_same (.log s (by simp [moves]))
  · obtain ⟨hwritten, houtbox, -⟩ := h.unopened (htable.fresh _ (le_rfl)).1
    have hnone := h.idle _ (htable.fresh _ (le_rfl)).1
    refine ⟨fun j ↦ ?_, fun j hj ↦ ?_, fun j hj ↦ ?_, fun j ↦ ?_⟩
    · have hj := h.taken j
      by_cases hjk : j = s.nextOurId
      · subst hjk
        simp [took?, wrote?, hwritten, hnone]
      · simpa [took?, wrote?, hjk] using hj
    · by_cases hjk : j = s.nextOurId
      · subst hjk
        simpa [took?] using hnone
      · simpa [took?] using h.idle j (by simpa [hjk] using hj)
    · by_cases hjk : j = s.nextOurId
      · simp [hjk] at hj
      · simpa [Entry.unacked, hjk] using h.ready j (by simpa [hjk] using hj)
    · simpa [Entry.unacked] using h.window j

theorem give {k : Nat} (hk : (s.states k).backend = none) (n : Nat) : Buffers (s.give n k) := by
  obtain ⟨-, houtbox, hunacked⟩ := h.unopened hk
  refine ⟨fun j ↦ ?_, fun j hj ↦ ?_, fun j hj ↦ ?_, h.window⟩
  · have hj := h.taken j
    rw [give_states, give_trace]
    split_ifs with hjk
    · exact hjk ▸ hj
    · exact hj
  · rw [give_states] at hj
    split_ifs at hj
    exact h.idle j hj
  · rw [give_states] at hj ⊢
    split_ifs at hj ⊢ with hjk
    · subst hjk
      exact ⟨hunacked, houtbox⟩
    · exact h.ready j hj

theorem callBack {k : Nat} (hk : (s.states k).backend ≠ none) (early : List Chunk)
    (ends : Bool) : Buffers (s.callBack k early ends) := by
  rw [StreamMux.callBack]
  split_ifs
  · exact (h.onDatas early hk).of_same (.beginClose _ _ _ _)
  · exact h.onDatas early hk

theorem resolved (n : Nat) (early : List Chunk) (ends : Bool) : Buffers (s.resolved n early ends) := by
  have hreturned : Buffers { s with pending := s.pending.erase n, trace := s.trace ++ [Entry.returned n] } :=
    h.of_same ⟨⟨[.returned n], by simp, by simp [moves]⟩, by simp, by simp, by simp⟩
  rw [StreamMux.resolved]
  split
  · exact hreturned.of_same (.closeBackend _ _)
  next k hk =>
    rw [attach]
    split_ifs with hbackend
    · exact hreturned.of_same (.closeBackend _ _)
    · exact ((hreturned.give (not_not.mp hbackend) n).callBack (by simp [give_states]) early ends).of_same
        (.log _ (by simp [moves]))

/-- **Every step accounts for the chunks.** -/
theorem step (htable : Table s) {maxStreams : Nat} {e : MuxEvent}
    (hstep : s.step maxStreams e = some t) : Buffers t := by
  cases e with
  | open_ hostId payload =>
    cases hstep
    exact h.handleOpen htable _ _ _
  | okay hostId =>
    cases hstep
    exact h.handleOkay _
  | wrte hostId payload defers =>
    cases hstep
    exact h.of_same (.handleWrte _ _ _ _)
  | clse hostId =>
    cases hstep
    rw [handleClse]
    split
    · exact h
    · exact h.of_same (.beginClose _ _ _ _)
  | other =>
    cases hstep
    exact h
  | resolved n early ends =>
    obtain ⟨-, ⟨⟩⟩ := Option.ite_none_right_eq_some.mp hstep
    exact h.resolved _ _ _
  | rejected n =>
    obtain ⟨-, ⟨⟩⟩ := Option.ite_none_right_eq_some.mp hstep
    exact h.of_same (.rejected _ _)
  | data n chunk =>
    obtain ⟨k, hk, rfl⟩ := Option.map_eq_some_iff.mp hstep
    exact h.onData (by simp [(htable.handlers n k hk).2.2]) _
  | ended n =>
    obtain ⟨k, -, rfl⟩ := Option.map_eq_some_iff.mp hstep
    exact h.of_same (.beginClose _ _ _ _)
  | settled hostId k =>
    obtain ⟨-, ⟨⟩⟩ := Option.ite_none_right_eq_some.mp hstep
    exact h.of_same (.settled _ _ _)
  | closeAll reason =>
    cases hstep
    exact h.of_same (.closeAll _ _)

end

end Buffers

/-! ## Ends -/

/-- What is asked of an entry: where the backend's end closes a stream, all that was delivered to it
is written. -/
def WholeAt (pre : List Entry) (e : Entry) : Prop :=
  ∀ k frame, e = .send (some k) .backendEnded frame → written k pre = took k pre

theorem Buffers.each_iff (h : Buffers s) : Lossless s.trace ↔ History.Each WholeAt s.trace := by
  constructor
  · rintro h' pre e post heq k frame rfl
    exact h'.whole pre k frame post heq
  · refine fun heach ↦ ⟨fun k ↦ ?_, fun pre k frame post heq ↦ heach pre _ post heq k frame (by rfl)⟩
    rw [h.taken k, flatten_append]
    exact prefix_append _ _

/-- A step that closes no stream for its backend loses nothing. -/
theorem each_of_adds (h : Adds (fun e ↦ e.isEnd = false) s t) :
    History.Each WholeAt t.trace ↔ History.Each WholeAt s.trace := by
  obtain ⟨es, htrace, hes⟩ := h
  rw [htrace]
  refine History.each_append_of_forall fun e he pre k frame heq ↦ ?_
  have hend := hes e he
  rw [heq] at hend
  simp [isEnd] at hend

theorem Entry.isEnd_of_isBook {e : Entry} (h : e.isBook = true) : e.isEnd = false := by
  cases e <;> simp_all [isBook, isEnd]

/-- **The end of a backend** loses nothing exactly if the stream has closed before or no chunk is in
the outbox. -/
theorem each_onEnd (h : Buffers s) (k : Nat) : History.Each WholeAt (s.onEnd k).trace ↔
    History.Each WholeAt s.trace ∧ ((s.states k).closing = false → (s.states k).outbox = []) := by
  have hbook : ∀ e : Entry, e.isBook = true → e.isEnd = false := fun e ↦ Entry.isEnd_of_isBook
  rw [onEnd, beginClose]
  by_cases hclosing : (s.states k).closing = true
  · rw [if_pos hclosing, each_of_adds (.finishStream hbook s k _)]
    simp [hclosing]
  · rw [if_neg hclosing]
    rw [each_of_adds (.finishStream hbook _ _ _), log_trace, History.each_snoc,
      each_of_adds (.closeBackend hbook _ _)]
    have hclose : Adds (fun e ↦ e.moves = false) s
        ((s.modify k fun st ↦ { st with closing := true }).closeBackend (s.states k).backend) :=
      Adds.trans (t := s.modify k fun st ↦ { st with closing := true }) (.of_trace (by simp [modify]))
        (.closeBackend (fun e ↦ moves_of_isBook) _ _)
    obtain ⟨es, htrace, hes⟩ := hclose
    refine and_congr (by simp [modify]) ?_
    have htaken := h.taken k
    simp only [htrace, WholeAt, hclosing]
    constructor
    · intro hwhole _
      have hk := hwhole k _ (by rfl)
      rw [took_append, written_append, took_of_moves hes, written_of_moves hes, htaken] at hk
      simpa using hk
    · intro hempty j frame heq
      obtain ⟨rfl, -⟩ : k = j ∧ _ = frame := by simpa using heq
      rw [took_append, written_append, took_of_moves hes, written_of_moves hes, htaken,
        hempty (by simp)]
      simp

/-! ## A backend that calls back from inside `streamFrom` -/

theorem onData_of_not_ready {k : Nat} (hk : (s.states k).writeReady = false) (chunk : Chunk) :
    ((s.onData k chunk).states k).outbox = (s.states k).outbox ++ [chunk] ∧
      ((s.onData k chunk).states k).writeReady = false := by
  simp [onData, pump, hk]

theorem onData_of_ready {k : Nat} (hk : (s.states k).writeReady = true)
    (houtbox : (s.states k).outbox = []) (chunk : Chunk) :
    ((s.onData k chunk).states k).outbox = [] ∧ ((s.onData k chunk).states k).writeReady = false := by
  simp [onData, pump, hk, houtbox]

theorem onDatas_of_not_ready {k : Nat} (chunks : List Chunk) (hk : (s.states k).writeReady = false) :
    ((s.onDatas k chunks).states k).outbox = (s.states k).outbox ++ chunks := by
  induction chunks generalizing s with
  | nil => simp [onDatas]
  | cons chunk chunks ih =>
    obtain ⟨houtbox, hready⟩ := onData_of_not_ready hk chunk
    rw [onDatas, foldl_cons, ← onDatas, ih hready, houtbox, append_assoc, singleton_append]

/-- All but the first of the chunks wait. -/
theorem onDatas_of_ready {k : Nat} (chunks : List Chunk) (hk : (s.states k).writeReady = true)
    (houtbox : (s.states k).outbox = []) : ((s.onDatas k chunks).states k).outbox = chunks.tail := by
  cases chunks with
  | nil => simpa [onDatas] using houtbox
  | cons chunk chunks =>
    obtain ⟨hnil, hready⟩ := onData_of_ready hk houtbox chunk
    rw [onDatas, foldl_cons, ← onDatas, onDatas_of_not_ready chunks hready, hnil, nil_append, tail_cons]

theorem each_callBack (h : Buffers s) {k : Nat} (hk : (s.states k).backend ≠ none)
    (hready : (s.states k).writeReady = true) (hclosing : (s.states k).closing = false)
    (early : List Chunk) (ends : Bool) :
    History.Each WholeAt (s.callBack k early ends).trace ↔
      History.Each WholeAt s.trace ∧ (ends = true → early.length ≤ 1) := by
  have hadds : Adds (fun e ↦ e.isEnd = false) s (s.onDatas k early) :=
    .onDatas (fun _ _ ↦ by simp [isEnd]) (fun _ ↦ by simp [isEnd]) s early
  rw [callBack]
  cases ends with
  | false => simpa using each_of_adds hadds
  | true =>
    have hnot := (SameTable.onDatas s k early).closing k
    rw [hclosing] at hnot
    rw [if_pos (by rfl), each_onEnd (h.onDatas early hk), each_of_adds hadds,
      onDatas_of_ready early hready (h.ready k hready).2, ← length_eq_zero_iff, length_tail]
    refine and_congr_right fun _ ↦ ⟨fun hlength _ ↦ ?_, fun hlength _ ↦ ?_⟩
    · have hzero := hlength hnot
      omega
    · have hle := hlength (by rfl)
      omega

/-! ## Runs -/

/-- The step loses no output: a backend that ends leaves no chunk in the outbox of a stream that is
still to be closed, and one that ends inside `streamFrom` has called back once at most. -/
def KeepsOutput (s : StreamMux) : MuxEvent → Prop
  | .ended n => ∀ k, s.handlers n = some k → (s.states k).closing = false → (s.states k).outbox = []
  | .resolved n early true =>
    ∀ k, s.get (s.states n).hostId = some k → (s.states k).backend = none → early.length ≤ 1
  | _ => True

theorem each_resolved (h : Buffers s) (htable : Table s) (n : Nat) (early : List Chunk) (ends : Bool) :
    History.Each WholeAt (s.resolved n early ends).trace ↔
      History.Each WholeAt s.trace ∧ (ends = true → ∀ k, s.get (s.states n).hostId = some k →
        (s.states k).backend = none → early.length ≤ 1) := by
  have hreturned : SameBuffers s
      { s with pending := s.pending.erase n, trace := s.trace ++ [Entry.returned n] } :=
    ⟨⟨[.returned n], by simp, by simp [moves]⟩, by simp, by simp, by simp⟩
  have hsnoc : History.Each WholeAt (s.trace ++ [Entry.returned n]) ↔ History.Each WholeAt s.trace :=
    History.each_append_of_forall fun e he pre k frame heq ↦ by simp [heq] at he
  have hclose : ∀ u : StreamMux, History.Each WholeAt (u.closeBackend (some n)).trace ↔
      History.Each WholeAt u.trace :=
    fun u ↦ each_of_adds (.closeBackend (fun e ↦ Entry.isEnd_of_isBook) _ _)
  rw [resolved]
  have hget : StreamMux.get { s with pending := s.pending.erase n, trace := s.trace ++ [Entry.returned n] }
      (s.states n).hostId = s.get (s.states n).hostId := by simp [get]
  rw [hget]
  cases hk : s.get (s.states n).hostId with
  | none =>
    rw [hclose]
    rw [hsnoc]
    simp
  | some k =>
    dsimp only
    rw [attach]
    by_cases hbackend : (s.states k).backend = none
    · have hattached := (h.of_same hreturned).give (k := k) hbackend n
      rw [if_neg (by simpa using hbackend), each_of_adds (.log (by simp [isEnd]) _),
        each_callBack hattached (by simp [give_states]) (by simp [give_states])
          (by simpa [give_states] using (htable.keys _ k hk).2.2), give_trace]
      rw [hsnoc]
      simp [hbackend]
    · rw [if_pos hbackend, hclose]
      rw [hsnoc]
      simp [hbackend]

/-- **One step** keeps the output whole exactly if it meets the guard. -/
theorem each_step (h : Buffers s) (htable : Table s) {maxStreams : Nat} {e : MuxEvent}
    (hstep : s.step maxStreams e = some t) :
    History.Each WholeAt t.trace ↔ History.Each WholeAt s.trace ∧ s.KeepsOutput e := by
  have hbook : ∀ e : Entry, e.isBook = true → e.isEnd = false := fun e ↦ Entry.isEnd_of_isBook
  have hadds : Adds (fun e ↦ e.isEnd = false) s t → (∀ n, e ≠ .ended n) →
      (∀ n early ends, e ≠ .resolved n early ends) →
      (History.Each WholeAt t.trace ↔ History.Each WholeAt s.trace ∧ s.KeepsOutput e) := by
    intro hadds hended hresolved
    rw [each_of_adds hadds]
    cases e <;> simp_all [KeepsOutput]
  cases e with
  | ended n =>
    obtain ⟨k, hk, rfl⟩ := Option.map_eq_some_iff.mp hstep
    rw [each_onEnd h, KeepsOutput, hk]
    simp
  | resolved n early ends =>
    obtain ⟨-, ⟨⟩⟩ := Option.ite_none_right_eq_some.mp hstep
    rw [each_resolved h htable]
    cases ends <;> simp [KeepsOutput]
  | open_ hostId payload =>
    cases hstep
    refine hadds ?_ (by simp) (by simp)
    rw [handleOpen]
    split
    · exact .log (by simp [isEnd]) s
    · exact ⟨_, by rfl, by simp [isEnd]⟩
  | okay hostId =>
    cases hstep
    refine hadds ?_ (by simp) (by simp)
    rw [handleOkay]
    split
    · exact .refl s
    next k _ =>
      exact Adds.trans (Adds.trans (t := s.modify k fun st ↦ { st with writeReady := true })
        (.of_trace (by simp [modify])) (.log (by simp [isEnd]) _))
        (.pump (fun _ _ ↦ by simp [isEnd]) _)
  | wrte hostId payload defers =>
    cases hstep
    refine hadds ?_ (by simp) (by simp)
    rw [handleWrte]
    split
    · exact .log (by simp [isEnd]) s
    · split
      · exact .log (by simp [isEnd]) s
      next n _ =>
        have hlog : Adds (fun e ↦ e.isEnd = false) s (s.log [.wrote n payload]) :=
          .log (by simp [isEnd]) s
        split_ifs
        · exact hlog.trans (.of_trace (by simp))
        · exact hlog.trans (.ack (fun _ ↦ by simp [isEnd]) _ _)
  | clse hostId =>
    cases hstep
    refine hadds ?_ (by simp) (by simp)
    rw [handleClse]
    split
    · exact .refl s
    · exact .beginClose hbook (fun _ _ ↦ by simp [isEnd]) _ _
  | other =>
    cases hstep
    exact hadds (.refl s) (by simp) (by simp)
  | rejected n =>
    obtain ⟨-, ⟨⟩⟩ := Option.ite_none_right_eq_some.mp hstep
    refine hadds ?_ (by simp) (by simp)
    exact Adds.trans (Adds.trans (t := { s with pending := s.pending.erase n }) (.of_trace (by simp))
      (.delete hbook _ _ _)) (.log (by simp [isEnd]) _)
  | data n chunk =>
    obtain ⟨k, -, rfl⟩ := Option.map_eq_some_iff.mp hstep
    exact hadds (.onData (fun _ _ ↦ by simp [isEnd]) (fun _ ↦ by simp [isEnd]) _ _)
      (by simp) (by simp)
  | settled hostId k =>
    obtain ⟨-, ⟨⟩⟩ := Option.ite_none_right_eq_some.mp hstep
    refine hadds ?_ (by simp) (by simp)
    exact Adds.trans (t := { s with deferred := s.deferred.erase (hostId, k) }) (.of_trace (by simp))
      (.ack (fun _ ↦ by simp [isEnd]) _ _)
  | closeAll reason =>
    cases hstep
    exact hadds (.closeAll hbook _ _) (by simp) (by simp)

/-- **The mux loses no output exactly as long as every step keeps it**: no backend ends while a chunk
waits in the outbox of its stream. -/
theorem lossless_iff (maxStreams : Nat) {es : List MuxEvent}
    (hrun : Steps (Steps.By (step maxStreams)) init es t) :
    (∀ pre, pre <+: es → ∀ u, Steps (Steps.By (step maxStreams)) init pre u → Lossless u.trace) ↔
      Steps.Guarded (Steps.By (step maxStreams)) KeepsOutput init es t := by
  refine hrun.always_iff_guarded (I := fun s ↦ Lossless s.trace) (J := fun s ↦ Table s ∧ Buffers s)
    (Buffers.init.each_iff.mpr (by simp [init])) ⟨Table.init, Buffers.init⟩ ?_ ?_
  · exact fun s e t hs hstep _ ↦ ⟨hs.1.step hstep, hs.2.step hs.1 hstep⟩
  · rintro s e t ⟨htable, hbuffers⟩ hlossless hstep
    rw [(hbuffers.step htable hstep).each_iff, each_step hbuffers htable hstep]
    exact and_iff_right (hbuffers.each_iff.mp hlossless)

/-- A command whose output is acknowledged before it ends. -/
def patient : List MuxEvent :=
  [.open_ 1 "shell:echo hi", .resolved 1 [] false, .data 1 [104, 105], .okay 1, .ended 1]

/-- Its output is all there, in every state. -/
theorem patient_lossless : ∃ t, Steps (Steps.By (step 8)) init patient t ∧
    ∀ pre, pre <+: patient → ∀ u, Steps (Steps.By (step 8)) init pre u → Lossless u.trace := by
  have hguarded : ∃ t, Steps.Guarded (Steps.By (step 8)) KeepsOutput init patient t := by
    refine ⟨_, .cons ⟨rfl, trivial⟩ (.cons ⟨rfl, trivial⟩ (.cons ⟨rfl, trivial⟩
      (.cons ⟨rfl, trivial⟩ (.cons ⟨rfl, fun k hk _ ↦ ?_⟩ .nil))))⟩
    obtain rfl : 1 = k := Option.some.inj (show some 1 = some k from hk)
    decide
  obtain ⟨t, ht⟩ := hguarded
  exact ⟨t, ht.steps, (lossless_iff 8 ht.steps).mpr ht⟩

/-- A short command: its output comes in two chunks, and it ends before the first is acknowledged. -/
def short : List MuxEvent :=
  [.open_ 1 "shell:echo hi", .resolved 1 [] false, .data 1 [104], .data 1 [105], .ended 1]

/-- **Output is lost**: the stream is closed with the second chunk in the outbox. -/
theorem short_not_lossless : ¬ ∀ (maxStreams : Nat) (es : List MuxEvent) (t : StreamMux),
    Steps (Steps.By (step maxStreams)) init es t → Lossless t.trace := by
  intro hall
  have hrun : ∃ t, Steps (Steps.By (step 8)) init short t ∧ t.trace =
      [.opened 1 (some 1), .returned 1, .send (some 1) .opening (.okay 1 1), .onOpen "shell:echo hi",
        .took 1 [104], .send (some 1) .pump (.wrte 1 1 [104]), .took 1 [105], .closedBackend 1] ++
      .send (some 1) .backendEnded (.clse 1 1) :: [.removed 1 1, .onClose "shell:echo hi" "closed"] :=
    ⟨_, Steps.steps_by_iff.mpr rfl, by decide⟩
  obtain ⟨t, hsteps, htrace⟩ := hrun
  have hwhole := (hall 8 short t hsteps).whole _ _ _ _ htrace
  exact nomatch hwhole

end StreamMux

end Enkaku.Adb
