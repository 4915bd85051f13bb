import Enkaku.Adb.MuxTable

/-!
# Streams and their backends

Each stream has the backend that was opened for it, every OPEN is answered once, and no backend is
left open that the table does not know (`Bound`).  The table is keyed by the host's ids, and what an
old OPEN or an old backend still has to say is looked up under its host id: so all of this holds as
long as no step meets another stream under an id (`bound_iff`).
-/

set_option autoImplicit false

namespace Enkaku.Adb

open List

open Entry StreamMux

/-! ## Reading the trace -/

inductive Reply where
  | okay | clse
  deriving DecidableEq, Repr

/-- An answer to the OPEN of the stream, or a CLSE for it. -/
def Entry.reply? (k : Nat) : Entry → Option Reply
  | .send (some j) .opening (.okay ..) => if j = k then some .okay else none
  | .send (some j) _ (.clse ..) => if j = k then some .clse else none
  | _ => none

/-- The answer to the OPEN of a stream, and the CLSEs for it. -/
def replies (k : Nat) (tr : List Entry) : List Reply := tr.filterMap (Entry.reply? k)

/-- The host's id of an OPEN that is refused. -/
def Entry.refused? : Entry → Option Nat
  | .opened hostId none => some hostId
  | _ => none

/-- The host's id of the CLSE of such an OPEN. -/
def Entry.refusal? : Entry → Option Nat
  | .send none .streamLimit (.clse 0 hostId) => some hostId
  | _ => none

/-- **Streams and backends belong together.** -/
structure Bound (s : StreamMux) : Prop where
  /-- The backend of a stream in the table is the one opened for it. -/
  own : ∀ h k n, s.get h = some k → (s.states k).backend = some n → n = k
  /-- An OPEN whose promise is pending has not been answered. -/
  pending : ∀ h k, s.get h = some k → (s.states k).backend = none → replies k s.trace = []
  /-- That of an open stream has been answered with OKAY. -/
  opened : ∀ h k, s.get h = some k → (s.states k).backend ≠ none → replies k s.trace = [.okay]
  /-- That of a stream that has gone was answered with CLSE, or with OKAY before the CLSE; unless it
  was the connection that went. -/
  gone : ∀ i k, .opened i (some k) ∈ s.trace → (∀ h, s.get h ≠ some k) → .tornDown k ∉ s.trace →
    replies k s.trace = [.clse] ∨ replies k s.trace = [.okay, .clse]
  /-- The OPENs that are refused are answered with CLSE one by one. -/
  refused : s.trace.filterMap Entry.refused? = s.trace.filterMap Entry.refusal?
  /-- A backend that has been returned is closed or attached to a stream in the table. -/
  noLeak : ∀ n, .returned n ∈ s.trace → .closedBackend n ∈ s.trace ∨
    ∃ h k, s.get h = some k ∧ (s.states k).backend = some n
  /-- A stream leaves the table on its own account. -/
  removed : ∀ k j, .removed k j ∈ s.trace → k = j

/-- An entry that none of this is about. -/
def Entry.inert : Entry → Bool
  | .took .. | .acked _ | .wrote .. | .onOpen _ | .onClose .. => true
  | .send _ .pump (.wrte ..) | .send _ .ack (.okay ..) | .send none .unopened _ => true
  | _ => false

theorem Entry.of_inert {e : Entry} (h : e.inert = true) :
    (∀ k, e.reply? k = none) ∧ e.refused? = none ∧ e.refusal? = none := by
  unfold inert at h
  split at h <;> simp_all [reply?, refused?, refusal?]

section Trace

variable {k : Nat} {tr es : List Entry}

@[simp] theorem replies_append : replies k (tr ++ es) = replies k tr ++ replies k es :=
  filterMap_append

@[simp] theorem replies_nil : replies k [] = [] := by simp [replies]

@[simp] theorem replies_cons (e : Entry) :
    replies k (e :: tr) = (e.reply? k).toList ++ replies k tr := by
  rw [replies, filterMap_cons]
  cases e.reply? k <;> simp [replies]

theorem replies_of_forall (h : ∀ e ∈ es, e.reply? k = none) : replies k es = [] :=
  filterMap_eq_nil_iff.mpr h

end Trace

/-- An accepted OPEN that is neither in the table nor torn down is one that a CLSE has ended. -/
theorem Bound.last_clse {t : StreamMux} (h : Bound t) {k i : Nat} (hopened : .opened i (some k) ∈ t.trace)
    (hgone : ∀ j, t.get j ≠ some k) (htorn : .tornDown k ∉ t.trace) :
    (replies k t.trace).getLast? = some .clse ∧ (replies k t.trace).count .clse = 1 := by
  rcases h.gone i k hopened hgone htorn with heq | heq <;> rw [heq] <;> decide

namespace StreamMux

variable {s t : StreamMux} {maxStreams : Nat}

/-! ## What guarded steps keep -/

/-- How one stream stands. -/
structure Standing (s : StreamMux) (k : Nat) : Prop where
  own : ∀ n, (s.states k).backend = some n → n = k ∧ s.handlers n = some k
  pending : ∀ h, s.get h = some k → (s.states k).backend = none → replies k s.trace = []
  opened : ∀ h, s.get h = some k → (s.states k).backend ≠ none → replies k s.trace = [.okay]
  gone : ∀ i, .opened i (some k) ∈ s.trace → (∀ h, s.get h ≠ some k) → .tornDown k ∉ s.trace →
    replies k s.trace = [.clse] ∨ replies k s.trace = [.okay, .clse]
  listed : ∀ h, s.get h = some k → (∃ i, .opened i (some k) ∈ s.trace) ∧ .tornDown k ∉ s.trace
  fresh : s.nextOurId ≤ k → replies k s.trace = [] ∧ .tornDown k ∉ s.trace
  /-- A stream that is open and no longer in the table was torn down. -/
  adrift : (s.states k).backend ≠ none → (s.states k).closing = false → (∀ h, s.get h ≠ some k) →
    .tornDown k ∈ s.trace

/-- `Bound`, and what it takes to keep it. -/
structure Kept (s : StreamMux) : Prop where
  table : Table s
  keys : (s.streams.map (·.1)).Nodup
  standing : ∀ k, Standing s k
  waiting : ∀ n ∈ s.pending, ∃ h, .opened h (some n) ∈ s.trace
  refused : s.trace.filterMap Entry.refused? = s.trace.filterMap Entry.refusal?
  noLeak : ∀ n, .returned n ∈ s.trace → .closedBackend n ∈ s.trace ∨
    ∃ h, s.get h = some n ∧ (s.states n).backend = some n
  removed : ∀ k j, .removed k j ∈ s.trace → k = j

/-- What happens to other streams leaves one as it stands. -/
theorem Standing.evolve {k : Nat} (h : Standing s k) {es : List Entry}
    (hget : ∀ i, t.get i = some k ↔ s.get i = some k)
    (hbackend : (t.states k).backend = (s.states k).backend)
    (hclosing : (t.states k).closing = (s.states k).closing)
    (hhandlers : ∀ n, s.handlers n = some k → t.handlers n = some k)
    (hnext : s.nextOurId ≤ t.nextOurId) (htrace : t.trace = s.trace ++ es)
    (hreplies : ∀ e ∈ es, e.reply? k = none) (hopened : ∀ i, .opened i (some k) ∉ es)
    (htorn : .tornDown k ∉ es) : Standing t k := by
  have hsame : replies k t.trace = replies k s.trace := by
    rw [htrace, replies_append, replies_of_forall hreplies, append_nil]
  have hmem : .tornDown k ∈ t.trace ↔ .tornDown k ∈ s.trace := by
    rw [htrace, mem_append, or_iff_left htorn]
  have hmemOpened : ∀ i, .opened i (some k) ∈ t.trace ↔ .opened i (some k) ∈ s.trace := by
    intro i
    rw [htrace, mem_append, or_iff_left (hopened i)]
  constructor
  case own =>
    intro n hn
    obtain ⟨hk, hhandler⟩ := h.own n (hbackend ▸ hn)
    exact ⟨hk, hhandlers n hhandler⟩
  case pending => simpa only [hget, hbackend, hsame] using h.pending
  case opened => simpa only [hget, hbackend, hsame] using h.opened
  case gone =>
    intro i hi hgone htorn'
    rw [hmemOpened] at hi
    rw [hmem] at htorn'
    rw [hsame]
    exact h.gone i hi (fun j hj ↦ hgone j ((hget j).mpr hj)) htorn'
  case listed =>
    intro i hi
    simpa only [hmemOpened, hmem] using h.listed i ((hget i).mp hi)
  case fresh =>
    intro hk
    rw [hsame, hmem]
    exact h.fresh (Nat.le_trans hnext hk)
  case adrift =>
    intro hb hc hgone
    rw [hmem]
    exact h.adrift (hbackend ▸ hb) (hclosing ▸ hc) fun j hj ↦ hgone j ((hget j).mpr hj)

namespace Kept

theorem init : Kept StreamMux.init := by
  refine ⟨Table.init, ?_, fun k ↦ ⟨?_, ?_, ?_, ?_, ?_, ?_, ?_⟩, ?_, ?_, ?_, ?_⟩ <;>
    simp [StreamMux.init, StreamMux.get]

theorem bound (h : Kept s) : Bound s where
  own i k n _ hn := ((h.standing k).own n hn).1
  pending i k := (h.standing k).pending i
  opened i k := (h.standing k).opened i
  gone i k := (h.standing k).gone i
  refused := h.refused
  noLeak n hn := by
    rcases h.noLeak n hn with hclosed | ⟨i, hi, hbackend⟩
    · exact .inl hclosed
    · exact .inr ⟨i, n, hi, hbackend⟩
  removed := h.removed

/-- The stream of a pending promise has no backend. -/
theorem backend_of_pending (h : Kept s) {n : Nat} (hn : n ∈ s.pending) :
    (s.states n).backend = none := by
  cases hbackend : (s.states n).backend with
  | none => simp
  | some m =>
    obtain ⟨rfl, hhandler⟩ := (h.standing n).own m hbackend
    rw [(h.table.waits _ hn).2] at hhandler
    simp at hhandler

/-- Steps that leave the table alone and log only what is inert. -/
theorem of_same (h : Kept s) (hst : SameTable s t) (hadds : Adds (fun e ↦ e.inert = true) s t) :
    Kept t := by
  obtain ⟨es, htrace, hes⟩ := hadds
  have hnot : ∀ e : Entry, e.inert = false → e ∉ es := by
    intro e he hmem
    rw [hes e hmem] at he
    simp at he
  have hmem : ∀ e : Entry, e.inert = false → (e ∈ t.trace ↔ e ∈ s.trace) := by
    intro e he
    rw [htrace, mem_append, or_iff_left (hnot e he)]
  have hget := hst.get
  refine ⟨h.table.of_same hst, hst.streams ▸ h.keys, fun k ↦ ?_, fun n hn ↦ ?_, ?_, fun n hn ↦ ?_,
    fun k j hkj ↦ h.removed k j ((hmem _ (by simp [inert])).mp hkj)⟩
  · exact (h.standing k).evolve (fun i ↦ by rw [hget]) (hst.backend k) (hst.closing k)
      (fun n hn ↦ by rw [hst.handlers, hn]) (Nat.le_of_eq hst.nextOurId.symm) htrace
      (fun e he ↦ (of_inert (hes e he)).1 k) (fun i ↦ hnot _ (by simp [inert]))
      (hnot _ (by simp [inert]))
  · obtain ⟨i, hi⟩ := h.waiting n (hst.pending ▸ hn)
    exact ⟨i, (hmem _ (by simp [inert])).mpr hi⟩
  · rw [htrace, filterMap_append, filterMap_append, h.refused,
      filterMap_eq_nil_iff.mpr fun e he ↦ (of_inert (hes e he)).2.1,
      filterMap_eq_nil_iff.mpr fun e he ↦ (of_inert (hes e he)).2.2]
  · rw [hmem _ (by simp [inert])] at hn ⊢
    simpa only [hget, hst.backend] using h.noLeak n hn

/-- Steps that are about one stream. -/
theorem evolve (h : Kept s) (k : Nat) {es : List Entry} (htable : Table t)
    (hkeys : (t.streams.map (·.1)).Nodup) (hget : ∀ i j, j ≠ k → (t.get i = some j ↔ s.get i = some j))
    (hbackend : ∀ j, j ≠ k → (t.states j).backend = (s.states j).backend)
    (hclosing : ∀ j, j ≠ k → (t.states j).closing = (s.states j).closing)
    (hhandlers : ∀ n j, j ≠ k → s.handlers n = some j → t.handlers n = some j)
    (hnext : s.nextOurId ≤ t.nextOurId) (hpending : ∀ n ∈ t.pending, n ∈ s.pending ∨
      ∃ i, .opened i (some n) ∈ es) (htrace : t.trace = s.trace ++ es)
    (hreplies : ∀ j, j ≠ k → ∀ e ∈ es, e.reply? j = none)
    (hopened : ∀ i j, .opened i (some j) ∈ es → j = k) (htorn : ∀ j, .tornDown j ∈ es → j = k)
    (hrefused : ∀ e ∈ es, e.refused? = none ∧ e.refusal? = none)
    (hremoved : ∀ i j, .removed i j ∈ es → i = j) (hstanding : Standing t k)
    (hreturned : ∀ n, .returned n ∈ es → .closedBackend n ∈ t.trace ∨
      ∃ i, t.get i = some n ∧ (t.states n).backend = some n)
    (hleak : (s.states k).backend = some k → .closedBackend k ∈ t.trace ∨
      ∀ i, s.get i = some k → t.get i = some k ∧ (t.states k).backend = some k) : Kept t := by
  refine ⟨htable, hkeys, fun j ↦ ?_, fun n hn ↦ ?_, ?_, fun n hn ↦ ?_, fun i j hij ↦ ?_⟩
  · by_cases hjk : j = k
    · exact hjk ▸ hstanding
    · exact (h.standing j).evolve (fun i ↦ hget i j hjk) (hbackend j hjk) (hclosing j hjk)
        (fun n ↦ hhandlers n j hjk) hnext htrace (hreplies j hjk)
        (fun i hi ↦ hjk (hopened i j hi)) fun hj ↦ hjk (htorn j hj)
  · rw [htrace]
    rcases hpending n hn with hn | ⟨i, hi⟩
    · obtain ⟨i, hi⟩ := h.waiting n hn
      exact ⟨i, mem_append_left _ hi⟩
    · exact ⟨i, mem_append_right _ hi⟩
  · rw [htrace, filterMap_append, filterMap_append, h.refused,
      filterMap_eq_nil_iff.mpr fun e he ↦ (hrefused e he).1,
      filterMap_eq_nil_iff.mpr fun e he ↦ (hrefused e he).2]
  · rw [htrace] at hn
    rcases mem_append.mp hn with hn | hn
    · rcases h.noLeak n hn with hclosed | ⟨i, hi, hbackendn⟩
      · exact .inl (htrace ▸ mem_append_left _ hclosed)
      · by_cases hnk : n = k
        · subst hnk
          rcases hleak hbackendn with hclosed | hstill
          · exact .inl hclosed
          · exact .inr ⟨i, hstill i hi⟩
        · exact .inr ⟨i, (hget i n hnk).mpr hi, hbackend n hnk ▸ hbackendn⟩
    · exact hreturned n hn
  · rw [htrace] at hij
    rcases mem_append.mp hij with hij | hij
    · exact h.removed i j hij
    · exact hremoved i j hij

end Kept

/-! ## Closing -/

theorem keys_finishStream (h : (s.streams.map (·.1)).Nodup) (k : Nat) (reason : String) :
    ((s.finishStream k reason).streams.map (·.1)).Nodup := by
  rw [finishStream]
  split
  · exact h
  · rw [log, delete]
    split
    · exact h
    · exact OrdMap.nodup_erase h _

theorem keys_beginClose (h : (s.streams.map (·.1)).Nodup) (k : Nat) (cause : Cause) (reason : String) :
    ((s.beginClose k cause reason).streams.map (·.1)).Nodup := by
  rw [beginClose]
  split
  · exact keys_finishStream h k reason
  · exact keys_finishStream (by exact h) k reason

/-- What closing a stream logs, if its host id is its own or free. -/
theorem beginClose_trace {k : Nat} (hclosing : (s.states k).closing = false) (cause : Cause)
    (reason : String) (hown : ∀ j, s.get (s.states k).hostId = some j → j = k) :
    ∃ ourId, (s.beginClose k cause reason).trace = s.trace ++
      ((s.states k).backend.toList.map .closedBackend ++
        [.send (some k) cause (.clse ourId (s.states k).hostId)] ++
        if s.get (s.states k).hostId = none then []
        else [.removed k k, .onClose (s.states k).service reason]) := by
  refine ⟨if (s.states k).backend = none then 0 else k, ?_⟩
  rw [beginClose, if_neg (by simp [hclosing])]
  rw [finishStream]
  simp only [log_get, closeBackend_get, modify_get, log_states, closeBackend_states, modify_states_self]
  cases hk : s.get (s.states k).hostId with
  | none => simp [closeBackend, modify]
  | some j =>
    obtain rfl := hown j hk
    simp [delete, closeBackend, modify, get, log] at hk ⊢
    simp [hk]

namespace Kept

section

variable (h : Kept s)
include h

/-- **Closing a stream of the table.** -/
theorem beginClose_live {i k : Nat} (hk : s.get i = some k) (cause : Cause)
    (reason : String) : Kept (s.beginClose k cause reason) := by
  obtain ⟨rfl, hlt, hclosing⟩ := h.table.keys i k hk
  have hstanding := h.standing k
  obtain ⟨ourId, htrace⟩ := beginClose_trace hclosing cause reason
    fun j hj ↦ Option.some.inj (hj.symm.trans hk)
  rw [hk, if_neg (by simp)] at htrace
  have hgone : ∀ j, (s.beginClose k cause reason).get j ≠ some k := by
    intro j hj
    rw [beginClose_get] at hj
    split_ifs at hj with hi
    exact hi (h.table.keys j k hj).1
  have hstates := fun j ↦ beginClose_states (s := s) k cause reason j
  have hrest := SameRest.beginClose s k cause reason
  refine h.evolve k (h.table.beginClose hlt cause reason) (keys_beginClose h.keys _ _ _)
    (fun i j hj ↦ ?_) (fun j hj ↦ ?_) (fun j hj ↦ ?_) (fun n j _ hn ↦ ?_)
    (Nat.le_of_eq hrest.nextOurId.symm) (fun n hn ↦ .inl (hrest.pending ▸ hn)) htrace
    (fun j hj ↦ ?_) (fun i j hj ↦ ?_) (fun j hj ↦ ?_) ?_ (fun i j hj ↦ ?_) ?_
    (fun n hn ↦ ?_) fun hn ↦ .inl ?_
  · rw [beginClose_get]
    split_ifs with hi
    · rw [← hi, hk]
      simp [Ne.symm hj]
    · rfl
  · rw [hstates, if_neg hj]
  · rw [hstates, if_neg hj]
  · rw [hrest.handlers, hn]
  · simp [or_imp, forall_and, reply?, Ne.symm hj]
  · simp at hj
  · simp at hj
  · simp [or_imp, forall_and, refused?, refusal?]
  · simp at hj
    rw [hj.1, hj.2]
  · refine ⟨fun n hn ↦ ?_, fun i hi ↦ absurd hi (hgone i), fun i hi ↦ absurd hi (hgone i),
      fun i _ _ _ ↦ ?_, fun i hi ↦ absurd hi (hgone i), fun hle ↦ ?_, fun _ hc ↦ ?_⟩
    · rw [hstates, if_pos (by rfl)] at hn
      rw [hrest.handlers]
      exact hstanding.own n hn
    · have hclosed : replies k ((s.states k).backend.toList.map Entry.closedBackend) = [] := by
        refine replies_of_forall fun e he ↦ ?_
        obtain ⟨n, -, rfl⟩ := mem_map.mp he
        simp [reply?]
      have hnew : replies k (s.beginClose k cause reason).trace = replies k s.trace ++ [.clse] := by
        rw [htrace]
        simp [hclosed, reply?]
      rw [hnew]
      by_cases hbackend : (s.states k).backend = none
      · exact .inl (by rw [hstanding.pending _ hk hbackend, nil_append])
      · exact .inr (by rw [hstanding.opened _ hk hbackend, singleton_append])
    · rw [hrest.nextOurId] at hle
      omega
    · rw [hstates, if_pos (by rfl)] at hc
      simp at hc
  · simp at hn
  · rw [htrace, hn]
    simp

/-- **Closing a stream that is no longer in the table**, and whose host id is free. -/
theorem beginClose_adrift {k : Nat} (hk : k < s.nextOurId)
    (hbackend : (s.states k).backend ≠ none) (hfree : s.get (s.states k).hostId = none) (cause : Cause)
    (reason : String) : Kept (s.beginClose k cause reason) := by
  by_cases hclosing : (s.states k).closing = true
  · rw [beginClose, if_pos hclosing, finishStream, hfree]
    exact h
  rw [Bool.not_eq_true] at hclosing
  have hgone : ∀ j, s.get j ≠ some k := by
    intro j hj
    rw [(h.table.keys j k hj).1, hj] at hfree
    simp at hfree
  have htorn := (h.standing k).adrift hbackend hclosing hgone
  obtain ⟨ourId, htrace⟩ := beginClose_trace hclosing cause reason
    fun j hj ↦ by rw [hfree] at hj; simp at hj
  rw [hfree, if_pos (by rfl), append_nil] at htrace
  have hget : ∀ i, (s.beginClose k cause reason).get i = s.get i := by
    intro i
    rw [beginClose_get]
    split_ifs with hi
    · rw [← hi, hfree]
    · rfl
  have hstates := fun j ↦ beginClose_states (s := s) k cause reason j
  have hrest := SameRest.beginClose s k cause reason
  refine h.evolve k (h.table.beginClose hk cause reason) (keys_beginClose h.keys _ _ _)
    (fun i j _ ↦ by rw [hget]) (fun j hj ↦ by rw [hstates, if_neg hj])
    (fun j hj ↦ by rw [hstates, if_neg hj]) (fun n j _ hn ↦ by rw [hrest.handlers, hn])
    (Nat.le_of_eq hrest.nextOurId.symm) (fun n hn ↦ .inl (hrest.pending ▸ hn)) htrace
    (fun j hj e he ↦ ?_) (fun i j hj ↦ by simp at hj) (fun j hj ↦ by simp at hj) (fun e he ↦ ?_)
    (fun i j hj ↦ by simp at hj) ?_ (fun n hn ↦ by simp at hn) fun hn ↦ .inl (by rw [htrace, hn]; simp)
  · rcases mem_append.mp he with he | he
    · obtain ⟨n, -, rfl⟩ := mem_map.mp he
      simp [reply?]
    · obtain rfl := mem_singleton.mp he
      simp [reply?, Ne.symm hj]
  · rcases mem_append.mp he with he | he
    · obtain ⟨n, -, rfl⟩ := mem_map.mp he
      simp [refused?, refusal?]
    · obtain rfl := mem_singleton.mp he
      simp [refused?, refusal?]
  · refine ⟨fun n hn ↦ ?_, fun i hi ↦ absurd (hget i ▸ hi) (hgone i),
      fun i hi ↦ absurd (hget i ▸ hi) (hgone i), fun i _ _ hnot ↦ absurd ?_ hnot,
      fun i hi ↦ absurd (hget i ▸ hi) (hgone i), fun hle ↦ ?_, fun _ hc ↦ ?_⟩
    · rw [hstates, if_pos (by rfl)] at hn
      rw [hrest.handlers]
      exact (h.standing k).own n hn
    · rw [htrace]
      exact mem_append_left _ htorn
    · rw [hrest.nextOurId] at hle
      omega
    · rw [hstates, if_pos (by rfl)] at hc
      simp at hc

/-! ## The other operations -/

/-- Deferring a write, and settling one. -/
theorem of_deferred {d : List (Nat × Nat)} (htable : Table { s with deferred := d }) :
    Kept { s with deferred := d } := by
  refine ⟨htable, h.keys, fun k ↦ ?_, h.waiting, h.refused, h.noLeak, h.removed⟩
  have hk := h.standing k
  exact ⟨hk.own, hk.pending, hk.opened, hk.gone, hk.listed, hk.fresh, hk.adrift⟩

theorem ack (hostId k : Nat) : Kept (s.ack hostId k) :=
  h.of_same (.ack _ _ _) (.ack (fun _ ↦ by simp [inert]) _ _)

theorem handleWrte (hostId : Nat) (payload : Chunk) (defers : Bool)
    (hopen : ∀ k, s.get hostId = some k → (s.states k).backend ≠ none) :
    Kept (s.handleWrte hostId payload defers) := by
  have htable := h.table.handleWrte hostId payload defers
  rw [StreamMux.handleWrte] at htable ⊢
  split at htable
  · exact h.of_same (.log s _) (.log (by simp [inert]) s)
  next k hk =>
    split at htable
    next hnone => exact absurd hnone (hopen k hk)
    next n _ =>
      have hlog : Kept (s.log [.wrote n payload]) :=
        h.of_same (.log s _) (.log (by simp [inert]) s)
      split_ifs at htable ⊢
      · exact hlog.of_deferred htable
      · exact hlog.ack hostId k

theorem handleOpen (hostId : Nat) (payload : String)
    (hfree : s.streams.length < maxStreams → s.get hostId = none) :
    Kept (s.handleOpen maxStreams hostId payload) := by
  have htable := h.table.handleOpen maxStreams hostId payload
  rw [StreamMux.handleOpen] at htable ⊢
  split_ifs at htable ⊢ with hfull
  · refine ⟨htable, h.keys, fun k ↦ ?_, fun n hn ↦ ?_, ?_, fun n hn ↦ ?_, fun k j hkj ↦ ?_⟩
    · exact (h.standing k).evolve (fun i ↦ by simp) (by simp) (by simp) (fun n hn ↦ hn)
        (le_rfl) (log_trace _) (by simp [reply?]) (by simp) (by simp)
    · obtain ⟨i, hi⟩ := h.waiting n hn
      exact ⟨i, by simp [hi]⟩
    · simp [filterMap_append, filterMap_cons, h.refused, refused?, refusal?]
    · simpa using h.noLeak n (by simpa using hn)
    · exact h.removed k j (by simpa using hkj)
  · have hnone := hfree (by omega)
    have hnew := h.standing s.nextOurId
    obtain ⟨hreplies, htorn⟩ := hnew.fresh (le_rfl)
    have hfresh := h.table.fresh s.nextOurId (le_rfl)
    have hget : ∀ i j, OrdMap.get? i (OrdMap.set hostId s.nextOurId s.streams) = some j ↔
        if hostId = i then j = s.nextOurId else s.get i = some j := by
      intro i j
      rw [OrdMap.get?_set, get]
      split_ifs
      · simp [eq_comm]
      · rfl
    refine h.evolve s.nextOurId htable (OrdMap.nodup_set h.keys _ _) (fun i j hj ↦ ?_)
      (fun j hj ↦ by simp [hj]) (fun j hj ↦ by simp [hj]) (fun n j _ hn ↦ hn) (Nat.le_succ _)
      (fun n hn ↦ ?_) (by rfl) (by simp [reply?]) (by simp) (by simp)
      (by simp [refused?, refusal?]) (by simp) ?_ (by simp)
      fun hbackend ↦ by rw [hfresh.1] at hbackend; simp at hbackend
    · rw [get]
      rw [hget]
      split_ifs with hi
      · rw [← hi, hnone]
        simp [hj]
      · rfl
    · rcases mem_append.mp hn with hn | hn
      · exact .inl hn
      · exact .inr ⟨hostId, by simpa using hn⟩
    · have hlive : ∃ i, StreamMux.get { s with
          streams := OrdMap.set hostId s.nextOurId s.streams } i = some s.nextOurId :=
        ⟨hostId, by simp [get]⟩
      refine ⟨by simp, fun i _ _ ↦ ?_, by simp, fun i _ hgone ↦ ?_, fun i _ ↦ ⟨⟨hostId, by simp⟩, ?_⟩,
        fun hle ↦ ?_, by simp⟩
      · simp [hreplies, reply?]
      · obtain ⟨j, hj⟩ := hlive
        exact absurd hj (hgone j)
      · simpa using htorn
      · dsimp only at hle
        omega

/-- A promise is done with. -/
theorem settle (n : Nat) : Kept { s with pending := s.pending.erase n } := by
  refine ⟨⟨h.table.keys, h.table.fresh, fun m hm ↦ h.table.waits m (mem_of_mem_erase hm),
    h.table.pending.erase n, h.table.handlers, h.table.deferred⟩, h.keys, fun k ↦ ?_,
    fun m hm ↦ h.waiting m (mem_of_mem_erase hm), h.refused, h.noLeak, h.removed⟩
  have hk := h.standing k
  exact ⟨hk.own, hk.pending, hk.opened, hk.gone, hk.listed, hk.fresh, hk.adrift⟩

theorem rejected {n : Nat} (hn : n ∈ s.pending)
    (hown : s.get (s.states n).hostId = some n ∨
      s.get (s.states n).hostId = none ∧ .tornDown n ∈ s.trace) : Kept (s.rejected n) := by
  have hlt := (h.table.waits n hn).1
  have hbackend := h.backend_of_pending hn
  have htable := h.table.rejected n
  have hsame : StreamMux.get { s with pending := s.pending.erase n } (s.states n).hostId =
      s.get (s.states n).hostId := by simp [get]
  have hgone : ∀ i, (s.rejected n).get i ≠ some n := by
    intro i hi
    have hiff : (s.rejected n).get i = if (s.states n).hostId = i then none else s.get i := by
      rw [StreamMux.rejected, log_get, delete_get]
      rfl
    rw [hiff] at hi
    split_ifs at hi with heq
    exact heq (h.table.keys i n hi).1
  have hsend : ∀ j, j ≠ n → ∀ e ∈ [Entry.send (some n) .openFailed (.clse 0 (s.states n).hostId),
      .onClose (s.states n).service "backend_error"], e.reply? j = none := by
    intro j hj
    simp [reply?, Ne.symm hj]
  rcases hown with hk | ⟨hfree, htorn⟩
  · have hdelete : delete { s with pending := s.pending.erase n } (s.states n).hostId n =
        { s with
          pending := s.pending.erase n
          streams := OrdMap.erase (s.states n).hostId s.streams
          trace := s.trace ++ [.removed n n] } := by
      rw [delete, hsame, hk]
    have hopened := ((h.standing n).listed _ hk).1
    rw [StreamMux.rejected, hdelete] at htable hgone ⊢
    refine h.evolve n htable (OrdMap.nodup_erase h.keys _) (fun i j hj ↦ ?_) (fun j _ ↦ by simp)
      (fun j _ ↦ by simp) (fun m j _ hm ↦ hm) (le_rfl)
      (fun m hm ↦ .inl (mem_of_mem_erase hm)) (by rw [log_trace, append_assoc])
      (fun j hj e he ↦ ?_) (fun i j hj ↦ by simp at hj) (fun j hj ↦ by simp at hj)
      (by simp [refused?, refusal?]) (fun i j hij ↦ ?_) ?_ (fun m hm ↦ by simp at hm)
      fun hn ↦ by rw [hbackend] at hn; simp at hn
    · rw [log_get, get, OrdMap.get?_erase, ← get]
      split_ifs with hi
      · rw [← hi, hk]
        simp [Ne.symm hj]
      · rfl
    · rcases mem_append.mp he with he | he
      · obtain rfl := mem_singleton.mp he
        simp [reply?]
      · exact hsend j hj e he
    · obtain ⟨rfl, rfl⟩ : i = n ∧ j = n := by simpa using hij
      rfl
    · refine ⟨fun m hm ↦ ?_, fun i hi ↦ absurd hi (hgone i), fun i hi ↦ absurd hi (hgone i),
        fun i _ _ _ ↦ .inl ?_, fun i hi ↦ absurd hi (hgone i), fun hle ↦ ?_, fun hb ↦ absurd hbackend hb⟩
      · rw [log_states] at hm
        rw [hbackend] at hm
        simp at hm
      · simp [(h.standing n).pending _ hk hbackend, reply?]
      · exact absurd hlt (Nat.not_lt.mpr hle)
  · have hdelete : delete { s with pending := s.pending.erase n } (s.states n).hostId n =
        { s with pending := s.pending.erase n } := by
      rw [delete, hsame, hfree]
    rw [StreamMux.rejected, hdelete] at htable hgone ⊢
    refine h.evolve n htable h.keys (fun i j _ ↦ by simp [get, log]) (fun j _ ↦ by simp)
      (fun j _ ↦ by simp) (fun m j _ hm ↦ hm) (le_rfl)
      (fun m hm ↦ .inl (mem_of_mem_erase hm)) (log_trace _) hsend (fun i j hj ↦ by simp at hj)
      (fun j hj ↦ by simp at hj) (by simp [refused?, refusal?])
      (fun i j hij ↦ by simp at hij) ?_ (fun m hm ↦ by simp at hm)
      fun hn ↦ by rw [hbackend] at hn; simp at hn
    refine ⟨fun m hm ↦ ?_, fun i hi ↦ absurd hi (hgone i), fun i hi ↦ absurd hi (hgone i),
      fun i _ _ hnot ↦ absurd ?_ hnot, fun i hi ↦ absurd hi (hgone i), fun hle ↦ ?_,
      fun hb ↦ absurd hbackend hb⟩
    · rw [log_states] at hm
      rw [hbackend] at hm
      simp at hm
    · rw [log_trace]
      exact mem_append_left _ htorn
    · exact absurd hlt (Nat.not_lt.mpr hle)

/-- A backend that comes to nobody is closed. -/
theorem returned_closed (n : Nat) : Kept (closeBackend { s with
    pending := s.pending.erase n, trace := s.trace ++ [Entry.returned n] } (some n)) := by
  have hsettle := h.settle n
  have htrace : (closeBackend { s with
      pending := s.pending.erase n, trace := s.trace ++ [Entry.returned n] } (some n)).trace =
      s.trace ++ [.returned n, .closedBackend n] := by simp [closeBackend]
  refine hsettle.evolve n ⟨hsettle.table.keys, hsettle.table.fresh, hsettle.table.waits,
    hsettle.table.pending, hsettle.table.handlers, hsettle.table.deferred⟩ h.keys
    (fun i j _ ↦ by rfl) (fun j _ ↦ by rfl) (fun j _ ↦ by rfl) (fun m j _ hm ↦ hm) (le_rfl)
    (fun m hm ↦ .inl hm) htrace (by simp [reply?]) (by simp) (by simp)
    (by simp [refused?, refusal?]) (by simp) ?_ (fun m hm ↦ ?_)
    fun _ ↦ .inl (by rw [htrace]; simp)
  · exact (hsettle.standing n).evolve (fun i ↦ by rfl) (by rfl) (by rfl) (fun m hm ↦ hm)
      (le_rfl) htrace (by simp [reply?]) (by simp) (by simp)
  · obtain rfl : m = n := by simpa using hm
    exact .inl (by rw [htrace]; simp)

/-- **A stream is given the backend that was opened for it.** -/
theorem attach_own {k : Nat} (hn : k ∈ s.pending)
    (hk : s.get (s.states k).hostId = some k) (hbackend : (s.states k).backend = none)
    {early : List Chunk} (htable : Table (attach { s with
      pending := s.pending.erase k, trace := s.trace ++ [Entry.returned k] } k k early false)) :
    Kept (attach { s with
      pending := s.pending.erase k, trace := s.trace ++ [Entry.returned k] } k k early false) := by
  have hnew := h.standing k
  rw [attach, if_neg (by simpa using hbackend), callBack, if_neg (by simp)] at htable ⊢
  have hsame := SameTable.onDatas (give { s with
    pending := s.pending.erase k, trace := s.trace ++ [Entry.returned k] } k k) k early
  obtain ⟨es, htrace, hes⟩ := Adds.onDatas (p := fun e ↦ e.inert = true) (k := k)
    (fun _ _ ↦ by simp [inert]) (fun _ ↦ by simp [inert]) (give { s with
      pending := s.pending.erase k, trace := s.trace ++ [Entry.returned k] } k k) early
  rw [give_trace] at htrace
  generalize hu : (give { s with
    pending := s.pending.erase k, trace := s.trace ++ [Entry.returned k] } k k).onDatas k early = u
    at hsame htrace htable ⊢
  have hugets : ∀ i, u.get i = s.get i := by
    intro i
    rw [hsame.get, give_get]
    simp [get]
  have hnot : ∀ e : Entry, e.inert = false → e ∉ es := by
    intro e he hmem
    rw [hes e hmem] at he
    simp at he
  have hreplies : ∀ j, replies j es = [] := fun j ↦
    replies_of_forall fun e he ↦ (of_inert (hes e he)).1 j
  have htail : (u.log [.send (some k) .opening (.okay k (s.states k).hostId),
      .onOpen (s.states k).service]).trace = s.trace ++ ([.returned k] ++ es ++
      [.send (some k) .opening (.okay k (s.states k).hostId), .onOpen (s.states k).service]) := by
    rw [log_trace, htrace]
    simp
  have hbackendk : (u.states k).backend = some k := by
    rw [hsame.backend, give_states, if_pos (by rfl)]
  refine h.evolve k htable ?_ (fun i j _ ↦ by rw [log_get, hugets]) (fun j hj ↦ ?_) (fun j hj ↦ ?_)
    (fun m j hj hm ↦ ?_) ?_ (fun m hm ↦ ?_) htail (fun j hj ↦ ?_) (fun i j hj ↦ ?_)
    (fun j hj ↦ ?_) ?_ (fun i j hij ↦ ?_) ?_ (fun m hm ↦ ?_)
    fun hself ↦ by rw [hbackend] at hself; simp at hself
  · rw [StreamMux.log]
    rw [hsame.streams]
    exact h.keys
  · rw [log_states, hsame.backend, give_states, if_neg hj]
  · rw [log_states, hsame.closing, give_states, if_neg hj]
  · rw [StreamMux.log]
    have hmk : m ≠ k := fun heq ↦ by
      rw [heq, (h.table.waits k hn).2] at hm
      simp at hm
    rw [hsame.handlers, give]
    dsimp only
    rw [Function.update_of_ne hmk, hm]
  · rw [StreamMux.log]
    exact Nat.le_of_eq hsame.nextOurId.symm
  · rw [StreamMux.log] at hm
    rw [hsame.pending] at hm
    exact .inl (mem_of_mem_erase hm)
  · have hquiet : ∀ e ∈ es, e.reply? j = none := fun e he ↦ (of_inert (hes e he)).1 j
    simpa [or_imp, forall_and, reply?, Ne.symm hj] using hquiet
  · simp [hnot _ (show (Entry.opened i (some j)).inert = false by simp [inert])] at hj
  · simp [hnot _ (show (Entry.tornDown j).inert = false by simp [inert])] at hj
  · have hquiet : ∀ e ∈ es, e.refused? = none ∧ e.refusal? = none := fun e he ↦
      (of_inert (hes e he)).2
    simpa [or_imp, forall_and, refused?, refusal?] using hquiet
  · simp [hnot _ (show (Entry.removed i j).inert = false by simp [inert])] at hij
  · have hgets : ∀ i, (u.log [.send (some k) .opening (.okay k (s.states k).hostId),
        .onOpen (s.states k).service]).get i = s.get i := fun i ↦ by rw [log_get, hugets]
    refine ⟨fun m hm ↦ ?_, fun i _ hb ↦ ?_, fun i _ _ ↦ ?_, fun i _ hgone ↦ ?_, fun i hi ↦ ?_,
      fun hle ↦ ?_, fun _ _ hgone ↦ ?_⟩
    · rw [log_states, hbackendk] at hm
      cases hm
      refine ⟨by rfl, ?_⟩
      rw [StreamMux.log]
      rw [hsame.handlers, give]
      simp
    · rw [log_states, hbackendk] at hb
      simp at hb
    · rw [htail]
      simp [hreplies, hnew.pending _ hk hbackend, reply?]
    · exact absurd ((hgets _).trans hk) (hgone _)
    · rw [hgets] at hi
      obtain ⟨⟨j, hj⟩, htorn⟩ := hnew.listed i hi
      rw [htail]
      refine ⟨⟨j, mem_append_left _ hj⟩, fun hmem ↦ ?_⟩
      simp [htorn, hnot _ (show (Entry.tornDown k).inert = false by simp [inert])] at hmem
    · rw [StreamMux.log] at hle
      rw [hsame.nextOurId] at hle
      exact absurd (h.table.waits k hn).1 (Nat.not_lt.mpr hle)
    · exact absurd ((hgets _).trans hk) (hgone _)
  · have hmk : m = k := by
      simpa [hnot _ (show (Entry.returned m).inert = false by simp [inert])] using hm
    subst hmk
    refine .inr ⟨(s.states m).hostId, ?_, by rw [log_states, hbackendk]⟩
    rw [log_get, hugets, hk]

theorem resolved {n : Nat} (hn : n ∈ s.pending) {early : List Chunk} {ends : Bool}
    (hown : ∀ k, s.get (s.states n).hostId = some k → (s.states k).backend = none →
      k = n ∧ ends = false) : Kept (s.resolved n early ends) := by
  have htable := h.table.resolved hn early ends
  have hget : StreamMux.get { s with pending := s.pending.erase n, trace := s.trace ++ [Entry.returned n] }
      (s.states n).hostId = s.get (s.states n).hostId := by simp [get]
  rw [StreamMux.resolved] at htable ⊢
  rw [hget] at htable ⊢
  cases hk : s.get (s.states n).hostId with
  | none => exact h.returned_closed n
  | some k =>
    rw [hk] at htable
    dsimp only at htable ⊢
    by_cases hbackend : (s.states k).backend = none
    · obtain ⟨rfl, rfl⟩ := hown k hk hbackend
      exact h.attach_own hn hk hbackend htable
    · rw [attach, if_pos hbackend]
      exact h.returned_closed n

theorem tearDown (reason : String) {k : Nat} (hk : s.get (s.states k).hostId = some k) :
    Kept (s.tearDown reason k) := by
  have htrace : (s.tearDown reason k).trace = s.trace ++ ((s.states k).backend.toList.map .closedBackend ++
      [.tornDown k, .onClose (s.states k).service reason]) := by
    simp [StreamMux.tearDown, closeBackend, log]
  have hgone : ∀ i, (s.tearDown reason k).get i ≠ some k := by
    intro i hi
    rw [tearDown_get] at hi
    split_ifs at hi with heq
    exact heq (h.table.keys i k hi).1
  have htorn : .tornDown k ∈ (s.tearDown reason k).trace := by simp [htrace]
  refine h.evolve k (h.table.tearDown reason k) (OrdMap.nodup_erase h.keys _) (fun i j hj ↦ ?_)
    (fun j _ ↦ by rw [tearDown_states]) (fun j _ ↦ by rw [tearDown_states]) (fun n j _ hn ↦ hn)
    (le_rfl) (fun n hn ↦ .inl hn) htrace (fun j _ e he ↦ ?_) (fun i j hj ↦ by simp at hj)
    (fun j hj ↦ by simpa using hj) (fun e he ↦ ?_) (fun i j hij ↦ by simp at hij) ?_
    (fun n hn ↦ by simp at hn) fun hn ↦ .inl (by rw [htrace, hn]; simp)
  · rw [tearDown_get]
    split_ifs with hi
    · rw [← hi, hk]
      simp [Ne.symm hj]
    · rfl
  · rcases mem_append.mp he with he | he
    · obtain ⟨n, -, rfl⟩ := mem_map.mp he
      simp [reply?]
    · rcases mem_cons.mp he with rfl | he
      · simp [reply?]
      · obtain rfl := mem_singleton.mp he
        simp [reply?]
  · rcases mem_append.mp he with he | he
    · obtain ⟨n, -, rfl⟩ := mem_map.mp he
      simp [refused?, refusal?]
    · rcases mem_cons.mp he with rfl | he
      · simp [refused?, refusal?]
      · obtain rfl := mem_singleton.mp he
        simp [refused?, refusal?]
  · refine ⟨fun n hn ↦ ?_, fun i hi ↦ absurd hi (hgone i), fun i hi ↦ absurd hi (hgone i),
      fun i _ _ hnot ↦ absurd htorn hnot, fun i hi ↦ absurd hi (hgone i), fun hle ↦ ?_,
      fun _ _ _ ↦ htorn⟩
    · rw [tearDown_states] at hn
      exact (h.standing k).own n hn
    · exact absurd (h.table.keys _ k hk).2.1 (Nat.not_lt.mpr hle)

theorem closeAll (reason : String) : Kept (s.closeAll reason) := by
  -- The streams that are still to be torn down are in the table, one under each id.
  have hall : ∀ (ks : List Nat) (u : StreamMux), Kept u → ks.Nodup →
      (∀ k ∈ ks, u.get (u.states k).hostId = some k) →
      Kept (ks.foldl (fun s k ↦ s.tearDown reason k) u) := by
    intro ks
    induction ks with
    | nil => exact fun u hu _ _ ↦ hu
    | cons k ks ih =>
      intro u hu hnodup hlive
      obtain ⟨hk, hnodup⟩ := nodup_cons.mp hnodup
      refine ih _ (hu.tearDown reason (hlive k (.head _))) hnodup fun j hj ↦ ?_
      have hjlive := hlive j (.tail _ hj)
      rw [tearDown_states, tearDown_get, if_neg, hjlive]
      intro heq
      rw [← heq, hlive k mem_cons_self] at hjlive
      exact hk (Option.some.inj hjlive ▸ hj)
  have hlive : ∀ p ∈ s.streams, s.get p.1 = some p.2 := fun p hp ↦ OrdMap.get?_of_mem h.keys hp
  refine hall _ s h ?_ fun k hk ↦ ?_
  · refine List.Nodup.map_on (fun p hp q hq heq ↦ ?_) (List.Nodup.of_map _ h.keys)
    have hpq : p.1 = q.1 := by
      rw [← (h.table.keys _ _ (hlive p hp)).1, ← (h.table.keys _ _ (hlive q hq)).1, heq]
    exact Prod.ext hpq heq
  · obtain ⟨p, hp, rfl⟩ := mem_map.mp hk
    rw [(h.table.keys _ _ (hlive p hp)).1, hlive p hp]

end

end Kept

/-! ## Runs -/

/-- The step meets no other stream under its host id: an OPEN names an id that is free, the backend
that comes for a stream finds that one and has not ended, a promise that rejects finds its own stream
or one that went with the connection, a backend that ends finds its own stream or none, and no WRTE
names a stream whose OPEN has not been answered. -/
def KeepsApart (maxStreams : Nat) (s : StreamMux) : MuxEvent → Prop
  | .open_ hostId _ => s.streams.length < maxStreams → s.get hostId = none
  | .wrte hostId _ _ => ∀ k, s.get hostId = some k → (s.states k).backend ≠ none
  | .resolved n _ ends => ∀ k, s.get (s.states n).hostId = some k → (s.states k).backend = none →
    k = n ∧ ends = false
  | .rejected n => s.get (s.states n).hostId = some n ∨
    s.get (s.states n).hostId = none ∧ .tornDown n ∈ s.trace
  | .ended n => ∀ k, s.handlers n = some k → ∀ j, s.get (s.states k).hostId = some j → j = k
  | _ => True

/-- **One step** that meets no other stream keeps the streams and their backends together. -/
theorem Kept.step (h : Kept s) {e : MuxEvent} (hguard : s.KeepsApart maxStreams e)
    (hstep : s.step maxStreams e = some t) : Kept t := by
  cases e with
  | open_ hostId payload =>
    cases hstep
    exact h.handleOpen hostId payload hguard
  | okay hostId =>
    cases hstep
    refine h.of_same (.handleOkay _ _) ?_
    rw [handleOkay]
    split
    · exact .refl s
    next k _ =>
      exact Adds.trans (Adds.trans (t := s.modify k fun st ↦ { st with writeReady := true })
        (.of_trace (by simp [modify])) (.log (by simp [inert]) _))
        (.pump (fun _ _ ↦ by simp [inert]) _)
  | wrte hostId payload defers =>
    cases hstep
    exact h.handleWrte hostId payload defers hguard
  | clse hostId =>
    cases hstep
    rw [handleClse]
    split
    · exact h
    next k hk => exact h.beginClose_live hk _ _
  | other =>
    cases hstep
    exact h
  | resolved n early ends =>
    obtain ⟨hn, ⟨⟩⟩ := Option.ite_none_right_eq_some.mp hstep
    exact h.resolved hn hguard
  | rejected n =>
    obtain ⟨hn, ⟨⟩⟩ := Option.ite_none_right_eq_some.mp hstep
    exact h.rejected hn hguard
  | data n chunk =>
    obtain ⟨k, -, rfl⟩ := Option.map_eq_some_iff.mp hstep
    exact h.of_same (.onData _ _ _)
      (.onData (fun _ _ ↦ by simp [inert]) (fun _ ↦ by simp [inert]) _ _)
  | ended n =>
    obtain ⟨k, hk, rfl⟩ := Option.map_eq_some_iff.mp hstep
    obtain ⟨-, hlt, hbackend⟩ := h.table.handlers n k hk
    cases hj : s.get (s.states k).hostId with
    | none => exact h.beginClose_adrift hlt (by simp [hbackend]) hj _ _
    | some j =>
      obtain rfl := hguard k hk j hj
      exact h.beginClose_live hj _ _
  | settled hostId k =>
    obtain ⟨-, ⟨⟩⟩ := Option.ite_none_right_eq_some.mp hstep
    have hdeferred : Table { s with deferred := s.deferred.erase (hostId, k) } :=
      ⟨h.table.keys, h.table.fresh, h.table.waits, h.table.pending, h.table.handlers,
        fun i j hj ↦ h.table.deferred i j (mem_of_mem_erase hj)⟩
    exact (h.of_deferred hdeferred).ack hostId k
  | closeAll reason =>
    cases hstep
    exact h.closeAll reason

/-! ## Steps that meet another stream -/

/-- The stream that has the host id leaves the table. -/
theorem removed_mem_beginClose {k j : Nat} (hj : s.get (s.states k).hostId = some j) (cause : Cause)
    (reason : String) : .removed j k ∈ (s.beginClose k cause reason).trace := by
  have hfinish : ∀ u : StreamMux, (u.states k).hostId = (s.states k).hostId →
      u.get (s.states k).hostId = some j → .removed j k ∈ (u.finishStream k reason).trace := by
    intro u hid hu
    rw [finishStream, hid, hu]
    simp [delete, hu]
  rw [beginClose]
  split
  · exact hfinish s (by rfl) hj
  · exact hfinish _ (by simp) (by simpa using hj)

theorem not_bound_handleOpen (h : Kept s) {hostId k : Nat} {payload : String}
    (hfull : s.streams.length < maxStreams) (hk : s.get hostId = some k) :
    ¬ Bound (s.handleOpen maxStreams hostId payload) := by
  intro hb
  obtain ⟨⟨i, hi⟩, htorn⟩ := (h.standing k).listed hostId hk
  obtain ⟨hid, hlt, -⟩ := h.table.keys hostId k hk
  rw [handleOpen, if_neg (by omega)] at hb
  have hlast := (hb.last_clse (i := i) (k := k) (mem_append_left _ hi) (fun j hj ↦ ?_)
    (by simpa using htorn)).1
  · rw [replies_append, replies_cons, replies_nil] at hlast
    simp only [reply?, Option.toList_none, append_nil] at hlast
    by_cases hbackend : (s.states k).backend = none
    · simp [(h.standing k).pending _ hk hbackend] at hlast
    · simp [(h.standing k).opened _ hk hbackend] at hlast
  · rw [get] at hj
    rw [OrdMap.get?_set] at hj
    split_ifs at hj with heq
    · have hnext := Option.some.inj hj
      omega
    · exact heq (hid.symm.trans (h.table.keys j k hj).1)

theorem not_bound_rejected (h : Kept s) {n : Nat} (hn : n ∈ s.pending)
    (hother : s.get (s.states n).hostId ≠ some n)
    (hnot : ¬ (s.get (s.states n).hostId = none ∧ .tornDown n ∈ s.trace)) : ¬ Bound (s.rejected n) := by
  intro hb
  have hsame : StreamMux.get { s with pending := s.pending.erase n } (s.states n).hostId =
      s.get (s.states n).hostId := by simp [get]
  cases hk : s.get (s.states n).hostId with
  | some k =>
    have hmem : .removed k n ∈ (s.rejected n).trace := by
      rw [rejected, delete, hsame, hk]
      simp
    exact hother (by rw [hk, hb.removed k n hmem])
  | none =>
    obtain ⟨i, hi⟩ := h.waiting n hn
    have htorn : .tornDown n ∉ s.trace := fun htorn ↦ hnot ⟨hk, htorn⟩
    have hgone : ∀ j, s.get j ≠ some n := by
      intro j hj
      rw [(h.table.keys j n hj).1, hj] at hk
      simp at hk
    have htrace : (s.rejected n).trace = s.trace ++ [.send (some n) .openFailed
        (.clse 0 (s.states n).hostId), .onClose (s.states n).service "backend_error"] := by
      rw [rejected, delete, hsame, hk]
      simp
    have hcount := (hb.last_clse (i := i) (k := n) (by rw [htrace]; exact mem_append_left _ hi)
      (fun j hj ↦ ?_) (by simpa [htrace] using htorn)).2
    · rw [htrace, replies_append, count_append, (h.bound.last_clse hi hgone htorn).2] at hcount
      simp [reply?] at hcount
    · refine hgone j ?_
      rw [rejected, log_get, delete, hsame, hk] at hj
      simpa [get] using hj

theorem not_bound_attach (h : Kept s) {n k : Nat}
    (hk : s.get (s.states n).hostId = some k) (hbackend : (s.states k).backend = none)
    {early : List Chunk} {ends : Bool} (hnot : ¬ (k = n ∧ ends = false)) :
    ¬ Bound (s.resolved n early ends) := by
  intro hb
  have hget : StreamMux.get { s with pending := s.pending.erase n, trace := s.trace ++ [Entry.returned n] }
      (s.states n).hostId = s.get (s.states n).hostId := by simp [get]
  rw [resolved] at hb
  rw [hget, hk] at hb
  dsimp only at hb
  rw [attach, if_neg (by simpa using hbackend), callBack] at hb
  have hsame := SameTable.onDatas (give { s with
    pending := s.pending.erase n, trace := s.trace ++ [Entry.returned n] } n k) k early
  obtain ⟨es, htrace, hes⟩ := Adds.onDatas (p := fun e ↦ e.inert = true) (k := k)
    (fun _ _ ↦ by simp [inert]) (fun _ ↦ by simp [inert]) (give { s with
      pending := s.pending.erase n, trace := s.trace ++ [Entry.returned n] } n k) early
  rw [give_trace] at htrace
  generalize hu : (give { s with
    pending := s.pending.erase n, trace := s.trace ++ [Entry.returned n] } n k).onDatas k early = u
    at hsame htrace hb
  have hgets : ∀ i, u.get i = s.get i := by
    intro i
    rw [hsame.get, give_get]
    simp [get]
  obtain ⟨hid, hlt, hclosing⟩ := h.table.keys _ k hk
  have hbackendu : (u.states k).backend = some n := by
    rw [hsame.backend, give_states, if_pos (by rfl)]
  have hidu : (u.states k).hostId = (s.states n).hostId := by
    rw [hsame.hostId, give_states, if_pos (by rfl)]
    exact hid
  have hclosingu : (u.states k).closing = false := by
    rw [hsame.closing, give_states, if_pos (by rfl)]
    exact hclosing
  cases ends with
  | false =>
    rw [if_neg (by simp)] at hb
    refine hnot ⟨(hb.own (s.states n).hostId k n ?_ ?_).symm, by rfl⟩
    · rw [log_get, hgets, hk]
    · rw [log_states, hbackendu]
  | true =>
    obtain ⟨⟨i, hi⟩, htorn⟩ := (h.standing k).listed _ hk
    rw [if_pos (by rfl), onEnd] at hb
    have hgetu : u.get (u.states k).hostId = some k := by rw [hidu, hgets, hk]
    obtain ⟨ourId, hclose⟩ := beginClose_trace hclosingu .backendEnded "closed"
      fun j hj ↦ Option.some.inj (hj.symm.trans hgetu)
    rw [hgetu, if_neg (by simp), htrace, hbackendu] at hclose
    have htornes : .tornDown k ∉ es := by
      intro hmem
      simp [inert] at hes
      simpa [inert] using hes _ hmem
    have hlast := (hb.last_clse (i := i) (k := k) ?_ (fun j hj ↦ ?_) ?_).1
    · rw [log_trace] at hlast
      simp [reply?] at hlast
    · rw [log_trace, hclose]
      simp [hi]
    · rw [log_get, beginClose_get, hidu] at hj
      split_ifs at hj with heq
      rw [hgets] at hj
      exact heq (hid.symm.trans (h.table.keys j k hj).1)
    · rw [log_trace, hclose]
      simp [htorn, htornes]

/-- **A step that meets another stream** takes streams and backends apart. -/
theorem Kept.keepsApart (h : Kept s) {e : MuxEvent} (hstep : s.step maxStreams e = some t)
    (hb : Bound t) : s.KeepsApart maxStreams e := by
  cases e with
  | open_ hostId payload =>
    cases hstep
    intro hfull
    cases hk : s.get hostId with
    | none => rfl
    | some k => exact absurd hb (not_bound_handleOpen h hfull hk)
  | wrte hostId payload defers =>
    cases hstep
    intro k hk hnone
    rw [StreamMux.handleWrte, hk] at hb
    dsimp only at hb
    rw [hnone] at hb
    have hreplies := hb.pending hostId k (by rw [log_get, hk]) (by rw [log_states, hnone])
    simp [reply?] at hreplies
  | resolved n early ends =>
    obtain ⟨hn, ⟨⟩⟩ := Option.ite_none_right_eq_some.mp hstep
    intro k hk hbackend
    by_contra hnot
    exact not_bound_attach h hk hbackend hnot hb
  | rejected n =>
    obtain ⟨hn, ⟨⟩⟩ := Option.ite_none_right_eq_some.mp hstep
    by_contra hnot
    obtain ⟨hother, htorn⟩ := not_or.mp hnot
    exact not_bound_rejected h hn hother htorn hb
  | ended n =>
    obtain ⟨k, hk, rfl⟩ := Option.map_eq_some_iff.mp hstep
    intro k' hk' j hj
    cases hk.symm.trans hk'
    exact hb.removed j k (removed_mem_beginClose hj _ _)
  | okay | clse | other | data | settled | closeAll => trivial

/-- **Streams and backends belong together exactly as long as no step meets another stream under
its host id.** -/
theorem bound_iff (maxStreams : Nat) {es : List MuxEvent}
    (hrun : Steps (Steps.By (step maxStreams)) init es t) :
    (∀ pre, pre <+: es → ∀ u, Steps (Steps.By (step maxStreams)) init pre u → Bound u) ↔
      Steps.Guarded (Steps.By (step maxStreams)) (KeepsApart maxStreams) init es t :=
  hrun.always_iff_guarded Kept.init.bound Kept.init
    (fun _ _ _ hs hstep hguard ↦ hs.step hguard hstep)
    fun _ _ _ hs _ hstep ↦ ⟨hs.keepsApart hstep, fun hguard ↦ (hs.step hguard hstep).bound⟩

/-- The host closes a stream, the backend ends, and the host's id is used again. -/
def reopened : List MuxEvent :=
  [.open_ 1 "shell:a", .resolved 1 [] false, .clse 1, .ended 1, .open_ 1 "shell:b",
    .resolved 2 [] false]

/-- The second stream has the second backend. -/
theorem reopened_bound : ∃ t, Steps (Steps.By (step 8)) init reopened t ∧
    ∀ pre, pre <+: reopened → ∀ u, Steps (Steps.By (step 8)) init pre u → Bound u := by
  have hguarded : ∃ t, Steps.Guarded (Steps.By (step 8)) (KeepsApart 8) init reopened t := by
    refine ⟨_, .cons ⟨rfl, fun _ ↦ rfl⟩ (.cons ⟨rfl, fun k hk _ ↦ ?_⟩ (.cons ⟨rfl, trivial⟩
      (.cons ⟨rfl, fun k hk j hj ↦ ?_⟩ (.cons ⟨rfl, fun _ ↦ rfl⟩ (.cons ⟨rfl, fun k hk _ ↦ ?_⟩ .nil)))))⟩
    · exact ⟨(Option.some.inj (show some 1 = some k from hk)).symm, rfl⟩
    · obtain rfl : 1 = k := Option.some.inj (show some 1 = some k from hk)
      exact nomatch (show none = some j from hj)
    · exact ⟨(Option.some.inj (show some 2 = some k from hk)).symm, rfl⟩
  obtain ⟨t, ht⟩ := hguarded
  exact ⟨t, ht.steps, (bound_iff 8 ht.steps).mpr ht⟩

/-- The same, but the first backend reports its end only when the host's id is in use again. -/
def lateEnd : List MuxEvent :=
  [.open_ 1 "shell:a", .resolved 1 [] false, .clse 1, .open_ 1 "shell:b", .resolved 2 [] false,
    .ended 1]

/-- **The end of an old backend removes a later stream**, which leaves its backend with nobody. -/
theorem lateEnd_not_bound : ¬ ∀ (maxStreams : Nat) (es : List MuxEvent) (t : StreamMux),
    Steps (Steps.By (step maxStreams)) init es t → Bound t := by
  intro hall
  have hrun : ∃ t, Steps (Steps.By (step 8)) init lateEnd t ∧ .removed 2 1 ∈ t.trace :=
    ⟨_, Steps.steps_by_iff.mpr rfl, by decide⟩
  obtain ⟨t, hsteps, hmem⟩ := hrun
  exact absurd ((hall 8 lateEnd t hsteps).removed 2 1 hmem) (by decide)

end StreamMux

end Enkaku.Adb
