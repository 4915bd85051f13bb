import Enkaku.Lib.Steps
import Mathlib.Logic.Function.Basic

/-!
# The trace recorder

`recorder.ts`: events are numbered per run, published at once and stored in batches.  The counter of a
run is released when the run is flushed and when the recorder stops, and the next event is numbered
from what is stored.  A batch that was dropped is not, so its numbers are given again; as long as the
last number of a run is stored when its counter is released, none is (`trace_numbers`).
-/

set_option autoImplicit false

namespace Enkaku.Trace

variable {α : Type}

/-- A trace event, and the fields nothing here reads. -/
structure Event (α : Type) where
  runId : String
  seq : ℕ
  rest : α

def Event.key (e : Event α) : String × ℕ := (e.runId, e.seq)

/-- The table, what was published so far, and the recorder. -/
structure State (α : Type) where
  stored : List (Event α) := []
  published : List (Event α) := []
  buffer : List (Event α) := []
  seqByRun : String → Option ℕ := fun _ ↦ none
  timer : Bool := false
  stopped : Bool := false
  /-- Some batch was refused by the unique index. -/
  refused : Bool := false

namespace State

variable (s : State α)

/-- `nextSeq`: the number the next event of a run is given. -/
def nextSeq (runId : String) : ℕ :=
  match s.seqByRun runId with
  | some known => known + 1
  | none => ((s.stored.filter (·.runId = runId)).map (·.seq)).foldr max 0 + 1

/-- `writeBuffered`; the insert may fail, and does when a number is stored already. -/
def writeBuffered (fails : Bool) : State α :=
  if s.buffer = [] then s
  else if ¬ ((s.stored ++ s.buffer).map Event.key).Nodup then { s with buffer := [], refused := true }
  else if fails then { s with buffer := [] }
  else { s with stored := s.stored ++ s.buffer, buffer := [] }

def flushNow (fails : Bool) : State α := writeBuffered { s with timer := false } fails

def scheduleFlush : State α := if s.timer ∨ s.stopped then s else { s with timer := true }

/-- The event `record` numbers, buffered and published. -/
def noted (runId : String) (rest : α) : State α :=
  let event : Event α := ⟨runId, s.nextSeq runId, rest⟩
  { s with
    seqByRun := Function.update s.seqByRun runId (some event.seq)
    buffer := s.buffer ++ [event]
    published := s.published ++ [event] }

def record (maxBufferedRows : ℕ) (runId : String) (rest : α) (fails : Bool) : State α :=
  if s.stopped then s
  else if (s.noted runId rest).buffer.length ≥ maxBufferedRows then
    (s.noted runId rest).flushNow fails
  else (s.noted runId rest).scheduleFlush

def flush (runId : Option String) (fails : Bool) : State α :=
  match runId with
  | none => s.flushNow fails
  | some runId =>
    { s.flushNow fails with seqByRun := Function.update (s.flushNow fails).seqByRun runId none }

def stop (fails : Bool) : State α :=
  { flushNow { s with stopped := true } fails with seqByRun := fun _ ↦ none }

end State

/-- What happens to a recorder; `fails` says of an insert that it fails. -/
inductive Action (α : Type) where
  | record (runId : String) (rest : α) (fails : Bool)
  | timer (fails : Bool)
  | flush (runId : Option String) (fails : Bool)
  | stop (fails : Bool)
  /-- A new recorder on the same table, after a stop. -/
  | restart

def step (maxBufferedRows : ℕ) (s : State α) : Action α → Option (State α)
  | .record runId rest fails => some (s.record maxBufferedRows runId rest fails)
  | .timer fails => if s.timer then some (s.flushNow fails) else none
  | .flush runId fails => some (s.flush runId fails)
  | .stop fails => some (s.stop fails)
  | .restart =>
    if s.stopped then some { stored := s.stored, published := s.published, refused := s.refused }
    else none

/-- The last number of a run is stored, or is now. -/
def Stored (s : State α) (fails : Bool) (runId : String) : Prop :=
  ∀ last, s.seqByRun runId = some last →
    ∃ e ∈ s.stored ++ (bif fails then [] else s.buffer), e.runId = runId ∧ e.seq = last

/-- A counter is released when the last number of its run is stored. -/
def Releases (s : State α) : Action α → Prop
  | .flush (some runId) fails => Stored s fails runId
  | .stop fails => ∀ runId, Stored s fails runId
  | _ => True

/-! ## What runs keep -/

/-- The numbers are no higher than the counters, and where there is none than what is stored. -/
def Counted (s : State α) (events : List (Event α)) : Prop :=
  ∀ e ∈ events, (∀ last, s.seqByRun e.runId = some last → e.seq ≤ last) ∧
    (s.seqByRun e.runId = none → ∃ e' ∈ s.stored, e'.runId = e.runId ∧ e.seq ≤ e'.seq)

/-- What a run keeps; the numbers that were published grow if it is `secured`. -/
structure Kept (secured : Prop) (s : State α) : Prop where
  distinct : ((s.stored ++ s.buffer).map Event.key).Nodup
  published : s.stored ++ s.buffer ⊆ s.published
  counted : Counted s (s.stored ++ s.buffer)
  accepted : s.refused = false
  idle : s.stopped = true → s.buffer = [] ∧ s.seqByRun = fun _ ↦ none
  growing : secured → ∀ runId,
    ((s.published.filter (·.runId = runId)).map (·.seq)).Pairwise (· < ·)
  numbered : secured → Counted s s.published

variable {s t : State α} {events : List (Event α)} {secured : Prop}

theorem le_highest {seqs : List ℕ} {seq : ℕ} (h : seq ∈ seqs) : seq ≤ seqs.foldr max 0 := by
  induction seqs with
  | nil => exact nomatch h
  | cons n seqs ih =>
    rcases List.mem_cons.mp h with rfl | h
    · exact Nat.le_max_left ..
    · exact Nat.le_trans (ih h) (Nat.le_max_right ..)

/-- The next number of a run is above what was counted. -/
theorem Counted.lt_nextSeq (h : Counted s events) {e : Event α} (he : e ∈ events) :
    e.seq < s.nextSeq e.runId := by
  rw [State.nextSeq]
  cases hknown : s.seqByRun e.runId with
  | some last => exact Nat.lt_succ_of_le ((h e he).1 last hknown)
  | none =>
    obtain ⟨e', he', hrun, hle⟩ := (h e he).2 hknown
    refine Nat.lt_succ_of_le (Nat.le_trans hle (le_highest (List.mem_map_of_mem ?_)))
    exact List.mem_filter.mpr ⟨he', decide_eq_true hrun⟩

theorem Counted.noted (h : Counted s events) (runId : String) (rest : α) :
    Counted (s.noted runId rest) (events ++ [⟨runId, s.nextSeq runId, rest⟩]) := by
  intro e he
  by_cases hrun : e.runId = runId
  · have hle : e.seq ≤ s.nextSeq runId := by
      rcases List.mem_append.mp he with he | he
      · exact Nat.le_of_lt (hrun ▸ h.lt_nextSeq he)
      · exact Nat.le_of_eq (congrArg Event.seq (List.mem_singleton.mp he))
    simpa [State.noted, hrun] using hle
  · have he : e ∈ events := by
      rcases List.mem_append.mp he with he | he
      · exact he
      · exact absurd (List.mem_singleton.mp he ▸ rfl) hrun
    simpa [State.noted, hrun] using h e he

/-- Counters may be released where the numbers are stored. -/
theorem Counted.release (h : Counted s events) {counters : String → Option ℕ}
    (hsame : ∀ e ∈ events, counters e.runId = s.seqByRun e.runId ∨ counters e.runId = none ∧
      ∃ e' ∈ s.stored, e'.runId = e.runId ∧ e.seq ≤ e'.seq) :
    Counted { s with seqByRun := counters } events := by
  intro e he
  rcases hsame e he with hsame | ⟨hnone, hstored⟩
  · simpa [hsame] using h e he
  · simpa [hnone] using hstored

/-- What an insert makes of the state. -/
def written (s : State α) (fails : Bool) : State α :=
  { s with stored := s.stored ++ (bif fails then [] else s.buffer), buffer := [], timer := false }

theorem flushNow_eq (h : ((s.stored ++ s.buffer).map Event.key).Nodup) (fails : Bool) :
    s.flushNow fails = written s fails := by
  rw [State.flushNow, State.writeBuffered, written]
  by_cases hnil : s.buffer = []
  · cases fails <;> simp [hnil]
  · rw [if_neg hnil, if_neg (not_not.mpr h)]
    cases fails <;> simp

theorem Counted.written (h : Counted s events) (fails : Bool) : Counted (written s fails) events := by
  refine fun e he ↦ ⟨(h e he).1, fun hnone ↦ ?_⟩
  obtain ⟨e', he', hle⟩ := (h e he).2 hnone
  exact ⟨e', List.mem_append_left _ he', hle⟩

theorem Kept.written (h : Kept secured s) (fails : Bool) : Kept secured (written s fails) := by
  have hsub : List.Sublist ((Trace.written s fails).stored ++ []) (s.stored ++ s.buffer) := by
    rw [List.append_nil]
    cases fails
    · exact List.Sublist.refl _
    · exact List.Sublist.append_left (List.nil_sublist _) _
  exact ⟨h.distinct.sublist (hsub.map _), fun e he ↦ h.published (hsub.subset he),
    fun e he ↦ h.counted.written fails e (hsub.subset he), h.accepted, fun hs ↦ ⟨rfl, (h.idle hs).2⟩,
    h.growing, fun hg ↦ (h.numbered hg).written fails⟩

/-- Releasing counters once the batch is written. -/
theorem Kept.release (h : Kept secured s) (fails : Bool) {counters : String → Option ℕ} (stopped : Bool)
    (hidle : stopped = true → counters = fun _ ↦ none)
    (hsame : ∀ runId, counters runId = s.seqByRun runId ∨
      counters runId = none ∧ (secured → Stored s fails runId)) :
    Kept secured { Trace.written s fails with seqByRun := counters, stopped := stopped } := by
  have hw := h.written fails
  refine ⟨hw.distinct, hw.published, hw.counted.release fun e he ↦ ?_, hw.accepted,
    fun hs ↦ ⟨rfl, hidle hs⟩, hw.growing, fun hg ↦ (hw.numbered hg).release fun e he ↦ ?_⟩
  · rw [show (Trace.written s fails).buffer = [] from rfl, List.append_nil] at he
    exact (hsame e.runId).imp_right fun hnone ↦ ⟨hnone.1, e, he, rfl, Nat.le_refl _⟩
  · refine (hsame e.runId).imp_right fun hnone ↦ ⟨hnone.1, ?_⟩
    cases hlast : s.seqByRun e.runId with
    | none => exact (hw.numbered hg e he).2 hlast
    | some last =>
      obtain ⟨e', he', hrun, hseq⟩ := hnone.2 hg last hlast
      exact ⟨e', he', hrun, hseq ▸ (h.numbered hg e he).1 last hlast⟩

theorem Kept.noted (h : Kept secured s) (hstopped : s.stopped = false) (runId : String) (rest : α) :
    Kept secured (s.noted runId rest) := by
  have hassoc : (s.noted runId rest).stored ++ (s.noted runId rest).buffer =
      s.stored ++ s.buffer ++ [⟨runId, s.nextSeq runId, rest⟩] := (List.append_assoc ..).symm
  refine ⟨?_, ?_, hassoc ▸ h.counted.noted runId rest, h.accepted,
    fun hs ↦ absurd (hstopped.symm.trans hs) (by decide), fun hg runId' ↦ ?_,
    fun hg ↦ (h.numbered hg).noted runId rest⟩
  · rw [hassoc, List.map_append, List.nodup_append]
    refine ⟨h.distinct, List.pairwise_singleton _ _, ?_⟩
    rintro _ hmem _ hnew rfl
    obtain ⟨e, he, hkey⟩ := List.mem_map.mp hmem
    obtain ⟨rfl, hseq⟩ := Prod.mk.inj (hkey.trans (List.mem_singleton.mp hnew))
    exact absurd hseq (Nat.ne_of_lt (h.counted.lt_nextSeq he))
  · rw [hassoc]
    exact List.append_subset.mpr ⟨fun e he ↦ List.mem_append_left _ (h.published he),
      fun e he ↦ List.mem_append_right _ he⟩
  · rw [State.noted]
    dsimp only
    rw [List.filter_append, List.map_append, List.pairwise_append]
    refine ⟨h.growing hg runId', (List.pairwise_singleton _ _).sublist (List.filter_sublist.map _), ?_⟩
    intro a ha b hb
    obtain ⟨e, he, rfl⟩ := List.mem_map.mp ha
    obtain ⟨e', he', rfl⟩ := List.mem_map.mp hb
    obtain ⟨hmem, hrun⟩ := List.mem_filter.mp he
    obtain ⟨hnew, hrun'⟩ := List.mem_filter.mp he'
    cases List.mem_singleton.mp hnew
    have hsame : runId = e.runId := (of_decide_eq_true hrun').trans (of_decide_eq_true hrun).symm
    exact hsame ▸ (h.numbered hg).lt_nextSeq hmem

theorem Kept.step {maxBufferedRows : ℕ} {a : Action α} (h : Kept secured s)
    (hstep : step maxBufferedRows s a = some t) (hreleases : secured → Releases s a) :
    Kept secured t := by
  cases a with
  | record runId rest fails =>
    cases hstep
    rw [State.record]
    split_ifs with hstopped hfull
    · exact h
    · have hn := h.noted (Bool.eq_false_iff.mpr hstopped) runId rest
      exact flushNow_eq hn.distinct fails ▸ hn.written fails
    · have hn := h.noted (Bool.eq_false_iff.mpr hstopped) runId rest
      rw [State.scheduleFlush]
      split_ifs
      · exact hn
      · exact ⟨hn.distinct, hn.published, hn.counted, hn.accepted, hn.idle, hn.growing, hn.numbered⟩
  | timer fails =>
    obtain ⟨-, ⟨⟩⟩ := Option.ite_none_right_eq_some.mp hstep
    exact flushNow_eq h.distinct fails ▸ h.written fails
  | flush runId fails =>
    cases hstep
    rw [State.flush.eq_def, flushNow_eq h.distinct fails]
    cases runId with
    | none => exact h.written fails
    | some runId =>
      refine h.release fails s.stopped (fun hs ↦ ?_) fun runId' ↦ ?_
      · rw [show (Trace.written s fails).seqByRun = fun _ ↦ none from (h.idle hs).2]
        exact Function.update_eq_self runId (fun _ ↦ none)
      · by_cases hrun : runId' = runId
        · subst hrun
          exact .inr ⟨Function.update_self .., hreleases⟩
        · exact .inl (Function.update_of_ne hrun ..)
  | stop fails =>
    cases hstep
    rw [State.stop, flushNow_eq (s := { s with stopped := true }) h.distinct fails]
    exact h.release fails true (fun _ ↦ rfl) fun runId ↦ .inr ⟨rfl, fun hg ↦ hreleases hg runId⟩
  | restart =>
    obtain ⟨hs, ⟨⟩⟩ := Option.ite_none_right_eq_some.mp hstep
    obtain ⟨hbuffer, hcounters⟩ := h.idle hs
    have hfresh : ({ stored := s.stored, published := s.published, refused := s.refused } : State α) =
        { s with timer := false, stopped := false } := by rw [hbuffer, hcounters]
    rw [hfresh]
    exact ⟨h.distinct, h.published, h.counted, h.accepted, nofun, h.growing, h.numbered⟩

/-- **Trace numbers are never reused**, as long as the counter of a run is released when its last number
is stored.  No batch is ever refused, and what is stored was published. -/
theorem trace_numbers {maxBufferedRows : ℕ} {actions : List (Action α)} {s : State α}
    (h : Steps (Steps.By (step maxBufferedRows)) {} actions s) :
    s.refused = false ∧ s.stored ⊆ s.published ∧ (s.stored.map Event.key).Nodup ∧
      (Steps.Guarded (Steps.By (step maxBufferedRows)) Releases {} actions s → ∀ runId,
        ((s.published.filter (·.runId = runId)).map (·.seq)).Pairwise (· < ·)) := by
  have hstart : ∀ secured, Kept secured ({} : State α) := fun _ ↦
    ⟨List.Pairwise.nil, List.nil_subset _, nofun, rfl, nofun, fun _ _ ↦ List.Pairwise.nil, fun _ ↦ nofun⟩
  have hkept := h.invariant (hstart False) fun _ _ _ hs hstep ↦ hs.step hstep False.elim
  refine ⟨hkept.accepted, (List.append_subset.mp hkept.published).1, ?_, fun hguarded ↦ ?_⟩
  · exact hkept.distinct.sublist ((List.sublist_append_left _ _).map _)
  · refine (Steps.invariant_of_guarded hguarded (hstart True) fun _ _ _ hs hstep hreleases ↦ ?_).growing
      trivial
    exact hs.step hstep fun _ ↦ hreleases

/-- A batch is dropped as its run is released: the next event has the number of the one before. -/
theorem dropped_number_reused : ((List.foldlM (step 200) ({} : State Unit)
    [.record "r" () false, .flush (some "r") true, .record "r" () false]).map
      fun s ↦ s.published.map Event.key) = some [("r", 1), ("r", 1)] := by
  decide

/-- A flush whose batch is stored, and a restart. -/
theorem trace_numbers_restarted : ∃ s : State Unit, s.stored.map Event.key = [("r", 1), ("r", 2)] ∧
    s.refused = false := by
  have h : Steps (Steps.By (step 200)) ({} : State Unit) [.record "r" () false, .flush (some "r") false,
    .record "r" () false, .stop false, .restart, .record "r" () false] _ := Steps.steps_by_iff.mpr rfl
  exact ⟨_, rfl, (trace_numbers h).1⟩

/-! ## What waits to be stored -/

def Action.fails : Action α → Bool
  | .record _ _ fails | .timer fails | .flush _ fails | .stop fails => fails
  | .restart => false

/-- Less than a batch is buffered, with a flush pending for it, and nothing once the recorder stopped.
If no insert failed, what was published is stored or buffered, once and in that order. -/
structure Waiting (maxBufferedRows : ℕ) (intact : Prop) (s : State α) : Prop where
  room : s.buffer.length < maxBufferedRows
  pending : s.buffer ≠ [] → s.timer = true
  stopped : s.stopped = true → s.buffer = [] ∧ s.timer = false
  stored : intact → s.stored ++ s.buffer = s.published

variable {maxBufferedRows : ℕ} {intact : Prop}

theorem waiting_written (hmax : 0 < maxBufferedRows) {fails : Bool} (hfails : intact → fails = false)
    (hstored : intact → s.stored ++ s.buffer = s.published) :
    Waiting maxBufferedRows intact (written s fails) := by
  refine ⟨hmax, fun hne ↦ absurd rfl hne, fun _ ↦ ⟨rfl, rfl⟩, fun hi ↦ ?_⟩
  rw [hfails hi]
  exact (List.append_nil _).trans (hstored hi)

theorem Waiting.step {a : Action α} (hmax : 0 < maxBufferedRows) (hkept : Kept secured s)
    (h : Waiting maxBufferedRows intact s) (hfails : intact → a.fails = false)
    (hstep : step maxBufferedRows s a = some t) : Waiting maxBufferedRows intact t := by
  cases a with
  | record runId rest fails =>
    cases hstep
    rw [State.record]
    split_ifs with hstopped hfull
    · exact h
    all_goals
      have hn := hkept.noted (Bool.eq_false_iff.mpr hstopped) runId rest
      have hnoted : intact → (s.noted runId rest).stored ++ (s.noted runId rest).buffer =
          (s.noted runId rest).published := fun hi ↦ by simp [State.noted, ← h.stored hi]
    · exact flushNow_eq hn.distinct fails ▸ waiting_written hmax hfails hnoted
    · have hroom := Nat.lt_of_not_le hfull
      rw [State.scheduleFlush]
      split_ifs with htimer
      · have hpending := htimer.resolve_right hstopped
        exact ⟨hroom, fun _ ↦ hpending, fun hs ↦ absurd hs hstopped, hnoted⟩
      · exact ⟨hroom, fun _ ↦ rfl, fun hs ↦ absurd hs hstopped, hnoted⟩
  | timer fails =>
    obtain ⟨-, ⟨⟩⟩ := Option.ite_none_right_eq_some.mp hstep
    exact flushNow_eq hkept.distinct fails ▸ waiting_written hmax hfails h.stored
  | flush runId fails =>
    cases hstep
    have hw := waiting_written hmax hfails h.stored
    rw [State.flush.eq_def, flushNow_eq hkept.distinct fails]
    cases runId <;> exact ⟨hw.room, hw.pending, hw.stopped, hw.stored⟩
  | stop fails =>
    cases hstep
    have hw := waiting_written hmax hfails h.stored
    rw [State.stop, flushNow_eq (s := { s with stopped := true }) hkept.distinct fails]
    exact ⟨hw.room, hw.pending, fun _ ↦ ⟨rfl, rfl⟩, hw.stored⟩
  | restart =>
    obtain ⟨hs, ⟨⟩⟩ := Option.ite_none_right_eq_some.mp hstep
    refine ⟨hmax, fun hne ↦ absurd rfl hne, fun _ ↦ ⟨rfl, rfl⟩, fun hi ↦ ?_⟩
    have hstored := h.stored hi
    rwa [(hkept.idle hs).1] at hstored

/-- **Nothing waits for nothing, and nothing is lost** that no insert failed for. -/
theorem recorded (hmax : 0 < maxBufferedRows) {actions : List (Action α)} {s : State α}
    (h : Steps (Steps.By (step maxBufferedRows)) {} actions s) :
    Waiting maxBufferedRows (∀ a ∈ actions, a.fails = false) s := by
  have hboth : Kept False s ∧ Waiting maxBufferedRows (∀ a ∈ actions, a.fails = false) s := by
    induction h with
    | nil =>
      exact ⟨⟨.nil, List.nil_subset _, nofun, rfl, nofun, fun _ _ ↦ .nil, fun _ ↦ nofun⟩, hmax,
        fun hne ↦ absurd rfl hne, fun _ ↦ ⟨rfl, rfl⟩, fun _ ↦ rfl⟩
    | snoc _ hstep ih =>
      obtain ⟨hkept, hw⟩ := ih
      refine ⟨hkept.step hstep False.elim, Waiting.step hmax hkept ⟨hw.room, hw.pending, hw.stopped,
        fun hall ↦ hw.stored fun a ha ↦ hall a (List.mem_append_left _ ha)⟩ (fun hall ↦ ?_) hstep⟩
      exact hall _ (List.mem_append_right _ (List.mem_singleton_self _))
  exact hboth.2

/-- A full batch is stored at once, and the event after it waits. -/
theorem recorded_full : ∃ s : State Unit, s.stored.map Event.key = [("r", 1), ("r", 2)] ∧
    Waiting 2 (∀ a ∈ [Action.record "r" () false, .record "r" () false, .record "s" () false],
      a.fails = false) s :=
  ⟨_, rfl, recorded (by decide) (Steps.steps_by_iff.mpr rfl)⟩

end Enkaku.Trace
