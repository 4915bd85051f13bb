import Enkaku.Kv.Store

/-!
# Expired entries

An expired entry is to read as absent whether or not `sweepExpired` has been there.  Here is exactly
when an operation answers the same and leaves the same live rows as after a sweep
(`run_eq_sweep_run_iff`).  Reading always does.  A write does not if it takes the expired row for the
entry it is to replace, or refuses on account of it, or counts expired rows against a quota.
-/

set_option autoImplicit false

namespace Enkaku.Kv

open List Option

/-- An operation of the store. -/
inductive KvOp where
  | get (scope : KvScope) (ns key : String)
  | set (scope : KvScope) (ns key : String) (value : Value) (opts : KvSetOptions)
  | setIfVersion (scope : KvScope) (ns key : String) (value : Value) (expectedVersion : Nat)
    (opts : KvSetOptions)
  | increment (scope : KvScope) (ns key : String) (by' : ℚ)
  | delete (scope : KvScope) (ns key : String) (ifVersion : Option Nat)
  | list (scope : KvScope) (ns : String) (q : KvListQuery)
  | namespaces (scope : KvScope)

/-- What an operation returns. -/
inductive KvAnswer where
  | entry (e : Option KvEntry)
  | number (next : ℚ)
  | deleted (done : Bool)
  | page (page : Page)
  | namespaces (summaries : List KvNamespaceSummary)

namespace KvStore

/-- What an operation returns or throws and the store it leaves: the one it was called on, if it
throws. -/
def settle {α : Type} (s : KvStore) (answer : α → KvAnswer) :
    Except KvError (α × KvStore) → Except KvError KvAnswer × KvStore
  | .error err => (.error err, s)
  | .ok (a, s') => (.ok (answer a), s')

/-- An operation. -/
def run (rt : Runtime) (q : KvQuotas) (now : ℤ) (s : KvStore) :
    KvOp → Except KvError KvAnswer × KvStore
  | .get scope ns key => ((s.get rt now scope ns key).map .entry, s)
  | .set scope ns key value opts =>
    s.settle (.entry ∘ some) (s.set rt q now scope ns key value opts)
  | .setIfVersion scope ns key value expectedVersion opts =>
    s.settle .entry (s.setIfVersion rt q now scope ns key value expectedVersion opts)
  | .increment scope ns key by' => s.settle .number (s.increment rt q now scope ns key by')
  | .delete scope ns key ifVersion => s.settle .deleted (.ok (s.delete scope ns key ifVersion))
  | .list scope ns query => ((s.list rt now scope ns query).map .page, s)
  | .namespaces scope => (.ok (.namespaces (s.namespaces now scope)), s)

/-- The rows that have not expired. -/
def live (now : ℤ) (s : KvStore) : List KvEntryRow := s.rows.filter fun r ↦ ¬ r.isExpired now

/-! ## When an operation is not affected -/

/-- No quota is reached, or nothing that counts against the first that is has expired. -/
def RoomAgrees (q : KvQuotas) (now : ℤ) (s : KvStore) (scope : KvScope) (ns : String) : Prop :=
  if (s.scanNamespace scope ns).length + 1 > q.maxEntriesPerNamespace then
    ∀ r ∈ s.scanNamespace scope ns, ¬ r.isExpired now
  else match scope with
    | .global => True
    | .device stableId => (s.scanDevice stableId).length + 1 > q.maxEntriesPerDevice →
      ∀ r ∈ s.scanDevice stableId, ¬ r.isExpired now

/-- What is to be written is refused, whatever is there. -/
def Refused (rt : Runtime) (q : KvQuotas) (key : String) (value : Value) : Prop :=
  ∃ err, checkWrite rt q key value = .error err

/-- The operation takes nothing that has expired for present. -/
def Unaffected (rt : Runtime) (q : KvQuotas) (now : ℤ) (s : KvStore) : KvOp → Prop
  | .set scope ns key value _ => Refused rt q key value ∨
    match s.getRow scope ns key with
    | none => RoomAgrees q now s scope ns
    | some r => ¬ r.isExpired now
  | .setIfVersion scope ns key _ expectedVersion _ =>
    ∀ r ∈ s.getRow scope ns key, r.version = expectedVersion → ¬ r.isExpired now
  | .increment scope ns key by' =>
    match s.getRow scope ns key with
    | none => Refused rt q key (.num by') ∨ RoomAgrees q now s scope ns
    | some r => r.isExpired now → Refused rt q key (.num by')
  | .delete scope ns key ifVersion =>
    ∀ r ∈ s.getRow scope ns key, ifVersion.all (· = r.version) → ¬ r.isExpired now
  | .get .. | .list .. | .namespaces .. => True

/-! ## What a sweep leaves -/

variable {rt : Runtime} {q : KvQuotas} {now : ℤ} {s s' : KvStore} {scope : KvScope} {ns key : String}
  {r : KvEntryRow} {w : KvWrite}

theorem mem_of_getRow (h : s.getRow scope ns key = some r) :
    r ∈ s.rows ∧ r.identity = (scope, ns, key) :=
  ⟨mem_of_find?_eq_some h, by simpa using find?_some h⟩

/-- A row is the one its identity finds. -/
theorem getRow_eq (hr : r ∈ s.rows) (hid : r.identity = (scope, ns, key)) :
    s.getRow scope ns key = some r := by
  cases h : s.getRow scope ns key with
  | none => exact absurd hid (by simpa using find?_eq_none.mp h r hr)
  | some r' =>
    obtain ⟨hr', hid'⟩ := mem_of_getRow h
    rw [inj_on_of_nodup_map s.identities hr' hr (hid'.trans hid.symm)]

theorem sweepExpired_rows : (s.sweepExpired now).rows = s.live now := rfl

theorem getRow_sweepExpired :
    (s.sweepExpired now).getRow scope ns key =
      (s.getRow scope ns key).filter fun r ↦ ¬ r.isExpired now := by
  cases h : s.getRow scope ns key with
  | none =>
    rw [getRow, find?_eq_none] at h
    simp only [filter_none, getRow, find?_eq_none]
    exact fun r hr ↦ h r (mem_of_mem_filter hr)
  | some r =>
    obtain ⟨hr, hid⟩ := mem_of_getRow h
    by_cases hexpired : r.isExpired now
    · rw [filter_some, if_neg (by simp [hexpired]), getRow, find?_eq_none]
      intro r' hr' hid'
      obtain ⟨hr', hlive⟩ := mem_filter.mp hr'
      have hsame : r'.identity = (scope, ns, key) := by simpa using hid'
      obtain rfl : r' = r :=
        inj_on_of_nodup_map s.identities hr' hr (hsame.trans hid.symm)
      simp [hexpired] at hlive
    · rw [filter_some, if_pos (by simpa using hexpired)]
      exact getRow_eq (mem_filter.mpr ⟨hr, by simpa using hexpired⟩) hid

theorem scanNamespace_sweepExpired :
    (s.sweepExpired now).scanNamespace scope ns =
      (s.scanNamespace scope ns).filter fun r ↦ ¬ r.isExpired now := by
  simp only [scanNamespace, sweepExpired_rows, live, List.filter_filter, Bool.and_comm]

theorem scanDevice_sweepExpired (stableId : String) :
    (s.sweepExpired now).scanDevice stableId =
      (s.scanDevice stableId).filter fun r ↦ ¬ r.isExpired now := by
  simp only [scanDevice, sweepExpired_rows, live, List.filter_filter, Bool.and_comm]

@[simp] theorem live_sweepExpired : (s.sweepExpired now).live now = s.live now := by
  simp only [live, sweepExpired, keep, List.filter_filter, Bool.and_self]

theorem live_keep (p : KvEntryRow → Bool) :
    ((s.sweepExpired now).keep p).live now = (s.keep p).live now := by
  simp only [live, sweepExpired, keep, List.filter_filter]
  congr 1
  funext r
  cases p r <;> cases r.isExpired now <;> rfl

/-- A row that has not expired is updated alike. -/
theorem live_update (hr : r ∈ s.rows) (hlive : r.isExpired now = false) :
    ((s.sweepExpired now).update r.id w).live now = (s.update r.id w).live now := by
  simp only [live, update, sweepExpired, keep, List.filter_map, List.filter_filter]
  congr 1
  refine List.filter_congr fun r' hr' ↦ ?_
  by_cases hid : r'.id = r.id
  · obtain rfl := inj_on_of_nodup_map s.ids hr' hr hid
    simp [hlive]
  · simp [hid]

theorem getRow_eq_none_iff :
    s.getRow scope ns key = none ↔ (scope, ns, key) ∉ s.rows.map (·.identity) := by
  rw [getRow, find?_eq_none]
  simp

theorem insert_of_none (h : s.getRow scope ns key = none) :
    ∃ s', s.insert scope ns key w = .ok s' ∧ s'.rows = s.rows ++ [⟨s.nextId, scope, ns, key, w⟩] := by
  rw [insert, dif_neg (getRow_eq_none_iff.mp h)]
  exact ⟨_, rfl, rfl⟩

theorem insert_of_some (h : s.getRow scope ns key = some r) :
    s.insert scope ns key w = .error .unique := by
  obtain ⟨hr, hid⟩ := mem_of_getRow h
  rw [insert, dif_pos (mem_map.mpr ⟨r, hr, hid⟩)]

/-! ## Counting against the quotas -/

theorem filter_live_eq {rows : List KvEntryRow} (h : ∀ r ∈ rows, ¬ r.isExpired now) :
    (rows.filter fun r ↦ ¬ r.isExpired now) = rows :=
  filter_eq_self.mpr fun r hr ↦ by simpa using h r hr

theorem length_filter_live_lt {rows : List KvEntryRow} (h : ¬ ∀ r ∈ rows, ¬ r.isExpired now) :
    (rows.filter fun r ↦ ¬ r.isExpired now).length < rows.length := by
  push Not at h
  obtain ⟨r, hr, hexpired⟩ := h
  exact length_filter_lt_length_iff_exists.mpr ⟨r, hr, by simpa using hexpired⟩

theorem checkQuota_sweepExpired (h : RoomAgrees q now s scope ns) :
    checkQuota q (s.sweepExpired now) scope ns = checkQuota q s scope ns := by
  have hle := length_filter_le (fun r ↦ ¬ KvEntryRow.isExpired now r) (s.scanNamespace scope ns)
  unfold RoomAgrees at h
  simp only [checkQuota, scanNamespace_sweepExpired]
  split_ifs at h with hfull
  · rw [filter_live_eq h, if_pos hfull, if_pos hfull]
  · rw [if_neg (by omega), if_neg hfull]
    cases scope with
    | global => rfl
    | device stableId =>
      have hle' := length_filter_le (fun r ↦ ¬ KvEntryRow.isExpired now r) (s.scanDevice stableId)
      simp only [scanDevice_sweepExpired]
      by_cases hfull' : (s.scanDevice stableId).length + 1 > q.maxEntriesPerDevice
      · rw [filter_live_eq (h hfull')]
      · rw [if_neg (by omega), if_neg hfull']

/-- Otherwise a quota refuses, and not after a sweep, or on other grounds. -/
theorem checkQuota_sweepExpired_ne (h : ¬ RoomAgrees q now s scope ns) :
    ∃ err, checkQuota q s scope ns = .error err ∧
      checkQuota q (s.sweepExpired now) scope ns ≠ .error err := by
  unfold RoomAgrees at h
  simp only [checkQuota, scanNamespace_sweepExpired]
  split_ifs at h with hfull
  · have hlt := length_filter_live_lt h
    refine ⟨_, if_pos hfull, ?_⟩
    split_ifs
    · intro heq
      simp only [Except.error.injEq, KvError.namespaceQuota.injEq] at heq
      omega
    · cases scope with
      | global => simp
      | device stableId =>
        simp only
        split_ifs <;> simp
  · rw [if_neg hfull]
    cases scope with
    | global => exact absurd trivial h
    | device stableId =>
      simp only [Classical.not_imp] at h
      have hlt := length_filter_live_lt h.2
      have hle := length_filter_le (fun r ↦ ¬ KvEntryRow.isExpired now r)
        (s.scanNamespace (.device stableId) ns)
      refine ⟨_, if_pos h.1, ?_⟩
      rw [if_neg (by omega)]
      simp only [scanDevice_sweepExpired]
      split_ifs
      · intro heq
        simp only [Except.error.injEq, KvError.deviceQuota.injEq] at heq
        omega
      · simp

/-! ## Two ends of an operation -/

/-- The same is thrown, or the same is returned and the live rows are the same. -/
def Agree {α : Type} (now : ℤ) : Except KvError (α × KvStore) → Except KvError (α × KvStore) → Prop
  | .error err, .error err' => err = err'
  | .ok (a, s), .ok (a', s') => a = a' ∧ s.live now = s'.live now
  | _, _ => False

variable {α β : Type} {x x' : Except KvError (α × KvStore)}

theorem settle_eq_iff {answer : α → KvAnswer} (hinj : Function.Injective answer) :
    ((s.settle answer x).1 = ((s.sweepExpired now).settle answer x').1 ∧
      (s.settle answer x).2.live now = ((s.sweepExpired now).settle answer x').2.live now) ↔
      Agree now x x' := by
  cases x with
  | error err =>
    cases x' with
    | error err' => simp [settle, Agree]
    | ok p' => simp [settle, Agree]
  | ok p =>
    cases x' with
    | error err' => simp [settle, Agree]
    | ok p' => simp [settle, Agree, hinj.eq_iff]

theorem agree_error {err : KvError} : Agree now (.error err) x' ↔ x' = .error err := by
  cases x' with
  | error err' => simp [Agree, eq_comm]
  | ok p' => simp [Agree]

theorem Agree.map (h : Agree now x x') (f : α → β) :
    Agree now (x.map fun p ↦ (f p.1, p.2)) (x'.map fun p ↦ (f p.1, p.2)) := by
  cases x with
  | error err =>
    rw [agree_error] at h
    subst h
    exact rfl
  | ok p =>
    cases x' with
    | error err' => exact h.elim
    | ok p' => exact ⟨congrArg f h.1, h.2⟩

/-- What is thrown in one and not in the other. -/
theorem not_agree_map (h : ∃ err, x = .error err ∧ x' ≠ .error err) (f : α → β) :
    ¬ Agree now (x.map fun p ↦ (f p.1, p.2)) (x'.map fun p ↦ (f p.1, p.2)) := by
  obtain ⟨err, rfl, hne⟩ := h
  cases x' with
  | error err' =>
    rintro (rfl : err = err')
    exact hne rfl
  | ok p' => exact id

/-- A row that has not expired is written over alike. -/
theorem writeRow_some_agree (hr : r ∈ s.rows) (hlive : r.isExpired now = false) (value : Value)
    (opts : KvSetOptions) :
    Agree now (writeRow rt q now s scope ns key value opts (some r))
      (writeRow rt q now (s.sweepExpired now) scope ns key value opts (some r)) := by
  simp only [writeRow]
  cases checkWrite rt q key value with
  | error err => exact rfl
  | ok json => exact ⟨rfl, (live_update hr hlive).symm⟩

/-- A new row is written alike if there is room or not in both. -/
theorem writeRow_none_agree (hnone : s.getRow scope ns key = none) {value : Value}
    (h : Refused rt q key value ∨ RoomAgrees q now s scope ns) (opts : KvSetOptions) :
    Agree now (writeRow rt q now s scope ns key value opts none)
      (writeRow rt q now (s.sweepExpired now) scope ns key value opts none) := by
  have hswept : (s.sweepExpired now).getRow scope ns key = none := by
    rw [getRow_sweepExpired, hnone, filter_none]
  simp only [writeRow]
  rcases hcheck : checkWrite rt q key value with err | json
  · exact rfl
  · rw [checkQuota_sweepExpired (h.resolve_left fun ⟨err, herr⟩ ↦ by simp [hcheck] at herr)]
    simp only [Except.bind, bind]
    cases checkQuota q s scope ns with
    | error err => exact rfl
    | ok _ =>
      obtain ⟨s₁, heq₁, hrows₁⟩ := insert_of_none (w := columnsOf rt now json value opts none) hnone
      obtain ⟨s₂, heq₂, hrows₂⟩ := insert_of_none (w := columnsOf rt now json value opts none) hswept
      simp only [heq₁, heq₂, pure, Except.pure, Agree, true_and]
      rw [live, live, hrows₁, hrows₂, filter_append, filter_append]
      congr 1
      exact live_sweepExpired.symm

/-- Otherwise it is not. -/
theorem writeRow_none_ne (hswept : (s.sweepExpired now).getRow scope ns key = none) {value : Value}
    (h : ¬ Refused rt q key value) (hroom : ¬ RoomAgrees q now s scope ns) (opts : KvSetOptions) :
    ∃ err, writeRow rt q now s scope ns key value opts none = .error err ∧
      writeRow rt q now (s.sweepExpired now) scope ns key value opts none ≠ .error err := by
  obtain ⟨err, heq, hne⟩ := checkQuota_sweepExpired_ne hroom
  rcases hcheck : checkWrite rt q key value with err' | json
  · exact absurd ⟨err', hcheck⟩ h
  · refine ⟨err, by simp [writeRow, hcheck, heq, bind, Except.bind], ?_⟩
    simp only [writeRow, hcheck, bind, Except.bind]
    rcases hquota : checkQuota q (s.sweepExpired now) scope ns with err' | _
    · rw [hquota] at hne
      simpa using hne
    · obtain ⟨s', heq', -⟩ := insert_of_none (w := columnsOf rt now json value opts none) hswept
      simp [heq', pure, Except.pure]

/-- A row that has expired counts: either the quotas do not refuse, or not after a sweep. -/
theorem checkQuota_of_expired (hr : r ∈ s.rows) (hid : r.identity = (scope, ns, key))
    (hexpired : r.isExpired now) (hroom : RoomAgrees q now s scope ns) :
    checkQuota q s scope ns = .ok () := by
  have hscope : r.scope = scope := congrArg (·.1) hid
  have hns : r.ns = ns := congrArg (·.2.1) hid
  unfold RoomAgrees at hroom
  simp only [checkQuota]
  split_ifs at hroom with hfull
  · exact absurd hexpired (hroom r (mem_filter.mpr ⟨hr, by simp [hscope, hns]⟩))
  · rw [if_neg hfull]
    cases scope with
    | global => rfl
    | device stableId =>
      refine if_neg fun hfull' ↦ ?_
      exact absurd hexpired (hroom hfull' r (mem_filter.mpr ⟨hr, by simp [hscope]⟩))

/-- The index refuses what the quotas let pass, if the row has only expired. -/
theorem writeRow_none_expired (hget : s.getRow scope ns key = some r) (hexpired : r.isExpired now)
    {value : Value} (h : ¬ Refused rt q key value) (opts : KvSetOptions) :
    ∃ err, writeRow rt q now s scope ns key value opts none = .error err ∧
      writeRow rt q now (s.sweepExpired now) scope ns key value opts none ≠ .error err := by
  obtain ⟨hr, hid⟩ := mem_of_getRow hget
  have hswept : (s.sweepExpired now).getRow scope ns key = none := by
    rw [getRow_sweepExpired, hget]
    simp [hexpired]
  by_cases hroom : RoomAgrees q now s scope ns
  · rcases hcheck : checkWrite rt q key value with err' | json
    · exact absurd ⟨err', hcheck⟩ h
    · have hquota := checkQuota_of_expired hr hid hexpired hroom
      obtain ⟨s', heq, -⟩ := insert_of_none (w := columnsOf rt now json value opts none) hswept
      refine ⟨.unique, ?_, ?_⟩
      · simp [writeRow, hcheck, hquota, insert_of_some hget, bind, Except.bind]
      · simp [writeRow, hcheck, checkQuota_sweepExpired hroom, hquota, heq, bind, Except.bind,
          pure, Except.pure]
  · exact writeRow_none_ne hswept h hroom opts

/-- The version of a new row is not the one behind a row that was there. -/
theorem writeRow_some_ne {value : Value} (h : ¬ Refused rt q key value) (opts : KvSetOptions) :
    ¬ Agree now (writeRow rt q now s scope ns key value opts (some r))
      (writeRow rt q now s' scope ns key value opts none) := by
  rcases hcheck : checkWrite rt q key value with err' | json
  · exact absurd ⟨err', hcheck⟩ h
  · simp only [writeRow, hcheck, bind, Except.bind]
    rcases checkQuota q s' scope ns with err | _
    · exact id
    · rcases s'.insert scope ns key (columnsOf rt now json value opts none) with err | s''
      · exact id
      · rintro ⟨hentry, -⟩
        have hversion : r.version + 1 = 0 + 1 := congrArg (·.version) hentry
        have hpositive : 1 ≤ r.version := r.columns.positive
        omega

/-! ## Each operation -/

theorem set_agree_iff (value : Value) (opts : KvSetOptions) :
    Agree now (s.set rt q now scope ns key value opts)
        ((s.sweepExpired now).set rt q now scope ns key value opts) ↔
      Unaffected rt q now s (.set scope ns key value opts) := by
  rw [set, set, getRow_sweepExpired, Unaffected]
  cases hget : s.getRow scope ns key with
  | none =>
    simp only [filter_none]
    refine ⟨fun h ↦ ?_, fun h ↦ writeRow_none_agree hget h opts⟩
    by_contra hne
    rw [not_or] at hne
    have hswept : (s.sweepExpired now).getRow scope ns key = none := by
      rw [getRow_sweepExpired, hget, filter_none]
    obtain ⟨err, heq, hne⟩ := writeRow_none_ne hswept hne.1 hne.2 opts
    rw [heq, agree_error] at h
    exact hne h
  | some r =>
    obtain ⟨hr, -⟩ := mem_of_getRow hget
    cases hexpired : r.isExpired now with
    | false =>
      simp only [filter_some, hexpired]
      exact iff_of_true (writeRow_some_agree hr hexpired value opts) (.inr (by simp))
    | true =>
      simp only [filter_some, hexpired]
      refine ⟨fun h ↦ .inl ?_, fun h ↦ ?_⟩
      · by_contra hne
        exact writeRow_some_ne hne opts h
      · obtain ⟨err, herr⟩ := h.resolve_right (by simp)
        simp [writeRow, herr, bind, Except.bind, Agree]

theorem setIfVersion_agree_iff (value : Value) (expectedVersion : Nat) (opts : KvSetOptions) :
    Agree now (s.setIfVersion rt q now scope ns key value expectedVersion opts)
        ((s.sweepExpired now).setIfVersion rt q now scope ns key value expectedVersion opts) ↔
      Unaffected rt q now s (.setIfVersion scope ns key value expectedVersion opts) := by
  rw [setIfVersion, setIfVersion, getRow_sweepExpired, Unaffected]
  cases hget : s.getRow scope ns key with
  | none => simp [Agree]
  | some r =>
    obtain ⟨hr, -⟩ := mem_of_getRow hget
    cases hexpired : r.isExpired now with
    | false =>
      simp only [filter_some, hexpired]
      refine iff_of_true ?_ (by simp [hexpired])
      by_cases hversion : r.version = expectedVersion
      · simpa [hversion] using (writeRow_some_agree hr hexpired value opts).map some
      · simp [hversion, Agree]
    | true =>
      by_cases hversion : r.version = expectedVersion
      · refine iff_of_false ?_ (by simp [hexpired, hversion])
        simp only [filter_some, hexpired, hversion]
        cases writeRow rt q now s scope ns key value opts (some r) with
        | error err => simp [Except.map, Agree]
        | ok p => simp [Except.map, Agree]
      · refine iff_of_true ?_ (by simp [hversion])
        simp [filter_some, hexpired, hversion, Agree]

theorem increment_agree_iff (by' : ℚ) :
    Agree now (s.increment rt q now scope ns key by')
        ((s.sweepExpired now).increment rt q now scope ns key by') ↔
      Unaffected rt q now s (.increment scope ns key by') := by
  simp only [increment, getRow_sweepExpired, Option.filter_filter, Bool.and_self]
  rw [Unaffected]
  cases hget : s.getRow scope ns key with
  | none =>
    simp only [filter_none, bind, Except.bind, zero_add]
    refine ⟨fun h ↦ ?_, fun h ↦ (writeRow_none_agree hget h .default).map fun _ ↦ by'⟩
    by_contra hne
    rw [not_or] at hne
    have hswept : (s.sweepExpired now).getRow scope ns key = none := by
      rw [getRow_sweepExpired, hget, filter_none]
    exact not_agree_map (writeRow_none_ne hswept hne.1 hne.2 .default) (fun _ ↦ by') h
  | some r =>
    obtain ⟨hr, -⟩ := mem_of_getRow hget
    by_cases hexpired : r.isExpired now
    · have hfilter : (some r).filter (fun r ↦ ¬ r.isExpired now) = none := by
        simp [filter_some, hexpired]
      simp only [hfilter, bind, Except.bind, zero_add]
      refine ⟨fun h _ ↦ ?_, fun h ↦ ?_⟩
      · by_contra hne
        exact not_agree_map (writeRow_none_expired hget hexpired hne .default) (fun _ ↦ by') h
      · obtain ⟨err, herr⟩ := h hexpired
        simp [writeRow, herr, bind, Except.bind, Except.map, Agree]
    · have hfilter : (some r).filter (fun r ↦ ¬ r.isExpired now) = some r := by
        simp [filter_some, hexpired]
      simp only [hfilter, bind, Except.bind]
      refine iff_of_true ?_ fun h ↦ absurd h hexpired
      cases numberOf rt key r with
      | error err => exact rfl
      | ok current =>
        exact (writeRow_some_agree hr (by simpa using hexpired) (.num (current + by')) .default).map
          fun _ ↦ current + by'

theorem delete_agree_iff (ifVersion : Option Nat) :
    Agree now (.ok (s.delete scope ns key ifVersion))
        (.ok ((s.sweepExpired now).delete scope ns key ifVersion)) ↔
      Unaffected rt q now s (.delete scope ns key ifVersion) := by
  rw [delete, delete, getRow_sweepExpired, Unaffected]
  cases hget : s.getRow scope ns key with
  | none => simp [Agree]
  | some r =>
    have hall : ifVersion.all (· = r.version) ↔ ¬ ifVersion.any (· ≠ r.version) := by
      cases ifVersion with
      | none => simp
      | some v => simp
    by_cases hexpired : r.isExpired now
    · have hfilter : (some r).filter (fun r ↦ ¬ r.isExpired now) = none := by
        simp [filter_some, hexpired]
      simp only [hfilter]
      by_cases hlost : ifVersion.any (· ≠ r.version)
      · rw [if_pos hlost]
        refine iff_of_true ⟨rfl, live_sweepExpired.symm⟩ fun r' hr' hmatch ↦ ?_
        obtain rfl : r = r' := Option.some.inj hr'
        exact absurd hlost (hall.mp hmatch)
      · rw [if_neg hlost]
        refine iff_of_false (fun h ↦ Bool.noConfusion h.1) fun h ↦ ?_
        exact h r rfl (hall.mpr hlost) hexpired
    · have hfilter : (some r).filter (fun r ↦ ¬ r.isExpired now) = some r := by
        simp [filter_some, hexpired]
      simp only [hfilter]
      refine iff_of_true ?_ fun r' hr' _ ↦ ?_
      · split_ifs
        · exact ⟨rfl, live_sweepExpired.symm⟩
        · exact ⟨rfl, (live_keep _).symm⟩
      · obtain rfl : r = r' := Option.some.inj hr'
        exact hexpired

theorem get_sweepExpired : (s.sweepExpired now).get rt now scope ns key = s.get rt now scope ns key := by
  rw [get, get, getRow_sweepExpired]
  cases s.getRow scope ns key with
  | none => rfl
  | some r =>
    cases hexpired : r.isExpired now with
    | false => simp [filter_some, hexpired]
    | true => simp [filter_some, hexpired]

theorem list_sweepExpired (query : KvListQuery) :
    (s.sweepExpired now).list rt now scope ns query = s.list rt now scope ns query := by
  simp only [list, scanNamespace_sweepExpired, List.filter_filter, Bool.and_self]

theorem namespaces_sweepExpired : (s.sweepExpired now).namespaces now scope = s.namespaces now scope := by
  have hrows : ((s.sweepExpired now).rows.filter fun r ↦ r.scope = scope ∧ ¬ r.isExpired now) =
      s.rows.filter fun r ↦ r.scope = scope ∧ ¬ r.isExpired now := by
    rw [sweepExpired_rows, live, List.filter_filter]
    refine filter_congr fun r _ ↦ ?_
    cases r.isExpired now <;> simp
  simp only [namespaces, hrows]

/-- **An operation answers as after a sweep, and leaves the same live rows, exactly if it takes
nothing that has expired for present.** -/
theorem run_eq_sweep_run_iff (rt : Runtime) (q : KvQuotas) (now : ℤ) (s : KvStore) (op : KvOp) :
    ((s.run rt q now op).1 = ((s.sweepExpired now).run rt q now op).1 ∧
      (s.run rt q now op).2.live now = ((s.sweepExpired now).run rt q now op).2.live now) ↔
      Unaffected rt q now s op := by
  cases op with
  | get scope ns key => simp [run, Unaffected, get_sweepExpired]
  | set scope ns key value opts =>
    have hinj : Function.Injective (KvAnswer.entry ∘ some) := fun a b h ↦ by simpa using h
    exact (settle_eq_iff hinj).trans (set_agree_iff value opts)
  | setIfVersion scope ns key value expectedVersion opts =>
    have hinj : Function.Injective KvAnswer.entry := fun a b h ↦ by simpa using h
    exact (settle_eq_iff hinj).trans (setIfVersion_agree_iff value expectedVersion opts)
  | increment scope ns key by' =>
    have hinj : Function.Injective KvAnswer.number := fun a b h ↦ by simpa using h
    exact (settle_eq_iff hinj).trans (increment_agree_iff by')
  | delete scope ns key ifVersion =>
    have hinj : Function.Injective KvAnswer.deleted := fun a b h ↦ by simpa using h
    exact (settle_eq_iff hinj).trans (delete_agree_iff ifVersion)
  | list scope ns query => simp [run, Unaffected, list_sweepExpired]
  | namespaces scope => simp [run, Unaffected, namespaces_sweepExpired]

/-- The first version there is. -/
theorem first_version : 1 ≤ 1 := Nat.le_refl 1

/-- An entry that expired at 10. -/
def aged : KvStore where
  rows := [⟨0, .global, "n", "k", ⟨"1", false, none, 1, some 10, 0, none, Nat.le_refl 1⟩⟩]
  nextId := 1
  identities := by simp
  ids := by simp
  below := by simp

/-- An entry that has expired is deleted, and is not there to delete after a sweep. -/
theorem not_run_eq_sweep_run : ¬ ∀ (rt : Runtime) (q : KvQuotas) (now : ℤ) (s : KvStore) (op : KvOp),
    (s.run rt q now op).1 = ((s.sweepExpired now).run rt q now op).1 ∧
      (s.run rt q now op).2.live now = ((s.sweepExpired now).run rt q now op).2.live now := by
  intro hall
  let rt : Runtime := ⟨fun _ ↦ "1", fun _ ↦ some (.num 1), id, some, compare⟩
  have heq := (hall rt ⟨100, 10, 10, 10⟩ 20 aged (.delete .global "n" "k" none)).1
  have hdirect : (aged.run rt ⟨100, 10, 10, 10⟩ 20 (.delete .global "n" "k" none)).1 =
      .ok (.deleted true) := rfl
  have hswept : ((aged.sweepExpired 20).run rt ⟨100, 10, 10, 10⟩ 20 (.delete .global "n" "k" none)).1 =
      .ok (.deleted false) := rfl
  rw [hdirect, hswept] at heq
  simp at heq

end KvStore

end Enkaku.Kv
