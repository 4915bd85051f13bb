import Enkaku.Kv.Expired
import Enkaku.Lib.Steps

/-!
# Compare and swap

A version lives in its row: a write counts it up, and a row that is created anew begins at 1 again.
So a client that compares versions can miss that the row it read was deleted, or swept, and one of
the same version is there in its place.  Here is that it misses nothing else (`swap_loses_nothing_iff`).
-/

set_option autoImplicit false

namespace Enkaku.Kv

open List

open KvStore

/-- What is remembered of the calls. -/
inductive Record where
  /-- A `get` returned an entry of this version, of this row. -/
  | read (client : Nat) (identity : KvScope × String × String) (version row : Nat)
  /-- A write or a delete that compared no version. -/
  | changed (identity : KvScope × String × String)
  /-- A `setIfVersion`, or a `delete` with `ifVersion`, that succeeded. -/
  | swapped (client : Nat) (identity : KvScope × String × String) (version : Nat)
  deriving DecidableEq, Repr

/-- The record is of a change of this key. -/
def Record.Changes (identity : KvScope × String × String) : Record → Prop
  | read .. => False
  | changed i | swapped _ i _ => i = identity

/-- The store and what its clients did, oldest first. -/
structure KvHistory where
  store : KvStore
  trace : List Record

/-- What happens to the store. -/
inductive KvEvent where
  | call (client : Nat) (now : ℤ) (op : KvOp)
  | sweep (now : ℤ)

/-- What is remembered of a call that was answered so. -/
def recordsOf (s : KvStore) (client : Nat) : KvOp → Except KvError KvAnswer → List Record
  | .get scope ns key, .ok (.entry (some e)) =>
    ((s.getRow scope ns key).map fun r ↦ .read client (scope, ns, key) e.version r.id).toList
  | .set scope ns key _ _, .ok _ => [.changed (scope, ns, key)]
  | .setIfVersion scope ns key _ expectedVersion _, .ok (.entry (some _)) =>
    [.swapped client (scope, ns, key) expectedVersion]
  | .increment scope ns key _, .ok _ => [.changed (scope, ns, key)]
  | .delete scope ns key none, .ok (.deleted true) => [.changed (scope, ns, key)]
  | .delete scope ns key (some v), .ok (.deleted true) => [.swapped client (scope, ns, key) v]
  | _, _ => []

namespace KvHistory

/-- One event. -/
def step (rt : Runtime) (q : KvQuotas) (h : KvHistory) : KvEvent → Option KvHistory
  | .call client now op =>
    let done := h.store.run rt q now op
    some ⟨done.2, h.trace ++ recordsOf h.store client op done.1⟩
  | .sweep now => some { h with store := h.store.sweepExpired now }

/-! ## What a client is promised -/

/-- Between a `get` of a client and its swap of the version it got, nothing changed the key. -/
def LosesNothing (h : KvHistory) : Prop :=
  ∀ pre mid post client identity version row,
    h.trace = pre ++ .read client identity version row ::
      (mid ++ .swapped client identity version :: post) →
    ∀ r ∈ mid, ¬ r.Changes identity

/-- The rows of which a client got this version. -/
def readRows (trace : List Record) (client : Nat) (identity : KvScope × String × String)
    (version : Nat) : List Nat :=
  trace.filterMap fun
    | .read c i v row => if c = client ∧ i = identity ∧ v = version then some row else none
    | _ => none

/-- A swap that finds its version finds it in the row the client got it of. -/
def SameRow (rt : Runtime) (q : KvQuotas) (h : KvHistory) : KvEvent → Prop
  | .call client _ (.setIfVersion scope ns key value expectedVersion _) =>
    ∀ r ∈ h.store.getRow scope ns key, r.version = expectedVersion →
      (checkWrite rt q key value).isOk →
        ∀ row ∈ readRows h.trace client (scope, ns, key) expectedVersion, row = r.id
  | .call client _ (.delete scope ns key (some version)) =>
    ∀ r ∈ h.store.getRow scope ns key, r.version = version →
      ∀ row ∈ readRows h.trace client (scope, ns, key) version, row = r.id
  | _ => True

instance (rt : Runtime) (q : KvQuotas) (h : KvHistory) : ∀ e, Decidable (SameRow rt q h e)
  | .call client _ (.setIfVersion scope ns key value expectedVersion _) =>
    inferInstanceAs (Decidable (∀ r ∈ h.store.getRow scope ns key, r.version = expectedVersion →
      (checkWrite rt q key value).isOk →
        ∀ row ∈ readRows h.trace client (scope, ns, key) expectedVersion, row = r.id))
  | .call client _ (.delete scope ns key (some version)) =>
    inferInstanceAs (Decidable (∀ r ∈ h.store.getRow scope ns key, r.version = version →
      ∀ row ∈ readRows h.trace client (scope, ns, key) version, row = r.id))
  | .call _ _ (.delete _ _ _ none) | .call _ _ (.get ..) | .call _ _ (.set ..)
  | .call _ _ (.increment ..) | .call _ _ (.list ..) | .call _ _ (.namespaces ..) | .sweep _ =>
    isTrue trivial

/-! ## What a call does to the rows -/

variable {rt : Runtime} {q : KvQuotas} {now : ℤ} {s s' : KvStore} {scope : KvScope} {ns key : String}
  {r : KvEntryRow} {client version : Nat} {identity : KvScope × String × String}

/-- A row of the key is new afterwards, or it is the one from before with a higher version; the other
rows are from before. -/
structure Written (s s' : KvStore) (identity : KvScope × String × String) : Prop where
  nextId : s.nextId ≤ s'.nextId
  other : ∀ r ∈ s'.rows, r.identity ≠ identity → r ∈ s.rows
  own : ∀ r ∈ s'.rows, r.identity = identity →
    r.id = s.nextId ∨ ∃ r' ∈ s.rows, r'.identity = identity ∧ r'.id = r.id ∧ r'.version < r.version

theorem written_insert {w : KvWrite} (h : s.insert scope ns key w = .ok s') :
    Written s s' (scope, ns, key) := by
  rw [KvStore.insert] at h
  split_ifs at h with hmem
  cases h
  refine ⟨Nat.le_succ _, fun r hr hne ↦ ?_, fun r hr heq ↦ ?_⟩
  · rcases mem_append.mp hr with hr | hr
    · exact hr
    · obtain rfl := mem_singleton.mp hr
      exact absurd rfl hne
  · rcases mem_append.mp hr with hr | hr
    · exact absurd (mem_map.mpr ⟨r, hr, heq⟩) hmem
    · obtain rfl := mem_singleton.mp hr
      exact .inl rfl

theorem written_update {w : KvWrite} (hr : r ∈ s.rows) (hid : r.identity = identity)
    (hversion : r.version < w.version) : Written s (s.update r.id w) identity := by
  refine ⟨le_rfl, fun r' hr' hne ↦ ?_, fun r' hr' heq ↦ .inr ?_⟩
  · obtain ⟨r₀, hr₀, rfl⟩ := mem_map.mp hr'
    split_ifs at hne ⊢ with hsame
    · obtain rfl := inj_on_of_nodup_map s.ids hr₀ hr hsame
      exact absurd hid hne
    · exact hr₀
  · obtain ⟨r₀, hr₀, rfl⟩ := mem_map.mp hr'
    split_ifs at heq ⊢ with hsame
    · obtain rfl := inj_on_of_nodup_map s.ids hr₀ hr hsame
      exact ⟨r₀, hr₀, hid, rfl, hversion⟩
    · obtain rfl := inj_on_of_nodup_map s.identities hr₀ hr (heq.trans hid.symm)
      exact absurd rfl hsame

theorem written_delete (hr : r ∈ s.rows) (hid : r.identity = identity) :
    Written s (s.keep (·.id ≠ r.id)) identity := by
  refine ⟨le_rfl, fun r' hr' _ ↦ mem_of_mem_filter hr', fun r' hr' heq ↦ ?_⟩
  obtain ⟨hr', hne⟩ := mem_filter.mp hr'
  obtain rfl := inj_on_of_nodup_map s.identities hr' hr (heq.trans hid.symm)
  simp at hne

/-- `writeRow` on the row of the key, or on none. -/
theorem written_writeRow {value : Value} {opts : KvSetOptions} {existing : Option KvEntryRow}
    {e : KvEntry} (hexisting : ∀ r ∈ existing, s.getRow scope ns key = some r)
    (h : writeRow rt q now s scope ns key value opts existing = .ok (e, s')) :
    Written s s' (scope, ns, key) := by
  simp only [writeRow, bind, Except.bind] at h
  split at h
  · cases h
  next json _ =>
    cases existing with
    | none =>
      simp only at h
      split at h
      · cases h
      · split at h
        · cases h
        next s'' hinsert =>
          obtain rfl : s'' = s' := congrArg (·.2) (Except.ok.inj h)
          exact written_insert hinsert
    | some r =>
      obtain rfl : s.update r.id _ = s' := congrArg (·.2) (Except.ok.inj h)
      obtain ⟨hr, hid⟩ := mem_of_getRow (hexisting r rfl)
      exact written_update hr hid (Nat.lt_succ_self _)

theorem rowToEntry_version {e : KvEntry} (h : rowToEntry rt r = .ok e) : e.version = r.version := by
  simp only [rowToEntry, bind, Except.bind] at h
  split at h
  · exact nomatch h
  · split at h
    · exact nomatch h
    · cases h
      rfl

/-- What a call can do to the store, and what is remembered of it. -/
inductive Effect (s : KvStore) (client : Nat) : List Record → KvStore → Prop
  | none : Effect s client [] s
  | read {r : KvEntryRow} (hr : r ∈ s.rows) :
      Effect s client [.read client r.identity r.version r.id] s
  | changed {identity : KvScope × String × String} {s' : KvStore} (h : Written s s' identity) :
      Effect s client [.changed identity] s'
  | swapped {r : KvEntryRow} {s' : KvStore} (hr : r ∈ s.rows) (h : Written s s' r.identity) :
      Effect s client [.swapped client r.identity r.version] s'

theorem get_effect :
    Effect s client (recordsOf s client (.get scope ns key) ((s.get rt now scope ns key).map .entry))
      s := by
  rw [KvStore.get]
  cases hget : s.getRow scope ns key with
  | none => exact .none
  | some r =>
    obtain ⟨hr, hid⟩ := mem_of_getRow hget
    simp only
    split_ifs
    · exact .none
    · cases hentry : rowToEntry rt r with
      | error err => exact .none
      | ok e =>
        simp only [Except.map, recordsOf, hget, Option.map_some, Option.toList_some,
          rowToEntry_version hentry, ← hid]
        exact .read hr

theorem set_effect (value : Value) (opts : KvSetOptions) :
    Effect s client
      (recordsOf s client (.set scope ns key value opts) (s.run rt q now (.set scope ns key value opts)).1)
      (s.run rt q now (.set scope ns key value opts)).2 := by
  simp only [KvStore.run]
  cases hset : s.set rt q now scope ns key value opts with
  | error err => exact .none
  | ok p => exact .changed (written_writeRow (fun r hr ↦ hr) hset)

theorem setIfVersion_effect (value : Value) (expectedVersion : Nat) (opts : KvSetOptions) :
    Effect s client
      (recordsOf s client (.setIfVersion scope ns key value expectedVersion opts)
        (s.run rt q now (.setIfVersion scope ns key value expectedVersion opts)).1)
      (s.run rt q now (.setIfVersion scope ns key value expectedVersion opts)).2 := by
  simp only [KvStore.run, setIfVersion]
  cases hget : s.getRow scope ns key with
  | none => exact .none
  | some r =>
    obtain ⟨hr, hid⟩ := mem_of_getRow hget
    simp only
    split_ifs with hversion
    · exact .none
    · cases hwrite : writeRow rt q now s scope ns key value opts (some r) with
      | error err => exact .none
      | ok p =>
        have hwritten := written_writeRow (fun r' hr' ↦ hget.trans hr') hwrite
        simp only [Except.map, settle, recordsOf]
        rw [← hid] at hwritten ⊢
        rw [← not_ne_iff.mp hversion]
        exact .swapped hr hwritten

theorem increment_effect (by' : ℚ) :
    Effect s client
      (recordsOf s client (.increment scope ns key by') (s.run rt q now (.increment scope ns key by')).1)
      (s.run rt q now (.increment scope ns key by')).2 := by
  simp only [KvStore.run, increment, bind, Except.bind]
  have hexisting : ∀ r ∈ (s.getRow scope ns key).filter fun r ↦ ¬ r.isExpired now,
      s.getRow scope ns key = some r := fun r hr ↦ (Option.filter_eq_some_iff.mp hr).1
  generalize (s.getRow scope ns key).filter (fun r ↦ ¬ r.isExpired now) = existing at hexisting
  split
  · exact .none
  next current _ =>
    cases hwrite : writeRow rt q now s scope ns key (.num (current + by')) .default existing with
    | error err => exact .none
    | ok p => exact .changed (written_writeRow hexisting hwrite)

theorem delete_effect (ifVersion : Option Nat) :
    Effect s client
      (recordsOf s client (.delete scope ns key ifVersion)
        (s.run rt q now (.delete scope ns key ifVersion)).1)
      (s.run rt q now (.delete scope ns key ifVersion)).2 := by
  simp only [KvStore.run, settle, delete]
  cases hget : s.getRow scope ns key with
  | none => cases ifVersion <;> exact .none
  | some r =>
    obtain ⟨hr, hid⟩ := mem_of_getRow hget
    simp only
    split_ifs with hlost
    · cases ifVersion <;> exact .none
    · cases ifVersion with
      | none => exact .changed (written_delete hr hid)
      | some v =>
        obtain rfl : v = r.version := by simpa using hlost
        simp only [recordsOf, ← hid]
        exact .swapped hr (written_delete hr rfl)

theorem run_effect (op : KvOp) :
    Effect s client (recordsOf s client op (s.run rt q now op).1) (s.run rt q now op).2 := by
  cases op with
  | get scope ns key => exact get_effect
  | set scope ns key value opts => exact set_effect value opts
  | setIfVersion scope ns key value v opts => exact setIfVersion_effect value v opts
  | increment scope ns key by' => exact increment_effect by'
  | delete scope ns key ifVersion => exact delete_effect ifVersion
  | list scope ns query =>
    simp only [KvStore.run]
    cases s.list rt now scope ns query <;> exact .none
  | namespaces scope => exact .none

/-! ## What a client that read can find -/

/-- A row found for a key that was read: the one that was read if nothing changed the key since, and
another one or a newer version if something did. -/
structure ReadFits (s : KvStore) (identity : KvScope × String × String) (version row : Nat)
    (mid : List Record) : Prop where
  below : row < s.nextId
  same : (∀ rec ∈ mid, ¬ rec.Changes identity) →
    ∀ r ∈ s.rows, r.identity = identity → r.id = row ∧ r.version = version
  newer : (∃ rec ∈ mid, rec.Changes identity) →
    ∀ r ∈ s.rows, r.identity = identity → r.id = row → version < r.version

/-- What every event keeps. -/
def Kept (h : KvHistory) : Prop :=
  ∀ pre mid client identity version row, h.trace = pre ++ .read client identity version row :: mid →
    ReadFits h.store identity version row mid

variable {mid trace : List Record} {row : Nat} {rec : Record} {h h' : KvHistory}

theorem ReadFits.snoc (hf : ReadFits s identity version row mid) (hrec : ¬ rec.Changes identity) :
    ReadFits s identity version row (mid ++ [rec]) := by
  refine ⟨hf.below, fun hall ↦ hf.same fun rec' hrec' ↦ hall rec' (mem_append_left _ hrec'),
    fun hex ↦ hf.newer ?_⟩
  obtain ⟨rec', hrec', hchanges⟩ := hex
  rcases mem_append.mp hrec' with hrec' | hrec'
  · exact ⟨rec', hrec', hchanges⟩
  · obtain rfl := mem_singleton.mp hrec'
    exact absurd hchanges hrec

theorem ReadFits.written {identity' : KvScope × String × String}
    (hf : ReadFits s identity version row mid) (hw : Written s s' identity')
    (hrec : rec.Changes identity ↔ identity' = identity) :
    ReadFits s' identity version row (mid ++ [rec]) := by
  refine ⟨Nat.lt_of_lt_of_le hf.below hw.nextId, fun hall r hr hid ↦ ?_, fun hex r hr hid hrow ↦ ?_⟩
  · have hne : identity' ≠ identity := fun heq ↦ hall rec (by simp) (hrec.mpr heq)
    exact hf.same (fun rec' hrec' ↦ hall rec' (mem_append_left _ hrec')) r
      (hw.other r hr fun heq ↦ hne (heq.symm.trans hid)) hid
  · by_cases heq : identity' = identity
    · subst heq
      rcases hw.own r hr hid with hnew | ⟨r', hr', hid', hrow', hlt⟩
      · exact absurd (hrow.symm.trans hnew) (Nat.ne_of_lt hf.below)
      · by_cases hbefore : ∃ rec' ∈ mid, rec'.Changes identity'
        · exact Nat.lt_trans (hf.newer hbefore r' hr' hid' (hrow'.trans hrow)) hlt
        · have hsame := hf.same (by simpa using hbefore) r' hr' hid'
          exact hsame.2 ▸ hlt
    · obtain ⟨rec', hrec', hchanges⟩ := hex
      rcases mem_append.mp hrec' with hrec' | hrec'
      · exact hf.newer ⟨rec', hrec', hchanges⟩ r
          (hw.other r hr fun h ↦ heq (h.symm.trans hid)) hid hrow
      · obtain rfl := mem_singleton.mp hrec'
        exact absurd (hrec.mp hchanges) heq

/-- Where a record of a longer trace stands: it is the last, or the last one is behind it. -/
theorem split_snoc {pre : List Record} {rec' : Record} (h : trace ++ [rec] = pre ++ rec' :: mid) :
    (mid = [] ∧ trace = pre ∧ rec = rec') ∨
      ∃ mid', mid = mid' ++ [rec] ∧ trace = pre ++ rec' :: mid' := by
  rcases eq_nil_or_concat mid with rfl | ⟨mid', last, rfl⟩
  · obtain ⟨rfl, hlast⟩ := append_inj' h rfl
    exact .inl ⟨rfl, rfl, singleton_inj.mp hlast⟩
  · rw [concat_eq_append, ← cons_append, ← append_assoc] at h
    obtain ⟨rfl, hlast⟩ := append_inj' h rfl
    obtain rfl := singleton_inj.mp hlast
    exact .inr ⟨mid', concat_eq_append, rfl⟩

theorem Kept.written {identity' : KvScope × String × String} (hk : Kept h)
    (hw : Written h.store s' identity') (hrec : ∀ i, rec.Changes i ↔ identity' = i)
    (hread : ∀ client identity version row, rec ≠ .read client identity version row) :
    Kept ⟨s', h.trace ++ [rec]⟩ := by
  intro pre mid client identity version row heq
  rcases split_snoc heq with ⟨-, -, rfl⟩ | ⟨mid', rfl, htrace⟩
  · exact absurd rfl (hread client identity version row)
  · exact (hk pre mid' client identity version row htrace).written hw (hrec identity)

theorem Kept.read (hk : Kept h) (hr : r ∈ h.store.rows) :
    Kept ⟨h.store, h.trace ++ [.read client r.identity r.version r.id]⟩ := by
  intro pre mid client' identity version row heq
  rcases split_snoc heq with ⟨rfl, -, hrec⟩ | ⟨mid', rfl, htrace⟩
  · obtain ⟨-, rfl, rfl, rfl⟩ := Record.read.inj hrec
    refine ⟨h.store.below r hr, fun _ r' hr' hid ↦ ?_, fun ⟨rec, hrec, _⟩ ↦ nomatch hrec⟩
    obtain rfl := inj_on_of_nodup_map h.store.identities hr' hr hid
    exact ⟨rfl, rfl⟩
  · exact (hk pre mid' client' identity version row htrace).snoc id

theorem Kept.effect {records : List Record} (hk : Kept h) (he : Effect h.store client records s') :
    Kept ⟨s', h.trace ++ records⟩ := by
  cases he with
  | none => simpa using hk
  | read hr => exact hk.read hr
  | changed hw => exact hk.written hw (fun _ ↦ Iff.rfl) (by simp)
  | swapped _ hw => exact hk.written hw (fun _ ↦ Iff.rfl) (by simp)

theorem Kept.sweep (hk : Kept h) (now : ℤ) : Kept { h with store := h.store.sweepExpired now } := by
  intro pre mid client identity version row htrace
  have hf := hk pre mid client identity version row htrace
  exact ⟨hf.below, fun hall r hr ↦ hf.same hall r (mem_of_mem_filter hr),
    fun hex r hr ↦ hf.newer hex r (mem_of_mem_filter hr)⟩

theorem Kept.step {e : KvEvent} (hk : Kept h) (he : Steps.By (step rt q) h e h') : Kept h' := by
  cases e with
  | call client now op =>
    cases he
    exact hk.effect (run_effect op)
  | sweep now =>
    cases he
    exact hk.sweep now

/-! ## When a swap loses nothing -/

theorem losesNothing_snoc_iff {s s' : KvStore} :
    LosesNothing ⟨s', trace ++ [rec]⟩ ↔ LosesNothing ⟨s, trace⟩ ∧
      ∀ client identity version, rec = .swapped client identity version →
        ∀ pre mid row, trace = pre ++ .read client identity version row :: mid →
          ∀ r ∈ mid, ¬ r.Changes identity := by
  constructor
  · intro hall
    refine ⟨fun pre mid post client identity version row htrace ↦ ?_, ?_⟩
    · refine hall pre mid (post ++ [rec]) client identity version row ?_
      show trace ++ [rec] = _
      rw [show trace = _ from htrace]
      simp
    · rintro client identity version rfl pre mid row htrace
      refine hall pre mid [] client identity version row ?_
      show trace ++ [_] = _
      rw [htrace]
      simp
  · rintro ⟨hbefore, hlast⟩ pre mid post client identity version row htrace
    rcases split_snoc htrace with ⟨hnil, -, -⟩ | ⟨mid', hmid, htrace'⟩
    · simp at hnil
    · rcases split_snoc hmid.symm with ⟨-, rfl, rfl⟩ | ⟨post', rfl, rfl⟩
      · exact hlast client identity version rfl pre mid' row htrace'
      · exact hbefore pre mid post' client identity version row htrace'

theorem mem_readRows : row ∈ readRows trace client identity version ↔
    ∃ pre mid, trace = pre ++ .read client identity version row :: mid := by
  rw [← mem_iff_append, readRows, mem_filterMap]
  constructor
  · rintro ⟨rec, hrec, hrow⟩
    cases rec with
    | read c i v row' =>
      simp only at hrow
      split_ifs at hrow with heq
      obtain ⟨rfl, rfl, rfl⟩ := heq
      cases hrow
      exact hrec
    | changed i => simp at hrow
    | swapped c i v => simp at hrow
  · intro hmem
    exact ⟨_, hmem, by simp⟩

theorem writeRow_some_isOk {value : Value} {opts : KvSetOptions} {json : String}
    (hcheck : checkWrite rt q key value = .ok json) :
    ∃ p, writeRow rt q now s scope ns key value opts (some r) = .ok p := by
  simp only [writeRow, hcheck, bind, Except.bind]
  exact ⟨_, rfl⟩

/-- What the condition asks of a call with these records: its swap, if it made one, was of the row
that was read. -/
def SwapsRead (h : KvHistory) (client : Nat) (records : List Record) : Prop :=
  ∀ r ∈ h.store.rows, records = [.swapped client r.identity r.version] →
    ∀ row ∈ readRows h.trace client r.identity r.version, row = r.id

theorem swapsRead_of_ne {records : List Record} (hne : ∀ i v, records ≠ [.swapped client i v]) :
    h.SwapsRead client records :=
  fun _ _ heq ↦ absurd heq (hne _ _)

/-- The row a swap finds is the only one of its key. -/
theorem swapsRead_iff (hget : h.store.getRow scope ns key = some r) :
    h.SwapsRead client [.swapped client (scope, ns, key) r.version] ↔
      ∀ row ∈ readRows h.trace client (scope, ns, key) r.version, row = r.id := by
  obtain ⟨hr, hid⟩ := mem_of_getRow hget
  constructor
  · intro hall
    have hrow := hall r hr (by rw [hid])
    rwa [hid] at hrow
  · intro hall r' hr' heq
    obtain ⟨hid', hversion'⟩ : (scope, ns, key) = r'.identity ∧ r.version = r'.version := by
      simpa using heq
    obtain rfl := inj_on_of_nodup_map h.store.identities hr hr' (hid.trans hid')
    rwa [hid]

theorem sameRow_setIfVersion_iff (value : Value) (expectedVersion : Nat) (opts : KvSetOptions) :
    SameRow rt q h (.call client now (.setIfVersion scope ns key value expectedVersion opts)) ↔
      h.SwapsRead client (recordsOf h.store client (.setIfVersion scope ns key value expectedVersion opts)
        (h.store.run rt q now (.setIfVersion scope ns key value expectedVersion opts)).1) := by
  simp only [SameRow, KvStore.run, setIfVersion]
  cases hget : h.store.getRow scope ns key with
  | none => exact iff_of_true (by simp) (swapsRead_of_ne (by simp [settle, recordsOf]))
  | some r =>
    by_cases hversion : r.version = expectedVersion
    · subst hversion
      cases hcheck : checkWrite rt q key value with
      | error err =>
        refine iff_of_true (by simp [Except.isOk, Except.toBool]) (swapsRead_of_ne ?_)
        simp [writeRow, hcheck, bind, Except.bind, Except.map, settle, recordsOf]
      | ok json =>
        obtain ⟨p, hwrite⟩ : ∃ p, writeRow rt q now h.store scope ns key value opts (some r) = .ok p :=
          writeRow_some_isOk hcheck
        simp only [ne_eq, not_true, if_false, hwrite, Except.map, settle, recordsOf]
        rw [swapsRead_iff hget]
        simp [Except.isOk, Except.toBool]
    · refine iff_of_true (by simp [hversion]) (swapsRead_of_ne ?_)
      simp [hversion, settle, recordsOf]

theorem sameRow_delete_iff (ifVersion : Option Nat) :
    SameRow rt q h (.call client now (.delete scope ns key ifVersion)) ↔
      h.SwapsRead client (recordsOf h.store client (.delete scope ns key ifVersion)
        (h.store.run rt q now (.delete scope ns key ifVersion)).1) := by
  cases ifVersion with
  | none =>
    refine iff_of_true trivial (swapsRead_of_ne fun i v ↦ ?_)
    simp only [KvStore.run, settle]
    cases (h.store.delete scope ns key none).1 <;> simp [recordsOf]
  | some version =>
    simp only [SameRow, KvStore.run, settle, delete]
    cases hget : h.store.getRow scope ns key with
    | none => exact iff_of_true (by simp) (swapsRead_of_ne (by simp [recordsOf]))
    | some r =>
      by_cases hversion : r.version = version
      · subst hversion
        simp only [Option.any_some, ne_eq, not_true, decide_false, Bool.false_eq_true, if_false,
          recordsOf]
        rw [swapsRead_iff hget]
        simp
      · refine iff_of_true (by simp [hversion]) (swapsRead_of_ne ?_)
        simp [Ne.symm hversion, recordsOf]

theorem sameRow_call_iff (op : KvOp) :
    SameRow rt q h (.call client now op) ↔
      h.SwapsRead client (recordsOf h.store client op (h.store.run rt q now op).1) := by
  cases op with
  | setIfVersion scope ns key value v opts => exact sameRow_setIfVersion_iff value v opts
  | delete scope ns key ifVersion => exact sameRow_delete_iff ifVersion
  | get scope ns key =>
    refine iff_of_true trivial (swapsRead_of_ne fun i v ↦ ?_)
    simp only [KvStore.run]
    rcases h.store.get rt now scope ns key with err | _ | e
    · simp [Except.map, recordsOf]
    · simp [Except.map, recordsOf]
    · cases hget : h.store.getRow scope ns key <;> simp [Except.map, recordsOf, hget]
  | set scope ns key value opts =>
    refine iff_of_true trivial (swapsRead_of_ne fun i v ↦ ?_)
    simp only [KvStore.run]
    cases h.store.set rt q now scope ns key value opts <;> simp [settle, recordsOf]
  | increment scope ns key by' =>
    refine iff_of_true trivial (swapsRead_of_ne fun i v ↦ ?_)
    simp only [KvStore.run]
    cases h.store.increment rt q now scope ns key by' <;> simp [settle, recordsOf]
  | list scope ns query =>
    refine iff_of_true trivial (swapsRead_of_ne fun i v ↦ ?_)
    simp only [KvStore.run]
    cases h.store.list rt now scope ns query <;> simp [recordsOf]
  | namespaces scope => exact iff_of_true trivial (swapsRead_of_ne (by simp [recordsOf]))

/-- An event loses nothing exactly if it swaps in no row but the one that was read. -/
theorem losesNothing_step_iff {e : KvEvent} (hk : Kept h) (hs : LosesNothing h)
    (he : Steps.By (step rt q) h e h') : LosesNothing h' ↔ SameRow rt q h e := by
  cases e with
  | sweep now =>
    cases he
    exact iff_of_true hs trivial
  | call client now op =>
    cases he
    rw [sameRow_call_iff]
    have heffect : Effect h.store client (recordsOf h.store client op (h.store.run rt q now op).1)
      (h.store.run rt q now op).2 := run_effect op
    generalize recordsOf h.store client op (h.store.run rt q now op).1 = records at heffect ⊢
    generalize (h.store.run rt q now op).2 = s' at heffect ⊢
    cases heffect with
    | none => exact iff_of_true (by simpa using hs) (swapsRead_of_ne (by simp))
    | read hr | changed hw =>
      refine iff_of_true ?_ (swapsRead_of_ne (by simp))
      exact losesNothing_snoc_iff.mpr ⟨hs, by simp⟩
    | @swapped r _ hr hw =>
      rw [losesNothing_snoc_iff (s := h.store)]
      constructor
      · rintro ⟨-, hlast⟩ r' hr' heq row hrow
        obtain ⟨pre, mid, htrace⟩ := mem_readRows.mp hrow
        obtain ⟨hid, hversion⟩ : r.identity = r'.identity ∧ r.version = r'.version := by
          simpa using heq
        have hquiet := hlast client r'.identity r'.version (by rw [hid, hversion]) pre mid row htrace
        exact ((hk pre mid _ _ _ _ htrace).same hquiet r' hr' rfl).1.symm
      · intro hsame
        refine ⟨hs, fun client' i v hrec pre mid row htrace rec hmem hchanges ↦ ?_⟩
        cases hrec
        have hrow := hsame r hr rfl row (mem_readRows.mpr ⟨pre, mid, htrace⟩)
        have hlt := (hk pre mid _ _ _ _ htrace).newer ⟨rec, hmem, hchanges⟩ r hr rfl hrow.symm
        exact Nat.lt_irrefl _ hlt

/-- **No swap of a client loses a change exactly as long as each finds its version in the row the
client got it of.** -/
theorem swap_loses_nothing_iff {es : List KvEvent} {h : KvHistory}
    (hrun : Steps (Steps.By (step rt q)) ⟨s, []⟩ es h) :
    (∀ pre, pre <+: es → ∀ u, Steps (Steps.By (step rt q)) ⟨s, []⟩ pre u → LosesNothing u) ↔
      Steps.Guarded (Steps.By (step rt q)) (SameRow rt q) ⟨s, []⟩ es h := by
  have hkept : Kept ⟨s, []⟩ := fun pre mid client identity version row htrace ↦ by simp at htrace
  have hsafe : LosesNothing ⟨s, []⟩ :=
    fun pre mid post client identity version row htrace ↦ by simp at htrace
  exact Steps.always_iff_guarded hrun hsafe hkept (fun _ _ _ hk he _ ↦ hk.step he)
    fun _ _ _ hk hs he ↦ losesNothing_step_iff hk hs he

/-- The runtime of the runs below, where every text is the one of the number 1. -/
def ones : Runtime := ⟨fun _ ↦ "1", fun _ ↦ some (.num 1), id, some, compare⟩

/-- A client swaps what it got, and another one finds its version gone. -/
theorem swap_loses_nothing_once : ∃ h,
    Steps (Steps.By (step ones ⟨100, 10, 10, 10⟩)) ⟨.aged, []⟩
      [.call 0 5 (.get .global "n" "k"), .call 1 5 (.get .global "n" "k"),
        .call 1 6 (.setIfVersion .global "n" "k" (.num 1) 1 .default),
        .call 0 7 (.delete .global "n" "k" (some 1))] h ∧
    ∀ pre, pre <+: [.call 0 5 (.get .global "n" "k"), .call 1 5 (.get .global "n" "k"),
        .call 1 6 (.setIfVersion .global "n" "k" (.num 1) 1 .default),
        .call 0 7 (.delete .global "n" "k" (some 1))] →
      ∀ u, Steps (Steps.By (step ones ⟨100, 10, 10, 10⟩)) ⟨.aged, []⟩ pre u → LosesNothing u :=
  ⟨_, Steps.steps_by_iff.mpr rfl,
    (swap_loses_nothing_iff (Steps.steps_by_iff.mpr rfl)).mpr (Steps.guarded_by_iff.mpr rfl)⟩

/-- A client reads a version, another one deletes the entry and writes it anew, and the first one's
swap succeeds. -/
theorem not_losesNothing_recreated : ¬ ∀ (rt : Runtime) (q : KvQuotas) (s : KvStore)
    (es : List KvEvent) (h : KvHistory), Steps (Steps.By (step rt q)) ⟨s, []⟩ es h → LosesNothing h := by
  intro hall
  have hlost := hall ones ⟨100, 10, 10, 10⟩ .aged
    [.call 0 5 (.get .global "n" "k"), .call 1 6 (.delete .global "n" "k" none),
      .call 1 7 (.set .global "n" "k" (.num 1) .default),
      .call 0 8 (.setIfVersion .global "n" "k" (.num 1) 1 .default)] _ (Steps.steps_by_iff.mpr rfl)
  refine hlost [] [.changed (.global, "n", "k"), .changed (.global, "n", "k")] [] 0
    (.global, "n", "k") 1 0 ?_ (.changed (.global, "n", "k")) (by simp) rfl
  decide +kernel

/-! ## Quotas -/

/-- No namespace holds more rows than it may, nor a device in all of its own. -/
structure Within (q : KvQuotas) (s : KvStore) : Prop where
  namespaces : ∀ scope ns, (s.scanNamespace scope ns).length ≤ q.maxEntriesPerNamespace
  devices : ∀ stableId, (s.scanDevice stableId).length ≤ q.maxEntriesPerDevice

/-- Only a new identity counts. -/
theorem Within.of_sublist (h : Within q s)
    (hsub : s'.rows.map (·.identity) <+ s.rows.map (·.identity)) : Within q s' := by
  have hle : ∀ p : KvScope × String × String → Bool,
      (s'.rows.filter (p ·.identity)).length ≤ (s.rows.filter (p ·.identity)).length := by
    intro p
    have hcount : countP p _ ≤ countP p _ := hsub.countP_le
    rwa [countP_map, countP_map, countP_eq_length_filter, countP_eq_length_filter] at hcount
  exact ⟨fun scope ns ↦ (hle fun i ↦ i.1 = scope ∧ i.2.1 = ns).trans (h.namespaces scope ns),
    fun stableId ↦ (hle fun i ↦ i.1 = .device stableId).trans (h.devices stableId)⟩

theorem length_filter_snoc_le {p : KvEntryRow → Bool} {rows : List KvEntryRow} {n : Nat}
    (h : (rows.filter p).length ≤ n) (hroom : p r = true → (rows.filter p).length + 1 ≤ n) :
    ((rows ++ [r]).filter p).length ≤ n := by
  rw [filter_append, length_append]
  cases hp : p r with
  | true => simpa [hp] using hroom hp
  | false => simpa [hp] using h

theorem Within.insert {w : KvWrite} (h : Within q s) (hroom : checkQuota q s scope ns = .ok ())
    (hinsert : s.insert scope ns key w = .ok s') : Within q s' := by
  rw [KvStore.insert] at hinsert
  split_ifs at hinsert
  cases hinsert
  simp only [checkQuota] at hroom
  split at hroom
  · cases hroom
  refine ⟨fun scope' ns' ↦ length_filter_snoc_le (h.namespaces scope' ns') fun hp ↦ ?_,
    fun stableId ↦ length_filter_snoc_le (h.devices stableId) fun hp ↦ ?_⟩
  · obtain ⟨rfl, rfl⟩ := of_decide_eq_true hp
    exact Nat.le_of_not_lt ‹_›
  · obtain rfl : scope = .device stableId := of_decide_eq_true hp
    simp only at hroom
    split at hroom
    · cases hroom
    · exact Nat.le_of_not_lt ‹_›

theorem Within.writeRow {value : Value} {opts : KvSetOptions} {existing : Option KvEntryRow}
    {e : KvEntry} (h : Within q s)
    (hwrite : writeRow rt q now s scope ns key value opts existing = .ok (e, s')) : Within q s' := by
  simp only [Kv.writeRow, bind, Except.bind] at hwrite
  split at hwrite
  · cases hwrite
  · cases existing with
    | none =>
      simp only at hwrite
      split at hwrite
      · cases hwrite
      · split at hwrite <;> cases hwrite
        exact h.insert ‹_› ‹_›
    | some r =>
      cases hwrite
      have hsame : ∀ w, (s.update r.id w).rows.map (·.identity) = s.rows.map (·.identity) := by
        intro w
        rw [update, map_map]
        refine map_congr_left fun r' _ ↦ ?_
        rw [Function.comp_apply]
        split_ifs <;> rfl
      exact h.of_sublist (hsame _ ▸ Sublist.refl _)

theorem Within.run (h : Within q s) (op : KvOp) : Within q (s.run rt q now op).2 := by
  cases op with
  | get | list | namespaces => exact h
  | set scope ns key value opts =>
    simp only [KvStore.run]
    cases hset : s.set rt q now scope ns key value opts with
    | error err => exact h
    | ok p => exact h.writeRow hset
  | setIfVersion scope ns key value version opts =>
    simp only [KvStore.run, setIfVersion]
    split
    · exact h
    next r _ =>
      split_ifs
      · exact h
      · cases hwrite : Kv.writeRow rt q now s scope ns key value opts (some r) with
        | error err => exact h
        | ok p => exact h.writeRow hwrite
  | increment scope ns key by' =>
    simp only [KvStore.run, increment, bind, Except.bind]
    generalize (s.getRow scope ns key).filter (fun r ↦ ¬ r.isExpired now) = existing
    split
    · exact h
    next current _ =>
      cases hwrite : Kv.writeRow rt q now s scope ns key (.num (current + by')) .default existing with
      | error err => exact h
      | ok p => exact h.writeRow hwrite
  | delete scope ns key ifVersion =>
    simp only [KvStore.run, settle, delete]
    split
    · exact h
    · split_ifs
      · exact h
      · exact h.of_sublist (filter_sublist.map _)

/-- **The quotas hold in every run** over an empty store, with sweeps at any times. -/
theorem within_quotas {es : List KvEvent} {h : KvHistory}
    (hrun : Steps (Steps.By (step rt q)) ⟨.empty, []⟩ es h) : Within q h.store := by
  refine hrun.invariant (I := fun h ↦ Within q h.store) ⟨fun _ _ ↦ Nat.zero_le _,
    fun _ ↦ Nat.zero_le _⟩ fun s e t hs hstep ↦ ?_
  cases e <;> cases hstep
  · exact hs.run _
  · exact hs.of_sublist (filter_sublist.map _)

/-- The second key of a namespace of one is refused. -/
theorem within_quotas_full : ∃ h, Steps (Steps.By (step ones ⟨9, 9, 1, 9⟩)) ⟨.empty, []⟩
    [.call 0 0 (.set .global "n" "k" (.num 1) .default),
      .call 0 0 (.set .global "n" "l" (.num 1) .default)] h ∧ Within ⟨9, 9, 1, 9⟩ h.store := by
  obtain ⟨h, hrun⟩ : ∃ h, Steps (Steps.By (step ones ⟨9, 9, 1, 9⟩)) ⟨.empty, []⟩
      [.call 0 0 (.set .global "n" "k" (.num 1) .default),
        .call 0 0 (.set .global "n" "l" (.num 1) .default)] h := ⟨_, Steps.steps_by_iff.mpr rfl⟩
  exact ⟨h, hrun, within_quotas hrun⟩

end KvHistory

end Enkaku.Kv
