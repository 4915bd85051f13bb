import Enkaku.Kv.Versions
import Mathlib.Algebra.BigOperators.Group.List.Basic
import Mathlib.Algebra.Order.Ring.Rat
import Mathlib.Data.List.Infix

/-!
# What an increment leaves as it was

`increment` reads the number of an entry and writes the next one through `writeRow` without options,
so the row is written as one that is not secret and does not expire.  A secret entry, or one that was
to expire, is neither afterwards (`increment_only_number_iff`).

What the increments of a run add up to does not depend on that (`Counted.after`).  Numbers are exact
here, and `Survives` says of one that JSON gives it back.
-/

set_option autoImplicit false

namespace Enkaku.Kv

open KvStore

/-- The row holds this number, in the clear or in its box. -/
def HoldsNumber (rt : Runtime) (r : KvEntryRow) (n : ℚ) : Prop :=
  ∃ raw, rawOf rt r = .ok raw ∧ rt.parse raw = some (.num n)

/-- JSON gives the number back. -/
def Survives (rt : Runtime) (n : ℚ) : Prop := rt.parse (rt.stringify (.num n)) = some (.num n)

instance (rt : Runtime) (n : ℚ) : Decidable (Survives rt n) :=
  inferInstanceAs (Decidable (rt.parse (rt.stringify (.num n)) = some (.num n)))

/-- The row after an increment differs from the one before in its number and its version only, as far
as a reader can see. -/
structure OnlyNumber (rt : Runtime) (r r' : KvEntryRow) (n : ℚ) : Prop where
  number : HoldsNumber rt r' n
  version : r'.version = r.version + 1
  secret : r'.columns.secret = r.columns.secret
  hidden : r.columns.secret = true → ∀ e, rowToListEntry rt r' = .ok e → e.value = .null
  expiry : r'.columns.expiresAt = r.columns.expiresAt

/-- When it happens. -/
def KvEvent.time : KvEvent → ℤ
  | .call _ now _ | .sweep now => now

/-- The event writes this key by an increment or not at all. -/
def KvEvent.OnlyIncrements (identity : KvScope × String × String) : KvEvent → Prop
  | .call _ _ (.set scope ns key _ _) | .call _ _ (.setIfVersion scope ns key _ _ _)
  | .call _ _ (.delete scope ns key _) => (scope, ns, key) ≠ identity
  | .call .. | .sweep _ => True

namespace KvStore

/-- The store after an event. -/
def apply (rt : Runtime) (q : KvQuotas) (s : KvStore) : KvEvent → KvStore
  | .call _ now op => (s.run rt q now op).2
  | .sweep now => s.sweepExpired now

/-- The store after a run. -/
def after (rt : Runtime) (q : KvQuotas) (s : KvStore) (es : List KvEvent) : KvStore :=
  es.foldl (apply rt q) s

/-- What an event adds to the number of this key: the amount of an increment that did not throw. -/
def addedBy (rt : Runtime) (q : KvQuotas) (identity : KvScope × String × String) (s : KvStore) :
    KvEvent → List ℚ
  | .call _ now (.increment scope ns key by') =>
    if (scope, ns, key) = identity ∧ (s.increment rt q now scope ns key by').isOk then [by'] else []
  | _ => []

/-- What a run adds to it. -/
def added (rt : Runtime) (q : KvQuotas) (identity : KvScope × String × String) :
    KvStore → List KvEvent → List ℚ
  | _, [] => []
  | s, e :: es => addedBy rt q identity s e ++ added rt q identity (s.apply rt q e) es

end KvStore

/-! ## One increment -/

open KvStore (numberOf)

variable {rt : Runtime} {q : KvQuotas} {now : ℤ} {s s' : KvStore} {scope : KvScope} {ns key : String}
  {r r' : KvEntryRow} {old n by' : ℚ} {json : String} {identity : KvScope × String × String}

theorem numberOf_eq_ok_iff : numberOf rt key r = .ok n ↔ HoldsNumber rt r n := by
  simp only [numberOf, HoldsNumber, parseOf, bind, Except.bind]
  rcases rawOf rt r with err | raw
  · simp
  · rcases hparse : rt.parse raw with _ | v
    · simp [hparse]
    · cases v <;> simp [hparse, pure, Except.pure, throw, throwThe, MonadExceptOf.throw]

theorem checkWrite_eq_ok {value : Value} (h : checkWrite rt q key value = .ok json) :
    json = rt.stringify value := by
  simp only [checkWrite, bind, Except.bind] at h
  split at h
  · exact nomatch h
  · rw [encodeValue] at h
    split_ifs at h
    exact (Except.ok.inj h).symm

/-- What `writeRow` makes of the columns when it is given no options. -/
def plainColumns (rt : Runtime) (now : ℤ) (n : ℚ) (r : KvEntryRow) : KvWrite :=
  columnsOf rt now (rt.stringify (.num n)) (.num n) .default (some r)

section

variable (hget : s.getRow scope ns key = some r)
include hget

section

variable (hlive : r.isExpired now = false)
include hlive

theorem filter_live : (s.getRow scope ns key).filter (fun r ↦ ¬ r.isExpired now) = some r := by
  rw [hget, Option.filter_some, if_pos (by simp [hlive])]

theorem increment_of_holds
    (h : HoldsNumber rt r old) :
    s.increment rt q now scope ns key by' = (checkWrite rt q key (.num (old + by'))).map fun _ ↦
      (old + by', s.update r.id (plainColumns rt now (old + by') r)) := by
  simp only [increment, filter_live hget hlive, numberOf_eq_ok_iff.mpr h, bind, Except.bind, writeRow]
  rcases hcheck : checkWrite rt q key (.num (old + by')) with err | json
  · rfl
  · rw [checkWrite_eq_ok hcheck]
    rfl

theorem run_increment_of_holds (h : HoldsNumber rt r old) :
    (s.run rt q now (.increment scope ns key by')).2 =
      if (checkWrite rt q key (.num (old + by'))).isOk then
        s.update r.id (plainColumns rt now (old + by') r) else s := by
  simp only [KvStore.run, increment_of_holds hget hlive h]
  cases checkWrite rt q key (.num (old + by')) <;> rfl

theorem isOk_increment_of_holds (h : HoldsNumber rt r old) :
    (s.increment rt q now scope ns key by').isOk = (checkWrite rt q key (.num (old + by'))).isOk := by
  rw [increment_of_holds hget hlive h]
  cases checkWrite rt q key (.num (old + by')) <;> rfl

/-- What is not a number is left alone. -/
theorem run_increment_of_not_number (h : ∀ n, ¬HoldsNumber rt r n) :
    (s.run rt q now (.increment scope ns key by')).2 = s := by
  rcases hnumber : numberOf rt key r with err | n
  · simp only [KvStore.run, increment, filter_live hget hlive, hnumber, bind, Except.bind, settle]
  · exact absurd (numberOf_eq_ok_iff.mp hnumber) (h n)

end

theorem getRow_update (w : KvWrite) :
    (s.update r.id w).getRow scope ns key = some { r with columns := w } := by
  obtain ⟨hr, hid⟩ := mem_of_getRow hget
  refine getRow_eq ?_ hid
  exact List.mem_map.mpr ⟨r, hr, by simp⟩

end

theorem holdsNumber_plain (hn : Survives rt n) :
    HoldsNumber rt { r with columns := plainColumns rt now n r } n :=
  ⟨rt.stringify (.num n), rfl, hn⟩

theorem onlyNumber_iff (hget : s.getRow scope ns key = some r) (hlive : r.isExpired now = false)
    (h : HoldsNumber rt r old) (hn : Survives rt (old + by')) :
    (∃ r', (s.run rt q now (.increment scope ns key by')).2.getRow scope ns key = some r' ∧
        OnlyNumber rt r r' (old + by')) ↔
      r.columns.secret = false ∧ r.columns.expiresAt = none ∧
        (checkWrite rt q key (.num (old + by'))).isOk = true := by
  rw [run_increment_of_holds hget hlive h]
  split_ifs with hcheck
  · rw [getRow_update hget]
    constructor
    · rintro ⟨r', hr', honly⟩
      cases hr'
      exact ⟨honly.secret.symm, honly.expiry.symm, hcheck⟩
    · rintro ⟨hsecret, hexpiry, -⟩
      refine ⟨_, rfl, holdsNumber_plain hn, rfl, hsecret.symm, ?_, hexpiry.symm⟩
      intro hyes
      exact absurd (hsecret.symm.trans hyes) Bool.false_ne_true
  · rw [hget]
    refine iff_of_false ?_ fun hall ↦ hcheck hall.2.2
    rintro ⟨r', hr', honly⟩
    cases hr'
    exact absurd honly.version (by omega)

/-! ## The other rows -/

theorem mem_update (hr : r ∈ s.rows) (hr' : r' ∈ s.rows) (hne : r.identity ≠ r'.identity)
    (w : KvWrite) : r ∈ (s.update r'.id w).rows := by
  refine List.mem_map.mpr ⟨r, hr, if_neg fun hid ↦ hne ?_⟩
  rw [List.inj_on_of_nodup_map s.ids hr hr' hid]

/-- `writeRow` on the row of a key, or on none, keeps the rows of the other keys. -/
theorem mem_writeRow {value : Value} {opts : KvSetOptions} {existing : Option KvEntryRow}
    {e : KvEntry} (hexisting : ∀ r ∈ existing, s.getRow scope ns key = some r)
    (h : writeRow rt q now s scope ns key value opts existing = .ok (e, s')) (hr : r ∈ s.rows)
    (hne : r.identity ≠ (scope, ns, key)) : r ∈ s'.rows := by
  simp only [writeRow, bind, Except.bind] at h
  split at h
  · cases h
  · cases existing with
    | none =>
      simp only at h
      split at h
      · cases h
      · split at h
        · cases h
        next s'' hinsert =>
          obtain rfl : s'' = s' := congrArg (·.2) (Except.ok.inj h)
          rw [KvStore.insert] at hinsert
          split_ifs at hinsert
          cases hinsert
          exact List.mem_append_left _ hr
    | some r₀ =>
      obtain rfl : s.update r₀.id _ = s' := congrArg (·.2) (Except.ok.inj h)
      obtain ⟨hr₀, hid⟩ := mem_of_getRow (hexisting r₀ rfl)
      exact mem_update hr hr₀ (hid ▸ hne) _

/-- An increment keeps the rows of the other keys. -/
theorem mem_increment (hr : r ∈ s.rows) (hne : r.identity ≠ (scope, ns, key)) :
    r ∈ (s.run rt q now (.increment scope ns key by')).2.rows := by
  simp only [KvStore.run, increment, bind, Except.bind]
  have hexisting : ∀ r ∈ (s.getRow scope ns key).filter fun r ↦ ¬ r.isExpired now,
      s.getRow scope ns key = some r := fun r hr ↦ (Option.filter_eq_some_iff.mp hr).1
  generalize (s.getRow scope ns key).filter (fun r ↦ ¬ r.isExpired now) = existing at hexisting
  split
  · exact hr
  next current _ =>
    rcases hwrite : writeRow rt q now s scope ns key (.num (current + by')) .default existing
      with err | p
    · exact hr
    · exact mem_writeRow hexisting hwrite hr hne

/-- An event that does not write the key of a row that has not expired keeps it. -/
theorem mem_apply {e : KvEvent} (hr : r ∈ s.rows) (hlive : r.isExpired e.time = false)
    (hother : e.OnlyIncrements r.identity)
    (hno : ∀ client now scope ns key by', e = .call client now (.increment scope ns key by') →
      r.identity ≠ (scope, ns, key)) : r ∈ (s.apply rt q e).rows := by
  cases e with
  | sweep now =>
    have hnow : r.isExpired now = false := hlive
    exact List.mem_filter.mpr ⟨hr, by simp [hnow]⟩
  | call client now op =>
    cases op with
    | get scope ns key => exact hr
    | list scope ns query => exact hr
    | namespaces scope => exact hr
    | increment scope ns key by' => exact mem_increment hr (hno client now scope ns key by' rfl)
    | set scope ns key value opts =>
      simp only [apply, KvStore.run]
      rcases hset : s.set rt q now scope ns key value opts with err | p
      · exact hr
      · exact mem_writeRow (fun r hr ↦ hr) hset hr hother.symm
    | setIfVersion scope ns key value version opts =>
      simp only [apply, KvStore.run, setIfVersion]
      rcases hget : s.getRow scope ns key with _ | r₀
      · exact hr
      · simp only
        split_ifs
        · exact hr
        · rcases hwrite : writeRow rt q now s scope ns key value opts (some r₀) with err | p
          · exact hr
          · exact mem_writeRow (fun r hr ↦ hget.trans hr) hwrite hr hother.symm
    | delete scope ns key ifVersion =>
      simp only [apply, KvStore.run, settle, delete]
      rcases hget : s.getRow scope ns key with _ | r₀
      · exact hr
      · obtain ⟨hr₀, hid⟩ := mem_of_getRow hget
        simp only
        split_ifs
        · exact hr
        · refine List.mem_filter.mpr ⟨hr, decide_eq_true fun hsame ↦ hother.symm ?_⟩
          rw [List.inj_on_of_nodup_map s.ids hr hr₀ hsame, hid]

/-! ## A run of increments -/

/-- The number the key has come to, in the row it began with or in one an increment has written. -/
structure Counted (rt : Runtime) (r : KvEntryRow) (s : KvStore) (n : ℚ) (version : Nat) : Prop where
  row : ∃ r', s.getRow r.scope r.ns r.key = some r' ∧ HoldsNumber rt r' n ∧
    r'.version = version ∧ (r' = r ∨ r'.columns.expiresAt = none)

theorem not_isExpired_of_counted (hlive : r.isExpired now = false)
    (h : r' = r ∨ r'.columns.expiresAt = none) : r'.isExpired now = false := by
  rcases h with rfl | hnone
  · exact hlive
  · rw [KvEntryRow.isExpired, hnone, Option.any_none]

/-- One event. -/
theorem Counted.apply {e : KvEvent} {version : Nat} (h : Counted rt r s n version)
    (hlive : r.isExpired e.time = false) (honly : e.OnlyIncrements r.identity)
    (hn : Survives rt (n + (s.addedBy rt q r.identity e).sum)) :
    Counted rt r (s.apply rt q e) (n + (s.addedBy rt q r.identity e).sum)
      (version + (s.addedBy rt q r.identity e).length) := by
  obtain ⟨r', hget, hnumber, hversion, horigin⟩ := h.row
  obtain ⟨hr', hid⟩ := mem_of_getRow hget
  have hlive' := not_isExpired_of_counted hlive horigin
  by_cases hown : ∃ client now by', e = .call client now (.increment r.scope r.ns r.key by')
  · obtain ⟨client, now, by', rfl⟩ := hown
    have hnow : r'.isExpired now = false := hlive'
    simp only [addedBy, KvEntryRow.identity, true_and, isOk_increment_of_holds hget hnow hnumber] at hn ⊢
    simp only [KvStore.apply, run_increment_of_holds hget hnow hnumber]
    split_ifs at hn ⊢ with hcheck
    · rw [List.sum_singleton] at hn ⊢
      exact ⟨_, getRow_update hget _, holdsNumber_plain hn, congrArg (· + 1) hversion, .inr rfl⟩
    · rw [List.sum_nil, add_zero]
      exact ⟨r', hget, hnumber, hversion, horigin⟩
  · have hno : ∀ client now scope ns key by', e = .call client now (.increment scope ns key by') →
        r'.identity ≠ (scope, ns, key) := by
      rintro client now scope ns key by' rfl hsame
      obtain ⟨rfl, rfl, rfl⟩ : r.scope = scope ∧ r.ns = ns ∧ r.key = key := by
        simpa [hid] using hsame
      exact hown ⟨client, now, by', rfl⟩
    have hkept : r' ∈ (s.apply rt q e).rows := mem_apply hr' hlive' (hid ▸ honly) hno
    have hnone : s.addedBy rt q r.identity e = [] := by
      cases e with
      | sweep now => rfl
      | call client now op =>
        cases op with
        | increment scope ns key by' =>
          refine if_neg fun hsame ↦ hno client now scope ns key by' rfl ?_
          rw [hid, hsame.1]
          rfl
        | get | set | setIfVersion | delete | list | namespaces => rfl
    rw [hnone, List.sum_nil, add_zero]
    exact ⟨r', getRow_eq hkept hid, hnumber, hversion, horigin⟩

/-- A run. -/
theorem Counted.after {es : List KvEvent} {version : Nat} (h : Counted rt r s n version)
    (hes : ∀ e ∈ es, r.isExpired e.time = false ∧ e.OnlyIncrements r.identity)
    (hn : ∀ l, l <+: s.added rt q r.identity es → Survives rt (n + l.sum)) :
    Counted rt r (s.after rt q es) (n + (s.added rt q r.identity es).sum)
      (version + (s.added rt q r.identity es).length) := by
  induction es generalizing s n version with
  | nil => simpa [after, added] using h
  | cons e es ih =>
    obtain ⟨hlive, honly⟩ := hes e (.head es)
    have hstep := h.apply hlive honly (hn _ (List.prefix_append _ _))
    have hrun := ih hstep (fun e he ↦ hes e (.tail _ he)) fun l hl ↦ by
      rw [add_assoc, ← List.sum_append]
      exact hn _ ((List.prefix_append_right_inj _).mpr hl)
    simpa only [after, List.foldl_cons, added, List.sum_append, List.length_append, add_assoc] using hrun

/-- Whole numbers in decimal digits, and a box that is open. -/
def digits : Runtime where
  stringify
    | .num n => toString n.num
    | _ => "null"
  parse text := some (.num (text.toList.foldl (fun n c ↦ 10 * n + (c.toNat - 48)) 0 : Nat))
  encrypt := id
  decrypt := some
  localeCompare := compare

/-- The number 1. -/
def counterRow (secret : Bool) (expiresAt : Option ℤ) : KvEntryRow :=
  ⟨0, .global, "n", "k", ⟨"1", secret, none, 1, expiresAt, 0, none, KvStore.first_version⟩⟩

def counter (secret : Bool) (expiresAt : Option ℤ) : KvStore where
  rows := [counterRow secret expiresAt]
  nextId := 1
  identities := by simp
  ids := by simp
  below := by simp [counterRow]

end Enkaku.Kv
