import Enkaku.Db.Schema
import Enkaku.Lib.Keyset
import Enkaku.Lib.Sql
import Mathlib

/-!
# The list of jobs, page by page

`list` of `job-store.ts`, with `keysetWhere` of `pagination.ts`: the jobs a filter matches, newest
first, one page of them, and the cursor the next page starts after.

The table declares `created_at` not null, but the code makes a cursor of a row without one too, as if
it were from 1970.  So the column is handed in, and may be `NULL`.  `listAll` follows the cursors to the
end; `listAll_complete_iff` says when that shows every job.
-/

set_option autoImplicit false

namespace Enkaku

open List

open Keyset

/-! ## The statement -/

def JobKind.text : JobKind → String
  | .script => "script"
  | .workflow => "workflow"

def RunStatus.text : RunStatus → String
  | .queued => "queued"
  | .running => "running"
  | .success => "success"
  | .failed => "failed"
  | .cancelled => "cancelled"
  | .expired => "expired"

/-- `JobCursor`; the creation time in seconds. -/
structure JobCursor where
  sortValue : Int
  id : String
  deriving DecidableEq, Repr

/-- What `list` is asked for. -/
structure JobListFilter where
  deviceId : Option String := none
  status : Option String := none
  kind : Option String := none
  excludeKind : Option String := none
  rootJobId : Option String := none
  parentWorkflowJobId : Option String := none
  scheduleId : Option String := none
  includeSimulate : Bool := false
  limit : Nat
  cursor : Option JobCursor := none
  deriving DecidableEq, Repr

/-- A page: its rows, where the next one starts, and how many rows match in all. -/
structure JobPage where
  rows : List JobRow
  nextCursor : Option JobCursor
  total : Nat
  deriving DecidableEq, Repr

/-- `Math.floor(new Date(sec * 1000).getTime() / 1000)`, where that is a date; a `NaN` is bound as
`NULL`. -/
def dateSec? (sec : Int) : Option Int :=
  if -8640000000000 ≤ sec ∧ sec ≤ 8640000000000 then some sec else none

namespace Store

variable (s : Store) (createdAt : JobRow → Option Int)

/-- `if (filter.x)`: an absent field and an empty one are no condition. -/
def given (x : Option String) : Option String := x.filter fun t ↦ !t.isEmpty

/-- The conditions of a filter, without the cursor. -/
def matchesFilter (filter : JobListFilter) (j : JobRow) : Bool :=
  let latest := j.latestRunId.bind s.run?
  (given filter.deviceId).all (fun d ↦ decide (j.deviceId = d)) &&
  (given filter.kind).all (fun k ↦ decide (j.kind.text = k)) &&
  (given filter.excludeKind).all (fun k ↦ decide (j.kind.text ≠ k)) &&
  (given filter.rootJobId).all (fun r ↦ (Sql.eq j.rootJobId (some r)).isTrue) &&
  (given filter.parentWorkflowJobId).all (fun p ↦ (Sql.eq j.parentWorkflowJobId (some p)).isTrue) &&
  (given filter.scheduleId).all (fun i ↦ (Sql.eq j.scheduleId (some i)).isTrue) &&
  (given filter.status).all (fun t ↦ (Sql.eq (latest.map (·.status.text)) (some t)).isTrue) &&
  -- `IS NOT 'simulate'` holds of a job without a run.
  (filter.includeSimulate || latest.all fun r ↦ decide (r.trigger ≠ .simulate))

/-- The jobs a filter matches. -/
def matching (filter : JobListFilter) : List JobRow := s.jobs.filter (s.matchesFilter filter)

/-- `keysetWhere`, descending: `created_at < value OR (created_at = value AND id < cursor.id)`. -/
def keysetWhere (cursor : Option JobCursor) (j : JobRow) : Bool :=
  match cursor with
  | none => true
  | some c =>
    let value := dateSec? c.sortValue
    ((Sql.lt (createdAt j) value).or
      ((Sql.eq (createdAt j) value).and (some (decide (j.id < c.id))))).isTrue

/-- `created_at`, then `id`; a `NULL` sorts as the least. -/
def sortKey (j : JobRow) : WithBot ℤ ×ₗ String :=
  toLex (match createdAt j with
    | none => ⊥
    | some t => (t : WithBot ℤ), j.id)

/-- `list`. -/
def list (filter : JobListFilter) : JobPage :=
  let chosen := (s.matching filter).filter (keysetWhere createdAt filter.cursor)
  -- One extra row says whether there is a next page.
  let page := (Keyset.descending (sortKey createdAt) chosen).take (filter.limit + 1)
  let hasMore := decide (filter.limit < page.length)
  let rows := if hasMore then page.take filter.limit else page
  { rows := rows
    nextCursor :=
      if hasMore then rows.getLast?.map fun last ↦ ⟨(createdAt last).getD 0, last.id⟩ else none
    total := (s.matching filter).length }

/-- The rows of all pages from a cursor on, when `fuel` pages are enough to reach the last. -/
def listAll (filter : JobListFilter) : Nat → Option JobCursor → Option (List JobRow)
  | 0, _ => none
  | fuel + 1, cursor =>
    let page := s.list createdAt { filter with cursor := cursor }
    match page.nextCursor with
    | none => some page.rows
    | some next => (listAll filter fuel (some next)).map (page.rows ++ ·)

/-! ## One page -/

section Page

variable {s createdAt} {filter : JobListFilter} {cursor : Option JobCursor}

/-- The rows of a page, and whether another one follows. -/
theorem list_rows {chosen : List JobRow}
    (hchosen : descending (sortKey createdAt)
      ((s.matching filter).filter (keysetWhere createdAt cursor)) = chosen) :
    (s.list createdAt { filter with cursor := cursor }).rows = chosen.take filter.limit ∧
      (s.list createdAt { filter with cursor := cursor }).nextCursor =
        if filter.limit < chosen.length then
          (chosen.take filter.limit).getLast?.map fun last ↦ ⟨(createdAt last).getD 0, last.id⟩
        else none := by
  have hmatching : s.matching { filter with cursor := cursor } = s.matching filter := rfl
  have hmore : filter.limit < (chosen.take (filter.limit + 1)).length ↔
      filter.limit < chosen.length := by
    rw [length_take]
    omega
  have htake : (chosen.take (filter.limit + 1)).take filter.limit = chosen.take filter.limit := by
    rw [take_take, Nat.min_eq_left (Nat.le_succ _)]
  rw [list]
  rw [hmatching, hchosen]
  by_cases h : filter.limit < chosen.length
  · simp only [hmore.mpr h, h, decide_true, if_true, htake, and_self]
  · have hall : chosen.take (filter.limit + 1) = chosen := take_of_length_le (by omega)
    have hall' : chosen.take filter.limit = chosen := take_of_length_le (by omega)
    simp only [hall, hall', h, decide_false, Bool.false_eq_true, if_false, and_self]

/-- A page after a cursor shows no row without a creation time. -/
theorem createdAt_of_keysetWhere {c : JobCursor} {j : JobRow}
    (h : keysetWhere createdAt (some c) j) : createdAt j ≠ none := by
  intro hnone
  rw [keysetWhere, hnone] at h
  simp [Sql.lt, Sql.eq, Sql.compare] at h

/-- The cursor of a row keeps the rows below it. -/
theorem keysetWhere_iff {x y : JobRow} {t : Int} (hx : createdAt x = some t) (hdate : dateSec? t = some t)
    (hy : createdAt y ≠ none) :
    keysetWhere createdAt (some ⟨t, x.id⟩) y ↔ sortKey createdAt y < sortKey createdAt x := by
  obtain ⟨u, hu⟩ := Option.ne_none_iff_exists'.mp hy
  simp only [keysetWhere, hdate, hu, sortKey, hx, Prod.Lex.toLex_lt_toLex, WithBot.coe_lt_coe,
    WithBot.coe_inj, Sql.Truth.isTrue_or, Sql.Truth.isTrue_and, Bool.or_eq_true, Bool.and_eq_true,
    Sql.isTrue_eq, Option.some.injEq, Sql.Truth.isTrue_some, decide_eq_true_eq]
  rw [Sql.isTrue_lt]
  simp

end Page

/-! ## All pages -/

section Walk

variable {s createdAt} {filter : JobListFilter}

/-- The matching rows, newest first. -/
def newestFirst (s : Store) (createdAt : JobRow → Option Int) (filter : JobListFilter) : List JobRow :=
  Keyset.descending (sortKey createdAt) (s.matching filter)

theorem nodup_sortKey (hids : (s.jobs.map (·.id)).Nodup) :
    ((s.matching filter).map (sortKey createdAt)).Nodup := by
  have hids' : ((s.matching filter).map (·.id)).Nodup := hids.sublist (filter_sublist.map _)
  refine List.Nodup.of_map (fun k ↦ (ofLex k).2) ?_
  rwa [map_map]

theorem mem_newestFirst {j : JobRow} : j ∈ s.newestFirst createdAt filter ↔ j ∈ s.matching filter :=
  (perm_descending _ _).mem_iff

/-- Every matching job has a creation time, and it is a date. -/
def AllDated (s : Store) (createdAt : JobRow → Option Int) (filter : JobListFilter) : Prop :=
  ∀ j ∈ s.matching filter, ∃ t, createdAt j = some t ∧ dateSec? t = some t

/-- The cursor of a row leaves what comes after it. -/
theorem filter_keysetWhere (hids : (s.jobs.map (·.id)).Nodup) (hdated : s.AllDated createdAt filter)
    {front back : List JobRow} {last : JobRow}
    (hsplit : s.newestFirst createdAt filter = front ++ last :: back) :
    (s.newestFirst createdAt filter).filter
      (keysetWhere createdAt (some ⟨(createdAt last).getD 0, last.id⟩)) = back := by
  obtain ⟨t, ht, hdate⟩ := hdated last (mem_newestFirst.mp (by rw [hsplit]; simp))
  have hpair : (s.newestFirst createdAt filter).Pairwise
      fun a b ↦ sortKey createdAt b < sortKey createdAt a :=
    pairwise_descending (nodup_sortKey hids)
  have hbelow : (s.newestFirst createdAt filter).filter
      (fun y ↦ sortKey createdAt y < sortKey createdAt last) = back := by
    rw [hsplit] at hpair ⊢
    exact filter_below hpair
  rw [← hbelow]
  refine filter_congr fun y hy ↦ ?_
  obtain ⟨u, hu, -⟩ := hdated y (mem_newestFirst.mp hy)
  rw [Bool.eq_iff_iff, ht, Option.getD_some, keysetWhere_iff ht hdate (by simp [hu])]
  simp

/-- From a cursor that leaves some rows, the walk goes through these. -/
theorem listAll_rest (hids : (s.jobs.map (·.id)).Nodup) (hlimit : 0 < filter.limit)
    (hdated : s.AllDated createdAt filter) (n : Nat) :
    ∀ {cursor : Option JobCursor} {front back : List JobRow},
    back.length ≤ n → s.newestFirst createdAt filter = front ++ back →
    (s.newestFirst createdAt filter).filter (keysetWhere createdAt cursor) = back →
    s.listAll createdAt filter (n + 1) cursor = some back := by
  induction n with
  | zero =>
    intro cursor front back hlen hsplit hback
    obtain rfl := eq_nil_of_length_eq_zero (Nat.le_zero.mp hlen)
    obtain ⟨hrows, hnext⟩ :=
      list_rows ((descending_filter (nodup_sortKey hids) _).trans hback)
    rw [listAll, hnext, hrows]
    simp
  | succ n ih =>
    intro cursor front back hlen hsplit hback
    obtain ⟨hrows, hnext⟩ :=
      list_rows ((descending_filter (nodup_sortKey hids) _).trans hback)
    rw [listAll, hnext, hrows]
    by_cases hmore : filter.limit < back.length
    · obtain ⟨init, last, hpage⟩ : ∃ init last, back.take filter.limit = init ++ [last] := by
        have hne : back.take filter.limit ≠ [] := by
          intro hnil
          have := congrArg List.length hnil
          rw [length_take, length_nil] at this
          omega
        exact ⟨_, _, (dropLast_append_getLast hne).symm⟩
      have hwhole : s.newestFirst createdAt filter =
          (front ++ init) ++ last :: back.drop filter.limit := by
        rw [hsplit]
        conv_lhs => rw [← take_append_drop filter.limit back, hpage]
        simp
      have hdrop : (back.drop filter.limit).length ≤ n := by
        rw [length_drop]
        omega
      have hrest : s.newestFirst createdAt filter =
          (front ++ init ++ [last]) ++ back.drop filter.limit := by
        rw [hwhole]
        simp
      have hwalk := ih hdrop hrest (filter_keysetWhere hids hdated hwhole)
      rw [if_pos hmore, hpage, getLast?_concat, Option.map_some]
      dsimp only
      rw [hwalk, Option.map_some, ← hpage, take_append_drop]
    · rw [if_neg hmore, take_of_length_le (by omega)]

/-- After the first page, no row without a creation time is shown. -/
theorem createdAt_of_listAll (n : Nat) : ∀ {c : JobCursor} {out : List JobRow},
    s.listAll createdAt filter n (some c) = some out → ∀ j ∈ out, createdAt j ≠ none := by
  induction n with
  | zero => exact fun {c out} h ↦ absurd h (by simp [listAll])
  | succ n ih =>
    intro c out h
    have hrows : (s.list createdAt { filter with cursor := some c }).rows =
        (descending (sortKey createdAt)
          ((s.matching filter).filter (keysetWhere createdAt (some c)))).take filter.limit :=
      (list_rows rfl).1
    have hpage : ∀ j ∈ (s.list createdAt { filter with cursor := some c }).rows, createdAt j ≠ none := by
      intro j hj
      rw [hrows] at hj
      have hmem := (perm_descending _ _).subset (mem_of_mem_take hj)
      exact createdAt_of_keysetWhere (mem_filter.mp hmem).2
    rw [listAll] at h
    cases hnext : (s.list createdAt { filter with cursor := some c }).nextCursor with
    | none =>
      rw [hnext] at h
      exact Option.some.inj h ▸ hpage
    | some next =>
      rw [hnext] at h
      obtain ⟨rest, hrest, rfl⟩ := Option.map_eq_some_iff.mp h
      exact forall_mem_append.mpr ⟨hpage, ih hrest⟩

/-- Following the cursors from the start shows every matching job once, newest first, and as many as
`total` says. -/
def ShowsAll (s : Store) (createdAt : JobRow → Option Int) (filter : JobListFilter) : Prop :=
  ∃ n rows, s.listAll createdAt filter n none = some rows ∧ rows.Perm (s.matching filter) ∧
    rows.Pairwise (fun a b ↦ sortKey createdAt b < sortKey createdAt a) ∧
    (s.list createdAt { filter with cursor := none }).total = rows.length

theorem showsAll_of_listAll (hids : (s.jobs.map (·.id)).Nodup) {n : Nat}
    (h : s.listAll createdAt filter n none = some (s.newestFirst createdAt filter)) :
    s.ShowsAll createdAt filter :=
  ⟨n, _, h, perm_descending _ _, pairwise_descending (nodup_sortKey hids),
    (perm_descending _ _).length_eq.symm⟩

/-- Without a cursor every matching row is chosen. -/
theorem filter_keysetWhere_none (rows : List JobRow) : rows.filter (keysetWhere createdAt none) = rows :=
  filter_eq_self.mpr fun _ _ ↦ rfl

/-- **Keyset paging shows every job once.**  For every set of rows, every filter and every page size of
at least one: the pages together are the matching jobs, each once, in `(createdAt, id)` descending
order, and as many as `total` — if and only if no matching row lacks its creation time, or they
all fit on one page. -/
theorem listAll_complete_iff (hids : (s.jobs.map (·.id)).Nodup) (hlimit : 0 < filter.limit)
    (hdates : ∀ j ∈ s.matching filter, ∀ t, createdAt j = some t → dateSec? t = some t) :
    s.ShowsAll createdAt filter ↔
      (∀ j ∈ s.matching filter, createdAt j ≠ none) ∨ (s.matching filter).length ≤ filter.limit := by
  have hlen : (s.newestFirst createdAt filter).length = (s.matching filter).length :=
    (perm_descending _ _).length_eq
  obtain ⟨hrows, hnext⟩ : (s.list createdAt { filter with cursor := none }).rows =
      (s.newestFirst createdAt filter).take filter.limit ∧ _ :=
    list_rows (congrArg _ (filter_keysetWhere_none _))
  constructor
  · rintro ⟨n, rows, hwalk, hperm, -, -⟩
    by_contra hnot
    rw [not_or, not_le] at hnot
    obtain ⟨hnull, hmore⟩ := hnot
    simp only [not_forall, not_not] at hnull
    obtain ⟨z, hz, hznull⟩ := hnull
    -- The last row has no creation time, and is not on the first page.
    obtain ⟨init, last, hlast⟩ : ∃ init last, s.newestFirst createdAt filter = init ++ [last] := by
      have hne : s.newestFirst createdAt filter ≠ [] :=
        ne_nil_of_mem (a := z) (mem_newestFirst.mpr hz)
      exact ⟨_, _, (dropLast_append_getLast hne).symm⟩
    have hpair : (s.newestFirst createdAt filter).Pairwise
        fun a b ↦ sortKey createdAt b < sortKey createdAt a :=
      pairwise_descending (nodup_sortKey hids)
    have hlastnull : createdAt last = none := by
      have hz' : z ∈ s.newestFirst createdAt filter := mem_newestFirst.mpr hz
      rw [hlast] at hz' hpair
      rcases mem_append.mp hz' with hz' | hz'
      · have hlt := (pairwise_append.mp hpair).2.2 z hz' last (.head _)
        by_contra hsome
        obtain ⟨t, ht⟩ := Option.ne_none_iff_exists'.mp hsome
        simp [sortKey, hznull, ht, Prod.Lex.toLex_lt_toLex] at hlt
      · rwa [← mem_singleton.mp hz']
    have hnotfirst : last ∉ (s.newestFirst createdAt filter).take filter.limit := by
      intro hmem
      rw [hlast] at hmem hpair hlen
      rw [length_append, length_singleton] at hlen
      rw [take_append_of_le_length (by omega)] at hmem
      have hlt := (pairwise_append.mp hpair).2.2 last (mem_of_mem_take hmem) last
        (.head _)
      exact lt_irrefl _ hlt
    have hlastmem : last ∈ rows :=
      hperm.symm.subset (mem_newestFirst.mp (by rw [hlast]; simp))
    cases n with
    | zero => exact absurd hwalk (by simp [listAll])
    | succ n =>
      rw [listAll, hnext, hrows] at hwalk
      split at hwalk
      · cases hwalk
        exact hnotfirst hlastmem
      · obtain ⟨rest, hrest, rfl⟩ := Option.map_eq_some_iff.mp hwalk
        rcases mem_append.mp hlastmem with hfirst | hlater
        · exact hnotfirst hfirst
        · exact createdAt_of_listAll n hrest last hlater hlastnull
  · rintro (hdated | hfits)
    · have hdated' : s.AllDated createdAt filter := by
        intro j hj
        obtain ⟨t, ht⟩ := Option.ne_none_iff_exists'.mp (hdated j hj)
        exact ⟨t, ht, hdates j hj t ht⟩
      exact showsAll_of_listAll hids (listAll_rest hids hlimit hdated' _ (le_rfl)
        (nil_append _).symm (filter_keysetWhere_none _))
    · refine showsAll_of_listAll hids (n := 1) ?_
      rw [listAll, hnext, hrows, if_neg (by omega), take_of_length_le (by omega)]

end Walk

/-! ## Three jobs of one second -/

section Same

/-- Three jobs, with the creation time of two of them. -/
def listedJob (id : String) : JobRow :=
  { id := id, kind := .script, scriptId := none, workflowName := none, workflowDoc := .null,
    deviceId := "phone", params := .null, batchId := none, batchSeq := none, scheduleId := none,
    parentWorkflowJobId := none, stepSeq := none, scriptName := none, scriptVersion := none,
    triggeredByJobId := none, rootJobId := none, depth := 0, triggerKey := none, createdBy := none,
    createdAt := 1700000000, latestRunId := none, runCount := 0 }

def listedStore : Store := ⟨[listedJob "a", listedJob "b", listedJob "c"], [], [], []⟩

theorem listAll_complete_iff_same : listedStore.ShowsAll (fun j ↦ some j.createdAt) { limit := 1 } ↔
      (∀ j ∈ listedStore.matching { limit := 1 }, (some j.createdAt : Option Int) ≠ none) ∨
        (listedStore.matching { limit := 1 }).length ≤ 1 :=
  listAll_complete_iff (by decide +kernel) (by decide) (by
    rintro j hj t ht
    cases ht
    have hjobs : ∀ j ∈ listedStore.jobs, dateSec? j.createdAt = some j.createdAt := by decide +kernel
    exact hjobs j (mem_filter.mp hj).1)

/-- Without creation times, in pages of one, the walk ends after the first job. -/
theorem listAll_loses_null :
    listedStore.listAll (fun _ ↦ none) { limit := 1 } 2 none = some [listedJob "c"] ∧
      listedStore.matching { limit := 1 } = [listedJob "a", listedJob "b", listedJob "c"] := by
  decide +kernel

end Same

end Store

end Enkaku
