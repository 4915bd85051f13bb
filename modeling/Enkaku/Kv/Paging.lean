import Enkaku.Kv.Expired
import Enkaku.Lib.Keyset
import Mathlib.Data.List.Lex

/-!
# Listing a namespace page by page

`list` sorts the keys by `localeCompare` and takes a page of those that are greater than the cursor,
and `>` on strings compares code units.  `listAll` follows the cursors from the start to the end, and
`listAll_visits_iff` says when that shows every live key once.
-/

set_option autoImplicit false

namespace Enkaku.Kv

/-- `>` on strings, with the cursor first. -/
def codeUnitsAfter (cursor key : String) : Bool :=
  decide (cursor.toList.flatMap Utf16.units < key.toList.flatMap Utf16.units)

namespace KvStore

/-- The live rows a query matches. -/
def matchingRows (now : ℤ) (s : KvStore) (scope : KvScope) (ns : String)
    (startsWith : Option String) : List KvEntryRow :=
  ((s.scanNamespace scope ns).filter fun r ↦ ¬ r.isExpired now).filter fun r ↦
    startsWith.all fun p ↦ p.toList.isPrefixOf r.key.toList

/-- They, in the order of `localeCompare`. -/
def sortedRows (rt : Runtime) (now : ℤ) (s : KvStore) (scope : KvScope) (ns : String)
    (startsWith : Option String) : List KvEntryRow :=
  (s.matchingRows now scope ns startsWith).mergeSort fun a b ↦ rt.localeCompare a.key b.key ≠ .gt

/-- The keys from a cursor on, following `nextCursor` for `n` pages at most: nothing if there are
more. -/
def listAll (rt : Runtime) (now : ℤ) (s : KvStore) (scope : KvScope) (ns : String)
    (startsWith : Option String) (limit : ℕ) : ℕ → Option String →
      Except KvError (Option (List String))
  | 0, _ => .ok none
  | n + 1, cursor =>
    s.list rt now scope ns ⟨startsWith, limit, cursor⟩ >>= fun page ↦
      match page.nextCursor with
      | none => .ok (some (page.items.map (·.key)))
      | some next => (listAll rt now s scope ns startsWith limit n (some next)).map
        (Option.map (page.items.map (·.key) ++ ·))

variable {rt : Runtime} {now : ℤ} {s : KvStore} {scope : KvScope} {ns : String}
  {startsWith : Option String} {limit : ℕ} {cursor : Option String}

/-- What `list` takes a page of. -/
theorem list_eq (hlimit : 0 < limit) :
    s.list rt now scope ns ⟨startsWith, limit, cursor⟩ =
      let rows := (s.sortedRows rt now scope ns startsWith).filter fun r ↦
        cursor.all fun c ↦ c.isEmpty || codeUnitsAfter c r.key
      ((rows.take limit).mapM (rowToListEntry rt)).map fun items ↦
        ⟨items, if limit < rows.length then (rows.take limit).getLast?.map (·.key) else none⟩ := by
  simp only [list, sortedRows, matchingRows, codeUnitsAfter, Nat.max_eq_right hlimit,
    Bool.decide_or, Bool.decide_eq_true, gt_iff_lt]
  rfl

theorem rowToListEntry_key {r : KvEntryRow} {e : KvEntry} (h : rowToListEntry rt r = .ok e) :
    e.key = r.key := by
  rw [rowToListEntry] at h
  split_ifs at h
  · cases h
    rfl
  · simp only [bind, Except.bind] at h
    split at h
    · exact nomatch h
    · cases h
      rfl

/-- Rows that can be read make entries of the same keys. -/
theorem mapM_rowToListEntry {rows : List KvEntryRow}
    (h : ∀ r ∈ rows, ∃ e, rowToListEntry rt r = .ok e) :
    ∃ items, rows.mapM (rowToListEntry rt) = .ok items ∧
      items.map (·.key) = rows.map (·.key) := by
  induction rows with
  | nil => exact ⟨[], rfl, rfl⟩
  | cons r rows ih =>
    obtain ⟨e, he⟩ := h r (.head rows)
    obtain ⟨items, hitems, hkeys⟩ := ih fun r hr ↦ h r (.tail _ hr)
    refine ⟨e :: items, ?_, ?_⟩
    · rw [List.mapM_cons, he, hitems]
      rfl
    · rw [List.map_cons, List.map_cons, rowToListEntry_key he, hkeys]

theorem mem_of_mem_sortedRows {r : KvEntryRow} (h : r ∈ s.sortedRows rt now scope ns startsWith) :
    r ∈ s.rows ∧ r.scope = scope ∧ r.ns = ns := by
  have hmem := (List.mergeSort_perm _ _).subset h
  have hscan := List.mem_of_mem_filter (List.mem_of_mem_filter hmem)
  obtain ⟨hr, hplace⟩ := List.mem_filter.mp hscan
  exact ⟨hr, by simpa using hplace⟩

/-- No two rows of a namespace have one key. -/
theorem nodup_sortedRows : ((s.sortedRows rt now scope ns startsWith).map (·.key)).Nodup := by
  have hrows : (s.sortedRows rt now scope ns startsWith).Nodup := by
    refine (List.mergeSort_perm _ _).nodup_iff.mpr ?_
    exact ((s.identities.of_map _).filter _).filter _ |>.filter _
  refine (List.nodup_map_iff_inj_on hrows).mpr fun a ha b hb hkey ↦ ?_
  obtain ⟨ha, hscope, hns⟩ := mem_of_mem_sortedRows ha
  obtain ⟨hb, hscope', hns'⟩ := mem_of_mem_sortedRows hb
  refine List.inj_on_of_nodup_map s.identities ha hb ?_
  simp [KvEntryRow.identity, hkey, hscope, hscope', hns, hns']

/-- Following the cursors is a walk over the sorted keys. -/
theorem listAll_eq_walk (hlimit : 0 < limit) (hkeys : ∀ r ∈ s.rows, r.key ≠ "")
    (hread : ∀ r ∈ s.rows, ∃ e, rowToListEntry rt r = .ok e) (n : ℕ) :
    ∀ {cursor : Option String}, (∀ c ∈ cursor, c ≠ "") →
      s.listAll rt now scope ns startsWith limit n cursor =
        .ok (Keyset.walk codeUnitsAfter limit ((s.sortedRows rt now scope ns startsWith).map (·.key))
          n cursor) := by
  induction n with
  | zero => exact fun {cursor} _ ↦ rfl
  | succ n ih =>
    intro cursor hcursor
    have hfilter : (fun r : KvEntryRow ↦ cursor.all fun c ↦ c.isEmpty || codeUnitsAfter c r.key) =
        (fun k ↦ cursor.all fun c ↦ codeUnitsAfter c k) ∘ (·.key) := by
      funext r
      cases cursor with
      | none => rfl
      | some c => simp [hcursor c rfl]
    have hrest : ((s.sortedRows rt now scope ns startsWith).filter fun r ↦
        cursor.all fun c ↦ c.isEmpty || codeUnitsAfter c r.key).map (·.key) =
          Keyset.resumed codeUnitsAfter ((s.sortedRows rt now scope ns startsWith).map (·.key))
            cursor := by
      rw [hfilter, Keyset.resumed, List.filter_map]
    obtain ⟨rows, hrows⟩ : ∃ rows, rows = (s.sortedRows rt now scope ns startsWith).filter fun r ↦
      cursor.all fun c ↦ c.isEmpty || codeUnitsAfter c r.key := ⟨_, rfl⟩
    have hmem : ∀ r ∈ rows.take limit, r ∈ s.rows := fun r hr ↦
      (mem_of_mem_sortedRows (List.mem_of_mem_filter (hrows ▸ List.mem_of_mem_take hr))).1
    obtain ⟨items, hitems, hpage⟩ := mapM_rowToListEntry fun r hr ↦ hread r (hmem r hr)
    rw [← hrows] at hrest
    simp only [listAll, list_eq hlimit, ← hrows, hitems, Keyset.walk, ← hrest, bind, Except.bind,
      Except.map, hpage, List.length_map, ← List.map_take, List.getLast?_map]
    split_ifs with hmore
    · rcases hlast : (rows.take limit).getLast? with _ | r
      · rfl
      · have hne : r.key ≠ "" := hkeys r (hmem r (List.mem_of_getLast? hlast))
        have hnext : ∀ c ∈ some r.key, c ≠ "" := fun c hc ↦ Option.some.inj hc ▸ hne
        simp only [Option.map_some]
        rw [ih hnext]
    · rfl

/-- **Paging visits every key once exactly where the two orders agree.**  For any live entries, any
prefix and any page size: the pages together are the live keys with the prefix, each once, if and
only if at the end of each page that is not the last the keys up to there are not greater than its
last one, and those behind are.  And then they come in the order of `localeCompare`. -/
theorem listAll_visits_iff (rt : Runtime) (now : ℤ) (s : KvStore) (scope : KvScope) (ns : String)
    (startsWith : Option String) (limit : ℕ) (hlimit : 0 < limit)
    (hkeys : ∀ r ∈ s.rows, ∃ maxKeyLength, assertValidKey r.key maxKeyLength = .ok ())
    (hread : ∀ r ∈ s.rows, ∃ e, rowToListEntry rt r = .ok e) :
    ((∃ n keys, s.listAll rt now scope ns startsWith limit n none = .ok (some keys) ∧
        keys.Perm ((s.matchingRows now scope ns startsWith).map (·.key))) ↔
      ∀ m, limit ∣ m → 0 < m → m < (s.sortedRows rt now scope ns startsWith).length →
        Keyset.SplitsAt codeUnitsAfter ((s.sortedRows rt now scope ns startsWith).map (·.key)) m) ∧
    ∀ n keys, s.listAll rt now scope ns startsWith limit n none = .ok (some keys) →
      keys.Perm ((s.matchingRows now scope ns startsWith).map (·.key)) →
      keys = (s.sortedRows rt now scope ns startsWith).map (·.key) := by
  have hne : ∀ r ∈ s.rows, r.key ≠ "" := by
    rintro r hr hempty
    obtain ⟨maxKeyLength, hvalid⟩ := hkeys r hr
    rw [hempty, assertValidKey, if_pos (.inl rfl)] at hvalid
    exact nomatch hvalid
  have hwalk : ∀ n, s.listAll rt now scope ns startsWith limit n none =
      .ok (Keyset.walk codeUnitsAfter limit ((s.sortedRows rt now scope ns startsWith).map (·.key))
        n none) := fun n ↦ listAll_eq_walk hlimit hne hread n (by simp)
  have htrans : ∀ a b c, codeUnitsAfter a b = true → codeUnitsAfter b c = true →
      codeUnitsAfter a c = true := fun a b c hab hbc ↦
    decide_eq_true ((of_decide_eq_true hab).trans (of_decide_eq_true hbc))
  have hnodup : ((s.sortedRows rt now scope ns startsWith).map (·.key)).Nodup := nodup_sortedRows
  have hperm : ((s.sortedRows rt now scope ns startsWith).map (·.key)).Perm
      ((s.matchingRows now scope ns startsWith).map (·.key)) := (List.mergeSort_perm _ _).map _
  constructor
  · have hiff := Keyset.walk_perm_iff htrans hnodup hlimit
    rw [List.length_map] at hiff
    rw [← hiff]
    refine exists_congr fun n ↦ exists_congr fun keys ↦ ?_
    rw [hwalk n, Except.ok.injEq]
    exact and_congr_right fun _ ↦ ⟨fun h ↦ h.trans hperm.symm, fun h ↦ h.trans hperm⟩
  · intro n keys h hall
    rw [hwalk n] at h
    exact Keyset.eq_of_walk_perm htrans hnodup hlimit (Except.ok.inj h)
      (hall.trans hperm.symm)

/-! ## Letters of both cases -/

/-- Where a character of a key stands among them: punctuation, digits, letters of either case. -/
def primaryWeight (c : Char) : ℕ :=
  if c = '_' then 0 else if c = '-' then 1 else if c = ':' then 2 else if c = '.' then 3
  else c.toLower.toNat

/-- The collation of `localeCompare` on keys: by the weights, and only then lower case first. -/
def rootCollation (a b : String) : Ordering :=
  (compare (a.toList.map primaryWeight) (b.toList.map primaryWeight)).then
    (compare (a.toList.map (·.isUpper)) (b.toList.map (·.isUpper)))

def collated : Runtime := ⟨fun _ ↦ "1", fun _ ↦ some (.num 1), id, some, rootCollation⟩

/-- Two keys. -/
def pair (k l : String) (hne : k ≠ l) : KvStore where
  rows := [⟨0, .global, "n", k, ⟨"1", false, none, 1, none, 0, none, first_version⟩⟩,
    ⟨1, .global, "n", l, ⟨"1", false, none, 1, none, 0, none, first_version⟩⟩]
  nextId := 2
  identities := by simp [KvEntryRow.identity, hne]
  ids := by simp
  below := List.forall_mem_cons.mpr ⟨Nat.zero_lt_two, List.forall_mem_singleton.mpr Nat.one_lt_two⟩

/-- Which of two rows is first. -/
theorem sortedRows_pair {rt : Runtime} {k l : String} (hne : k ≠ l) {r r' : KvEntryRow}
    (hrows : (pair k l hne).matchingRows 5 .global "n" none = [r, r']) :
    (pair k l hne).sortedRows rt 5 .global "n" none =
      if rt.localeCompare r.key r'.key ≠ .gt then [r, r'] else [r', r] := by
  rw [sortedRows, hrows]
  simp [List.mergeSort, List.merge, List.MergeSort.Internal.splitInTwo]

theorem pair_reads {k l : String} (hne : k ≠ l) :
    ∀ r ∈ (pair k l hne).rows, ∃ e, rowToListEntry collated r = .ok e := by
  simp [pair, rowToListEntry, parseOf, collated, bind, Except.bind, pure, Except.pure]

/-- Two keys of lower case letters are shown on two pages. -/
theorem listAll_visits_lower : ∃ n keys,
    (pair "b" "a.1" (by decide)).listAll collated 5 .global "n" none 1 n none = .ok (some keys) ∧
      keys.Perm (((pair "b" "a.1" (by decide)).matchingRows 5 .global "n" none).map (·.key)) := by
  refine (listAll_visits_iff collated 5 (pair "b" "a.1" (by decide)) .global "n" none 1 (by decide)
    ?_ (pair_reads _)).1.mpr ?_
  · intro r hr
    refine ⟨10, ?_⟩
    revert r
    decide +kernel
  · rw [sortedRows_pair _ rfl, if_neg (by decide)]
    intro m _ hpos hlt
    obtain rfl : m = 1 := by
      rw [List.length_cons, List.length_singleton] at hlt
      omega
    intro c hc
    obtain rfl : "a.1" = c := Option.some.inj hc
    decide

/-- The first page ends at `a`, and `B` is not greater. -/
theorem listAll_misses :
    (pair "a" "B" (by decide)).listAll collated 5 .global "n" none 1 5 none = .ok (some ["a"]) ∧
    ((pair "a" "B" (by decide)).matchingRows 5 .global "n" none).map (·.key) = ["a", "B"] := by
  refine ⟨?_, by decide⟩
  rw [listAll_eq_walk (by decide) (by decide) (pair_reads _) 5 (by simp), sortedRows_pair _ rfl,
    if_pos (by decide)]
  decide

end KvStore

end Enkaku.Kv
