import Enkaku.Registry.Cutover
import Mathlib.Data.List.Sort

/-!
# The address book

`createEndpointStore`: the network addresses that a device had, with at most so many for each.  An address
that is seen or declared is written and then the oldest are evicted, by when they were last connected or
first seen and, in the same second, by the counter of writes.  `book_kept`: what was just written is not
among them, unless it was there already and the limit is lower than it was.
-/

set_option autoImplicit false

namespace Enkaku.Registry.Endpoints

open List

inductive Source where
  | observed | declared | scanned
  deriving DecidableEq, Repr

/-- A row of `device_endpoints`, with its times in seconds. -/
structure DeviceEndpointRow where
  stableId : String
  address : String
  medium : Option ConnectionMedium
  source : Source
  firstSeen : Nat
  lastConnectedAt : Option Nat
  lastAttemptAt : Option Nat
  consecutiveFailures : Nat
  conflictStableId : Option String
  seq : Nat
  deriving DecidableEq, Repr

structure Settings where
  endpointsPerDevice : Nat
  endpointRetireAfter : Nat

abbrev Book := List DeviceEndpointRow

/-- The row is the one of this address. -/
def DeviceEndpointRow.Is (row : DeviceEndpointRow) (stableId address : String) : Prop :=
  row.stableId = stableId ∧ row.address = address

instance (row : DeviceEndpointRow) (stableId address : String) : Decidable (row.Is stableId address) :=
  inferInstanceAs (Decidable (_ ∧ _))

variable (cfg : Settings) (now : Nat)

/-- `max`, of a table that may be empty, and one more. -/
def nextSeq (b : Book) : Nat := (b.map (·.seq)).foldr max 0 + 1

def rowsOf (b : Book) (stableId : String) : Book := b.filter (·.stableId = stableId)

/-- By what a row is evicted. -/
def DeviceEndpointRow.rank (row : DeviceEndpointRow) : Nat := row.lastConnectedAt.getD row.firstSeen

/-- The comparison of `evict`. -/
def Newer (a b : DeviceEndpointRow) : Prop := b.rank < a.rank ∨ a.rank = b.rank ∧ b.seq ≤ a.seq

instance (a b : DeviceEndpointRow) : Decidable (Newer a b) := inferInstanceAs (Decidable (_ ∨ _))

/-- The comparison of `sortForLadder`; what was never connected comes last. -/
def OnLadder (a b : DeviceEndpointRow) : Prop :=
  let at_ (row : DeviceEndpointRow) : Nat := row.lastConnectedAt.elim 0 (· + 1)
  at_ b < at_ a ∨ at_ a = at_ b ∧ (a.consecutiveFailures < b.consecutiveFailures ∨
    a.consecutiveFailures = b.consecutiveFailures ∧ b.seq ≤ a.seq)

instance (a b : DeviceEndpointRow) : Decidable (OnLadder a b) := inferInstanceAs (Decidable (_ ∨ _))

def cap : Nat := max 1 cfg.endpointsPerDevice

def evict (b : Book) (stableId : String) : Book :=
  if (rowsOf b stableId).length ≤ cap cfg then b
  else
    let ranked := (rowsOf b stableId).insertionSort Newer
    b.filter fun row ↦ ¬ (row.stableId = stableId ∧ row.address ∈ (ranked.drop (cap cfg)).map (·.address))

/-- `update … where stableId = … and address = …`. -/
def setRow (b : Book) (stableId address : String) (f : DeviceEndpointRow → DeviceEndpointRow) : Book :=
  b.map fun row ↦ if row.Is stableId address then f row else row

/-- A row that is there is updated, and else a new one inserted. -/
def upsert (b : Book) (row : DeviceEndpointRow) (f : DeviceEndpointRow → DeviceEndpointRow) : Book :=
  if b.any fun old ↦ old.Is row.stableId row.address then setRow b row.stableId row.address f else b ++ [row]

/-- What `observe` sets of a row that is there. -/
def seen (seq : Nat) (row : DeviceEndpointRow) : DeviceEndpointRow :=
  { row with
    lastConnectedAt := some (now / 1000), lastAttemptAt := some (now / 1000), consecutiveFailures := 0
    conflictStableId := none, source := if row.source = .declared then row.source else .observed, seq := seq }

def observe (b : Book) (stableId serial : String) : Book :=
  if isTcpAddress serial then
    evict cfg (upsert b ⟨stableId, serial, none, .observed, now / 1000, some (now / 1000), some (now / 1000), 0,
      none, nextSeq b⟩ (seen now (nextSeq b))) stableId
  else b

/-- What `declare` sets of a row that is there. -/
def declaredAs (medium : Option ConnectionMedium) (seq : Nat) (row : DeviceEndpointRow) : DeviceEndpointRow :=
  { row with medium := medium, source := .declared, seq := seq }

def declare (b : Book) (stableId address : String) (medium : Option ConnectionMedium) : Book :=
  evict cfg (upsert b ⟨stableId, address, medium, .declared, now / 1000, none, none, 0, none, nextSeq b⟩
    (declaredAs medium (nextSeq b))) stableId

inductive Outcome where
  | connected | failed | conflict
  deriving DecidableEq, Repr

def noteAttempt (b : Book) (stableId address : String) (outcome : Outcome) (conflictStableId : Option String) :
    Book :=
  setRow b stableId address fun row ↦
    match outcome with
    | .connected =>
      { row with
        lastAttemptAt := some (now / 1000), lastConnectedAt := some (now / 1000), consecutiveFailures := 0
        conflictStableId := none, seq := nextSeq b }
    | _ =>
      { row with
        lastAttemptAt := some (now / 1000), consecutiveFailures := row.consecutiveFailures + 1
        conflictStableId := if outcome = .conflict then conflictStableId else row.conflictStableId
        seq := nextSeq b }

/-- `forget`; the empty string is as no address. -/
def forget (b : Book) (stableId : String) (address : Option String) : Book :=
  match address.filter (· ≠ "") with
  | some address => b.filter fun row ↦ ¬ row.Is stableId address
  | none => b.filter fun row ↦ row.stableId ≠ stableId

/-- `candidates`, before `rowToEndpoint` leaves out `seq`. -/
def candidates (b : Book) (stableId : String) (includeRetired : Bool) : List DeviceEndpointRow :=
  ((rowsOf b stableId).filter (·.consecutiveFailures < cfg.endpointRetireAfter)).insertionSort OnLadder ++
    if includeRetired then
      ((rowsOf b stableId).filter (cfg.endpointRetireAfter ≤ ·.consecutiveFailures)).insertionSort OnLadder
    else []

/-! ## Runs -/

inductive Call where
  | observe (stableId serial : String)
  | declare (stableId address : String) (medium : Option ConnectionMedium)
  | noteAttempt (stableId address : String) (outcome : Outcome) (conflictStableId : Option String)
  | forget (stableId : String) (address : Option String)

/-- A call, with the settings and the clock at that moment. -/
def exec (b : Book) : Call → Book
  | .observe stableId serial => observe cfg now b stableId serial
  | .declare stableId address medium => declare cfg now b stableId address medium
  | .noteAttempt stableId address outcome conflict => noteAttempt now b stableId address outcome conflict
  | .forget stableId address => forget b stableId address

/-- The books of all runs, with the clock at the last call. -/
inductive Reached : Nat → Book → Prop
  | empty : Reached 0 []
  | step {t now : Nat} {b : Book} (h : Reached t b) (hclock : t ≤ now) (cfg : Settings) (call : Call) :
      Reached now (exec cfg now b call)

variable {cfg now} {t : Nat} {b b' : Book} {stableId address : String}

/-- The rows have an address of their own, and none is from later than the clock. -/
structure Sound (t : Nat) (b : Book) : Prop where
  keys : (b.map fun row ↦ (row.stableId, row.address)).Nodup
  ranks : ∀ row ∈ b, row.rank ≤ t / 1000

/-- The second book is the first with this address written. -/
structure Touched (now : Nat) (stableId address : String) (b b' : Book) : Prop where
  keys : (b'.map fun row ↦ (row.stableId, row.address)).Nodup
  rows : ∀ row' ∈ b', row' ∈ b ∧ ¬ row'.Is stableId address ∨ row'.Is stableId address ∧
    row'.seq = nextSeq b ∧ row'.rank ≤ now / 1000 ∧
      ∀ row ∈ b, row.Is stableId address → row.source = .declared → row'.source = .declared

variable {row : DeviceEndpointRow}

theorem seq_lt_nextSeq (h : row ∈ b) : row.seq < nextSeq b := by
  rw [nextSeq, Nat.lt_succ_iff]
  induction b with
  | nil => cases h
  | cons first b ih =>
    rw [map_cons, foldr_cons]
    rcases mem_cons.mp h with rfl | h
    · exact Nat.le_max_left _ _
    · exact (ih h).trans (Nat.le_max_right _ _)

theorem Sound.eq_of_is (h : (b.map fun row ↦ (row.stableId, row.address)).Nodup)
    {row' : DeviceEndpointRow} (hrow : row ∈ b) (hrow' : row' ∈ b) (his : row.Is stableId address)
    (his' : row'.Is stableId address) : row = row' :=
  inj_on_of_nodup_map h hrow hrow' (Prod.ext (his.1.trans his'.1.symm) (his.2.trans his'.2.symm))

theorem touched_setRow (hs : Sound t b) {f : DeviceEndpointRow → DeviceEndpointRow}
    (hf : ∀ row ∈ b, row.Is stableId address → (f row).Is stableId address ∧ (f row).seq = nextSeq b ∧
      (f row).rank ≤ now / 1000 ∧ (row.source = .declared → (f row).source = .declared)) :
    Touched now stableId address b (setRow b stableId address f) := by
  refine ⟨?_, fun row' hrow' ↦ ?_⟩
  · have hkeys : (setRow b stableId address f).map (fun row ↦ (row.stableId, row.address)) =
        b.map fun row ↦ (row.stableId, row.address) := by
      rw [setRow, map_map]
      refine map_congr_left fun row hrow ↦ ?_
      by_cases his : row.Is stableId address
      · obtain ⟨hstableId, haddress⟩ := (hf row hrow his).1
        simp only [Function.comp_apply, if_pos his, hstableId, haddress, his.1, his.2]
      · simp only [Function.comp_apply, if_neg his]
    rw [hkeys]
    exact hs.keys
  · obtain ⟨old, hold, rfl⟩ := mem_map.mp hrow'
    by_cases his : old.Is stableId address
    · rw [if_pos his]
      obtain ⟨hkey, hseq, hrank, hsource⟩ := hf old hold his
      refine .inr ⟨hkey, hseq, hrank, fun row hrow hrowIs hdeclared ↦ hsource ?_⟩
      rwa [Sound.eq_of_is hs.keys hold hrow his hrowIs]
    · rw [if_neg his]
      exact .inl ⟨hold, his⟩

theorem touched_upsert (hs : Sound t b) (new : DeviceEndpointRow) (f : DeviceEndpointRow → DeviceEndpointRow)
    (hnew : new.seq = nextSeq b ∧ new.rank ≤ now / 1000)
    (hf : ∀ row ∈ b, row.Is new.stableId new.address → (f row).Is new.stableId new.address ∧
      (f row).seq = nextSeq b ∧ (f row).rank ≤ now / 1000 ∧ (row.source = .declared → (f row).source = .declared)) :
    Touched now new.stableId new.address b (upsert b new f) := by
  rw [upsert]
  split_ifs with hany
  · exact touched_setRow hs hf
  · have hfree : ∀ row ∈ b, ¬ row.Is new.stableId new.address := by simpa using hany
    refine ⟨?_, fun row' hrow' ↦ ?_⟩
    · rw [map_append]
      refine (perm_append_singleton _ _).nodup_iff.mpr (nodup_cons.mpr ⟨fun hmem ↦ ?_, hs.keys⟩)
      obtain ⟨row, hrow, hkey⟩ := mem_map.mp hmem
      exact hfree row hrow ⟨congrArg Prod.fst hkey, congrArg Prod.snd hkey⟩
    · rcases mem_append.mp hrow' with hrow' | hrow'
      · exact .inl ⟨hrow', hfree row' hrow'⟩
      · obtain rfl := mem_singleton.mp hrow'
        exact .inr ⟨⟨rfl, rfl⟩, hnew.1, hnew.2, fun row hrow his ↦ absurd his (hfree row hrow)⟩

/-! ## Eviction -/

theorem evict_sublist (cfg : Settings) (b : Book) (stableId : String) : (evict cfg b stableId).Sublist b := by
  rw [evict]
  split_ifs
  · exact List.Sublist.refl _
  · exact filter_sublist

theorem length_evict (cfg : Settings) (b : Book) (stableId : String) :
    (rowsOf (evict cfg b stableId) stableId).length ≤ cap cfg := by
  rw [evict]
  split_ifs with hfits
  · exact hfits
  · have hperm := perm_insertionSort Newer (rowsOf b stableId)
    generalize (rowsOf b stableId).insertionSort Newer = ranked at hperm ⊢
    have hrows : rowsOf (b.filter fun row ↦ ¬ (row.stableId = stableId ∧
        row.address ∈ (ranked.drop (cap cfg)).map (·.address))) stableId =
          (rowsOf b stableId).filter fun row ↦ row.address ∉ (ranked.drop (cap cfg)).map (·.address) := by
      rw [rowsOf, rowsOf, filter_filter, filter_filter]
      refine filter_congr fun row hrow ↦ ?_
      by_cases hstableId : row.stableId = stableId <;> simp [hstableId]
    set p : DeviceEndpointRow → Bool := fun row ↦ row.address ∉ (ranked.drop (cap cfg)).map (·.address)
    have hdropped : (ranked.drop (cap cfg)).filter p = [] :=
      filter_eq_nil_iff.mpr fun row hrow ↦ by simpa [p] using mem_map_of_mem hrow
    have hkept : ranked.filter p = (ranked.take (cap cfg)).filter p := by
      conv_lhs => rw [← take_append_drop (cap cfg) ranked, filter_append, hdropped, append_nil]
    rw [hrows, ← (hperm.filter p).length_eq, hkept]
    exact (length_filter_le _ _).trans (length_take_le _ _)

instance : Std.Total Newer := ⟨fun a b ↦ by unfold Newer; omega⟩

instance : IsTrans DeviceEndpointRow Newer := ⟨fun a b c hab hbc ↦ by unfold Newer at *; omega⟩

instance : Std.Total OnLadder := ⟨fun a b ↦ by simp only [OnLadder]; omega⟩

instance : IsTrans DeviceEndpointRow OnLadder := ⟨fun a b c hab hbc ↦ by simp only [OnLadder] at *; omega⟩

/-- What every other row is older than stays. -/
theorem mem_evict (hkeys : (b.map fun row ↦ (row.stableId, row.address)).Nodup) (hrow : row ∈ b)
    (hnewest : ∀ other ∈ b, other ≠ row → ¬ Newer other row) : row ∈ evict cfg b row.stableId := by
  rw [evict]
  split_ifs with hfits
  · exact hrow
  · refine mem_filter.mpr ⟨hrow, ?_⟩
    have hperm := perm_insertionSort Newer (rowsOf b row.stableId)
    have hsorted := pairwise_insertionSort Newer (rowsOf b row.stableId)
    generalize (rowsOf b row.stableId).insertionSort Newer = ranked at hperm hsorted ⊢
    have hnodup : ranked.Nodup := hperm.nodup_iff.mpr ((List.Nodup.of_map _ hkeys).filter _)
    have hmem : ∀ {other}, other ∈ ranked → other ∈ b ∧ other.stableId = row.stableId := fun hother ↦ by
      simpa using mem_filter.mp (hperm.mem_iff.mp hother)
    rw [← take_append_drop (cap cfg) ranked, pairwise_append] at hsorted
    rw [← take_append_drop (cap cfg) ranked] at hnodup
    have hnot : row ∉ ranked.drop (cap cfg) := by
      intro hdropped
      obtain ⟨first, hfirst⟩ : ∃ first, first ∈ ranked.take (cap cfg) := by
        refine exists_mem_of_ne_nil _ fun hnil ↦ ?_
        rw [take_eq_nil_iff] at hnil
        rcases hnil with hcap | hnil
        · simp [cap] at hcap
        · rw [hnil] at hdropped
          simp at hdropped
      refine hnewest first (hmem (mem_of_mem_take hfirst)).1 ?_ (hsorted.2.2 first hfirst row hdropped)
      rintro rfl
      exact (disjoint_of_nodup_append hnodup) hfirst hdropped
    rw [decide_eq_true_iff]
    rintro ⟨-, haddress⟩
    obtain ⟨other, hother, heq⟩ := mem_map.mp haddress
    obtain ⟨hb, hstableId⟩ := hmem (mem_of_mem_drop hother)
    exact hnot (Sound.eq_of_is hkeys hb hrow ⟨hstableId, heq⟩ ⟨rfl, rfl⟩ ▸ hother)

/-! ## What a call leaves -/

/-- The address that a call writes to, if it is stored. -/
def Call.target : Call → Option (String × String)
  | .observe stableId serial => if isTcpAddress serial then some (stableId, serial) else none
  | .declare stableId address _ | .noteAttempt stableId address .. => some (stableId, address)
  | .forget .. => none

/-- The address that a call stores. -/
def Call.stores : Call → Option (String × String)
  | .noteAttempt .. => none
  | call => call.target

/-- An address that is declared is a new one, or the limit is not lower than what is stored. -/
def Call.InLimit (cfg : Settings) (b : Book) : Call → Prop
  | .declare stableId address _ =>
    (∀ row ∈ b, ¬ row.Is stableId address) ∨ (rowsOf b stableId).length ≤ cap cfg
  | _ => True

/-- What a call leaves of a book. -/
structure Kept (cfg : Settings) (b : Book) (call : Call) (b' : Book) : Prop where
  stored : ∀ key ∈ call.stores, call.InLimit cfg b → ∃ row ∈ b', row.Is key.1 key.2
  bounded : ∀ key ∈ call.stores, (rowsOf b' key.1).length ≤ cap cfg
  declared : ∀ row ∈ b, row.source = .declared →
    ∀ row' ∈ b', row'.Is row.stableId row.address → row'.source = .declared
  latest : ∀ key ∈ call.target, ∀ row ∈ b', row.Is key.1 key.2 →
    ∀ other ∈ b', ¬ other.Is key.1 key.2 → other.seq < row.seq

/-- The ladder: the active addresses in order, and the retired ones in order behind them. -/
def Laddered (cfg : Settings) (b : Book) (stableId : String) (includeRetired : Bool) : Prop :=
  ∃ active retired, candidates cfg b stableId includeRetired = active ++ retired ∧
    active.Perm ((rowsOf b stableId).filter (·.consecutiveFailures < cfg.endpointRetireAfter)) ∧
    retired.Perm (if includeRetired then
      (rowsOf b stableId).filter (cfg.endpointRetireAfter ≤ ·.consecutiveFailures) else []) ∧
    active.Pairwise OnLadder ∧ retired.Pairwise OnLadder

theorem laddered (cfg : Settings) (b : Book) (stableId : String) (includeRetired : Bool) :
    Laddered cfg b stableId includeRetired := by
  refine ⟨_, _, rfl, perm_insertionSort _ _, ?_, pairwise_insertionSort _ _, ?_⟩
  · cases includeRetired with
    | false => exact List.Perm.refl _
    | true => exact perm_insertionSort _ _
  · cases includeRetired with
    | false => exact List.Pairwise.nil
    | true => exact pairwise_insertionSort _ _

theorem Sound.sublist (hs : Sound t b) (hclock : t ≤ now) (hsub : b'.Sublist b) : Sound now b' :=
  ⟨hs.keys.sublist (hsub.map _), fun row hrow ↦
    (hs.ranks row (hsub.subset hrow)).trans (Nat.div_le_div_right hclock)⟩

section

variable (h : Touched now stableId address b b')
include h

theorem Touched.sound (hs : Sound t b) (hclock : t ≤ now) : Sound now b' := by
  refine ⟨h.keys, fun row hrow ↦ ?_⟩
  rcases h.rows row hrow with ⟨hold, -⟩ | ⟨-, -, hrank, -⟩
  · exact (hs.ranks row hold).trans (Nat.div_le_div_right hclock)
  · exact hrank

/-- A book with an address written, of which some rows may be gone. -/
theorem Touched.kept (hs : Sound t b) {call : Call}
    (htarget : call.target = some (stableId, address)) {b'' : Book} (hsub : b''.Sublist b')
    (hstored : (stableId, address) ∈ call.stores → call.InLimit cfg b → ∃ row ∈ b'', row.Is stableId address)
    (hbounded : (stableId, address) ∈ call.stores → (rowsOf b'' stableId).length ≤ cap cfg) :
    Kept cfg b call b'' := by
  have hstores : ∀ key ∈ call.stores, key = (stableId, address) := by
    intro key hkey
    cases call <;> simp_all [Call.stores, Call.target]
  refine ⟨fun key hkey ↦ ?_, fun key hkey ↦ ?_, fun row hrow hdeclared row' hrow' his ↦ ?_,
    fun key hkey row hrow his other hother hnot ↦ ?_⟩
  · obtain rfl := hstores key hkey
    exact hstored hkey
  · obtain rfl := hstores key hkey
    exact hbounded hkey
  · rcases h.rows row' (hsub.subset hrow') with ⟨hold, -⟩ | ⟨his', -, -, hkeeps⟩
    · rwa [Sound.eq_of_is hs.keys hold hrow his ⟨rfl, rfl⟩]
    · exact hkeeps row hrow ⟨his.1.symm.trans his'.1, his.2.symm.trans his'.2⟩ hdeclared
  · rw [htarget] at hkey
    cases hkey
    rcases h.rows row (hsub.subset hrow) with ⟨-, hnotIs⟩ | ⟨-, hseq, -, -⟩
    · exact absurd his hnotIs
    · rcases h.rows other (hsub.subset hother) with ⟨hold, -⟩ | ⟨hotherIs, -⟩
      · exact hseq ▸ seq_lt_nextSeq hold
      · exact absurd hotherIs hnot

/-- What was written just now is newer than all other rows. -/
theorem Touched.newest (hs : Sound t b) (hclock : t ≤ now)
    (hrow : row ∈ b') (his : row.Is stableId address) (hrank : row.rank = now / 1000) :
    ∃ row ∈ evict cfg b' stableId, row.Is stableId address := by
  refine ⟨row, ?_, his⟩
  rw [← his.1]
  refine mem_evict h.keys hrow fun other hother hne hnewer ↦ ?_
  have hseq : row.seq = nextSeq b := by
    rcases h.rows row hrow with ⟨-, hnot⟩ | ⟨-, hseq, -⟩
    · exact absurd his hnot
    · exact hseq
  rcases h.rows other hother with ⟨hold, -⟩ | ⟨hotherIs, -⟩
  · have hearlier := (hs.ranks other hold).trans (Nat.div_le_div_right hclock)
    have hlower := seq_lt_nextSeq hold
    rw [Newer] at hnewer
    omega
  · exact hne (Sound.eq_of_is h.keys hother hrow hotherIs his)

end

/-- The row that is updated or inserted. -/
theorem exists_upsert (b : Book) (new : DeviceEndpointRow) (f : DeviceEndpointRow → DeviceEndpointRow) :
    (∃ old ∈ b, old.Is new.stableId new.address ∧ f old ∈ upsert b new f ∧
        upsert b new f = setRow b new.stableId new.address f) ∨
      (∀ old ∈ b, ¬ old.Is new.stableId new.address) ∧ new ∈ upsert b new f := by
  rw [upsert]
  split_ifs with hany
  · obtain ⟨old, hold, his⟩ := any_eq_true.mp hany
    have his := of_decide_eq_true his
    exact .inl ⟨old, hold, his, mem_map.mpr ⟨old, hold, if_pos his⟩, rfl⟩
  · exact .inr ⟨by simpa using hany, by simp⟩

theorem length_rowsOf_setRow {f : DeviceEndpointRow → DeviceEndpointRow}
    (hf : ∀ row, (f row).stableId = row.stableId) :
    (rowsOf (setRow b stableId address f) stableId).length = (rowsOf b stableId).length := by
  rw [rowsOf, setRow, filter_map, length_map, rowsOf]
  refine congrArg List.length (filter_congr fun row _ ↦ ?_)
  by_cases his : row.Is stableId address
  · simp only [Function.comp_apply, if_pos his, hf]
  · simp only [Function.comp_apply, if_neg his]

theorem kept_exec (hs : Sound t b) (hclock : t ≤ now) (cfg : Settings) (call : Call) :
    Kept cfg b call (exec cfg now b call) ∧ Sound now (exec cfg now b call) := by
  have hless : ∀ {b'' : Book}, call.target = none → b''.Sublist b → Kept cfg b call b'' ∧ Sound now b'' := by
    intro b'' htarget hsub
    have hstores : call.stores = none := by
      cases call <;> simp_all [Call.stores]
    refine ⟨⟨by simp [hstores], by simp [hstores], fun row hrow hdeclared row' hrow' his ↦ ?_,
      by simp [htarget]⟩, hs.sublist hclock hsub⟩
    rwa [Sound.eq_of_is hs.keys (hsub.subset hrow') hrow his ⟨rfl, rfl⟩]
  have hrank : ∀ row ∈ b, row.rank ≤ now / 1000 := fun row hrow ↦
    (hs.ranks row hrow).trans (Nat.div_le_div_right hclock)
  cases call with
  | observe stableId serial =>
    rw [exec, observe]
    split_ifs with htcp
    · have htarget : (Call.observe stableId serial).target = some (stableId, serial) := if_pos htcp
      set new : DeviceEndpointRow := ⟨stableId, serial, none, .observed, now / 1000, some (now / 1000),
        some (now / 1000), 0, none, nextSeq b⟩
      have htouched : Touched now stableId serial b (upsert b new (seen now (nextSeq b))) :=
        touched_upsert hs new (seen now (nextSeq b)) ⟨rfl, le_rfl⟩ fun row _ his ↦
          ⟨his, rfl, le_rfl, fun hdeclared ↦ by simp [seen, hdeclared]⟩
      refine ⟨htouched.kept hs htarget (evict_sublist _ _ _) (fun _ _ ↦ ?_) fun _ ↦ length_evict _ _ _,
        (htouched.sound hs hclock).sublist (le_rfl) (evict_sublist _ _ _)⟩
      rcases exists_upsert b new (seen now (nextSeq b)) with ⟨old, -, his, hmem, -⟩ | ⟨-, hmem⟩
      · exact htouched.newest hs hclock hmem his rfl
      · exact htouched.newest hs hclock hmem ⟨rfl, rfl⟩ rfl
    · exact hless (if_neg htcp) (List.Sublist.refl _)
  | declare stableId address medium =>
    rw [exec, declare]
    set new : DeviceEndpointRow := ⟨stableId, address, medium, .declared, now / 1000, none, none, 0, none,
      nextSeq b⟩
    have htouched : Touched now stableId address b (upsert b new (declaredAs medium (nextSeq b))) :=
      touched_upsert hs new (declaredAs medium (nextSeq b)) ⟨rfl, le_rfl⟩ fun row hrow his ↦
        ⟨his, rfl, hrank row hrow, fun _ ↦ rfl⟩
    refine ⟨htouched.kept hs rfl (evict_sublist _ _ _) (fun _ hlimit ↦ ?_) fun _ ↦ length_evict _ _ _,
      (htouched.sound hs hclock).sublist (le_rfl) (evict_sublist _ _ _)⟩
    rcases exists_upsert b new (declaredAs medium (nextSeq b)) with ⟨old, hold, his, hmem, hset⟩ | ⟨-, hmem⟩
    · -- The address is stored already and keeps its rank, but there is nothing to evict.
      have hfits := hlimit.resolve_left fun hnew ↦ hnew old hold his
      have hlength : (rowsOf (upsert b new (declaredAs medium (nextSeq b))) stableId).length =
          (rowsOf b stableId).length := hset ▸ length_rowsOf_setRow fun _ ↦ rfl
      rw [evict, if_pos (hlength.trans_le hfits)]
      exact ⟨_, hmem, his⟩
    · exact htouched.newest hs hclock hmem ⟨rfl, rfl⟩ rfl
  | noteAttempt stableId address outcome conflict =>
    have htouched : Touched now stableId address b (noteAttempt now b stableId address outcome conflict) := by
      refine touched_setRow hs fun row hrow his ↦ ?_
      cases outcome with
      | connected => exact ⟨his, rfl, le_rfl, fun hdeclared ↦ hdeclared⟩
      | failed | conflict => exact ⟨his, rfl, hrank row hrow, fun hdeclared ↦ hdeclared⟩
    exact ⟨htouched.kept hs rfl (List.Sublist.refl _) nofun nofun, htouched.sound hs hclock⟩
  | forget stableId address =>
    rw [exec, forget]
    split <;> exact hless rfl filter_sublist

theorem sound_of_reached (h : Reached t b) : Sound t b := by
  induction h with
  | empty => exact ⟨nodup_nil, by simp⟩
  | step h hclock cfg call ih => exact (kept_exec ih hclock cfg call).2

/-- **The address book keeps what was written.**  In every run, a call that stores an address leaves it there
and the device with no more than its limit, unless the address is declared again when more are stored than
that; a declaration is not taken back, what was written has the latest number, and the ladder is in order. -/
theorem book_kept (h : Reached t b) (hclock : t ≤ now) (cfg : Settings) (call : Call) :
    Kept cfg b call (exec cfg now b call) ∧
      ∀ (cfg' : Settings) (stableId : String) (includeRetired : Bool),
        Laddered cfg' (exec cfg now b call) stableId includeRetired :=
  ⟨(kept_exec (sound_of_reached h) hclock cfg call).1, fun cfg' stableId _ ↦ laddered cfg' _ stableId _⟩

/-- A device that has one address. -/
def oneBook : Book := exec ⟨2, 10⟩ 1000 [] (.declare "d" "a:1" none)

/-- Another is seen after it. -/
theorem book_kept_again :
    Kept ⟨2, 10⟩ oneBook (.observe "d" "b:1") (exec ⟨2, 10⟩ 2000 oneBook (.observe "d" "b:1")) ∧
      ∀ (cfg' : Settings) (stableId : String) (includeRetired : Bool),
        Laddered cfg' (exec ⟨2, 10⟩ 2000 oneBook (.observe "d" "b:1")) stableId includeRetired :=
  book_kept (.step .empty (Nat.zero_le 1000) ⟨2, 10⟩ (.declare "d" "a:1" none)) (by decide) _ _

/-- A device that has two. -/
def twoBook : Book := exec ⟨2, 10⟩ 2000 oneBook (.declare "d" "b:1" none)

/-- The first is declared again when the limit is one: the other stays. -/
theorem declared_again_evicted :
    Reached 2000 twoBook ∧ ¬ ∃ row ∈ exec ⟨1, 10⟩ 3000 twoBook (.declare "d" "a:1" none), row.Is "d" "a:1" :=
  ⟨.step (.step .empty (Nat.zero_le 1000) _ _) (by decide) _ _, by decide +kernel⟩

end Enkaku.Registry.Endpoints
