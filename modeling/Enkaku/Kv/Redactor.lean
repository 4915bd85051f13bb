import Enkaku.Kv.Paging
import Enkaku.Lib.Replace

/-!
# Redacting secrets

`buildSecretRedactor` collects the secrets of some scopes and replaces each of them in a text, the
longest first, by a marker that names its key.  `redactor_hides_iff` says for which keys and secrets
no text comes out with a secret in it: a marker puts new text beside what is left, and the
replacements that would find it are over.
-/

set_option autoImplicit false

namespace Enkaku.Kv

open List

/-! ## `buildSecretRedactor` -/

def redactMinLen : ℕ := 8

/-- One of the `pairs`. -/
structure SecretPair where
  key : String
  plaintext : String
deriving DecidableEq

/-- The code units of a string. -/
def codeUnits (s : String) : List ℕ := s.toList.flatMap Utf16.units

/-- What stands for a secret in a line. -/
def SecretPair.marker (p : SecretPair) : List ℕ := codeUnits s!"«redacted:{p.key}»"

/-- The text of a value that is looked for. -/
def plaintextOf (rt : Runtime) (value : Value) : String :=
  match value with
  | .str s => s
  | v => rt.stringify v

namespace KvStore

/-- What the loop over the items takes of one. -/
def pairOf (rt : Runtime) (now : ℤ) (s : KvStore) (scope : KvScope) (ns : String) (item : KvEntry) :
    Except KvError (Option SecretPair) :=
  if ¬ item.secret then .ok none
  else (s.get rt now scope ns item.key).map fun entry ↦
    match entry with
    | none => none
    | some entry =>
      if redactMinLen ≤ lengthOf (plaintextOf rt entry.value) then
        some ⟨item.key, plaintextOf rt entry.value⟩
      else none

/-- The pairs of one scope. -/
def pairsIn (rt : Runtime) (now : ℤ) (s : KvStore) (ns : String) (scope : KvScope) :
    Except KvError (List SecretPair) := do
  let page ← s.list rt now scope ns ⟨none, 500, none⟩
  let found ← page.items.mapM (s.pairOf rt now scope ns)
  pure (found.filterMap id)

/-- `buildSecretRedactor(store, scopes, namespace)`. -/
def buildSecretRedactor (rt : Runtime) (now : ℤ) (s : KvStore) (scopes : List KvScope)
    (ns : String) : Except KvError (List ℕ → List ℕ) := do
  let found ← scopes.mapM (s.pairsIn rt now ns)
  let pairs := found.flatten.mergeSort fun a b ↦ lengthOf b.plaintext ≤ lengthOf a.plaintext
  pure fun text ↦
    if pairs.isEmpty then text
    else pairs.foldl (fun acc p ↦ Replace.replace (codeUnits p.plaintext) p.marker acc) text

/-! ## What is promised of it -/

/-- The secrets of the scopes that are alive, with the texts they have when they are read. -/
def Readable (rt : Runtime) (now : ℤ) (s : KvStore) (scopes : List KvScope) (ns : String) :
    Set SecretPair :=
  {p | ∃ r ∈ s.rows, r.scope ∈ scopes ∧ r.ns = ns ∧ r.isExpired now = false ∧
    r.columns.secret = true ∧ r.key = p.key ∧
      ∃ e, rowToEntry rt r = .ok e ∧ plaintextOf rt e.value = p.plaintext}

/-- Those that are long enough. -/
def Secrets (rt : Runtime) (now : ℤ) (s : KvStore) (scopes : List KvScope) (ns : String) :
    Set SecretPair :=
  {p ∈ s.Readable rt now scopes ns | redactMinLen ≤ lengthOf p.plaintext}

/-- At most so many entries that a page holds them, all of which can be read. -/
def FitsPage (rt : Runtime) (now : ℤ) (s : KvStore) (scopes : List KvScope) (ns : String) : Prop :=
  (∀ scope ∈ scopes, (s.matchingRows now scope ns none).length ≤ 500) ∧
    ∀ r ∈ s.rows, ∃ e, rowToEntry rt r = .ok e

/-- No line holds a secret. -/
def HidesSecrets (rt : Runtime) (now : ℤ) (s : KvStore) (scopes : List KvScope) (ns : String) : Prop :=
  ∃ redact, s.buildSecretRedactor rt now scopes ns = .ok redact ∧
    ∀ text, ∀ p ∈ s.Secrets rt now scopes ns, ¬ codeUnits p.plaintext <:+: redact text

/-! ## The pairs -/

section Pairs

variable {rt : Runtime} {now : ℤ} {s : KvStore} {scope : KvScope} {scopes : List KvScope} {ns : String}
  {r : KvEntryRow} {p : SecretPair}

/-- The pair of a row. -/
def rowPair (rt : Runtime) (r : KvEntryRow) : Option SecretPair :=
  match rowToEntry rt r with
  | .error _ => none
  | .ok e =>
    if r.columns.secret ∧ redactMinLen ≤ lengthOf (plaintextOf rt e.value) then
      some ⟨r.key, plaintextOf rt e.value⟩
    else none

theorem rowToListEntry_of_reads {e : KvEntry} (h : rowToEntry rt r = .ok e) :
    ∃ item, rowToListEntry rt r = .ok item ∧ item.key = r.key ∧ item.secret = r.columns.secret := by
  rw [rowToListEntry]
  split_ifs with hsecret
  · exact ⟨_, rfl, rfl, rfl⟩
  · rw [rowToEntry, rawOf, if_neg hsecret] at h
    rcases hparse : parseOf rt r.columns.value with err | value
    · simp [hparse, bind, Except.bind] at h
    · exact ⟨_, rfl, rfl, rfl⟩

theorem mem_matchingRows : r ∈ s.matchingRows now scope ns none ↔
    r ∈ s.rows ∧ r.scope = scope ∧ r.ns = ns ∧ r.isExpired now = false := by
  simp only [matchingRows, scanNamespace, mem_filter, decide_eq_true_iff, Option.all_none,
    and_true, Bool.not_eq_true]
  constructor
  · rintro ⟨⟨hr, hscope, hns⟩, hlive⟩
    exact ⟨hr, hscope, hns, hlive⟩
  · rintro ⟨hr, hscope, hns, hlive⟩
    exact ⟨⟨hr, hscope, hns⟩, hlive⟩

/-- The loop takes the pair of the row. -/
theorem pairOf_eq {item : KvEntry} (hr : r ∈ s.matchingRows now scope ns none)
    (hread : ∃ e, rowToEntry rt r = .ok e) (hitem : rowToListEntry rt r = .ok item) :
    s.pairOf rt now scope ns item = .ok (rowPair rt r) := by
  obtain ⟨hmem, rfl, rfl, hlive⟩ := mem_matchingRows.mp hr
  obtain ⟨e, he⟩ := hread
  obtain ⟨item', hitem', hkey, hsecret⟩ := rowToListEntry_of_reads he
  cases hitem.symm.trans hitem'
  have hget : s.get rt now r.scope r.ns item.key = .ok (some e) := by
    rw [hkey, get, getRow_eq hmem rfl]
    simp only [hlive, he]
    rfl
  rw [pairOf, hget, rowPair, he, hsecret, hkey]
  by_cases hs : r.columns.secret = true
  · simp [hs, Except.map]
  · simp [hs]

/-- The items of a page, and the pairs of these. -/
theorem mapM_pairOf (hread : ∀ r ∈ s.rows, ∃ e, rowToEntry rt r = .ok e) {rows : List KvEntryRow}
    (hrows : ∀ r ∈ rows, r ∈ s.matchingRows now scope ns none) :
    ∃ items, rows.mapM (rowToListEntry rt) = .ok items ∧
      items.mapM (s.pairOf rt now scope ns) = .ok (rows.map (rowPair rt)) := by
  induction rows with
  | nil => exact ⟨[], rfl, rfl⟩
  | cons r rows ih =>
    rw [forall_mem_cons] at hrows
    obtain ⟨items, hitems, hpairs⟩ := ih hrows.2
    have hreads := hread r (mem_matchingRows.mp hrows.1).1
    obtain ⟨item, hitem, -, -⟩ := rowToListEntry_of_reads hreads.choose_spec
    refine ⟨item :: items, ?_, ?_⟩
    · rw [mapM_cons, hitem, hitems]
      rfl
    · rw [mapM_cons, pairOf_eq hrows.1 hreads hitem, hpairs]
      rfl

/-- The pairs of a scope whose entries fit on a page. -/
theorem pairsIn_eq (hlen : (s.matchingRows now scope ns none).length ≤ 500)
    (hread : ∀ r ∈ s.rows, ∃ e, rowToEntry rt r = .ok e) :
    s.pairsIn rt now ns scope =
      .ok ((s.sortedRows rt now scope ns none).filterMap (rowPair rt)) := by
  have hperm : (s.sortedRows rt now scope ns none).Perm (s.matchingRows now scope ns none) :=
    mergeSort_perm _ _
  obtain ⟨items, hitems, hpairs⟩ := mapM_pairOf hread fun r hr ↦ hperm.mem_iff.mp hr
  have hpage : s.list rt now scope ns ⟨none, 500, none⟩ = .ok ⟨items, none⟩ := by
    rw [list_eq (by decide)]
    simp only [Option.all_none, filter_true, take_of_length_le (hperm.length_eq ▸ hlen),
      if_neg (Nat.not_lt.mpr (hperm.length_eq ▸ hlen)), hitems]
    rfl
  rw [pairsIn, hpage]
  simp only [bind, Except.bind, hpairs, pure, Except.pure, filterMap_map, Function.id_comp]

theorem mapM_of_ok {α β : Type} {f : α → Except KvError β} {g : α → β} {l : List α}
    (h : ∀ a ∈ l, f a = .ok (g a)) : l.mapM f = .ok (l.map g) := by
  induction l with
  | nil => rfl
  | cons a l ih =>
    rw [forall_mem_cons] at h
    rw [mapM_cons, h.1, ih h.2]
    rfl

/-- The pairs of all scopes, in the order in which they are collected. -/
def collected (rt : Runtime) (now : ℤ) (s : KvStore) (scopes : List KvScope) (ns : String) :
    List SecretPair :=
  scopes.flatMap fun scope ↦ (s.sortedRows rt now scope ns none).filterMap (rowPair rt)

/-- The redactor replaces the pairs one after the other. -/
theorem buildSecretRedactor_eq (h : s.FitsPage rt now scopes ns) :
    ∃ redact, s.buildSecretRedactor rt now scopes ns = .ok redact ∧ ∀ text, redact text =
      Replace.replaceAll (((s.collected rt now scopes ns).mergeSort fun a b ↦
        lengthOf b.plaintext ≤ lengthOf a.plaintext).map fun p ↦ (codeUnits p.plaintext, p.marker))
        text := by
  have hfound : scopes.mapM (s.pairsIn rt now ns) = .ok (scopes.map fun scope ↦
      (s.sortedRows rt now scope ns none).filterMap (rowPair rt)) := by
    refine mapM_of_ok fun scope hscope ↦ ?_
    exact pairsIn_eq (h.1 scope hscope) h.2
  rw [buildSecretRedactor, hfound]
  refine ⟨_, rfl, fun text ↦ ?_⟩
  rw [← flatMap_def, ← collected, Replace.replaceAll, foldl_map]
  split_ifs with hempty
  · rw [isEmpty_iff.mp hempty]
    rfl
  · rfl

/-- The pairs are the secrets. -/
theorem mem_collected (h : s.FitsPage rt now scopes ns) :
    p ∈ s.collected rt now scopes ns ↔ p ∈ s.Secrets rt now scopes ns := by
  simp only [collected, mem_flatMap, mem_filterMap]
  constructor
  · rintro ⟨scope, hscope, r, hr, hpair⟩
    obtain ⟨hmem, rfl, rfl, hlive⟩ := mem_matchingRows.mp ((mergeSort_perm _ _).mem_iff.mp hr)
    obtain ⟨e, he⟩ := h.2 r hmem
    rw [rowPair, he] at hpair
    simp only at hpair
    split_ifs at hpair with hsecret
    cases hpair
    exact ⟨⟨r, hmem, hscope, rfl, hlive, hsecret.1, rfl, e, he, rfl⟩, hsecret.2⟩
  · rintro ⟨⟨r, hmem, hscope, rfl, hlive, hsecret, hkey, e, he, hplain⟩, hlen⟩
    refine ⟨r.scope, hscope, r, (mergeSort_perm _ _).mem_iff.mpr
      (mem_matchingRows.mpr ⟨hmem, rfl, rfl, hlive⟩), ?_⟩
    rw [rowPair, he]
    simp only
    rw [hplain, if_pos ⟨hsecret, hlen⟩, hkey]

end Pairs

/-! ## Two secrets -/

section Held

/-- The columns of a secret text. -/
def sealed (rt : Runtime) (plaintext : String) : KvWrite :=
  ⟨rt.encrypt (rt.stringify (.str plaintext)), true, none, 1, none, 0, none, first_version⟩

/-- A secret of everyone, and one of a device. -/
def held (rt : Runtime) (p q : SecretPair) : KvStore where
  rows := [⟨0, .global, "n", p.key, sealed rt p.plaintext⟩,
    ⟨1, .device "d", "n", q.key, sealed rt q.plaintext⟩]
  nextId := 2
  identities := by simp [KvEntryRow.identity]
  ids := by simp
  below := List.forall_mem_cons.mpr ⟨Nat.zero_lt_two, List.forall_mem_singleton.mpr Nat.one_lt_two⟩

variable {rt : Runtime} {now : ℤ} {p q : SecretPair} {scope : KvScope} {scopes : List KvScope}

section

variable (hbox : ∀ raw, rt.decrypt (rt.encrypt raw) = some raw)
include hbox

section

variable (hjson : ∀ v : String, rt.parse (rt.stringify (.str v)) = some (.str v))
include hjson

theorem rowToEntry_sealed {id : ℕ} {key : String} :
    rowToEntry rt ⟨id, scope, "n", key, sealed rt p.plaintext⟩ =
      .ok (entryOf key (.str p.plaintext) (sealed rt p.plaintext)) := by
  simp [rowToEntry, rawOf, sealed, hbox, hjson, parseOf, bind, Except.bind, pure, Except.pure]

theorem rowPair_sealed {id : ℕ} (hp : redactMinLen ≤ lengthOf p.plaintext) :
    rowPair rt ⟨id, scope, "n", p.key, sealed rt p.plaintext⟩ = some p := by
  rw [rowPair, rowToEntry_sealed hbox hjson]
  exact if_pos ⟨rfl, hp⟩

theorem held_fitsPage : (held rt p q).FitsPage rt now scopes "n" := by
  constructor
  · intro scope _
    have hle : ((held rt p q).matchingRows now scope "n" none).length ≤ (held rt p q).rows.length :=
      (length_filter_le _ _).trans ((length_filter_le _ _).trans (length_filter_le _ _))
    exact hle.trans (by simp [held])
  · intro r hr
    simp only [held, mem_cons, not_mem_nil, or_false] at hr
    rcases hr with rfl | rfl
    · exact ⟨_, rowToEntry_sealed hbox hjson⟩
    · exact ⟨_, rowToEntry_sealed hbox hjson⟩

end

end

theorem sortedRows_held : (held rt p q).sortedRows rt now .global "n" none =
      [⟨0, .global, "n", p.key, sealed rt p.plaintext⟩] ∧
    (held rt p q).sortedRows rt now (.device "d") "n" none =
      [⟨1, .device "d", "n", q.key, sealed rt q.plaintext⟩] := by
  constructor
  · rw [sortedRows]
    exact mergeSort_singleton _
  · rw [sortedRows]
    exact mergeSort_singleton _

theorem collected_held (hbox : ∀ raw, rt.decrypt (rt.encrypt raw) = some raw)
    (hjson : ∀ v : String, rt.parse (rt.stringify (.str v)) = some (.str v))
    (hp : redactMinLen ≤ lengthOf p.plaintext) (hq : redactMinLen ≤ lengthOf q.plaintext) :
    (held rt p q).collected rt now [.global, .device "d"] "n" = [p, q] ∧
      (held rt p q).collected rt now [.device "d"] "n" = [q] := by
  have hpair := fun scope id ↦ @rowPair_sealed rt p scope hbox hjson id hp
  have hpair' := fun scope id ↦ @rowPair_sealed rt q scope hbox hjson id hq
  simp [collected, sortedRows_held, hpair, hpair']

end Held

/-! ## The result -/

variable {rt : Runtime} {now : ℤ} {p q : SecretPair}

theorem codeUnits_ne_nil (h : redactMinLen ≤ lengthOf p.plaintext) : codeUnits p.plaintext ≠ [] := by
  intro hnil
  have hlen : lengthOf p.plaintext = 0 := congrArg List.length hnil
  rw [hlen] at h
  exact nomatch h

/-- Nothing appears where no marker makes a secret appear that is not shorter than its own. -/
theorem hidesSecrets_of_not_makesAppear {s : KvStore} {scopes : List KvScope} {ns : String}
    (h : ∀ p ∈ s.Secrets rt now scopes ns, ∀ q ∈ s.Secrets rt now scopes ns,
      lengthOf q.plaintext ≤ lengthOf p.plaintext →
        ¬ Replace.MakesAppear (codeUnits q.plaintext) q.marker (codeUnits p.plaintext))
    (hfits : s.FitsPage rt now scopes ns) : s.HidesSecrets rt now scopes ns := by
  obtain ⟨redact, hredact, htext⟩ := buildSecretRedactor_eq hfits
  refine ⟨redact, hredact, fun text p hp ↦ ?_⟩
  have hperm := mergeSort_perm (s.collected rt now scopes ns) fun a b ↦
    lengthOf b.plaintext ≤ lengthOf a.plaintext
  have hmem : ∀ p, p ∈ (s.collected rt now scopes ns).mergeSort (fun a b ↦
      lengthOf b.plaintext ≤ lengthOf a.plaintext) ↔ p ∈ s.Secrets rt now scopes ns :=
    fun p ↦ hperm.mem_iff.trans (mem_collected hfits)
  have hsorted := @List.pairwise_mergeSort _ (fun a b : SecretPair ↦
      lengthOf b.plaintext ≤ lengthOf a.plaintext)
    (fun a b c hab hbc ↦ decide_eq_true ((of_decide_eq_true hbc).trans (of_decide_eq_true hab)))
    (fun a b ↦ by simpa using Nat.le_total _ _) (s.collected rt now scopes ns)
  rw [htext]
  refine Replace.replaceAll_free ?_ ?_ ?_ text (codeUnits p.plaintext, p.marker)
    (mem_map.mpr ⟨p, (hmem p).mpr hp, rfl⟩)
  · intro pair hpair
    obtain ⟨q, hq, rfl⟩ := mem_map.mp hpair
    exact codeUnits_ne_nil ((hmem q).mp hq).2
  · intro pair hpair
    obtain ⟨q, hq, rfl⟩ := mem_map.mp hpair
    exact h q ((hmem q).mp hq) q ((hmem q).mp hq) (le_rfl)
  · rw [pairwise_map]
    refine hsorted.imp_of_mem fun {a b} ha hb hle ↦ ?_
    exact h a ((hmem a).mp ha) b ((hmem b).mp hb) (of_decide_eq_true hle)

/-- What the redactor does where the pairs are collected in the order it takes them. -/
theorem HidesSecrets.free {s : KvStore} {scopes : List KvScope} {ns : String}
    {pairs : List SecretPair} (h : s.HidesSecrets rt now scopes ns) (hfits : s.FitsPage rt now scopes ns)
    (hpairs : s.collected rt now scopes ns = pairs)
    (hsorted : pairs.Pairwise fun a b ↦ lengthOf b.plaintext ≤ lengthOf a.plaintext)
    (text : List ℕ) (hp : p ∈ pairs) : ¬ codeUnits p.plaintext <:+:
      Replace.replaceAll (pairs.map fun p ↦ (codeUnits p.plaintext, p.marker)) text := by
  obtain ⟨redact, hredact, hfree⟩ := h
  obtain ⟨redact', hredact', htext⟩ := buildSecretRedactor_eq hfits
  cases hredact.symm.trans hredact'
  have hsecret : p ∈ s.Secrets rt now scopes ns := (mem_collected hfits).mp (hpairs ▸ hp)
  have hkept := hfree text p hsecret
  rwa [htext, hpairs, mergeSort_of_pairwise (hsorted.imp decide_eq_true)] at hkept

/-- **When no line holds a secret.**  Whatever secrets of some kind there are, no text comes out with
one of them in it if and only if the marker of none of that kind makes appear, anywhere, the secret
it is for or one that is not shorter. -/
theorem redactor_hides_iff (rt : Runtime) (now : ℤ)
    (hbox : ∀ raw, rt.decrypt (rt.encrypt raw) = some raw)
    (hjson : ∀ v : String, rt.parse (rt.stringify (.str v)) = some (.str v)) (S : Set SecretPair) :
    (∀ (s : KvStore) (scopes : List KvScope) (ns : String), s.FitsPage rt now scopes ns →
        s.Secrets rt now scopes ns ⊆ S → s.HidesSecrets rt now scopes ns) ↔
      ∀ p ∈ S, ∀ q ∈ S, redactMinLen ≤ lengthOf q.plaintext →
        lengthOf q.plaintext ≤ lengthOf p.plaintext →
          ¬ Replace.MakesAppear (codeUnits q.plaintext) q.marker (codeUnits p.plaintext) := by
  constructor
  · intro h p hp q hq hlen hle happears
    obtain ⟨text, hfree, hin⟩ := happears.exists_text (codeUnits_ne_nil hlen)
    obtain ⟨hboth, hone⟩ := @collected_held rt now p q hbox hjson (hlen.trans hle) hlen
    have hsub : ∀ scopes l, (held rt p q).collected rt now scopes "n" = l → (∀ a ∈ l, a ∈ S) →
        (held rt p q).HidesSecrets rt now scopes "n" := by
      intro scopes l hl hmem
      have hfits : (held rt p q).FitsPage rt now scopes "n" := held_fitsPage hbox hjson
      exact h _ _ _ hfits fun a ha ↦ hmem a (hl ▸ (mem_collected hfits).mpr ha)
    by_cases heq : codeUnits p.plaintext = codeUnits q.plaintext
    · -- The secret is the needle itself: it alone is enough.
      have hhides := hsub _ _ hone (by simpa using hq)
      refine hhides.free (held_fitsPage hbox hjson) hone (pairwise_singleton _ _) text
        (.head _) ?_
      rwa [← heq]
    · -- The longer one is replaced before, and is not there yet.
      have hhides := hsub _ _ hboth (by simpa using ⟨hp, hq⟩)
      refine hhides.free (held_fitsPage hbox hjson) hboth (by simpa using hle) text
        (.head _) ?_
      rw [map_cons, Replace.replaceAll, foldl_cons, Replace.replace_of_free (hfree heq)]
      exact hin
  · intro h s scopes ns hfits hS
    exact hidesSecrets_of_not_makesAppear
      (fun p hp q hq hle ↦ h p (hS hp) q (hS hq) hq.2 hle) hfits

/-- JSON of texts that need no escapes, in a box that is open. -/
def quoting : Runtime where
  stringify
    | .str s => "\"" ++ s ++ "\""
    | _ => "null"
  parse raw := some (.str (String.ofList (raw.toList.drop 1).dropLast))
  encrypt := id
  decrypt := some
  localeCompare := compare

theorem parse_quoting (v : String) : quoting.parse (quoting.stringify (.str v)) = some (.str v) := by
  simp [quoting]

/-- Two secrets with nothing in common with their markers. -/
theorem redactor_hides_token :
    (held quoting ⟨"token", "hunter2hunter2"⟩ ⟨"pin", "87654321"⟩).HidesSecrets quoting 0
      [.global, .device "d"] "n" := by
  have hmarker : ∀ p : SecretPair, p.marker = 171 :: (codeUnits s!"redacted:{p.key}" ++ [187]) := by
    intro p
    simp [SecretPair.marker, codeUnits, Utf16.units, toString]
  refine (redactor_hides_iff quoting 0 (fun _ ↦ rfl) parse_quoting
    {⟨"token", "hunter2hunter2"⟩, ⟨"pin", "87654321"⟩}).mpr ?_ _ _ _
    (held_fitsPage (fun _ ↦ rfl) parse_quoting) ?_
  · rintro p hp q hq hlen - happears
    have hfree : ∀ p ∈ [(⟨"token", "hunter2hunter2"⟩ : SecretPair), ⟨"pin", "87654321"⟩],
        ∀ q ∈ [(⟨"token", "hunter2hunter2"⟩ : SecretPair), ⟨"pin", "87654321"⟩],
          ¬ codeUnits p.plaintext <:+: codeUnits s!"redacted:{q.key}" ∧
            171 ∉ codeUnits p.plaintext ∧ 187 ∉ codeUnits p.plaintext := by decide +kernel
    obtain ⟨hmid, hl, hr⟩ := hfree p (by simpa using hp) q (by simpa using hq)
    rw [hmarker] at happears
    exact Replace.not_makesAppear (codeUnits_ne_nil hlen) hmid hl hr happears
  · intro p hp
    have hmem := (mem_collected (held_fitsPage (fun _ ↦ rfl) parse_quoting)).mpr hp
    rw [(collected_held (fun _ ↦ rfl) parse_quoting (by decide) (by decide)).1] at hmem
    simpa using hmem

/-- A secret that is a word of its own marker. -/
def wordOfMarker : KvStore := held quoting ⟨"a", "hunter2hunter2"⟩ ⟨"k", "redacted"⟩

theorem redactor_leaves : wordOfMarker.FitsPage quoting 0 [.device "d"] "n" ∧
    (⟨"k", "redacted"⟩ : SecretPair) ∈ wordOfMarker.Secrets quoting 0 [.device "d"] "n" ∧
    ¬ wordOfMarker.HidesSecrets quoting 0 [.device "d"] "n" := by
  have hfits : wordOfMarker.FitsPage quoting 0 [.device "d"] "n" :=
    held_fitsPage (fun _ ↦ rfl) parse_quoting
  have hone : wordOfMarker.collected quoting 0 [.device "d"] "n" = [⟨"k", "redacted"⟩] :=
    (collected_held (fun _ ↦ rfl) parse_quoting (by decide) (by decide)).2
  refine ⟨hfits, (mem_collected hfits).mp (hone ▸ (.head _)), fun h ↦ ?_⟩
  refine h.free hfits hone (List.pairwise_singleton _ _) (codeUnits "redacted")
    (.head _) ?_
  decide +kernel

end KvStore

end Enkaku.Kv
