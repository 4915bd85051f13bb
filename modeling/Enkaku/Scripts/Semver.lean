import Enkaku.Lib.Binary64
import Enkaku.Lib.JsData
import Enkaku.Lib.SplitOn
import Mathlib.Data.Prod.Lex
import Mathlib.Data.Sum.Order

/-!
# Which version of a script is the newest

`protocol/src/script-ref.ts`: the versions a script reference admits, and their comparison.  The
comparison reads every number with `Number`, as a double: 53 bits of it, and from 309 digits on no
more than that it is infinite.

Against it stands semver's precedence, an order of the texts a version is made of.
-/

set_option autoImplicit false

namespace Enkaku.Semver

open List

open Js Binary64

/-! ## The versions `ScriptRefSchema` admits -/

/-- `/^\d+$/`. -/
def IsDigits (t : Text) : Prop := t ≠ [] ∧ ∀ u ∈ t, Js.isDigit u

instance (t : Text) : Decidable (IsDigits t) := @instDecidableAnd _ _ _ (decidableBAll _ t)

/-- What a `.` of a pattern does not stand for. -/
def isLineTerminator (u : UInt16) : Bool := u == 10 || u == 13 || u == 0x2028 || u == 0x2029

/-- What stands for the newest of them. -/
def latest : Text := text "latest"

/-- `(?:latest|\d+\.\d+\.\d+(?:[-+].+)?)`, which is what a reference has behind its `@`. -/
def IsVersion (t : Text) : Prop :=
  t = latest ∨ ∃ major minor patch rest,
    t = major ++ unit '.' :: (minor ++ unit '.' :: (patch ++ rest)) ∧
    IsDigits major ∧ IsDigits minor ∧ IsDigits patch ∧
    (rest = [] ∨ ∃ sign tail, rest = sign :: tail ∧ (sign = unit '-' ∨ sign = unit '+') ∧
      tail ≠ [] ∧ ∀ u ∈ tail, isLineTerminator u = false)

/-! ## `parseSemver` -/

/-- The number that digits stand for. -/
def digitsValue (t : Text) : ℕ := t.foldl (fun n u ↦ 10 * n + (u.toNat - 48)) 0

/-- `Number(text)`, where the text is digits.  What else a version gives to it is `latest`, or what
that has no second and third part of, and neither is a number. -/
def number (t : Option Text) : Double :=
  match t with
  | some t => if IsDigits t then ofNat (digitsValue t) else .nan
  | none => .nan

structure ParsedSemver where
  major : Double
  minor : Double
  patch : Double
  /-- The identifiers behind the `-`; none means no prerelease. -/
  prerelease : List Text
deriving DecidableEq

/-- `parseSemver(version)`. -/
def parseSemver (version : Text) : ParsedSemver :=
  let withoutBuild := (version.splitOn (unit '+')).head?.getD version
  let dashIdx := withoutBuild.idxOf? (unit '-')
  let core := match dashIdx with
    | none => withoutBuild
    | some i => withoutBuild.take i
  let preStr := match dashIdx with
    | none => []
    | some i => withoutBuild.drop (i + 1)
  let parts := core.splitOn (unit '.')
  { major := number parts[0]?
    minor := number parts[1]?
    patch := number parts[2]?
    prerelease := if preStr = [] then [] else preStr.splitOn (unit '.') }

/-! ## `compareSemver` -/

/-- `comparePrereleaseIdentifier(a, b)`, by its sign; nothing is `NaN`. -/
def comparePrereleaseIdentifier (a b : Text) : Option Ordering :=
  if IsDigits a ∧ IsDigits b then subSign (number (some a)) (number (some b))
  else if IsDigits a then some .lt
  else if IsDigits b then some .gt
  else if a < b then some .lt
  else if b < a then some .gt
  else some .eq

/-- The loop over the identifiers of two prereleases. -/
def comparePrerelease : List Text → List Text → Option Ordering
  | [], [] => some .eq
  | [], _ :: _ => some .lt
  | _ :: _, [] => some .gt
  | a :: as, b :: bs =>
    match comparePrereleaseIdentifier a b with
    | some .eq => comparePrerelease as bs
    | c => c

/-- `compareSemver(a, b)`, by its sign; nothing is `NaN`. -/
def compareSemver (a b : Text) : Option Ordering :=
  let pa := parseSemver a
  let pb := parseSemver b
  if ¬ same pa.major pb.major then subSign pa.major pb.major
  else if ¬ same pa.minor pb.minor then subSign pa.minor pb.minor
  else if ¬ same pa.patch pb.patch then subSign pa.patch pb.patch
  else if pa.prerelease = [] ∧ pb.prerelease = [] then some .eq
  else if pa.prerelease = [] then some .gt
  else if pb.prerelease = [] then some .lt
  else comparePrerelease pa.prerelease pb.prerelease

/-- `versions.sort((a, b) => compareSemver(b, a))[0]`.  The sort keeps two elements whose comparison
is 0 or `NaN`. -/
def greatest (versions : List Text) : Option Text :=
  (versions.mergeSort fun a b ↦ compareSemver b a != some .gt).head?

/-! ## Semver's precedence -/

/-- A version: the digits of its core, and the identifiers of its prerelease, of which a release has
none. -/
structure Version where
  major : Text
  minor : Text
  patch : Text
  prerelease : List Text
deriving Inhabited

/-- How a version may be written: the prerelease is behind a `-`, and build metadata behind a `+`. -/
def Version.Writes (v : Version) (t : Text) : Prop :=
  ∃ pre build, t = v.major ++ unit '.' :: (v.minor ++ unit '.' :: (v.patch ++ (pre ++ build))) ∧
    (IsDigits v.major ∧ IsDigits v.minor ∧ IsDigits v.patch) ∧
    (pre = [] ∧ v.prerelease = [] ∨ pre = unit '-' :: [unit '.'].intercalate v.prerelease) ∧
    (v.prerelease ≠ [[]] ∧ ∀ id ∈ v.prerelease, unit '.' ∉ id ∧ unit '+' ∉ id) ∧
    (build = [] ∨ ∃ metadata, build = unit '+' :: metadata)

/-- An identifier: every number is below every text. -/
abbrev Identifier := ℕ ⊕ₗ List ℕ

def identifier (id : Text) : Identifier :=
  if IsDigits id then toLex (.inl (digitsValue id)) else toLex (.inr (id.map UInt16.toNat))

/-- The numbers of the core, and then the prerelease, above all of which is the release. -/
abbrev Precedence := ℕ ×ₗ ℕ ×ₗ ℕ ×ₗ WithTop (List Identifier)

def prereleasePrecedence (prerelease : List Text) : WithTop (List Identifier) :=
  if prerelease = [] then ⊤ else ↑(prerelease.map identifier)

def Version.precedence (v : Version) : Precedence :=
  toLex (digitsValue v.major, toLex (digitsValue v.minor, toLex (digitsValue v.patch,
    prereleasePrecedence v.prerelease)))

/-- `compareSemver` is semver's precedence on some texts: in particular a preorder, and the greatest
of a list does not depend on how the list is ordered. -/
structure OrdersVersions (V : Set Text) : Prop where
  precedence : ∀ a ∈ V, ∀ b ∈ V, ∀ v w : Version, v.Writes a → w.Writes b →
    ∃ o, compareSemver a b = some o ∧ o.Compares v.precedence w.precedence
  not_nan : ∀ a ∈ V, ∀ b ∈ V, compareSemver a b ≠ none
  swap : ∀ a ∈ V, ∀ b ∈ V, compareSemver b a = (compareSemver a b).map Ordering.swap
  trans : ∀ a ∈ V, ∀ b ∈ V, ∀ c ∈ V, compareSemver a b ≠ some .gt → compareSemver b c ≠ some .gt →
    compareSemver a c ≠ some .gt
  greatest : ∀ l : List Text, (∀ a ∈ l, a ∈ V) → l ≠ [] →
    ∃ g ∈ l, greatest l = some g ∧ ∀ a ∈ l, compareSemver a g ≠ some .gt
  greatest_perm : ∀ l l' : List Text, (∀ a ∈ l, a ∈ V) → l.Perm l' → ∀ g g', Semver.greatest l = some g →
    Semver.greatest l' = some g' → compareSemver g g' = some .eq

/-! ## What `parseSemver` reads -/

section Parse

variable {t d : Text} {u : UInt16} {v : Version}

theorem IsDigits.not_mem (h : IsDigits d) (hu : Js.isDigit u = false) : u ∉ d := by
  intro hmem
  rw [h.2 u hmem] at hu
  exact Bool.noConfusion hu

theorem idxOf?_append_cons {α : Type*} [DecidableEq α] {x : α} :
    ∀ {xs ys : List α}, x ∉ xs → (xs ++ x :: ys).idxOf? x = some xs.length
  | [], ys, _ => by simp [idxOf?_cons]
  | a :: xs, ys, h => by
    rw [mem_cons, not_or] at h
    rw [cons_append, idxOf?_cons, idxOf?_append_cons h.2]
    simp [Ne.symm h.1]

theorem drop_append_cons {α : Type*} {x : α} {xs ys : List α} :
    (xs ++ x :: ys).drop (xs.length + 1) = ys := by
  simp [drop_append]

/-- Two dots, between digits. -/
theorem splitOn_core {major minor patch : Text} (hmajor : IsDigits major) (hminor : IsDigits minor)
    (hpatch : IsDigits patch) :
    (major ++ unit '.' :: (minor ++ unit '.' :: patch)).splitOn (unit '.') =
      [major, minor, patch] := by
  rw [splitOn_append_cons_self_of_not_mem (hmajor.not_mem (by decide)),
    splitOn_append_cons_self_of_not_mem (hminor.not_mem (by decide)),
    splitOn_eq_singleton (hpatch.not_mem (by decide))]

/-- What is left without the build metadata. -/
theorem head?_splitOn_build {body build : Text} (hbody : unit '+' ∉ body)
    (hbuild : build = [] ∨ ∃ metadata, build = unit '+' :: metadata) :
    ((body ++ build).splitOn (unit '+')).head? = some body := by
  rcases hbuild with rfl | ⟨metadata, rfl⟩
  · rw [append_nil, splitOn_eq_singleton hbody]
    rfl
  · rw [splitOn_append_cons_self_of_not_mem hbody]
    rfl

theorem not_mem_intercalate {x sep : UInt16} (hsep : x ≠ sep) {parts : List Text}
    (h : ∀ part ∈ parts, x ∉ part) : x ∉ [sep].intercalate parts := by
  induction parts with
  | nil => simp
  | cons part parts ih =>
    rw [forall_mem_cons] at h
    match parts with
    | [] => simpa using h.1
    | next :: parts =>
      rw [intercalate_cons_cons]
      simp [h.1, hsep, ih h.2]

/-- The identifiers are what stands between the dots, and there are none where nothing stands. -/
theorem split_prerelease {ids : List Text} (hne : ids ≠ [[]]) (hids : ∀ id ∈ ids, unit '.' ∉ id) :
    (if [unit '.'].intercalate ids = [] then [] else
      ([unit '.'].intercalate ids).splitOn (unit '.')) = ids := by
  by_cases hnil : ids = []
  · simp [hnil]
  · have hsplit := splitOn_intercalate (unit '.') hids hnil
    rw [if_neg, hsplit]
    intro hempty
    rw [hempty] at hsplit
    exact hne hsplit.symm

/-- `parseSemver` reads what was written. -/
theorem parseSemver_of_writes (h : v.Writes t) :
    parseSemver t = ⟨number (some v.major), number (some v.minor), number (some v.patch),
      v.prerelease⟩ := by
  obtain ⟨pre, build, rfl, ⟨hmajor, hminor, hpatch⟩, hpre, ⟨hne, hids⟩, hbuild⟩ := h
  have hnoMinus : unit '-' ∉ v.major ++ unit '.' :: (v.minor ++ unit '.' :: v.patch) := by
    simp only [mem_append, mem_cons, not_or]
    exact ⟨hmajor.not_mem (by decide), by decide, hminor.not_mem (by decide), by decide,
      hpatch.not_mem (by decide)⟩
  have hnoPlus : unit '+' ∉ v.major ++ unit '.' :: (v.minor ++ unit '.' :: (v.patch ++ pre)) := by
    simp only [mem_append, mem_cons, not_or]
    refine ⟨hmajor.not_mem (by decide), by decide, hminor.not_mem (by decide), by decide,
      hpatch.not_mem (by decide), ?_⟩
    rcases hpre with ⟨rfl, -⟩ | rfl
    · exact not_mem_nil
    · rw [mem_cons, not_or]
      exact ⟨by decide, not_mem_intercalate (by decide) fun id hid ↦ (hids id hid).2⟩
  have hhead := head?_splitOn_build hnoPlus hbuild
  have hassoc : v.major ++ unit '.' :: (v.minor ++ unit '.' :: (v.patch ++ (pre ++ build))) =
      v.major ++ unit '.' :: (v.minor ++ unit '.' :: (v.patch ++ pre)) ++ build := by simp
  have hcore := splitOn_core hmajor hminor hpatch
  rw [parseSemver, hassoc, hhead]
  rcases hpre with ⟨rfl, hnone⟩ | rfl
  · rw [append_nil, Option.getD_some, idxOf?_eq_none_iff.mpr hnoMinus]
    simp only [hcore, hnone]
    rfl
  · have hcut : v.major ++ unit '.' :: (v.minor ++ unit '.' :: (v.patch ++
        unit '-' :: [unit '.'].intercalate v.prerelease)) =
        (v.major ++ unit '.' :: (v.minor ++ unit '.' :: v.patch)) ++
          unit '-' :: [unit '.'].intercalate v.prerelease := by simp
    have hsplit := split_prerelease hne fun id hid ↦ (hids id hid).1
    rw [Option.getD_some, hcut, idxOf?_append_cons hnoMinus]
    simp only [take_left, drop_append_cons, hcore, hsplit]
    rfl

theorem mem_intercalate {x sep : UInt16} {part : Text} {parts : List Text} (hpart : part ∈ parts)
    (hx : x ∈ part) : x ∈ [sep].intercalate parts := by
  induction parts with
  | nil => exact nomatch hpart
  | cons first parts ih =>
    match parts with
    | [] =>
      rw [mem_singleton] at hpart
      rwa [← hpart, intercalate_singleton]
    | next :: parts =>
      rw [intercalate_cons_cons]
      rcases mem_cons.mp hpart with rfl | hpart
      · exact mem_append_left _ (mem_append_left _ hx)
      · exact mem_append_right _ (ih hpart)

/-- What stands behind the core, as prerelease and build metadata. -/
theorem exists_rest {rest : Text} (h : rest = [] ∨ ∃ sign tail, rest = sign :: tail ∧
    (sign = unit '-' ∨ sign = unit '+')) :
    ∃ ids : List Text, ∃ pre build, rest = pre ++ build ∧
      (pre = [] ∧ ids = [] ∨ pre = unit '-' :: [unit '.'].intercalate ids) ∧
      (ids ≠ [[]] ∧ ∀ id ∈ ids, unit '.' ∉ id ∧ unit '+' ∉ id) ∧
      (build = [] ∨ ∃ metadata, build = unit '+' :: metadata) := by
  have hnil : ([] : List Text) ≠ [[]] ∧ ∀ id ∈ ([] : List Text), unit '.' ∉ id ∧ unit '+' ∉ id :=
    ⟨by decide, nofun⟩
  rcases h with rfl | ⟨_, tail, rfl, rfl | rfl⟩
  · exact ⟨[], [], [], rfl, .inl ⟨rfl, rfl⟩, hnil, .inl rfl⟩
  · have hbuild : tail.dropWhile (· != unit '+') = [] ∨
        ∃ metadata, tail.dropWhile (· != unit '+') = unit '+' :: metadata := by
      rcases hd : tail.dropWhile (· != unit '+') with _ | ⟨u, metadata⟩
      · exact .inl rfl
      · have hu := head?_dropWhile_not (· != unit '+') tail
        rw [hd] at hu
        exact .inr ⟨metadata, by simpa using hu⟩
    have hplus : unit '+' ∉ tail.takeWhile (· != unit '+') :=
      fun hmem ↦ by simpa using all_eq_true.mp (all_takeWhile ..) _ hmem
    have htail := (takeWhile_append_dropWhile (p := (· != unit '+')) (l := tail)).symm
    by_cases hempty : tail.takeWhile (· != unit '+') = []
    · rw [hempty] at htail
      exact ⟨[], [unit '-'], _, congrArg (unit '-' :: ·) htail, .inr rfl, hnil, hbuild⟩
    · have hjoin : [unit '.'].intercalate ((tail.takeWhile (· != unit '+')).splitOn (unit '.')) =
          tail.takeWhile (· != unit '+') := intercalate_splitOn _
      refine ⟨(tail.takeWhile (· != unit '+')).splitOn (unit '.'),
        unit '-' :: tail.takeWhile (· != unit '+'), _,
        congrArg (unit '-' :: ·) htail, .inr ?_, ⟨?_, ?_⟩, hbuild⟩
      · rw [hjoin]
      · intro hids
        rw [hids] at hjoin
        exact hempty hjoin.symm
      · intro id hid
        refine ⟨SplitOn.not_mem_of_mem_list_splitOn id hid, fun hmem ↦ hplus ?_⟩
        rw [← hjoin]
        exact mem_intercalate hid hmem
  · exact ⟨[], [], unit '+' :: tail, rfl, .inl ⟨rfl, rfl⟩, hnil, .inr ⟨tail, rfl⟩⟩

/-- Digits end where something else stands. -/
theorem digits_append_inj {d' rest rest' : Text} (hd : IsDigits d) (hd' : IsDigits d')
    (hrest : ∀ u ∈ rest.head?, Js.isDigit u = false) (hrest' : ∀ u ∈ rest'.head?, Js.isDigit u = false)
    (h : d ++ rest = d' ++ rest') : d = d' ∧ rest = rest' := by
  have htake : ∀ {d rest : Text}, IsDigits d → (∀ u ∈ rest.head?, Js.isDigit u = false) →
      (d ++ rest).takeWhile Js.isDigit = d := by
    intro d rest hd hrest
    have hnone : rest.takeWhile Js.isDigit = [] := by
      rcases rest with _ | ⟨u, rest⟩
      · rfl
      · exact takeWhile_cons_of_neg (by simpa using hrest u rfl)
    rw [takeWhile_append_of_pos hd.2, hnone, append_nil]
  have heq : d = d' := by rw [← htake hd hrest, h, htake hd' hrest']
  subst heq
  exact ⟨rfl, append_cancel_left h⟩

/-- A version is written as no other is. -/
theorem Version.Writes.unique {w : Version} (hv : v.Writes t) (hw : w.Writes t) : v = w := by
  have hprerelease : v.prerelease = w.prerelease := congrArg ParsedSemver.prerelease
    ((parseSemver_of_writes hv).symm.trans (parseSemver_of_writes hw))
  have hend : ∀ {ids : List Text} {pre build : Text},
      (pre = [] ∧ ids = [] ∨ pre = unit '-' :: [unit '.'].intercalate ids) →
      (build = [] ∨ ∃ metadata, build = unit '+' :: metadata) →
      ∀ u ∈ (pre ++ build).head?, Js.isDigit u = false := by
    rintro ids pre build (⟨rfl, -⟩ | rfl) (rfl | ⟨metadata, rfl⟩) u hu
    · exact absurd hu (Option.not_mem_none u)
    · rw [← Option.some.inj hu]
      decide
    · rw [← Option.some.inj hu]
      decide
    · rw [← Option.some.inj hu]
      decide
  have hdot : ∀ {rest : Text}, ∀ u ∈ (unit '.' :: rest).head?, Js.isDigit u = false := by
    intro rest u hu
    rw [← Option.some.inj hu]
    decide
  obtain ⟨pre, build, heq, ⟨hmajor, hminor, hpatch⟩, hpre, -, hbuild⟩ := hv
  obtain ⟨pre', build', heq', ⟨hmajor', hminor', hpatch'⟩, hpre', -, hbuild'⟩ := hw
  rw [heq] at heq'
  obtain ⟨hmajorEq, hrest⟩ := digits_append_inj hmajor hmajor' hdot hdot heq'
  obtain ⟨hminorEq, hrest⟩ := digits_append_inj hminor hminor' hdot hdot (List.cons.inj hrest).2
  obtain ⟨hpatchEq, -⟩ := digits_append_inj hpatch hpatch' (hend hpre hbuild) (hend hpre' hbuild')
    (List.cons.inj hrest).2
  cases v
  cases w
  simp_all

/-- Every version but `latest` is one that semver orders. -/
theorem exists_writes (h : IsVersion t) : t = latest ∨ ∃ v : Version, v.Writes t := by
  rcases h with rfl | ⟨major, minor, patch, rest, rfl, hmajor, hminor, hpatch, hrest⟩
  · exact .inl rfl
  · have hsign : rest = [] ∨ ∃ sign tail, rest = sign :: tail ∧
        (sign = unit '-' ∨ sign = unit '+') := by
      rcases hrest with hnil | ⟨sign, tail, heq, hsign, -⟩
      · exact .inl hnil
      · exact .inr ⟨sign, tail, heq, hsign⟩
    obtain ⟨ids, pre, build, rfl, hpre, hids, hbuild⟩ := exists_rest hsign
    exact .inr ⟨⟨major, minor, patch, ids⟩, pre, build, rfl, ⟨hmajor, hminor, hpatch⟩, hpre, hids,
      hbuild⟩

end Parse

/-! ## One comparison -/

section Compare

variable {m n : ℕ} {a b : Text}

theorem number_of_isDigits (h : IsDigits a) : number (some a) = ofNat (digitsValue a) := by
  rw [number, if_pos h]

theorem map_toNat_lt_iff : ∀ {a b : Text}, a.map UInt16.toNat < b.map UInt16.toNat ↔ a < b
  | _, [] => by simp
  | [], _ :: _ => by simp
  | x :: a, y :: b => by
    rw [map_cons, map_cons, cons_lt_cons_iff, cons_lt_cons_iff,
      map_toNat_lt_iff, UInt16.toNat_inj, UInt16.lt_iff_toNat_lt]

/-- What has to be the same in two doubles before something else is compared. -/
theorem compares_then {α : Type*} [LinearOrder α] {x y : α} {rest : Option Ordering}
    (hinj : ofNat m = ofNat n → m = n)
    (h : m = n → ∃ o, rest = some o ∧ o.Compares x y) :
    ∃ o, (if ¬ same (ofNat m) (ofNat n) then subSign (ofNat m) (ofNat n) else rest) = some o ∧
      o.Compares (toLex (m, x)) (toLex (n, y)) := by
  by_cases heq : ofNat m = ofNat n
  · obtain ⟨o, hrest, ho⟩ := h (hinj heq)
    rw [if_neg (not_not_intro (same_ofNat.mpr heq)), hinj heq]
    refine ⟨o, hrest, ?_⟩
    cases o with
    | lt => exact Prod.Lex.toLex_lt_toLex.mpr (.inr ⟨rfl, ho⟩)
    | eq => exact congrArg _ (congrArg _ ho)
    | gt => exact Prod.Lex.toLex_lt_toLex.mpr (.inr ⟨rfl, ho⟩)
  · rw [if_pos (mt same_ofNat.mp heq), subSign_of_ne heq]
    refine ⟨_, rfl, ?_⟩
    rcases Nat.lt_trichotomy m n with hlt | rfl | hgt
    · rw [Nat.compare_eq_lt.mpr hlt]
      exact Prod.Lex.toLex_lt_toLex.mpr (.inl hlt)
    · exact absurd rfl heq
    · rw [Nat.compare_eq_gt.mpr hgt]
      exact Prod.Lex.toLex_lt_toLex.mpr (.inl hgt)

/-- Two identifiers, if their doubles are finite and tell them apart. -/
theorem comparePrereleaseIdentifier_compares
    (hinj : IsDigits a → IsDigits b → ofNat (digitsValue a) = ofNat (digitsValue b) →
      digitsValue a = digitsValue b)
    (hfinite : IsDigits a → ofNat (digitsValue a) ≠ .infinity) :
    ∃ o, comparePrereleaseIdentifier a b = some o ∧ o.Compares (identifier a) (identifier b) := by
  rw [comparePrereleaseIdentifier]
  by_cases ha : IsDigits a
  · by_cases hb : IsDigits b
    · rw [if_pos ⟨ha, hb⟩, number_of_isDigits ha, number_of_isDigits hb, identifier, identifier,
        if_pos ha, if_pos hb]
      by_cases heq : ofNat (digitsValue a) = ofNat (digitsValue b)
      · rw [← heq, hinj ha hb heq, ← heq, subSign_self.mpr (hfinite ha)]
        exact ⟨.eq, rfl, rfl⟩
      · rw [subSign_of_ne heq]
        refine ⟨_, rfl, ?_⟩
        rcases Nat.lt_trichotomy (digitsValue a) (digitsValue b) with hlt | hsame | hgt
        · rw [Nat.compare_eq_lt.mpr hlt]
          exact Sum.Lex.inl_lt_inl_iff.mpr hlt
        · exact absurd (congrArg ofNat hsame) heq
        · rw [Nat.compare_eq_gt.mpr hgt]
          exact Sum.Lex.inl_lt_inl_iff.mpr hgt
    · rw [if_neg (fun h ↦ hb h.2), if_pos ha, identifier, identifier, if_pos ha, if_neg hb]
      exact ⟨.lt, rfl, Sum.Lex.inl_lt_inr _ _⟩
  · rw [if_neg (fun h ↦ ha h.1), if_neg ha]
    by_cases hb : IsDigits b
    · rw [if_pos hb, identifier, identifier, if_neg ha, if_pos hb]
      exact ⟨.gt, rfl, Sum.Lex.inl_lt_inr _ _⟩
    · rw [if_neg hb, identifier, identifier, if_neg ha, if_neg hb]
      split_ifs with hlt hgt
      · exact ⟨.lt, rfl, Sum.Lex.inr_lt_inr_iff.mpr (map_toNat_lt_iff.mpr hlt)⟩
      · exact ⟨.gt, rfl, Sum.Lex.inr_lt_inr_iff.mpr (map_toNat_lt_iff.mpr hgt)⟩
      · refine ⟨.eq, rfl, congrArg (fun l ↦ toLex (Sum.inr l)) (le_antisymm ?_ ?_)⟩
        · exact not_lt.mp (mt map_toNat_lt_iff.mp hgt)
        · exact not_lt.mp (mt map_toNat_lt_iff.mp hlt)

/-- The loop, if the doubles of the identifiers are finite and tell them apart. -/
theorem comparePrerelease_compares {P : Set ℕ} (hinj : Set.InjOn ofNat P)
    (hfinite : ∀ n ∈ P, ofNat n ≠ .infinity) :
    ∀ {as bs : List Text}, (∀ id ∈ as, IsDigits id → digitsValue id ∈ P) →
      (∀ id ∈ bs, IsDigits id → digitsValue id ∈ P) →
      ∃ o, comparePrerelease as bs = some o ∧ o.Compares (as.map identifier) (bs.map identifier)
  | [], [], _, _ => ⟨.eq, rfl, rfl⟩
  | [], b :: bs, _, _ => ⟨.lt, rfl, nil_lt_cons _ _⟩
  | a :: as, [], _, _ => ⟨.gt, rfl, nil_lt_cons _ _⟩
  | a :: as, b :: bs, has, hbs => by
    rw [forall_mem_cons] at has hbs
    obtain ⟨c, hc, hcompares⟩ := comparePrereleaseIdentifier_compares
      (fun ha hb ↦ hinj (has.1 ha) (hbs.1 hb)) (fun ha ↦ hfinite _ (has.1 ha))
    rw [map_cons, map_cons, comparePrerelease, hc]
    cases c with
    | lt => exact ⟨.lt, rfl, cons_lt_cons_iff.mpr (.inl hcompares)⟩
    | gt => exact ⟨.gt, rfl, cons_lt_cons_iff.mpr (.inl hcompares)⟩
    | eq =>
      obtain ⟨o, ho, hrest⟩ := comparePrerelease_compares hinj hfinite has.2 hbs.2
      refine ⟨o, ho, ?_⟩
      rw [show identifier a = identifier b from hcompares]
      cases o with
      | lt => exact cons_lt_cons_iff.mpr (.inr ⟨rfl, hrest⟩)
      | eq => exact congrArg (identifier b :: ·) hrest
      | gt => exact cons_lt_cons_iff.mpr (.inr ⟨rfl, hrest⟩)

end Compare

/-! ## The versions with some numbers -/

/-- The numbers of a version: those of the core, and those of the prerelease. -/
def Version.Uses (C P : Set ℕ) (v : Version) : Prop :=
  (digitsValue v.major ∈ C ∧ digitsValue v.minor ∈ C ∧ digitsValue v.patch ∈ C) ∧
    ∀ id ∈ v.prerelease, IsDigits id → digitsValue id ∈ P

/-- All versions of such numbers, and possibly `latest`. -/
def versions (C P : Set ℕ) (withLatest : Prop) : Set Text :=
  {t | IsVersion t ∧ ((∃ v : Version, v.Writes t ∧ v.Uses C P) ∨ withLatest ∧ t = latest)}

section Family

variable {C P : Set ℕ} {t a b : Text} {v w : Version}

theorem Version.Writes.isDigits (h : v.Writes t) :
    IsDigits v.major ∧ IsDigits v.minor ∧ IsDigits v.patch := by
  obtain ⟨_, _, -, hdigits, -⟩ := h
  exact hdigits

/-- Where the doubles of the core are the same, the prerelease decides. -/
theorem compareSemver_of_core_eq (hv : v.Writes a) (hw : w.Writes b)
    (hmajor : ofNat (digitsValue v.major) = ofNat (digitsValue w.major))
    (hminor : ofNat (digitsValue v.minor) = ofNat (digitsValue w.minor))
    (hpatch : ofNat (digitsValue v.patch) = ofNat (digitsValue w.patch)) :
    compareSemver a b =
      if v.prerelease = [] ∧ w.prerelease = [] then some .eq
      else if v.prerelease = [] then some .gt
      else if w.prerelease = [] then some .lt
      else comparePrerelease v.prerelease w.prerelease := by
  have hdv := hv.isDigits
  have hdw := hw.isDigits
  rw [compareSemver, parseSemver_of_writes hv, parseSemver_of_writes hw]
  simp only [number_of_isDigits hdv.1, number_of_isDigits hdv.2.1, number_of_isDigits hdv.2.2,
    number_of_isDigits hdw.1, number_of_isDigits hdw.2.1, number_of_isDigits hdw.2.2]
  rw [if_neg (not_not_intro (same_ofNat.mpr hmajor)),
    if_neg (not_not_intro (same_ofNat.mpr hminor)), if_neg (not_not_intro (same_ofNat.mpr hpatch))]

/-- `compareSemver` is semver's precedence if the doubles tell the numbers apart, and those of
prereleases are finite. -/
theorem compareSemver_compares (hcore : Set.InjOn ofNat C) (hinj : Set.InjOn ofNat P)
    (hfinite : ∀ n ∈ P, ofNat n ≠ .infinity) (hv : v.Writes a) (hw : w.Writes b) (hvUses : v.Uses C P)
    (hwUses : w.Uses C P) : ∃ o, compareSemver a b = some o ∧ o.Compares v.precedence w.precedence := by
  have hdv := hv.isDigits
  have hdw := hw.isDigits
  rw [compareSemver, parseSemver_of_writes hv, parseSemver_of_writes hw]
  simp only [number_of_isDigits hdv.1, number_of_isDigits hdv.2.1, number_of_isDigits hdv.2.2,
    number_of_isDigits hdw.1, number_of_isDigits hdw.2.1, number_of_isDigits hdw.2.2]
  refine compares_then (hcore hvUses.1.1 hwUses.1.1) fun _ ↦ ?_
  refine compares_then (hcore hvUses.1.2.1 hwUses.1.2.1) fun _ ↦ ?_
  refine compares_then (hcore hvUses.1.2.2 hwUses.1.2.2) fun _ ↦ ?_
  rw [prereleasePrecedence, prereleasePrecedence]
  by_cases hvPre : v.prerelease = []
  · by_cases hwPre : w.prerelease = []
    · rw [if_pos ⟨hvPre, hwPre⟩, if_pos hvPre, if_pos hwPre]
      exact ⟨.eq, rfl, rfl⟩
    · rw [if_neg (fun h ↦ hwPre h.2), if_pos hvPre, if_pos hvPre, if_neg hwPre]
      exact ⟨.gt, rfl, WithTop.coe_lt_top _⟩
  · rw [if_neg (fun h ↦ hvPre h.1), if_neg hvPre, if_neg hvPre]
    by_cases hwPre : w.prerelease = []
    · rw [if_pos hwPre, if_pos hwPre]
      exact ⟨.lt, rfl, WithTop.coe_lt_top _⟩
    · rw [if_neg hwPre, if_neg hwPre]
      obtain ⟨o, ho, hcompares⟩ := comparePrerelease_compares hinj hfinite hvUses.2 hwUses.2
      refine ⟨o, ho, ?_⟩
      cases o with
      | lt => exact WithTop.coe_lt_coe.mpr hcompares
      | eq => exact congrArg _ hcompares
      | gt => exact WithTop.coe_lt_coe.mpr hcompares

end Family

/-! ## The order -/

section Order

variable {V : Set Text} {K : Type*} [LinearOrder K] {key : Text → K}

/-- The first of a list that is sorted by keys has the greatest key. -/
theorem greatest_of_key
    (h : ∀ a ∈ V, ∀ b ∈ V, ∃ o, compareSemver a b = some o ∧ o.Compares (key a) (key b))
    {l : List Text} (hl : ∀ a ∈ l, a ∈ V) (hne : l ≠ []) :
    ∃ g ∈ l, greatest l = some g ∧ ∀ a ∈ l, key a ≤ key g := by
  have hkeys : ∀ a ∈ l, ∀ b ∈ l, (compareSemver b a != some .gt) = decide (key b ≤ key a) := by
    intro a ha b hb
    obtain ⟨o, ho, hcompares⟩ := h b (hl b hb) a (hl a ha)
    rw [ho, Bool.eq_iff_iff, bne_iff_ne, decide_eq_true_iff, ← hcompares.ne_gt]
    exact not_congr Option.some_inj
  have hsort := map_mergeSort (f := id) (s := fun a b ↦ decide (key b ≤ key a)) hkeys
  rw [map_id, map_id] at hsort
  have hpairwise := @List.pairwise_mergeSort _ (fun a b ↦ decide (key b ≤ key a))
    (fun a b c hab hbc ↦ decide_eq_true ((of_decide_eq_true hbc).trans (of_decide_eq_true hab)))
    (fun a b ↦ by simpa using le_total (key b) (key a)) l
  have hperm := mergeSort_perm l fun a b ↦ decide (key b ≤ key a)
  rcases hsorted : l.mergeSort fun a b ↦ decide (key b ≤ key a) with _ | ⟨g, rest⟩
  · rw [hsorted] at hperm
    exact absurd hperm.symm.eq_nil hne
  · rw [hsorted] at hperm hpairwise
    refine ⟨g, hperm.mem_iff.mp (.head _), ?_, fun a ha ↦ ?_⟩
    · rw [greatest, hsort, hsorted]
      rfl
    · rcases mem_cons.mp (hperm.mem_iff.mpr ha) with rfl | hrest
      · exact le_rfl
      · exact of_decide_eq_true (rel_of_pairwise_cons hpairwise hrest)

/-- A comparison by keys is a preorder. -/
theorem ordersVersions_of_key
    (hprecedence : ∀ a ∈ V, ∀ b ∈ V, ∀ v w : Version, v.Writes a → w.Writes b →
      ∃ o, compareSemver a b = some o ∧ o.Compares v.precedence w.precedence)
    (h : ∀ a ∈ V, ∀ b ∈ V, ∃ o, compareSemver a b = some o ∧ o.Compares (key a) (key b)) :
    OrdersVersions V := by
  have hle : ∀ a ∈ V, ∀ b ∈ V, compareSemver a b ≠ some .gt ↔ key a ≤ key b := by
    intro a ha b hb
    obtain ⟨o, ho, hcompares⟩ := h a ha b hb
    rw [ho, ← hcompares.ne_gt]
    exact not_congr Option.some_inj
  refine ⟨hprecedence, ?_, ?_, ?_, ?_, ?_⟩
  · intro a ha b hb
    obtain ⟨o, ho, -⟩ := h a ha b hb
    rw [ho]
    exact Option.some_ne_none o
  · intro a ha b hb
    obtain ⟨o, ho, hcompares⟩ := h a ha b hb
    obtain ⟨o', ho', hcompares'⟩ := h b hb a ha
    rw [ho, ho', Option.map_some, hcompares'.inj hcompares.swap]
  · intro a ha b hb c hc hab hbc
    rw [hle a ha b hb] at hab
    rw [hle b hb c hc] at hbc
    exact (hle a ha c hc).mpr (hab.trans hbc)
  · intro l hl hne
    obtain ⟨g, hg, hgreatest, hmax⟩ := greatest_of_key h hl hne
    exact ⟨g, hg, hgreatest, fun a ha ↦ (hle a (hl a ha) g (hl g hg)).mpr (hmax a ha)⟩
  · intro l l' hl hperm g g' hg hg'
    have hne : l ≠ [] := by
      rintro rfl
      simp [greatest] at hg
    have hl' : ∀ a ∈ l', a ∈ V := fun a ha ↦ hl a (hperm.mem_iff.mpr ha)
    obtain ⟨x, hx, hgx, hmax⟩ := greatest_of_key h hl hne
    obtain ⟨y, hy, hgy, hmax'⟩ := greatest_of_key h hl' (fun hnil ↦ hne (hnil ▸ hperm).eq_nil)
    rw [hg, Option.some_inj] at hgx
    rw [hg', Option.some_inj] at hgy
    subst hgx hgy
    have hkey : key g = key g' :=
      le_antisymm (hmax' g (hperm.mem_iff.mp hx)) (hmax g' (hperm.mem_iff.mpr hy))
    obtain ⟨o, ho, hcompares⟩ := h g (hl g hx) g' (hl' g' hy)
    rw [ho, hcompares.eq_eq.mpr hkey]

end Order

/-! ## The result -/

section Result

variable {C P : Set ℕ} {withLatest : Prop}

/-- Every number can be written. -/
theorem exists_isDigits (n : ℕ) : ∃ d, IsDigits d ∧ digitsValue d = n := by
  induction n using Nat.strong_induction_on with
  | _ n ih =>
    have hdigit : ∀ k, k < 10 → Js.isDigit (UInt16.ofNat (48 + k)) = true ∧
        (UInt16.ofNat (48 + k)).toNat - 48 = k := by decide
    have hlast := hdigit (n % 10) (Nat.mod_lt _ (by decide))
    by_cases hn : n < 10
    · rw [Nat.mod_eq_of_lt hn] at hlast
      refine ⟨[UInt16.ofNat (48 + n)], ⟨by simp, by simpa using hlast.1⟩, ?_⟩
      rw [digitsValue, foldl_cons, foldl_nil, hlast.2]
      omega
    · obtain ⟨d, hd, hvalue⟩ := ih (n / 10) (by omega)
      refine ⟨d ++ [UInt16.ofNat (48 + n % 10)], ⟨by simp, ?_⟩, ?_⟩
      · intro u hu
        rcases mem_append.mp hu with hu | hu
        · exact hd.2 u hu
        · rw [mem_singleton.mp hu]
          exact hlast.1
      · rw [digitsValue, foldl_append, ← digitsValue, hvalue, foldl_cons, foldl_nil, hlast.2]
        omega

/-- A release. -/
def release (major minor patch : Text) : Text :=
  major ++ unit '.' :: (minor ++ unit '.' :: (patch ++ []))

/-- A prerelease of one identifier. -/
def prerelease (core id : Text) : Text :=
  core ++ unit '.' :: (core ++ unit '.' :: (core ++ unit '-' :: id))

variable (P withLatest) in
theorem release_mem {major minor patch : Text} (hmajor : IsDigits major) (hminor : IsDigits minor)
    (hpatch : IsDigits patch) (huses : digitsValue major ∈ C ∧ digitsValue minor ∈ C ∧
      digitsValue patch ∈ C) :
    (⟨major, minor, patch, []⟩ : Version).Writes (release major minor patch) ∧
      release major minor patch ∈ versions C P withLatest := by
  have hwrites : (⟨major, minor, patch, []⟩ : Version).Writes (release major minor patch) :=
    ⟨[], [], rfl, ⟨hmajor, hminor, hpatch⟩, .inl ⟨rfl, rfl⟩,
      ⟨by simp, nofun⟩, .inl rfl⟩
  exact ⟨hwrites, .inr ⟨major, minor, patch, [], rfl, hmajor, hminor, hpatch, .inl rfl⟩,
    .inl ⟨_, hwrites, huses, nofun⟩⟩

variable (withLatest) in
theorem prerelease_mem {core id : Text} (hcore : IsDigits core) (hid : IsDigits id)
    (huses : digitsValue core ∈ C) (hidUses : digitsValue id ∈ P) :
    (⟨core, core, core, [id]⟩ : Version).Writes (prerelease core id) ∧
      prerelease core id ∈ versions C P withLatest := by
  have hdigitLine : ∀ u, Js.isDigit u = true → isLineTerminator u = false := by
    intro u hu
    rw [Js.isDigit, Bool.and_eq_true, decide_eq_true_iff, decide_eq_true_iff] at hu
    have hlow : (48 : UInt16) ≤ u := hu.1
    have hhigh : u ≤ (57 : UInt16) := hu.2
    simp only [isLineTerminator, Bool.or_eq_false_iff, beq_eq_false_iff_ne]
    refine ⟨⟨⟨?_, ?_⟩, ?_⟩, ?_⟩ <;> rintro rfl <;> revert hlow hhigh <;> decide
  have hwrites : (⟨core, core, core, [id]⟩ : Version).Writes (prerelease core id) := by
    refine ⟨unit '-' :: id, [], ?_, ⟨hcore, hcore, hcore⟩, .inr ?_, ⟨?_, ?_⟩, .inl rfl⟩
    · rw [prerelease, append_nil]
    · rw [intercalate_singleton]
    · exact fun h ↦ hid.1 (List.cons.inj h).1
    · intro part hpart
      rw [mem_singleton.mp hpart]
      exact ⟨hid.not_mem (by decide), hid.not_mem (by decide)⟩
  refine ⟨hwrites, .inr ⟨core, core, core, unit '-' :: id, rfl, hcore, hcore, hcore,
    .inr ⟨unit '-', id, rfl, .inl rfl, hid.1, fun u hu ↦ hdigitLine u (hid.2 u hu)⟩⟩,
    .inl ⟨_, hwrites, ⟨huses, huses, huses⟩, fun part hpart _ ↦ ?_⟩⟩
  rw [mem_singleton.mp hpart]
  exact hidUses

/-- Only doubles that tell the numbers of cores apart give the precedence. -/
theorem OrdersVersions.core_injOn (h : OrdersVersions (versions C P withLatest)) :
    Set.InjOn ofNat C := by
  intro m hm n hn heq
  obtain ⟨dm, hdm, rfl⟩ := exists_isDigits m
  obtain ⟨dn, hdn, rfl⟩ := exists_isDigits n
  obtain ⟨hv, hvMem⟩ := release_mem P withLatest hdm hdm hdm ⟨hm, hm, hm⟩
  obtain ⟨hw, hwMem⟩ := release_mem P withLatest hdn hdm hdm ⟨hn, hm, hm⟩
  obtain ⟨o, ho, hcompares⟩ := h.precedence _ hvMem _ hwMem _ _ hv hw
  rw [compareSemver_of_core_eq hv hw heq rfl rfl, if_pos ⟨rfl, rfl⟩, Option.some_inj] at ho
  subst ho
  exact (Prod.ext_iff.mp (congrArg ofLex (show _ = _ from hcompares))).1

/-- Of two prereleases the doubles are subtracted. -/
theorem compareSemver_prerelease {core id id' : Text} (hv : (⟨core, core, core, [id]⟩ : Version).Writes
      (prerelease core id)) (hw : (⟨core, core, core, [id']⟩ : Version).Writes (prerelease core id'))
    (hid : IsDigits id) (hid' : IsDigits id') :
    compareSemver (prerelease core id) (prerelease core id') =
      subSign (ofNat (digitsValue id)) (ofNat (digitsValue id')) := by
  rw [compareSemver_of_core_eq hv hw rfl rfl rfl, if_neg (fun h ↦ cons_ne_nil _ _ h.1),
    if_neg (cons_ne_nil _ _), if_neg (cons_ne_nil _ _), comparePrerelease,
    comparePrereleaseIdentifier, if_pos ⟨hid, hid'⟩, number_of_isDigits hid, number_of_isDigits hid']
  split <;> simp_all [comparePrerelease]

/-- Only finite doubles that tell the numbers of prereleases apart give the precedence. -/
theorem OrdersVersions.prerelease_injOn (h : OrdersVersions (versions C P withLatest))
    (hC : C.Nonempty) : Set.InjOn ofNat P ∧ ∀ n ∈ P, ofNat n ≠ .infinity := by
  obtain ⟨c, hc⟩ := hC
  obtain ⟨core, hcore, rfl⟩ := exists_isDigits c
  have hfinite : ∀ n ∈ P, ofNat n ≠ .infinity := by
    intro n hn hinfinite
    obtain ⟨id, hid, rfl⟩ := exists_isDigits n
    obtain ⟨hv, hmem⟩ := prerelease_mem withLatest hcore hid hc hn
    have hnan := h.not_nan _ hmem _ hmem
    rw [compareSemver_prerelease hv hv hid hid, hinfinite] at hnan
    exact hnan rfl
  refine ⟨?_, hfinite⟩
  intro m hm n hn heq
  obtain ⟨id, hid, rfl⟩ := exists_isDigits m
  obtain ⟨id', hid', rfl⟩ := exists_isDigits n
  obtain ⟨hv, hvMem⟩ := prerelease_mem withLatest hcore hid hc hm
  obtain ⟨hw, hwMem⟩ := prerelease_mem withLatest hcore hid' hc hn
  obtain ⟨o, ho, hcompares⟩ := h.precedence _ hvMem _ hwMem _ _ hv hw
  rw [compareSemver_prerelease hv hw hid hid', ← heq, subSign_self.mpr (hfinite _ hm),
    Option.some_inj] at ho
  subst ho
  have hprecedence := show Version.precedence _ = Version.precedence _ from hcompares
  simpa [Version.precedence, prereleasePrecedence, identifier, hid, hid'] using hprecedence

/-- **Where versions are ordered as semver has it.**  On all versions of some numbers the comparison
is semver's precedence if and only if `latest` is not among them, the doubles tell the numbers of the
core apart, and those of prereleases too, which have to be finite. -/
theorem ordersVersions_iff : OrdersVersions (versions C P withLatest) ↔
    ¬ withLatest ∧ Set.InjOn ofNat C ∧
      (C.Nonempty → Set.InjOn ofNat P ∧ ∀ n ∈ P, ofNat n ≠ .infinity) := by
  constructor
  · intro h
    refine ⟨fun hlatest ↦ ?_, h.core_injOn, h.prerelease_injOn⟩
    have hmem : latest ∈ versions C P withLatest := ⟨.inl rfl, .inr ⟨hlatest, rfl⟩⟩
    have hnan : compareSemver latest latest = none := by decide +kernel
    exact h.not_nan _ hmem _ hmem hnan
  · rintro ⟨hlatest, hcore, hprerelease⟩
    have hcompares : ∀ a ∈ versions C P withLatest, ∀ b ∈ versions C P withLatest,
        ∀ v w : Version, v.Writes a → w.Writes b →
          ∃ o, compareSemver a b = some o ∧ o.Compares v.precedence w.precedence := by
      rintro a ⟨-, ⟨v, hv, hvUses⟩ | ⟨h, -⟩⟩ b ⟨-, ⟨w, hw, hwUses⟩ | ⟨h, -⟩⟩ v' w' hv' hw'
      · obtain ⟨hinj, hfinite⟩ := hprerelease ⟨_, hvUses.1.1⟩
        rw [hv'.unique hv, hw'.unique hw]
        exact compareSemver_compares hcore hinj hfinite hv hw hvUses hwUses
      · exact absurd h hlatest
      · exact absurd h hlatest
      · exact absurd h hlatest
    have hwrites : ∀ a ∈ versions C P withLatest, ∃ v : Version, v.Writes a := by
      rintro a ⟨-, ⟨v, hv, -⟩ | ⟨h, -⟩⟩
      · exact ⟨v, hv⟩
      · exact absurd h hlatest
    choose! version hversion using hwrites
    exact @ordersVersions_of_key _ _ _ (fun a ↦ (version a).precedence) hcompares
      fun a ha b hb ↦ hcompares a ha b hb _ _ (hversion a ha) (hversion b hb)

/-- Two versions whose doubles are the same, and one that is `NaN` against itself. -/
theorem compareSemver_rounds :
    (IsVersion (text "9007199254740993.0.0") ∧ IsVersion (text "9007199254740992.0.0") ∧
      compareSemver (text "9007199254740993.0.0") (text "9007199254740992.0.0") = some .eq) ∧
    (IsVersion (text "1.0.0-" ++ List.replicate 309 (unit '9')) ∧
      compareSemver (text "1.0.0-" ++ List.replicate 309 (unit '9'))
        (text "1.0.0-" ++ List.replicate 309 (unit '9')) = none) ∧
    ¬ OrdersVersions {t | IsVersion t} := by
  have hzero : IsDigits (text "0") := by decide
  have hlow : IsVersion (text "9007199254740993.0.0") :=
    .inr ⟨text "9007199254740993", text "0", text "0", [], by decide, by decide, hzero, hzero, .inl rfl⟩
  have hhigh : IsVersion (text "9007199254740992.0.0") :=
    .inr ⟨text "9007199254740992", text "0", text "0", [], by decide, by decide, hzero, hzero, .inl rfl⟩
  have hlong : IsVersion (text "1.0.0-" ++ List.replicate 309 (unit '9')) :=
    .inr ⟨text "1", text "0", text "0", unit '-' :: List.replicate 309 (unit '9'), rfl, by decide, hzero,
      hzero, .inr ⟨_, _, rfl, .inl rfl, cons_ne_nil _ _, fun u hu ↦ by
        rw [eq_of_mem_replicate hu]
        decide⟩⟩
  have hnan : compareSemver (text "1.0.0-" ++ List.replicate 309 (unit '9'))
      (text "1.0.0-" ++ List.replicate 309 (unit '9')) = none := by decide +kernel
  exact ⟨⟨hlow, hhigh, by decide +kernel⟩, ⟨hlong, hnan⟩, fun h ↦ h.not_nan _ hlong _ hlong hnan⟩

end Result

end Enkaku.Semver
