import Enkaku.Lib.Steps
import Enkaku.Workspace.Store
import Mathlib.Algebra.Order.BigOperators.Group.List

/-!
# Quotas per scope

The scope of a file is read off the segments of its path; what is counted for a scope is every row whose
path starts with it.  The two differ for a file that is named like its scope, such as `/notes` in the
scope `/notes/`: it is in the scope, and is not counted.  In every run that accepts no such file, each
scope keeps to its quotas (`quotas_kept`).
-/

set_option autoImplicit false

namespace Enkaku.Workspace

open Js (Text text unit)

/-! ## The scope of a path -/

/-- The names of the scope of a path. -/
def scopeNames : List Text → List Text
  | first :: second :: _ => if first = text "agents" then [first, second] else [first]
  | names => names

/-- The path is named like its scope: it is the directory of the scope, without the slash at its end. -/
def NamedLikeScope (path : Text) : Prop := scopeOfPath path = path ++ text "/"

instance (path : Text) : Decidable (NamedLikeScope path) := by
  unfold NamedLikeScope
  infer_instance

theorem scopeNames_prefix (names : List Text) : scopeNames names <+: names := by
  rw [scopeNames.eq_def]
  split
  · split_ifs
    · exact ⟨_, rfl⟩
    · exact ⟨_, rfl⟩
  · exact List.prefix_rfl

theorem scopeOfPath_eq {path : Text} {names : List Text} (h : Names path names) :
    scopeOfPath path = join (scopeNames names) ++ text "/" := by
  have hone : ∀ name : Text, text "/" ++ name ++ text "/" = join [name] ++ text "/" := by
    intro name
    rw [join, List.flatMap_singleton]
    rfl
  rw [scopeOfPath, h.segments]
  cases names with
  | nil => exact absurd rfl h.ne_nil
  | cons first names =>
    cases names with
    | nil => exact hone first
    | cons second names =>
      have hne := (h.names second (.tail _ (.head _))).ne_nil
      show (if first = text "agents" ∧ second ≠ [] then text "/agents/" ++ second ++ text "/"
        else text "/" ++ first ++ text "/") = _
      rw [scopeNames]
      by_cases hagents : first = text "agents"
      · rw [if_pos ⟨hagents, hne⟩, if_pos hagents, hagents]
        have hjoin : join [text "agents", second] = text "/agents/" ++ second := by
          rw [join, List.flatMap_cons, List.flatMap_singleton]
          rfl
        rw [hjoin]
      · rw [if_neg fun h ↦ hagents h.1, if_neg hagents]
        exact hone first

/-- A path that is not named like its scope lies below it. -/
theorem scope_prefix {path : Text} {names : List Text} (h : Names path names)
    (hnot : ¬ NamedLikeScope path) : scopeOfPath path <+: path := by
  obtain ⟨rest, hrest⟩ := scopeNames_prefix names
  have hpath : path = join (scopeNames names) ++ join rest := by
    rw [← join_append, hrest, h.eq]
  rw [NamedLikeScope, scopeOfPath_eq h] at hnot
  rw [scopeOfPath_eq h]
  cases rest with
  | nil =>
    rw [show join [] = [] from rfl, List.append_nil] at hpath
    exact absurd (by rw [hpath]) hnot
  | cons name rest =>
    refine ⟨name ++ join rest, ?_⟩
    rw [hpath, List.append_assoc]
    rfl

namespace WorkspaceStore

variable {rt : Runtime} {s s' : WorkspaceStore} {r : Request} {q : WorkspaceQuotas} {scope : Text}

/-! ## What is in a scope -/

/-- The files in a scope. -/
def scopeFiles (s : WorkspaceStore) (scope : Text) : List WorkspaceFileRow :=
  s.rows.filter fun row ↦ scopeOfPath row.path = scope

/-- The weight of the rows of a scope, for a weight of each. -/
def weigh (w : WorkspaceFileRow → Nat) (scope : Text) (rows : List WorkspaceFileRow) : Nat :=
  ((rows.filter fun row ↦ scopeOfPath row.path = scope).map w).sum

/-- The weight of a row in a scope. -/
def weighRow (w : WorkspaceFileRow → Nat) (scope : Text) (row : WorkspaceFileRow) : Nat :=
  if scopeOfPath row.path = scope then w row else 0

theorem weigh_cons (w : WorkspaceFileRow → Nat) (scope : Text) (row : WorkspaceFileRow)
    (rows : List WorkspaceFileRow) :
    weigh w scope (row :: rows) = weighRow w scope row + weigh w scope rows := by
  rw [weigh, weighRow]
  by_cases hscope : scopeOfPath row.path = scope
  · rw [if_pos hscope, List.filter_cons_of_pos (by simpa using hscope), List.map_cons, List.sum_cons]
    rfl
  · rw [if_neg hscope, List.filter_cons_of_neg (by simpa using hscope), Nat.zero_add]
    rfl

theorem weigh_perm (w : WorkspaceFileRow → Nat) (scope : Text) {rows rows' : List WorkspaceFileRow}
    (h : rows.Perm rows') : weigh w scope rows = weigh w scope rows' :=
  ((h.filter _).map w).sum_eq

theorem weigh_sublist (w : WorkspaceFileRow → Nat) (scope : Text) {rows rows' : List WorkspaceFileRow}
    (h : rows.Sublist rows') : weigh w scope rows ≤ weigh w scope rows' :=
  ((h.filter _).map w).sum_le_sum fun _ _ ↦ Nat.zero_le _

theorem weigh_one (s : WorkspaceStore) (scope : Text) :
    weigh (fun _ ↦ 1) scope s.rows = (s.scopeFiles scope).length := by
  simp [weigh, scopeFiles]

/-- No file is named like its scope, and each scope keeps to its quotas. -/
structure Within (q : WorkspaceQuotas) (s : WorkspaceStore) : Prop where
  keyed : Keyed s
  below : ∀ row ∈ s.rows, ¬ NamedLikeScope row.path
  files : ∀ scope, weigh (fun _ ↦ 1) scope s.rows ≤ q.maxFilesPerScope
  bytes : ∀ scope, weigh (·.size) scope s.rows ≤ q.maxTotalBytesPerScope

theorem within_empty (q : WorkspaceQuotas) : Within q empty := by
  refine ⟨keyed_empty, ?_, ?_, ?_⟩ <;> simp [empty, weigh]

/-- What is in a scope is counted for it. -/
theorem Within.weigh_le (h : Within q s) (w : WorkspaceFileRow → Nat) (scope : Text) :
    weigh w scope s.rows ≤ ((s.scanUnder scope).map w).sum := by
  have hsub : (s.rows.filter fun row ↦ scopeOfPath row.path = scope).Sublist (s.scanUnder scope) := by
    rw [scanUnder]
    split_ifs with hroot
    · exact List.filter_sublist
    · have hfilter : (s.rows.filter fun row ↦ scopeOfPath row.path = scope) =
          (s.rows.filter fun row ↦ scope.isPrefixOf row.path).filter
            fun row ↦ scopeOfPath row.path = scope := by
        rw [List.filter_filter]
        refine List.filter_congr fun row hrow ↦ ?_
        by_cases hscope : scopeOfPath row.path = scope
        · obtain ⟨names, hnames⟩ := h.keyed.named row hrow
          have hprefix := scope_prefix hnames (h.below row hrow)
          rw [hscope] at hprefix
          simp [hscope, hprefix]
        · simp [hscope]
      rw [hfilter]
      exact List.filter_sublist
  exact (hsub.map w).sum_le_sum fun _ _ ↦ Nat.zero_le _

theorem Within.files_le (h : Within q s) (scope : Text) :
    weigh (fun _ ↦ 1) scope s.rows ≤ s.fileCount scope := by
  have hle := h.weigh_le (fun _ ↦ 1) scope
  simpa [fileCount] using hle

/-! ## What a call leaves in a scope -/

/-- The path that a call puts a file at. -/
def target? (rt : Runtime) : Call → Option Text
  | .write path _ => (normaliseWorkspacePath rt.nfc path).toOption
  | .move _ target _ _ => (normaliseWorkspacePath rt.nfc target).toOption
  | .delete .. => none

/-- The weight of a scope after a row is updated. -/
theorem Keyed.weigh_update (hk : Keyed s) (w : WorkspaceFileRow → Nat) (scope : Text)
    {row : WorkspaceFileRow} (hrow : row ∈ s.rows) (f : WorkspaceFileRow → WorkspaceFileRow) :
    weigh w scope (s.updateRow row.id f).rows + weighRow w scope row =
      weigh w scope s.rows + weighRow w scope (f row) := by
  rw [weigh_perm w scope (hk.perm_update hrow f), weigh_perm w scope (hk.perm hrow), weigh_cons, weigh_cons]
  omega

theorem Within.created (h : Within q s) {path : Text} {input : WorkspaceWriteInput} {now : Nat}
    (hkeyed : Keyed (s.insert rt q now path input)) (hbelow : ¬ NamedLikeScope path)
    (hfiles : s.fileCount (scopeOfPath path) + 1 ≤ q.maxFilesPerScope)
    (hbytes : s.totalBytes (scopeOfPath path) + input.content.length ≤ q.maxTotalBytesPerScope) :
    Within q (s.insert rt q now path input) := by
  have hweigh : ∀ w scope, weigh w scope (s.insert rt q now path input).rows =
      weighRow w scope (newRow rt q now s.nextId path input) + weigh w scope s.rows := by
    intro w scope
    rw [insert_rows, weigh_perm w scope (List.perm_append_singleton _ _), weigh_cons]
  refine ⟨hkeyed, fun row hrow ↦ ?_, fun scope ↦ ?_, fun scope ↦ ?_⟩
  · rw [insert_rows] at hrow
    rcases List.mem_append.mp hrow with hrow | hrow
    · exact h.below row hrow
    · rw [List.mem_singleton.mp hrow]
      exact hbelow
  · rw [hweigh, weighRow]
    split_ifs with hscope
    · have hcounted := h.files_le scope
      rw [show (newRow rt q now s.nextId path input).path = path from rfl] at hscope
      subst hscope
      omega
    · rw [Nat.zero_add]
      exact h.files scope
  · rw [hweigh, weighRow]
    split_ifs with hscope
    · have hcounted := h.weigh_le (·.size) scope
      rw [show (newRow rt q now s.nextId path input).path = path from rfl] at hscope
      subst hscope
      have hsize : (newRow rt q now s.nextId path input).size = input.content.length := rfl
      rw [totalBytes] at hbytes
      omega
    · rw [Nat.zero_add]
      exact h.bytes scope

theorem Within.overwritten (h : Within q s) {existing : WorkspaceFileRow} {input : WorkspaceWriteInput}
    {now : Nat} (hkeyed : Keyed (s.rewrite rt q now existing input)) (hrow : existing ∈ s.rows)
    (hbytes : (s.totalBytes (scopeOfPath existing.path) : Int) - existing.size + input.content.length ≤
      q.maxTotalBytesPerScope) : Within q (s.rewrite rt q now existing input) := by
  have hweigh : ∀ w scope, weigh w scope (s.rewrite rt q now existing input).rows +
      weighRow w scope existing =
        weigh w scope s.rows + weighRow w scope (rewritten rt q now input existing) := by
    intro w scope
    rw [rewrite_rows]
    exact h.keyed.weigh_update w scope hrow _
  refine ⟨hkeyed, fun row hmem ↦ ?_, fun scope ↦ ?_, fun scope ↦ ?_⟩
  · rw [rewrite_rows] at hmem
    rcases List.mem_cons.mp ((h.keyed.perm_update hrow _).mem_iff.mp hmem) with rfl | hmem
    · exact h.below existing hrow
    · exact h.below row ((deleteRow_sublist s _).subset hmem)
  · have hsame : weighRow (fun _ ↦ 1) scope (rewritten rt q now input existing) =
        weighRow (fun _ ↦ 1) scope existing := rfl
    have heq := hweigh (fun _ ↦ 1) scope
    have hle := h.files scope
    omega
  · have heq := hweigh (·.size) scope
    have hle := h.bytes scope
    have hsize : (rewritten rt q now input existing).size = input.content.length := rfl
    rw [weighRow, weighRow, show (rewritten rt q now input existing).path = existing.path from rfl] at heq
    by_cases hscope : scopeOfPath existing.path = scope
    · rw [if_pos hscope, if_pos hscope, hsize] at heq
      have hcounted := h.weigh_le (·.size) scope
      subst hscope
      rw [totalBytes] at hbytes
      omega
    · rw [if_neg hscope, if_neg hscope] at heq
      omega

theorem Within.moved (h : Within q s) {row : WorkspaceFileRow} {now : Nat} {target : Text}
    {actor : Option Text} (hkeyed : Keyed (s.updateRow row.id (relocated now target actor)))
    (hrow : row ∈ s.rows) (hbelow : ¬ NamedLikeScope target)
    (hquota : scopeOfPath target ≠ scopeOfPath row.path →
      s.fileCount (scopeOfPath target) + 1 ≤ q.maxFilesPerScope ∧
        s.totalBytes (scopeOfPath target) + row.size ≤ q.maxTotalBytesPerScope) :
    Within q (s.updateRow row.id (relocated now target actor)) := by
  have hweigh := fun w scope ↦ h.keyed.weigh_update w scope hrow (relocated now target actor)
  have hpath : (relocated now target actor row).path = target := rfl
  have hsize : (relocated now target actor row).size = row.size := rfl
  refine ⟨hkeyed, fun other hmem ↦ ?_, fun scope ↦ ?_, fun scope ↦ ?_⟩
  · rcases List.mem_cons.mp ((h.keyed.perm_update hrow _).mem_iff.mp hmem) with rfl | hmem
    · exact hbelow
    · exact h.below other ((deleteRow_sublist s _).subset hmem)
  · have heq := hweigh (fun _ ↦ 1) scope
    have hle := h.files scope
    have hcounted := h.files_le scope
    rw [weighRow, weighRow, hpath] at heq
    by_cases hscope : scopeOfPath target = scope
    · subst hscope
      by_cases hsame : scopeOfPath row.path = scopeOfPath target
      · rw [if_pos hsame, if_pos rfl] at heq
        omega
      · obtain ⟨hfiles, -⟩ := hquota (Ne.symm hsame)
        rw [if_neg hsame, if_pos rfl] at heq
        omega
    · rw [if_neg hscope] at heq
      omega
  · have heq := hweigh (·.size) scope
    have hle := h.bytes scope
    have hcounted := h.weigh_le (·.size) scope
    rw [weighRow, weighRow, hpath, hsize] at heq
    by_cases hscope : scopeOfPath target = scope
    · subst hscope
      by_cases hsame : scopeOfPath row.path = scopeOfPath target
      · rw [if_pos hsame, if_pos rfl] at heq
        omega
      · obtain ⟨-, hbytes⟩ := hquota (Ne.symm hsame)
        rw [if_neg hsame, if_pos rfl] at heq
        rw [totalBytes] at hbytes
        omega
    · rw [if_neg hscope] at heq
      omega

theorem Within.deleted (h : Within q s) {gone : WorkspaceFileRow} {unlinks : Bool}
    (hkeyed : Keyed ((s.deleteRow gone.id).unlink gone unlinks)) :
    Within q ((s.deleteRow gone.id).unlink gone unlinks) := by
  have hothers := deleteRow_sublist s gone.id
  refine ⟨hkeyed, fun row hrow ↦ ?_, fun scope ↦ ?_, fun scope ↦ ?_⟩
  · rw [unlink_rows] at hrow
    exact h.below row (hothers.subset hrow)
  · rw [unlink_rows]
    exact Nat.le_trans (weigh_sublist _ _ hothers) (h.files scope)
  · rw [unlink_rows]
    exact Nat.le_trans (weigh_sublist _ _ hothers) (h.bytes scope)

/-- The quotas are the same at every call, and no call that is not refused puts a file at a path that is
named like its scope. -/
def Scoped (rt : Runtime) (q : WorkspaceQuotas) (s : WorkspaceStore) (r : Request) : Prop :=
  r.quotas = q ∧ ((s.exec rt r).1 = .ok () → ∀ target ∈ target? rt r.call, ¬ NamedLikeScope target)

theorem Within.changed (h : Within q s) (hchanged : Changed rt s r s') (hq : r.quotas = q)
    (hbelow : ∀ target ∈ target? rt r.call, ¬ NamedLikeScope target) : Within q s' := by
  subst hq
  have hkeyed := h.keyed.changed hchanged
  cases hchanged with
  | created hcall hpath hnew hifMatch hfiles hbytes =>
    refine h.created hkeyed (hbelow _ ?_) hfiles hbytes
    rw [hcall, target?, hpath]
    rfl
  | overwritten hcall hpath hrow hifMatch hbytes =>
    rw [← path_of_getRow hrow] at hbytes
    exact h.overwritten hkeyed (mem_of_getRow hrow) hbytes
  | deleted hcall hpath hrow hifMatch => exact h.deleted hkeyed
  | moved hcall hsource htarget hrow hifMatch hfree hquota =>
    rw [← path_of_getRow hrow] at hquota
    refine h.moved hkeyed (mem_of_getRow hrow) (hbelow _ ?_) hquota
    rw [hcall, target?, htarget]
    rfl

theorem Within.step (h : Within q s) (hstep : s.step rt r = some s') (hscoped : Scoped rt q s r) :
    Within q s' := by
  cases hstep
  rcases exec_cases rt s r with ⟨err, heq⟩ | ⟨s', heq, hchanged⟩
  · rw [heq]
    exact h
  · rw [heq]
    exact h.changed hchanged hscoped.1 (hscoped.2 (congrArg Prod.fst heq))

/-- **Quotas hold per scope.**  In every run over an empty workspace, with the same quotas at every call
and no file put at a path that is named like its scope, no scope has more files than
`maxFilesPerScope`, or more bytes in them than `maxTotalBytesPerScope`. -/
theorem quotas_kept {rs : List Request}
    (h : Steps.Guarded (Steps.By (step rt)) (Scoped rt q) empty rs s) (scope : Text) :
    (s.scopeFiles scope).length ≤ q.maxFilesPerScope ∧
      ((s.scopeFiles scope).map (·.size)).sum ≤ q.maxTotalBytesPerScope := by
  have hwithin := Steps.invariant_of_guarded h (within_empty q)
    fun _ _ _ hi hstep hscoped ↦ hi.step hstep hscoped
  rw [← weigh_one]
  exact ⟨hwithin.files scope, hwithin.bytes scope⟩

/-- A write of no bytes to a new path. -/
def emptyFile (path : String) (q : WorkspaceQuotas) : Request :=
  ⟨.write (text path) ⟨[], none, none, none⟩, q, 0, true⟩

/-- One file is allowed, and a second one is refused. -/
theorem quotas_kept_notes :
    ((((empty.exec plainRuntime (emptyFile "/notes/a" ⟨10, 1, 10, none⟩)).2.exec plainRuntime
      (emptyFile "/notes/b" ⟨10, 1, 10, none⟩)).2).scopeFiles (text "/notes/")).length ≤ 1 := by
  have hrun : Steps.Guarded (Steps.By (step plainRuntime)) (Scoped plainRuntime ⟨10, 1, 10, none⟩) empty
      [emptyFile "/notes/a" ⟨10, 1, 10, none⟩, emptyFile "/notes/b" ⟨10, 1, 10, none⟩]
      ((empty.exec plainRuntime (emptyFile "/notes/a" ⟨10, 1, 10, none⟩)).2.exec plainRuntime
        (emptyFile "/notes/b" ⟨10, 1, 10, none⟩)).2 := by
    refine Steps.cons ⟨rfl, rfl, fun _ ↦ ?_⟩ (Steps.single ⟨rfl, rfl, fun _ ↦ ?_⟩)
    · decide +kernel
    · decide +kernel
  exact (quotas_kept hrun (text "/notes/")).1

/-- A file `/notes` is in the scope `/notes/`, and is not counted when the next file comes. -/
theorem quotas_not_kept_named : ¬ ∀ (rt : Runtime) (q : WorkspaceQuotas) (rs : List Request)
    (s : WorkspaceStore) (scope : Text), Steps (Steps.By (step rt)) empty rs s →
      (∀ r ∈ rs, r.quotas = q) → (s.scopeFiles scope).length ≤ q.maxFilesPerScope := by
  intro hall
  have hrun : Steps (Steps.By (step plainRuntime)) empty
      [emptyFile "/notes" ⟨10, 1, 10, none⟩, emptyFile "/notes/a" ⟨10, 1, 10, none⟩] _ :=
    Steps.steps_by_iff.mpr rfl
  exact absurd (hall plainRuntime ⟨10, 1, 10, none⟩ _ _ (text "/notes/") hrun (by simp [emptyFile]))
    (by decide +kernel)

end WorkspaceStore

end Enkaku.Workspace
