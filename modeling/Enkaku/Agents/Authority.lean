import Mathlib.Data.List.Dedup
import Mathlib.Data.List.Infix
import Mathlib.Logic.Relation
import Enkaku.Db.Schema

/-!
# What a run of the agent tree may do

`effectiveAuthorityForRun` intersects an agent's own record with the authority of the parent run,
live, up to the root; `createAgentCapabilityContext` adds the run's own device override and answers
what the run may call, reach, read and write.

Tools, permissions and workspace prefixes are sets, and intersecting them level by level is
intersecting what they mean.  Device grants are not: the empty list means every device, and an
intersection that comes out empty means every device too.  `reachesDevice_intersect` says when the
list still means what it should, and `confined_iff` carries it through a whole tree: a run is allowed
nothing its record or its parent is not, if and only if the records of every lineage have a device in
common and no override is wider than the one above it.
-/

set_option autoImplicit false

namespace Enkaku

/-! ## The ACL matrix -/

inductive Role where
  | admin | operator
  deriving DecidableEq, Repr

/-- `OPERATOR`. -/
def operatorPermissions : List String :=
  ["device.view", "device.control", "device.settings", "device.enroll", "device.network", "fs.read",
    "fs.write", "agent.view", "agent.manage", "agent.run", "notify.send", "script.view",
    "script.publish", "job.view", "job.run", "tool.view", "vm.view", "settings.view", "plugin.data",
    "plugin.runtime", "ai.generate", "media.transcribe"]

/-- `ALL_PERMISSIONS`. -/
def allPermissions : List String :=
  ["device.view", "device.control", "device.settings", "device.enroll", "device.quarantine",
    "device.owner.set", "device.shell", "device.adb", "device.files", "device.network", "fs.read",
    "fs.write", "agent.view", "agent.manage", "agent.run", "notify.send", "script.view",
    "script.publish", "script.delete", "job.view", "job.run", "job.cancel.any", "job.history.purge",
    "tool.view", "tool.manage", "vm.view", "vm.manage", "settings.view", "settings.manage",
    "user.manage", "audit.view", "kv.manage", "plugin.data", "plugin.runtime", "ai.generate",
    "media.transcribe"]

def isPermission (value : String) : Bool := allPermissions.contains value

/-- `can`: the static matrix. -/
def can : Role → String → Bool
  | .admin, _ => true
  | .operator, permission => operatorPermissions.contains permission

/-! ## Workspace prefixes -/

/-- A workspace prefix names a directory: it ends in `/`. -/
structure ScopePrefix where
  path : List Char
  ends : path.getLast? = some '/'
  deriving DecidableEq

/-- `pathWithinPrefix`; `/` matches everything. -/
def pathWithinPrefix (path : List Char) (p : ScopePrefix) : Bool :=
  p.path = ['/'] || p.path.isPrefixOf path

def pathWithinAnyPrefix (path : List Char) (prefixes : List ScopePrefix) : Bool :=
  prefixes.any (pathWithinPrefix path)

structure WorkspaceScope where
  read : List ScopePrefix
  write : List ScopePrefix
  deriving DecidableEq

/-! ## Authority -/

/-- An agent's record, as far as its authority reads it. -/
structure AgentRecord where
  tools : List String
  /-- Empty means all devices. -/
  deviceGrants : List String
  permissions : List String
  workspaceScope : WorkspaceScope
  ownerId : Option String
  deriving DecidableEq

structure RunAuthority where
  tools : List String
  /-- Empty means all devices. -/
  deviceGrants : List String
  permissions : List String
  workspaceScope : WorkspaceScope
  deriving DecidableEq

/-- `effectivePermissions`: the permissions of the record its owner holds now. -/
def effectivePermissions (agent : AgentRecord) : Option Role → List String
  | none => []
  | some ownerRole => agent.permissions.filter fun p ↦ isPermission p && can ownerRole p

def ownAuthority (agent : AgentRecord) (ownerRole : Option Role) : RunAuthority where
  tools := agent.tools
  deviceGrants := agent.deviceGrants
  permissions := effectivePermissions agent ownerRole
  workspaceScope := agent.workspaceScope

def intersectCapabilities (child parent : List String) : List String :=
  child.filter fun id ↦ parent.contains id

def intersectDeviceGrants (child parent : List String) : List String :=
  if child = [] then parent
  else if parent = [] then child
  else child.filter fun id ↦ parent.contains id

def intersectPermissions (child parent : List String) : List String :=
  child.filter fun p ↦ parent.contains p

/-- `intersectPrefixList`: of each pair the narrower, where one contains the other. -/
def intersectPrefixList (child parent : List ScopePrefix) : List ScopePrefix :=
  (child.flatMap fun c ↦ parent.filterMap fun p ↦
    if pathWithinPrefix c.path p then some c
    else if pathWithinPrefix p.path c then some p
    else none).eraseDups

def intersectWorkspaceScope (child parent : WorkspaceScope) : WorkspaceScope where
  read := intersectPrefixList child.read parent.read
  write := intersectPrefixList child.write parent.write

def intersectAuthority (child parent : RunAuthority) : RunAuthority where
  tools := intersectCapabilities child.tools parent.tools
  deviceGrants := intersectDeviceGrants child.deviceGrants parent.deviceGrants
  permissions := intersectPermissions child.permissions parent.permissions
  workspaceScope := intersectWorkspaceScope child.workspaceScope parent.workspaceScope

/-! ## The tree -/

/-- A row of `agent_runs`, as far as authority reads it. -/
structure RunRef where
  threadId : String
  parentRunId : Option String
  depth : Nat
  deviceGrantsOverride : Option (List String)
  deriving DecidableEq, Repr

/-- The tables as the live authority looks things up in them.  A spawned run is one deeper than the
run that spawned it, so there is no cycle of parents. -/
structure RunTree where
  getRun : String → Option RunRef
  /-- The agent of a thread. -/
  getThread : String → Option String
  getAgent : String → Option AgentRecord
  roleOf : Option String → Option Role
  parent_depth : ∀ {id p : String} {run parentRun : RunRef}, getRun id = some run →
    run.parentRunId = some p → getRun p = some parentRun → parentRun.depth < run.depth

namespace RunTree

/-- How deep a run is, counting the absent ones as above all others. -/
def height (t : RunTree) (runId : String) : Nat :=
  match t.getRun runId with
  | none => 0
  | some run => run.depth + 1

theorem height_parent_lt (t : RunTree) {runId p : String} {run : RunRef}
    (hrun : t.getRun runId = some run) (hparent : run.parentRunId = some p) :
    t.height p < t.height runId := by
  rw [height, height, hrun]
  cases hp : t.getRun p with
  | none => exact Nat.succ_pos _
  | some parentRun => exact Nat.succ_lt_succ (t.parent_depth hrun hparent hp)

/-- A run's authority before any intersection with a parent. -/
def ownAuthorityOf (t : RunTree) (run : RunRef) : Except StoreError RunAuthority :=
  match t.getThread run.threadId with
  | none => .error (.enkaku "thread_not_found" ("no such thread: " ++ run.threadId))
  | some agentId =>
    match t.getAgent agentId with
    | none => .error (.enkaku "agent_not_found" ("no such agent: " ++ agentId))
    | some agent => .ok (ownAuthority agent (t.roleOf agent.ownerId))

/-- `effectiveAuthorityForRun`. -/
def effectiveAuthorityForRun (t : RunTree) (runId : String) : Except StoreError RunAuthority :=
  match _hrun : t.getRun runId with
  | none => .error (.enkaku "run_not_found" ("no such run: " ++ runId))
  | some run =>
    match t.ownAuthorityOf run with
    | .error e => .error e
    | .ok own =>
      match _hparent : run.parentRunId with
      | none => .ok own
      | some parentRunId =>
        match t.effectiveAuthorityForRun parentRunId with
        | .error e => .error e
        | .ok parentAuthority => .ok (intersectAuthority own parentAuthority)
termination_by t.height runId
decreasing_by exact t.height_parent_lt _hrun _hparent

end RunTree

/-- What a capability call can ask of the context. -/
inductive Access where
  | tool (id : String)
  | permission (p : String)
  | device (id : String)
  | read (path : List Char)
  | write (path : List Char)
  deriving DecidableEq

/-- The device a call is about. -/
def Access.device? : Access → Option String
  | .device id => some id
  | .tool _ | .permission _ | .read _ | .write _ => none

/-- `agentCanReachDevice`: no grants are all devices. -/
def reachesDevice (deviceGrants : List String) (deviceId : String) : Bool :=
  deviceGrants.isEmpty || deviceGrants.contains deviceId

/-- What an authority allows. -/
def RunAuthority.allows (a : RunAuthority) : Access → Bool
  | .tool id => a.tools.contains id
  | .permission p => a.permissions.contains p
  | .device id => reachesDevice a.deviceGrants id
  | .read path => pathWithinAnyPrefix path a.workspaceScope.read
  | .write path => pathWithinAnyPrefix path a.workspaceScope.write

namespace RunTree

/-- The run's own override lets the device through; none, and an empty one, lets through all. -/
def passes (t : RunTree) (runId deviceId : String) : Bool :=
  reachesDevice (((t.getRun runId).bind (·.deviceGrantsOverride)).getD []) deviceId

/-- What the capability context of a run allows; a look-up that throws allows nothing. -/
def allows (t : RunTree) (runId : String) (q : Access) : Bool :=
  q.device?.all (t.passes runId) &&
    match t.effectiveAuthorityForRun runId with
    | .error _ => false
    | .ok authority => authority.allows q

/-- Spawning does not widen authority: what a run is allowed, its own record allows, and its parent
is allowed too. -/
def Confined (t : RunTree) : Prop := ∀ runId run q, t.getRun runId = some run →
  t.allows runId q = true → (∃ own, t.ownAuthorityOf run = .ok own ∧ own.allows q = true) ∧
    ∀ parentRunId, run.parentRunId = some parentRunId → t.allows parentRunId q = true

/-- One run is the parent of the other. -/
def ParentOf (t : RunTree) (parentRunId runId : String) : Prop :=
  ∃ run, t.getRun runId = some run ∧ run.parentRunId = some parentRunId

end RunTree

/-! ## Grants, and what they mean -/

section Grants

variable {child parent : List String}

theorem reachesDevice_iff {deviceGrants : List String} {deviceId : String} :
    reachesDevice deviceGrants deviceId = true ↔ deviceGrants = [] ∨ deviceId ∈ deviceGrants := by
  simp [reachesDevice, List.isEmpty_iff]

theorem exists_reachesDevice (deviceGrants : List String) :
    ∃ deviceId, reachesDevice deviceGrants deviceId = true := by
  cases deviceGrants with
  | nil => exact ⟨"", rfl⟩
  | cons deviceId _ => exact ⟨deviceId, reachesDevice_iff.mpr (.inr (.head _))⟩

/-- With a device in common, the intersection of two grants means what both mean. -/
theorem reachesDevice_intersect {common : String} (hchild : reachesDevice child common = true)
    (hparent : reachesDevice parent common = true) (deviceId : String) :
    reachesDevice (intersectDeviceGrants child parent) deviceId = true ↔
      reachesDevice child deviceId = true ∧ reachesDevice parent deviceId = true := by
  rw [intersectDeviceGrants]
  split_ifs with hc hp
  · rw [hc]
    exact (and_iff_right rfl).symm
  · rw [hp]
    exact (and_iff_left rfl).symm
  · rw [reachesDevice_iff, or_iff_right hc] at hchild
    rw [reachesDevice_iff, or_iff_right hp] at hparent
    have hne : (child.filter fun id ↦ parent.contains id) ≠ [] :=
      List.ne_nil_of_mem (List.mem_filter.mpr ⟨hchild, by simpa using hparent⟩)
    rw [reachesDevice_iff, or_iff_right hne, reachesDevice_iff, or_iff_right hc, reachesDevice_iff,
      or_iff_right hp]
    simp

/-- Without one, it comes out empty, and means every device. -/
theorem intersectDeviceGrants_eq_nil
    (hno : ∀ deviceId, ¬ (reachesDevice child deviceId = true ∧
      reachesDevice parent deviceId = true)) : intersectDeviceGrants child parent = [] := by
  rw [intersectDeviceGrants]
  split_ifs with hc hp
  · obtain ⟨deviceId, hd⟩ := exists_reachesDevice parent
    exact absurd ⟨by rw [hc]; rfl, hd⟩ (hno deviceId)
  · obtain ⟨deviceId, hd⟩ := exists_reachesDevice child
    exact absurd ⟨hd, by rw [hp]; rfl⟩ (hno deviceId)
  · rw [List.filter_eq_nil_iff]
    intro deviceId hd hcontains
    refine hno deviceId ⟨reachesDevice_iff.mpr (.inr hd), reachesDevice_iff.mpr (.inr ?_)⟩
    simpa using hcontains

end Grants

/-! ## The other scopes -/

/-- What is within a prefix that is within another is within both. -/
theorem pathWithinPrefix_trans {path : List Char} {c p : ScopePrefix}
    (hc : pathWithinPrefix path c = true) (hp : pathWithinPrefix c.path p = true) :
    pathWithinPrefix path p = true := by
  simp only [pathWithinPrefix, Bool.or_eq_true, decide_eq_true_eq, List.isPrefixOf_iff_prefix] at *
  rcases hp with hp | hp
  · exact .inl hp
  rcases hc with hc | hc
  · -- only `/` is a prefix of `/`
    left
    rw [hc] at hp
    have hends := p.ends
    rcases List.prefix_cons_iff.mp hp with hnil | ⟨rest, hpath, hrest⟩
    · rw [hnil] at hends
      cases hends
    · rw [hpath, List.prefix_nil.mp hrest]
  · exact .inr (hp.trans hc)

theorem pathWithinAnyPrefix_intersect {path : List Char} {child parent : List ScopePrefix}
    (h : pathWithinAnyPrefix path (intersectPrefixList child parent) = true) :
    pathWithinAnyPrefix path child = true ∧ pathWithinAnyPrefix path parent = true := by
  obtain ⟨x, hx, hpath⟩ := List.any_eq_true.mp h
  rw [intersectPrefixList, List.mem_eraseDups, List.mem_flatMap] at hx
  obtain ⟨c, hc, hx⟩ := hx
  obtain ⟨p, hp, hx⟩ := List.mem_filterMap.mp hx
  split_ifs at hx with hcp hpc
  · obtain rfl := Option.some.inj hx
    exact ⟨List.any_eq_true.mpr ⟨c, hc, hpath⟩,
      List.any_eq_true.mpr ⟨p, hp, pathWithinPrefix_trans hpath hcp⟩⟩
  · obtain rfl := Option.some.inj hx
    exact ⟨List.any_eq_true.mpr ⟨c, hc, pathWithinPrefix_trans hpath hpc⟩,
      List.any_eq_true.mpr ⟨p, hp, hpath⟩⟩

/-- Intersecting grants nothing either side does not, devices apart. -/
theorem allows_of_intersect {child parent : RunAuthority} {q : Access}
    (hq : ∀ deviceId, q ≠ .device deviceId) (h : (intersectAuthority child parent).allows q = true) :
    child.allows q = true ∧ parent.allows q = true := by
  cases q with
  | tool id => simpa [RunAuthority.allows, intersectAuthority, intersectCapabilities] using h
  | permission p => simpa [RunAuthority.allows, intersectAuthority, intersectPermissions] using h
  | device deviceId => exact absurd rfl (hq deviceId)
  | read path => exact pathWithinAnyPrefix_intersect h
  | write path => exact pathWithinAnyPrefix_intersect h

/-! ## Lineages -/

namespace RunTree

variable {t : RunTree}

/-- The records on the way from a run up to the root, and the authority they make together. -/
inductive Lineage (t : RunTree) : String → List RunAuthority → RunAuthority → Prop
  | root {runId : String} {run : RunRef} {own : RunAuthority} (hrun : t.getRun runId = some run)
      (hown : t.ownAuthorityOf run = .ok own) (hroot : run.parentRunId = none) :
      Lineage t runId [own] own
  | child {runId parentRunId : String} {run : RunRef} {own authority : RunAuthority}
      {records : List RunAuthority} (hrun : t.getRun runId = some run)
      (hown : t.ownAuthorityOf run = .ok own) (hparent : run.parentRunId = some parentRunId)
      (h : Lineage t parentRunId records authority) :
      Lineage t runId (own :: records) (intersectAuthority own authority)

variable {runId : String}

/-- One level of the walk. -/
theorem effectiveAuthorityForRun_eq {run : RunRef} (hrun : t.getRun runId = some run) :
    t.effectiveAuthorityForRun runId =
      match t.ownAuthorityOf run with
      | .error e => .error e
      | .ok own =>
        match run.parentRunId with
        | none => .ok own
        | some parentRunId =>
          match t.effectiveAuthorityForRun parentRunId with
          | .error e => .error e
          | .ok parentAuthority => .ok (intersectAuthority own parentAuthority) := by
  rw [effectiveAuthorityForRun]
  split
  · rename_i hnone
    rw [hrun] at hnone
    cases hnone
  · rename_i run' hrun'
    cases hrun.symm.trans hrun'
    cases t.ownAuthorityOf run with
    | error e => rfl
    | ok own =>
      dsimp only
      split
      · rename_i hroot
        rw [hroot]
      · rename_i parentRunId hparent
        rw [hparent]

variable {authority : RunAuthority}

/-- A run has an authority when its whole lineage is there. -/
theorem lineage_of_effective (h : t.effectiveAuthorityForRun runId = .ok authority) :
    ∃ records, t.Lineage runId records authority := by
  induction hn : t.height runId using Nat.strong_induction_on generalizing runId authority with
  | _ n ih =>
    cases hrun : t.getRun runId with
    | none =>
      rw [effectiveAuthorityForRun] at h
      split at h
      · cases h
      · simp_all
    | some run =>
      rw [effectiveAuthorityForRun_eq hrun] at h
      cases hown : t.ownAuthorityOf run with
      | error e =>
        rw [hown] at h
        cases h
      | ok own =>
        rw [hown] at h
        cases hparent : run.parentRunId with
        | none =>
          rw [hparent] at h
          obtain rfl := Except.ok.inj h
          exact ⟨[own], .root hrun hown hparent⟩
        | some parentRunId =>
          rw [hparent] at h
          cases hauth : t.effectiveAuthorityForRun parentRunId with
          | error e =>
            simp only [hauth] at h
            cases h
          | ok parentAuthority =>
            simp only [hauth, Except.ok.injEq] at h
            obtain ⟨records, hrecords⟩ :=
              ih (t.height parentRunId) (hn ▸ t.height_parent_lt hrun hparent) hauth rfl
            exact ⟨own :: records, h ▸ .child hrun hown hparent hrecords⟩

variable {records : List RunAuthority}

theorem Lineage.effective (h : t.Lineage runId records authority) :
    t.effectiveAuthorityForRun runId = .ok authority := by
  induction h with
  | root hrun hown hroot => rw [effectiveAuthorityForRun_eq hrun, hown, hroot]
  | child hrun hown hparent _ ih =>
    rw [effectiveAuthorityForRun_eq hrun, hown, hparent]
    dsimp only
    rw [ih]

/-- Every record of a lineage grants the device. -/
def GrantedBy (records : List RunAuthority) (deviceId : String) : Prop :=
  ∀ own ∈ records, reachesDevice own.deviceGrants deviceId = true

/-- The records of every lineage have a device in common, and no override lets through, of those,
what the one above it does not. -/
structure Overlapping (t : RunTree) : Prop where
  common : ∀ runId records authority, t.Lineage runId records authority →
    ∃ deviceId, GrantedBy records deviceId
  override : ∀ runId records authority run parentRunId, t.Lineage runId records authority →
    t.getRun runId = some run → run.parentRunId = some parentRunId →
    ∀ deviceId, GrantedBy records deviceId → t.passes runId deviceId = true →
      t.passes parentRunId deviceId = true

theorem grantedBy_cons {own : RunAuthority} {deviceId : String} :
    GrantedBy (own :: records) deviceId ↔
      reachesDevice own.deviceGrants deviceId = true ∧ GrantedBy records deviceId :=
  List.forall_mem_cons

variable {q : Access}

theorem allows_iff (h : t.Lineage runId records authority) : t.allows runId q = true ↔
      (∀ deviceId, q.device? = some deviceId → t.passes runId deviceId = true) ∧
        authority.allows q = true := by
  rw [RunTree.allows, h.effective, Bool.and_eq_true]
  cases q.device? <;> simp

/-- A run that is allowed anything has its lineage. -/
theorem exists_lineage_of_allows (h : t.allows runId q = true) :
    ∃ records authority, t.Lineage runId records authority := by
  rw [RunTree.allows, Bool.and_eq_true] at h
  cases hauth : t.effectiveAuthorityForRun runId with
  | error e =>
    rw [hauth] at h
    exact nomatch h.2
  | ok authority =>
    obtain ⟨records, hrecords⟩ := lineage_of_effective hauth
    exact ⟨records, authority, hrecords⟩

/-- Where the lineages have devices in common, the grants mean what all the records grant. -/
theorem Lineage.reachesDevice_iff (hcommon : ∀ runId records authority,
      t.Lineage runId records authority → ∃ deviceId, GrantedBy records deviceId)
    (h : t.Lineage runId records authority) (deviceId : String) :
    reachesDevice authority.deviceGrants deviceId = true ↔ GrantedBy records deviceId := by
  induction h generalizing deviceId with
  | root => simp [GrantedBy]
  | @child runId _ _ own authority records hrun hown hparent h ih =>
    obtain ⟨common, hboth⟩ := hcommon runId _ _ (.child hrun hown hparent h)
    obtain ⟨hown', hrecords⟩ := grantedBy_cons.mp hboth
    rw [grantedBy_cons, ← ih]
    exact reachesDevice_intersect hown' ((ih common).mpr hrecords) deviceId

/-- A tree that is confined has a device in common on every lineage: without one the grants come out
empty, and the run may do what neither its record nor its parent may. -/
theorem Confined.common (hc : t.Confined) (h : t.Lineage runId records authority) :
    (∃ deviceId, GrantedBy records deviceId) ∧
      ∀ deviceId, reachesDevice authority.deviceGrants deviceId = true ↔
        GrantedBy records deviceId := by
  induction h with
  | @root _ _ own _ _ _ =>
    obtain ⟨deviceId, hd⟩ := exists_reachesDevice own.deviceGrants
    exact ⟨⟨deviceId, by simpa [GrantedBy] using hd⟩, by simp [GrantedBy]⟩
  | @child runId parentRunId run own authority records hrun hown hparent h ih =>
    have hlineage := Lineage.child hrun hown hparent h
    by_cases hno : ∃ deviceId, reachesDevice own.deviceGrants deviceId = true ∧
        reachesDevice authority.deviceGrants deviceId = true
    · obtain ⟨common, hown', hauth⟩ := hno
      refine ⟨⟨common, grantedBy_cons.mpr ⟨hown', (ih.2 common).mp hauth⟩⟩, fun deviceId ↦ ?_⟩
      rw [grantedBy_cons, ← ih.2]
      exact reachesDevice_intersect hown' hauth deviceId
    · have hnil := intersectDeviceGrants_eq_nil (fun deviceId hboth ↦ hno ⟨deviceId, hboth⟩)
      obtain ⟨deviceId, hpasses⟩ :=
        exists_reachesDevice (((t.getRun runId).bind (·.deviceGrantsOverride)).getD [])
      have hallowed : t.allows runId (.device deviceId) = true := by
        refine (allows_iff hlineage).mpr ⟨fun _ hd ↦ Option.some.inj hd ▸ hpasses, ?_⟩
        rw [RunAuthority.allows, intersectAuthority, hnil]
        rfl
      obtain ⟨⟨own', hown', hgranted⟩, hparent'⟩ := hc runId run _ hrun hallowed
      cases hown.symm.trans hown'
      exact absurd ⟨deviceId, hgranted, ((allows_iff h).mp (hparent' _ hparent)).2⟩ hno

/-- **Spawning does not widen authority, exactly when** the records of every lineage grant a device in
common and no override is wider than its parent's, on the devices the records grant. -/
theorem confined_iff (t : RunTree) : t.Confined ↔ t.Overlapping := by
  constructor
  · intro hc
    refine ⟨fun _ _ _ h ↦ (hc.common h).1, ?_⟩
    intro runId records authority run parentRunId h hrun hparent deviceId hgranted hpasses
    have hallowed : t.allows runId (.device deviceId) = true :=
      (allows_iff h).mpr ⟨fun _ hd ↦ Option.some.inj hd ▸ hpasses,
        ((hc.common h).2 deviceId).mpr hgranted⟩
    have hup := (hc runId run _ hrun hallowed).2 parentRunId hparent
    rw [RunTree.allows, Bool.and_eq_true] at hup
    simpa [Access.device?] using hup.1
  · intro ho runId run q hrun hallowed
    obtain ⟨records, authority, h⟩ := exists_lineage_of_allows hallowed
    obtain ⟨hpasses, hauthority⟩ := (allows_iff h).mp hallowed
    have hgrants := h.reachesDevice_iff ho.common
    cases h with
    | root hrun' hown hroot =>
      cases hrun.symm.trans hrun'
      refine ⟨⟨_, hown, hauthority⟩, fun parentRunId hparent ↦ ?_⟩
      rw [hroot] at hparent
      cases hparent
    | @child _ parentRunId _ own parentAuthority records hrun' hown hparent h =>
      cases hrun.symm.trans hrun'
      have hlineage := Lineage.child hrun hown hparent h
      have hboth : own.allows q = true ∧ parentAuthority.allows q = true := by
        by_cases hdevice : ∃ deviceId, q = .device deviceId
        · obtain ⟨deviceId, rfl⟩ := hdevice
          have hrecords := grantedBy_cons.mp ((hgrants deviceId).mp hauthority)
          exact ⟨hrecords.1, (h.reachesDevice_iff ho.common deviceId).mpr hrecords.2⟩
        · exact allows_of_intersect (fun deviceId hq ↦ hdevice ⟨deviceId, hq⟩) hauthority
      refine ⟨⟨own, hown, hboth.1⟩, fun parentRunId' hparent' ↦ ?_⟩
      cases hparent.symm.trans hparent'
      refine (allows_iff h).mpr ⟨fun deviceId hd ↦ ?_, hboth.2⟩
      refine ho.override runId _ _ run parentRunId hlineage hrun hparent deviceId ?_ (hpasses _ hd)
      refine (hgrants deviceId).mp ?_
      cases q <;> cases hd
      exact hauthority

/-- What a run of a confined tree may do, every run above it may do. -/
theorem Confined.ancestor (hc : t.Confined) {a : String}
    (ha : Relation.ReflTransGen t.ParentOf a runId) (h : t.allows runId q = true) :
    t.allows a q = true := by
  induction ha with
  | refl => exact h
  | tail _ hstep ih =>
    obtain ⟨run, hrun, hparent⟩ := hstep
    exact ih ((hc _ run q hrun h).2 _ hparent)

/-! ## A lineage without a device in common -/

section Disjoint

def rootDir : ScopePrefix := ⟨['/'], rfl⟩

/-- An agent that may control the phones it is granted. -/
def phoneAgent (deviceGrants : List String) : AgentRecord :=
  ⟨["device.tap"], deviceGrants, ["device.control"], ⟨[rootDir], [rootDir]⟩, some "owner"⟩

/-- A run of an agent granted one phone, spawned by a run of an agent granted another. -/
def disjointTree : RunTree where
  getRun id :=
    if id = "parent" then some ⟨"thread-parent", none, 1, none⟩
    else if id = "child" then some ⟨"thread-child", some "parent", 2, none⟩
    else none
  getThread id :=
    if id = "thread-parent" then some "agent-parent"
    else if id = "thread-child" then some "agent-child"
    else none
  getAgent id :=
    if id = "agent-parent" then some (phoneAgent ["phone-a"])
    else if id = "agent-child" then some (phoneAgent ["phone-b"])
    else none
  roleOf _ := some .operator
  parent_depth := by
    intro id p run parentRun hrun hparent hparentRun
    split_ifs at hrun hparentRun <;> cases hrun <;> cases hparentRun <;> simp_all

/-- The child may use every phone, also those neither agent is granted. -/
theorem disjointTree_widens : disjointTree.allows "child" (.device "phone-c") = true ∧
    disjointTree.allows "parent" (.device "phone-c") = false ∧ ¬ disjointTree.Confined := by
  have hparent : disjointTree.Lineage "parent" [ownAuthority (phoneAgent ["phone-a"]) (some .operator)]
      (ownAuthority (phoneAgent ["phone-a"]) (some .operator)) :=
    .root rfl rfl rfl
  have hchild := @Lineage.child disjointTree "child" "parent" _ _ _ _ rfl rfl rfl hparent
  have hallowed : disjointTree.allows "child" (.device "phone-c") = true := by
    rw [allows, hchild.effective]
    rfl
  have hdenied : disjointTree.allows "parent" (.device "phone-c") = false := by
    rw [allows, hparent.effective]
    rfl
  refine ⟨hallowed, hdenied, fun hc ↦ ?_⟩
  rw [(hc "child" _ _ rfl hallowed).2 "parent" rfl] at hdenied
  cases hdenied

end Disjoint

end RunTree

end Enkaku
