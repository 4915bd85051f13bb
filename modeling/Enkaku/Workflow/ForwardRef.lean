import Enkaku.Workflow.CheckWorkflow

/-!
# Forward references

A binding may only read a node that can have run before.  The checker decides it on the transition
graph: it reports a forward reference where no path leads from the node read to the node that reads.

A member's return to its shuffle is no edge of the graph, though control goes there.  So a node after
a shuffle that reads one of its members is reported, though the member has always run by then
(`Warmup.member_read_after`).  Where a path of edges leads back to the shuffle from every member that
returns to it, the report is true (`not_before_of_reportsForward`).
-/

set_option autoImplicit false

namespace Enkaku

section

variable {doc : WorkflowDoc} {resolved : ResolvedScripts} {compiledParams : Value}
  {site : BindingSite} {x : String}

/-- The checker reports a forward reference to `x` at the site. -/
inductive ReportsForward (doc : WorkflowDoc) (resolved : ResolvedScripts) (compiledParams : Value)
    (site : BindingSite) (x : String) : Prop
  | fromNode {path : Option String} {optional : Bool} {default : Value} {f : WorkflowFinding}
      (hexpr : site.expr = .fromNode x path optional default)
      (hf : f ∈ siteFindings doc resolved compiledParams site) (hcode : f.code = .forwardRef)
  | expr {source : String} {ast : Expr String} {f : WorkflowFinding}
      (hexpr : site.expr = .expr source) (hparse : parse id source = .ok ast)
      (href : NamesNode x ast) (hf : f ∈ siteFindings doc resolved compiledParams site)
      (hsaid : exprRefFinding doc site x = some f)

/-- What a missing path is reported with. -/
theorem ReportsForward.of_finding {path : Option String} {optional : Bool} {default : Value}
    (hexpr : site.expr = .fromNode x path optional default)
    (h : forwardRefFinding doc site x ∈ (siteFindings doc resolved compiledParams site).map some) :
    ReportsForward doc resolved compiledParams site x := by
  obtain ⟨f, hf, hsaid⟩ := List.mem_map.mp h
  refine .fromNode hexpr hf ?_
  rw [forwardRefFinding] at hsaid
  obtain ⟨id, -, hid⟩ := Option.bind_eq_some_iff.mp hsaid.symm
  split_ifs at hid
  rw [← Option.some.inj hid]

theorem code_outputFindings {from_ : String} {path : Option String} {f : WorkflowFinding}
    (h : f ∈ outputFindings doc resolved site from_ path) : f.code ≠ .forwardRef := by
  rw [outputFindings] at h
  split at h
  · dsimp only at h
    split at h
    · next schema _ =>
      by_cases hresolves : jsonSchemaPathResolves schema path = true
      · rw [if_pos hresolves] at h
        exact nomatch h
      · rw [if_neg hresolves] at h
        obtain rfl := List.mem_singleton.mp h
        exact nofun
    · obtain rfl := List.mem_singleton.mp h
      exact nofun
  · exact nomatch h

/-- A forward reference is reported where no path leads to the node of the site. -/
theorem pathExists_of_reportsForward {n : String} (hx : doc.hasNode x = true)
    (h : ReportsForward doc resolved compiledParams site x) (hn : site.fromNodeId = some n) :
    doc.pathExists x n = false := by
  rw [Bool.eq_false_iff]
  intro hpath
  cases h with
  | fromNode hexpr hf hcode =>
    have hnone : forwardRefFinding doc site x = none := by
      rw [forwardRefFinding, hn, Option.bind_some, if_pos hpath]
    rw [siteFindings, hexpr] at hf
    dsimp only [fromFindings] at hf
    rw [if_pos hx, hnone] at hf
    rcases List.mem_append.mp hf with hf | hf
    · rw [disabledFinding] at hf
      split_ifs at hf
      · obtain rfl := List.mem_singleton.mp hf
        cases hcode
      · cases hf
    · exact code_outputFindings hf hcode
  | expr hexpr hparse href hf hsaid =>
    rw [exprRefFinding, if_pos hx, hn, Option.bind_some, if_pos hpath] at hsaid
    cases hsaid

end

/-- A step from a member back to its shuffle goes where a path of edges leads as well. -/
def Covered (doc : WorkflowDoc) (a b : String) : Prop :=
  doc.shuffleOwner a = some b → Digraph.Path doc.edges a b

namespace Walk

variable {deps : OrchestratorDeps} {w : WorkflowRun} {a b : String}

/-- In a run whose returns are covered, a path of edges leads from each node to every later one. -/
theorem path_of_trail {l : List String} (hmoves : l.IsChain (Moves w.doc))
    (hcovered : l.IsChain (Covered w.doc)) (h : [a, b].Sublist l) : Digraph.Path w.doc.edges a b := by
  have hchain : l.IsChain (Digraph.Path w.doc.edges) := by
    clear h
    induction l with
    | nil => exact .nil
    | cons c l ih =>
      obtain ⟨hmove, hmoves⟩ := List.isChain_cons.mp hmoves
      obtain ⟨hcover, hcovered⟩ := List.isChain_cons.mp hcovered
      refine List.isChain_cons.mpr ⟨fun d hd ↦ ?_, ih hmoves hcovered⟩
      rcases (hmove d hd).edge_or_return with hedge | howner
      · exact .single hedge
      · exact hcover d hd howner
  have hpairs := (List.isChain_iff_pairwise.mp hchain).sublist h
  exact List.rel_of_pairwise_cons hpairs (.head _)

/-- **A forward reference reported is one**, in every run whose returns are covered: if the checker
reports that the node at the site can only run before `x`, the run has not been at `x` before that
node.  The nodes a run has been at are those it executed, among others. -/
theorem not_before_of_reportsForward {resolved : ResolvedScripts} {compiledParams : Value}
    {site : BindingSite} {x n : String} (hx : w.doc.hasNode x = true)
    (h : ReportsForward w.doc resolved compiledParams site x) (hn : site.fromNodeId = some n)
    (now : Int) (rows : List StepRow) (ts : List Tick)
    (hcovered : ((w.setup now rows).trail deps w ts).IsChain (Covered w.doc)) :
    ¬ [x, n].Sublist ((w.setup now rows).trail deps w ts) := by
  intro hbefore
  have hpath := path_of_trail (trail_moves _ ts) hcovered hbefore
  have hnot := pathExists_of_reportsForward hx h hn
  rw [WorkflowDoc.pathExists_iff.mpr hpath] at hnot
  exact nomatch hnot

end Walk

/-! ## A member read after its shuffle -/

namespace Warmup

/-- `share` follows the shuffle and reads what its member `like` has returned. -/
def share : ScriptNode := ⟨"share@1", [("post", .fromNode "like" none false .undefined)], some "end", none⟩

def doc : WorkflowDoc where
  name := "flow"
  params := []
  entry := "start"
  nodes :=
    [⟨"start", true, .start (some "warmup")⟩,
      ⟨"warmup", true,
        .step (.shuffle ⟨["like", "follow"], .const (.num 0), 0, false, some "share"⟩)⟩,
      ⟨"like", true, .step (.script ⟨"like@1", [], none, none⟩)⟩,
      ⟨"follow", true, .step (.script ⟨"follow@1", [], none, none⟩)⟩,
      ⟨"share", true, .step (.script share)⟩,
      ⟨"end", true, .finish .succeed ""⟩]
  maxSteps := 50
  onFail := none

/-- The parameter of `share`. -/
def post : BindingSite :=
  ⟨some "share", "nodes[4].params.post", .fromNode "like" none false .undefined,
    some ("share@1", "post")⟩

def run : WorkflowRun :=
  Bare.workflow doc (Bare.run "run" { trigger := .schedule, seed := some 3 })

/-- **A member read after its shuffle is reported as a forward reference.**  The schema accepts the
document, and the run goes to `like` first: it has ended when `share` reads it. -/
theorem member_read_after :
    doc.schemaIssues = [] ∧ post ∈ doc.collectBindingSites ∧
      ReportsForward doc (fun _ ↦ none) (.obj []) post "like" ∧
      ["like", "share"].Sublist ((run.setup 0 []).trail Bare.deps run
        (List.replicate 8 (Bare.tick .null))) := by
  exact ⟨rfl, by decide, .of_finding rfl (by decide), by decide +kernel⟩

end Warmup

/-! ## A node that reads a later one -/

namespace ReadsLater

def doc : WorkflowDoc where
  name := "flow"
  params := []
  entry := "start"
  nodes :=
    [⟨"start", true, .start (some "open")⟩,
      ⟨"open", true, .step (.script ⟨"open@1", [("post", .fromNode "share" none true .null)],
        some "share", none⟩)⟩,
      ⟨"share", true, .step (.script ⟨"share@1", [], none, none⟩)⟩]
  maxSteps := 50
  onFail := none

def run : WorkflowRun :=
  Bare.workflow doc (Bare.run "run" { trigger := .schedule, seed := some 3 })

/-- The parameter of `open`. -/
def post : BindingSite :=
  ⟨some "open", "nodes[1].params.post", .fromNode "share" none true .null, some ("open@1", "post")⟩

theorem reports : ReportsForward doc (fun _ ↦ none) (.obj []) post "share" := by
  have hfinding : forwardRefFinding doc post "share" ∈
      (siteFindings doc (fun _ ↦ none) (.obj []) post).map some := by decide
  obtain ⟨f, hf, hsaid⟩ := List.mem_map.mp hfinding
  refine .fromNode rfl hf ?_
  rw [forwardRefFinding] at hsaid
  obtain ⟨id, -, hid⟩ := Option.bind_eq_some_iff.mp hsaid.symm
  split_ifs at hid
  rw [← Option.some.inj hid]

/-- `open` is left before `share` is reached. -/
theorem not_before : ¬ ["share", "open"].Sublist ((run.setup 0 []).trail Bare.deps run
    (List.replicate 4 (Bare.tick .null))) := by
  refine Walk.not_before_of_reportsForward (show doc.hasNode "share" = true by decide) reports rfl
    0 [] _ ((Walk.trail_moves _ _).imp fun a b _ howner ↦ ?_)
  exact nomatch (show none = some b from howner)

end ReadsLater

end Enkaku
