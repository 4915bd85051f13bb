import Enkaku.Workflow.SetCodec

/-!
# The crash parser

`createCrashParser`: `logcat` lines of all processes come in, a block is opened by a line that says
`FATAL EXCEPTION:` or `ANR in`, goes on for as long as the lines have its tag, and is reported when it is
closed.  A line is read for its level, its tag and its message; of the process that printed it nothing is
looked at, so that a block is one process's only where the lines that continue it are (`crashes_blamed`).
-/

set_option autoImplicit false

namespace Enkaku.Crash

/-- A line without its end, or a part of one. -/
abbrev Line := List Char

/-! ## Regular expressions -/

/-- A literal: what it leaves. -/
def expect (literal : String) (cs : Line) : Option Line :=
  if literal.toList.isPrefixOf cs then some (cs.drop literal.length) else none

/-- `\d{n}`. -/
def digits (n : Nat) (cs : Line) : Option Line :=
  if (cs.take n).length = n ∧ (cs.take n).all Char.isDigit then some (cs.drop n) else none

/-- `\s+`. -/
def spaces (cs : Line) : Option Line := if cs.head?.any isJsSpace then some (skipWs cs) else none

/-- A character of the class and all that follow. -/
def run (p : Char → Bool) (cs : Line) : Option (Line × Line) :=
  if cs.takeWhile p = [] then none else some (cs.takeWhile p, cs.dropWhile p)

structure ParsedLine where
  level : Char
  tag : Line
  message : Line
  deriving DecidableEq, Repr

/-- `\s+([^:]+):\s?(.*)$`, behind the level.  The tag may be made of the last of several blanks; it is
trimmed. -/
def tagAndMessage (level : Char) (cs : Line) : Option ParsedLine := do
  let (tag, rest) ← run (· ≠ ':') cs
  let message ← expect ":" rest
  let message := if message.head?.any isJsSpace then message.tail else message
  if tag.head?.any isJsSpace ∧ 2 ≤ tag.length ∧
      message.all (· ∉ ['\n', '\r', '\u2028', '\u2029']) then
    some ⟨level, jsTrim tag, message⟩
  else none

/-- `THREADTIME_RE`, with the first of the two numbers behind the time: the process. -/
def threadtime (line : Line) : Option (Line × ParsedLine) := do
  let date ← digits 2 line >>= expect "-" >>= digits 2 >>= spaces
  let time ← digits 2 date >>= expect ":" >>= digits 2 >>= expect ":" >>= digits 2
  let rest ← expect "." time >>= digits 3 >>= spaces
  let (pid, rest) ← run Char.isDigit rest
  let (_, rest) ← spaces rest >>= run Char.isDigit
  match ← spaces rest with
  | level :: rest =>
    if level ∈ ['V', 'D', 'I', 'W', 'E', 'F'] then (tagAndMessage level rest).map (pid, ·) else none
  | [] => none

def parseThreadtime (line : Line) : Option ParsedLine := (threadtime line).map (·.2)

/-- `PROCESS_LINE_RE`: the process. -/
def processLine (message : Line) : Option Line := do
  let (process, rest) ← (expect "Process:" message).bind fun rest ↦
    run (fun c ↦ ¬ isJsSpace c ∧ c ≠ ',') (skipWs rest)
  let rest ← expect "," rest
  let rest ← expect "PID:" (skipWs rest)
  if (skipWs rest).head?.any Char.isDigit then some process else none

/-- `ANR_LINE_RE`: the package. -/
def anrLine (message : Line) : Option Line := do
  let (pkg, _) ← (expect "ANR in" message >>= spaces).bind (run fun c ↦ ¬ isJsSpace c ∧ c ≠ '(')
  some pkg

/-! ## Events and blocks -/

inductive CrashKind where
  | crash | anr
  deriving DecidableEq, Repr

structure CrashEvent where
  kind : CrashKind
  package : Line
  process : Line
  exception : Line
  message : Line
  trace : Line
  time : Nat
  system : Bool
  truncated : Bool
  deriving DecidableEq, Repr

def isSystemPackage (pkg : Line) : Bool :=
  pkg = "android".toList || "com.android.".toList.isPrefixOf pkg ||
    (pkg.map Char.toLower).tails.any "launcher".toList.isPrefixOf

structure CrashBlock where
  kind : CrashKind
  tag : String
  lines : List Line
  time : Nat
  pkg : Line
  process : Line
  exception : Line
  message : Line
  gotProcess : Bool
  gotException : Bool
  deriving DecidableEq, Repr

def emit (block : CrashBlock) (truncated : Bool) : CrashEvent :=
  ⟨block.kind, block.pkg, if block.process = [] then block.pkg else block.process, block.exception,
    block.message, ['\n'].intercalate block.lines, block.time, isSystemPackage block.pkg, truncated⟩

/-- The part of a process's name before the colon. -/
def packageOf (process : Line) : Line := process.takeWhile (· ≠ ':')

/-- `parsed.message.indexOf(': ')` splits the message. -/
def splitException : Line → Line × Line
  | [] => ([], [])
  | c :: cs =>
    if c = ':' ∧ cs.head? = some ' ' then ([], cs.tail)
    else (c :: (splitException cs).1, (splitException cs).2)

def enrich (block : CrashBlock) (parsed : ParsedLine) : CrashBlock :=
  if block.kind ≠ .crash then block
  else if ¬ block.gotProcess then
    match processLine parsed.message with
    | some process => { block with process := process, pkg := packageOf process, gotProcess := true }
    | none => block
  else if ¬ block.gotException then
    { block with
      exception := (splitException parsed.message).1, message := (splitException parsed.message).2
      gotException := true }
  else block

/-- A line of `AndroidRuntime` that opens a block. -/
def isFatal (parsed : ParsedLine) : Bool :=
  parsed.tag = "AndroidRuntime".toList && parsed.level = 'E' &&
    "FATAL EXCEPTION:".toList.isPrefixOf parsed.message

/-- A line of `ActivityManager` that opens a block. -/
def isAnr (parsed : ParsedLine) : Bool :=
  parsed.tag = "ActivityManager".toList && parsed.level = 'E' && "ANR in".toList.isPrefixOf parsed.message

def isStartMarker (parsed : ParsedLine) : Bool := isFatal parsed || isAnr parsed

/-! ## The parser -/

structure CrashParser where
  current : Option CrashBlock
  /-- What `onCrash` was called with. -/
  reported : List CrashEvent
  deriving DecidableEq, Repr

/-- Nothing was fed. -/
def CrashParser.empty : CrashParser := ⟨none, []⟩

/-- `closeBlock`, of this block. -/
def CrashParser.closeBlock (p : CrashParser) (block : CrashBlock) (truncated : Bool) : CrashParser :=
  ⟨none, if block.pkg = [] then p.reported else p.reported ++ [emit block truncated]⟩

def CrashParser.tryStart (p : CrashParser) (line : Line) (parsed : ParsedLine) (now : Nat) : CrashParser :=
  if isFatal parsed then
    { p with current := some ⟨.crash, "AndroidRuntime", [line], now, [], [], [], [], false, false⟩ }
  else if isAnr parsed then
    let pkg := (anrLine parsed.message).getD []
    let block : CrashBlock :=
      ⟨.anr, "ActivityManager", [line], now, pkg, pkg, "ANR".toList, parsed.message, true, true⟩
    { p with current := some block }
  else p

/-- What a line says, if it continues the block. -/
def continues (block : CrashBlock) (line : Line) : Option ParsedLine :=
  (parseThreadtime line).filter fun parsed ↦ parsed.tag = block.tag.toList ∧ ¬ isStartMarker parsed

def CrashParser.feed (maxLines : Nat) (p : CrashParser) (line : Line) (now : Nat) : CrashParser :=
  let start (p : CrashParser) : CrashParser :=
    match parseThreadtime line with
    | some parsed => p.tryStart line parsed now
    | none => p
  match p.current with
  | none => start p
  | some block =>
    match continues block line with
    | none => start (p.closeBlock block false)
    | some parsed =>
      let block := enrich { block with lines := block.lines ++ [line] } parsed
      if maxLines ≤ block.lines.length then p.closeBlock block true else { p with current := some block }

/-- What happens to a parser: a line at a time, or that the idle timer runs out, which is armed while a
block is open. -/
inductive Input where
  | line (line : Line) (now : Nat)
  | idle

def CrashParser.step (maxLines : Nat) (p : CrashParser) : Input → CrashParser
  | .line line now => p.feed maxLines line now
  | .idle =>
    match p.current with
    | some block => p.closeBlock block false
    | none => p

def Input.lines : Input → List Line
  | .line fed _ => [fed]
  | .idle => []

/-! ## Whose lines they are -/

/-- The process that printed a line. -/
def pidOf (line : Line) : Option Line := (threadtime line).map (·.1)

/-- The lines are one process's, from its `FATAL EXCEPTION` on. -/
structure OneProcess (lines : List Line) : Prop where
  fatal : ∃ first ∈ lines.head?, ∃ parsed, parseThreadtime first = some parsed ∧ isFatal parsed = true
  same : ∃ pid, ∀ line ∈ lines, pidOf line = some pid

/-- What a crash block is while every line that continues it is of the process of its first. -/
structure Own (block : CrashBlock) : Prop where
  lines : OneProcess block.lines
  named : block.pkg ≠ [] → block.pkg = packageOf block.process ∧
    ∃ line ∈ block.lines, ∃ parsed, parseThreadtime line = some parsed ∧
      processLine parsed.message = some block.process
  unnamed : block.gotProcess = false → block.pkg = []

/-- An event, and the lines it was made of. -/
structure Blamed (maxLines : Nat) (e : CrashEvent) (lines : List Line) : Prop where
  trace : e.trace = ['\n'].intercalate lines
  bound : lines.length ≤ maxLines
  own : e.kind = .crash → OneProcess lines ∧ e.package = packageOf e.process ∧
    ∃ line ∈ lines, ∃ parsed, parseThreadtime line = some parsed ∧
      processLine parsed.message = some e.process

/-- The line does not continue an open crash of another process. -/
def Input.Keeps (p : CrashParser) : Input → Prop
  | .line fed _ => ∀ block ∈ p.current, block.kind = .crash → (continues block fed).isSome = true →
      ∀ first ∈ block.lines.head?, pidOf fed = pidOf first
  | .idle => True

/-- No line of the run does. -/
def Unmixed (maxLines : Nat) : CrashParser → List Input → Prop
  | _, [] => True
  | p, input :: inputs => input.Keeps p ∧ Unmixed maxLines (p.step maxLines input) inputs

/-- What is kept along such a run, with the lines fed by then. -/
structure Sound (maxLines : Nat) (fed : List Line) (p : CrashParser) : Prop where
  reported : ∃ traces, List.Forall₂ (Blamed maxLines) p.reported traces ∧
    (traces.flatten ++ (p.current.map (·.lines)).getD []).Sublist fed
  bound : ∀ block ∈ p.current, block.lines.length < maxLines
  own : ∀ block ∈ p.current, block.kind = .crash → Own block

variable {maxLines : Nat} {fed : List Line} {p : CrashParser} {block : CrashBlock} {line : Line}

theorem Sound.grow (h : Sound maxLines fed p) (more : List Line) : Sound maxLines (fed ++ more) p := by
  obtain ⟨traces, hreported, hsub⟩ := h.reported
  exact ⟨⟨traces, hreported, hsub.trans (List.sublist_append_left _ _)⟩, h.bound, h.own⟩

/-- A block that is closed is reported with its lines, or dropped. -/
theorem sound_closeBlock {traces : List (List Line)}
    (hreported : List.Forall₂ (Blamed maxLines) p.reported traces)
    (hsub : (traces.flatten ++ block.lines).Sublist fed) (hbound : block.lines.length ≤ maxLines)
    (hown : block.kind = .crash → Own block) (truncated : Bool) :
    Sound maxLines fed (p.closeBlock block truncated) := by
  refine ⟨?_, by simp [CrashParser.closeBlock], by simp [CrashParser.closeBlock]⟩
  by_cases hpkg : block.pkg = []
  · refine ⟨traces, by rwa [CrashParser.closeBlock, if_pos hpkg], ?_⟩
    exact ((List.Sublist.refl _).append (List.nil_sublist _)).trans hsub
  · refine ⟨traces ++ [block.lines], ?_, ?_⟩
    · rw [CrashParser.closeBlock, if_neg hpkg]
      refine List.rel_append hreported (.cons ⟨rfl, hbound, fun hkind ↦ ?_⟩ .nil)
      obtain ⟨hpackage, line, hline, parsed, hparsed, hprocess⟩ := (hown hkind).named hpkg
      have hne : block.process ≠ [] := by
        intro hnil
        rw [hpackage, hnil] at hpkg
        exact hpkg rfl
      simp only [emit, if_neg hne]
      exact ⟨(hown hkind).lines, hpackage, line, hline, parsed, hparsed, hprocess⟩
    · simpa [CrashParser.closeBlock] using hsub

/-- A line outside of a block opens one, or nothing happens. -/
theorem sound_tryStart (h : Sound maxLines fed p) (hnone : p.current = none) (hmax : 2 ≤ maxLines)
    {parsed : ParsedLine} (hparsed : parseThreadtime line = some parsed) (now : Nat) :
    Sound maxLines (fed ++ [line]) (p.tryStart line parsed now) := by
  obtain ⟨traces, hreported, hsub⟩ := h.reported
  rw [hnone, Option.map_none, Option.getD_none, List.append_nil] at hsub
  rw [CrashParser.tryStart]
  split_ifs with hfatal hanr
  · refine ⟨⟨traces, hreported, hsub.append (List.Sublist.refl _)⟩, ?_, ?_⟩
    · rintro block ⟨⟩
      exact hmax
    · rintro block ⟨⟩ -
      obtain ⟨⟨pid, found⟩, hfound, -⟩ := Option.map_eq_some_iff.mp hparsed
      refine ⟨⟨⟨line, rfl, parsed, hparsed, hfatal⟩, pid, ?_⟩, fun hpkg ↦ absurd rfl hpkg, fun _ ↦ rfl⟩
      intro other hother
      rw [List.mem_singleton.mp hother, pidOf, hfound]
      rfl
  · refine ⟨⟨traces, hreported, hsub.append (List.Sublist.refl _)⟩, ?_, ?_⟩
    · rintro block ⟨⟩
      exact hmax
    · rintro block ⟨⟩ hkind
      cases hkind
  · exact h.grow [line]

theorem enrich_keeps (block : CrashBlock) (parsed : ParsedLine) :
    (enrich block parsed).lines = block.lines ∧ (enrich block parsed).kind = block.kind := by
  rw [enrich]
  split_ifs
  · exact ⟨rfl, rfl⟩
  · exact ⟨rfl, rfl⟩
  · exact ⟨rfl, rfl⟩
  · split <;> exact ⟨rfl, rfl⟩

/-- What a further line of the process tells does not come from elsewhere. -/
theorem Own.enrich (h : Own block) {parsed : ParsedLine} (hparsed : parseThreadtime line = some parsed)
    (hsame : ∀ first ∈ block.lines.head?, pidOf line = pidOf first) :
    Own (enrich { block with lines := block.lines ++ [line] } parsed) := by
  obtain ⟨first, hfirst, hfatal⟩ := h.lines.fatal
  obtain ⟨pid, hpid⟩ := h.lines.same
  have hlines : OneProcess (block.lines ++ [line]) := by
    refine ⟨⟨first, List.mem_head?_append_of_mem_head? hfirst, hfatal⟩, pid, fun other hother ↦ ?_⟩
    rcases List.mem_append.mp hother with hother | hother
    · exact hpid other hother
    · rw [List.mem_singleton.mp hother, hsame first hfirst]
      exact hpid first (List.mem_of_mem_head? hfirst)
  have hnamed : block.pkg ≠ [] → block.pkg = packageOf block.process ∧
      ∃ other ∈ block.lines ++ [line], ∃ parsed, parseThreadtime other = some parsed ∧
        processLine parsed.message = some block.process := fun hpkg ↦
    (h.named hpkg).imp_right fun hother ↦ hother.imp fun _ hmem ↦ hmem.imp_left (List.mem_append_left _)
  rw [Crash.enrich]
  split_ifs with hkind hgot hexception
  · exact ⟨hlines, hnamed, h.unnamed⟩
  · exact ⟨hlines, hnamed, h.unnamed⟩
  · exact ⟨hlines, hnamed, h.unnamed⟩
  · split
    · rename_i process hprocess
      exact ⟨hlines, fun _ ↦ ⟨rfl, line, by simp, parsed, hparsed, hprocess⟩, fun hfalse ↦ by cases hfalse⟩
    · exact ⟨hlines, hnamed, h.unnamed⟩

theorem Sound.step (h : Sound maxLines fed p) (hmax : 2 ≤ maxLines) {input : Input} (hkeeps : input.Keeps p) :
    Sound maxLines (fed ++ input.lines) (p.step maxLines input) := by
  obtain ⟨traces, hreported, hsub⟩ := h.reported
  have hclose : ∀ block, p.current = some block → Sound maxLines fed (p.closeBlock block false) := by
    intro block hblock
    rw [hblock] at hsub
    exact sound_closeBlock hreported hsub (h.bound block hblock).le (h.own block hblock) false
  have hstart : ∀ {q : CrashParser} {line : Line} {now : Nat}, Sound maxLines fed q → q.current = none →
      Sound maxLines (fed ++ [line]) (match parseThreadtime line with
        | some parsed => q.tryStart line parsed now
        | none => q) := by
    intro q line now hq hnone
    split
    · rename_i parsed hparsed
      exact sound_tryStart hq hnone hmax hparsed now
    · exact hq.grow [line]
  cases input with
  | idle =>
    rw [Input.lines, List.append_nil, CrashParser.step]
    cases hblock : p.current with
    | none => exact h
    | some block => exact hclose block hblock
  | line line now =>
    rw [Input.lines, CrashParser.step, CrashParser.feed]
    cases hblock : p.current with
    | none => exact hstart h hblock
    | some block =>
      simp only
      cases hcontinues : continues block line with
      | none => exact hstart (hclose block hblock) rfl
      | some parsed =>
        simp only
        have hparsed : parseThreadtime line = some parsed := (Option.filter_eq_some_iff.mp hcontinues).1
        rw [hblock] at hsub
        have hgrown : (traces.flatten ++ (enrich { block with lines := block.lines ++ [line] } parsed).lines).Sublist
            (fed ++ [line]) := by
          rw [(enrich_keeps _ _).1, ← List.append_assoc]
          exact hsub.append (List.Sublist.refl _)
        have hown : (enrich { block with lines := block.lines ++ [line] } parsed).kind = .crash →
            Own (enrich { block with lines := block.lines ++ [line] } parsed) := by
          rw [(enrich_keeps _ _).2]
          intro hkind
          exact (h.own block hblock hkind).enrich hparsed
            (hkeeps block hblock hkind (Option.isSome_of_eq_some hcontinues))
        have hlength : (enrich { block with lines := block.lines ++ [line] } parsed).lines.length ≤ maxLines := by
          rw [(enrich_keeps _ _).1, List.length_append]
          exact h.bound block hblock
        split_ifs with hfull
        · exact sound_closeBlock hreported hgrown hlength hown true
        · refine ⟨⟨traces, hreported, hgrown⟩, ?_, ?_⟩
          · rintro grown ⟨⟩
            exact Nat.lt_of_not_le hfull
          · rintro grown ⟨⟩
            exact hown

theorem Sound.run (h : Sound maxLines fed p) (hmax : 2 ≤ maxLines) {inputs : List Input}
    (hunmixed : Unmixed maxLines p inputs) :
    Sound maxLines (fed ++ inputs.flatMap Input.lines) (inputs.foldl (CrashParser.step maxLines) p) := by
  induction inputs generalizing p fed with
  | nil => rwa [List.flatMap_nil, List.append_nil]
  | cons input inputs ih =>
    rw [List.flatMap_cons, ← List.append_assoc, List.foldl_cons]
    exact ih (h.step hmax hunmixed.1) hunmixed.2

/-- **Each crash is one process's.**  If every line that continues an open crash is of the process that
opened it, and a block may have two lines, then the events are made of lines of their own, no line is in
two, and each crash is blamed on the process that its lines are of. -/
theorem crashes_blamed (hmax : 2 ≤ maxLines) {inputs : List Input}
    (hunmixed : Unmixed maxLines .empty inputs) :
    ∃ traces, traces.flatten.Sublist (inputs.flatMap Input.lines) ∧
      List.Forall₂ (Blamed maxLines) (inputs.foldl (CrashParser.step maxLines) .empty).reported traces := by
  have hempty : Sound maxLines [] .empty :=
    ⟨⟨[], .nil, List.Sublist.refl _⟩, by simp [CrashParser.empty], by simp [CrashParser.empty]⟩
  obtain ⟨traces, hreported, hsub⟩ := (hempty.run hmax hunmixed).reported
  exact ⟨traces, (List.sublist_append_left _ _).trans hsub, hreported⟩

/-- A crash of `com.first`, as process 100. -/
def first : Line := "01-01 00:00:00.000   100   100 E AndroidRuntime: FATAL EXCEPTION: main".toList

def ofFirst : Line := "01-01 00:00:00.002   100   100 E AndroidRuntime: Process: com.first, PID: 100".toList

theorem crashes_blamed_first : ∃ traces : List (List Line),
    traces.flatten.Sublist ([.line first 0, .line ofFirst 2, .idle].flatMap Input.lines) ∧
      List.Forall₂ (Blamed 200)
        ([.line first 0, .line ofFirst 2, .idle].foldl (CrashParser.step 200) .empty).reported traces :=
  crashes_blamed (by decide) (by
    have hfirst : CrashParser.step 200 .empty (.line first 0) = ⟨some ⟨.crash, "AndroidRuntime", [first], 0,
        [], [], [], [], false, false⟩, []⟩ := by decide +kernel
    refine ⟨fun block hblock ↦ ?_, fun block hblock ↦ ?_, trivial, trivial⟩
    · cases hblock
    · rw [hfirst, Option.mem_some_iff] at hblock
      subst hblock
      rintro - - found ⟨⟩
      decide +kernel)

/-- Another process crashes in between, and the first process's line is taken for its. -/
def second : Line := "01-01 00:00:00.001   200   200 E AndroidRuntime: FATAL EXCEPTION: main".toList

theorem crash_blamed_on_other : ∃ e,
    ([.line first 0, .line second 1, .line ofFirst 2, .idle].foldl (CrashParser.step 200) .empty).reported = [e] ∧
      e.kind = .crash ∧ e.package = "com.first".toList ∧ e.trace = ['\n'].intercalate [second, ofFirst] ∧
      pidOf second = some "200".toList ∧ pidOf ofFirst = some "100".toList :=
  ⟨⟨.crash, "com.first".toList, "com.first".toList, [], [], ['\n'].intercalate [second, ofFirst], 1, false,
    false⟩, by decide +kernel⟩

end Enkaku.Crash
