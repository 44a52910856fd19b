import HiApp.Lib.Runs
import Mathlib.Data.List.DropRight

/-!
# What is logged

A message may begin with the name of the thread and with the frames of the stack that are not the
logger's own.  Every printer gets it as one text, from which the parts can be read back.
-/

namespace HiApp.Log

open Runs

/-- A frame has the name of its class; `text` is what its `toString` returns. -/
structure StackTraceElement where
  className : String
  text : List Char
  deriving DecidableEq

def HI_LOG_PACKAGE : String := "com.hzp.hi.library.log."

namespace HiStackTraceUtil

/-- The test of the loop; no package is `null`. -/
def isIgnored (ignorePackage : Option String) (element : StackTraceElement) : Bool :=
  ignorePackage.any fun package ↦ package.toList.isPrefixOf element.className.toList

/-- The turns of the loop that are left, from the last frame down. -/
def ignoreDepth (stackTrace : List StackTraceElement) (ignorePackage : Option String) : ℕ → ℕ
  | 0 => 0
  | i + 1 =>
      if stackTrace[i]?.any (isIgnored ignorePackage) then i + 1
      else ignoreDepth stackTrace ignorePackage i

def getRealStackTrack (stackTrace : List StackTraceElement) (ignorePackage : Option String) :
    List StackTraceElement :=
  stackTrace.drop (ignoreDepth stackTrace ignorePackage stackTrace.length)

def cropStackTrace (callStack : List StackTraceElement) (maxDepth : ℤ) :
    List StackTraceElement :=
  let realDepth :=
    if 0 < maxDepth then min maxDepth.toNat callStack.length else callStack.length
  callStack.take realDepth

def getCroppedRealStackTrack (stackTrace : List StackTraceElement)
    (ignorePackage : Option String) (maxDepth : ℤ) : List StackTraceElement :=
  cropStackTrace (getRealStackTrack stackTrace ignorePackage) maxDepth

/-- The frames after the last one that is ignored are left. -/
theorem drop_ignoreDepth (ignorePackage : Option String) (stackTrace : List StackTraceElement)
    {turns : ℕ} (h : turns ≤ stackTrace.length) :
    ignoreDepth stackTrace ignorePackage turns ≤ turns ∧
      (stackTrace.take turns).drop (ignoreDepth stackTrace ignorePackage turns) =
        (stackTrace.take turns).rtakeWhile fun element ↦ !isIgnored ignorePackage element := by
  induction turns with
  | zero => exact ⟨Nat.le_refl 0, rfl⟩
  | succ i ih =>
      have hi : i < stackTrace.length := h
      have hget : stackTrace[i]? = some stackTrace[i] := List.getElem?_eq_getElem hi
      have htake : stackTrace.take (i + 1) = stackTrace.take i ++ [stackTrace[i]] := by
        rw [List.take_add_one, hget]
        rfl
      have hlength : (stackTrace.take i).length = i := by
        rw [List.length_take, Nat.min_eq_left (Nat.le_of_lt hi)]
      obtain ⟨hle, hdrop⟩ := ih (Nat.le_of_lt hi)
      rw [ignoreDepth, hget, Option.any_some, htake, List.rtakeWhile_concat]
      cases isIgnored ignorePackage stackTrace[i] with
      | true =>
          refine ⟨Nat.le_refl _, ?_⟩
          simp
      | false =>
          refine ⟨Nat.le_succ_of_le hle, ?_⟩
          have hfits : ignoreDepth stackTrace ignorePackage i ≤ (stackTrace.take i).length := by
            rw [hlength]
            exact hle
          simp only [Bool.false_eq_true, if_false, Bool.not_false, if_true]
          rw [List.drop_append_of_le_length hfits, hdrop]

theorem getRealStackTrack_eq (stackTrace : List StackTraceElement)
    (ignorePackage : Option String) :
    getRealStackTrack stackTrace ignorePackage =
      stackTrace.rtakeWhile fun element ↦ !isIgnored ignorePackage element := by
  have h := (drop_ignoreDepth ignorePackage stackTrace (Nat.le_refl stackTrace.length)).2
  rwa [List.take_length] at h

/-- The frames up to the last of the ignored package, and those that are left. -/
theorem exists_append (stackTrace : List StackTraceElement) (ignorePackage : Option String) :
    ∃ front, stackTrace = front ++ getRealStackTrack stackTrace ignorePackage ∧
      (∀ element ∈ front.getLast?, isIgnored ignorePackage element = true) ∧
      ∀ element ∈ getRealStackTrack stackTrace ignorePackage,
        isIgnored ignorePackage element = false := by
  refine ⟨stackTrace.rdropWhile fun element ↦ !isIgnored ignorePackage element, ?_, ?_, ?_⟩
  · rw [getRealStackTrack_eq, List.rdropWhile_append_rtakeWhile]
  · intro element helement
    obtain ⟨hne, rfl⟩ := List.mem_getLast?_eq_getLast helement
    have hlast := List.rdropWhile_last_not
      (fun element ↦ !isIgnored ignorePackage element) stackTrace hne
    simpa using hlast
  · intro element helement
    rw [getRealStackTrack_eq] at helement
    simpa using List.mem_rtakeWhile_imp helement

end HiStackTraceUtil

namespace HiStackTraceFormatter

/-- The turns of the loop for the frames that are left. -/
def formatLines : List StackTraceElement → List Char
  | [] => []
  | [element] => "\t└ ".toList ++ element.text
  | element :: rest => "\t├ ".toList ++ element.text ++ '\n' :: formatLines rest

theorem formatLines_cons_cons (element next : StackTraceElement)
    (rest : List StackTraceElement) :
    formatLines (element :: next :: rest) =
      "\t├ ".toList ++ element.text ++ '\n' :: formatLines (next :: rest) := rfl

def format : List StackTraceElement → Option (List Char)
  | [] => none
  | [element] => some ("\t─ ".toList ++ element.text)
  | stackTrace => some ("stackTrace:  \n".toList ++ formatLines stackTrace)

end HiStackTraceFormatter

def HiThreadFormatter.format (threadName : List Char) : List Char :=
  "Thread:".toList ++ threadName

/-- A string, or another object with what its `toString` returns. -/
inductive Content where
  | string (s : List Char)
  | object (text : List Char)
  deriving DecidableEq

namespace Content

def text : Content → List Char
  | .string s => s
  | .object text => text

end Content

/-- The defaults of the abstract class.  Contents, and what the parser returns, may be `null`. -/
structure HiLogConfig (π : Type*) where
  injectJsonParser : Option (List (Option Content) → Option (List Char)) := none
  getGlobalTag : List Char := "HiLog".toList
  enable : Bool := true
  includeThread : Bool := false
  stackTraceDepth : ℤ := 0
  printers : Option (List π) := none

/-- What a printer is called with. -/
structure Print where
  type : ℤ
  tag : List Char
  printString : List Char
  deriving DecidableEq

/-- `append` of a string that may be `null`. -/
def orNull (s : Option (List Char)) : List Char := s.getD "null".toList

/-- `body.replace`, of a backslash and a quote by the quote. -/
def replaceQuotes : List Char → List Char
  | c :: d :: rest =>
      if c = '\x5c' ∧ d = '\x22' then d :: replaceQuotes rest else c :: replaceQuotes (d :: rest)
  | [c] => [c]
  | [] => []

namespace HiLog

variable {π : Type*}

/-- The turns of the loop over the contents; `toString` of `null` throws. -/
def appendContents : List (Option Content) → Option (List Char)
  | [] => some []
  | none :: _ => none
  | some content :: contents => (appendContents contents).map (content.text ++ ';' :: ·)

/-- It throws, or returns the text or `null`. -/
def parseBody (contents : List (Option Content)) (config : HiLogConfig π) :
    Option (Option (List Char)) :=
  match config.injectJsonParser with
  | some toJson =>
      match contents with
      | [some (.string s)] => some (some s)
      | _ => some (toJson contents)
  | none => (appendContents contents).map fun s ↦ some s.dropLast

/-- The text that all printers get. -/
def printString (config : HiLogConfig π) (threadName : List Char)
    (stackTrace : List StackTraceElement) (contents : List (Option Content)) :
    Option (List Char) :=
  let thread :=
    if config.includeThread then HiThreadFormatter.format threadName ++ ['\n'] else []
  let stack :=
    if 0 < config.stackTraceDepth then
      orNull (HiStackTraceFormatter.format (HiStackTraceUtil.getCroppedRealStackTrack stackTrace
        (some HI_LOG_PACKAGE) config.stackTraceDepth)) ++ ['\n']
    else []
  (parseBody contents config).map fun body ↦
    thread ++ stack ++ orNull (body.map replaceQuotes)

end HiLog

structure HiLogManager (π : Type*) where
  config : HiLogConfig π
  printers : List π

/-- The instance is `null` until `init`; `printed` has the calls of the printers. -/
structure HiLogs (π : Type*) where
  manager : Option (HiLogManager π) := none
  printed : List (π × Print) := []

/-- The three overloads of `log`. -/
inductive Overload (π : Type*) where
  | contents
  | tag (tag : List Char)
  | config (config : HiLogConfig π) (tag : List Char)

/-- A call of `log`, with the thread and the stack it is made on. -/
structure LogCall (π : Type*) where
  overload : Overload π
  type : ℤ
  threadName : List Char
  stackTrace : List StackTraceElement
  contents : List (Option Content)

inductive LogAction (π : Type*) where
  | init (config : HiLogConfig π) (printers : List π)
  | addPrinter (printer : π)
  | removePrinter (printer : π)
  | log (call : LogCall π)

namespace HiLogs

variable {π : Type*}

/-- The configuration and the tag of a call. -/
def resolve (s : HiLogs π) : Overload π → Option (HiLogConfig π × List Char)
  | .contents => s.manager.map fun manager ↦ (manager.config, manager.config.getGlobalTag)
  | .tag tag => s.manager.map fun manager ↦ (manager.config, tag)
  | .config config tag => some (config, tag)

def getPrinters (s : HiLogs π) (config : HiLogConfig π) : Option (List π) :=
  config.printers.orElse fun _ ↦ s.manager.map HiLogManager.printers

/-- It throws before `init`, and for contents of which one is `null`. -/
def log (s : HiLogs π) (call : LogCall π) : Option (HiLogs π) :=
  (s.resolve call.overload).bind fun (config, tag) ↦
    if config.enable then
      (HiLog.printString config call.threadName call.stackTrace call.contents).bind fun text ↦
        (s.getPrinters config).map fun printers ↦
          { s with
            printed := s.printed ++ printers.map fun printer ↦
              (printer, { type := call.type, tag, printString := text }) }
    else some s

def step [DecidableEq π] (s : HiLogs π) : LogAction π → Option (HiLogs π)
  | .init config printers => some { s with manager := some { config, printers } }
  | .addPrinter printer =>
      s.manager.map fun manager ↦
        { s with manager := some { manager with printers := manager.printers ++ [printer] } }
  | .removePrinter printer =>
      s.manager.map fun manager ↦
        { s with manager := some { manager with printers := manager.printers.erase printer } }
  | .log call => s.log call

end HiLogs

/-! ### Reading it back -/

structure Parts where
  thread : Option (List Char)
  frames : List (List Char)
  body : List Char
  deriving DecidableEq

namespace Parts

def stripPrefix (front line : List Char) : Option (List Char) :=
  if front.isPrefixOf line then some (line.drop front.length) else none

/-- The frames end with the one that is marked as the last. -/
def readFrames : List (List Char) → Option (List (List Char) × List (List Char))
  | [] => none
  | line :: lines =>
      match stripPrefix "\t├ ".toList line with
      | some frame => (readFrames lines).map fun read ↦ (frame :: read.1, read.2)
      | none => (stripPrefix "\t└ ".toList line).map fun frame ↦ ([frame], lines)

def readStack : List (List Char) → Option (List (List Char) × List (List Char))
  | [] => none
  | line :: lines =>
      if line = "null".toList then some ([], lines)
      else if line = "stackTrace:  ".toList then readFrames lines
      else (stripPrefix "\t─ ".toList line).map fun frame ↦ ([frame], lines)

def readThread : List (List Char) → Option (List Char × List (List Char))
  | [] => none
  | line :: lines => (stripPrefix "Thread:".toList line).map fun name ↦ (name, lines)

/-- The parts of a text that was made with, or without, the thread and the stack. -/
def read (thread stack : Bool) (printString : List Char) : Option Parts := do
  let lines := printString.splitOn '\n'
  let (thread, lines) ←
    if thread then (readThread lines).map fun read ↦ (some read.1, read.2)
    else some (none, lines)
  let (frames, lines) ← if stack then readStack lines else some ([], lines)
  some { thread, frames, body := ['\n'].intercalate lines }

theorem stripPrefix_append (front rest : List Char) :
    stripPrefix front (front ++ rest) = some rest := by
  have hprefix : front.isPrefixOf (front ++ rest) = true :=
    List.isPrefixOf_iff_prefix.mpr (List.prefix_append front rest)
  rw [stripPrefix, if_pos hprefix, List.drop_left]

theorem splitOn_line {line : List Char} (h : '\n' ∉ line) (rest : List Char) :
    (line ++ '\n' :: rest).splitOn '\n' = line :: rest.splitOn '\n' :=
  List.splitOn_append_cons_self_of_not_mem h rest

theorem readFrames_formatLines {stackTrace : List StackTraceElement} (hne : stackTrace ≠ [])
    (hlines : ∀ element ∈ stackTrace, '\n' ∉ element.text) (rest : List Char) :
    readFrames ((HiStackTraceFormatter.formatLines stackTrace ++ '\n' :: rest).splitOn '\n') =
      some (stackTrace.map StackTraceElement.text, rest.splitOn '\n') := by
  induction stackTrace with
  | nil => exact absurd rfl hne
  | cons element stackTrace ih =>
      have hline := hlines element List.mem_cons_self
      cases stackTrace with
      | nil =>
          have hlast : '\n' ∉ "\t└ ".toList ++ element.text := by
            simp [hline]
          have hother : stripPrefix "\t├ ".toList ("\t└ ".toList ++ element.text) = none := rfl
          rw [HiStackTraceFormatter.formatLines, splitOn_line hlast, readFrames, hother]
          simp only
          rw [stripPrefix_append]
          rfl
      | cons next stackTrace =>
          have hfirst : '\n' ∉ "\t├ ".toList ++ element.text := by
            simp [hline]
          have hrest := ih (List.cons_ne_nil _ _)
            fun element helement ↦ hlines element (List.mem_cons_of_mem _ helement)
          rw [HiStackTraceFormatter.formatLines_cons_cons, List.append_assoc, List.cons_append,
            splitOn_line hfirst, readFrames, stripPrefix_append]
          simp only
          rw [hrest]
          rfl

theorem readStack_format {stackTrace : List StackTraceElement}
    (hlines : ∀ element ∈ stackTrace, '\n' ∉ element.text) (rest : List Char) :
    readStack ((orNull (HiStackTraceFormatter.format stackTrace) ++ '\n' :: rest).splitOn
      '\n') = some (stackTrace.map StackTraceElement.text, rest.splitOn '\n') := by
  cases stackTrace with
  | nil =>
      have hnull : '\n' ∉ "null".toList := by
        decide
      have horNull : orNull (HiStackTraceFormatter.format []) = "null".toList := rfl
      rw [horNull, splitOn_line hnull, readStack, if_pos rfl]
      rfl
  | cons element stackTrace =>
      cases stackTrace with
      | nil =>
          have hone : '\n' ∉ "\t─ ".toList ++ element.text := by
            simp [hlines element List.mem_cons_self]
          have horNull : orNull (HiStackTraceFormatter.format [element]) =
              "\t─ ".toList ++ element.text := rfl
          rw [horNull, splitOn_line hone, readStack, if_neg (by simp), if_neg (by simp),
            stripPrefix_append]
          rfl
      | cons next stackTrace =>
          have hheader : '\n' ∉ "stackTrace:  ".toList := by
            decide
          have horNull : orNull (HiStackTraceFormatter.format (element :: next :: stackTrace)) =
              "stackTrace:  ".toList ++ '\n' ::
                HiStackTraceFormatter.formatLines (element :: next :: stackTrace) := rfl
          rw [horNull, List.append_assoc, List.cons_append, splitOn_line hheader, readStack,
            if_neg (by decide), if_pos rfl]
          exact readFrames_formatLines (List.cons_ne_nil _ _) hlines rest

theorem readThread_format {threadName : List Char} (hline : '\n' ∉ threadName)
    (rest : List Char) :
    readThread ((HiThreadFormatter.format threadName ++ '\n' :: rest).splitOn '\n') =
      some (threadName, rest.splitOn '\n') := by
  have hword : '\n' ∉ "Thread:".toList := by
    decide
  have hthread : '\n' ∉ HiThreadFormatter.format threadName :=
    fun hmem ↦ (List.mem_append.mp hmem).elim hword hline
  have hname : stripPrefix "Thread:".toList (HiThreadFormatter.format threadName) =
      some threadName := stripPrefix_append _ _
  rw [splitOn_line hthread]
  unfold readThread
  dsimp only
  rw [hname, Option.map_some]

variable {π : Type*}

/-- Thread, stack and body are read back from the text. -/
theorem read_printString {config : HiLogConfig π} {threadName text : List Char}
    {stackTrace : List StackTraceElement} {contents : List (Option Content)}
    (hthread : '\n' ∉ threadName) (hlines : ∀ element ∈ stackTrace, '\n' ∉ element.text)
    (htext : HiLog.printString config threadName stackTrace contents = some text) :
    ∃ body, HiLog.parseBody contents config = some body ∧
      read config.includeThread (0 < config.stackTraceDepth) text = some
        { thread := if config.includeThread then some threadName else none
          frames :=
            if 0 < config.stackTraceDepth then
              (HiStackTraceUtil.getCroppedRealStackTrack stackTrace (some HI_LOG_PACKAGE)
                config.stackTraceDepth).map StackTraceElement.text
            else []
          body := orNull (body.map replaceQuotes) } := by
  obtain ⟨body, hbody, rfl⟩ := Option.map_eq_some_iff.mp htext
  refine ⟨body, hbody, ?_⟩
  have hcropped : ∀ element ∈ HiStackTraceUtil.getCroppedRealStackTrack stackTrace
      (some HI_LOG_PACKAGE) config.stackTraceDepth, '\n' ∉ element.text := by
    intro element helement
    exact hlines element (List.mem_of_mem_drop (List.mem_of_mem_take helement))
  generalize HiStackTraceUtil.getCroppedRealStackTrack stackTrace (some HI_LOG_PACKAGE)
    config.stackTraceDepth = frames at hcropped ⊢
  generalize orNull (body.map replaceQuotes) = rest
  have hstack := readStack_format hcropped rest
  cases config.includeThread with
  | true =>
      by_cases hdepth : 0 < config.stackTraceDepth
      · have hread := readThread_format hthread
          (orNull (HiStackTraceFormatter.format frames) ++ '\n' :: rest)
        simp only [read, hdepth, if_true, decide_true, List.append_assoc, List.cons_append,
          List.nil_append, hread, hstack, Option.map_some, Option.bind_eq_bind,
          Option.bind_some, List.intercalate_splitOn]
      · have hread := readThread_format hthread rest
        simp only [read, hdepth, if_true, if_false, decide_false, List.append_assoc,
          List.cons_append, List.nil_append, hread, Bool.false_eq_true, Option.map_some,
          Option.bind_eq_bind, Option.bind_some, List.intercalate_splitOn]
  | false =>
      by_cases hdepth : 0 < config.stackTraceDepth
      · simp only [read, hdepth, if_true, if_false, decide_true, List.append_assoc,
          List.cons_append, List.nil_append, hstack, Bool.false_eq_true, Option.bind_eq_bind,
          Option.bind_some, List.intercalate_splitOn]
      · simp only [read, hdepth, if_false, decide_false, List.nil_append, Bool.false_eq_true,
          Option.bind_eq_bind, Option.bind_some, List.intercalate_splitOn]

end Parts

/-! ### Whole runs -/

section

variable {π : Type*}

def LogAction.call : LogAction π → Option (LogCall π)
  | .log call => some call
  | .init _ _ | .addPrinter _ | .removePrinter _ => none

/-- Neither the thread's name nor a frame breaks the line. -/
def LogCall.OnLines (call : LogCall π) : Prop :=
  '\n' ∉ call.threadName ∧ ∀ element ∈ call.stackTrace, '\n' ∉ element.text

/-- What one call gives to its printers. -/
structure Block (π : Type*) where
  call : LogCall π
  config : HiLogConfig π
  printers : List π
  print : Print

namespace Block

def prints (block : Block π) : List (π × Print) :=
  block.printers.map fun printer ↦ (printer, block.print)

/-- From the text one reads the thread, the body, and those frames, as many as there may be, that
come after the last one of the logger's own. -/
def Reads (block : Block π) : Prop :=
  ∃ body front real,
    HiLog.parseBody block.call.contents block.config = some body ∧
      block.call.stackTrace = front ++ real ∧
      (∀ element ∈ front.getLast?,
        HiStackTraceUtil.isIgnored (some HI_LOG_PACKAGE) element = true) ∧
      (∀ element ∈ real, HiStackTraceUtil.isIgnored (some HI_LOG_PACKAGE) element = false) ∧
      Parts.read block.config.includeThread (0 < block.config.stackTraceDepth)
          block.print.printString = some
        { thread := if block.config.includeThread then some block.call.threadName else none
          frames := (real.take block.config.stackTraceDepth.toNat).map StackTraceElement.text
          body := orNull (body.map replaceQuotes) }

/-- The block of a call in `s`: nobody is told when the configuration is not enabled, and all of
the printers when it is. -/
structure Tells (s : HiLogs π) (block : Block π) : Prop where
  type : block.print.type = block.call.type
  resolve : s.resolve block.call.overload = some (block.config, block.print.tag)
  disabled : block.config.enable = false → block.printers = []
  enabled : block.config.enable = true →
    s.getPrinters block.config = some block.printers ∧ block.Reads

end Block

variable {s s' : HiLogs π} {call : LogCall π}

theorem cropStackTrace_of_pos {callStack : List StackTraceElement} {maxDepth : ℤ}
    (h : 0 < maxDepth) :
    HiStackTraceUtil.cropStackTrace callStack maxDepth = callStack.take maxDepth.toNat := by
  rw [HiStackTraceUtil.cropStackTrace, if_pos h, ← List.take_take, List.take_length]

theorem HiLogs.exists_block (honLines : call.OnLines) (hlog : s.log call = some s') :
    ∃ block : Block π, block.call = call ∧ block.Tells s ∧
      s' = { s with printed := s.printed ++ block.prints } := by
  obtain ⟨⟨config, tag⟩, hresolve, hconfig⟩ := Option.bind_eq_some_iff.mp hlog
  cases henable : config.enable with
  | false =>
      simp only [henable, Bool.false_eq_true, if_false] at hconfig
      obtain rfl := Option.some.inj hconfig
      refine ⟨⟨call, config, [], ⟨call.type, tag, []⟩⟩, rfl, ?_, by simp [Block.prints]⟩
      refine ⟨rfl, hresolve, fun _ ↦ rfl, fun h ↦ ?_⟩
      rw [henable] at h
      cases h
  | true =>
      simp only [henable, if_true] at hconfig
      obtain ⟨text, htext, hprinters⟩ := Option.bind_eq_some_iff.mp hconfig
      obtain ⟨printers, hget, rfl⟩ := Option.map_eq_some_iff.mp hprinters
      obtain ⟨body, hbody, hread⟩ := Parts.read_printString honLines.1 honLines.2 htext
      obtain ⟨front, hfront, hlast, hreal⟩ :=
        HiStackTraceUtil.exists_append call.stackTrace (some HI_LOG_PACKAGE)
      refine ⟨⟨call, config, printers, ⟨call.type, tag, text⟩⟩, rfl, ?_, rfl⟩
      refine ⟨rfl, hresolve, fun h ↦ ?_, fun _ ↦ ⟨hget, body, front, _, hbody, hfront, hlast,
        hreal, ?_⟩⟩
      · rw [henable] at h
        cases h
      rw [hread]
      by_cases hdepth : 0 < config.stackTraceDepth
      · rw [if_pos hdepth, HiStackTraceUtil.getCroppedRealStackTrack,
          cropStackTrace_of_pos hdepth]
      · have hzero : config.stackTraceDepth.toNat = 0 := by
          omega
        rw [if_neg hdepth, hzero]
        rfl

/-- What the printers were given are the blocks of the calls in their order, one for each: the
same text for all of the printers there were, from which what was logged can be read back. -/
theorem logged_of_run [DecidableEq π] {actions : List (LogAction π)}
    (honLines : ∀ call ∈ actions.filterMap LogAction.call, call.OnLines)
    (hrun : run HiLogs.step {} actions = some s) :
    ∃ blocks : List (Block π), s.printed = blocks.flatMap Block.prints ∧
      blocks.map Block.call = actions.filterMap LogAction.call ∧
      ∀ block ∈ blocks, ∃ front rest u, actions = front ++ .log block.call :: rest ∧
        run HiLogs.step {} front = some u ∧ block.Tells u := by
  induction actions using List.reverseRecOn generalizing s with
  | nil =>
      obtain rfl := Option.some.inj hrun
      exact ⟨[], rfl, rfl, List.forall_mem_nil _⟩
  | append_singleton actions action ih =>
      obtain ⟨u, hu, hstep⟩ := run_concat_eq_some_iff.mp hrun
      rw [List.filterMap_append] at honLines ⊢
      obtain ⟨blocks, hprinted, hcalls, htells⟩ :=
        ih (fun call hcall ↦ honLines call (List.mem_append_left _ hcall)) hu
      have htold : ∀ block ∈ blocks, ∃ front rest v,
          actions ++ [action] = front ++ .log block.call :: rest ∧
            run HiLogs.step {} front = some v ∧ block.Tells v := by
        intro block hblock
        obtain ⟨front, rest, v, rfl, hv, htell⟩ := htells block hblock
        exact ⟨front, rest ++ [action], v, by simp, hv, htell⟩
      cases action with
      | init config printers =>
          obtain rfl := Option.some.inj hstep
          exact ⟨blocks, hprinted, hcalls.trans (List.append_nil _).symm, htold⟩
      | addPrinter printer =>
          obtain ⟨manager, -, rfl⟩ := Option.map_eq_some_iff.mp hstep
          exact ⟨blocks, hprinted, hcalls.trans (List.append_nil _).symm, htold⟩
      | removePrinter printer =>
          obtain ⟨manager, -, rfl⟩ := Option.map_eq_some_iff.mp hstep
          exact ⟨blocks, hprinted, hcalls.trans (List.append_nil _).symm, htold⟩
      | log call =>
          have hcall : call.OnLines := honLines call (by simp [LogAction.call])
          obtain ⟨block, rfl, htell, rfl⟩ := HiLogs.exists_block hcall hstep
          refine ⟨blocks ++ [block], ?_, ?_, ?_⟩
          · simp [hprinted]
          · rw [List.map_append, hcalls]
            rfl
          · rw [List.forall_mem_append]
            refine ⟨htold, List.forall_mem_singleton.mpr ?_⟩
            exact ⟨actions, [], u, rfl, hu, htell⟩

/-- Two frames of the logger and two of its caller, of which one is logged. -/
def frames : List StackTraceElement :=
  [⟨"com.hzp.hi.library.log.HiLog", "HiLog.log".toList⟩,
    ⟨"com.hzp.hi.library.log.HiLog", "HiLog.e".toList⟩,
    ⟨"com.hzp.hiapp.HiMainActivity", "HiMainActivity.onCreate".toList⟩,
    ⟨"android.app.Activity", "Activity.performCreate".toList⟩]

def loggedRun : List (LogAction (Fin 2)) :=
  [.init { includeThread := true, stackTraceDepth := 1 } [0], .addPrinter 1,
    .log ⟨.tag "tag".toList, 6, "main".toList, frames, [some (.string "a".toList)]⟩]

theorem logged_of_run_frames :
    ∃ s, run HiLogs.step {} loggedRun = some s ∧
      s.printed.map Prod.fst = [0, 1] ∧
      (∀ p ∈ s.printed, p.2.printString =
        "Thread:main\n\t─ HiMainActivity.onCreate\na".toList) ∧
      ∃ blocks : List (Block (Fin 2)), s.printed = blocks.flatMap Block.prints ∧
        blocks.map Block.call = loggedRun.filterMap LogAction.call ∧
        ∀ block ∈ blocks, ∃ front rest u, loggedRun = front ++ .log block.call :: rest ∧
          run HiLogs.step {} front = some u ∧ block.Tells u := by
  refine ⟨_, rfl, rfl, by decide, logged_of_run ?_ rfl⟩
  exact List.forall_mem_singleton.mpr ⟨by decide, by decide⟩

end

end HiApp.Log
