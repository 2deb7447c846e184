import PathSelection.Check.Plan
import PathSelection.CommandLine.Arguments
import PathSelection.Config.File
import PathSelection.Selection.Basic

namespace PathSelection.CommandLine

variable {σ π : Type}

def loadConfig (path : Text) : Run σ π Config := do
  let v ← Run.view
  let path := v.absolute path
  Run.note (.loadingConfig path)
  let reading := Config.read path (← Run.lift (Config.tableIn v path))
  Run.noteAll (reading.value.checks.map fun c => .foundCheck c.isServer c.name)
  Run.lift (Config.accepted path reading)

/-- The configuration that the options name, or else the one that governs the working directory. -/
def chooseConfig (o : Options) : Run σ π Config := do
  match o.config with
  | some (c :: cs) => loadConfig (c :: cs)
  | _ =>
    let v ← Run.view
    match ← Run.lift (Config.find v v.cwd.text) with
    | some path => loadConfig path
    | none =>
      Run.note .noConfig
      return .standard

def chooseChecks (config : Config) : List Text → Except Failure (List Check)
  | [] => .ok config.checks
  | names => names.mapM fun name =>
    match config.check? name with
    | some check => .ok check
    | none => .error (.unknownCheck name)

def print (lines : List Text) : Run σ π Unit := Run.noteAll (lines.map .printed)

def planLines (plan : Plan) : List Text :=
  plan.flatMap fun e => (e.1 ++ [':']) :: e.2.map fun path => "  " ++ path

def tell (o : Options) (checks : List Check) (root : Text) (paths : List Text) : Run σ π Unit := do
  if o.listFiles then print paths
  else
    let plan ← Run.lift (Plan.make (← Run.view) checks paths (o.command.getD .both) (some root))
    print (planLines plan)

def selectionFor (g : Git σ π) (o : Options) (mode : Mode) (config : Config) (v : View) :
    Except Failure (Selection σ π) :=
  Selection.setUp v mode o.paths config.allExcluded config.ignoreFiles
    (some (config.root v.cwd).text) (g.source v.cwd.text) o.followLinks

def useConfig (g : Git σ π) (o : Options) (mode : Mode) (config : Config) : Run σ π Unit := do
  let checks ← Run.lift (chooseChecks config o.checks)
  let v ← Run.view
  let selection ← Run.lift (selectionFor g o mode config v)
  selection.use (selection.get >>= tell o checks (config.root v.cwd).text)

def carryOut (g : Git σ π) (o : Options) : Run σ π Unit :=
  if o.mode.getD .explicit = .explicit ∧ o.paths = [] then throw .noPaths
  else chooseConfig o >>= useConfig g o (o.mode.getD .explicit)

structure Report where
  code : Nat
  output : Text
  errors : Text
deriving DecidableEq, Repr

def unlines (lines : List Text) : Text := lines.flatMap (· ++ ['\n'])

def logLines (level : Level) (history : List Event) : List Text :=
  (history.filterMap Event.line?).filterMap fun (l, text) =>
    if level.rank ≤ l.rank then some (l.text ++ ": " ++ text) else none

def report (level : Level) (history : List Event) (failure : Option Failure) : Report where
  code := if failure.isSome then 1 else 0
  output := unlines (history.filterMap Event.printed?)
  errors :=
    unlines (logLines level history ++ failure.toList.map fun f => "Error: ".toList ++ f.message)

def version : Text := "v0.1.0"

inductive Ending where
  | stopped (stop : Stop)
  | reported (report : Report)
  /-- A failure that was not foreseen. -/
  | escaped (failure : Failure)

def Stop.code : Stop → Nat
  | .help => 0
  | .fault .. => 2

/-- The last line of what a stop writes to the error output, the help text aside. -/
def Stop.line : Stop → Text
  | .help => []
  | .fault command f =>
    "tidypaths" ++ (command.elim [] fun c => ' ' :: c.text) ++ ": error: " ++ f.message

/-- The workspace that a run begins in: nothing is known, and nothing has happened yet. -/
def fresh (w : Workspace σ π) : Workspace σ π := { w with memory := .empty, history := [] }

def closed (w w₁ : Workspace σ π) : Workspace σ π :=
  { w₁ with memory := w.memory, history := w.history ++ w₁.history }

def run (g : Git σ π) (words : List Text) (w : Workspace σ π) : Ending × Workspace σ π :=
  match Options.read words with
  | .error stop => (.stopped stop, w)
  | .ok o =>
    if o.version then (.reported ⟨0, unlines [version], []⟩, w)
    else
      let level := o.level.getD .warning
      match (carryOut g o).run (fresh w) with
      | .ok _ after => (.reported (report level after.history none), closed w after)
      | .error failure after =>
        (if failure.isReported then .reported (report level after.history (some failure))
          else .escaped failure, closed w after)

end PathSelection.CommandLine
