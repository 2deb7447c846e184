import PathSelection.Config.Basic
import PathSelection.Path.Written
import PathSelection.Text.Order
import PathSelection.Toml.Value

namespace PathSelection.Config

open Toml

structure Reading (α : Type) where
  value : α
  problems : List Problem
deriving DecidableEq

namespace Reading

instance : Monad Reading where
  pure a := ⟨a, []⟩
  bind r f := ⟨(f r.value).value, r.problems ++ (f r.value).problems⟩

variable {α β : Type}

@[simp] theorem problems_pure (a : α) : (pure a : Reading α).problems = [] := rfl

@[simp] theorem value_pure (a : α) : (pure a : Reading α).value = a := rfl

@[simp] theorem problems_bind (r : Reading α) (f : α → Reading β) :
    (r >>= f).problems = r.problems ++ (f r.value).problems := rfl

@[simp] theorem value_bind (r : Reading α) (f : α → Reading β) :
    (r >>= f).value = (f r.value).value := rfl

def report (p : Problem) : Reading Unit := ⟨(), [p]⟩

def reportAll (ps : List Problem) : Reading Unit := ⟨(), ps⟩

def each (f : α → Reading β) : List α → Reading (List β)
  | [] => pure []
  | a :: as => do return (← f a) :: (← each f as)

end Reading

structure Kind (α : Type) where
  name : Text
  read? : Value → Option α
  /-- Stands in where there is no value of this kind. -/
  default : α

namespace Kind

def string : Kind Text := ⟨"a string", Value.string?, []⟩
def strings : Kind (List Text) := ⟨"a string or array of strings", Value.strings?, []⟩
def boolean : Kind Bool := ⟨"a boolean", Value.boolean?, false⟩
def integer : Kind Int := ⟨"an integer", Value.integer?, 0⟩
def integers : Kind (List Int) := ⟨"an integer or array of integers", Value.integers?, []⟩

end Kind

def field {α : Type} (owner : Text) (t : Table) (key : Text) (kind : Kind α) : Reading α :=
  match t.get? key with
  | none => pure kind.default
  | some v =>
    match kind.read? v with
    | some a => pure a
    | none => ⟨kind.default, [.wrongKind owner key kind.name v.kind]⟩

def unifiedKey (key : Text) : Text := key.map fun c => if c = '-' then '_' else c

/-- A table with unified keys. Of keys that are then equal the last gives the value, and the first
the position. -/
def unified (t : Table) : Table := t.foldl (fun u e => u.put (unifiedKey e.1) e.2) []

def unknownKeys (known : List Text) (t : Table) : List Text :=
  ((t.map Prod.fst).filter (!known.contains ·)).mergeSort Text.le

def globalKeys : List Text := ["exclude", "extend_exclude", "ignore", "commands", "servers"]

def checkKeys : List Text :=
  ["type", "include", "exclude", "ignore", "cmd", "args", "on_dir", "path_flag", "ok_exit_codes",
    "port"]

/-- A path in a configuration is relative to the directory of the file. -/
def located (directory : AbsPath) (path : Text) : Text :=
  (directory.written.join (WrittenPath.ofText path)).text

def readPurpose (name : Text) (t : Table) : Reading Purpose := do
  let written ← field name t "type" .string
  match t.get? "type" with
  | none =>
    Reading.report (.missing name "type")
    return .both
  | some (.string _) =>
    match Purpose.ofText? written with
    | some p => return p
    | none =>
      Reading.report (.unknownPurpose name written)
      return .both
  | some _ => return .both

def readCommand (name : Text) (t : Table) : Reading (List Text) := do
  let command ← field name t "cmd" .strings
  if !t.has "cmd" then Reading.report (.missing name "cmd")
  return command

def readPort (part : Section) (name : Text) (t : Table) : Reading (Option Int) :=
  match part, t.has "port" with
  | .servers, true => some <$> field name t "port" .integer
  | .servers, false => ⟨none, [.portMissing name]⟩
  | .commands, true => ⟨none, [.portMisplaced name]⟩
  | .commands, false => pure none

def readCheck (part : Section) (directory : AbsPath) (name : Text) (t : Table) :
    Reading Check := do
  Reading.reportAll ((unknownKeys checkKeys t).map fun key => .unknownKey key name)
  let purpose ← readPurpose name t
  let command ← readCommand name t
  let port ← readPort part name t
  let included ← field name t "include" .strings
  let excluded ← field name t "exclude" .strings
  let ignoreFiles ← field name t "ignore" .strings
  let arguments ← field name t "args" .strings
  let onDirectories ← field name t "on_dir" .boolean
  let pathFlag ← field name t "path_flag" .string
  let codes ← field name t "ok_exit_codes" .integers
  return {
    name, purpose, command, included, excluded
    ignoreFiles := ignoreFiles.map (located directory)
    arguments := arguments.map fun a => a.replace "$CONFIG_DIR" directory.text
    onDirectories, pathFlag
    okExitCodes := if codes = [] then [0] else codes
    port }

/-- Reads an entry of a table of checks. A check with a problem is left out. -/
def readEntry (part : Section) (directory : AbsPath) (entry : Text × Value) :
    Reading (Option Check) :=
  match entry.2 with
  | .table t =>
    let r := readCheck part directory entry.1 (unified t)
    ⟨if r.problems = [] then some r.value else none, r.problems⟩
  | _ => ⟨none, [.checkNotTable part entry.1]⟩

def readSection (directory : AbsPath) (t : Table) (part : Section) : Reading (List Check) :=
  match t.get? part.key with
  | none => pure []
  | some (.table checks) => do
    return (← Reading.each (readEntry part directory) checks).filterMap id
  | some _ => ⟨[], [.sectionNotTable part]⟩

def globalOwner : Text := "global"

def readGlobals (path : AbsPath) (t : Table) : Reading Config := do
  Reading.reportAll ((unknownKeys globalKeys t).map .unknownGlobalKey)
  let excluded ← field globalOwner t "exclude" .strings
  let furtherExcluded ← field globalOwner t "extend_exclude" .strings
  let ignoreFiles ← field globalOwner t "ignore" .strings
  if !t.has Section.commands.key && !t.has Section.servers.key then Reading.report .noSection
  return {
    excluded := if t.has "exclude" then some excluded else none
    furtherExcluded
    ignoreFiles := ignoreFiles.map (located path.parent)
    checks := []
    path := some path }

def read (path : AbsPath) (table : Table) : Reading Config := do
  let t := unified table
  let globals ← readGlobals path t
  let commands ← readSection path.parent t .commands
  let servers ← readSection path.parent t .servers
  return { globals with checks := commands ++ servers }

end PathSelection.Config
