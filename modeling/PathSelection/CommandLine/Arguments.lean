import PathSelection.Check.Basic
import PathSelection.CommandLine.Flag

namespace PathSelection.CommandLine

inductive UsageFault where
  | ambiguous (word : Text) (names : List Text)
  | valueMissing (flag : Flag)
  | valueIgnored (flag : Flag) (value : Text)
  | excluded (flag other : Flag)
  | unknownCommand (word : Text)
  | unrecognized (words : List Text)
  | commandMissing
deriving DecidableEq, Repr

def UsageFault.message : UsageFault → Text
  | .ambiguous word names =>
    "ambiguous option: " ++ word ++ " could match " ++ [',', ' '].intercalate names
  | .valueMissing flag => "argument " ++ flag.title ++ ": expected one argument"
  | .valueIgnored flag value =>
    "argument " ++ flag.title ++ ": ignored explicit argument " ++ value.quoted
  | .excluded flag other =>
    "argument " ++ flag.title ++ ": not allowed with argument " ++ other.title
  | .unknownCommand word =>
    "argument \x7btidy,lint\x7d: invalid choice: " ++ word.quoted
      ++ " (choose from 'tidy', 'lint')"
  | .unrecognized words => "unrecognized arguments: " ++ [' '].intercalate words
  | .commandMissing => "a command is required (tidy or lint)"

inductive Stop where
  | help
  | fault (command : Option Purpose) (f : UsageFault)
deriving DecidableEq, Repr

inductive Word where
  | plain
  | separator
  /-- An option by the name that was written, and the value that is joined to it, which may follow
  an equals sign. -/
  | option (flag : Flag) (name : Text) (value : Option (Bool × Text))
  | unknownOption
deriving DecidableEq, Repr

namespace Word

def splitValue (t : Text) : Option (Text × Text) :=
  if '=' ∈ t then some (t.takeWhile (· ≠ '='), (t.dropWhile (· ≠ '=')).tail) else none

def isNegativeNumber : Text → Bool
  | '-' :: t =>
    let rest := t.dropWhile Char.isDigit
    (t ≠ [] && rest = [])
      || (rest.head? = some '.' && rest.tail ≠ [] && rest.tail.all Char.isDigit)
  | _ => false

/-- The options that a word can mean in a shortened or joined form. -/
def candidates (flags : List Flag) (t : Text) : List (Flag × Text × Option (Bool × Text)) :=
  let entries := Flag.dictionary flags
  if ['-', '-'].isPrefixOf t then
    let (stem, value) := match splitValue t with
      | some (stem, value) => (stem, some (true, value))
      | none => (t, none)
    (entries.filter fun e => stem.isPrefixOf e.1).map fun e => (e.2, e.1, value)
  else
    entries.filterMap fun e =>
      if e.1 = t.take 2 then some (e.2, e.1, some (false, t.drop 2))
      else if t.isPrefixOf e.1 then some (e.2, e.1, none)
      else none

def tell (flags : List Flag) (t : Text) : Except UsageFault Word :=
  let entries := Flag.dictionary flags
  if t.head? ≠ some '-' then .ok .plain
  else match entries.lookup t with
    | some flag => .ok (.option flag t none)
    | none =>
      if t = ['-'] then .ok .plain
      else match (splitValue t).bind fun p => (entries.lookup p.1).map fun f => (f, p) with
        | some (flag, name, value) => .ok (.option flag name (some (true, value)))
        | none =>
          match candidates flags t with
          | [(flag, name, value)] => .ok (.option flag name value)
          | [] => .ok (if isNegativeNumber t || ' ' ∈ t then .plain else .unknownOption)
          | several => .error (.ambiguous t (several.map fun c => c.2.1))

def tellAll (flags : List Flag) : List Text → Except UsageFault (List (Word × Text))
  | [] => .ok []
  | t :: ts =>
    if t = ['-', '-'] then .ok ((.separator, t) :: ts.map fun u => (.plain, u))
    else do
      let w ← tell flags t
      return (w, t) :: (← tellAll flags ts)

def isOption : Word → Bool
  | .option .. | .unknownOption => true
  | .plain | .separator => false

end Word

structure Options where
  command : Option Purpose
  paths : List Text
  config : Option Text
  mode : Option Mode
  listFiles : Bool
  checks : List Text
  followLinks : Bool
  level : Option Level
  version : Bool
deriving DecidableEq, Repr

namespace Options

def empty : Options := ⟨none, [], none, none, false, [], false, none, false⟩

end Options

structure Reader where
  options : Options
  seen : List Flag
  hasPaths : Bool
  /-- Words that nothing asks for. -/
  extras : List Text

namespace Reader

def start (command : Option Purpose) : Reader :=
  ⟨{ Options.empty with command }, [], false, []⟩

def take (r : Reader) (flag : Flag) (value : Text) : Except Stop Reader := do
  match r.seen.find? flag.excludes with
  | some other => throw (.fault r.options.command (.excluded flag other))
  | none => pure ()
  let options ← match flag with
    | .help => throw .help
    | .version => pure { r.options with version := true }
    | .config => pure { r.options with config := some value }
    | .mode m => pure { r.options with mode := some m }
    | .listFiles => pure { r.options with listFiles := true }
    | .check => pure { r.options with checks := r.options.checks ++ [value] }
    | .followLinks => pure { r.options with followLinks := true }
    | .level l => pure { r.options with level := some l }
  return { r with options, seen := flag :: r.seen }

/-- Takes an option; if it asks for a value, the next word, which has to be plain. What it gives
last are the words left. -/
def takeWithNext (flag : Flag) (rest : List (Word × Text)) :
    Except UsageFault (Text × List (Word × Text)) :=
  if flag.takesValue then
    match rest with
    | (.plain, value) :: rest => .ok (value, rest)
    | _ => .error (.valueMissing flag)
  else .ok ([], rest)

structure Joined where
  taken : List (Flag × Text)
  /-- What follows the options in the word, if nothing is known of it. -/
  extra : Option Text
  rest : List (Word × Text)

def Joined.after (flag : Flag) (j : Joined) : Joined := { j with taken := (flag, []) :: j.taken }

/-- The options in a word, from one whose name has been read. The text after the name is its value
if it takes one; otherwise further short names may follow, but not after an equals sign. -/
def joined (flags : List Flag) (rest : List (Word × Text)) (flag : Flag) (isShort afterSign : Bool)
    (text : Text) : Except UsageFault Joined :=
  if flag.takesValue then .ok ⟨[(flag, text)], none, rest⟩
  else match text with
    | [] => .error (.valueIgnored flag [])
    | c :: cs =>
      if !isShort || afterSign || c = '-' then .error (.valueIgnored flag (c :: cs))
      else match (Flag.dictionary flags).lookup ['-', c], cs with
        | none, _ => .ok ⟨[(flag, [])], some ('-' :: c :: cs), rest⟩
        | some next, [] =>
          (takeWithNext next rest).map fun (value, rest) =>
            Joined.after flag ⟨[(next, value)], none, rest⟩
        | some next, '=' :: ds =>
          (joined flags rest next true true ds).map (Joined.after flag)
        | some next, d :: ds =>
          (joined flags rest next true false (d :: ds)).map (Joined.after flag)

/-- The options in a word. A value that is written with them follows an equals sign, unless the
name is a short one that the value was found joined to. -/
def optionsIn (flags : List Flag) (flag : Flag) (name : Text) (value : Option (Bool × Text))
    (rest : List (Word × Text)) : Except UsageFault Joined :=
  match value with
  | some (afterSign, value) =>
    joined flags rest flag (!(['-', '-'].isPrefixOf name)) afterSign value
  | none => (takeWithNext flag rest).map fun (value, rest) => ⟨[(flag, value)], none, rest⟩

def takeJoined (r : Reader) (j : Joined) : Except Stop Reader :=
  j.taken.foldlM (fun r (flag, value) => r.take flag value)
    { r with extras := r.extras ++ j.extra.toList }

def takePaths (r : Reader) (words : List Text) : Reader :=
  { r with options := { r.options with paths := words.erase ['-', '-'] }, hasPaths := true }

/-- Takes words that are no options: the first row of them are the paths, further ones are not
asked for. -/
def takePlain (r : Reader) (words : List Text) : Reader :=
  if r.hasPaths then { r with extras := r.extras ++ words } else r.takePaths words

/-- Takes the words of a command, options one by one and the words between them row by row. The
fuel is their number. -/
def takeAll : Nat → Reader → List (Word × Text) → Except Stop Reader
  | 0, r, _ => .ok r
  | _, r, [] => .ok r
  | n + 1, r, (word, t) :: rest =>
    match word with
    | .unknownOption => takeAll n { r with extras := r.extras ++ [t] } rest
    | .option flag name value => do
      let j ← (optionsIn Flag.ofCommand flag name value rest).mapError (.fault r.options.command)
      takeAll n (← r.takeJoined j) j.rest
    | .plain | .separator =>
      let row := (word, t) :: rest.takeWhile fun p => !p.1.isOption
      takeAll n (r.takePlain (row.map Prod.snd)) (rest.dropWhile fun p => !p.1.isOption)

def readCommand (command : Purpose) (words : List Text) : Except Stop Reader := do
  let told ← (Word.tellAll Flag.ofCommand words).mapError (.fault (some command))
  takeAll told.length (start (some command)) told

def command? (word : Text) : Option Purpose :=
  [Purpose.tidy, .lint].find? (·.text = word)

def takeGeneral : Reader → List (Word × Text) → Except Stop Reader
  | r, [] => .ok r
  | r, (word, t) :: rest =>
    match word with
    | .unknownOption => takeGeneral { r with extras := r.extras ++ [t] } rest
    | .option flag name value => do
      let j ← (optionsIn Flag.general flag name value []).mapError (.fault none)
      takeGeneral (← r.takeJoined j) rest
    | .separator =>
      if rest = [] then .ok { r with extras := r.extras ++ [t] }
      else .error (.fault none (.unknownCommand t))
    | .plain =>
      match command? t with
      | none => .error (.fault none (.unknownCommand t))
      | some command => do
        let inner ← readCommand command (rest.map Prod.snd)
        return { inner with
          options := { inner.options with version := r.options.version }
          extras := r.extras ++ inner.extras }

end Reader

def Options.read (words : List Text) : Except Stop Options := do
  let told ← (Word.tellAll Flag.general words).mapError (.fault none)
  let r ← Reader.takeGeneral (.start none) told
  if r.extras ≠ [] then throw (.fault none (.unrecognized r.extras))
  if r.options.command = none ∧ !r.options.version then throw (.fault none .commandMissing)
  return r.options

end PathSelection.CommandLine
