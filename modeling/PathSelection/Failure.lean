import PathSelection.Config.Problem
import PathSelection.Disk.View
import PathSelection.Pattern.Basic

namespace PathSelection

inductive IgnoreFault where
  | unreadable (error : View.TextError)
  | rule (fault : RuleFault)
deriving DecidableEq, Repr

def IgnoreFault.message : IgnoreFault → Text
  | .unreadable error => error.message
  | .rule fault => fault.message

inductive Failure where
  /-- Explicit paths were given together with a mode that finds its own. -/
  | conflictingSources
  | pathNotFound (path : Text)
  | pattern (pattern : Text) (fault : PatternFault)
  | ignoreFile (path : Text) (fault : IgnoreFault)
  /-- A git command did not succeed, or its output could not be used. -/
  | git (command : List Text) (stderr : Text)
  /-- Stashed changes could not be put back; they are left in the patch file. -/
  | stashRestore (patchFile reason : Text)
  | walk (path : Text) (error : DiskError)
  | config (path : Text) (problems : List Config.Problem)
  | noPaths
  | unknownCheck (name : Text)
  /-- The `tool` entry of a project file, or what it holds for this program, is no table. -/
  | toolNotTable
  /-- The `tool` entry of a project file cannot hold anything. -/
  | toolNotSearchable
  | integerTooLong
  | nullInPath
  /-- What a path names could not be found out. -/
  | inaccessible (error : DiskError)
  /-- The path of the directory to search from leads over links without end. -/
  | linkLoop
deriving DecidableEq, Repr

namespace Failure

def conflictingSourcesText : Text :=
  "You cannot provide paths on the command line along with the --all, --git, or --staged flags"

def pathNotFoundText (path : Text) : Text := "Path not found: " ++ path

def patternText (pattern reason : Text) : Text :=
  "Invalid pattern " ++ pattern.quoted ++ ": " ++ reason

def ignoreFileText (path reason : Text) : Text :=
  "Could not load ignore file " ++ path ++ ": " ++ reason

def gitText (command : List Text) (stderr : Text) : Text :=
  "git command failed: " ++ [' '].intercalate command
    ++ (if stderr.isBlank then [] else '\n' :: stderr.strip)

def stashRestoreText (patchFile reason : Text) : Text :=
  "Could not restore unstaged changes: " ++ reason ++ "\nThey are saved in " ++ patchFile
    ++ "; restore them with `git apply " ++ patchFile ++ "`"

def walkText (path reason : Text) : Text :=
  "Could not read directory " ++ path ++ ": " ++ reason

def configText (path : Text) : List Text → Text
  | [message] => "Invalid configuration file at " ++ path ++ ": " ++ message
  | messages =>
    "There were " ++ Text.ofNat messages.length ++ " errors in the configuration file at " ++ path
      ++ ":\n" ++ ['\n'].intercalate (messages.map fun m => "  - " ++ m)

def noPathsText : Text :=
  "No paths specified. Provide files or directories, or use --all, --git or --staged."
    ++ " Use --help for more options."

def unknownCheckText (name : Text) : Text :=
  "No check named " ++ name.quoted ++ " in the config file"

/-- How a failure is put in words. The last six have no words of their own: they are not foreseen,
and end the program. -/
def message : Failure → Text
  | .conflictingSources => conflictingSourcesText
  | .pathNotFound path => pathNotFoundText path
  | .pattern p fault => patternText p fault.message
  | .ignoreFile path fault => ignoreFileText path fault.message
  | .git command stderr => gitText command stderr
  | .stashRestore patchFile reason => stashRestoreText patchFile reason
  | .walk path error => walkText path error.message
  | .config path problems => configText path (problems.map Config.Problem.message)
  | .noPaths => noPathsText
  | .unknownCheck name => unknownCheckText name
  | .toolNotTable | .toolNotSearchable | .integerTooLong | .nullInPath | .inaccessible _
  | .linkLoop => []

def isReported : Failure → Bool
  | .toolNotTable | .toolNotSearchable | .integerTooLong | .nullInPath | .inaccessible _
  | .linkLoop => false
  | _ => true

end Failure

/-- The plain patterns that a pattern with braces stands for. The failure of a part names the whole
pattern. -/
def Pattern.expand (pattern : Text) : Except Failure (List Text) :=
  (Braces.expand pattern).mapError fun fault => .pattern pattern (.braces fault)

end PathSelection
