import PathSelection.Git.Command
import PathSelection.Text.Quoted
import PathSelection.Walk.Basic

namespace PathSelection

inductive Level where
  | debug
  | info
  | warning
  | error
deriving DecidableEq, Repr

namespace Level

def rank : Level → Nat
  | .debug => 0
  | .info => 1
  | .warning => 2
  | .error => 3

def text : Level → Text
  | .debug => "DEBUG"
  | .info => "INFO"
  | .warning => "WARNING"
  | .error => "ERROR"

end Level

inductive Event where
  | ran (command : Git.Command) (directory : Text) (succeeded : Bool)
  | patchWritten (file : Nat)
  | patchRemoved (file : Nat)
  | nothingToStash
  | stashed (patchFile : Text)
  /-- Changes made since the stash stand in the way of the stashed ones. -/
  | conflicted
  | restored
  | usingPaths (paths : List Text)
  | usingDirectory (directory : Text)
  | usingModified
  | usingStaged
  | walked (event : Walk.Event)
  | selected (count : Nat)
  | noConfig
  | loadingConfig (path : AbsPath)
  | foundCheck (isServer : Bool) (name : Text)
  | printed (line : Text)
deriving DecidableEq

def Walk.Event.line? : Walk.Event → Option (Level × Text)
  | .skipped directory => some (.debug, "Skipping excluded directory " ++ directory.text)
  | .revisited directory real =>
    some (.debug, "Skipping already visited directory " ++ directory.text ++ " ("
      ++ (AbsPath.mk false real).text ++ ")")
  | .pruned directory => some (.debug, "Pruning " ++ directory.text)
  | .listed _ | .file _ => none

namespace Event

def line? : Event → Option (Level × Text)
  | .ran command _ _ => some (.debug, "Running " ++ [' '].intercalate command.line)
  | .nothingToStash => some (.debug, "No unstaged changes, nothing to stash")
  | .stashed patchFile => some (.info, "Stashed unstaged changes to " ++ patchFile)
  | .conflicted =>
    some (.warning,
      "Stashed changes conflicted with changes made by checks; discarding the latter")
  | .restored => some (.info, "Restored unstaged changes")
  | .usingPaths paths =>
    some (.debug, "Using explicit list of starting paths: ["
      ++ [',', ' '].intercalate (paths.map Text.quoted) ++ "]")
  | .usingDirectory directory => some (.info, "Using " ++ directory ++ " as starting path")
  | .usingModified => some (.info, "Using git modified paths as starting paths")
  | .usingStaged => some (.info, "Using git staged paths as starting paths")
  | .walked event => event.line?
  | .selected count => some (.info, "Found " ++ Text.ofNat count ++ " base paths")
  | .noConfig => some (.info, "No config file found, using defaults")
  | .loadingConfig path => some (.info, "Loading config from " ++ path.text)
  | .foundCheck isServer name =>
    some (.debug, (if isServer then "Found server " else "Found command ") ++ name)
  | .patchWritten _ | .patchRemoved _ | .printed _ => none

def printed? : Event → Option Text
  | .printed line => some line
  | _ => none

end Event
end PathSelection
