import PathSelection.Text.Blank
import PathSelection.Text.Quoted

namespace PathSelection

inductive Purpose where
  | tidy
  | lint
  | both
deriving DecidableEq, Repr

namespace Purpose

def text : Purpose → Text
  | .tidy => "tidy"
  | .lint => "lint"
  | .both => "both"

def all : List Purpose := [.tidy, .lint, .both]

def ofText? (t : Text) : Option Purpose :=
  all.find? fun p => p.text = t.strip.map Char.toLower

def unknownText (t : Text) : Text :=
  t.quoted ++ " is not a valid check type (expected one of "
    ++ [',', ' '].intercalate (all.map fun p => p.text.quoted) ++ ")"

end Purpose

/-- A named check. A server is a check that is reached on a port. -/
structure Check where
  name : Text
  purpose : Purpose
  command : List Text
  included : List Text
  excluded : List Text
  ignoreFiles : List Text
  arguments : List Text
  onDirectories : Bool
  /-- The option that goes before a path. -/
  pathFlag : Text
  okExitCodes : List Int
  port : Option Int
deriving DecidableEq, Repr

namespace Check

def isServer (c : Check) : Bool := c.port.isSome

def runsFor (c : Check) (action : Purpose) : Bool := c.purpose = .both || c.purpose = action

end Check
end PathSelection
