import PathSelection.Config.Problem

namespace PathSelection

structure Config where
  /-- Patterns that take the place of the default ones. -/
  excluded : Option (List Text)
  /-- Patterns that come on top. -/
  furtherExcluded : List Text
  ignoreFiles : List Text
  checks : List Check
  path : Option AbsPath
deriving DecidableEq

namespace Config

def checkoutMarks : List Text := [".git", ".hg", ".svn"]

def defaultExcluded : List Text := checkoutMarks.map (· ++ ['/'])

def standard : Config := ⟨none, [], [], [], none⟩

def allExcluded (c : Config) : List Text := c.excluded.getD defaultExcluded ++ c.furtherExcluded

/-- The directory that patterns are relative to: that of the file, or the working directory. -/
def root (c : Config) (cwd : AbsPath) : AbsPath :=
  match c.path with
  | some p => p.parent
  | none => cwd

def check? (c : Config) (name : Text) : Option Check := c.checks.find? (·.name = name)

end Config
end PathSelection
