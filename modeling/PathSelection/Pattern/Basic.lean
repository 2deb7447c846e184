import PathSelection.Pattern.Braces
import PathSelection.Rule.Expression
import PathSelection.Rule.Search

namespace PathSelection

inductive PatternFault where
  | braces (fault : Braces.Fault)
  | emptySegment
  | unclosedClass
  | rule (fault : RuleFault)
deriving DecidableEq, Repr

def PatternFault.message : PatternFault → Text
  | .braces fault => fault.message
  | .emptySegment => "empty path segment"
  | .unclosedClass => "unclosed '['"
  | .rule fault => fault.message

namespace Pattern

def checkSegments (t : Text) : Except PatternFault Unit :=
  match t with
  | [] | ['\\'] => .ok ()
  | '\\' :: _ :: cs => checkSegments cs
  | '/' :: '/' :: _ => .error .emptySegment
  | '[' :: cs =>
    match h : CharClass.read cs with
    | none => .error .unclosedClass
    | some (_, rest) =>
      have := CharClass.read_length h
      checkSegments rest
  | _ :: cs => checkSegments cs
termination_by t.length

def compile (pattern : Text) : Except PatternFault (List Rule) := do
  let alternatives ← (Braces.expand pattern).mapError .braces
  alternatives.forM checkSegments
  (Rule.ofLines alternatives).mapError .rule

def candidate (path : Text) (isDir : Bool) : Text :=
  if isDir && path.getLast? != some '/' then path ++ ['/'] else path

def isMatch (pattern path : Text) (isDir : Bool) : Except PatternFault Bool := do
  return Rule.ignores (← compile pattern) (candidate path isDir)

end Pattern
end PathSelection
