import PathSelection.Rule.Basic

namespace PathSelection

inductive Hit where
  /-- The rule names the path itself. -/
  | direct
  /-- The rule names a directory, and so what lies beneath it. -/
  | throughDirectory
deriving DecidableEq, Repr

def isInline (c : Char) : Bool := c != '\n'

def afterSlash {α : Type} (rest : Text → Option α) : Text → Option α
  | '/' :: cs => rest cs
  | _ => none

namespace Rule

/-- What may follow the last name: a slash, and then anything, or the end of the path, where a
last line feed does not count. -/
def ending : Text → Option Hit
  | '/' :: _ => some .throughDirectory
  | [] | ['\n'] => some .direct
  | _ => none

def beneath (dirOnly : Bool) : Hit := if dirOnly then .throughDirectory else .direct

def following (dirOnly : Bool) : List Segment → Text → Option Hit
  | [], t => ending t
  | [.anyDepth], t => afterSlash (fun _ => some (beneath dirOnly)) t
  | .anyDepth :: rest, t =>
    afterSlash (Token.longestFirstSome isInline (following dirOnly rest)) t
      <|> following dirOnly rest t
  | .anyName :: rest, t =>
    afterSlash (Token.longestFirstSome (· != '/') (following dirOnly rest)) t
  | .glob ts :: rest, t => afterSlash (Token.run ts (following dirOnly rest)) t

def anchored (dirOnly : Bool) : List Segment → Text → Option Hit
  | .anyName :: rest, t => Token.longestFirstSome (· != '/') (following dirOnly rest) t
  | .glob ts :: rest, t => Token.run ts (following dirOnly rest) t
  | segments, t => following dirOnly segments t

/-- Matches segments from the start of a path, or from after any of its slashes, the last first. -/
def floating (dirOnly : Bool) (segments : List Segment) (t : Text) : Option Hit :=
  Token.longestFirstSome isInline (afterSlash (anchored dirOnly segments)) t
    <|> anchored dirOnly segments t

/-- How a rule meets a path, if it does. A rule of stars alone is met anywhere in the path. -/
def search (r : Rule) (t : Text) : Option Hit :=
  match r.segments with
  | [.anyDepth] =>
    if r.dirOnly then (if '/' ∈ t then some .throughDirectory else none)
    else if t.any isInline then some .direct else none
  | [.anyDepth, .anyName] => if t.any isInline then some .direct else none
  | [.anyDepth, .anyName, .anyDepth] => if '/' ∈ t then some (beneath r.dirOnly) else none
  | .anyDepth :: rest => floating r.dirOnly rest t
  | segments => anchored r.dirOnly segments t

/-- A path is searched without a leading slash, or else without a leading `./`. -/
def searched : Text → Text
  | '/' :: t => t
  | '.' :: '/' :: t => t
  | t => t

/-- Whether a list of rules ignores a path. The last rule that names the path itself decides, and
if there is none, the last rule that names a directory above it. -/
def ignores (rules : List Rule) (path : Text) : Bool :=
  let hits := rules.reverse.filterMap fun r => (r.search (searched path)).map fun h => (h, r)
  match hits.find? (·.1 == .direct) <|> hits.head? with
  | none => false
  | some (_, r) => !r.reincludes

end Rule
end PathSelection
