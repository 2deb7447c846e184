import PathSelection.Rule.CharClass

namespace PathSelection

inductive Token where
  | literal (c : Char)
  | anyOne
  /-- Any run of characters without a slash, the empty one included. -/
  | anyRun
  | oneOf (k : CharClass)
deriving DecidableEq, Repr

inductive GlobFault where
  | danglingEscape
  | unclosedClass
deriving DecidableEq, Repr

namespace Token

def ofSegment (t : Text) : Except GlobFault (List Token) :=
  match t with
  | [] => .ok []
  | ['\\'] => .error .danglingEscape
  | '\\' :: c :: cs => return .literal c :: (← ofSegment cs)
  | '*' :: cs => return .anyRun :: (← ofSegment cs)
  | '?' :: cs => return .anyOne :: (← ofSegment cs)
  | '[' :: cs =>
    match h : CharClass.read cs with
    | none => .error .unclosedClass
    | some (k, rest) =>
      have := CharClass.read_length h
      return .oneOf k :: (← ofSegment rest)
  | c :: cs => return .literal c :: (← ofSegment cs)
termination_by t.length

/-- Takes characters while the test holds, as many as possible first, until the rest matches. -/
def longestFirst {α : Type} (test : Char → Bool) (rest : Text → Option α) : Text → Option α
  | [] => rest []
  | c :: cs => (if test c then longestFirst test rest cs else none) <|> rest (c :: cs)

def longestFirstSome {α : Type} (test : Char → Bool) (rest : Text → Option α) : Text → Option α
  | [] => none
  | c :: cs => if test c then longestFirst test rest cs else none

def single {α : Type} (test : Char → Bool) (rest : Text → Option α) : Text → Option α
  | [] => none
  | c :: cs => if test c then rest cs else none

/-- Matches the tokens at the start of a text, and the rest after them. Runs are tried from the
longest down, so the first way found is the one with the longest first run, then the longest second
run, and so on. -/
def run {α : Type} : List Token → (Text → Option α) → Text → Option α
  | [], rest => rest
  | .literal c :: ts, rest => single (· == c) (run ts rest)
  | .anyOne :: ts, rest => single (· != '/') (run ts rest)
  | .anyRun :: ts, rest => longestFirst (· != '/') (run ts rest)
  | .oneOf k :: ts, rest => single k.holds (run ts rest)

end Token
end PathSelection
