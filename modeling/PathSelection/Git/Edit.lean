namespace PathSelection.Git

/-- A line of a file with its end. The last line of a file may have none. -/
abbrev Line := List UInt8

def linesOf : List UInt8 → List Line
  | [] => []
  | b :: bs =>
    if b = 10 then [b] :: linesOf bs
    else match linesOf bs with
      | [] => [[b]]
      | l :: ls => (b :: l) :: ls

inductive Edit where
  | keep (l : Line)
  | drop (l : Line)
  | add (l : Line)
deriving DecidableEq, Repr

namespace Edit

def before? : Edit → Option Line
  | .keep l | .drop l => some l
  | .add _ => none

def after? : Edit → Option Line
  | .keep l | .add l => some l
  | .drop _ => none

def isKeep : Edit → Bool
  | .keep _ => true
  | _ => false

/-- A script with the number of its changes. -/
abbrev Script := Nat × List Edit

def Script.change (e : Edit) (s : Script) : Script := (s.1 + 1, e :: s.2)

/-- The scripts to every tail of some new lines, when a further old line `a` comes before the old
lines of the scripts in `row`. Of two scripts that are equally short, the one that drops the old
line first is taken. -/
def nextRow (a : Line) : List Line → List Script → List Script
  | [], row => (row.take 1).map (Script.change (.drop a))
  | b :: bs, row =>
    match row, nextRow a bs (row.drop 1) with
    | here :: diagonal :: _, right :: rest =>
      let s :=
        if a = b then (diagonal.1, .keep a :: diagonal.2)
        else if here.1 ≤ right.1 then here.change (.drop a)
        else right.change (.add b)
      s :: right :: rest
    | _, rest => rest

/-- The scripts to every tail of some new lines, the longest tail first. -/
def rows (new : List Line) : List Line → List Script
  | [] => new.foldr (fun b row => (row.take 1).map (Script.change (.add b)) ++ row) [(0, [])]
  | a :: old => nextRow a new (rows new old)

def script (old new : List Line) : List Edit := ((rows new old).head?.map Prod.snd).getD []

end Edit
end PathSelection.Git
