import PathSelection.Git.Edit
import PathSelection.Text.Blank

namespace PathSelection.Git

/-- A piece of a change to a file, with three lines of context on either side. -/
structure Hunk where
  position : Nat
  before : List Line
  after : List Line
  /-- A hunk from the beginning of a file fits nowhere else. -/
  atStart : Bool
  /-- A hunk without context after it fits only at the end of a file. -/
  atEnd : Bool
deriving DecidableEq, Repr

namespace Hunk

def context : Nat := 3

def changes (script : List Edit) : List Nat :=
  (List.range script.length).filter fun i => !(script[i]?.any Edit.isKeep)

/-- Changes that are close enough to share a hunk, as intervals. -/
def clusters : List Nat → List (Nat × Nat)
  | [] => []
  | i :: is =>
    match clusters is with
    | [] => [(i, i)]
    | (first, last) :: rest =>
      if first ≤ i + 2 * context + 1 then (i, last) :: rest else (i, i) :: (first, last) :: rest

def ofCluster (script : List Edit) (interval : Nat × Nat) : Hunk :=
  let skipped := script.take (interval.1 - context)
  let edits := (script.take (interval.2 + context + 1)).drop (interval.1 - context)
  { position := (skipped.filterMap Edit.after?).length
    before := edits.filterMap Edit.before?
    after := edits.filterMap Edit.after?
    atStart := (skipped.filterMap Edit.before?).isEmpty
    atEnd := !(edits.getLast?.any Edit.isKeep) }

def ofChange (old new : List Line) : List Hunk :=
  let script := Edit.script old new
  (clusters (changes script)).map (ofCluster script)

/-- Whether a file has some lines. A last line without an end is there too if only white space
follows it on its line. -/
def holds : List Line → List Line → Bool
  | [], _ => true
  | [l], m :: _ => l.isPrefixOf m && (m.drop l.length).all isBlankByte
  | l :: ls, m :: ms => l == m && holds ls ms
  | _ :: _, [] => false

/-- Whether a hunk fits a file after some lines. Lines that another hunk brought are marked, and are
no place for a further one. -/
def fits (h : Hunk) (file : List (Line × Bool)) (skipped : Nat) : Bool :=
  let there := (file.drop skipped).take h.before.length
  holds h.before (there.map Prod.fst) && there.all (!·.2) && (!h.atStart || skipped == 0)
    && (!h.atEnd || (file.drop skipped).map Prod.fst == h.before)

/-- Where a hunk is looked for: where it is expected, and from there outwards, later first. -/
def candidates (h : Hunk) (length : Nat) : List Nat :=
  let expected :=
    if h.atStart then 0
    else if h.atEnd then (if h.before.length ≤ length then length - h.before.length else length)
    else min h.position length
  expected :: (List.range length).flatMap fun k =>
    (if expected + k + 1 ≤ length then [expected + k + 1] else [])
      ++ if k + 1 ≤ expected then [expected - (k + 1)] else []

def applyTo (h : Hunk) (file : List (Line × Bool)) : Option (List (Line × Bool)) :=
  ((h.candidates file.length).find? (h.fits file)).map fun skipped =>
    file.take skipped ++ h.after.map (·, true) ++ file.drop (skipped + h.before.length)

def applyAll (hs : List Hunk) (file : List Line) : Option (List Line) :=
  (hs.foldlM (fun file (h : Hunk) => h.applyTo file) (file.map (·, false))).map (·.map Prod.fst)

end Hunk
end PathSelection.Git
