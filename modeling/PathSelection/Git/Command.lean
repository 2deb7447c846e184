import PathSelection.Text.Basic

namespace PathSelection

namespace Git

inductive Comparison where
  | headToFiles
  | headToIndex
  | indexToFiles
deriving DecidableEq, Repr

/-- Files that the newer state lacks are left out. -/
def Comparison.words : Comparison → List Text
  | .headToFiles => ["diff", "--name-only", "-z", "--diff-filter=d", "HEAD"]
  | .headToIndex => ["diff", "--cached", "--name-only", "-z", "--diff-filter=d"]
  | .indexToFiles => ["diff", "--name-only", "-z", "--diff-filter=d"]

inductive Command where
  | topLevel
  | head
  | changed (comparison : Comparison)
  | untracked
  /-- Brings what is known about unchanged files up to date. -/
  | refresh
  | diff
  /-- Gives the tracked files their content in the index. -/
  | checkout
  | apply (patchFile : Text)
  | other (words : List Text)
deriving DecidableEq, Repr

namespace Command

def words : Command → List Text
  | .topLevel => ["rev-parse", "--show-toplevel"]
  | .head => ["rev-parse", "--verify", "--quiet", "HEAD"]
  | .changed comparison => comparison.words
  | .untracked => ["ls-files", "--others", "--exclude-standard", "-z"]
  | .refresh => ["update-index", "-q", "--refresh"]
  | .diff =>
    ["diff-files", "--binary", "--no-color", "--no-ext-diff", "--ignore-submodules",
      "--src-prefix=a/", "--dst-prefix=b/"]
  | .checkout => ["checkout", "--", "."]
  | .apply patchFile => ["apply", "--whitespace=nowarn", patchFile]
  | .other words => words

def line (c : Command) : List Text :=
  "git".toList :: "-c".toList :: "core.quotepath=off".toList :: c.words

def shortLine (c : Command) : List Text := "git".toList :: c.words

end Command

inductive Reply (α : Type) where
  | notStarted (reason : Text)
  | exited (code : Int) (output : α) (errors : Text)

def Reply.succeeds {α : Type} (r : Reply α) (codes : List Int) : Bool :=
  match r with
  | .notStarted _ => false
  | .exited code _ _ => code ∈ codes

end Git
end PathSelection
