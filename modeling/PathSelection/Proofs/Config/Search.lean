import PathSelection.Git.Basic
import PathSelection.Proofs.Config.Loading
import PathSelection.Proofs.Disk.Follow
import PathSelection.Proofs.Path.Written
import PathSelection.Proofs.Toml.Digits

namespace PathSelection

namespace AbsPath

theorem parent_eq_iff {p : AbsPath} : p.parent = p ↔ p.names = [] := by
  obtain ⟨doubled, names⟩ := p
  simp only [parent, mk.injEq, true_and]
  constructor
  · intro h
    have hlength := congrArg List.length h
    rw [List.length_dropLast] at hlength
    exact List.length_eq_zero_iff.1 (by omega)
  · rintro rfl
    rfl

theorem length_parent_lt {p : AbsPath} (h : p.parent ≠ p) :
    p.parent.names.length < p.names.length := by
  have hpos := List.length_pos_iff.2 (parent_eq_iff.not.1 h)
  rw [parent, List.length_dropLast]
  omega

theorem ofText_name (n : Name) : WrittenPath.ofText n.text = ⟨0, [n.text]⟩ := by
  have hslashes : n.text.leadingSlashes = 0 := by
    have hslash := n.slash_not_mem
    cases hn : n.text with
    | nil => rfl
    | cons c cs =>
      have hc : c ≠ '/' := fun he => hslash (by rw [hn, he]; exact List.mem_cons_self)
      simp [Text.leadingSlashes, hc]
  have hproper : (n.text != [] && n.text != ['.']) = true := by
    simp [n.proper.1, n.proper.2.2.1]
  rw [WrittenPath.ofText, hslashes, List.splitOn_eq_singleton n.slash_not_mem]
  exact congrArg (WrittenPath.mk 0) (List.filter_cons_of_pos hproper)

end AbsPath

namespace Config

open Toml

variable {v : View} {d : AbsPath} {name : Text} {path : Text}

theorem fileAt_name (d : AbsPath) (n : Name) : fileAt d n.text = (d.child n).text := by
  rw [fileAt, AbsPath.ofText_name, ← AbsPath.text_written, WrittenPath.join, if_pos rfl,
    AbsPath.written, AbsPath.written, AbsPath.child, List.map_append]
  rfl

/-- The directories that are searched: those from a directory upwards, up to the first that is the
root of a checkout. Where the disk does not say whether a directory is one, the search does not go
on either. -/
def scope (v : View) (d : AbsPath) : List AbsPath :=
  match isCheckoutRoot v d.written with
  | .ok false => if d.parent = d then [d] else d :: scope v d.parent
  | _ => [d]
termination_by d.names.length
decreasing_by
  rename_i h
  exact AbsPath.length_parent_lt h

def candidatesIn (d : AbsPath) : List (AbsPath × Text) :=
  fileNames.map fun name => (d, name)

/-- The files that a search looks at as long as it finds none. -/
def candidates (v : View) (start : AbsPath) : List (AbsPath × Text) :=
  (scope v start).flatMap candidatesIn

/-- A file is a configuration. A project file has to be one that can be read and has an entry for
this program. -/
structure Hit (v : View) (d : AbsPath) (name : Text) : Prop where
  file : v.isFile (fileAt d name) = .ok true
  project : name = projectName → ∃ t tool, document v (fileAt d name) = .ok t ∧
    t.get? toolKey = some (.table tool) ∧ Table.has tool ownKey = true

/-- It can be found out whether a candidate is a hit: the disk says whether it is a file, and a
project file has no integer that is too long. -/
structure Answerable (v : View) (d : AbsPath) (name : Text) : Prop where
  file : ∃ isFile, v.isFile (fileAt d name) = .ok isFile
  project : name = projectName → ¬HasLongInteger v (fileAt d name)

/-- A search comes to a candidate: none before it is a hit. -/
def Met (v : View) (cs : List (AbsPath × Text)) (c : AbsPath × Text) : Prop :=
  ∃ before after, cs = before ++ c :: after ∧ ∀ b ∈ before, ¬Hit v b.1 b.2

/-- What is found among candidates: the first hit, or nothing if there is none. -/
def FirstHit (v : View) (cs : List (AbsPath × Text)) : Option Text → Prop
  | none => ∀ c ∈ cs, ¬Hit v c.1 c.2
  | some path => ∃ d name, Met v cs (d, name) ∧ Hit v d name ∧ path = fileAt d name

variable {cs cs' : List (AbsPath × Text)} {c c' : AbsPath × Text} {found found' : Option Text}

theorem Met.append_right (h : Met v cs c) (cs' : List (AbsPath × Text)) : Met v (cs ++ cs') c := by
  obtain ⟨before, after, rfl, hbefore⟩ := h
  exact ⟨before, after ++ cs', by rw [List.append_assoc, List.cons_append], hbefore⟩

theorem Met.append_left (h : Met v cs' c) (hcs : FirstHit v cs none) : Met v (cs ++ cs') c := by
  obtain ⟨before, after, rfl, hbefore⟩ := h
  exact ⟨cs ++ before, after, by rw [List.append_assoc], List.forall_mem_append.2 ⟨hcs, hbefore⟩⟩

theorem Met.mem (h : Met v cs c) : c ∈ cs := by
  obtain ⟨before, after, rfl, -⟩ := h
  exact List.mem_append_right before List.mem_cons_self

theorem FirstHit.append_right (h : FirstHit v cs (some path)) (cs' : List (AbsPath × Text)) :
    FirstHit v (cs ++ cs') (some path) := by
  obtain ⟨d, name, hmet, hhit, rfl⟩ := h
  exact ⟨d, name, hmet.append_right cs', hhit, rfl⟩

theorem FirstHit.append_left (h : FirstHit v cs' found) (hcs : FirstHit v cs none) :
    FirstHit v (cs ++ cs') found := by
  cases found with
  | none => exact List.forall_mem_append.2 ⟨hcs, h⟩
  | some path =>
    obtain ⟨d, name, hmet, hhit, rfl⟩ := h
    exact ⟨d, name, hmet.append_left hcs, hhit, rfl⟩

theorem Met.unique (h : Met v cs c) (h' : Met v cs c') (hc : Hit v c.1 c.2)
    (hc' : Hit v c'.1 c'.2) : c = c' := by
  obtain ⟨before, after, rfl, hbefore⟩ := h
  obtain ⟨before', after', hsplit, hbefore'⟩ := h'
  induction before generalizing before' with
  | nil =>
    cases before' with
    | nil => exact (List.cons.inj hsplit).1
    | cons b before' =>
      obtain ⟨rfl, -⟩ := List.cons.inj hsplit
      exact (hbefore' c List.mem_cons_self hc).elim
  | cons b before ih =>
    cases before' with
    | nil =>
      obtain ⟨rfl, -⟩ := List.cons.inj hsplit
      exact (hbefore b List.mem_cons_self hc').elim
    | cons b' before' =>
      obtain ⟨-, hsplit⟩ := List.cons.inj hsplit
      exact ih (List.forall_mem_cons.1 hbefore).2 before' hsplit (List.forall_mem_cons.1 hbefore').2

theorem FirstHit.unique (h : FirstHit v cs found) (h' : FirstHit v cs found') : found = found' := by
  cases found with
  | none =>
    cases found' with
    | none => rfl
    | some path =>
      obtain ⟨d, name, hmet, hhit, -⟩ := h'
      exact (h _ hmet.mem hhit).elim
  | some path =>
    obtain ⟨d, name, hmet, hhit, rfl⟩ := h
    cases found' with
    | none => exact (h' _ hmet.mem hhit).elim
    | some path' =>
      obtain ⟨d', name', hmet', hhit', rfl⟩ := h'
      cases hmet.unique hmet' hhit hhit'
      rfl

section Candidate

variable (hshape : name = projectName → ∀ t, document v (fileAt d name) = .ok t →
  ¬HasOther t toolKey)
include hshape

end Candidate

/-- How the outcome of a search is told by the candidates: what is found is the first hit, and
something or nothing is found exactly if a further condition holds, and of all candidates that are
met it can be found out whether they are hits. -/
structure Tells (v : View) (cs : List (AbsPath × Text)) (further : Prop)
    (r : Except Failure (Option Text)) : Prop where
  first : ∀ found, r = .ok found → FirstHit v cs found
  ends : (∃ found, r = .ok found) ↔ (∀ c, Met v cs c → Answerable v c.1 c.2) ∧ further

theorem met_cons {b : AbsPath × Text} :
    Met v (b :: cs) c ↔ c = b ∨ ¬Hit v b.1 b.2 ∧ Met v cs c := by
  constructor
  · rintro ⟨before, after, h, hbefore⟩
    cases before with
    | nil =>
      cases h
      exact .inl rfl
    | cons b' before =>
      cases h
      obtain ⟨hb, hbefore⟩ := List.forall_mem_cons.1 hbefore
      exact .inr ⟨hb, before, after, rfl, hbefore⟩
  · rintro (rfl | ⟨hb, before, after, rfl, hbefore⟩)
    · exact ⟨[], cs, rfl, List.forall_mem_nil _⟩
    · exact ⟨b :: before, after, rfl, List.forall_mem_cons.2 ⟨hb, hbefore⟩⟩

theorem met_append (hcs : FirstHit v cs none) :
    Met v (cs ++ cs') c ↔ Met v cs c ∨ Met v cs' c := by
  induction cs with
  | nil => exact ⟨.inr, fun h => h.elim (fun h => nomatch h.mem) id⟩
  | cons b cs ih =>
    obtain ⟨hb, hcs⟩ := List.forall_mem_cons.1 hcs
    rw [List.cons_append, met_cons, met_cons, ih hcs, or_assoc]
    simp only [hb, not_false_eq_true, true_and]

theorem met_append_of_hit (hcs : FirstHit v cs (some path)) :
    Met v (cs ++ cs') c ↔ Met v cs c := by
  refine ⟨fun h => ?_, fun h => h.append_right cs'⟩
  obtain ⟨d, name, ⟨before, after, rfl, hbefore⟩, hhit, -⟩ := hcs
  have hmet : Met v (before ++ (d, name) :: (after ++ cs')) c := by
    rwa [List.append_assoc, List.cons_append] at h
  refine (met_append hbefore).2 (((met_append hbefore).1 hmet).imp_right fun h => ?_)
  exact met_cons.2 (.inl ((met_cons.1 h).resolve_right fun h => h.1 hhit))

theorem Tells.congr {further further' : Prop} {r : Except Failure (Option Text)}
    (h : Tells v cs further r) (hf : further ↔ further') : Tells v cs further' r :=
  ⟨h.first, h.ends.trans (and_congr_right fun _ => hf)⟩

theorem Tells.append {further : Prop} {r r' : Except Failure (Option Text)}
    (h : Tells v cs True r) (h' : FirstHit v cs none → Tells v cs' further r') :
    Tells v (cs ++ cs') (FirstHit v cs none → further)
      (r >>= fun found => if found.isSome then .ok found else r') := by
  cases r with
  | error e =>
    refine ⟨nofun, ⟨nofun, fun ⟨hmet, _⟩ => ?_⟩⟩
    obtain ⟨found, hfound⟩ := h.ends.2 ⟨fun c hc => hmet c (hc.append_right cs'), trivial⟩
    cases hfound
  | ok found =>
    have hfirst := h.first found rfl
    obtain ⟨hmet, -⟩ := h.ends.1 ⟨found, rfl⟩
    cases found with
    | some path =>
      refine ⟨fun found hfound => ?_, ⟨fun _ => ⟨fun c hc => ?_, fun hnone => ?_⟩,
        fun _ => ⟨_, rfl⟩⟩⟩
      · cases hfound
        exact hfirst.append_right cs'
      · exact hmet c ((met_append_of_hit hfirst).1 hc)
      · cases hfirst.unique hnone
    | none =>
      have h' := h' hfirst
      refine ⟨fun found hfound => (h'.first found hfound).append_left hfirst, ?_⟩
      refine h'.ends.trans (and_congr ?_ ⟨fun h _ => h, fun h => h hfirst⟩)
      simp only [met_append hfirst, or_imp, forall_and]
      exact ⟨fun h => ⟨hmet, h⟩, And.right⟩

-- A checkout with a configuration, and a directory in it whose project file has none. Above the
-- checkout there is another configuration.
namespace Nested

def checkout : Name := ⟨"c", by decide⟩

def package : Name := ⟨"p", by decide⟩

def hidden : Name := ⟨".tidypaths.toml", by decide⟩

theorem proper_project : projectName ≠ [] ∧ '/' ∉ projectName ∧ projectName ≠ ['.'] ∧
    projectName ≠ ['.', '.'] := by decide

def project : Name := ⟨projectName, proper_project⟩

def view : View where
  disk := ⟨[([Alone.name], .file "".toUTF8), ([checkout], .dir true),
    ([checkout, Git.ownName], .dir true), ([checkout, hidden], .file "".toUTF8),
    ([checkout, package], .dir true),
    ([checkout, package, project], .file "".toUTF8)]⟩
  cwd := .root

def top : AbsPath := ⟨false, [checkout]⟩

def start : AbsPath := ⟨false, [checkout, package]⟩

end Nested

-- A disk with a project file and nothing else.
namespace Lone

def view (content : String) : View := ⟨⟨[([Nested.project], .file content.toUTF8)]⟩, .root⟩

variable {content : String} {n : Nat}

theorem readText_project : (view content).readText (fileAt .root projectName) =
    .ok (Text.unifyNewlines content.toList) := by
  have hfile : (view content).disk.get? [Nested.project] = some (.file content.toUTF8) := rfl
  rw [show projectName = Nested.project.text from rfl, fileAt_name]
  exact View.readText_direct (v := view content) false (by decide) rfl rfl hfile

end Lone

-- A project file with an integer of very many digits, and no configuration anywhere.
namespace Lengthy

def content (n : Nat) : String := String.ofList ('x' :: '=' :: List.replicate (n + 5) '1')

def view (n : Nat) : View := Lone.view (content n)

variable {n : Nat}

end Lengthy

end Config
end PathSelection
