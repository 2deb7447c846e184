import PathSelection.Config.File
import PathSelection.Proofs.Disk.Follow
import PathSelection.Proofs.Failure

namespace PathSelection.Config

open Toml

variable {v : View} {path : Text} {e : Failure} {d : AbsPath}

/-- A value stands where there has to be a table. -/
def HasOther (t : Table) (key : Text) : Prop :=
  ∃ value, t.get? key = some value ∧ value.table? = none

theorem innerTable_error {t : Table} {key : Text} :
    innerTable t key = .error e ↔ e = .toolNotTable ∧ HasOther t key := by
  unfold innerTable HasOther
  cases t.get? key with
  | none => simp
  | some value => cases value <;> simp [Value.table?, eq_comm]

theorem innerTable_ok {t inner : Table} {key : Text} :
    innerTable t key = .ok inner ↔
      t.get? key = none ∧ inner = [] ∨ t.get? key = some (.table inner) := by
  unfold innerTable
  cases t.get? key with
  | none => simp [eq_comm]
  | some value => cases value <;> simp

/-- The `tool` entry of a document, or what it has for this program, is no table. -/
def ToolNotTable (t : Table) : Prop :=
  HasOther t toolKey ∨ ∃ tool, t.get? toolKey = some (.table tool) ∧ HasOther tool ownKey

theorem toolTable_error {t : Table} :
    (innerTable t toolKey >>= (innerTable · ownKey)) = .error e ↔
      e = .toolNotTable ∧ ToolNotTable t := by
  constructor
  · intro h
    rcases error_of_bind h with h | ⟨tool, htool, h⟩
    · obtain ⟨rfl, hother⟩ := innerTable_error.1 h
      exact ⟨rfl, .inl hother⟩
    · obtain ⟨rfl, hother⟩ := innerTable_error.1 h
      rcases innerTable_ok.1 htool with ⟨-, rfl⟩ | htool
      · obtain ⟨value, hvalue, -⟩ := hother
        cases hvalue
      · exact ⟨rfl, .inr ⟨tool, htool, hother⟩⟩
  · rintro ⟨rfl, hother | ⟨tool, htool, hother⟩⟩
    · rw [innerTable_error.2 ⟨rfl, hother⟩]
      rfl
    · rw [innerTable_ok.2 (.inr htool)]
      exact innerTable_error.2 ⟨rfl, hother⟩

/-- A path is that of a project file whose `tool` entry cannot be looked into for a configuration.
-/
def Misshapen (v : View) (path : Text) : Prop :=
  (v.absolute path).names.getLast?.map Name.text = some projectName ∧
    ∃ t, document v (v.absolute path).text = .ok t ∧ ToolNotTable t

theorem load_eq (v : View) (path : Text) : load v path =
    tableIn v (v.absolute path) >>= fun t =>
      accepted (v.absolute path) (read (v.absolute path) t) :=
  rfl

theorem load_ok {c : Config} : load v path = .ok c ↔ ∃ t, tableIn v (v.absolute path) = .ok t ∧
    (read (v.absolute path) t).problems = [] ∧ (read (v.absolute path) t).value = c := by
  constructor
  · intro h
    obtain ⟨t, ht, h⟩ := ok_of_bind h
    unfold accepted at h
    split at h
    · next hproblems => exact ⟨t, ht, hproblems, Except.ok.inj h⟩
    · cases h
  · rintro ⟨t, ht, hproblems, rfl⟩
    rw [load_eq, ht]
    exact if_pos hproblems

/-- An integer in a file has more digits than are read, and nothing before it is wrong. -/
def HasLongInteger (v : View) (path : Text) : Prop :=
  ∃ content, v.readText path = .ok content ∧ Toml.read content = .error .integerTooLong

theorem document_ok {t : Table} :
    document v path = .ok t ↔
      ∃ content, v.readText path = .ok content ∧ Toml.read content = .ok t := by
  unfold document
  split
  · next h => simp [h]
  · next h => simp [h]
  · next content h =>
    simp only [h, Except.ok.injEq, exists_eq_left']
    split <;> simp [*]

theorem document_null : document v path = .error .nullInPath ↔ '\x00' ∈ path := by
  rw [← View.readText_null (v := v)]
  unfold document
  split
  · next h => simp [h]
  · next h => simp [h]
  · next content h =>
    rw [h]
    split <;> simp

theorem document_long : document v path = .error .integerTooLong ↔ HasLongInteger v path := by
  unfold document HasLongInteger
  split
  · next h => simp [h]
  · next h => simp [h]
  · next content h =>
    simp only [h, Except.ok.injEq, exists_eq_left']
    split <;> simp [*]

theorem document_error (h : document v path = .error e) :
    (∃ p, e = .config path [p]) ∨ e = .nullInPath ∨ e = .integerTooLong := by
  unfold document at h
  split at h
  · cases h
    exact .inr (.inl rfl)
  · cases h
    exact .inl ⟨_, rfl⟩
  · split at h
    · cases h
    · cases h
      exact .inl ⟨_, rfl⟩
    · cases h
      exact .inr (.inr rfl)

/-- In which ways the loading of a configuration fails other than with the problems of a file. -/
inductive LoadFails (v : View) (path : Text) : Failure → Prop
  | nullInPath (h : '\x00' ∈ (v.absolute path).text) : LoadFails v path .nullInPath
  | longInteger (h : HasLongInteger v (v.absolute path).text) : LoadFails v path .integerTooLong
  | misshapen (h : Misshapen v path) : LoadFails v path .toolNotTable

theorem LoadFails.isReported (h : LoadFails v path e) : e.isReported = false := by
  cases h <;> rfl

theorem load_error (h : load v path = .error e) :
    (∃ problems, problems ≠ [] ∧ e = .config (v.absolute path).text problems) ∨
      LoadFails v path e := by
  rcases error_of_bind h with h | ⟨t, -, h⟩
  · rcases error_of_bind h with h | ⟨t, ht, h⟩
    · rcases document_error h with ⟨p, rfl⟩ | rfl | rfl
      · exact .inl ⟨[p], List.cons_ne_nil p [], rfl⟩
      · exact .inr (.nullInPath (document_null.1 h))
      · exact .inr (.longInteger (document_long.1 h))
    · split at h
      · next hname =>
        obtain ⟨rfl, hshape⟩ := toolTable_error.1 h
        exact .inr (.misshapen ⟨hname, t, ht, hshape⟩)
      · cases h
  · unfold accepted at h
    split at h
    · cases h
    · next hproblems =>
      cases h
      exact .inl ⟨_, hproblems, rfl⟩

theorem load_of_table_error (h : tableIn v (v.absolute path) = .error e) :
    load v path = .error e := by
  rw [load_eq, h]
  rfl

theorem tableIn_of_document_error {file : AbsPath} (h : document v file.text = .error e) :
    tableIn v file = .error e := by
  rw [tableIn, h]
  rfl

theorem LoadFails.load (h : LoadFails v path e) : load v path = .error e := by
  apply load_of_table_error
  cases h with
  | nullInPath h => exact tableIn_of_document_error (document_null.2 h)
  | longInteger h => exact tableIn_of_document_error (document_long.2 h)
  | misshapen h =>
    obtain ⟨hname, t, ht, hshape⟩ := h
    rw [tableIn, ht]
    change (if _ then _ else _) = _
    rw [if_pos hname]
    exact toolTable_error.2 ⟨rfl, hshape⟩

theorem tableIn_of_document {file : AbsPath} {t : Table}
    (hname : file.names.getLast?.map Name.text ≠ some projectName)
    (ht : document v file.text = .ok t) : tableIn v file = .ok t := by
  rw [tableIn, ht]
  change (if _ then _ else _) = _
  rw [if_neg hname]
  rfl

/-- The `tool` entry of a document is a number, a boolean, a date or a time. -/
def ToolNotSearchable (t : Table) : Prop :=
  ∃ value, t.get? toolKey = some value ∧ value.isClosed = false ∧ value.string? = none

/-- In which ways a project file makes a search fail. -/
inductive ProjectFails (v : View) (path : Text) : Failure → Prop
  | longInteger (h : HasLongInteger v path) : ProjectFails v path .integerTooLong
  | unsearchable {t : Table} (ht : document v path = .ok t) (h : ToolNotSearchable t) :
      ProjectFails v path .toolNotSearchable

section Search

variable {name : Text}

/-- A search in a directory passes a name: there is no file, or one that does not count. -/
def Passes (v : View) (d : AbsPath) (name : Text) : Prop :=
  counts v name (fileAt d name) = .ok false

/-- Where in a directory a search fails, and how: the disk does not say whether there is a file, the
project file makes it fail, or the disk does not say whether there is the mark of a checkout. -/
inductive Stuck (v : View) (d : AbsPath) : Failure → Prop
  | file {error : DiskError}
      (h : Until (Passes v d) (fun name => v.isFile (fileAt d name) = .error error) fileNames) :
      Stuck v d (.inaccessible error)
  | project {e : Failure} (hown : ∀ name ∈ ownNames, v.isFile (fileAt d name) = .ok false)
      (hfile : v.isFile (fileAt d projectName) = .ok true)
      (h : ProjectFails v (fileAt d projectName) e) : Stuck v d e
  | mark {error : DiskError} (hnone : ∀ name ∈ fileNames, Passes v d name)
      (h : Until (fun mark => v.exists? (d.written.join (WrittenPath.ofText mark)).text = .ok false)
        (fun mark => v.exists? (d.written.join (WrittenPath.ofText mark)).text = .error error)
        checkoutMarks) : Stuck v d (.inaccessible error)

/-- A search goes on past a directory: there is no configuration, and it is not the root of a
checkout. -/
def GoesOn (v : View) (d : AbsPath) : Prop :=
  fileIn v d = .ok none ∧ isCheckoutRoot v d.written = .ok false

/-- In which ways a search fails: it cannot begin, or comes to a directory that it fails in. -/
inductive SearchFails (v : View) (start : Text) : Failure → Prop
  | nullInPath (h : '\x00' ∈ start) : SearchFails v start .nullInPath
  | linkLoop (hnull : '\x00' ∉ start) (h : v.isLoop (v.resolved start).text = true) :
      SearchFails v start .linkLoop
  | stuck {e : Failure} (hnull : '\x00' ∉ start) (hloop : v.isLoop (v.resolved start).text = false)
      (h : Until (GoesOn v) (Stuck v · e) (v.resolved start).upwards) : SearchFails v start e

theorem SearchFails.isReported {start : Text} (h : SearchFails v start e) :
    e.isReported = false := by
  cases h with
  | nullInPath _ => rfl
  | linkLoop _ _ => rfl
  | stuck _ _ h =>
    obtain ⟨before, d, after, -, -, hstuck⟩ := h
    cases hstuck with
    | file _ => rfl
    | project _ _ h => cases h <;> rfl
    | mark _ _ => rfl

end Search

-- A disk with one file, the configuration of the working directory.
namespace Alone

theorem proper_name : let text : Text := "tidypaths.toml"
    text ≠ [] ∧ '/' ∉ text ∧ text ≠ ['.'] ∧ text ≠ ['.', '.'] := by decide

def name : Name := ⟨"tidypaths.toml", proper_name⟩

def file : AbsPath := ⟨false, [name]⟩

def view (content : String) : View := ⟨⟨[([name], .file content.toUTF8)]⟩, .root⟩

variable {content : String}

theorem absolute_view : (view content).absolute "tidypaths.toml" = file := by
  have hroot : AbsPath.ofText .root "tidypaths.toml" = file := by decide +kernel
  exact hroot

theorem tableIn_view {t : Table} (h : Toml.read (Text.unifyNewlines content.toList) = .ok t) :
    tableIn (view content) file = .ok t := by
  have hfile : (view content).disk.get? [name] = some (.file content.toUTF8) := rfl
  have htext := View.readText_direct (v := view content) false (by decide) rfl rfl hfile
  exact tableIn_of_document (by decide +kernel) (document_ok.2 ⟨_, htext, h⟩)

theorem load_view {r : Except Failure Config}
    (h : (Toml.read (Text.unifyNewlines content.toList)).toOption.map
      (fun t => accepted file (read file t)) = some r) :
    load (view content) "tidypaths.toml" = r := by
  obtain ⟨t, ht, rfl⟩ := Option.map_eq_some_iff.1 h
  rw [load_eq, absolute_view, tableIn_view (ok_of_toOption ht)]
  rfl

end Alone

end PathSelection.Config
