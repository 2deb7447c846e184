import PathSelection.Proofs.Config.Names
import PathSelection.Proofs.Config.Spellings

namespace PathSelection.Config

open Toml

theorem Reading.problems_each {α β : Type} (f : α → Reading β) (as : List α) :
    (each f as).problems = as.flatMap fun a => (f a).problems := by
  induction as with
  | nil => rfl
  | cons a as ih =>
    rw [List.flatMap_cons, ← ih, each, problems_bind, problems_bind, problems_pure, List.append_nil]

variable {t : Table} {part : Section} {directory path : AbsPath}

def entryProblems (part : Section) (e : Text × Value) : List Problem :=
  (readEntry part .root e).problems

theorem problems_readEntry (part : Section) (directory : AbsPath) (e : Text × Value) :
    (readEntry part directory e).problems = entryProblems part e := by
  unfold entryProblems readEntry
  cases e.2 <;> rfl

/-- The problems of a document that do not belong to its commands and servers. -/
def globalProblems (t : Table) : List Problem := (readGlobals .root (unified t)).problems

theorem problems_readGlobals (path : AbsPath) (t : Table) :
    (readGlobals path (unified t)).problems = globalProblems t := by
  simp only [globalProblems, readGlobals, Reading.problems_bind]
  split <;> rfl

/-- The problems of the commands, or the servers, of a document: a block for each entry. -/
def sectionProblems (t : Table) (part : Section) : List Problem :=
  match t.get? part.key with
  | none => []
  | some (.table checks) => checks.flatMap (entryProblems part)
  | some _ => [.sectionNotTable part]

def entries (t : Table) (part : Section) : Table :=
  match t.get? part.key with
  | some (.table checks) => checks
  | _ => []

theorem unifiedKey_eq_iff {k key : Text} (hyphen : '-' ∉ key) (underscore : '_' ∉ key) :
    unifiedKey k = key ↔ k = key := by
  have hself {k : Text} (h : '-' ∉ k) : unifiedKey k = k := by
    refine (List.map_congr_left fun c hc => if_neg ?_).trans (List.map_id k)
    rintro rfl
    exact h hc
  constructor
  · intro h
    have hk : '-' ∉ k := by
      intro hmem
      have hmap : '_' ∈ unifiedKey k := List.mem_map.2 ⟨'-', hmem, rfl⟩
      exact underscore (h ▸ hmap)
    rw [← hself hk, h]
  · rintro rfl
    exact hself hyphen

theorem unifiedKey_eq_section {k : Text} : unifiedKey k = part.key ↔ k = part.key := by
  cases part <;> exact unifiedKey_eq_iff (by decide) (by decide)

theorem get?_section (h : (t.map Prod.fst).Nodup) (part : Section) :
    (unified t).get? part.key = t.get? part.key := by
  ext v
  rw [get?_unified_iff, Table.get?, Entries.lookup_eq_some h]
  constructor
  · rintro ⟨⟨k, v⟩, hcounts, hk, rfl⟩
    obtain rfl := unifiedKey_eq_section.1 hk
    exact hcounts.mem
  · intro hmem
    obtain ⟨d, hd, hkey⟩ := exists_counts hmem
    have hsection : unifiedKey part.key = part.key := unifiedKey_eq_section.2 rfl
    have hsame : d.1 = part.key := unifiedKey_eq_section.1 (hkey.trans hsection)
    obtain rfl : d = (part.key, v) := List.inj_on_of_nodup_map h hd.mem hmem hsame
    exact ⟨_, hd, hsection, rfl⟩

theorem problems_readSection (h : (t.map Prod.fst).Nodup) (directory : AbsPath) (part : Section) :
    (readSection directory (unified t) part).problems = sectionProblems t part := by
  unfold readSection sectionProblems
  rw [get?_section h]
  cases t.get? part.key with
  | none => rfl
  | some v =>
    cases v with
    | table checks =>
      rw [Reading.problems_bind, Reading.problems_each, Reading.problems_pure, List.append_nil]
      simp only [problems_readEntry]
    | _ => rfl

theorem problems_read (h : (t.map Prod.fst).Nodup) (path : AbsPath) : (read path t).problems =
    globalProblems t ++ sectionProblems t .commands ++ sectionProblems t .servers := by
  simp only [read, Reading.problems_bind, Reading.problems_pure, problems_readGlobals,
    problems_readSection h, List.append_nil, List.append_assoc]

theorem globalProblems_congr {t' : Table}
    (hkeys : (unified t).map Prod.fst = (unified t').map Prod.fst)
    (hvalues : ∀ key ∈ (["exclude", "extend_exclude", "ignore"] : List Text),
      (unified t).get? key = (unified t').get? key) :
    globalProblems t = globalProblems t' := by
  have hunknown : unknownKeys globalKeys (unified t) = unknownKeys globalKeys (unified t') := by
    rw [unknownKeys, unknownKeys, hkeys]
  have hfield (key : Text) (hkey : key ∈ (["exclude", "extend_exclude", "ignore"] : List Text)) :
      field globalOwner (unified t) key .strings = field globalOwner (unified t') key .strings := by
    rw [field, field, hvalues key hkey]
  have hhas (key : Text) : (unified t).has key = (unified t').has key := by
    rw [Bool.eq_iff_iff, Table.has, Table.has, Table.get?, Table.get?, Entries.isSome_lookup,
      Entries.isSome_lookup, hkeys]
  simp only [globalProblems, readGlobals, Reading.problems_bind, hunknown, hhas]
  rw [hfield "exclude" (by decide), hfield "extend_exclude" (by decide),
    hfield "ignore" (by decide)]

def withSection (part : Section) (front back : Table) (v : Value) : Table :=
  front ++ (part.key, v) :: back

section Entry

variable {front back before after : Table} {v v' : Value} {name : Text}

theorem unambiguous_withSection (h : Unambiguous (withSection part front back v)) (v' : Value) :
    Unambiguous (withSection part front back v') := by
  unfold Unambiguous withSection at h ⊢
  rwa [List.map_append, List.map_cons] at h ⊢

theorem get?_withSection (h : Unambiguous (withSection part front back v)) :
    (withSection part front back v).get? part.key = some v :=
  (Entries.lookup_eq_some h.nodup_keys).2 (List.mem_append_right front List.mem_cons_self)

theorem get?_unified_withSection {key : Text} (hkey : key ≠ part.key)
    (h : Unambiguous (withSection part front back v)) (v' : Value) :
    (unified (withSection part front back v)).get? key =
      (unified (withSection part front back v')).get? key := by
  have hhas (v w : Value) : Has (withSection part front back v) key w ↔
      Has front key w ∨ Has back key w := by
    have hself : unifiedKey part.key ≠ key := by
      rw [unifiedKey_eq_section.2 rfl]
      exact hkey.symm
    simp only [Has, withSection, List.mem_append, List.mem_cons, or_and_right, exists_or,
      exists_eq_left, hself, false_and, false_or]
  ext w
  rw [get?_unified h, get?_unified (unambiguous_withSection h v'), hhas, hhas]

theorem globalProblems_withSection (h : Unambiguous (withSection part front back v)) (v' : Value) :
    globalProblems (withSection part front back v) =
      globalProblems (withSection part front back v') := by
  refine globalProblems_congr ?_ fun key hkey => get?_unified_withSection ?_ h v'
  · rw [map_fst_unified h, map_fst_unified (unambiguous_withSection h v')]
    simp only [withSection, List.map_append, List.map_cons]
  · rintro rfl
    cases part <;> exact absurd hkey (by decide)

theorem sectionProblems_other (other : Section) (hother : other ≠ part)
    (h : Unambiguous (withSection part front back v)) (v' : Value) :
    sectionProblems (withSection part front back v) other =
      sectionProblems (withSection part front back v') other := by
  have hkey : other.key ≠ part.key := by
    cases other <;> cases part <;> first | exact absurd rfl hother | decide
  have hget := get?_unified_withSection hkey h v'
  rw [get?_section h.nodup_keys,
    get?_section (unambiguous_withSection h v').nodup_keys] at hget
  rw [sectionProblems, sectionProblems, hget]

/-- A change of one entry changes the block of this entry, and no other problem. -/
theorem problems_of_entry
    (h : Unambiguous (withSection part front back (.table (before ++ (name, v) :: after))))
    (path : AbsPath) : ∃ earlier later, ∀ v',
      (read path (withSection part front back (.table (before ++ (name, v') :: after)))).problems =
        earlier ++ entryProblems part (name, v') ++ later := by
  have hdocument (v' : Value) := unambiguous_withSection h (.table (before ++ (name, v') :: after))
  have hglobal (v' : Value) :=
    globalProblems_withSection h (.table (before ++ (name, v') :: after))
  have hblock (v' : Value) : sectionProblems
      (withSection part front back (.table (before ++ (name, v') :: after))) part =
        before.flatMap (entryProblems part) ++ entryProblems part (name, v') ++
          after.flatMap (entryProblems part) := by
    rw [sectionProblems, get?_withSection (hdocument v')]
    simp only [List.flatMap_append, List.flatMap_cons, List.append_assoc]
  generalize globalProblems (withSection part front back _) = globals at hglobal
  cases part with
  | commands =>
    have hservers (v' : Value) := sectionProblems_other .servers (by decide) h
      (.table (before ++ (name, v') :: after))
    generalize sectionProblems (withSection .commands front back _) .servers = servers at hservers
    refine ⟨globals ++ before.flatMap (entryProblems .commands),
      after.flatMap (entryProblems .commands) ++ servers, fun v' => ?_⟩
    rw [problems_read (hdocument v').nodup_keys, hblock, ← hglobal, ← hservers]
    simp only [List.append_assoc]
  | servers =>
    have hcommands (v' : Value) := sectionProblems_other .commands (by decide) h
      (.table (before ++ (name, v') :: after))
    generalize sectionProblems (withSection .servers front back _) .commands = commands
      at hcommands
    refine ⟨globals ++ commands ++ before.flatMap (entryProblems .servers),
      after.flatMap (entryProblems .servers), fun v' => ?_⟩
    rw [problems_read (hdocument v').nodup_keys, hblock, ← hglobal, ← hcommands]
    simp only [List.append_assoc]

end Entry

-- The checks of a configuration without problems.

theorem value_readSection (h : (t.map Prod.fst).Nodup) (directory : AbsPath) (part : Section) :
    (readSection directory (unified t) part).value =
      (entries t part).filterMap fun e => (readEntry part directory e).value := by
  unfold readSection entries
  rw [get?_section h]
  cases t.get? part.key with
  | none => rfl
  | some v =>
    cases v with
    | table checks => exact value_readEntries part directory checks
    | _ => rfl

theorem entryProblems_of_section (h : sectionProblems t part = []) :
    ∀ e ∈ entries t part, entryProblems part e = [] := by
  unfold sectionProblems at h
  unfold entries
  generalize t.get? part.key = found at h
  cases found with
  | none => exact nofun
  | some v =>
    cases v with
    | table checks =>
      have hblocks : checks.flatMap (entryProblems part) = [] := h
      exact List.flatMap_eq_nil_iff.1 hblocks
    | _ => exact nofun

theorem exists_check {e : Text × Value} (h : entryProblems part e = []) (directory : AbsPath) :
    ∃ c, (readEntry part directory e).value = some c := by
  rw [← problems_readEntry part directory] at h
  obtain ⟨name, v⟩ := e
  cases v with
  | table t => exact ⟨_, if_pos h⟩
  | _ => cases h

theorem checks_of_entries {es : Table} (h : ∀ e ∈ es, entryProblems part e = [])
    (directory : AbsPath) :
    (es.filterMap fun e => (readEntry part directory e).value).map some =
        es.map (fun e => (readEntry part directory e).value) ∧
      (es.filterMap fun e => (readEntry part directory e).value).map
          (fun c => (c.name, c.isServer)) =
        es.map fun e => (e.1, decide (part = .servers)) := by
  induction es with
  | nil => exact ⟨rfl, rfl⟩
  | cons e es ih =>
    obtain ⟨he, hes⟩ := List.forall_mem_cons.1 h
    obtain ⟨hchecks, hnames⟩ := ih hes
    obtain ⟨c, hc⟩ := exists_check he directory
    obtain ⟨hname, hserver⟩ := readEntry_ok hc
    rw [List.filterMap_cons, hc]
    constructor
    · rw [List.map_cons, List.map_cons, hc, hchecks]
    · rw [List.map_cons, List.map_cons, hname, hserver, hnames]

theorem checks_read (h : (t.map Prod.fst).Nodup) (path : AbsPath)
    (hproblems : (read path t).problems = []) :
    (read path t).value.checks.map some =
        (entries t .commands).map (fun e => (readEntry .commands path.parent e).value) ++
          (entries t .servers).map (fun e => (readEntry .servers path.parent e).value) ∧
      (read path t).value.checks.map (fun c => (c.name, c.isServer)) =
        (entries t .commands).map (fun e => (e.1, false)) ++
          (entries t .servers).map (fun e => (e.1, true)) := by
  rw [problems_read h, List.append_eq_nil_iff, List.append_eq_nil_iff] at hproblems
  obtain ⟨⟨-, hcommands⟩, hservers⟩ := hproblems
  obtain ⟨hcommand, hcommandNames⟩ :=
    checks_of_entries (entryProblems_of_section hcommands) path.parent
  obtain ⟨hserver, hserverNames⟩ :=
    checks_of_entries (entryProblems_of_section hservers) path.parent
  have hchecks : (read path t).value.checks =
      ((entries t .commands).filterMap fun e => (readEntry .commands path.parent e).value) ++
        (entries t .servers).filterMap fun e => (readEntry .servers path.parent e).value := by
    rw [← value_readSection h, ← value_readSection h]
    rfl
  rw [hchecks, List.map_append, List.map_append, hcommand, hserver, hcommandNames, hserverNames]
  exact ⟨rfl, rfl⟩

theorem accepted_error {r : Reading Config} {e : Failure} : accepted path r = .error e ↔
    r.problems ≠ [] ∧ e = .config path.text r.problems := by
  unfold accepted
  split
  · next h => simp [h]
  · next h => simp [h, eq_comm]

/-- A document is refused with all its problems, or is accepted without any. The problems are those
of the document itself, and then one block for each entry of its commands and of its servers. A
block depends on its entry alone, and that of a table is empty exactly if the table has no fault. A
document that is accepted gives one check for each entry. -/
theorem accepted_read (h : Unambiguous t) (path : AbsPath) :
    (∀ e, accepted path (read path t) = .error e ↔
      (read path t).problems ≠ [] ∧ e = .config path.text (read path t).problems) ∧
    (read path t).problems =
      globalProblems t ++ sectionProblems t .commands ++ sectionProblems t .servers ∧
    (∀ part front back before after name v,
      t = withSection part front back (.table (before ++ (name, v) :: after)) →
        ∃ earlier later, ∀ v',
          (read path
            (withSection part front back (.table (before ++ (name, v') :: after)))).problems =
              earlier ++ entryProblems part (name, v') ++ later) ∧
    (∀ part name table, Unambiguous table →
      (entryProblems part (name, .table table) = [] ↔ Faultless part table)) ∧
    ((read path t).problems = [] → ∃ c, accepted path (read path t) = .ok c ∧
      c.checks.map some =
        (entries t .commands).map (fun e => (readEntry .commands path.parent e).value) ++
          (entries t .servers).map (fun e => (readEntry .servers path.parent e).value) ∧
      c.checks.map (fun check => (check.name, check.isServer)) =
        (entries t .commands).map (fun e => (e.1, false)) ++
          (entries t .servers).map (fun e => (e.1, true))) := by
  refine ⟨fun e => accepted_error, problems_read h.nodup_keys path, ?_, ?_, fun hproblems => ?_⟩
  · rintro part front back before after name v rfl
    exact problems_of_entry h path
  · intro part name table htable
    exact problems_readCheck htable
  · exact ⟨_, if_pos hproblems, checks_read h.nodup_keys path hproblems⟩

-- A document with two faulty checks: a command that has a port, and a server that has none.
namespace Ported

def check (type : Text) (more : Table) : Value :=
  .table ((("type" : Text), .string type) :: ("cmd", .string "run") :: more)

def document : Table :=
  [("commands", .table [("a", check "lint" [("port", .integer 1)]),
      ("b", check " Tidy" [("path-flag", .string "-f")])]),
    ("servers", .table [("c", check "both" [])])]

def file : AbsPath := ⟨false, [⟨"checks.toml".toList, by decide⟩]⟩

end Ported

theorem ports_reported : Unambiguous Ported.document ∧
    accepted Ported.file (read Ported.file Ported.document) =
      .error (.config "/checks.toml" [.portMisplaced "a", .portMissing "c"]) := by
  have hunambiguous : Unambiguous Ported.document := by decide +kernel
  have hproblems : (read Ported.file Ported.document).problems =
      [.portMisplaced "a", .portMissing "c"] := by decide +kernel
  obtain ⟨herror, -⟩ := accepted_read hunambiguous Ported.file
  refine ⟨hunambiguous, (herror _).2 ⟨?_, ?_⟩⟩
  · rw [hproblems]
    exact List.cons_ne_nil _ _
  · rw [hproblems]
    rfl

end PathSelection.Config
