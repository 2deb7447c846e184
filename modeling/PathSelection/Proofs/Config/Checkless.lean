import PathSelection.Proofs.Config.Loading
import PathSelection.Proofs.Config.Problems

namespace PathSelection.Config

open Toml

/-- A document has a section, and no section has anything in it. -/
structure OnlyEmptySections (t : Table) : Prop where
  present : ∃ part : Section, (part.key, .table []) ∈ t
  empty : ∀ (part : Section) v, (part.key, v) ∈ t → v = .table []

structure GlobalsFaultless (t : Table) : Prop where
  known : ∀ e ∈ t, unifiedKey e.1 ∈ globalKeys
  lists : ∀ key ∈ (["exclude", "extend_exclude", "ignore"] : List Text),
    ∀ e, Counts t e → unifiedKey e.1 = key → e.2.IsStrings

/-- A section of a document has a table with the name of a check. -/
def DefinesCheck (t : Table) : Prop :=
  ∃ (part : Section) (es : Table) (name : Text) (inner : Table),
    (part.key, .table es) ∈ t ∧ (name, .table inner) ∈ es

variable {t : Table} {part : Section} {v : View} {path : Text} {file : AbsPath}

theorem forall_sections {P : Section → Prop} : (∀ part, P part) ↔ P .commands ∧ P .servers := by
  constructor
  · intro h
    exact ⟨h .commands, h .servers⟩
  · rintro ⟨hcommands, hservers⟩ part
    cases part with
    | commands => exact hcommands
    | servers => exact hservers

theorem has_section : (unified t).has part.key = true ↔ ∃ v, (part.key, v) ∈ t := by
  rw [has_unified]
  constructor
  · rintro ⟨⟨k, v⟩, he, hk⟩
    obtain rfl := unifiedKey_eq_section.1 hk
    exact ⟨v, he⟩
  · rintro ⟨v, hv⟩
    exact ⟨_, hv, unifiedKey_eq_section.2 rfl⟩

theorem problems_unless {b : Bool} {p : Problem} {c : Config} :
    (if b then Reading.report p >>= fun _ => pure c else pure c : Reading Config).problems = [] ↔
      b = false := by
  cases b with
  | false => exact iff_of_true rfl rfl
  | true => exact iff_of_false (List.cons_ne_nil _ _) nofun

theorem missing_sections : (!(unified t).has Section.commands.key &&
    !(unified t).has Section.servers.key) = false ↔
      ∃ (part : Section) (v : Value), (part.key, v) ∈ t := by
  rw [Bool.and_eq_false_iff, Bool.not_eq_false', Bool.not_eq_false', has_section, has_section]
  constructor
  · rintro (h | h)
    · exact ⟨.commands, h⟩
    · exact ⟨.servers, h⟩
  · rintro ⟨part, h⟩
    cases part with
    | commands => exact .inl h
    | servers => exact .inr h

theorem globalProblems_eq_nil : globalProblems t = [] ↔
    GlobalsFaultless t ∧ ∃ (part : Section) (v : Value), (part.key, v) ∈ t := by
  have hstrings (v : Value) : (Kind.strings.read? v).isSome = true ↔ v.IsStrings :=
    Value.isSome_strings?
  simp only [globalProblems, readGlobals, Reading.problems_bind, Reading.reportAll,
    List.append_eq_nil_iff, List.map_eq_nil_iff, unknownKeys_unified, problems_field_unified,
    hstrings, problems_unless, missing_sections]
  constructor
  · rintro ⟨hknown, hexclude, hfurther, hignore, hsection⟩
    refine ⟨⟨hknown, ?_⟩, hsection⟩
    simp only [List.forall_mem_cons]
    exact ⟨hexclude, hfurther, hignore, List.forall_mem_nil _⟩
  · rintro ⟨⟨hknown, hlists⟩, hsection⟩
    simp only [List.forall_mem_cons] at hlists
    obtain ⟨hexclude, hfurther, hignore, -⟩ := hlists
    exact ⟨hknown, hexclude, hfurther, hignore, hsection⟩

theorem emptySection_iff (h : (t.map Prod.fst).Nodup) :
    sectionProblems t part = [] ∧ entries t part = [] ↔
      ∀ v, (part.key, v) ∈ t → v = .table [] := by
  simp only [← Entries.lookup_eq_some h]
  unfold sectionProblems entries
  change _ ↔ ∀ v, t.get? part.key = some v → v = .table []
  cases t.get? part.key with
  | none => exact iff_of_true ⟨rfl, rfl⟩ nofun
  | some v =>
    simp only [Option.some.injEq, forall_eq']
    cases v with
    | table es =>
      simp only [Value.table.injEq]
      constructor
      · exact And.right
      · rintro rfl
        exact ⟨rfl, rfl⟩
    | _ => exact iff_of_false (fun h => List.cons_ne_nil _ _ h.1) nofun

theorem checks_eq_nil (h : (t.map Prod.fst).Nodup) (hproblems : (read file t).problems = []) :
    (read file t).value.checks = [] ↔ ∀ part, entries t part = [] := by
  have hchecks := (checks_read h file hproblems).1
  rw [← List.map_eq_nil_iff (f := some), hchecks, List.append_eq_nil_iff, List.map_eq_nil_iff,
    List.map_eq_nil_iff, forall_sections]

theorem problems_read_eq_nil (h : (t.map Prod.fst).Nodup) : (read file t).problems = [] ↔
    globalProblems t = [] ∧ ∀ part, sectionProblems t part = [] := by
  rw [problems_read h, List.append_eq_nil_iff, List.append_eq_nil_iff, and_assoc, forall_sections]

theorem read_checkless (h : (t.map Prod.fst).Nodup) :
    (read file t).problems = [] ∧ (read file t).value.checks = [] ↔
      OnlyEmptySections t ∧ GlobalsFaultless t := by
  constructor
  · rintro ⟨hnone, hchecks⟩
    have hentries := (checks_eq_nil h hnone).1 hchecks
    obtain ⟨hglobals, hsections⟩ := (problems_read_eq_nil h).1 hnone
    obtain ⟨hfaultless, part, v, hv⟩ := globalProblems_eq_nil.1 hglobals
    have hempty (part : Section) := (emptySection_iff h).1 ⟨hsections part, hentries part⟩
    obtain rfl := hempty part v hv
    exact ⟨⟨⟨part, hv⟩, hempty⟩, hfaultless⟩
  · rintro ⟨⟨⟨part, hpart⟩, hempty⟩, hfaultless⟩
    have hboth (part : Section) := (emptySection_iff h).2 (hempty part)
    have hnone : (read file t).problems = [] := (problems_read_eq_nil h).2
      ⟨globalProblems_eq_nil.2 ⟨hfaultless, part, _, hpart⟩, fun part => (hboth part).1⟩
    exact ⟨hnone, (checks_eq_nil h hnone).2 fun part => (hboth part).2⟩

theorem checks_of_undefined (h : (t.map Prod.fst).Nodup) (hdefines : ¬DefinesCheck t)
    (hproblems : (read file t).problems = []) : (read file t).value.checks = [] := by
  rw [checks_eq_nil h hproblems]
  intro part
  rw [List.eq_nil_iff_forall_not_mem]
  rintro ⟨name, v⟩ he
  apply hdefines
  have hsection := ((problems_read_eq_nil h).1 hproblems).2 part
  have hentry := entryProblems_of_section hsection _ he
  obtain ⟨c, hc⟩ := exists_check hentry .root
  unfold entries at he
  split at he
  · next es hes =>
    cases v with
    | table inner => exact ⟨part, es, name, inner, (Entries.lookup_eq_some h).1 hes, he⟩
    | _ => cases hc
  · cases he

/-- A file has a document that is accepted, but has no checks. -/
def Hollow (v : View) (file : AbsPath) : Prop :=
  ∃ t, tableIn v file = .ok t ∧ OnlyEmptySections t ∧ GlobalsFaultless t

/-- A configuration that is loaded has checks, unless the file is hollow; and then it is loaded. Any
other file without a check is refused with its problems, or fails to be loaded. -/
theorem loaded_without_checks (v : View) (path : Text) :
    ((∃ c, load v path = .ok c ∧ c.checks = []) ↔ Hollow v (v.absolute path)) ∧
      (¬Hollow v (v.absolute path) →
        (∀ t, tableIn v (v.absolute path) = .ok t → ¬DefinesCheck t) →
          (∃ problems, problems ≠ [] ∧
            load v path = .error (.config (v.absolute path).text problems)) ∨
          ∃ e, load v path = .error e ∧ LoadFails v path e) := by
  have hloaded : (∃ c, load v path = .ok c ∧ c.checks = []) ↔ Hollow v (v.absolute path) := by
    constructor
    · rintro ⟨c, hc, hchecks⟩
      obtain ⟨t, ht, hproblems, rfl⟩ := load_ok.1 hc
      exact ⟨t, ht, (read_checkless (tableIn_keyed ht).1).1 ⟨hproblems, hchecks⟩⟩
    · rintro ⟨t, ht, hdocument⟩
      obtain ⟨hproblems, hchecks⟩ := (read_checkless (tableIn_keyed ht).1).2 hdocument
      exact ⟨_, load_ok.2 ⟨t, ht, hproblems, rfl⟩, hchecks⟩
  refine ⟨hloaded, fun hhollow hundefined => ?_⟩
  cases hload : load v path with
  | error e =>
    rcases load_error hload with ⟨problems, hproblems, rfl⟩ | hfails
    · exact .inl ⟨problems, hproblems, rfl⟩
    · exact .inr ⟨e, rfl, hfails⟩
  | ok c =>
    obtain ⟨t, ht, hproblems, rfl⟩ := load_ok.1 hload
    have hchecks := checks_of_undefined (tableIn_keyed ht).1 (hundefined t ht) hproblems
    exact absurd (hloaded.1 ⟨_, hload, hchecks⟩) hhollow

-- A document with a section, but nothing in it.
namespace Vacant

def document : Table := [("commands", .table [])]

theorem table_content : tableIn (Alone.view "[commands]\n") Alone.file = .ok document := by
  have hread : Toml.read (Text.unifyNewlines "[commands]\n".toList) = .ok document := rfl
  exact Alone.tableIn_view hread

end Vacant

/-- An empty section is enough to have a configuration accepted. -/
theorem empty_section_accepted :
    load (Alone.view "[commands]\n") "tidypaths.toml" =
        .ok ⟨none, [], [], [], some Alone.file⟩ ∧
      ∃ t, tableIn (Alone.view "[commands]\n") Alone.file = .ok t ∧ ¬DefinesCheck t := by
  refine ⟨Alone.load_view (by decide +kernel), _, Vacant.table_content, ?_⟩
  rintro ⟨part, es, name, inner, hsection, hentry⟩
  obtain ⟨-, hes⟩ := Prod.mk.inj (List.mem_singleton.1 hsection)
  cases hes
  cases hentry

-- A document with patterns, but without a section.
namespace Bare

def document : Table := [("exclude", .string "a")]

theorem table_content : tableIn (Alone.view "exclude='a'") Alone.file = .ok document := by
  have hread : Toml.read (Text.unifyNewlines "exclude='a'".toList) = .ok document := rfl
  exact Alone.tableIn_view hread

theorem no_section {part : Section} {v : Value} : (part.key, v) ∉ document := by
  intro h
  obtain ⟨hkey, -⟩ := Prod.mk.inj (List.mem_singleton.1 h)
  cases part <;> exact absurd hkey (by decide)

end Bare

theorem refused_without_section :
    (∀ t, tableIn (Alone.view "exclude='a'") Alone.file = .ok t → ¬DefinesCheck t) ∧
      ∃ problems, problems ≠ [] ∧ load (Alone.view "exclude='a'") "tidypaths.toml" =
        .error (.config Alone.file.text problems) := by
  have hundefined : ∀ t, tableIn (Alone.view "exclude='a'") Alone.file = .ok t →
      ¬DefinesCheck t := by
    intro t ht
    cases Bare.table_content.symm.trans ht
    rintro ⟨part, es, name, inner, hsection, -⟩
    exact Bare.no_section hsection
  have hhollow : ¬Hollow (Alone.view "exclude='a'") Alone.file := by
    rintro ⟨t, ht, ⟨⟨part, hpart⟩, -⟩, -⟩
    cases Bare.table_content.symm.trans ht
    exact Bare.no_section hpart
  have hloaded := (loaded_without_checks (Alone.view "exclude='a'") "tidypaths.toml").2
  rw [Alone.absolute_view] at hloaded
  refine ⟨hundefined, ?_⟩
  refine (hloaded hhollow hundefined).resolve_right ?_
  rintro ⟨e, he, hfails⟩
  rw [load_eq, Alone.absolute_view, Bare.table_content] at he
  change accepted Alone.file _ = .error e at he
  unfold accepted at he
  split at he
  · cases he
  · cases he
    cases hfails.isReported

end PathSelection.Config
