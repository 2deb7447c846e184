import PathSelection.Proofs.Config.Loading
import PathSelection.Proofs.Config.Problems

namespace PathSelection.Config

open Toml

/-- What a table comes to: entries that count give a part of the result, and the others are never
looked at. -/
structure Heeded {α : Type} (t : Table) (Gives : Text → Value → Prop) (reading : Table → α) :
    Prop where
  given : ∀ e, Counts t e → Gives (unifiedKey e.1) e.2
  all : (∀ e ∈ t, Counts t e) ↔ Unambiguous t
  unheard : ∀ e ∈ t, ¬Counts t e → ∀ v, reading (t.put e.1 v) = reading t

/-- What the value of a key gives a check. -/
inductive GivesCheck (directory : AbsPath) (c : Check) : Text → Value → Prop
  | purpose {s : Text} (h : Purpose.ofText? s = some c.purpose) :
    GivesCheck directory c "type" (.string s)
  | command {v : Value} (h : v.strings? = some c.command) : GivesCheck directory c "cmd" v
  | included {v : Value} (h : v.strings? = some c.included) : GivesCheck directory c "include" v
  | excluded {v : Value} (h : v.strings? = some c.excluded) : GivesCheck directory c "exclude" v
  | ignoreFiles {v : Value} {files : List Text} (h : v.strings? = some files)
    (hc : c.ignoreFiles = files.map (located directory)) : GivesCheck directory c "ignore" v
  | arguments {v : Value} {written : List Text} (h : v.strings? = some written)
    (hc : c.arguments = written.map fun a => a.replace "$CONFIG_DIR" directory.text) :
    GivesCheck directory c "args" v
  | onDirectories {v : Value} (h : v.boolean? = some c.onDirectories) :
    GivesCheck directory c "on_dir" v
  | pathFlag {v : Value} (h : v.string? = some c.pathFlag) : GivesCheck directory c "path_flag" v
  | okExitCodes {v : Value} {codes : List Int} (h : v.integers? = some codes)
    (hc : c.okExitCodes = if codes = [] then [0] else codes) :
    GivesCheck directory c "ok_exit_codes" v
  | port {v : Value} {n : Int} (h : v.integer? = some n) (hc : c.port = some n) :
    GivesCheck directory c "port" v

structure FromEntry (part : Section) (directory : AbsPath) (e : Text × Value) (c : Check) :
    Prop where
  name : c.name = e.1
  table : ∃ t, e.2 = .table t ∧
    Heeded t (GivesCheck directory c) fun t => readEntry part directory (e.1, .table t)

/-- What the value of a key gives a configuration. A section gives its checks, in their order. -/
inductive GivesConfig (path : AbsPath) (c : Config) : Text → Value → Prop
  | excluded {v : Value} {patterns : List Text} (h : v.strings? = some patterns)
    (hc : c.excluded = some patterns) : GivesConfig path c "exclude" v
  | furtherExcluded {v : Value} (h : v.strings? = some c.furtherExcluded) :
    GivesConfig path c "extend_exclude" v
  | ignoreFiles {v : Value} {files : List Text} (h : v.strings? = some files)
    (hc : c.ignoreFiles = files.map (located path.parent)) : GivesConfig path c "ignore" v
  | checks (part : Section) {es : Table}
    (h : es.Forall₂ (FromEntry part path.parent)
      (c.checks.filter (·.isServer = decide (part = .servers)))) :
    GivesConfig path c part.key (.table es)

variable {t : Table} {key name : Text} {v : Value} {part : Section} {directory path : AbsPath}

theorem heeded_of_unified {α : Type} {Gives : Text → Value → Prop} {reading : Table → α}
    (h : (t.map Prod.fst).Nodup)
    (hgives : ∀ key v, (unified t).get? key = some v → Gives key v)
    (hreading : ∀ u, unified u = unified t → reading u = reading t) : Heeded t Gives reading where
  given e he := hgives _ _ (get?_unified_iff.2 ⟨e, he, rfl, rfl⟩)
  all := all_count_iff h
  unheard _ he hcounts v := hreading _ (unified_put h he hcounts v)

theorem key_mem_of_get? (h : t.get? key = some v) : key ∈ t.map Prod.fst := by
  rw [← Entries.isSome_lookup]
  exact Option.isSome_of_eq_some h

-- Checks

theorem read?_of_field {α : Type} {owner : Text} {kind : Kind α}
    (h : (field owner t key kind).problems = []) (hv : t.get? key = some v) :
    kind.read? v = some (field owner t key kind).value := by
  unfold field at h ⊢
  simp only [hv] at h ⊢
  cases hread : kind.read? v with
  | none =>
    rw [hread] at h
    cases h
  | some a => rfl

theorem purpose_of_readPurpose (h : (readPurpose name t).problems = [])
    (hv : t.get? "type" = some v) :
    ∃ s, v = .string s ∧ Purpose.ofText? s = some (readPurpose name t).value := by
  obtain ⟨s, hs, hsome⟩ := problems_readPurpose.1 h
  rw [hv] at hs
  cases hs
  refine ⟨s, rfl, ?_⟩
  obtain ⟨p, hp⟩ := Option.isSome_iff_exists.1 hsome
  have hread : (field name t "type" .string).value = s := by
    rw [field, hv]
    rfl
  rw [readPurpose, Reading.value_bind, hread, hv]
  simp only [hp]
  rfl

theorem command_of_readCommand (h : (readCommand name t).problems = [])
    (hv : t.get? "cmd" = some v) : v.strings? = some (readCommand name t).value := by
  have hvalue : (readCommand name t).value = (field name t "cmd" .strings).value := by
    rw [readCommand, Reading.value_bind]
    split <;> rfl
  rw [readCommand, Reading.problems_bind, List.append_eq_nil_iff] at h
  rw [hvalue]
  exact read?_of_field h.1 hv

theorem port_of_readPort (h : (readPort part name t).problems = [])
    (hv : t.get? "port" = some v) :
    ∃ n, v.integer? = some n ∧ (readPort part name t).value = some n := by
  have hhas : t.has "port" = true := Option.isSome_of_eq_some hv
  unfold readPort at h ⊢
  rw [hhas] at h ⊢
  cases part with
  | commands => cases h
  | servers =>
    have hfield : (field name t "port" .integer).problems = [] :=
      (List.append_eq_nil_iff.1 h).1
    exact ⟨_, read?_of_field hfield hv, rfl⟩

theorem gives_of_readCheck (h : (readCheck part directory name t).problems = [])
    (hv : t.get? key = some v) :
    GivesCheck directory (readCheck part directory name t).value key v := by
  simp only [readCheck, Reading.problems_bind, Reading.reportAll, List.append_eq_nil_iff,
    List.map_eq_nil_iff] at h
  obtain ⟨hknown, hpurpose, hcommand, hport, hincluded, hexcluded, hignore, harguments,
    hdirectories, hflag, hcodes, -⟩ := h
  have hkey : key ∈ checkKeys := unknownKeys_eq_nil.1 hknown key (key_mem_of_get? hv)
  simp only [checkKeys, List.mem_cons, List.not_mem_nil, or_false] at hkey
  -- One case for each key that a check may have, in the order of the list of them.
  rcases hkey with rfl | rfl | rfl | rfl | rfl | rfl | rfl | rfl | rfl | rfl
  · obtain ⟨s, rfl, hs⟩ := purpose_of_readPurpose hpurpose hv
    exact .purpose hs
  · exact .included (read?_of_field hincluded hv)
  · exact .excluded (read?_of_field hexcluded hv)
  · exact .ignoreFiles (read?_of_field hignore hv) rfl
  · exact .command (command_of_readCommand hcommand hv)
  · exact .arguments (read?_of_field harguments hv) rfl
  · exact .onDirectories (read?_of_field hdirectories hv)
  · exact .pathFlag (read?_of_field hflag hv)
  · exact .okExitCodes (read?_of_field hcodes hv) rfl
  · obtain ⟨n, hn, hvalue⟩ := port_of_readPort hport hv
    exact .port hn hvalue

theorem fromEntry_of_readEntry {e : Text × Value} {c : Check} (he : e.2.Keyed)
    (h : (readEntry part directory e).value = some c) : FromEntry part directory e c := by
  refine ⟨(readEntry_ok h).1, ?_⟩
  obtain ⟨name, v⟩ := e
  cases v with
  | table t =>
    obtain ⟨hproblems, hc⟩ := Option.ite_none_right_eq_some.1 h
    cases hc
    refine ⟨t, rfl, heeded_of_unified (Table.keyed_of_table he).1 ?_ ?_⟩
    · intro key v hv
      exact gives_of_readCheck hproblems hv
    · intro u hu
      simp only [readEntry, hu]
  | _ => cases h

-- Configurations

theorem fromEntries_of_readSection {v : Value} (ht : t.Keyed)
    (h : (readSection directory t part).problems = []) (hv : t.get? part.key = some v) :
    ∃ es, v = .table es ∧
      es.Forall₂ (FromEntry part directory) (readSection directory t part).value := by
  unfold readSection at h ⊢
  simp only [hv] at h ⊢
  cases v with
  | table es =>
    refine ⟨es, rfl, ?_⟩
    simp only at h ⊢
    rw [Reading.problems_bind, Reading.problems_each, Reading.problems_pure, List.append_nil,
      List.flatMap_eq_nil_iff] at h
    simp only [problems_readEntry] at h
    have hkeyed := (Table.keyed_of_table (ht.of_get? hv)).2
    have hread := (checks_of_entries h directory).1
    rw [value_readEntries]
    rw [← List.forall₂_eq_eq_eq, List.forall₂_map_left_iff, List.forall₂_map_right_iff] at hread
    have hboth := (List.forall₂_and_left _ _).2 ⟨hkeyed, hread.flip⟩
    exact hboth.imp fun e c he => fromEntry_of_readEntry he.1 he.2.symm
  | _ => cases h

theorem filter_checks (ht : t.Keyed) (directory : AbsPath) (part : Section) :
    ((readSection directory t .commands).value ++ (readSection directory t .servers).value).filter
      (·.isServer = decide (part = .servers)) = (readSection directory t part).value := by
  have hall (other : Section) : (readSection directory t other).value.filter
      (·.isServer = decide (part = .servers)) =
        if other = part then (readSection directory t other).value else [] := by
    have hserver := (readSection_ok ht directory other).2
    split
    · next hsame =>
      rw [List.filter_eq_self]
      intro c hc
      rw [hserver c hc, hsame, decide_eq_true_eq]
    · next hother =>
      rw [List.filter_eq_nil_iff]
      intro c hc
      rw [hserver c hc]
      revert hother
      cases other <;> cases part <;> decide
  rw [List.filter_append, hall, hall]
  cases part with
  | commands => exact List.append_nil _
  | servers => rfl

theorem value_readGlobals (path : AbsPath) (t : Table) : (readGlobals path t).value = {
    excluded :=
      if t.has "exclude" then some (field globalOwner t "exclude" .strings).value else none
    furtherExcluded := (field globalOwner t "extend_exclude" .strings).value
    ignoreFiles := (field globalOwner t "ignore" .strings).value.map (located path.parent)
    checks := []
    path := some path } := by
  simp only [readGlobals, Reading.value_bind]
  split <;> rfl

theorem gives_of_read (ht : t.Keyed) (h : (read path t).problems = [])
    (hv : (unified t).get? key = some v) : GivesConfig path (read path t).value key v := by
  simp only [read, Reading.problems_bind, List.append_eq_nil_iff] at h
  obtain ⟨hglobals, hcommands, hservers, -⟩ := h
  simp only [readGlobals, Reading.problems_bind, Reading.reportAll, List.append_eq_nil_iff,
    List.map_eq_nil_iff] at hglobals
  obtain ⟨hknown, hexcluded, hfurther, hignore, -⟩ := hglobals
  have hsection (part : Section) (h : (readSection path.parent (unified t) part).problems = [])
      (hv : (unified t).get? part.key = some v) :
      GivesConfig path (read path t).value part.key v := by
    have hkeyed := unified_keyed ht
    obtain ⟨es, rfl, hes⟩ := fromEntries_of_readSection hkeyed h hv
    apply GivesConfig.checks part
    rwa [← filter_checks hkeyed] at hes
  have hkey : key ∈ globalKeys := unknownKeys_eq_nil.1 hknown key (key_mem_of_get? hv)
  simp only [globalKeys, List.mem_cons, List.not_mem_nil, or_false] at hkey
  rcases hkey with rfl | rfl | rfl | rfl | rfl
  · apply GivesConfig.excluded (read?_of_field hexcluded hv)
    have hhas : (unified t).has "exclude" = true := Option.isSome_of_eq_some hv
    simp only [read, Reading.value_bind, value_readGlobals, if_pos hhas, Reading.value_pure]
  · apply GivesConfig.furtherExcluded
    simp only [read, Reading.value_bind, value_readGlobals, Reading.value_pure]
    exact read?_of_field hfurther hv
  · apply GivesConfig.ignoreFiles (read?_of_field hignore hv)
    simp only [read, Reading.value_bind, value_readGlobals, Reading.value_pure]
  · exact hsection .commands hcommands hv
  · exact hsection .servers hservers hv

/-- In a configuration that was loaded, each table is heeded: that of the document, and those of its
checks. -/
theorem entries_heeded {v : View} {path : Text} {c : Config} (h : load v path = .ok c) :
    ∃ t, tableIn v (v.absolute path) = .ok t ∧
      Heeded t (GivesConfig (v.absolute path) c) (read (v.absolute path)) := by
  obtain ⟨t, ht, hproblems, rfl⟩ := load_ok.1 h
  have hkeyed := tableIn_keyed ht
  refine ⟨t, ht, heeded_of_unified hkeyed.1 ?_ ?_⟩
  · intro key v hv
    exact gives_of_read hkeyed hproblems hv
  · intro u hu
    simp only [read, hu]

-- A document with two spellings of one key, of which the first has a value of another kind.
namespace Doubled

def content : String :=
  "extend-exclude = 3\nextend_exclude = 'a'\n[commands.a]\ntype='lint'\ncmd='c'\n"

def check : Check := ⟨"a", .lint, ["c"], [], [], [], [], false, [], [0], none⟩

def config : Config := ⟨none, ["a"], [], [check], some Alone.file⟩

theorem load_config : load (Alone.view content) "tidypaths.toml" = .ok config :=
  Alone.load_view (by decide +kernel)

def kinds : List (Text × Text) :=
  [("extend-exclude", "int"), ("extend_exclude", "str"), ("commands", "dict")]

theorem table_content : ∃ t, tableIn (Alone.view content) Alone.file = .ok t ∧
    t.map (fun e => (e.1, e.2.kind)) = kinds := by
  have hread : (Toml.read (Text.unifyNewlines content.toList)).toOption.map
      (fun t => t.map fun e => (e.1, e.2.kind)) = some kinds := by decide +kernel
  obtain ⟨t, ht, hkinds⟩ := Option.map_eq_some_iff.1 hread
  exact ⟨t, Alone.tableIn_view (ok_of_toOption ht), hkinds⟩

theorem exists_number (h : t.map (fun e => (e.1, e.2.kind)) = kinds) :
    ∃ e ∈ t, e.1 = "extend-exclude" ∧ e.2.kind = "int" := by
  have hmem : (("extend-exclude" : Text), ("int" : Text)) ∈ t.map fun e => (e.1, e.2.kind) := by
    rw [h]
    exact List.mem_cons_self
  obtain ⟨e, he, heq⟩ := List.mem_map.1 hmem
  obtain ⟨hkey, hkind⟩ := Prod.mk.inj heq
  exact ⟨e, he, hkey, hkind⟩

theorem strings?_of_kind (h : v.kind = "int") : v.strings? = none := by
  cases v with
  | string s =>
    have hother : ("str" : Text) ≠ "int" := by decide
    exact absurd h hother
  | array vs =>
    have hother : ("list" : Text) ≠ "int" := by decide
    exact absurd h hother
  | _ => rfl

theorem not_gives (hkey : key = "extend-exclude") (h : v.kind = "int") :
    ¬GivesConfig Alone.file config (unifiedKey key) v := by
  have hunified : unifiedKey key = "extend_exclude" := by
    rw [hkey]
    decide
  intro hgives
  generalize unifiedKey key = k at hunified hgives
  cases hgives with
  | furtherExcluded hstrings =>
    rw [strings?_of_kind h] at hstrings
    cases hstrings
  | checks part => cases part <;> exact absurd hunified (by decide)
  | _ => exact absurd hunified (by decide)

end Doubled

/-- A value of the wrong kind is accepted under one of two spellings of a key. -/
theorem wrong_kind_accepted :
    load (Alone.view Doubled.content) "tidypaths.toml" = .ok Doubled.config ∧
      ∃ t, tableIn (Alone.view Doubled.content) Alone.file = .ok t ∧
        t.map (fun e => (e.1, e.2.kind)) = Doubled.kinds ∧ ¬Unambiguous t ∧
        ¬∀ e ∈ t, GivesConfig Alone.file Doubled.config (unifiedKey e.1) e.2 := by
  obtain ⟨t, ht, hkinds⟩ := Doubled.table_content
  refine ⟨Doubled.load_config, t, ht, hkinds, fun hunambiguous => ?_, fun hgives => ?_⟩
  · have hkeys : (t.map fun e => unifiedKey e.1) = Doubled.kinds.map fun p => unifiedKey p.1 := by
      rw [← hkinds, List.map_map]
      rfl
    rw [Unambiguous, hkeys] at hunambiguous
    exact absurd hunambiguous (by decide)
  · obtain ⟨e, he, hkey, hkind⟩ := Doubled.exists_number hkinds
    exact Doubled.not_gives hkey hkind (hgives e he)

/-- The entry with the wrong value does not count, so its value may be anything. -/
theorem first_spelling_unheard :
    load (Alone.view Doubled.content) "tidypaths.toml" = .ok Doubled.config ∧
      ∃ t, tableIn (Alone.view Doubled.content) Alone.file = .ok t ∧
        ∃ e ∈ t, e.1 = "extend-exclude" ∧ e.2.kind = "int" ∧ ¬Counts t e ∧
          ∀ v, read Alone.file (t.put e.1 v) = read Alone.file t := by
  obtain ⟨t, ht, hheeded⟩ := entries_heeded Doubled.load_config
  rw [Alone.absolute_view] at ht hheeded
  obtain ⟨t', ht', hkinds⟩ := Doubled.table_content
  cases ht.symm.trans ht'
  obtain ⟨e, he, hkey, hkind⟩ := Doubled.exists_number hkinds
  have hcounts : ¬Counts t e := fun h => Doubled.not_gives hkey hkind (hheeded.given e h)
  exact ⟨Doubled.load_config, t, ht, e, he, hkey, hkind, hcounts,
    hheeded.unheard e he hcounts⟩

end PathSelection.Config
