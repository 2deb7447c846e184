import PathSelection.Config.Reading
import PathSelection.Proofs.Entries

namespace PathSelection

open Toml

namespace Toml.Value

theorem isSome_mapM {α : Type} {read? : Value → Option α} {vs : List Value} :
    (vs.mapM read?).isSome = true ↔ ∀ v ∈ vs, (read? v).isSome = true := by
  induction vs with
  | nil => simp
  | cons v vs ih =>
    rw [List.mapM_cons, List.forall_mem_cons, ← ih]
    cases read? v with
    | none => simp
    | some a => cases vs.mapM read? <;> simp

/-- A string, or an array of strings. -/
inductive IsStrings : Value → Prop
  | one (s : Text) : IsStrings (.string s)
  | array {vs : List Value} (h : ∀ v ∈ vs, ∃ s, v = .string s) : IsStrings (.array vs)

/-- An integer, or an array of integers. Booleans are none. -/
inductive IsIntegers : Value → Prop
  | one (n : Int) : IsIntegers (.integer n)
  | array {vs : List Value} (h : ∀ v ∈ vs, ∃ n, v = .integer n) : IsIntegers (.array vs)

theorem isSome_string? {v : Value} : v.string?.isSome = true ↔ ∃ s, v = .string s := by
  cases v <;> simp [string?]

theorem isSome_boolean? {v : Value} : v.boolean?.isSome = true ↔ ∃ b, v = .boolean b := by
  cases v <;> simp [boolean?]

theorem isSome_integer? {v : Value} : v.integer?.isSome = true ↔ ∃ n, v = .integer n := by
  cases v <;> simp [integer?]

theorem isSome_strings? {v : Value} : v.strings?.isSome = true ↔ v.IsStrings := by
  constructor
  · intro h
    cases v with
    | string s => exact .one s
    | array vs => exact .array fun v hv => isSome_string?.1 (isSome_mapM.1 h v hv)
    | _ => cases h
  · rintro (s | h)
    · rfl
    · exact isSome_mapM.2 fun v hv => isSome_string?.2 (h v hv)

theorem isSome_integers? {v : Value} : v.integers?.isSome = true ↔ v.IsIntegers := by
  constructor
  · intro h
    cases v with
    | integer n => exact .one n
    | array vs => exact .array fun v hv => isSome_integer?.1 (isSome_mapM.1 h v hv)
    | _ => cases h
  · rintro (n | h)
    · rfl
    · exact isSome_mapM.2 fun v hv => isSome_integer?.2 (h v hv)

end Toml.Value

theorem Purpose.isSome_ofText? {t : Text} :
    (ofText? t).isSome = true ↔ ∃ p : Purpose, t.strip.map Char.toLower = p.text := by
  rw [ofText?, List.find?_isSome]
  constructor
  · rintro ⟨p, -, hp⟩
    exact ⟨p, (of_decide_eq_true hp).symm⟩
  · rintro ⟨p, hp⟩
    exact ⟨p, by cases p <;> decide, decide_eq_true hp.symm⟩

namespace Config

/-- No two keys become one when hyphens are taken for underscores. -/
def Unambiguous (t : Table) : Prop := (t.map fun e => unifiedKey e.1).Nodup

instance (t : Table) : Decidable (Unambiguous t) := inferInstanceAs (Decidable (List.Nodup _))

/-- A table has a value under a key, in either spelling. -/
def Has (t : Table) (key : Text) (v : Value) : Prop := ∃ e ∈ t, unifiedKey e.1 = key ∧ e.2 = v

variable {t : Table} {key : Text}

theorem unified_eq (t : Table) :
    unified t = Entries.putAll (t.map fun e => (unifiedKey e.1, e.2)) [] := by
  rw [unified, Entries.putAll, List.foldl_map]
  rfl

theorem unified_of_unambiguous (h : Unambiguous t) :
    unified t = t.map fun e => (unifiedKey e.1, e.2) := by
  rw [unified_eq]
  apply Entries.putAll_of_nodup
  rwa [List.map_map]

theorem map_fst_unified (h : Unambiguous t) :
    (unified t).map Prod.fst = t.map fun e => unifiedKey e.1 := by
  rw [unified_of_unambiguous h, List.map_map]
  rfl

theorem get?_unified (h : Unambiguous t) {v : Value} :
    (unified t).get? key = some v ↔ Has t key v := by
  have hnodup : ((unified t).map Prod.fst).Nodup := by rwa [map_fst_unified h]
  rw [Table.get?, Entries.lookup_eq_some hnodup, unified_of_unambiguous h, List.mem_map]
  simp only [Has, Prod.mk.injEq]

theorem get?_unified_none (h : Unambiguous t) :
    (unified t).get? key = none ↔ ∀ v, ¬Has t key v := by
  simp only [← get?_unified h, Option.eq_none_iff_forall_ne_some, ne_eq]

-- What the parts of a check have to be, so that reading them meets no problem.

theorem problems_field {α : Type} {owner : Text} {kind : Kind α} :
    (field owner t key kind).problems = [] ↔
      ∀ v, t.get? key = some v → (kind.read? v).isSome = true := by
  unfold field
  cases t.get? key with
  | none => simp
  | some v =>
    simp only [Option.some.injEq, forall_eq']
    cases kind.read? v <;> simp

theorem unknownKeys_eq_nil {known : List Text} :
    unknownKeys known t = [] ↔ ∀ key ∈ t.map Prod.fst, key ∈ known := by
  have hperm := List.mergeSort_perm ((t.map Prod.fst).filter (!known.contains ·)) Text.le
  rw [unknownKeys, List.eq_nil_iff_forall_not_mem]
  simp only [hperm.mem_iff, List.mem_filter, not_and, Bool.not_eq_true', Bool.not_eq_false,
    List.contains_iff_mem]

theorem problems_readPurpose {name : Text} : (readPurpose name t).problems = [] ↔
    ∃ s, t.get? "type" = some (.string s) ∧ (Purpose.ofText? s).isSome = true := by
  unfold readPurpose field
  generalize t.get? _ = found
  cases found with
  | none => exact iff_of_false (List.cons_ne_nil _ _) nofun
  | some v =>
    cases v with
    | string s =>
      simp only [Option.some.injEq, Value.string.injEq, exists_eq_left']
      have hread : Kind.string.read? (.string s) = some s := rfl
      rw [Reading.problems_bind, hread]
      simp only [Reading.problems_pure, Reading.value_pure, List.nil_append]
      cases Purpose.ofText? s with
      | none => exact iff_of_false (List.cons_ne_nil _ _) nofun
      | some p => exact iff_of_true rfl rfl
    | _ => exact iff_of_false (List.cons_ne_nil _ _) nofun

theorem problems_readCommand {name : Text} : (readCommand name t).problems = [] ↔
    ∃ v, t.get? "cmd" = some v ∧ v.IsStrings := by
  rw [readCommand, Reading.problems_bind, List.append_eq_nil_iff, problems_field, Table.has]
  generalize t.get? _ = found
  cases found with
  | none => exact iff_of_false (fun h => List.cons_ne_nil _ _ h.2) nofun
  | some v =>
    simp only [Option.some.injEq, forall_eq', exists_eq_left']
    exact (and_iff_left rfl).trans Value.isSome_strings?

/-- The port that a check of a section has: a server has one, a command has none. -/
def PortFits (part : Section) (t : Table) : Prop :=
  match part with
  | .commands => ∀ v, ¬Has t "port" v
  | .servers => ∃ n, Has t "port" (.integer n)

theorem problems_readPort (h : Unambiguous t) {part : Section} {name : Text} :
    (readPort part name (unified t)).problems = [] ↔ PortFits part t := by
  cases part with
  | commands =>
    unfold readPort Table.has PortFits
    rw [← get?_unified_none h]
    cases (unified t).get? "port" with
    | none => exact iff_of_true rfl rfl
    | some v => exact iff_of_false (List.cons_ne_nil _ _) nofun
  | servers =>
    have hfield : (some <$> field name (unified t) "port" .integer).problems =
        (field name (unified t) "port" .integer).problems :=
      List.append_nil _
    unfold readPort Table.has PortFits
    simp only [← get?_unified h]
    cases hv : (unified t).get? "port" with
    | none => exact iff_of_false (List.cons_ne_nil _ _) nofun
    | some v =>
      change (some <$> field name (unified t) "port" .integer).problems = [] ↔ _
      rw [hfield, problems_field, hv]
      simp only [Option.some.injEq, forall_eq']
      exact Value.isSome_integer?

/-- The table of a check without a fault. -/
structure Faultless (part : Section) (t : Table) : Prop where
  known : ∀ e ∈ t, unifiedKey e.1 ∈ checkKeys
  purpose : ∃ s, Has t "type" (.string s) ∧ ∃ p : Purpose, s.strip.map Char.toLower = p.text
  command : ∃ v, Has t "cmd" v ∧ v.IsStrings
  port : PortFits part t
  lists : ∀ key ∈ (["include", "exclude", "ignore", "args"] : List Text), ∀ v, Has t key v →
    v.IsStrings
  onDirectories : ∀ v, Has t "on_dir" v → ∃ b, v = .boolean b
  pathFlag : ∀ v, Has t "path_flag" v → ∃ s, v = .string s
  okExitCodes : ∀ v, Has t "ok_exit_codes" v → v.IsIntegers

/-- Reading the table of a check meets no problem exactly if it has no fault. -/
theorem problems_readCheck (h : Unambiguous t) {part : Section} {directory : AbsPath}
    {name : Text} :
    (readCheck part directory name (unified t)).problems = [] ↔ Faultless part t := by
  have hknown : ((unknownKeys checkKeys (unified t)).map fun key =>
      Problem.unknownKey key name) = [] ↔ ∀ e ∈ t, unifiedKey e.1 ∈ checkKeys := by
    rw [List.map_eq_nil_iff, unknownKeys_eq_nil, map_fst_unified h]
    exact List.forall_mem_map
  have hstrings (v : Value) : (Kind.strings.read? v).isSome = true ↔ v.IsStrings :=
    Value.isSome_strings?
  have hboolean (v : Value) : (Kind.boolean.read? v).isSome = true ↔ ∃ b, v = .boolean b :=
    Value.isSome_boolean?
  have hstring (v : Value) : (Kind.string.read? v).isSome = true ↔ ∃ s, v = .string s :=
    Value.isSome_string?
  have hintegers (v : Value) : (Kind.integers.read? v).isSome = true ↔ v.IsIntegers :=
    Value.isSome_integers?
  simp only [readCheck, Reading.problems_bind, Reading.problems_pure, Reading.reportAll,
    List.append_eq_nil_iff, hknown, problems_readPurpose, problems_readCommand,
    problems_readPort h, problems_field, get?_unified h, Purpose.isSome_ofText?, hstrings, hboolean,
    hstring, hintegers, and_true]
  constructor
  · rintro ⟨hknown, hpurpose, hcommand, hport, hinclude, hexclude, hignore, hargs, hdirectories,
      hflag, hcodes⟩
    refine ⟨hknown, hpurpose, hcommand, hport, ?_, hdirectories, hflag, hcodes⟩
    simp only [List.forall_mem_cons]
    exact ⟨hinclude, hexclude, hignore, hargs, nofun⟩
  · rintro ⟨hknown, hpurpose, hcommand, hport, hlists, hdirectories, hflag, hcodes⟩
    simp only [List.forall_mem_cons] at hlists
    obtain ⟨hinclude, hexclude, hignore, hargs, -⟩ := hlists
    exact ⟨hknown, hpurpose, hcommand, hport, hinclude, hexclude, hignore, hargs, hdirectories,
      hflag, hcodes⟩

end Config
end PathSelection
