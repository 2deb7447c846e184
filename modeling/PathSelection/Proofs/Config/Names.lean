import PathSelection.Proofs.Config.Loading
import PathSelection.Proofs.Toml.Keys

namespace PathSelection.Config

open Toml

namespace Reading

variable {α β : Type}

theorem value_each (f : α → Reading β) (as : List α) :
    (each f as).value = as.map fun a => (f a).value := by
  induction as with
  | nil => rfl
  | cons a as ih =>
    rw [List.map_cons, ← ih]
    rfl

end Reading

theorem unified_keyed {t : Table} (h : t.Keyed) : (unified t).Keyed := by
  have hputs (es : Table) (hes : ∀ e ∈ es, e.2.Keyed) (u : Table) (hu : u.Keyed) :
      (es.foldl (fun u e => u.put (unifiedKey e.1) e.2) u).Keyed := by
    induction es generalizing u with
    | nil => exact hu
    | cons e es ih =>
      apply ih fun e' he' => hes e' (List.mem_cons_of_mem e he')
      exact hu.put (hes e List.mem_cons_self) (unifiedKey e.1)
  exact hputs t h.2 [] Table.keyed_nil

theorem isSome_readPort {part : Section} {name : Text} {t : Table}
    (h : (readPort part name t).problems = []) :
    (readPort part name t).value.isSome = decide (part = .servers) := by
  unfold readPort at h ⊢
  generalize t.has _ = present at h ⊢
  cases part with
  | commands =>
    cases present with
    | false => rfl
    | true => cases h
  | servers =>
    cases present with
    | false => cases h
    | true => rfl

theorem readEntry_ok {part : Section} {directory : AbsPath} {e : Text × Value} {c : Check}
    (h : (readEntry part directory e).value = some c) :
    c.name = e.1 ∧ c.isServer = decide (part = .servers) := by
  unfold readEntry at h
  split at h
  · next t _ =>
    simp only [Option.ite_none_right_eq_some] at h
    obtain ⟨hproblems, hc⟩ := h
    cases hc
    refine ⟨rfl, isSome_readPort ?_⟩
    simp only [readCheck, Reading.problems_bind, List.append_eq_nil_iff] at hproblems
    exact hproblems.2.2.2.1
  · cases h

theorem names_sublist (part : Section) (directory : AbsPath) (checks : Table) :
    ((checks.filterMap fun e => (readEntry part directory e).value).map Check.name).Sublist
      (checks.map Prod.fst) := by
  induction checks with
  | nil => exact .slnil
  | cons e es ih =>
    cases hc : (readEntry part directory e).value with
    | none =>
      rw [List.filterMap_cons, hc]
      exact ih.cons e.1
    | some c =>
      rw [List.filterMap_cons, hc, List.map_cons, (readEntry_ok hc).1]
      exact ih.cons_cons e.1

theorem value_readEntries (part : Section) (directory : AbsPath) (checks : Table) :
    (do return (← Reading.each (readEntry part directory) checks).filterMap id :
        Reading (List Check)).value =
      checks.filterMap fun e => (readEntry part directory e).value := by
  rw [Reading.value_bind, Reading.value_each, Reading.value_pure, List.filterMap_map]
  rfl

theorem readSection_ok {t : Table} (ht : t.Keyed) (directory : AbsPath) (part : Section) :
    ((readSection directory t part).value.map Check.name).Nodup ∧
      ∀ c ∈ (readSection directory t part).value, c.isServer = decide (part = .servers) := by
  unfold readSection
  split
  · exact ⟨List.nodup_nil, nofun⟩
  · next checks hchecks =>
    rw [value_readEntries]
    constructor
    · have hkeys := (Table.keyed_of_table (ht.of_get? hchecks)).1
      exact hkeys.sublist (names_sublist part directory checks)
    · intro c hc
      obtain ⟨e, -, hc⟩ := List.mem_filterMap.1 hc
      exact (readEntry_ok hc).2
  · exact ⟨List.nodup_nil, nofun⟩

theorem tableIn_keyed {v : View} {path : AbsPath} {t : Table} (h : tableIn v path = .ok t) :
    t.Keyed := by
  have hinner {t u : Table} {key : Text} (ht : t.Keyed) (hu : innerTable t key = .ok u) :
      u.Keyed := by
    unfold innerTable at hu
    split at hu
    · cases hu
      exact Table.keyed_nil
    · next hget =>
      cases hu
      exact Table.keyed_of_table (ht.of_get? hget)
    · cases hu
  obtain ⟨t', ht', h⟩ := ok_of_bind h
  have hkeyed : t'.Keyed := by
    obtain ⟨content, -, hread⟩ := document_ok.1 ht'
    exact keyed_of_read hread
  split at h
  · obtain ⟨tool, htool, h⟩ := ok_of_bind h
    exact hinner (hinner hkeyed htool) h
  · cases h
    exact hkeyed

theorem checks_of_load {v : View} {path : Text} {c : Config} (h : load v path = .ok c) :
    c.checks.Pairwise fun d d' => d.name = d'.name → d.isServer = false ∧ d'.isServer = true := by
  obtain ⟨t, ht, -, rfl⟩ := load_ok.1 h
  have hkeyed := unified_keyed (tableIn_keyed ht)
  have hapart (part : Section) : (readSection (v.absolute path).parent (unified t)
      part).value.Pairwise fun d d' => d.name = d'.name → d.isServer = false ∧ d'.isServer = true :=
    (List.pairwise_map.1 (readSection_ok hkeyed _ part).1).imp fun hne heq => (hne heq).elim
  refine List.pairwise_append.2 ⟨hapart .commands, hapart .servers, fun d hd d' hd' _ => ?_⟩
  exact ⟨(readSection_ok hkeyed _ .commands).2 d hd, (readSection_ok hkeyed _ .servers).2 d' hd'⟩

end PathSelection.Config
