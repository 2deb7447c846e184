import PathSelection.Proofs.Config.Faultless

namespace PathSelection.Config

open Toml

/-- Of the entries of a table that spell one key the last counts. -/
def Counts (t : Table) (e : Text × Value) : Prop :=
  ∃ before after, t = before ++ e :: after ∧ ∀ d ∈ after, unifiedKey d.1 ≠ unifiedKey e.1

variable {t : Table} {d e : Text × Value} {key : Text}

theorem Counts.mem (h : Counts t e) : e ∈ t := by
  obtain ⟨before, after, rfl, -⟩ := h
  exact List.mem_append_right before List.mem_cons_self

def lastOf (t : Table) (key : Text) : Option (Text × Value) :=
  t.reverse.find? fun e => unifiedKey e.1 = key

theorem lastOf_eq_some : lastOf t key = some e ↔ Counts t e ∧ unifiedKey e.1 = key := by
  unfold lastOf Counts
  rw [List.find?_eq_some_iff_append, decide_eq_true_eq]
  constructor
  · rintro ⟨rfl, later, earlier, hsplit, hlater⟩
    refine ⟨⟨earlier.reverse, later.reverse, ?_, fun d hd => ?_⟩, rfl⟩
    · rw [← List.reverse_inj, hsplit]
      simp
    · have hd := hlater d (List.mem_reverse.1 hd)
      simpa using hd
  · rintro ⟨⟨before, after, rfl, hafter⟩, rfl⟩
    refine ⟨rfl, after.reverse, before.reverse, by simp, fun d hd => ?_⟩
    simpa using hafter d (List.mem_reverse.1 hd)

theorem exists_counts (he : e ∈ t) : ∃ d, Counts t d ∧ unifiedKey d.1 = unifiedKey e.1 := by
  have hsome : (lastOf t (unifiedKey e.1)).isSome = true := by
    rw [lastOf, List.find?_isSome]
    exact ⟨e, List.mem_reverse.2 he, decide_eq_true rfl⟩
  obtain ⟨d, hd⟩ := Option.isSome_iff_exists.1 hsome
  exact ⟨d, lastOf_eq_some.1 hd⟩

theorem Counts.eq (hd : Counts t d) (he : Counts t e) (h : unifiedKey d.1 = unifiedKey e.1) :
    d = e := by
  have hlast := lastOf_eq_some.2 ⟨hd, h⟩
  rw [lastOf_eq_some.2 ⟨he, rfl⟩] at hlast
  exact (Option.some.inj hlast).symm

theorem Unambiguous.nodup_keys (h : Unambiguous t) : (t.map Prod.fst).Nodup := by
  apply List.Nodup.of_map unifiedKey
  rwa [List.map_map]

theorem all_count_iff (h : (t.map Prod.fst).Nodup) : (∀ e ∈ t, Counts t e) ↔ Unambiguous t := by
  constructor
  · intro hall
    apply List.Nodup.map_on
    · intro d hd e he heq
      exact (hall d hd).eq (hall e he) heq
    · exact List.Nodup.of_map Prod.fst h
  · intro hunambiguous e he
    obtain ⟨d, hd, heq⟩ := exists_counts he
    rwa [← List.inj_on_of_nodup_map hunambiguous hd.mem he heq]

theorem get?_unified_eq : (unified t).get? key = (lastOf t key).map Prod.snd := by
  rw [Table.get?, unified_eq, Entries.lookup_putAll, ← List.map_reverse]
  exact Entries.lookup_map (fun e => unifiedKey e.1) Prod.snd t.reverse key

theorem get?_unified_iff {v : Value} : (unified t).get? key = some v ↔
    ∃ e, Counts t e ∧ unifiedKey e.1 = key ∧ e.2 = v := by
  rw [get?_unified_eq, Option.map_eq_some_iff]
  simp only [lastOf_eq_some, and_assoc]

theorem map_fst_unified_eq :
    (unified t).map Prod.fst = ((t.map Prod.fst).map unifiedKey).eraseDups := by
  rw [unified_eq, Entries.map_fst_putAll, List.map_map, List.map_map]
  rfl

theorem mem_keys_unified : key ∈ (unified t).map Prod.fst ↔ ∃ e ∈ t, unifiedKey e.1 = key := by
  rw [map_fst_unified_eq, List.mem_eraseDups, List.map_map, List.mem_map]
  rfl

theorem has_unified : (unified t).has key = true ↔ ∃ e ∈ t, unifiedKey e.1 = key := by
  rw [Table.has, Table.get?, Entries.isSome_lookup, mem_keys_unified]

theorem unknownKeys_unified {known : List Text} :
    unknownKeys known (unified t) = [] ↔ ∀ e ∈ t, unifiedKey e.1 ∈ known := by
  rw [unknownKeys_eq_nil]
  constructor
  · intro h e he
    exact h _ (mem_keys_unified.2 ⟨e, he, rfl⟩)
  · intro h key hkey
    obtain ⟨e, he, rfl⟩ := mem_keys_unified.1 hkey
    exact h e he

theorem problems_field_unified {α : Type} {owner : Text} {kind : Kind α} :
    (field owner (unified t) key kind).problems = [] ↔
      ∀ e, Counts t e → unifiedKey e.1 = key → (kind.read? e.2).isSome = true := by
  rw [problems_field]
  constructor
  · intro h e he hkey
    exact h e.2 (get?_unified_iff.2 ⟨e, he, hkey, rfl⟩)
  · intro h v hv
    obtain ⟨e, he, hkey, rfl⟩ := get?_unified_iff.1 hv
    exact h e he hkey

theorem lastOf_map {f : Text × Value → Text × Value} (hf : ∀ d, (f d).1 = d.1) :
    lastOf (t.map f) key = (lastOf t key).map f := by
  have hspells : (fun d : Text × Value => decide (unifiedKey d.1 = key)) ∘ f =
      fun d => decide (unifiedKey d.1 = key) := by
    funext d
    rw [Function.comp_apply, hf]
  rw [lastOf, ← List.map_reverse, List.find?_map, hspells]
  rfl

theorem unified_put (h : (t.map Prod.fst).Nodup) (he : e ∈ t) (hcounts : ¬Counts t e) (v : Value) :
    unified (t.put e.1 v) = unified t := by
  have hkey : e.1 ∈ t.map Prod.fst := List.mem_map_of_mem he
  have hput : t.put e.1 v = t.map fun d => if d.1 = e.1 then (e.1, v) else d := by
    rw [Table.put_eq, Entries.put, if_pos (Entries.isSome_lookup.2 hkey)]
  have hkeys : (t.put e.1 v).map Prod.fst = t.map Prod.fst := by
    rw [Table.put_eq, Entries.map_fst_put, if_pos hkey]
  apply Entries.eq_of_lookup
  · rw [map_fst_unified_eq, map_fst_unified_eq, hkeys]
  · rw [unified_eq]
    exact Entries.nodup_putAll _
  · intro key
    change (unified (t.put e.1 v)).get? key = (unified t).get? key
    rw [get?_unified_eq, get?_unified_eq, hput, lastOf_map]
    · cases hd : lastOf t key with
      | none => rfl
      | some d =>
        -- What is found counts, so it is not the entry that is changed.
        obtain ⟨hd, -⟩ := lastOf_eq_some.1 hd
        have hne : d.1 ≠ e.1 := by
          intro hsame
          rw [List.inj_on_of_nodup_map h hd.mem he hsame] at hd
          exact hcounts hd
        simp only [Option.map_some, if_neg hne]
    · intro d
      split
      · next hd => exact hd.symm
      · rfl

end PathSelection.Config
