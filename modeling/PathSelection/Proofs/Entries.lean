import Mathlib.Data.List.Induction
import Mathlib.Data.List.Nodup
import PathSelection.Check.Plan
import PathSelection.Toml.Value

namespace PathSelection.Entries

variable {α β : Type} [BEq α] [LawfulBEq α] [DecidableEq α]

def put (es : List (α × β)) (key : α) (value : β) : List (α × β) :=
  if (es.lookup key).isSome then es.map fun e => if e.1 = key then (key, value) else e
  else es ++ [(key, value)]

theorem lookup_cons (e : α × β) (es : List (α × β)) (k : α) :
    (e :: es).lookup k = if k = e.1 then some e.2 else es.lookup k := by
  rw [List.lookup_cons]
  by_cases h : k = e.1
  · rw [if_pos h, beq_iff_eq.2 h]
  · rw [if_neg h, beq_eq_false_iff_ne.2 h]

theorem isSome_lookup {es : List (α × β)} {k : α} :
    (es.lookup k).isSome = true ↔ k ∈ es.map Prod.fst := by
  induction es with
  | nil => simp
  | cons e es ih =>
    rw [lookup_cons, List.map_cons, List.mem_cons, ← ih]
    by_cases h : k = e.1
    · simp [h]
    · simp [h]

theorem map_fst_put (es : List (α × β)) (key : α) (value : β) :
    (put es key value).map Prod.fst =
      if key ∈ es.map Prod.fst then es.map Prod.fst else es.map Prod.fst ++ [key] := by
  unfold put
  by_cases h : key ∈ es.map Prod.fst
  · rw [if_pos (isSome_lookup.2 h), if_pos h, List.map_map]
    apply List.map_congr_left
    intro e _
    rw [Function.comp_apply]
    split
    · next h => exact h.symm
    · rfl
  · rw [if_neg (isSome_lookup.not.2 h), if_neg h, List.map_append]
    rfl

theorem nodup_put {es : List (α × β)} (h : (es.map Prod.fst).Nodup) (key : α) (value : β) :
    ((put es key value).map Prod.fst).Nodup := by
  rw [map_fst_put]
  split
  · exact h
  · next hkey =>
    rw [← List.concat_eq_append]
    exact (List.nodup_concat _ _).2 ⟨hkey, h⟩

omit [LawfulBEq α] in
theorem mem_put {es : List (α × β)} {key : α} {value : β} {e : α × β}
    (h : e ∈ put es key value) : e ∈ es ∨ e = (key, value) := by
  unfold put at h
  split at h
  · obtain ⟨d, hd, rfl⟩ := List.mem_map.1 h
    split
    · exact .inr rfl
    · exact .inl hd
  · rcases List.mem_append.1 h with h | h
    · exact .inl h
    · exact .inr (List.mem_singleton.1 h)

theorem lookup_replaced {es : List (α × β)} {key : α} (h : key ∈ es.map Prod.fst) (value : β) :
    (es.map fun e => if e.1 = key then (key, value) else e).lookup key = some value := by
  induction es with
  | nil => cases h
  | cons e es ih =>
    rw [List.map_cons, lookup_cons]
    by_cases he : e.1 = key
    · rw [if_pos he, if_pos rfl]
    · rw [if_neg he, if_neg (Ne.symm he)]
      exact ih ((List.mem_cons.1 h).resolve_left (Ne.symm he))

theorem lookup_not_replaced (es : List (α × β)) {key k : α} (h : k ≠ key) (value : β) :
    (es.map fun e => if e.1 = key then (key, value) else e).lookup k = es.lookup k := by
  induction es with
  | nil => rfl
  | cons e es ih =>
    rw [List.map_cons, lookup_cons, lookup_cons, ih]
    by_cases he : e.1 = key
    · rw [if_pos he, if_neg h, if_neg (he ▸ h)]
    · rw [if_neg he]

theorem lookup_put (es : List (α × β)) (key k : α) (value : β) :
    (put es key value).lookup k = if k = key then some value else es.lookup k := by
  unfold put
  by_cases hkey : key ∈ es.map Prod.fst
  · rw [if_pos (isSome_lookup.2 hkey)]
    by_cases hk : k = key
    · rw [if_pos hk, hk, lookup_replaced hkey]
    · rw [if_neg hk, lookup_not_replaced es hk]
  · have hnone := isSome_lookup.not.2 hkey
    rw [if_neg hnone, List.lookup_append, lookup_cons]
    by_cases hk : k = key
    · rw [Bool.not_eq_true, Option.isSome_eq_false_iff, Option.isNone_iff_eq_none] at hnone
      rw [if_pos hk, if_pos hk, hk, hnone]
      rfl
    · rw [if_neg hk, if_neg hk]
      exact Option.or_none

theorem lookup_eq_some {es : List (α × β)} (h : (es.map Prod.fst).Nodup) {k : α} {v : β} :
    es.lookup k = some v ↔ (k, v) ∈ es := by
  induction es with
  | nil => simp
  | cons e es ih =>
    obtain ⟨hnew, hes⟩ := List.nodup_cons.1 h
    rw [lookup_cons, List.mem_cons]
    by_cases hk : k = e.1
    · have hnone : (k, v) ∉ es := fun hmem => hnew (hk ▸ List.mem_map_of_mem hmem)
      rw [if_pos hk, or_iff_left hnone, Option.some.injEq, Prod.ext_iff]
      exact ⟨fun hv => ⟨hk, hv.symm⟩, fun hv => hv.2.symm⟩
    · rw [if_neg hk, ih hes]
      exact (or_iff_right fun he => hk (congrArg Prod.fst he)).symm

theorem lookup_map {γ : Type} (f : γ → α) (g : γ → β) (cs : List γ) (k : α) :
    (cs.map fun c => (f c, g c)).lookup k = (cs.find? fun c => f c = k).map g := by
  induction cs with
  | nil => rfl
  | cons c cs ih =>
    rw [List.map_cons, lookup_cons, ih, List.find?_cons]
    by_cases h : k = f c
    · simp only [if_pos h, decide_eq_true h.symm, Option.map_some]
    · simp only [if_neg h, decide_eq_false (Ne.symm h)]

theorem eq_of_lookup {es es' : List (α × β)} (hkeys : es.map Prod.fst = es'.map Prod.fst)
    (h : (es.map Prod.fst).Nodup) (hlookup : ∀ k, es.lookup k = es'.lookup k) : es = es' := by
  have hfound {ds : List (α × β)} (hds : (ds.map Prod.fst).Nodup) :
      ds.map some = (ds.map Prod.fst).map fun k => (ds.lookup k).map (k, ·) := by
    rw [List.map_map]
    apply List.map_congr_left
    intro e he
    rw [Function.comp_apply, (lookup_eq_some hds).2 he]
    rfl
  apply List.map_injective_iff.2 fun _ _ => Option.some.inj
  rw [hfound h, hfound (hkeys ▸ h), hkeys]
  simp only [hlookup]

def putAll (es u : List (α × β)) : List (α × β) := es.foldl (fun u e => put u e.1 e.2) u

omit [LawfulBEq α] in
theorem putAll_concat (es : List (α × β)) (e : α × β) (u : List (α × β)) :
    putAll (es ++ [e]) u = put (putAll es u) e.1 e.2 := by
  rw [putAll, List.foldl_append]
  rfl

theorem map_fst_putAll (es : List (α × β)) :
    (putAll es []).map Prod.fst = (es.map Prod.fst).eraseDups := by
  induction es using List.reverseRecOn with
  | nil => rfl
  | append_singleton es e ih =>
    rw [putAll_concat, map_fst_put, ih, List.map_append, List.eraseDups_append,
      List.map_singleton]
    by_cases he : e.1 ∈ es.map Prod.fst
    · have hremoved : [e.1].removeAll (es.map Prod.fst) = [] := by simp [List.removeAll, he]
      rw [if_pos (List.mem_eraseDups.2 he), hremoved, List.eraseDups_nil, List.append_nil]
    · have hkept : [e.1].removeAll (es.map Prod.fst) = [e.1] := by simp [List.removeAll, he]
      rw [if_neg (List.mem_eraseDups.not.2 he), hkept]
      rfl

theorem nodup_putAll (es : List (α × β)) : ((putAll es []).map Prod.fst).Nodup := by
  induction es using List.reverseRecOn with
  | nil => exact List.nodup_nil
  | append_singleton es e ih =>
    rw [putAll_concat]
    exact nodup_put ih e.1 e.2

theorem lookup_putAll (es : List (α × β)) (k : α) :
    (putAll es []).lookup k = es.reverse.lookup k := by
  induction es using List.reverseRecOn with
  | nil => rfl
  | append_singleton es e ih =>
    rw [putAll_concat, lookup_put, List.reverse_append, List.reverse_singleton,
      List.singleton_append, lookup_cons, ih]

theorem putAll_of_nodup {es : List (α × β)} (h : (es.map Prod.fst).Nodup) : putAll es [] = es := by
  induction es using List.reverseRecOn with
  | nil => rfl
  | append_singleton es e ih =>
    rw [List.map_append, List.map_singleton, ← List.concat_eq_append] at h
    obtain ⟨he, hes⟩ := (List.nodup_concat _ _).1 h
    rw [putAll_concat, ih hes, put, if_neg (isSome_lookup.not.2 he)]

end Entries

theorem Toml.Table.put_eq (t : Toml.Table) (key : Text) (v : Toml.Value) :
    t.put key v = Entries.put t key v :=
  rfl

theorem Plan.put_eq (p : Plan) (name : Text) (paths : List Text) :
    p.put name paths = Entries.put p name paths := by
  have h : p.any (·.1 = name) = true ↔ (List.lookup name p).isSome = true := by
    simp only [Entries.isSome_lookup, List.any_eq_true, List.mem_map, decide_eq_true_eq]
  unfold put Entries.put
  exact if_congr h rfl rfl

end PathSelection
