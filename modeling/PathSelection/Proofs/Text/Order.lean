import PathSelection.Proofs.Path.Absolute
import PathSelection.Proofs.Text.Distinct
import Mathlib.Data.List.Basic

namespace PathSelection

namespace Text

theorem lt_iff {s t : Text} : s < t ↔ le s t = true ∧ s ≠ t := by
  induction s generalizing t with
  | nil =>
    cases t with
    | nil => simp [le]
    | cons b t => simp [le]
  | cons a s ih =>
    cases t with
    | nil => simp [le]
    | cons b t =>
      have hlt : a < b ↔ a.toNat < b.toNat := Iff.rfl
      rw [List.cons_lt_cons_iff, ih, hlt]
      simp only [le, Bool.or_eq_true, decide_eq_true_eq, Bool.and_eq_true, beq_iff_eq, ne_eq,
        List.cons.injEq]
      constructor
      · rintro (h | ⟨rfl, h, hne⟩)
        · refine ⟨.inl h, ?_⟩
          rintro ⟨rfl, -⟩
          exact Nat.lt_irrefl _ h
        · exact ⟨.inr ⟨rfl, h⟩, fun he => hne he.2⟩
      · rintro ⟨h | ⟨rfl, h⟩, hne⟩
        · exact .inl h
        · exact .inr ⟨rfl, h, fun he => hne ⟨rfl, he⟩⟩

theorem pairwise_lt_mergeSort {α : Type} {text : α → Text} (htext : Function.Injective text)
    {as : List α} (h : as.Nodup) :
    (as.mergeSort fun a b => le (text a) (text b)).Pairwise fun a b => text a < text b := by
  have hsorted : (as.mergeSort fun a b => le (text a) (text b)).Pairwise
      fun a b => le (text a) (text b) = true :=
    @List.pairwise_mergeSort _ (fun a b => le (text a) (text b)) (fun _ _ _ => le_trans)
      (fun _ _ => le_total _ _) as
  have hnodup : (as.mergeSort fun a b => le (text a) (text b)).Nodup :=
    (List.mergeSort_perm _ _).nodup_iff.2 h
  exact hsorted.imp₂ (fun a b hle hne => lt_iff.2 ⟨hle, fun he => hne (htext he)⟩) hnodup

theorem pairwise_lt_sorted (ts : List Text) : (sorted ts).Pairwise (· < ·) :=
  pairwise_lt_mergeSort Function.injective_id (nodup_eraseDups ts)

theorem mem_sorted {t : Text} {ts : List Text} : t ∈ sorted ts ↔ t ∈ ts := by
  rw [sorted, (List.mergeSort_perm _ _).mem_iff, List.mem_eraseDups]

theorem eq_of_pairwise_lt {ts us : List Text} (ht : ts.Pairwise (· < ·))
    (hu : us.Pairwise (· < ·)) (h : ∀ t, t ∈ ts ↔ t ∈ us) : ts = us := by
  have hperm : ts.Perm us := (List.perm_ext_iff_of_nodup
    (ht.imp fun hlt => (lt_iff.1 hlt).2) (hu.imp fun hlt => (lt_iff.1 hlt).2)).2 h
  refine hperm.eq_of_pairwise (fun s t _ _ hst hts => ?_) ht hu
  exact le_antisymm (lt_iff.1 hst).1 (lt_iff.1 hts).1

theorem sorted_of_pairwise_lt {ts : List Text} (h : ts.Pairwise (· < ·)) : sorted ts = ts :=
  eq_of_pairwise_lt (pairwise_lt_sorted ts) h fun _ => mem_sorted

theorem sorted_singleton (t : Text) : sorted [t] = [t] :=
  sorted_of_pairwise_lt (List.pairwise_singleton _ t)

theorem sorted_congr {ts us : List Text} (h : ∀ t, t ∈ ts ↔ t ∈ us) : sorted ts = sorted us := by
  apply eq_of_pairwise_lt (pairwise_lt_sorted ts) (pairwise_lt_sorted us)
  intro t
  rw [mem_sorted, mem_sorted, h]

end Text

theorem Disk.pairwise_lt_names (d : Disk) (directory : RealPath) :
    (d.names directory).Pairwise fun m n => m.text < n.text := by
  unfold Disk.names
  split
  · exact .nil
  · exact Text.pairwise_lt_mergeSort Name.text_injective (nodup_eraseDups _)

end PathSelection
