import PathSelection.Text.Basic

namespace PathSelection.Text

def le : Text → Text → Bool
  | [], _ => true
  | _ :: _, [] => false
  | a :: s, b :: t => decide (a.toNat < b.toNat) || (a == b && le s t)

theorem le_total (s t : Text) : (le s t || le t s) = true := by
  induction s generalizing t with
  | nil => rfl
  | cons a s ih =>
    cases t with
    | nil => rfl
    | cons b t =>
      simp only [le, Bool.or_eq_true, decide_eq_true_eq, Bool.and_eq_true, beq_iff_eq]
      rcases Nat.lt_trichotomy a.toNat b.toNat with h | h | h
      · exact .inl (.inl h)
      · obtain rfl := Char.toNat_inj.1 h
        have := ih t
        simp only [Bool.or_eq_true] at this
        simpa using this
      · exact .inr (.inl h)

theorem le_trans {s t u : Text} (h₁ : le s t = true) (h₂ : le t u = true) : le s u = true := by
  induction s generalizing t u with
  | nil => rfl
  | cons a s ih =>
    cases t with
    | nil => cases h₁
    | cons b t =>
      cases u with
      | nil => cases h₂
      | cons c u =>
        simp only [le, Bool.or_eq_true, decide_eq_true_eq, Bool.and_eq_true, beq_iff_eq] at h₁ h₂ ⊢
        rcases h₁ with h₁ | ⟨rfl, h₁⟩ <;> rcases h₂ with h₂ | ⟨rfl, h₂⟩
        · exact .inl (Nat.lt_trans h₁ h₂)
        · exact .inl h₁
        · exact .inl h₂
        · exact .inr ⟨rfl, ih h₁ h₂⟩

theorem le_antisymm {s t : Text} (h₁ : le s t = true) (h₂ : le t s = true) : s = t := by
  induction s generalizing t with
  | nil =>
    cases t with
    | nil => rfl
    | cons b t => cases h₂
  | cons a s ih =>
    cases t with
    | nil => cases h₁
    | cons b t =>
      simp only [le, Bool.or_eq_true, decide_eq_true_eq, Bool.and_eq_true, beq_iff_eq] at h₁ h₂
      rcases h₁ with h₁ | ⟨rfl, h₁⟩
      · rcases h₂ with h₂ | ⟨rfl, -⟩ <;> omega
      · rcases h₂ with h₂ | ⟨-, h₂⟩
        · omega
        · rw [ih h₁ h₂]

def sorted (ts : List Text) : List Text := ts.eraseDups.mergeSort le

end PathSelection.Text
