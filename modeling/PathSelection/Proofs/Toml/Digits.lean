import PathSelection.Toml.Document

namespace PathSelection.Toml

open Scanner

section Steps

variable {α β : Type} {s s' : Scanner α} {f : α → Scanner β} {t t' : Text} {a : α} {e : Fault}

theorem bind_of_ok (h : s t = .ok (a, t')) : (s >>= f) t = f a t' := by
  change Except.bind (s t) _ = _
  rw [h]
  rfl

theorem bind_of_error (h : s t = .error e) : (s >>= f) t = .error e := by
  change Except.bind (s t) _ = _
  rw [h]
  rfl

end Steps

section Decimal

variable {c : Char} {cs : Text}

end Decimal

end PathSelection.Toml
