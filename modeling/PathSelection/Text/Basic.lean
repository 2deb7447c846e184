namespace PathSelection

abbrev Text := List Char

instance : Coe String Text := ⟨String.toList⟩

namespace Text

/-- Every occurrence of `old`, from left to right, becomes `new`. -/
def replace (t old new : Text) : Text :=
  go t.length t
where
  go : Nat → Text → Text
    | 0, t => t
    | _, [] => []
    | n + 1, c :: cs =>
      if old ≠ [] ∧ old.isPrefixOf (c :: cs) then new ++ go n ((c :: cs).drop old.length)
      else c :: go n cs

def hasInfix (part : Text) : Text → Bool
  | [] => part.isEmpty
  | c :: cs => part.isPrefixOf (c :: cs) || hasInfix part cs

def ofNat (n : Nat) : Text := Nat.toDigits 10 n

end Text
end PathSelection
