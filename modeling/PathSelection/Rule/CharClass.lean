import PathSelection.Text.Basic

namespace PathSelection

inductive ClassItem where
  | one (c : Char)
  | range (low high : Char)
deriving DecidableEq, Repr

namespace ClassItem

def covers (c : Char) : ClassItem → Bool
  | .one d => c = d
  | .range low high => low ≤ c && c ≤ high

/-- The members of a class. A hyphen between two characters makes a range; a first or last hyphen
is a character. -/
def ofText : Text → List ClassItem
  | c :: '-' :: d :: cs => .range c d :: ofText cs
  | c :: cs => .one c :: ofText cs
  | [] => []

end ClassItem

structure CharClass where
  negated : Bool
  items : List ClassItem
deriving DecidableEq, Repr

namespace CharClass

def holds (k : CharClass) (c : Char) : Bool := k.items.any (·.covers c) != k.negated

def close : Text → Option (Text × Text)
  | [] => none
  | ']' :: cs => some ([], cs)
  | c :: cs => (close cs).map fun (inside, rest) => (c :: inside, rest)

/-- The text inside the brackets and the text after them. A closing bracket at the very beginning
belongs to the class. -/
def inside : Text → Option (Text × Text)
  | ']' :: cs => (close cs).map fun (inside, rest) => (']' :: inside, rest)
  | cs => close cs

def read : Text → Option (CharClass × Text)
  | '!' :: cs | '^' :: cs => (inside cs).map fun (t, rest) => (⟨true, ClassItem.ofText t⟩, rest)
  | cs => (inside cs).map fun (t, rest) => (⟨false, ClassItem.ofText t⟩, rest)

theorem close_length {t inside rest : Text} (h : close t = some (inside, rest)) :
    rest.length < t.length := by
  fun_induction close t generalizing inside with
  | case1 => simp at h
  | case2 cs =>
    simp only [Option.some.injEq, Prod.mk.injEq] at h
    simp [h.2]
  | case3 c cs _ ih =>
    simp only [Option.map_eq_some_iff, Prod.mk.injEq, Prod.exists] at h
    obtain ⟨i, r, hr, -, rfl⟩ := h
    have := ih hr
    simp only [List.length_cons]
    omega

theorem inside_length {t i rest : Text} (h : inside t = some (i, rest)) :
    rest.length < t.length := by
  unfold inside at h
  split at h
  · simp only [Option.map_eq_some_iff, Prod.mk.injEq, Prod.exists] at h
    obtain ⟨_, r, hr, -, rfl⟩ := h
    have := close_length hr
    simp only [List.length_cons]
    omega
  · exact close_length h

theorem read_length {t rest : Text} {k : CharClass} (h : read t = some (k, rest)) :
    rest.length < t.length := by
  unfold read at h
  split at h
  · simp only [Option.map_eq_some_iff, Prod.mk.injEq, Prod.exists] at h
    obtain ⟨_, r, hr, -, rfl⟩ := h
    have := inside_length hr
    simp only [List.length_cons]
    omega
  · simp only [Option.map_eq_some_iff, Prod.mk.injEq, Prod.exists] at h
    obtain ⟨_, r, hr, -, rfl⟩ := h
    have := inside_length hr
    simp only [List.length_cons]
    omega
  · simp only [Option.map_eq_some_iff, Prod.mk.injEq, Prod.exists] at h
    obtain ⟨_, r, hr, -, rfl⟩ := h
    exact inside_length hr

end CharClass
end PathSelection
