import PathSelection.Disk.Basic

namespace PathSelection

/-- A directory met on a walk. -/
structure Site where
  path : AbsPath
  place : Place
  viaLink : Bool
deriving DecidableEq

namespace Site

def child? (d : Disk) (s : Site) (n : Name) : Option Site :=
  match d.get? (s.place.real ++ [n]) with
  | none => none
  | some (.link _) =>
    match d.follow s.place.links s.place.real [.down n] with
    | .ok p => if d.isDirAt p.real then some ⟨s.path.child n, p, true⟩ else none
    | .error _ => none
  | some e =>
    if e.isDir then some ⟨s.path.child n, ⟨s.place.real ++ [n], s.place.links⟩, false⟩ else none

/-- The directories in a directory, links to directories included, in the order of their names. -/
def children (d : Disk) (s : Site) : List Site := (d.names s.place.real).filterMap (s.child? d)

/-- The other entries of a directory, links that lead to no directory included. -/
def files (d : Disk) (s : Site) : List AbsPath :=
  ((d.names s.place.real).filter fun n => (s.child? d n).isNone).map s.path.child

def isListable (d : Disk) (s : Site) : Bool :=
  match d.get? s.place.real with
  | some (.dir listable) => listable
  | _ => false

end Site

namespace Disk

def below (d : Disk) (p : RealPath) : Nat :=
  (d.entries.map Prod.fst).countP fun q => p.isPrefixOf q && p != q

end Disk

namespace Site

def weight (d : Disk) (s : Site) : Nat := d.below s.place.real + 1

end Site

def total {α : Type} (f : α → Nat) : List α → Nat
  | [] => 0
  | a :: as => f a + total f as

theorem nodup_eraseDups {α : Type} [BEq α] [LawfulBEq α] (l : List α) : l.eraseDups.Nodup := by
  induction hn : l.length using Nat.strongRecOn generalizing l with
  | ind n ih =>
    cases l with
    | nil => simp
    | cons a as =>
      rw [List.eraseDups_cons, List.nodup_cons]
      refine ⟨by simp [List.mem_eraseDups], ih _ ?_ _ rfl⟩
      have := List.length_filter_le (fun b => !b == a) as
      simp only [List.length_cons] at hn
      omega

theorem Disk.nodup_names (d : Disk) (p : RealPath) : (d.names p).Nodup := by
  unfold Disk.names
  split
  · exact List.nodup_nil
  · exact (List.mergeSort_perm _ _).nodup_iff.2 (nodup_eraseDups _)

theorem countP_add_countP_le {α : Type} {p q r : α → Bool} (hp : ∀ a, p a → r a)
    (hq : ∀ a, q a → r a) (hpq : ∀ a, p a → q a → False) (l : List α) :
    l.countP p + l.countP q ≤ l.countP r := by
  induction l with
  | nil => simp
  | cons a l ih =>
    simp only [List.countP_cons]
    have h1 := hp a
    have h2 := hq a
    have h3 := hpq a
    cases hpa : p a <;> cases hqa : q a <;> cases hra : r a <;> simp_all <;> omega

theorem total_countP_le {α β : Type} {p : α → β → Bool} {ns : List α} (hns : ns.Nodup)
    {r : β → Bool} (hr : ∀ n ∈ ns, ∀ b, p n b → r b)
    (hd : ∀ m ∈ ns, ∀ n ∈ ns, ∀ b, p m b → p n b → m = n) (l : List β) :
    total (fun n => l.countP (p n)) ns ≤ l.countP r := by
  induction ns generalizing r with
  | nil => exact Nat.zero_le _
  | cons n ns ih =>
    rw [List.nodup_cons] at hns
    have hrest := ih hns.2 (r := fun b => r b && !p n b)
      (fun m hm b hb => by
        have hmn : p n b ≠ true := fun h =>
          hns.1 (hd m (by simp [hm]) n (by simp) b hb h ▸ hm)
        simp [hr m (by simp [hm]) b hb, hmn])
      (fun a ha b hb => hd a (by simp [ha]) b (by simp [hb]))
    have hadd := countP_add_countP_le (p := p n) (q := fun b => r b && !p n b) (r := r)
      (hr n (by simp)) (by simp_all) (by simp_all) l
    simp only [total]
    omega

theorem total_le_of_sublist {α : Type} (f : α → Nat) {l₁ l₂ : List α} (h : l₁.Sublist l₂) :
    total f l₁ ≤ total f l₂ := by
  induction h with
  | slnil => exact Nat.le_refl _
  | cons a _ ih => simp only [total]; omega
  | cons_cons a _ ih => simp only [total]; omega

theorem total_append {α : Type} (f : α → Nat) (l₁ l₂ : List α) :
    total f (l₁ ++ l₂) = total f l₁ + total f l₂ := by
  induction l₁ with
  | nil => simp [total]
  | cons a l₁ ih => simp only [List.cons_append, total, ih]; omega

namespace Site

theorem weight_child?_le {d : Disk} {s c : Site} {n : Name} (h : s.child? d n = some c)
    (hl : c.viaLink = false) :
    c.weight d ≤ (d.entries.map Prod.fst).countP (s.place.real ++ [n]).isPrefixOf := by
  unfold child? at h
  split at h
  · cases h
  · split at h
    · split at h
      · simp only [Option.some.injEq] at h
        subst h
        simp at hl
      · cases h
    · cases h
  · next he =>
    split at h
    case isFalse => cases h
    simp only [Option.some.injEq] at h
    subst h
    have hkey := Disk.mem_keys he (.inl (by simp))
    generalize s.place.real ++ [n] = real at hkey ⊢
    have hle := countP_add_countP_le (p := fun q => real.isPrefixOf q && real != q)
      (q := fun q => real.isPrefixOf q && !(real != q)) (r := real.isPrefixOf)
      (by simp_all) (by simp_all) (by simp_all) (d.entries.map Prod.fst)
    have hone := List.countP_pos_iff (p := fun q => real.isPrefixOf q && !(real != q)).2
      ⟨_, hkey, by simp⟩
    simp only [weight, Disk.below]
    omega

theorem total_weight_children_le (d : Disk) (s : Site) :
    total (weight d) ((s.children d).filter (!·.viaLink)) ≤ d.below s.place.real := by
  have hcount : ∀ ns : List Name,
      total (weight d) ((ns.filterMap (s.child? d)).filter (!·.viaLink)) ≤
        total (fun n =>
          (d.entries.map Prod.fst).countP (s.place.real ++ [n]).isPrefixOf) ns := by
    intro ns
    induction ns with
    | nil => exact Nat.le_refl _
    | cons n ns ih =>
      simp only [total]
      cases hc : s.child? d n with
      | none => rw [List.filterMap_cons_none hc]; omega
      | some c =>
        rw [List.filterMap_cons_some hc]
        cases hl : c.viaLink with
        | true => rw [List.filter_cons_of_neg (by simp [hl])]; omega
        | false =>
          rw [List.filter_cons_of_pos (by simp [hl]), total]
          have := weight_child?_le hc hl
          omega
  refine Nat.le_trans (hcount _) (total_countP_le (d.nodup_names _) ?_ ?_ _)
  · intro n _ q hq
    simp only [List.isPrefixOf_iff_prefix] at hq
    obtain ⟨t, rfl⟩ := hq
    simp
  · intro m _ n _ q hm hn
    simp only [List.isPrefixOf_iff_prefix] at hm hn
    have := (List.prefix_of_prefix_length_le hm hn (by simp)).eq_of_length (by simp)
    simpa using this

end Site
end PathSelection
