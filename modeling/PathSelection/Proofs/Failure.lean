import PathSelection.Failure

namespace PathSelection

variable {ε ε' α β : Type}

theorem ok_of_bind {x : Except ε α} {f : α → Except ε β} {b : β} (h : x >>= f = .ok b) :
    ∃ a, x = .ok a ∧ f a = .ok b := by
  cases x with
  | error e => cases h
  | ok a => exact ⟨a, rfl, h⟩

theorem error_of_bind {x : Except ε α} {f : α → Except ε β} {e : ε} (h : x >>= f = .error e) :
    x = .error e ∨ ∃ a, x = .ok a ∧ f a = .error e := by
  cases x with
  | error e' =>
    cases h
    exact .inl rfl
  | ok a => exact .inr ⟨a, rfl, h⟩

theorem ok_of_mapError {x : Except ε α} {f : ε → ε'} {a : α} (h : x.mapError f = .ok a) :
    x = .ok a := by
  cases x with
  | error e => cases h
  | ok b =>
    cases h
    rfl

theorem ok_of_toOption {x : Except ε α} {a : α} (h : x.toOption = some a) : x = .ok a := by
  cases x with
  | error e => cases h
  | ok b =>
    cases h
    rfl

theorem ok_of_forM {f : α → Except ε Unit} {as : List α} (h : as.forM f = .ok ()) :
    ∀ a ∈ as, f a = .ok () := by
  induction as with
  | nil => exact nofun
  | cons a as ih =>
    rw [List.forM_eq_forM, List.forM_cons] at h
    obtain ⟨u, ha, has⟩ := ok_of_bind h
    exact List.forall_mem_cons.2 ⟨ha, ih has⟩

theorem forM_of_ok {f : α → Except ε Unit} {as : List α} (h : ∀ a ∈ as, f a = .ok ()) :
    as.forM f = .ok () := by
  induction as with
  | nil => rfl
  | cons a as ih =>
    obtain ⟨ha, has⟩ := List.forall_mem_cons.1 h
    rw [List.forM_eq_forM, List.forM_cons, ha]
    exact ih has

theorem ok_of_mapM {f : α → Except ε β} {as : List α} {bs : List β} (h : as.mapM f = .ok bs) :
    (∀ a ∈ as, ∃ b, f a = .ok b) ∧ ∀ b, b ∈ bs ↔ ∃ a ∈ as, f a = .ok b := by
  induction as generalizing bs with
  | nil =>
    cases h
    exact ⟨nofun, fun b => by simp⟩
  | cons a as ih =>
    rw [List.mapM_cons] at h
    obtain ⟨b, hb, h⟩ := ok_of_bind h
    obtain ⟨rest, hrest, h⟩ := ok_of_bind h
    cases h
    obtain ⟨hall, hmem⟩ := ih hrest
    refine ⟨List.forall_mem_cons.2 ⟨⟨b, hb⟩, hall⟩, fun b' => ?_⟩
    simp only [List.mem_cons, hmem, or_and_right, exists_or, exists_eq_left, hb, Except.ok.injEq,
      eq_comm (a := b')]

theorem length_of_mapM {f : α → Except ε β} {as : List α} {bs : List β} (h : as.mapM f = .ok bs) :
    bs.length = as.length := by
  induction as generalizing bs with
  | nil =>
    cases h
    rfl
  | cons a as ih =>
    rw [List.mapM_cons] at h
    obtain ⟨b, -, h⟩ := ok_of_bind h
    obtain ⟨rest, hrest, h⟩ := ok_of_bind h
    cases h
    rw [List.length_cons, List.length_cons, ih hrest]

theorem mapM_append_of_ok {f : α → Except ε β} {as as' : List α} {bs bs' : List β}
    (h : as.mapM f = .ok bs) (h' : as'.mapM f = .ok bs') :
    (as ++ as').mapM f = .ok (bs ++ bs') := by
  rw [List.mapM_append, h, h']
  rfl

theorem exists_mapM_ok {f : α → Except ε β} {as : List α} (h : ∀ a ∈ as, ∃ b, f a = .ok b) :
    ∃ bs, as.mapM f = .ok bs := by
  induction as with
  | nil => exact ⟨[], rfl⟩
  | cons a as ih =>
    obtain ⟨⟨b, hb⟩, has⟩ := List.forall_mem_cons.1 h
    obtain ⟨bs, hbs⟩ := ih has
    refine ⟨b :: bs, ?_⟩
    rw [List.mapM_cons, hb, hbs]
    rfl

theorem filterAuxM_eq (f : α → Except ε Bool) (as acc : List α) :
    List.filterAuxM f as acc = List.filterAuxM f as [] >>= fun kept => .ok (kept ++ acc) := by
  induction as generalizing acc with
  | nil => rfl
  | cons a as ih =>
    rw [List.filterAuxM, List.filterAuxM]
    cases f a with
    | error e => rfl
    | ok b =>
      change List.filterAuxM f as (cond b (a :: acc) acc) =
        List.filterAuxM f as (cond b [a] []) >>= fun kept => .ok (kept ++ acc)
      rw [ih, ih (cond b [a] [])]
      cases List.filterAuxM f as [] with
      | error e => rfl
      | ok kept => cases b <;> simp [bind, Except.bind]

theorem filterM_cons (f : α → Except ε Bool) (a : α) (as : List α) :
    (a :: as).filterM f = f a >>= fun b => as.filterM f >>= fun kept =>
      .ok (if b then a :: kept else kept) := by
  rw [List.filterM, List.filterM, List.filterAuxM]
  cases f a with
  | error e => rfl
  | ok b =>
    change (List.filterAuxM f as (cond b [a] []) >>= fun kept => pure kept.reverse) = _
    rw [filterAuxM_eq]
    cases List.filterAuxM f as [] with
    | error e => rfl
    | ok kept => cases b <;> simp [bind, Except.bind, pure, Except.pure]

theorem ok_of_filterM {f : α → Except ε Bool} {as kept : List α} (h : as.filterM f = .ok kept) :
    kept.Sublist as ∧ (∀ a ∈ as, ∃ b, f a = .ok b) ∧ ∀ a, a ∈ kept ↔ a ∈ as ∧ f a = .ok true := by
  induction as generalizing kept with
  | nil =>
    cases h
    exact ⟨.slnil, nofun, fun a => by simp⟩
  | cons a as ih =>
    rw [filterM_cons] at h
    obtain ⟨b, hb, h⟩ := ok_of_bind h
    obtain ⟨rest, hrest, h⟩ := ok_of_bind h
    cases h
    obtain ⟨hsub, hdecided, hmem⟩ := ih hrest
    refine ⟨?_, List.forall_mem_cons.2 ⟨⟨b, hb⟩, hdecided⟩, fun a' => ?_⟩
    · cases b with
      | true => exact hsub.cons_cons a
      | false => exact hsub.cons a
    · rw [List.mem_cons, or_and_right, ← hmem]
      cases b with
      | true =>
        rw [if_pos rfl, List.mem_cons]
        exact or_congr_left (iff_self_and.2 fun he => he ▸ hb)
      | false =>
        have hnot : ¬(a' = a ∧ f a' = .ok true) := by
          rintro ⟨rfl, ha⟩
          cases hb.symm.trans ha
        rw [if_neg Bool.false_ne_true, or_iff_right hnot]

/-- The elements of a list have a property up to one that has another. -/
def Until (P Q : α → Prop) (as : List α) : Prop :=
  ∃ before a after, as = before ++ a :: after ∧ (∀ b ∈ before, P b) ∧ Q a

section Until

variable {P Q : α → Prop}

theorem not_until_nil : ¬Until P Q [] := by
  rintro ⟨before, a, after, h, -⟩
  cases before <;> cases h

theorem until_cons {a : α} {as : List α} :
    Until P Q (a :: as) ↔ Q a ∨ P a ∧ Until P Q as := by
  constructor
  · rintro ⟨before, b, after, h, hbefore, hb⟩
    cases before with
    | nil =>
      cases h
      exact .inl hb
    | cons c before =>
      cases h
      obtain ⟨hc, hbefore⟩ := List.forall_mem_cons.1 hbefore
      exact .inr ⟨hc, before, b, after, rfl, hbefore, hb⟩
  · rintro (ha | ⟨ha, before, b, after, rfl, hbefore, hb⟩)
    · exact ⟨[], a, as, rfl, List.forall_mem_nil _, ha⟩
    · exact ⟨a :: before, b, after, rfl, List.forall_mem_cons.2 ⟨ha, hbefore⟩, hb⟩

end Until

theorem exists_error_iff {x : Except ε α} : (∃ e, x = .error e) ↔ ¬∃ a, x = .ok a := by
  cases x <;> simp

/-- Every failure that a computation can end in has a property. -/
def OnlyFails (P : ε → Prop) (x : Except ε α) : Prop := ∀ e, x = .error e → P e

section OnlyFails

variable {P : ε → Prop}

theorem onlyFails_ok (a : α) : OnlyFails P (.ok a) := by
  intro e h
  cases h

theorem OnlyFails.bind {x : Except ε α} {f : α → Except ε β} (hx : OnlyFails P x)
    (hf : ∀ a, OnlyFails P (f a)) : OnlyFails P (x >>= f) := by
  intro e h
  rcases error_of_bind h with h | ⟨a, -, h⟩
  · exact hx e h
  · exact hf a e h

theorem onlyFails_filterM {f : α → Except ε Bool} (hf : ∀ a, OnlyFails P (f a)) (as : List α) :
    OnlyFails P (as.filterM f) := by
  induction as with
  | nil => exact onlyFails_ok []
  | cons a as ih =>
    rw [filterM_cons]
    exact (hf a).bind fun b => ih.bind fun kept => onlyFails_ok (if b then a :: kept else kept)

end OnlyFails

def Failure.Reported (e : Failure) : Prop := e.isReported = true

/-- A computation ends in a failure that is not reported. -/
def Escapes (x : Except Failure α) : Prop := ∃ e, x = .error e ∧ e.isReported = false

section Escapes

theorem not_escapes_ok (a : α) : ¬Escapes (.ok a) := by
  rintro ⟨e, h, -⟩
  cases h

theorem escapes_error {e : Failure} :
    Escapes (.error e : Except Failure α) ↔ e.isReported = false := by
  simp [Escapes]

theorem escapes_bind {x : Except Failure α} {f : α → Except Failure β} :
    Escapes (x >>= f) ↔ Escapes x ∨ ∃ a, x = .ok a ∧ Escapes (f a) := by
  cases x with
  | error e => simp [Escapes, bind, Except.bind]
  | ok a => simp [Escapes, bind, Except.bind]

theorem escapes_bind_pure {x : Except Failure α} {f : α → β} :
    Escapes (x >>= fun a => pure (f a)) ↔ Escapes x := by
  rw [escapes_bind, or_iff_left]
  rintro ⟨a, -, hok⟩
  exact not_escapes_ok _ hok

theorem escapes_foldlM {γ : Type} {f : α → Except Failure γ} {g : β → α → γ → β} {as : List α}
    {b : β} : Escapes (as.foldlM (fun b a => return g b a (← f a)) b) ↔
      Until (fun a => ∃ c, f a = .ok c) (fun a => Escapes (f a)) as := by
  induction as generalizing b with
  | nil => exact ⟨fun h => (not_escapes_ok b h).elim, fun h => (not_until_nil h).elim⟩
  | cons a as ih =>
    rw [List.foldlM_cons, until_cons]
    cases hf : f a with
    | error e => simp [bind, Except.bind, escapes_error]
    | ok c =>
      simp only [not_escapes_ok, false_or, Except.ok.injEq, exists_eq', true_and]
      exact ih

end Escapes

end PathSelection
