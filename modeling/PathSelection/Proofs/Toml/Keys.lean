import PathSelection.Proofs.Entries
import PathSelection.Proofs.Failure
import PathSelection.Toml.Document

namespace PathSelection.Toml

/-- No table in the value, at any depth, has a key twice. -/
inductive Value.Keyed : Value → Prop
  | atom {v : Value} (h : v.isClosed = false) : Keyed v
  | array {vs : List Value} (h : ∀ v ∈ vs, Keyed v) : Keyed (.array vs)
  | table {t : Table} (hkeys : (t.map Prod.fst).Nodup) (h : ∀ e ∈ t, Keyed e.2) : Keyed (.table t)

theorem Value.Keyed.item {vs : List Value} (h : Keyed (.array vs)) : ∀ v ∈ vs, v.Keyed := by
  cases h with
  | atom h => cases h
  | array h => exact h

namespace Table

def Keyed (t : Table) : Prop := (t.map Prod.fst).Nodup ∧ ∀ e ∈ t, e.2.Keyed

theorem keyed_of_table {t : Table} (h : Value.Keyed (.table t)) : t.Keyed := by
  cases h with
  | atom h => cases h
  | table hkeys h => exact ⟨hkeys, h⟩

theorem Keyed.value {t : Table} (h : t.Keyed) : Value.Keyed (.table t) := .table h.1 h.2

theorem keyed_nil : Keyed [] := ⟨List.nodup_nil, nofun⟩

theorem Keyed.of_get? {t : Table} (h : t.Keyed) {key : Text} {v : Value}
    (hv : t.get? key = some v) : v.Keyed := by
  obtain ⟨l₁, l₂, rfl, -⟩ := List.lookup_eq_some_iff.1 hv
  exact h.2 (key, v) (List.mem_append_right l₁ List.mem_cons_self)

theorem Keyed.put {t : Table} (h : t.Keyed) {v : Value} (hv : v.Keyed) (key : Text) :
    (t.put key v).Keyed := by
  rw [put_eq]
  refine ⟨Entries.nodup_put h.1 key v, fun e he => ?_⟩
  rcases Entries.mem_put he with he | rfl
  · exact h.2 e he
  · exact hv

def Keeps (f : Table → Option Table) : Prop := ∀ t u, t.Keyed → f t = some u → u.Keyed

theorem changeLast_keyed {f : Value → Option Value} (hf : ∀ v w, v.Keyed → f v = some w → w.Keyed)
    {vs ws : List Value} (h : ∀ v ∈ vs, v.Keyed) (hc : changeLast f vs = some ws) :
    ∀ w ∈ ws, w.Keyed := by
  induction vs using changeLast.induct generalizing ws with
  | case1 => cases hc
  | case2 v =>
    obtain ⟨w, hw, rfl⟩ := Option.map_eq_some_iff.1 hc
    intro w' hw'
    obtain rfl := List.mem_singleton.1 hw'
    exact hf v _ (h v List.mem_cons_self) hw
  | case3 v vs hvs ih =>
    rw [changeLast.eq_3 _ _ _ hvs] at hc
    obtain ⟨us, hus, rfl⟩ := Option.map_eq_some_iff.1 hc
    intro w hw
    rcases List.mem_cons.1 hw with rfl | hw
    · exact h w List.mem_cons_self
    · exact ih (fun u hu => h u (List.mem_cons_of_mem v hu)) hus w hw

theorem keeps_within {throughArrays : Bool} {f : Table → Option Table} (hf : Keeps f) (key : Key) :
    Keeps (within throughArrays key f) := by
  induction key with
  | nil => exact hf
  | cons k ks ih =>
    have hstep : ∀ v w : Value, v.Keyed → (v.table?.bind fun inner =>
        (within throughArrays ks f inner).map Value.table) = some w → w.Keyed := by
      intro v w hv hw
      obtain ⟨inner, hinner, hw⟩ := Option.bind_eq_some_iff.1 hw
      obtain ⟨inner', hwithin, rfl⟩ := Option.map_eq_some_iff.1 hw
      cases v with
      | table t =>
        cases hinner
        exact (ih inner inner' (keyed_of_table hv) hwithin).value
      | _ => cases hinner
    intro t u ht hu
    unfold within at hu
    simp only at hu
    split at hu
    · obtain ⟨inner, hinner, rfl⟩ := Option.map_eq_some_iff.1 hu
      exact ht.put (ih [] inner keyed_nil hinner).value k
    · next vs hget =>
      split at hu
      · obtain ⟨ws, hws, rfl⟩ := Option.map_eq_some_iff.1 hu
        have hitems := changeLast_keyed hstep (ht.of_get? hget).item hws
        exact ht.put (.array hitems) k
      · cases hu
    · next v _ hget =>
      obtain ⟨w, hw, rfl⟩ := Option.map_eq_some_iff.1 hu
      exact ht.put (hstep v w (ht.of_get? hget) hw) k

theorem keeps_add (throughArrays : Bool) (key : Key) {v : Value} (hv : v.Keyed) :
    Keeps (add throughArrays key v) := by
  intro t u ht hu
  unfold add at hu
  obtain ⟨last, -, hu⟩ := Option.bind_eq_some_iff.1 hu
  apply keeps_within _ _ t u ht hu
  intro inner inner' hinner he
  simp only at he
  split at he
  · cases he
  · cases he
    exact hinner.put hv last

theorem keeps_appendItem (key : Key) : Keeps (appendItem key) := by
  intro t u ht hu
  unfold appendItem at hu
  obtain ⟨last, -, hu⟩ := Option.bind_eq_some_iff.1 hu
  apply keeps_within _ _ t u ht hu
  intro inner inner' hinner he
  have hnew : Value.Keyed (.table []) := keyed_nil.value
  simp only at he
  split at he
  · cases he
    exact hinner.put (.array (by simpa using hnew)) last
  · next vs hget =>
    cases he
    refine hinner.put (.array fun v hv => ?_) last
    rcases List.mem_append.1 hv with hv | hv
    · exact (hinner.of_get? hget).item v hv
    · exact List.mem_singleton.1 hv ▸ hnew
  · cases he

end Table
namespace Scanner

variable {α β : Type}

def Yields (P : α → Prop) (s : Scanner α) : Prop := ∀ t a rest, s t = .ok (a, rest) → P a

section Yields

variable {P : α → Prop} {Q : β → Prop}

theorem yields_anything (s : Scanner α) : Yields (fun _ => True) s := fun _ _ _ _ => trivial

theorem yields_pure {a : α} (h : P a) : Yields P (pure a) := by
  intro t b rest hb
  cases hb
  exact h

theorem yields_failure : Yields P (failure : Scanner α) := by
  intro t a rest h
  cases h

theorem yields_tooLong : Yields P (tooLong : Scanner α) := by
  intro t a rest h
  cases h

theorem yields_lift (o : Option α) : Yields (fun a => o = some a) (liftM o : Scanner α) := by
  intro t a rest h
  cases o with
  | none => cases h
  | some b =>
    cases h
    rfl

theorem Yields.bind {s : Scanner α} {f : α → Scanner β} (hs : Yields P s)
    (hf : ∀ a, P a → Yields Q (f a)) : Yields Q (s >>= f) := by
  intro t b rest h
  obtain ⟨⟨a, u⟩, ha, hb⟩ := ok_of_bind h
  exact hf a (hs t a u ha) u b rest hb

theorem Yields.after {f : α → Scanner β} (hf : ∀ a, Yields Q (f a)) (s : Scanner α) :
    Yields Q (s >>= f) :=
  (yields_anything s).bind fun a _ => hf a

theorem Yields.orElse {s s' : Scanner α} (h : Yields P s) (h' : Yields P s') :
    Yields P (s <|> s') := by
  intro t a rest ha
  have ha : (s t).orElse (fun _ => s' t) = .ok (a, rest) := ha
  unfold Attempt.orElse at ha
  split at ha
  · exact h' t a rest ha
  · cases ha
  · next hs =>
    cases ha
    exact h t a rest hs

end Yields

theorem yields_scalar : Yields Value.Keyed scalar := by
  have hatom {v : Value} (hv : v.isClosed = false) : Yields Value.Keyed (pure v) :=
    yields_pure (.atom hv)
  have hbased (mark : Char) (base : Nat) (isDigit : Char → Bool) :
      Yields Value.Keyed (basedInteger.based mark base isDigit) := by
    apply Yields.after
    intro _
    apply Yields.after
    intro ds
    exact hatom rfl
  have hdate : Yields Value.Keyed dateOrDateTime := by
    apply Yields.after
    intro p
    apply yields_pure
    split
    · exact .atom rfl
    · exact .atom rfl
  have hdecimal : Yields Value.Keyed decimal := by
    apply Yields.after
    intro p
    obtain ⟨⟨isFloat, negative, whole⟩, text⟩ := p
    simp only
    split
    · exact hatom rfl
    · split
      · exact yields_tooLong
      · exact hatom rfl
  apply Yields.orElse
  · exact Yields.after (fun _ => hatom rfl) _
  apply Yields.orElse
  · exact Yields.after (fun _ => hatom rfl) _
  apply hdate.orElse
  apply Yields.orElse
  · exact Yields.after (fun _ => hatom rfl) _
  apply Yields.orElse
  · exact (hbased _ _ _).orElse ((hbased _ _ _).orElse (hbased _ _ _))
  apply hdecimal.orElse
  exact Yields.after (fun _ => hatom rfl) _

theorem yields_pair {s : Scanner Value} (hs : Yields Value.Keyed s) :
    Yields (fun p => p.2.Keyed) (pair s) := by
  apply Yields.after
  intro k
  apply Yields.after
  intro _
  apply Yields.after
  intro _
  exact hs.bind fun v hv => yields_pure hv

theorem yields_add (throughArrays : Bool) (key : Key) {v : Value} (hv : v.Keyed) {t : Table}
    (ht : t.Keyed) : Yields Table.Keyed (liftM (Table.add throughArrays key v t)) :=
  fun text u rest h =>
    Table.keeps_add throughArrays key hv t u ht (yields_lift _ text u rest h)

theorem yields_values (n : Nat) : Yields Value.Keyed (value n) ∧
    Yields (fun vs => ∀ v ∈ vs, v.Keyed) (items n) ∧
    ∀ closed t, t.Keyed → Yields Table.Keyed (pairs n closed t) := by
  induction n with
  | zero => exact ⟨yields_failure, yields_failure, fun _ _ _ => yields_failure⟩
  | succ n ih =>
    obtain ⟨hvalue, hitems, hpairs⟩ := ih
    refine ⟨?_, ?_, ?_⟩
    · unfold value
      apply Yields.after
      intro c
      split
      · exact Yields.after (fun _ => yields_pure (.atom rfl)) _
      · exact Yields.after (fun _ => yields_pure (.atom rfl)) _
      · apply Yields.after
        intro _
        exact hitems.bind fun vs hvs => yields_pure (.array hvs)
      · apply Yields.after
        intro _
        apply Yields.after
        intro _
        apply Yields.after
        intro closes
        split
        · exact yields_pure Table.keyed_nil.value
        · exact (hpairs [] [] Table.keyed_nil).bind fun t ht => yields_pure ht.value
      · exact yields_scalar
    · unfold items
      apply Yields.after
      intro _
      apply Yields.after
      intro closes
      split
      · exact yields_pure nofun
      refine hvalue.bind fun v hv => ?_
      apply Yields.after
      intro _
      apply Yields.after
      intro closes
      split
      · exact yields_pure (by simpa using hv)
      apply Yields.after
      intro _
      exact hitems.bind fun vs hvs => yields_pure (List.forall_mem_cons.2 ⟨hv, hvs⟩)
    · intro closed t ht
      change Yields Table.Keyed (pair (value n) >>= _)
      refine (yields_pair hvalue).bind fun (k, v) hv => ?_
      apply Yields.after
      intro _
      refine (yields_add false k hv ht).bind fun u hu => ?_
      apply Yields.after
      intro _
      apply Yields.after
      intro closes
      split
      · exact yields_pure hu
      apply Yields.after
      intro _
      apply Yields.after
      intro _
      exact hpairs _ u hu

end Scanner

namespace Draft

def Keyed (d : Draft) : Prop := d.table.Keyed

variable {d d' : Draft}

theorem entry_keyed (hd : d.Keyed) {k : Key} {v : Value} (hv : v.Keyed)
    (h : d.entry k v = some d') : d'.Keyed := by
  unfold entry at h
  obtain ⟨_, -, h⟩ := Option.bind_eq_some_iff.1 h
  obtain ⟨_, -, h⟩ := Option.bind_eq_some_iff.1 h
  obtain ⟨t, ht, h⟩ := Option.bind_eq_some_iff.1 h
  cases h
  exact Table.keeps_add true _ hv d.table t hd ht

theorem openTable_keyed (hd : d.Keyed) {k : Key} (h : d.openTable k = some d') :
    d'.Keyed := by
  unfold openTable at h
  obtain ⟨_, -, h⟩ := Option.bind_eq_some_iff.1 h
  obtain ⟨_, -, h⟩ := Option.bind_eq_some_iff.1 h
  obtain ⟨t, ht, h⟩ := Option.bind_eq_some_iff.1 h
  cases h
  have hsame : Table.Keeps some := by
    intro u u' hu h
    cases h
    exact hu
  exact Table.keeps_within hsame k d.table t hd ht

theorem openItem_keyed (hd : d.Keyed) {k : Key} (h : d.openItem k = some d') :
    d'.Keyed := by
  unfold openItem at h
  obtain ⟨_, -, h⟩ := Option.bind_eq_some_iff.1 h
  obtain ⟨t, ht, h⟩ := Option.bind_eq_some_iff.1 h
  cases h
  exact Table.keeps_appendItem k d.table t hd ht

end Draft
namespace Scanner

theorem yields_statement {d : Draft} (hd : d.Keyed) :
    Yields Draft.Keyed (statement d) := by
  unfold statement
  apply Yields.after
  intro opensItem
  split
  · apply Yields.after
    intro _
    apply Yields.after
    intro k
    refine (yields_lift (d.openItem k)).bind fun d' hd' => ?_
    exact Yields.after (fun _ => yields_pure (Draft.openItem_keyed hd hd')) _
  apply Yields.after
  intro opensTable
  split
  · apply Yields.after
    intro _
    apply Yields.after
    intro k
    refine (yields_lift (d.openTable k)).bind fun d' hd' => ?_
    exact Yields.after (fun _ => yields_pure (Draft.openTable_keyed hd hd')) _
  apply Yields.after
  intro c
  split
  · exact yields_pure hd
  apply Yields.after
  intro rest
  refine (yields_pair (yields_values _).1).bind fun (k, v) hv => ?_
  exact fun t d' rest h => Draft.entry_keyed hd hv (yields_lift _ t d' rest h)

theorem yields_statements (n : Nat) {d : Draft} (hd : d.Keyed) :
    Yields Draft.Keyed (statements n d) := by
  induction n generalizing d with
  | zero => exact yields_failure
  | succ n ih =>
    change Yields Draft.Keyed (skip isSpace >>= _)
    apply Yields.after
    intro _
    refine (yields_statement hd).bind fun d' hd' => ?_
    apply Yields.after
    intro _
    apply Yields.after
    intro _
    apply Yields.after
    intro goesOn
    by_cases hgoesOn : goesOn = true
    · rw [if_pos hgoesOn]
      exact ih hd'
    · rw [if_neg hgoesOn]
      apply Yields.after
      intro rest
      exact Yields.after (fun _ => yields_pure hd') _

end Scanner

theorem keyed_of_read {t : Text} {table : Table} (h : read t = .ok table) : table.Keyed := by
  unfold read at h
  cases hd : Scanner.statements (t.length + 1) .empty t with
  | error fault =>
    rw [hd] at h
    cases h
  | ok r =>
  obtain ⟨d, rest⟩ := r
  rw [hd] at h
  cases h
  have hempty : Draft.empty.Keyed := Table.keyed_nil
  exact Scanner.yields_statements _ hempty t d rest hd

end PathSelection.Toml
