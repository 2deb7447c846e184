import PathSelection.Workspace.Basic

namespace PathSelection.Run

variable {σ π α β : Type}

def after (x : Run σ π α) (w : Workspace σ π) : Workspace σ π :=
  match x w with
  | .ok _ w' => w'
  | .error _ w' => w'

def raised (x : Run σ π α) (w : Workspace σ π) : List Failure :=
  match x w with
  | .ok _ _ => []
  | .error e _ => [e]

theorem after_of_ok {x : Run σ π α} {w w' : Workspace σ π} {a : α} (h : x w = .ok a w') :
    after x w = w' := by
  rw [after, h]

theorem after_of_error {x : Run σ π α} {w w' : Workspace σ π} {e : Failure}
    (h : x w = .error e w') : after x w = w' := by
  rw [after, h]

theorem raised_of_ok {x : Run σ π α} {w w' : Workspace σ π} {a : α} (h : x w = .ok a w') :
    raised x w = [] := by
  rw [raised, h]

theorem raised_of_error {x : Run σ π α} {w w' : Workspace σ π} {e : Failure}
    (h : x w = .error e w') : raised x w = [e] := by
  rw [raised, h]

theorem bind_of_ok {x : Run σ π α} {f : α → Run σ π β} {w w' : Workspace σ π} {a : α}
    (h : x w = .ok a w') : (x >>= f) w = f a w' := by
  simp only [bind, EStateM.bind, h]

theorem bind_of_error {x : Run σ π α} {f : α → Run σ π β} {w w' : Workspace σ π} {e : Failure}
    (h : x w = .error e w') : (x >>= f) w = .error e w' := by
  simp only [bind, EStateM.bind, h]

theorem ok_of_bind {x : Run σ π α} {f : α → Run σ π β} {w w' : Workspace σ π} {b : β}
    (h : (x >>= f) w = .ok b w') : ∃ a w₁, x w = .ok a w₁ ∧ f a w₁ = .ok b w' := by
  cases hx : x w with
  | ok a w₁ =>
    rw [bind_of_ok hx] at h
    exact ⟨a, w₁, rfl, h⟩
  | error e w₁ =>
    rw [bind_of_error hx] at h
    cases h

theorem after_ignore (x : Run σ π α) (w : Workspace σ π) :
    after (do let _ ← x) w = after x w := by
  cases h : x w with
  | ok a w' =>
    rw [after_of_ok h, after, bind_of_ok h]
    rfl
  | error e w' => rw [after_of_error h, after, bind_of_error h]

theorem raised_ignore (x : Run σ π α) (w : Workspace σ π) :
    raised (do let _ ← x) w = raised x w := by
  cases h : x w with
  | ok a w' =>
    rw [raised_of_ok h, raised, bind_of_ok h]
    rfl
  | error e w' => rw [raised_of_error h, raised, bind_of_error h]

theorem get_bind (f : Workspace σ π → Run σ π α) (w : Workspace σ π) : (get >>= f) w = f w w :=
  rfl

theorem view_bind (f : View → Run σ π α) (w : Workspace σ π) : (view >>= f) w = f w.view w := rfl

theorem note_bind (e : Event) (f : Unit → Run σ π α) (w : Workspace σ π) :
    (note e >>= f) w = f () (w.record e) :=
  rfl

theorem set_bind (f : PUnit → Run σ π α) (w w' : Workspace σ π) :
    ((set w' : Run σ π PUnit) >>= f) w = f ⟨⟩ w' :=
  rfl

theorem tryCatch_of_ok {x : Run σ π α} {f : Failure → Run σ π α} {w w' : Workspace σ π} {a : α}
    (h : x w = .ok a w') : tryCatch x f w = .ok a w' := by
  change EStateM.tryCatch x f w = .ok a w'
  delta EStateM.tryCatch
  simp only [h]

/-- What a failed run has done to the workspace is not undone when its failure is caught. -/
theorem tryCatch_of_error {x : Run σ π α} {f : Failure → Run σ π α} {w w' : Workspace σ π}
    {e : Failure} (h : x w = .error e w') : tryCatch x f w = f e w' := by
  change EStateM.tryCatch x f w = f e w'
  delta EStateM.tryCatch
  simp only [h]
  rfl

/-- Runs carried out one after another, each on what the one before left behind, failed or not. -/
def runAll : List (Run σ π Unit) → Workspace σ π → List Failure × Workspace σ π
  | [], w => ([], w)
  | x :: xs, w => (raised x w ++ (runAll xs (after x w)).1, (runAll xs (after x w)).2)

theorem runAll_keeps {I : List Failure → Workspace σ π → Prop} {xs : List (Run σ π Unit)}
    (hstep : ∀ x ∈ xs, ∀ es w, I es w → I (es ++ raised x w) (after x w)) {es : List Failure}
    {w : Workspace σ π} (h : I es w) : I (es ++ (runAll xs w).1) (runAll xs w).2 := by
  induction xs generalizing es w with
  | nil => simpa only [runAll, List.append_nil] using h
  | cons x xs ih =>
    have hx := hstep x (List.mem_cons_self ..) es w h
    rw [runAll, ← List.append_assoc]
    exact ih (fun y hy => hstep y (List.mem_cons_of_mem _ hy)) hx

theorem runAll_keeps_workspace {I : Workspace σ π → Prop} {xs : List (Run σ π Unit)}
    (hstep : ∀ x ∈ xs, ∀ w, I w → I (after x w)) {w : Workspace σ π} (h : I w) :
    I (runAll xs w).2 :=
  @runAll_keeps σ π (fun _ w => I w) xs (fun x hx _ => hstep x hx) [] w h

/-- Whichever way a run ends, the workspaces before and after it are related. -/
def Keeps (R : Workspace σ π → Workspace σ π → Prop) (x : Run σ π α) : Prop :=
  ∀ w, R w (after x w)

section Keeps

variable {R : Workspace σ π → Workspace σ π → Prop}

theorem Keeps.of_ok {x : Run σ π α} (hx : Keeps R x) {w w' : Workspace σ π} {a : α}
    (h : x w = .ok a w') : R w w' := by
  have hw := hx w
  rwa [after_of_ok h] at hw

theorem Keeps.of_error {x : Run σ π α} (hx : Keeps R x) {w w' : Workspace σ π} {e : Failure}
    (h : x w = .error e w') : R w w' := by
  have hw := hx w
  rwa [after_of_error h] at hw

theorem keeps_pure (hr : ∀ w, R w w) (a : α) : Keeps R (pure a : Run σ π α) := hr

theorem keeps_throw (hr : ∀ w, R w w) (e : Failure) : Keeps R (throw e : Run σ π α) := hr

theorem keeps_lift (hr : ∀ w, R w w) (r : Except Failure α) : Keeps R (lift r : Run σ π α) := by
  cases r with
  | ok a => exact keeps_pure hr a
  | error e => exact keeps_throw hr e

theorem Keeps.bind (ht : ∀ u v w, R u v → R v w → R u w) {x : Run σ π α} {f : α → Run σ π β}
    (hx : Keeps R x) (hf : ∀ a, Keeps R (f a)) : Keeps R (x >>= f) := by
  intro w
  cases h : x w with
  | ok a w' =>
    rw [after, bind_of_ok h]
    exact ht w w' _ (hx.of_ok h) (hf a w')
  | error e w' =>
    rw [after_of_error (bind_of_error h)]
    exact hx.of_error h

end Keeps

def FailsWith (P : Failure → Prop) (x : Run σ π α) : Prop :=
  ∀ w e w', x w = .error e w' → P e

section FailsWith

variable {P : Failure → Prop}

theorem failsWith_pure (a : α) : FailsWith P (pure a : Run σ π α) := by
  intro w e w' h
  cases h

theorem failsWith_throw {e : Failure} (h : P e) : FailsWith P (throw e : Run σ π α) := by
  intro w e' w' he
  cases he
  exact h

theorem FailsWith.bind {x : Run σ π α} {f : α → Run σ π β} (hx : FailsWith P x)
    (hf : ∀ a, FailsWith P (f a)) : FailsWith P (x >>= f) := by
  intro w e w' he
  cases h : x w with
  | ok a w₁ =>
    rw [bind_of_ok h] at he
    exact hf a w₁ e w' he
  | error e₁ w₁ =>
    rw [bind_of_error h] at he
    cases he
    exact hx w e w' h

end FailsWith

end PathSelection.Run
