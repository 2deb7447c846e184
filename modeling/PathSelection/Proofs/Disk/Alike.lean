import PathSelection.Proofs.Disk.Follow

namespace PathSelection

/-- An entry, with nothing said about whether it can be listed. -/
def Entry.shut : Entry → Entry
  | .dir _ => .dir false
  | e => e

namespace Disk

/-- Two disks that differ at most in which directories can be listed. -/
structure Alike (d d' : Disk) : Prop where
  keys : d'.entries.map Prod.fst = d.entries.map Prod.fst
  get? : ∀ real, (d'.get? real).map Entry.shut = (d.get? real).map Entry.shut

namespace Alike

variable {d d' : Disk} {real : RealPath} {n : Name} {p : AbsPath}

theorem symm (h : Alike d d') : Alike d' d := ⟨h.keys.symm, fun real => (h.get? real).symm⟩

theorem get?_none (h : Alike d d') (he : d.get? real = none) : d'.get? real = none := by
  have hshut := h.get? real
  rw [he] at hshut
  exact Option.map_eq_none_iff.1 hshut

theorem get?_dir (h : Alike d d') {listable : Bool} (he : d.get? real = some (.dir listable)) :
    ∃ listable', d'.get? real = some (.dir listable') := by
  have hshut := h.get? real
  rw [he] at hshut
  obtain ⟨e, he', hshut⟩ := Option.map_eq_some_iff.1 hshut
  cases e with
  | dir listable' => exact ⟨listable', he'⟩
  | _ => cases hshut

theorem get?_other (h : Alike d d') {e : Entry} (he : d.get? real = some e)
    (hd : ∀ listable, e ≠ .dir listable) : d'.get? real = some e := by
  have hshut := h.get? real
  rw [he] at hshut
  obtain ⟨e', he', hshut⟩ := Option.map_eq_some_iff.1 hshut
  rw [he']
  cases e with
  | dir listable => exact (hd listable rfl).elim
  | _ =>
    cases e' <;> cases hshut
    rfl

theorem get?_link (h : Alike d d') {target : Text} (he : d.get? real = some (.link target)) :
    d'.get? real = some (.link target) :=
  h.get?_other he fun _ he => Entry.noConfusion he

theorem isDirAt (h : Alike d d') (real : RealPath) : d'.isDirAt real = d.isDirAt real := by
  have hshut (e : Entry) : e.shut.isDir = e.isDir := by cases e <;> rfl
  have hany (o : Option Entry) : o.any Entry.isDir = (o.map Entry.shut).any Entry.isDir := by
    cases o with
    | none => rfl
    | some e => exact (hshut e).symm
  rw [Disk.isDirAt, Disk.isDirAt, hany, hany (d.get? real), h.get?]

theorem closes (h : Alike d d') (real : RealPath) : d'.closes real = d.closes real := by
  have hcloses {d d' : Disk} (h : Alike d d') (hc : d.closes real = true) :
      d'.closes real = true := by
    obtain ⟨q, hq, he⟩ := closes_iff_get?.1 hc
    exact closes_iff_get?.2 ⟨q, hq, h.get?_other he fun _ he => Entry.noConfusion he⟩
  exact Bool.eq_iff_iff.2 ⟨hcloses h.symm, hcloses h⟩

theorem names (h : Alike d d') (real : RealPath) : d'.names real = d.names real := by
  rw [Disk.names, Disk.names, h.keys, h.closes]

theorem refusal? (h : Alike d d') (real : RealPath) (step : Step) :
    d'.refusal? real step = d.refusal? real step := by
  cases he : d.get? real with
  | none => rw [Disk.refusal?, Disk.refusal?, he, h.get?_none he]
  | some e =>
    cases e with
    | dir listable =>
      obtain ⟨listable', he'⟩ := h.get?_dir he
      rw [Disk.refusal?, Disk.refusal?, he, he']
    | _ =>
      have he' := h.get?_other he fun _ he => Entry.noConfusion he
      rw [Disk.refusal?, Disk.refusal?, he, he']

theorem follow (h : Alike d d') (links : Nat) (here : RealPath) (steps : List Step) :
    d'.follow links here steps = d.follow links here steps := by
  induction links, here, steps using Disk.follow.induct (d := d) with
  | case1 links here => rw [follow_nil, follow_nil]
  | case2 links here step rest e he =>
    rw [follow_refused he, follow_refused ((h.refusal? here step).trans he)]
  | case3 links here rest he ih =>
    have hd := isDirAt_of_refusal? he
    rw [follow_here ((h.isDirAt here).trans hd), follow_here hd, ih]
  | case4 links here rest he ih =>
    rw [follow_up ((h.refusal? here .up).trans he), follow_up he, ih]
  | case5 links here rest n hn he =>
    rw [follow_absent he hn, follow_absent ((h.refusal? here _).trans he) (h.get?_none hn)]
  | case6 here rest n target hn he =>
    have hd := isDirAt_of_refusal? he
    have hn' := h.get?_link hn
    rw [follow_too_many ((h.isDirAt here).trans hd) hn', follow_too_many hd hn]
  | case7 here rest n target hn links start he ih =>
    have hd := isDirAt_of_refusal? he
    have hn' := h.get?_link hn
    rw [follow_link ((h.isDirAt here).trans hd) hn', follow_link hd hn]
    exact ih
  | case8 links here rest n e hl hn he ih =>
    have hd := isDirAt_of_refusal? he
    have hl := isLinkAt_eq_false.2 fun target ht => hl target (Option.some.inj (hn.symm.trans ht))
    have hl' : d'.isLinkAt (here ++ [n]) = false :=
      isLinkAt_eq_false.2 fun target ht => isLinkAt_eq_false.1 hl target (h.symm.get?_link ht)
    have hn' : ∃ e', d'.get? (here ++ [n]) = some e' := by
      cases hn' : d'.get? (here ++ [n]) with
      | some e' => exact ⟨e', rfl⟩
      | none => cases hn.symm.trans (h.symm.get?_none hn')
    obtain ⟨e', hn'⟩ := hn'
    rw [follow_down ((h.isDirAt here).trans hd) hn' hl', follow_down hd hn hl, ih]

theorem locate (h : Alike d d') (p : AbsPath) : d'.locate p = d.locate p :=
  h.follow maxLinks [] _

end Alike

end Disk
end PathSelection
