import PathSelection.Proofs.PathFilter
import PathSelection.Walk.Basic

namespace PathSelection

namespace Walk

variable {d : Disk} {f : PathFilter} {p : AbsPath}

theorem files_after (event : Event) (w : Walk) :
    (w.after event).files = (match event with | .file p => [p] | _ => []) ++ w.files := by
  cases event <;> rfl

theorem listed_after (event : Event) (w : Walk) :
    (w.after event).listed = (match event with | .listed p => [p] | _ => []) ++ w.listed := by
  cases event <;> rfl

theorem andThen_of_ok {first : Walk} (h : first.ended = .ok ()) (second : Walk) :
    (first.andThen second).ended = second.ended ∧
      (first.andThen second).listed = first.listed ++ second.listed ∧
      (first.andThen second).files = first.files ++ second.files := by
  rw [andThen, h]
  exact ⟨rfl, List.filterMap_append, List.filterMap_append⟩

theorem andThen_of_error {first second : Walk} {e : Failure} (h : first.ended = .error e) :
    first.andThen second = first := by
  rw [andThen, h]

theorem ended_of_andThen {first second : Walk} (h : (first.andThen second).ended = .ok ()) :
    first.ended = .ok () ∧ second.ended = .ok () ∧
      (first.andThen second).files = first.files ++ second.files := by
  cases he : first.ended with
  | error e =>
    rw [andThen, he] at h
    exact nomatch he.symm.trans h
  | ok u =>
    rw [andThen, he] at h
    rw [andThen, he]
    exact ⟨rfl, h, List.filterMap_append⟩

theorem prune_ok {sites : List Site} (h : (prune f sites).1.ended = .ok ()) :
    (prune f sites).1.files = [] ∧ (∀ s ∈ sites, ∃ b, f.excludes s.path true = .ok b) ∧
      (prune f sites).2 = sites.filter (fun s => f.admits s.path true) := by
  induction sites with
  | nil => exact ⟨rfl, nofun, rfl⟩
  | cons s rest ih =>
    cases he : f.excludes s.path true with
    | error e =>
      rw [prune, he] at h
      cases h
    | ok b =>
      cases b with
      | true =>
        have ha : f.admits s.path true = false := by rw [PathFilter.admits, he]
        simp only [prune, he] at h ⊢
        obtain ⟨hf, hd, hk⟩ := ih h
        refine ⟨(files_after _ _).trans hf, by simpa [he] using hd, ?_⟩
        rw [hk, List.filter_cons, ha, if_neg Bool.false_ne_true]
      | false =>
        have ha : f.admits s.path true = true := PathFilter.admits_iff.2 he
        simp only [prune, he] at h ⊢
        obtain ⟨hf, hd, hk⟩ := ih h
        refine ⟨hf, by simpa [he] using hd, ?_⟩
        rw [hk, List.filter_cons, if_pos ha]

theorem takeFiles_ok {ps : List AbsPath} (h : (takeFiles f ps).ended = .ok ()) :
    (∀ q ∈ ps, ∃ b, f.excludes q false = .ok b) ∧
      (takeFiles f ps).files = ps.filter fun q => f.admits q false := by
  induction ps with
  | nil => exact ⟨nofun, rfl⟩
  | cons q rest ih =>
    cases he : f.excludes q false with
    | error e =>
      rw [takeFiles, he] at h
      cases h
    | ok b =>
      cases b with
      | true =>
        simp only [takeFiles, he] at h ⊢
        obtain ⟨hd, hf⟩ := ih h
        refine ⟨by simpa [he] using hd, ?_⟩
        have ha : f.admits q false = false := by rw [PathFilter.admits, he]
        rw [hf, List.filter_cons, ha, if_neg Bool.false_ne_true]
      | false =>
        simp only [takeFiles, he] at h ⊢
        obtain ⟨hd, hf⟩ := ih h
        refine ⟨by simpa [he] using hd, ?_⟩
        rw [files_after, hf, List.filter_cons, if_pos (PathFilter.admits_iff.2 he)]
        rfl

def survey (d : Disk) (f : PathFilter) (s : Site) : Walk :=
  ((prune f (s.children d)).1.andThen (takeFiles f (s.files d))).after (.listed s.path)

def entered (d : Disk) (f : PathFilter) (followLinks : Bool) (s : Site) : List Site :=
  enterable followLinks (prune f (s.children d)).2

/-- A directory has been read, and the filter has decided on each of its entries. -/
structure Surveyed (d : Disk) (f : PathFilter) (s : Site) : Prop where
  listable : s.isListable d = true
  children : ∀ c ∈ s.children d, ∃ b, f.excludes c.path true = .ok b
  files : ∀ q ∈ s.files d, ∃ b, f.excludes q false = .ok b

theorem survey_ok {s : Site} (hl : s.isListable d = true) (h : (survey d f s).ended = .ok ()) :
    Surveyed d f s ∧
      (survey d f s).files = (s.files d).filter (fun q => f.admits q false) ∧
      entered d f false s =
        ((s.children d).filter fun c => f.admits c.path true).filter (!·.viaLink) := by
  obtain ⟨hp, ht, hf⟩ := ended_of_andThen (show ((prune f (s.children d)).1.andThen
    (takeFiles f (s.files d))).ended = .ok () from h)
  obtain ⟨hnone, hchildren, hkept⟩ := prune_ok hp
  obtain ⟨hfiles, htaken⟩ := takeFiles_ok ht
  refine ⟨⟨hl, hchildren, hfiles⟩, ?_, ?_⟩
  · rw [survey, files_after, hf, hnone, htaken]
    rfl
  · rw [entered, hkept, enterable, if_neg Bool.false_ne_true]

theorem run_survey {followLinks : Bool} {visited : List RealPath} {s : Site} {rest : List Site}
    (hl : s.isListable d = true)
    (hv : ¬(followLinks = true ∧ visited.contains s.place.real = true)) :
    run d f followLinks visited (s :: rest) =
      match (survey d f s).ended with
      | .error _ => survey d f s
      | .ok () =>
        (survey d f s).andThen
          (run d f followLinks (if followLinks then s.place.real :: visited else visited)
            (entered d f followLinks s ++ rest)) := by
  rw [run, dif_neg (by simp [hl]), dif_neg hv]
  rfl

theorem run_alone {followLinks : Bool} {s : Site} (hl : s.isListable d = true)
    (hentered : entered d f followLinks s = []) : run d f followLinks [] [s] = survey d f s := by
  rw [run_survey hl (by simp), hentered, List.nil_append, run]
  cases he : (survey d f s).ended with
  | error e => rfl
  | ok u =>
    rw [andThen, he, done, List.append_nil]
    exact congrArg (Walk.mk (survey d f s).events) he.symm

theorem run_cons {visited : List RealPath} {s : Site} {rest : List Site}
    (hl : s.isListable d = true) : run d f false visited (s :: rest) =
      match (survey d f s).ended with
      | .error _ => survey d f s
      | .ok () =>
        (survey d f s).andThen (run d f false visited (entered d f false s ++ rest)) :=
  run_survey hl fun h => nomatch h.1

theorem run_cons_ok {visited : List RealPath} {s : Site} {rest : List Site}
    (h : (run d f false visited (s :: rest)).ended = .ok ()) :
    s.isListable d = true ∧ (survey d f s).ended = .ok () ∧
      (run d f false visited (entered d f false s ++ rest)).ended = .ok () ∧
      (run d f false visited (s :: rest)).files =
        (survey d f s).files ++ (run d f false visited (entered d f false s ++ rest)).files := by
  cases hl : s.isListable d with
  | false =>
    rw [run, dif_pos hl] at h
    cases h
  | true =>
    rw [run_cons hl] at h ⊢
    cases hs : (survey d f s).ended with
    | error e =>
      rw [hs] at h
      cases hs.symm.trans h
    | ok u =>
      rw [hs] at h
      obtain ⟨-, hr, hf⟩ := ended_of_andThen h
      exact ⟨rfl, rfl, hr, hf⟩

/-- The sites that a walk comes to from a site, if it does not follow links. -/
inductive Reached (d : Disk) (f : PathFilter) : Site → Site → Prop
  | here (s : Site) : Reached d f s s
  | into {s c t : Site} (hc : c ∈ s.children d) (hl : c.viaLink = false)
    (ha : f.admits c.path true = true) (ht : Reached d f c t) : Reached d f s t

theorem exists_entered {s : Site} (hs : Surveyed d f s)
    (hentered : entered d f false s =
      ((s.children d).filter fun c => f.admits c.path true).filter (!·.viaLink)) {t : Site} :
    Reached d f s t ↔ t = s ∨ ∃ c ∈ entered d f false s, Reached d f c t := by
  simp only [hentered, List.mem_filter, Bool.not_eq_true']
  constructor
  · intro h
    cases h with
    | here => exact .inl rfl
    | into hc hl ha ht => exact .inr ⟨_, ⟨⟨hc, ha⟩, hl⟩, ht⟩
  · rintro (rfl | ⟨c, ⟨⟨hc, ha⟩, hl⟩, ht⟩)
    · exact .here t
    · exact .into hc hl ha ht

/-- A walk that ends well has surveyed every site reached from the ones ahead, and come upon the
files there that the filter admits. -/
theorem run_ok {visited : List RealPath} {ahead : List Site}
    (h : (run d f false visited ahead).ended = .ok ()) :
    (∀ s ∈ ahead, ∀ t, Reached d f s t → Surveyed d f t) ∧
      ∀ p, p ∈ (run d f false visited ahead).files ↔
        ∃ s ∈ ahead, ∃ t, Reached d f s t ∧ p ∈ t.files d ∧ f.admits p false = true := by
  induction visited, ahead using Walk.run.induct d f false with
  | case1 visited => exact ⟨nofun, fun p => by simp [run, done, files]⟩
  | case2 visited s rest hl =>
    rw [(run_cons_ok h).1] at hl
    cases hl
  | case3 visited s rest hl hv ih => cases hv.1
  | case4 visited s rest hl hv pruned here e he =>
    exact nomatch he.symm.trans (run_cons_ok h).2.1
  | case5 visited s rest hl hv pruned here he ih =>
    obtain ⟨hl, hs, hr, hf⟩ := run_cons_ok h
    obtain ⟨hsurveyed, hfiles, hentered⟩ := survey_ok hl hs
    obtain ⟨hreached, hmem⟩ := ih hr
    -- The sites entered come before the rest: what is reached from `s` is `s` or reached from them.
    have hmem : ∀ p, p ∈ (run d f false visited (entered d f false s ++ rest)).files ↔
        ∃ s' ∈ entered d f false s ++ rest, ∃ t, Reached d f s' t ∧
          p ∈ t.files d ∧ f.admits p false = true := hmem
    refine ⟨?_, fun p => ?_⟩
    · intro s' hs' t ht
      rcases List.mem_cons.1 hs' with rfl | hs'
      · rcases (exists_entered hsurveyed hentered).1 ht with rfl | ⟨c, hc, ht⟩
        · exact hsurveyed
        · exact hreached c (List.mem_append_left _ hc) t ht
      · exact hreached s' (List.mem_append_right _ hs') t ht
    · rw [hf, List.mem_append, hfiles, List.mem_filter, hmem]
      constructor
      · rintro (⟨hp, ha⟩ | ⟨s', hs', t, ht, hp, ha⟩)
        · exact ⟨s, List.mem_cons_self, s, .here s, hp, ha⟩
        · rcases List.mem_append.1 hs' with hs' | hs'
          · exact ⟨s, List.mem_cons_self, t, (exists_entered hsurveyed hentered).2
              (.inr ⟨s', hs', ht⟩), hp, ha⟩
          · exact ⟨s', List.mem_cons_of_mem _ hs', t, ht, hp, ha⟩
      · rintro ⟨s', hs', t, ht, hp, ha⟩
        rcases List.mem_cons.1 hs' with rfl | hs'
        · rcases (exists_entered hsurveyed hentered).1 ht with rfl | ⟨c, hc, ht⟩
          · exact .inl ⟨hp, ha⟩
          · exact .inr ⟨c, List.mem_append_left _ hc, t, ht, hp, ha⟩
        · exact .inr ⟨s', List.mem_append_right _ hs', t, ht, hp, ha⟩

theorem below_ok {path : AbsPath} {place : Place}
    (h : (below d f false path place).ended = .ok ()) :
    (∃ b, f.excludes path true = .ok b) ∧
      (f.admits path true = true → ∀ t, Reached d f ⟨path, place, false⟩ t → Surveyed d f t) ∧
      ∀ p, p ∈ (below d f false path place).files ↔ f.admits path true = true ∧
        ∃ t, Reached d f ⟨path, place, false⟩ t ∧ p ∈ t.files d ∧ f.admits p false = true := by
  cases he : f.excludes path true with
  | error e =>
    rw [below, he] at h
    cases h
  | ok b =>
    rw [PathFilter.admits_eq_false he]
    cases b with
    | true =>
      rw [below, he]
      exact ⟨⟨true, rfl⟩, nofun, fun p => by simp [files, after, done]⟩
    | false =>
      rw [below, he] at h ⊢
      obtain ⟨hsurveyed, hmem⟩ := run_ok h
      refine ⟨⟨false, rfl⟩, fun _ => hsurveyed _ (List.mem_singleton_self _), fun p => ?_⟩
      rw [hmem]
      simp

section Start

variable {v : View} {followLinks : Bool} {raw : Text}

theorem start_missing {e : DiskError} (h : v.disk.locate (v.absolute raw) = .error e) :
    start v f followLinks raw = failed (.pathNotFound raw) := by
  rw [start, h]

theorem start_directory {place : Place} (h : v.disk.locate (v.absolute raw) = .ok place)
    (hd : v.disk.isDirAt place.real = true) :
    start v f followLinks raw = below v.disk f followLinks (v.absolute raw) place := by
  simp only [start, h, hd, if_true]

theorem start_other {place : Place} (h : v.disk.locate (v.absolute raw) = .ok place)
    (hd : v.disk.isDirAt place.real = false) :
    start v f followLinks raw = done.after (.file (v.absolute raw)) := by
  simp only [start, h, hd, Bool.false_eq_true, if_false]

end Start

theorem startAll_cons (v : View) (f : PathFilter) (followLinks : Bool) (raw : Text)
    (raws : List Text) : startAll v f followLinks (raw :: raws) =
      (start v f followLinks raw).andThen (startAll v f followLinks raws) := rfl

theorem startAll_singleton {v : View} {followLinks : Bool} {raw : Text}
    (h : (startAll v f followLinks [raw]).ended = .ok ()) :
    (start v f followLinks raw).ended = .ok () ∧
      (startAll v f followLinks [raw]).files = (start v f followLinks raw).files := by
  rw [startAll_cons] at h ⊢
  obtain ⟨hs, -, hf⟩ := ended_of_andThen h
  exact ⟨hs, hf.trans (List.append_nil _)⟩

end Walk
end PathSelection
