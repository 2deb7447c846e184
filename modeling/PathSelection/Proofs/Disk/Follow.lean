import Mathlib.Data.List.Induction
import Mathlib.Data.List.Infix
import PathSelection.Disk.View
import PathSelection.Proofs.Failure
import PathSelection.Proofs.Path.Absolute

namespace PathSelection

namespace Disk

theorem isDirAt_iff {d : Disk} {p : RealPath} :
    d.isDirAt p = true ↔ ∃ e, d.get? p = some e ∧ e.isDir = true :=
  Option.any_eq_true _ _

theorem isDirAt_eq_false {d : Disk} {p : RealPath} {e : Entry} (h : d.get? p = some e) :
    d.isDirAt p = false ↔ e.isDir = false := by
  rw [isDirAt, h]
  rfl

theorem isLinkAt_iff {d : Disk} {p : RealPath} :
    d.isLinkAt p = true ↔ ∃ target, d.get? p = some (.link target) := by
  unfold isLinkAt
  split
  · next target h => exact ⟨fun _ => ⟨target, h⟩, fun _ => rfl⟩
  · next h => exact ⟨nofun, fun ⟨target, hl⟩ => (h target hl).elim⟩

theorem isLinkAt_eq_false {d : Disk} {p : RealPath} :
    d.isLinkAt p = false ↔ ∀ target, d.get? p ≠ some (.link target) := by
  rw [← Bool.not_eq_true, isLinkAt_iff, not_exists]

theorem isLinkAt_of_isDir {d : Disk} {p : RealPath} {e : Entry} (h : d.get? p = some e)
    (hd : e.isDir = true) : d.isLinkAt p = false := by
  rw [isLinkAt_eq_false]
  intro target htarget
  cases h.symm.trans htarget
  cases hd

theorem isLinkAt_of_isDirAt {d : Disk} {p : RealPath} (h : d.isDirAt p = true) :
    d.isLinkAt p = false := by
  obtain ⟨e, he, hd⟩ := isDirAt_iff.1 h
  exact isLinkAt_of_isDir he hd

theorem isLinkAt_of_file {d : Disk} {p : RealPath} {content : ByteArray}
    (h : d.get? p = some (.file content)) : d.isLinkAt p = false := by
  rw [isLinkAt, h]

theorem closes_iff {d : Disk} {p : RealPath} :
    d.closes p = true ↔ ∃ q, q <+: p ∧ d.entries.lookup q = some .sealed := by
  simp only [closes, List.any_eq_true, List.mem_range, decide_eq_true_eq]
  constructor
  · rintro ⟨n, -, h⟩
    exact ⟨p.take n, List.take_prefix n p, h⟩
  · rintro ⟨q, hq, h⟩
    refine ⟨q.length, Nat.lt_succ_of_le hq.length_le, ?_⟩
    rwa [← List.prefix_iff_eq_take.1 hq]

theorem closes_of_get? {d : Disk} {p : RealPath} {n : Name} {e : Entry}
    (h : d.get? (p ++ [n]) = some e) : d.closes p = false := by
  unfold get? at h
  split at h
  · cases h
  · next hopen => simpa using hopen

theorem closes_of_sealed {d : Disk} {p : RealPath} (h : d.get? p = some .sealed) :
    d.closes p = true := by
  refine closes_iff.2 ⟨p, List.prefix_refl p, ?_⟩
  unfold get? at h
  split at h
  · cases h
  · cases hl : d.entries.lookup p with
    | some e =>
      rw [hl] at h
      exact h
    | none =>
      rw [hl] at h
      split at h <;> cases h

theorem closes_iff_get? {d : Disk} {p : RealPath} :
    d.closes p = true ↔ ∃ q, q <+: p ∧ d.get? q = some .sealed := by
  constructor
  · induction p using List.reverseRecOn with
    | nil =>
      intro h
      obtain ⟨q, hq, hl⟩ := closes_iff.1 h
      obtain rfl := List.prefix_nil.1 hq
      exact ⟨[], List.prefix_refl _, by simp [get?, hl]⟩
    | append_singleton p n ih =>
      intro h
      cases hp : d.closes p with
      | true =>
        obtain ⟨q, hq, hsealed⟩ := ih hp
        exact ⟨q, hq.trans (List.prefix_append p [n]), hsealed⟩
      | false =>
        obtain ⟨q, hq, hl⟩ := closes_iff.1 h
        rcases List.prefix_concat_iff.1 hq with rfl | hq
        · exact ⟨p ++ [n], List.prefix_refl _, by simp [get?, hp, hl]⟩
        · cases hp.symm.trans (closes_iff.2 ⟨q, hq, hl⟩)
  · rintro ⟨q, hq, h⟩
    obtain ⟨q', hq', hl⟩ := closes_iff.1 (closes_of_sealed h)
    exact closes_iff.2 ⟨q', hq'.trans hq, hl⟩

section Follow

variable {d : Disk} {links : Nat} {here : RealPath} {rest : List Step} {step : Step} {n : Name}
  {e : DiskError}

theorem refusal?_of_not_dir (h : d.isDirAt here = false) :
    ∃ e, ∀ step, d.refusal? here step = some e := by
  cases he : d.get? here with
  | none => exact ⟨.noSuchFile, fun step => by rw [refusal?, he]⟩
  | some e =>
    have hd := (isDirAt_eq_false he).1 h
    cases e with
    | dir _ | sealed => cases hd
    | file _ | unreadable | link _ =>
      exact ⟨.notADirectory, fun step => by rw [refusal?, he]⟩

theorem isDirAt_of_refusal? (h : d.refusal? here step = none) : d.isDirAt here = true := by
  by_contra hd
  obtain ⟨e, he⟩ := refusal?_of_not_dir (Bool.not_eq_true _ ▸ hd)
  cases h.symm.trans (he step)

theorem refusal?_here (h : d.isDirAt here = true) : d.refusal? here .here = none := by
  obtain ⟨e, he, hd⟩ := isDirAt_iff.1 h
  rw [refusal?, he]
  cases e with
  | dir _ | sealed => rfl
  | file _ | unreadable | link _ => cases hd

theorem refusal?_of_entry (h : d.isDirAt here = true) {e : Entry}
    (hn : d.get? (here ++ [n]) = some e) (step : Step) : d.refusal? here step = none := by
  obtain ⟨e', he, hd⟩ := isDirAt_iff.1 h
  rw [refusal?, he]
  cases e' with
  | dir _ => rfl
  | sealed => cases (closes_of_get? hn).symm.trans (closes_of_sealed he)
  | file _ | unreadable | link _ => cases hd

theorem follow_nil : d.follow links here [] = .ok ⟨here, links⟩ := by
  rw [follow]

theorem follow_refused (h : d.refusal? here step = some e) :
    d.follow links here (step :: rest) = .error e := by
  rw [follow.eq_def]
  simp only [h]

theorem follow_of_not_dir (h : d.isDirAt here = false) :
    ∃ e, ∀ links step rest, d.follow links here (step :: rest) = .error e := by
  obtain ⟨e, he⟩ := refusal?_of_not_dir h
  exact ⟨e, fun links step rest => follow_refused (he step)⟩

theorem follow_here (h : d.isDirAt here = true) :
    d.follow links here (.here :: rest) = d.follow links here rest := by
  rw [follow, refusal?_here h]

theorem follow_up (h : d.refusal? here .up = none) :
    d.follow links here (.up :: rest) = d.follow links here.dropLast rest := by
  rw [follow, h]

theorem follow_absent (h : d.refusal? here (.down n) = none) (hn : d.get? (here ++ [n]) = none) :
    d.follow links here (.down n :: rest) =
      .error (if n.text.byteLength > maxNameBytes then .nameTooLong else .noSuchFile) := by
  rw [follow, h]
  simp only [hn]

theorem follow_missing (hn : d.get? (here ++ [n]) = none) :
    ∃ e, ∀ links rest, d.follow links here (.down n :: rest) = .error e := by
  cases h : d.refusal? here (.down n) with
  | some e => exact ⟨e, fun links rest => follow_refused h⟩
  | none => exact ⟨_, fun links rest => follow_absent h hn⟩

theorem follow_down (h : d.isDirAt here = true) {e : Entry} (hn : d.get? (here ++ [n]) = some e)
    (hl : d.isLinkAt (here ++ [n]) = false) :
    d.follow links here (.down n :: rest) = d.follow links (here ++ [n]) rest := by
  rw [follow, refusal?_of_entry h hn]
  cases e with
  | link target => exact (isLinkAt_eq_false.1 hl target hn).elim
  | _ => simp only [hn]

theorem follow_too_many (h : d.isDirAt here = true) {target : Text}
    (hn : d.get? (here ++ [n]) = some (.link target)) :
    d.follow 0 here (.down n :: rest) = .error .tooManyLinks := by
  rw [follow, refusal?_of_entry h hn]
  simp only [hn]

theorem follow_link (h : d.isDirAt here = true) {target : Text}
    (hn : d.get? (here ++ [n]) = some (.link target)) :
    d.follow (links + 1) here (.down n :: rest) =
      d.follow links (if target.isAbsolute then [] else here) (Step.ofPath target ++ rest) := by
  rw [follow, refusal?_of_entry h hn]
  simp only [hn]

end Follow

theorem follow_append (d : Disk) (links : Nat) (here : RealPath) (steps more : List Step) :
    d.follow links here (steps ++ more) =
      (d.follow links here steps).bind fun p => d.follow p.links p.real more := by
  induction links, here, steps using Disk.follow.induct (d := d) with
  | case1 links here =>
    rw [follow_nil]
    rfl
  | case2 links here step rest e h =>
    rw [List.cons_append, follow_refused h, follow_refused h]
    rfl
  | case3 links here rest h ih =>
    have hd := isDirAt_of_refusal? h
    rw [List.cons_append, follow_here hd, follow_here hd, ih]
  | case4 links here rest h ih =>
    rw [List.cons_append, follow_up h, follow_up h, ih]
  | case5 links here rest n hn h =>
    obtain ⟨e, he⟩ := follow_missing hn
    rw [List.cons_append, he, he]
    rfl
  | case6 here rest n target hn h =>
    have hd := isDirAt_of_refusal? h
    rw [List.cons_append, follow_too_many hd hn, follow_too_many hd hn]
    rfl
  | case7 here rest n target hn links start h ih =>
    have hd := isDirAt_of_refusal? h
    rw [List.cons_append, follow_link hd hn, follow_link hd hn, ← List.append_assoc]
    exact ih
  | case8 links here rest n e hl he h ih =>
    have hd := isDirAt_of_refusal? h
    have hl := isLinkAt_eq_false.2 fun target ht => hl target (Option.some.inj (he.symm.trans ht))
    rw [List.cons_append, follow_down hd he hl, follow_down hd he hl, ih]

theorem follow_more {d : Disk} {links : Nat} {here : RealPath} {steps : List Step} {place : Place}
    (h : d.follow links here steps = .ok place) : place.links ≤ links ∧
      ∀ more, d.follow (links + more) here steps = .ok ⟨place.real, place.links + more⟩ := by
  induction links, here, steps using Disk.follow.induct (d := d) with
  | case1 links here =>
    rw [follow_nil] at h
    cases h
    exact ⟨Nat.le_refl _, fun more => follow_nil⟩
  | case2 links here step rest e he =>
    rw [follow_refused he] at h
    cases h
  | case3 links here rest he ih =>
    have hd := isDirAt_of_refusal? he
    rw [follow_here hd] at h
    obtain ⟨hle, hmore⟩ := ih h
    exact ⟨hle, fun more => (follow_here hd).trans (hmore more)⟩
  | case4 links here rest he ih =>
    rw [follow_up he] at h
    obtain ⟨hle, hmore⟩ := ih h
    exact ⟨hle, fun more => (follow_up he).trans (hmore more)⟩
  | case5 links here rest n hn he =>
    obtain ⟨e, hmissing⟩ := follow_missing hn
    rw [hmissing] at h
    cases h
  | case6 here rest n target hn he =>
    rw [follow_too_many (isDirAt_of_refusal? he) hn] at h
    cases h
  | case7 here rest n target hn links start he ih =>
    have hd := isDirAt_of_refusal? he
    rw [follow_link hd hn] at h
    obtain ⟨hle, hmore⟩ := ih h
    refine ⟨Nat.le_succ_of_le hle, fun more => ?_⟩
    rw [Nat.succ_add, follow_link hd hn]
    exact hmore more
  | case8 links here rest n e hl hn he ih =>
    have hd := isDirAt_of_refusal? he
    have hl := isLinkAt_eq_false.2 fun target ht => hl target (Option.some.inj (hn.symm.trans ht))
    rw [follow_down hd hn hl] at h
    obtain ⟨hle, hmore⟩ := ih h
    exact ⟨hle, fun more => (follow_down hd hn hl).trans (hmore more)⟩

theorem locate_descend (d : Disk) (p : AbsPath) (ns : List Name) :
    d.locate (p.descend ns) =
      (d.locate p).bind fun q => d.follow q.links q.real (ns.map .down) := by
  rw [locate, AbsPath.descend, List.map_append, follow_append]
  rfl

theorem locate_child {d : Disk} {p : AbsPath} {n : Name} {place : Place}
    (h : d.locate p = .ok place) :
    d.locate (p.child n) = d.follow place.links place.real [.down n] := by
  rw [AbsPath.child_eq_descend, locate_descend, h]
  rfl

theorem locate_entry {d : Disk} {p : AbsPath} {n : Name} {real : RealPath} {links : Nat} {e : Entry}
    (h : d.locate p = .ok ⟨real, links⟩) (hd : d.isDirAt real = true)
    (he : d.get? (real ++ [n]) = some e) (hl : d.isLinkAt (real ++ [n]) = false) :
    d.locate (p.child n) = .ok ⟨real ++ [n], links⟩ := by
  rw [locate_child h, follow_down hd he hl, follow_nil]

theorem locate_direct {d : Disk} {names : List Name} {e : Entry} (doubled : Bool)
    (hdirs : names.inits.dropLast.all d.isDirAt = true) (he : d.get? names = some e)
    (hl : d.isLinkAt names = false) : d.locate ⟨doubled, names⟩ = .ok ⟨names, maxLinks⟩ := by
  induction names using List.reverseRecOn generalizing e with
  | nil => exact follow_nil
  | append_singleton names n ih =>
    have hinits : (names ++ [n]).inits.dropLast = names.inits := by simp [List.inits_append]
    rw [hinits, List.all_eq_true] at hdirs
    have hd := hdirs names ((List.mem_inits _ _).2 (List.prefix_refl _))
    obtain ⟨e', hdir, -⟩ := isDirAt_iff.1 hd
    have hplace := ih (List.all_eq_true.2 fun ds hds => hdirs ds (List.mem_of_mem_dropLast hds))
      hdir (isLinkAt_of_isDirAt hd)
    exact locate_entry hplace hd he hl

theorem follow_down_ok {d : Disk} {links : Nat} {here : RealPath} {n : Name} {rest : List Step}
    {place : Place} (h : d.follow links here (.down n :: rest) = .ok place) :
    d.isDirAt here = true ∧ (∃ e, d.get? (here ++ [n]) = some e) ∧
      (d.isLinkAt (here ++ [n]) = false → d.follow links (here ++ [n]) rest = .ok place) := by
  cases hd : d.isDirAt here with
  | false =>
    obtain ⟨e, he⟩ := follow_of_not_dir hd
    rw [he] at h
    cases h
  | true =>
    cases hn : d.get? (here ++ [n]) with
    | none =>
      obtain ⟨e, he⟩ := follow_missing hn
      rw [he] at h
      cases h
    | some e =>
      refine ⟨rfl, ⟨e, rfl⟩, fun hl => ?_⟩
      rwa [follow_down hd hn hl] at h

theorem isDirAt_root {d : Disk} {p : AbsPath} {place : Place} (h : d.locate p = .ok place)
    (hn : p.names ≠ []) : d.isDirAt [] = true := by
  obtain ⟨n, ns, hns⟩ := List.exists_cons_of_ne_nil hn
  rw [locate, hns] at h
  exact (follow_down_ok h).1

theorem mem_names {d : Disk} {directory : RealPath} {n : Name} :
    n ∈ d.names directory ↔
      d.closes directory = false ∧ directory ++ [n] ∈ d.entries.map Prod.fst := by
  have hentry (p : RealPath) : entryOf? directory p = some n ↔ p = directory ++ [n] := by
    unfold entryOf?
    constructor
    · intro h
      split at h
      · next hp =>
        obtain ⟨q, rfl⟩ := List.getLast?_eq_some_iff.1 h
        rw [← hp, List.dropLast_concat]
      · cases h
    · rintro rfl
      rw [List.dropLast_concat, if_pos rfl, List.getLast?_concat]
  unfold names
  split
  · next hclosed => simp [hclosed]
  · next hopen =>
    rw [(List.mergeSort_perm _ _).mem_iff, List.mem_eraseDups, List.mem_filterMap]
    constructor
    · rintro ⟨p, hp, he⟩
      exact ⟨Bool.not_eq_true _ ▸ hopen, (hentry p).1 he ▸ hp⟩
    · rintro ⟨-, h⟩
      exact ⟨_, h, (hentry _).2 rfl⟩

theorem names_of_single {d : Disk} {directory : RealPath} {n : Name}
    (hopen : d.closes directory = false)
    (h : (d.entries.map Prod.fst).filterMap (entryOf? directory) = [n]) :
    d.names directory = [n] := by
  rw [names, if_neg (by simp [hopen]), h]
  simp [List.eraseDups_cons]

theorem mem_names_iff {d : Disk} {directory : RealPath} {n : Name} :
    n ∈ d.names directory ↔ ∃ e, d.get? (directory ++ [n]) = some e := by
  constructor
  · intro h
    obtain ⟨hopen, hkey⟩ := mem_names.1 h
    obtain ⟨⟨key, e⟩, he, rfl⟩ := List.mem_map.1 hkey
    have hsome : (d.entries.lookup (directory ++ [n])).isSome = true :=
      List.lookup_isSome_iff.2 ⟨_, he, beq_self_eq_true _⟩
    obtain ⟨e', he'⟩ := Option.isSome_iff_exists.1 hsome
    exact ⟨e', by simp [get?, hopen, he']⟩
  · rintro ⟨e, he⟩
    exact mem_names.2 ⟨closes_of_get? he, mem_keys he (.inl (by simp))⟩

theorem mem_names_of_get? {d : Disk} {directory : RealPath} {n : Name} {e : Entry}
    (h : d.get? (directory ++ [n]) = some e) : n ∈ d.names directory :=
  mem_names_iff.2 ⟨e, h⟩

theorem get?_of_mem_names {d : Disk} {directory : RealPath} {n : Name}
    (h : n ∈ d.names directory) : ∃ e, d.get? (directory ++ [n]) = some e :=
  mem_names_iff.1 h

end Disk

theorem fromUTF8?_toUTF8 (s : String) : String.fromUTF8? s.toUTF8 = some s :=
  dif_pos s.isValidUTF8

namespace View

variable {v : View} {p : AbsPath}

@[simp] theorem absolute_text (v : View) (p : AbsPath) : v.absolute p.text = p :=
  AbsPath.ofText_text v.cwd p

theorem text_ne_nil (p : AbsPath) : p.text ≠ [] := by
  have h := p.isAbsolute_text
  intro hn
  rw [hn] at h
  cases h

theorem follow_text (hroot : v.disk.isDirAt [] = true) (p : AbsPath) (links : Nat) :
    v.disk.follow links [] (Step.ofPath p.text) = v.disk.follow links [] (p.names.map .down) := by
  have hjoin : v.disk.follow links [] (Step.ofPath (Name.join p.names)) =
      v.disk.follow links [] (p.names.map .down) := by
    by_cases hn : p.names = []
    · rw [hn, List.map_nil]
      exact Disk.follow_here hroot
    · rw [Step.ofPath_join hn]
  rw [AbsPath.ofPath_text]
  cases p.doubled with
  | false => exact (Disk.follow_here hroot).trans hjoin
  | true => exact (Disk.follow_here hroot).trans ((Disk.follow_here hroot).trans hjoin)

theorem place_text_eq (hroot : v.disk.isDirAt [] = true) (p : AbsPath) :
    v.place p.text = (v.disk.locate p).mapError fun e =>
      if p.text.byteLength > Disk.maxPathBytes then .nameTooLong else e := by
  have horigin : v.origin p.text = [] := by rw [origin, if_pos p.isAbsolute_text]
  rw [View.place, if_neg (text_ne_nil p), horigin, follow_text hroot]
  rfl

theorem place_text (hroot : v.disk.isDirAt [] = true) {place : Place}
    (h : v.disk.locate p = .ok place) : v.place p.text = .ok place := by
  rw [place_text_eq hroot, h]
  rfl

theorem isDir_text (hroot : v.disk.isDirAt [] = true) {place : Place}
    (h : v.disk.locate p = .ok place) : v.isDir p.text = v.disk.isDirAt place.real := by
  rw [isDir, entry?, place_text hroot h]
  rfl

theorem entry?_child (hroot : v.disk.isDirAt [] = true) {real : RealPath} {links : Nat}
    (h : v.disk.locate p = .ok ⟨real, links⟩) (hd : v.disk.isDirAt real = true) {n : Name}
    (hl : v.disk.isLinkAt (real ++ [n]) = false) :
    v.entry? (p.child n).text = v.disk.get? (real ++ [n]) := by
  unfold entry?
  rw [place_text_eq hroot]
  cases hn : v.disk.get? (real ++ [n]) with
  | none =>
    obtain ⟨error, hmissing⟩ := Disk.follow_missing hn
    rw [Disk.locate_child h, hmissing]
    rfl
  | some e =>
    rw [Disk.locate_entry h hd hn hl]
    exact hn

theorem readText_null {t : Text} : v.readText t = .error .nullInPath ↔ '\x00' ∈ t := by
  unfold readText
  split
  · next h => simp [h]
  · next h =>
    refine ⟨fun he => ?_, fun ht => (h ht).elim⟩
    split at he
    · cases he
    · split at he <;> cases he

/-- The text of a path can be handed to the disk: it is not too long, and has no null character. -/
def Takes (t : Text) : Prop := t.byteLength ≤ Disk.maxPathBytes ∧ '\x00' ∉ t

instance (t : Text) : Decidable (Takes t) := inferInstanceAs (Decidable (_ ∧ _))

theorem stat_text (hroot : v.disk.isDirAt [] = true) {place : Place} (ht : Takes p.text)
    (h : v.disk.locate p = .ok place) {e : Entry} (he : v.disk.get? place.real = some e) :
    v.stat p.text = .ok e := by
  rw [stat, if_neg (Nat.not_lt.2 ht.1), place_text hroot h]
  simp only [bind, Except.bind, pure, Except.pure, he]

theorem readText_text (hroot : v.disk.isDirAt [] = true) {place : Place} (ht : Takes p.text)
    (h : v.disk.locate p = .ok place) {s : String}
    (hfile : v.disk.get? place.real = some (.file s.toUTF8)) :
    v.readText p.text = .ok (Text.unifyNewlines s.toList) := by
  have hbytes : v.readBytes p.text = .ok s.toUTF8 := by
    rw [readBytes, stat_text hroot ht h hfile]
    rfl
  rw [readText, if_neg ht.2, hbytes]
  simp only [fromUTF8?_toUTF8]

theorem readText_direct {names : List Name} {s : String} (doubled : Bool)
    (ht : Takes (AbsPath.text ⟨doubled, names⟩)) (hroot : v.disk.isDirAt [] = true)
    (hdirs : names.inits.dropLast.all v.disk.isDirAt = true)
    (hfile : v.disk.get? names = some (.file s.toUTF8)) :
    v.readText (AbsPath.text ⟨doubled, names⟩) = .ok (Text.unifyNewlines s.toList) := by
  have hlocate := Disk.locate_direct doubled hdirs hfile (Disk.isLinkAt_of_file hfile)
  exact readText_text hroot ht hlocate hfile

end View
end PathSelection
