import Mathlib.Control.Monad.Basic
import PathSelection.Proofs.Config.Loading
import PathSelection.Proofs.Config.Names
import PathSelection.Proofs.Disk.Follow
import PathSelection.Proofs.Entries

namespace PathSelection

/-- A command gives way to a server of its name. -/
def Check.GivesWay (checks : List Check) (d : Check) : Prop :=
  d.isServer = false ∧ ∃ s ∈ checks, s.isServer = true ∧ s.name = d.name

namespace Plan

variable {v : View} {checks ds : List Check} {base : List Text} {action : Purpose}
  {root : Option Text} {plan : Plan}

def running (checks : List Check) (action : Purpose) : List Check :=
  checks.filter (·.runsFor action)

def putAll (es : List (Text × List Text)) (p : Plan) : Plan :=
  es.foldl (fun p e => p.put e.1 e.2) p

theorem putAll_eq (es : List (Text × List Text)) (p : Plan) :
    putAll es p = Entries.putAll es p := by
  simp only [putAll, Entries.putAll, put_eq]

/-- An entry for a check: its name, and the paths that its own settings give. -/
def IsEntry (v : View) (base : List Text) (root : Option Text) (d : Check)
    (e : Text × List Text) : Prop :=
  e.1 = d.name ∧ d.paths v root base = .ok e.2

theorem make_ok (h : make v checks base action root = .ok plan) :
    ∃ es, (running checks action).Forall₂ (IsEntry v base root) es ∧
      plan = putAll es [] := by
  have hfold (ds : List Check) (p : Plan)
      (h : ds.foldlM (fun p d => return p.put d.name (← d.paths v root base)) p = .ok plan) :
      ∃ es, ds.Forall₂ (IsEntry v base root) es ∧ plan = putAll es p := by
    induction ds generalizing p with
    | nil =>
      cases h
      exact ⟨[], .nil, rfl⟩
    | cons d ds ih =>
      obtain ⟨q, hq, h⟩ := ok_of_bind h
      obtain ⟨paths, hpaths, hq⟩ := ok_of_bind hq
      cases hq
      obtain ⟨es, hes, rfl⟩ := ih _ h
      exact ⟨(d.name, paths) :: es, .cons ⟨rfl, hpaths⟩ hes, rfl⟩
  exact hfold _ [] h

theorem names_of_entries {es : List (Text × List Text)}
    (h : ds.Forall₂ (IsEntry v base root) es) :
    es.map Prod.fst = ds.map Check.name := by
  induction h with
  | nil => rfl
  | cons he _ ih => rw [List.map_cons, List.map_cons, he.1, ih]

theorem lookup_of_entries {es : List (Text × List Text)}
    (h : ds.Forall₂ (IsEntry v base root) es)
    (hpair : ds.Pairwise fun d d' =>
      d.name = d'.name → d.isServer = false ∧ d'.isServer = true)
    {d : Check} (hd : d ∈ ds) :
    ∃ paths, d.paths v root base = .ok paths ∧
      (es.reverse.lookup d.name = some paths ∨ d.GivesWay ds) := by
  induction h with
  | nil => cases hd
  | @cons d' e ds es he hes ih =>
    obtain ⟨hlater, hpair⟩ := List.pairwise_cons.1 hpair
    rw [List.reverse_cons, List.lookup_append]
    rcases List.mem_cons.1 hd with rfl | hd
    · refine ⟨e.2, he.2, ?_⟩
      by_cases hname : d.name ∈ ds.map Check.name
      · obtain ⟨s, hs, hname⟩ := List.mem_map.1 hname
        obtain ⟨hcommand, hserver⟩ := hlater s hs hname.symm
        exact .inr ⟨hcommand, s, List.mem_cons_of_mem d hs, hserver, hname⟩
      · have hnone : es.reverse.lookup d.name = none := by
          rw [← Option.isNone_iff_eq_none, ← Option.not_isSome, Bool.not_eq_true',
            ← Bool.not_eq_true, Entries.isSome_lookup, List.map_reverse, List.mem_reverse,
            names_of_entries hes]
          exact hname
        left
        rw [hnone, Entries.lookup_cons, if_pos he.1.symm]
        rfl
    · obtain ⟨paths, hpaths, hlookup | ⟨hcommand, s, hs, hserver⟩⟩ := ih hpair hd
      · rw [hlookup]
        exact ⟨paths, hpaths, .inl rfl⟩
      · exact ⟨paths, hpaths, .inr ⟨hcommand, s, List.mem_cons_of_mem d' hs, hserver⟩⟩

/-- The names of a plan are those of the checks that run, each once, and each check that runs has
its paths there unless it gives way. So the plan has one entry for each check that runs, in their
order, exactly if no check gives way. -/
theorem entries_unless_check_gives_way {v' : View} {path : Text} {c : Config}
    (hload : Config.load v path = .ok c)
    (hplan : make v' c.checks base action root = .ok plan) :
    plan.map Prod.fst = ((running c.checks action).map Check.name).eraseDups ∧
      (∀ d ∈ running c.checks action, ∃ paths, d.paths v' root base = .ok paths ∧
        (plan.lookup d.name = some paths ∨ d.GivesWay (running c.checks action))) ∧
      ((running c.checks action).Forall₂ (IsEntry v' base root) plan ↔
        ∀ d ∈ running c.checks action, ¬d.GivesWay (running c.checks action)) := by
  obtain ⟨es, hes, rfl⟩ := make_ok hplan
  have hpair := (Config.checks_of_load hload).filter (·.runsFor action)
  have hnames := names_of_entries hes
  refine ⟨?_, fun d hd => ?_, fun hentries d hd hway => ?_, fun hways => ?_⟩
  · rw [putAll_eq, Entries.map_fst_putAll, hnames]
  · rw [putAll_eq, Entries.lookup_putAll]
    exact lookup_of_entries hes hpair hd
  · obtain ⟨hcommand, s, hs, hserver, hname⟩ := hway
    have hnodup : ((running c.checks action).map Check.name).Nodup := by
      rw [← names_of_entries hentries, putAll_eq]
      exact Entries.nodup_putAll es
    have hsame : s = d := List.inj_on_of_nodup_map hnodup hs hd hname
    rw [hsame, hcommand] at hserver
    cases hserver
  · have hnodup : (es.map Prod.fst).Nodup := by
      rw [hnames]
      refine List.pairwise_map.2 (hpair.imp_of_mem fun {d d'} hd hd' himp hname => ?_)
      obtain ⟨hcommand, hserver⟩ := himp hname
      exact hways d hd ⟨hcommand, d', hd', hserver, hname.symm⟩
    rw [putAll_eq, Entries.putAll_of_nodup hnodup]
    exact hes

-- A configuration with a command and a server of one name.
namespace Shared

def content : String :=
  "[commands.a]\ntype='lint'\ncmd='c'\nexclude='*'\n" ++
    "[servers.a]\ntype='lint'\ncmd='s'\nport=1\n"

def file : Name := ⟨"tidypaths.toml", by decide⟩

def view : View := ⟨⟨[([file], .file content.toUTF8)]⟩, .root⟩

def command : Check := ⟨"a", .lint, ["c"], [], ["*"], [], [], false, [], [0], none⟩

def server : Check := ⟨"a", .lint, ["s"], [], [], [], [], false, [], [0], some 1⟩

def config : Config := ⟨none, [], [], [command, server], some ⟨false, [file]⟩⟩

def path : Text := AbsPath.text ⟨false, [file]⟩

theorem locate_file : view.disk.locate ⟨false, [file]⟩ = .ok ⟨[file], Disk.maxLinks⟩ :=
  Disk.locate_direct false rfl (e := .file content.toUTF8) rfl rfl

theorem load_config : Config.load view "tidypaths.toml" = .ok config := by
  apply Config.Alone.load_view
  decide +kernel

theorem paths_of_excludes {d : Check} {b : Bool} (hincluded : d.included = [])
    (hignored : d.ignoreFiles = []) (hplain : d.onDirectories = false)
    (h : PathFilter.excludes ⟨[], d.excluded, .empty, .root⟩ ⟨false, [file]⟩ false = .ok b) :
    d.paths view (some "/") [path] = .ok (if b then [] else [path]) := by
  have hfilter : d.filter view (some "/") = .ok ⟨[], d.excluded, .empty, .root⟩ := by
    rw [Check.filter, hincluded, hignored]
    rfl
  have hdir : view.isDir path = false := View.isDir_text (v := view) rfl locate_file
  have habsolute : view.absolute path = ⟨false, [file]⟩ := View.absolute_text view _
  have hselect : PathFilter.select ⟨[], d.excluded, .empty, .root⟩ view [path] =
      .ok (if b then [] else [path]) := by
    cases b <;>
      simp [PathFilter.select, PathFilter.keep, List.filterM, List.filterAuxM, PathFilter.includes,
        hdir, habsolute, h, bind, Except.bind, pure, Except.pure]
  rw [Check.paths, hfilter]
  change (PathFilter.select _ view [path] >>= fun kept => _) = _
  rw [hselect, hplain]
  rfl

theorem paths_command : command.paths view (some "/") [path] = .ok [] :=
  paths_of_excludes (b := true) rfl rfl rfl (by decide +kernel)

theorem make_plan : make view config.checks [path] .lint (some "/") = .ok [("a", [path])] := by
  have hserver : server.paths view (some "/") [path] = .ok [path] :=
    paths_of_excludes (b := false) rfl rfl rfl (by decide +kernel)
  have hrunning : config.checks.filter (·.runsFor .lint) = [command, server] := by decide +kernel
  simp only [make, hrunning, List.foldlM_cons, List.foldlM_nil, paths_command, hserver, bind,
    Except.bind, pure, Except.pure]
  rfl

end Shared

/-- Two checks run, but the plan has one entry: the place of the command, the paths of the server.
-/
theorem command_without_entry :
    Config.load Shared.view "tidypaths.toml" = .ok Shared.config ∧
      running Shared.config.checks .lint = [Shared.command, Shared.server] ∧
      make Shared.view Shared.config.checks [Shared.path] .lint (some "/") =
        .ok [("a", [Shared.path])] ∧
      Shared.command.paths Shared.view (some "/") [Shared.path] = .ok [] ∧
      ¬[Shared.command, Shared.server].Forall₂ (IsEntry Shared.view [Shared.path] (some "/"))
        [("a", [Shared.path])] :=
  ⟨Shared.load_config, by decide +kernel, Shared.make_plan, Shared.paths_command, nofun⟩

theorem server_has_entry :
    Config.load Shared.view "tidypaths.toml" = .ok Shared.config ∧
      make Shared.view Shared.config.checks [Shared.path] .lint (some "/") =
        .ok [("a", [Shared.path])] ∧
      Shared.command.GivesWay (running Shared.config.checks .lint) ∧
      ∃ paths, Shared.server.paths Shared.view (some "/") [Shared.path] = .ok paths ∧
        List.lookup Shared.server.name [("a".toList, [Shared.path])] = some paths := by
  obtain ⟨-, hpaths, -⟩ := entries_unless_check_gives_way Shared.load_config Shared.make_plan
  have hrunning : running Shared.config.checks .lint = [Shared.command, Shared.server] := by
    decide +kernel
  have hserver : Shared.server ∈ running Shared.config.checks .lint := by simp [hrunning]
  refine ⟨Shared.load_config, Shared.make_plan, ⟨rfl, Shared.server, hserver, rfl, rfl⟩, ?_⟩
  obtain ⟨paths, hown, hlookup | ⟨hcommand, -⟩⟩ := hpaths Shared.server hserver
  · exact ⟨paths, hown, hlookup⟩
  · cases hcommand

end Plan
end PathSelection
