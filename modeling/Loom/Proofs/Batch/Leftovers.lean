import Loom.Proofs.Batch.Agreement
import Loom.Proofs.Batch.Withdrawal
import Loom.Proofs.Files.Parents

set_option autoImplicit false

/-! What an earlier batch has left in its staging directory makes no difference to a batch that does not look up its
own inputs through that directory. -/
namespace Loom

open Loom.Task StagingArea FileSystem

namespace FileSystem

theorem vacated_of_missing {fs : FileSystem} (tree : fs.IsTree) {l : Location} (missing : fs.get? l = none)
    {stays : Prop} (goes : ¬ stays) : Vacated l stays fs fs := by
  exact ⟨rfl, fun spot below => missing_below tree missing below.1, fun _ => missing, fun stay => absurd stay goes,
    fun _ _ => rfl⟩

theorem same_of_vacated {l : Location} {stays : Prop} {fs other after otherAfter : FileSystem}
    (first : Vacated l stays fs after) (second : Vacated l stays other otherAfter) (here : other.here = fs.here)
    (outside : ∀ spot, ¬ l <+: spot → other.get? spot = fs.get? spot) : after.Same otherAfter := by
  refine ⟨second.here.trans (here.trans first.here.symm), fun spot => ?_⟩
  by_cases front : l <+: spot
  · rcases (at_or_below_iff l spot).mp front with same | below
    · rw [same]
      by_cases goes : stays
      · rw [first.left goes, second.left goes]
      · rw [first.gone goes, second.gone goes]
    · rw [first.below spot below, second.below spot below]
  · rw [first.outside spot front, second.outside spot front, outside spot front]

theorem same_outside {fs other : FileSystem} {l : Location}
    (entries : (other.erase l).entries = (fs.erase l).entries) (spot : Location) (apart : ¬ l <+: spot) :
    other.get? spot = fs.get? spot := by
  have inner : l ≠ [] := fun root => apart (root ▸ List.nil_prefix)
  have found := get_erase fs inner spot
  have otherFound := get_erase other inner spot
  rw [if_neg apart] at found otherFound
  rw [← found, ← otherFound, get?, get?, entries]

end FileSystem

namespace Batch

structure Leftover (o : Path) (name : List Char) (stale clean : FileSystem) : Prop where
  tree : stale.IsTree
  cleanTree : clean.IsTree
  here : clean.here = stale.here
  start : ∀ d ∈ (clean.way o).head?, clean.get? d = some .directory
  stands : stale.kind? (o.join name) = some .directory
  missing : clean.get? (clean.place o ++ [name]) = none
  outside : ∀ l, ¬ clean.place o ++ [name] <+: l → clean.get? l = stale.get? l

-- All paths that a batch looks up before it writes anything, but for those of modules in the directories of its
-- references.
def Request.inputs (request : Request) : List Path :=
  request.targetPaths ++ request.targetPaths.map symbolPath ++ request.referenceDirs

def makeStaging (settings : Settings) (request : Request) : Task Failure StagingArea := do
  let dir := request.outputDir.join settings.stagingDir.toList
  .makeDirs dir (orIo dir)
  return ⟨dir, layoutOf settings.prettyMetadata, []⟩

theorem open_staging_cleared {settings : Settings} {request : Request} {fs made cleared : FileSystem}
    {kind : EntryKind} (done : fs.makeDirs request.outputDir = (.ok (), made))
    (stands : made.kind? (request.outputDir.join settings.stagingDir.toList) = some kind)
    (removed : made.removeTree (request.outputDir.join settings.stagingDir.toList) = (.ok (), cleared))
    (planned : Plan) :
    ((openStaging settings request planned).run fs).result = ((makeStaging settings request).run cleared).result ∧
      ((openStaging settings request planned).run fs).files = ((makeStaging settings request).run cleared).files := by
  simp only [openStaging, create, makeStaging, bind_eq, Task.tell, kindOf, orIo, orFail, Task.bind, Task.run, done,
    stands, removed, Option.isSome_some, if_true, and_self]

theorem open_staging_fresh {settings : Settings} {request : Request} {fs made : FileSystem}
    (done : fs.makeDirs request.outputDir = (.ok (), made))
    (missing : made.kind? (request.outputDir.join settings.stagingDir.toList) = none) (planned : Plan) :
    ((openStaging settings request planned).run fs).result = ((makeStaging settings request).run made).result ∧
      ((openStaging settings request planned).run fs).files = ((makeStaging settings request).run made).files := by
  simp only [openStaging, create, makeStaging, bind_eq, Task.tell, kindOf, orIo, orFail, Task.bind, Task.run, done,
    missing, Option.isSome_none, Bool.false_eq_true, if_false, and_self]

section Opening

variable {o : Path} {name : List Char} {stale clean : FileSystem} (left : Leftover o name stale clean)
  (proper : Path.IsName name)
include left

theorem Leftover.place : clean.place o = stale.place o := place_congr left.here o

theorem Leftover.find {path : Path} (apart : ∀ d ∈ clean.way path, ¬ clean.place o ++ [name] <+: d) :
    clean.find path = stale.find path := by
  refine find_congr stale left.here path fun d member => left.outside d (apart d ?_)
  rwa [way_congr left.here]

theorem Leftover.kind {path : Path} (apart : ∀ d ∈ clean.way path, ¬ clean.place o ++ [name] <+: d) :
    clean.kind? path = stale.kind? path := by
  rw [kind?, kind?, left.find apart]

include proper

theorem Leftover.reaches : stale.Reaches (o.join name) ∧ stale.get? (stale.place o ++ [name]) = some .directory := by
  obtain ⟨entry, found, isDirectory⟩ := (kind_eq_some_iff _ _ _).mp left.stands
  obtain ⟨reaches, _, there, _⟩ := (find_eq_ok_iff _ _ _ _).mp found
  rw [look_join stale o proper] at there
  cases entry with
  | file content => cases isDirectory
  | directory => exact ⟨reaches, there⟩

theorem Leftover.stood : ∀ d ∈ stale.way o, stale.get? d = some .directory := by
  have directories := (left.reaches proper).1.directories
  rwa [passed_join stale o proper] at directories

theorem Leftover.legal (steps : o.chain ≠ []) : Legal o := by
  have legal := (left.reaches proper).1.legal
  obtain ⟨q, outer, chain⟩ := List.exists_cons_of_ne_nil steps
  have nonempty := (Path.text_of_chain (chain ▸ List.mem_cons_self : q ∈ o.chain)).1
  rw [Path.head_of_chain chain] at nonempty
  refine legal_of_front legal nonempty (Path.join_longer o proper.plain) ?_
  rw [Path.names_join o proper.nonempty proper.plain]
  exact List.prefix_append _ _

theorem Leftover.stood_outside {d : Location} (member : d ∈ clean.way o) (apart : ¬ clean.place o ++ [name] <+: d) :
    clean.get? d = some .directory := by
  rw [left.outside d apart]
  rw [way_congr left.here] at member
  exact left.stood proper d member

-- What is missing of the way to the output directory is made, so that there is something to remove in either tree.
theorem Leftover.made :
    (clean.makeDirs o).1 = .ok () ∧ ∀ d ∈ clean.way o, (clean.makeDirs o).2.get? d = some .directory := by
  have apart : ¬ clean.place o ++ [name] <+: clean.place o := by
    intro front
    have shorter := front.length_le
    rw [List.length_append, List.length_singleton] at shorter
    omega
  refine make_dirs_done left.cleanTree (left.legal proper) left.start (fun d member => ?_) ?_
  · by_cases front : clean.place o ++ [name] <+: d
    · exact .inr (missing_below left.cleanTree left.missing front)
    · exact .inl (left.stood_outside proper member front)
  · exact left.stood_outside proper (List.mem_append_right _ (List.mem_singleton_self _)) apart

theorem Leftover.made_through (through : ∃ d ∈ clean.way o, clean.place o ++ [name] <+: d) :
    ∃ made, clean.makeDirs o = (.ok (), made) ∧ made.here = clean.here ∧ made.Reaches (o.join name) ∧
      made.get? (clean.place o ++ [name]) = some .directory ∧
      ∀ l, ¬ clean.place o ++ [name] <+: l → made.get? l = stale.get? l := by
  obtain ⟨done, there⟩ := left.made proper
  obtain ⟨grows, still⟩ := make_dirs_grows left.cleanTree o
  refine ⟨_, Prod.ext done rfl, grows.here, ⟨(left.reaches proper).1.legal, ?_⟩, ?_, fun l apart => ?_⟩
  · rw [passed_join _ o proper, way_congr grows.here]
    exact there
  · obtain ⟨d, member, front⟩ := through
    have stands := there d member
    rcases (at_or_below_iff _ d).mp front with same | below
    · rwa [same] at stands
    · exact directory_above still below (by rw [stands]; exact Option.some_ne_none _)
  · rw [← left.outside l apart]
    rcases grows.entries l trivial with same | ⟨missing, onWay, _⟩
    · exact same
    · rw [left.stood_outside proper onWay apart] at missing
      cases missing

theorem Leftover.cleared_fresh (apart : ∀ d ∈ clean.way o, ¬ clean.place o ++ [name] <+: d) :
    clean.makeDirs o = (.ok (), clean) ∧ clean.kind? (o.join name) = none ∧
      (stale.removeTree (o.join name)).2.Same clean := by
  obtain ⟨reaches, there⟩ := left.reaches proper
  have stood : ∀ d ∈ clean.way o, clean.get? d = some .directory :=
    fun d member => left.stood_outside proper member (apart d member)
  refine ⟨make_dirs_stood (left.legal proper) stood, ?_, ?_⟩
  · cases kind : clean.kind? (o.join name) with
    | none => rfl
    | some stands =>
        obtain ⟨entry, found, _⟩ := (kind_eq_some_iff _ _ _).mp kind
        obtain ⟨_, _, stands, _⟩ := (find_eq_ok_iff _ _ _ _).mp found
        rw [look_join clean o proper, left.missing] at stands
        cases stands
  · have vacated := (remove_tree_vacates stale o proper reaches there).2
    rw [← left.place, ← goes_below_congr left.here] at vacated
    have goes : ¬ clean.GoesBelow o (clean.place o ++ [name]) := fun goes =>
      let ⟨d, member, below⟩ := goes
      apart d member below.1
    exact same_of_vacated vacated (vacated_of_missing left.cleanTree left.missing goes) left.here left.outside

theorem Leftover.cleared_through (through : ∃ d ∈ clean.way o, clean.place o ++ [name] <+: d) :
    ∃ made cleared, clean.makeDirs o = (.ok (), made) ∧ made.kind? (o.join name) = some .directory ∧
      made.removeTree (o.join name) = (.ok (), cleared) ∧ (stale.removeTree (o.join name)).2.Same cleared := by
  obtain ⟨reaches, there⟩ := left.reaches proper
  obtain ⟨made, done, here, reachesMade, stands, outside⟩ := left.made_through proper through
  have place : made.place o = clean.place o := place_congr here o
  rw [← place] at stands
  have kind : made.kind? (o.join name) = some .directory := by
    refine (kind_eq_some_iff _ _ _).mpr ⟨.directory, (find_eq_ok_iff _ _ _ _).mpr ?_, rfl⟩
    exact ⟨reachesMade, rfl, (look_join made o proper).trans stands, fun _ => rfl⟩
  obtain ⟨removed, vacatedMade⟩ := remove_tree_vacates made o proper reachesMade stands
  have vacated := (remove_tree_vacates stale o proper reaches there).2
  rw [← left.place, ← goes_below_congr left.here] at vacated
  rw [place, goes_below_congr here] at vacatedMade
  exact ⟨made, _, done, kind, Prod.ext removed rfl,
    same_of_vacated vacated vacatedMade (here.trans left.here) outside⟩

end Opening

section Batches

variable {settings : Settings} {request : Request} {stale clean : FileSystem}
  (left : Leftover request.outputDir settings.stagingDir.toList stale clean)
  (proper : Path.IsName settings.stagingDir.toList)
include left proper

theorem Leftover.opens (planned : Plan) :
    let opening := openStaging settings request planned
    (opening.run clean).result = (opening.run stale).result ∧
      (opening.run stale).files.Same (opening.run clean).files := by
  intro opening
  obtain ⟨reaches, there⟩ := left.reaches proper
  have stood := make_dirs_stood (left.legal proper) (left.stood proper)
  obtain ⟨removed, vacated⟩ := remove_tree_vacates stale request.outputDir proper reaches there
  obtain ⟨staleResult, staleFiles⟩ := open_staging_cleared stood left.stands (Prod.ext removed rfl) planned
  have comes : ∃ mid, (stale.removeTree (request.outputDir.join settings.stagingDir.toList)).2.Same mid ∧
      ((openStaging settings request planned).run clean).result = ((makeStaging settings request).run mid).result ∧
      ((openStaging settings request planned).run clean).files = ((makeStaging settings request).run mid).files := by
    by_cases through : ∃ d ∈ clean.way request.outputDir,
        clean.place request.outputDir ++ [settings.stagingDir.toList] <+: d
    · obtain ⟨made, cleared, done, kind, removed, same⟩ := left.cleared_through proper through
      exact ⟨cleared, same, open_staging_cleared done kind removed planned⟩
    · have apart := fun d member front => through ⟨d, member, front⟩
      obtain ⟨done, missing, same⟩ := left.cleared_fresh proper apart
      exact ⟨clean, same, open_staging_fresh done missing planned⟩
  obtain ⟨mid, same, result, files⟩ := comes
  obtain ⟨again, alike⟩ := run_same (makeStaging settings request) same
  rw [staleResult, staleFiles, result, files]
  exact ⟨again, alike⟩

omit proper in
theorem Leftover.agree_plan (readSymbols : Bool) (apart : ∀ path ∈ request.inputs, ∀ d ∈ clean.way path,
      ¬ clean.place request.outputDir ++ [settings.stagingDir.toList] <+: d) :
    (plan request.references request.targets readSymbols).Agree (fun planned again => again.bare = planned.bare) stale
      (plan request.references request.targets readSymbols) clean := by
  obtain ⟨paths, dirs⟩ := List.forall_mem_append.mp apart
  obtain ⟨targets, symbols⟩ := List.forall_mem_append.mp paths
  apply Batch.agree_plan
  · intro raw member dir isDir
    exact left.kind (dirs dir (List.mem_filterMap.mpr ⟨raw, member, isDir⟩))
  · intro target member
    have listed : Path.ofString (Text.unquote target) ∈ request.targetPaths := List.mem_map_of_mem member
    exact ⟨left.find (targets _ listed), left.find (symbols _ (List.mem_map_of_mem listed))⟩

end Batches

variable {σ : Type}

def resume {ε : Type} (t : Transformer σ) (settings : Settings) (request : Request) (state : σ) (planned : Plan) :
    Task ε (Except Failure Report × σ) := do
  match ← (openStaging settings request planned).attempt with
  | .error e => return (.error e, state)
  | .ok area => do
    let (progress, stopped) ←
      weaveAll t settings planned.search ⟨state, area, [], []⟩ planned.processed
    Task.tell (.modulesReleased planned.modules.length)
    match stopped with
    | some (stem, failure) => do
      progress.area.abandon
      return (.error (.batch stem failure), progress.state)
    | none => return (← (commit settings request progress).attempt, progress.state)

theorem run_of_plan {ε : Type} (t : Transformer σ) (settings : Settings) (request : Request) (state : σ)
    {fs : FileSystem} {planned : Plan}
    (planning : ((plan request.references request.targets settings.readSymbols).run fs).result = .ok planned) :
    ((run t settings request state : Task ε _).run fs).result =
        ((resume t settings request state planned : Task ε _).run fs).result ∧
      ((run t settings request state : Task ε _).run fs).files =
        ((resume t settings request state planned : Task ε _).run fs).files := by
  obtain ⟨result, files⟩ := run_prepare request planning
  rw [run, resume, bind_eq, bind_eq, run_bind, run_bind, run_attempt, run_attempt]
  dsimp only
  rw [result, files]
  cases ((openStaging settings request planned).run fs).result with
  | ok area => exact ⟨rfl, rfl⟩
  | error e => exact ⟨rfl, rfl⟩

theorem resume_of_bare {ε : Type} (t : Transformer σ) (settings : Settings) (request : Request) (state : σ)
    {again planned : Plan} (same : again.bare = planned.bare) :
    (resume t settings request state again : Task ε _) = resume t settings request state planned := by
  obtain ⟨search, modules, _⟩ := Plan.mk.inj same
  have length : again.modules.length = planned.modules.length := by
    rw [← List.length_map LoadedModule.bare, modules, List.length_map]
  unfold resume openStaging
  simp only [weave_all_of_bare t settings _ same, length]
  rw [search]

theorem Leftover.resumes {ε : Type} {settings : Settings} {request : Request} {stale clean : FileSystem}
    (left : Leftover request.outputDir settings.stagingDir.toList stale clean)
    (proper : Path.IsName settings.stagingDir.toList) (t : Transformer σ) (state : σ) (planned : Plan) :
    let resumed : Task ε _ := resume t settings request state planned
    (resumed.run clean).result = (resumed.run stale).result ∧
      (resumed.run stale).files.Same (resumed.run clean).files := by
  obtain ⟨result, files⟩ := left.opens proper planned
  unfold resume
  apply run_bind_same
  · rw [run_attempt, run_attempt, result]
  · rw [run_attempt, run_attempt]
    exact files

/-- No input may be looked up in the staging directory, not even on the way to somewhere else. -/
theorem leftovers_make_no_difference {ε : Type} (t : Transformer σ) (settings : Settings) (request : Request)
    (state : σ) (stale clean : FileSystem) (sound : settings.validate = .ok settings)
    (left : Leftover request.outputDir settings.stagingDir.toList stale clean)
    (apart : ∀ path ∈ request.inputs, ∀ d ∈ clean.way path,
      ¬ clean.place request.outputDir ++ [settings.stagingDir.toList] <+: d) :
    let planning := plan request.references request.targets settings.readSymbols
    let first := (run t settings request state : Task ε _).run stale
    let second := (run t settings request state : Task ε _).run clean
    second.result = first.result ∧
      (planning.run clean).result.map Plan.bare = (planning.run stale).result.map Plan.bare ∧
      second.files.here = first.files.here ∧
      (∀ l, ¬ clean.place request.outputDir ++ [settings.stagingDir.toList] <+: l →
        second.files.get? l = first.files.get? l) ∧
      ∀ planned, (planning.run stale).result = .ok planned → first.files.Same second.files := by
  intro planning first second
  obtain ⟨proper, _⟩ := Settings.names_of_sound (Settings.fault_of_validate sound)
  have agree := left.agree_plan settings.readSymbols apart
  rcases agree.result with ⟨planned, again, stalePlan, cleanPlan, same⟩ | ⟨e, staleFailed, cleanFailed⟩
  · obtain ⟨staleRun, staleFiles⟩ := run_of_plan (ε := ε) t settings request state stalePlan
    obtain ⟨cleanRun, cleanFiles⟩ := run_of_plan (ε := ε) t settings request state cleanPlan
    obtain ⟨result, files⟩ := left.resumes (ε := ε) proper t state planned
    rw [resume_of_bare t settings request state same] at cleanRun cleanFiles
    rw [← staleFiles, ← cleanFiles] at files
    exact ⟨cleanRun.trans (result.trans staleRun.symm), agree.result_map, files.here, fun l _ => files.entries l,
      fun _ _ => files⟩
  · obtain ⟨_, staleRun, rfl, staleFiles⟩ :=
      (run_without_plan t settings request state stale staleFailed : Ensures (ε := ε) _ _ _ _).succeeds
    obtain ⟨_, cleanRun, rfl, cleanFiles⟩ :=
      (run_without_plan t settings request state clean cleanFailed : Ensures (ε := ε) _ _ _ _).succeeds
    refine ⟨cleanRun.trans staleRun.symm, agree.result_map, ?_, fun l outside => ?_, fun planned made => ?_⟩
    · rw [cleanFiles, staleFiles, left.here]
    · rw [cleanFiles, staleFiles, left.outside l outside]
    · cases staleFailed.symm.trans made

-- The second output path leads through what was left, so that the batch has nowhere to write its manifest in the end.
theorem leftover_outputs_ignored :
    let named (name : String) (references : List Identity) : Module :=
      ⟨Module.magicNumber, 1, 0, ⟨name, "1"⟩, references, [], [], none⟩
    let clean := ((((((⟨[], []⟩ : FileSystem).makeDirs "out").2.write "Game.wbc"
      (named "Game" [⟨"Core", "1"⟩]).encode).2).write "Core.wbc" (named "Core" []).encode).2)
    let stale := (((clean.makeDirs "out/.weft-staging/sub").2.write "out/.weft-staging/sub/Core.wbc" [1]).2.write
      "out/.weft-staging/Game.wbc" []).2
    let idle : Transformer Unit := ⟨fun _ _ state draft => ⟨state, draft, .ok ()⟩⟩
    let batch (o : Path) : Task Failure _ := run idle {} ⟨[], ["Game.wbc", "Core.wbc"], o⟩ ()
    let report : Report := ⟨["out/Core.wbc", "out/Core.metadata.json", "out/Game.wbc", "out/Game.metadata.json"],
      ["Core", "Game"], [], "out/weft.assemblyloadorder.json"⟩
    let lost : Failure := .io "out/.weft-staging/sub/../../weft.assemblyloadorder.json" .notFound
    ∀ o answer, (o, answer) ∈ [(("out" : Path), Except.ok report), ("out/.weft-staging/sub/../..", .error lost)] →
      Leftover o ".weft-staging".toList stale clean ∧ ((batch o).run stale).result = .ok (answer, ()) ∧
        ((batch o).run clean).result = .ok (answer, ()) ∧
        ((batch o).run stale).files.Same ((batch o).run clean).files := by
  intro named clean stale idle batch report lost
  let request (o : Path) : Request := ⟨[], ["Game.wbc", "Core.wbc"], o⟩
  have sound : ({} : Settings).validate = .ok {} := by decide +kernel
  have tree : clean.IsTree := is_tree_write (is_tree_write (make_dirs_grows (empty_is_tree []) "out").2 _ _) _ _
  have older := (make_dirs_grows tree "out/.weft-staging/sub").2
  have staleTree : stale.IsTree := is_tree_write (is_tree_write older _ _) _ _
  have here : clean.here = stale.here := by decide +kernel
  have entries : (stale.erase ["out".toList, ".weft-staging".toList]).entries =
      (clean.erase ["out".toList, ".weft-staging".toList]).entries := by decide +kernel
  have missing : clean.get? ["out".toList, ".weft-staging".toList] = none := by decide +kernel
  have places : ∀ o ∈ [("out" : Path), "out/.weft-staging/sub/../.."], clean.place o = ["out".toList] ∧
      (clean.way o).head? = some [] ∧
      stale.kind? (o.join ".weft-staging".toList) = some .directory ∧
      ∀ path ∈ (request o).inputs, ∀ d ∈ clean.way path, ¬ clean.place o ++ [".weft-staging".toList] <+: d := by
    decide +kernel
  have planned : ((plan [] ["Game.wbc", "Core.wbc"] true).run stale).result.isOk = true := by decide +kernel
  have answers : ∀ pair ∈ [(("out" : Path), Except.ok report), ("out/.weft-staging/sub/../..", .error lost)],
      ((batch pair.1).run stale).result = .ok (pair.2, ()) := by decide +kernel
  intro o answer member
  obtain ⟨place, start, stands, inputs⟩ := places o (List.mem_map_of_mem (f := Prod.fst) member)
  have left : Leftover o ".weft-staging".toList stale clean := by
    refine ⟨staleTree, tree, here, ?_, stands, ?_, ?_⟩
    · intro d first
      rw [start] at first
      rw [← Option.some.inj first]
      exact get_root clean
    · rw [place]
      exact missing
    · rw [place]
      exact fun l outside => (same_outside entries l outside).symm
  obtain ⟨result, _, _, _, same⟩ :=
    leftovers_make_no_difference (ε := Failure) idle {} (request o) () stale clean sound left inputs
  have done := answers (o, answer) member
  refine ⟨left, done, result.trans done, ?_⟩
  cases planning : ((plan [] ["Game.wbc", "Core.wbc"] true).run stale).result with
  | ok plan => exact same plan planning
  | error e =>
      rw [planning] at planned
      cases planned

/-- A target may be reached by going into the staging directory and out again. A batch that is started in there may
have an output path that begins with what was left. -/
theorem leftover_on_the_way :
    let game : Module := ⟨Module.magicNumber, 1, 0, ⟨"Game", "1"⟩, [], [], [], none⟩
    let clean (here : Location) := (((⟨here, []⟩ : FileSystem).makeDirs "/out").2.write "/out/Game.wbc" game.encode).2
    let stale (here : Location) := ((clean here).makeDirs "/out/.weft-staging/x").2
    let staging : Location := ["out".toList, ".weft-staging".toList]
    let idle : Transformer Unit := ⟨fun _ _ state draft => ⟨state, draft, .ok ()⟩⟩
    let batch (target : String) (o : Path) : Task Failure _ := run idle {} ⟨[], [target], o⟩ ()
    let differ (here : Location) (target : String) (o : Path) : Prop :=
      (clean here).place o ++ [".weft-staging".toList] = staging ∧
      (stale here).kind? (o.join ".weft-staging".toList) = some .directory ∧
      (∀ l, ¬ staging <+: l → (clean here).get? l = (stale here).get? l) ∧
      ∀ path ∈ (⟨[], [target], o⟩ : Request).inputs, ¬ staging <+: (clean here).place path
    let through := "./out/.weft-staging/../Game.wbc"
    let report : Report :=
      ⟨["out/Game.wbc", "out/Game.metadata.json"], ["Game"], [], "out/weft.assemblyloadorder.json"⟩
    ({} : Settings).validate = .ok {} ∧
    (∀ here, (clean here).IsTree ∧ (stale here).IsTree ∧ (clean here).here = (stale here).here ∧
      (clean here).get? staging = none) ∧
    (differ [] through "out" ∧ ((batch through "out").run (stale [])).result = .ok (.ok report, ()) ∧
      ((batch through "out").run (clean [])).result = .ok (.error (.moduleNotFound (.ofString through)), ())) ∧
    (differ staging "/out/Game.wbc" "x/../.." ∧
      ((batch "/out/Game.wbc" "x/../..").run (stale staging)).result =
        .ok (.error (.io "x/../../weft.assemblyloadorder.json" .notFound), ()) ∧
      ((batch "/out/Game.wbc" "x/../..").run (clean staging)).result = .ok (.error (.io "x/../.." .notFound), ())) := by
  intro game clean stale staging idle batch differ through report
  have trees (here : Location) : (clean here).IsTree ∧ (stale here).IsTree ∧
      (clean here).here = (stale here).here ∧ (clean here).get? staging = none := by
    have tree : (clean here).IsTree := is_tree_write (make_dirs_grows (empty_is_tree here) "/out").2 _ _
    obtain ⟨grows, staleTree⟩ := make_dirs_grows tree "/out/.weft-staging/x"
    exact ⟨tree, staleTree, grows.here.symm, rfl⟩
  have entries (here : Location) : ((clean here).erase staging).entries = ((stale here).erase staging).entries := rfl
  have outside (here l : Location) (apart : ¬ staging <+: l) : (clean here).get? l = (stale here).get? l :=
    same_outside (entries here) l apart
  refine ⟨by decide +kernel, trees, ⟨⟨?_, ?_, outside [], ?_⟩, ?_, ?_⟩, ⟨?_, ?_, outside staging, ?_⟩, ?_, ?_⟩
  all_goals decide +kernel

end Batch

end Loom
