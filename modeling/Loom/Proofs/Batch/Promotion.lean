import Loom.Proofs.Batch.Withdrawal

set_option autoImplicit false

namespace Loom

open Loom.Task StagingArea FileSystem

namespace FileSystem

theorem copy_ok {fs mid : FileSystem} (tree : fs.IsTree) {source target : Path}
    (done : fs.copy source target = (.ok (), mid)) (apart : fs.place source ≠ fs.place target) :
    ∃ content, fs.get? (fs.place source) = some (.file content) ∧
      ∀ l, mid.get? l = if l = fs.place target then some (.file content) else fs.get? l := by
  rcases copy_cases fs source target with ⟨e, failed⟩ | ⟨stored, found, emptied, ⟨e, _, failed⟩ | again⟩
  · cases failed.symm.trans done
  · cases failed.symm.trans done
  · obtain ⟨content, reread, copied⟩ := again
    rcases write_cases fs target [] with ⟨e, failed⟩ | ⟨written, reaches, unslashed, leaf⟩
    · rw [failed] at emptied
      cases emptied
    · rw [written] at reread copied
      have first := get_put_leaf tree (leaf_of_look leaf) (.file [])
      have kept := is_tree_put_place tree reaches leaf (.file [])
      have keeps := put_keeps tree (leaf_of_look leaf) (.file [])
      have leafNow : (fs.put (fs.place target) (.file [])).look (fs.spot target) ≠ some .directory := by
        rw [look_put_file tree leaf]
        intro same
        cases same
      have there := get_of_read reread
      rw [place_congr keeps.here, first, if_neg apart] at there
      have rewritten := write_eq_ok (keeps.reaches reaches) unslashed leafNow content
      rw [done, rewritten] at copied
      cases copied
      refine ⟨content, there, fun l => ?_⟩
      have flat : (fs.put (fs.place target) (.file [])).get? (fs.place target) ≠ some .directory := leaf_of_look leafNow
      rw [place_congr keeps.here, get_put_leaf kept flat, first]
      by_cases same : l = fs.place target
      · rw [if_pos same, if_pos same]
      · rw [if_neg same, if_neg same, if_neg same]

end FileSystem

namespace StagingArea

structure Copied (o : Path) (d : Path) (paths : List Path) (fs after : FileSystem) : Prop where
  keeps : Keeps (fun l => ∃ name, l = fs.place o ++ [name]) fs after
  tree : after.IsTree
  copies : ∀ path ∈ paths, ∀ name, Path.IsName name → path = d.join name →
    ∃ content, fs.get? (fs.place d ++ [name]) = some (.file content) ∧
      after.get? (fs.place o ++ [name]) = some (.file content)
  others : ∀ l, (∀ path ∈ paths, ∀ name, Path.IsName name → path = d.join name → l ≠ fs.place o ++ [name]) →
    after.get? l = fs.get? l

theorem copied_refl {fs : FileSystem} (tree : fs.IsTree) (o d : Path) : Copied o d [] fs fs := by
  refine ⟨keeps_refl _ fs, tree, fun path member => ?_, fun _ _ => rfl⟩
  cases member

theorem copied_cons {o d : Path} {name : List Char} {paths : List Path} {fs mid after : FileSystem}
    (proper : Path.IsName name) (apart : ∀ name other, fs.place d ++ [name] ≠ fs.place o ++ [other])
    (tree : fs.IsTree) (done : fs.copy (d.join name) (o.join name) = (.ok (), mid))
    (rest : Copied o d paths mid after) : Copied o d (d.join name :: paths) fs after := by
  have first := copy_keeps tree (d.join name) (o.join name)
  rw [done, place_join fs o proper] at first
  have split : fs.place (d.join name) ≠ fs.place (o.join name) := by
    rw [place_join fs d proper, place_join fs o proper]
    exact apart name name
  obtain ⟨content, source, copied⟩ := copy_ok tree done split
  rw [place_join fs d proper] at source
  rw [place_join fs o proper] at copied
  obtain ⟨keeps, still, copies, others⟩ := rest
  have here : mid.here = fs.here := first.here
  rw [place_congr here] at keeps
  simp only [place_congr here] at copies others
  -- A staged file is nowhere in the output directory, so copying leaves it for the copies to come.
  have sources : ∀ n, mid.get? (fs.place d ++ [n]) = fs.get? (fs.place d ++ [n]) := by
    intro n
    rw [copied, if_neg (apart n name)]
  have later : ∀ path ∈ paths, ∀ n, Path.IsName n → path = d.join n →
      ∃ content, fs.get? (fs.place d ++ [n]) = some (.file content) ∧
        after.get? (fs.place o ++ [n]) = some (.file content) := by
    intro path member n properN same
    rw [← sources]
    exact copies path member n properN same
  refine ⟨keeps_trans (keeps_wider ?_ first) keeps, still, fun path member n properN same => ?_,
    fun l unlike => ?_⟩
  · intro l same
    exact ⟨name, same⟩
  · rcases List.mem_cons.mp member with head | member
    · have sameName := Path.join_injective d properN proper (same.symm.trans head)
      subst sameName
      by_cases again : d.join n ∈ paths
      · exact later _ again n properN rfl
      · refine ⟨content, source, ?_⟩
        rw [others, copied, if_pos rfl]
        intro path member other properOther same place
        have sameName : n = other := List.singleton_inj.mp (List.append_cancel_left place)
        rw [← sameName] at same
        exact again (same ▸ member)
    · exact later path member n properN same
  · have fresh : l ≠ fs.place o ++ [name] := unlike _ List.mem_cons_self name proper rfl
    rw [others l fun path member => unlike path (List.mem_cons_of_mem _ member), copied, if_neg fresh]

theorem copy_into_ensures {fs : FileSystem} (tree : fs.IsTree) (o d : Path)
    (apart : ∀ name other, fs.place d ++ [name] ≠ fs.place o ++ [other]) (paths : List Path)
    (inside : ∀ path ∈ paths, StandsIn d path) :
    (copyInto o paths).Ensures fs (fun _ after => Copied o d paths fs after)
      fun _ after => Keeps (fun l => ∃ name, l = fs.place o ++ [name]) fs after := by
  induction paths generalizing fs with
  | nil => exact (ensures_pure _).mpr (copied_refl tree o d)
  | cons path rest ih =>
      obtain ⟨name, proper, same⟩ := inside path List.mem_cons_self
      subst same
      have first := copy_keeps tree (d.join name) (o.join name)
      have still := is_tree_copy tree (d.join name) (o.join name)
      have apartNow : ∀ n other, (fs.copy (d.join name) (o.join name)).2.place d ++ [n] ≠
          (fs.copy (d.join name) (o.join name)).2.place o ++ [other] := by
        rw [place_congr first.here, place_congr first.here]
        exact apart
      have later := ih still apartNow fun q member => inside q (List.mem_cons_of_mem _ member)
      rw [place_join fs o proper] at first
      have wide := keeps_wider (fun l same => ⟨name, same⟩ : ∀ l, l = fs.place o ++ [name] →
        ∃ n, l = fs.place o ++ [n]) first
      rw [copyInto, Path.file_name_join d proper]
      simp only [ensures_bind, ensures_copy, orIo, ensures_or_fail, ensures_pure]
      refine ⟨fun _ done => ?_, fun _ _ => wide⟩
      apply ensures_mono later
      · intro _ after copied
        exact copied_cons proper apart tree (Prod.ext done rfl) copied
      · intro _ after keeps
        rw [place_congr first.here] at keeps
        exact keeps_trans wide keeps

theorem staging_apart (fs : FileSystem) (o : Path) {name : List Char} (proper : Path.IsName name)
    (n other : List Char) : fs.place (o.join name) ++ [n] ≠ fs.place o ++ [other] := by
  intro same
  rw [place_join fs o proper] at same
  have lengths := congrArg List.length same
  simp only [List.length_append, List.length_singleton] at lengths
  omega

-- The removal that follows the copying cannot fail. Only a copy can, and then it does not follow.
theorem promote_ensures {fs : FileSystem} (tree : fs.IsTree) (area : StagingArea) {o : Path}
    {name : List Char} (proper : Path.IsName name) (dir : area.dir = o.join name)
    (inside : ∀ path ∈ area.staged, StandsIn (o.join name) path) (reaches : fs.Reaches (o.join name))
    (there : fs.get? (fs.place o ++ [name]) = some .directory) :
    (area.promote o).Ensures fs
      (fun _ after => ∃ copied, Copied o (o.join name) area.staged fs copied ∧
        Vacated (fs.place o ++ [name]) (fs.GoesBelow o (fs.place o ++ [name])) copied after)
      fun _ after => after.get? (fs.place o ++ [name]) = some .directory := by
  unfold promote
  simp only [ensures_bind, ensures_remove_tree, orIo, ensures_or_fail, ensures_tell, ensures_pure]
  apply ensures_mono (copy_into_ensures tree o (o.join name) (staging_apart fs o proper) area.staged inside)
  · intro outputs copied facts
    have here := facts.keeps.here
    have still : copied.get? (copied.place o ++ [name]) = some .directory := by
      rw [place_congr here]
      exact facts.keeps.directories _ there
    obtain ⟨removed, vacated⟩ := remove_tree_vacates copied o proper (facts.keeps.reaches reaches) still
    rw [place_congr here, goes_below_congr here] at vacated
    rw [dir]
    refine ⟨fun _ _ => ⟨copied, facts, vacated⟩, fun e failed => ?_⟩
    rw [removed] at failed
    cases failed
  · intro e after keeps
    exact keeps.directories _ there

end StagingArea

namespace Batch

variable {σ : Type}

def wovenAll (ε : Type) (t : Transformer σ) (settings : Settings) (request : Request) (state : σ)
    (fs : FileSystem) : Option (Progress σ × FileSystem) :=
  match (prepare settings request).run fs with
  | ⟨.error _, _, _⟩ => none
  | ⟨.ok (planned, area), prepared, _⟩ =>
    match (weaveAll t settings planned.search ⟨state, area, [], []⟩ planned.processed
        : Task ε _).run prepared with
    | ⟨.ok (progress, none), woven, _⟩ => some (progress, woven)
    | _ => none

section WovenAll

variable {ε : Type} {t : Transformer σ} {settings : Settings} {request : Request} {state : σ}
  {fs woven : FileSystem} {progress : Progress σ}

theorem woven_all_eq_some (comes : wovenAll ε t settings request state fs = some (progress, woven)) :
    ∃ planned area, ((prepare settings request).run fs).result = .ok (planned, area) ∧
      ((weaveAll t settings planned.search ⟨state, area, [], []⟩ planned.processed : Task ε _).run
        ((prepare settings request).run fs).files).result = .ok (progress, none) ∧
      ((weaveAll t settings planned.search ⟨state, area, [], []⟩ planned.processed : Task ε _).run
        ((prepare settings request).run fs).files).files = woven := by
  unfold wovenAll at comes
  split at comes
  · cases comes
  · rename_i planned area prepared events ready
    split at comes
    · rename_i ended final log wove
      cases comes
      refine ⟨planned, area, by rw [ready], ?_, ?_⟩
      · rw [ready, wove]
      · rw [ready, wove]
    · cases comes

theorem run_of_woven_all (comes : wovenAll ε t settings request state fs = some (progress, woven)) :
    ((run t settings request state : Task ε _).run fs).result =
        .ok (((commit settings request progress).run woven).result, progress.state) ∧
      ((run t settings request state : Task ε _).run fs).files =
        ((commit settings request progress).run woven).files := by
  obtain ⟨planned, area, ready, wove, files⟩ := woven_all_eq_some comes
  have ends : (run t settings request state : Task ε _).Ensures fs
      (fun answer after =>
        answer = (((commit settings request progress).run woven).result, progress.state) ∧
        after = ((commit settings request progress).run woven).files) fun _ _ => False := by
    unfold run
    simp only [ensures_bind, ensures_attempt]
    refine ⟨fun answer result => ?_, fun e failed => ?_⟩
    · cases ready.symm.trans result
      simp only [ensures_tell]
      refine ⟨fun ended result => ?_, fun e failed => ?_⟩
      · cases wove.symm.trans result
        simp only [ensures_bind, ensures_attempt, ensures_pure, files]
        exact ⟨fun report done => ⟨by rw [done], rfl⟩, fun e failed => ⟨by rw [failed], rfl⟩⟩
      · cases wove.symm.trans failed
    · cases ready.symm.trans failed
  cases result : ((run t settings request state : Task ε _).run fs).result with
  | ok answer =>
      obtain ⟨same, files⟩ := ends.done answer result
      exact ⟨by rw [same], files⟩
  | error e => exact (ends.failed e result).elim

theorem woven_all_of_ready {planned : Plan} {area : StagingArea}
    (ready : ((prepare settings request).run fs).result = .ok (planned, area))
    (wove : ((weaveAll t settings planned.search ⟨state, area, [], []⟩ planned.processed : Task ε _).run
      ((prepare settings request).run fs).files).result = .ok (progress, none)) :
    wovenAll ε t settings request state fs = some (progress,
      ((weaveAll t settings planned.search ⟨state, area, [], []⟩ planned.processed : Task ε _).run
        ((prepare settings request).run fs).files).files) := by
  unfold wovenAll
  cases prepared : (prepare settings request).run fs with
  | mk answer files events =>
      rw [prepared] at ready wove
      dsimp only at ready wove
      subst ready
      cases woven : (weaveAll t settings planned.search ⟨state, area, [], []⟩ planned.processed : Task ε _).run files with
      | mk answer files events =>
          rw [woven] at wove
          dsimp only at wove
          subst wove
          simp only [woven]

theorem woven_all_of_done {report : Report} {last : σ}
    (done : ((run t settings request state : Task ε _).run fs).result = .ok (.ok report, last)) :
    ∃ progress woven, wovenAll ε t settings request state fs = some (progress, woven) ∧
      ((commit settings request progress).run woven).result = .ok report := by
  have reaches : (run t settings request state : Task ε _).Ensures fs
      (fun answer _ => answer.1 = .ok report → (wovenAll ε t settings request state fs).isSome = true)
      fun _ _ => True := by
    unfold run
    simp only [ensures_bind, ensures_attempt, ensures_tell]
    refine ⟨fun answer ready => ⟨fun ended wove => ?_, fun _ _ => trivial⟩, fun e _ => ?_⟩
    · obtain ⟨progress, stopped⟩ := ended
      have some : stopped = none → (wovenAll ε t settings request state fs).isSome = true := by
        intro unstopped
        rw [unstopped] at wove
        rw [woven_all_of_ready ready wove, Option.isSome_some]
      cases stopped with
      | none =>
          simp only [ensures_bind, ensures_pure, ensures_attempt]
          exact ⟨fun _ _ _ => some rfl, fun _ _ _ => some rfl⟩
      | some failure =>
          simp only [ensures_bind, ensures_pure]
          refine ⟨fun _ _ failed => ?_, fun _ _ => trivial⟩
          cases failed
    · exact (ensures_pure _).mpr fun failed => by cases failed
  obtain ⟨reached, comes⟩ := Option.isSome_iff_exists.mp (reaches.done _ done rfl)
  refine ⟨reached.1, reached.2, comes, ?_⟩
  have result := (run_of_woven_all comes).1
  rw [done] at result
  exact (Prod.mk.inj (Except.ok.inj result)).1.symm

theorem woven_all_underway (sound : settings.fault = none) (tree : fs.IsTree)
    (comes : wovenAll ε t settings request state fs = some (progress, woven)) :
    Underway request.outputDir settings.stagingDir.toList fs progress.area woven := by
  obtain ⟨planned, area, ready, wove, files⟩ := woven_all_eq_some comes
  have facts := (prepare_ensures tree sound request).done _ ready
  have underway := (weave_all_underway t state facts).done _ wove
  rwa [files] at underway

end WovenAll

-- A failing manifest changes nothing, so a commit that fails leaves what promotion left.
theorem commit_failed_files {fs : FileSystem} {settings : Settings} {request : Request}
    {progress : Progress σ} {failure : Failure}
    (fails : ((commit settings request progress).run fs).result = .error failure) :
    ((commit settings request progress).run fs).files =
      ((progress.area.promote request.outputDir).run fs).files := by
  have ensures : (commit settings request progress).Ensures fs (fun _ _ => True)
      fun _ after => after = ((progress.area.promote request.outputDir).run fs).files := by
    unfold commit writeManifest
    simp only [ensures_bind, ensures_write_file, ensures_tell, ensures_pure]
    refine ⟨fun outputs _ => ⟨fun _ _ => trivial, fun e failed => ?_⟩, fun _ _ => rfl⟩
    rcases write_cases _ _ _ with ⟨_, unchanged⟩ | ⟨written, _⟩
    · rw [unchanged]
    · rw [written] at failed
      cases failed
  exact ensures.failed failure fails

structure RolledBack (o : Path) (staging : Location) (fs after : FileSystem) : Prop where
  files : ∀ name content, after.get? (fs.place o ++ [name]) = some (.file content) ↔
    fs.get? (fs.place o ++ [name]) = some (.file content)
  gone : after.get? staging = none

section Promoted

variable {o : Path} {name : List Char} {fs woven copied : FileSystem} {area : StagingArea}

theorem promoted_content (underway : Underway o name fs area woven) (proper : Path.IsName name)
    (copies : Copied o (o.join name) area.staged woven copied) {path : Path} (member : path ∈ area.staged)
    {n : List Char} (named : path.fileName? = some n) :
    ∃ content, woven.get? (fs.place o ++ [name] ++ [n]) = some (.file content) ∧
      copied.get? (fs.place o ++ [n]) = some (.file content) := by
  obtain ⟨m, properM, same⟩ := underway.staged path member
  rw [same, Path.file_name_join _ properM] at named
  cases named
  obtain ⟨content, source, target⟩ := copies.copies path member n properM same
  rw [place_join _ o proper, place_congr underway.here] at source
  rw [place_congr underway.here] at target
  exact ⟨content, source, target⟩

theorem unpromoted_kept (underway : Underway o name fs area woven)
    (copies : Copied o (o.join name) area.staged woven copied) {n : List Char}
    (unstaged : ∀ path ∈ area.staged, path.fileName? ≠ some n) :
    copied.get? (fs.place o ++ [n]) = woven.get? (fs.place o ++ [n]) := by
  apply copies.others
  intro path member m properM same place
  rw [place_congr underway.here] at place
  have sameName : n = m := List.singleton_inj.mp (List.append_cancel_left place)
  apply unstaged path member
  rw [same, Path.file_name_join _ properM, sameName]

end Promoted

theorem rolled_back_iff {o : Path} {name : List Char} {fs woven copied after : FileSystem}
    {area : StagingArea} (underway : Underway o name fs area woven) (proper : Path.IsName name)
    (copies : Copied o (o.join name) area.staged woven copied)
    (vacated : Vacated (fs.place o ++ [name]) (fs.GoesBelow o (fs.place o ++ [name])) copied after) :
    RolledBack o (fs.place o ++ [name]) fs after ↔
      ¬ fs.GoesBelow o (fs.place o ++ [name]) ∧
      ∀ path ∈ area.staged, ∀ n, path.fileName? = some n →
        fs.get? (fs.place o ++ [n]) = woven.get? (fs.place o ++ [name] ++ [n]) := by
  have stands : copied.get? (fs.place o ++ [name]) = some .directory :=
    copies.keeps.directories _ (underway.stands proper)
  constructor
  · intro rolled
    have apart : ¬ fs.GoesBelow o (fs.place o ++ [name]) := by
      intro below
      have left := rolled.gone
      rw [vacated.left below] at left
      cases left
    refine ⟨apart, fun path member n named => ?_⟩
    obtain ⟨content, source, target⟩ := promoted_content underway proper copies member named
    -- No staged file has the name of the staging directory: its copy would stand in that place.
    have other : fs.place o ++ [n] ≠ fs.place o ++ [name] := by
      intro same
      rw [same, stands] at target
      cases target
    rw [source]
    apply (rolled.files n content).mp
    rw [vacated.outside _ (sibling_outside other), target]
  · intro facts
    obtain ⟨apart, sameFiles⟩ := facts
    refine ⟨fun n content => ?_, vacated.gone apart⟩
    by_cases own : fs.place o ++ [n] = fs.place o ++ [name]
    -- Nor was there a file in the place of the staging directory before.
    · rw [own, vacated.gone apart]
      constructor
      · intro file
        cases file
      · exact fun file => absurd file (underway.free content)
    · rw [vacated.outside _ (sibling_outside own)]
      by_cases staged : ∃ path ∈ area.staged, path.fileName? = some n
      · obtain ⟨path, member, named⟩ := staged
        obtain ⟨_, source, target⟩ := promoted_content underway proper copies member named
        rw [sameFiles path member n named, source, target]
      · rw [unpromoted_kept underway copies fun path member named => staged ⟨path, member, named⟩]
        exact underway.file_iff proper (sibling_outside own) content

/-- The output directory is as it was only if no copy failed, the way to it stays out of the staging directory, and
each file staged stood in it already, byte for byte. -/
theorem failed_commit_rolls_back_iff {ε : Type} (t : Transformer σ) (settings : Settings)
    (request : Request) (state : σ) (fs : FileSystem) (sound : settings.validate = .ok settings)
    (tree : fs.IsTree) {progress : Progress σ} {woven : FileSystem} {failure : Failure}
    (comes : wovenAll ε t settings request state fs = some (progress, woven))
    (fails : ((commit settings request progress).run woven).result = .error failure) :
    ((run t settings request state : Task ε _).run fs).result = .ok (.error failure, progress.state) ∧
    (RolledBack request.outputDir (fs.place request.outputDir ++ [settings.stagingDir.toList]) fs
        ((run t settings request state : Task ε _).run fs).files ↔
      (∃ outputs, ((progress.area.promote request.outputDir).run woven).result = .ok outputs) ∧
      ¬ fs.GoesBelow request.outputDir (fs.place request.outputDir ++ [settings.stagingDir.toList]) ∧
      ∀ path ∈ progress.area.staged, ∀ name, path.fileName? = some name →
        fs.get? (fs.place request.outputDir ++ [name]) =
          woven.get? (fs.place request.outputDir ++ [settings.stagingDir.toList] ++ [name])) := by
  have faultless := Settings.fault_of_validate sound
  obtain ⟨proper, _⟩ := Settings.names_of_sound faultless
  obtain ⟨result, files⟩ := run_of_woven_all comes
  have underway := woven_all_underway faultless tree comes
  have stands := underway.stands proper
  rw [← place_congr underway.here] at stands
  have promotes := promote_ensures underway.tree progress.area proper underway.dir underway.staged
    underway.reaches stands
  rw [result, fails, files, commit_failed_files fails]
  refine ⟨rfl, ?_⟩
  cases promotion : ((progress.area.promote request.outputDir).run woven).result with
  | ok outputs =>
      obtain ⟨copied, copies, vacated⟩ := promotes.done outputs promotion
      rw [place_congr underway.here, goes_below_congr underway.here] at vacated
      rw [rolled_back_iff underway proper copies vacated]
      simp
  | error e =>
      have left := promotes.failed e promotion
      rw [place_congr underway.here] at left
      constructor
      · intro rolled
        rw [rolled.gone] at left
        cases left
      · intro facts
        obtain ⟨⟨outputs, done⟩, _⟩ := facts
        cases done

-- A directory stands where the manifest goes. The copies made before that stay.
theorem failed_manifest_keeps_copies :
    let fs := (((⟨[], []⟩ : FileSystem).write "Game.wbc"
      (⟨Module.magicNumber, 1, 0, ⟨"Game", "1"⟩, [], [], [], none⟩ : Module).encode).2.makeDirs
        "out/weft.assemblyloadorder.json").2
    let idle : Transformer Unit := ⟨fun _ _ state draft => ⟨state, draft, .ok ()⟩⟩
    let request : Request := ⟨[], ["Game.wbc"], "out"⟩
    let staging : Location := ["out".toList, ".weft-staging".toList]
    ((run idle {} request () : Task Failure _).run fs).result =
        .ok (.error (.io "out/weft.assemblyloadorder.json" .isDirectory), ()) ∧
      ¬ RolledBack request.outputDir staging fs ((run idle {} request () : Task Failure _).run fs).files := by
  intro fs idle request staging
  have sound : ({} : Settings).validate = .ok {} := by decide +kernel
  have tree : fs.IsTree := (make_dirs_grows (is_tree_write (empty_is_tree []) _ _) _).2
  have fails : (wovenAll Failure idle {} request () fs).map
      (fun reached => ((commit {} request reached.1).run reached.2).result) =
        some (.error (.io "out/weft.assemblyloadorder.json" .isDirectory)) := by decide +kernel
  have staged : (wovenAll Failure idle {} request () fs).map (fun reached =>
      (reached.1.area.staged.contains "out/.weft-staging/Game.wbc",
        (reached.2.get? (staging ++ ["Game.wbc".toList])).isSome)) = some (true, true) := by decide +kernel
  have place : fs.place request.outputDir = ["out".toList] := by decide +kernel
  have absent : fs.get? (["out".toList] ++ ["Game.wbc".toList]) = none := by decide +kernel
  cases comes : wovenAll Failure idle {} request () fs with
  | none =>
      rw [comes] at fails
      cases fails
  | some reached =>
      obtain ⟨progress, woven⟩ := reached
      rw [comes, Option.map_some] at fails staged
      obtain ⟨member, there⟩ := Prod.mk.inj (Option.some.inj staged)
      obtain ⟨result, rolls⟩ :=
        failed_commit_rolls_back_iff idle {} request () fs sound tree comes (Option.some.inj fails)
      refine ⟨result, fun rolled => ?_⟩
      rw [place] at rolls
      obtain ⟨_, _, same⟩ := rolls.mp rolled
      have kept := same _ (List.contains_iff_mem.mp member) "Game.wbc".toList (by decide +kernel)
      have source : woven.get? (["out".toList] ++ [".weft-staging".toList] ++ ["Game.wbc".toList]) = none :=
        kept.symm.trans absent
      rw [show staging ++ ["Game.wbc".toList] =
        ["out".toList] ++ [".weft-staging".toList] ++ ["Game.wbc".toList] from rfl, source] at there
      cases there

end Batch

end Loom
