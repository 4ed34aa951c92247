import Loom.Proofs.Batch.Planning
import Loom.Proofs.Staging

set_option autoImplicit false

namespace Loom

open Loom.Task StagingArea

theorem Settings.is_name_of_plain {name : String} (plain : isPlainName name = true) :
    Path.IsName name.toList := by
  unfold isPlainName isNested at plain
  simp only [Bool.and_eq_true, decide_eq_true_eq, Bool.not_eq_true', Bool.or_eq_false_iff,
    decide_eq_false_iff_not] at plain
  obtain ⟨nonempty, ⟨⟨slashless, _⟩, notDot⟩, notDotDot⟩ := plain
  refine ⟨fun empty => nonempty ?_, ?_, fun dot => notDot ?_, fun dots => notDotDot ?_⟩
  · exact String.toList_inj.mp empty
  · intro slash
    rw [List.contains_iff_mem.mpr slash] at slashless
    cases slashless
  · exact String.toList_inj.mp dot
  · exact String.toList_inj.mp dots

theorem Settings.fault_of_validate {settings : Settings} (sound : settings.validate = .ok settings) :
    settings.fault = none := by
  unfold validate at sound
  split at sound
  · assumption
  · cases sound

theorem Settings.names_of_sound {settings : Settings} (sound : settings.fault = none) :
    Path.IsName settings.stagingDir.toList ∧ Path.IsName settings.manifestName.toList := by
  unfold Settings.fault at sound
  by_cases staging : isPlainName settings.stagingDir = true
  · by_cases manifest : isPlainName settings.manifestName = true
    · exact ⟨is_name_of_plain staging, is_name_of_plain manifest⟩
    · simp [staging, manifest] at sound
  · simp [staging] at sound

namespace Batch

theorem file_name_proper {fs : FileSystem} (tree : fs.IsTree) {loaded : LoadedModule}
    (isFile : fs.kind? loaded.origin = some .file) : Path.IsName loaded.fileName.toList := by
  obtain ⟨d, name, origin, proper⟩ := file_name_of_file tree isFile
  have own : loaded.fileName = String.ofList name := by
    rw [LoadedModule.fileName, origin, Path.file_name_join d proper]
  rwa [own, String.toList_ofList]

structure Prepared (settings : Settings) (request : Request) (fs : FileSystem) (answer : Plan × StagingArea)
    (after : FileSystem) : Prop where
  area : answer.2 =
    ⟨request.outputDir.join settings.stagingDir.toList, layoutOf settings.prettyMetadata, []⟩
  opened : Opened request.outputDir settings.stagingDir.toList fs after
  plan : ((plan request.references request.targets settings.readSymbols).run fs).result = .ok answer.1
  planned : Planned fs request.references request.targets answer.1
  named : ∀ loaded ∈ answer.1.modules, Path.IsName loaded.fileName.toList

theorem prepare_ensures {fs : FileSystem} (tree : fs.IsTree) {settings : Settings}
    (sound : settings.fault = none) (request : Request) :
    (prepare settings request).Ensures fs (Prepared settings request fs) fun e _ => e.Plain := by
  obtain ⟨proper, _⟩ := Settings.names_of_sound sound
  apply ensures_then (plan_answers _ _ _)
  intro planned after facts
  obtain ⟨same, result, facts⟩ := facts
  rw [same]
  obtain ⟨grows, made⟩ := FileSystem.make_dirs_grows tree request.outputDir
  simp only [ensures_bind, ensures_tell, ensures_make_dirs, orIo, ensures_or_fail]
  refine ⟨fun _ _ => ?_, fun e _ => fun _ _ => Failure.noConfusion⟩
  apply ensures_mono (create_ensures made request.outputDir proper settings.prettyMetadata)
  · intro area after opened
    obtain ⟨which, tree', reaches, way, outside, free⟩ := opened
    rw [ensures_pure]
    rw [FileSystem.way_congr grows.here] at way
    rw [FileSystem.way_congr grows.here, FileSystem.place_congr grows.here] at outside
    rw [FileSystem.place_congr grows.here] at free
    have first : FileSystem.Grows (¬ fs.place request.outputDir ++ [settings.stagingDir.toList] <+: ·)
        (· ∈ fs.way request.outputDir) fs (fs.makeDirs request.outputDir).2 :=
      ⟨grows.here, fun spot _ => grows.entries spot trivial⟩
    refine ⟨which, ⟨tree', reaches, way, FileSystem.grows_trans first outside, ?_⟩, result, facts, ?_⟩
    · intro content file
      exact free content ((grows.file_iff trivial content).mpr file)
    · exact fun loaded member => file_name_proper tree (facts.read loaded member).isFile
  · intro e _ failed
    obtain ⟨path, cause, same⟩ := failed
    rw [same]
    exact fun _ _ => Failure.noConfusion

variable {σ : Type}

theorem weave_all_stages {ε : Type} (t : Transformer σ) (settings : Settings) (search : SearchPath)
    (modules : List LoadedModule) (progress : Progress σ) {fs : FileSystem} (tree : fs.IsTree)
    (named : ∀ loaded ∈ modules, Path.IsName loaded.fileName.toList)
    (inside : ∀ path ∈ progress.area.staged, StandsIn progress.area.dir path) :
    (weaveAll t settings search progress modules : Task ε _).Ensures fs
      (fun answer after => Staged progress.area.dir fs after ∧ answer.1.area.dir = progress.area.dir ∧
        ∀ path ∈ answer.1.area.staged, StandsIn progress.area.dir path)
      fun _ _ => False := by
  induction modules generalizing progress fs with
  | nil => exact (ensures_pure _).mpr ⟨staged_refl tree _, rfl, inside⟩
  | cons loaded rest ih =>
      have later : ∀ m ∈ rest, Path.IsName m.fileName.toList :=
        fun m member => named m (List.mem_cons_of_mem loaded member)
      rw [weaveAll]
      split
      · simp only [ensures_bind, ensures_tell]
        exact ih { progress with skipped := progress.skipped ++ [loaded.stem] } tree later inside
      · simp only [ensures_bind, ensures_tell]
        split
        · exact (ensures_pure _).mpr ⟨staged_refl tree _, rfl, inside⟩
        · simp only [ensures_bind, ensures_attempt]
          apply ensures_mono (write_stages tree progress.area (named loaded List.mem_cons_self) _ _ _)
          · intro answer after facts
            obtain ⟨files, wrote, _, written, same⟩ := facts
            rw [same]
            have proper := named loaded List.mem_cons_self
            have insideNow : ∀ path ∈ progress.area.staged ++
                (pathsOf progress.area.dir loaded.fileName.toList loaded.symbols).paths,
                StandsIn progress.area.dir path := by
              intro path member
              rcases List.mem_append.mp member with earlier | now
              · exact inside path earlier
              · obtain ⟨file, listed, own⟩ := (mem_paths_of_iff _ proper _ _ _ path).mp now
                exact ⟨file.1, wrote.named file (written ▸ listed), own.symm⟩
            simp only [ensures_tell]
            apply ensures_mono (ih _ wrote.staged.tree later insideNow)
            · intro last final facts
              exact ⟨staged_trans wrote.staged facts.1, facts.2⟩
            · exact fun _ _ impossible => impossible
          · intro e after staged
            exact (ensures_pure _).mpr ⟨staged, rfl, inside⟩

theorem processed_mem {planned : Plan} {loaded : LoadedModule} (member : loaded ∈ planned.processed) :
    loaded ∈ planned.modules := by
  obtain ⟨i, _, found⟩ := List.mem_filterMap.mp member
  exact List.mem_of_getElem? found

structure Underway (o : Path) (name : List Char) (fs : FileSystem) (area : StagingArea)
    (woven : FileSystem) : Prop where
  steps : ∃ prepared, Opened o name fs prepared ∧ Staged (o.join name) prepared woven
  dir : area.dir = o.join name
  staged : ∀ path ∈ area.staged, StandsIn (o.join name) path

theorem weave_all_underway {ε : Type} (t : Transformer σ) {settings : Settings} {request : Request}
    (state : σ) {answer : Plan × StagingArea} {fs prepared : FileSystem}
    (facts : Prepared settings request fs answer prepared) :
    (weaveAll t settings answer.1.search ⟨state, answer.2, [], []⟩ answer.1.processed : Task ε _).Ensures
      prepared
      (fun ended woven =>
        Underway request.outputDir settings.stagingDir.toList fs ended.1.area woven)
      fun _ _ => False := by
  have which := facts.area
  have nothing : ∀ path ∈ answer.2.staged, StandsIn answer.2.dir path := by
    intro path member
    rw [which] at member
    cases member
  apply ensures_mono (weave_all_stages t settings answer.1.search answer.1.processed
    ⟨state, answer.2, [], []⟩ facts.opened.tree
    (fun loaded member => facts.named loaded (processed_mem member)) nothing)
  · intro ended woven ends
    obtain ⟨staged, dir, inside⟩ := ends
    dsimp only at staged dir inside
    rw [which] at staged dir inside
    exact ⟨⟨prepared, facts.opened, staged⟩, dir, inside⟩
  · exact fun _ _ impossible => impossible

section Underway

variable {o : Path} {name : List Char} {fs woven : FileSystem} {area : StagingArea}

theorem Underway.here (underway : Underway o name fs area woven) : woven.here = fs.here := by
  obtain ⟨prepared, opened, staged⟩ := underway.steps
  exact staged.keeps.here.trans opened.grows.here

theorem Underway.tree (underway : Underway o name fs area woven) : woven.IsTree := by
  obtain ⟨_, _, staged⟩ := underway.steps
  exact staged.tree

theorem Underway.reaches (underway : Underway o name fs area woven) : woven.Reaches (o.join name) := by
  obtain ⟨prepared, opened, staged⟩ := underway.steps
  exact staged.keeps.reaches opened.reaches

theorem Underway.stands (underway : Underway o name fs area woven) (proper : Path.IsName name) :
    woven.get? (fs.place o ++ [name]) = some .directory := by
  obtain ⟨prepared, opened, staged⟩ := underway.steps
  apply staged.keeps.directories
  apply opened.way
  rw [FileSystem.way_join fs o proper]
  exact List.mem_append_right _ (List.mem_singleton_self _)

theorem Underway.outside (underway : Underway o name fs area woven) (proper : Path.IsName name) :
    ∃ prepared, Opened o name fs prepared ∧
      ∀ l, ¬ fs.place o ++ [name] <+: l → woven.get? l = prepared.get? l := by
  obtain ⟨prepared, opened, staged⟩ := underway.steps
  refine ⟨prepared, opened, fun l outside => staged.keeps.elsewhere l ?_⟩
  rw [FileSystem.place_join _ o proper, FileSystem.place_congr opened.grows.here]
  exact fun below => outside below.1

theorem Underway.get_outside (underway : Underway o name fs area woven) (proper : Path.IsName name)
    {l : Location} (outside : ¬ fs.place o ++ [name] <+: l) :
    woven.get? l = if l ∈ fs.way o then some .directory else fs.get? l := by
  obtain ⟨prepared, opened, same⟩ := underway.outside proper
  rw [same l outside]
  by_cases onWay : l ∈ fs.way o
  · rw [if_pos onWay]
    apply opened.way
    rw [FileSystem.way_join fs o proper]
    exact List.mem_append_left _ onWay
  · rw [if_neg onWay]
    exact (opened.grows.entries l outside).resolve_right fun added => onWay added.2.1

theorem Underway.file_iff (underway : Underway o name fs area woven) (proper : Path.IsName name)
    {l : Location} (outside : ¬ fs.place o ++ [name] <+: l) (content : Bytes) :
    woven.get? l = some (.file content) ↔ fs.get? l = some (.file content) := by
  obtain ⟨prepared, opened, same⟩ := underway.outside proper
  rw [same l outside]
  exact opened.grows.file_iff outside content

theorem Underway.free (underway : Underway o name fs area woven) (content : Bytes) :
    fs.get? (fs.place o ++ [name]) ≠ some (.file content) := by
  obtain ⟨_, opened, _⟩ := underway.steps
  exact opened.free content

end Underway

end Batch

end Loom
