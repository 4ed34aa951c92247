import Loom.CommandLine
import Loom.Proofs.Batch.Accounts
import Loom.Proofs.Batch.Replanning

set_option autoImplicit false

namespace Loom

open Loom.Task

variable {fs : FileSystem}

namespace Settings

theorem looks_of_file (path : Path) : (ofFile path).Looks fs (fun _ => True) fun _ => True := by
  apply looks_then (looks_read_file path fun _ => trivial)
  intro bytes _
  split
  · exact looks_of_except (fun _ _ => trivial) fun _ _ => trivial
  · exact looks_fail trivial

theorem looks_discover (dir : Path) : (discover dir).Looks fs (fun _ => True) fun _ => True := by
  unfold discover
  apply looks_then (looks_is_file _)
  intro found _
  cases found with
  | true => exact looks_then (looks_tell _) fun _ _ => looks_of_file _
  | false => exact looks_pure trivial

end Settings

def LoadedModule.alone (loaded : LoadedModule) : LoadedModule := { loaded with symbols := none }

theorem LoadedModule.Loads.alone {readSymbols : Bool} {loaded : LoadedModule} (loads : loaded.Loads fs readSymbols) :
    loaded.alone.Loads fs false :=
  ⟨loads.isFile, loads.module, rfl⟩

namespace Batch

theorem looks_plan_alone {references targets : List String} {readSymbols : Bool} {planned : Plan}
    (made : ((plan references targets readSymbols).run fs).result = .ok planned) :
    (plan references targets false).Looks fs
      (fun other => other.processed.map LoadedModule.bare = planned.processed.map fun loaded => loaded.alone.bare)
      fun _ => False := by
  have looked := ((looks_plan references targets readSymbols).done planned made).2
  have ordered := ((looks_plan_order references targets readSymbols).done planned made).2
  have source := ((looks_plan_from references targets readSymbols).done planned made).2
  have searching : (SearchPath.ofReferences references).Looks fs (· = planned.search) fun _ => False :=
    looks_of_result source.search (looks_files (SearchPath.looks_add_all {} references))
  have origins : (planned.modules.map LoadedModule.alone).map (·.origin) =
      targets.map fun target => Path.ofString (Text.unquote target) := by
    rw [List.map_map]
    exact looked.origins
  have loads : ∀ loaded ∈ planned.modules.map LoadedModule.alone, loaded.Loads fs false := by
    intro loaded member
    obtain ⟨own, inside, rfl⟩ := List.mem_map.mp member
    exact (source.loads own inside).alone
  have stems : ((planned.modules.map LoadedModule.alone).map LoadedModule.stem).Nodup := by
    rw [List.map_map]
    exact looked.stems
  have same : Plan.ofModules planned.search (planned.modules.map LoadedModule.alone) =
      { planned with modules := planned.modules.map LoadedModule.alone } := by
    rw [Plan.ofModules, List.map_map, ordered]
    rfl
  apply looks_mono (looks_plan_of_loads searching origins loads stems)
  · intro other bare
    rw [same] at bare
    rw [← processed_bare, bare, processed_bare, processed_map, List.map_map]
    rfl
  · exact fun _ impossible => impossible

end Batch

namespace CommandLine

theorem looks_complain {ε α : Type} {explain : ε → Complaint} {t : Task ε α} {good : α → Prop} {bad : ε → Prop}
    {worse : Complaint → Prop} (looks : t.Looks fs good bad) (failed : ∀ e, bad e → worse (explain e)) :
    (complain explain t).Looks fs good worse := by
  apply looks_then (looks_attempt looks)
  intro answer facts
  cases answer with
  | ok a => exact looks_pure (facts.1 a rfl)
  | error e => exact looks_fail (failed e (facts.2 e rfl))

theorem looks_load_settings (config : Option Path) : (loadSettings config).Looks fs (fun _ => True) fun _ => True := by
  cases config with
  | none => exact looks_complain (Settings.looks_discover _) fun _ _ => trivial
  | some path => exact looks_complain (Settings.looks_of_file path) fun _ _ => trivial

def mark (settings : Settings) (loaded : LoadedModule) : String × Bool :=
  (loaded.stem, settings.isGlue loaded.module.name)

def markedLine : String × Bool → List Piece
  | (stem, true) => [.plain stem, .dim " (glue)", .newline]
  | (stem, false) => [.plain stem, .newline]

theorem order_line_eq (settings : Settings) (loaded : LoadedModule) :
    orderLine settings loaded = markedLine (mark settings loaded) := by
  unfold orderLine mark
  cases settings.isGlue loaded.module.name with
  | true => rfl
  | false => rfl

def givenSettings (noSymbols : Bool) (settings : Settings) : Settings :=
  if noSymbols then { settings with readSymbols := false } else settings

theorem is_glue_given (noSymbols : Bool) (settings : Settings) :
    (givenSettings noSymbols settings).isGlue = settings.isGlue := by
  cases noSymbols with
  | true => rfl
  | false => rfl

theorem manifest_name_given (noSymbols : Bool) (settings : Settings) :
    (givenSettings noSymbols settings).manifestName = settings.manifestName := by
  cases noSymbols with
  | true => rfl
  | false => rfl

theorem unmarked_eq (noSymbols : Bool) (settings : Settings) (planned : Batch.Plan) :
    ((planned.processed.map (mark settings)).filter (!·.2)).map (·.1) =
      (planned.toWeave (givenSettings noSymbols settings)).map LoadedModule.stem := by
  unfold Batch.Plan.toWeave
  rw [is_glue_given, List.filter_map, List.map_map]
  rfl

theorem marked_eq (noSymbols : Bool) (settings : Settings) (planned : Batch.Plan) :
    ((planned.processed.map (mark settings)).filter (·.2)).map (·.1) =
      (planned.toSkip (givenSettings noSymbols settings)).map LoadedModule.stem := by
  unfold Batch.Plan.toSkip
  rw [is_glue_given, List.filter_map, List.map_map]
  rfl

theorem weave_ensures (output : Path) (references targets : List String) (noSymbols : Bool) :
    (Command.weave output references targets none none noSymbols).task.Ensures fs
      (fun pieces after => ∃ settings report, ((loadSettings none).run fs).result = .ok settings ∧
        let weaving : Task Complaint _ :=
          Batch.run registration (givenSettings noSymbols settings) ⟨references, targets, output⟩ ()
        (weaving.run fs).result = .ok (.ok report, ()) ∧ after = (weaving.run fs).files ∧
          pieces = reportLines output report)
      fun _ _ => True := by
  refine ensures_then (ensures_mono (looks_result (looks_load_settings none)) (fun _ _ facts => facts) fun _ _ _ =>
    trivial) ?_
  rintro settings _ ⟨rfl, _, loaded⟩
  simp only [ensures_bind]
  refine ⟨fun answer done => ?_, fun _ _ => trivial⟩
  obtain ⟨result, last⟩ := answer
  simp only [ensures_or_fail, ensures_pure]
  refine ⟨fun report same => ?_, fun _ _ => trivial⟩
  rw [same] at done
  exact ⟨settings, report, loaded, done, rfl, rfl⟩

theorem looks_order {references targets : List String} {settings : Settings} {readSymbols : Bool}
    {planned : Batch.Plan} (loaded : ((loadSettings none).run fs).result = .ok settings)
    (made : ((Batch.plan references targets readSymbols).run fs).result = .ok planned) :
    (Command.order references targets).task.Looks fs
      (· = (planned.processed.map (mark settings)).flatMap markedLine) fun _ => False := by
  apply looks_then (looks_of_result loaded (looks_files (looks_load_settings none)))
  rintro settings rfl
  apply looks_then (looks_complain (Batch.looks_plan_alone made) fun _ impossible => impossible)
  intro other same
  apply looks_pure
  have marks := congrArg (List.map (mark settings)) same
  rw [List.map_map, List.map_map] at marks
  change other.processed.map (mark settings) = planned.processed.map (mark settings) at marks
  rw [← marks, List.flatMap_map]
  exact List.flatMap_congr fun loaded _ => order_line_eq settings loaded

/-- The lines that are not marked as glue are the load order that weaving reports and that its manifest holds. -/
theorem order_lists_what_weave_reports (output : Path) (references targets : List String) (noSymbols : Bool)
    (fs : FileSystem) (tree : fs.IsTree) {pieces : List Piece}
    (woven : ((Command.weave output references targets none none noSymbols).task.run fs).result = .ok pieces) :
    ∃ (settings : Settings) (report : Batch.Report) (listed : List (String × Bool)),
      ((loadSettings none).run fs).result = .ok settings ∧ pieces = reportLines output report ∧
      (∃ bytes text, ((Command.weave output references targets none none noSymbols).task.run fs).files.read
          (output.join settings.manifestName.toList) = .ok bytes ∧
        Bytes.toText? bytes = some text ∧ Manifest.ofText? text = some ⟨report.loadOrder⟩) ∧
      ((Command.order references targets).task.run fs).result = .ok (listed.flatMap markedLine) ∧
      (listed.filter (!·.2)).map (·.1) = report.loadOrder ∧ (listed.filter (·.2)).map (·.1) = report.skipped := by
  obtain ⟨settings, report, loaded, done, files, lines⟩ :=
    (weave_ensures output references targets noSymbols).done pieces woven
  obtain ⟨planned, planning, accounted, manifest⟩ :=
    Batch.batch_accounts_for_targets registration _ _ () fs tree done
  obtain ⟨_, ordered, rfl⟩ := looks_succeeds (looks_order loaded planning)
  refine ⟨settings, report, planned.processed.map (mark settings), loaded, lines, ?_, ordered, ?_, ?_⟩
  · rw [files, ← manifest_name_given noSymbols settings, ← accounted.manifest]
    exact manifest
  · rw [accounted.loadOrder]
    exact unmarked_eq noSymbols settings planned
  · rw [accounted.skipped]
    exact marked_eq noSymbols settings planned

-- Game refers to the glue, and that to Core, whose symbols weaving reads and ordering does not.
theorem order_lists_glue_in_its_place :
    let named (name : String) (references : List Identity) : Module :=
      ⟨Module.magicNumber, 1, 0, ⟨name, "1"⟩, references, [], [], none⟩
    let core : SymbolTable := ⟨"Core", [⟨"Foe", "foe.weft", 3⟩]⟩
    let fs := ((((((((⟨[], []⟩ : FileSystem).write "Game.wbc" (named "Game" [⟨"ProjectGlue", "1"⟩]).encode).2).write
      "ProjectGlue.wbc" (named "ProjectGlue" [⟨"Core", "1"⟩]).encode).2).write "Core.wbc"
      (named "Core" []).encode).2).write "Core.wsym" core.encode).2
    let targets := ["Game.wbc", "ProjectGlue.wbc", "Core.wbc"]
    let weave := (Command.weave "out" [] targets none none false).task
    let pieces : List Piece := [.success "  woven ", .plain "Core", .newline, .success "  woven ", .plain "Game", .newline,
      .warning "skipped ", .plain "ProjectGlue", .dim " (glue)", .newline,
      .bold "2 modules woven, 6 files written to out", .newline]
    (weave.run fs).result = .ok pieces ∧
      (∃ (settings : Settings) (report : Batch.Report) (listed : List (String × Bool)),
        ((loadSettings none).run fs).result = .ok settings ∧ pieces = reportLines "out" report ∧
        (∃ bytes text, (weave.run fs).files.read (Path.join "out" settings.manifestName.toList) = .ok bytes ∧
          Bytes.toText? bytes = some text ∧ Manifest.ofText? text = some ⟨report.loadOrder⟩) ∧
        ((Command.order [] targets).task.run fs).result = .ok (listed.flatMap markedLine) ∧
        (listed.filter (!·.2)).map (·.1) = report.loadOrder ∧ (listed.filter (·.2)).map (·.1) = report.skipped) ∧
      ((Command.order [] targets).task.run fs).result =
        .ok ([("Core", false), ("ProjectGlue", true), ("Game", false)].flatMap markedLine) := by
  intro named core fs targets weave pieces
  have tree : fs.IsTree := FileSystem.is_tree_write (FileSystem.is_tree_write (FileSystem.is_tree_write
    (FileSystem.is_tree_write (FileSystem.empty_is_tree []) _ _) _ _) _ _) _ _
  have woven : (weave.run fs).result = .ok pieces := by decide +kernel
  have ordered : ((Command.order [] targets).task.run fs).result =
      .ok ([("Core", false), ("ProjectGlue", true), ("Game", false)].flatMap markedLine) := by decide +kernel
  exact ⟨woven, order_lists_what_weave_reports "out" [] targets false fs tree woven, ordered⟩

end CommandLine

end Loom
