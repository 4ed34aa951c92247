import Loom.Proofs.Batch.Delivery

set_option autoImplicit false

namespace Loom

open Loom.Task StagingArea FileSystem

namespace StagingArea

structure Receives (d : Path) (names : List (List Char)) (fs : FileSystem) : Prop where
  tree : fs.IsTree
  way : ∀ l ∈ fs.way d, fs.get? l = some .directory
  named : ∀ name ∈ names, Path.IsName name ∧ Legal (d.join name)
  leaf : ∀ name ∈ names, fs.get? (fs.place d ++ [name]) ≠ some .directory

section Receives

variable {d : Path} {names : List (List Char)} {fs after : FileSystem} {name : List Char}

theorem Receives.reaches (receives : Receives d names fs) (member : name ∈ names) : fs.Reaches (d.join name) := by
  obtain ⟨own, legal⟩ := receives.named name member
  refine ⟨legal, fun l inside => receives.way l ?_⟩
  rwa [passed_join fs d own] at inside

theorem Receives.kept (receives : Receives d names fs) {free : Location → Prop} (tree : after.IsTree)
    (keeps : Keeps free fs after) (leaf : ∀ name ∈ names, after.get? (fs.place d ++ [name]) ≠ some .directory) :
    Receives d names after := by
  refine ⟨tree, fun l member => ?_, receives.named, ?_⟩
  · rw [way_congr keeps.here] at member
    exact keeps.directories l (receives.way l member)
  · rw [place_congr keeps.here]
    exact leaf

theorem Receives.write (receives : Receives d names fs) (member : name ∈ names) (content : Bytes) :
    (fs.write (d.join name) content).1 = .ok () ∧ Receives d names (fs.write (d.join name) content).2 := by
  have own := (receives.named name member).1
  have leaf := receives.leaf name member
  have unslashed : ending (d.join name) ≠ .slashed := by
    rw [Path.ending_join d own]
    exact Ending.noConfusion
  have written := write_eq_ok (receives.reaches member) unslashed (by rwa [look_join fs d own]) content
  refine ⟨by rw [written], receives.kept (is_tree_write receives.tree _ _) (write_keeps receives.tree _ content) ?_⟩
  intro other listed
  rw [written, place_join fs d own, get_put_leaf receives.tree leaf]
  split
  · exact fun same => by cases same
  · exact receives.leaf other listed

theorem write_file_received (receives : Receives d names fs) (member : name ∈ names) (content : Bytes)
    (explain : IoError → Failure) :
    (Task.writeFile (d.join name) content explain).Ensures fs (fun _ after => Receives d names after)
      fun _ _ => False := by
  obtain ⟨done, still⟩ := receives.write member content
  refine (ensures_write_file _ _ _).mpr ⟨fun _ _ => still, fun e failed => ?_⟩
  rw [done] at failed
  cases failed

theorem report_staged_keeps {ε : Type} (fs : FileSystem) (paths : List Path) :
    (reportStaged paths : Task ε Unit).Ensures fs (fun _ after => after = fs) fun _ _ => False := by
  induction paths with
  | nil => exact (ensures_pure _).mpr rfl
  | cons path rest ih => exact (ensures_report _ _).mpr ih

theorem write_received {area : StagingArea} (receives : Receives area.dir names fs) {fileName : String}
    {module : Module} (sound : module.verify = .ok ()) (symbols : Option SymbolTable) (metadata : ApiMetadata)
    (listed : ∀ name ∈ namesOf fileName.toList symbols, name ∈ names) :
    (area.write fileName module symbols metadata).Ensures fs (fun _ after => Receives area.dir names after)
      fun _ _ => False := by
  have first := listed _ List.mem_cons_self
  have own := (receives.named _ first).1
  have beside : ∀ {fs : FileSystem}, Receives area.dir names fs →
      (writeSymbols (area.dir.join fileName.toList) symbols).Ensures fs (fun _ after => Receives area.dir names after)
        fun _ _ => False := by
    intro fs receives
    cases symbols with
    | none => exact (ensures_pure _).mpr receives
    | some table =>
        have member := listed _ (List.mem_cons_of_mem _ (List.mem_cons_of_mem _ List.mem_cons_self))
        unfold writeSymbols
        rw [symbol_path_join _ own]
        apply ensures_then (write_file_received receives member _ _)
        exact fun _ _ receives => (ensures_pure _).mpr receives
  have described : ∀ {fs : FileSystem} (content : Bytes) (explain : IoError → Failure), Receives area.dir names fs →
      (Task.writeFile (metadataPath (area.dir.join fileName.toList)) content explain).Ensures fs
        (fun _ after => Receives area.dir names after) fun _ _ => False := by
    intro fs content explain receives
    rw [metadata_path_join _ own]
    exact write_file_received receives (listed _ (List.mem_cons_of_mem _ List.mem_cons_self)) content explain
  unfold StagingArea.write
  rw [sound]
  apply ensures_then (write_file_received receives first _ _)
  intro _ _ receives
  apply ensures_then (beside receives)
  intro _ _ receives
  apply ensures_then (described _ _ receives)
  intro _ _ receives
  apply ensures_then (report_staged_keeps _ _)
  rintro _ _ rfl
  exact (ensures_pure _).mpr receives

theorem copy_into_received {o : Path} (receives : Receives o names fs)
    (apart : ∀ name other, fs.place d ++ [name] ≠ fs.place o ++ [other]) (paths : List Path)
    (stands : ∀ path ∈ paths, ∃ name ∈ names, path = d.join name ∧ ∃ content, fs.read path = .ok content) :
    (copyInto o paths).Ensures fs (fun _ after => Receives o names after) fun _ _ => False := by
  induction paths generalizing fs with
  | nil => exact (ensures_pure _).mpr receives
  | cons path rest ih =>
      obtain ⟨⟨name, member, rfl, content, found⟩, later⟩ := List.forall_mem_cons.mp stands
      have own := (receives.named name member).1
      have leaf := receives.leaf name member
      rw [← look_join fs o own] at leaf
      have unslashed : ending (o.join name) ≠ .slashed := by
        rw [Path.ending_join o own]
        exact Ending.noConfusion
      have split : fs.place (d.join name) ≠ fs.place (o.join name) := by
        rw [place_join fs d own, place_join fs o own]
        exact apart name name
      have done := copy_done receives.tree found split (receives.reaches member) unslashed leaf
      have keeps := copy_keeps receives.tree (d.join name) (o.join name)
      rw [copyInto, Path.file_name_join d own]
      simp only [ensures_bind, ensures_copy, orIo, ensures_or_fail, ensures_pure]
      refine ⟨fun _ _ => ?_, fun e failed => ?_⟩
      · obtain ⟨_, _, copied⟩ := copy_ok receives.tree (Prod.ext done rfl) split
        have received : Receives o names (fs.copy (d.join name) (o.join name)).2 := by
          refine receives.kept (is_tree_copy receives.tree _ _) keeps fun other listed => ?_
          rw [copied]
          split
          · exact fun same => by cases same
          · exact receives.leaf other listed
        apply ensures_mono (ih received ?_ ?_)
        · exact fun _ _ received => received
        · exact fun _ _ impossible => impossible
        · rw [place_congr keeps.here, place_congr keeps.here]
          exact apart
        -- What is still to be copied stands in another directory than the copy.
        · intro path inside
          obtain ⟨other, listed, same, bytes, read⟩ := later path inside
          refine ⟨other, listed, same, bytes, keeps.read read ?_⟩
          rw [same, place_join fs d (receives.named other listed).1, place_join fs o own]
          exact apart other name
      · rw [done] at failed
        cases failed

theorem Receives.staged_elsewhere {o : Path} (receives : Receives o names fs) {staging : List Char}
    (proper : Path.IsName staging) (staged : Staged (o.join staging) fs after) : Receives o names after := by
  refine receives.kept staged.tree staged.keeps fun name member => ?_
  rw [staged.keeps.elsewhere _ ?_]
  · exact receives.leaf name member
  · rw [place_join fs o proper]
    intro below
    exact sibling_outside below.2.symm below.1

theorem Receives.vacated {o : Path} (receives : Receives o names fs) {staging : List Char}
    (vacated : Vacated (fs.place o ++ [staging]) (fs.GoesBelow o (fs.place o ++ [staging])) fs after)
    (tree : after.IsTree) (clear : ∀ l ∈ fs.way o, ¬ fs.place o ++ [staging] <+: l) (own : Path.IsName name)
    (legal : Legal (o.join name)) (beside : name ≠ staging → name ∈ names) : Receives o [name] after := by
  have way : ∀ l ∈ fs.way o, after.get? l = some .directory := by
    intro l onWay
    rw [vacated.outside l (clear l onWay)]
    exact receives.way l onWay
  refine ⟨tree, ?_, List.forall_mem_singleton.mpr ⟨own, legal⟩, ?_⟩
  · rwa [way_congr vacated.here]
  · rw [List.forall_mem_singleton, place_congr vacated.here]
    by_cases same : name = staging
    · rw [same, Batch.vacated_gone vacated way List.prefix_rfl]
      exact (Option.some_ne_none _).symm
    · have sibling : fs.place o ++ [name] ≠ fs.place o ++ [staging] :=
        fun equal => same (List.singleton_inj.mp (List.append_cancel_left equal))
      rw [vacated.outside _ (sibling_outside sibling)]
      exact receives.leaf name (beside same)

end Receives

theorem create_fresh {fs : FileSystem} {o : Path} {name : String} (proper : Path.IsName name.toList)
    (legal : Legal (o.join name.toList)) (stood : ∀ d ∈ fs.way o, fs.get? d = some .directory)
    (missing : fs.get? (fs.place o ++ [name.toList]) = none) (pretty : Bool) :
    (create o name pretty).Ensures fs
      (fun area after => area = ⟨o.join name.toList, layoutOf pretty, []⟩ ∧
        after = fs.put (fs.place o ++ [name.toList]) .directory)
      fun _ _ => False := by
  have absent : fs.kind? (o.join name.toList) = none := by
    refine Option.eq_none_iff_forall_ne_some.mpr fun kind known => ?_
    obtain ⟨entry, found, _⟩ := (kind_eq_some_iff _ _ _).mp known
    obtain ⟨_, _, there, _⟩ := (find_eq_ok_iff _ _ _ _).mp found
    rw [look_join fs o proper, missing] at there
    cases there
  unfold create
  simp only [ensures_bind, ensures_kind_of, absent, Option.isSome_none, Bool.false_eq_true, if_false, ensures_pure,
    ensures_make_dirs, make_dirs_fresh proper legal stood missing, orIo, ensures_or_fail]
  refine ⟨fun _ _ => ⟨trivial, trivial⟩, fun e failed => ?_⟩
  cases failed

end StagingArea

namespace Batch

variable {σ : Type}

theorem weave_all_received {ε : Type} (t : Transformer σ) (settings : Settings) (search : SearchPath)
    (modules : List LoadedModule) (progress : Progress σ) {fs : FileSystem} {names : List (List Char)}
    (receives : Receives progress.area.dir names fs)
    (sound : ∀ p ∈ products t settings search progress.state modules,
      p.woven.result = .ok () ∧ p.module.verify = .ok () ∧ ∀ name ∈ p.names, name ∈ names) :
    (weaveAll t settings search progress modules : Task ε _).Ensures fs
      (fun answer _ => answer.2 = none) fun _ _ => False := by
  induction modules generalizing progress fs with
  | nil => exact (ensures_pure _).mpr rfl
  | cons loaded rest ih =>
      rw [products] at sound
      rw [weaveAll]
      split
      · rename_i glue
        rw [if_pos glue] at sound
        simp only [ensures_bind, ensures_tell]
        exact ih { progress with skipped := progress.skipped ++ [loaded.stem] } receives sound
      · rename_i woven
        rw [if_neg woven] at sound
        obtain ⟨⟨done, verified, listed⟩, later⟩ := List.forall_mem_cons.mp sound
        have own := (receives.named _ (listed _ List.mem_cons_self)).1
        have staged := ensures_and
          (write_stages receives.tree progress.area own (Product.module ⟨loaded, _⟩) loaded.symbols
            (weaveModule t settings.reflection search loaded progress.state).draft.metadata)
          (write_received receives verified loaded.symbols _ listed)
        simp only [ensures_bind, ensures_tell]
        rw [done]
        simp only [ensures_bind, ensures_attempt]
        apply ensures_mono staged
        · intro answer after facts
          obtain ⟨⟨files, _, _, _, same⟩, receives⟩ := facts
          rw [same]
          simp only [ensures_tell]
          exact ih _ receives later
        · exact fun _ _ impossible => impossible.2.elim

section Commit

variable {settings : Settings} {request : Request} {fs prepared woven : FileSystem} {progress : Progress σ}
  {made : List (Product σ)} {names : List (List Char)}

theorem Completed.stands {area : StagingArea} {stems : List String} {ended : Progress σ}
    (completed : Completed area stems made prepared ended woven) {name : List Char}
    (member : name ∈ made.flatMap Product.names) :
    ∃ content, woven.get? (prepared.place area.dir ++ [name]) = some (.file content) := by
  obtain ⟨p, inside, owned⟩ := List.mem_flatMap.mp member
  obtain ⟨file, written, rfl⟩ := List.mem_map.mp ((names_of_perm p.name p.module p.source.symbols
    (p.woven.draft.metadata.toText area.layout)).mem_iff.mpr owned)
  have listed : file ∈ made.flatMap (·.files area.layout) := List.mem_flatMap.mpr ⟨p, inside, written⟩
  obtain ⟨content, last⟩ := last_written_of_mem listed
  refine ⟨content, ?_⟩
  rw [completed.wrote.content, last]
  rfl

theorem staged_read {o : Path} {staging : List Char} {layout : Json.Layout} (proper : Path.IsName staging)
    (underway : Underway o staging fs progress.area woven)
    (completed : Completed ⟨o.join staging, layout, []⟩ [] made prepared progress woven)
    (legal : ∀ name ∈ made.flatMap Product.names, Legal ((o.join staging).join name)) {path : Path}
    (member : path ∈ progress.area.staged) :
    ∃ name ∈ made.flatMap Product.names, path = (o.join staging).join name ∧ ∃ content, woven.read path = .ok content := by
  have named := completed.proper
  rw [completed.area, List.nil_append, paths_of_names named] at member
  obtain ⟨name, listed, rfl⟩ := List.mem_map.mp member
  have own := names_proper named name listed
  refine ⟨name, listed, rfl, ?_⟩
  obtain ⟨content, entry⟩ := completed.stands listed
  have here : prepared.here = woven.here := completed.wrote.staged.keeps.here.symm
  rw [place_congr here] at entry
  have reaches : woven.Reaches ((o.join staging).join name) := by
    refine ⟨legal _ listed, fun d through => ?_⟩
    rw [passed_join woven _ own, way_join woven o proper] at through
    rcases List.mem_append.mp through with before | last
    · apply underway.reaches.directories
      rwa [passed_join woven o proper]
    · rw [List.mem_singleton.mp last, place_congr underway.here]
      exact underway.stands proper
  exact ⟨content, (read_join_iff own reaches content).mpr entry⟩

theorem commit_received (sound : settings.fault = none)
    (underway : Underway request.outputDir settings.stagingDir.toList fs progress.area woven)
    (completed : Completed
      ⟨request.outputDir.join settings.stagingDir.toList, layoutOf settings.prettyMetadata, []⟩ [] made prepared
      progress woven)
    (staged : ∀ name ∈ made.flatMap Product.names,
      Legal ((request.outputDir.join settings.stagingDir.toList).join name))
    (receives : Receives request.outputDir names woven)
    (listed : ∀ name ∈ made.flatMap Product.names, name ∈ names)
    (legal : Legal (request.outputDir.join settings.manifestName.toList))
    (beside : settings.manifestName ≠ settings.stagingDir → settings.manifestName.toList ∈ names)
    (clear : ∀ l ∈ fs.way request.outputDir, ¬ fs.place request.outputDir ++ [settings.stagingDir.toList] <+: l) :
    (commit settings request progress).Ensures woven (fun _ _ => True) fun _ _ => False := by
  obtain ⟨proper, properManifest⟩ := Settings.names_of_sound sound
  have here := underway.here
  have stands := underway.stands proper
  have apart := staging_apart woven request.outputDir proper
  have copying := ensures_and (copy_into_received receives apart progress.area.staged fun path member => by
      obtain ⟨name, inside, same, found⟩ := staged_read proper underway completed staged member
      exact ⟨name, listed name inside, same, found⟩)
    (copy_into_ensures underway.tree _ _ apart progress.area.staged underway.staged)
  unfold commit promote writeManifest
  simp only [ensures_bind, ensures_remove_tree, orIo, ensures_or_fail, ensures_tell, ensures_pure]
  apply ensures_mono copying
  · intro outputs copied facts
    obtain ⟨received, copies⟩ := facts
    have copiedHere : copied.here = fs.here := copies.keeps.here.trans here
    rw [← way_congr copiedHere, ← place_congr copiedHere] at clear
    rw [underway.dir]
    obtain ⟨removed, vacated⟩ := remove_tree_vacates copied request.outputDir proper
      (copies.keeps.reaches underway.reaches)
      (by rw [place_congr copiedHere]; exact copies.keeps.directories _ stands)
    -- The manifest may take the place of the staging directory, which is gone by then.
    have emptied := received.vacated vacated (is_tree_remove_tree received.tree _) clear properManifest legal
      fun other => beside fun same => other (congrArg String.toList same)
    refine ⟨fun _ _ => ?_, fun e failed => ?_⟩
    · apply ensures_mono (write_file_received emptied (List.mem_singleton_self _) _ _)
      · exact fun _ _ _ => trivial
      · exact fun _ _ impossible => impossible
    · rw [removed] at failed
      cases failed
  · exact fun _ _ impossible => impossible.1

end Commit

end Batch

end Loom
