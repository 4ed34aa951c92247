import Loom.Proofs.Batch.Receiving
import Loom.Proofs.Batch.Replanning
import Loom.Proofs.Deeds
import Loom.Transformer.Registration

set_option autoImplicit false

/-! A batch that has succeeded is run once more, on the tree that it left. -/
namespace Loom

open Loom.Task StagingArea FileSystem

namespace Batch

variable {σ : Type}

structure Spares {ε α : Type} (task : Task ε α) (request : Request) (fs : FileSystem) : Prop where
  targets : ∀ path ∈ request.targetPaths, ¬ task.Touches fs (fs.place path)
  symbols : ∀ path ∈ request.targetPaths, ¬ task.Touches fs (fs.place (symbolPath path))
  references : ∀ dir ∈ request.referenceDirs, ∀ d ∈ fs.way dir, ¬ task.Touches fs d

theorem Delivered.find_kept {o : Path} {staging : Location} {files : List (List Char × Bytes)} {fs after : FileSystem}
    (delivered : Delivered o staging files fs after) {p : Path}
    (stood : ∀ d ∈ passed (fs.base p) (names p), ¬ staging <+: d ∧ fs.get? d = some .directory)
    (kept : after.get? (fs.place p) = fs.get? (fs.place p)) : after.find p = fs.find p := by
  refine find_congr fs delivered.here p fun d member => ?_
  rcases List.mem_append.mp member with through | last
  · obtain ⟨outside, there⟩ := stood d through
    rw [delivered.directories d outside there, there]
  · rw [List.mem_singleton.mp last, kept]

theorem passed_symbol_path (fs : FileSystem) (d : Path) {name : List Char} (own : Path.IsName name) {l : Location}
    (member : l ∈ passed (fs.base (symbolPath (d.join name))) (names (symbolPath (d.join name)))) : l ∈ fs.way d := by
  have shaped : Path.extended name SymbolTable.fileExtension = ['.', '.'] ∨ _ :=
    Path.extended_cases own (by decide) (by decide)
  obtain ⟨nonempty, plain⟩ : Path.extended name SymbolTable.fileExtension ≠ [] ∧
      '/' ∉ Path.extended name SymbolTable.fileExtension := by
    rcases shaped with dots | proper
    · rw [dots]
      decide
    · exact ⟨proper.nonempty, proper.plain⟩
  rw [symbol_path_join d own, base, Path.is_absolute_join d plain, ← base, Path.names_join d nonempty plain, passed_append]
    at member
  rcases List.mem_append.mp member with before | last
  · exact List.mem_append_left _ before
  -- The name may come out as two dots, which are not looked up from a held directory.
  · rw [passed, passed, List.append_nil, asked] at last
    split at last
    · exact absurd last List.not_mem_nil
    · exact List.mem_append_right _ last

def namesDelivered (t : Transformer σ) (settings : Settings) (state : σ) (planned : Plan) : List (List Char) :=
  (written settings (products t settings planned.search state planned.processed)).map Prod.fst

section CarriedOut

variable {t : Transformer σ} {settings : Settings} {request : Request} {state : σ} {fs after : FileSystem}
  {planned : Plan} {report : Report} {last : σ}
  (carried : CarriedOut t settings request state fs planned report last after)
include carried

theorem CarriedOut.loads_again (tree : fs.IsTree)
    (targets : ∀ path ∈ request.targetPaths, after.get? (fs.place path) = fs.get? (fs.place path))
    (symbols : ∀ path ∈ request.targetPaths,
      after.get? (fs.place (symbolPath path)) = fs.get? (fs.place (symbolPath path)))
    (clear : ∀ path ∈ request.targetPaths, ∀ d ∈ fs.way path,
      ¬ fs.place request.outputDir ++ [settings.stagingDir.toList] <+: d) :
    ∀ loaded ∈ planned.modules, loaded.Loads after settings.readSymbols := by
  intro loaded member
  have loads := ((looks_plan_from _ _ _).done planned carried.finished.plan).2.loads loaded member
  have target : loaded.origin ∈ request.targetPaths := by
    rw [Request.targetPaths, ← carried.finished.looked.origins]
    exact List.mem_map_of_mem member
  obtain ⟨d, name, origin, own⟩ := file_name_of_file tree loads.isFile
  obtain ⟨entry, found, _⟩ := (kind_eq_some_iff _ _ _).mp loads.isFile
  have directories := ((find_eq_ok_iff _ _ _ _).mp found).1.directories
  have stood : ∀ l ∈ fs.way d, ¬ fs.place request.outputDir ++ [settings.stagingDir.toList] <+: l ∧
      fs.get? l = some .directory := by
    rw [origin, passed_join fs d own] at directories
    refine fun l inside => ⟨clear _ target l ?_, directories l inside⟩
    rw [origin, way_join fs d own]
    exact List.mem_append_left _ inside
  refine loads.elsewhere (carried.delivered.find_kept ?_ (targets _ target))
    (carried.delivered.find_kept ?_ (symbols _ target))
  · rwa [origin, passed_join fs d own]
  · rw [origin]
    exact fun l looked => stood l (passed_symbol_path fs d own looked)

theorem CarriedOut.dirs_again
    (references : ∀ dir ∈ request.referenceDirs, ∀ d ∈ fs.way dir, after.get? d = fs.get? d) :
    ∀ raw ∈ request.references, ∀ dir ∈ SearchPath.dirOf? (Text.unquote raw), after.kind? dir = fs.kind? dir := by
  intro raw member dir found
  have same := find_congr fs carried.delivered.here dir (references dir (List.mem_filterMap.mpr ⟨raw, member, found⟩))
  rw [kind?, kind?, same]

theorem CarriedOut.receives (sound : settings.fault = none) (still : after.IsTree) :
    Receives request.outputDir (namesDelivered t settings state planned) after := by
  have here := carried.delivered.here
  have content : ∀ name ∈ namesDelivered t settings state planned, ∃ bytes,
      lastWritten (written settings (products t settings planned.search state planned.processed)) name = some bytes := by
    intro name member
    obtain ⟨file, listed, rfl⟩ := List.mem_map.mp member
    exact last_written_of_mem listed
  refine ⟨still, fun l onWay => ?_, fun name member => ⟨?_, ?_⟩, fun name member => ?_⟩
  · rw [way_congr here] at onWay
    exact (carried.delivered.way l onWay).2
  · rcases List.mem_append.mp ((written_names_perm _ _).mem_iff.mp member) with own | manifest
    · exact names_proper carried.finished.reported.proper name own
    · rw [List.mem_singleton.mp manifest]
      exact (Settings.names_of_sound sound).2
  -- What was delivered has been read back by this path.
  · obtain ⟨bytes, last⟩ := content name member
    have found := carried.finished.reported.content name bytes last
    exact ((read_iff _ _ _).mp found).1.legal
  · obtain ⟨bytes, last⟩ := content name member
    rw [place_congr here, carried.delivered.written name bytes last]
    exact fun same => by cases same

theorem CarriedOut.vacant (other : settings.manifestName ≠ settings.stagingDir) {l : Location}
    (inside : fs.place request.outputDir ++ [settings.stagingDir.toList] <+: l) : after.get? l = none := by
  rw [carried.delivered.others l ?_, if_pos inside]
  rintro file member rfl
  have apart : file.1 ≠ settings.stagingDir.toList := by
    rcases List.mem_append.mp ((written_names_perm _ _).mem_iff.mp (List.mem_map_of_mem member)) with own | manifest
    · exact (carried.staged _ own).1
    · rw [List.mem_singleton.mp manifest]
      exact fun same => other (String.toList_inj.mp same)
  exact sibling_outside (fun same => apart (List.singleton_inj.mp (List.append_cancel_left same))) inside

theorem CarriedOut.receives_again (sound : settings.fault = none) (still : after.IsTree)
    (other : settings.manifestName ≠ settings.stagingDir) {prepared : FileSystem}
    (made : prepared = after.put (fs.place request.outputDir ++ [settings.stagingDir.toList]) .directory) :
    Receives request.outputDir (namesDelivered t settings state planned) prepared ∧
      Receives (request.outputDir.join settings.stagingDir.toList)
        ((products t settings planned.search state planned.processed).flatMap Product.names) prepared := by
  obtain ⟨proper, _⟩ := Settings.names_of_sound sound
  have here := carried.delivered.here
  have receives := carried.receives sound still
  have leaf := leaf_of_missing (carried.vacant other List.prefix_rfl)
  have entry := get_put_leaf still leaf .directory
  have keeps := put_keeps still leaf .directory
  have parent := receives.way _ (List.mem_append_right _ (List.mem_singleton_self _))
  have tree := is_tree_put still _ settings.stagingDir.toList .directory parent
  rw [place_congr here] at tree
  rw [← made] at entry keeps tree
  have start : prepared.here = fs.here := keeps.here.trans here
  refine ⟨receives.kept tree keeps fun name member => ?_, tree, ?_, fun name member => ?_, fun name member => ?_⟩
  -- A file has been delivered under the name, and the staging directory was gone.
  · have apart : fs.place request.outputDir ++ [name] ≠ fs.place request.outputDir ++ [settings.stagingDir.toList] := by
      intro same
      obtain ⟨file, listed, rfl⟩ := List.mem_map.mp member
      obtain ⟨bytes, last⟩ := last_written_of_mem listed
      have stands := carried.delivered.written file.1 bytes last
      rw [same, carried.vacant other List.prefix_rfl] at stands
      cases stands
    rw [place_congr here, entry, if_neg apart, ← place_congr here]
    exact receives.leaf name member
  · rw [way_congr start, way_join fs _ proper]
    refine List.forall_mem_append.mpr ⟨fun l onWay => ?_, List.forall_mem_singleton.mpr ?_⟩
    · exact keeps.directories l (carried.delivered.way l onWay).2
    · rw [entry, if_pos rfl]
  · exact ⟨names_proper carried.finished.reported.proper name member, (carried.staged name member).2⟩
  · rw [place_congr start, place_join fs _ proper, entry, if_neg (below_child _ name).2.symm,
      carried.vacant other (below_child _ name).1]
    exact (Option.some_ne_none _).symm

section Repeated

variable (sound : settings.fault = none) (other : settings.manifestName ≠ settings.stagingDir)
  (loads : ∀ loaded ∈ planned.modules, loaded.Loads after settings.readSymbols)
  (dirs : ∀ raw ∈ request.references, ∀ dir ∈ SearchPath.dirOf? (Text.unquote raw), after.kind? dir = fs.kind? dir)
include sound other loads dirs

theorem CarriedOut.prepares_again :
    (prepare settings request).Ensures after
      (fun answer prepared => answer.1.bare = planned.bare ∧ answer.2 = (request.progress settings state).area ∧
        prepared = after.put (fs.place request.outputDir ++ [settings.stagingDir.toList]) .directory)
      fun _ _ => False := by
  have here := carried.delivered.here
  have stood : ∀ d ∈ after.way request.outputDir, after.get? d = some .directory := by
    rw [way_congr here]
    exact fun d onWay => (carried.delivered.way d onWay).2
  have missing : after.get? (after.place request.outputDir ++ [settings.stagingDir.toList]) = none := by
    rw [place_congr here]
    exact carried.vacant other List.prefix_rfl
  have opening := create_fresh (Settings.names_of_sound sound).1 carried.staging stood missing settings.prettyMetadata
  rw [place_congr here] at opening
  have planning : (plan request.references request.targets settings.readSymbols).Ensures after
      (fun again now => now = after ∧ again.bare = planned.bare) fun _ _ => False :=
    ensures_mono (looks_plan_again carried.finished.plan loads dirs) (fun _ _ facts => facts) fun _ _ facts => facts.2
  unfold prepare
  apply ensures_then planning
  rintro again _ ⟨rfl, same⟩
  simp only [ensures_bind, ensures_tell, ensures_make_dirs, make_dirs_stood carried.output stood, orIo, ensures_or_fail,
    ensures_pure]
  refine ⟨fun _ _ => ?_, fun e failed => ?_⟩
  · apply ensures_mono opening
    · exact fun area prepared facts => ⟨same, facts⟩
    · exact fun _ _ impossible => impossible
  · cases failed

theorem CarriedOut.weaves_again (ε : Type) (still : after.IsTree) :
    ∃ prepared woven, wovenAll ε t settings request state after =
        some (through t settings planned.search (request.progress settings state) planned.processed, woven) ∧
      Completed (request.progress settings state).area []
        (products t settings planned.search state planned.processed) prepared
        (through t settings planned.search (request.progress settings state) planned.processed) woven ∧
      Receives request.outputDir (namesDelivered t settings state planned) woven := by
  obtain ⟨⟨again, area⟩, ready, same, which, files⟩ := (carried.prepares_again sound other loads dirs).succeeds
  dsimp only at same which
  subst which
  obtain ⟨receives, stages⟩ := carried.receives_again sound still other files
  have named : ∀ loaded ∈ planned.processed, Path.IsName loaded.fileName.toList := fun loaded member =>
    file_name_proper still (loads loaded (processed_mem member)).isFile
  have received := weave_all_received (ε := ε) t settings planned.search planned.processed
    (request.progress settings state) stages fun p member =>
      ⟨(carried.finished.woven p member).1, (carried.finished.woven p member).2,
        fun name own => List.mem_flatMap.mpr ⟨p, member, own⟩⟩
  obtain ⟨⟨progress, stopped⟩, wove, unstopped⟩ := received.succeeds
  dsimp only at unstopped
  subst unstopped
  have completed := (weave_all_completes (ε := ε) t settings planned.search planned.processed
    (request.progress settings state) stages.tree named).done _ wove rfl
  have ended : progress = _ := (weave_all_through (ε := ε) t settings planned.search planned.processed
    (request.progress settings state) stages.tree named).done _ wove rfl
  subst ended
  -- The plan is another one, but for weaving it is the same.
  have comes := woven_all_of_ready (ε := ε) ready (by rw [weave_all_of_bare t settings _ same]; exact wove)
  rw [weave_all_of_bare t settings _ same] at comes
  exact ⟨_, _, comes, completed, receives.staged_elsewhere (Settings.names_of_sound sound).1 completed.wrote.staged⟩

theorem CarriedOut.repeats {ε : Type} (still : after.IsTree) :
    ((run t settings request state : Task ε _).run after).result = .ok (.ok report, last) ∧
      Delivered request.outputDir (fs.place request.outputDir ++ [settings.stagingDir.toList])
        (written settings (products t settings planned.search state planned.processed)) after
        ((run t settings request state : Task ε _).run after).files := by
  have here := carried.delivered.here
  obtain ⟨prepared, woven, comes, completed, received⟩ := carried.weaves_again sound other loads dirs ε still
  have underway := woven_all_underway sound still comes
  have listed := written_names_perm settings (products t settings planned.search state planned.processed)
  have manifest : settings.manifestName.toList ∈ namesDelivered t settings state planned :=
    listed.mem_iff.mpr (List.mem_append_right _ (List.mem_singleton_self _))
  have clear : ∀ l ∈ after.way request.outputDir,
      ¬ after.place request.outputDir ++ [settings.stagingDir.toList] <+: l := by
    rw [way_congr here, place_congr here]
    exact fun l onWay => (carried.delivered.way l onWay).1
  obtain ⟨repeated, committed, _⟩ := (commit_received sound underway completed
    (fun name member => (carried.staged name member).2) received
    (fun name member => listed.mem_iff.mpr (List.mem_append_left _ member))
    (received.named _ manifest).2 (fun _ => manifest) clear).succeeds
  have reported := (commit_reports sound underway completed).done _ committed
  have delivered := ((commit_delivers sound underway completed).done _ committed reported).1
  have answered := ((commit_accounts underway.tree settings request _).done _ committed).1
  obtain ⟨result, left⟩ := run_of_woven_all comes
  obtain ⟨sameReport, sameState⟩ := Prod.mk.inj carried.answer
  rw [place_congr here] at delivered
  rw [result, left, committed, answered, sameReport, sameState]
  exact ⟨rfl, delivered⟩

end Repeated

-- A manifest in the place of the staging directory cannot be cleared away, and what was in that directory cannot be
-- gone through again.
theorem CarriedOut.repeated_only {ε : Type} (sound : settings.fault = none) (still : after.IsTree)
    {repeated : Report} {ended : σ}
    (again : ((run t settings request state : Task ε _).run after).result = .ok (.ok repeated, ended)) :
    settings.manifestName ≠ settings.stagingDir ∧ ∀ path ∈ request.targetPaths, ∀ d ∈ fs.way path,
      ¬ fs.place request.outputDir ++ [settings.stagingDir.toList] <+: d := by
  have here := carried.delivered.here
  have other : settings.manifestName ≠ settings.stagingDir := by
    intro same
    obtain ⟨progress, woven, comes, _⟩ := woven_all_of_done again
    have free := (woven_all_underway sound still comes).free
    have manifest : (settings.manifestName.toList, _) ∈
        written settings (products t settings planned.search state planned.processed) :=
      List.mem_append_right _ (List.mem_singleton_self _)
    obtain ⟨bytes, last⟩ := last_written_of_mem manifest
    have stands := carried.delivered.written _ bytes last
    rw [same, ← place_congr here] at stands
    exact free bytes stands
  refine ⟨other, fun path target d onWay inside => ?_⟩
  have gone := carried.vacant other inside
  obtain ⟨replanned, carriedAgain⟩ := run_carried_out sound still again
  have origins := carriedAgain.finished.looked.origins
  rw [Request.targetPaths, ← origins] at target
  obtain ⟨loaded, member, rfl⟩ := List.mem_map.mp target
  obtain ⟨content, read⟩ := read_of_kind (carriedAgain.finished.looked.read loaded member).isFile
  rw [← way_congr here] at onWay
  rcases List.mem_append.mp onWay with through | last
  · rw [((read_iff _ _ _).mp read).1.directories d through] at gone
    cases gone
  · rw [List.mem_singleton.mp last, get_of_read read] at gone
    cases gone

end CarriedOut

/-- A batch can be repeated unless its manifest has taken the place of its staging directory or a target was reached
through that directory. -/
theorem batch_repeats_iff {ε : Type} (t : Transformer σ) (settings : Settings) (request : Request) (state : σ)
    (fs : FileSystem) (sound : settings.validate = .ok settings) (tree : fs.IsTree) {report : Report} {last : σ}
    (done : ((run t settings request state : Task ε _).run fs).result = .ok (.ok report, last))
    (spares : Spares (run t settings request state : Task ε _) request fs) :
    let first := (run t settings request state : Task ε _).run fs
    let second := (run t settings request state : Task ε _).run first.files
    ((∃ repeated ended, second.result = .ok (.ok repeated, ended)) ↔
      settings.manifestName ≠ settings.stagingDir ∧ ∀ path ∈ request.targetPaths, ∀ d ∈ fs.way path,
        ¬ fs.place request.outputDir ++ [settings.stagingDir.toList] <+: d) ∧
    ∀ repeated ended, second.result = .ok (.ok repeated, ended) →
      repeated = report ∧ ended = last ∧ second.files.here = first.files.here ∧
      ∀ l, second.files.get? l = first.files.get? l := by
  intro first second
  have faultless := Settings.fault_of_validate sound
  obtain ⟨planned, carried⟩ := run_carried_out faultless tree done
  have still : first.files.IsTree := (run_keeps_shape _ tree).2
  have sufficient : settings.manifestName ≠ settings.stagingDir → (∀ path ∈ request.targetPaths, ∀ d ∈ fs.way path,
      ¬ fs.place request.outputDir ++ [settings.stagingDir.toList] <+: d) →
      second.result = .ok (.ok report, last) ∧ second.files.here = first.files.here ∧
      ∀ l, second.files.get? l = first.files.get? l := by
    intro other clear
    have loads := carried.loads_again tree (fun path member => get_of_untouched _ (spares.targets path member))
      (fun path member => get_of_untouched _ (spares.symbols path member)) clear
    have dirs := carried.dirs_again fun dir member d onWay => get_of_untouched _ (spares.references dir member d onWay)
    obtain ⟨result, delivered⟩ := carried.repeats (ε := ε) faultless other loads dirs still
    exact ⟨result, delivered.here, delivered_again carried.delivered delivered⟩
  refine ⟨⟨fun succeeds => ?_, fun facts => ?_⟩, fun repeated ended again => ?_⟩
  · obtain ⟨repeated, ended, again⟩ := succeeds
    exact carried.repeated_only faultless still again
  · exact ⟨report, last, (sufficient facts.1 facts.2).1⟩
  · obtain ⟨other, clear⟩ := carried.repeated_only faultless still again
    obtain ⟨result, same⟩ := sufficient other clear
    cases again.symm.trans result
    exact ⟨rfl, rfl, same⟩

-- One name for the manifest and the staging directory is accepted, and then the second batch finds the manifest of
-- the first where it would stage. With two names nothing stands in its way.
theorem manifest_blocks_staging :
    let fs := ((⟨[], []⟩ : FileSystem).write "Game.wbc"
      (⟨Module.magicNumber, 1, 0, ⟨"Game", "1"⟩, [], [], [], none⟩ : Module).encode).2
    let request : Request := ⟨[], ["Game.wbc"], "out"⟩
    let batch (settings : Settings) : Task Failure _ := run registration settings request ()
    let once (settings : Settings) := (batch settings).run fs
    let twice (settings : Settings) := (batch settings).run (once settings).files
    let shared : Settings := { stagingDir := "weft", manifestName := "weft" }
    let report (manifest : Path) : Report := ⟨["out/Game.wbc", "out/Game.metadata.json"], ["Game"], [], manifest⟩
    shared.validate = .ok shared ∧ Spares (batch shared) request fs ∧
      (once shared).result = .ok (.ok (report "out/weft"), ()) ∧
      (twice shared).result = .ok (.error (.io "out/weft" .notDirectory), ()) ∧
      (once {}).result = .ok (.ok (report "out/weft.assemblyloadorder.json"), ()) ∧
      (twice {}).result = (once {}).result ∧ ∀ l, (twice {}).files.get? l = (once {}).files.get? l := by
  intro fs request batch once twice shared report
  have tree : fs.IsTree := is_tree_write (empty_is_tree []) _ _
  have sound : ({} : Settings).validate = .ok {} := by decide +kernel
  have done : (once {}).result = .ok (.ok (report "out/weft.assemblyloadorder.json"), ()) := by decide +kernel
  have spares : ∀ settings ∈ [shared, {}], Spares (batch settings) request fs := by
    have targets : ∀ settings ∈ [shared, {}], ∀ path ∈ request.targetPaths,
        ¬ (batch settings).Touches fs (fs.place path) := by decide +kernel
    have symbols : ∀ settings ∈ [shared, {}], ∀ path ∈ request.targetPaths,
        ¬ (batch settings).Touches fs (fs.place (symbolPath path)) := by decide +kernel
    exact fun settings member => ⟨targets settings member, symbols settings member, List.forall_mem_nil _⟩
  have clear : ∀ path ∈ request.targetPaths, ∀ d ∈ fs.way path,
      ¬ fs.place request.outputDir ++ [({} : Settings).stagingDir.toList] <+: d := by decide +kernel
  obtain ⟨succeeds, same⟩ := batch_repeats_iff registration {} request () fs sound tree done
    (spares {} (List.mem_cons_of_mem _ (List.mem_singleton_self _)))
  obtain ⟨repeated, ended, again⟩ := succeeds.mpr ⟨by decide +kernel, clear⟩
  obtain ⟨sameReport, _, _, sameFiles⟩ := same repeated ended again
  refine ⟨by decide +kernel, spares shared List.mem_cons_self, by decide +kernel, by decide +kernel, done, ?_, sameFiles⟩
  rw [done, ← sameReport]
  exact again

end Batch

end Loom
