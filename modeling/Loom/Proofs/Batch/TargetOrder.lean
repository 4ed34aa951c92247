import Loom.Proofs.Batch.Repetition
import Loom.Proofs.Batch.Retargeting

set_option autoImplicit false

namespace Loom

open Loom.Task StagingArea FileSystem

theorem StagingArea.Receives.subset {d : Path} {names fewer : List (List Char)} {fs : FileSystem}
    (receives : Receives d names fs) (within : ∀ name ∈ fewer, name ∈ names) : Receives d fewer fs :=
  ⟨receives.tree, receives.way, fun name member => receives.named name (within name member),
    fun name member => receives.leaf name (within name member)⟩

namespace Batch

def Request.retarget (request : Request) (targets : List String) : Request := { request with targets := targets }

theorem prepare_alike {settings : Settings} {request : Request} {targets : List String} {fs : FileSystem}
    {planned other : Plan} {area : StagingArea} (ready : ((prepare settings request).run fs).result = .ok (planned, area))
    (made : ((plan request.references request.targets settings.readSymbols).run fs).result = .ok planned)
    (planning : ((plan request.references targets settings.readSymbols).run fs).result = .ok other)
    (alike : planned.Alike other) :
    ((prepare settings (request.retarget targets)).run fs).result = .ok (other, area) ∧
      ((prepare settings (request.retarget targets)).run fs).files = ((prepare settings request).run fs).files := by
  obtain ⟨result, files⟩ := run_prepare request made
  obtain ⟨otherResult, otherFiles⟩ := run_prepare (request.retarget targets) planning
  have same : openStaging settings (request.retarget targets) other = openStaging settings request planned := by
    have length : other.modules.length = planned.modules.length := by simpa using alike.modules.length_eq
    unfold openStaging
    rw [length, alike.search]
    rfl
  rw [same] at otherResult otherFiles
  refine ⟨?_, otherFiles.trans files.symm⟩
  cases opened : ((openStaging settings request planned).run fs).result with
  | error e =>
      rw [ready, opened] at result
      cases result
  | ok made =>
      rw [ready, opened] at result
      cases result
      rw [otherResult, opened]
      rfl

section CarriedOut

variable {σ : Type} {t : Transformer σ} {settings : Settings} {request : Request} {state : σ} {fs after : FileSystem}
  {planned : Plan} {report : Report} {last : σ}
  (carried : CarriedOut t settings request state fs planned report last after)
include carried

theorem CarriedOut.receives_staged {ε : Type} (sound : settings.fault = none) (tree : fs.IsTree)
    (done : ((run t settings request state : Task ε _).run fs).result = .ok (.ok report, last)) :
    ((prepare settings request).run fs).result = .ok (planned, (request.progress settings state).area) ∧
      Receives (request.progress settings state).area.dir
        ((products t settings planned.search state planned.processed).flatMap Product.names)
        ((prepare settings request).run fs).files := by
  obtain ⟨progress, woven, comes, _⟩ := woven_all_of_done done
  obtain ⟨other, area, ready, wove, files⟩ := woven_all_eq_some comes
  have prepared := (prepare_ensures tree sound request).done _ ready
  have which : area = (request.progress settings state).area := prepared.area
  have same : other = planned := Except.ok.inj (prepared.plan.symm.trans carried.finished.plan)
  subst which same
  have named : ∀ loaded ∈ other.processed, Path.IsName loaded.fileName.toList :=
    fun loaded member => prepared.named loaded (processed_mem member)
  have completed := (weave_all_completes t settings other.search other.processed _ prepared.opened.tree
    named).done _ wove rfl
  have proper := names_proper completed.proper
  refine ⟨ready, prepared.opened.tree, fun l onWay => ?_, fun name member => ?_, fun name member directory => ?_⟩
  · rw [way_congr prepared.opened.grows.here] at onWay
    exact prepared.opened.way l onWay
  · exact ⟨proper name member, (carried.staged name member).2⟩
  · obtain ⟨content, stands⟩ := completed.stands member
    have lost := completed.wrote.staged.keeps.directories _ directory
    rw [stands] at lost
    cases lost

theorem CarriedOut.receives_underway (sound : settings.fault = none) (still : after.IsTree) {area : StagingArea}
    {woven : FileSystem} (underway : Underway request.outputDir settings.stagingDir.toList fs area woven) :
    Receives request.outputDir
      ((namesDelivered t settings state planned).filter (· ≠ settings.stagingDir.toList)) woven := by
  obtain ⟨proper, _⟩ := Settings.names_of_sound sound
  have receives := carried.receives sound still
  refine ⟨underway.tree, fun l onWay => ?_, fun name member => ?_, fun name member => ?_⟩
  · rw [way_congr underway.here] at onWay
    rw [underway.get_outside proper (carried.delivered.way l onWay).1, if_pos onWay]
  · exact receives.named name (List.mem_filter.mp member).1
  · obtain ⟨listed, apart⟩ := List.mem_filter.mp member
    obtain ⟨file, inside, rfl⟩ := List.mem_map.mp listed
    obtain ⟨bytes, last⟩ := last_written_of_mem inside
    have stands := carried.delivered.written file.1 bytes last
    have outside : ¬ fs.place request.outputDir ++ [settings.stagingDir.toList] <+:
        fs.place request.outputDir ++ [file.1] :=
      sibling_outside fun same => of_decide_eq_true apart (List.singleton_inj.mp (List.append_cancel_left same))
    rw [place_congr underway.here, underway.get_outside proper outside]
    split
    · rename_i onWay
      rw [(carried.delivered.way _ onWay).2] at stands
      cases stands
    · intro directory
      rw [carried.delivered.directories _ outside directory] at stands
      cases stands

end CarriedOut

-- Files delivered in another order are the same files, when no two have one name. Of a file delivered behind them
-- only the place is the same.
theorem delivered_alike {o : Path} {staging : Location} {files others : List (List Char × Bytes)} {last : List Char}
    {text otherText : Bytes} {fs after otherAfter : FileSystem} (perm : others.Perm files)
    (distinct : ((files ++ [(last, text)]).map Prod.fst).Nodup)
    (first : Delivered o staging (files ++ [(last, text)]) fs after)
    (second : Delivered o staging (others ++ [(last, otherText)]) fs otherAfter) {l : Location}
    (apart : l ≠ fs.place o ++ [last]) : otherAfter.get? l = after.get? l := by
  have otherDistinct : ((others ++ [(last, otherText)]).map Prod.fst).Nodup := by
    rw [List.map_append] at distinct ⊢
    exact ((perm.map Prod.fst).append_right _).nodup_iff.mpr distinct
  by_cases delivered : ∃ file ∈ files, l = fs.place o ++ [file.1]
  · obtain ⟨file, member, rfl⟩ := delivered
    rw [first.written _ _ (last_written_of_distinct distinct (List.mem_append_left _ member)),
      second.written _ _ (last_written_of_distinct otherDistinct (List.mem_append_left _ (perm.mem_iff.mpr member)))]
  · have unlike : ∀ file ∈ files, l ≠ fs.place o ++ [file.1] := fun file member same => delivered ⟨file, member, same⟩
    rw [first.others l (List.forall_mem_append.mpr ⟨unlike, List.forall_mem_singleton.mpr apart⟩),
      second.others l (List.forall_mem_append.mpr
        ⟨fun file member => unlike file (perm.mem_iff.mp member), List.forall_mem_singleton.mpr apart⟩)]

section Registration

variable {settings : Settings} {request : Request} {fs after : FileSystem} {planned other : Plan} {report : Report}

theorem registered_names (alike : planned.Alike other) (settings : Settings) :
    ((other.registered settings).flatMap Product.names).Perm ((planned.registered settings).flatMap Product.names) :=
  flatMap_perm_of_bare (alike.registered settings) fun _ => rfl

theorem registered_sound (alike : planned.Alike other)
    (woven : ∀ p ∈ planned.registered settings, p.woven.result = .ok () ∧ p.module.verify = .ok ()) :
    ∀ p ∈ other.registered settings, p.woven.result = .ok () ∧ p.module.verify = .ok () := by
  intro p member
  obtain ⟨q, inside, same⟩ :=
    List.mem_map.mp ((alike.registered settings).mem_iff.mp (List.mem_map_of_mem (f := Product.bare) member))
  have made : p.bare.woven = q.bare.woven := congrArg Product.woven same.symm
  change p.woven = q.woven at made
  rw [Product.module, made]
  exact woven q inside

theorem CarriedOut.retargets {ε : Type} (carried : CarriedOut registration settings request () fs planned report () after)
    (sound : settings.fault = none) (tree : fs.IsTree) (still : after.IsTree)
    (done : ((run registration settings request () : Task ε _).run fs).result = .ok (.ok report, ()))
    {targets : List String}
    (planning : ((plan request.references targets settings.readSymbols).run fs).result = .ok other)
    (alike : planned.Alike other) :
    ∃ repeated, ((run registration settings (request.retarget targets) () : Task ε _).run fs).result =
      .ok (.ok repeated, ()) := by
  -- The second batch stages and delivers under the names of the first, one file under each.
  obtain ⟨ready, receives⟩ := carried.receives_staged sound tree done
  obtain ⟨readyOther, files⟩ := prepare_alike ready carried.finished.plan planning alike
  have names := registered_names alike settings
  have looked := ((looks_plan _ _ _).done _ planning).2
  have named : ∀ loaded ∈ other.processed, Path.IsName loaded.fileName.toList :=
    fun loaded member => file_name_proper tree (looked.read loaded (processed_mem member)).isFile
  have received := weave_all_received (ε := ε) registration settings other.search other.processed
    (request.progress settings ()) receives fun p member =>
      have facts := registered_sound alike carried.finished.woven p member
      ⟨facts.1, facts.2, fun name own => names.mem_iff.mp (List.mem_flatMap.mpr ⟨p, member, own⟩)⟩
  obtain ⟨⟨progress, stopped⟩, wove, unstopped⟩ := received.succeeds
  dsimp only at unstopped
  subst unstopped
  have completed := (weave_all_completes (ε := ε) registration settings other.search other.processed
    (request.progress settings ()) receives.tree named).done _ wove rfl
  rw [← files] at wove
  have comes := woven_all_of_ready (ε := ε) readyOther wove
  have underway := woven_all_underway sound tree comes
  rw [files] at comes underway
  have delivered := written_names_perm settings (planned.registered settings)
  have clear := fun l onWay => (carried.delivered.way l onWay).1
  have manifest : settings.manifestName.toList ∈ namesDelivered registration settings () planned :=
    delivered.mem_iff.mpr (List.mem_append_right _ (List.mem_singleton_self _))
  have kept : ∀ name ∈ namesDelivered registration settings () planned, name ≠ settings.stagingDir.toList →
      name ∈ (namesDelivered registration settings () planned).filter (· ≠ settings.stagingDir.toList) :=
    fun name member apart => List.mem_filter.mpr ⟨member, decide_eq_true apart⟩
  obtain ⟨repeated, committed, _⟩ := (commit_received sound underway completed
    (fun name member => (carried.staged name (names.mem_iff.mp member)).2)
    (carried.receives_underway sound still underway)
    (fun name member => kept name (delivered.mem_iff.mpr (List.mem_append_left _ (names.mem_iff.mp member)))
      (carried.staged name (names.mem_iff.mp member)).1)
    ((carried.receives sound still).named _ manifest).2
    (fun apart => kept _ manifest fun same => apart (String.toList_inj.mp same)) clear).succeeds
  refine ⟨repeated, ?_⟩
  rw [(run_of_woven_all comes).1, committed]

end Registration

structure Retargeted (report other : Report) (fs after otherAfter : FileSystem) : Prop where
  outputs : other.outputs.Perm report.outputs
  woven : other.loadOrder.Perm report.loadOrder
  skipped : other.skipped.Perm report.skipped
  manifest : other.manifest = report.manifest
  here : otherAfter.here = after.here
  files : ∀ l, l ≠ fs.place report.manifest → otherAfter.get? l = after.get? l
  listed : ∃ bytes text, after.read report.manifest = .ok bytes ∧ Bytes.toText? bytes = some text ∧
    Manifest.ofText? text = some ⟨report.loadOrder⟩
  listedOther : ∃ bytes text, otherAfter.read other.manifest = .ok bytes ∧ Bytes.toText? bytes = some text ∧
    Manifest.ofText? text = some ⟨other.loadOrder⟩

/-- The order shows in the load order and in the manifest, and nowhere else. -/
theorem target_order_irrelevant {ε : Type} (settings : Settings) (request : Request) (targets : List String)
    (fs : FileSystem) (sound : settings.validate = .ok settings) (tree : fs.IsTree) {report : Report}
    (done : ((run registration settings request () : Task ε _).run fs).result = .ok (.ok report, ()))
    (distinct : (report.outputs ++ [report.manifest]).Nodup) (perm : targets.Perm request.targets) :
    let first := (run registration settings request () : Task ε _).run fs
    let second := (run registration settings { request with targets := targets } () : Task ε _).run fs
    ∃ other, second.result = .ok (.ok other, ()) ∧ Retargeted report other fs first.files second.files := by
  intro first second
  have faultless := Settings.fault_of_validate sound
  obtain ⟨_, properManifest⟩ := Settings.names_of_sound faultless
  obtain ⟨planned, carried⟩ := run_carried_out faultless tree done
  obtain ⟨replanned, planning, alike⟩ := looks_succeeds (looks_plan_permuted carried.finished.plan perm)
  have still : first.files.IsTree := (run_keeps_shape _ tree).2
  obtain ⟨other, again⟩ := carried.retargets (ε := ε) faultless tree still done planning alike
  obtain ⟨planned', carried'⟩ := run_carried_out faultless tree again
  cases Except.ok.inj (planning.symm.trans carried'.finished.plan)
  obtain ⟨_, listed⟩ := listed_of_done tree done
  cases Except.ok.inj (carried.finished.plan.symm.trans listed.planning)
  obtain ⟨_, listed'⟩ := listed_of_done tree again
  cases Except.ok.inj (planning.symm.trans listed'.planning)
  have reported := carried.finished.reported
  have reported' := carried'.finished.reported
  have products := alike.registered settings
  have once := written_names_nodup reported distinct
  refine ⟨other, again, ?_, ?_, ?_, reported'.manifest.trans reported.manifest.symm,
    carried'.delivered.here.trans carried.delivered.here.symm, fun l apart => ?_, listed.manifest, listed'.manifest⟩
  · rw [reported.outputs, reported'.outputs]
    exact flatMap_perm_of_bare products fun _ => rfl
  · rw [listed.loadOrder, listed'.loadOrder]
    exact alike.stems_woven settings
  · rw [listed.skipped, listed'.skipped]
    exact alike.stems_skipped settings
  · rw [reported.manifest, place_join fs _ properManifest] at apart
    exact delivered_alike (flatMap_perm_of_bare products fun _ => rfl) once carried.delivered carried'.delivered apart

-- Neither of two modules refers to the other, so they are woven in the order of the targets.
theorem game_and_core_either_way :
    let named (name : String) : Module := ⟨Module.magicNumber, 1, 0, ⟨name, "1"⟩, [], [], [], none⟩
    let fs := (((⟨[], []⟩ : FileSystem).write "Game.wbc" (named "Game").encode).2.write "Core.wbc" (named "Core").encode).2
    let batch (targets : List String) := (run registration {} ⟨[], targets, "out"⟩ () : Task Failure _).run fs
    ∃ report other, (batch ["Game.wbc", "Core.wbc"]).result = .ok (.ok report, ()) ∧
      (batch ["Core.wbc", "Game.wbc"]).result = .ok (.ok other, ()) ∧
      report.loadOrder = ["Game", "Core"] ∧ other.loadOrder = ["Core", "Game"] ∧
      Retargeted report other fs (batch ["Game.wbc", "Core.wbc"]).files (batch ["Core.wbc", "Game.wbc"]).files := by
  intro named fs batch
  let report : Report := ⟨["out/Game.wbc", "out/Game.metadata.json", "out/Core.wbc", "out/Core.metadata.json"],
    ["Game", "Core"], [], "out/weft.assemblyloadorder.json"⟩
  let swapped : Report := ⟨["out/Core.wbc", "out/Core.metadata.json", "out/Game.wbc", "out/Game.metadata.json"],
    ["Core", "Game"], [], "out/weft.assemblyloadorder.json"⟩
  have sound : ({} : Settings).validate = .ok {} := by decide +kernel
  have tree : fs.IsTree := is_tree_write (is_tree_write (empty_is_tree []) _ _) _ _
  have done : (batch ["Game.wbc", "Core.wbc"]).result = .ok (.ok report, ()) := by decide +kernel
  have again : (batch ["Core.wbc", "Game.wbc"]).result = .ok (.ok swapped, ()) := by decide +kernel
  obtain ⟨other, result, alike⟩ := target_order_irrelevant {} ⟨[], ["Game.wbc", "Core.wbc"], "out"⟩
    ["Core.wbc", "Game.wbc"] fs sound tree done (by decide +kernel) (List.Perm.swap _ _ [])
  cases again.symm.trans result
  exact ⟨report, swapped, done, again, rfl, rfl, alike⟩

end Batch

end Loom
