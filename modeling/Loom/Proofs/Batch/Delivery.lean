import Loom.Proofs.Batch.Accounts

set_option autoImplicit false

/-! The tree that a batch leaves when it succeeds. When the same is delivered once more, nothing changes at all. -/
namespace Loom

open Loom.Task StagingArea FileSystem

theorem FileSystem.copy_source_legal {fs : FileSystem} {source target : Path}
    (done : (fs.copy source target).1 = .ok ()) : Legal source := by
  rcases copy_cases fs source target with ⟨e, failed⟩ | ⟨stored, found, _⟩
  · rw [failed] at done
    cases done
  · exact ((find_eq_ok_iff fs source _ _).mp found).1.legal

theorem StagingArea.copy_into_sources {fs : FileSystem} (o : Path) (paths : List Path) :
    (copyInto o paths).Ensures fs (fun _ _ => ∀ path ∈ paths, path.fileName? ≠ none → Legal path)
      fun _ _ => True := by
  induction paths generalizing fs with
  | nil => exact (ensures_pure _).mpr (List.forall_mem_nil _)
  | cons path rest ih =>
      rw [copyInto]
      split
      · rename_i nameless
        apply ensures_mono ih
        · exact fun _ _ later => List.forall_mem_cons.mpr ⟨fun named => absurd nameless named, later⟩
        · exact fun _ _ _ => trivial
      · simp only [ensures_bind, ensures_copy, orIo, ensures_or_fail, ensures_pure]
        refine ⟨fun _ done => ?_, fun _ _ => trivial⟩
        apply ensures_mono ih
        · exact fun _ _ later => List.forall_mem_cons.mpr ⟨fun _ => copy_source_legal done, later⟩
        · exact fun _ _ _ => trivial

theorem StagingArea.promote_sources {fs : FileSystem} (area : StagingArea) (o : Path) :
    (area.promote o).Ensures fs (fun _ _ => ∀ path ∈ area.staged, path.fileName? ≠ none → Legal path)
      fun _ _ => True := by
  unfold promote
  simp only [ensures_bind, ensures_remove_tree, orIo, ensures_or_fail, ensures_tell, ensures_pure]
  apply ensures_mono (copy_into_sources o area.staged)
  · exact fun _ _ facts => ⟨fun _ _ => facts, fun _ _ => trivial⟩
  · exact fun _ _ _ => trivial

namespace Batch

variable {σ : Type}

structure Delivered (o : Path) (staging : Location) (files : List (List Char × Bytes)) (fs after : FileSystem) :
    Prop where
  here : after.here = fs.here
  way : ∀ l ∈ fs.way o, ¬ staging <+: l ∧ after.get? l = some .directory
  written : ∀ name content, lastWritten files name = some content →
    after.get? (fs.place o ++ [name]) = some (.file content)
  others : ∀ l, (∀ file ∈ files, l ≠ fs.place o ++ [file.1]) →
    after.get? l = if staging <+: l then none else if l ∈ fs.way o then some .directory else fs.get? l
  directories : ∀ l, ¬ staging <+: l → fs.get? l = some .directory → after.get? l = some .directory
  otherFiles : ∀ l, (∀ file ∈ files, l ≠ fs.place o ++ [file.1]) → ¬ Below staging l →
    ∀ content, after.get? l = some (.file content) ↔ fs.get? l = some (.file content)

theorem last_written_of_mem {files : List (List Char × Bytes)} {file : List Char × Bytes} (member : file ∈ files) :
    ∃ content, lastWritten files file.1 = some content := by
  cases last : lastWritten files file.1 with
  | some content => exact ⟨content, rfl⟩
  | none =>
      have absent := List.lookup_eq_none_iff.mp last file (List.mem_reverse.mpr member)
      simp at absent

theorem delivered_again {o : Path} {staging : Location} {files : List (List Char × Bytes)} {fs mid after : FileSystem}
    (first : Delivered o staging files fs mid) (second : Delivered o staging files mid after) (l : Location) :
    after.get? l = mid.get? l := by
  have place := place_congr first.here o
  by_cases delivered : ∃ file ∈ files, l = fs.place o ++ [file.1]
  · obtain ⟨file, member, rfl⟩ := delivered
    obtain ⟨content, last⟩ := last_written_of_mem member
    have again := second.written file.1 content last
    rw [place] at again
    rw [again, first.written file.1 content last]
  · have other : ∀ file ∈ files, l ≠ fs.place o ++ [file.1] := fun file member same => delivered ⟨file, member, same⟩
    have again := second.others l (by rwa [place])
    rw [way_congr first.here] at again
    rw [again]
    by_cases staged : staging <+: l
    · rw [if_pos staged, first.others l other, if_pos staged]
    · rw [if_neg staged]
      by_cases onWay : l ∈ fs.way o
      · rw [if_pos onWay, (first.way l onWay).2]
      · rw [if_neg onWay]

section Commit

variable {settings : Settings} {request : Request} {fs prepared woven : FileSystem} {progress : Progress σ}
  {made : List (Product σ)}

theorem staged_written {d : Path} {layout : Json.Layout} (proper : ∀ p ∈ made, p.Proper) {path : Path}
    (member : path ∈ made.flatMap (·.paths d)) {name : List Char} (own : Path.IsName name) (same : path = d.join name) :
    ∃ file ∈ made.flatMap (·.files layout), file.1 = name := by
  obtain ⟨p, inside, listed⟩ := List.mem_flatMap.mp member
  obtain ⟨file, owned, spelt⟩ := (mem_paths_of_iff d (p.name_proper (proper p inside)) p.module p.source.symbols
    (p.woven.draft.metadata.toText layout) path).mp listed
  have written : file ∈ made.flatMap (·.files layout) := List.mem_flatMap.mpr ⟨p, inside, owned⟩
  have named : Path.IsName file.1 := proper p inside _
    ((names_of_perm _ _ _ _).mem_iff.mp (List.mem_map_of_mem owned))
  exact ⟨file, written, Path.join_injective d named own (spelt.trans same)⟩

theorem vacated_gone {copied emptied : FileSystem} {o : Path} {staging : Location}
    (vacated : Vacated staging (fs.GoesBelow o staging) copied emptied)
    (way : ∀ l ∈ fs.way o, emptied.get? l = some .directory) {l : Location} (inside : staging <+: l) :
    emptied.get? l = none := by
  rcases (at_or_below_iff _ l).mp inside with same | below
  · rw [same]
    apply vacated.gone
    rintro ⟨d, onWay, below⟩
    have lost := vacated.below d below
    rw [way d onWay] at lost
    cases lost
  · exact vacated.below l below

theorem promoted_others {copied emptied : FileSystem} {o : Path} {staging : List Char}
    {files : List (List Char × Bytes)} (here : woven.here = fs.here)
    (copies : Copied o (o.join staging) progress.area.staged woven copied) {stays : Prop}
    (vacated : Vacated (fs.place o ++ [staging]) stays copied emptied)
    (listed : ∀ path ∈ progress.area.staged, ∀ name, Path.IsName name → path = (o.join staging).join name →
      ∃ file ∈ files, file.1 = name)
    {l : Location} (unlike : ∀ file ∈ files, l ≠ fs.place o ++ [file.1]) (outside : ¬ fs.place o ++ [staging] <+: l) :
    emptied.get? l = woven.get? l := by
  rw [vacated.outside l outside]
  apply copies.others
  intro path member name own same place
  obtain ⟨file, written, named⟩ := listed path member name own same
  rw [place_congr here, ← named] at place
  exact unlike file written place

theorem promoted_delivered {copied emptied : FileSystem} {o : Path} {staging manifest : List Char} {text : Bytes}
    {files : List (List Char × Bytes)} (underway : Underway o staging fs progress.area woven)
    (proper : Path.IsName staging) (properManifest : Path.IsName manifest)
    (copies : Copied o (o.join staging) progress.area.staged woven copied)
    (vacated : Vacated (fs.place o ++ [staging]) (fs.GoesBelow o (fs.place o ++ [staging])) copied emptied)
    (still : emptied.IsTree) (done : (emptied.write (o.join manifest) text).1 = .ok ())
    (listed : ∀ path ∈ progress.area.staged, ∀ name, Path.IsName name → path = (o.join staging).join name →
      ∃ file ∈ files, file.1 = name)
    (written : ∀ name content, lastWritten (files ++ [(manifest, text)]) name = some content →
      (emptied.write (o.join manifest) text).2.get? (fs.place o ++ [name]) = some (.file content)) :
    Delivered o (fs.place o ++ [staging]) (files ++ [(manifest, text)]) fs
      (emptied.write (o.join manifest) text).2 := by
  -- The manifest is written by a path to the output directory that is still there when all else is done.
  have here : emptied.here = fs.here := (vacated.here.trans copies.keeps.here).trans underway.here
  rcases write_cases emptied (o.join manifest) text with ⟨e, failed⟩ | ⟨wrote, reaches, _, leaf⟩
  · rw [failed] at done
    cases done
  · rw [look_join emptied o properManifest] at leaf
    have entry := get_put_leaf still leaf (.file text)
    have keeps := put_keeps still leaf (.file text)
    have way : ∀ l ∈ fs.way o, emptied.get? l = some .directory := by
      have directories := reaches.directories
      rwa [passed_join emptied o properManifest, way_congr here] at directories
    rw [wrote, place_join emptied o properManifest] at written ⊢
    rw [place_congr here] at entry keeps written ⊢
    have unwritten : ∀ l, (∀ file ∈ files ++ [(manifest, text)], l ≠ fs.place o ++ [file.1]) →
        (emptied.put (fs.place o ++ [manifest]) (.file text)).get? l =
          if fs.place o ++ [staging] <+: l then none else woven.get? l := by
      intro l unlike
      obtain ⟨files, own⟩ := List.forall_mem_append.mp unlike
      rw [entry, if_neg (own _ (List.mem_singleton_self _))]
      split
      · rename_i inside
        exact vacated_gone vacated way inside
      · rename_i outside
        exact promoted_others underway.here copies vacated listed files outside
    refine ⟨here, fun l onWay => ⟨fun inside => ?_, keeps.directories l (way l onWay)⟩, written, fun l unlike => ?_,
      fun l outside there => ?_, fun l unlike apart content => ?_⟩
    · have lost := vacated_gone vacated way inside
      rw [way l onWay] at lost
      cases lost
    · rw [unwritten l unlike]
      split
      · rfl
      · rename_i outside
        exact underway.get_outside proper outside
    · apply keeps.directories
      rw [vacated.outside l outside]
      apply copies.keeps.directories
      rw [underway.get_outside proper outside, there, ite_self]
    · rw [unwritten l unlike]
      split
      · rename_i inside
        rw [((at_or_below_iff _ l).mp inside).resolve_right apart]
        exact iff_of_false (fun file => by cases file) (underway.free content)
      · rename_i outside
        exact underway.file_iff proper outside content

theorem promote_vacates {o : Path} {staging : List Char} {area : StagingArea}
    (underway : Underway o staging fs area woven) (proper : Path.IsName staging) :
    (area.promote o).Ensures woven
      (fun _ emptied => ∃ copied, Copied o (o.join staging) area.staged woven copied ∧
        Vacated (fs.place o ++ [staging]) (fs.GoesBelow o (fs.place o ++ [staging])) copied emptied ∧
        emptied.IsTree ∧ emptied.here = fs.here)
      fun _ _ => True := by
  have here := underway.here
  have stands := underway.stands proper
  rw [← place_congr here] at stands
  have promotes := ensures_and (promote_ensures underway.tree area proper underway.dir underway.staged underway.reaches
    stands) (ensures_tree (area.promote o) underway.tree)
  apply ensures_mono promotes
  · rintro _ emptied ⟨⟨copied, copies, vacated⟩, still⟩
    rw [place_congr here, goes_below_congr here] at vacated
    exact ⟨copied, copies, vacated, still, (vacated.here.trans copies.keeps.here).trans here⟩
  · exact fun _ _ _ => trivial

theorem names_staged {o : Path} {staging : List Char} {layout : Json.Layout} {copied : FileSystem}
    (underway : Underway o staging fs progress.area woven) (proper : Path.IsName staging)
    (completed : Completed ⟨o.join staging, layout, []⟩ [] made prepared progress woven)
    (copies : Copied o (o.join staging) progress.area.staged woven copied)
    (legal : ∀ path ∈ progress.area.staged, path.fileName? ≠ none → Legal path) :
    ∀ name ∈ made.flatMap Product.names, name ≠ staging ∧ Legal ((o.join staging).join name) := by
  have named := completed.proper
  intro name member
  have staged : (o.join staging).join name ∈ progress.area.staged := by
    rw [completed.area, List.nil_append, paths_of_names named]
    exact List.mem_map_of_mem member
  have fileName := Path.file_name_join (o.join staging) (names_proper named name member)
  refine ⟨fun same => ?_, legal _ staged (by rw [fileName]; exact Option.some_ne_none _)⟩
  exact promoted_apart underway proper copies staged fileName (by rw [same])

theorem commit_delivers (sound : settings.fault = none)
    (underway : Underway request.outputDir settings.stagingDir.toList fs progress.area woven)
    (completed : Completed
      ⟨request.outputDir.join settings.stagingDir.toList, layoutOf settings.prettyMetadata, []⟩ [] made prepared
      progress woven) :
    (commit settings request progress).Ensures woven
      (fun report after => Reported settings request made report after →
        Delivered request.outputDir (fs.place request.outputDir ++ [settings.stagingDir.toList])
          (written settings made) fs after ∧
        ∀ name ∈ made.flatMap Product.names, name ≠ settings.stagingDir.toList ∧
          Legal ((request.outputDir.join settings.stagingDir.toList).join name))
      fun _ _ => True := by
  obtain ⟨proper, properManifest⟩ := Settings.names_of_sound sound
  have texts : progress.woven = made.map (·.source.stem) := by rw [completed.stems, List.nil_append]
  unfold commit writeManifest
  simp only [ensures_bind, ensures_write_file, ensures_tell, ensures_pure]
  apply ensures_mono
    (ensures_and (promote_vacates underway proper) (promote_sources progress.area request.outputDir))
  · rintro outputs emptied ⟨⟨copied, copies, vacated, still, here⟩, legal⟩
    refine ⟨fun _ done reported => ⟨?_, names_staged underway proper completed copies legal⟩, fun _ _ => trivial⟩
    have content := reported.content
    rw [texts] at done content ⊢
    refine promoted_delivered underway proper properManifest copies vacated still done ?_ ?_
    · intro path member name own same
      rw [completed.area] at member
      exact staged_written completed.proper member own same
    · intro name bytes last
      have there := get_of_read (content name bytes last)
      have own : Path.IsName name := by
        rcases List.mem_append.mp (mem_of_last_written last) with earlier | last
        · exact completed.wrote.named _ earlier
        · rw [show name = settings.manifestName.toList from congrArg Prod.fst (List.mem_singleton.mp last)]
          exact properManifest
      have start := (FileSystem.write_keeps still (request.outputDir.join settings.manifestName.toList)
        (Bytes.ofText (Manifest.toText ⟨made.map (·.source.stem)⟩))).here
      rwa [place_join _ _ own, place_congr (start.trans here)] at there
  · exact fun _ _ _ => trivial

end Commit

def through (t : Transformer σ) (settings : Settings) (search : SearchPath) (progress : Progress σ) :
    List LoadedModule → Progress σ
  | [] => progress
  | loaded :: rest =>
    if settings.isGlue loaded.module.name then
      through t settings search { progress with skipped := progress.skipped ++ [loaded.stem] } rest
    else
      let woven := weaveModule t settings.reflection search loaded progress.state
      let paths := (pathsOf progress.area.dir loaded.fileName.toList loaded.symbols).paths
      through t settings search
        { progress with
          state := woven.state, area := { progress.area with staged := progress.area.staged ++ paths },
          woven := progress.woven ++ [loaded.stem] } rest

theorem weave_all_through {ε : Type} (t : Transformer σ) (settings : Settings) (search : SearchPath)
    (modules : List LoadedModule) (progress : Progress σ) {fs : FileSystem} (tree : fs.IsTree)
    (named : ∀ loaded ∈ modules, Path.IsName loaded.fileName.toList) :
    (weaveAll t settings search progress modules : Task ε _).Ensures fs
      (fun answer _ => answer.2 = none → answer.1 = through t settings search progress modules) fun _ _ => False := by
  induction modules generalizing progress fs with
  | nil => exact (ensures_pure _).mpr fun _ => rfl
  | cons loaded rest ih =>
      obtain ⟨own, later⟩ := List.forall_mem_cons.mp named
      rw [weaveAll, through]
      split
      · simp only [ensures_bind, ensures_tell]
        exact ih _ tree later
      · simp only [ensures_bind, ensures_tell]
        split
        · exact (ensures_pure _).mpr fun stopped => (Option.some_ne_none _ stopped).elim
        · simp only [ensures_bind, ensures_attempt]
          apply ensures_mono (write_stages tree progress.area own _ _ _)
          · intro answer after facts
            obtain ⟨files, wrote, _, _, same⟩ := facts
            rw [same]
            simp only [ensures_tell]
            exact ih _ wrote.staged.tree later
          · intro e after _
            exact (ensures_pure _).mpr fun stopped => (Option.some_ne_none _ stopped).elim

def Request.progress (request : Request) (settings : Settings) (state : σ) : Progress σ :=
  ⟨state, ⟨request.outputDir.join settings.stagingDir.toList, layoutOf settings.prettyMetadata, []⟩, [], []⟩

def Progress.report (progress : Progress σ) (settings : Settings) (request : Request) : Report :=
  ⟨copiesIn request.outputDir progress.area.staged, progress.woven, progress.skipped,
    request.outputDir.join settings.manifestName.toList⟩

theorem prepare_legal {fs : FileSystem} (tree : fs.IsTree) (settings : Settings) (request : Request) :
    (prepare settings request).Ensures fs (fun _ _ => request.outputDir.chain ≠ [] → Legal request.outputDir)
      fun _ _ => True := by
  unfold prepare
  refine ensures_then (ensures_mono (plan_answers _ _ _) (fun _ _ facts => facts) fun _ _ _ => trivial) ?_
  rintro planned _ ⟨rfl, _⟩
  simp only [ensures_bind, ensures_tell, ensures_make_dirs, orIo, ensures_or_fail, ensures_pure]
  exact ⟨fun _ made => ⟨fun _ _ => make_dirs_legal tree (Prod.ext made rfl), fun _ _ => trivial⟩, fun _ _ => trivial⟩

structure CarriedOut (t : Transformer σ) (settings : Settings) (request : Request) (state : σ) (fs : FileSystem)
    (planned : Plan) (report : Report) (last : σ) (after : FileSystem) : Prop where
  finished : Finished t settings request state fs planned report after
  answer : (report, last) = let progress := through t settings planned.search (request.progress settings state) planned.processed
    (progress.report settings request, progress.state)
  delivered : Delivered request.outputDir (fs.place request.outputDir ++ [settings.stagingDir.toList])
    (written settings (products t settings planned.search state planned.processed)) fs after
  staged : ∀ name ∈ (products t settings planned.search state planned.processed).flatMap Product.names,
    name ≠ settings.stagingDir.toList ∧ Legal ((request.outputDir.join settings.stagingDir.toList).join name)
  staging : Legal (request.outputDir.join settings.stagingDir.toList)
  output : request.outputDir.chain ≠ [] → Legal request.outputDir

theorem run_carried_out {ε : Type} {t : Transformer σ} {settings : Settings} (sound : settings.fault = none)
    {request : Request} {state : σ} {fs : FileSystem} (tree : fs.IsTree) {report : Report} {last : σ}
    (done : ((run t settings request state : Task ε _).run fs).result = .ok (.ok report, last)) :
    ∃ planned, CarriedOut t settings request state fs planned report last
      ((run t settings request state : Task ε _).run fs).files := by
  obtain ⟨progress, woven, comes, committed⟩ := woven_all_of_done done
  obtain ⟨planned, area, ready, wove, files⟩ := woven_all_eq_some comes
  have prepared := (prepare_ensures tree sound request).done _ ready
  have output := (prepare_legal tree settings request).done _ ready
  have which : area = (request.progress settings state).area := prepared.area
  subst which
  have underway := woven_all_underway sound tree comes
  have named : ∀ loaded ∈ planned.processed, Path.IsName loaded.fileName.toList :=
    fun loaded member => prepared.named loaded (processed_mem member)
  have completed := (weave_all_completes t settings planned.search planned.processed _ prepared.opened.tree
    named).done _ wove rfl
  have ended : progress = through t settings planned.search (request.progress settings state) planned.processed :=
    (weave_all_through t settings planned.search planned.processed _ prepared.opened.tree named).done _ wove rfl
  rw [files] at completed
  have reported := (commit_reports sound underway completed).done _ committed
  obtain ⟨delivered, staged⟩ := (commit_delivers sound underway completed).done _ committed reported
  have answered := ((commit_accounts underway.tree settings request progress).done _ committed).1
  obtain ⟨result, left⟩ := run_of_woven_all comes
  have last : last = progress.state := (Prod.mk.inj (Except.ok.inj (done.symm.trans result))).2
  rw [left]
  refine ⟨planned, ⟨prepared.plan, prepared.planned, completed.woven, reported⟩, ?_, delivered, staged,
    underway.reaches.legal, output⟩
  rw [← ended, answered, last]
  rfl

end Batch

end Loom
