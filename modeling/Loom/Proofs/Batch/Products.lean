import Loom.Proofs.Batch.Promotion

set_option autoImplicit false

namespace Loom

open Loom.Task StagingArea FileSystem

theorem FileSystem.copy_legal {fs : FileSystem} {source target : Path}
    (done : (fs.copy source target).1 = .ok ()) : Legal target := by
  rcases copy_cases fs source target with ⟨e, failed⟩ | ⟨_, _, emptied, _⟩
  · rw [failed] at done
    cases done
  · rcases write_cases fs target [] with ⟨e, failed⟩ | ⟨_, reaches, _⟩
    · rw [failed] at emptied
      cases emptied
    · exact reaches.legal

namespace StagingArea

def copiesIn (o : Path) (paths : List Path) : List Path := paths.filterMap fun path => path.fileName?.map o.join

theorem copy_into_answers {fs : FileSystem} (o : Path) (paths : List Path) :
    (copyInto o paths).Ensures fs
      (fun outputs _ => outputs = copiesIn o paths ∧ ∀ target ∈ outputs, Legal target) fun _ _ => True := by
  induction paths generalizing fs with
  | nil => exact (ensures_pure _).mpr ⟨rfl, List.forall_mem_nil _⟩
  | cons path rest ih =>
      rw [copyInto]
      split
      · rename_i nameless
        rw [copiesIn, List.filterMap_cons_none (by rw [nameless]; rfl)]
        exact ih
      · rename_i name named
        simp only [ensures_bind, ensures_copy, orIo, ensures_or_fail, ensures_pure]
        refine ⟨fun _ done => ?_, fun _ _ => trivial⟩
        apply ensures_mono ih
        · intro outputs after facts
          rw [copiesIn, List.filterMap_cons_some (by rw [named]; rfl)]
          exact ⟨congrArg _ facts.1, List.forall_mem_cons.mpr ⟨copy_legal done, facts.2⟩⟩
        · exact fun _ _ _ => trivial

theorem promote_answers {fs : FileSystem} (area : StagingArea) (o : Path) :
    (area.promote o).Ensures fs
      (fun outputs _ => outputs = copiesIn o area.staged ∧ ∀ target ∈ outputs, Legal target)
      fun _ _ => True := by
  unfold promote
  simp only [ensures_bind, ensures_remove_tree, orIo, ensures_or_fail, ensures_tell, ensures_pure]
  apply ensures_mono (copy_into_answers o area.staged)
  · exact fun outputs after facts => ⟨fun _ _ => facts, fun _ _ => trivial⟩
  · exact fun _ _ _ => trivial

end StagingArea

namespace Batch

variable {σ : Type}

structure Product (σ : Type) where
  source : LoadedModule
  woven : Woven σ

namespace Product

def module (p : Product σ) : Module := p.woven.draft.module.setFlag Module.wovenFlag

def name (p : Product σ) : List Char := p.source.fileName.toList

def files (layout : Json.Layout) (p : Product σ) : List (List Char × Bytes) :=
  filesOf p.name p.module p.source.symbols (p.woven.draft.metadata.toText layout)

def names (p : Product σ) : List (List Char) := namesOf p.name p.source.symbols

def Proper (p : Product σ) : Prop := ∀ name ∈ p.names, Path.IsName name

def paths (d : Path) (p : Product σ) : List Path := (pathsOf d p.name p.source.symbols).paths

end Product

def products (t : Transformer σ) (settings : Settings) (search : SearchPath) (state : σ) :
    List LoadedModule → List (Product σ)
  | [] => []
  | loaded :: rest =>
    if settings.isGlue loaded.module.name then products t settings search state rest
    else
      let woven := weaveModule t settings.reflection search loaded state
      ⟨loaded, woven⟩ :: products t settings search woven.state rest

structure Completed (area : StagingArea) (stems : List String) (made : List (Product σ)) (fs : FileSystem)
    (ended : Progress σ) (after : FileSystem) : Prop where
  woven : ∀ p ∈ made, p.woven.result = .ok () ∧ p.module.verify = .ok ()
  wrote : Wrote area.dir (made.flatMap (·.files area.layout)) fs after
  area : ended.area = { area with staged := area.staged ++ made.flatMap (·.paths area.dir) }
  stems : ended.woven = stems ++ made.map (·.source.stem)

theorem weave_all_completes {ε : Type} (t : Transformer σ) (settings : Settings) (search : SearchPath)
    (modules : List LoadedModule) (progress : Progress σ) {fs : FileSystem} (tree : fs.IsTree)
    (named : ∀ loaded ∈ modules, Path.IsName loaded.fileName.toList) :
    (weaveAll t settings search progress modules : Task ε _).Ensures fs
      (fun answer after => answer.2 = none →
        Completed progress.area progress.woven (products t settings search progress.state modules) fs answer.1 after)
      fun _ _ => False := by
  induction modules generalizing progress fs with
  | nil =>
      refine (ensures_pure _).mpr fun _ => ⟨List.forall_mem_nil _, wrote_nothing tree _, ?_, ?_⟩
      · rw [products, List.flatMap_nil, List.append_nil]
      · rw [products, List.map_nil, List.append_nil]
  | cons loaded rest ih =>
      have later : ∀ m ∈ rest, Path.IsName m.fileName.toList :=
        fun m member => named m (List.mem_cons_of_mem loaded member)
      rw [weaveAll, products]
      split
      · simp only [ensures_bind, ensures_tell]
        exact ih { progress with skipped := progress.skipped ++ [loaded.stem] } tree later
      · simp only [ensures_bind, ensures_tell]
        split
        · exact (ensures_pure _).mpr fun stopped => (Option.some_ne_none _ stopped).elim
        · rename_i ended
          simp only [ensures_bind, ensures_attempt]
          apply ensures_mono (write_stages tree progress.area (named loaded List.mem_cons_self) _ _ _)
          · intro answer after facts
            obtain ⟨files, wrote, sound, written, same⟩ := facts
            rw [same]
            simp only [ensures_tell]
            apply ensures_mono (ih _ wrote.staged.tree later)
            · intro last final facts unstopped
              obtain ⟨woven, wroteLater, area, stems⟩ := facts unstopped
              rw [written] at wrote
              refine ⟨List.forall_mem_cons.mpr ⟨⟨ended, sound⟩, woven⟩, wrote_trans wrote wroteLater, ?_, ?_⟩
              · rw [area, List.flatMap_cons, ← List.append_assoc]
                rfl
              · rw [stems, List.map_cons, List.append_assoc]
                rfl
            · exact fun _ _ impossible => impossible
          · intro e after staged
            exact (ensures_pure _).mpr fun stopped => (Option.some_ne_none _ stopped).elim

def written (settings : Settings) (made : List (Product σ)) : List (List Char × Bytes) :=
  made.flatMap (·.files (layoutOf settings.prettyMetadata)) ++
    [(settings.manifestName.toList, Bytes.ofText (Manifest.toText ⟨made.map (·.source.stem)⟩))]

structure Reported (settings : Settings) (request : Request) (made : List (Product σ)) (report : Report)
    (after : FileSystem) : Prop where
  outputs : report.outputs = made.flatMap (·.paths request.outputDir)
  loadOrder : report.loadOrder = made.map (·.source.stem)
  manifest : report.manifest = request.outputDir.join settings.manifestName.toList
  proper : ∀ p ∈ made, p.Proper
  content : ∀ name bytes, lastWritten (written settings made) name = some bytes →
    after.read (request.outputDir.join name) = .ok bytes

theorem Product.name_proper {p : Product σ} (proper : p.Proper) : Path.IsName p.name := proper _ List.mem_cons_self

theorem Product.paths_eq {p : Product σ} (proper : p.Proper) (d : Path) : p.paths d = p.names.map d.join :=
  paths_of_eq d (p.name_proper proper) _

theorem paths_promoted {p : Product σ} (proper : p.Proper) (d o : Path) : copiesIn o (p.paths d) = p.paths o := by
  have promoted : ∀ name ∈ p.names, (d.join name).fileName?.map o.join = some (o.join name) := by
    intro name member
    rw [Path.file_name_join d (proper name member), Option.map_some]
  rw [Product.paths_eq proper, Product.paths_eq proper, copiesIn, List.filterMap_map]
  exact List.filterMap_eq_map_iff_forall_eq_some.mpr promoted

theorem join_mem_paths {made : List (Product σ)} (proper : ∀ p ∈ made, p.Proper) {layout : Json.Layout} (d : Path)
    {file : List Char × Bytes} (member : file ∈ made.flatMap (·.files layout)) :
    d.join file.1 ∈ made.flatMap (·.paths d) := by
  obtain ⟨p, inside, own⟩ := List.mem_flatMap.mp member
  exact List.mem_flatMap.mpr ⟨p, inside, (mem_paths_of_iff d (p.name_proper (proper p inside)) _ _ _ _).mpr ⟨file, own, rfl⟩⟩

theorem mem_of_last_written {files : List (List Char × Bytes)} {name : List Char} {content : Bytes}
    (last : lastWritten files name = some content) : (name, content) ∈ files := by
  obtain ⟨later, earlier, whole, _⟩ := List.lookup_eq_some_iff.mp last
  rw [← List.mem_reverse, whole]
  exact List.mem_append_right _ List.mem_cons_self

section Completed

variable {area : StagingArea} {stems : List String} {made : List (Product σ)} {fs after : FileSystem}
  {ended : Progress σ} (completed : Completed area stems made fs ended after)
include completed

theorem Completed.proper : ∀ p ∈ made, p.Proper := by
  intro p member name inside
  obtain ⟨file, own, same⟩ := List.mem_map.mp ((names_of_perm p.name p.module p.source.symbols
    (p.woven.draft.metadata.toText area.layout)).mem_iff.mpr inside)
  exact same ▸ completed.wrote.named file (List.mem_flatMap.mpr ⟨p, member, own⟩)

theorem Completed.promised (o : Path) :
    copiesIn o ended.area.staged = copiesIn o area.staged ++ made.flatMap (·.paths o) := by
  have promoted : copiesIn o (made.flatMap (·.paths area.dir)) = made.flatMap (·.paths o) := by
    rw [copiesIn, List.filterMap_flatMap]
    exact List.flatMap_congr fun p member => paths_promoted (completed.proper p member) area.dir o
  rw [completed.area, ← promoted]
  exact List.filterMap_append

end Completed

theorem promoted_apart {o : Path} {staging : List Char} {fs woven copied : FileSystem} {area : StagingArea}
    (underway : Underway o staging fs area woven) (proper : Path.IsName staging)
    (copies : Copied o (o.join staging) area.staged woven copied) {path : Path} (member : path ∈ area.staged)
    {name : List Char} (named : path.fileName? = some name) : fs.place o ++ [name] ≠ fs.place o ++ [staging] := by
  obtain ⟨_, _, target⟩ := promoted_content underway proper copies member named
  have stands : copied.get? (fs.place o ++ [staging]) = some .directory :=
    copies.keeps.directories _ (underway.stands proper)
  intro same
  rw [same, stands] at target
  cases target

theorem promoted_file {o : Path} {staging : List Char} {fs prepared woven copied emptied : FileSystem}
    {area : StagingArea} {files : List (List Char × Bytes)} (underway : Underway o staging fs area woven)
    (proper : Path.IsName staging) (copies : Copied o (o.join staging) area.staged woven copied)
    (vacated : Vacated (fs.place o ++ [staging]) (fs.GoesBelow o (fs.place o ++ [staging])) copied emptied)
    (wrote : Wrote (o.join staging) files prepared woven)
    (listed : ∀ file ∈ files, (o.join staging).join file.1 ∈ area.staged) {name : List Char} {content : Bytes}
    (last : lastWritten files name = some content) :
    emptied.get? (fs.place o ++ [name]) = some (.file content) := by
  have member := mem_of_last_written last
  have named := Path.file_name_join (o.join staging) (wrote.named _ member)
  obtain ⟨found, source, target⟩ := promoted_content underway proper copies (listed _ member) named
  have here : prepared.here = fs.here := wrote.staged.keeps.here.symm.trans underway.here
  have staged := wrote.content name
  rw [place_join _ o proper, place_congr here, last, source] at staged
  cases staged
  have other := promoted_apart underway proper copies (listed _ member) named
  rw [vacated.outside _ (sibling_outside other), target]

theorem read_of_last_written {o : Path} {files : List (List Char × Bytes)} {fs : FileSystem} {m : List Char}
    {text : Bytes} (tree : fs.IsTree) (proper : Path.IsName m) (done : (fs.write (o.join m) text).1 = .ok ())
    (legal : ∀ file ∈ files, Path.IsName file.1 ∧ Legal (o.join file.1))
    (there : ∀ name content, lastWritten files name = some content →
      fs.get? (fs.place o ++ [name]) = some (.file content))
    {name : List Char} {content : Bytes} (last : lastWritten (files ++ [(m, text)]) name = some content) :
    (fs.write (o.join m) text).2.read (o.join name) = .ok content := by
  rcases write_cases fs (o.join m) text with ⟨e, failed⟩ | ⟨wrote, reaches, _, leaf⟩
  · rw [failed] at done
    cases done
  · rw [look_join fs o proper] at leaf
    have keeps := put_keeps tree leaf (.file text)
    have entry := get_put_leaf tree leaf (.file text)
    rw [wrote, place_join fs o proper]
    obtain ⟨properName, legalName⟩ : Path.IsName name ∧ Legal (o.join name) := by
      rcases List.mem_append.mp (mem_of_last_written last) with earlier | own
      · exact legal _ earlier
      · rw [show name = m from congrArg Prod.fst (List.mem_singleton.mp own)]
        exact ⟨proper, reaches.legal⟩
    have reachesName : fs.Reaches (o.join name) := by
      refine ⟨legalName, fun d member => reaches.directories d ?_⟩
      rwa [passed_join fs o proper, ← passed_join fs o properName]
    rw [read_join_iff properName (keeps.reaches reachesName), place_congr keeps.here, entry]
    rw [last_written_append] at last
    by_cases same : name = m
    · rw [same, lastWritten, List.reverse_singleton, List.lookup_cons_self, Option.some_or] at last
      cases last
      rw [same, if_pos rfl]
    · rw [lastWritten, List.reverse_singleton, List.lookup_cons, beq_false_of_ne same] at last
      have apart : fs.place o ++ [name] ≠ fs.place o ++ [m] :=
        fun whole => same (List.singleton_inj.mp (List.append_cancel_left whole))
      rw [if_neg apart]
      exact there name content last

theorem commit_reports {settings : Settings} {request : Request} {fs prepared woven : FileSystem}
    {progress : Progress σ} {made : List (Product σ)} (sound : settings.fault = none)
    (underway : Underway request.outputDir settings.stagingDir.toList fs progress.area woven)
    (completed : Completed
      ⟨request.outputDir.join settings.stagingDir.toList, layoutOf settings.prettyMetadata, []⟩ [] made prepared
      progress woven) :
    (commit settings request progress).Ensures woven (fun report after => Reported settings request made report after)
      fun _ _ => True := by
  obtain ⟨proper, properManifest⟩ := Settings.names_of_sound sound
  have named := completed.proper
  have promised := completed.promised request.outputDir
  obtain ⟨_, wrote, area, stems⟩ := completed
  have stands := underway.stands proper
  rw [← place_congr underway.here] at stands
  have promotes := ensures_and (ensures_and (promote_ensures underway.tree progress.area proper underway.dir
    underway.staged underway.reaches stands) (promote_answers progress.area request.outputDir))
    (ensures_tree (progress.area.promote request.outputDir) underway.tree)
  unfold commit writeManifest
  simp only [ensures_bind, ensures_write_file, ensures_tell, ensures_pure]
  apply ensures_mono promotes
  · intro outputs emptied facts
    obtain ⟨⟨⟨copied, copies, vacated⟩, answer, legal⟩, tree⟩ := facts
    have here : emptied.here = fs.here := (vacated.here.trans copies.keeps.here).trans underway.here
    rw [place_congr underway.here, goes_below_congr underway.here] at vacated
    rw [promised] at answer
    refine ⟨fun _ done => ⟨answer, by rw [stems, List.nil_append], rfl, named, fun name bytes last => ?_⟩,
      fun _ _ => trivial⟩
    have texts : progress.woven = made.map (·.source.stem) := by rw [stems, List.nil_append]
    rw [texts] at done ⊢
    -- The manifest is written last, over whatever has its name.
    apply read_of_last_written tree properManifest done ?_ ?_ last
    · intro file member
      refine ⟨wrote.named file member, legal _ ?_⟩
      rw [answer]
      exact join_mem_paths named _ member
    · intro other content before
      rw [place_congr here]
      refine promoted_file underway proper copies vacated wrote (fun file member => ?_) before
      rw [area]
      exact List.mem_append_right _ (join_mem_paths named _ member)
  · exact fun _ _ _ => trivial

structure Finished (t : Transformer σ) (settings : Settings) (request : Request) (state : σ) (fs : FileSystem)
    (planned : Plan) (report : Report) (after : FileSystem) : Prop where
  plan : ((plan request.references request.targets settings.readSymbols).run fs).result = .ok planned
  looked : Planned fs request.references request.targets planned
  woven : ∀ p ∈ products t settings planned.search state planned.processed,
    p.woven.result = .ok () ∧ p.module.verify = .ok ()
  reported : Reported settings request (products t settings planned.search state planned.processed) report after

theorem run_finishes {ε : Type} (t : Transformer σ) {settings : Settings} (sound : settings.fault = none)
    (request : Request) (state : σ) {fs : FileSystem} (tree : fs.IsTree) :
    (run t settings request state : Task ε _).Ensures fs
      (fun answer after => ∀ report, answer.1 = .ok report →
        ∃ planned, Finished t settings request state fs planned report after)
      fun _ _ => False := by
  unfold run
  simp only [ensures_bind, ensures_attempt]
  apply ensures_mono (prepare_ensures tree sound request)
  · intro answer prepared facts
    obtain ⟨planned, area⟩ := answer
    have which : area = _ := facts.area
    simp only [ensures_tell]
    have weaves := ensures_and (weave_all_underway t state facts)
      (weave_all_completes (ε := ε) t settings planned.search planned.processed ⟨state, area, [], []⟩
        facts.opened.tree fun loaded member => facts.named loaded (processed_mem member))
    apply ensures_mono weaves
    · intro ended woven facts'
      obtain ⟨progress, stopped⟩ := ended
      obtain ⟨underway, completes⟩ := facts'
      cases stopped with
      | none =>
          simp only [ensures_bind, ensures_attempt, ensures_pure]
          have completed := completes rfl
          rw [which] at completed
          apply ensures_mono (commit_reports sound underway completed)
          · intro report after reported other same
            cases same
            exact ⟨planned, facts.plan, facts.planned, completed.woven, reported⟩
          · intro e after _ report failed
            cases failed
      | some failure =>
          simp only [ensures_bind, ensures_pure, abandon, ensures_remove_tree]
          cases (woven.removeTree progress.area.dir).1 with
          | ok _ =>
              refine (ensures_tell _).mpr fun report failed => ?_
              cases failed
          | error _ =>
              refine (ensures_tell _).mpr fun report failed => ?_
              cases failed
    · exact fun _ _ impossible => impossible.1
  · intro e after _
    apply (ensures_pure _).mpr
    intro report failed
    cases failed

end Batch

end Loom
