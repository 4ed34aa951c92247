import Loom.Proofs.Batch.Weaving

set_option autoImplicit false

/-! The staging directory outlasts its removal when the way to the output directory leads through what is staged. -/
namespace Loom

open Loom.Task StagingArea FileSystem

namespace StagingArea

theorem abandon_ensures {ε : Type} {fs : FileSystem} (area : StagingArea) {o : Path} {name : List Char}
    (proper : Path.IsName name) (dir : area.dir = o.join name) (reaches : fs.Reaches (o.join name))
    (there : fs.get? (fs.place o ++ [name]) = some .directory) :
    (area.abandon : Task ε Unit).Ensures fs
      (fun _ after =>
        Vacated (fs.place o ++ [name]) (fs.GoesBelow o (fs.place o ++ [name])) fs after)
      fun _ _ => False := by
  obtain ⟨removed, vacated⟩ := remove_tree_vacates fs o proper reaches there
  unfold abandon
  rw [dir, ensures_remove_tree, removed]
  exact (ensures_tell _).mpr vacated

theorem copy_into_plain {fs : FileSystem} (o : Path) (paths : List Path) :
    (copyInto o paths).Ensures fs (fun _ _ => True) fun e _ => e.Plain := by
  induction paths generalizing fs with
  | nil => exact (ensures_pure _).mpr trivial
  | cons path rest ih =>
      rw [copyInto]
      split
      · exact ih
      · simp only [ensures_bind, ensures_copy, orIo, ensures_or_fail, ensures_pure]
        exact ⟨fun _ _ => ih, fun _ _ _ _ => Failure.noConfusion⟩

end StagingArea

namespace Batch

variable {σ : Type}

theorem commit_plain {fs : FileSystem} (settings : Settings) (request : Request) (progress : Progress σ) :
    (commit settings request progress).Ensures fs (fun _ _ => True) fun e _ => e.Plain := by
  unfold commit promote writeManifest
  simp only [ensures_bind, ensures_remove_tree, orIo, ensures_or_fail, ensures_tell, ensures_pure,
    ensures_write_file]
  apply ensures_mono (copy_into_plain request.outputDir progress.area.staged)
  · intro outputs after _
    exact ⟨fun _ _ => ⟨fun _ _ => trivial, fun _ _ _ _ => Failure.noConfusion⟩,
      fun _ _ _ _ => Failure.noConfusion⟩
  · exact fun _ _ plain => plain

structure Withdrawn (o : Path) (staging : Location) (fs after : FileSystem) : Prop where
  here : after.here = fs.here
  entries : ∀ l, after.get? l =
    if staging <+: l then none else if l ∈ fs.way o then some .directory else fs.get? l

structure Abandoned (o : Path) (staging : Location) (fs after : FileSystem) : Prop where
  here : after.here = fs.here
  below : ∀ l, Below staging l → after.get? l = none
  emptied : after.get? staging = if fs.GoesBelow o staging then some .directory else none
  outside : ∀ l, ¬ staging <+: l →
    after.get? l = if l ∈ fs.way o then some .directory else fs.get? l
  files : ∀ l content, ¬ Below staging l →
    (after.get? l = some (.file content) ↔ fs.get? l = some (.file content))

theorem withdrawn_iff {o : Path} {staging : Location} {fs after : FileSystem}
    (left : Abandoned o staging fs after) :
    Withdrawn o staging fs after ↔ ¬ fs.GoesBelow o staging := by
  constructor
  · intro withdrawn below
    have gone := withdrawn.entries staging
    rw [if_pos List.prefix_rfl, left.emptied, if_pos below] at gone
    cases gone
  · intro apart
    refine ⟨left.here, fun l => ?_⟩
    by_cases front : staging <+: l
    · rw [if_pos front]
      rcases (at_or_below_iff staging l).mp front with same | below
      · rw [same, left.emptied, if_neg apart]
      · exact left.below l below
    · rw [if_neg front]
      exact left.outside l front

theorem abandoned_of_underway {o : Path} {name : List Char} {fs woven after : FileSystem}
    {area : StagingArea} (underway : Underway o name fs area woven) (proper : Path.IsName name)
    (vacated : Vacated (fs.place o ++ [name]) (fs.GoesBelow o (fs.place o ++ [name])) woven after) :
    Abandoned o (fs.place o ++ [name]) fs after := by
  have emptied : after.get? (fs.place o ++ [name]) =
      if fs.GoesBelow o (fs.place o ++ [name]) then some .directory else none := by
    by_cases goes : fs.GoesBelow o (fs.place o ++ [name])
    · rw [if_pos goes, vacated.left goes]
    · rw [if_neg goes, vacated.gone goes]
  refine ⟨vacated.here.trans underway.here, vacated.below, emptied, fun l front => ?_,
    fun l content apart => ?_⟩
  · rw [vacated.outside l front]
    exact underway.get_outside proper front
  · by_cases same : l = fs.place o ++ [name]
    · rw [same, emptied]
      constructor
      · intro file
        split at file <;> cases file
      · exact fun file => absurd file (underway.free content)
    · have front : ¬ fs.place o ++ [name] <+: l := by
        intro front
        exact ((at_or_below_iff _ l).mp front).elim same apart
      rw [vacated.outside l front]
      exact underway.file_iff proper front content

theorem Underway.abandons {ε : Type} {o : Path} {name : List Char} {fs woven : FileSystem} {area : StagingArea}
    (underway : Underway o name fs area woven) (proper : Path.IsName name) :
    (area.abandon : Task ε Unit).Ensures woven (fun _ after => Abandoned o (fs.place o ++ [name]) fs after)
      fun _ _ => False := by
  have there := underway.stands proper
  rw [← place_congr underway.here] at there
  apply ensures_mono (abandon_ensures area proper underway.dir underway.reaches there)
  · intro _ after vacated
    rw [place_congr underway.here, goes_below_congr underway.here] at vacated
    exact abandoned_of_underway underway proper vacated
  · exact fun _ _ impossible => impossible

theorem run_without_plan {ε : Type} (t : Transformer σ) (settings : Settings) (request : Request) (state : σ)
    (fs : FileSystem) {e : Failure}
    (noPlan : ((plan request.references request.targets settings.readSymbols).run fs).result = .error e) :
    (run t settings request state : Task ε _).Ensures fs
      (fun answer after => answer = (.error e, state) ∧ after = fs) fun _ _ => False := by
  have looks : (plan request.references request.targets settings.readSymbols).Looks fs _ _ :=
    looks_plan _ _ _
  unfold run prepare
  simp only [ensures_bind, ensures_attempt]
  refine ⟨fun planned found => ?_, fun other failed => ?_⟩
  · rw [noPlan] at found
    cases found
  · cases noPlan.symm.trans failed
    exact (ensures_pure _).mpr ⟨rfl, looks_files looks⟩

theorem run_abandons {ε : Type} (t : Transformer σ) {settings : Settings} (sound : settings.fault = none)
    (request : Request) (state : σ) {fs : FileSystem} (tree : fs.IsTree) :
    (run t settings request state : Task ε _).Ensures fs
      (fun answer after => ∀ stem cause, answer.1 = .error (.batch stem cause) →
        Abandoned request.outputDir (fs.place request.outputDir ++ [settings.stagingDir.toList]) fs after)
      fun _ _ => False := by
  obtain ⟨proper, _⟩ := Settings.names_of_sound sound
  unfold run
  simp only [ensures_bind, ensures_attempt]
  apply ensures_mono (prepare_ensures tree sound request)
  · intro answer prepared facts
    obtain ⟨planned, area⟩ := answer
    simp only [ensures_tell]
    apply ensures_mono (weave_all_underway t state facts)
    · intro ended woven underway
      obtain ⟨progress, stopped⟩ := ended
      dsimp only at underway
      cases stopped with
      | none =>
          simp only [ensures_bind, ensures_attempt, ensures_pure]
          -- A commit fails in other words than a batch.
          apply ensures_mono (commit_plain settings request progress)
          · intro report after _ stem cause failed
            cases failed
          · intro e after plain stem cause failed
            cases failed
            exact absurd rfl (plain stem cause)
      | some failure =>
          simp only [ensures_bind, ensures_pure]
          exact ensures_mono (underway.abandons proper) (fun _ _ left _ _ _ => left) fun _ _ impossible => impossible
    · exact fun _ _ impossible => impossible
  · intro e after plain
    apply (ensures_pure _).mpr
    intro stem cause failed
    cases failed
    exact absurd rfl (plain stem cause)

/-- Where the way to the output directory does not stay out of the staging directory, that directory remains, empty.
-/
theorem failed_batch_leaves_no_trace {ε : Type} (t : Transformer σ) (settings : Settings)
    (request : Request) (state : σ) (fs : FileSystem) (sound : settings.validate = .ok settings)
    (tree : fs.IsTree) :
    (∀ e, ((plan request.references request.targets settings.readSymbols).run fs).result = .error e →
      ((run t settings request state : Task ε _).run fs).result = .ok (.error e, state) ∧
      ((run t settings request state : Task ε _).run fs).files = fs) ∧
    (∀ stem cause last,
      ((run t settings request state : Task ε _).run fs).result = .ok (.error (.batch stem cause), last) →
      Abandoned request.outputDir (fs.place request.outputDir ++ [settings.stagingDir.toList]) fs
        ((run t settings request state : Task ε _).run fs).files ∧
      (Withdrawn request.outputDir (fs.place request.outputDir ++ [settings.stagingDir.toList]) fs
        ((run t settings request state : Task ε _).run fs).files ↔
        ¬ fs.GoesBelow request.outputDir (fs.place request.outputDir ++ [settings.stagingDir.toList]))) := by
  have faultless := Settings.fault_of_validate sound
  constructor
  · intro e noPlan
    have ensures : (run t settings request state : Task ε _).Ensures fs _ _ :=
      run_without_plan t settings request state fs noPlan
    cases result : ((run t settings request state : Task ε _).run fs).result with
    | ok answer =>
        obtain ⟨same, files⟩ := ensures.done answer result
        exact ⟨by rw [same], files⟩
    | error other => exact (ensures.failed other result).elim
  · intro stem cause last failed
    have abandons : (run t settings request state : Task ε _).Ensures fs _ _ :=
      run_abandons t faultless request state tree
    have left := abandons.done _ failed stem cause rfl
    exact ⟨left, withdrawn_iff left⟩

-- Game registers a type that it does not declare, and fails once Base is staged.
theorem failed_batch_inside_its_staging :
    let fs := ((((⟨[], []⟩ : FileSystem).write "Base.wbc"
      (⟨Module.magicNumber, 1, 0, ⟨"Base", "1"⟩, [], [], [], none⟩ : Module).encode).2).write "Game.wbc"
      (⟨Module.magicNumber, 1, 0, ⟨"Game", "1"⟩, [], [], [⟨"Ghost", "class"⟩], none⟩ : Module).encode).2
    let idle : Transformer Unit := ⟨fun _ _ state draft => ⟨state, draft, .ok ()⟩⟩
    let inside : Request := ⟨[], ["Base.wbc", "Game.wbc"], "out/.weft-staging/sub/../.."⟩
    let missing : Request := ⟨[], ["Base.wbc", "Other.wbc"], "out"⟩
    let staging : Location := ["out".toList, ".weft-staging".toList]
    ((run idle {} inside () : Task Failure _).run fs).result =
        .ok (.error (.batch "Game" (.verify "Game" (.unknownRegistration "Ghost"))), ()) ∧
      ((run idle {} inside () : Task Failure _).run fs).files.get? staging = some .directory ∧
      ¬ Withdrawn inside.outputDir staging fs ((run idle {} inside () : Task Failure _).run fs).files ∧
      ((run idle {} missing () : Task Failure _).run fs).files = fs := by
  intro fs idle inside missing staging
  have sound : ({} : Settings).validate = .ok {} := by decide +kernel
  have tree : fs.IsTree := is_tree_write (is_tree_write (empty_is_tree []) _ _) _ _
  have failed : ((run idle {} inside () : Task Failure _).run fs).result =
      .ok (.error (.batch "Game" (.verify "Game" (.unknownRegistration "Ghost"))), ()) := by decide +kernel
  have noPlan : ((plan missing.references missing.targets ({} : Settings).readSymbols).run fs).result =
      .error (.moduleNotFound "Other.wbc") := by decide +kernel
  have place : fs.place inside.outputDir ++ [({} : Settings).stagingDir.toList] = staging := by decide +kernel
  have below : fs.GoesBelow inside.outputDir staging := by decide +kernel
  obtain ⟨_, modules⟩ := @failed_batch_leaves_no_trace Unit Failure idle {} inside () fs sound tree
  obtain ⟨unplanned, _⟩ := @failed_batch_leaves_no_trace Unit Failure idle {} missing () fs sound tree
  obtain ⟨left, traceless⟩ := modules _ _ _ failed
  rw [place] at left traceless
  refine ⟨failed, ?_, fun withdrawn => traceless.mp withdrawn below, (unplanned _ noPlan).2⟩
  rw [left.emptied, if_pos below]

end Batch

end Loom
