import Loom.Proofs.Batch.Accounts

set_option autoImplicit false

namespace Loom

open Loom.Task StagingArea

namespace StagingArea

variable {fs : FileSystem}

theorem create_plain (o : Path) (name : String) (pretty : Bool) :
    (create o name pretty).Ensures fs (fun _ _ => True) fun e _ => e.Plain := by
  unfold create orIo
  simp only [ensures_bind, ensures_kind_of]
  split
  · simp only [ensures_bind, ensures_tell, ensures_remove_tree, ensures_make_dirs, ensures_or_fail, ensures_pure]
    exact ⟨fun _ _ => ⟨fun _ _ => trivial, fun _ _ _ _ => Failure.noConfusion⟩, fun _ _ _ _ => Failure.noConfusion⟩
  · simp only [ensures_pure, ensures_bind, ensures_make_dirs, ensures_or_fail]
    exact ⟨fun _ _ => trivial, fun _ _ _ _ => Failure.noConfusion⟩

inductive Unstaged (m : Module) : Failure → Prop
  | unsound {fault : VerifyError} (found : m.verify = .error fault) : Unstaged m (.verify m.name fault)
  | unwritten (sound : m.verify = .ok ()) (path : Path) (cause : IoError) : Unstaged m (.io path cause)

section Write

variable {m : Module}

theorem write_file_unstaged (sound : m.verify = .ok ()) (path : Path) (content : Bytes) :
    (Task.writeFile path content (.io path)).Ensures fs (fun _ _ => True) fun e _ => Unstaged m e :=
  (ensures_write_file _ _ _).mpr ⟨fun _ _ => trivial, fun cause _ => .unwritten sound path cause⟩

theorem write_symbols_unstaged (sound : m.verify = .ok ()) (modulePath : Path) (symbols : Option SymbolTable) :
    (writeSymbols modulePath symbols).Ensures fs (fun _ _ => True) fun e _ => Unstaged m e := by
  cases symbols with
  | none => exact (ensures_pure _).mpr trivial
  | some table =>
      apply ensures_then (write_file_unstaged sound (symbolPath modulePath) table.encode)
      exact fun _ _ _ => (ensures_pure _).mpr trivial

theorem report_staged_answers {ε : Type} {bad : ε → FileSystem → Prop} (paths : List Path) :
    (reportStaged paths : Task ε Unit).Ensures fs (fun _ _ => True) bad := by
  induction paths with
  | nil => exact (ensures_pure _).mpr trivial
  | cons path rest ih => exact (ensures_report _ _).mpr ih

theorem write_unstaged (area : StagingArea) (fileName : String) (m : Module) (symbols : Option SymbolTable)
    (metadata : ApiMetadata) :
    (area.write fileName m symbols metadata).Ensures fs (fun _ _ => m.verify = .ok ()) fun e _ => Unstaged m e := by
  have verified : (Task.orFail (Failure.verify m.name) m.verify).Ensures fs (fun _ _ => m.verify = .ok ())
      fun e _ => Unstaged m e :=
    (ensures_or_fail _ _).mpr ⟨fun _ sound => sound, fun _ found => .unsound found⟩
  refine ensures_then verified fun _ _ sound => ?_
  refine ensures_then (write_file_unstaged sound _ _) fun _ _ _ => ?_
  refine ensures_then (write_symbols_unstaged sound _ _) fun _ _ _ => ?_
  refine ensures_then (write_file_unstaged sound _ _) fun _ _ _ => ?_
  refine ensures_then (report_staged_answers _) fun _ _ _ => ?_
  exact (ensures_pure _).mpr sound

end Write

end StagingArea

namespace Batch

variable {σ : Type} {fs : FileSystem}

theorem prepare_plain (settings : Settings) (request : Request) :
    (prepare settings request).Ensures fs (fun _ _ => True) fun e _ => e.Plain := by
  unfold prepare
  refine ensures_then (ensures_mono (plan_answers _ _ _) (fun _ _ facts => facts) fun _ _ plain => plain) ?_
  intro planned after _
  simp only [ensures_bind, ensures_tell, ensures_make_dirs, orIo, ensures_or_fail, ensures_pure]
  exact ⟨fun _ _ => create_plain _ _ _, fun _ _ _ _ => Failure.noConfusion⟩

inductive Fails (name : String) (woven : Woven σ) : Failure → Prop
  | refused {e : TransformError} (failed : woven.result = .error e) : Fails name woven (.transform name e)
  | unstaged {failure : Failure} (done : woven.result = .ok ())
      (unstaged : Unstaged (woven.draft.module.setFlag Module.wovenFlag) failure) : Fails name woven failure

theorem weave_all_rule {ε : Type} (t : Transformer σ) (settings : Settings) (search : SearchPath)
    (kept : List LoadedModule → Progress σ → FileSystem → Prop)
    (stopped : Progress σ → String → Failure → FileSystem → Prop)
    (glue : ∀ loaded rest progress fs, kept (loaded :: rest) progress fs → settings.isGlue loaded.module.name = true →
      kept rest { progress with skipped := progress.skipped ++ [loaded.stem] } fs)
    (failed : ∀ loaded rest progress fs e, kept (loaded :: rest) progress fs → ¬ settings.isGlue loaded.module.name = true →
      (weaveModule t settings.reflection search loaded progress.state).result = .error e →
      stopped { progress with state := (weaveModule t settings.reflection search loaded progress.state).state } loaded.stem
        (.transform loaded.module.name e) fs)
    (staged : ∀ loaded rest progress fs, kept (loaded :: rest) progress fs → ¬ settings.isGlue loaded.module.name = true →
      let woven := weaveModule t settings.reflection search loaded progress.state
      woven.result = .ok () → (stage progress.area loaded woven.draft).Ensures fs
        (fun answer after => kept rest
          ⟨woven.state, answer.2, progress.woven ++ [loaded.stem], progress.skipped⟩ after)
        fun e after => stopped { progress with state := woven.state } loaded.stem e after)
    (modules : List LoadedModule) {progress : Progress σ} {fs : FileSystem} (start : kept modules progress fs) :
    (weaveAll t settings search progress modules : Task ε _).Ensures fs
      (fun answer after => (answer.2 = none → kept [] answer.1 after) ∧
        ∀ stem failure, answer.2 = some (stem, failure) → stopped answer.1 stem failure after)
      fun _ _ => False := by
  -- What holds before a module is kept by each that is passed over or staged.
  induction modules generalizing progress fs with
  | nil => exact (ensures_pure _).mpr ⟨fun _ => start, fun _ _ none => (Option.some_ne_none _ none.symm).elim⟩
  | cons loaded rest ih =>
      rw [weaveAll]
      split
      · rename_i isGlue
        simp only [ensures_bind, ensures_tell]
        exact ih (glue loaded rest progress fs start isGlue)
      · rename_i plain
        simp only [ensures_bind, ensures_tell]
        split
        · rename_i e result
          refine (ensures_pure _).mpr ⟨fun none => (Option.some_ne_none _ none).elim, fun stem failure same => ?_⟩
          cases same
          exact failed loaded rest progress fs e start plain result
        · rename_i result
          simp only [ensures_bind, ensures_attempt]
          apply ensures_mono (staged loaded rest progress fs start plain result)
          · intro answer after next
            simp only [ensures_tell]
            exact ih next
          · intro e after ends
            refine (ensures_pure _).mpr ⟨fun none => (Option.some_ne_none _ none).elim, fun stem failure same => ?_⟩
            cases same
            exact ends

def Plan.FailsAt (t : Transformer σ) (settings : Settings) (planned : Plan) (stem : String) (failure : Failure) : Prop :=
  ∃ loaded ∈ planned.toWeave settings, stem = loaded.stem ∧
    ∃ state, Fails loaded.module.name (weaveModule t settings.reflection planned.search loaded state) failure

theorem weave_all_stops {ε : Type} (t : Transformer σ) (settings : Settings) (planned : Plan) (progress : Progress σ) :
    (weaveAll t settings planned.search progress planned.processed : Task ε _).Ensures fs
      (fun answer _ => ∀ stem failure, answer.2 = some (stem, failure) → planned.FailsAt t settings stem failure)
      fun _ _ => False := by
  have woven : ∀ loaded ∈ planned.processed, ¬ settings.isGlue loaded.module.name = true →
      loaded ∈ planned.toWeave settings :=
    fun loaded member plain => List.mem_filter.mpr ⟨member, by simpa using plain⟩
  have stops : (weaveAll t settings planned.search progress planned.processed : Task ε _).Ensures fs _ _ :=
    weave_all_rule t settings planned.search
      (fun rest _ _ => ∀ loaded ∈ rest, loaded ∈ planned.processed)
      (fun _ stem failure _ => planned.FailsAt t settings stem failure)
      (fun loaded _ _ _ inside _ m member => inside m (List.mem_cons_of_mem loaded member))
      (fun loaded _ progress _ e inside plain result =>
        ⟨loaded, woven loaded (inside loaded List.mem_cons_self) plain, rfl, progress.state, .refused result⟩)
      (fun loaded _ progress _ inside plain result => by
        apply ensures_mono (write_unstaged progress.area loaded.fileName _ loaded.symbols _)
        · exact fun _ _ _ m member => inside m (List.mem_cons_of_mem loaded member)
        · exact fun _ _ unstaged => ⟨loaded, woven loaded (inside loaded List.mem_cons_self) plain, rfl, progress.state,
            .unstaged result unstaged⟩)
      planned.processed fun _ member => member
  exact ensures_mono stops (fun _ _ facts => facts.2) fun _ _ impossible => impossible

theorem run_ends {ε : Type} {t : Transformer σ} {settings : Settings} {request : Request} {state : σ} {planned : Plan}
    {area : StagingArea} (good : Progress σ → Option (String × Failure) → Prop)
    (ready : ((prepare settings request).run fs).result = .ok (planned, area))
    (weaves : (weaveAll t settings planned.search ⟨state, area, [], []⟩ planned.processed : Task ε _).Ensures
      ((prepare settings request).run fs).files (fun ended _ => good ended.1 ended.2) fun _ _ => False) :
    (run t settings request state : Task ε _).Ensures fs
      (fun answer _ => ∃ progress stopped, answer.2 = progress.state ∧ good progress stopped ∧
        ∀ stem failure, answer.1 = .error (.batch stem failure) ↔ stopped = some (stem, failure))
      fun _ _ => False := by
  unfold run
  rw [ensures_bind, ensures_attempt]
  refine ⟨fun answer result => ?_, fun e failed => ?_⟩
  · cases ready.symm.trans result
    simp only [ensures_bind, ensures_tell]
    apply ensures_mono weaves
    · intro ended woven holds
      obtain ⟨progress, stopped⟩ := ended
      cases stopped with
      | none =>
          simp only [ensures_bind, ensures_attempt, ensures_pure]
          apply ensures_mono (commit_plain settings request progress)
          · refine fun report _ _ => ⟨progress, none, rfl, holds, fun stem failure => ?_⟩
            simp only [reduceCtorEq]
          · intro e _ plain
            refine ⟨progress, none, rfl, holds, fun stem failure => ?_⟩
            exact iff_of_false (fun same => plain stem failure (Except.error.inj same)) (Option.some_ne_none _).symm
      | some first =>
          have named : ∀ stem failure, (Except.error (.batch first.1 first.2) : Except Failure Report) =
              .error (.batch stem failure) ↔ some first = some (stem, failure) := by
            intro stem failure
            simp only [Except.error.injEq, Failure.batch.injEq, Option.some.injEq, Prod.ext_iff]
          simp only [ensures_bind, ensures_pure, abandon, ensures_remove_tree]
          cases (woven.removeTree progress.area.dir).1 with
          | ok _ => exact (ensures_tell _).mpr ⟨progress, some first, rfl, holds, named⟩
          | error _ => exact (ensures_tell _).mpr ⟨progress, some first, rfl, holds, named⟩
    · exact fun _ _ impossible => impossible
  · cases ready.symm.trans failed

theorem run_stops {ε : Type} (t : Transformer σ) (settings : Settings) (request : Request) (state : σ) :
    (run t settings request state : Task ε _).Ensures fs
      (fun answer _ => ∀ stem failure, answer.1 = .error (.batch stem failure) →
        ∃ planned, ((plan request.references request.targets settings.readSymbols).run fs).result = .ok planned ∧
          planned.FailsAt t settings stem failure)
      fun _ _ => False := by
  cases ready : ((prepare settings request).run fs).result with
  | ok answer =>
      obtain ⟨planned, area⟩ := answer
      obtain ⟨_, planning, _⟩ := (prepare_answers settings request).done _ ready
      let fails : Progress σ → Option (String × Failure) → Prop := fun _ stopped =>
        ∀ stem failure, stopped = some (stem, failure) → planned.FailsAt t settings stem failure
      apply ensures_mono (run_ends fails ready (weave_all_stops t settings planned ⟨state, area, [], []⟩))
      · rintro answer _ ⟨_, _, _, fails, named⟩ stem failure failed
        exact ⟨planned, planning, fails stem failure ((named stem failure).mp failed)⟩
      · exact fun _ _ impossible => impossible
  | error e =>
      unfold run
      rw [ensures_bind, ensures_attempt]
      refine ⟨fun answer result => ?_, fun e failed => (ensures_pure _).mpr fun stem failure same => ?_⟩
      · cases ready.symm.trans result
      · exact ((prepare_plain settings request).failed e failed stem failure (Except.error.inj same)).elim

end Batch

end Loom
