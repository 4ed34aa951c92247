import Loom.Proofs.Batch.Stopping
import Loom.Proofs.Sessions

set_option autoImplicit false

namespace Loom

namespace Batch

open Loom.Task Loom.Transformer StagingArea

variable {σ τ : Type}

def Progress.map (f : τ → σ) (progress : Progress τ) : Progress σ :=
  ⟨f progress.state, progress.area, progress.woven, progress.skipped⟩

section Follows

variable {f : τ → σ} {t' : Transformer τ} {t : Transformer σ} (follows : Transformer.Follows f t' t)

include follows

theorem weave_module_follows (names : ReflectionNames) (search : SearchPath) (loaded : LoadedModule) (state : τ) :
    (weaveModule t' names search loaded state).map f = weaveModule t names search loaded (f state) :=
  Transformer.weave_calls_follows follows _ state _ _

theorem weave_all_follows {ε : Type} (settings : Settings) (search : SearchPath) (progress : Progress τ)
    (modules : List LoadedModule) :
    (fun ended : Progress τ × Option (String × Failure) => (ended.1.map f, ended.2)) <$>
        (weaveAll t' settings search progress modules : Task ε _) =
      weaveAll t settings search (progress.map f) modules := by
  induction modules generalizing progress with
  | nil => rfl
  | cons loaded rest ih =>
      rw [weaveAll, weaveAll]
      split
      · rw [map_bind]
        exact congrArg _ (funext fun _ => ih _)
      · rw [map_bind]
        refine congrArg _ (funext fun _ => ?_)
        have same := weave_module_follows follows settings.reflection search loaded progress.state
        simp only [Progress.map, ← same, Woven.map]
        cases (weaveModule t' settings.reflection search loaded progress.state).result with
        | error e => rfl
        | ok _ =>
            simp only [map_bind]
            refine congrArg _ (funext fun answer => ?_)
            cases answer with
            | error e => rfl
            | ok staged =>
                dsimp only
                rw [map_bind]
                exact congrArg _ (funext fun _ => ih _)

theorem run_follows {ε : Type} (settings : Settings) (request : Request) (state : τ) :
    (fun ended : Except Failure Report × τ => (ended.1, f ended.2)) <$> (run t' settings request state : Task ε _) =
      run t settings request (f state) := by
  rw [run, run, map_bind]
  refine congrArg _ (funext fun prepared => ?_)
  cases prepared with
  | error e => rfl
  | ok answer =>
      have woven := weave_all_follows (ε := ε) follows settings answer.1.search ⟨state, answer.2, [], []⟩
        answer.1.processed
      dsimp only [Progress.map] at woven ⊢
      rw [map_bind, ← woven, bind_map_left]
      refine congrArg _ (funext fun ended => ?_)
      obtain ⟨progress, stopped⟩ := ended
      dsimp only
      rw [map_bind]
      refine congrArg _ (funext fun _ => ?_)
      cases stopped with
      | none =>
          dsimp only
          rw [map_bind]
          rfl
      | some first =>
          dsimp only
          rw [map_bind]
          rfl

end Follows

structure Visit (σ : Type) where
  source : LoadedModule
  asked : List (Asked σ)

structure Standing (σ : Type) where
  state : σ
  area : StagingArea
  files : FileSystem

section Course

variable (t : Transformer σ) (settings : Settings) (search : SearchPath)

def stepsOf (loaded : LoadedModule) : List Call := (loaded.module.classify settings.reflection).2.steps

def opening (loaded : LoadedModule) : Draft :=
  ⟨(loaded.module.classify settings.reflection).1,
    { assemblyName := loaded.module.name, references := search.references }⟩

namespace Visit

def after (state : σ) (v : Visit σ) : Woven σ := t.left state (opening settings search v.source) v.asked

def Proper (state : σ) (v : Visit σ) : Prop :=
  t.Session ⟨search, v.source.symbols⟩ (stepsOf settings v.source) state (opening settings search v.source) v.asked

end Visit

inductive Reached (start : Standing σ) : List (Visit σ) → Standing σ → Prop
  | start : Reached start [] start
  | staged {visits : List (Visit σ)} {s : Standing σ} {v : Visit σ} {answer : StagedModule × StagingArea}
      (before : Reached start visits s) (proper : v.Proper t settings search s.state)
      (done : (v.after t settings search s.state).result = .ok ())
      (stands : ((stage s.area v.source (v.after t settings search s.state).draft).run s.files).result = .ok answer) :
      Reached start (visits ++ [v]) ⟨(v.after t settings search s.state).state, answer.2,
        ((stage s.area v.source (v.after t settings search s.state).draft).run s.files).files⟩

-- All modules of a plan are staged, or the last one that is visited fails.
inductive Course (planned : Plan) (start : Standing σ) : List (Visit σ) → σ → Option (String × Failure) → Prop
  | finished {visits : List (Visit σ)} {s : Standing σ} (reached : Reached t settings planned.search start visits s)
      (all : visits.map Visit.source = planned.toWeave settings) : Course planned start visits s.state none
  | stopped {before : List (Visit σ)} {s : Standing σ} {v : Visit σ} {failure : Failure}
      (reached : Reached t settings planned.search start before s) (proper : v.Proper t settings planned.search s.state)
      (sources : (before ++ [v]).map Visit.source <+: planned.toWeave settings)
      (fails : Fails v.source.module.name (v.after t settings planned.search s.state) failure)
      (unstaged : (v.after t settings planned.search s.state).result = .ok () →
        ((stage s.area v.source (v.after t settings planned.search s.state).draft).run s.files).result = .error failure) :
      Course planned start (before ++ [v]) (v.after t settings planned.search s.state).state
        (some (v.source.stem, failure))

theorem weave_module_recorded (loaded : LoadedModule) (state : σ) (log : List (Asked σ)) :
    ∃ asked, let v : Visit σ := ⟨loaded, asked⟩
      v.Proper t settings search state ∧ weaveModule t.recorded settings.reflection search loaded (state, log) =
        ⟨((v.after t settings search state).state, log ++ asked), (v.after t settings search state).draft,
          (v.after t settings search state).result⟩ := by
  obtain ⟨asked, session, woven, logged⟩ := weave_calls_recorded (t := t) ⟨search, loaded.symbols⟩ state
    (opening settings search loaded) log (loaded.module.classify settings.reflection).2.calls
  rw [Categorized.calls_eq_steps] at session
  let after := Visit.after t settings search state ⟨loaded, asked⟩
  let noted := weaveModule t.recorded settings.reflection search loaded (state, log)
  have same : noted.map Prod.fst = after :=
    (weave_module_follows t.recorded_follows settings.reflection search loaded (state, log)).trans woven
  have states : noted.state = (after.state, log ++ asked) := logged
  have draft : noted.draft = after.draft := congrArg Woven.draft same
  have result : noted.result = after.result := congrArg Woven.result same
  refine ⟨asked, session, ?_⟩
  change noted = _
  calc noted = ⟨noted.state, noted.draft, noted.result⟩ := rfl
    _ = _ := by rw [states, draft, result]

variable {t settings search}

theorem Reached.visited {start s : Standing σ} {visits : List (Visit σ)}
    (reached : Reached t settings search start visits s) :
    ∀ v ∈ visits, ∃ state, v.Proper t settings search state ∧ (v.after t settings search state).result = .ok () := by
  induction reached with
  | start => exact List.forall_mem_nil _
  | staged _ proper done _ ih =>
      rw [List.forall_mem_append, List.forall_mem_singleton]
      exact ⟨ih, _, proper, done⟩

theorem weave_all_course {ε : Type} (t : Transformer σ) (settings : Settings) (planned : Plan) (start : Standing σ) :
    (weaveAll t.recorded settings planned.search ⟨(start.state, []), start.area, [], []⟩ planned.processed : Task ε _).Ensures
      start.files
      (fun ended _ => ∃ visits, ended.1.state.2 = visits.flatMap Visit.asked ∧
        Course t settings planned start visits ended.1.state.1 ended.2)
      fun _ _ => False := by
  let ahead (rest : List LoadedModule) := rest.filter fun loaded => !settings.isGlue loaded.module.name
  let stopped (progress : Progress (σ × List (Asked σ))) (stem : String) (failure : Failure) (_ : FileSystem) :=
    ∃ visits, progress.state.2 = visits.flatMap Visit.asked ∧
      Course t settings planned start visits progress.state.1 (some (stem, failure))
  have logs : ∀ (visits : List (Visit σ)) (v : Visit σ),
      visits.flatMap Visit.asked ++ v.asked = (visits ++ [v]).flatMap Visit.asked := by
    intro visits v
    rw [List.flatMap_append, List.flatMap_singleton]
  -- A visit moves a module from those that are ahead to those that were visited.
  have moves : ∀ (visits : List (Visit σ)) (v : Visit σ) (rest : List LoadedModule),
      ¬ settings.isGlue v.source.module.name = true →
      visits.map Visit.source ++ ahead (v.source :: rest) = (visits ++ [v]).map Visit.source ++ ahead rest := by
    intro visits v rest plain
    rw [List.map_append, List.append_assoc]
    exact congrArg _ (List.filter_cons_of_pos (by simpa using plain))
  have rule : (weaveAll t.recorded settings planned.search ⟨(start.state, []), start.area, [], []⟩ planned.processed :
      Task ε _).Ensures start.files _ _ := weave_all_rule t.recorded settings planned.search
    (fun rest progress files => ∃ visits, progress.state.2 = visits.flatMap Visit.asked ∧
      Reached t settings planned.search start visits ⟨progress.state.1, progress.area, files⟩ ∧
      visits.map Visit.source ++ ahead rest = planned.toWeave settings) stopped
    ?glue ?failed ?staged planned.processed ⟨[], rfl, .start, rfl⟩
  · apply ensures_mono rule
    · intro ended files facts
      cases end' : ended.2 with
      | none =>
          obtain ⟨visits, logged, reached, split⟩ := facts.1 end'
          exact ⟨visits, logged, .finished reached (by simpa [ahead] using split)⟩
      | some first => exact facts.2 first.1 first.2 end'
    · exact fun _ _ impossible => impossible
  case glue =>
    intro loaded rest progress fs kept glue
    obtain ⟨visits, logged, reached, split⟩ := kept
    refine ⟨visits, logged, reached, ?_⟩
    rwa [show ahead (loaded :: rest) = ahead rest from List.filter_cons_of_neg (by simpa using glue)] at split
  case failed =>
    intro loaded rest progress fs e kept plain failed
    obtain ⟨visits, logged, reached, split⟩ := kept
    obtain ⟨asked, proper, woven⟩ :=
      weave_module_recorded t settings planned.search loaded progress.state.1 progress.state.2
    rw [woven] at failed ⊢
    rw [logged]
    refine ⟨visits ++ [⟨loaded, asked⟩], logs visits ⟨loaded, asked⟩, .stopped reached proper ?_ (.refused failed) ?_⟩
    · rw [← split, moves visits ⟨loaded, asked⟩ rest plain]
      exact List.prefix_append _ _
    · intro done
      cases failed.symm.trans done
  case staged =>
    intro loaded rest progress fs kept plain woven done
    obtain ⟨visits, logged, reached, split⟩ := kept
    obtain ⟨asked, proper, recorded⟩ :=
      weave_module_recorded t settings planned.search loaded progress.state.1 progress.state.2
    have noted : woven = _ := recorded
    rw [moves visits ⟨loaded, asked⟩ rest plain] at split
    rw [noted] at done ⊢
    rw [logged]
    refine ⟨fun answer stands => ?_, fun failure unstaged => ?_⟩
    · exact ⟨visits ++ [⟨loaded, asked⟩], logs visits ⟨loaded, asked⟩, .staged reached proper done stands, split⟩
    · have reason := (write_unstaged progress.area loaded.fileName _ loaded.symbols _).failed failure unstaged
      refine ⟨visits ++ [⟨loaded, asked⟩], logs visits ⟨loaded, asked⟩,
        .stopped reached proper ?_ (.unstaged done reason) fun _ => unstaged⟩
      rw [← split]
      exact List.prefix_append _ _

theorem Reached.calls {start s : Standing σ} {visits : List (Visit σ)}
    (reached : Reached t settings search start visits s) :
    (visits.flatMap Visit.asked).map Asked.call = (visits.map Visit.source).flatMap (stepsOf settings) := by
  rw [List.map_flatMap, List.flatMap_map]
  apply List.flatMap_congr
  intro v member
  obtain ⟨_, proper, done⟩ := reached.visited v member
  exact proper.complete done

theorem Reached.answered {start s : Standing σ} {visits : List (Visit σ)}
    (reached : Reached t settings search start visits s) :
    ∀ a ∈ visits.flatMap Visit.asked, (t.answer a).result = .ok () := by
  intro a member
  obtain ⟨v, inside, asked⟩ := List.mem_flatMap.mp member
  obtain ⟨_, proper, done⟩ := reached.visited v inside
  exact proper.answered done a asked

inductive Visit.Ends (t : Transformer σ) (settings : Settings) (v : Visit σ) : Failure → Prop
  | refused {a : Asked σ} {e : TransformError} (last : v.asked.getLast? = some a)
      (failed : (t.answer a).result = .error e) : Ends t settings v (.transform v.source.module.name e)
  | unstaged {m : Module} {failure : Failure} (calls : v.asked.map Asked.call = stepsOf settings v.source)
      (answered : ∀ a ∈ v.asked, (t.answer a).result = .ok ()) (unstaged : Unstaged m failure) : Ends t settings v failure

theorem ends_of_fails {state : σ} {v : Visit σ} {failure : Failure} (proper : v.Proper t settings search state)
    (fails : Fails v.source.module.name (v.after t settings search state) failure) : v.Ends t settings failure := by
  cases fails with
  | refused failed =>
      cases ends : v.asked.getLast? with
      | none =>
          rw [Visit.after, left, ends] at failed
          cases failed
      | some last =>
          rw [Visit.after, left, ends] at failed
          exact .refused ends failed
  | unstaged done unstaged => exact .unstaged (proper.complete done) (proper.answered done) unstaged

structure FailFast (t : Transformer σ) (settings : Settings) (planned : Plan) (visits : List (Visit σ))
    (stopped : Option (String × Failure)) : Prop where
  calls : (visits.flatMap Visit.asked).map Asked.call <+: (planned.toWeave settings).flatMap (stepsOf settings)
  answered : ∀ a ∈ (visits.flatMap Visit.asked).dropLast, (t.answer a).result = .ok ()
  ends : ∀ stem failure, stopped = some (stem, failure) →
    ∃ v, visits.getLast? = some v ∧ v.source.stem = stem ∧ v.Ends t settings failure
  finished : stopped = none →
    (visits.flatMap Visit.asked).map Asked.call = (planned.toWeave settings).flatMap (stepsOf settings)
  complete : (visits.flatMap Visit.asked).map Asked.call = (planned.toWeave settings).flatMap (stepsOf settings) ↔
    (∀ v ∈ visits, v.asked.map Asked.call = stepsOf settings v.source) ∧
      ∀ loaded ∈ (planned.toWeave settings).drop visits.length, stepsOf settings loaded = []

theorem eq_append_iff_of_prefix {α : Type} {own part rest : List α} (within : own <+: part) :
    own = part ++ rest ↔ own = part ∧ rest = [] := by
  obtain ⟨missing, rfl⟩ := within
  rw [List.append_assoc, List.self_eq_append_right, List.self_eq_append_right, List.append_eq_nil_iff]

theorem fail_fast_finished {planned : Plan} {start s : Standing σ} {visits : List (Visit σ)}
    (reached : Reached t settings planned.search start visits s)
    (all : visits.map Visit.source = planned.toWeave settings) : FailFast t settings planned visits none := by
  have calls := reached.calls
  rw [all] at calls
  refine ⟨calls ▸ List.prefix_rfl, fun a member => reached.answered a (List.mem_of_mem_dropLast member), nofun,
    fun _ => calls, fun _ => ⟨fun v member => ?_, ?_⟩, fun _ => calls⟩
  · obtain ⟨_, proper, done⟩ := reached.visited v member
    exact proper.complete done
  · rw [← all, List.drop_eq_nil_of_le (by rw [List.length_map])]
    exact List.forall_mem_nil _

theorem fail_fast_stopped {planned : Plan} {start s : Standing σ} {before : List (Visit σ)} {v : Visit σ}
    {failure : Failure} (reached : Reached t settings planned.search start before s)
    (proper : v.Proper t settings planned.search s.state)
    (sources : (before ++ [v]).map Visit.source <+: planned.toWeave settings)
    (fails : Fails v.source.module.name (v.after t settings planned.search s.state) failure) :
    FailFast t settings planned (before ++ [v]) (some (v.source.stem, failure)) := by
  obtain ⟨later, split⟩ := sources
  let earlier := (before.map Visit.source).flatMap (stepsOf settings)
  have calls : ((before ++ [v]).flatMap Visit.asked).map Asked.call = earlier ++ v.asked.map Asked.call := by
    rw [List.flatMap_append, List.flatMap_singleton, List.map_append, reached.calls]
  have whole : (planned.toWeave settings).flatMap (stepsOf settings) =
      earlier ++ (stepsOf settings v.source ++ later.flatMap (stepsOf settings)) := by
    rw [← split, List.map_append, List.map_singleton, List.flatMap_append, List.flatMap_append, List.flatMap_singleton,
      List.append_assoc]
  have ahead : (planned.toWeave settings).drop (before ++ [v]).length = later := by
    rw [← split]
    exact List.drop_left' (List.length_map _)
  refine ⟨?_, ?_, ?_, nofun, ?_⟩
  · rw [calls, whole]
    exact (List.prefix_append_right_inj earlier).mpr (proper.calls.trans (List.prefix_append _ _))
  · rw [List.flatMap_append, List.flatMap_singleton]
    intro a member
    rcases List.mem_append.mp (List.mem_of_mem_dropLast member) with past | own
    · exact reached.answered a past
    · rw [List.dropLast_append_of_ne_nil (List.ne_nil_of_mem own)] at member
      rcases List.mem_append.mp member with past | own
      · exact reached.answered a past
      · exact answered_of_leads proper.next a own
  · intro stem failure' same
    cases same
    exact ⟨v, List.getLast?_concat, rfl, ends_of_fails proper fails⟩
  · rw [calls, whole, ahead, List.append_cancel_left_eq, eq_append_iff_of_prefix proper.calls, List.flatMap_eq_nil_iff,
      List.forall_mem_append, List.forall_mem_singleton]
    refine and_congr_left fun _ => (and_iff_right fun u member => ?_).symm
    obtain ⟨_, own, done⟩ := reached.visited u member
    exact own.complete done

theorem fail_fast_of_course {planned : Plan} {start : Standing σ} {visits : List (Visit σ)} {last : σ}
    {stopped : Option (String × Failure)} (course : Course t settings planned start visits last stopped) :
    FailFast t settings planned visits stopped := by
  cases course with
  | finished reached all => exact fail_fast_finished reached all
  | stopped reached proper sources fails _ => exact fail_fast_stopped reached proper sources fails

theorem run_course {ε : Type} (t : Transformer σ) (settings : Settings) (request : Request) (state : σ)
    {fs : FileSystem} {planned : Plan} {area : StagingArea}
    (ready : ((prepare settings request).run fs).result = .ok (planned, area)) :
    (run t.recorded settings request (state, []) : Task ε _).Ensures fs
      (fun ended _ => ∃ visits stopped, ended.2.2 = visits.flatMap Visit.asked ∧
        Course t settings planned ⟨state, area, ((prepare settings request).run fs).files⟩ visits ended.2.1 stopped ∧
        ∀ stem failure, ended.1 = .error (.batch stem failure) ↔ stopped = some (stem, failure))
      fun _ _ => False := by
  let start : Standing σ := ⟨state, area, ((prepare settings request).run fs).files⟩
  let good : Progress (σ × List (Asked σ)) → Option (String × Failure) → Prop := fun progress stopped =>
    ∃ visits, progress.state.2 = visits.flatMap Visit.asked ∧
      Course t settings planned start visits progress.state.1 stopped
  apply ensures_mono (run_ends good ready (weave_all_course t settings planned start))
  · rintro ended _ ⟨progress, stopped, same, ⟨visits, logged, course⟩, named⟩
    rw [same]
    exact ⟨visits, stopped, logged, course, named⟩
  · exact fun _ _ impossible => impossible

/-- The calls that a record shows are those for the steps of one module after another, up to the first module that
fails. -/
theorem calls_fail_fast {ε : Type} (t : Transformer σ) (settings : Settings) (request : Request) (state : σ)
    (fs : FileSystem) {planned : Plan} {area : StagingArea}
    (ready : ((prepare settings request).run fs).result = .ok (planned, area)) :
    let plain := (run t settings request state : Task ε _).run fs
    let noted := (run t.recorded settings request (state, []) : Task ε _).run fs
    ∃ answer last visits stopped, plain.result = .ok (answer, last) ∧
      noted.result = .ok (answer, last, visits.flatMap Visit.asked) ∧
      noted.files = plain.files ∧ noted.events = plain.events ∧
      Course t settings planned ⟨state, area, ((prepare settings request).run fs).files⟩ visits last stopped ∧
      FailFast t settings planned visits stopped ∧
      ∀ stem failure, answer = .error (.batch stem failure) ↔ stopped = some (stem, failure) := by
  intro plain noted
  obtain ⟨⟨answer, last, log⟩, result, visits, stopped, logged, course, answered⟩ :=
    (run_course (ε := ε) t settings request state ready).succeeds
  dsimp only at logged course answered
  rw [logged] at result
  have same : plain = (_ <$> (run t.recorded settings request (state, []) : Task ε _)).run fs :=
    congrArg (Task.run · fs) (run_follows t.recorded_follows settings request (state, [])).symm
  rw [run_map] at same
  refine ⟨answer, last, visits, stopped, ?_, result, ?_, ?_, course, fail_fast_of_course course, answered⟩
  · rw [same, result]
    rfl
  · rw [same]
  · rw [same]

-- Core has a struct and Game has a class. A transformer that refuses classes is called for both in turn, and sees for
-- the second what it was left with by the first.
theorem class_refused_after_struct :
    let core : Module := ⟨Module.magicNumber, 1, 0, ⟨"Core", "1"⟩, [],
      [⟨"", "Hp", .valueType, none, ["H"], []⟩], [], none⟩
    let game : Module := ⟨Module.magicNumber, 1, 0, ⟨"Game", "1"⟩, [],
      [⟨"", "Foe", .classType, none, ["H"], []⟩], [], none⟩
    let fs := (((⟨[], []⟩ : FileSystem).write "Game.wbc" game.encode).2.write "Core.wbc" core.encode).2
    let settings : Settings := { reflection := { classAttribute := "H", structAttribute := "H" } }
    let request : Request := ⟨[], ["Core.wbc", "Game.wbc"], "out"⟩
    let t : Transformer Nat := ⟨fun _ call n d =>
      ⟨n + 1, d, match call with | .classes _ => .error (.failed "class") | _ => .ok ()⟩⟩
    let planned : Plan := ⟨{}, [⟨core, "Core.wbc", none, []⟩, ⟨game, "Game.wbc", none, []⟩], [0, 1]⟩
    let area : StagingArea := ⟨"out/.weft-staging", .pretty, []⟩
    let failure : Failure := .transform "Game" (.failed "class")
    ((prepare settings request).run fs).result = .ok (planned, area) ∧
      ∃ visits, ((run t.recorded settings request (0, []) : Task Failure _).run fs).result =
          .ok (.error (.batch "Game" failure), 2, visits.flatMap Visit.asked) ∧
        (visits.flatMap Visit.asked).map (fun a => (a.call, a.state)) = [(.structs [0], 0), (.classes [0], 1)] ∧
        Course t settings planned ⟨0, area, ((prepare settings request).run fs).files⟩ visits 2 (some ("Game", failure)) ∧
        FailFast t settings planned visits (some ("Game", failure)) := by
  intro core game fs settings request t planned area failure
  have ready : ((prepare settings request).run fs).result = .ok (planned, area) := by decide +kernel
  have calls : (((run t.recorded settings request (0, []) : Task Failure _).run fs).result.map fun ended =>
      (ended.1, ended.2.1, ended.2.2.map fun a => (a.call, a.state))) =
        .ok (.error (.batch "Game" failure), 2, [(.structs [0], 0), (.classes [0], 1)]) := by decide +kernel
  obtain ⟨answer, last, visits, stopped, _, noted, _, _, course, failFast, answered⟩ :=
    calls_fail_fast (ε := Failure) t settings request 0 fs ready
  rw [noted] at calls
  simp only [Except.map, Except.ok.injEq, Prod.mk.injEq] at calls
  obtain ⟨rfl, rfl, listed⟩ := calls
  cases (answered "Game" failure).mp rfl
  exact ⟨ready, visits, noted, listed, course, failFast⟩

/-- A transformer that refuses the one class of a batch has been called for all there is, and still the batch fails.
-/
theorem calls_complete_in_failing_batch :
    let game : Module := ⟨Module.magicNumber, 1, 0, ⟨"Game", "1"⟩, [],
      [⟨"", "Foe", .classType, none, ["H"], []⟩], [], none⟩
    let fs := ((⟨[], []⟩ : FileSystem).write "Game.wbc" game.encode).2
    let settings : Settings := { reflection := { classAttribute := "H" } }
    let request : Request := ⟨[], ["Game.wbc"], "out"⟩
    let t : Transformer Unit := ⟨fun _ _ _ d => ⟨(), d, .error (.failed "class")⟩⟩
    ¬ ∀ planned area answer log, ((prepare settings request).run fs).result = .ok (planned, area) →
      ((run t.recorded settings request ((), []) : Task Failure _).run fs).result = .ok (answer, (), log) →
      (log.map Asked.call = (planned.toWeave settings).flatMap (stepsOf settings) ↔
        ∀ stem failure, answer ≠ .error (.batch stem failure)) := by
  intro game fs settings request t claim
  let planned : Plan := ⟨{}, [⟨game, "Game.wbc", none, []⟩], [0]⟩
  let failure : Failure := .batch "Game" (.transform "Game" (.failed "class"))
  have ready : ((prepare settings request).run fs).result = .ok (planned, ⟨"out/.weft-staging", .pretty, []⟩) := by
    decide +kernel
  have calls : (((run t.recorded settings request ((), []) : Task Failure _).run fs).result.map fun ended =>
      (ended.1, ended.2.2.map Asked.call)) = .ok (.error failure, [.classes [0]]) := by decide +kernel
  have whole : (planned.toWeave settings).flatMap (stepsOf settings) = [.classes [0]] := by decide +kernel
  cases noted : ((run t.recorded settings request ((), []) : Task Failure _).run fs).result with
  | error e => simp [noted, Except.map] at calls
  | ok ended =>
      rw [noted] at calls
      obtain ⟨answer, _, log⟩ := ended
      obtain ⟨rfl, complete⟩ : answer = .error failure ∧ log.map Asked.call = [.classes [0]] := by
        simpa [Except.map] using calls
      exact (claim planned _ _ log ready noted).mp (complete.trans whole.symm) _ _ rfl

end Course

end Batch

end Loom
