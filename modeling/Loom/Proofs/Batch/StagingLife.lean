import Loom.Proofs.Acceptance
import Loom.Proofs.Batch.Confinement
import Loom.Proofs.Batch.Outputs
import Loom.Proofs.Json.Records
import Loom.Proofs.Verification

set_option autoImplicit false

/-! A call that fails leaves the list of staged files alone, though it may have written some of its files. -/
namespace Loom

open Loom.Task Loom.FileSystem Loom.Path

namespace StagingArea

section Legal

variable {fs : FileSystem}

theorem legal_of_written {p : Path} {content : Bytes} (done : (fs.write p content).1 = .ok ()) : Legal p := by
  rcases write_cases fs p content with ⟨e, failed⟩ | ⟨_, reaches, _⟩
  · rw [failed] at done
    cases done
  · exact reaches.legal

theorem write_file_legal (p : Path) (content : Bytes) (explain : IoError → Failure) :
    (writeFile p content explain).Ensures fs (fun _ _ => Legal p) fun _ _ => True :=
  (ensures_write_file p content explain).mpr ⟨fun _ => legal_of_written, fun _ _ => trivial⟩

theorem write_symbols_legal (modulePath : Path) (symbols : Option SymbolTable) :
    (writeSymbols modulePath symbols).Ensures fs (fun path _ => ∀ p ∈ path.toList, Legal p) fun _ _ => True := by
  cases symbols with
  | none => exact (ensures_pure _).mpr (List.forall_mem_nil _)
  | some table =>
      apply ensures_then (write_file_legal _ _ _)
      exact fun _ _ legal => (ensures_pure _).mpr (List.forall_mem_singleton.mpr legal)

theorem report_staged_ensures {ε : Type} {bad : ε → FileSystem → Prop} (paths : List Path) :
    (reportStaged paths : Task ε Unit).Ensures fs (fun _ _ => True) bad := by
  induction paths with
  | nil => exact (ensures_pure _).mpr trivial
  | cons path rest ih => exact (ensures_report _ _).mpr ih

theorem write_legal (area : StagingArea) (fileName : String) (module : Module) (symbols : Option SymbolTable)
    (metadata : ApiMetadata) :
    (area.write fileName module symbols metadata).Ensures fs
      (fun answer _ => ∀ path ∈ answer.1.paths, Legal path) fun _ _ => True := by
  have verified : (orFail (Failure.verify module.name) module.verify).Ensures fs (fun _ _ => True) fun _ _ => True :=
    (ensures_or_fail _ _).mpr ⟨fun _ _ => trivial, fun _ _ => trivial⟩
  apply ensures_then verified
  intro _ _ _
  apply ensures_then (write_file_legal _ _ _)
  intro _ _ first
  apply ensures_then (write_symbols_legal _ _)
  intro path _ beside
  apply ensures_then (write_file_legal _ _ _)
  intro _ _ record
  apply ensures_then (report_staged_ensures _)
  exact fun _ _ _ => (ensures_pure _).mpr (List.forall_mem_cons.mpr ⟨first, List.forall_mem_cons.mpr ⟨record, beside⟩⟩)

end Legal

def Among (d : Location) (names : List (List Char)) (deed : Deed) : Prop :=
  ∀ l, deed.Touches l → ∃ n ∈ names, l = d ++ [n]

section Among

variable {fs now : FileSystem} {names : List (List Char)} {d : Path}

theorem write_among (tree : now.IsTree) (here : now.here = fs.here) {n : List Char} (member : n ∈ names)
    (shaped : n = ['.', '.'] ∨ IsName n) (content : Bytes) :
    Among (fs.place d) names (.write now (d.join n) content) := by
  intro l touches
  obtain ⟨same, done⟩ := Deed.write_touches tree touches
  rcases shaped with dots | own
  · obtain ⟨e, failed⟩ := write_parent_fails tree d content
    rw [dots, failed] at done
    cases done
  · exact ⟨n, member, by rw [same, place_join now d own, place_congr here]⟩

theorem write_symbols_among (tree : now.IsTree) (here : now.here = fs.here) {name : List Char} (named : IsName name)
    (symbols : Option SymbolTable) :
    (writeSymbols (d.join name) symbols).Within (Among (fs.place d) (namesOf name symbols)) now := by
  cases symbols with
  | none => exact within_pure _
  | some table =>
      unfold writeSymbols
      rw [symbol_path_join _ named]
      refine within_then tree ((within_write_file _ _ _).mpr ?_) fun _ _ _ _ => within_pure _
      refine write_among tree here ?_ (extended_cases named (by decide) (by decide)) _
      exact List.mem_cons_of_mem _ (List.mem_cons_of_mem _ (List.mem_singleton_self _))

theorem write_within (tree : fs.IsTree) (area : StagingArea) {fileName : String} (named : IsName fileName.toList)
    (module : Module) (symbols : Option SymbolTable) (metadata : ApiMetadata) :
    (area.write fileName module symbols metadata).Within
      (Among (fs.place area.dir) (namesOf fileName.toList symbols)) fs := by
  unfold StagingArea.write
  refine within_then tree (within_or_fail _ _) fun _ _ tree here => ?_
  refine within_then tree ((within_write_file _ _ _).mpr ?_) fun _ _ tree same => ?_
  · exact write_among tree here List.mem_cons_self (.inr named) _
  replace here := same.trans here
  refine within_then tree (write_symbols_among tree here named symbols) fun _ _ tree same => ?_
  replace here := same.trans here
  refine within_then tree ((within_write_file _ _ _).mpr ?_) fun _ _ tree _ => ?_
  · rw [metadata_path_join _ named]
    refine write_among tree here ?_ (extended_cases named (by decide) (by decide)) _
    exact List.mem_cons_of_mem _ List.mem_cons_self
  · exact within_then tree ((still_report_staged _).within _ _) fun _ _ _ _ => within_pure _

end Among

structure Call where
  fileName : String
  module : Module
  symbols : Option SymbolTable
  metadata : ApiMetadata

namespace Call

def name (call : Call) : List Char := call.fileName.toList

def task (call : Call) (area : StagingArea) : Task Failure (StagedModule × StagingArea) :=
  area.write call.fileName call.module call.symbols call.metadata

def files (call : Call) (layout : Json.Layout) : List (List Char × Bytes) :=
  filesOf call.name call.module call.symbols (call.metadata.toText layout)

structure Fits (call : Call) : Prop where
  named : IsName call.name
  unlike : ¬ '.' :: SymbolTable.fileExtension <:+ call.name
  module : call.module.LengthsFit
  symbols : ∀ table ∈ call.symbols, table.Fits

end Call

structure State where
  area : StagingArea
  files : FileSystem

namespace State

def answer (s : State) (call : Call) : Except Failure StagedModule :=
  ((call.task s.area).run s.files).result.map Prod.fst

def step (s : State) (call : Call) : State :=
  match ((call.task s.area).run s.files).result with
  | .ok (_, area) => ⟨area, ((call.task s.area).run s.files).files⟩
  | .error _ => ⟨s.area, ((call.task s.area).run s.files).files⟩

def after (s : State) (calls : List Call) : State := calls.foldl step s

def accepted (s : State) : List Call → List StagedModule
  | [] => []
  | call :: rest =>
    match s.answer call with
    | .ok staged => staged :: (s.step call).accepted rest
    | .error _ => (s.step call).accepted rest

def Spares (s : State) (l : Location) : List Call → Prop
  | [] => True
  | call :: rest => ¬ (call.task s.area).Touches s.files l ∧ (s.step call).Spares l rest

theorem after_append (s : State) (calls more : List Call) : s.after (calls ++ more) = (s.after calls).after more :=
  List.foldl_append

theorem after_cons (s : State) (call : Call) (rest : List Call) : s.after (call :: rest) = (s.step call).after rest :=
  List.foldl_cons ..

theorem step_files (s : State) (call : Call) : (s.step call).files = ((call.task s.area).run s.files).files := by
  unfold step
  split <;> rfl

theorem spared_kept {l : Location} (calls : List Call) {s : State} (spares : s.Spares l calls) :
    (s.after calls).files.get? l = s.files.get? l := by
  induction calls generalizing s with
  | nil => rfl
  | cons call rest ih =>
      rw [after_cons, ih spares.2, step_files]
      exact get_of_untouched _ spares.1

theorem rejected (s : State) (call : Call) {e : VerifyError} (unsound : call.module.verify = .error e) :
    s.answer call = .error (.verify call.module.name e) ∧ s.step call = s := by
  have fails : (call.task s.area).run s.files = ⟨.error (.verify call.module.name e), s.files, []⟩ := by
    rw [Call.task, write, unsound]
    rfl
  rw [answer, step, fails]
  exact ⟨rfl, rfl⟩

structure Accepted (s : State) (call : Call) (staged : StagedModule) : Prop where
  paths : staged = pathsOf s.area.dir call.name call.symbols
  area : (s.step call).area = { s.area with staged := s.area.staged ++ staged.paths }
  sound : call.module.verify = .ok ()
  wrote : Wrote s.area.dir (call.files s.area.layout) s.files (s.step call).files
  legal : ∀ path ∈ staged.paths, Legal path

theorem accepted_of_answer {s : State} (tree : s.files.IsTree) {call : Call} (named : IsName call.name)
    {staged : StagedModule} (ok : s.answer call = .ok staged) : s.Accepted call staged := by
  have stages := write_stages tree s.area named call.module call.symbols call.metadata
  have legal := @write_legal s.files s.area call.fileName call.module call.symbols call.metadata
  unfold answer at ok
  cases result : ((call.task s.area).run s.files).result with
  | error e =>
      rw [result] at ok
      cases ok
  | ok answer =>
      obtain ⟨files, wrote, sound, same, whole⟩ := stages.done _ result
      have fits := legal.done _ result
      rw [whole] at fits
      rw [result, whole] at ok
      cases ok
      have area : (s.step call).area =
          { s.area with staged := s.area.staged ++ (pathsOf s.area.dir call.name call.symbols).paths } := by
        rw [step, result, whole]
        rfl
      refine ⟨rfl, area, sound, ?_, fits⟩
      rw [step_files, ← show files = call.files s.area.layout from same]
      exact wrote

theorem area_of_failed {s : State} {call : Call} {e : Failure} (failed : s.answer call = .error e) :
    (s.step call).area = s.area := by
  unfold answer at failed
  unfold step
  cases result : ((call.task s.area).run s.files).result with
  | ok answer =>
      rw [result] at failed
      cases failed
  | error e => rfl

theorem step_staged {s : State} (tree : s.files.IsTree) {call : Call} (named : IsName call.name) :
    Staged s.area.dir s.files (s.step call).files := by
  have stages := write_stages tree s.area named call.module call.symbols call.metadata
  rw [step_files]
  cases result : ((call.task s.area).run s.files).result with
  | ok answer =>
      obtain ⟨_, wrote, _⟩ := stages.done _ result
      exact wrote.staged
  | error e => exact stages.failed _ result

structure Running (o : Path) (name : List Char) (fs : FileSystem) (s : State) : Prop where
  underway : Batch.Underway o name fs s.area s.files
  legal : ∀ path ∈ s.area.staged, Legal path

section Running

variable {o : Path} {name : List Char} {fs : FileSystem} {s : State}

theorem Running.place (running : Running o name fs s) (proper : IsName name) :
    s.files.place s.area.dir = fs.place o ++ [name] := by
  rw [running.underway.dir, place_join _ o proper, place_congr running.underway.here]

theorem Running.step (running : Running o name fs s) {call : Call} (named : IsName call.name) :
    Running o name fs (s.step call) := by
  obtain ⟨prepared, opened, staged⟩ := running.underway.steps
  have dir := running.underway.dir
  have more := step_staged running.underway.tree named
  rw [dir] at more
  have steps : ∃ prepared, Opened o name fs prepared ∧ Staged (o.join name) prepared (s.step call).files :=
    ⟨prepared, opened, staged_trans staged more⟩
  cases result : s.answer call with
  | error e =>
      have same := area_of_failed result
      exact ⟨⟨steps, by rw [same, dir], by rw [same]; exact running.underway.staged⟩, by rw [same]; exact running.legal⟩
  | ok answer =>
      have accepted := accepted_of_answer running.underway.tree named result
      have inside : ∀ path ∈ answer.paths, StandsIn (o.join name) path := by
        intro path member
        rw [accepted.paths, dir] at member
        obtain ⟨file, listed, same⟩ := (mem_paths_of_iff _ named call.module _ (call.metadata.toText s.area.layout) path).mp member
        exact ⟨file.1, accepted.wrote.named file listed, same.symm⟩
      refine ⟨⟨steps, by rw [accepted.area]; exact dir, ?_⟩, ?_⟩
      · rw [accepted.area]
        exact List.forall_mem_append.mpr ⟨running.underway.staged, inside⟩
      · rw [accepted.area]
        exact List.forall_mem_append.mpr ⟨running.legal, accepted.legal⟩

theorem Running.after (running : Running o name fs s) (calls : List Call) (named : ∀ call ∈ calls, IsName call.name) :
    Running o name fs (s.after calls) := by
  induction calls generalizing s with
  | nil => exact running
  | cons call rest ih =>
      obtain ⟨first, later⟩ := List.forall_mem_cons.mp named
      rw [after_cons]
      exact ih (running.step first) later

theorem Running.area_after (running : Running o name fs s) (calls : List Call)
    (named : ∀ call ∈ calls, IsName call.name) :
    (s.after calls).area =
      { s.area with staged := s.area.staged ++ (s.accepted calls).flatMap StagedModule.paths } := by
  induction calls generalizing s with
  | nil =>
      rw [accepted, List.flatMap_nil, List.append_nil]
      rfl
  | cons call rest ih =>
      obtain ⟨first, later⟩ := List.forall_mem_cons.mp named
      have next := ih (running.step first) later
      rw [after_cons, accepted]
      cases result : s.answer call with
      | error e =>
          rw [area_of_failed result] at next
          exact next
      | ok staged =>
          rw [(accepted_of_answer running.underway.tree first result).area] at next
          dsimp only at next ⊢
          rw [next, List.flatMap_cons, List.append_assoc]

theorem Running.way (running : Running o name fs s) (proper : IsName name) :
    ∀ d ∈ s.files.way s.area.dir, s.files.get? d = some .directory := by
  have stands := running.underway.stands proper
  rw [← running.place proper] at stands
  have reaches := running.underway.reaches
  rw [← running.underway.dir] at reaches
  exact List.forall_mem_append.mpr ⟨reaches.directories, List.forall_mem_singleton.mpr stands⟩

theorem Running.spares (running : Running o name fs s) (proper : IsName name) {n : List Char} (calls : List Call)
    (named : ∀ call ∈ calls, IsName call.name)
    (other : ∀ call ∈ calls, n ∉ namesOf call.name call.symbols ∨ ∃ e, call.module.verify = .error e) :
    s.Spares (fs.place o ++ [name] ++ [n]) calls := by
  induction calls generalizing s with
  | nil => trivial
  | cons call rest ih =>
      obtain ⟨first, later⟩ := List.forall_mem_cons.mp named
      obtain ⟨apart, others⟩ := List.forall_mem_cons.mp other
      refine ⟨fun touches => ?_, ih (running.step first) later others⟩
      obtain ⟨deed, member, touched⟩ := touches
      rcases apart with free | ⟨e, unsound⟩
      · obtain ⟨m, listed, same⟩ :=
          write_within running.underway.tree s.area first call.module call.symbols call.metadata deed member _ touched
        rw [running.place proper] at same
        cases List.append_cancel_left same
        exact free listed
      · rw [Call.task, write, unsound] at member
        cases member

end Running

end State

theorem read_in_directory {fs : FileSystem} {d : Path} {n : List Char} (own : IsName n) (legal : Legal (d.join n))
    (way : ∀ l ∈ fs.way d, fs.get? l = some .directory) {content : Bytes}
    (there : fs.get? (fs.place d ++ [n]) = some (.file content)) : fs.read (d.join n) = .ok content := by
  refine (read_join_iff own ⟨legal, ?_⟩ content).mpr there
  rwa [passed_join fs d own]

theorem names_of_nodup {name : List Char} (proper : IsName name) (beside : IsName (extended name ApiMetadata.fileExtension))
    (unlike : ¬ '.' :: SymbolTable.fileExtension <:+ name) (symbols : Option SymbolTable) :
    (namesOf name symbols).Nodup := by
  have stem := stem_ne_dot proper beside
  have metadata := extended_eq stem ApiMetadata.fileExtension
  have symbol := extended_eq stem SymbolTable.fileExtension
  have apart : name ≠ extended name ApiMetadata.fileExtension := by
    intro same
    have cut : extended name ApiMetadata.fileExtension =
        (splitName name).1 ++ ".metadata".toList ++ '.' :: "json".toList := by
      rw [metadata, List.append_assoc]
      rfl
    have long := split_name_dotted (List.append_ne_nil_of_left_ne_nil (stem_ne_nil proper.nonempty) ".metadata".toList)
      (show '.' ∉ "json".toList by decide)
    rw [← cut, ← same] at long
    have lengths := congrArg (fun parts => parts.1.length) long
    simp at lengths
  have other : name ≠ extended name SymbolTable.fileExtension := by
    intro same
    rw [symbol] at same
    exact unlike ⟨_, same.symm⟩
  have kinds : extended name ApiMetadata.fileExtension ≠ extended name SymbolTable.fileExtension := by
    rw [metadata, symbol]
    intro same
    exact absurd (List.append_cancel_left same) (by decide)
  cases symbols with
  | none => simpa [namesOf] using apart
  | some table => simpa [namesOf] using ⟨⟨apart, other⟩, kinds⟩

namespace State

structure ReadsBack (d : Path) (call : Call) (kept : List Char → Prop) (files : FileSystem) : Prop where
  module : kept call.name → ∃ bytes, files.read (d.join call.name) = .ok bytes ∧ Module.decode bytes = .ok call.module
  symbols : ∀ table ∈ call.symbols, kept (extended call.name SymbolTable.fileExtension) →
    ∃ bytes, files.read (symbolPath (d.join call.name)) = .ok bytes ∧ SymbolTable.decode bytes = .ok table
  metadata : kept (extended call.name ApiMetadata.fileExtension) →
    ∃ bytes text, files.read (metadataPath (d.join call.name)) = .ok bytes ∧ Bytes.toText? bytes = some text ∧
      ApiMetadata.ofText? text = some call.metadata

section Kept

variable {o : Path} {name : List Char} {fs : FileSystem} {s : State} {call : Call} {staged : StagedModule}

theorem Accepted.file_kept (accepted : s.Accepted call staged) (running : Running o name fs s) (proper : IsName name)
    (fits : call.Fits) {later : List Call} (named : ∀ call ∈ later, IsName call.name)
    {file : List Char × Bytes} (member : file ∈ call.files s.area.layout)
    (spares : (s.step call).Spares (fs.place o ++ [name] ++ [file.1]) later) :
    ((s.step call).after later).files.read (s.area.dir.join file.1) = .ok file.2 := by
  have next := running.step fits.named
  have last := next.after later named
  have dir : ((s.step call).after later).area.dir = s.area.dir := last.underway.dir.trans running.underway.dir.symm
  have own := accepted.wrote.named file member
  have beside : IsName (extended call.name ApiMetadata.fileExtension) :=
    accepted.wrote.named (_, _) (List.mem_cons_of_mem _ (List.mem_append_right _ (List.mem_singleton_self _)))
  have distinct : ((call.files s.area.layout).map Prod.fst).Nodup :=
    (names_of_perm _ _ _ _).nodup_iff.mpr (names_of_nodup fits.named beside fits.unlike call.symbols)
  have written := accepted.wrote.content file.1
  rw [Batch.last_written_of_distinct distinct member, running.place proper, Option.map_some, Option.some_or] at written
  have legal : Legal (s.area.dir.join file.1) := by
    apply accepted.legal
    rw [accepted.paths]
    exact (mem_paths_of_iff _ fits.named call.module _ (call.metadata.toText s.area.layout) _).mpr ⟨file, member, rfl⟩
  have way := last.way proper
  have place := last.place proper
  rw [dir] at way place
  refine read_in_directory own legal way ?_
  rw [place, spared_kept later spares, written]

theorem Accepted.reads_back (accepted : s.Accepted call staged) (running : Running o name fs s) (proper : IsName name)
    (fits : call.Fits) {later : List Call} (named : ∀ call ∈ later, IsName call.name) :
    ReadsBack s.area.dir call (fun n => (s.step call).Spares (fs.place o ++ [name] ++ [n]) later)
      ((s.step call).after later).files := by
  have sound := (call.module.verify_eq_ok_iff).mp accepted.sound
  refine ⟨fun spares => ?_, fun table has spares => ?_, fun spares => ?_⟩
  · have own : (call.name, call.module.encode) ∈ call.files s.area.layout := List.mem_cons_self
    have read := accepted.file_kept running proper fits named own spares
    exact ⟨_, read, Module.decode_encode_with Checksum.crc32 (fits.module.fits sound.magic sound.format)⟩
  · have beside : (extended call.name SymbolTable.fileExtension, table.encode) ∈ call.files s.area.layout :=
      List.mem_cons_of_mem _ (List.mem_append_left _ (List.mem_map.mpr ⟨table, Option.mem_toList.mpr has, rfl⟩))
    have read := accepted.file_kept running proper fits named beside spares
    rw [symbol_path_join _ fits.named]
    exact ⟨_, read, SymbolTable.decode_encode (fits.symbols table has)⟩
  · have record : (extended call.name ApiMetadata.fileExtension, Bytes.ofText (call.metadata.toText s.area.layout)) ∈
        call.files s.area.layout := List.mem_cons_of_mem _ (List.mem_append_right _ (List.mem_singleton_self _))
    have read := accepted.file_kept running proper fits named record spares
    rw [metadata_path_join _ fits.named]
    exact ⟨_, _, read, Bytes.to_text_of_text _, ApiMetadata.of_text_to_text _ _⟩

end Kept

-- The directory is emptied and removed, unless the way to the output directory led below it.
structure Promoted (o : Path) (staging : Location) (fs : FileSystem) (s : State) (outputs : List Path)
    (after : FileSystem) : Prop where
  outputs : ∃ names : List (List Char), (∀ n ∈ names, IsName n) ∧ s.area.staged = names.map s.area.dir.join ∧ outputs = names.map o.join
  content : ∀ n, IsName n → s.area.dir.join n ∈ s.area.staged → ∃ content,
    s.files.read (s.area.dir.join n) = .ok content ∧ after.get? (fs.place o ++ [n]) = some (.file content) ∧
    (after.read (o.join n) = .ok content ↔ ∀ d ∈ fs.way o, ¬ staging <+: d)
  below : ∀ l, Below staging l → after.get? l = none
  removed : after.get? staging = if fs.GoesBelow o staging then some .directory else none

theorem names_of_staged {d : Path} {paths : List Path} (inside : ∀ path ∈ paths, StandsIn d path) :
    ∃ names : List (List Char), (∀ n ∈ names, IsName n) ∧ paths = names.map d.join := by
  induction paths with
  | nil => exact ⟨[], List.forall_mem_nil _, rfl⟩
  | cons path rest ih =>
      obtain ⟨⟨name, proper, same⟩, later⟩ := List.forall_mem_cons.mp inside
      obtain ⟨names, propers, whole⟩ := ih later
      exact ⟨name :: names, List.forall_mem_cons.mpr ⟨proper, propers⟩, by rw [same, whole, List.map_cons]⟩

theorem copies_of_names (o d : Path) {names : List (List Char)} (proper : ∀ n ∈ names, IsName n) :
    copiesIn o (names.map d.join) = names.map o.join := by
  rw [copiesIn, List.filterMap_map]
  refine List.filterMap_eq_map_iff_forall_eq_some.mpr fun n member => ?_
  rw [Function.comp_apply, file_name_join d (proper n member), Option.map_some]

section Promoting

variable {o : Path} {name : List Char} {fs copied after : FileSystem} {s : State}
  (vacated : Vacated (fs.place o ++ [name]) (fs.GoesBelow o (fs.place o ++ [name])) copied after)
include vacated

theorem way_lost (here : after.here = fs.here) {n : List Char} (own : IsName n) (reaches : after.Reaches (o.join n)) :
    ∀ d ∈ fs.way o, ¬ fs.place o ++ [name] <+: d := by
  have directories := reaches.directories
  rw [passed_join after o own, way_congr here] at directories
  have outside : ¬ fs.GoesBelow o (fs.place o ++ [name]) := by
    intro goes
    obtain ⟨d, onWay, below⟩ := goes
    cases (directories d onWay).symm.trans (vacated.below d below)
  intro d onWay front
  rcases (at_or_below_iff _ d).mp front with same | below
  · rw [same] at onWay
    cases (directories _ onWay).symm.trans (vacated.gone outside)
  · exact outside ⟨d, onWay, below⟩

theorem promoted_read (running : Running o name fs s) (proper : IsName name)
    (copies : Copied o (o.join name) s.area.staged s.files copied) {n : List Char} (own : IsName n)
    (legal : Legal (o.join n)) {content : Bytes} (there : after.get? (fs.place o ++ [n]) = some (.file content)) :
    after.read (o.join n) = .ok content ↔ ∀ d ∈ fs.way o, ¬ fs.place o ++ [name] <+: d := by
  have here : after.here = fs.here := vacated.here.trans (copies.keeps.here.trans running.underway.here)
  constructor
  · intro read
    exact way_lost vacated here own ((read_iff _ _ _).mp read).1
  · intro apart
    refine read_in_directory own legal (fun d onWay => ?_) (by rwa [place_congr here])
    rw [way_congr here] at onWay
    have stood : s.files.get? d = some .directory := by
      apply running.way proper
      rw [running.underway.dir, way_join _ o proper, way_congr running.underway.here]
      exact List.mem_append_left _ onWay
    rw [vacated.outside d (apart d onWay)]
    exact copies.keeps.directories d stood

end Promoting

theorem promote_promotes {o : Path} {name : List Char} {fs : FileSystem} {s : State} (running : Running o name fs s)
    (proper : IsName name) :
    (s.area.promote o).Ensures s.files
      (fun outputs after => Promoted o (fs.place o ++ [name]) fs s outputs after) fun _ _ => True := by
  have underway := running.underway
  have there := underway.stands proper
  rw [← place_congr underway.here] at there
  have dir := underway.dir
  obtain ⟨names, propers, whole⟩ := names_of_staged underway.staged
  apply ensures_mono (ensures_and (promote_ensures underway.tree s.area proper dir underway.staged underway.reaches there)
    (promote_answers s.area o))
  · intro outputs after facts
    obtain ⟨⟨copied, copies, vacated⟩, answers, legal⟩ := facts
    rw [place_congr underway.here, goes_below_congr underway.here] at vacated
    have listed : outputs = names.map o.join := by rw [answers, whole, copies_of_names o _ propers]
    refine ⟨⟨names, propers, by rw [whole, dir], listed⟩, fun n own member => ?_, vacated.below, ?_⟩
    · have named := file_name_join s.area.dir own
      obtain ⟨content, source, target⟩ := Batch.promoted_content underway proper copies member named
      have other := Batch.promoted_apart underway proper copies member named
      have found : after.get? (fs.place o ++ [n]) = some (.file content) := by
        rw [vacated.outside _ (sibling_outside other), target]
      have output : o.join n ∈ outputs := by
        rw [answers]
        exact List.mem_filterMap.mpr ⟨_, member, by rw [named, Option.map_some]⟩
      refine ⟨content, ?_, found, promoted_read vacated running proper copies own (legal _ output) found⟩
      refine read_in_directory own (running.legal _ member) (running.way proper) ?_
      rwa [running.place proper]
    · split
      · exact vacated.left ‹_›
      · exact vacated.gone ‹_›
  · exact fun _ _ _ => trivial

theorem running_of_created {o : Path} {name : String} {pretty : Bool} {fs : FileSystem} {area : StagingArea}
    (tree : fs.IsTree) (proper : IsName name.toList) (created : ((create o name pretty).run fs).result = .ok area) :
    area = ⟨o.join name.toList, layoutOf pretty, []⟩ ∧
      Running o name.toList fs ⟨area, ((create o name pretty).run fs).files⟩ := by
  obtain ⟨same, opened⟩ := (create_ensures tree o proper pretty).done _ created
  refine ⟨same, ⟨⟨_, opened, staged_refl opened.tree _⟩, ?_, ?_⟩, ?_⟩
  · rw [same]
  · rw [same]
    exact List.forall_mem_nil _
  · rw [same]
    exact List.forall_mem_nil _

/-- The staging directory outlasts its end exactly if the way to the output directory leads below it. The way to the
promoted files is lost if it leads through the staging directory at all. -/
theorem staging_area_over_its_life {ε : Type} (o : Path) (name : String) (pretty : Bool) (fs : FileSystem)
    (calls : List Call) {area : StagingArea} (tree : fs.IsTree) (plain : Settings.isPlainName name = true)
    (created : ((create o name pretty).run fs).result = .ok area) (fits : ∀ call ∈ calls, call.Fits) :
    let start : State := ⟨area, ((create o name pretty).run fs).files⟩
    let last := start.after calls
    let staging := fs.place o ++ [name.toList]
    let promotion := (last.area.promote o).run last.files
    let withdrawal := (last.area.abandon : Task ε Unit).run last.files
    last.area = ⟨o.join name.toList, layoutOf pretty, (start.accepted calls).flatMap StagedModule.paths⟩ ∧
    (∀ before call later, calls = before ++ call :: later →
      (∀ e, call.module.verify = .error e →
        (start.after before).answer call = .error (.verify call.module.name e) ∧
        (start.after before).step call = start.after before) ∧
      (∀ staged, (start.after before).answer call = .ok staged →
        staged = pathsOf (o.join name.toList) call.name call.symbols ∧ call.module.verify = .ok () ∧
        ReadsBack (o.join name.toList) call
          (fun n => ((start.after before).step call).Spares (staging ++ [n]) later) last.files) ∧
      ∀ n, (∀ other ∈ later, n ∉ namesOf other.name other.symbols ∨ ∃ e, other.module.verify = .error e) →
        ((start.after before).step call).Spares (staging ++ [n]) later) ∧
    (∀ outputs, promotion.result = .ok outputs → Promoted o staging fs last outputs promotion.files) ∧
    withdrawal.result = .ok () ∧ Batch.Abandoned o staging fs withdrawal.files ∧
    (Batch.Withdrawn o staging fs withdrawal.files ↔ ¬ fs.GoesBelow o staging) := by
  intro start last staging promotion withdrawal
  have proper : IsName name.toList := Settings.is_name_of_plain plain
  have named : ∀ call ∈ calls, IsName call.name := fun call member => (fits call member).named
  obtain ⟨rfl, begun⟩ := running_of_created tree proper created
  have ended : Running o name.toList fs last := begun.after calls named
  have left : (last.area.abandon : Task ε Unit).Ensures last.files _ _ := ended.underway.abandons proper
  refine ⟨begun.area_after calls named, fun before call later split => ?_,
    fun outputs promoted => (promote_promotes ended proper).done outputs promoted, ?_⟩
  · rw [split] at named fits
    obtain ⟨earlier, own, others⟩ := List.forall_mem_append.mp named |>.imp_right List.forall_mem_cons.mp
    have running := begun.after before earlier
    refine ⟨fun e unsound => rejected _ call unsound, fun staged ok => ?_,
      fun n other => (running.step own).spares proper later others other⟩
    have accepted := accepted_of_answer running.underway.tree own ok
    have back := accepted.reads_back running proper (fits call (List.mem_append_right _ List.mem_cons_self)) others
    have dir := running.underway.dir
    rw [← after_cons, ← after_append, ← split, dir] at back
    exact ⟨by rw [accepted.paths, dir], accepted.sound, back⟩
  · have ends : withdrawal.result = .ok () := by
      cases result : withdrawal.result with
      | ok _ => rfl
      | error e => exact (left.failed e result).elim
    have abandoned := left.done () ends
    exact ⟨ends, abandoned, Batch.withdrawn_iff abandoned⟩

-- The second module is refused, and the first is read back. The way to the output directory leads below the staging
-- directory, which stays, and the copy is not found by its path.
theorem promoted_inside_its_staging :
    let game : Module := ⟨Module.magicNumber, 1, 0, ⟨"Game", "1"⟩, [], [], [], none⟩
    let broken : Module := { game with registrations := [⟨"Ghost", "class"⟩] }
    let record : ApiMetadata := { assemblyName := "Game", references := [] }
    let staging : Location := ["out".toList, "stage".toList]
    let o : Path := "out/stage/sub/../.."
    let fs := ((⟨[], []⟩ : FileSystem).makeDirs "out").2
    let calls : List Call := [⟨"Game.wbc", game, none, record⟩, ⟨"Game.wbc", broken, none, record⟩]
    let start : State := ⟨⟨o.join "stage".toList, .compact, []⟩, ((create o "stage" false).run fs).files⟩
    let last := start.after calls
    let promotion := (last.area.promote o).run last.files
    let withdrawal := (last.area.abandon : Task Failure Unit).run last.files
    (∃ bytes, last.files.read "out/stage/sub/../../stage/Game.wbc" = .ok bytes ∧ Module.decode bytes = .ok game ∧
        promotion.files.get? ["out".toList, "Game.wbc".toList] = some (.file bytes) ∧
        promotion.files.read "out/stage/sub/../../Game.wbc" ≠ .ok bytes) ∧
      promotion.result = .ok ["out/stage/sub/../../Game.wbc", "out/stage/sub/../../Game.metadata.json"] ∧
      promotion.files.get? staging = some .directory ∧
      withdrawal.files.get? staging = some .directory ∧ ¬ Batch.Withdrawn o staging fs withdrawal.files := by
  intro game broken record staging o fs calls start last promotion withdrawal
  have tree : fs.IsTree := (make_dirs_grows (empty_is_tree []) _).2
  have created : ((create o "stage" false).run fs).result = .ok ⟨o.join "stage".toList, .compact, []⟩ := by decide +kernel
  have named : IsName "Game.wbc".toList := Settings.is_name_of_plain (by decide +kernel)
  have unlike : ¬ '.' :: SymbolTable.fileExtension <:+ "Game.wbc".toList := by decide +kernel
  have fits : ∀ call ∈ calls, call.Fits :=
    List.forall_mem_cons.mpr ⟨⟨named, unlike, by decide +kernel, fun _ has => nomatch has⟩,
      List.forall_mem_singleton.mpr ⟨named, unlike, by decide +kernel, fun _ has => nomatch has⟩⟩
  have below : fs.GoesBelow o staging := by decide +kernel
  have place : fs.place o ++ ["stage".toList] = staging := by decide +kernel
  have promoted : promotion.result =
      .ok ["out/stage/sub/../../Game.wbc", "out/stage/sub/../../Game.metadata.json"] := by decide +kernel
  obtain ⟨listed, each, promotes, _, left, traceless⟩ :=
    staging_area_over_its_life (ε := Failure) o "stage" false fs calls tree (by decide +kernel) created fits
  rw [place] at promotes left traceless each
  have unsound : broken.verify = .error (.unknownRegistration "Ghost") := by decide +kernel
  have ok : start.answer ⟨"Game.wbc", game, none, record⟩ =
      .ok (pathsOf (o.join "stage".toList) "Game.wbc".toList none) := by decide +kernel
  have source : (o.join "stage".toList).join "Game.wbc".toList = "out/stage/sub/../../stage/Game.wbc" := by decide +kernel
  have target : o.join "Game.wbc".toList = "out/stage/sub/../../Game.wbc" := by decide +kernel
  have spot : fs.place o ++ ["Game.wbc".toList] = ["out".toList, "Game.wbc".toList] := by decide +kernel
  have dir : last.area.dir = o.join "stage".toList := congrArg StagingArea.dir listed
  have apart : ¬ ∀ d ∈ fs.way o, ¬ staging <+: d := by decide +kernel
  obtain ⟨_, accepts, spares⟩ := each [] _ _ rfl
  obtain ⟨_, _, back⟩ := accepts _ ok
  obtain ⟨bytes, read, decoded⟩ := back.module (spares _ (List.forall_mem_singleton.mpr (.inr ⟨_, unsound⟩)))
  have copies := promotes _ promoted
  obtain ⟨content, staged, copied, found⟩ := copies.content "Game.wbc".toList named (by decide +kernel)
  rw [Call.name, source] at read
  rw [dir, source] at staged
  rw [spot] at copied
  rw [target] at found
  cases Except.ok.inj (read.symm.trans staged)
  refine ⟨⟨bytes, read, decoded, copied, fun copy => apart (found.mp copy)⟩, promoted, ?_, ?_,
    fun withdrawn => traceless.mp withdrawn below⟩
  · rw [copies.removed, if_pos below]
  · rw [left.emptied, if_pos below]

end State

end StagingArea

end Loom
