import Loom.Proofs.Batch.Planning
import Loom.Proofs.FirstPlace
import Loom.Proofs.SearchPath.Permutations

set_option autoImplicit false

/-! Planning goes over the references, then twice over the targets and once over what was loaded. Each pass ends at
the first entry that it refuses. -/
namespace Loom.Batch

open Loom.Task

section Rules

variable (fs : FileSystem)

def referenceRule (seen : List String) (raw : String) : Option Failure :=
  match SearchPath.dirOf? (Text.unquote raw) with
  | none => none
  | some dir =>
    if (SearchPath.dirsOf seen).any (·.same dir) then none
    else if fs.kind? dir = some .directory then none
    else some (.referenceDirNotFound dir)

def presenceRule (path : Path) : Option Failure :=
  if fs.kind? path = some .file then none else some (.moduleNotFound path)

def symbolsRule (path : Path) (moduleName : String) : Option Failure :=
  match fs.read path with
  | .error _ => none
  | .ok bytes =>
    match SymbolTable.decode bytes with
    | .error e => some (.symbols path (.format e))
    | .ok table =>
      if table.moduleName = moduleName then none else some (.symbolMismatch path moduleName table.moduleName)

def loadingRule (readSymbols : Bool) (path : Path) : Option Failure :=
  match fs.read path with
  | .error _ => none
  | .ok bytes =>
    match Module.decode bytes with
    | .error e => some (.load path (.format e))
    | .ok module => if readSymbols then symbolsRule fs (symbolPath path) module.name else none

def stemRule (seen : List Path) (path : Path) : Option Failure :=
  match path.stem? with
  | none => none
  | some stem =>
    (seen.find? fun earlier => earlier.stem? = some stem).map fun earlier =>
      .duplicateOutput (String.ofList stem) earlier path

end Rules

inductive Phase where
  | references
  | presence
  | loading
  | stems
deriving DecidableEq, Repr

def Phase.rank : Phase → Nat
  | .references => 0
  | .presence => 1
  | .loading => 2
  | .stems => 3

def Phase.all : List Phase := [.references, .presence, .loading, .stems]

section Refusing

variable (fs : FileSystem) (references : List String) (paths : List Path) (readSymbols : Bool)

inductive Refuses : Phase → Nat → Failure → Prop
  | noDirectory {i : Nat} {raw : String} {dir : Path} (here : references[i]? = some raw)
      (parent : SearchPath.dirOf? (Text.unquote raw) = some dir) (missing : fs.kind? dir ≠ some .directory)
      (fresh : ∀ earlier ∈ SearchPath.dirsOf (references.take i), earlier.same dir = false) :
      Refuses .references i (.referenceDirNotFound dir)
  | noFile {i : Nat} {path : Path} (here : paths[i]? = some path) (missing : fs.kind? path ≠ some .file) :
      Refuses .presence i (.moduleNotFound path)
  | noModule {i : Nat} {path : Path} {bytes : Bytes} {e : FormatError} (here : paths[i]? = some path)
      (read : fs.read path = .ok bytes) (fault : Module.decode bytes = .error e) :
      Refuses .loading i (.load path (.format e))
  | noSymbols {i : Nat} {path : Path} {bytes beside : Bytes} {module : Module} {e : FormatError}
      (here : paths[i]? = some path) (read : fs.read path = .ok bytes) (decoded : Module.decode bytes = .ok module)
      (wanted : readSymbols = true) (there : fs.read (symbolPath path) = .ok beside)
      (fault : SymbolTable.decode beside = .error e) : Refuses .loading i (.symbols (symbolPath path) (.format e))
  | otherSymbols {i : Nat} {path : Path} {bytes beside : Bytes} {module : Module} {table : SymbolTable}
      (here : paths[i]? = some path) (read : fs.read path = .ok bytes) (decoded : Module.decode bytes = .ok module)
      (wanted : readSymbols = true) (there : fs.read (symbolPath path) = .ok beside)
      (symbols : SymbolTable.decode beside = .ok table) (other : table.moduleName ≠ module.name) :
      Refuses .loading i (.symbolMismatch (symbolPath path) module.name table.moduleName)
  | sameStem {i : Nat} {path earlier : Path} {stem : List Char} (here : paths[i]? = some path)
      (own : path.stem? = some stem)
      (again : (paths.take i).find? (fun earlier => earlier.stem? = some stem) = some earlier) :
      Refuses .stems i (.duplicateOutput (String.ofList stem) earlier path)

def refusalAt : Phase → Nat → Option Failure
  | .references => foundAt (referenceRule fs) [] references
  | .presence => foundAt (fun _ => presenceRule fs) [] paths
  | .loading => foundAt (fun _ => loadingRule fs readSymbols) [] paths
  | .stems => foundAt stemRule [] paths

def refusalIn : Phase → Option Failure
  | .references => firstBy (referenceRule fs) [] references
  | .presence => firstBy (fun _ => presenceRule fs) [] paths
  | .loading => firstBy (fun _ => loadingRule fs readSymbols) [] paths
  | .stems => firstBy stemRule [] paths

theorem refuses_references_iff (i : Nat) (e : Failure) :
    Refuses fs references paths readSymbols .references i e ↔
      refusalAt fs references paths readSymbols .references i = some e := by
  constructor
  · intro refused
    cases refused with
    | @noDirectory i raw dir here parent missing fresh =>
        have unknown : (SearchPath.dirsOf (references.take i)).any (·.same dir) = false :=
          List.any_eq_false.mpr fun earlier member => by simp [fresh earlier member]
        simp only [refusalAt, foundAt, here, Option.bind_some, referenceRule, parent, List.nil_append]
        rw [unknown, if_neg Bool.false_ne_true, if_neg missing]
  · intro found
    obtain ⟨raw, here, refused⟩ := Option.bind_eq_some_iff.mp found
    rw [List.nil_append, referenceRule] at refused
    split at refused
    · cases refused
    · rename_i dir parent
      split at refused
      · cases refused
      · rename_i unknown
        split at refused
        · cases refused
        · rename_i missing
          cases refused
          refine .noDirectory here parent missing fun earlier member => ?_
          rw [← Bool.not_eq_true]
          exact fun same => unknown (List.any_eq_true.mpr ⟨earlier, member, same⟩)

theorem refuses_presence_iff (i : Nat) (e : Failure) :
    Refuses fs references paths readSymbols .presence i e ↔
      refusalAt fs references paths readSymbols .presence i = some e := by
  constructor
  · intro refused
    cases refused with
    | noFile here missing => simp only [refusalAt, foundAt, here, Option.bind_some, presenceRule, if_neg missing]
  · intro found
    obtain ⟨path, here, refused⟩ := Option.bind_eq_some_iff.mp found
    dsimp only [presenceRule] at refused
    split at refused
    · cases refused
    · rename_i missing
      cases refused
      exact .noFile here missing

theorem refuses_loading_iff (i : Nat) (e : Failure) :
    Refuses fs references paths readSymbols .loading i e ↔
      refusalAt fs references paths readSymbols .loading i = some e := by
  constructor
  · intro refused
    cases refused with
    | noModule here read fault => simp only [refusalAt, foundAt, here, Option.bind_some, loadingRule, read, fault]
    | noSymbols here read decoded wanted there fault =>
        simp only [refusalAt, foundAt, here, Option.bind_some, loadingRule, read, decoded, if_pos wanted, symbolsRule,
          there, fault]
    | otherSymbols here read decoded wanted there symbols other =>
        simp only [refusalAt, foundAt, here, Option.bind_some, loadingRule, read, decoded, if_pos wanted, symbolsRule,
          there, symbols, if_neg other]
  · intro found
    obtain ⟨path, here, refused⟩ := Option.bind_eq_some_iff.mp found
    dsimp only [loadingRule] at refused
    split at refused
    · cases refused
    · rename_i bytes read
      split at refused
      · rename_i fault
        cases refused
        exact .noModule here read fault
      · rename_i module decoded
        split at refused
        · rename_i wanted
          rw [symbolsRule] at refused
          split at refused
          · cases refused
          · rename_i beside there
            split at refused
            · rename_i fault
              cases refused
              exact .noSymbols here read decoded wanted there fault
            · rename_i table symbols
              split at refused
              · cases refused
              · rename_i other
                cases refused
                exact .otherSymbols here read decoded wanted there symbols other
        · cases refused

theorem refuses_stems_iff (i : Nat) (e : Failure) :
    Refuses fs references paths readSymbols .stems i e ↔
      refusalAt fs references paths readSymbols .stems i = some e := by
  constructor
  · intro refused
    cases refused with
    | sameStem here own again =>
        simp only [refusalAt, foundAt, here, Option.bind_some, stemRule, own, List.nil_append, again, Option.map_some]
  · intro found
    obtain ⟨path, here, refused⟩ := Option.bind_eq_some_iff.mp found
    rw [List.nil_append, stemRule] at refused
    split at refused
    · cases refused
    · rename_i stem own
      obtain ⟨earlier, again, rfl⟩ := Option.map_eq_some_iff.mp refused
      exact .sameStem here own again

theorem refuses_iff (phase : Phase) (i : Nat) (e : Failure) :
    Refuses fs references paths readSymbols phase i e ↔
      refusalAt fs references paths readSymbols phase i = some e := by
  cases phase with
  | references => exact refuses_references_iff fs references paths readSymbols i e
  | presence => exact refuses_presence_iff fs references paths readSymbols i e
  | loading => exact refuses_loading_iff fs references paths readSymbols i e
  | stems => exact refuses_stems_iff fs references paths readSymbols i e

theorem refusal_in_eq_some_iff (phase : Phase) (e : Failure) :
    refusalIn fs references paths readSymbols phase = some e ↔
      FirstOf (refusalAt fs references paths readSymbols phase) e := by
  cases phase <;> exact first_by_eq_some_iff _ _ _ _

def firstRefusal : Option Failure := Phase.all.findSome? (refusalIn fs references paths readSymbols)

theorem first_refusal_eq :
    firstRefusal fs references paths readSymbols =
      (firstBy (referenceRule fs) [] references).or ((firstBy (fun _ => presenceRule fs) [] paths).or
        ((firstBy (fun _ => loadingRule fs readSymbols) [] paths).or (firstBy stemRule [] paths))) := by
  simp only [firstRefusal, Phase.all, find_some_cons, List.findSome?_nil, Option.or_none, refusalIn]

theorem mem_phases (phase : Phase) : phase ∈ Phase.all := by
  cases phase <;> decide

theorem first_refusal_eq_some_iff (e : Failure) :
    firstRefusal fs references paths readSymbols = some e ↔
      AtFirstPlace Phase.rank (Refuses fs references paths readSymbols) e :=
  find_some_eq_some_iff (refuses_iff fs references paths readSymbols) (refusal_in_eq_some_iff fs references paths readSymbols)
    mem_phases (by decide) e

theorem first_refusal_eq_none_iff :
    firstRefusal fs references paths readSymbols = none ↔
      ∀ phase i e, ¬ Refuses fs references paths readSymbols phase i e :=
  find_some_eq_none_iff (refuses_iff fs references paths readSymbols) (refusal_in_eq_some_iff fs references paths readSymbols)
    mem_phases

end Refusing

section Finding

variable {fs : FileSystem}

-- A search path and the references that went into it know the same directories, so the rule finds in the references
-- what is missing among the directories that are new.
theorem find_fresh (search : SearchPath) (seen raws : List String)
    (covers : ∀ dir, search.knows dir = (SearchPath.dirsOf seen).any (·.same dir)) :
    ((search.fresh raws).find? fun dir => decide (fs.kind? dir ≠ some .directory)).map Failure.referenceDirNotFound =
      firstBy (referenceRule fs) seen raws := by
  induction raws generalizing search seen with
  | nil => rfl
  | cons raw rest ih =>
      rw [firstBy, referenceRule]
      cases parent : SearchPath.dirOf? (Text.unquote raw) with
      | none =>
          rw [SearchPath.fresh_cons_none rest parent, Option.none_or]
          refine ih search (seen ++ [raw]) fun dir => ?_
          rw [covers, SearchPath.dirs_of_concat, parent, Option.toList_none, List.append_nil]
      | some dir =>
          have grown : SearchPath.dirsOf (seen ++ [raw]) = SearchPath.dirsOf seen ++ [dir] := by
            rw [SearchPath.dirs_of_concat, parent, Option.toList_some]
          rw [SearchPath.fresh_cons_some rest parent]
          dsimp only
          rw [← covers]
          by_cases known : search.knows dir = true
          · rw [if_pos known, if_pos known, Option.none_or]
            refine ih search (seen ++ [raw]) fun other => ?_
            rw [grown, List.any_append, ← covers, List.any_cons, List.any_nil, Bool.or_false]
            by_cases same : dir.same other = true
            · rw [SearchPath.knows_of_same known same, Bool.true_or]
            · rw [Bool.eq_false_iff.mpr same, Bool.or_false]
          · rw [if_neg known, if_neg known]
            by_cases there : fs.kind? dir = some .directory
            · rw [List.find?_cons_of_neg (by simpa using there), if_pos there, Option.none_or]
              refine ih { search with dirs := search.dirs ++ [dir] } (seen ++ [raw]) fun other => ?_
              rw [SearchPath.knows, List.any_append, grown, List.any_append, ← covers]
              rfl
            · rw [List.find?_cons_of_pos (by simpa using there), if_neg there, Option.map_some, Option.some_or]

theorem looks_references (references : List String) :
    (SearchPath.ofReferences references).Looks fs
      (fun search => firstBy (referenceRule fs) [] references = none ∧
        search = ⟨references.map Text.unquote, SearchPath.firsts (SearchPath.dirsOf references)⟩)
      fun e => firstBy (referenceRule fs) [] references = some e := by
  have files : ((SearchPath.ofReferences references).run fs).files = fs := looks_files (SearchPath.looks_add_all {} references)
  have all : ({} : SearchPath).fresh references = SearchPath.firsts (SearchPath.dirsOf references) :=
    List.filter_eq_self.mpr fun _ _ => rfl
  have found := @find_fresh fs {} [] references fun dir => rfl
  rw [all] at found
  rw [← found]
  have result := SearchPath.run_of_references fs references
  cases missing : (SearchPath.firsts (SearchPath.dirsOf references)).find? fun dir =>
      decide (fs.kind? dir ≠ some .directory) with
  | none =>
      rw [missing] at result
      refine ⟨fun search done => ⟨files, rfl, ?_⟩, fun e failed => ?_⟩
      · exact Except.ok.inj (done.symm.trans result)
      · cases failed.symm.trans result
  | some dir =>
      rw [missing] at result
      refine ⟨fun search done => ?_, fun e failed => ⟨files, ?_⟩⟩
      · cases done.symm.trans result
      · exact congrArg some (Except.error.inj (result.symm.trans failed))

theorem looks_first_missing_exactly {ε : Type} {bad : ε → Prop} (seen paths : List Path) :
    (firstMissing paths : Task ε _).Looks fs
      (fun missing => missing.map Failure.moduleNotFound = firstBy (fun _ => presenceRule fs) seen paths) bad := by
  induction paths generalizing seen with
  | nil => exact looks_pure rfl
  | cons path rest ih =>
      unfold firstMissing
      apply looks_then (looks_is_file path)
      intro found isFile
      rw [firstBy, presenceRule]
      cases found with
      | true =>
          rw [if_pos (isFile.mp rfl), Option.none_or]
          exact ih (seen ++ [path])
      | false =>
          rw [if_neg fun there => Bool.noConfusion (isFile.mpr there), Option.some_or]
          exact looks_pure rfl

theorem looks_each_first {ε α β : Type} {f : β → Task ε α} {good : β → α → Prop} {rule : β → Option ε} (seen items : List β)
    (looks : ∀ b ∈ items, (f b).Looks fs (fun a => rule b = none ∧ good b a) fun e => rule b = some e) :
    (each f items).Looks fs
      (fun answers => firstBy (fun _ => rule) seen items = none ∧ List.Forall₂ good items answers)
      fun e => firstBy (fun _ => rule) seen items = some e := by
  induction items generalizing seen with
  | nil => exact looks_pure ⟨rfl, .nil⟩
  | cons b rest ih =>
      unfold firstBy
      apply looks_then (looks_mono (looks b List.mem_cons_self) (fun _ facts => facts) fun e refused => by rw [refused]; rfl)
      intro a first
      rw [first.1, Option.none_or]
      apply looks_then (ih (seen ++ [b]) fun c member => looks c (List.mem_cons_of_mem b member))
      intro others later
      exact looks_pure ⟨later.1, .cons first.2 later.2⟩

end Finding

section Loading

variable {fs : FileSystem}

theorem looks_decoding {α : Type} {decode : Bytes → Except FormatError α} {path : Path} {bytes : Bytes}
    (read : fs.read path = .ok bytes) :
    (readFile path ReadError.io >>= fun content => orFail ReadError.format (decode content)).Looks fs
      (fun a => decode bytes = .ok a) fun e => ∃ fault, decode bytes = .error fault ∧ e = .format fault := by
  apply looks_then (looks_read_file_again read)
  intro _ same
  rw [same]
  exact (ensures_or_fail ReadError.format (decode bytes)).mpr
    ⟨fun _ done => ⟨rfl, done⟩, fun fault failed => ⟨rfl, fault, failed, rfl⟩⟩

theorem looks_decoded {α β : Type} {decode : Bytes → Except FormatError α} {path : Path} {bytes : Bytes}
    (read : fs.read path = .ok bytes) {explain : ReadError → Failure} {next : α → Task Failure β} {good : β → Prop}
    {rule : Option Failure} (refused : ∀ fault, decode bytes = .error fault → rule = some (explain (.format fault)))
    (goes : ∀ a, decode bytes = .ok a → (next a).Looks fs good fun e => rule = some e) :
    ((readFile path ReadError.io >>= fun content => orFail ReadError.format (decode content)).attempt >>=
      fun answer => orFail explain answer >>= next).Looks fs good fun e => rule = some e := by
  apply looks_then (looks_attempt (looks_decoding read))
  intro answer facts
  cases answer with
  | ok a => exact goes a (facts.1 a rfl)
  | error e =>
      obtain ⟨fault, failed, same⟩ := facts.2 e rfl
      rw [same]
      exact looks_fail (refused fault failed)

theorem looks_load_symbols_exactly (modulePath : Path) (moduleName : String) :
    (loadSymbols modulePath moduleName).Looks fs
      (fun symbols => symbolsRule fs (symbolPath modulePath) moduleName = none ∧
        SymbolsBeside fs modulePath moduleName symbols)
      fun e => symbolsRule fs (symbolPath modulePath) moduleName = some e := by
  unfold loadSymbols
  apply looks_then (looks_is_file _)
  intro found isFile
  cases found with
  | false =>
      have absent : fs.kind? (symbolPath modulePath) ≠ some .file := fun there => Bool.noConfusion (isFile.mpr there)
      refine looks_pure ⟨?_, absent⟩
      unfold symbolsRule
      cases read : fs.read (symbolPath modulePath) with
      | error e => rfl
      | ok bytes => exact absurd (FileSystem.kind_of_read read) absent
  | true =>
      obtain ⟨bytes, read⟩ := FileSystem.read_of_kind (isFile.mp rfl)
      apply looks_decoded read
      · intro fault failed
        simp only [symbolsRule, read, failed]
      · intro table decoded
        simp only [symbolsRule, read, decoded]
        split
        · rename_i own
          exact looks_pure ⟨rfl, isFile.mp rfl, own, bytes, read, decoded⟩
        · exact looks_fail rfl

structure Entry (fs : FileSystem) (search : SearchPath) (readSymbols : Bool) (path : Path) (loaded : LoadedModule) :
    Prop where
  origin : loaded.origin = path
  module : ∃ bytes, fs.read path = .ok bytes ∧ Module.decode bytes = .ok loaded.module
  symbols : if readSymbols then SymbolsBeside fs path loaded.module.name loaded.symbols else loaded.symbols = none
  references : loaded.references =
    loaded.module.references.map fun reference => ⟨reference, search.found fs reference.name⟩

theorem looks_resolve_exactly {ε : Type} {bad : ε → Prop} (search : SearchPath) (moduleName : String)
    (reference : Identity) :
    (resolveReference search moduleName reference : Task ε _).Looks fs
      (fun resolved => ⟨reference, search.found fs reference.name⟩ = resolved) bad := by
  have looks := looks_of_result (SearchPath.run_resolve (ε := ε) fs search reference)
    (looks_files (SearchPath.looks_find_in reference.name search.dirs : Task.Looks _ fs _ fun _ => True))
  unfold resolveReference
  apply looks_then (looks_mono looks (fun _ same => same) fun _ none => none.elim)
  intro answer same
  rw [← same]
  cases answer with
  | some path => exact looks_pure rfl
  | none => exact looks_then (looks_tell _) fun _ _ => looks_pure rfl

theorem looks_load_exactly (search : SearchPath) (readSymbols : Bool) {path : Path} (file : fs.kind? path = some .file) :
    (loadModule search readSymbols path).Looks fs
      (fun loaded => loadingRule fs readSymbols path = none ∧ Entry fs search readSymbols path loaded)
      fun e => loadingRule fs readSymbols path = some e := by
  obtain ⟨bytes, read⟩ := FileSystem.read_of_kind file
  unfold loadModule
  apply looks_then (looks_is_file path)
  intro found isFile
  cases found with
  | false => exact Bool.noConfusion (isFile.mpr file)
  | true =>
      apply looks_decoded read
      · intro fault failed
        simp only [loadingRule, read, failed]
      · intro module decoded
        have rule : loadingRule fs readSymbols path =
            if readSymbols then symbolsRule fs (symbolPath path) module.name else none := by
          simp only [loadingRule, read, decoded]
        rw [rule]
        have resolved : ∀ symbols : Option SymbolTable,
            (if readSymbols then symbolsRule fs (symbolPath path) module.name else none) = none →
            (if readSymbols then SymbolsBeside fs path module.name symbols else symbols = none) →
            (each (resolveReference search module.name) module.references >>= fun references =>
              (pure ⟨module, path, symbols, references⟩ : Task Failure LoadedModule)).Looks fs
            (fun loaded => (if readSymbols then symbolsRule fs (symbolPath path) module.name else none) = none ∧
              Entry fs search readSymbols path loaded)
            fun e => (if readSymbols then symbolsRule fs (symbolPath path) module.name else none) = some e := by
          intro symbols unrefused beside
          apply looks_then (looks_each module.references fun reference _ =>
            looks_resolve_exactly search module.name reference)
          intro references pairs
          have mapped := List.forall₂_map_left_iff.mpr pairs
          rw [List.forall₂_eq_eq_eq] at mapped
          exact looks_pure ⟨unrefused, rfl, ⟨bytes, read, decoded⟩, beside, mapped.symm⟩
        cases readSymbols with
        | true =>
            apply looks_then (looks_load_symbols_exactly path module.name)
            intro symbols facts
            exact resolved symbols facts.1 facts.2
        | false => exact resolved none rfl rfl

def pathsOfTargets (targets : List String) : List Path := targets.map fun target => Path.ofString (Text.unquote target)

theorem present_of_rule {paths : List Path} (seen : List Path)
    (present : firstBy (fun _ => presenceRule fs) seen paths = none) : ∀ path ∈ paths, fs.kind? path = some .file := by
  induction paths generalizing seen with
  | nil => exact List.forall_mem_nil _
  | cons path rest ih =>
      rw [firstBy, Option.or_eq_none_iff] at present
      refine List.forall_mem_cons.mpr ⟨?_, ih (seen ++ [path]) present.2⟩
      have first := present.1
      unfold presenceRule at first
      split at first
      · assumption
      · cases first

theorem looks_load_modules_exactly (search : SearchPath) (readSymbols : Bool) (targets : List String) :
    (loadModules search readSymbols targets).Looks fs
      (fun modules => firstBy (fun _ => presenceRule fs) [] (pathsOfTargets targets) = none ∧
        firstBy (fun _ => loadingRule fs readSymbols) [] (pathsOfTargets targets) = none ∧
        List.Forall₂ (Entry fs search readSymbols) (pathsOfTargets targets) modules)
      fun e => firstBy (fun _ => presenceRule fs) [] (pathsOfTargets targets) = some e ∨
        firstBy (fun _ => presenceRule fs) [] (pathsOfTargets targets) = none ∧
          firstBy (fun _ => loadingRule fs readSymbols) [] (pathsOfTargets targets) = some e := by
  unfold loadModules
  apply looks_then (looks_first_missing_exactly [] (pathsOfTargets targets))
  intro missing present
  cases missing with
  | some path => exact looks_fail (.inl present.symm)
  | none =>
      have there := present_of_rule [] present.symm
      apply looks_mono (looks_each_first [] _ fun path member => ?_)
      · exact fun modules facts => ⟨present.symm, facts⟩
      · exact fun e refused => .inr ⟨present.symm, refused⟩
      · apply looks_then (looks_load_exactly search readSymbols (there path member))
        exact fun loaded facts => looks_then (looks_tell _) fun _ _ => looks_pure facts

theorem file_has_stem (tree : fs.IsTree) {path : Path} (file : fs.kind? path = some .file) :
    ∃ stem, path.stem? = some stem := by
  obtain ⟨d, name, rfl, proper⟩ := file_name_of_file tree file
  rw [Path.stem?, Path.file_name_join d proper]
  exact ⟨_, rfl⟩

theorem duplicate_output_eq (seen modules : List LoadedModule)
    (stemmed : ∀ m ∈ seen ++ modules, ∃ stem, m.origin.stem? = some stem) :
    duplicateOutput seen modules = firstBy stemRule (seen.map (·.origin)) (modules.map (·.origin)) := by
  induction modules generalizing seen with
  | nil => rfl
  | cons m rest ih =>
      obtain ⟨stem, own⟩ := stemmed m (List.mem_append_right _ List.mem_cons_self)
      have named : m.stem = String.ofList stem := by rw [LoadedModule.stem, own]
      have alike : ∀ other ∈ seen, decide (other.stem = m.stem) = decide (other.origin.stem? = some stem) := by
        intro other member
        obtain ⟨chars, its⟩ := stemmed other (List.mem_append_left _ member)
        have name : other.stem = String.ofList chars := by rw [LoadedModule.stem, its]
        rw [named, name, its, decide_eq_decide, Option.some.injEq, String.ofList_inj]
      have later := ih (seen ++ [m]) fun other member => stemmed other (by
        rwa [List.append_assoc, List.singleton_append] at member)
      rw [duplicateOutput, List.find?_congr alike, List.map_cons, firstBy, stemRule, own, later, List.map_append]
      dsimp only
      rw [List.find?_map]
      cases found : seen.find? fun other => decide (other.origin.stem? = some stem) with
      | none =>
          have absent : seen.find? ((fun earlier => decide (earlier.stem? = some stem)) ∘ (·.origin)) = none := found
          rw [absent]
          rfl
      | some first =>
          have there : seen.find? ((fun earlier => decide (earlier.stem? = some stem)) ∘ (·.origin)) = some first := found
          rw [there, named]
          rfl

end Loading

section Planning

variable {fs : FileSystem}

theorem stems_of_entries (tree : fs.IsTree) {search : SearchPath} {readSymbols : Bool} {paths : List Path}
    {modules : List LoadedModule} (entries : List.Forall₂ (Entry fs search readSymbols) paths modules) :
    modules.map (·.origin) = paths ∧ ∀ m ∈ modules, ∃ stem, m.origin.stem? = some stem := by
  induction entries with
  | nil => exact ⟨rfl, List.forall_mem_nil _⟩
  | cons first _ ih =>
      obtain ⟨bytes, read, _⟩ := first.module
      refine ⟨congr_arg₂ List.cons first.origin ih.1, List.forall_mem_cons.mpr ⟨?_, ih.2⟩⟩
      rw [first.origin]
      exact file_has_stem tree (FileSystem.kind_of_read read)

theorem looks_plan_exactly (tree : fs.IsTree) (references targets : List String) (readSymbols : Bool) :
    (plan references targets readSymbols).Looks fs
      (fun planned => firstRefusal fs references (pathsOfTargets targets) readSymbols = none ∧
        planned.search = ⟨references.map Text.unquote, SearchPath.firsts (SearchPath.dirsOf references)⟩ ∧
        List.Forall₂ (Entry fs planned.search readSymbols) (pathsOfTargets targets) planned.modules)
      fun e => firstRefusal fs references (pathsOfTargets targets) readSymbols = some e := by
  rw [first_refusal_eq]
  unfold plan
  apply looks_then (looks_mono (looks_references references) (fun _ facts => facts) fun e refused => by
    rw [refused, Option.some_or])
  intro search facts
  obtain ⟨found, listed⟩ := facts
  -- A phase that refuses nothing leaves the search to the next one.
  rw [found, Option.none_or]
  apply looks_then (looks_mono (looks_load_modules_exactly search readSymbols targets) (fun _ facts => facts) ?_)
  · intro modules facts
    obtain ⟨present, loaded, entries⟩ := facts
    obtain ⟨origins, stemmed⟩ := stems_of_entries tree entries
    have repeated := duplicate_output_eq [] modules stemmed
    rw [origins, List.map_nil] at repeated
    rw [present, loaded, Option.none_or, Option.none_or, ← repeated]
    split
    · rename_i failure duplicate
      exact looks_fail duplicate
    · rename_i unrepeated
      apply looks_then (looks_order_nodes _)
      exact fun order _ => looks_pure ⟨unrepeated, listed, entries⟩
  · intro e refused
    rcases refused with missing | ⟨present, unloaded⟩
    · rw [missing, Option.some_or]
    · rw [present, Option.none_or, unloaded, Option.some_or]

/-- Where nothing is refused there is a plan, which has an entry for each target, in their order. -/
theorem plan_stops_at_first_refusal (tree : fs.IsTree) (references targets : List String) (readSymbols : Bool) :
    ((plan references targets readSymbols).run fs).files = fs ∧
    (∀ e, ((plan references targets readSymbols).run fs).result = .error e ↔
      AtFirstPlace Phase.rank (Refuses fs references (pathsOfTargets targets) readSymbols) e) ∧
    ((∃ planned, ((plan references targets readSymbols).run fs).result = .ok planned) ↔
      ∀ phase i e, ¬ Refuses fs references (pathsOfTargets targets) readSymbols phase i e) ∧
    ∀ planned, ((plan references targets readSymbols).run fs).result = .ok planned →
      planned.search = ⟨references.map Text.unquote, SearchPath.firsts (SearchPath.dirsOf references)⟩ ∧
      List.Forall₂ (Entry fs planned.search readSymbols) (pathsOfTargets targets) planned.modules := by
  have looks := looks_plan_exactly tree references targets readSymbols
  simp only [← first_refusal_eq_some_iff, ← first_refusal_eq_none_iff]
  refine ⟨looks_files looks, fun e => ⟨fun failed => (looks.failed e failed).2, fun refused => ?_⟩,
    ⟨fun planned => (looks.done _ planned.choose_spec).2.1, fun unrefused => ?_⟩, fun planned done => (looks.done _ done).2.2⟩
  · cases result : ((plan references targets readSymbols).run fs).result with
    | ok planned => cases refused.symm.trans (looks.done _ result).2.1
    | error other => rw [Option.some.inj ((looks.failed other result).2.symm.trans refused)]
  · cases result : ((plan references targets readSymbols).run fs).result with
    | ok planned => exact ⟨planned, rfl⟩
    | error e => cases unrefused.symm.trans (looks.failed e result).2

open SearchPath (nested nested_is_tree stretchedReference)

-- The first target holds no module, but before that is found the second is missed.
theorem missing_target_before_broken_one :
    Refuses nested [] (pathsOfTargets ["a/b/Core.wbc", "a/b/Game.wbc"]) true .loading 0
      (.load "a/b/Core.wbc" (.format (.malformed (.unexpectedEnd 0)))) ∧
    ((plan [] ["a/b/Core.wbc", "a/b/Game.wbc"] true).run nested).result = .error (.moduleNotFound "a/b/Game.wbc") := by
  have facts := plan_stops_at_first_refusal nested_is_tree [] ["a/b/Core.wbc", "a/b/Game.wbc"] true
  have broken : refusalAt nested [] (pathsOfTargets ["a/b/Core.wbc", "a/b/Game.wbc"]) true .loading 0 =
      some (.load "a/b/Core.wbc" (.format (.malformed (.unexpectedEnd 0)))) := by decide +kernel
  have present : refusalAt nested [] (pathsOfTargets ["a/b/Core.wbc", "a/b/Game.wbc"]) true .presence 0 = none := by
    decide +kernel
  have missed : refusalAt nested [] (pathsOfTargets ["a/b/Core.wbc", "a/b/Game.wbc"]) true .presence 1 =
      some (.moduleNotFound "a/b/Game.wbc") := by decide +kernel
  refine ⟨(refuses_iff _ _ _ _ _ _ _).mpr broken, (facts.2.1 _).mpr ⟨.presence, 1, ?_, ?_, ?_⟩⟩
  · exact (refuses_iff _ _ _ _ _ _ _).mpr missed
  · intro j less
    rw [Nat.lt_one_iff.mp less]
    exact (nothing_occurs_iff (refuses_iff _ _ _ _) _ _).mpr present
  · intro earlier less j
    cases earlier with
    | references => exact (nothing_occurs_iff (refuses_iff _ _ _ _) _ _).mpr rfl
    | presence | loading | stems => exact absurd less (by decide)

/-- The second reference is in no directory, since its path is too long, but it goes by the first one's. -/
theorem stretched_directory_goes_unnoticed :
    SearchPath.dirOf? (Text.unquote (stretchedReference 4100)) = some (Path.stretched 4100) ∧
    nested.kind? (Path.stretched 4100) ≠ some .directory ∧
    ∃ planned, ((plan ["a/b/Core.wbc", stretchedReference 4100] [] true).run nested).result = .ok planned := by
  refine ⟨SearchPath.dir_of_stretched _, SearchPath.stretched_too_long _ (by decide), ?_⟩
  cases result : ((plan ["a/b/Core.wbc", stretchedReference 4100] [] true).run nested).result with
  | ok planned => exact ⟨planned, rfl⟩
  | error e =>
      have refused := ((looks_plan_exactly nested_is_tree _ _ _).failed e result).2
      have accepted := ((looks_references _).done _ (SearchPath.run_plain_first 4100)).2.1
      rw [first_refusal_eq, accepted, Option.none_or] at refused
      cases refused

end Planning

end Loom.Batch
