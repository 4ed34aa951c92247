import Loom.Proofs.Files.Spelling
import Loom.Proofs.SearchPath.Directories

set_option autoImplicit false

/-! References in another order bring the same directories, but not always in the same spelling: the one that comes
first is kept. -/
namespace Loom.SearchPath

open FileSystem

variable {fs : FileSystem}

def Searchable (search : SearchPath) (moduleName : String) : Prop :=
  ∀ dir ∈ search.dirs, utf8Length (candidate dir moduleName).chars ≤ maxPathBytes

def Unambiguous (fs : FileSystem) (search : SearchPath) (moduleName : String) : Prop :=
  ∀ a ∈ search.dirs, ∀ b ∈ search.dirs, fs.kind? (candidate a moduleName) = some .file →
    fs.kind? (candidate b moduleName) = some .file → a = b

section Directories

theorem nonempty_of_dir {reference : String} {dir : Path} (parent : dirOf? reference = some dir) : dir.chars ≠ [] := by
  unfold dirOf? at parent
  split at parent
  · split at parent
    · cases parent
    · rename_i nonempty
      exact Option.some.inj parent ▸ nonempty
  · cases parent

theorem nonempty_of_mem {raws : List String} {dir : Path} (member : dir ∈ dirsOf raws) : dir.chars ≠ [] := by
  obtain ⟨raw, _, parent⟩ := List.mem_filterMap.mp member
  exact nonempty_of_dir parent

theorem first_of_perm {raws others : List String} (perm : others.Perm raws) {dir : Path}
    (member : dir ∈ firsts (dirsOf others)) : ∃ known ∈ firsts (dirsOf raws), known.same dir = true :=
  first_of_mem ((perm.filterMap _).subset ((firsts_sublist _).subset member))

theorem knows_of_perm {raws others : List String} (perm : others.Perm raws) (references : List String) (dir : Path)
    (known : knows ⟨references, firsts (dirsOf others)⟩ dir = true) :
    knows ⟨references, firsts (dirsOf raws)⟩ dir = true := by
  obtain ⟨there, member, same⟩ := (knows_iff _ _).mp known
  exact knows_of_same ((knows_iff _ _).mpr (first_of_perm perm member)) same

theorem short_of_directory {p : Path} (there : fs.kind? p = some .directory) : utf8Length p.chars ≤ maxPathBytes := by
  obtain ⟨_, found, _⟩ := (kind_eq_some_iff fs p _).mp there
  exact ((find_eq_ok_iff fs p _ _).mp found).1.legal.short

theorem directories_of_perm {raws others : List String} (perm : others.Perm raws)
    (there : ∀ dir ∈ firsts (dirsOf raws), fs.kind? dir = some .directory) :
    (∀ dir ∈ firsts (dirsOf others), fs.kind? dir = some .directory) ↔
      ∀ dir ∈ firsts (dirsOf others), utf8Length dir.chars ≤ maxPathBytes := by
  refine ⟨fun found dir member => short_of_directory (found dir member), fun short dir member => ?_⟩
  obtain ⟨known, kept, same⟩ := first_of_perm perm member
  exact directory_of_same ((Path.same_iff _ _).mp same) (there known kept)
    (nonempty_of_mem ((firsts_sublist _).subset member)) (short dir member)

end Directories

section Candidates

theorem names_of_file_name (moduleName : String) :
    names ⟨moduleName.toList ++ '.' :: Module.fileExtension⟩ ≠ [] := by
  have letter : 'w' ∈ moduleName.toList ++ '.' :: Module.fileExtension :=
    List.mem_append_right _ (List.mem_cons_of_mem _ List.mem_cons_self)
  obtain ⟨piece, listed, inside⟩ := Path.mem_piece_of_mem letter (by decide)
  exact List.ne_nil_of_mem (List.mem_filter.mpr ⟨listed, by simpa using List.ne_nil_of_mem inside⟩)

variable {p q : Path} (same : p.components = q.components) (moduleName : String)
include same

theorem candidate_same (nonempty : p.chars ≠ []) (nonemptyOther : q.chars ≠ []) :
    (candidate p moduleName).components = (candidate q moduleName).components := by
  unfold candidate
  by_cases absolute : (moduleName.toList ++ '.' :: Module.fileExtension).head? = some '/'
  · rw [Path.join, Path.join, if_pos absolute, if_pos absolute]
  · rw [Path.components_join_relative absolute nonempty, Path.components_join_relative absolute nonemptyOther, same]

theorem candidate_file_of_same (file : fs.kind? (candidate p moduleName) = some .file)
    (there : fs.kind? q = some .directory) (short : utf8Length (candidate q moduleName).chars ≤ maxPathBytes) :
    fs.kind? (candidate q moduleName) = some .file := by
  unfold candidate at file short ⊢
  by_cases absolute : (moduleName.toList ++ '.' :: Module.fileExtension).head? = some '/'
  · rw [Path.join, if_pos absolute] at file ⊢
    exact file
  · exact file_of_same absolute (names_of_file_name moduleName) same file there short

end Candidates

section Finding

theorem found_some {search : SearchPath} {moduleName : String} {path : Path}
    (found : search.found fs moduleName = some path) :
    ∃ dir ∈ search.dirs, candidate dir moduleName = path ∧ fs.kind? path = some .file := by
  obtain ⟨dir, first, own⟩ := Option.map_eq_some_iff.mp found
  have file : fs.kind? (candidate dir moduleName) = some .file := by simpa using List.find?_some first
  exact ⟨dir, List.mem_of_find?_eq_some first, own, own ▸ file⟩

theorem found_is_some_iff (search : SearchPath) (moduleName : String) :
    (search.found fs moduleName).isSome = true ↔
      ∃ dir ∈ search.dirs, fs.kind? (candidate dir moduleName) = some .file := by
  rw [found, Option.isSome_map, List.find?_isSome]
  simp only [decide_eq_true_eq]

theorem file_elsewhere {search other : SearchPath}
    (there : ∀ dir ∈ other.dirs, fs.kind? dir = some .directory)
    (known : ∀ dir ∈ search.dirs, ∃ spelt ∈ other.dirs, spelt.same dir = true) {moduleName : String}
    (short : other.Searchable moduleName) {dir : Path} (member : dir ∈ search.dirs)
    (file : fs.kind? (candidate dir moduleName) = some .file) :
    ∃ spelt ∈ other.dirs, dir.components = spelt.components ∧ fs.kind? (candidate spelt moduleName) = some .file := by
  obtain ⟨spelt, kept, same⟩ := known dir member
  have components := ((Path.same_iff _ _).mp same).symm
  exact ⟨spelt, kept, components,
    candidate_file_of_same components moduleName file (there spelt kept) (short spelt kept)⟩

theorem found_is_some_of_known {search other : SearchPath}
    (there : ∀ dir ∈ other.dirs, fs.kind? dir = some .directory)
    (known : ∀ dir ∈ search.dirs, ∃ spelt ∈ other.dirs, spelt.same dir = true) {moduleName : String}
    (short : other.Searchable moduleName) (found : (search.found fs moduleName).isSome = true) :
    (other.found fs moduleName).isSome = true := by
  obtain ⟨dir, member, file⟩ := (found_is_some_iff search moduleName).mp found
  obtain ⟨spelt, kept, _, there⟩ := file_elsewhere there known short member file
  exact (found_is_some_iff other moduleName).mpr ⟨spelt, kept, there⟩

theorem found_same_of_known {search other : SearchPath}
    (there : ∀ dir ∈ search.dirs, fs.kind? dir = some .directory)
    (known : ∀ dir ∈ other.dirs, ∃ spelt ∈ search.dirs, spelt.same dir = true)
    (nonempty : ∀ dir ∈ search.dirs ++ other.dirs, dir.chars ≠ []) {moduleName : String}
    (short : search.Searchable moduleName) (alone : search.Unambiguous fs moduleName) {path elsewhere : Path}
    (here : search.found fs moduleName = some path) (found : other.found fs moduleName = some elsewhere) :
    elsewhere.components = path.components := by
  obtain ⟨dir, member, own, file⟩ := found_some here
  obtain ⟨spelt, kept, ownElsewhere, fileElsewhere⟩ := found_some found
  rw [← own] at file ⊢
  rw [← ownElsewhere] at fileElsewhere ⊢
  obtain ⟨first, listed, same, fileFirst⟩ := file_elsewhere there known short kept fileElsewhere
  rw [← alone first listed dir member fileFirst file]
  exact candidate_same same moduleName (nonempty spelt (List.mem_append_right _ kept))
    (nonempty first (List.mem_append_left _ listed))

end Finding

section Stretched

open Loom.Path

def nested : FileSystem := (((⟨[], []⟩ : FileSystem).makeDirs "a/b").2.write "a/b/Core.wbc" []).2

theorem nested_is_tree : nested.IsTree := is_tree_write (make_dirs_grows (empty_is_tree []) "a/b").2 "a/b/Core.wbc" []

theorem trim_by_of_ends {p : Char → Bool} {first last : Char} (cs : List Char) (plain : p first = false)
    (plainLast : p last = false) : Text.trimBy p (first :: (cs ++ [last])) = first :: (cs ++ [last]) := by
  rw [Text.trimBy, List.dropWhile_cons_of_neg (by simp [plain]), ← List.cons_append, List.reverse_concat,
    List.dropWhile_cons_of_neg (by simp [plainLast]), ← List.reverse_concat, List.reverse_reverse]

def stretchedReference (n : Nat) : String := ((stretched n).join "Core.wbc".toList).text

theorem unquote_stretched (n : Nat) : Text.unquote (stretchedReference n) = stretchedReference n := by
  have whole : ((stretched n).join "Core.wbc".toList).chars =
      'a' :: (List.replicate (n + 1) '/' ++ "b/Core.wb".toList ++ ['c']) := by
    rw [join_stretched n (by decide), stretched, List.append_assoc, List.cons_append, List.append_assoc]
    rfl
  rw [stretchedReference, Path.text, Text.unquote, String.toList_ofList, whole,
    trim_by_of_ends _ (by decide) (by decide), trim_by_of_ends _ (by decide) (by decide)]

theorem dir_of_stretched (n : Nat) : dirOf? (Text.unquote (stretchedReference n)) = some (stretched n) := by
  have parent : (ofString (stretchedReference n)).parent? = some (stretched n) := by
    rw [ofString, stretchedReference, Path.text, String.toList_ofList]
    exact stretched_eq_join n ▸ parent_join_join _ (by constructor <;> decide) (by constructor <;> decide)
  rw [unquote_stretched, dirOf?, parent]
  exact if_neg (List.cons_ne_nil _ _)

theorem same_stretched (n : Nat) : same "a/b" (stretched n) = true :=
  (same_iff _ _).mpr (components_of_stretched n).symm

theorem stretched_same (n : Nat) : same (stretched n) "a/b" = true :=
  (same_iff _ _).mpr (components_of_stretched n)

theorem stretched_directory (n : Nat) (fits : n + 3 ≤ maxPathBytes) (there : fs.kind? "a/b" = some .directory) :
    fs.kind? (stretched n) = some .directory :=
  directory_of_same (components_of_stretched n).symm there (List.cons_ne_nil _ _) (length_of_stretched n ▸ fits)

theorem stretched_too_long (n : Nat) (long : maxPathBytes < n + 3) : fs.kind? (stretched n) ≠ some .directory := by
  intro there
  have short := short_of_directory there
  rw [length_of_stretched] at short
  omega

theorem firsts_of_same {a b : Path} (same : a.same b = true) : firsts [a, b] = [a] := by
  simp [firsts, same]

theorem dirs_of_stretched (n : Nat) :
    firsts (dirsOf ["a/b/Core.wbc", stretchedReference n]) = [("a/b" : Path)] ∧
      firsts (dirsOf [stretchedReference n, "a/b/Core.wbc"]) = [stretched n] := by
  have plain : dirOf? (Text.unquote "a/b/Core.wbc") = some (ofString "a/b") := by decide +kernel
  simp only [dirsOf, List.filterMap_cons, List.filterMap_nil, plain, dir_of_stretched,
    firsts_of_same (same_stretched n), firsts_of_same (stretched_same n), and_self]

theorem candidate_of_stretched (n : Nat) : utf8Length (candidate (stretched n) "Core").chars = n + 12 := by
  rw [candidate, join_stretched n (by decide), utf8_length_append, length_of_stretched]
  rfl

theorem unquote_plain : Text.unquote "a/b/Core.wbc" = "a/b/Core.wbc" := by decide +kernel

theorem plain_directory : nested.kind? "a/b" = some .directory := by decide +kernel

theorem run_plain_first (n : Nat) :
    ((ofReferences ["a/b/Core.wbc", stretchedReference n]).run nested).result =
      .ok ⟨["a/b/Core.wbc", stretchedReference n], ["a/b"]⟩ := by
  refine (of_references_eq_ok_iff _ _ _).mpr ⟨?_, ?_⟩
  · rw [(dirs_of_stretched n).1]
    exact List.forall_mem_singleton.mpr plain_directory
  · rw [(dirs_of_stretched n).1, List.map_cons, List.map_singleton, unquote_plain, unquote_stretched]

theorem run_stretched_first (n : Nat) (fits : n + 3 ≤ maxPathBytes) :
    ((ofReferences [stretchedReference n, "a/b/Core.wbc"]).run nested).result =
      .ok ⟨[stretchedReference n, "a/b/Core.wbc"], [stretched n]⟩ := by
  refine (of_references_eq_ok_iff _ _ _).mpr ⟨?_, ?_⟩
  · rw [(dirs_of_stretched n).2]
    exact List.forall_mem_singleton.mpr (stretched_directory n fits plain_directory)
  · rw [(dirs_of_stretched n).2, List.map_cons, List.map_singleton, unquote_plain, unquote_stretched]

theorem run_too_long_first (n : Nat) (long : maxPathBytes < n + 3) :
    ((ofReferences [stretchedReference n, "a/b/Core.wbc"]).run nested).result =
      .error (.referenceDirNotFound (stretched n)) := by
  have missing := @stretched_too_long nested n long
  rw [run_of_references, (dirs_of_stretched n).2, List.find?_cons_of_pos (by simpa using missing)]

end Stretched

section Reordered

open Loom.Path

structure Alike (fs : FileSystem) (search other : SearchPath) : Prop where
  knows : ∀ dir, other.knows dir = search.knows dir
  finds : ∀ reference : Identity, search.Searchable reference.name → other.Searchable reference.name →
    (other.found fs reference.name).isSome = (search.found fs reference.name).isSome
  place : ∀ reference : Identity, search.Searchable reference.name → other.Searchable reference.name →
    search.Unambiguous fs reference.name →
    (other.found fs reference.name).map Path.components = (search.found fs reference.name).map Path.components

theorem alike_of_perm {raws others : List String} (perm : others.Perm raws) {search other : SearchPath}
    (built : ((ofReferences raws).run fs).result = .ok search)
    (builtOther : ((ofReferences others).run fs).result = .ok other) : Alike fs search other := by
  obtain ⟨there, rfl⟩ := (of_references_eq_ok_iff fs raws search).mp built
  obtain ⟨thereOther, rfl⟩ := (of_references_eq_ok_iff fs others other).mp builtOther
  have finds : ∀ reference : Identity,
      Searchable ⟨raws.map Text.unquote, firsts (dirsOf raws)⟩ reference.name →
      Searchable ⟨others.map Text.unquote, firsts (dirsOf others)⟩ reference.name →
      (found fs ⟨others.map Text.unquote, firsts (dirsOf others)⟩ reference.name).isSome =
        (found fs ⟨raws.map Text.unquote, firsts (dirsOf raws)⟩ reference.name).isSome := by
    intro reference short shortOther
    rw [Bool.eq_iff_iff]
    exact ⟨found_is_some_of_known there (fun dir => first_of_perm perm) short,
      found_is_some_of_known thereOther (fun dir => first_of_perm perm.symm) shortOther⟩
  refine ⟨fun dir => ?_, finds, fun reference short shortOther alone => ?_⟩
  · rw [Bool.eq_iff_iff]
    exact ⟨knows_of_perm perm _ dir, knows_of_perm perm.symm _ dir⟩
  · have both := finds reference short shortOther
    cases here : found fs ⟨raws.map Text.unquote, firsts (dirsOf raws)⟩ reference.name with
    | none =>
        rw [here, Option.isSome_none, Option.isSome_eq_false_iff, Option.isNone_iff_eq_none] at both
        rw [both]
    | some path =>
        rw [here, Option.isSome_some, Option.isSome_iff_exists] at both
        obtain ⟨elsewhere, found⟩ := both
        have nonempty : ∀ dir ∈ firsts (dirsOf raws) ++ firsts (dirsOf others), dir.chars ≠ [] := fun dir member =>
          (List.mem_append.mp member).elim (fun own => nonempty_of_mem ((firsts_sublist _).subset own))
            fun own => nonempty_of_mem ((firsts_sublist _).subset own)
        rw [found, Option.map_some, Option.map_some]
        exact congrArg some (found_same_of_known there (fun dir => first_of_perm perm) nonempty short alone here found)

/-- Another order of the references is accepted unless a spelling that comes first there is too long. -/
theorem search_path_of_references {raws : List String} {search : SearchPath}
    (built : ((ofReferences raws).run fs).result = .ok search) :
    search.references = raws.map Text.unquote ∧
    search.dirs = firsts (dirsOf raws) ∧
    (∀ dir ∈ search.dirs, fs.kind? dir = some .directory) ∧
    (search.dirs.Pairwise fun a b => a.same b = false) ∧
    (∀ dir ∈ dirsOf raws, search.knows dir = true) ∧
    (∀ (path : SearchPath) reference,
      ((path.resolve reference : Task Failure _).run fs).result = .ok (path.found fs reference.name)) ∧
    ∀ others, others.Perm raws →
      ((∃ other, ((ofReferences others).run fs).result = .ok other) ↔
        ∀ dir ∈ firsts (dirsOf others), utf8Length dir.chars ≤ maxPathBytes) ∧
      ∀ other, ((ofReferences others).run fs).result = .ok other → Alike fs search other := by
  obtain ⟨there, rfl⟩ := (of_references_eq_ok_iff fs raws search).mp built
  refine ⟨rfl, rfl, there, firsts_pairwise _, fun dir member => (knows_iff _ _).mpr (first_of_mem member),
    fun path reference => run_resolve fs path reference, fun others perm => ⟨?_, fun other => alike_of_perm perm built⟩⟩
  rw [← directories_of_perm perm there]
  constructor
  · intro accepted
    obtain ⟨other, builtOther⟩ := accepted
    exact ((of_references_eq_ok_iff fs others other).mp builtOther).1
  · intro thereOther
    exact ⟨_, (of_references_eq_ok_iff fs others _).mpr ⟨thereOther, rfl⟩⟩

theorem search_path_of_two_spellings :
    ((ofReferences ["a/b/Core.wbc", "'a//./b/Game.wbc' "]).run nested).result =
      .ok ⟨["a/b/Core.wbc", "a//./b/Game.wbc"], ["a/b"]⟩ ∧
    ∃ other, ((ofReferences ["'a//./b/Game.wbc' ", "a/b/Core.wbc"]).run nested).result = .ok other ∧
      Alike nested ⟨["a/b/Core.wbc", "a//./b/Game.wbc"], ["a/b"]⟩ other := by
  have built : ((ofReferences ["a/b/Core.wbc", "'a//./b/Game.wbc' "]).run nested).result =
      .ok ⟨["a/b/Core.wbc", "a//./b/Game.wbc"], ["a/b"]⟩ := by decide +kernel
  have first : firsts (dirsOf ["'a//./b/Game.wbc' ", "a/b/Core.wbc"]) = [("a//./b" : Path)] := by
    decide +kernel
  obtain ⟨accepted, alike⟩ := (search_path_of_references built).2.2.2.2.2.2 _ (List.Perm.swap _ _ [])
  obtain ⟨other, builtOther⟩ := accepted.mpr (by rw [first]; decide +kernel)
  exact ⟨built, other, builtOther, alike other builtOther⟩

/-- The spelling that comes first decides. One that is too long is no directory, and one that is a directory can still
be too long with a file name behind it. -/
theorem order_of_spellings_decides :
    (((ofReferences ["a/b/Core.wbc", stretchedReference 4100]).run nested).result =
        .ok ⟨["a/b/Core.wbc", stretchedReference 4100], ["a/b"]⟩ ∧
      ((ofReferences [stretchedReference 4100, "a/b/Core.wbc"]).run nested).result =
        .error (.referenceDirNotFound (stretched 4100))) ∧
    (((ofReferences ["a/b/Core.wbc", stretchedReference 4088]).run nested).result =
        .ok ⟨["a/b/Core.wbc", stretchedReference 4088], ["a/b"]⟩ ∧
      ((ofReferences [stretchedReference 4088, "a/b/Core.wbc"]).run nested).result =
        .ok ⟨[stretchedReference 4088, "a/b/Core.wbc"], [stretched 4088]⟩) ∧
    ((resolve ⟨["a/b/Core.wbc", stretchedReference 4088], ["a/b"]⟩ ⟨"Core", "1.0"⟩ : Task Failure _).run nested).result =
        .ok (some ("a/b/Core.wbc" : Path)) ∧
      ((resolve ⟨[stretchedReference 4088, "a/b/Core.wbc"], [stretched 4088]⟩ ⟨"Core", "1.0"⟩ :
        Task Failure _).run nested).result = .ok none := by
  refine ⟨⟨run_plain_first _, run_too_long_first _ (by decide)⟩,
    ⟨run_plain_first _, run_stretched_first _ (by decide)⟩, ?_, ?_⟩
  · have here : found nested ⟨[], ["a/b"]⟩ "Core" = some (ofString "a/b/Core.wbc") := by decide +kernel
    rw [run_resolve]
    exact congrArg Except.ok here
  · have missing : nested.kind? (candidate (stretched 4088) "Core") ≠ some .file := by
      intro file
      obtain ⟨_, there, _⟩ := (kind_eq_some_iff nested _ _).mp file
      have short := ((find_eq_ok_iff nested _ _ _).mp there).1.legal.short
      rw [candidate_of_stretched] at short
      exact absurd short (by decide)
    rw [run_resolve, found, List.find?_cons_of_neg (by simpa using missing)]
    rfl

end Reordered

end Loom.SearchPath
