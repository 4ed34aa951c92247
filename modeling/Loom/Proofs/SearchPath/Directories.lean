import Loom.Proofs.Loading

set_option autoImplicit false

namespace Loom

theorem Path.same_iff (p q : Path) : p.same q = true ↔ p.components = q.components := decide_eq_true_iff

namespace SearchPath

open Loom.Task

def dirsOf (raws : List String) : List Path := raws.filterMap fun raw => dirOf? (Text.unquote raw)

def firsts : List Path → List Path
  | [] => []
  | dir :: rest => dir :: (firsts rest).filter fun other => !dir.same other

def knows (search : SearchPath) (dir : Path) : Bool := search.dirs.any (·.same dir)

theorem knows_iff (search : SearchPath) (dir : Path) :
    search.knows dir = true ↔ ∃ known ∈ search.dirs, known.same dir = true := List.any_eq_true

theorem knows_of_same {search : SearchPath} {dir other : Path} (known : search.knows dir = true)
    (same : dir.same other = true) : search.knows other = true := by
  obtain ⟨first, member, spelt⟩ := (knows_iff search dir).mp known
  rw [Path.same_iff] at same spelt
  exact (knows_iff search other).mpr ⟨first, member, (Path.same_iff _ _).mpr (spelt.trans same)⟩

theorem dirs_of_concat (raws : List String) (raw : String) :
    dirsOf (raws ++ [raw]) = dirsOf raws ++ (dirOf? (Text.unquote raw)).toList := by
  rw [dirsOf, dirsOf, List.filterMap_append, List.filterMap_cons, List.filterMap_nil]
  cases dirOf? (Text.unquote raw) <;> rfl

def listing (search : SearchPath) (raw : String) : SearchPath :=
  { search with references := search.references ++ [Text.unquote raw] }

section Firsts

theorem firsts_sublist (dirs : List Path) : (firsts dirs).Sublist dirs := by
  induction dirs with
  | nil => exact List.Sublist.slnil
  | cons dir rest ih => exact (List.filter_sublist.trans ih).cons_cons dir

theorem firsts_pairwise (dirs : List Path) : (firsts dirs).Pairwise fun a b => a.same b = false := by
  induction dirs with
  | nil => exact List.Pairwise.nil
  | cons dir rest ih =>
      refine List.pairwise_cons.mpr ⟨fun other member => ?_, ih.sublist List.filter_sublist⟩
      simpa using (List.mem_filter.mp member).2

theorem first_of_mem {dirs : List Path} {dir : Path} (member : dir ∈ dirs) :
    ∃ first ∈ firsts dirs, first.same dir = true := by
  induction dirs with
  | nil => cases member
  | cons head rest ih =>
      by_cases same : head.same dir = true
      · exact ⟨head, List.mem_cons_self, same⟩
      · have later : dir ∈ rest := by
          rcases List.mem_cons.mp member with now | later
          · exact absurd ((Path.same_iff _ _).mpr (congrArg Path.components now.symm)) same
          · exact later
        obtain ⟨first, kept, spelt⟩ := ih later
        refine ⟨first, List.mem_cons_of_mem head (List.mem_filter.mpr ⟨kept, ?_⟩), spelt⟩
        rw [Path.same_iff] at same spelt
        rw [Bool.not_eq_true', ← Bool.not_eq_true, Path.same_iff]
        exact fun whole => same (whole.trans spelt)

end Firsts

section Adding

-- What adding a reference comes to: it is listed in any case. Its directory is registered if it is a directory that
-- is not registered yet.
theorem run_add {ε : Type} (fs : FileSystem) (search : SearchPath) (raw : String) :
    ((search.add raw : Task ε _).run fs).result = .ok
      (match dirOf? (Text.unquote raw) with
        | none => (.ok (), search.listing raw)
        | some dir =>
          if search.knows dir then (.ok (), search.listing raw)
          else if fs.kind? dir = some .directory then
            (.ok (), { search.listing raw with dirs := search.dirs ++ [dir] })
          else (.error (.referenceDirNotFound dir), search.listing raw)) := by
  unfold add
  dsimp only
  cases dirOf? (Text.unquote raw) with
  | none => rfl
  | some dir =>
      dsimp only
      by_cases known : search.knows dir = true
      · rw [if_pos known, if_pos (show search.dirs.any _ = true from known)]
        rfl
      · rw [if_neg known, if_neg (show ¬ search.dirs.any _ = true from known), run_bind_result]
        change (Task.run (if decide (fs.kind? dir = some .directory) = true then _ else _) fs).result = _
        by_cases there : fs.kind? dir = some .directory
        · rw [if_pos (decide_eq_true there), if_pos there]
          rfl
        · rw [if_neg (by simpa using there), if_neg there]
          rfl

@[irreducible] def added (fs : FileSystem) (search : SearchPath) (raw : String) : Except Failure Unit × SearchPath :=
  match ((search.add raw : Task Empty _).run fs).result with
  | .ok answer => answer
  | .error e => nomatch e

theorem added_eq (fs : FileSystem) (search : SearchPath) (raw : String) :
    added fs search raw =
      match dirOf? (Text.unquote raw) with
      | none => (.ok (), search.listing raw)
      | some dir =>
        if search.knows dir then (.ok (), search.listing raw)
        else if fs.kind? dir = some .directory then
          (.ok (), { search.listing raw with dirs := search.dirs ++ [dir] })
        else (.error (.referenceDirNotFound dir), search.listing raw) := by
  unfold added
  rw [run_add]

theorem added_references (fs : FileSystem) (search : SearchPath) (raw : String) :
    (added fs search raw).2.references = search.references ++ [Text.unquote raw] := by
  rw [added_eq]
  split
  · rfl
  · split
    · rfl
    · split <;> rfl

theorem added_of_error {fs : FileSystem} {search : SearchPath} {raw : String} {e : Failure}
    (rejected : (added fs search raw).1 = .error e) : (added fs search raw).2 = search.listing raw := by
  rw [added_eq] at rejected ⊢
  cases parent : dirOf? (Text.unquote raw) with
  | none => rfl
  | some dir =>
      rw [parent] at rejected
      dsimp only at rejected ⊢
      split at rejected
      · cases rejected
      · rename_i unknown
        split at rejected
        · cases rejected
        · rename_i missing
          rw [if_neg unknown, if_neg missing]

theorem added_congr (fs : FileSystem) {search other : SearchPath} (dirs : search.dirs = other.dirs) (raw : String) :
    (added fs search raw).1 = (added fs other raw).1 ∧ (added fs search raw).2.dirs = (added fs other raw).2.dirs := by
  have known : ∀ dir, search.knows dir = other.knows dir := fun dir => by rw [knows, knows, dirs]
  rw [added_eq, added_eq]
  cases dirOf? (Text.unquote raw) with
  | none => exact ⟨rfl, dirs⟩
  | some dir =>
      dsimp only
      rw [known]
      split
      · exact ⟨rfl, dirs⟩
      · split
        · exact ⟨rfl, congrArg (· ++ [dir]) dirs⟩
        · exact ⟨rfl, dirs⟩

end Adding

section Rejected

def addEach (search : SearchPath) (calls : List (FileSystem × String)) : SearchPath :=
  calls.foldl (fun search call => (added call.1 search call.2).2) search

def acceptedOf (search : SearchPath) : List (FileSystem × String) → List (FileSystem × String)
  | [] => []
  | call :: rest =>
    match (added call.1 search call.2).1 with
    | .ok _ => call :: acceptedOf (added call.1 search call.2).2 rest
    | .error _ => acceptedOf (added call.1 search call.2).2 rest

theorem add_each_cons (search : SearchPath) (call : FileSystem × String) (rest : List (FileSystem × String)) :
    search.addEach (call :: rest) = (added call.1 search call.2).2.addEach rest := List.foldl_cons ..

theorem accepted_of_cons (search : SearchPath) (call : FileSystem × String) (rest : List (FileSystem × String)) :
    search.acceptedOf (call :: rest) =
      match (added call.1 search call.2).1 with
      | .ok _ => call :: acceptedOf (added call.1 search call.2).2 rest
      | .error _ => acceptedOf (added call.1 search call.2).2 rest := rfl

theorem add_each_references (search : SearchPath) (calls : List (FileSystem × String)) :
    (search.addEach calls).references = search.references ++ calls.map fun call => Text.unquote call.2 := by
  induction calls generalizing search with
  | nil => exact (List.append_nil _).symm
  | cons call rest ih => rw [add_each_cons, ih, added_references, List.map_cons, List.append_assoc]; rfl

theorem add_each_congr {search other : SearchPath} (dirs : search.dirs = other.dirs) (calls : List (FileSystem × String)) :
    search.acceptedOf calls = other.acceptedOf calls ∧ (search.addEach calls).dirs = (other.addEach calls).dirs := by
  induction calls generalizing search other with
  | nil => exact ⟨rfl, dirs⟩
  | cons call rest ih =>
      obtain ⟨answer, next⟩ := added_congr call.1 dirs call.2
      obtain ⟨accepted, after⟩ := ih next
      rw [add_each_cons, add_each_cons, accepted_of_cons, accepted_of_cons, answer, accepted]
      exact ⟨rfl, after⟩

theorem add_each_accepted (search : SearchPath) (calls : List (FileSystem × String)) :
    (search.addEach calls).dirs = (search.addEach (search.acceptedOf calls)).dirs ∧
      search.acceptedOf (search.acceptedOf calls) = search.acceptedOf calls := by
  -- A rejected call changes nothing that the calls after it look at.
  induction calls generalizing search with
  | nil => exact ⟨rfl, rfl⟩
  | cons call rest ih =>
      obtain ⟨dirs, again⟩ := ih (added call.1 search call.2).2
      rw [add_each_cons, accepted_of_cons]
      cases answer : (added call.1 search call.2).1 with
      | ok _ =>
          dsimp only
          rw [add_each_cons, accepted_of_cons, answer]
          exact ⟨dirs, congrArg (call :: ·) again⟩
      | error e =>
          have kept : (added call.1 search call.2).2.dirs = search.dirs := by rw [added_of_error answer]; rfl
          dsimp only
          rw [dirs, (add_each_congr kept _).2]
          rw [(add_each_congr kept _).1] at again
          exact ⟨rfl, again⟩

/-- A rejected reference is listed and does nothing else, on whatever trees the calls are made. -/
theorem rejected_references_add_no_directory (calls : List (FileSystem × String)) :
    (∀ fs raw e, (added fs (addEach {} calls) raw).1 = .error e →
      (added fs (addEach {} calls) raw).2 = (addEach {} calls).listing raw ∧
      ∀ dir, (added fs (addEach {} calls) raw).2.knows dir = (addEach {} calls).knows dir) ∧
    addEach {} calls =
      { addEach {} (acceptedOf {} calls) with references := calls.map fun call => Text.unquote call.2 } ∧
    (addEach {} (acceptedOf {} calls)).references = (acceptedOf {} calls).map (fun call => Text.unquote call.2) ∧
    acceptedOf {} (acceptedOf {} calls) = acceptedOf {} calls := by
  obtain ⟨dirs, again⟩ := add_each_accepted {} calls
  refine ⟨fun fs raw e rejected => ?_, ?_, add_each_references {} _, again⟩
  · rw [added_of_error rejected]
    exact ⟨rfl, fun dir => rfl⟩
  · have listed := add_each_references {} calls
    cases whole : addEach {} calls with
    | mk references own =>
        rw [whole] at dirs listed
        dsimp only at dirs listed
        rw [dirs, listed]
        rfl

theorem rejected_reference_stays_listed :
    added ⟨[], []⟩ {} "nowhere/Core.wbc" = (.error (.referenceDirNotFound "nowhere"), ⟨["nowhere/Core.wbc"], []⟩) ∧
      addEach {} [(⟨[], []⟩, "nowhere/Core.wbc")] ≠ addEach {} (acceptedOf {} [(⟨[], []⟩, "nowhere/Core.wbc")]) := by
  decide +kernel

end Rejected

section Building

def fresh (search : SearchPath) (raws : List String) : List Path :=
  (firsts (dirsOf raws)).filter fun dir => !search.knows dir

theorem fresh_cons_none {search : SearchPath} {raw : String} (rest : List String)
    (bare : dirOf? (Text.unquote raw) = none) : search.fresh (raw :: rest) = search.fresh rest := by
  simp only [fresh, dirsOf, List.filterMap_cons, bare]

theorem fresh_cons_some {search : SearchPath} {raw : String} {dir : Path} (rest : List String)
    (parent : dirOf? (Text.unquote raw) = some dir) :
    search.fresh (raw :: rest) =
      if search.knows dir then search.fresh rest
      else dir :: ({ search with dirs := search.dirs ++ [dir] } : SearchPath).fresh rest := by
  simp only [fresh, dirsOf, List.filterMap_cons, parent, firsts]
  by_cases known : search.knows dir = true
  · rw [if_pos known, List.filter_cons_of_neg (by simp [known]), List.filter_filter]
    apply List.filter_congr
    intro other _
    by_cases same : dir.same other = true
    · rw [knows_of_same known same, Bool.not_true, Bool.false_and]
    · rw [Bool.not_eq_true] at same
      rw [same, Bool.not_false, Bool.and_true]
  · rw [if_neg known, List.filter_cons_of_pos (by simp [known]), List.filter_filter]
    refine congrArg (dir :: ·) (List.filter_congr fun other _ => ?_)
    rw [knows, knows, List.any_append, List.any_cons, List.any_nil, Bool.or_false, Bool.not_or]

@[simp] theorem fresh_listing (search : SearchPath) (raw : String) (raws : List String) :
    (search.listing raw).fresh raws = search.fresh raws := rfl

theorem run_add_all (fs : FileSystem) (search : SearchPath) (raws : List String) :
    ((search.addAll raws).run fs).result =
      match (search.fresh raws).find? fun dir => decide (fs.kind? dir ≠ some .directory) with
      | some dir => .error (.referenceDirNotFound dir)
      | none => .ok ⟨search.references ++ raws.map Text.unquote, search.dirs ++ search.fresh raws⟩ := by
  induction raws generalizing search with
  | nil => simp [addAll, fresh, dirsOf, firsts, pure, run]
  | cons raw rest ih =>
      have still : ((search.add raw : Task Failure _).run fs).files = fs :=
        looks_files (looks_add search raw : (search.add raw : Task Failure _).Looks fs _ fun _ => True)
      rw [addAll, run_bind_result, run_add, still]
      cases parent : dirOf? (Text.unquote raw) with
      | none =>
          dsimp only
          rw [fresh_cons_none rest parent]
          refine (ih (search.listing raw)).trans ?_
          simp only [fresh_listing]
          simp only [listing, List.map_cons, List.append_assoc, List.singleton_append]
      | some dir =>
          dsimp only
          rw [fresh_cons_some rest parent]
          by_cases known : search.knows dir = true
          · rw [if_pos known, if_pos known]
            refine (ih (search.listing raw)).trans ?_
            simp only [fresh_listing]
            simp only [listing, List.map_cons, List.append_assoc, List.singleton_append]
          · rw [if_neg known, if_neg known]
            by_cases there : fs.kind? dir = some .directory
            · rw [if_pos there, List.find?_cons_of_neg (by simpa using there)]
              refine (ih { search.listing raw with dirs := search.dirs ++ [dir] }).trans ?_
              simp only [← fresh_listing { search with dirs := search.dirs ++ [dir] } raw]
              simp only [listing, List.map_cons, List.append_assoc, List.singleton_append]
            · rw [if_neg there, List.find?_cons_of_pos (by simpa using there)]
              rfl

theorem run_of_references (fs : FileSystem) (raws : List String) :
    ((ofReferences raws).run fs).result =
      match (firsts (dirsOf raws)).find? fun dir => decide (fs.kind? dir ≠ some .directory) with
      | some dir => .error (.referenceDirNotFound dir)
      | none => .ok ⟨raws.map Text.unquote, firsts (dirsOf raws)⟩ := by
  have all : ({} : SearchPath).fresh raws = firsts (dirsOf raws) := List.filter_eq_self.mpr fun _ _ => rfl
  rw [ofReferences, run_add_all, all]
  rfl

theorem of_references_eq_ok_iff (fs : FileSystem) (raws : List String) (search : SearchPath) :
    ((ofReferences raws).run fs).result = .ok search ↔
      (∀ dir ∈ firsts (dirsOf raws), fs.kind? dir = some .directory) ∧
        search = ⟨raws.map Text.unquote, firsts (dirsOf raws)⟩ := by
  rw [run_of_references]
  cases missing : (firsts (dirsOf raws)).find? fun dir => decide (fs.kind? dir ≠ some .directory) with
  | some dir =>
      have absent : fs.kind? dir ≠ some .directory := by simpa using List.find?_some missing
      constructor
      · intro done
        cases done
      · intro facts
        exact absurd (facts.1 dir (List.mem_of_find?_eq_some missing)) absent
  | none =>
      have there : ∀ dir ∈ firsts (dirsOf raws), fs.kind? dir = some .directory := by simpa using missing
      rw [Except.ok.injEq, and_iff_right there, eq_comm]

end Building

section Resolving

def found (fs : FileSystem) (search : SearchPath) (moduleName : String) : Option Path :=
  (search.dirs.find? fun dir => decide (fs.kind? (candidate dir moduleName) = some .file)).map (candidate · moduleName)

theorem run_resolve {ε : Type} (fs : FileSystem) (search : SearchPath) (reference : Identity) :
    ((search.resolve reference : Task ε _).run fs).result = .ok (search.found fs reference.name) := by
  unfold resolve found
  induction search.dirs with
  | nil => rfl
  | cons dir rest ih =>
      rw [findIn, run_bind_result]
      change (Task.run (if decide (fs.kind? (candidate dir reference.name) = some .file) = true then _ else _) fs).result = _
      by_cases here : fs.kind? (candidate dir reference.name) = some .file
      · rw [List.find?_cons_of_pos (by simpa using here), if_pos (decide_eq_true here)]
        rfl
      · rw [List.find?_cons_of_neg (by simpa using here), if_neg (by simpa using here)]
        exact ih

end Resolving

end SearchPath

end Loom
