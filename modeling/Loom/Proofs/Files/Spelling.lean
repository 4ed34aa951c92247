import Loom.Proofs.Files.Directories

set_option autoImplicit false

/-! Paths with the same components lead to the same place, as long as no spelling is longer than a path may be. -/
namespace Loom

namespace Path

def kept : List (List Char) → List Component
  | [] => []
  | first :: rest =>
    (if first = [] then [] else [componentOf first]) ++
      (rest.filter fun piece => decide (piece ≠ [] ∧ piece ≠ ['.'])).map componentOf

theorem steps_from_behind (done : List Char) (ps : List (List Char)) :
    (stepsFrom (some done) ps).map (·.1) =
      (ps.filter fun piece => decide (piece ≠ [] ∧ piece ≠ ['.'])).map componentOf := by
  induction ps generalizing done with
  | nil => rfl
  | cons piece rest ih =>
      rw [steps_from_cons, upTo]
      by_cases skipped : piece = [] ∨ piece = ['.']
      · rw [if_pos (skipped.imp_right fun dot => ⟨dot, rfl⟩), ih, List.filter_cons_of_neg (by simp; tauto)]
      · rw [if_neg fun found => skipped (found.imp_right And.left), List.map_cons, ih,
          List.filter_cons_of_pos (by simp; tauto)]
        rfl

theorem components_eq (p : Path) :
    p.components = (if p.isAbsolute then [.root] else []) ++ kept (pieces p.chars) := by
  have stepped : p.steps.map (·.1) = kept (pieces p.chars) := by
    unfold steps
    cases pieces p.chars with
    | nil => rfl
    | cons first rest =>
        rw [steps_from_cons, upTo, kept]
        by_cases empty : first = []
        · rw [if_pos (.inl empty), if_pos empty, steps_from_behind]
          rfl
        · rw [if_neg (by simp [empty]), if_neg empty, List.map_cons, steps_from_behind]
          rfl
  rw [components, stepped]

theorem root_not_kept (ps : List (List Char)) : Component.root ∉ kept ps := by
  have other : ∀ piece, componentOf piece ≠ .root := by
    intro piece
    unfold componentOf
    split
    · exact Component.noConfusion
    · split <;> exact Component.noConfusion
  cases ps with
  | nil => exact List.not_mem_nil
  | cons first rest =>
      intro member
      rcases List.mem_append.mp member with head | later
      · split at head
        · cases head
        · exact other first (List.mem_singleton.mp head).symm
      · obtain ⟨piece, _, same⟩ := List.mem_map.mp later
        exact other piece same

theorem is_absolute_iff (p : Path) : p.isAbsolute = true ↔ Component.root ∈ p.components := by
  rw [components_eq]
  cases p.isAbsolute with
  | true => simp
  | false => simpa using root_not_kept (pieces p.chars)

def Component.name? : Component → Option (List Char)
  | .root | .here => none
  | .up => some ['.', '.']
  | .name chars => some chars

theorem name_of_component (piece : List Char) :
    (componentOf piece).name? = if piece = ['.'] then none else some piece := by
  unfold componentOf
  by_cases dot : piece = ['.']
  · rw [if_pos dot, if_pos dot]
    rfl
  · rw [if_neg dot, if_neg dot]
    split
    · rename_i dots
      rw [dots]
      rfl
    · rfl

theorem names_of_kept (ps : List (List Char)) :
    (kept ps).filterMap Component.name? = (ps.filter (· ≠ [])).filter (· ≠ ['.']) := by
  have behind : ∀ rest : List (List Char),
      ((rest.filter fun piece => decide (piece ≠ [] ∧ piece ≠ ['.'])).map componentOf).filterMap Component.name? =
        (rest.filter (· ≠ [])).filter (· ≠ ['.']) := by
    intro rest
    rw [List.filterMap_map, List.filter_filter]
    induction rest with
    | nil => rfl
    | cons piece rest ih =>
        by_cases skipped : piece = [] ∨ piece = ['.']
        · rw [List.filter_cons_of_neg (by simp; tauto), List.filter_cons_of_neg (by simp; tauto), ih]
        · rw [List.filter_cons_of_pos (by simp; tauto), List.filter_cons_of_pos (by simp; tauto),
            List.filterMap_cons_some (b := piece), ih]
          rw [Function.comp_apply, name_of_component, if_neg fun dot => skipped (.inr dot)]
  cases ps with
  | nil => rfl
  | cons first rest =>
      rw [kept, List.filterMap_append, behind]
      by_cases empty : first = []
      · rw [if_pos empty, List.filter_cons_of_neg (by simpa using empty)]
        rfl
      · rw [if_neg empty, List.filter_cons_of_pos (by simpa using empty), List.filterMap_cons, name_of_component]
        by_cases dot : first = ['.']
        · rw [if_pos dot, List.filter_cons_of_neg (by simpa using dot)]
          rfl
        · rw [if_neg dot, List.filter_cons_of_pos (by simpa using dot)]
          rfl

theorem names_without_dots (p : Path) :
    (FileSystem.names p).filter (· ≠ ['.']) = p.components.filterMap Component.name? := by
  rw [components_eq, List.filterMap_append, names_of_kept]
  cases p.isAbsolute <;> rfl

theorem mem_piece_of_mem {cs : List Char} {c : Char} (member : c ∈ cs) (plain : c ≠ '/') :
    ∃ piece ∈ pieces cs, c ∈ piece := by
  induction cs with
  | nil => cases member
  | cons head rest ih =>
      by_cases slash : head = '/'
      · have later := (List.mem_cons.mp member).resolve_left fun same => plain (same.trans slash)
        obtain ⟨piece, listed, inside⟩ := ih later
        rw [pieces, if_pos slash]
        exact ⟨piece, List.mem_cons_of_mem _ listed, inside⟩
      · obtain ⟨first, others, whole, grown⟩ := pieces_cons_other slash rest
        rw [grown]
        rcases List.mem_cons.mp member with same | later
        · exact ⟨head :: first, List.mem_cons_self, same ▸ List.mem_cons_self⟩
        · obtain ⟨piece, listed, inside⟩ := ih later
          rw [whole] at listed
          rcases List.mem_cons.mp listed with first' | further
          · exact ⟨head :: first, List.mem_cons_self, List.mem_cons_of_mem _ (first' ▸ inside)⟩
          · exact ⟨piece, List.mem_cons_of_mem _ further, inside⟩

theorem mem_of_mem_piece {cs piece : List Char} {c : Char} (listed : piece ∈ pieces cs) (inside : c ∈ piece) :
    c ∈ cs := by
  induction cs generalizing piece with
  | nil =>
      rw [List.mem_singleton.mp listed] at inside
      cases inside
  | cons head rest ih =>
      by_cases slash : head = '/'
      · rw [pieces, if_pos slash] at listed
        rcases List.mem_cons.mp listed with empty | later
        · rw [empty] at inside
          cases inside
        · exact List.mem_cons_of_mem _ (ih later inside)
      · obtain ⟨first, others, whole, grown⟩ := pieces_cons_other slash rest
        rw [whole] at ih
        rw [grown] at listed
        rcases List.mem_cons.mp listed with longer | later
        · rw [longer] at inside
          rcases List.mem_cons.mp inside with same | further
          · exact same ▸ List.mem_cons_self
          · exact List.mem_cons_of_mem _ (ih List.mem_cons_self further)
        · exact List.mem_cons_of_mem _ (ih (List.mem_cons_of_mem _ later) inside)

theorem mem_chars_iff {p : Path} {c : Char} (slash : c ≠ '/') (dot : c ≠ '.') :
    c ∈ p.chars ↔ ∃ name ∈ (FileSystem.names p).filter (· ≠ ['.']), c ∈ name := by
  constructor
  · intro member
    obtain ⟨piece, listed, inside⟩ := mem_piece_of_mem member slash
    refine ⟨piece, List.mem_filter.mpr ⟨List.mem_filter.mpr ⟨listed, ?_⟩, ?_⟩, inside⟩
    · simpa using List.ne_nil_of_mem inside
    · simp only [decide_eq_true_eq]
      intro same
      rw [same] at inside
      exact dot (List.mem_singleton.mp inside)
  · intro found
    obtain ⟨name, listed, inside⟩ := found
    exact mem_of_mem_piece (List.mem_filter.mp (List.mem_filter.mp listed).1).1 inside

end Path

namespace FileSystem

variable {p q : Path} (same : p.components = q.components)
include same

theorem names_of_same : (names p).filter (· ≠ ['.']) = (names q).filter (· ≠ ['.']) := by
  rw [Path.names_without_dots, Path.names_without_dots, same]

theorem base_of_same (fs : FileSystem) : fs.base p = fs.base q := by
  have absolute : p.isAbsolute = q.isAbsolute := by
    rw [Bool.eq_iff_iff, Path.is_absolute_iff, Path.is_absolute_iff, same]
  rw [base, base, absolute]

theorem spot_of_same (fs : FileSystem) : fs.spot p = fs.spot q := by
  rw [spot, spot, ← follow_without_dots, ← follow_without_dots _ (names q), base_of_same same, names_of_same same]

theorem legal_of_same (legal : Legal p) (nonempty : q.chars ≠ []) (short : utf8Length q.chars ≤ maxPathBytes) :
    Legal q := by
  refine ⟨nonempty, ?_, short, fun name member => ?_⟩
  · have plain := legal.plain
    rw [← Bool.not_eq_true, List.contains_iff_mem, Path.mem_chars_iff (by decide) (by decide)] at plain ⊢
    rwa [← names_of_same same]
  · by_cases dot : name = ['.']
    · rw [dot]
      decide
    · have listed : name ∈ (names p).filter (· ≠ ['.']) := by
        rw [names_of_same same]
        exact List.mem_filter.mpr ⟨member, by simpa using dot⟩
      exact legal.shortNames name (List.mem_filter.mp listed).1

-- A directory is one under all its spellings that are short enough.
theorem directory_of_same {fs : FileSystem} (there : fs.kind? p = some .directory) (nonempty : q.chars ≠ [])
    (short : utf8Length q.chars ≤ maxPathBytes) : fs.kind? q = some .directory := by
  obtain ⟨entry, found, kind⟩ := (kind_eq_some_iff fs p .directory).mp there
  obtain ⟨⟨legal, directories⟩, place, entryThere, _⟩ := (find_eq_ok_iff fs p _ entry).mp found
  cases entry with
  | file content => cases kind
  | directory =>
      have reaches : fs.Reaches q := by
        refine ⟨legal_of_same same legal nonempty short, fun d member => ?_⟩
        rcases passed_without_dots _ _ d member with through | ⟨loose, last⟩
        · rw [← base_of_same same, ← names_of_same same] at through
          exact directories d (mem_passed_of_without_dots _ _ d through)
        · rw [spot_of_same same fs] at entryThere
          rw [last]
          exact (look_of_loose fs loose).symm.trans entryThere
      refine (kind_eq_some_iff fs q .directory).mpr ⟨.directory, (find_eq_ok_iff fs q _ _).mpr ⟨reaches, rfl, ?_, fun _ => rfl⟩, rfl⟩
      rwa [← spot_of_same same]

end FileSystem

section Joining

variable {cs : List Char} (relative : cs.head? ≠ some '/')

namespace Path

include relative in
theorem join_relative (p : Path) : p.join cs = ⟨p.lead ++ cs⟩ := by
  rw [join, if_neg relative, lead]
  split
  · rfl
  · rw [List.append_assoc]
    rfl

theorem pieces_lead {p : Path} (nonempty : p.chars ≠ []) (cs : List Char) :
    ∃ ps, pieces (p.lead ++ cs) = ps ++ pieces cs ∧ (pieces p.chars = ps ∨ pieces p.chars = ps ++ [[]]) ∧ ps ≠ [] := by
  rcases lead_cases p with ⟨empty, _⟩ | ⟨front, slashed, same | ended⟩
  · exact absurd empty nonempty
  · refine ⟨pieces front, ?_, .inl (congrArg pieces same), pieces_ne_nil front⟩
    rw [slashed, List.append_assoc, List.singleton_append, pieces_append]
  · refine ⟨pieces front, ?_, .inr ?_, pieces_ne_nil front⟩
    · rw [slashed, List.append_assoc, List.singleton_append, pieces_append]
    · rw [ended, pieces_append]
      rfl

theorem kept_append {ps : List (List Char)} (nonempty : ps ≠ []) (qs : List (List Char)) :
    kept (ps ++ qs) = kept ps ++ (qs.filter fun piece => decide (piece ≠ [] ∧ piece ≠ ['.'])).map componentOf := by
  cases ps with
  | nil => exact absurd rfl nonempty
  | cons first rest => rw [List.cons_append, kept, kept, List.filter_append, List.map_append, List.append_assoc]

include relative

theorem names_join_relative (p : Path) :
    FileSystem.names (p.join cs) = FileSystem.names p ++ FileSystem.names ⟨cs⟩ := by
  rw [join_relative relative]
  by_cases empty : p.chars = []
  · have bare : p.lead = [] := by rw [lead, if_pos (.inl empty), empty]
    rw [bare, FileSystem.names, FileSystem.names, empty]
    rfl
  · obtain ⟨ps, joined, own | own, _⟩ := pieces_lead empty cs
    · rw [FileSystem.names, FileSystem.names, joined, own, List.filter_append]
      rfl
    · rw [FileSystem.names, FileSystem.names, joined, own, List.filter_append, List.filter_append,
        List.filter_cons_of_neg (by simp), List.filter_nil, List.append_nil]
      rfl

theorem is_absolute_join_relative (p : Path) : (p.join cs).isAbsolute = p.isAbsolute := by
  rw [join_relative relative]
  unfold isAbsolute
  rcases lead_cases p with ⟨empty, bare⟩ | ⟨front, slashed, same | ended⟩
  · simp [empty, bare, relative]
  · rw [slashed, same]
    cases front with
    | nil => simp [lead, same] at slashed
    | cons c cs => rfl
  · rw [slashed, ended]
    cases front with
    | nil => rfl
    | cons c cs => rfl

theorem components_join_relative {p : Path} (nonempty : p.chars ≠ []) :
    (p.join cs).components = p.components ++
      ((pieces cs).filter fun piece => decide (piece ≠ [] ∧ piece ≠ ['.'])).map componentOf := by
  rw [components_eq, components_eq, is_absolute_join_relative relative, join_relative relative]
  obtain ⟨ps, joined, own | own, started⟩ := pieces_lead nonempty cs
  · rw [joined, own, kept_append started, List.append_assoc]
  · rw [joined, own, kept_append started, kept_append started, List.append_assoc]
    simp

end Path

namespace FileSystem

include relative

theorem base_join_relative (fs : FileSystem) (p : Path) : fs.base (p.join cs) = fs.base p := by
  rw [base, base, Path.is_absolute_join_relative relative]

theorem spot_join_relative (fs : FileSystem) (p : Path) :
    fs.spot (p.join cs) = follow (fs.spot p) (names ⟨cs⟩) := by
  rw [spot, spot, base_join_relative relative, Path.names_join_relative relative, follow_append]

theorem passed_join_relative (fs : FileSystem) (p : Path) :
    passed (fs.base (p.join cs)) (names (p.join cs)) =
      passed (fs.base p) (names p) ++ passed (fs.spot p) (names ⟨cs⟩) := by
  rw [base_join_relative relative, Path.names_join_relative relative, passed_append]
  rfl

variable (named : names ⟨cs⟩ ≠ [])
include named

theorem ending_join_relative (p : Path) : ending (p.join cs) = ending ⟨cs⟩ := by
  have nonempty : cs ≠ [] := by
    intro empty
    rw [empty] at named
    exact named rfl
  have last : (p.join cs).chars.getLast? = cs.getLast? := by
    rw [Path.join_relative relative, List.getLast?_append, List.getLast?_eq_some_getLast nonempty, Option.some_or]
  rw [ending, ending, Path.names_join_relative relative, List.getLast?_append,
    List.getLast?_eq_some_getLast named, Option.some_or]
  simp only [last]

variable {p q : Path}

theorem legal_join_of_same (file : Legal (p.join cs)) (dir : Legal q)
    (short : utf8Length (q.join cs).chars ≤ maxPathBytes) : Legal (q.join cs) := by
  have nonempty : cs ≠ [] := by
    intro empty
    rw [empty] at named
    exact named rfl
  refine ⟨?_, ?_, short, ?_⟩
  · rw [Path.join_relative relative]
    exact List.append_ne_nil_of_right_ne_nil _ nonempty
  · have text := file.plain
    have lead := dir.plain
    rw [Path.join_relative relative] at text ⊢
    rw [← Bool.not_eq_true, List.contains_iff_mem] at text lead ⊢
    intro member
    rcases List.mem_append.mp member with front | back
    · rcases Path.lead_cases q with ⟨_, bare⟩ | ⟨front', slashed, same | ended⟩
      · rw [bare] at front
        cases front
      · rw [slashed, ← same] at front
        rcases List.mem_append.mp front with inside | slash
        · exact lead inside
        · exact absurd (List.mem_singleton.mp slash) (by decide)
      · rw [slashed, ← ended] at front
        exact lead front
    · exact text (List.mem_append_right _ back)
  · have names := file.shortNames
    rw [Path.names_join_relative relative] at names ⊢
    exact List.forall_mem_append.mpr ⟨dir.shortNames, (List.forall_mem_append.mp names).2⟩

theorem file_of_same {fs : FileSystem} (same : p.components = q.components)
    (file : fs.kind? (p.join cs) = some .file) (dir : fs.kind? q = some .directory)
    (short : utf8Length (q.join cs).chars ≤ maxPathBytes) : fs.kind? (q.join cs) = some .file := by
  obtain ⟨entry, found, kind⟩ := (kind_eq_some_iff fs _ _).mp file
  obtain ⟨_, foundDir, _⟩ := (kind_eq_some_iff fs _ _).mp dir
  obtain ⟨⟨legal, directories⟩, _, there, slashed⟩ := (find_eq_ok_iff fs _ _ _).mp found
  obtain ⟨⟨legalDir, onWay⟩, _⟩ := (find_eq_ok_iff fs _ _ _).mp foundDir
  have spot : fs.spot (p.join cs) = fs.spot (q.join cs) := by
    rw [spot_join_relative relative, spot_join_relative relative, spot_of_same same]
  refine (kind_eq_some_iff fs _ _).mpr ⟨entry, (find_eq_ok_iff fs _ _ _).mpr
    ⟨⟨legal_join_of_same relative named legal legalDir short, ?_⟩, rfl, ?_, ?_⟩, kind⟩
  · rw [passed_join_relative relative] at directories ⊢
    rw [spot_of_same same] at directories
    exact List.forall_mem_append.mpr ⟨onWay, (List.forall_mem_append.mp directories).2⟩
  · rwa [← spot]
  · rw [ending_join_relative relative named] at slashed ⊢
    exact slashed

end FileSystem

end Joining

section Stretched

namespace Path

def stretched (n : Nat) : Path := ⟨'a' :: List.replicate (n + 1) '/' ++ ['b']⟩

theorem pieces_of_slashes (n : Nat) (cs : List Char) :
    pieces (List.replicate n '/' ++ cs) = List.replicate n [] ++ pieces cs := by
  induction n with
  | zero => rfl
  | succ n ih => rw [List.replicate_succ, List.replicate_succ, List.cons_append, List.cons_append, ← ih]; rfl

theorem components_of_stretched (n : Nat) : (stretched n).components = components "a/b" := by
  have cut : pieces (stretched n).chars = ['a'] :: (List.replicate n [] ++ [['b']]) := by
    have between := pieces_append ['a'] (List.replicate n '/' ++ ['b'])
    rw [pieces_of_slashes] at between
    exact between
  rw [components_eq, cut, kept]
  have relative : (stretched n).isAbsolute = false := rfl
  rw [relative, List.filter_append, List.filter_replicate]
  rfl

theorem stretched_eq_join (n : Nat) : stretched n = (⟨'a' :: List.replicate (n + 1) '/'⟩ : Path).join ['b'] := by
  have slashed : ('a' :: List.replicate (n + 1) '/').getLast? = some '/' := by
    rw [List.replicate_succ', ← List.cons_append, List.getLast?_concat]
  rw [join, if_neg (by decide), if_pos (.inr slashed)]
  rfl

theorem length_of_stretched (n : Nat) : FileSystem.utf8Length (stretched n).chars = n + 3 := by
  have slashes : ∀ m, FileSystem.utf8Length (List.replicate m '/') = m := by
    intro m
    induction m with
    | zero => rfl
    | succ m ih => rw [List.replicate_succ', FileSystem.utf8_length_append, ih]; rfl
  have first : FileSystem.utf8Length ['a'] = 1 := rfl
  have last : FileSystem.utf8Length ['b'] = 1 := rfl
  rw [stretched, ← List.singleton_append, FileSystem.utf8_length_append, FileSystem.utf8_length_append, slashes, first, last]
  omega

theorem join_stretched (n : Nat) {cs : List Char} (relative : cs.head? ≠ some '/') :
    ((stretched n).join cs).chars = (stretched n).chars ++ '/' :: cs := by
  have plain : (stretched n).chars.getLast? ≠ some '/' := by
    rw [stretched, List.getLast?_concat]
    decide
  have nonempty : (stretched n).chars ≠ [] := List.cons_ne_nil _ _
  rw [join, if_neg relative, if_neg (not_or.mpr ⟨nonempty, plain⟩)]

theorem parent_join_join (p : Path) {dir name : List Char} (properDir : IsName dir) (proper : IsName name) :
    ((p.join dir).join name).parent? = some (p.join dir) := by
  rw [parent?, steps_join _ proper.nonempty proper.plain proper.notDot,
    steps_join _ properDir.nonempty properDir.plain properDir.notDot, join_plain p properDir.plain]
  simp

end Path

end Stretched

end Loom
