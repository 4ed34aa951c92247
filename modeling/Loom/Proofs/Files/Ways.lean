import Loom.Proofs.Files.Entries
import Loom.Proofs.Paths

set_option autoImplicit false

/-! Whether a path leads anywhere depends on the tree, but where it leads does not: it has its way and its place
before anything is looked up. -/
namespace Loom.FileSystem

def onward (s : Spot) (name : List Char) : Spot :=
  if name = ['.'] then s
  else if name = ['.', '.'] then { s with location := s.location.dropLast }
  else ⟨s.location ++ [name], false⟩

def follow (s : Spot) (ns : List (List Char)) : Spot := ns.foldl onward s

-- Dots lead on from a held spot whether there is a directory or not.
def asked (s : Spot) (name : List Char) : List Location := if s.held && isDots name then [] else [s.location]

def passed (s : Spot) : List (List Char) → List Location
  | [] => []
  | name :: rest => asked s name ++ passed (onward s name) rest

def spot (fs : FileSystem) (p : Path) : Spot := follow (fs.base p) (names p)

def place (fs : FileSystem) (p : Path) : Location := (fs.spot p).location

def way (fs : FileSystem) (p : Path) : List Location :=
  passed (fs.base p) (names p) ++ [fs.place p]

structure Legal (p : Path) : Prop where
  nonempty : p.chars ≠ []
  plain : p.chars.contains '\x00' = false
  short : utf8Length p.chars ≤ maxPathBytes
  shortNames : ∀ name ∈ names p, utf8Length name ≤ maxNameBytes

structure Reaches (fs : FileSystem) (p : Path) : Prop where
  legal : Legal p
  directories : ∀ d ∈ passed (fs.base p) (names p), fs.get? d = some .directory

theorem passed_append (s : Spot) (ns ms : List (List Char)) :
    passed s (ns ++ ms) = passed s ns ++ passed (follow s ns) ms := by
  induction ns generalizing s with
  | nil => rfl
  | cons name rest ih =>
      rw [List.cons_append, passed, passed, ih, List.append_assoc]
      rfl

theorem follow_append (s : Spot) (ns ms : List (List Char)) : follow s (ns ++ ms) = follow (follow s ns) ms :=
  List.foldl_append

theorem is_dots_iff (name : List Char) : isDots name = true ↔ name = ['.'] ∨ name = ['.', '.'] := by
  rw [isDots, decide_eq_true_eq]

theorem onward_name (s : Spot) {name : List Char} (proper : Path.IsName name) :
    onward s name = ⟨s.location ++ [name], false⟩ := by
  rw [onward, if_neg proper.notDot, if_neg proper.notDotDot]

theorem asked_name (s : Spot) {name : List Char} (proper : Path.IsName name) : asked s name = [s.location] := by
  have other : isDots name = false := by
    rw [← Bool.not_eq_true, is_dots_iff]
    exact not_or.mpr ⟨proper.notDot, proper.notDotDot⟩
  rw [asked, other, Bool.and_false]
  rfl

theorem asked_of_loose {s : Spot} (loose : s.held = false) (name : List Char) : asked s name = [s.location] := by
  rw [asked, loose, Bool.false_and]
  rfl

theorem onward_held (s : Spot) (name : List Char) : (onward s name).held = (s.held && isDots name) := by
  unfold onward isDots
  by_cases dot : name = ['.']
  · simp [dot]
  · by_cases dots : name = ['.', '.']
    · simp [dots]
    · simp [dot, dots]

theorem held_of_follow {s : Spot} {ns : List (List Char)} (held : (follow s ns).held = true) : s.held = true := by
  induction ns generalizing s with
  | nil => exact held
  | cons name rest ih =>
      have next : (onward s name).held = true := ih held
      rw [onward_held, Bool.and_eq_true] at next
      exact next.1

theorem passed_of_held {s : Spot} {ns : List (List Char)} (held : (follow s ns).held = true) : passed s ns = [] := by
  induction ns generalizing s with
  | nil => rfl
  | cons name rest ih =>
      have next : (onward s name).held = true := held_of_follow (s := onward s name) held
      rw [onward_held] at next
      rw [passed, asked, next, ih held]
      rfl

theorem base_join (fs : FileSystem) (p : Path) {name : List Char} (proper : Path.IsName name) :
    fs.base (p.join name) = fs.base p := by
  rw [base, base, Path.is_absolute_join p proper.plain]

theorem spot_join (fs : FileSystem) (p : Path) {name : List Char} (proper : Path.IsName name) :
    fs.spot (p.join name) = ⟨fs.place p ++ [name], false⟩ := by
  rw [spot, base_join fs p proper, Path.names_join p proper.nonempty proper.plain, follow_append]
  exact onward_name _ proper

theorem place_join (fs : FileSystem) (p : Path) {name : List Char} (proper : Path.IsName name) :
    fs.place (p.join name) = fs.place p ++ [name] :=
  congrArg Spot.location (spot_join fs p proper)

theorem passed_join (fs : FileSystem) (p : Path) {name : List Char} (proper : Path.IsName name) :
    passed (fs.base (p.join name)) (names (p.join name)) = fs.way p := by
  rw [base_join fs p proper, Path.names_join p proper.nonempty proper.plain, passed_append, passed,
    asked_name _ proper]
  rfl

theorem way_join (fs : FileSystem) (p : Path) {name : List Char} (proper : Path.IsName name) :
    fs.way (p.join name) = fs.way p ++ [fs.place p ++ [name]] := by
  rw [way, passed_join fs p proper, place_join fs p proper]

theorem utf8_length_append (front back : List Char) :
    utf8Length (front ++ back) = utf8Length front + utf8Length back := by
  have shifted : ∀ (cs : List Char) (n : Nat), cs.foldl (fun n c => n + c.utf8Size) n = n + utf8Length cs := by
    intro cs
    induction cs with
    | nil => exact fun _ => rfl
    | cons c rest ih =>
        intro n
        rw [utf8Length, List.foldl_cons, List.foldl_cons, ih, ih]
        omega
  rw [utf8Length, List.foldl_append, shifted]
  rfl

theorem legal_join_of_shorter {d : Path} {front long short : List Char} (own : Path.IsName (front ++ long))
    (legal : Legal (d.join (front ++ long))) (shorter : utf8Length short ≤ utf8Length long)
    (proper : Path.IsName (front ++ short)) (plain : '\x00' ∉ short) : Legal (d.join (front ++ short)) := by
  obtain ⟨_, unbroken, fits, namesFit⟩ := legal
  rw [Path.names_join d own.nonempty own.plain] at namesFit
  rw [Path.join_plain d own.plain] at unbroken fits
  obtain ⟨namesFit, last⟩ := List.forall_mem_append.mp namesFit
  have lastFits := last _ (List.mem_singleton_self _)
  have whole : '\x00' ∉ d.lead ∧ '\x00' ∉ front ∧ '\x00' ∉ long := by simpa using unbroken
  simp only [utf8_length_append] at fits lastFits
  refine ⟨?_, ?_, ?_, ?_⟩
  · rw [Path.join_plain d proper.plain]
    exact List.append_ne_nil_of_right_ne_nil _ proper.nonempty
  · rw [Path.join_plain d proper.plain]
    simpa using ⟨whole.1, whole.2.1, plain⟩
  · rw [Path.join_plain d proper.plain]
    simp only [utf8_length_append]
    omega
  · rw [Path.names_join d proper.nonempty proper.plain]
    refine List.forall_mem_append.mpr ⟨namesFit, List.forall_mem_singleton.mpr ?_⟩
    rw [utf8_length_append]
    omega

section SameStart

variable {fs after : FileSystem}

theorem base_congr (here : after.here = fs.here) (p : Path) : after.base p = fs.base p := by
  rw [base, base, here]

theorem spot_congr (here : after.here = fs.here) (p : Path) : after.spot p = fs.spot p := by
  rw [spot, spot, base_congr here]

theorem place_congr (here : after.here = fs.here) (p : Path) : after.place p = fs.place p := by
  rw [place, place, spot_congr here]

theorem way_congr (here : after.here = fs.here) (p : Path) : after.way p = fs.way p := by
  rw [way, way, base_congr here, place_congr here]

theorem reaches_of_kept (here : after.here = fs.here) {p : Path} (reaches : fs.Reaches p)
    (kept : ∀ d, fs.get? d = some .directory → after.get? d = some .directory) : after.Reaches p := by
  refine ⟨reaches.legal, fun d member => ?_⟩
  rw [base_congr here] at member
  exact kept d (reaches.directories d member)

end SameStart

theorem base_of_chain (fs : FileSystem) {p q : Path} (member : q ∈ p.chain) : fs.base q = fs.base p := by
  rw [base, base, (Path.mem_chain member).1]

-- A parent is passed on the way to its path, and so is all that the parent leads through.
theorem passed_of_chain (fs : FileSystem) {p q : Path} (member : q ∈ p.chain) :
    passed (fs.base q) (names q) <+: passed (fs.base p) (names p) ∧
      ((fs.spot q).held = false → fs.place q ∈ fs.way p) := by
  obtain ⟨_, more, whole⟩ := Path.mem_chain member
  have start := base_of_chain fs member
  have split : passed (fs.base p) (names p) = passed (fs.base q) (names q) ++ passed (fs.spot q) more := by
    rw [← whole, passed_append, ← start]
    rfl
  refine ⟨⟨_, split.symm⟩, fun loose => ?_⟩
  rw [way, split, List.append_assoc]
  apply List.mem_append_right
  cases more with
  | nil =>
      rw [List.append_nil] at whole
      rw [place, place, spot, spot, start, whole]
      exact List.mem_append_right _ (List.mem_singleton_self _)
  | cons name rest =>
      rw [passed, asked_of_loose loose]
      exact List.mem_append_left _ List.mem_cons_self

section Lookup

variable (fs : FileSystem)

theorem look_of_loose {s : Spot} (loose : s.held = false) : fs.look s = fs.get? s.location := by
  rw [look, loose]
  rfl

theorem look_of_held {s : Spot} (held : s.held = true) : fs.look s = some .directory := by
  rw [look, held]
  rfl

theorem loose_of_leaf {s : Spot} (leaf : fs.look s ≠ some .directory) : s.held = false := by
  rw [← Bool.not_eq_true]
  exact fun held => leaf (look_of_held fs held)

theorem look_join (p : Path) {name : List Char} (proper : Path.IsName name) :
    fs.look (fs.spot (p.join name)) = fs.get? (fs.place p ++ [name]) := by
  rw [spot_join fs p proper]
  rfl

theorem look_eq_iff {found : Option Entry} (leaf : found ≠ some .directory) (p : Path) :
    fs.look (fs.spot p) = found ↔ (fs.spot p).held = false ∧ fs.get? (fs.place p) = found := by
  unfold look place
  cases (fs.spot p).held with
  | true => simp [leaf.symm]
  | false => simp

theorem look_of_directory {s : Spot} (there : fs.get? s.location = some .directory) :
    fs.look s = some .directory := by
  unfold look
  split
  · rfl
  · exact there

theorem sought_eq_directory_iff (s : Spot) (name : List Char) :
    (if isDots name then fs.look s else fs.get? s.location) = some .directory ↔
      ∀ d ∈ asked s name, fs.get? d = some .directory := by
  unfold asked look
  cases s.held <;> cases isDots name <;> simp

theorem step_eq_ok_iff (s next : Spot) (name : List Char) :
    fs.step s name = .ok next ↔
      (∀ d ∈ asked s name, fs.get? d = some .directory) ∧ utf8Length name ≤ maxNameBytes ∧ next = onward s name := by
  have dot : utf8Length ['.'] ≤ maxNameBytes := by decide
  have dots : utf8Length ['.', '.'] ≤ maxNameBytes := by decide
  rw [← sought_eq_directory_iff]
  unfold step onward
  generalize (if isDots name then fs.look s else fs.get? s.location) = sought
  cases sought with
  | none => simp
  | some entry =>
      cases entry with
      | file content => simp
      | directory =>
          by_cases here : name = ['.']
          · simp [here, dot, eq_comm]
          · by_cases up : name = ['.', '.']
            · simp [up, dots, eq_comm]
            · by_cases long : maxNameBytes < utf8Length name
              · simp [here, up, long, Nat.not_le_of_lt long]
              · simp [here, up, long, Nat.le_of_not_lt long, eq_comm]

theorem walk_eq_ok_iff (s last : Spot) (ns : List (List Char)) :
    fs.walk s ns = .ok last ↔ (∀ d ∈ passed s ns, fs.get? d = some .directory) ∧
      (∀ name ∈ ns, utf8Length name ≤ maxNameBytes) ∧ last = follow s ns := by
  induction ns generalizing s with
  | nil => simp [walk, passed, follow, eq_comm]
  | cons name rest ih =>
      have unfolded : fs.walk s (name :: rest) = .ok last ↔
          ∃ next, fs.step s name = .ok next ∧ fs.walk next rest = .ok last := by
        rw [walk]
        cases fs.step s name with
        | error e => simp
        | ok next => simp
      rw [unfolded]
      constructor
      · intro run
        obtain ⟨next, stepped, walked⟩ := run
        obtain ⟨there, short, same⟩ := (step_eq_ok_iff fs s next name).mp stepped
        obtain ⟨directories, shortNames, ends⟩ := (ih next).mp walked
        rw [same] at directories ends
        exact ⟨List.forall_mem_append.mpr ⟨there, directories⟩, List.forall_mem_cons.mpr ⟨short, shortNames⟩, ends⟩
      · intro facts
        obtain ⟨directories, shortNames, ends⟩ := facts
        obtain ⟨there, later⟩ := List.forall_mem_append.mp directories
        obtain ⟨short, shortLater⟩ := List.forall_mem_cons.mp shortNames
        exact ⟨onward s name, (step_eq_ok_iff fs s _ name).mpr ⟨there, short, rfl⟩, (ih _).mpr ⟨later, shortLater, ends⟩⟩

theorem locate_eq_ok_iff (p : Path) (s : Spot) : fs.locate p = .ok s ↔ fs.Reaches p ∧ s = fs.spot p := by
  unfold locate
  constructor
  · intro located
    split at located
    · cases located
    · rename_i nonempty
      split at located
      · cases located
      · rename_i plain
        split at located
        · cases located
        · rename_i short
          obtain ⟨directories, shortNames, ends⟩ := (walk_eq_ok_iff fs _ s _).mp located
          exact ⟨⟨⟨nonempty, by simpa using plain, Nat.le_of_not_lt short, shortNames⟩, directories⟩, ends⟩
  · intro facts
    obtain ⟨⟨legal, directories⟩, ends⟩ := facts
    rw [if_neg legal.nonempty, if_neg (by simpa using legal.plain), if_neg (Nat.not_lt.mpr legal.short)]
    exact (walk_eq_ok_iff fs _ s _).mpr ⟨directories, legal.shortNames, ends⟩

theorem find_eq_ok_iff (p : Path) (l : Location) (entry : Entry) :
    fs.find p = .ok (l, entry) ↔ fs.Reaches p ∧ l = fs.place p ∧ fs.look (fs.spot p) = some entry ∧
      (ending p = .slashed → entry = .directory) := by
  unfold find
  constructor
  · intro found
    cases located : fs.locate p with
    | error e =>
        rw [located] at found
        cases found
    | ok s =>
        obtain ⟨reaches, same⟩ := (locate_eq_ok_iff fs p s).mp located
        subst same
        rw [located] at found
        cases there : fs.look (fs.spot p) with
        | none =>
            simp only [there] at found
            cases found
        | some e =>
            cases e with
            | file content =>
                simp only [there] at found
                split at found
                · cases found
                · rename_i unslashed
                  cases found
                  exact ⟨reaches, rfl, rfl, fun slashed => absurd slashed unslashed⟩
            | directory =>
                simp only [there] at found
                cases found
                exact ⟨reaches, rfl, rfl, fun _ => rfl⟩
  · intro facts
    obtain ⟨reaches, same, there, slashed⟩ := facts
    rw [(locate_eq_ok_iff fs p _).mpr ⟨reaches, rfl⟩]
    cases entry with
    | file content =>
        have unslashed : ending p ≠ .slashed := fun ends => by cases slashed ends
        simp only [there, unslashed, if_false, same, place]
    | directory => simp only [there, same, place]

-- What is found depends on what is on the way alone.
theorem walk_congr {after : FileSystem} (s : Spot) (ns : List (List Char))
    (same : ∀ d ∈ passed s ns, after.get? d = fs.get? d) : after.walk s ns = fs.walk s ns := by
  induction ns generalizing s with
  | nil => rfl
  | cons name rest ih =>
      obtain ⟨first, later⟩ := List.forall_mem_append.mp same
      have sought : (if isDots name then after.look s else after.get? s.location) =
          if isDots name then fs.look s else fs.get? s.location := by
        unfold asked at first
        unfold look
        cases held : s.held <;> cases dots : isDots name <;> simp_all
      have stepped : after.step s name = fs.step s name := by rw [step, step, sought]
      rw [walk, walk, stepped]
      cases next : fs.step s name with
      | error e => rfl
      | ok spot =>
          obtain ⟨_, _, leads⟩ := (step_eq_ok_iff fs s spot name).mp next
          exact ih spot fun d member => later d (leads ▸ member)

theorem look_congr {after : FileSystem} {s : Spot} (same : after.get? s.location = fs.get? s.location) :
    after.look s = fs.look s := by
  rw [look, look, same]

theorem find_congr {after : FileSystem} (here : after.here = fs.here) (p : Path)
    (same : ∀ d ∈ fs.way p, after.get? d = fs.get? d) : after.find p = fs.find p := by
  have located : after.locate p = fs.locate p := by
    unfold locate
    rw [base_congr here, walk_congr fs _ _ fun d member => same d (List.mem_append_left _ member)]
  unfold find
  rw [located]
  cases place : fs.locate p with
  | error e => rfl
  | ok s =>
      obtain ⟨_, leads⟩ := (locate_eq_ok_iff fs p s).mp place
      have there : after.look s = fs.look s := by
        apply look_congr
        rw [leads]
        exact same _ (List.mem_append_right _ (List.mem_singleton_self _))
      simp only [there]

end Lookup

end Loom.FileSystem
