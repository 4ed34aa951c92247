import Loom.Proofs.Files.Changes

set_option autoImplicit false

/-! Removing a directory takes away all that is in it first, and the directory itself only if its way does not lead
through what is gone by then. -/
namespace Loom.FileSystem

structure Grows (kept new : Location → Prop) (fs after : FileSystem) : Prop where
  here : after.here = fs.here
  entries : ∀ l, kept l → after.get? l = fs.get? l ∨
    fs.get? l = none ∧ new l ∧ after.get? l = some .directory

section Growing

variable {kept new : Location → Prop} {fs mid after : FileSystem}

theorem grows_refl (kept new : Location → Prop) (fs : FileSystem) : Grows kept new fs fs :=
  ⟨rfl, fun _ _ => .inl rfl⟩

theorem grows_trans (first : Grows kept new fs mid) (second : Grows kept new mid after) :
    Grows kept new fs after := by
  refine ⟨second.here.trans first.here, fun l inside => ?_⟩
  cases first.entries l inside with
  | inl same =>
      cases second.entries l inside with
      | inl again => exact .inl (again.trans same)
      | inr added => exact .inr (same ▸ added)
  | inr added =>
      obtain ⟨missing, isNew, there⟩ := added
      cases second.entries l inside with
      | inl again => exact .inr ⟨missing, isNew, again.trans there⟩
      | inr later =>
          rw [there] at later
          exact absurd later.1 (Option.some_ne_none _)

theorem Grows.file_iff (grows : Grows kept new fs after) {l : Location} (inside : kept l)
    (content : Bytes) : after.get? l = some (.file content) ↔ fs.get? l = some (.file content) := by
  cases grows.entries l inside with
  | inl same => rw [same]
  | inr added =>
      obtain ⟨missing, _, there⟩ := added
      rw [missing, there]
      simp

theorem Grows.keeps (grows : Grows (fun _ => True) new fs after) : Keeps new fs after := by
  refine ⟨grows.here, fun l old => ?_, fun d there => ?_⟩
  · cases grows.entries l trivial with
    | inl same => exact same
    | inr added => exact absurd added.2.1 old
  · cases grows.entries d trivial with
    | inl same => rw [same, there]
    | inr added => exact added.2.2

end Growing

theorem kind_eq_some_iff (fs : FileSystem) (p : Path) (kind : EntryKind) :
    fs.kind? p = some kind ↔ ∃ entry, fs.find p = .ok (fs.place p, entry) ∧ entry.kind = kind := by
  unfold kind?
  cases found : fs.find p with
  | error e => simp
  | ok answer =>
      obtain ⟨l, entry⟩ := answer
      obtain ⟨_, same, _⟩ := (find_eq_ok_iff fs p l entry).mp found
      simp [same]

theorem kind_of_read {fs : FileSystem} {p : Path} {content : Bytes} (read : fs.read p = .ok content) :
    fs.kind? p = some .file :=
  (kind_eq_some_iff fs p .file).mpr ⟨.file content, (read_eq_ok_iff fs p content).mp read, rfl⟩

theorem read_of_kind {fs : FileSystem} {p : Path} (isFile : fs.kind? p = some .file) :
    ∃ content, fs.read p = .ok content := by
  obtain ⟨entry, found, kind⟩ := (kind_eq_some_iff fs p .file).mp isFile
  cases entry with
  | file content => exact ⟨content, (read_eq_ok_iff fs p content).mpr found⟩
  | directory => cases kind

theorem read_join_iff {fs : FileSystem} {d : Path} {name : List Char} (own : Path.IsName name)
    (reaches : fs.Reaches (d.join name)) (content : Bytes) :
    fs.read (d.join name) = .ok content ↔ fs.get? (fs.place d ++ [name]) = some (.file content) := by
  rw [read_eq_ok_iff, find_eq_ok_iff, look_join fs d own]
  constructor
  · exact fun found => found.2.2.1
  · refine fun there => ⟨reaches, rfl, there, fun slashed => ?_⟩
    rw [Path.ending_join d own] at slashed
    cases slashed

theorem kind_file_iff {fs : FileSystem} {d : Path} {name : List Char} (own : Path.IsName name)
    (reaches : fs.Reaches (d.join name)) :
    fs.kind? (d.join name) = some .file ↔ ∃ content, fs.get? (fs.place d ++ [name]) = some (.file content) := by
  simp only [← read_join_iff own reaches]
  constructor
  · exact read_of_kind
  · rintro ⟨content, read⟩
    exact kind_of_read read

section Making

theorem make_dir_cases (fs : FileSystem) (p : Path) :
    (∃ e, fs.makeDir p = (.error e, fs)) ∨
      (fs.makeDir p = (.ok (), fs.put (fs.place p) .directory) ∧ fs.Reaches p ∧
        fs.look (fs.spot p) = none) := by
  unfold makeDir
  cases located : fs.locate p with
  | error e => exact .inl ⟨e, rfl⟩
  | ok s =>
      obtain ⟨reaches, same⟩ := (locate_eq_ok_iff fs p s).mp located
      subst same
      cases there : fs.look (fs.spot p) with
      | some entry => exact .inl ⟨.alreadyExists, by simp only [there]⟩
      | none => exact .inr ⟨by simp only [there, place], reaches, rfl⟩

theorem ensure_dir_cases (fs : FileSystem) (p : Path) :
    (∃ e, fs.ensureDir p = (.error e, fs)) ∨
      (fs.ensureDir p = (.ok (), fs) ∧ fs.Reaches p ∧ fs.look (fs.spot p) = some .directory) ∨
      (fs.ensureDir p = (.ok (), fs.put (fs.place p) .directory) ∧ fs.Reaches p ∧
        fs.look (fs.spot p) = none) := by
  unfold ensureDir
  rcases make_dir_cases fs p with ⟨e, failed⟩ | ⟨made, reaches, missing⟩
  · rw [failed]
    by_cases exists_ : e = .alreadyExists
    · subst exists_
      by_cases kind : fs.kind? p = some .directory
      · obtain ⟨entry, found, isDirectory⟩ := (kind_eq_some_iff fs p .directory).mp kind
        obtain ⟨reaches, _, there, _⟩ := (find_eq_ok_iff fs p _ _).mp found
        cases entry with
        | file content => cases isDirectory
        | directory => exact .inr (.inl ⟨by simp only [kind, if_true], reaches, there⟩)
      · exact .inl ⟨.alreadyExists, by simp only [kind, if_false]⟩
    · refine .inl ⟨e, ?_⟩
      split
      · rename_i same
        cases same
        exact absurd rfl exists_
      · rfl
  · rw [made]
    exact .inr (.inr ⟨rfl, reaches, missing⟩)

theorem ensure_dir_grows {fs : FileSystem} (tree : fs.IsTree) (p : Path) :
    Grows (fun _ => True) (fun l => (fs.spot p).held = false ∧ l = fs.place p) fs (fs.ensureDir p).2 ∧
      (fs.ensureDir p).2.IsTree := by
  rcases ensure_dir_cases fs p with ⟨e, failed⟩ | ⟨stood, _, _⟩ | ⟨made, reaches, nothing⟩
  · rw [failed]
    exact ⟨grows_refl _ _ fs, tree⟩
  · rw [stood]
    exact ⟨grows_refl _ _ fs, tree⟩
  · obtain ⟨loose, missing⟩ := (look_eq_iff fs (Option.some_ne_none _).symm _).mp nothing
    have leaf : fs.look (fs.spot p) ≠ some .directory := by
      rw [nothing]
      exact (Option.some_ne_none _).symm
    rw [made]
    refine ⟨⟨rfl, fun l _ => ?_⟩, is_tree_put_place tree reaches leaf _⟩
    rw [get_put_leaf tree (leaf_of_missing missing)]
    by_cases same : l = fs.place p
    · subst same
      rw [if_pos rfl]
      exact .inr ⟨missing, ⟨loose, rfl⟩, rfl⟩
    · rw [if_neg same]
      exact .inl rfl

theorem ensure_dir_reaches {fs made : FileSystem} (tree : fs.IsTree) {p : Path}
    (done : fs.ensureDir p = (.ok (), made)) :
    made.Reaches p ∧ ((fs.spot p).held = false → made.get? (fs.place p) = some .directory) := by
  rcases ensure_dir_cases fs p with ⟨e, failed⟩ | ⟨stood, reaches, there⟩ | ⟨put, reaches, nothing⟩
  · rw [failed] at done
    cases done
  · cases stood.symm.trans done
    refine ⟨reaches, fun loose => ?_⟩
    rwa [look_of_loose fs loose] at there
  · obtain ⟨_, missing⟩ := (look_eq_iff fs (Option.some_ne_none _).symm _).mp nothing
    have keeps := (ensure_dir_grows tree p).1.keeps.reaches reaches
    rw [put] at keeps
    cases put.symm.trans done
    refine ⟨keeps, fun _ => ?_⟩
    rw [get_put_leaf tree (leaf_of_missing missing), if_pos rfl]

theorem make_chain_grows {new : Location → Prop} {fs : FileSystem} (tree : fs.IsTree) (chain : List Path)
    (listed : ∀ p ∈ chain, (fs.spot p).held = false → new (fs.place p)) :
    Grows (fun _ => True) new fs (fs.makeChain chain).2 ∧ (fs.makeChain chain).2.IsTree := by
  induction chain generalizing fs with
  | nil => exact ⟨grows_refl _ new fs, tree⟩
  | cons p outer ih =>
      have wide : ∀ {fs : FileSystem}, fs.IsTree → ((fs.spot p).held = false → new (fs.place p)) →
          Grows (fun _ => True) new fs (fs.ensureDir p).2 ∧ (fs.ensureDir p).2.IsTree := by
        intro fs tree isNew
        obtain ⟨⟨here, entries⟩, still⟩ := ensure_dir_grows tree p
        refine ⟨⟨here, fun l all => (entries l all).imp_right fun added => ?_⟩, still⟩
        obtain ⟨missing, ⟨loose, same⟩, there⟩ := added
        exact ⟨missing, same ▸ isNew loose, there⟩
      have first := wide tree (listed p List.mem_cons_self)
      have parents := ih tree fun q member => listed q (List.mem_cons_of_mem p member)
      rw [makeChain]
      rcases ensure_dir_cases fs p with ⟨e, failed⟩ | ⟨stood, _, _⟩ | ⟨made, _, _⟩
      · rw [failed]
        by_cases missing : e = .notFound
        · subst missing
          cases above : fs.makeChain outer with
          | mk answer mid =>
              rw [above] at parents
              cases answer with
              | error e => simpa only [above] using parents
              | ok _ =>
                  -- With its parents made, the directory is tried once more.
                  have again := wide parents.2 (by
                    rw [spot_congr parents.1.here, place_congr parents.1.here]
                    exact listed p List.mem_cons_self)
                  simp only [above]
                  exact ⟨grows_trans parents.1 again.1, again.2⟩
        · split
          · rename_i same
            cases same
            exact absurd rfl missing
          · exact ⟨grows_refl _ new fs, tree⟩
      · rw [stood] at first ⊢
        exact first
      · rw [made] at first ⊢
        exact first

theorem make_chain_adds {fs : FileSystem} (tree : fs.IsTree) (chain : List Path) :
    Grows (fun _ => True) (fun _ => True) fs (fs.makeChain chain).2 ∧ (fs.makeChain chain).2.IsTree :=
  make_chain_grows tree chain fun _ _ _ => trivial

theorem make_chain_reaches {fs made : FileSystem} (tree : fs.IsTree) {p : Path} {outer : List Path}
    (done : fs.makeChain (p :: outer) = (.ok (), made)) :
    made.Reaches p ∧ ((fs.spot p).held = false → made.get? (fs.place p) = some .directory) := by
  have parents := make_chain_adds tree outer
  rw [makeChain] at done
  cases ensured : fs.ensureDir p with
  | mk answer mid =>
      rw [ensured] at done
      cases answer with
      | ok _ =>
          cases done
          exact ensure_dir_reaches tree ensured
      | error e =>
          split at done
          · rename_i same
            cases same
            cases above : fs.makeChain outer with
            | mk answer inner =>
                rcases ensure_dir_cases fs p with ⟨e, failed⟩ | ⟨stood, _⟩ | ⟨put, _⟩
                · cases failed.symm.trans ensured
                  rw [above] at done parents
                  cases answer with
                  | error e => cases done
                  | ok _ =>
                      rw [← spot_congr parents.1.here, ← place_congr parents.1.here]
                      exact ensure_dir_reaches parents.2 done
                · cases stood.symm.trans ensured
                · cases put.symm.trans ensured
          · cases done

theorem make_dirs_grows {fs : FileSystem} (tree : fs.IsTree) (p : Path) :
    Grows (fun _ => True) (· ∈ fs.way p) fs (fs.makeDirs p).2 ∧ (fs.makeDirs p).2.IsTree :=
  make_chain_grows tree p.chain fun _ member => (passed_of_chain fs member).2

theorem make_chain_way {fs made : FileSystem} (tree : fs.IsTree) {p : Path} {outer : List Path}
    (loose : (fs.spot p).held = false) (done : fs.makeChain (p :: outer) = (.ok (), made)) :
    ∀ d ∈ fs.way p, made.get? d = some .directory := by
  have grows := (make_chain_adds tree (p :: outer)).1
  rw [done] at grows
  obtain ⟨reaches, there⟩ := make_chain_reaches tree done
  intro d member
  rcases List.mem_append.mp member with through | last
  · rw [← base_congr grows.here] at through
    exact reaches.directories d through
  · rw [List.mem_singleton.mp last]
    exact there loose

theorem make_dirs_join {fs made : FileSystem} (tree : fs.IsTree) {p : Path} {name : List Char}
    (proper : Path.IsName name) (done : fs.makeDirs (p.join name) = (.ok (), made)) :
    made.Reaches (p.join name) ∧ ∀ d ∈ fs.way (p.join name), made.get? d = some .directory := by
  obtain ⟨outer, chain⟩ := Path.chain_join p proper
  have loose : (fs.spot (p.join name)).held = false := congrArg Spot.held (spot_join fs p proper)
  rw [makeDirs, chain] at done
  exact ⟨(make_chain_reaches tree done).1, make_chain_way tree loose done⟩

theorem make_dirs_legal {fs made : FileSystem} (tree : fs.IsTree) {p : Path} (done : fs.makeDirs p = (.ok (), made))
    (steps : p.chain ≠ []) : Legal p := by
  cases chain : p.chain with
  | nil => exact absurd chain steps
  | cons q outer =>
      rw [makeDirs, chain] at done
      exact Path.head_of_chain chain ▸ (make_chain_reaches tree done).1.legal

theorem make_dirs_stood {fs : FileSystem} {p : Path} (legal : p.chain ≠ [] → Legal p)
    (stood : ∀ d ∈ fs.way p, fs.get? d = some .directory) : fs.makeDirs p = (.ok (), fs) := by
  have look : fs.look (fs.spot p) = some .directory :=
    look_of_directory fs (stood _ (List.mem_append_right _ (List.mem_singleton_self _)))
  have ensured : p.chain ≠ [] → fs.ensureDir p = (.ok (), fs) := by
    intro steps
    have reaches : fs.Reaches p := ⟨legal steps, fun d member => stood d (List.mem_append_left _ member)⟩
    have kind : fs.kind? p = some .directory := (kind_eq_some_iff fs p .directory).mpr
      ⟨.directory, (find_eq_ok_iff _ _ _ _).mpr ⟨reaches, rfl, look, fun _ => rfl⟩, rfl⟩
    unfold ensureDir makeDir
    simp only [(locate_eq_ok_iff fs p _).mpr ⟨reaches, rfl⟩, look, kind, if_true]
  unfold makeDirs
  cases chain : p.chain with
  | nil => rfl
  | cons q outer =>
      rw [makeChain, Path.head_of_chain chain, ensured (by rw [chain]; exact List.cons_ne_nil q outer)]

theorem make_dirs_fresh {fs : FileSystem} {p : Path} {name : List Char} (proper : Path.IsName name)
    (legal : Legal (p.join name)) (stood : ∀ d ∈ fs.way p, fs.get? d = some .directory)
    (missing : fs.get? (fs.place p ++ [name]) = none) :
    fs.makeDirs (p.join name) = (.ok (), fs.put (fs.place p ++ [name]) .directory) := by
  have reaches : fs.Reaches (p.join name) := by
    refine ⟨legal, fun d member => stood d ?_⟩
    rwa [passed_join fs p proper] at member
  have located := (locate_eq_ok_iff fs (p.join name) _).mpr ⟨reaches, rfl⟩
  have nothing := (look_join fs p proper).trans missing
  rw [spot_join fs p proper] at located nothing
  obtain ⟨outer, chain⟩ := Path.chain_join p proper
  unfold makeDirs
  rw [chain, makeChain]
  simp only [ensureDir, makeDir, located, nothing]

end Making

section Removing

theorem follow_without_dots (s : Spot) (ns : List (List Char)) :
    follow s (ns.filter (· ≠ ['.'])) = follow s ns := by
  induction ns generalizing s with
  | nil => rfl
  | cons name rest ih =>
      by_cases dot : name = ['.']
      · have stay : follow s (name :: rest) = follow s rest := by
          rw [follow, List.foldl_cons, onward, if_pos dot]
          rfl
        rw [stay, ← ih s, List.filter_cons_of_neg (by simpa using dot)]
      · rw [List.filter_cons_of_pos (by simpa using dot)]
        exact ih (onward s name)

theorem passed_without_dots (s : Spot) (ns : List (List Char)) : ∀ d ∈ passed s ns,
    d ∈ passed s (ns.filter (· ≠ ['.'])) ∨ (follow s ns).held = false ∧ d = (follow s ns).location := by
  induction ns generalizing s with
  | nil =>
      intro d member
      cases member
  | cons name rest ih =>
      intro d member
      rw [passed] at member
      by_cases dot : name = ['.']
      · have stay : onward s name = s := by rw [onward, if_pos dot]
        have ends : follow s (name :: rest) = follow s rest := by
          rw [follow, List.foldl_cons, stay]
          rfl
        rw [List.filter_cons_of_neg (by simpa using dot), ends]
        rw [stay] at member
        -- A dot is looked up where the next name is, or where the path ends.
        rcases List.mem_append.mp member with start | later
        · have loose : s.held = false := by
            rw [← Bool.not_eq_true]
            intro held
            rw [asked, held, (is_dots_iff name).mpr (.inl dot)] at start
            cases start
          rw [asked_of_loose loose] at start
          rw [List.mem_singleton.mp start]
          cases kept : rest.filter (· ≠ ['.']) with
          | nil =>
              right
              rw [← follow_without_dots, kept]
              exact ⟨loose, rfl⟩
          | cons next others =>
              left
              rw [passed, asked_of_loose loose]
              exact List.mem_cons_self
        · exact ih s d later
      · rw [List.filter_cons_of_pos (by simpa using dot), passed]
        rcases List.mem_append.mp member with start | later
        · exact .inl (List.mem_append_left _ start)
        · exact (ih (onward s name) d later).imp_left (List.mem_append_right _)

theorem mem_passed_of_without_dots (s : Spot) (ns : List (List Char)) :
    ∀ d, d ∈ passed s (ns.filter (· ≠ ['.'])) → d ∈ passed s ns := by
  induction ns generalizing s with
  | nil => exact fun d member => member
  | cons name rest ih =>
      intro d member
      rw [passed]
      by_cases dot : name = ['.']
      · rw [List.filter_cons_of_neg (by simpa using dot)] at member
        rw [onward, if_pos dot]
        exact List.mem_append_right _ (ih s d member)
      · rw [List.filter_cons_of_pos (by simpa using dot), passed] at member
        exact (List.mem_append.mp member).elim (List.mem_append_left _)
          fun later => List.mem_append_right _ (ih (onward s name) d later)

theorem walk_not_found (fs : FileSystem) (s : Spot) (ns : List (List Char))
    (shortNames : ∀ name ∈ ns, utf8Length name ≤ maxNameBytes)
    (fileless : ∀ d ∈ passed s ns, fs.get? d = some .directory ∨ fs.get? d = none)
    (gap : ∃ d ∈ passed s ns, fs.get? d = none) : fs.walk s ns = .error .notFound := by
  induction ns generalizing s with
  | nil =>
      obtain ⟨d, member, _⟩ := gap
      cases member
  | cons name rest ih =>
      obtain ⟨first, later⟩ := List.forall_mem_append.mp fileless
      obtain ⟨short, shortLater⟩ := List.forall_mem_cons.mp shortNames
      rw [walk]
      by_cases there : ∀ d ∈ asked s name, fs.get? d = some .directory
      · rw [(step_eq_ok_iff fs s _ name).mpr ⟨there, short, rfl⟩]
        refine ih _ shortLater later ?_
        obtain ⟨d, member, missing⟩ := gap
        rcases List.mem_append.mp member with start | beyond
        · rw [there d start] at missing
          cases missing
        · exact ⟨d, beyond, missing⟩
      · have nothing : (if isDots name then fs.look s else fs.get? s.location) = none := by
          unfold asked at first there
          unfold look
          cases held : s.held <;> cases dots : isDots name <;> simp_all
        rw [step, nothing]

def GoesBelow (fs : FileSystem) (p : Path) (l : Location) : Prop := ∃ d ∈ fs.way p, Below l d

instance (fs : FileSystem) (p : Path) (l : Location) : Decidable (fs.GoesBelow p l) :=
  inferInstanceAs (Decidable (∃ d ∈ fs.way p, Below l d))

theorem goes_below_congr {fs after : FileSystem} (here : after.here = fs.here) (p : Path) (l : Location) :
    after.GoesBelow p l ↔ fs.GoesBelow p l := by
  rw [GoesBelow, GoesBelow, way_congr here]

section Emptied

variable {fs : FileSystem} {p : Path} {name : List Char}

theorem mem_way_of_passed {d : Location}
    (member : d ∈ passed (fs.base p) ((names p).filter (· ≠ ['.']))) : d ∈ fs.way p :=
  List.mem_append_left _ (mem_passed_of_without_dots _ _ d member)

theorem passed_of_goes_below (goes : fs.GoesBelow p (fs.place p ++ [name])) :
    ∃ d ∈ passed (fs.base p) ((names p).filter (· ≠ ['.'])), Below (fs.place p ++ [name]) d := by
  obtain ⟨d, member, inside⟩ := goes
  have outside := not_below_parent (fs.place p) name
  refine ⟨d, ?_, inside⟩
  rcases List.mem_append.mp member with through | last
  · rcases passed_without_dots _ _ d through with kept | ⟨_, last⟩
    · exact kept
    · exact absurd inside (last ▸ outside)
  · exact absurd inside (List.mem_singleton.mp last ▸ outside)

theorem walk_emptied_lost (stood : ∀ d ∈ fs.way p, fs.get? d = some .directory)
    (shortNames : ∀ n ∈ (names p).filter (· ≠ ['.']), utf8Length n ≤ maxNameBytes)
    (goes : fs.GoesBelow p (fs.place p ++ [name])) :
    (fs.clear (fs.place p ++ [name])).walk (fs.base p) ((names p).filter (· ≠ ['.'])) =
      .error .notFound := by
  apply walk_not_found _ _ _ shortNames
  · intro d member
    rw [get_clear]
    split
    · exact .inr rfl
    · exact .inl (stood d (mem_way_of_passed member))
  · obtain ⟨d, through, inside⟩ := passed_of_goes_below goes
    exact ⟨d, through, by rw [get_clear, if_pos inside]⟩

theorem walk_emptied (kept : ∀ d ∈ fs.way p, (fs.clear (fs.place p ++ [name])).get? d = some .directory)
    (shortNames : ∀ n ∈ (names p).filter (· ≠ ['.']), utf8Length n ≤ maxNameBytes) :
    (fs.clear (fs.place p ++ [name])).walk (fs.base p) ((names p).filter (· ≠ ['.'])) =
      .ok (fs.spot p) := by
  refine (walk_eq_ok_iff _ _ _ _).mpr ⟨fun d member => kept d (mem_way_of_passed member), shortNames, ?_⟩
  rw [follow_without_dots]
  rfl

end Emptied

-- The directory is emptied first. A way through what was in it leads nowhere after that.
theorem remove_tree_join (fs : FileSystem) (p : Path) {name : List Char} (proper : Path.IsName name)
    (reaches : fs.Reaches (p.join name)) (there : fs.get? (fs.place p ++ [name]) = some .directory) :
    fs.removeTree (p.join name) = (.ok (),
      if fs.GoesBelow p (fs.place p ++ [name]) then fs.clear (fs.place p ++ [name])
      else (fs.clear (fs.place p ++ [name])).erase (fs.place p ++ [name])) := by
  have found : fs.find (p.join name) = .ok (fs.place p ++ [name], .directory) :=
    (find_eq_ok_iff fs _ _ _).mpr
      ⟨reaches, (place_join fs p proper).symm, (look_join fs p proper).trans there, fun _ => rfl⟩
  have outer : (names (p.join name)).dropLast = names p := by
    rw [Path.names_join p proper.nonempty proper.plain, List.dropLast_concat]
  have start : (fs.clear (fs.place p ++ [name])).base (p.join name) = fs.base p := base_join fs p proper
  have shortNames : ∀ n ∈ (names p).filter (· ≠ ['.']), utf8Length n ≤ maxNameBytes := by
    intro n member
    apply reaches.legal.shortNames
    rw [Path.names_join p proper.nonempty proper.plain]
    exact List.mem_append_left _ (List.mem_filter.mp member).1
  have stood : ∀ d ∈ fs.way p, fs.get? d = some .directory := by
    have directories := reaches.directories
    rwa [passed_join fs p proper] at directories
  rw [removeTree, found]
  simp only [removeDir, outer, start]
  by_cases below : fs.GoesBelow p (fs.place p ++ [name])
  · rw [if_pos below, walk_emptied_lost stood shortNames below]
  · have kept : ∀ d ∈ fs.way p, (fs.clear (fs.place p ++ [name])).get? d = some .directory := by
      intro d member
      rw [get_clear, if_neg fun inside => below ⟨d, member, inside⟩]
      exact stood d member
    have parent : (fs.clear (fs.place p ++ [name])).look (fs.spot p) = some .directory :=
      look_of_directory _ (kept (fs.place p) (List.mem_append_right _ (List.mem_singleton_self _)))
    rw [if_neg below, walk_emptied kept shortNames]
    simp only [parent, reduceCtorEq, if_false, Path.ending_join p proper]

structure Vacated (l : Location) (stays : Prop) (fs after : FileSystem) : Prop where
  here : after.here = fs.here
  below : ∀ spot, Below l spot → after.get? spot = none
  gone : ¬ stays → after.get? l = none
  left : stays → after.get? l = some .directory
  outside : ∀ spot, ¬ l <+: spot → after.get? spot = fs.get? spot

theorem remove_tree_vacates (fs : FileSystem) (p : Path) {name : List Char} (proper : Path.IsName name)
    (reaches : fs.Reaches (p.join name)) (there : fs.get? (fs.place p ++ [name]) = some .directory) :
    (fs.removeTree (p.join name)).1 = .ok () ∧
      Vacated (fs.place p ++ [name]) (fs.GoesBelow p (fs.place p ++ [name])) fs
        (fs.removeTree (p.join name)).2 := by
  have inner : fs.place p ++ [name] ≠ [] := by simp
  have apart : ¬ Below (fs.place p ++ [name]) (fs.place p ++ [name]) := fun below => below.2 rfl
  rw [remove_tree_join fs p proper reaches there]
  refine ⟨rfl, ?_⟩
  by_cases goes : fs.GoesBelow p (fs.place p ++ [name])
  · rw [if_pos goes]
    refine ⟨rfl, fun spot below => ?_, fun stay => absurd goes stay, fun _ => ?_, fun spot front => ?_⟩
    · rw [get_clear, if_pos below]
    · rw [get_clear, if_neg apart, there]
    · rw [get_clear, if_neg fun below => front below.1]
  · rw [if_neg goes]
    refine ⟨rfl, fun spot below => ?_, fun _ => ?_, fun stay => absurd stay goes, fun spot front => ?_⟩
    · rw [get_erase _ inner, if_pos below.1]
    · rw [get_erase _ inner, if_pos List.prefix_rfl]
    · rw [get_erase _ inner, if_neg front, get_clear, if_neg fun below => front below.1]

theorem remove_tree_cases (fs : FileSystem) (p : Path) :
    (fs.removeTree p).2 = fs ∨ (fs.removeTree p).2 = fs.clear (fs.place p) ∨
      (fs.removeTree p).2 = (fs.clear (fs.place p)).erase (fs.place p) := by
  unfold removeTree
  cases found : fs.find p with
  | error e => exact .inl rfl
  | ok answer =>
      obtain ⟨l, entry⟩ := answer
      obtain ⟨_, same, _⟩ := (find_eq_ok_iff fs p l entry).mp found
      cases entry with
      | file content => exact .inl rfl
      | directory =>
          right
          rw [← same]
          simp only [removeDir]
          split
          · exact .inl rfl
          · exact .inl rfl
          · split
            · exact .inl rfl
            · split
              · exact .inl rfl
              · exact .inl rfl
              · exact .inl rfl
              · exact .inr rfl
              · exact .inr rfl

theorem here_remove_tree (fs : FileSystem) (p : Path) : (fs.removeTree p).2.here = fs.here := by
  rcases remove_tree_cases fs p with same | cleared | erased
  · rw [same]
  · rw [cleared, here_clear]
  · rw [erased, here_erase, here_clear]

theorem is_tree_remove_tree {fs : FileSystem} (tree : fs.IsTree) (p : Path) :
    (fs.removeTree p).2.IsTree := by
  rcases remove_tree_cases fs p with same | cleared | erased
  · rwa [same]
  · rw [cleared]
    exact is_tree_clear tree _
  · rw [erased]
    exact is_tree_erase (is_tree_clear tree _) _

theorem remove_tree_within (fs : FileSystem) (p : Path) {l : Location} (outside : ¬ fs.place p <+: l) :
    (fs.removeTree p).2.get? l = fs.get? l := by
  have inner : fs.place p ≠ [] := fun root => outside (root ▸ List.nil_prefix)
  have apart : ¬ Below (fs.place p) l := fun below => outside below.1
  rcases remove_tree_cases fs p with same | cleared | erased
  · rw [same]
  · rw [cleared, get_clear, if_neg apart]
  · rw [erased, get_erase _ inner, if_neg outside, get_clear, if_neg apart]

end Removing

end Loom.FileSystem
