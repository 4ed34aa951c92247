import Loom.Proofs.Files.Ways

set_option autoImplicit false

namespace Loom.FileSystem

-- The trees differ in free locations at most, and no directory is lost.
structure Keeps (free : Location → Prop) (fs after : FileSystem) : Prop where
  here : after.here = fs.here
  elsewhere : ∀ l, ¬ free l → after.get? l = fs.get? l
  directories : ∀ d, fs.get? d = some .directory → after.get? d = some .directory

theorem keeps_refl (free : Location → Prop) (fs : FileSystem) : Keeps free fs fs :=
  ⟨rfl, fun _ _ => rfl, fun _ there => there⟩

theorem keeps_trans {free : Location → Prop} {fs mid after : FileSystem} (first : Keeps free fs mid)
    (second : Keeps free mid after) : Keeps free fs after :=
  ⟨second.here.trans first.here, fun l kept => (second.elsewhere l kept).trans (first.elsewhere l kept),
    fun d there => second.directories d (first.directories d there)⟩

theorem keeps_wider {free wider : Location → Prop} (wide : ∀ l, free l → wider l) {fs after : FileSystem}
    (keeps : Keeps free fs after) : Keeps wider fs after :=
  ⟨keeps.here, fun l kept => keeps.elsewhere l fun inside => kept (wide l inside), keeps.directories⟩

theorem Keeps.reaches {free : Location → Prop} {fs after : FileSystem} (keeps : Keeps free fs after)
    {p : Path} (reaches : fs.Reaches p) : after.Reaches p :=
  reaches_of_kept keeps.here reaches keeps.directories

theorem last_name_of_leaf {fs : FileSystem} (tree : fs.IsTree) {p : Path} (reaches : fs.Reaches p)
    (leaf : fs.look (fs.spot p) ≠ some .directory) :
    ∃ front name, names p = front ++ [name] ∧ name ≠ ['.'] ∧ name ≠ ['.', '.'] ∧
      fs.spot p = ⟨(follow (fs.base p) front).location ++ [name], false⟩ ∧
      fs.get? (follow (fs.base p) front).location = some .directory := by
  obtain ⟨legal, directories⟩ := reaches
  have loose := loose_of_leaf fs leaf
  rcases List.eq_nil_or_concat (names p) with nameless | ⟨front, name, whole⟩
  · have held : (fs.spot p).held = true := by
      rw [spot, nameless]
      rfl
    rw [held] at loose
    cases loose
  · rw [List.concat_eq_append] at whole
    have last : fs.spot p = onward (follow (fs.base p) front) name := by
      rw [spot, whole, follow_append]
      rfl
    rw [last] at leaf loose
    rw [onward_held] at loose
    have parent : fs.get? (follow (fs.base p) front).location = some .directory := by
      apply directories
      rw [whole, passed_append, passed, asked, loose]
      exact List.mem_append_right _ List.mem_cons_self
    have notDot : name ≠ ['.'] := fun dot => leaf <| look_of_directory fs <| by
      rw [onward, if_pos dot]
      exact parent
    have notDotDot : name ≠ ['.', '.'] := fun dots => leaf <| look_of_directory fs <| by
      rw [onward, if_neg notDot, if_pos dots]
      exact directory_drop_last tree parent
    rw [onward, if_neg notDot, if_neg notDotDot] at last
    exact ⟨front, name, whole, notDot, notDotDot, last, parent⟩

theorem place_in_directory {fs : FileSystem} (tree : fs.IsTree) {p : Path} (reaches : fs.Reaches p)
    (leaf : fs.look (fs.spot p) ≠ some .directory) :
    ∃ d name, fs.place p = d ++ [name] ∧ fs.get? d = some .directory := by
  obtain ⟨front, name, _, _, _, last, parent⟩ := last_name_of_leaf tree reaches leaf
  exact ⟨_, name, congrArg Spot.location last, parent⟩

theorem ending_of_leaf {fs : FileSystem} (tree : fs.IsTree) {p : Path} (reaches : fs.Reaches p)
    (leaf : fs.look (fs.spot p) ≠ some .directory) (unslashed : ending p ≠ .slashed) :
    ending p = .name := by
  obtain ⟨front, name, whole, notDot, notDotDot, _⟩ := last_name_of_leaf tree reaches leaf
  unfold ending at unslashed ⊢
  rw [whole, List.getLast?_concat] at unslashed ⊢
  simp only [notDot, notDotDot, if_false] at unslashed ⊢
  split
  · rename_i ends
    rw [if_pos ends] at unslashed
    exact absurd rfl unslashed
  · rfl

theorem leaf_of_look {fs : FileSystem} {p : Path} (leaf : fs.look (fs.spot p) ≠ some .directory) :
    fs.get? (fs.place p) ≠ some .directory :=
  fun there => leaf (look_of_directory fs there)

theorem put_keeps {fs : FileSystem} (tree : fs.IsTree) {l : Location}
    (leaf : fs.get? l ≠ some .directory) (entry : Entry) : Keeps (· = l) fs (fs.put l entry) := by
  refine ⟨rfl, fun spot other => ?_, fun d there => ?_⟩
  · rw [get_put_leaf tree leaf, if_neg other]
  · have other : d ≠ l := fun same => leaf (same ▸ there)
    rw [get_put_leaf tree leaf, if_neg other, there]

theorem is_tree_put_place {fs : FileSystem} (tree : fs.IsTree) {p : Path} (reaches : fs.Reaches p)
    (leaf : fs.look (fs.spot p) ≠ some .directory) (entry : Entry) :
    (fs.put (fs.place p) entry).IsTree := by
  obtain ⟨d, name, whole, parent⟩ := place_in_directory tree reaches leaf
  rw [whole]
  exact is_tree_put tree d name entry parent

theorem look_put_file {fs : FileSystem} (tree : fs.IsTree) {p : Path} (leaf : fs.look (fs.spot p) ≠ some .directory)
    (content : Bytes) : (fs.put (fs.place p) (.file content)).look (fs.spot p) = some (.file content) := by
  rw [look_of_loose _ (loose_of_leaf fs leaf)]
  exact (get_put_leaf tree (leaf_of_look leaf) _ _).trans (if_pos rfl)

section Writing

theorem writable_eq_ok_iff (fs : FileSystem) (p : Path) (l : Location) :
    fs.writable p = .ok l ↔ fs.Reaches p ∧ l = fs.place p ∧ ending p ≠ .slashed ∧
      fs.look (fs.spot p) ≠ some .directory := by
  unfold writable
  cases located : fs.locate p with
  | error e =>
      have lost : ¬ fs.Reaches p := by
        intro reaches
        rw [(locate_eq_ok_iff fs p _).mpr ⟨reaches, rfl⟩] at located
        cases located
      simp [lost]
  | ok s =>
      obtain ⟨reaches, same⟩ := (locate_eq_ok_iff fs p s).mp located
      subst same
      by_cases refused : ending p = .slashed ∨ fs.look (fs.spot p) = some .directory
      · simp only [refused, if_true, reduceCtorEq, false_iff, not_and]
        exact fun _ _ notSlashed leaf => leaf (refused.resolve_left notSlashed)
      · obtain ⟨unslashed, leaf⟩ := not_or.mp refused
        simp only [refused, if_false, Except.ok.injEq]
        exact ⟨fun same => ⟨reaches, same.symm, unslashed, leaf⟩, fun facts => facts.2.1.symm⟩

theorem write_cases (fs : FileSystem) (p : Path) (content : Bytes) :
    (∃ e, fs.write p content = (.error e, fs)) ∨
      (fs.write p content = (.ok (), fs.put (fs.place p) (.file content)) ∧ fs.Reaches p ∧
        ending p ≠ .slashed ∧ fs.look (fs.spot p) ≠ some .directory) := by
  unfold write
  cases found : fs.writable p with
  | error e => exact .inl ⟨e, rfl⟩
  | ok l =>
      obtain ⟨reaches, same, unslashed, leaf⟩ := (writable_eq_ok_iff fs p l).mp found
      rw [same]
      exact .inr ⟨rfl, reaches, unslashed, leaf⟩

theorem write_eq_ok {fs : FileSystem} {p : Path} (reaches : fs.Reaches p) (unslashed : ending p ≠ .slashed)
    (leaf : fs.look (fs.spot p) ≠ some .directory) (content : Bytes) :
    fs.write p content = (.ok (), fs.put (fs.place p) (.file content)) := by
  rw [write, (writable_eq_ok_iff fs p _).mpr ⟨reaches, rfl, unslashed, leaf⟩]

theorem write_keeps {fs : FileSystem} (tree : fs.IsTree) (p : Path) (content : Bytes) :
    Keeps (· = fs.place p) fs (fs.write p content).2 := by
  rcases write_cases fs p content with ⟨e, failed⟩ | ⟨written, _, _, leaf⟩
  · rw [failed]
    exact keeps_refl _ fs
  · rw [written]
    exact put_keeps tree (leaf_of_look leaf) _

theorem is_tree_write {fs : FileSystem} (tree : fs.IsTree) (p : Path) (content : Bytes) :
    (fs.write p content).2.IsTree := by
  rcases write_cases fs p content with ⟨e, failed⟩ | ⟨written, reaches, _, leaf⟩
  · rwa [failed]
  · rw [written]
    exact is_tree_put_place tree reaches leaf _

end Writing

section Copying

theorem read_eq_ok_iff (fs : FileSystem) (p : Path) (content : Bytes) :
    fs.read p = .ok content ↔ fs.find p = .ok (fs.place p, .file content) := by
  unfold read
  cases found : fs.find p with
  | error e => simp
  | ok answer =>
      obtain ⟨l, entry⟩ := answer
      obtain ⟨_, same, _⟩ := (find_eq_ok_iff fs p l entry).mp found
      cases entry with
      | file stored => simp [same]
      | directory => simp

theorem read_iff (fs : FileSystem) (p : Path) (content : Bytes) :
    fs.read p = .ok content ↔ fs.Reaches p ∧ ending p ≠ .slashed ∧ fs.look (fs.spot p) = some (.file content) := by
  rw [read_eq_ok_iff, find_eq_ok_iff]
  constructor
  · rintro ⟨reaches, _, there, slashed⟩
    refine ⟨reaches, fun ends => ?_, there⟩
    cases slashed ends
  · rintro ⟨reaches, unslashed, there⟩
    exact ⟨reaches, rfl, there, fun ends => absurd ends unslashed⟩

theorem get_of_read {fs : FileSystem} {p : Path} {content : Bytes} (read : fs.read p = .ok content) :
    fs.get? (fs.place p) = some (.file content) := by
  obtain ⟨_, _, there⟩ := (read_iff fs p content).mp read
  exact ((look_eq_iff fs (by simp) _).mp there).2

theorem Keeps.read {free : Location → Prop} {fs after : FileSystem} (keeps : Keeps free fs after) {p : Path}
    {content : Bytes} (found : fs.read p = .ok content) (kept : ¬ free (fs.place p)) : after.read p = .ok content := by
  obtain ⟨reaches, unslashed, there⟩ := (read_iff fs p content).mp found
  refine (read_iff after p content).mpr ⟨keeps.reaches reaches, unslashed, ?_⟩
  rw [spot_congr keeps.here, look_congr fs (keeps.elsewhere _ kept), there]

theorem copy_cases (fs : FileSystem) (source target : Path) :
    (∃ e, fs.copy source target = (.error e, fs)) ∨
      ∃ stored, fs.find source = .ok (fs.place source, .file stored) ∧
        (fs.write target []).1 = .ok () ∧
        ((∃ e, (fs.write target []).2.read source = .error e ∧
            fs.copy source target = (.error e, (fs.write target []).2)) ∨
          ∃ content, (fs.write target []).2.read source = .ok content ∧
            fs.copy source target = (fs.write target []).2.write target content) := by
  unfold copy
  cases found : fs.find source with
  | error e => exact .inl ⟨e, rfl⟩
  | ok answer =>
      obtain ⟨l, entry⟩ := answer
      obtain ⟨_, same, _⟩ := (find_eq_ok_iff fs source l entry).mp found
      cases entry with
      | directory => exact .inl ⟨_, rfl⟩
      | file stored =>
          rcases write_cases fs target [] with ⟨e, failed⟩ | ⟨written, _⟩
          · rw [failed]
            exact .inl ⟨e, rfl⟩
          · right
            rw [written]
            refine ⟨stored, by rw [same], rfl, ?_⟩
            cases again : (fs.put (fs.place target) (.file [])).read source with
            | error e => exact .inl ⟨e, rfl, by simp only [again]⟩
            | ok content => exact .inr ⟨content, rfl, by simp only [again]⟩

theorem copy_keeps {fs : FileSystem} (tree : fs.IsTree) (source target : Path) :
    Keeps (· = fs.place target) fs (fs.copy source target).2 := by
  have emptied := write_keeps tree target []
  rcases copy_cases fs source target with ⟨e, failed⟩ | ⟨_, _, _, ⟨e, _, failed⟩ | ⟨content, _, copied⟩⟩
  · rw [failed]
    exact keeps_refl _ fs
  · rwa [failed]
  · have written := write_keeps (is_tree_write tree target []) target content
    rw [place_congr emptied.here] at written
    rw [copied]
    exact keeps_trans emptied written

theorem copy_done {fs : FileSystem} (tree : fs.IsTree) {source target : Path} {content : Bytes}
    (found : fs.read source = .ok content) (apart : fs.place source ≠ fs.place target) (reaches : fs.Reaches target)
    (unslashed : ending target ≠ .slashed) (leaf : fs.look (fs.spot target) ≠ some .directory) :
    (fs.copy source target).1 = .ok () := by
  have stands := (read_eq_ok_iff fs source content).mp found
  have written := write_eq_ok reaches unslashed leaf []
  have keeps := put_keeps tree (leaf_of_look leaf) (.file [])
  have again := keeps.read found apart
  have leafNow : (fs.put (fs.place target) (.file [])).look (fs.spot target) ≠ some .directory := by
    rw [look_put_file tree leaf]
    intro same
    cases same
  have rewritten := write_eq_ok (keeps.reaches reaches) unslashed leafNow content
  unfold copy
  simp only [stands, written, again, rewritten]

theorem is_tree_copy {fs : FileSystem} (tree : fs.IsTree) (source target : Path) :
    (fs.copy source target).2.IsTree := by
  have emptied := is_tree_write tree target []
  rcases copy_cases fs source target with ⟨e, failed⟩ | ⟨_, _, _, ⟨e, _, failed⟩ | ⟨content, _, copied⟩⟩
  · rwa [failed]
  · rwa [failed]
  · rw [copied]
    exact is_tree_write emptied target content

end Copying

end Loom.FileSystem
