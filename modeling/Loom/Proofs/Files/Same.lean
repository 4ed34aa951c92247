import Loom.Proofs.Files.Ways

set_option autoImplicit false

/-! Trees that hold the same, however their entries are listed. -/
namespace Loom.FileSystem

structure Same (fs other : FileSystem) : Prop where
  here : other.here = fs.here
  entries : ∀ l, other.get? l = fs.get? l

structure Alike {α : Type} (first second : After α) : Prop where
  answer : second.1 = first.1
  files : first.2.Same second.2

theorem same_of_lookup {fs other : FileSystem} (here : other.here = fs.here)
    (lookup : ∀ l, l ≠ [] → other.entries.lookup l = fs.entries.lookup l) : fs.Same other := by
  refine ⟨here, fun l => ?_⟩
  unfold get?
  by_cases root : l = []
  · rw [if_pos root, if_pos root]
  · rw [if_neg root, if_neg root, lookup l root]

theorem ensure_dir_eq (fs : FileSystem) (p : Path) : fs.ensureDir p =
    let made := fs.makeDir p
    if made.1 = .error .alreadyExists then
      if made.2.kind? p = some .directory then (.ok (), made.2) else (.error .alreadyExists, made.2)
    else made := by
  unfold ensureDir
  cases fs.makeDir p with
  | mk answer mid =>
      dsimp only
      split
      · rename_i exists_
        cases exists_
        rw [if_pos rfl]
      · rename_i other
        rw [if_neg fun same => other mid (by rw [same])]

theorem make_chain_cons_eq (fs : FileSystem) (p : Path) (outer : List Path) : fs.makeChain (p :: outer) =
    let made := fs.ensureDir p
    let parents := made.2.makeChain outer
    if made.1 = .error .notFound then if parents.1 = .ok () then parents.2.ensureDir p else parents
    else made := by
  rw [makeChain]
  cases fs.ensureDir p with
  | mk answer mid =>
      dsimp only
      split
      · rename_i missing
        cases missing
        rw [if_pos rfl]
        cases mid.makeChain outer with
        | mk answer above =>
            cases answer with
            | ok _ => rfl
            | error e => rfl
      · rename_i other
        rw [if_neg fun same => other mid (by rw [same])]

section Operations

variable {fs other : FileSystem} (same : fs.Same other)
include same

theorem Same.lookup {l : Location} (inner : l ≠ []) : other.entries.lookup l = fs.entries.lookup l := by
  have found := same.entries l
  rwa [get?, get?, if_neg inner, if_neg inner] at found

theorem same_erase (l : Location) : (fs.erase l).Same (other.erase l) := by
  refine same_of_lookup same.here fun spot inner => ?_
  have keep := lookup_filter fun e => !l.isPrefixOf e
  rw [erase, erase, keep, keep, same.lookup inner]

theorem same_clear (l : Location) : (fs.clear l).Same (other.clear l) := by
  refine same_of_lookup same.here fun spot inner => ?_
  have keep := lookup_filter fun e => !l.isPrefixOf e || decide (l = e)
  rw [clear, clear, keep, keep, same.lookup inner]

theorem same_put (l : Location) (entry : Entry) : (fs.put l entry).Same (other.put l entry) := by
  refine same_of_lookup same.here fun spot inner => ?_
  rw [put, put, List.lookup_cons, List.lookup_cons, (same_erase same l).lookup inner]

theorem Same.look (s : Spot) : other.look s = fs.look s := look_congr fs (same.entries _)

theorem Same.walk (s : Spot) (ns : List (List Char)) : other.walk s ns = fs.walk s ns :=
  walk_congr fs s ns fun d _ => same.entries d

theorem Same.locate (p : Path) : other.locate p = fs.locate p := by
  unfold FileSystem.locate
  rw [base_congr same.here, same.walk]

theorem Same.find (p : Path) : other.find p = fs.find p := find_congr fs same.here p fun d _ => same.entries d

theorem Same.kind (p : Path) : other.kind? p = fs.kind? p := by
  rw [kind?, kind?, same.find]

theorem Same.read (p : Path) : other.read p = fs.read p := by
  rw [FileSystem.read, FileSystem.read, same.find]

theorem alike_write (p : Path) (content : Bytes) : Alike (fs.write p content) (other.write p content) := by
  have writable : other.writable p = fs.writable p := by
    unfold FileSystem.writable
    rw [same.locate]
    cases fs.locate p with
    | error e => rfl
    | ok s => simp only [same.look]
  unfold FileSystem.write
  rw [writable]
  cases fs.writable p with
  | error e => exact ⟨rfl, same⟩
  | ok l => exact ⟨rfl, same_put same l _⟩

theorem alike_make_dir (p : Path) : Alike (fs.makeDir p) (other.makeDir p) := by
  unfold makeDir
  rw [same.locate]
  cases fs.locate p with
  | error e => exact ⟨rfl, same⟩
  | ok s =>
      simp only [same.look]
      cases fs.look s with
      | some entry => exact ⟨rfl, same⟩
      | none => exact ⟨rfl, same_put same _ _⟩

theorem alike_ensure_dir (p : Path) : Alike (fs.ensureDir p) (other.ensureDir p) := by
  have made := alike_make_dir same p
  rw [ensure_dir_eq, ensure_dir_eq]
  simp only [made.answer, made.files.kind]
  split
  · split
    · exact ⟨rfl, made.files⟩
    · exact ⟨rfl, made.files⟩
  · exact made

omit same in
theorem alike_make_chain (chain : List Path) (same : fs.Same other) :
    Alike (fs.makeChain chain) (other.makeChain chain) := by
  induction chain generalizing fs other with
  | nil => exact ⟨rfl, same⟩
  | cons p outer ih =>
      have ensured := alike_ensure_dir same p
      have parents := ih ensured.files
      rw [make_chain_cons_eq, make_chain_cons_eq]
      simp only [ensured.answer, parents.answer]
      split
      · split
        · exact alike_ensure_dir parents.files p
        · exact parents
      · exact ensured

theorem alike_make_dirs (p : Path) : Alike (fs.makeDirs p) (other.makeDirs p) :=
  alike_make_chain p.chain same

theorem alike_remove_dir (p : Path) (l : Location) : Alike (fs.removeDir p l) (other.removeDir p l) := by
  simp only [removeDir, base_congr same.here, same.walk, same.look]
  split
  · exact ⟨rfl, same⟩
  · exact ⟨rfl, same⟩
  · split
    · exact ⟨rfl, same⟩
    · split
      · exact ⟨rfl, same⟩
      · exact ⟨rfl, same⟩
      · exact ⟨rfl, same⟩
      · exact ⟨rfl, same_erase same l⟩
      · exact ⟨rfl, same_erase same l⟩

theorem alike_remove_tree (p : Path) : Alike (fs.removeTree p) (other.removeTree p) := by
  unfold removeTree
  rw [same.find]
  split
  · exact ⟨rfl, same⟩
  · exact ⟨rfl, same⟩
  · exact alike_remove_dir (same_clear same _) p _

theorem alike_copy (source target : Path) : Alike (fs.copy source target) (other.copy source target) := by
  have emptied := alike_write same target []
  unfold copy
  rw [same.find]
  cases fs.find source with
  | error e => exact ⟨rfl, same⟩
  | ok found =>
      obtain ⟨l, entry⟩ := found
      cases entry with
      | directory => exact ⟨rfl, same⟩
      | file stored =>
          cases first : fs.write target [] with
          | mk answer mid =>
              cases second : other.write target [] with
              | mk again otherMid =>
                  rw [first, second] at emptied
                  obtain ⟨rfl, sameMid⟩ := emptied
                  cases again with
                  | error e => exact ⟨rfl, sameMid⟩
                  | ok _ =>
                      dsimp only
                      rw [sameMid.read]
                      cases mid.read source with
                      | error e => exact ⟨rfl, sameMid⟩
                      | ok content => exact alike_write sameMid target content

end Operations

end Loom.FileSystem
