import Loom.Proofs.Files.Directories
import Loom.Proofs.Files.Same
import Mathlib.Data.List.Chain

set_option autoImplicit false

/-! Making a directory with its parents succeeds when nothing but directories is on its way and the way comes to one.
-/
namespace Loom

open FileSystem

namespace Path

def namesUpTo (done : Option (List Char)) : List (List Char) := done.elim [] fun text => names ⟨text⟩

theorem names_up_to (done : Option (List Char)) {piece : List Char} (plain : '/' ∉ piece) :
    namesUpTo (upTo done piece) = namesUpTo done ++ [piece].filter (· ≠ []) := by
  cases done with
  | none =>
      rw [namesUpTo, upTo, Option.elim_some, names, pieces_of_plain plain]
      rfl
  | some text =>
      rw [namesUpTo, upTo, Option.elim_some, names, pieces_append, pieces_of_plain plain, List.filter_append]
      rfl

end Path

namespace FileSystem

def entered (s : Spot) (ns : List (List Char)) : List Location :=
  passed s ns ++ if (follow s ns).held then [] else [(follow s ns).location]

-- Names are looked up on the way along other names only, but for the first one that is looked up.
def Leads (s : Spot) (ns ms : List (List Char)) : Prop :=
  ∀ d ∈ passed s ms, d ∈ entered s ns ∨ d ∈ (passed s ms).head?

theorem entered_dot (s : Spot) (ns : List (List Char)) :
    (∀ d ∈ entered s (ns ++ [['.']]), d ∈ entered s ns) ∧ follow s (ns ++ [['.']]) = follow s ns := by
  have stays : follow s (ns ++ [['.']]) = follow s ns := by
    rw [follow_append]
    rfl
  refine ⟨fun d member => ?_, stays⟩
  rw [entered, stays, passed_append] at member
  unfold entered
  cases held : (follow s ns).held with
  | true => simpa [passed, asked, held, isDots] using member
  | false => simpa [passed, asked, held] using member

theorem leads_name (s : Spot) (ns : List (List Char)) (name : List Char) : Leads s ns (ns ++ [name]) := by
  intro d member
  rw [passed_append, passed, passed, List.append_nil] at member ⊢
  by_cases loose : (follow s ns).held = false
  · left
    rw [asked_of_loose loose] at member
    rwa [entered, loose]
  · right
    rw [passed_of_held (by simpa using loose), List.nil_append] at member ⊢
    unfold asked at member ⊢
    split at member
    · cases member
    · rename_i looked
      rw [if_neg looked, List.mem_singleton.mp member]
      rfl

end FileSystem

namespace Path

def stepNames (step : Component × List Char) : List (List Char) := names ⟨step.2⟩

theorem step_names_up_to (done : Option (List Char)) (piece : List Char) :
    stepNames (componentOf piece, (upTo done piece).getD []) = namesUpTo (upTo done piece) := by
  cases done with
  | none => rfl
  | some text => rfl

variable (s : Spot)

theorem skipped_leads {done : Option (List Char)} {piece : List Char} (plain : '/' ∉ piece)
    (skipped : piece = [] ∨ piece = ['.'] ∧ done.isSome) :
    (∀ d ∈ entered s (namesUpTo (upTo done piece)), d ∈ entered s (namesUpTo done)) ∧
      namesUpTo done <+: namesUpTo (upTo done piece) ∧
      follow s (namesUpTo (upTo done piece)) = follow s (namesUpTo done) := by
  rw [names_up_to done plain]
  rcases skipped with empty | ⟨dot, _⟩
  · rw [empty, List.filter_cons_of_neg (by simp), List.filter_nil, List.append_nil]
    exact ⟨fun _ member => member, List.prefix_rfl, rfl⟩
  · rw [dot]
    exact ⟨(entered_dot s _).1, List.prefix_append _ _, (entered_dot s _).2⟩

theorem steps_lead (done : Option (List Char)) {ps : List (List Char)} (plain : ∀ piece ∈ ps, '/' ∉ piece) :
    List.IsChain (Leads s) (namesUpTo done :: (stepsFrom done ps).map stepNames) := by
  induction ps generalizing done with
  | nil => exact List.isChain_singleton _
  | cons piece rest ih =>
      obtain ⟨first, later⟩ := List.forall_mem_cons.mp plain
      have next := ih (upTo done piece) later
      rw [steps_from_cons]
      split
      · rename_i skipped
        obtain ⟨leads, chain⟩ := List.isChain_cons.mp next
        refine List.isChain_cons.mpr ⟨fun ms head d member => ?_, chain⟩
        exact (leads ms head d member).imp_left ((skipped_leads s first skipped).1 d)
      · rename_i kept
        have nonempty : piece ≠ [] := fun empty => kept (.inl empty)
        rw [List.map_cons, step_names_up_to]
        refine List.isChain_cons_cons.mpr ⟨?_, next⟩
        rw [names_up_to done first, List.filter_cons_of_pos (by simpa using nonempty), List.filter_nil]
        exact leads_name s _ piece

theorem last_step_leads {done : Option (List Char)} {ps : List (List Char)} {text : List Char}
    (plain : ∀ piece ∈ ps, '/' ∉ piece) (whole : ps.foldl upTo done = some text) :
    let last := ((stepsFrom done ps).map stepNames).getLastD (namesUpTo done)
    (∀ d ∈ entered s (names ⟨text⟩), d ∈ entered s last) ∧ last <+: names ⟨text⟩ ∧
      follow s (names ⟨text⟩) = follow s last := by
  -- What follows the last component leads nowhere.
  induction ps generalizing done with
  | nil =>
      cases whole
      exact ⟨fun _ member => member, List.prefix_rfl, rfl⟩
  | cons piece rest ih =>
      obtain ⟨first, later⟩ := List.forall_mem_cons.mp plain
      have next := ih later whole
      rw [steps_from_cons]
      split
      · rename_i skipped
        obtain ⟨leads, front, stays⟩ := skipped_leads s first skipped
        cases ahead : (stepsFrom (upTo done piece) rest).map stepNames with
        | nil =>
            rw [ahead] at next
            exact ⟨fun d member => leads d (next.1 d member), front.trans next.2.1, next.2.2.trans stays⟩
        | cons other others =>
            rw [ahead] at next
            exact next
      · rw [List.map_cons, step_names_up_to, List.getLastD_cons]
        exact next

-- A path that is made with its parents is looked up on the way along the innermost parent, but for the first location
-- and what it leads to; so is each parent on the way along the next one.
theorem chain_leads {p : Path} {outer : List Path} (chain : p.chain = p :: outer) :
    (outer.map names ++ [[]]).IsChain (fun ms ns => Leads s ns ms) ∧
      ∀ d ∈ passed s (names p), d ∈ entered s ((outer.map names).headD []) ∨ d ∈ (passed s (names p)).head? ∨
        d = (follow s (names p)).location := by
  have plain : ∀ piece ∈ pieces p.chars, '/' ∉ piece := fun piece => plain_of_mem_pieces
  have leads : ([] :: p.steps.map stepNames).IsChain (Leads s) := steps_lead s none plain
  have ends := last_step_leads s plain (up_to_pieces p.chars)
  unfold Path.chain at chain
  split at chain
  · cases chain
  · rename_i last rest reversed
    have parents : outer.map names = rest.map stepNames := by
      rw [← (List.cons.inj chain).2, List.map_map]
      rfl
    have forward : p.steps = rest.reverse ++ [last] := by
      rw [← List.reverse_reverse p.steps, reversed, List.reverse_cons]
    have backward : ((last :: rest).map stepNames ++ [[]]).IsChain fun ms ns => Leads s ns ms := by
      apply List.isChain_reverse.mp
      rwa [List.reverse_append, ← List.map_reverse, ← reversed, List.reverse_reverse]
    have final : ((stepsFrom none (pieces p.chars)).map stepNames).getLastD (namesUpTo none) = stepNames last := by
      rw [← Path.steps, forward, List.map_append, List.map_singleton, List.getLastD_concat]
    rw [final] at ends
    obtain ⟨inside, ⟨more, whole⟩, same⟩ := ends
    obtain ⟨first, others⟩ := List.isChain_cons.mp backward
    rw [parents]
    refine ⟨others, fun d member => ?_⟩
    rcases List.mem_append.mp (inside d (List.mem_append_left _ member)) with through | place
    · have onWay := first ((rest.map stepNames).headD []) (by cases rest <;> rfl) d through
      refine onWay.imp_right fun start => .inl ?_
      rw [show names p = stepNames last ++ more from whole.symm, passed_append]
      exact List.mem_head?_append_of_mem_head? start
    · right
      right
      rw [show follow s (names p) = _ from same]
      split at place
      · cases place
      · exact List.mem_singleton.mp place

theorem no_chain_leads {p : Path} (held : s.held = true) (chain : p.chain = []) : passed s (names p) = [] := by
  have plain : ∀ piece ∈ pieces p.chars, '/' ∉ piece := fun piece => plain_of_mem_pieces
  have last := (last_step_leads s plain (up_to_pieces p.chars)).1
  have empty : stepsFrom none (pieces p.chars) = [] := by
    unfold Path.chain at chain
    split at chain
    · rename_i none_
      exact List.reverse_eq_nil_iff.mp none_
    · cases chain
  rw [empty] at last
  have nowhere : entered s [] = [] := by
    rw [entered, follow, List.foldl_nil, if_pos held]
    rfl
  refine List.eq_nil_iff_forall_not_mem.mpr fun d member => ?_
  have inside : d ∈ entered s [] := last d (List.mem_append_left _ member)
  rw [nowhere] at inside
  cases inside

end Path

namespace FileSystem

theorem legal_of_front {p q : Path} (legal : Legal p) (nonempty : q.chars ≠ []) (front : q.chars <+: p.chars)
    (namesFront : names q <+: names p) : Legal q := by
  obtain ⟨more, whole⟩ := front
  obtain ⟨_, plain, short, shortNames⟩ := legal
  rw [← whole] at plain short
  refine ⟨nonempty, ?_, ?_, fun name member => shortNames name (namesFront.mem member)⟩
  · rw [← Bool.not_eq_true, List.contains_iff_mem] at plain ⊢
    exact fun member => plain (List.mem_append_left more member)
  · rw [utf8_length_append] at short
    omega

variable {fs : FileSystem}

theorem ensure_dir_done {p : Path} (reaches : fs.Reaches p) (free : (fs.spot p).held = false →
      fs.get? (fs.place p) = some .directory ∨ fs.get? (fs.place p) = none) :
    (fs.ensureDir p).1 = .ok () := by
  have located := (locate_eq_ok_iff fs p _).mpr ⟨reaches, rfl⟩
  rw [ensure_dir_eq]
  by_cases there : fs.look (fs.spot p) = some .directory
  · have kind : fs.kind? p = some .directory := (kind_eq_some_iff fs p .directory).mpr
      ⟨.directory, (find_eq_ok_iff _ _ _ _).mpr ⟨reaches, rfl, there, fun _ => rfl⟩, rfl⟩
    simp only [makeDir, located, there, kind, if_true]
  · have loose := loose_of_leaf fs there
    have missing : fs.look (fs.spot p) = none := by
      rw [look_of_loose fs loose] at there ⊢
      exact (free loose).resolve_left there
    simp only [makeDir, located, missing, reduceCtorEq, if_false]

theorem ensure_dir_gap {p : Path} (legal : Legal p)
    (fileless : ∀ d ∈ passed (fs.base p) (names p), fs.get? d = some .directory ∨ fs.get? d = none)
    (gap : ∃ d ∈ passed (fs.base p) (names p), fs.get? d = none) : fs.ensureDir p = (.error .notFound, fs) := by
  have lost : fs.locate p = .error .notFound := by
    unfold locate
    rw [if_neg legal.nonempty, if_neg (by simpa using legal.plain), if_neg (Nat.not_lt.mpr legal.short)]
    exact walk_not_found fs _ _ legal.shortNames fileless gap
  unfold ensureDir makeDir
  rw [lost]

theorem entered_of_chain (fs : FileSystem) {p q : Path} (member : q ∈ p.chain) :
    ∀ d ∈ entered (fs.base p) (names q), d ∈ fs.way p := by
  obtain ⟨front, last⟩ := passed_of_chain fs member
  rw [← base_of_chain fs member] at front ⊢
  intro d inside
  rcases List.mem_append.mp inside with through | place
  · exact List.mem_append_left _ (base_of_chain fs member ▸ front.mem through)
  · split at place
    · cases place
    · rename_i loose
      rw [List.mem_singleton.mp place]
      exact last (by simpa using loose : (follow (fs.base q) (names q)).held = false)

theorem make_chain_cons_done (tree : fs.IsTree) {p : Path} {outer : List Path} (legal : Legal p)
    (fileless : ∀ d ∈ entered (fs.base p) (names p), fs.get? d = some .directory ∨ fs.get? d = none)
    (above : (fs.makeChain outer).1 = .ok ())
    (through : ∀ d ∈ passed (fs.base p) (names p), (fs.makeChain outer).2.get? d = some .directory) :
    (fs.makeChain (p :: outer)).1 = .ok () := by
  have onWay : ∀ d ∈ passed (fs.base p) (names p), fs.get? d = some .directory ∨ fs.get? d = none :=
    fun d member => fileless d (List.mem_append_left _ member)
  have last (loose : (fs.spot p).held = false) := fileless (fs.place p) <| by
    rw [entered, show (follow (fs.base p) (names p)).held = false from loose]
    exact List.mem_append_right _ (List.mem_singleton_self _)
  rw [make_chain_cons_eq]
  by_cases gap : ∃ d ∈ passed (fs.base p) (names p), fs.get? d = none
  · have grows := (make_chain_adds tree outer).1
    have reaches : (fs.makeChain outer).2.Reaches p := ⟨legal, by rwa [base_congr grows.here]⟩
    simp only [ensure_dir_gap legal onWay gap, above, if_true]
    refine ensure_dir_done reaches fun loose => ?_
    rw [spot_congr grows.here] at loose
    rw [place_congr grows.here]
    rcases grows.entries (fs.place p) trivial with same | ⟨_, _, there⟩
    · rw [same]
      exact last loose
    · exact .inl there
  · have reaches : fs.Reaches p :=
      ⟨legal, fun d member => (onWay d member).resolve_right fun missing => gap ⟨d, member, missing⟩⟩
    have done := ensure_dir_done reaches last
    simp only [done, reduceCtorEq, if_false]

theorem make_chain_done (tree : fs.IsTree) {s : Spot} (held : s.held = true) {chain : List Path}
    (leads : (chain.map names ++ [[]]).IsChain fun ms ns => Leads s ns ms) (legal : ∀ q ∈ chain, Legal q)
    (base : ∀ q ∈ chain, fs.base q = s)
    (start : ∀ q ∈ chain, ∀ d ∈ (passed s (names q)).head?, fs.get? d = some .directory)
    (fileless : ∀ q ∈ chain, ∀ d ∈ entered s (names q), fs.get? d = some .directory ∨ fs.get? d = none) :
    (fs.makeChain chain).1 = .ok () ∧
      ∀ d ∈ entered s ((chain.map names).headD []), (fs.makeChain chain).2.get? d = some .directory := by
  induction chain with
  | nil =>
      refine ⟨rfl, fun d member => ?_⟩
      rw [List.map_nil, List.headD_nil, entered, follow, List.foldl_nil, if_pos held] at member
      cases member
  | cons q outer ih =>
      obtain ⟨first, later⟩ := List.isChain_cons.mp leads
      obtain ⟨legalFirst, legalLater⟩ := List.forall_mem_cons.mp legal
      obtain ⟨baseFirst, baseLater⟩ := List.forall_mem_cons.mp base
      obtain ⟨startFirst, startLater⟩ := List.forall_mem_cons.mp start
      obtain ⟨freeFirst, freeLater⟩ := List.forall_mem_cons.mp fileless
      obtain ⟨above, made⟩ := ih later legalLater baseLater startLater freeLater
      have grows := (make_chain_adds tree outer).1
      have onWay : Leads s ((outer.map names).headD []) (names q) := by
        apply first
        cases outer with
        | nil => rfl
        | cons r rest => rfl
      -- Names are looked up where the parents led, but for the first one, whose directory stood before.
      have done := make_chain_cons_done tree legalFirst (baseFirst ▸ freeFirst) above (by
        rw [baseFirst]
        exact fun d member => (onWay d member).elim (made d) fun head => grows.keeps.directories d (startFirst d head))
      refine ⟨done, fun d member => ?_⟩
      obtain ⟨reaches, there⟩ := make_chain_reaches tree (Prod.ext done rfl)
      have grown := (make_chain_adds tree (q :: outer)).1
      rw [List.map_cons, List.headD_cons] at member
      rcases List.mem_append.mp member with through | last
      · apply reaches.directories
        rwa [base_congr grown.here, baseFirst]
      · rw [← baseFirst] at last
        split at last
        · cases last
        · rename_i loose
          rw [List.mem_singleton.mp last]
          exact there (by simpa using loose : (follow (fs.base q) (names q)).held = false)

theorem make_dirs_done (tree : fs.IsTree) {p : Path} (legal : p.chain ≠ [] → Legal p)
    (start : ∀ d ∈ (fs.way p).head?, fs.get? d = some .directory)
    (fileless : ∀ d ∈ fs.way p, fs.get? d = some .directory ∨ fs.get? d = none)
    (there : fs.get? (fs.place p) = some .directory) :
    (fs.makeDirs p).1 = .ok () ∧ ∀ d ∈ fs.way p, (fs.makeDirs p).2.get? d = some .directory := by
  cases chain : p.chain with
  | nil =>
      have stood : ∀ d ∈ fs.way p, fs.get? d = some .directory := by
        intro d member
        rw [way, Path.no_chain_leads (fs.base p) rfl chain] at member
        rwa [List.mem_singleton.mp member]
      rw [make_dirs_stood legal stood]
      exact ⟨rfl, stood⟩
  | cons q outer =>
      have same := Path.head_of_chain chain
      subst same
      have parents : ∀ r ∈ outer, r ∈ q.chain := fun r member => chain ▸ List.mem_cons_of_mem q member
      obtain ⟨leads, through⟩ := Path.chain_leads (fs.base q) chain
      have ownLegal := legal (by rw [chain]; exact List.cons_ne_nil q outer)
      -- All parents start where the path does, so what they look up first is there already.
      have starts : ∀ r ∈ q.chain, ∀ d ∈ (passed (fs.base q) (names r)).head?, fs.get? d = some .directory := by
        intro r member d head
        obtain ⟨more, whole⟩ := (passed_of_chain fs member).1
        apply start
        rw [way, ← whole, base_of_chain fs member, List.append_assoc]
        exact List.mem_head?_append_of_mem_head? head
      obtain ⟨above, made⟩ := make_chain_done tree rfl leads
        (fun r member =>
          have front := Path.text_of_chain (parents r member)
          legal_of_front ownLegal front.1 front.2.1 front.2.2)
        (fun r member => base_of_chain fs (parents r member)) (fun r member => starts r (parents r member))
        (fun r member d onWay => fileless d (entered_of_chain fs (parents r member) d onWay))
      have grows := (make_chain_adds tree outer).1
      have done : (fs.makeDirs q).1 = .ok () := by
        rw [makeDirs, chain]
        refine make_chain_cons_done tree ownLegal (fun d onWay => fileless d ?_) above fun d member => ?_
        · exact entered_of_chain fs (chain ▸ List.mem_cons_self) d onWay
        · rcases through d member with inside | head | last
          · exact made d inside
          · exact grows.keeps.directories d (starts q (chain ▸ List.mem_cons_self) d head)
          · rw [last]
            exact grows.keeps.directories _ there
      refine ⟨done, fun d member => ?_⟩
      have all := (make_dirs_grows tree q).1
      rcases List.mem_append.mp member with onWay | last
      · rw [makeDirs, chain] at done all ⊢
        apply (make_chain_reaches tree (Prod.ext done rfl)).1.directories
        rwa [base_congr all.here]
      · rw [List.mem_singleton.mp last]
        exact all.keeps.directories _ there

end FileSystem

end Loom
