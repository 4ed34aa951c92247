import Loom.FileSystem

set_option autoImplicit false

namespace Loom.Path

theorem pieces_ne_nil (cs : List Char) : pieces cs ≠ [] := by
  cases cs with
  | nil => exact List.cons_ne_nil _ _
  | cons c cs =>
      unfold pieces
      split
      · exact List.cons_ne_nil _ _
      · split <;> exact List.cons_ne_nil _ _

theorem pieces_cons_other {c : Char} (other : c ≠ '/') (cs : List Char) :
    ∃ piece rest, pieces cs = piece :: rest ∧ pieces (c :: cs) = (c :: piece) :: rest := by
  cases split : pieces cs with
  | nil => exact absurd split (pieces_ne_nil cs)
  | cons piece rest => exact ⟨piece, rest, rfl, by simp only [pieces, if_neg other, split]⟩

theorem pieces_append (before after : List Char) :
    pieces (before ++ '/' :: after) = pieces before ++ pieces after := by
  induction before with
  | nil => rfl
  | cons c cs ih =>
      by_cases slash : c = '/'
      · simp only [List.cons_append, pieces, if_pos slash, ih]
      · obtain ⟨piece, rest, whole, grown⟩ := pieces_cons_other slash cs
        rw [List.cons_append, pieces, if_neg slash, ih, grown, whole]
        rfl

theorem pieces_of_plain {piece : List Char} (plain : '/' ∉ piece) : pieces piece = [piece] := by
  induction piece with
  | nil => rfl
  | cons c cs ih =>
      obtain ⟨head, tail⟩ := not_or.mp (mt List.mem_cons.mpr plain)
      rw [pieces, if_neg fun slash => head slash.symm, ih tail]

theorem plain_of_mem_pieces {cs piece : List Char} (member : piece ∈ pieces cs) : '/' ∉ piece := by
  induction cs generalizing piece with
  | nil =>
      rw [List.mem_singleton.mp member]
      exact List.not_mem_nil
  | cons c cs ih =>
      by_cases slash : c = '/'
      · rw [pieces, if_pos slash] at member
        rcases List.mem_cons.mp member with first | later
        · rw [first]
          exact List.not_mem_nil
        · exact ih later
      · obtain ⟨piece, rest, whole, grown⟩ := pieces_cons_other slash cs
        rw [whole] at ih
        rw [grown] at member
        rcases List.mem_cons.mp member with first | later
        · rw [first, List.mem_cons, not_or]
          exact ⟨fun same => slash same.symm, ih List.mem_cons_self⟩
        · exact ih (List.mem_cons_of_mem _ later)

structure IsName (name : List Char) : Prop where
  nonempty : name ≠ []
  plain : '/' ∉ name
  notDot : name ≠ ['.']
  notDotDot : name ≠ ['.', '.']

instance : DecidablePred IsName := fun name =>
  decidable_of_iff (name ≠ [] ∧ '/' ∉ name ∧ name ≠ ['.'] ∧ name ≠ ['.', '.'])
    ⟨fun ⟨nonempty, plain, notDot, notDotDot⟩ => ⟨nonempty, plain, notDot, notDotDot⟩,
      fun proper => ⟨proper.nonempty, proper.plain, proper.notDot, proper.notDotDot⟩⟩

theorem IsName.component {name : List Char} (proper : IsName name) : componentOf name = .name name := by
  rw [componentOf, if_neg proper.notDot, if_neg proper.notDotDot]

def lead (p : Path) : List Char :=
  if p.chars = [] ∨ p.chars.getLast? = some '/' then p.chars else p.chars ++ ['/']

theorem join_plain (p : Path) {name : List Char} (plain : '/' ∉ name) :
    p.join name = ⟨p.lead ++ name⟩ := by
  have relative : name.head? ≠ some '/' := fun first => plain (List.mem_of_head? first)
  rw [join, if_neg relative, lead]
  split
  · rfl
  · rw [List.append_assoc]
    rfl

theorem lead_cases (p : Path) :
    (p.chars = [] ∧ p.lead = []) ∨ ∃ front, p.lead = front ++ ['/'] ∧
      (p.chars = front ∨ p.chars = front ++ ['/']) := by
  unfold lead
  by_cases empty : p.chars = []
  · left
    exact ⟨empty, by rw [if_pos (.inl empty), empty]⟩
  · right
    by_cases ends : p.chars.getLast? = some '/'
    · rw [if_pos (.inr ends)]
      obtain ⟨front, whole⟩ := List.getLast?_eq_some_iff.mp ends
      exact ⟨front, whole, .inr whole⟩
    · rw [if_neg (not_or.mpr ⟨empty, ends⟩)]
      exact ⟨p.chars, rfl, .inl rfl⟩

theorem join_longer (p : Path) {name : List Char} (plain : '/' ∉ name) : p.chars <+: (p.join name).chars := by
  rw [join_plain p plain]
  rcases lead_cases p with ⟨empty, _⟩ | ⟨front, slashed, same | ended⟩
  · rw [empty]
    exact List.nil_prefix
  · rw [slashed, same, List.append_assoc]
    exact List.prefix_append _ _
  · rw [slashed, ended]
    exact List.prefix_append _ _

theorem pieces_behind_slash (front : List Char) {name : List Char} (plain : '/' ∉ name) :
    pieces (front ++ ['/'] ++ name) = pieces front ++ [name] := by
  rw [List.append_assoc, List.singleton_append, pieces_append, pieces_of_plain plain]

theorem is_absolute_join (p : Path) {name : List Char} (plain : '/' ∉ name) :
    (p.join name).isAbsolute = p.isAbsolute := by
  rw [join_plain p plain]
  unfold isAbsolute
  rcases lead_cases p with ⟨empty, bare⟩ | ⟨front, slashed, same | ended⟩
  · have relative : name.head? ≠ some '/' := fun first => plain (List.mem_of_head? first)
    simp [empty, bare, relative]
  · rw [slashed, same]
    cases front with
    | nil => simp [lead, same] at slashed
    | cons c cs => rfl
  · rw [slashed, ended]
    cases front with
    | nil => rfl
    | cons c cs => rfl

theorem names_join (p : Path) {name : List Char} (nonempty : name ≠ []) (plain : '/' ∉ name) :
    FileSystem.names (p.join name) = FileSystem.names p ++ [name] := by
  have kept : [name].filter (· ≠ []) = [name] := by simp [nonempty]
  rw [join_plain p plain]
  unfold FileSystem.names
  rcases lead_cases p with ⟨empty, bare⟩ | ⟨front, slashed, same | ended⟩
  · rw [bare, empty, List.nil_append, pieces_of_plain plain, kept]
    rfl
  · rw [slashed, same, pieces_behind_slash front plain, List.filter_append, kept]
  · rw [slashed, ended, pieces_behind_slash front plain, pieces_append, List.filter_append,
      List.filter_append, kept]
    simp [pieces]

def upTo (done : Option (List Char)) (piece : List Char) : Option (List Char) :=
  match done with
  | none => some piece
  | some done => some (done ++ '/' :: piece)

theorem up_to_grows (done : List Char) (ps : List (List Char)) :
    ∃ more, ps.foldl upTo (some done) = some (done ++ more) := by
  induction ps generalizing done with
  | nil => exact ⟨[], by rw [List.append_nil]; rfl⟩
  | cons piece rest ih =>
      obtain ⟨more, whole⟩ := ih (done ++ '/' :: piece)
      exact ⟨'/' :: piece ++ more, by rw [List.foldl_cons, upTo, whole, List.append_assoc]⟩

theorem up_to_append (front done : List Char) (ps : List (List Char)) :
    ps.foldl upTo (some (front ++ done)) = (ps.foldl upTo (some done)).map (front ++ ·) := by
  induction ps generalizing done with
  | nil => rfl
  | cons piece rest ih => rw [List.foldl_cons, List.foldl_cons, upTo, upTo, List.append_assoc, ih]

theorem up_to_pieces (cs : List Char) : (pieces cs).foldl upTo none = some cs := by
  induction cs with
  | nil => rfl
  | cons c cs ih =>
      cases split : pieces cs with
      | nil => exact absurd split (pieces_ne_nil cs)
      | cons piece rest =>
          rw [split, List.foldl_cons, upTo] at ih
          by_cases slash : c = '/'
          · rw [pieces, if_pos slash, split, List.foldl_cons, List.foldl_cons, upTo, upTo, slash]
            have moved := up_to_append ['/'] piece rest
            rwa [ih] at moved
          · simp only [pieces, if_neg slash, split, List.foldl_cons, upTo]
            have moved := up_to_append [c] piece rest
            rwa [ih] at moved

theorem pieces_up_to {done text : List Char} {ps : List (List Char)} (plain : ∀ piece ∈ ps, '/' ∉ piece)
    (whole : ps.foldl upTo (some done) = some text) : pieces text = pieces done ++ ps := by
  induction ps generalizing done with
  | nil =>
      cases whole
      rw [List.append_nil]
  | cons piece rest ih =>
      have tail := ih (fun q member => plain q (List.mem_cons_of_mem _ member)) whole
      rw [tail, pieces_append, pieces_of_plain (plain piece List.mem_cons_self), List.append_assoc]
      rfl

theorem steps_from_cons (done : Option (List Char)) (piece : List Char) (rest : List (List Char)) :
    stepsFrom done (piece :: rest) =
      if piece = [] ∨ piece = ['.'] ∧ done.isSome then stepsFrom (upTo done piece) rest
      else (componentOf piece, (upTo done piece).getD []) :: stepsFrom (upTo done piece) rest := by
  cases done <;> rfl

theorem steps_from_append (done : Option (List Char)) (front : List (List Char)) (name text : List Char)
    (nonempty : name ≠ []) (notDot : name ≠ ['.']) (whole : (front ++ [name]).foldl upTo done = some text) :
    stepsFrom done (front ++ [name]) = stepsFrom done front ++ [(componentOf name, text)] := by
  induction front generalizing done with
  | nil =>
      have skip : ¬ (name = [] ∨ name = ['.'] ∧ done.isSome) := by
        rintro (empty | ⟨dot, _⟩)
        · exact nonempty empty
        · exact notDot dot
      have ends : upTo done name = some text := whole
      rw [List.nil_append, steps_from_cons, if_neg skip, ends]
      rfl
  | cons piece rest ih =>
      rw [List.cons_append, steps_from_cons, steps_from_cons, ih (upTo done piece) whole]
      split <;> simp

theorem mem_steps_from {done : Option (List Char)} {ps : List (List Char)} {c : Component} {text : List Char}
    (member : (c, text) ∈ stepsFrom done ps) :
    ∃ front piece back, ps = front ++ piece :: back ∧ piece ≠ [] ∧
      (front ++ [piece]).foldl upTo done = some text := by
  induction ps generalizing done with
  | nil => cases member
  | cons piece rest ih =>
      have later : (c, text) ∈ stepsFrom (upTo done piece) rest →
          ∃ front last back, piece :: rest = front ++ last :: back ∧ last ≠ [] ∧
            (front ++ [last]).foldl upTo done = some text := by
        intro member
        obtain ⟨front, last, back, whole, nonempty, ends⟩ := ih member
        exact ⟨piece :: front, last, back, by rw [whole]; rfl, nonempty, ends⟩
      rw [steps_from_cons] at member
      split at member
      · exact later member
      · rename_i kept
        rcases List.mem_cons.mp member with first | member
        · have ends : upTo done piece = some text := by
            cases first
            cases done <;> rfl
          exact ⟨[], piece, rest, rfl, fun empty => kept (.inl empty), ends⟩
        · exact later member

theorem steps_from_slashed (done : Option (List Char)) (ps : List (List Char)) :
    stepsFrom done (ps ++ [[]]) = stepsFrom done ps := by
  induction ps generalizing done with
  | nil => cases done <;> rfl
  | cons piece rest ih => rw [List.cons_append, steps_from_cons, steps_from_cons, ih]

theorem steps_join (p : Path) {name : List Char} (nonempty : name ≠ []) (plain : '/' ∉ name)
    (notDot : name ≠ ['.']) :
    (p.join name).steps = p.steps ++ [(componentOf name, p.lead ++ name)] := by
  rw [join_plain p plain]
  unfold steps
  rcases lead_cases p with ⟨empty, bare⟩ | ⟨front, slashed, same | ended⟩
  · rw [bare, empty, List.nil_append, pieces_of_plain plain]
    exact steps_from_append none [] name name nonempty notDot rfl
  · have whole := up_to_pieces (front ++ ['/'] ++ name)
    rw [pieces_behind_slash front plain] at whole
    rw [slashed, same, pieces_behind_slash front plain]
    exact steps_from_append none (pieces front) name _ nonempty notDot whole
  · have whole := up_to_pieces (front ++ ['/'] ++ name)
    rw [pieces_behind_slash front plain] at whole
    rw [slashed, ended, pieces_behind_slash front plain, pieces_append]
    have bare : pieces [] = [[]] := rfl
    rw [bare, steps_from_slashed]
    exact steps_from_append none (pieces front) name _ nonempty notDot whole

theorem last_name_join (p : Path) {name : List Char} (proper : IsName name) :
    (p.join name).lastName? = some (name, p.lead ++ name) := by
  rw [lastName?, steps_join p proper.nonempty proper.plain proper.notDot, List.getLast?_concat,
    proper.component]

theorem file_name_join (p : Path) {name : List Char} (proper : IsName name) :
    (p.join name).fileName? = some name := by
  rw [fileName?, last_name_join p proper, Option.map_some]

theorem join_injective (p : Path) {name other : List Char} (proper : IsName name) (properOther : IsName other)
    (same : p.join name = p.join other) : name = other := by
  have names := congrArg fileName? same
  rw [file_name_join p proper, file_name_join p properOther] at names
  exact Option.some.inj names

theorem chain_join (p : Path) {name : List Char} (proper : IsName name) :
    ∃ outer, (p.join name).chain = p.join name :: outer := by
  rw [chain, steps_join p proper.nonempty proper.plain proper.notDot, List.reverse_concat]
  exact ⟨_, rfl⟩

theorem head_of_chain {p q : Path} {outer : List Path} (chain : p.chain = q :: outer) : q = p := by
  unfold Path.chain at chain
  split at chain
  · cases chain
  · exact (List.cons.inj chain).1.symm

theorem pieces_of_up_to {text : List Char} {ps : List (List Char)} (nonempty : ps ≠ [])
    (plain : ∀ piece ∈ ps, '/' ∉ piece) (whole : ps.foldl upTo none = some text) : pieces text = ps := by
  cases ps with
  | nil => exact absurd rfl nonempty
  | cons piece rest =>
      have tail := pieces_up_to (fun q member => plain q (List.mem_cons_of_mem _ member)) whole
      rw [tail, pieces_of_plain (plain piece List.mem_cons_self)]
      rfl

theorem text_of_step {p : Path} {c : Component} {text : List Char} (member : (c, text) ∈ p.steps) :
    text ≠ [] ∧ text <+: p.chars ∧ FileSystem.names ⟨text⟩ <+: FileSystem.names p := by
  obtain ⟨front, piece, back, whole, nonempty, ends⟩ := mem_steps_from member
  have plain : ∀ q ∈ front ++ [piece], '/' ∉ q := by
    intro q inside
    have listed : q ∈ pieces p.chars := by
      rw [whole, List.append_cons]
      exact List.mem_append_left back inside
    exact plain_of_mem_pieces listed
  have split : pieces text = front ++ [piece] := pieces_of_up_to (by simp) plain ends
  refine ⟨fun empty => ?_, ?_, ?_⟩
  · have bare : pieces text = [] ++ [[]] := by rw [empty]; rfl
    obtain ⟨_, last⟩ := List.append_inj' (bare.symm.trans split) rfl
    exact nonempty (List.singleton_inj.mp last).symm
  · have all := up_to_pieces p.chars
    rw [whole, List.append_cons, List.foldl_append, ends] at all
    obtain ⟨more, grown⟩ := up_to_grows text back
    exact ⟨more, Option.some.inj (grown.symm.trans all)⟩
  · unfold FileSystem.names
    rw [split, whole, List.append_cons front piece back, List.filter_append (front ++ [piece]) back]
    exact List.prefix_append _ _

theorem text_of_chain {p q : Path} (member : q ∈ p.chain) :
    q.chars ≠ [] ∧ q.chars <+: p.chars ∧ FileSystem.names q <+: FileSystem.names p := by
  unfold chain at member
  split at member
  · cases member
  · rename_i last outer reversed
    have listed : ∀ step ∈ last :: outer, step ∈ p.steps := by
      intro step inside
      rwa [← List.mem_reverse, reversed]
    rcases List.mem_cons.mp member with whole | parent
    · obtain ⟨nonempty, ⟨more, text⟩, _⟩ := text_of_step (listed last List.mem_cons_self)
      rw [whole]
      exact ⟨fun empty => nonempty (List.append_eq_nil_iff.mp (text.trans empty)).1, List.prefix_rfl, List.prefix_rfl⟩
    · obtain ⟨step, inside, spelt⟩ := List.mem_map.mp parent
      rw [← spelt]
      exact text_of_step (listed step (List.mem_cons_of_mem last inside))

theorem mem_chain {p q : Path} (member : q ∈ p.chain) :
    q.isAbsolute = p.isAbsolute ∧ FileSystem.names q <+: FileSystem.names p := by
  obtain ⟨nonempty, ⟨more, whole⟩, names⟩ := text_of_chain member
  refine ⟨?_, names⟩
  rw [isAbsolute, isAbsolute, ← whole]
  cases text : q.chars with
  | nil => exact absurd text nonempty
  | cons c cs => rfl

theorem split_at_last_slash (cs : List Char) :
    '/' ∉ cs ∨ ∃ front name, cs = front ++ '/' :: name ∧ '/' ∉ name := by
  by_cases slashed : '/' ∈ cs
  · right
    obtain ⟨back, front, whole, plain⟩ := List.eq_append_cons_of_mem (List.mem_reverse.mpr slashed)
    refine ⟨front.reverse, back.reverse, ?_, fun member => plain (List.mem_reverse.mp member)⟩
    rw [← List.reverse_reverse cs, whole]
    simp
  · exact .inl slashed

theorem join_of_ending_name {p : Path} (named : FileSystem.ending p = .name) :
    ∃ d name, p = join d name ∧ IsName name := by
  have found : ∃ d name, p = join d name ∧ '/' ∉ name ∧ name ≠ [] := by
    rcases split_at_last_slash p.chars with plain | ⟨front, name, whole, plain⟩
    · have same : p = join ⟨[]⟩ p.chars := by
        rw [join_plain _ plain]
        rfl
      refine ⟨⟨[]⟩, p.chars, same, plain, fun empty => ?_⟩
      have bare : FileSystem.names p = [] := by
        rw [FileSystem.names, empty]
        rfl
      simp only [FileSystem.ending, bare, List.getLast?_nil] at named
      cases named
    · have same : p = join ⟨front ++ ['/']⟩ name := by
        rw [join_plain _ plain, lead, if_pos (.inr List.getLast?_concat), List.append_assoc]
        cases p
        exact congrArg Path.mk whole
      refine ⟨⟨front ++ ['/']⟩, name, same, plain, fun empty => ?_⟩
      have slashed : p.chars.getLast? = some '/' := by rw [whole, empty, List.getLast?_concat]
      unfold FileSystem.ending at named
      simp only [slashed, if_true] at named
      split at named
      · cases named
      · split at named
        · cases named
        · split at named <;> cases named
  obtain ⟨d, name, same, plain, nonempty⟩ := found
  refine ⟨d, name, same, nonempty, plain, fun dot => ?_, fun dots => ?_⟩
  · rw [same, FileSystem.ending, names_join d nonempty plain, List.getLast?_concat, dot] at named
    cases named
  · rw [same, FileSystem.ending, names_join d nonempty plain, List.getLast?_concat, dots] at named
    cases named

theorem ending_join (p : Path) {name : List Char} (proper : IsName name) :
    FileSystem.ending (p.join name) = .name := by
  have last : (p.join name).chars.getLast? ≠ some '/' := by
    rw [join_plain p proper.plain]
    intro slash
    rw [List.getLast?_append, List.getLast?_eq_some_getLast proper.nonempty, Option.some_or] at slash
    exact proper.plain (Option.some.inj slash ▸ List.getLast_mem proper.nonempty)
  rw [FileSystem.ending, names_join p proper.nonempty proper.plain, List.getLast?_concat]
  simp only [proper.notDot, proper.notDotDot, last, if_false]

theorem take_while_undotted {cs : List Char} (plain : '.' ∉ cs) (rest : List Char) :
    (cs ++ rest).takeWhile (· ≠ '.') = cs ++ rest.takeWhile (· ≠ '.') := by
  apply List.takeWhile_append_of_pos
  intro c member
  simpa using fun dot : c = '.' => plain (dot ▸ member)

theorem split_name_dotted {stem old : List Char} (nonempty : stem ≠ []) (plain : '.' ∉ old) :
    splitName (stem ++ '.' :: old) = (stem, some old) := by
  have ending : ((stem ++ '.' :: old).reverse.takeWhile (· ≠ '.')).reverse = old := by
    rw [List.reverse_append, List.reverse_cons, List.append_assoc,
      take_while_undotted fun member => plain (List.mem_reverse.mp member)]
    simp
  have before : (stem ++ '.' :: old).take ((stem ++ '.' :: old).length - old.length - 1) = stem := by
    have short : (stem ++ '.' :: old).length - old.length - 1 = stem.length := by
      rw [List.length_append, List.length_cons]
      omega
    rw [short, List.take_left]
  have longer : old.length ≠ (stem ++ '.' :: old).length := by
    rw [List.length_append, List.length_cons]
    omega
  unfold splitName
  simp only [ending, before, longer, nonempty, or_self, if_false]

theorem split_name_cases (name : List Char) :
    splitName name = (name, none) ∨ ∃ stem old, stem ≠ [] ∧ '.' ∉ old ∧ name = stem ++ '.' :: old := by
  by_cases dotted : '.' ∈ name
  · obtain ⟨back, front, whole, plain⟩ := List.eq_append_cons_of_mem (List.mem_reverse.mpr dotted)
    have same : name = front.reverse ++ '.' :: back.reverse := by
      rw [← List.reverse_reverse name, whole]
      simp
    have bare : '.' ∉ back.reverse := fun member => plain (List.mem_reverse.mp member)
    by_cases empty : front.reverse = []
    · left
      have kept : name.reverse.takeWhile (· ≠ '.') = back := by
        rw [whole, take_while_undotted plain]
        simp
      have before : name.take (name.length - back.reverse.length - 1) = [] := by
        rw [same, empty, List.nil_append, List.length_cons, Nat.add_sub_cancel_left]
        rfl
      unfold splitName
      simp only [kept, before, or_true, if_true]
    · exact .inr ⟨_, _, empty, bare, same⟩
  · left
    have kept := take_while_undotted (fun member => dotted (List.mem_reverse.mp member)) []
    rw [List.append_nil, List.takeWhile_nil, List.append_nil] at kept
    unfold splitName
    simp only [kept, List.reverse_reverse, true_or, if_true]

def extended (name extension : List Char) : List Char :=
  match splitName name with
  | (_, none) => name ++ '.' :: extension
  | (stem, some _) => if stem = ['.'] then ['.', '.'] else stem ++ '.' :: extension

theorem extended_cases {name extension : List Char} (proper : IsName name)
    (nonempty : extension ≠ []) (plain : '/' ∉ extension) :
    extended name extension = ['.', '.'] ∨ IsName (extended name extension) := by
  have grown : ∀ {stem : List Char}, stem ≠ [] → '/' ∉ stem → IsName (stem ++ '.' :: extension) := by
    intro stem started front
    have long : 2 < (stem ++ '.' :: extension).length := by
      have := List.length_pos_iff.mpr started
      have := List.length_pos_iff.mpr nonempty
      rw [List.length_append, List.length_cons]
      omega
    refine ⟨by simp, by simp [front, plain], fun dot => ?_, fun dots => ?_⟩
    · rw [dot] at long
      exact absurd long (by decide)
    · rw [dots] at long
      exact absurd long (by decide)
  rcases split_name_cases name with whole | ⟨stem, old, started, bare, dotted⟩
  · right
    simpa only [extended, whole] using grown proper.nonempty proper.plain
  · have front : '/' ∉ stem := fun member => proper.plain (dotted ▸ List.mem_append_left _ member)
    have split : splitName name = (stem, some old) := by rw [dotted, split_name_dotted started bare]
    by_cases dot : stem = ['.']
    · left
      simp only [extended, split, if_pos dot]
    · right
      simpa only [extended, split, if_neg dot] using grown started front

theorem set_extension_join (p : Path) {stem : List Char} (proper : IsName (stem ++ ['.']))
    (nonempty : stem ≠ []) (extension : List Char) :
    (p.join (stem ++ ['.'])).setExtension extension = ⟨p.lead ++ (stem ++ '.' :: extension)⟩ := by
  have cut : (p.lead ++ (stem ++ ['.'])).take
      ((p.lead ++ (stem ++ ['.'])).length - ((stem ++ ['.']).length - stem.length)) = p.lead ++ stem := by
    have short : (p.lead ++ (stem ++ ['.'])).length - ((stem ++ ['.']).length - stem.length)
        = (p.lead ++ stem).length := by
      simp only [List.length_append, List.length_singleton]
      omega
    rw [short, ← List.append_assoc, List.take_left]
  rw [setExtension, last_name_join p proper]
  simp only [split_name_dotted nonempty List.not_mem_nil, cut, List.append_assoc]

theorem with_extension_join (p : Path) {name extension : List Char} (proper : IsName name)
    (plain : '/' ∉ extension) :
    (p.join name).withExtension extension = p.join (extended name extension) := by
  rcases split_name_cases name with whole | ⟨stem, old, nonempty, bare, dotted⟩
  · have longer : '/' ∉ name ++ '.' :: extension := by simp [proper.plain, plain]
    rw [withExtension, extension?, file_name_join p proper, Option.bind_some, whole]
    simp only [extended, whole]
    rw [setExtension, last_name_join p proper, join_plain p longer]
    simp only [whole, Nat.sub_self, Nat.sub_zero, List.take_length, List.append_assoc]
  · have split : splitName name = (stem, some old) := by rw [dotted, split_name_dotted nonempty bare]
    have front : '/' ∉ stem := fun member => proper.plain (dotted ▸ List.mem_append_left _ member)
    have ended : '/' ∉ stem ++ ['.'] := by simp [front]
    have cut : (⟨(p.join name).chars.take ((p.join name).chars.length - old.length)⟩ : Path)
        = p.join (stem ++ ['.']) := by
      rw [join_plain p proper.plain, join_plain p ended, dotted]
      have short : (p.lead ++ (stem ++ '.' :: old)).length - old.length = (p.lead ++ (stem ++ ['.'])).length := by
        simp only [List.length_append, List.length_cons, List.length_nil]
        omega
      have parts : p.lead ++ (stem ++ '.' :: old) = p.lead ++ (stem ++ ['.']) ++ old := by simp
      rw [short, parts, List.take_left]
    rw [withExtension, extension?, file_name_join p proper, Option.bind_some, split]
    simp only [extended, split, cut]
    by_cases dot : stem = ['.']
    · have up : (p.join (stem ++ ['.'])).lastName? = none := by
        rw [lastName?, steps_join p (by simp) ended (by simp [dot]), List.getLast?_concat, dot]
        rfl
      rw [if_pos dot, setExtension, up, dot]
      rfl
    · have kept : IsName (stem ++ ['.']) :=
        ⟨by simp, ended, fun same => nonempty (by simpa using same), fun same => dot (List.append_cancel_right same)⟩
      have longer : '/' ∉ stem ++ '.' :: extension := by simp [front, plain]
      rw [if_neg dot, set_extension_join p kept nonempty extension, join_plain p longer]

end Loom.Path
