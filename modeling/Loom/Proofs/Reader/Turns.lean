import Loom.Proofs.Acceptance

set_option autoImplicit false

/-! A read takes the bytes that spell its value, or fails in one of a few ways, and the next one goes on from where it
left the reader. -/
namespace Loom

def DecodeError.offset : DecodeError → Nat
  | .unexpectedEnd offset => offset
  | .invalidText offset => offset
  | .invalidTag _ _ offset => offset

def Field.form : Form Field
  | .u8 value => Form.u8 value
  | .bool value => Form.bool value
  | .u32 value => Form.word value
  | .raw bytes => fun front => front = bytes
  | .text value => Form.text value
  | .optText value => Form.opt Form.text value

namespace Shape

def spelt : Shape → Shape
  | .count => .u32
  | shape => shape

def inOnePiece : Shape → Bool
  | .u8 | .bool | .u32 | .raw _ => true
  | .text | .optText | .count => false

structure Yields (shape : Shape) (f : Field) (front rest : Bytes) : Prop where
  kind : f.shape = shape.spelt
  spelt : f.form front
  room : shape = .count → ∀ w, f = .u32 w → w.toNat ≤ rest.length

-- How a read fails that starts at a position: the bytes that it takes all the same, those that it leaves unread, and
-- its error.
inductive Fails : Shape → Nat → Bytes → Bytes → DecodeError → Prop
  | u8 (position : Nat) : Fails .u8 position [] [] (.unexpectedEnd position)
  | bool (position : Nat) : Fails .bool position [] [] (.unexpectedEnd position)
  | u32 (position : Nat) (rest : Bytes) (short : rest.length < 4) :
      Fails .u32 position [] rest (.unexpectedEnd position)
  | raw (position length : Nat) (rest : Bytes) (short : rest.length < length) :
      Fails (.raw length) position [] rest (.unexpectedEnd position)
  | textLength (position : Nat) (rest : Bytes) (short : rest.length < 4) :
      Fails .text position [] rest (.unexpectedEnd position)
  | textBytes (position : Nat) (w : UInt32) (rest : Bytes) (short : rest.length < w.toNat) :
      Fails .text position (Bytes.ofWord w) rest (.unexpectedEnd (position + 4))
  | textSpelling (position : Nat) (w : UInt32) (bs rest : Bytes) (whole : bs.length = w.toNat)
      (noText : Bytes.toText? bs = none) :
      Fails .text position (Bytes.ofWord w ++ bs) rest (.invalidText (position + 4))
  | presence (position : Nat) : Fails .optText position [] [] (.unexpectedEnd position)
  | present (position : Nat) (b : UInt8) (front rest : Bytes) (e : DecodeError) (nonzero : b ≠ 0)
      (inner : Fails .text (position + 1) front rest e) : Fails .optText position (b :: front) rest e
  | countWord (position : Nat) (rest : Bytes) (short : rest.length < 4) :
      Fails .count position [] rest (.unexpectedEnd position)
  | countRows (position : Nat) (w : UInt32) (rest : Bytes) (short : rest.length < w.toNat) :
      Fails .count position (Bytes.ofWord w) rest (.unexpectedEnd position)

variable {shape : Shape} {position : Nat} {front rest : Bytes} {e : DecodeError}

theorem Fails.takes_nothing (fails : shape.Fails position front rest e) (single : shape.inOnePiece = true) :
    front = [] := by
  cases fails with
  | u8 | bool | u32 | raw => rfl
  | textLength | textBytes | textSpelling | presence | present | countWord | countRows => cases single

theorem Fails.offset_between (fails : shape.Fails position front rest e) :
    position ≤ e.offset ∧ e.offset ≤ position + (front ++ rest).length := by
  induction fails with
  | present position b front rest e nonzero inner ih =>
      rw [List.cons_append, List.length_cons]
      omega
  | textBytes position w rest short =>
      rw [List.length_append, Bytes.length_of_word, DecodeError.offset]
      omega
  | textSpelling position w bs rest whole noText =>
      rw [List.append_assoc, List.length_append, Bytes.length_of_word, DecodeError.offset]
      omega
  | u8 | bool | u32 | raw | textLength | presence | countWord | countRows =>
      exact ⟨Nat.le_refl _, Nat.le_add_right _ _⟩

end Shape

namespace Read

variable {α β : Type}

abbrev Lapse := Nat → Bytes → Bytes → DecodeError → Prop

def LapsesIn (read : Read α) (lapse : Lapse) : Prop :=
  ∀ r e after, read r = .error e after → ∃ front, lapse r.position front after.unread e ∧
    r.unread = front ++ after.unread ∧ after.position = r.position + front.length

theorem bind_eq_error_iff (p : Read α) (q : α → Read β) (r after : Reader) (e : DecodeError) :
    (p >>= q) r = .error e after ↔ p r = .error e after ∨ ∃ a mid, p r = .ok a mid ∧ q a mid = .error e after := by
  change (EStateM.bind p q) r = .error e after ↔ _
  unfold EStateM.bind
  cases p r with
  | ok a mid =>
      constructor
      · intro failed
        exact .inr ⟨a, mid, rfl, failed⟩
      · rintro (first | ⟨_, _, same, failed⟩)
        · cases first
        · cases same
          exact failed
  | error e mid => simp

theorem lapses_bind {p : Read α} {q : α → Read β} {form : Form α} {first : Lapse} {second : α → Lapse}
    (accepts : Accepts p form) (lapses : LapsesIn p first) (later : ∀ a, LapsesIn (q a) (second a)) :
    LapsesIn (p >>= q) fun position front rest e => first position front rest e ∨
      ∃ a ahead behind, form a ahead ∧ front = ahead ++ behind ∧
        second a (position + ahead.length) behind rest e := by
  intro r e after failed
  rcases (bind_eq_error_iff p q r after e).mp failed with failed | ⟨a, mid, done, failed⟩
  · obtain ⟨front, lapse, unread, position⟩ := lapses r e after failed
    exact ⟨front, .inl lapse, unread, position⟩
  · obtain ⟨ahead, spelt, unread, position⟩ := (accepts r a mid).mp done
    obtain ⟨behind, lapse, unreadNext, positionNext⟩ := later a mid e after failed
    refine ⟨ahead ++ behind, .inr ⟨a, ahead, behind, spelt, rfl, position ▸ lapse⟩, ?_, ?_⟩
    · rw [unread, unreadNext, List.append_assoc]
    · rw [positionNext, position, List.length_append, Nat.add_assoc]

theorem lapses_position {q : Nat → Read β} {lapse : Nat → Lapse} (lapses : ∀ n, LapsesIn (q n) (lapse n)) :
    LapsesIn (position >>= q) fun position front rest e => lapse position position front rest e := by
  intro r e after failed
  exact lapses r.position r e after failed

theorem lapses_as {read : Read α} {lapse : Lapse} (make : α → β) (lapses : LapsesIn read lapse) :
    LapsesIn (do return make (← read)) lapse := by
  intro r e after failed
  rcases (bind_eq_error_iff read _ r after e).mp failed with failed | ⟨_, _, _, failed⟩
  · exact lapses r e after failed
  · cases failed

theorem lapses_u8 : LapsesIn u8 fun position front rest e =>
    front = [] ∧ rest = [] ∧ e = .unexpectedEnd position := by
  intro r e after failed
  obtain ⟨position, unread⟩ := r
  cases unread with
  | nil =>
      cases failed
      exact ⟨[], ⟨rfl, rfl, rfl⟩, rfl, rfl⟩
  | cons b rest => cases failed

theorem lapses_bool : LapsesIn bool fun position front rest e =>
    front = [] ∧ rest = [] ∧ e = .unexpectedEnd position :=
  lapses_as (· != 0) lapses_u8

theorem lapses_bytes (n : Nat) : LapsesIn (bytes n) fun position front rest e =>
    front = [] ∧ rest.length < n ∧ e = .unexpectedEnd position := by
  intro r e after failed
  simp only [bytes, Bytes.split_exact_eq] at failed
  by_cases fits : n ≤ r.unread.length
  · rw [if_pos fits] at failed
    cases failed
  · rw [if_neg fits] at failed
    cases failed
    exact ⟨[], ⟨rfl, Nat.lt_of_not_le fits, rfl⟩, rfl, rfl⟩

theorem lapses_word : LapsesIn u32 fun position front rest e =>
    front = [] ∧ rest.length < 4 ∧ e = .unexpectedEnd position := by
  intro r e after failed
  obtain ⟨position, unread⟩ := r
  match unread, failed with
  | [], failed | [_], failed | [_, _], failed | [_, _, _], failed =>
      cases failed
      exact ⟨[], ⟨rfl, by simp, rfl⟩, rfl, rfl⟩
  | a :: b :: c :: d :: rest, failed => cases failed

theorem lapses_spelt (bs : Bytes) (offset : Nat) :
    LapsesIn (match Bytes.toText? bs with
      | some s => return s
      | none => throw (.invalidText offset))
      (fun _ front _ e => Bytes.toText? bs = none ∧ front = [] ∧ e = .invalidText offset) := by
  intro r e after failed
  cases spelt : Bytes.toText? bs with
  | some s =>
      simp only [spelt] at failed
      cases failed
  | none =>
      simp only [spelt] at failed
      cases failed
      exact ⟨[], ⟨rfl, rfl, rfl⟩, rfl, rfl⟩

theorem lapses_text : LapsesIn text (Shape.Fails .text) := by
  have parts := lapses_bind accepts_word lapses_word fun length => lapses_position fun offset =>
    lapses_bind (accepts_bytes length.toNat) (lapses_bytes length.toNat) fun bs => lapses_spelt bs offset
  intro r e after failed
  obtain ⟨front, lapse, unread, position⟩ := parts r e after failed
  refine ⟨front, ?_, unread, position⟩
  rcases lapse with ⟨rfl, short, rfl⟩ | ⟨w, _, _, rfl, rfl, ⟨rfl, short, rfl⟩ | ⟨bs, _, _, ⟨rfl, whole⟩, rfl, noText, rfl, rfl⟩⟩
  · exact .textLength _ _ short
  · rw [List.append_nil]
    exact .textBytes _ w _ short
  · rw [List.append_nil]
    exact .textSpelling _ w _ _ whole noText

theorem lapses_opt_text : LapsesIn optText (Shape.Fails .optText) := by
  have branch : ∀ flag : Bool,
      LapsesIn (if flag then (do return some (← text)) else return none : Read (Option String))
        (fun position front rest e => flag = true ∧ Shape.Fails .text position front rest e) := by
    intro flag
    cases flag with
    | true =>
        intro r e after failed
        obtain ⟨front, lapse, taken⟩ := lapses_as some lapses_text r e after failed
        exact ⟨front, ⟨rfl, lapse⟩, taken⟩
    | false =>
        intro r e after failed
        cases failed
  intro r e after failed
  obtain ⟨front, lapse, unread, position⟩ := lapses_bind accepts_bool lapses_bool branch r e after failed
  refine ⟨front, ?_, unread, position⟩
  rcases lapse with ⟨rfl, none, rfl⟩ | ⟨_, _, behind, ⟨b, rfl, nonzero⟩, rfl, rfl, inner⟩
  · rw [none]
    exact .presence _
  · exact .present _ b behind _ e (by simpa using nonzero.symm) inner

theorem lapses_guard (offset n : Nat) :
    LapsesIn (fun r => if Bytes.atLeast n r.unread then .ok n r else .error (.unexpectedEnd offset) r)
      (fun _ front rest e => front = [] ∧ rest.length < n ∧ e = .unexpectedEnd offset) := by
  intro r e after failed
  dsimp only at failed
  split at failed
  · cases failed
  · rename_i scarce
    cases failed
    refine ⟨[], ⟨rfl, ?_, rfl⟩, rfl, rfl⟩
    exact Nat.lt_of_not_le fun room => scarce ((Bytes.at_least_iff n _).mpr room)

theorem lapses_count : LapsesIn count (Shape.Fails .count) := by
  have parts := lapses_position fun offset =>
    lapses_bind accepts_word lapses_word fun w => lapses_guard offset w.toNat
  intro r e after failed
  obtain ⟨front, lapse, unread, position⟩ := parts r e after failed
  refine ⟨front, ?_, unread, position⟩
  rcases lapse with ⟨rfl, short, rfl⟩ | ⟨w, _, _, rfl, rfl, rfl, short, rfl⟩
  · exact .countWord _ _ short
  · rw [List.append_nil]
    exact .countRows _ w _ short

theorem accepts_as {read : Read α} {form : Form α} (make : α → β) (accepts : Accepts read form) :
    Accepts (do return make (← read)) fun b bytes => ∃ a, b = make a ∧ form a bytes := by
  refine accepts_congr (accepts_bind accepts fun a => accepts_pure (make a)) fun b bytes => ?_
  constructor
  · rintro ⟨a, front, _, spelt, ⟨rfl, rfl⟩, rfl⟩
    exact ⟨a, rfl, by rwa [List.append_nil]⟩
  · rintro ⟨a, rfl, spelt⟩
    exact ⟨a, bytes, [], spelt, ⟨rfl, rfl⟩, (List.append_nil bytes).symm⟩

end Read

theorem Field.length_of_form {f : Field} {front : Bytes} (spelt : f.form front) : front.length = f.encode.length := by
  cases f with
  | u8 value => rw [show front = [value] from spelt, Field.encode]
  | bool value =>
      obtain ⟨b, rfl, _⟩ := spelt
      rfl
  | u32 value => rw [show front = Bytes.ofWord value from spelt, Field.encode]
  | raw bytes => rw [show front = bytes from spelt, Field.encode]
  | text value => rw [spelt.2, Field.encode]
  | optText value =>
      cases value with
      | none => rw [show front = [0] from spelt, Field.encode, Field.encodeOptText]
      | some s =>
          obtain ⟨b, back, _, inner, rfl⟩ := spelt
          rw [inner.2, Field.encode, Field.encodeOptText, List.length_cons, List.length_cons]

namespace Shape

variable {shape : Shape}

theorem accepts (other : shape ≠ .count) : Read.Accepts shape.read fun f front => f.shape = shape ∧ f.form front := by
  cases shape with
  | u8 =>
      refine Read.accepts_congr (Read.accepts_as Field.u8 Read.accepts_u8) fun f front => ?_
      cases f <;> simp [Field.shape, Field.form]
  | bool =>
      refine Read.accepts_congr (Read.accepts_as Field.bool Read.accepts_bool) fun f front => ?_
      cases f <;> simp [Field.shape, Field.form]
  | u32 =>
      refine Read.accepts_congr (Read.accepts_as Field.u32 Read.accepts_word) fun f front => ?_
      cases f <;> simp [Field.shape, Field.form]
  | raw length =>
      refine Read.accepts_congr (Read.accepts_as Field.raw (Read.accepts_bytes length)) fun f front => ?_
      constructor
      · rintro ⟨bs, rfl, same, whole⟩
        exact ⟨congrArg Shape.raw whole, same⟩
      · rintro ⟨kind, same⟩
        cases f with
        | raw bs => exact ⟨bs, rfl, same, Shape.raw.inj kind⟩
        | u8 | bool | u32 | text | optText => cases kind
  | text =>
      refine Read.accepts_congr (Read.accepts_as Field.text Read.accepts_text) fun f front => ?_
      cases f <;> simp [Field.shape, Field.form]
  | optText =>
      refine Read.accepts_congr (Read.accepts_as Field.optText (Read.accepts_opt Read.accepts_text)) fun f front => ?_
      cases f <;> simp [Field.shape, Field.form]
  | count => exact absurd rfl other

theorem yields_of_ok {r after : Reader} {f : Field} (done : shape.read r = .ok f after) :
    ∃ front, shape.Yields f front after.unread ∧ r.unread = front ++ after.unread ∧
      after.position = r.position + front.length := by
  by_cases other : shape = .count
  · rw [other] at done ⊢
    obtain ⟨n, mid, counted, made⟩ := (Read.bind_eq_ok_iff _ _ _ _ _).mp done
    cases made
    obtain ⟨w, rfl, unread, position⟩ := Read.count_counts.sound r n after counted
    refine ⟨Bytes.ofWord w, ⟨rfl, ?_, fun _ v same => ?_⟩, unread, position⟩
    · rw [UInt32.ofNat_toNat]
      rfl
    · rw [UInt32.ofNat_toNat] at same
      rw [← Field.u32.inj same]
      exact Read.room_of_count counted
  · obtain ⟨front, ⟨kind, spelt⟩, taken⟩ := (accepts other r f after).mp done
    have own : shape.spelt = shape := by cases shape <;> trivial
    exact ⟨front, ⟨kind.trans own.symm, spelt, fun count => absurd count other⟩, taken⟩

theorem lapses (shape : Shape) : Read.LapsesIn shape.read shape.Fails := by
  intro r e after failed
  cases shape with
  | u8 =>
      obtain ⟨front, ⟨rfl, none, rfl⟩, taken⟩ := Read.lapses_as Field.u8 Read.lapses_u8 r e after failed
      refine ⟨[], ?_, taken⟩
      rw [none]
      exact .u8 _
  | bool =>
      obtain ⟨front, ⟨rfl, none, rfl⟩, taken⟩ := Read.lapses_as Field.bool Read.lapses_bool r e after failed
      refine ⟨[], ?_, taken⟩
      rw [none]
      exact .bool _
  | u32 =>
      obtain ⟨front, ⟨rfl, short, rfl⟩, taken⟩ := Read.lapses_as Field.u32 Read.lapses_word r e after failed
      exact ⟨[], .u32 _ _ short, taken⟩
  | raw length =>
      obtain ⟨front, ⟨rfl, short, rfl⟩, taken⟩ := Read.lapses_as Field.raw (Read.lapses_bytes length) r e after failed
      exact ⟨[], .raw _ _ _ short, taken⟩
  | text => exact Read.lapses_as Field.text Read.lapses_text r e after failed
  | optText => exact Read.lapses_as Field.optText Read.lapses_opt_text r e after failed
  | count => exact Read.lapses_as (fun n => Field.u32 (UInt32.ofNat n)) Read.lapses_count r e after failed

end Shape

structure Turn where
  shape : Shape
  before : Reader
  result : Except DecodeError Field
  after : Reader

def Shape.turn (shape : Shape) (r : Reader) : Turn :=
  match shape.read r with
  | .ok f after => ⟨shape, r, .ok f, after⟩
  | .error e after => ⟨shape, r, .error e, after⟩

def Reader.turns : Reader → List Shape → List Turn
  | _, [] => []
  | r, shape :: rest => shape.turn r :: turns (shape.turn r).after rest

structure Reader.StandsIn (buffer : Bytes) (r : Reader) : Prop where
  inside : r.position ≤ buffer.length
  ahead : r.unread = buffer.drop r.position
  remaining : r.remaining = buffer.length - r.position
  hasMore : r.hasMore = true ↔ 0 < r.remaining

theorem Reader.stands_of_onto {buffer : Bytes} {r : Reader} (onto : (Reader.start buffer).Onto r) :
    r.StandsIn buffer := by
  obtain ⟨inside, ahead⟩ := Reader.onto_start onto
  refine ⟨inside, ahead, ?_, ?_⟩
  · rw [Reader.remaining, ahead, List.length_drop]
  · rw [Reader.hasMore, Reader.remaining, List.length_pos_iff]
    simp

namespace Turn

variable {buffer : Bytes}

def taken (buffer : Bytes) (t : Turn) : Bytes :=
  (buffer.drop t.before.position).take (t.after.position - t.before.position)

structure Disciplined (buffer : Bytes) (t : Turn) : Prop where
  before : t.before.StandsIn buffer
  after : t.after.StandsIn buffer
  forward : t.before.position ≤ t.after.position
  yields : ∀ f, t.result = .ok f → t.shape.Yields f (t.taken buffer) t.after.unread ∧
    t.after.position = t.before.position + f.encode.length
  fails : ∀ e, t.result = .error e → t.shape.Fails t.before.position (t.taken buffer) t.after.unread e
  unmoved : ∀ e, t.result = .error e → t.shape.inOnePiece = true → t.after = t.before
  offset : ∀ e, t.result = .error e → t.before.position ≤ e.offset ∧ e.offset ≤ buffer.length

theorem taken_eq {t : Turn} {front : Bytes} (stands : t.before.StandsIn buffer)
    (unread : t.before.unread = front ++ t.after.unread) (position : t.after.position = t.before.position + front.length) :
    t.taken buffer = front := by
  rw [taken, ← stands.ahead, unread, position, Nat.add_sub_cancel_left, List.take_left]

theorem disciplined_of_onto (shape : Shape) {r : Reader} (onto : (Reader.start buffer).Onto r) :
    (shape.turn r).Disciplined buffer ∧ r.Onto (shape.turn r).after := by
  have stands := Reader.stands_of_onto onto
  have total : r.position + r.unread.length = buffer.length := by
    have inside := stands.inside
    rw [stands.ahead, List.length_drop]
    omega
  unfold Shape.turn
  cases read : shape.read r with
  | ok f after =>
      obtain ⟨front, yields, unread, position⟩ := Shape.yields_of_ok read
      have further : r.Onto after := ⟨front, unread, position⟩
      refine ⟨⟨stands, Reader.stands_of_onto (Reader.onto_trans onto further), ?_, fun g same => ?_, fun _ same => ?_,
        fun _ same => ?_, fun _ same => ?_⟩, further⟩
      · exact position ▸ Nat.le_add_right _ _
      · cases same
        rw [taken_eq stands unread position]
        exact ⟨yields, Field.length_of_form yields.spelt ▸ position⟩
      all_goals cases same
  | error e after =>
      obtain ⟨front, fails, unread, position⟩ := shape.lapses r e after read
      have further : r.Onto after := ⟨front, unread, position⟩
      refine ⟨⟨stands, Reader.stands_of_onto (Reader.onto_trans onto further), ?_, fun _ same => ?_, fun _ same => ?_,
        fun _ same single => ?_, fun _ same => ?_⟩, further⟩
      · exact position ▸ Nat.le_add_right _ _
      · cases same
      · cases same
        rw [taken_eq stands unread position]
        exact fails
      -- A read in one piece that fails has taken nothing.
      · cases fails.takes_nothing single
        obtain ⟨_, _⟩ := r
        obtain ⟨_, _⟩ := after
        cases unread
        cases position
        rfl
      · cases same
        rw [← total, unread]
        exact fails.offset_between

end Turn

namespace Reader

variable {buffer : Bytes}

theorem turns_disciplined (shapes : List Shape) {r : Reader} (onto : (start buffer).Onto r) :
    ∀ t ∈ r.turns shapes, t.Disciplined buffer ∧ r.Onto t.before := by
  -- A read starts where a reader of the buffer stands, so the one before need not have succeeded.
  induction shapes generalizing r with
  | nil => exact fun t member => absurd member List.not_mem_nil
  | cons shape rest ih =>
      obtain ⟨disciplined, further⟩ := Turn.disciplined_of_onto shape onto
      intro t member
      rcases List.mem_cons.mp member with rfl | later
      · refine ⟨disciplined, ?_⟩
        have same : (shape.turn r).before = r := by
          unfold Shape.turn
          split <;> rfl
        rw [same]
        exact onto_refl r
      · obtain ⟨ruled, reached⟩ := ih (onto_trans onto further) t later
        exact ⟨ruled, onto_trans further reached⟩

theorem position_le_of_onto {r after : Reader} (onto : r.Onto after) : r.position ≤ after.position := by
  obtain ⟨front, _, position⟩ := onto
  exact position ▸ Nat.le_add_right _ _

theorem turns_forward (shapes : List Shape) {r : Reader} (onto : (start buffer).Onto r) :
    (r.turns shapes).Pairwise fun first later => first.after.position ≤ later.before.position := by
  induction shapes generalizing r with
  | nil => exact List.Pairwise.nil
  | cons shape rest ih =>
      obtain ⟨_, further⟩ := Turn.disciplined_of_onto shape onto
      have onward := onto_trans onto further
      refine List.Pairwise.cons (fun t member => ?_) (ih onward)
      exact position_le_of_onto (turns_disciplined rest onward t member).2

end Reader

end Loom
