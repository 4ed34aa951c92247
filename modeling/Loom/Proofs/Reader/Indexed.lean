import Loom.Proofs.Reader.Turns

set_option autoImplicit false

/-! The reads as a machine does them, at a position in a buffer that stays whole. -/
namespace Loom

-- Where there is no answer at all, the machine has added up more than a word holds, or looked at bytes that are not
-- in the buffer.
abbrev ReadAt := ExceptT DecodeError (StateT Nat Option)

namespace ReadAt

variable (limit : Nat) (buffer : Bytes)

def sum (a b : Nat) : Option Nat := if a + b < limit then some (a + b) else none

def slice (start stop : Nat) : Option Bytes :=
  if start ≤ stop ∧ stop ≤ buffer.length then some ((buffer.take stop).drop start) else none

def take (count : Nat) : ReadAt Bytes := do
  let start ← get
  if count > buffer.length - start then throw (.unexpectedEnd start)
  else
    let stop ← sum limit start count
    let bytes ← slice buffer start stop
    set stop
    return bytes

def u8 : ReadAt UInt8 := do
  let start ← get
  if start ≥ buffer.length then throw (.unexpectedEnd start)
  else
    let value ← buffer[start]?
    set (← sum limit start 1)
    return value

def bool : ReadAt Bool := do
  return (← u8 limit buffer) != 0

def u32 : ReadAt UInt32 := do
  let bytes ← take limit buffer 4
  return Bytes.toWord (← bytes[0]?) (← bytes[1]?) (← bytes[2]?) (← bytes[3]?)

def text : ReadAt String := do
  let length ← u32 limit buffer
  let start ← get
  match Bytes.toText? (← take limit buffer length.toNat) with
  | some s => return s
  | none => throw (.invalidText start)

def optText : ReadAt (Option String) := do
  if ← bool limit buffer then return some (← text limit buffer) else return none

def count : ReadAt Nat := do
  let offset ← get
  let n ← u32 limit buffer
  if n.toNat > buffer.length - (← get) then throw (.unexpectedEnd offset) else return n.toNat

end ReadAt

def Shape.readAt (limit : Nat) (buffer : Bytes) : Shape → ReadAt Field
  | .u8 => return .u8 (← ReadAt.u8 limit buffer)
  | .bool => return .bool (← ReadAt.bool limit buffer)
  | .u32 => return .u32 (← ReadAt.u32 limit buffer)
  | .raw length => return .raw (← ReadAt.take limit buffer length)
  | .text => return .text (← ReadAt.text limit buffer)
  | .optText => return .optText (← ReadAt.optText limit buffer)
  | .count => return .u32 (UInt32.ofNat (← ReadAt.count limit buffer))

def ReadAt.turns (limit : Nat) (buffer : Bytes) : Nat → List Shape → Option (List (Except DecodeError Field × Nat))
  | _, [] => some []
  | position, shape :: rest => do
    let (result, after) ← shape.readAt limit buffer position
    return (result, after) :: (← turns limit buffer after rest)

namespace ReadAt

variable {α β : Type} {limit : Nat} {buffer : Bytes}

def answer : EStateM.Result DecodeError Reader α → Except DecodeError α × Nat
  | .ok a after => (.ok a, after.position)
  | .error e after => (.error e, after.position)

structure Follows (buffer : Bytes) (readAt : ReadAt α) (read : Read α) : Prop where
  advances : Read.Advances read
  agrees : ∀ r, (Reader.start buffer).Onto r → readAt r.position = some (answer (read r))

theorem follows_pure (a : α) : Follows buffer (pure a) (pure a) := ⟨Read.advances_pure a, fun _ _ => rfl⟩

theorem follows_throw (e : DecodeError) : Follows buffer (throw e : ReadAt α) (throw e) :=
  ⟨Read.advances_throw e, fun _ _ => rfl⟩

theorem follows_position : Follows buffer get Read.position := ⟨Read.advances_position, fun _ _ => rfl⟩

theorem follows_bind {p : ReadAt α} {q : α → ReadAt β} {read : Read α} {next : α → Read β}
    (first : Follows buffer p read) (second : ∀ a, Follows buffer (q a) (next a)) :
    Follows buffer (p >>= q) (read >>= next) := by
  refine ⟨Read.advances_bind first.advances fun a => (second a).advances, fun r onto => ?_⟩
  have onward := first.advances r
  have agrees := first.agrees r onto
  change (p r.position).bind _ = some (answer (EStateM.bind read next r))
  unfold EStateM.bind
  unfold Read.leaves at onward
  rw [agrees]
  cases done : read r with
  | ok a mid =>
      rw [done] at onward
      exact (second a).agrees mid (Reader.onto_trans onto onward)
  | error e mid => rfl

theorem follows_as {p : ReadAt α} {read : Read α} (make : α → β) (follows : Follows buffer p read) :
    Follows buffer (do return make (← p)) (do return make (← read)) :=
  follows_bind follows fun a => follows_pure (make a)

section Machine

variable (fits : buffer.length < limit)

include fits

theorem sum_inside {a b : Nat} (inside : a + b ≤ buffer.length) : sum limit a b = some (a + b) :=
  if_pos (Nat.lt_of_le_of_lt inside fits)

omit fits in
theorem slice_inside {start length : Nat} (inside : start + length ≤ buffer.length) :
    slice buffer start (start + length) = some ((buffer.drop start).take length) := by
  rw [slice, if_pos ⟨Nat.le_add_right _ _, inside⟩, List.drop_take, Nat.add_sub_cancel_left]

theorem follows_take (n : Nat) : Follows buffer (take limit buffer n) (Read.bytes n) := by
  refine ⟨Read.advances_bytes n, fun r onto => ?_⟩
  have stands := Reader.stands_of_onto onto
  have inside := stands.inside
  have left : r.unread.length = buffer.length - r.position := stands.remaining
  by_cases short : n > buffer.length - r.position
  · have refused : Read.bytes n r = .error (.unexpectedEnd r.position) r := by
      rw [Read.bytes, Bytes.split_exact_eq, if_neg (by omega)]
    rw [refused]
    change (if n > _ then _ else _ : ReadAt Bytes) r.position = _
    rw [if_pos short]
    rfl
  · have end_inside : r.position + n ≤ buffer.length := by omega
    have taken : Read.bytes n r = .ok (r.unread.take n) ⟨r.position + n, r.unread.drop n⟩ := by
      rw [Read.bytes, Bytes.split_exact_eq, if_pos (by omega)]
    rw [taken]
    change (if n > _ then _ else _ : ReadAt Bytes) r.position = _
    rw [if_neg short, sum_inside fits end_inside]
    change (do
      let bytes ← slice buffer r.position (r.position + n)
      set (r.position + n)
      return bytes : ReadAt Bytes) r.position = _
    rw [slice_inside end_inside, ← stands.ahead]
    rfl

theorem follows_u8 : Follows buffer (u8 limit buffer) Read.u8 := by
  refine ⟨Read.advances_u8, fun r onto => ?_⟩
  have stands := Reader.stands_of_onto onto
  have ahead := stands.ahead
  change (if r.position ≥ buffer.length then _ else _ : ReadAt UInt8) r.position = _
  by_cases behind : r.position ≥ buffer.length
  · have empty : r.unread = [] := ahead.trans (List.drop_eq_nil_of_le behind)
    rw [if_pos behind, Read.u8, empty]
    rfl
  · have inside : r.position < buffer.length := Nat.lt_of_not_le behind
    have split : r.unread = buffer[r.position] :: buffer.drop (r.position + 1) :=
      ahead.trans (List.drop_eq_getElem_cons inside)
    rw [if_neg behind, List.getElem?_eq_getElem inside, sum_inside fits inside, Read.u8, split]
    rfl

theorem follows_bool : Follows buffer (bool limit buffer) Read.bool := follows_as (· != 0) (follows_u8 fits)

theorem follows_word : Follows buffer (u32 limit buffer) Read.u32 := by
  refine ⟨Read.advances_word, fun r onto => ?_⟩
  have taken := (follows_take fits 4).agrees r onto
  change (take limit buffer 4 r.position).bind _ = _
  rw [taken]
  obtain ⟨position, unread⟩ := r
  match unread with
  | [] | [_] | [_, _] | [_, _, _] => rfl
  | a :: b :: c :: d :: rest => rfl

theorem follows_text : Follows buffer (text limit buffer) Read.text := by
  refine follows_bind (follows_word fits) fun length => follows_bind follows_position fun offset =>
    follows_bind (follows_take fits length.toNat) fun bs => ?_
  cases Bytes.toText? bs with
  | some s => exact follows_pure s
  | none => exact follows_throw _

theorem follows_opt_text : Follows buffer (optText limit buffer) Read.optText := by
  refine follows_bind (follows_bool fits) fun present => ?_
  cases present with
  | true => exact follows_as some (follows_text fits)
  | false => exact follows_pure none

theorem follows_count : Follows buffer (count limit buffer) Read.count := by
  refine follows_bind follows_position fun offset => follows_bind (follows_word fits) fun n =>
    ⟨Read.advances_guard offset n.toNat, fun r onto => ?_⟩
  have left : r.unread.length = buffer.length - r.position := (Reader.stands_of_onto onto).remaining
  change (if n.toNat > buffer.length - r.position then _ else _ : ReadAt Nat) r.position = _
  by_cases scarce : n.toNat > buffer.length - r.position
  · have refused : ¬ Bytes.atLeast n.toNat r.unread = true := by
      rw [Bytes.at_least_iff]
      omega
    rw [if_pos scarce, if_neg refused]
    rfl
  · have room : Bytes.atLeast n.toNat r.unread = true := by
      rw [Bytes.at_least_iff]
      omega
    rw [if_neg scarce, if_pos room]
    rfl

theorem follows_shape (shape : Shape) : Follows buffer (shape.readAt limit buffer) shape.read := by
  cases shape with
  | u8 => exact follows_as Field.u8 (follows_u8 fits)
  | bool => exact follows_as Field.bool (follows_bool fits)
  | u32 => exact follows_as Field.u32 (follows_word fits)
  | raw length => exact follows_as Field.raw (follows_take fits length)
  | text => exact follows_as Field.text (follows_text fits)
  | optText => exact follows_as Field.optText (follows_opt_text fits)
  | count => exact follows_as (fun n => Field.u32 (UInt32.ofNat n)) (follows_count fits)

theorem turns_eq (shapes : List Shape) {r : Reader} (onto : (Reader.start buffer).Onto r) :
    turns limit buffer r.position shapes = some ((r.turns shapes).map fun t => (t.result, t.after.position)) := by
  induction shapes generalizing r with
  | nil => rfl
  | cons shape rest ih =>
      have agrees := (follows_shape fits shape).agrees r onto
      have further := (Turn.disciplined_of_onto shape onto).2
      have later := ih (Reader.onto_trans onto further)
      have answered : answer (shape.read r) = ((shape.turn r).result, (shape.turn r).after.position) := by
        unfold Shape.turn
        cases shape.read r <;> rfl
      rw [turns, agrees, answered, Reader.turns, List.map_cons]
      change (do
        let rest ← turns limit buffer (shape.turn r).after.position rest
        return _ :: rest) = _
      rw [later]
      rfl

end Machine

end ReadAt

/-- A read that fails keeps to its parts, and its error lies between its start and the end of the buffer. None of it
takes a sum that is no word, or a slice outside of the buffer. -/
theorem reads_disciplined (buffer : Bytes) (shapes : List Shape) (limit : Nat) (fits : buffer.length < limit) :
    (Reader.start buffer).StandsIn buffer ∧
    (∀ t ∈ (Reader.start buffer).turns shapes, t.Disciplined buffer) ∧
    ((Reader.start buffer).turns shapes).Pairwise (fun first later => first.after.position ≤ later.before.position) ∧
    ReadAt.turns limit buffer 0 shapes =
      some (((Reader.start buffer).turns shapes).map fun t => (t.result, t.after.position)) := by
  have onto := Reader.onto_refl (Reader.start buffer)
  refine ⟨Reader.stands_of_onto onto, fun t member => ?_, Reader.turns_forward shapes onto, ReadAt.turns_eq fits shapes onto⟩
  exact (Reader.turns_disciplined shapes onto t member).1

-- Here all kinds of reads fail, and the reads behind them go on: a text that is none, a number of rows that exceeds
-- what is left, a piece, a word and a text that are cut short, and a byte at the end.
theorem reads_disciplined_past_errors :
    let buffer : Bytes := [2, 3, 0, 0, 0, 0x41, 0xFF, 0x42, 9, 0, 0, 0, 7, 1, 5, 0]
    let shapes : List Shape := [.optText, .count, .u8, .raw 100, .u32, .bool, .text, .u8, .u8, .bool]
    let turns := (Reader.start buffer).turns shapes
    let errors := turns.filterMap fun t => match t.result with
      | .ok _ => none
      | .error e => some e
    buffer.length < 2 ^ 32 ∧
    turns.map (fun t => (t.result.toOption, t.after.position)) =
      [(none, 8), (none, 12), (some (.u8 7), 13), (none, 13), (none, 13), (some (.bool true), 14), (none, 14),
        (some (.u8 5), 15), (some (.u8 0), 16), (none, 16)] ∧
    errors = [.invalidText 5, .unexpectedEnd 8, .unexpectedEnd 13, .unexpectedEnd 13, .unexpectedEnd 14,
      .unexpectedEnd 16] ∧
    (∀ t ∈ turns, t.Disciplined buffer) ∧
    ReadAt.turns (2 ^ 32) buffer 0 shapes = some (turns.map fun t => (t.result, t.after.position)) := by
  intro buffer shapes turns errors
  have fits : buffer.length < 2 ^ 32 := by decide
  obtain ⟨_, disciplined, _, machine⟩ := reads_disciplined buffer shapes (2 ^ 32) fits
  exact ⟨fits, by decide +kernel, by decide +kernel, disciplined, machine⟩

end Loom
