import Loom.Bytes.Reader
import Loom.Proofs.Words

set_option autoImplicit false

/-! A form says which bytes spell which value. A reader accepts a form when it reads exactly the values spelt by a
front of the unread bytes, and takes that front. -/
namespace Loom

abbrev Form (α : Type) := α → Bytes → Prop

namespace Form

def both (first second : Bytes → Prop) (bytes : Bytes) : Prop :=
  ∃ front back, first front ∧ second back ∧ bytes = front ++ back

def u8 : Form UInt8 := fun b bytes => bytes = [b]

def bool : Form Bool := fun flag bytes => ∃ b, bytes = [b] ∧ flag = (b != 0)

def word : Form UInt32 := fun w bytes => bytes = Bytes.ofWord w

def text : Form String := fun s bytes => s.utf8ByteSize < 2 ^ 32 ∧ bytes = Field.encodeText s

def opt {α : Type} (form : Form α) : Form (Option α)
  | none, bytes => bytes = [0]
  | some a, bytes => ∃ b back, b ≠ 0 ∧ form a back ∧ bytes = b :: back

def rows {α : Type} (row : Form α) : Form (List α)
  | [], bytes => bytes = []
  | a :: rest, bytes => both (row a) (rows row rest) bytes

def table {α : Type} (row : Form α) : Form (List α) := fun as bytes =>
  as.length < 2 ^ 32 ∧ both (word (UInt32.ofNat as.length)) (rows row as) bytes

end Form

namespace Read

variable {α β : Type}

def Accepts (read : Read α) (form : Form α) : Prop :=
  ∀ r a after, read r = .ok a after ↔
    ∃ front, form a front ∧ r.unread = front ++ after.unread ∧
      after.position = r.position + front.length

theorem bind_eq_ok_iff (p : Read α) (q : α → Read β) (r after : Reader) (b : β) :
    (p >>= q) r = .ok b after ↔ ∃ a mid, p r = .ok a mid ∧ q a mid = .ok b after := by
  change (EStateM.bind p q) r = .ok b after ↔ _
  unfold EStateM.bind
  cases p r with
  | ok a mid =>
      constructor
      · intro done
        exact ⟨a, mid, rfl, done⟩
      · rintro ⟨_, _, same, done⟩
        cases same
        exact done
  | error e mid => simp

theorem accepts_congr {read : Read α} {form other : Form α} (accepts : Accepts read form)
    (same : ∀ a bytes, form a bytes ↔ other a bytes) : Accepts read other := by
  intro r a after
  simp only [accepts r a after, same]

theorem accepts_pure (a : α) : Accepts (pure a) (fun b bytes => b = a ∧ bytes = []) := by
  intro r b after
  change EStateM.Result.ok a r = .ok b after ↔ _
  constructor
  · intro same
    cases same
    exact ⟨[], ⟨rfl, rfl⟩, rfl, rfl⟩
  · rintro ⟨_, ⟨rfl, rfl⟩, unread, position⟩
    cases r
    cases after
    simp_all

theorem accepts_throw (e : DecodeError) : Accepts (throw e : Read α) (fun _ _ => False) := by
  intro r a after
  constructor
  · intro failed
    cases failed
  · rintro ⟨_, impossible, _⟩
    exact impossible.elim

theorem accepts_bind {p : Read α} {q : α → Read β} {first : Form α} {second : α → Form β}
    (front : Accepts p first) (back : ∀ a, Accepts (q a) (second a)) :
    Accepts (p >>= q) (fun b bytes => ∃ a, Form.both (first a) (second a b) bytes) := by
  intro r b after
  rw [bind_eq_ok_iff]
  constructor
  · rintro ⟨a, mid, readFirst, readSecond⟩
    obtain ⟨ahead, spelt, unread, position⟩ := (front r a mid).mp readFirst
    obtain ⟨behind, speltNext, unreadNext, positionNext⟩ := (back a mid b after).mp readSecond
    refine ⟨ahead ++ behind, ⟨a, ahead, behind, spelt, speltNext, rfl⟩, ?_, ?_⟩
    · rw [unread, unreadNext, List.append_assoc]
    · rw [positionNext, position, List.length_append, Nat.add_assoc]
  · rintro ⟨_, ⟨a, ahead, behind, spelt, speltNext, rfl⟩, unread, position⟩
    refine ⟨a, ⟨r.position + ahead.length, behind ++ after.unread⟩, (front r a _).mpr ?_,
      (back a _ b after).mpr ?_⟩
    · exact ⟨ahead, spelt, by rw [unread, List.append_assoc], rfl⟩
    · exact ⟨behind, speltNext, rfl, by rw [position, List.length_append, Nat.add_assoc]⟩

-- The position says where an error is and decides nothing else.
theorem accepts_position {q : Nat → Read β} {form : Form β} (accepts : ∀ n, Accepts (q n) form) :
    Accepts (position >>= q) form := by
  intro r b after
  exact accepts r.position r b after

theorem accepts_u8 : Accepts u8 Form.u8 := by
  intro r b after
  obtain ⟨position, unread⟩ := r
  obtain ⟨next, rest⟩ := after
  cases unread with
  | nil => simp [u8, Form.u8]
  | cons head tail =>
      simp only [u8, Form.u8, EStateM.Result.ok.injEq, Reader.mk.injEq, exists_eq_left,
        List.singleton_append, List.cons.injEq, List.length_singleton]
      constructor
      · rintro ⟨rfl, rfl, rfl⟩
        exact ⟨⟨rfl, rfl⟩, rfl⟩
      · rintro ⟨⟨rfl, rfl⟩, rfl⟩
        exact ⟨rfl, rfl, rfl⟩

theorem accepts_bool : Accepts bool Form.bool := by
  refine accepts_congr (accepts_bind accepts_u8 fun b => accepts_pure (b != 0)) fun flag bytes => ?_
  constructor
  · rintro ⟨b, _, _, rfl, ⟨rfl, rfl⟩, rfl⟩
    exact ⟨b, rfl, rfl⟩
  · rintro ⟨b, rfl, rfl⟩
    exact ⟨b, [b], [], rfl, ⟨rfl, rfl⟩, rfl⟩

theorem accepts_word : Accepts u32 Form.word := by
  intro r w after
  obtain ⟨position, unread⟩ := r
  obtain ⟨next, rest⟩ := after
  constructor
  · intro done
    match unread, done with
    | a :: b :: c :: d :: tail, done =>
        cases done
        exact ⟨_, rfl, by rw [Bytes.of_word_to_word]; rfl, rfl⟩
  · rintro ⟨_, rfl, unreadEq, positionEq⟩
    dsimp only at unreadEq positionEq
    subst unreadEq positionEq
    change EStateM.Result.ok (Bytes.toWord _ _ _ _) _ = _
    rw [Bytes.to_word_of_word]
    rfl

theorem accepts_bytes (n : Nat) : Accepts (bytes n) (fun bs front => front = bs ∧ bs.length = n) := by
  intro r bs after
  obtain ⟨position, unread⟩ := r
  obtain ⟨next, rest⟩ := after
  simp only [bytes, Bytes.split_exact_eq]
  by_cases fits : n ≤ unread.length
  · simp only [if_pos fits, EStateM.Result.ok.injEq, Reader.mk.injEq]
    constructor
    · rintro ⟨rfl, rfl, rfl⟩
      refine ⟨_, ⟨rfl, ?_⟩, (List.take_append_drop n unread).symm, ?_⟩ <;> simp [fits]
    · rintro ⟨_, ⟨rfl, rfl⟩, rfl, rfl⟩
      simp
  · simp only [if_neg fits, reduceCtorEq, false_iff]
    rintro ⟨_, ⟨rfl, rfl⟩, rfl, _⟩
    simp at fits

theorem accepts_spelt (bs : Bytes) (offset : Nat) :
    Accepts (match Bytes.toText? bs with
      | some s => return s
      | none => throw (.invalidText offset))
      (fun s back => bs = Bytes.ofText s ∧ back = []) := by
  cases spelt : Bytes.toText? bs with
  | some s =>
      have bsEq := (Bytes.to_text_eq_some_iff bs s).mp spelt
      refine accepts_congr (accepts_pure s) fun other back => ?_
      have same : bs = Bytes.ofText other ↔ other = s := by
        rw [← Bytes.to_text_eq_some_iff, spelt, Option.some.injEq]
        exact eq_comm
      rw [same]
  | none =>
      refine accepts_congr (accepts_throw _) fun other back => ?_
      have absent : bs ≠ Bytes.ofText other := by
        rw [Ne, ← Bytes.to_text_eq_some_iff, spelt]
        simp
      simp [absent]

theorem accepts_text : Accepts text Form.text := by
  have parts := accepts_bind accepts_word fun length =>
    accepts_position fun offset =>
      accepts_bind (accepts_bytes length.toNat) fun bs => accepts_spelt bs offset
  refine accepts_congr parts fun s bytes => ?_
  constructor
  · rintro ⟨length, _, _, rfl, ⟨bs, _, _, ⟨rfl, lengthEq⟩, ⟨rfl, rfl⟩, rfl⟩, rfl⟩
    rw [Bytes.length_of_text] at lengthEq
    refine ⟨by rw [lengthEq]; exact length.toNat_lt, ?_⟩
    rw [Field.encodeText, Bytes.length_of_text, lengthEq, UInt32.ofNat_toNat, List.append_nil]
  · rintro ⟨short, rfl⟩
    refine ⟨UInt32.ofNat s.utf8ByteSize, _, _, rfl, ⟨_, _, [], ⟨rfl, ?_⟩, ⟨rfl, rfl⟩, rfl⟩, ?_⟩
    · rw [Bytes.length_of_text, UInt32.toNat_ofNat_of_lt' short]
    · rw [Field.encodeText, Bytes.length_of_text, List.append_nil]

theorem accepts_opt {read : Read α} {form : Form α} (accepts : Accepts read form) :
    Accepts (do if ← bool then return some (← read) else return none) (Form.opt form) := by
  have branch : ∀ flag : Bool,
      Accepts (if flag then (do return some (← read)) else return none : Read (Option α))
        (fun a back => if flag then ∃ b, a = some b ∧ form b back else a = none ∧ back = []) := by
    intro flag
    cases flag with
    | true =>
        refine accepts_congr (accepts_bind accepts fun b => accepts_pure (some b)) fun a bytes => ?_
        simp only [if_true]
        constructor
        · rintro ⟨b, front, _, spelt, ⟨rfl, rfl⟩, rfl⟩
          exact ⟨b, rfl, by rwa [List.append_nil]⟩
        · rintro ⟨b, rfl, spelt⟩
          exact ⟨b, bytes, [], spelt, ⟨rfl, rfl⟩, (List.append_nil bytes).symm⟩
    | false => simpa using accepts_pure (none : Option α)
  refine accepts_congr (accepts_bind accepts_bool branch) fun a bytes => ?_
  constructor
  · rintro ⟨flag, _, back, ⟨b, rfl, rfl⟩, spelt, rfl⟩
    by_cases present : (b != 0) = true
    · rw [if_pos present] at spelt
      obtain ⟨inner, rfl, spelt⟩ := spelt
      exact ⟨b, back, by simpa using present, spelt, rfl⟩
    · rw [if_neg present] at spelt
      obtain ⟨rfl, rfl⟩ := spelt
      have zero : b = 0 := by simpa using present
      rw [zero]
      rfl
  · intro spelt
    cases a with
    | none => exact ⟨false, [0], [], ⟨0, rfl, rfl⟩, by simp, by rw [spelt]; rfl⟩
    | some inner =>
        obtain ⟨b, back, nonzero, spelt, rfl⟩ := spelt
        exact ⟨true, [b], back, ⟨b, rfl, by simpa using nonzero⟩, ⟨inner, rfl, spelt⟩, rfl⟩

theorem accepts_rows {row : Read α} {form : Form α} (accepts : Accepts row form) (n : Nat) :
    Accepts (rows row n) (fun as bytes => as.length = n ∧ Form.rows form as bytes) := by
  induction n with
  | zero =>
      refine accepts_congr (accepts_pure []) fun as bytes => ?_
      constructor
      · rintro ⟨rfl, rfl⟩
        exact ⟨rfl, rfl⟩
      · rintro ⟨empty, spelt⟩
        cases as with
        | nil => exact ⟨rfl, spelt⟩
        | cons a rest => cases empty
  | succ n ih =>
      have parts := accepts_bind accepts fun first =>
        accepts_bind ih fun others => accepts_pure (first :: others)
      refine accepts_congr parts fun as bytes => ?_
      constructor
      · rintro ⟨first, front, _, spelt, ⟨others, back, _, ⟨rfl, speltOthers⟩, ⟨rfl, rfl⟩, rfl⟩, rfl⟩
        exact ⟨rfl, front, back, spelt, speltOthers, by rw [List.append_nil]⟩
      · rintro ⟨lengthEq, spelt⟩
        cases as with
        | nil => cases lengthEq
        | cons first others =>
            obtain ⟨front, back, spelt, speltOthers, rfl⟩ := spelt
            exact ⟨first, front, back, spelt, ⟨others, back, [],
              ⟨Nat.succ.inj lengthEq, speltOthers⟩, ⟨rfl, rfl⟩, (List.append_nil back).symm⟩, rfl⟩

-- A count may be refused where it exceeds the number of unread bytes: the bytes of genuine rows are never fewer than
-- the rows.
structure Counts (count : Read Nat) : Prop where
  sound : ∀ r n after, count r = .ok n after → ∃ w : UInt32, n = w.toNat ∧
    r.unread = Bytes.ofWord w ++ after.unread ∧ after.position = r.position + 4
  complete : ∀ r (w : UInt32) after, r.unread = Bytes.ofWord w ++ after.unread →
    after.position = r.position + 4 → w.toNat ≤ after.unread.length → count r = .ok w.toNat after

theorem plain_count_counts : Counts plainCount := by
  have accepts := accepts_bind accepts_word fun w => accepts_pure w.toNat
  constructor
  · intro r n after done
    obtain ⟨_, ⟨w, _, _, rfl, ⟨rfl, rfl⟩, rfl⟩, unread, position⟩ := (accepts r n after).mp done
    exact ⟨w, rfl, by rw [unread, List.append_nil], position⟩
  · intro r w after unread position _
    exact (accepts r _ after).mpr
      ⟨_, ⟨w, _, _, rfl, ⟨rfl, rfl⟩, rfl⟩, by rw [unread, List.append_nil], position⟩

theorem count_counts : Counts count := by
  constructor
  · intro r n after done
    obtain ⟨offset, mid, start, done⟩ := (bind_eq_ok_iff _ _ _ _ _).mp done
    cases start
    obtain ⟨w, mid, readWord, done⟩ := (bind_eq_ok_iff _ _ _ _ _).mp done
    obtain ⟨_, rfl, unread, position⟩ := (accepts_word _ _ _).mp readWord
    split at done
    · cases done
      exact ⟨w, rfl, unread, position⟩
    · cases done
  · intro r w after unread position fits
    refine (bind_eq_ok_iff _ _ _ _ _).mpr ⟨r.position, r, rfl, ?_⟩
    refine (bind_eq_ok_iff _ _ _ _ _).mpr ⟨w, after, ?_, ?_⟩
    · exact (accepts_word _ _ _).mpr ⟨_, rfl, unread, position⟩
    · rw [if_pos ((Bytes.at_least_iff _ _).mpr fits)]

theorem room_of_count {r after : Reader} {n : Nat} (counted : count r = .ok n after) : n ≤ after.unread.length := by
  obtain ⟨_, _, _, counted⟩ := (bind_eq_ok_iff _ _ _ _ _).mp counted
  obtain ⟨_, _, _, counted⟩ := (bind_eq_ok_iff _ _ _ _ _).mp counted
  split at counted
  · rename_i room
    cases counted
    exact (Bytes.at_least_iff _ _).mp room
  · cases counted

theorem rows_length_le {form : Form α} (nonempty : ∀ a bytes, form a bytes → bytes ≠ [])
    (as : List α) (bytes : Bytes) (spelt : Form.rows form as bytes) : as.length ≤ bytes.length := by
  induction as generalizing bytes with
  | nil => exact Nat.zero_le _
  | cons a rest ih =>
      obtain ⟨front, back, speltFirst, speltRest, rfl⟩ := spelt
      have bound := ih back speltRest
      have positive := List.length_pos_iff.mpr (nonempty a front speltFirst)
      rw [List.length_cons, List.length_append]
      omega

theorem accepts_table {count : Read Nat} {row : Read α} {form : Form α} (counts : Counts count)
    (accepts : Accepts row form) (nonempty : ∀ a bytes, form a bytes → bytes ≠ []) :
    Accepts (table count row) (Form.table form) := by
  intro r as after
  rw [table, bind_eq_ok_iff]
  constructor
  · rintro ⟨n, mid, counted, done⟩
    obtain ⟨w, rfl, unread, position⟩ := counts.sound r n mid counted
    obtain ⟨body, ⟨lengthEq, spelt⟩, unreadBody, positionBody⟩ :=
      (accepts_rows accepts w.toNat mid as after).mp done
    refine ⟨Bytes.ofWord w ++ body, ⟨?_, Bytes.ofWord w, body, ?_, spelt, rfl⟩, ?_, ?_⟩
    · rw [lengthEq]
      exact w.toNat_lt
    · rw [lengthEq, UInt32.ofNat_toNat]
      rfl
    · rw [unread, unreadBody, List.append_assoc]
    · rw [positionBody, position, List.length_append, Bytes.length_of_word, Nat.add_assoc]
  · rintro ⟨_, ⟨short, _, body, rfl, spelt, rfl⟩, unread, position⟩
    have number : (UInt32.ofNat as.length).toNat = as.length := UInt32.toNat_ofNat_of_lt' short
    refine ⟨as.length, ⟨r.position + 4, body ++ after.unread⟩, ?_, ?_⟩
    · have bound := rows_length_le nonempty as body spelt
      have counted := counts.complete r (UInt32.ofNat as.length) ⟨r.position + 4, body ++ after.unread⟩
        (by rw [unread, List.append_assoc]) rfl (by rw [number, List.length_append]; omega)
      rwa [number] at counted
    · refine (accepts_rows accepts as.length _ as after).mpr ⟨body, ⟨rfl, spelt⟩, rfl, ?_⟩
      rw [position, List.length_append, Bytes.length_of_word, Nat.add_assoc]

end Read

end Loom
