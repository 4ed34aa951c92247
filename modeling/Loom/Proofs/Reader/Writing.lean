import Loom.Proofs.Reader.Turns

set_option autoImplicit false

namespace Loom

namespace Field

def Fits : Field → Prop
  | .text s => TextFits s
  | .optText o => ∀ s ∈ o, TextFits s
  | _ => True

instance : DecidablePred Fits
  | .text s => inferInstanceAs (Decidable (TextFits s))
  | .optText o => inferInstanceAs (Decidable (∀ s ∈ o, TextFits s))
  | .u8 _ | .bool _ | .u32 _ | .raw _ => isTrue trivial

def emit (buffer : Bytes) (f : Field) : Bytes := buffer ++ f.encode

def emitEach : Bytes → List Field → List Bytes
  | _, [] => []
  | buffer, f :: rest => emit buffer f :: emitEach (emit buffer f) rest

def emitAll (buffer : Bytes) (fields : List Field) : Bytes := fields.foldl emit buffer

theorem emit_all_eq (buffer : Bytes) (fields : List Field) :
    emitAll buffer fields = buffer ++ fields.flatMap encode := by
  induction fields generalizing buffer with
  | nil => exact (List.append_nil buffer).symm
  | cons f rest ih =>
      rw [List.flatMap_cons, ← List.append_assoc]
      exact ih (emit buffer f)

theorem encode_spelt {f : Field} (fits : f.Fits) : f.form f.encode := by
  cases f with
  | u8 | u32 | raw => rfl
  | bool value => exact ⟨_, rfl, by cases value <;> rfl⟩
  | text s => exact text_writes.spelt s fits
  | optText o => exact (opt_writes text_writes encodeOptText rfl fun _ => rfl).spelt o fits

theorem read_ahead {f : Field} (fits : f.Fits) (position : Nat) (rest : Bytes) :
    f.shape.read ⟨position, f.encode ++ rest⟩ = .ok f ⟨position + f.encode.length, rest⟩ := by
  have other : f.shape ≠ .count := by cases f <;> exact Shape.noConfusion
  exact (Shape.accepts other _ _ _).mpr ⟨f.encode, ⟨rfl, encode_spelt fits⟩, rfl, rfl⟩

end Field

def Reader.through (r : Reader) (shapes : List Shape) : Reader := shapes.foldl (fun r shape => (shape.turn r).after) r

theorem turns_of_written {fields : List Field} (fits : ∀ f ∈ fields, f.Fits) (written tail : Bytes) :
    let r : Reader := ⟨written.length, fields.flatMap Field.encode ++ tail⟩
    let turns := r.turns (fields.map Field.shape)
    turns.map (·.result) = fields.map .ok ∧
      turns.map (·.after.position) = (Field.emitEach written fields).map List.length ∧
      r.through (fields.map Field.shape) = ⟨(Field.emitAll written fields).length, tail⟩ := by
  -- What was written so far is what was read.
  induction fields generalizing written with
  | nil => exact ⟨rfl, rfl, rfl⟩
  | cons f rest ih =>
      obtain ⟨first, others⟩ := List.forall_mem_cons.mp fits
      obtain ⟨results, positions, last⟩ := ih others (Field.emit written f)
      have offset : (Field.emit written f).length = written.length + f.encode.length := List.length_append
      have turn : f.shape.turn ⟨written.length, (f :: rest).flatMap Field.encode ++ tail⟩ =
          ⟨f.shape, ⟨written.length, (f :: rest).flatMap Field.encode ++ tail⟩, .ok f,
            ⟨(Field.emit written f).length, rest.flatMap Field.encode ++ tail⟩⟩ := by
        rw [Shape.turn, List.flatMap_cons, List.append_assoc, Field.read_ahead first, offset]
      intro r turns
      refine ⟨?_, ?_, ?_⟩
      · simp only [turns, r, List.map_cons, Reader.turns, turn, results]
      · simp only [turns, r, List.map_cons, Reader.turns, turn, positions, Field.emitEach]
      · simp only [r, List.map_cons, Reader.through, List.foldl_cons, turn]
        exact last

namespace Bytes

theorem byte_of_word (w : UInt32) {k : Nat} (inside : k < 4) :
    (ofWord w)[k]? = some (UInt8.ofNat (w.toNat / 256 ^ k)) := by
  have shifted : ∀ n : UInt32, n.toNat < 32 →
      (w >>> n).toUInt8 = UInt8.ofNat (w.toNat / 2 ^ n.toNat) := by
    intro n small
    apply UInt8.toNat_inj.mp
    rw [UInt32.toNat_toUInt8, UInt32.toNat_shiftRight, UInt8.toNat_ofNat', Nat.shiftRight_eq_div_pow, Nat.mod_eq_of_lt small]
  match k, inside with
  | 0, _ => exact congrArg some (by rw [Nat.pow_zero, Nat.div_one]; rfl)
  | 1, _ => exact congrArg some (shifted 8 (by decide))
  | 2, _ => exact congrArg some (shifted 16 (by decide))
  | 3, _ => exact congrArg some (shifted 24 (by decide))

theorem patch_word_get (buffer : Bytes) (offset : Nat) (w : UInt32) (inside : offset + 4 ≤ buffer.length) :
    ∃ patched, patchWord offset w buffer = some patched ∧ patched.length = buffer.length ∧
      ∀ i, patched[i]? =
        if offset ≤ i ∧ i < offset + 4 then some (UInt8.ofNat (w.toNat / 256 ^ (i - offset))) else buffer[i]? := by
  have front : (buffer.take offset).length = offset := by
    rw [List.length_take]
    omega
  refine ⟨buffer.take offset ++ (ofWord w ++ buffer.drop (offset + 4)), ?_, ?_, fun i => ?_⟩
  · rw [patchWord, if_pos inside, List.append_assoc]
  · rw [List.length_append, List.length_append, front, length_of_word, List.length_drop]
    omega
  · by_cases before : i < offset
    · rw [List.getElem?_append_left (by omega), List.getElem?_take_of_lt before, if_neg (by omega)]
    · rw [List.getElem?_append_right (by omega), front]
      by_cases within : i < offset + 4
      · have here : i - offset < 4 := by omega
        rw [List.getElem?_append_left here, byte_of_word w here, if_pos ⟨by omega, within⟩]
      · rw [List.getElem?_append_right (by rw [length_of_word]; omega), length_of_word, List.getElem?_drop,
          if_neg (by omega)]
        congr 1
        omega

end Bytes

theorem written_fields_read_back (fields : List Field) (fits : ∀ f ∈ fields, f.Fits) (tail : Bytes) :
    let r := Reader.start (Field.emitAll [] fields ++ tail)
    let turns := r.turns (fields.map Field.shape)
    (turns.map (·.result) = fields.map .ok ∧
      turns.map (·.after.position) = (Field.emitEach [] fields).map List.length ∧
      r.through (fields.map Field.shape) = ⟨(Field.emitAll [] fields).length, tail⟩) ∧
    ∀ (buffer : Bytes) (offset : Nat) (w : UInt32), offset + 4 ≤ buffer.length →
      ∃ patched, Bytes.patchWord offset w buffer = some patched ∧ patched.length = buffer.length ∧
        ∀ i, patched[i]? =
          if offset ≤ i ∧ i < offset + 4 then some (UInt8.ofNat (w.toNat / 256 ^ (i - offset))) else buffer[i]? := by
  intro r turns
  refine ⟨?_, Bytes.patch_word_get⟩
  have read := turns_of_written fits [] tail
  rwa [List.length_nil, show fields.flatMap Field.encode = Field.emitAll [] fields from (Field.emit_all_eq [] fields).symm] at read

theorem written_name_and_version_read_back :
    let fields : List Field := [.raw [0x57, 0x45], .u32 0, .text "Gämé", .optText none, .bool true, .optText (some ""), .u8 7]
    let written := Field.emitAll [] fields
    let r := Reader.start (written ++ [1, 2])
    let turns := r.turns (fields.map Field.shape)
    (∀ f ∈ fields, f.Fits) ∧
    turns.map (·.result) = fields.map .ok ∧ turns.map (·.after.position) = [2, 6, 16, 17, 18, 23, 24] ∧
    r.through (fields.map Field.shape) = ⟨24, [1, 2]⟩ ∧
    2 + 4 ≤ written.length ∧ ∃ patched, Bytes.patchWord 2 0xABCDEF01 written = some patched ∧
      patched.length = written.length ∧ patched[3]? = some 0xEF ∧ patched[6]? = some 6 := by
  intro fields written r turns
  have fits : ∀ f ∈ fields, f.Fits := by decide
  have long : 2 + 4 ≤ written.length := by decide +kernel
  obtain ⟨⟨results, positions, last⟩, patches⟩ := written_fields_read_back fields fits [1, 2]
  obtain ⟨patched, done, same, bytes⟩ := patches written 2 0xABCDEF01 long
  exact ⟨fits, results, positions.trans (by decide +kernel), last.trans (by decide +kernel), long, patched, done, same,
    (bytes 3).trans (by decide +kernel), (bytes 6).trans (by decide +kernel)⟩

end Loom
