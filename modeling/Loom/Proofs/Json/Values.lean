import Loom.Proofs.Json.Literals

set_option autoImplicit false

/-! What follows a value does not matter, as long as it ends a number. -/
namespace Loom.Json

inductive Plain : Json → Prop where
  | null : Plain .null
  | bool (value : Bool) : Plain (.bool value)
  | number (n : Nat) : Plain (.number (Nat.toDigits 10 n))
  | text (s : String) : Plain (.text s)
  | array (items : List Json) (plain : ∀ item ∈ items, Plain item) : Plain (.array items)
  | object (members : List (Option String × Json)) (keys : ∀ m ∈ members, m.1.isSome)
      (plain : ∀ m ∈ members, Plain m.2) : Plain (.object members)

theorem skip_solid (c : Char) (cs : List Char) (solid : isBlank c = false) :
    skipBlank (c :: cs) = c :: cs := by
  rw [skipBlank, List.dropWhile_cons, solid]
  rfl

theorem blank_not_digit (c : Char) (digit : isDigit c = true) : isBlank c = false := by
  cases blank : isBlank c with
  | false => rfl
  | true =>
      simp only [isBlank, Bool.or_eq_true, decide_eq_true_eq] at blank
      obtain ((rfl | rfl) | rfl) | rfl := blank <;> cases digit

section Newline

variable (layout : Layout) (depth : Nat)

theorem skip_newline (cs : List Char) : skipBlank (layout.newline depth ++ cs) = skipBlank cs := by
  cases layout with
  | compact => rfl
  | pretty =>
      have blank : ∀ c ∈ Layout.pretty.newline depth, isBlank c = true := by
        intro c member
        rcases List.mem_cons.mp member with first | space
        · rw [first]
          rfl
        · rw [(List.mem_replicate.mp space).2]
          rfl
      exact List.dropWhile_append_of_pos blank

theorem parse_value_newline (fuel : Nat) (cs : List Char) :
    parseValue fuel (layout.newline depth ++ cs) = parseValue fuel cs := by
  cases fuel with
  | zero => rfl
  | succ fuel => simp only [parseValue, skip_newline]

theorem parse_items_newline (fuel : Nat) (cs : List Char) :
    parseItems fuel (layout.newline depth ++ cs) = parseItems fuel cs := by
  cases fuel with
  | zero => rfl
  | succ fuel => simp only [parseItems, parse_value_newline]

theorem parse_members_newline (fuel : Nat) (cs : List Char) :
    parseMembers fuel (layout.newline depth ++ cs) = parseMembers fuel cs := by
  cases fuel with
  | zero => rfl
  | succ fuel => simp only [parseMembers, skip_newline]

theorem closes_newline {c : Char} (closing : c = ']' ∨ c = '\x7d') (rest : List Char) :
    Closes (layout.newline depth ++ c :: rest) := by
  intro first member
  cases layout with
  | compact =>
      cases member
      exact .inr (.inr closing)
  | pretty =>
      cases member
      exact .inr (.inl rfl)

end Newline

theorem closes_comma (rest : List Char) : Closes (',' :: rest) := by
  intro first member
  cases member
  exact .inl rfl

theorem render_head (layout : Layout) (depth : Nat) {j : Json} (plain : j.Plain) :
    ∃ c cs, j.render layout depth = c :: cs ∧ isBlank c = false ∧ c ≠ ']' := by
  cases plain with
  | null => exact ⟨_, _, rfl, rfl, by decide⟩
  | bool value => cases value <;> exact ⟨_, _, rfl, rfl, by decide⟩
  | number n =>
      obtain ⟨c, cs, spelt, digit, _⟩ := decimal_head n
      refine ⟨c, cs, by rw [render, spelt], blank_not_digit c digit, fun closing => ?_⟩
      rw [closing] at digit
      cases digit
  | text s => exact ⟨_, _, rfl, rfl, by decide⟩
  | array items => cases items <;> exact ⟨_, _, rfl, rfl, by decide⟩
  | object members => cases members <;> exact ⟨_, _, rfl, rfl, by decide⟩

def ReadsBack (layout : Layout) (j : Json) : Prop :=
  ∀ depth fuel rest, (j.render layout depth).length ≤ fuel → Closes rest →
    parseValue fuel (j.render layout depth ++ rest) = some (j, rest)

theorem reads_back_of_steps {layout : Layout} {j : Json} (plain : j.Plain)
    (steps : ∀ depth fuel rest, (j.render layout depth).length ≤ fuel + 1 → Closes rest →
      parseValue (fuel + 1) (j.render layout depth ++ rest) = some (j, rest)) : j.ReadsBack layout := by
  intro depth fuel rest room closes
  cases fuel with
  | zero =>
      obtain ⟨c, cs, head, _⟩ := render_head layout depth plain
      rw [head] at room
      cases room
  | succ fuel => exact steps depth fuel rest room closes

theorem parse_value_digit (fuel : Nat) {c : Char} (cs : List Char) (digit : isDigit c = true) :
    parseValue (fuel + 1) (c :: cs) =
      (parseNumber (c :: cs)).map fun (literal, rest) => (.number literal, rest) := by
  rw [parseValue, skip_solid c cs (blank_not_digit c digit)]
  split <;> first | rfl | (rename_i same; cases same; cases digit)

theorem number_reads_back (layout : Layout) (n : Nat) : ReadsBack layout (.number (Nat.toDigits 10 n)) := by
  refine reads_back_of_steps (.number n) fun depth fuel rest room closes => ?_
  have number := parse_decimal n rest closes
  obtain ⟨c, cs, spelt, digit, _⟩ := decimal_head n
  rw [render]
  rw [spelt, List.cons_append] at number ⊢
  rw [parse_value_digit fuel _ digit, number]
  rfl

theorem text_reads_back (layout : Layout) (s : String) : ReadsBack layout (.text s) := by
  refine reads_back_of_steps (.text s) fun depth fuel rest room closes => ?_
  have quoted := parse_quoted s rest
  simp only [text, render, quote, Option.getD_some, List.cons_append, List.append_assoc, List.nil_append,
    parseValue, skip_solid '\x22' _ rfl, quoted, Option.map_some]

section Array

variable {layout : Layout}

theorem parse_items (depth outer fuel : Nat) {item : Json} {items : List Json}
    (reads : ∀ j ∈ item :: items, j.ReadsBack layout)
    (room : (item.render layout depth).length + (renderItems layout depth items).length < fuel)
    (rest : List Char) :
    parseItems fuel (item.render layout depth ++ (renderItems layout depth items
      ++ (layout.newline outer ++ ']' :: rest))) = some (item :: items, rest) := by
  induction items generalizing item fuel with
  | nil =>
      cases fuel with
      | zero => cases room
      | succ fuel =>
          rw [renderItems, List.length_nil] at room
          have first := reads item (.head _) depth fuel _ (by omega) (closes_newline layout outer (.inl rfl) rest)
          simp only [renderItems, List.nil_append, parseItems, first, skip_newline]
          rfl
  | cons next items ih =>
      cases fuel with
      | zero => cases room
      | succ fuel =>
          simp only [renderItems, List.length_cons, List.length_append] at room
          have first := fun cs => reads item (.head _) depth fuel (',' :: cs) (by omega) (closes_comma cs)
          have others := ih fuel (fun j member => reads j (.tail _ member)) (by omega)
          simp only [renderItems, List.cons_append, List.append_assoc, parseItems, first, skip_solid ',' _ rfl,
            parse_items_newline, others, Option.map_some]

theorem array_reads_back {items : List Json} (plain : ∀ item ∈ items, item.Plain)
    (reads : ∀ item ∈ items, item.ReadsBack layout) : ReadsBack layout (.array items) := by
  -- The list goes on behind its bracket, as its first item does not close it.
  refine reads_back_of_steps (.array items plain) fun depth fuel rest room closes => ?_
  cases items with
  | nil => rfl
  | cons item items =>
      obtain ⟨c, cs, head, solid, going⟩ := render_head layout (depth + 1) (plain item (.head _))
      simp only [render, List.length_cons, List.length_append] at room
      have inside := parse_items (depth + 1) depth fuel reads (by omega) rest
      simp only [render, List.cons_append, List.append_assoc, List.nil_append, parseValue,
        skip_solid '[' _ rfl, skip_newline]
      rw [head, List.cons_append] at inside ⊢
      rw [skip_solid c _ solid]
      split
      · rename_i same
        cases same
        exact absurd rfl going
      · rw [inside]
        rfl

end Array

section Object

variable {layout : Layout} {value : Json}

theorem colon_gap (layout : Layout) :
    ∃ gap, layout.colon = ':' :: gap ∧ ∀ fuel cs, parseValue fuel (gap ++ cs) = parseValue fuel cs := by
  cases layout with
  | compact => exact ⟨[], rfl, fun _ _ => rfl⟩
  | pretty =>
      refine ⟨[' '], rfl, fun fuel cs => ?_⟩
      cases fuel with
      | zero => rfl
      | succ fuel => rfl

theorem parse_member (depth fuel : Nat) (key : String) (reads : value.ReadsBack layout)
    (room : (value.render layout depth).length ≤ fuel) {cs left : List Char} (closes : Closes cs)
    {members : List (Option String × Json)}
    (goesOn : skipBlank cs = '\x7d' :: left ∧ members = [] ∨
      ∃ rest, skipBlank cs = ',' :: rest ∧ parseMembers fuel rest = some (members, left)) :
    parseMembers (fuel + 1) (quote key ++ (layout.colon ++ (value.render layout depth ++ cs))) =
      some ((some key, value) :: members, left) := by
  obtain ⟨gap, colon, skipped⟩ := colon_gap layout
  simp only [quote, List.cons_append, List.append_assoc, List.nil_append, colon, parseMembers,
    skip_solid '\x22' _ rfl, parse_quoted, skip_solid ':' _ rfl, skipped, reads depth fuel cs room closes]
  rcases goesOn with ⟨closed, none⟩ | ⟨rest, comma, others⟩
  · simp only [closed, none]
  · simp only [comma, others, Option.map_some]

theorem parse_members (depth outer fuel : Nat) {key : String} {members : List (Option String × Json)}
    (keys : ∀ m ∈ members, m.1.isSome) (reads : ∀ m ∈ (some key, value) :: members, m.2.ReadsBack layout)
    (room : (value.render layout depth).length + (renderMembers layout depth members).length < fuel)
    (rest : List Char) :
    parseMembers fuel (quote key ++ (layout.colon ++ (value.render layout depth
      ++ (renderMembers layout depth members ++ (layout.newline outer ++ '\x7d' :: rest))))) =
      some ((some key, value) :: members, rest) := by
  induction members generalizing key value fuel with
  | nil =>
      cases fuel with
      | zero => cases room
      | succ fuel =>
          rw [renderMembers, List.length_nil] at room
          rw [renderMembers, List.nil_append]
          have own : value.ReadsBack layout := reads _ (.head _)
          refine parse_member depth fuel key own (by omega) (closes_newline layout outer (.inr rfl) rest)
            (.inl ⟨?_, rfl⟩)
          rw [skip_newline]
          rfl
  | cons next members ih =>
      obtain ⟨nextKey, nextValue⟩ := next
      obtain ⟨nextKey, rfl⟩ := Option.isSome_iff_exists.mp (keys _ (.head _))
      cases fuel with
      | zero => cases room
      | succ fuel =>
          simp only [renderMembers, List.length_cons, List.length_append] at room
          have own : value.ReadsBack layout := reads _ (.head _)
          have others := ih fuel (fun m member => keys m (.tail _ member)) (fun m member => reads m (.tail _ member))
            (by omega)
          simp only [renderMembers, List.cons_append, List.append_assoc, Option.getD_some]
          refine parse_member depth fuel key own (by omega) (closes_comma _) (.inr ⟨_, skip_solid ',' _ rfl, ?_⟩)
          rw [parse_members_newline]
          exact others

theorem object_reads_back {members : List (Option String × Json)} (keys : ∀ m ∈ members, m.1.isSome)
    (plain : ∀ m ∈ members, m.2.Plain) (reads : ∀ m ∈ members, m.2.ReadsBack layout) :
    ReadsBack layout (.object members) := by
  refine reads_back_of_steps (.object members keys plain) fun depth fuel rest room closes => ?_
  cases members with
  | nil => rfl
  | cons first members =>
      obtain ⟨key, value⟩ := first
      obtain ⟨key, rfl⟩ := Option.isSome_iff_exists.mp (keys _ (.head _))
      simp only [render, List.length_cons, List.length_append] at room
      have inside := parse_members (depth + 1) depth fuel (fun m member => keys m (.tail _ member)) reads (by omega)
        rest
      simp only [render, List.cons_append, List.append_assoc, List.nil_append, parseValue,
        skip_solid '\x7b' _ rfl, skip_newline, Option.getD_some]
      rw [quote, List.cons_append] at inside ⊢
      rw [skip_solid '\x22' _ rfl]
      split
      · rename_i same
        cases same
      · rw [inside]
        rfl

end Object

theorem plain_reads_back (layout : Layout) {j : Json} (plain : j.Plain) : j.ReadsBack layout := by
  induction plain with
  | null => exact reads_back_of_steps .null fun _ _ _ _ _ => rfl
  | bool value =>
      refine reads_back_of_steps (.bool value) fun _ _ _ _ _ => ?_
      cases value with
      | false => rfl
      | true => rfl
  | number n => exact number_reads_back layout n
  | text s => exact text_reads_back layout s
  | array items plain ih => exact array_reads_back plain ih
  | object members keys plain ih => exact object_reads_back keys plain ih

theorem parse_to_text (layout : Layout) {j : Json} (plain : j.Plain) : parse (j.toText layout) = some j := by
  have whole := plain_reads_back layout plain 0 (2 * (j.render layout 0).length + 2) [] (by omega) nofun
  rw [List.append_nil] at whole
  simp only [parse, toText, String.toList_ofList, whole]
  rfl

end Loom.Json
