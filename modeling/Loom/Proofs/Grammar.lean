import Loom.Module.Format
import Loom.Proofs.Reading

set_option autoImplicit false

namespace Loom

def TypeKind.form : Form TypeKind := fun kind bytes => bytes = [kind.tag]

def Identity.form : Form Identity := fun i => Form.both (Form.text i.name) (Form.text i.version)

def TypeRef.form : Form TypeRef := fun t =>
  Form.both (Form.opt Form.text t.scope) (Form.both (Form.text t.space) (Form.text t.name))

def FieldDecl.form : Form FieldDecl := fun f => Form.both (Form.text f.name) (Form.text f.typeName)

def TypeDecl.form : Form TypeDecl := fun t =>
  Form.both (Form.text t.space) (Form.both (Form.text t.name) (Form.both (TypeKind.form t.kind)
    (Form.both (Form.opt TypeRef.form t.base)
      (Form.both (Form.table Form.text t.attributes) (Form.table FieldDecl.form t.fields)))))

def Registration.form : Form Registration := fun r =>
  Form.both (Form.text r.typeName) (Form.text r.category)

def Module.payloadForm : Form Module := fun m =>
  Form.both (Identity.form m.identity) (Form.both (Form.table Identity.form m.references)
    (Form.both (Form.table TypeDecl.form m.types)
      (Form.both (Form.table Registration.form m.registrations) (Form.opt Form.text m.sourceFile))))

namespace Form

theorem both_ne_nil {first second : Bytes → Prop} (nonempty : ∀ bytes, first bytes → bytes ≠ [])
    (bytes : Bytes) (spelt : both first second bytes) : bytes ≠ [] := by
  obtain ⟨front, back, speltFirst, _, rfl⟩ := spelt
  exact List.append_ne_nil_of_left_ne_nil (nonempty front speltFirst) back

theorem text_ne_nil (s : String) (bytes : Bytes) (spelt : text s bytes) : bytes ≠ [] := by
  obtain ⟨_, rfl⟩ := spelt
  exact List.cons_ne_nil _ _

end Form

namespace Read

theorem of_tag_eq_some_iff (tag : UInt8) (kind : TypeKind) :
    TypeKind.ofTag? tag = some kind ↔ tag = kind.tag := by
  constructor
  · intro found
    unfold TypeKind.ofTag? at found
    split at found <;> cases found <;> rfl
  · rintro rfl
    cases kind <;> rfl

theorem accepts_tag (tag : UInt8) (offset : Nat) :
    Accepts (match TypeKind.ofTag? tag with
      | some kind => return kind
      | none => throw (.invalidTag "type kind" tag offset))
      (fun kind back => tag = kind.tag ∧ back = []) := by
  cases known : TypeKind.ofTag? tag with
  | some kind =>
      refine accepts_congr (accepts_pure kind) fun other back => ?_
      rw [← of_tag_eq_some_iff, known, Option.some.injEq, eq_comm]
  | none =>
      refine accepts_congr (accepts_throw _) fun other back => ?_
      rw [← of_tag_eq_some_iff, known]
      simp

theorem accepts_kind : Accepts TypeKind.read TypeKind.form := by
  have parts := accepts_position fun offset =>
    accepts_bind accepts_u8 fun tag => accepts_tag tag offset
  refine accepts_congr parts fun kind bytes => ?_
  constructor
  · rintro ⟨tag, _, _, rfl, ⟨rfl, rfl⟩, rfl⟩
    rfl
  · rintro rfl
    exact ⟨kind.tag, [kind.tag], [], rfl, ⟨rfl, rfl⟩, rfl⟩

theorem accepts_pair {α : Type} (make : String → String → α) (first second : α → String)
    (eta : ∀ a s t, a = make s t ↔ first a = s ∧ second a = t) :
    Accepts (do
      let s ← text
      let t ← text
      return make s t)
      (fun a => Form.both (Form.text (first a)) (Form.text (second a))) := by
  have parts := accepts_bind accepts_text fun s =>
    accepts_bind accepts_text fun t => accepts_pure (make s t)
  refine accepts_congr parts fun a bytes => ?_
  constructor
  · rintro ⟨s, front, _, spelt, ⟨t, back, _, speltNext, ⟨made, rfl⟩, rfl⟩, rfl⟩
    obtain ⟨rfl, rfl⟩ := (eta a s t).mp made
    exact ⟨front, back, spelt, speltNext, by rw [List.append_nil]⟩
  · rintro ⟨front, back, spelt, speltNext, rfl⟩
    exact ⟨first a, front, back, spelt, ⟨second a, back, [], speltNext,
      ⟨(eta a _ _).mpr ⟨rfl, rfl⟩, rfl⟩, (List.append_nil back).symm⟩, rfl⟩

theorem accepts_identity : Accepts Identity.read Identity.form :=
  accepts_pair Identity.mk Identity.name Identity.version fun a s t => by cases a; simp

theorem accepts_field : Accepts FieldDecl.read FieldDecl.form :=
  accepts_pair FieldDecl.mk FieldDecl.name FieldDecl.typeName fun a s t => by cases a; simp

theorem accepts_registration : Accepts Registration.read Registration.form :=
  accepts_pair Registration.mk Registration.typeName Registration.category fun a s t => by
    cases a; simp

theorem accepts_type_ref : Accepts TypeRef.read TypeRef.form := by
  have parts := accepts_bind (accepts_opt accepts_text) fun scope =>
    accepts_bind accepts_text fun space =>
      accepts_bind accepts_text fun name => accepts_pure (TypeRef.mk scope space name)
  refine accepts_congr parts fun t bytes => ?_
  constructor
  · rintro ⟨scope, a, _, scopeForm, ⟨space, b, _, spaceForm, ⟨name, c, _, nameForm, ⟨rfl, rfl⟩, rfl⟩,
      rfl⟩, rfl⟩
    exact ⟨a, b ++ c, scopeForm, ⟨b, c, spaceForm, nameForm, rfl⟩, by rw [List.append_nil]⟩
  · rintro ⟨a, _, scopeForm, ⟨b, c, spaceForm, nameForm, rfl⟩, rfl⟩
    exact ⟨t.scope, a, b ++ c, scopeForm, ⟨t.space, b, c, spaceForm, ⟨t.name, c, [], nameForm,
      ⟨rfl, rfl⟩, (List.append_nil c).symm⟩, rfl⟩, rfl⟩

theorem accepts_type {count : Read Nat} (counts : Counts count) :
    Accepts (TypeDecl.read count) TypeDecl.form := by
  have parts := accepts_bind accepts_text fun space => accepts_bind accepts_text fun name =>
    accepts_bind accepts_kind fun kind => accepts_bind (accepts_opt accepts_type_ref) fun base =>
      accepts_bind (accepts_table counts accepts_text Form.text_ne_nil) fun attributes =>
        accepts_bind (accepts_table counts accepts_field fun f => Form.both_ne_nil (Form.text_ne_nil f.name))
          fun fields => accepts_pure (TypeDecl.mk space name kind base attributes fields)
  refine accepts_congr parts fun t bytes => ?_
  constructor
  · rintro ⟨space, a, _, spaceForm, ⟨name, b, _, nameForm, ⟨kind, c, _, kindForm, ⟨base, d, _, baseForm,
      ⟨attributes, e, _, attributesForm, ⟨fields, f, _, fieldsForm, ⟨rfl, rfl⟩, rfl⟩, rfl⟩, rfl⟩, rfl⟩,
      rfl⟩, rfl⟩
    rw [List.append_nil]
    exact ⟨a, _, spaceForm, ⟨b, _, nameForm, ⟨c, _, kindForm, ⟨d, _, baseForm,
      ⟨e, f, attributesForm, fieldsForm, rfl⟩, rfl⟩, rfl⟩, rfl⟩, rfl⟩
  · rintro ⟨a, _, spaceForm, ⟨b, _, nameForm, ⟨c, _, kindForm, ⟨d, _, baseForm,
      ⟨e, f, attributesForm, fieldsForm, rfl⟩, rfl⟩, rfl⟩, rfl⟩, rfl⟩
    exact ⟨t.space, a, _, spaceForm, ⟨t.name, b, _, nameForm, ⟨t.kind, c, _, kindForm,
      ⟨t.base, d, _, baseForm, ⟨t.attributes, e, _, attributesForm, ⟨t.fields, f, [], fieldsForm,
        ⟨rfl, rfl⟩, (List.append_nil f).symm⟩, rfl⟩, rfl⟩, rfl⟩, rfl⟩, rfl⟩

theorem accepts_payload {count : Read Nat} (counts : Counts count) (flags : UInt32) :
    Accepts (Module.readPayload count flags) (fun m bytes => m.magic = Module.magicNumber ∧
      m.format = Module.currentFormat ∧ m.flags = flags ∧ m.payloadForm bytes) := by
  have pairNonempty : ∀ (α : Type) (first second : α → String) (a : α) (bytes : Bytes),
      Form.both (Form.text (first a)) (Form.text (second a)) bytes → bytes ≠ [] :=
    fun _ first _ a => Form.both_ne_nil (Form.text_ne_nil (first a))
  have parts := accepts_bind accepts_identity fun identity =>
    accepts_bind (accepts_table counts accepts_identity (pairNonempty _ _ _)) fun references =>
      accepts_bind (accepts_table counts (accepts_type counts)
          fun t => Form.both_ne_nil (Form.text_ne_nil t.space)) fun types =>
        accepts_bind (accepts_table counts accepts_registration (pairNonempty _ _ _)) fun registrations =>
          accepts_bind (accepts_opt accepts_text) fun sourceFile =>
            accepts_pure (Module.mk Module.magicNumber Module.currentFormat flags identity references
              types registrations sourceFile)
  refine accepts_congr parts fun m bytes => ?_
  constructor
  · rintro ⟨identity, a, _, identityForm, ⟨references, b, _, referencesForm, ⟨types, c, _, typesForm,
      ⟨registrations, d, _, registrationsForm, ⟨sourceFile, e, _, sourceForm, ⟨rfl, rfl⟩, rfl⟩, rfl⟩,
      rfl⟩, rfl⟩, rfl⟩
    rw [List.append_nil]
    exact ⟨rfl, rfl, rfl, a, _, identityForm, ⟨b, _, referencesForm, ⟨c, _, typesForm,
      ⟨d, e, registrationsForm, sourceForm, rfl⟩, rfl⟩, rfl⟩, rfl⟩
  · rintro ⟨magic, format, rfl, a, _, identityForm, ⟨b, _, referencesForm, ⟨c, _, typesForm,
      ⟨d, e, registrationsForm, sourceForm, rfl⟩, rfl⟩, rfl⟩, rfl⟩
    refine ⟨m.identity, a, _, identityForm, ⟨m.references, b, _, referencesForm, ⟨m.types, c, _,
      typesForm, ⟨m.registrations, d, _, registrationsForm, ⟨m.sourceFile, e, [], sourceForm, ⟨?_, rfl⟩,
        (List.append_nil e).symm⟩, rfl⟩, rfl⟩, rfl⟩, rfl⟩
    rw [← magic, ← format]

theorem accepts_magic : Accepts magic (fun m bytes => bytes = m.bytes) := by
  intro r m after
  obtain ⟨position, unread⟩ := r
  obtain ⟨next, rest⟩ := after
  constructor
  · intro done
    match unread, done with
    | a :: b :: c :: d :: tail, done =>
        cases done
        exact ⟨_, rfl, rfl, rfl⟩
  · rintro ⟨_, rfl, unreadEq, positionEq⟩
    dsimp only at unreadEq positionEq
    subst unreadEq positionEq
    rfl

end Read

end Loom
