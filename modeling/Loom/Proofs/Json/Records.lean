import Loom.Metadata.Json
import Loom.Proofs.Json.Values

set_option autoImplicit false

namespace Loom

namespace Json

theorem plain_object (members : List (Option String × Json))
    (sound : ∀ m ∈ members, m.1.isSome ∧ m.2.Plain) : (Json.object members).Plain :=
  .object members (fun m member => (sound m member).1) fun m member => (sound m member).2

structure Codes {α : Type} (write : α → Json) (read : Json → Option α) : Prop where
  reads : ∀ x, read (write x) = some x
  plain : ∀ x, (write x).Plain

namespace Codes

variable {α : Type} {write : α → Json} {read : Json → Option α}

theorem list (codes : Codes write read) : Codes (fun xs => .array (xs.map write)) (list? read) where
  reads xs := by
    induction xs with
    | nil => rfl
    | cons x xs ih =>
        rw [list?] at ih
        simp [list?, codes.reads x, ih]
  plain xs := by
    refine .array _ fun item member => ?_
    obtain ⟨x, _, rfl⟩ := List.mem_map.mp member
    exact codes.plain x

-- An absent value is left out of the record, and a value that is written as null would read as absent.
theorem optional (codes : Codes write read) (solid : ∀ x, write x ≠ .null) (x : Option α) :
    optional? read (x.map write) = some x := by
  cases x with
  | none => rfl
  | some x =>
      rw [Option.map_some, optional?, codes.reads x]
      · rfl
      · simpa using solid x

theorem of_text (codes : Codes write read) (layout : Layout) (x : α) :
    (parse ((write x).toText layout)).bind read = some x := by
  rw [parse_to_text layout (codes.plain x)]
  exact codes.reads x

end Codes

theorem texts_code : Codes text text? := ⟨fun _ => rfl, .text⟩

end Json

theorem Category.codes : Json.Codes Category.toJson Category.ofJson? where
  reads c := by cases c <;> rfl
  plain c := .text c.name

theorem FieldDecl.codes : Json.Codes FieldDecl.toJson FieldDecl.ofJson? where
  reads f := by
    simp [ofJson?, toJson, Json.fields?, Json.member, Json.unique?, Json.text?, Json.text]
  plain f := by
    apply Json.plain_object
    simp [Json.member, Json.Plain.text]

theorem SourceLocation.codes : Json.Codes SourceLocation.toJson SourceLocation.ofJson? where
  reads s := by
    simp [ofJson?, toJson, Json.fields?, Json.member, Json.unique?, Json.text?, Json.text, Json.word_decimal]
  plain s := by
    apply Json.plain_object
    simp [Json.member, Json.Plain.text, Json.Plain.number]

namespace TypeRecord

theorem fields_to_json (t : TypeRecord) :
    t.toJson.fields? ["name", "namespace", "fullName", "category", "baseType", "fields", "source"] =
      some [some (.text t.name), some (.text t.space), some (.text t.fullName), some t.category.toJson,
        t.baseType.map Json.text,
        if t.fields = [] then none else some (.array (t.fields.map FieldDecl.toJson)),
        t.source.map SourceLocation.toJson] := by
  obtain ⟨name, space, fullName, category, baseType, fields, source⟩ := t
  cases baseType <;> cases fields <;> cases source <;>
    simp [toJson, Json.fields?, Json.member, Json.unique?]

theorem read_fields (fields : List FieldDecl) :
    Json.listOrEmpty? FieldDecl.ofJson?
      (if fields = [] then none else some (.array (fields.map FieldDecl.toJson))) = some fields := by
  cases fields with
  | nil => rfl
  | cons first rest => exact FieldDecl.codes.list.reads (first :: rest)

theorem codes : Json.Codes toJson ofJson? where
  reads t := by
    have base := Json.texts_code.optional nofun t.baseType
    have fields := read_fields t.fields
    have source := SourceLocation.codes.optional nofun t.source
    have category := Category.codes.reads t.category
    have members := fields_to_json t
    obtain ⟨name, space, fullName, _, baseType, listed, located⟩ := t
    simp [ofJson?, members, Json.text?, Json.text, base, fields, source, category]
  plain t := by
    apply Json.plain_object
    have category := Category.codes.plain t.category
    have listed := FieldDecl.codes.list.plain t.fields
    have located := SourceLocation.codes.plain
    obtain ⟨name, space, fullName, _, baseType, fields, source⟩ := t
    cases baseType <;> cases fields <;> cases source <;> simp_all [Json.member, Json.Plain.text]

end TypeRecord

theorem ApiMetadata.codes : Json.Codes ApiMetadata.toJson ApiMetadata.ofJson? where
  reads m := by
    have texts := Json.texts_code.list.reads
    have types := TypeRecord.codes.list.reads
    simp [ofJson?, toJson, Json.fields?, Json.member, Json.unique?, Json.text?, Json.text,
        Json.listOrEmpty?, texts, types]
  plain m := by
    have texts := Json.texts_code.list.plain
    have types := TypeRecord.codes.list.plain
    apply Json.plain_object
    simp [Json.member, Json.Plain.text, texts, types]

theorem ApiMetadata.of_text_to_text (layout : Json.Layout) (m : ApiMetadata) :
    ofText? (m.toText layout) = some m :=
  codes.of_text layout m

theorem Manifest.codes : Json.Codes Manifest.toJson Manifest.ofJson? where
  reads m := by
    simp [ofJson?, toJson, Json.fields?, Json.member, Json.unique?, Json.texts_code.list.reads]
  plain m := by
    apply Json.plain_object
    simp [Json.member, Json.texts_code.list.plain]

theorem Manifest.of_text_to_text (m : Manifest) : ofText? m.toText = some m :=
  codes.of_text .compact m

theorem records_read_back (m : ApiMetadata) (order : Manifest) :
    (∀ layout, Json.parse (m.toText layout) = some m.toJson ∧ ApiMetadata.ofText? (m.toText layout) = some m) ∧
      Json.parse order.toText = some order.toJson ∧ Manifest.ofText? order.toText = some order := by
  refine ⟨fun layout => ⟨?_, ApiMetadata.of_text_to_text layout m⟩, ?_, Manifest.of_text_to_text order⟩
  · exact Json.parse_to_text layout (ApiMetadata.codes.plain m)
  · exact Json.parse_to_text .compact (Manifest.codes.plain order)

example : Manifest.ofText? (Manifest.toText ⟨["Ga\"me", "\\n\n", "\u0001", "Ünïty 🎮", ""]⟩) =
    some ⟨["Ga\"me", "\\n\n", "\u0001", "Ünïty 🎮", ""]⟩ := by
  decide +kernel

end Loom
