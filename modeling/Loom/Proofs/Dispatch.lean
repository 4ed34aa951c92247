import Loom.Transformer.Registration

set_option autoImplicit false

/-! Dispatch is one pass over the categories in weaving order, up to the first index that leads nowhere, except that
the enumerations are looked through before anything is changed. -/
namespace Loom

def Module.weavingOrder : List Category :=
  [.enumType, .interfaceType, .structType, .classType, .delegate, .multicastDelegate]

-- Of types to register, those that are: the first of each name that has no registration.
def Module.newcomers (m : Module) (entries : List (Category × TypeDecl)) : List (Category × TypeDecl) :=
  (entries.filter fun entry => m.registrations.all (·.typeName ≠ entry.2.fullName)).eraseDupsBy
    fun later earlier => later.2.fullName == earlier.2.fullName

theorem Module.newcomers_eq (m : Module) (entries : List (Category × TypeDecl)) :
    m.newcomers entries =
      (entries.filter fun entry => !m.isRegistered entry.2.fullName).eraseDupsBy
        fun later earlier => later.2.fullName == earlier.2.fullName := by
  simp only [newcomers, isRegistered, List.not_any_eq_all_not, decide_not]

theorem ApiMetadata.foldl_push (m : ApiMetadata) (records : List TypeRecord) :
    records.foldl push m =
      { m with
        classes := m.classes ++ records.filter (·.category = .classType)
        structs := m.structs ++ records.filter (·.category = .structType)
        enums := m.enums ++ records.filter (·.category = .enumType)
        interfaces := m.interfaces ++ records.filter (·.category = .interfaceType)
        delegates := m.delegates ++ records.filter fun r => r.category = .delegate ∨ r.category = .multicastDelegate } := by
  induction records generalizing m with
  | nil => simp
  | cons record rest ih =>
      rw [List.foldl_cons, ih]
      cases category : record.category with
      | classType | structType | enumType | interfaceType | multicastDelegate | delegate => simp [push, category]

namespace Draft

def registerAll (d : Draft) (symbols : Option SymbolTable) (entries : List (Category × TypeDecl)) : Draft :=
  entries.foldl (fun d entry => d.registerType entry.1 symbols entry.2) d

variable (d : Draft) (symbols : Option SymbolTable)

@[simp] theorem types_register_type (category : Category) (t : TypeDecl) :
    (d.registerType category symbols t).module.types = d.module.types := by
  unfold registerType
  split <;> rfl

@[simp] theorem types_register_all (entries : List (Category × TypeDecl)) :
    (d.registerAll symbols entries).module.types = d.module.types := by
  induction entries generalizing d with
  | nil => rfl
  | cons entry rest ih => exact (ih (d.registerType entry.1 symbols entry.2)).trans (types_register_type d symbols _ _)

theorem is_registered_register_type (category : Category) (t : TypeDecl) (name : String) :
    (d.registerType category symbols t).module.isRegistered name =
      (d.module.isRegistered name || decide (t.fullName = name)) := by
  by_cases known : d.module.isRegistered t.fullName = true
  · by_cases same : t.fullName = name
    · rw [registerType, if_pos known, ← same, known]
      rfl
    · simp [registerType, known, same]
  · rw [registerType, if_neg known]
    simp [Module.isRegistered]

theorem module_register_all (entries : List (Category × TypeDecl)) :
    (d.registerAll symbols entries).module =
      { d.module with
        registrations := d.module.registrations ++
          (d.module.newcomers entries).map fun entry => ⟨entry.2.fullName, entry.1.name⟩ } := by
  induction entries generalizing d with
  | nil => simp [registerAll, Module.newcomers_eq]
  | cons entry rest ih =>
      have step : d.registerAll symbols (entry :: rest) =
        (d.registerType entry.1 symbols entry.2).registerAll symbols rest := rfl
      rw [step, ih]
      by_cases known : d.module.isRegistered entry.2.fullName = true
      · simp [registerType, known, Module.newcomers_eq]
      · have others : (d.registerType entry.1 symbols entry.2).module.newcomers rest =
            ((rest.filter fun later => !d.module.isRegistered later.2.fullName).filter
              fun later => (later.2.fullName == entry.2.fullName) = false).eraseDupsBy
                fun later earlier => later.2.fullName == earlier.2.fullName := by
          rw [Module.newcomers_eq, List.filter_filter]
          congr 1
          refine List.filter_congr fun later _ => ?_
          rw [is_registered_register_type]
          by_cases same : entry.2.fullName = later.2.fullName
          · simp [same]
          · simp [same, Ne.symm same]
        rw [others]
        simp [registerType, known, Module.newcomers_eq, List.eraseDupsBy_cons]

theorem metadata_register_all (entries : List (Category × TypeDecl)) :
    (d.registerAll symbols entries).metadata =
      (entries.map fun entry => entry.2.describe entry.1 symbols).foldl ApiMetadata.push d.metadata := by
  induction entries generalizing d with
  | nil => rfl
  | cons entry rest ih => exact ih _

end Draft

namespace Categorized

def entries (c : Categorized) : List (Category × Nat) :=
  Module.weavingOrder.flatMap fun category => (c.get category).map (category, ·)

end Categorized

def Call.entries : Call → List (Category × Nat)
  | .enums types => types.map (.enumType, ·)
  | .interfaces types => types.map (.interfaceType, ·)
  | .structs types => types.map (.structType, ·)
  | .classes types => types.map (.classType, ·)
  | .delegates single multicast => single.map (.delegate, ·) ++ multicast.map (.multicastDelegate, ·)

def Call.isEnums : Call → Bool
  | .enums _ => true
  | _ => false

namespace Draft

def outOfRange (d : Draft) (index : Nat) : TransformError :=
  .failed s!"type index {index} out of range in {d.module.name}"

def refusesEnum (d : Draft) (index : Nat) : Bool := d.module.types[index]?.all (·.fields.isEmpty)

def enumFault (d : Draft) (index : Nat) : TransformError :=
  match d.module.types[index]? with
  | some t => .unsupported t.fullName "enumeration declares no members"
  | none => d.outOfRange index

variable (symbols : Option SymbolTable)

def pass (d : Draft) : List (Category × Nat) → Draft × Except TransformError Unit
  | [] => (d, .ok ())
  | (category, index) :: rest =>
    match d.module.types[index]? with
    | some t =>
      let registrations :=
        if d.module.registrations.any (·.typeName = t.fullName) then d.module.registrations
        else d.module.registrations ++ [⟨t.fullName, category.name⟩]
      pass ⟨{ d.module with registrations := registrations }, d.metadata.push (t.describe category symbols)⟩ rest
    | none => (d, .error (d.outOfRange index))

variable {symbols} (d : Draft)

theorem register_type_eq (category : Category) (t : TypeDecl) :
    d.registerType category symbols t =
      ⟨{ d.module with
          registrations :=
            if d.module.isRegistered t.fullName then d.module.registrations
            else d.module.registrations ++ [⟨t.fullName, category.name⟩] },
        d.metadata.push (t.describe category symbols)⟩ := by
  rw [registerType]
  split <;> rfl

theorem pass_cons (category : Category) (index : Nat) (rest : List (Category × Nat)) :
    d.pass symbols ((category, index) :: rest) =
      match d.module.types[index]? with
      | some t => (d.registerType category symbols t).pass symbols rest
      | none => (d, .error (d.outOfRange index)) := by
  simp only [register_type_eq]
  rfl

theorem pass_append (front back : List (Category × Nat)) :
    d.pass symbols (front ++ back) =
      match d.pass symbols front with
      | (after, .ok ()) => after.pass symbols back
      | failed => failed := by
  induction front generalizing d with
  | nil => rfl
  | cons entry rest ih =>
      obtain ⟨category, index⟩ := entry
      rw [List.cons_append, pass_cons, pass_cons]
      cases d.module.types[index]? with
      | some t => exact ih _
      | none => rfl

theorem register_eq_pass (category : Category) (indices : List Nat) :
    d.register category symbols indices = d.pass symbols (indices.map (category, ·)) := by
  induction indices generalizing d with
  | nil => rfl
  | cons index rest ih =>
      rw [register, List.map_cons, pass_cons, typeAt]
      cases d.module.types[index]? with
      | some t => exact ih _
      | none => rfl

theorem check_members_find (indices : List Nat) :
    d.checkMembers indices =
      match indices.find? d.refusesEnum with
      | some index => .error (d.enumFault index)
      | none => .ok () := by
  induction indices with
  | nil => rfl
  | cons index rest ih =>
      rw [checkMembers, typeAt, List.find?_cons, refusesEnum]
      cases there : d.module.types[index]? with
      | none => simp [enumFault, outOfRange, there]
      | some t =>
          by_cases bare : t.fields.isEmpty = true
          · simp [enumFault, there, bare]
          · simp [bare, ih]

theorem register_call_eq_pass (call : Call) (plain : call.isEnums = false) :
    d.registerCall symbols call = d.pass symbols call.entries := by
  cases call with
  | enums types => cases plain
  | interfaces types | structs types | classes types => exact d.register_eq_pass _ types
  | delegates single multicast =>
      rw [registerCall, Call.entries, pass_append, register_eq_pass]
      generalize d.pass symbols (single.map (.delegate, ·)) = outcome
      obtain ⟨after, result⟩ := outcome
      cases result with
      | ok _ => exact after.register_eq_pass _ multicast
      | error e => rfl

theorem register_enums_eq_pass (types : List Nat) (sound : types.find? d.refusesEnum = none) :
    d.registerCall symbols (.enums types) = d.pass symbols (types.map (.enumType, ·)) := by
  rw [registerCall, check_members_find, sound]
  exact d.register_eq_pass _ types

def met (d : Draft) (entries : List (Category × Nat)) : List (Category × TypeDecl) :=
  (entries.takeWhile fun entry => entry.2 < d.module.types.length).filterMap fun entry =>
    d.module.types[entry.2]?.map (entry.1, ·)

theorem mem_types_of_met {d : Draft} {entries : List (Category × Nat)} {entry : Category × TypeDecl}
    (member : entry ∈ d.met entries) : entry.2 ∈ d.module.types := by
  obtain ⟨_, _, found⟩ := List.mem_filterMap.mp member
  obtain ⟨t, there, rfl⟩ := Option.map_eq_some_iff.mp found
  exact List.mem_of_getElem? there

@[simp] theorem name_register_type (category : Category) (t : TypeDecl) :
    (d.registerType category symbols t).module.name = d.module.name := by
  rw [register_type_eq]
  rfl

theorem pass_eq (entries : List (Category × Nat)) :
    d.pass symbols entries =
      (d.registerAll symbols (d.met entries),
        match entries.find? fun entry => d.module.types.length ≤ entry.2 with
        | some (_, index) => .error (d.outOfRange index)
        | none => .ok ()) := by
  induction entries generalizing d with
  | nil => rfl
  | cons entry rest ih =>
      obtain ⟨category, index⟩ := entry
      rw [pass_cons, met, List.takeWhile_cons, List.find?_cons]
      by_cases inside : index < d.module.types.length
      · simp [ih, inside, met, outOfRange, registerAll, Nat.not_le.mpr inside]
      · simp [inside, registerAll, Nat.le_of_not_lt inside]

theorem pass_of_leads {entries : List (Category × Nat)} {types : List (Category × TypeDecl)}
    (there : entries.map (fun entry => d.module.types[entry.2]?.map (entry.1, ·)) = types.map some) :
    d.pass symbols entries = (d.registerAll symbols types, .ok ()) := by
  induction entries generalizing d types with
  | nil =>
      cases types with
      | nil => rfl
      | cons t rest => cases there
  | cons entry later ih =>
      cases types with
      | nil => cases there
      | cons first rest =>
          obtain ⟨category, index⟩ := entry
          obtain ⟨here, others⟩ := List.cons.inj there
          obtain ⟨t, found, rfl⟩ := Option.map_eq_some_iff.mp here
          rw [pass_cons, found]
          exact ih _ (by rwa [types_register_type])

end Draft

theorem SymbolTable.lookup_eq_some_iff (table : SymbolTable) (name : String) (entry : SymbolEntry) :
    table.lookup name = some entry ↔
      entry.typeName = name ∧ ∃ k : Nat, table.entries[k]? = some entry ∧
        ∀ j < k, ∀ other, table.entries[j]? = some other → other.typeName ≠ name := by
  rw [lookup, List.find?_eq_some_iff_getElem, decide_eq_true_iff]
  refine and_congr_right fun _ => exists_congr fun k => ?_
  constructor
  · intro found
    obtain ⟨inside, rfl, before⟩ := found
    refine ⟨List.getElem?_eq_getElem inside, fun j less other here => ?_⟩
    obtain ⟨_, rfl⟩ := List.getElem?_eq_some_iff.mp here
    simpa using before j less
  · intro found
    obtain ⟨here, before⟩ := found
    obtain ⟨inside, same⟩ := List.getElem?_eq_some_iff.mp here
    refine ⟨inside, same, fun j less => ?_⟩
    simpa using before j less _ (List.getElem?_eq_getElem (Nat.lt_trans less inside))

theorem TypeDecl.source_describe_iff (t : TypeDecl) (category : Category) (symbols : Option SymbolTable)
    (source : SourceLocation) :
    (t.describe category symbols).source = some source ↔
      ∃ table entry, symbols = some table ∧ source = ⟨entry.document, entry.line⟩ ∧ entry.typeName = t.fullName ∧
        ∃ k : Nat, table.entries[k]? = some entry ∧
          ∀ j < k, ∀ other, table.entries[j]? = some other → other.typeName ≠ t.fullName := by
  simp only [describe, Option.map_eq_some_iff, Option.bind_eq_some_iff]
  constructor
  · intro located
    obtain ⟨entry, ⟨table, given, found⟩, rfl⟩ := located
    exact ⟨table, entry, given, rfl, (table.lookup_eq_some_iff t.fullName entry).mp found⟩
  · intro located
    obtain ⟨table, entry, given, rfl, found⟩ := located
    exact ⟨entry, ⟨table, given, (table.lookup_eq_some_iff t.fullName entry).mpr found⟩, rfl⟩

section Dispatch

variable (around : Surroundings) (d : Draft)

def Woven.ofPass (outcome : Draft × Except TransformError Unit) : Woven Unit := ⟨(), outcome.1, outcome.2⟩

theorem weave_calls_error {after : Draft} (call : Call) (rest : List Call) {e : TransformError}
    (failed : d.registerCall around.symbols call = (after, .error e)) :
    registration.weaveCalls around () d (call :: rest) = ⟨(), after, .error e⟩ := by
  rw [Transformer.weaveCalls]
  simp only [registration, failed]

theorem weave_calls_cons_pass (call : Call) (rest : List Call) (entries : List (Category × Nat))
    (first : d.registerCall around.symbols call = d.pass around.symbols call.entries)
    (others : ∀ after : Draft, registration.weaveCalls around () after rest = .ofPass (after.pass around.symbols entries)) :
    registration.weaveCalls around () d (call :: rest) =
      .ofPass (d.pass around.symbols (call.entries ++ entries)) := by
  rw [Transformer.weaveCalls, Draft.pass_append]
  simp only [registration, first]
  generalize d.pass around.symbols call.entries = outcome
  obtain ⟨after, result⟩ := outcome
  cases result with
  | ok _ => exact others after
  | error e => rfl

theorem weave_calls_pass (calls : List Call) (plain : ∀ call ∈ calls, call.isEnums = false) :
    registration.weaveCalls around () d calls = .ofPass (d.pass around.symbols (calls.flatMap Call.entries)) := by
  induction calls generalizing d with
  | nil => rfl
  | cons call rest ih =>
      obtain ⟨first, others⟩ := List.forall_mem_cons.mp plain
      exact weave_calls_cons_pass around d call rest _ (d.register_call_eq_pass call first) fun after => ih after others

theorem entries_of_call (skip : Bool) (call : Call) (idle : skip = true → call.entries = []) :
    (if skip then [] else [call]).flatMap Call.entries = call.entries := by
  cases skip with
  | true => rw [if_pos rfl, List.flatMap_nil, idle rfl]
  | false => rw [if_neg Bool.false_ne_true, List.flatMap_singleton]

namespace Categorized

def laterCalls (c : Categorized) : List Call := { c with enums := [] }.calls

theorem calls_eq (c : Categorized) :
    c.calls = (if c.enums.isEmpty then [] else [.enums c.enums]) ++ c.laterCalls := by
  simp [calls, laterCalls]

theorem later_calls_plain (c : Categorized) : ∀ call ∈ c.laterCalls, call.isEnums = false := by
  intro call member
  simp only [laterCalls, calls, List.isEmpty_nil, if_true, List.nil_append, List.mem_append, List.mem_ite_nil_left,
    List.mem_singleton] at member
  rcases member with ((⟨_, rfl⟩ | ⟨_, rfl⟩) | ⟨_, rfl⟩) | ⟨_, rfl⟩ <;> rfl

theorem entries_eq (c : Categorized) :
    c.entries = c.enums.map (.enumType, ·) ++ c.laterCalls.flatMap Call.entries := by
  have interfaces := entries_of_call c.interfaces.isEmpty (.interfaces c.interfaces)
    fun empty => by rw [List.isEmpty_iff.mp empty]; rfl
  have structs := entries_of_call c.structs.isEmpty (.structs c.structs)
    fun empty => by rw [List.isEmpty_iff.mp empty]; rfl
  have classes := entries_of_call c.classes.isEmpty (.classes c.classes)
    fun empty => by rw [List.isEmpty_iff.mp empty]; rfl
  have delegates := entries_of_call (c.delegates.isEmpty && c.multicastDelegates.isEmpty)
    (.delegates c.delegates c.multicastDelegates) fun empty => by
      obtain ⟨single, multicast⟩ := Bool.and_eq_true_iff.mp empty
      rw [List.isEmpty_iff.mp single, List.isEmpty_iff.mp multicast]; rfl
  simp only [laterCalls, calls, List.flatMap_append, interfaces, structs, classes, delegates]
  simp [entries, Module.weavingOrder, get, Call.entries]

end Categorized

theorem dispatch_eq_pass (types : Categorized) :
    registration.dispatch around types () d =
      match types.enums.find? d.refusesEnum with
      | some index => ⟨(), d, .error (d.enumFault index)⟩
      | none => .ofPass (d.pass around.symbols types.entries) := by
  have later := fun after : Draft => weave_calls_pass around after types.laterCalls types.later_calls_plain
  rw [Transformer.dispatch, types.calls_eq, types.entries_eq]
  cases found : types.enums.find? d.refusesEnum with
  | some index =>
      -- Something is refused, so there is a call for the enumerations, and it is the first.
      have present : ¬ types.enums.isEmpty = true := by
        intro empty
        rw [List.isEmpty_iff.mp empty] at found
        cases found
      rw [if_neg present, List.singleton_append]
      apply weave_calls_error
      rw [Draft.registerCall, Draft.check_members_find, found]
  | none =>
      by_cases empty : types.enums.isEmpty = true
      · rw [if_pos empty, List.isEmpty_iff.mp empty]
        exact later d
      · rw [if_neg empty, List.singleton_append]
        exact weave_calls_cons_pass around d _ _ _ (d.register_enums_eq_pass types.enums found) later

/-- Nothing is asked of the lists: indices may be out of range, repeated, or shared by categories. -/
theorem dispatch_in_one_pass (types : Categorized) :
    let met := d.met types.entries
    let full (space name : String) : String := if space = "" then name else space ++ "." ++ name
    let records : List TypeRecord := met.map fun entry =>
      { name := entry.2.name
        space := entry.2.space
        fullName := full entry.2.space entry.2.name
        category := entry.1
        baseType := entry.2.base.map fun base => full base.space base.name
        fields := entry.2.fields
        source :=
          (around.symbols.bind fun table =>
            table.entries.find? fun symbol => symbol.typeName = full entry.2.space entry.2.name).map
              fun symbol => ⟨symbol.document, symbol.line⟩ }
    (registration.dispatch around types () d =
      match types.enums.find? d.refusesEnum with
      | some index => ⟨(), d, .error (d.enumFault index)⟩
      | none => .ofPass (d.pass around.symbols types.entries)) ∧
    d.pass around.symbols types.entries =
      ({ module :=
          { d.module with
            registrations := d.module.registrations ++
              (d.module.newcomers met).map fun entry => ⟨full entry.2.space entry.2.name, entry.1.name⟩ }
         metadata :=
          { d.metadata with
            classes := d.metadata.classes ++ records.filter (·.category = .classType)
            structs := d.metadata.structs ++ records.filter (·.category = .structType)
            enums := d.metadata.enums ++ records.filter (·.category = .enumType)
            interfaces := d.metadata.interfaces ++ records.filter (·.category = .interfaceType)
            delegates := d.metadata.delegates ++
              records.filter fun r => r.category = .delegate ∨ r.category = .multicastDelegate } },
        match types.entries.find? fun entry => d.module.types.length ≤ entry.2 with
        | some (_, index) => .error (d.outOfRange index)
        | none => .ok ()) ∧
    ∀ (t : TypeDecl) (category : Category) (source : SourceLocation),
      (t.describe category around.symbols).source = some source ↔
        ∃ table entry, around.symbols = some table ∧ source = ⟨entry.document, entry.line⟩ ∧
          entry.typeName = t.fullName ∧ ∃ k : Nat, table.entries[k]? = some entry ∧
            ∀ j < k, ∀ other, table.entries[j]? = some other → other.typeName ≠ t.fullName := by
  intro met full records
  refine ⟨dispatch_eq_pass around d types, ?_, fun t category => t.source_describe_iff category around.symbols⟩
  have described : records = met.map fun entry => entry.2.describe entry.1 around.symbols := rfl
  have registered : (d.registerAll around.symbols met).module =
      { d.module with
        registrations := d.module.registrations ++
          (d.module.newcomers met).map fun entry => ⟨full entry.2.space entry.2.name, entry.1.name⟩ } :=
    d.module_register_all around.symbols met
  have metadata := d.metadata_register_all around.symbols met
  rw [ApiMetadata.foldl_push, ← described] at metadata
  rw [Draft.pass_eq, ← registered, ← metadata]

-- What precedes the bad index is kept, with the class described twice; the delegates are not reached.
example :
    let foe : TypeDecl := ⟨"Game", "Foe", .classType, none, [], []⟩
    let kind : TypeDecl := ⟨"Game", "Kind", .enumType, none, [], [⟨"First", "Game.Kind"⟩]⟩
    let game : Module := ⟨Module.magicNumber, 1, 0, ⟨"Game", "1"⟩, [], [foe, kind], [], none⟩
    let blank : ApiMetadata := { assemblyName := "Game", references := [] }
    registration.dispatch ⟨{}, none⟩ { enums := [1], classes := [0, 0, 7], delegates := [1] } () ⟨game, blank⟩ =
      ⟨(),
        { module := { game with registrations := [⟨"Game.Kind", "enum"⟩, ⟨"Game.Foe", "class"⟩] }
          metadata :=
            { blank with
              enums := [kind.describe .enumType none]
              classes := [foe.describe .classType none, foe.describe .classType none] } },
        .error (.failed "type index 7 out of range in Game")⟩ := rfl

end Dispatch

end Loom
