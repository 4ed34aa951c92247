import Mathlib.Data.List.Chain
import Loom.Transformer

set_option autoImplicit false

namespace Loom

def Call.types : Call → List Nat
  | .enums types => types
  | .interfaces types => types
  | .structs types => types
  | .classes types => types
  | .delegates single multicast => single ++ multicast

def Categorized.steps (c : Categorized) : List Call :=
  [.enums c.enums, .interfaces c.interfaces, .structs c.structs, .classes c.classes,
    .delegates c.delegates c.multicastDelegates].filter fun call => !call.types.isEmpty

theorem filter_steps_cons (call : Call) (rest : List Call) :
    (call :: rest).filter (fun call => !call.types.isEmpty) =
      (if call.types.isEmpty then [] else [call]) ++ rest.filter fun call => !call.types.isEmpty := by
  cases empty : call.types.isEmpty with
  | true => simp [empty]
  | false => simp [empty]

theorem Categorized.calls_eq_steps (c : Categorized) : c.calls = c.steps := by
  have either : (c.delegates ++ c.multicastDelegates).isEmpty = (c.delegates.isEmpty && c.multicastDelegates.isEmpty) := by
    cases c.delegates <;> rfl
  rw [calls, steps]
  simp only [filter_steps_cons, List.filter_nil, List.append_nil, List.append_assoc]
  rw [← either]
  rfl

variable {σ τ : Type}

def Woven.map (f : τ → σ) (woven : Woven τ) : Woven σ := ⟨f woven.state, woven.draft, woven.result⟩

namespace Transformer

def Follows (f : τ → σ) (t' : Transformer τ) (t : Transformer σ) : Prop :=
  ∀ around call state d, (t'.weave around call state d).map f = t.weave around call (f state) d

theorem weave_calls_follows {f : τ → σ} {t' : Transformer τ} {t : Transformer σ} (follows : Follows f t' t)
    (around : Surroundings) (state : τ) (d : Draft) (calls : List Call) :
    (t'.weaveCalls around state d calls).map f = t.weaveCalls around (f state) d calls := by
  induction calls generalizing state d with
  | nil => rfl
  | cons call rest ih =>
      rw [weaveCalls, weaveCalls, ← follows around call state d]
      cases result : (t'.weave around call state d).result with
      | ok _ => simpa only [Woven.map, result] using ih _ _
      | error e => simp only [Woven.map, result]

structure Asked (σ : Type) where
  around : Surroundings
  call : Call
  state : σ
  draft : Draft

variable (t : Transformer σ)

def answer (asked : Asked σ) : Woven σ := t.weave asked.around asked.call asked.state asked.draft

def left (state : σ) (d : Draft) (asked : List (Asked σ)) : Woven σ :=
  match asked.getLast? with
  | some last => t.answer last
  | none => ⟨state, d, .ok ()⟩

def recorded : Transformer (σ × List (Asked σ)) where
  weave around call state d :=
    let woven := t.weave around call state.1 d
    ⟨(woven.state, state.2 ++ [⟨around, call, state.1, d⟩]), woven.draft, woven.result⟩

theorem weave_recorded (around : Surroundings) (call : Call) (state : σ) (log : List (Asked σ)) (d : Draft) :
    t.recorded.weave around call (state, log) d =
      ⟨((t.weave around call state d).state, log ++ [⟨around, call, state, d⟩]), (t.weave around call state d).draft,
        (t.weave around call state d).result⟩ := rfl

theorem recorded_follows : Follows Prod.fst t.recorded t := fun _ _ _ _ => rfl

structure Leads (first second : Asked σ) : Prop where
  done : (t.answer first).result = .ok ()
  state : second.state = (t.answer first).state
  draft : second.draft = (t.answer first).draft

structure Session (around : Surroundings) (steps : List Call) (state : σ) (d : Draft) (asked : List (Asked σ)) :
    Prop where
  around : ∀ a ∈ asked, a.around = around
  calls : asked.map Asked.call <+: steps
  first : ∀ a ∈ asked.head?, a.state = state ∧ a.draft = d
  next : asked.IsChain t.Leads
  complete : (t.left state d asked).result = .ok () → asked.map Asked.call = steps

variable {t}

theorem left_cons (state : σ) (d : Draft) {a : Asked σ} (done : (t.answer a).result = .ok ()) (asked : List (Asked σ)) :
    t.left state d (a :: asked) = t.left (t.answer a).state (t.answer a).draft asked := by
  cases asked with
  | nil =>
      change t.answer a = ⟨(t.answer a).state, (t.answer a).draft, .ok ()⟩
      rw [← done]
  | cons b rest =>
      have last : (b :: rest).getLast? = some (rest.getLast?.getD b) := List.getLast?_cons
      simp only [left, List.getLast?_cons_cons, last]

variable {around : Surroundings} {steps : List Call} {state : σ} {d : Draft}

theorem session_refused {call : Call} {e : TransformError} (failed : (t.weave around call state d).result = .error e) :
    t.Session around (call :: steps) state d [⟨around, call, state, d⟩] where
  around := List.forall_mem_singleton.mpr rfl
  calls := List.prefix_append [call] steps
  first a member := by
    cases member
    exact ⟨rfl, rfl⟩
  next := List.isChain_singleton _
  complete done := by
    rw [show (t.weave around call state d).result = .ok () from done] at failed
    cases failed

theorem session_cons {call : Call} {asked : List (Asked σ)} (done : (t.weave around call state d).result = .ok ())
    (later : t.Session around steps (t.weave around call state d).state (t.weave around call state d).draft asked) :
    t.Session around (call :: steps) state d (⟨around, call, state, d⟩ :: asked) where
  around := List.forall_mem_cons.mpr ⟨rfl, later.around⟩
  calls := (List.prefix_cons_inj call).mpr later.calls
  first a member := by
    cases member
    exact ⟨rfl, rfl⟩
  next := List.isChain_cons.mpr ⟨fun b member => ⟨done, (later.first b member).1, (later.first b member).2⟩, later.next⟩
  complete ended := by
    rw [left_cons (a := ⟨around, call, state, d⟩) state d done] at ended
    exact congrArg (call :: ·) (later.complete ended)

theorem weave_calls_recorded (around : Surroundings) (state : σ) (d : Draft) (log : List (Asked σ)) (calls : List Call) :
    ∃ asked, t.Session around calls state d asked ∧ t.weaveCalls around state d calls = t.left state d asked ∧
      (t.recorded.weaveCalls around (state, log) d calls).state = ((t.left state d asked).state, log ++ asked) := by
  -- A failure ends the session at once.
  induction calls generalizing state d log with
  | nil =>
      refine ⟨[], ⟨List.forall_mem_nil _, List.prefix_rfl, nofun, .nil, fun _ => rfl⟩, rfl, ?_⟩
      rw [List.append_nil]
      rfl
  | cons call rest ih =>
      let first : Asked σ := ⟨around, call, state, d⟩
      cases result : (t.weave around call state d).result with
      | ok _ =>
          obtain ⟨asked, session, woven, logged⟩ :=
            ih (t.weave around call state d).state (t.weave around call state d).draft (log ++ [first])
          refine ⟨first :: asked, session_cons result session, ?_, ?_⟩
          · simp only [weaveCalls, result, woven, left_cons (a := first) state d result]
            rfl
          · simp only [weaveCalls, weave_recorded, result, left_cons (a := first) state d result]
            rw [logged, List.append_assoc]
            rfl
      | error e =>
          refine ⟨[first], session_refused result, ?_, ?_⟩
          · simp only [weaveCalls, result]
            rfl
          · simp only [weaveCalls, weave_recorded, result]
            rfl

theorem answered_of_leads {asked : List (Asked σ)} (next : asked.IsChain t.Leads) :
    ∀ a ∈ asked.dropLast, (t.answer a).result = .ok () := by
  induction asked with
  | nil => exact List.forall_mem_nil _
  | cons first rest ih =>
      cases rest with
      | nil => exact List.forall_mem_nil _
      | cons second rest =>
          obtain ⟨leads, later⟩ := List.isChain_cons_cons.mp next
          rw [List.dropLast_cons_cons]
          exact List.forall_mem_cons.mpr ⟨leads.done, ih later⟩

theorem Session.answered {asked : List (Asked σ)} (session : t.Session around steps state d asked)
    (done : (t.left state d asked).result = .ok ()) : ∀ a ∈ asked, (t.answer a).result = .ok () := by
  intro a member
  cases ends : asked.getLast? with
  | none =>
      rw [List.getLast?_eq_none_iff.mp ends] at member
      cases member
  | some last =>
      rw [left, ends] at done
      rw [← List.dropLast_append_getLast? last ends] at member
      rcases List.mem_append.mp member with earlier | same
      · exact answered_of_leads session.next a earlier
      · rw [List.mem_singleton.mp same]
        exact done

end Transformer

end Loom
