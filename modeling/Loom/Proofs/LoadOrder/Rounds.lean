import Loom.Proofs.LoadOrder.Frontier

set_option autoImplicit false

namespace Loom.LoadOrder

def Scan.round (s : Scan) : Scan :=
  let found := scan s.placed s.left
  if found.left.length < s.left.length then { found with order := s.order ++ found.order }
  else { s with order := s.order ++ s.left.map (·.index), left := [] }

inductive Runs : Scan → Nat → Scan → Prop
  | stop (s : Scan) (nothing : s.left = []) : Runs s 0 s
  | round (s final : Scan) (rounds : Nat) (something : s.left ≠ []) (rest : Runs s.round rounds final) :
      Runs s (rounds + 1) final

theorem round_shorter {s : Scan} (something : s.left ≠ []) : s.round.left.length < s.left.length := by
  dsimp only [Scan.round]
  split
  · rename_i shorter
    exact shorter
  · exact List.length_pos_iff.mpr something

theorem runs_to_end (s : Scan) : ∃ rounds final, Runs s rounds final ∧ rounds ≤ s.left.length := by
  -- A round that places nothing leaves none, so each leaves less.
  induction measured : s.left.length using Nat.strong_induction_on generalizing s with
  | _ length ih =>
      by_cases nothing : s.left = []
      · exact ⟨0, s, .stop s nothing, Nat.zero_le _⟩
      · have shorter := round_shorter nothing
        obtain ⟨rounds, final, rest, bound⟩ := ih _ (measured ▸ shorter) s.round rfl
        exact ⟨rounds + 1, final, .round s final rounds nothing rest, by omega⟩

theorem settle_round (s : Scan) :
    s.round.order ++ (settle s.round.placed s.round.left).order = s.order ++ (settle s.placed s.left).order := by
  rw [settle_order s.placed]
  dsimp only [Scan.round]
  split
  · rw [List.append_assoc]
  · rw [settle_order]
    exact List.append_nil _

theorem runs_settle {s final : Scan} {rounds : Nat} (runs : Runs s rounds final) :
    final.order = s.order ++ (settle s.placed s.left).order ∧ final.left = [] := by
  induction runs with
  | stop s nothing =>
      refine ⟨?_, nothing⟩
      rw [nothing, settle_order]
      exact (List.append_nil _).symm
  | round s final rounds _ _ ih => exact ⟨ih.1.trans (settle_round s), ih.2⟩

theorem loop_ends_in_permutation (nodes : List OrderNode) :
    ∃ rounds final, Runs (start nodes) rounds final ∧ rounds ≤ nodes.length ∧ final.left = [] ∧
      final.order = (ofNodes nodes).order ∧ (ofNodes nodes).order.Perm (List.range nodes.length) := by
  obtain ⟨rounds, final, runs, bound⟩ := runs_to_end (start nodes)
  obtain ⟨order, nothing⟩ := runs_settle runs
  refine ⟨rounds, final, runs, bound.trans ?_, nothing, order, order_perm nodes⟩
  have complete := (frontier_start nodes).complete.length_eq
  simp only [List.length_append, List.length_map, List.length_range] at complete
  omega

end Loom.LoadOrder
