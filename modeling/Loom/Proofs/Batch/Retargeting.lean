import Loom.Proofs.Batch.GlueOrder
import Loom.Proofs.Batch.Replanning

set_option autoImplicit false

/-! Targets in another order: the same modules are planned and woven, in another order, and registration makes the
same of each of them. -/
namespace Loom

open Loom.Task

variable {fs : FileSystem}

namespace Batch

structure Plan.Alike (planned other : Plan) : Prop where
  search : other.search = planned.search
  modules : (other.modules.map LoadedModule.bare).Perm (planned.modules.map LoadedModule.bare)
  processed : (other.processed.map LoadedModule.bare).Perm (planned.processed.map LoadedModule.bare)

theorem looks_plan_permuted {references targets permuted : List String} {readSymbols : Bool} {planned : Plan}
    (made : ((plan references targets readSymbols).run fs).result = .ok planned) (perm : permuted.Perm targets) :
    (plan references permuted readSymbols).Looks fs planned.Alike fun _ => False := by
  have looked := ((looks_plan references targets readSymbols).done planned made).2
  have source := ((looks_plan_from references targets readSymbols).done planned made).2
  have searching : (SearchPath.ofReferences references).Looks fs (· = planned.search) fun _ => False :=
    looks_of_result source.search (looks_files (SearchPath.looks_add_all {} references))
  -- The modules in the order of the permuted targets.
  obtain ⟨modules, origins, reordered⟩ : ∃ modules : List LoadedModule,
      permuted.map (fun target => Path.ofString (Text.unquote target)) = modules.map (·.origin) ∧
        modules.Perm planned.modules := by
    have paths := perm.map fun target => Path.ofString (Text.unquote target)
    rw [← looked.origins] at paths
    exact (congrFun₂ (List.eq_map_comp_perm LoadedModule.origin) _ planned.modules).mpr paths
  have loads : ∀ loaded ∈ modules, loaded.Loads fs readSymbols :=
    fun loaded member => source.loads loaded (reordered.mem_iff.mp member)
  have stems := (reordered.map LoadedModule.stem).nodup_iff.mpr looked.stems
  have planning := looks_plan_of_loads searching origins.symm loads stems
  refine ensures_mono (ensures_and planning (looks_plan references permuted readSymbols)) ?_ fun _ _ facts => facts.1
  intro other after facts
  obtain ⟨⟨files, same⟩, _, lookedOther⟩ := facts
  obtain ⟨search, listed, _⟩ := Plan.mk.inj same
  have bare : (other.modules.map LoadedModule.bare).Perm (planned.modules.map LoadedModule.bare) := by
    rw [listed]
    exact reordered.map _
  have processed := ((processed_perm lookedOther).map LoadedModule.bare).trans bare
  exact ⟨files, search, bare, processed.trans ((processed_perm looked).map LoadedModule.bare).symm⟩

section Alike

variable {planned other : Plan} (alike : planned.Alike other) (settings : Settings)
include alike

theorem Plan.Alike.stems_woven :
    ((other.toWeave settings).map LoadedModule.stem).Perm ((planned.toWeave settings).map LoadedModule.stem) := by
  have filtered := (alike.processed.filter fun loaded => !settings.isGlue loaded.module.name).map LoadedModule.stem
  simp only [List.filter_map] at filtered
  rwa [stems_bare, stems_bare] at filtered

theorem Plan.Alike.stems_skipped :
    ((other.toSkip settings).map LoadedModule.stem).Perm ((planned.toSkip settings).map LoadedModule.stem) := by
  have filtered := (alike.processed.filter fun loaded => settings.isGlue loaded.module.name).map LoadedModule.stem
  simp only [List.filter_map] at filtered
  rwa [stems_bare, stems_bare] at filtered

end Alike

def registered (settings : Settings) (search : SearchPath) (loaded : LoadedModule) : Product Unit :=
  ⟨loaded, weaveModule registration settings.reflection search loaded ()⟩

theorem products_registered (settings : Settings) (search : SearchPath) (modules : List LoadedModule) :
    products registration settings search () modules =
      (modules.filter fun loaded => !settings.isGlue loaded.module.name).map (registered settings search) := by
  induction modules with
  | nil => rfl
  | cons loaded rest ih =>
      by_cases glue : settings.isGlue loaded.module.name = true
      · simp [products, glue, ih]
      · simp [products, glue, ih, registered]

def Product.bare {σ : Type} (p : Product σ) : Product σ := { p with source := p.source.bare }

def Plan.registered (settings : Settings) (planned : Plan) : List (Product Unit) :=
  products registration settings planned.search () planned.processed

theorem Plan.Alike.registered {planned other : Plan} (alike : planned.Alike other) (settings : Settings) :
    ((other.registered settings).map Product.bare).Perm ((planned.registered settings).map Product.bare) := by
  have bare : ∀ p : Plan, (p.registered settings).map Product.bare =
      ((p.processed.map LoadedModule.bare).filter fun loaded => !settings.isGlue loaded.module.name).map
        (Batch.registered settings p.search) := by
    intro p
    rw [Plan.registered, products_registered, List.filter_map, List.map_map, List.map_map]
    rfl
  rw [bare, bare, alike.search]
  exact (alike.processed.filter _).map _

theorem flatMap_perm_of_bare {σ α : Type} {made others : List (Product σ)}
    (alike : (others.map Product.bare).Perm (made.map Product.bare)) {f : Product σ → List α}
    (same : ∀ p : Product σ, f p.bare = f p) : (others.flatMap f).Perm (made.flatMap f) := by
  have bare : ∀ made : List (Product σ), made.flatMap f = (made.map Product.bare).flatMap f := by
    intro made
    rw [List.flatMap_map]
    exact List.flatMap_congr fun p _ => (same p).symm
  rw [bare, bare made]
  exact alike.flatMap_right f

end Batch

end Loom
