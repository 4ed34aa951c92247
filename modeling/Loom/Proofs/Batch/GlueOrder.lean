import Loom.Proofs.Batch.Accounts

set_option autoImplicit false

namespace Loom

namespace LoadOrder

variable {nodes : List OrderNode}

theorem settled_reaches (distinct : (nodes.map (·.identity)).Nodup) {order : List Nat} (settled : Settled nodes order) :
    ∀ i ∈ order, ∀ j, Relation.TransGen (DependsOn nodes) i j → [j, i].Sublist order := by
  -- What the last node depends on is in front of it, and so is all that leads on from there.
  induction settled with
  | nil => exact List.forall_mem_nil _
  | snoc order last _ _ supplied ih =>
      have front : ∀ k ∈ order, ∀ j, Relation.ReflTransGen (DependsOn nodes) k j → j ∈ order := by
        intro k member j path
        cases Relation.reflTransGen_iff_eq_or_transGen.mp path with
        | inl same => exact same ▸ member
        | inr path => exact (ih k member j path).subset List.mem_cons_self
      intro i member j path
      rcases List.mem_append.mp member with earlier | own
      · exact (ih i earlier j path).trans (List.sublist_append_left order _)
      · rw [List.mem_singleton.mp own] at path ⊢
        obtain ⟨k, ⟨identity, needs, named⟩, path⟩ := Relation.TransGen.head'_iff.mp path
        obtain ⟨supplier, placed, namedToo⟩ := supplied identity needs
        rw [← named_unique distinct named namedToo] at placed
        exact (List.singleton_sublist.mpr (front k placed j path)).append (List.Sublist.refl [last])

theorem reaches_precedes (distinct : (nodes.map (·.identity)).Nodup) {i j : Nat}
    (path : Relation.TransGen (DependsOn nodes) i j)
    (noCycle : ∀ k, Relation.ReflTransGen (DependsOn nodes) i k → ¬ Relation.TransGen (DependsOn nodes) k k) :
    [j, i].Sublist (ofNodes nodes).order := by
  obtain ⟨order, placed, left, result, frontier, stuck⟩ := frontier_of_nodes nodes
  obtain ⟨_, ⟨_, ⟨node, found, _⟩, _⟩, _⟩ := Relation.TransGen.head'_iff.mp path
  have inside : i < nodes.length := (List.getElem?_eq_some_iff.mp found).1
  have member : i ∈ order :=
    (settled_iff_resolvable frontier stuck i).mpr (resolvable_of_no_cycle i inside noCycle)
  rw [result]
  exact (settled_reaches distinct frontier.settled i member j path).trans (List.sublist_append_left order _)

end LoadOrder

namespace Batch

variable {σ : Type}

namespace Plan

variable {planned : Plan}

def LeadsTo (planned : Plan) : Nat → Nat → Prop := Relation.TransGen planned.RefersTo

def ReachesCycle (planned : Plan) (i : Nat) : Prop :=
  ∃ k, Relation.ReflTransGen planned.RefersTo i k ∧ planned.LeadsTo k k

theorem leads_to_precedes (order : planned.order = (LoadOrder.ofNodes planned.nodes).order)
    (distinct : (planned.modules.map (·.module.identity.fullName)).Nodup) {i j : Nat} (leads : planned.LeadsTo i j)
    (straight : ¬ planned.ReachesCycle i) : [j, i].Sublist planned.order := by
  rw [order]
  have same : planned.nodes.map (·.identity) = planned.modules.map (·.module.identity.fullName) := by
    rw [nodes, List.map_map]
    rfl
  rw [LeadsTo, refers_to_eq] at leads
  apply LoadOrder.reaches_precedes (same ▸ distinct) leads
  intro k path cycle
  rw [← refers_to_eq] at path cycle
  exact straight ⟨k, path, cycle⟩

theorem to_weave_precedes {settings : Settings} {i j : Nat} {a b : LoadedModule} (before : [j, i].Sublist planned.order)
    (atI : planned.modules[i]? = some a) (atJ : planned.modules[j]? = some b)
    (wovenA : settings.isGlue a.module.name = false) (wovenB : settings.isGlue b.module.name = false) :
    [b, a].Sublist (planned.toWeave settings) := by
  have processed : [b, a].Sublist planned.processed := by
    have found : [j, i].filterMap (planned.modules[·]?) = [b, a] := by
      simp only [List.filterMap_cons, List.filterMap_nil, atI, atJ]
    rw [← found]
    exact before.filterMap _
  have kept : [b, a].filter (fun loaded => !settings.isGlue loaded.module.name) = [b, a] := by
    simp [wovenA, wovenB]
  rw [← kept]
  exact processed.filter _

end Plan

structure Listed (settings : Settings) (request : Request) (planned : Plan) (report : Report) (fs after : FileSystem) :
    Prop where
  planning : ((plan request.references request.targets settings.readSymbols).run fs).result = .ok planned
  loadOrder : report.loadOrder = (planned.toWeave settings).map LoadedModule.stem
  skipped : report.skipped = (planned.toSkip settings).map LoadedModule.stem
  once : report.loadOrder.Nodup
  manifest : ∃ bytes text, after.read report.manifest = .ok bytes ∧ Bytes.toText? bytes = some text ∧
    Manifest.ofText? text = some ⟨report.loadOrder⟩

theorem listed_of_done {ε : Type} {t : Transformer σ} {settings : Settings} {request : Request} {state : σ}
    {fs : FileSystem} (tree : fs.IsTree) {report : Report} {last : σ}
    (done : ((run t settings request state : Task ε _).run fs).result = .ok (.ok report, last)) :
    ∃ planned, Listed settings request planned report fs ((run t settings request state : Task ε _).run fs).files := by
  obtain ⟨progress, woven, comes, committed⟩ := woven_all_of_done done
  obtain ⟨planned, area, ready, wove, files⟩ := woven_all_eq_some comes
  obtain ⟨_, planning, looked⟩ := (prepare_answers settings request).done _ ready
  dsimp only at planning looked
  have prepared := (Task.run_keeps_shape (prepare settings request) tree).2
  have named : ∀ loaded ∈ planned.processed, Path.IsName loaded.fileName.toList :=
    fun loaded member => file_name_proper tree (looked.read loaded (processed_mem member)).isFile
  have completed := (weave_all_completes t settings planned.search planned.processed _ prepared named).done _ wove rfl
  have skipped := (weave_all_skips t settings planned.search planned.processed _).done _ wove rfl
  have still := completed.wrote.staged.tree
  rw [files] at still
  obtain ⟨reported, manifest⟩ := (commit_accounts still settings request progress).done _ committed
  have loadOrder : report.loadOrder = (planned.toWeave settings).map LoadedModule.stem := by
    have sources := congrArg (List.map LoadedModule.stem)
      (sources_of_products t settings planned.search state planned.processed)
    rw [List.map_map] at sources
    rw [reported]
    exact completed.stems.trans sources
  refine ⟨planned, planning, loadOrder, ?_, ?_, ?_⟩
  · rw [reported]
    exact skipped
  · rw [loadOrder]
    have once := ((split_perm looked settings).map LoadedModule.stem).nodup_iff.mpr looked.stems
    rw [List.map_append] at once
    exact once.of_append_left
  · rw [(run_of_woven_all comes).2]
    exact ⟨_, _, manifest, Bytes.to_text_of_text _, Manifest.of_text_to_text _⟩

/-- The modules that lie between the two need not be woven. -/
theorem load_order_through_glue {ε : Type} (t : Transformer σ) (settings : Settings) (request : Request) (state : σ)
    (fs : FileSystem) (tree : fs.IsTree) {report : Report} {last : σ}
    (done : ((run t settings request state : Task ε _).run fs).result = .ok (.ok report, last)) :
    ∃ planned, Listed settings request planned report fs ((run t settings request state : Task ε _).run fs).files ∧
      ((planned.modules.map (·.module.identity.fullName)).Nodup →
        ∀ i j a b, planned.modules[i]? = some a → planned.modules[j]? = some b →
          settings.isGlue a.module.name = false → settings.isGlue b.module.name = false →
          planned.LeadsTo i j → ¬ planned.ReachesCycle i → [b.stem, a.stem].Sublist report.loadOrder) := by
  obtain ⟨planned, listed⟩ := listed_of_done tree done
  refine ⟨planned, listed, fun distinct i j a b atI atJ wovenA wovenB leads straight => ?_⟩
  have order := ((looks_plan_order request.references request.targets settings.readSymbols).done _ listed.planning).2
  have before := Plan.leads_to_precedes order distinct leads straight
  rw [listed.loadOrder]
  exact (Plan.to_weave_precedes before atI atJ wovenA wovenB).map LoadedModule.stem

theorem core_before_game_through_glue :
    let named (name : String) (references : List Identity) : Module :=
      ⟨Module.magicNumber, 1, 0, ⟨name, "1"⟩, references, [], [], none⟩
    let fs := ((((((⟨[], []⟩ : FileSystem).write "Game.wbc" (named "Game" [⟨"ProjectGlue", "1"⟩]).encode).2).write
      "ProjectGlue.wbc" (named "ProjectGlue" [⟨"Core", "1"⟩]).encode).2).write "Core.wbc" (named "Core" []).encode).2
    let idle : Transformer Unit := ⟨fun _ _ state draft => ⟨state, draft, .ok ()⟩⟩
    let request : Request := ⟨[], ["Game.wbc", "ProjectGlue.wbc", "Core.wbc"], "out"⟩
    ∃ planned report, ((plan [] request.targets true).run fs).result = .ok planned ∧
      ((run idle {} request () : Task Failure _).run fs).result = .ok (.ok report, ()) ∧
      planned.RefersTo 0 1 ∧ planned.RefersTo 1 2 ∧ ¬ planned.RefersTo 0 2 ∧
      ["Core", "Game"].Sublist report.loadOrder ∧ report.skipped = ["ProjectGlue"] := by
  intro named fs idle request
  let loaded (m : Module) (origin : Path) : LoadedModule := ⟨m, origin, none, m.references.map (⟨·, none⟩)⟩
  let game := loaded (named "Game" [⟨"ProjectGlue", "1"⟩]) "Game.wbc"
  let core := loaded (named "Core" []) "Core.wbc"
  let planned : Plan :=
    ⟨⟨[], []⟩, [game, loaded (named "ProjectGlue" [⟨"Core", "1"⟩]) "ProjectGlue.wbc", core], [2, 1, 0]⟩
  let report : Report := ⟨["out/Core.wbc", "out/Core.metadata.json", "out/Game.wbc", "out/Game.metadata.json"],
    ["Core", "Game"], ["ProjectGlue"], "out/weft.assemblyloadorder.json"⟩
  have tree : fs.IsTree := FileSystem.is_tree_write (FileSystem.is_tree_write
    (FileSystem.is_tree_write (FileSystem.empty_is_tree []) _ _) _ _) _ _
  have planning : ((plan [] request.targets true).run fs).result = .ok planned := by decide +kernel
  have done : ((run idle {} request () : Task Failure _).run fs).result = .ok (.ok report, ()) := by decide +kernel
  have descends : ∀ i j, planned.RefersTo i j → [2, 1, 0].getD j 0 < [2, 1, 0].getD i 0 := by
    intro i j refers
    obtain ⟨a, atI, b, atJ, _⟩ := id refers
    have lower : ∀ i < 3, ∀ j < 3, planned.RefersTo i j → [2, 1, 0].getD j 0 < [2, 1, 0].getD i 0 := by
      decide +kernel
    exact lower i (List.getElem?_eq_some_iff.mp atI).1 j (List.getElem?_eq_some_iff.mp atJ).1 refers
  have straight : ¬ planned.ReachesCycle 0 := by
    rintro ⟨k, _, cycle⟩
    exact acyclic_of_descent (fun i => [2, 1, 0].getD i 0) descends k cycle
  have first : planned.RefersTo 0 1 := by decide +kernel
  have second : planned.RefersTo 1 2 := by decide +kernel
  obtain ⟨found, listed, ordered⟩ := load_order_through_glue (ε := Failure) idle {} request () fs tree done
  cases Except.ok.inj (planning.symm.trans listed.planning)
  have before := ordered (by decide +kernel) 0 2 game core rfl rfl (by decide +kernel) (by decide +kernel)
    (.head first (.single second)) straight
  exact ⟨planned, report, planning, done, first, second, by decide +kernel, before, rfl⟩

end Batch

end Loom
