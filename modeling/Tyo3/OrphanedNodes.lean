import Tyo3.CodeDiffs
import Tyo3.CodeLayerParity
import Tyo3.LivePaths
import Tyo3.SessionRegistries

/-!
# Orphaned ids have no node

A node of the code graph is listed for its file. A scoped build drops what is
listed for a dirty file and materializes the file again with the ids of the
registry, so every node belongs to a live anchor with a path in its file, when
commits add entities in the files of their scope only. An orphaned id
therefore has no node in the graph of a head.
-/

namespace Tyo3.OrphanedNodes

open CodeDiffs CodeLayer CodeLayerBuilder CodeLayerCarrying CodeLayerFiles CodeLayerParity
  CodeLayerPasses CodeLayerProjects CommitAtomicity CommitFunnel CommitOutcomes CommitPlan Entities
  FiniteMaps GraphNodes IdentityAnchors IdentityMatching IdentityPersistence IdentityPostState
  IdentityReconciliation IdentityRuns IdentityScope LivePaths ProjectSessions Runs SessionRegistries
  Snapshots SystemPaths TextSearch

/-! ## Listed nodes -/

section Builders

/-- An id that looks neither like a stub nor like a module. -/
structure Plain (id : String) : Prop where
  /-- No stub. -/
  colon : ':' ∉ id.toList
  /-- No module. -/
  module_ : isModuleId id = false

/-- Every node of a plain id is listed for its file and belongs there. -/
def Owned (P : String → String → Prop) (b : Builder) : Prop :=
  ∀ id node, b.layer.nodes.lookup id = some node → Plain id →
    id ∈ b.idsOf node.file ∧ P node.file id

variable {P : String → String → Prop} {b b' : Builder}

/-- Listing one more node for a file keeps the lists. -/
theorem mem_idsOf_of_push {file did : String}
    (h : ∀ other, b'.fileToNodes.lookup other =
      if other = file then some (b.idsOf file ++ [did]) else b.fileToNodes.lookup other)
    {id other : String} (hid : id ∈ b.idsOf other) : id ∈ b'.idsOf other := by
  unfold Builder.idsOf
  rw [h]
  split
  · rename_i hother
    rw [hother] at hid
    exact List.mem_append_left _ hid
  · exact hid

/-- Materializing a module keeps the nodes owned. -/
theorem Owned.materializeModule (h : Owned P b) (file : String) :
    Owned P (b.materializeModule file) := by
  rw [materializeModule_eq]
  split
  · exact h
  · intro id node hnode hid
    have hne : id ≠ makeModuleDurableId file := by
      rintro rfl
      exact absurd hid.module_ (by rw [isModuleId_makeModuleDurableId]; exact Bool.noConfusion)
    rw [withModule_nodes, if_neg hne] at hnode
    obtain ⟨hlisted, hP⟩ := h id node hnode hid
    exact ⟨mem_idsOf_of_push (withModule_fileToNodes b file) hlisted, hP⟩

/-- Materializing a symbol of a file keeps the nodes owned. -/
theorem Owned.materializeSymbol (h : Owned P b) {file : String} {symbol : SymbolDto}
    (hP : ∀ did, symbol.durableId = some did → P file did) :
    Owned P (Builder.materializeSymbol file b symbol) := by
  rw [materializeSymbol_eq]
  split
  · exact h
  · rename_i did hdid
    split
    · exact h
    · intro id node hnode hid
      rw [withSymbol_nodes] at hnode
      split at hnode
      · rename_i hsame
        cases hnode
        subst hsame
        refine ⟨?_, hP id hdid⟩
        change id ∈ (withSymbol b file symbol id).idsOf file
        rw [withSymbol_idsOf]
        exact List.mem_append_right _ List.mem_cons_self
      · obtain ⟨hlisted, hold⟩ := h id node hnode hid
        exact ⟨mem_idsOf_of_push (withSymbol_fileToNodes b file symbol did) hlisted, hold⟩

/-- Materializing files keeps the nodes owned. -/
theorem Owned.materializeAll (h : Owned P b) {files : List FileSymbols}
    (hP : ∀ fs ∈ files, ∀ symbol ∈ fs.symbols, ∀ did, symbol.durableId = some did →
      P fs.graphPath did) : Owned P (materializeAll b files) := by
  unfold CodeLayerPasses.materializeAll
  refine List.foldlRecOn (motive := Owned P) _ _ h fun b hb fs hfs => ?_
  unfold Builder.materializeFileNodes
  exact List.foldlRecOn (motive := Owned P) _ _ (hb.materializeModule fs.graphPath)
    fun b hb symbol hsymbol => hb.materializeSymbol (hP fs hfs symbol hsymbol)

/-- Stubs are no nodes of plain ids. -/
theorem Owned.onlyStubs (h : Owned P b) (hs : OnlyStubs b b') : Owned P b' := by
  intro id node hnode hid
  rcases hs.stubs id node hnode with hold | hstub
  · unfold Builder.idsOf
    rw [hs.lists]
    exact h id node hold hid
  · exact absurd hstub.2 hid.colon

/-- Evicting a file leaves the nodes of other files. -/
theorem Owned.evictFile (h : Owned P b) (file : String) :
    Owned (fun other id => other ≠ file ∧ P other id) (b.evictFile file) := by
  intro id node hnode hid
  rw [evictFile_nodes, Option.ite_none_left_eq_some] at hnode
  obtain ⟨hlisted, hP⟩ := h id node hnode.2 hid
  have hne : node.file ≠ file := fun hfile => hnode.1 (hfile ▸ hlisted)
  rw [evictFile_idsOf, if_neg hne]
  exact ⟨hlisted, hne, hP⟩

/-- Evicting files leaves the nodes of other files. -/
theorem Owned.evictAll (h : Owned P b) (dirty : List String) :
    Owned (fun file id => file ∉ dirty ∧ P file id) (dirty.foldl Builder.evictFile b) := by
  induction dirty generalizing P b with
  | nil =>
    intro id node hnode hid
    obtain ⟨hlisted, hP⟩ := h id node hnode hid
    exact ⟨hlisted, List.not_mem_nil, hP⟩
  | cons file dirty ih =>
    intro id node hnode hid
    obtain ⟨hlisted, hrest, hne, hP⟩ := ih (h.evictFile file) id node hnode hid
    exact ⟨hlisted, fun hin => (List.mem_cons.mp hin).elim hne hrest, hP⟩

/-- Collecting stubs leaves the lists. -/
theorem Owned.gcExternalStubs (h : Owned P b) : Owned P b.gcExternalStubs := by
  intro id node hnode hid
  rw [lookup_gcExternalStubs, Option.filter_eq_some_iff] at hnode
  exact h id node hnode.1 hid

end Builders

/-! ## Layers -/

section Layers

variable {P Q : String → String → Prop} {out : Outputs} {prev : Layer}

/-- Every node of a plain id of a layer is listed for its file and belongs
there. -/
def OwnedLayer (P : String → String → Prop) (layer : Layer) : Prop :=
  ∀ id node, layer.nodes.lookup id = some node → Plain id →
    id ∈ (layer.fileToNodes.lookup node.file).getD [] ∧ P node.file id

/-- The symbols of a file belong to it. -/
def SymbolsIn (P : String → String → Prop) (fs : FileSymbols) : Prop :=
  ∀ symbol ∈ fs.symbols, ∀ did, symbol.durableId = some did → P fs.graphPath did

/-- A full build lists its nodes. -/
theorem ownedLayer_build (hP : ∀ fs ∈ filesOf out, SymbolsIn P fs) :
    OwnedLayer P (build out) := by
  have hopened : Owned P (opened out) := by
    intro id node hnode
    cases hnode
  exact (hopened.materializeAll hP).onlyStubs (onlyStubs_build out)

/-- A builder over a layer carries its nodes and its lists. -/
theorem seeded_carries (prev : Layer) :
    (Builder.seeded prev).layer = prev ∧ (Builder.seeded prev).fileToNodes = prev.fileToNodes := by
  unfold Builder.seeded
  refine List.foldlRecOn
    (motive := fun b : Builder => b.layer = prev ∧ b.fileToNodes = prev.fileToNodes) _ _
    ⟨rfl, rfl⟩ ?_
  rintro b ⟨hlayer, hlists⟩ file -
  have hsame := sameButNames_replayFile b file
  exact ⟨hsame.layer.trans hlayer, hsame.lists.trans hlists⟩

/-- The native path of a listed file is listed. -/
theorem mem_of_lookup_currentNative {file native : String}
    (h : (currentNative out).lookup file = some native) : (file, native) ∈ projectListing out := by
  have hall : ∀ f n, (currentNative out).lookup f = some n → (f, n) ∈ projectListing out := by
    unfold currentNative
    refine List.foldlRecOn (motive := fun m : FMap String String =>
      ∀ f n, m.lookup f = some n → (f, n) ∈ projectListing out) _ _ (fun f n hnone => ?_) ?_
    · cases hnone
    · intro m hm listed hlisted f n hlookup
      rw [lookup_insert_ite] at hlookup
      split at hlookup
      · rename_i hf
        cases hlookup
        rwa [hf]
      · exact hm f n hlookup
  exact hall file native h

/-- The rebuilt files are listed files. -/
theorem mem_filesOf_of_dirtyFiles {seedDirty : Finset String} {fs : FileSymbols}
    (h : fs ∈ dirtyFiles out prev seedDirty) : fs ∈ filesOf out := by
  unfold dirtyFiles at h
  obtain ⟨hlisted, hsymbols⟩ := mem_collectSymbols.mp h
  unfold existingDirty at hlisted
  obtain ⟨file, -, hfound⟩ := List.mem_filterMap.mp hlisted
  obtain ⟨native, hnative, hpair⟩ := Option.map_eq_some_iff.mp hfound
  have hmem := mem_of_lookup_currentNative hnative
  rw [hpair] at hmem
  exact mem_collectSymbols.mpr ⟨hmem, hsymbols⟩

/-- A scoped build lists its nodes: those of the clean files are carried. -/
theorem ownedLayer_buildScoped {seedDirty : Finset String} (h : OwnedLayer Q prev)
    (hcarried : ∀ file id, Q file id → file ∉ seedDirty → P file id)
    (hP : ∀ fs ∈ filesOf out, SymbolsIn P fs) :
    OwnedLayer P (buildScoped out prev seedDirty) := by
  have hseeded := seeded_carries prev
  have hstart : Owned Q { Builder.seeded prev with
      projectFiles := ((projectListing out).map Prod.fst).toFinset } := by
    intro id node hnode hid
    unfold Builder.idsOf
    dsimp only at hnode ⊢
    rw [hseeded.1] at hnode
    rw [hseeded.2]
    exact h id node hnode hid
  have hevicted : Owned P (evicted out prev seedDirty) := by
    intro id node hnode hid
    obtain ⟨hlisted, hclean, hQ⟩ := hstart.evictAll _ id node hnode hid
    rw [HashOrder.mem_order] at hclean
    exact ⟨hlisted, hcarried _ _ hQ fun hseed => hclean (subset_widenDirty prev seedDirty hseed)⟩
  have hrebuilt := (hevicted.materializeAll fun fs hfs =>
    hP fs (mem_filesOf_of_dirtyFiles hfs)).onlyStubs
      (onlyStubs_runPasses _ out (dirtyFiles out prev seedDirty))
  rw [buildScoped_eq hseeded.1]
  exact hrebuilt.gcExternalStubs

end Layers

/-! ## Ids of a file -/

/-- The id has a live anchor with a path in a file of the graph. -/
def LivesIn (root : String) (r : IdentityRegistry) (file id : String) : Prop :=
  ∃ p native, LivesAt r p id ∧ anchorFile p = some native ∧ nativeToGraph root native = some file

/-- The file part of the qualified path of an entity is the file. -/
def Named (crates : Crates) (answers : Answers) : Prop :=
  ∀ p ∈ sourceFiles crates answers, ∀ e ∈ fileEntities answers p,
    anchorFile e.qualifiedPath = some p.asStr

instance (crates : Crates) (answers : Answers) : Decidable (Named crates answers) :=
  inferInstanceAs (Decidable (∀ p ∈ sourceFiles crates answers, ∀ e ∈ fileEntities answers p, _))

/-- A listed file has one path in the graph. -/
theorem nativeToGraph_of_ne {root native : String} (h : toGraphPath root native ≠ native) :
    nativeToGraph root native = some (toGraphPath root native) := by
  unfold nativeToGraph
  unfold toGraphPath at h ⊢
  cases hstrip : stripPrefix root native with
  | none =>
    rw [hstrip] at h
    exact absurd rfl h
  | some rest =>
    rw [hstrip] at h
    dsimp only at h ⊢
    by_cases hempty : (stripPrefix "/" rest).getD rest = ""
    · rw [if_pos hempty] at h
      exact absurd rfl h
    · rw [if_neg hempty, if_neg hempty]

/-- A path of the graph is the path in the project. -/
theorem toGraphPath_of_nativeToGraph {root native file : String}
    (h : nativeToGraph root native = some file) : toGraphPath root native = file := by
  unfold nativeToGraph at h
  unfold toGraphPath
  cases hstrip : stripPrefix root native with
  | none =>
    rw [hstrip] at h
    cases h
  | some rest =>
    rw [hstrip] at h
    dsimp only at h ⊢
    rw [Option.ite_none_left_eq_some] at h
    rw [if_neg h.1]
    exact Option.some.inj h.2

/-- The symbols of a file have the ids of live anchors in the file, when the
paths of its entities lead to live anchors. -/
theorem symbolsIn_outputs {crates : Crates} {answers : Answers} {head : HeadState}
    (hs : head.registry.Sound) (hnamed : Named crates answers)
    (hlive : ∀ e ∈ extractEntities crates answers, LiveAt head.registry e.qualifiedPath) :
    ∀ fs ∈ filesOf (outputs crates answers head),
      SymbolsIn (LivesIn head.root.asStr head.registry) fs := by
  intro fs hfs symbol hsymbol id hid
  obtain ⟨hlisted, hsymbols⟩ := mem_collectSymbols.mp hfs
  obtain ⟨hmem, hbelow⟩ := List.mem_filter.mp hlisted
  obtain ⟨native, -, hpair⟩ := List.mem_map.mp hmem
  obtain ⟨hgraph, hnative⟩ := Prod.mk.inj hpair
  obtain ⟨p, hfind, hwalk⟩ := Option.map_eq_some_iff.mp hsymbols
  have hp : p ∈ sourceFiles crates answers := List.mem_of_find?_eq_some hfind
  have hpath : p.asStr = fs.nativePath := by
    simpa using List.find?_some hfind
  rw [← hwalk, ← hpath] at hsymbol
  obtain ⟨e, he, hdescribes⟩ := exists_left_of_forall₂ (describes_file answers head p) hsymbol
  have hholder := (durableId_eq_some_iff hs hdescribes).mp hid
  obtain ⟨a, ha, hap⟩ := hs.path_anchor _ _ hholder
  obtain ⟨a', ha', hstatus⟩ := hlive e (mem_extractEntities.mpr ⟨p, hp, he⟩) id hholder
  obtain rfl : a = a' := Option.some.inj (ha.symm.trans ha')
  have hne : toGraphPath head.root.asStr p.asStr ≠ p.asStr := by
    have hdifferent := of_decide_eq_true hbelow
    dsimp only at hdifferent
    rwa [← hgraph, hnative, ← hpath] at hdifferent
  refine ⟨e.qualifiedPath, p.asStr, ⟨a, ha, hstatus, hap⟩, hnamed p hp e he, ?_⟩
  rw [nativeToGraph_of_ne hne, ← hgraph, hnative, hpath]
  rfl

/-- A live anchor of a file outside the scope stays in its file. -/
theorem LivesIn.reconcile {mint : ℕ → DurableId} {r : IdentityRegistry} {root : String}
    {scope : Finset String} {file id : String} (h : LivesIn root r file id) (hs : r.Sound)
    (hf : Fresh mint r)
    (hout : file ∉ ((HashOrder.increasing.order scope).filterMap (nativeToGraph root)).toFinset)
    (iter : HashOrder DurableId) (entities : List Entity) (revision : Revision) :
    LivesIn root (reconcileImpl iter mint r entities revision (some scope)).2 file id := by
  obtain ⟨p, native, hlives, hnative, hfile⟩ := h
  refine ⟨p, native, livesAt_reconcileImpl hs hf iter revision hlives ?_, hnative, hfile⟩
  have hnot : native ∉ scope := fun hin => hout (List.mem_toFinset.mpr
    (List.mem_filterMap.mpr ⟨native, (HashOrder.mem_order _ _ _).mpr hin, hfile⟩))
  unfold fileInScope
  dsimp only
  rw [hnative]
  exact decide_eq_false hnot

/-! ## Heads -/

/-- A head shows live ids only: the paths of the entities of its content lead
to live anchors, and every node belongs to one. -/
structure Shown (crates : Crates) (engine : Engine) (head : HeadState) : Prop where
  /-- The engine reads the published content. -/
  inStep : InStep head
  /-- The indexes name anchors. -/
  sound : head.registry.Sound
  /-- Entities are named after their files. -/
  named : Named crates (engine.answers head.overlay)
  /-- Paths of entities lead to live anchors. -/
  live : ∀ e ∈ extractEntities crates (engine.answers head.overlay),
    LiveAt head.registry e.qualifiedPath
  /-- Nodes belong to live anchors. -/
  owned : OwnedLayer (LivesIn head.root.asStr head.registry) head.codeLayer

/-- A commit asks the engine of the session, hands out new ids, and adds
entities in the files of its scope only, named after their files. -/
structure Ordinary (crates : Crates) (engine : Engine) (head : HeadState) (env : Env)
    (m : Mutation) : Prop where
  /-- The engine of the session. -/
  sameEngine : env.engine = engine
  /-- New ids. -/
  fresh : Fresh env.mint head.registry
  /-- Entities are named after their files. -/
  named : ∀ staged, (buildPlan crates env head m).1 = .ok (some staged) →
    Named crates (engine.answers staged.stagedGen)
  /-- Entities outside the scope have paths of entities from before. -/
  inScope : ∀ staged scope, (buildPlan crates env head m).1 = .ok (some staged) →
    staged.scope = some scope → ∀ p ∈ sourceFiles crates (engine.answers staged.stagedGen),
    p.asStr ∉ scope → ∀ e ∈ fileEntities (engine.answers staged.stagedGen) p,
    ∃ before ∈ extractEntities crates (engine.answers head.overlay),
      before.qualifiedPath = e.qualifiedPath

section Heads

variable {crates : Crates} {engine : Engine} {head : HeadState} {id : String}

/-- The layer that a commit produces lists its nodes. -/
theorem ownedLayer_produceLayer {P Q : String → String → Prop} {out : Outputs} {prev : Layer}
    {staged : StagedCommit} (h : OwnedLayer Q prev)
    (hcarried : ∀ scope, staged.scope = some scope → ∀ file id, Q file id →
      file ∉ ((HashOrder.increasing.order scope).filterMap (nativeToGraph out.root)).toFinset →
      P file id)
    (hP : ∀ fs ∈ filesOf out, SymbolsIn P fs) : OwnedLayer P (produceLayer out prev staged) := by
  unfold produceLayer
  split
  · rename_i scope hscope
    split
    · exact ownedLayer_buildScoped h (hcarried scope hscope) hP
    · exact ownedLayer_build hP
  · exact ownedLayer_build hP

/-- After a reconciliation the paths of all entities lead to live anchors. -/
theorem Shown.live_reconciled (h : Shown crates engine head) {env : Env} {m : Mutation}
    (ho : Ordinary crates engine head env m) {staged : StagedCommit}
    (hplan : (buildPlan crates env head m).1 = .ok (some staged)) (revision : Revision) :
    ∀ e ∈ extractEntities crates (engine.answers staged.stagedGen),
      LiveAt (reconcileImpl env.iter env.mint head.registry
        (scopedEntities crates (engine.answers staged.stagedGen) staged.scope) revision
        staged.scope).2 e.qualifiedPath := by
  intro e he
  apply liveAt_reconcileImpl h.sound ho.fresh
  obtain ⟨p, hp, hin⟩ := mem_extractEntities.mp he
  cases hscope : staged.scope with
  | none => exact .inl ⟨e, he, rfl⟩
  | some scope =>
    by_cases hfile : p.asStr ∈ scope
    · exact .inl ⟨e, mem_extractEntitiesFor.mpr ⟨p, hp, hfile, hin⟩, rfl⟩
    · obtain ⟨before, hbefore, hpath⟩ := ho.inScope staged scope hplan hscope p hp hfile e hin
      exact .inr (hpath ▸ h.live before hbefore)

/-- An ordinary commit leaves a head that shows live ids only. -/
theorem Shown.commit (h : Shown crates engine head) {env : Env} {m : Mutation}
    (ho : Ordinary crates engine head env m) :
    Shown crates engine (commit crates env head m).2 := by
  have hstep := h.inStep.commit crates env m
  have houtcome := commit_outcome crates env h.inStep m
  generalize (CommitFunnel.commit crates env head m).2 = head' at houtcome hstep ⊢
  generalize (CommitFunnel.commit crates env head m).1 = result at houtcome
  cases houtcome with
  | idle counter armed hresult => exact ⟨hstep, h.sound, h.named, h.live, h.owned⟩
  | authored lcfg anchor bytes record hcfg hanchor hrecord hbytes =>
    have hcontent : head.store.generation = head.overlay := h.inStep.symm
    exact ⟨hstep, h.sound, hcontent ▸ h.named, hcontent ▸ h.live, h.owned⟩
  | reconciled staged counter bytes hm hplan hauth hbytes =>
    have hengine := ho.sameEngine
    subst hengine
    have hsound := reconcileImpl_sound h.sound env.iter env.mint
      (scopedEntities crates (env.engine.answers staged.stagedGen) staged.scope)
      (idle head counter none).store.nextRevision staged.scope
    have hlive := h.live_reconciled ho hplan (idle head counter none).store.nextRevision
    have hnamed := ho.named staged hplan
    refine ⟨hstep, hsound, hnamed, hlive, ?_⟩
    refine ownedLayer_produceLayer h.owned (fun scope hscope file id hQ hout => ?_) ?_
    · have hkept := hQ.reconcile h.sound ho.fresh hout env.iter
        (scopedEntities crates (env.engine.answers staged.stagedGen) staged.scope)
        (idle head counter none).store.nextRevision
      rw [← hscope] at hkept
      exact hkept
    · exact @symbolsIn_outputs crates _ { head with
        overlay := staged.stagedGen
        registry := reconciledRegistry crates env (idle head counter none) staged }
        hsound hnamed hlive

/-- A new head has no nodes. -/
theorem Shown.reload (h : Shown crates engine head) : Shown crates engine (reload head) := by
  have hcontent : (CommitFunnel.reload head).overlay = head.overlay := h.inStep.symm
  refine ⟨rfl, h.sound, hcontent ▸ h.named, hcontent ▸ h.live, ?_⟩
  intro id node hnode
  cases hnode

/-- The layer of an opened head is built from its content. -/
theorem codeLayer_openHead {env : Env} {o : Opening} (h : openHead crates env o = .ok head) :
    head.codeLayer = build (outputs crates (env.engine.answers head.overlay) head) := by
  unfold openHead at h
  dsimp only at h
  split at h
  · cases h
  · rename_i head₁ hpersist
    obtain ⟨bytes, -, hhead⟩ := persistIdentity_ok hpersist
    cases h
    rw [hhead]
    rfl

/-- Opening leaves a head that shows live ids only. -/
theorem shown_openHead {env : Env} {o : Opening} (h : openHead crates env o = .ok head)
    (hs : o.registry.Sound) (hf : Fresh env.mint o.registry)
    (hnamed : Named crates (env.engine.answers head.overlay)) : Shown crates env.engine head := by
  have hcontent : head.overlay = head.store.generation := inStep_of_openHead h
  have hregistry := registry_openHead h
  have hsound : head.registry.Sound := by
    rw [hregistry]
    exact reconcileImpl_sound hs _ _ _ _ _
  have hlive : ∀ e ∈ extractEntities crates (env.engine.answers head.overlay),
      LiveAt head.registry e.qualifiedPath := by
    intro e he
    rw [hregistry]
    exact liveAt_reconcileImpl hs hf _ _ _ (.inl ⟨e, hcontent ▸ he, rfl⟩)
  refine ⟨hcontent, hsound, hnamed, hlive, ?_⟩
  rw [codeLayer_openHead h]
  exact ownedLayer_build (symbolsIn_outputs hsound hnamed hlive)

/-- A node of the graph of a head belongs to a live anchor in its file. -/
theorem Shown.livesIn (h : Shown crates engine head) (hid : Plain id) {node : NodeData}
    (hnode : (graph crates engine (headSnapshot head)).nodes.lookup id = some node) :
    LivesIn head.root.asStr head.registry node.file id := by
  have hcontent : head.store.capture = head.overlay := h.inStep.symm
  have howned : OwnedLayer (LivesIn head.root.asStr head.registry)
      (graph crates engine (headSnapshot head)) := by
    unfold graph headSnapshot pin servableCodeLayer
    dsimp only
    split
    · rename_i layer hlayer
      rw [Option.ite_none_left_eq_some] at hlayer
      rw [← Option.some.inj hlayer.2]
      exact h.owned
    · -- a new head builds its graph from the content
      exact ownedLayer_build (symbolsIn_outputs h.sound (hcontent ▸ h.named) (hcontent ▸ h.live))
  exact (howned id node hnode hid).2

/-- An orphaned id has no node. -/
theorem Shown.lookup_orphaned (h : Shown crates engine head) (hid : Plain id)
    (horphaned : head.registry.statusOf id = some .orphaned) :
    (graph crates engine (headSnapshot head)).nodes.lookup id = none := by
  cases hnode : (graph crates engine (headSnapshot head)).nodes.lookup id with
  | none => rfl
  | some node =>
    obtain ⟨p, native, ⟨a, ha, hlive, -⟩, -⟩ := h.livesIn hid hnode
    exact absurd horphaned (Live.not_orphaned ⟨a, ha, hlive⟩)

end Heads

/-! ## Runs of sessions -/

/-- A step of a session is ordinary: openings and commits ask one engine, hand
out new ids and find entities that are named after their files, and a commit
adds entities in the files of its scope only. -/
def OrdinaryStep (crates : Crates) (engine : Engine) (root : SystemPath) :
    Project → SessionStep → Prop
  | .opened head, .act (.commit env m) => Ordinary crates engine head env m
  | .closed files, .open_ req => req.env.engine = engine ∧
      (∀ registry, loadRegistry crates.codec (files.lookup (identityDbPath root)) = .ok registry →
        Fresh req.env.mint registry) ∧
      ∀ head files', openProject crates root files req = (.ok head, files') →
        Named crates (engine.answers head.overlay)
  | _, _ => True

/-- The open head shows live ids only. -/
def ShownProject (crates : Crates) (engine : Engine) : Project → Prop
  | .closed _ => True
  | .opened head => Shown crates engine head

section Sessions

variable {crates : Crates} {engine : Engine} {root : SystemPath}

/-- An ordinary step leaves a head that shows live ids only. -/
theorem ShownProject.takeStep {p : Project} {step : SessionStep} (h : ShownProject crates engine p)
    (ho : OrdinaryStep crates engine root p step) :
    ShownProject crates engine (takeStep crates root p step) := by
  cases p with
  | closed files =>
    cases step with
    | act a => trivial
    | close => trivial
    | open_ req =>
      obtain ⟨rfl, hfresh, hnamed⟩ := ho
      unfold ProjectSessions.takeStep
      dsimp only
      split
      · rename_i head files' hopen
        have hcontent := hnamed head files' hopen
        unfold openProject at hopen
        split at hopen
        · cases hopen
        · rename_i registry hload
          split at hopen
          · cases hopen
          · rename_i head₀ hhead
            split at hopen
            · cases hopen
            · cases hopen
              have hshown := shown_openHead hhead (sound_loadRegistry hload)
                (hfresh registry hload) hcontent
              exact ⟨hshown.inStep, hshown.sound, hshown.named, hshown.live, hshown.owned⟩
      · trivial
  | opened head =>
    cases step with
    | open_ req => exact h
    | close => trivial
    | act a =>
      cases a with
      | registerAuthoredLayer name history reviewOnChange =>
        exact ⟨h.inStep, h.sound, h.named, h.live, h.owned⟩
      | faultInject stage => exact ⟨h.inStep, h.sound, h.named, h.live, h.owned⟩
      | reload => exact Shown.reload h
      | commit env m => exact Shown.commit h ho

/-- Every head of a run of ordinary steps shows live ids only. -/
theorem shown_runSessions {steps : List SessionStep}
    (h : Along (takeStep crates root) (OrdinaryStep crates engine root) (.closed ∅) steps)
    {head : HeadState} (hhead : runSessions crates root steps = .opened head) :
    Shown crates engine head := by
  have hstep : ∀ p step, ShownProject crates engine p → OrdinaryStep crates engine root p step →
      ShownProject crates engine (takeStep crates root p step) :=
    fun _ _ hp ho => ShownProject.takeStep hp ho
  have hstart : ShownProject crates engine (.closed ∅) := trivial
  have hinv := invariant_run hstep hstart h
  unfold runSessions at hhead
  rw [hhead] at hinv
  exact hinv

end Sessions

/-- A project of one file under the given ids. -/
def oneFileEnv (disk : Disk) (bound : ℕ) : Env :=
  { listedEnv [⟨["p", "a.py"]⟩] disk with mint := longIds bound }

/-- Removing the file of a new project is an ordinary commit, and it leaves an
orphaned id. -/
example : ∃ head, openHead (listedCrates [⟨["p", "a.py"]⟩])
      (oneFileEnv ((∅ : Disk).insert ⟨["p", "a.py"]⟩ (.file "x = 1")) 0)
      (freshOpening ⟨["p"]⟩) = .ok head ∧
    Shown (listedCrates [⟨["p", "a.py"]⟩]) (listedEngine [⟨["p", "a.py"]⟩]) head ∧
    Ordinary (listedCrates [⟨["p", "a.py"]⟩]) (listedEngine [⟨["p", "a.py"]⟩]) head
      (oneFileEnv ∅ 1) (.syncPath ⟨["p", "a.py"]⟩) ∧
    (commit (listedCrates [⟨["p", "a.py"]⟩]) (oneFileEnv ∅ 1) head
      (.syncPath ⟨["p", "a.py"]⟩)).2.registry.statusOf "A" = some .orphaned := by
  refine ⟨_, rfl, ?_, ⟨rfl, longIds_fresh (by decide +kernel), ?_, ?_⟩, by decide +kernel⟩
  · exact @shown_openHead _ _ (oneFileEnv _ 0) (freshOpening ⟨["p"]⟩) rfl
      IdentityRegistry.Sound.empty (longIds_fresh (by decide)) (by decide +kernel)
  · rintro staged ⟨⟩
    decide +kernel
  · rintro staged scope ⟨⟩ ⟨⟩
    decide +kernel

end Tyo3.OrphanedNodes
