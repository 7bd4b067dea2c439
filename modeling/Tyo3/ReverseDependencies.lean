import Mathlib.Data.Finset.Image
import Tyo3.CodeLayer
import Tyo3.Runs

/-!
# The reverse-dependency index

The index of a layer is kept edge by edge and never rebuilt. It is in step
with the edges when it lists, for every target of a dependency edge, exactly
the sources of the dependency edges into it, and nothing for other targets.
Adding and removing an edge keep it in step, so the edges decide the index,
and after any edits it is the index that the edges alone would give.
-/

namespace Tyo3.ReverseDependencies

open CodeLayer FiniteMaps

/-- The sources of the dependency edges into a target. -/
def dependents (edges : Finset Edge) (target : String) : Finset String :=
  (edges.filter fun e => e.kind.isDependency = true ∧ e.target = target).image Edge.source

/-- The index lists exactly the dependents of every target. -/
def IndexInStep (layer : Layer) : Prop :=
  ∀ target, layer.reverseDeps.lookup target =
    if dependents layer.edges target = ∅ then none else some (dependents layer.edges target)

theorem mem_dependents {edges : Finset Edge} {target source : String} :
    source ∈ dependents edges target ↔
      ∃ e ∈ edges, e.kind.isDependency = true ∧ e.target = target ∧ e.source = source := by
  unfold dependents
  simp only [Finset.mem_image, Finset.mem_filter, and_assoc]

/-- The sources listed for a target are its dependents. -/
theorem IndexInStep.sourcesOf_eq {layer : Layer} (h : IndexInStep layer) (target : String) :
    layer.sourcesOf target = dependents layer.edges target := by
  unfold Layer.sourcesOf
  rw [h target]
  split
  · rename_i hnone
    rw [hnone]
    rfl
  · rfl

/-- Layers with the same edges, each in step, have the same index. -/
theorem IndexInStep.reverseDeps_eq {layer layer' : Layer} (h : IndexInStep layer)
    (h' : IndexInStep layer') (hedges : layer.edges = layer'.edges) :
    layer.reverseDeps = layer'.reverseDeps := by
  apply Finmap.ext_lookup
  intro target
  rw [h target, h' target, hedges]

/-- Adding an edge adds its source to the dependents of its target. -/
theorem dependents_insert (edges : Finset Edge) (edge : Edge) (target : String) :
    dependents (insert edge edges) target =
      if edge.kind.isDependency = true ∧ edge.target = target then
        insert edge.source (dependents edges target)
      else dependents edges target := by
  unfold dependents
  rw [Finset.filter_insert]
  split
  · rw [Finset.image_insert]
  · rfl

/-- Adding an edge keeps the index in step. -/
theorem IndexInStep.addEdge {layer : Layer} (h : IndexInStep layer) (edge : Edge) :
    IndexInStep (layer.addEdge edge) := by
  intro target
  have hsources := h.sourcesOf_eq edge.target
  have hinsert := dependents_insert layer.edges edge target
  unfold Layer.addEdge
  simp only
  by_cases hdep : edge.kind.isDependency = true
  · rw [if_pos hdep, lookup_insert_ite, hsources]
    by_cases htarget : target = edge.target
    · rw [if_pos ⟨hdep, htarget.symm⟩] at hinsert
      rw [if_pos htarget, hinsert, if_neg (Finset.insert_ne_empty _ _), htarget]
    · rw [if_neg fun hboth => htarget hboth.2.symm] at hinsert
      rw [if_neg htarget, hinsert]
      exact h target
  · rw [if_neg fun hboth => hdep hboth.1] at hinsert
    rw [if_neg hdep, hinsert]
    exact h target

/-- Another edge keeps the source of an erased one among the dependents. -/
theorem dependents_erase_of_still {edges : Finset Edge} {edge : Edge}
    (hstill : ∃ e ∈ edges.erase edge, e.kind.isDependency = true ∧ e.source = edge.source ∧
      e.target = edge.target) (target : String) :
    dependents (edges.erase edge) target = dependents edges target := by
  ext source
  rw [mem_dependents, mem_dependents]
  constructor
  · rintro ⟨e, he, hrest⟩
    exact ⟨e, Finset.mem_of_mem_erase he, hrest⟩
  · rintro ⟨e, he, hdep, htarget, hsource⟩
    by_cases hsame : e = edge
    · obtain ⟨other, hother, hdep', hsource', htarget'⟩ := hstill
      rw [hsame] at htarget hsource
      exact ⟨other, hother, hdep', htarget'.trans htarget, hsource'.trans hsource⟩
    · exact ⟨e, Finset.mem_erase.mpr ⟨hsame, he⟩, hdep, htarget, hsource⟩

/-- Erasing the last dependency edge between two nodes removes the source
from the dependents of the target, and changes nothing else. -/
theorem dependents_erase_of_last {edges : Finset Edge} {edge : Edge}
    (hlast : ¬ ∃ e ∈ edges.erase edge, e.kind.isDependency = true ∧ e.source = edge.source ∧
      e.target = edge.target) (target : String) :
    dependents (edges.erase edge) target =
      if target = edge.target then (dependents edges target).erase edge.source
      else dependents edges target := by
  ext source
  split
  · rename_i htarget
    rw [Finset.mem_erase, mem_dependents, mem_dependents]
    constructor
    · rintro ⟨e, he, hdep, htarget', hsource⟩
      have hne : source ≠ edge.source := fun hsame =>
        hlast ⟨e, he, hdep, hsource.trans hsame, htarget'.trans htarget⟩
      exact ⟨hne, e, Finset.mem_of_mem_erase he, hdep, htarget', hsource⟩
    · rintro ⟨hne, e, he, hdep, htarget', hsource⟩
      have hother : e ≠ edge := fun hsame => hne (hsource.symm.trans (congrArg Edge.source hsame))
      exact ⟨e, Finset.mem_erase.mpr ⟨hother, he⟩, hdep, htarget', hsource⟩
  · rename_i htarget
    rw [mem_dependents, mem_dependents]
    constructor
    · rintro ⟨e, he, hrest⟩
      exact ⟨e, Finset.mem_of_mem_erase he, hrest⟩
    · rintro ⟨e, he, hdep, htarget', hsource⟩
      have hother : e ≠ edge := fun hsame =>
        htarget (htarget'.symm.trans (congrArg Edge.target hsame))
      exact ⟨e, Finset.mem_erase.mpr ⟨hother, he⟩, hdep, htarget', hsource⟩

/-- Erasing an edge that is no dependency keeps the dependents. -/
theorem dependents_erase_of_not_dependency {edges : Finset Edge} {edge : Edge}
    (hdep : ¬ edge.kind.isDependency = true) (target : String) :
    dependents (edges.erase edge) target = dependents edges target := by
  ext source
  rw [mem_dependents, mem_dependents]
  constructor
  · rintro ⟨e, he, hrest⟩
    exact ⟨e, Finset.mem_of_mem_erase he, hrest⟩
  · rintro ⟨e, he, hdep', hrest⟩
    have hother : e ≠ edge := fun hsame => hdep (hsame ▸ hdep')
    exact ⟨e, Finset.mem_erase.mpr ⟨hother, he⟩, hdep', hrest⟩

/-- Removing an edge keeps the index in step. -/
theorem IndexInStep.removeEdge {layer : Layer} (h : IndexInStep layer) (edge : Edge) :
    IndexInStep (layer.removeEdge edge) := by
  unfold Layer.removeEdge
  split
  swap
  · exact h
  rename_i hmem
  intro target
  simp only
  by_cases hdep : edge.kind.isDependency = true
  swap
  · rw [dependents_erase_of_not_dependency hdep, Bool.eq_false_iff.mpr hdep, Bool.false_and,
      if_neg Bool.false_ne_true]
    exact h target
  by_cases hstill : ∃ e ∈ layer.edges.erase edge, e.kind.isDependency = true ∧
      e.source = edge.source ∧ e.target = edge.target
  · rw [dependents_erase_of_still hstill, decide_eq_true hstill, Bool.not_true, Bool.and_false,
      if_neg Bool.false_ne_true]
    exact h target
  -- The target had this edge as a dependency, so it has an entry.
  have hsome : layer.reverseDeps.lookup edge.target = some (dependents layer.edges edge.target) := by
    have hin : edge.source ∈ dependents layer.edges edge.target :=
      mem_dependents.mpr ⟨edge, hmem, hdep, rfl, rfl⟩
    rw [h edge.target, if_neg (Finset.ne_empty_of_mem hin)]
  rw [dependents_erase_of_last hstill, decide_eq_false hstill, hdep, Bool.not_false, Bool.and_true,
    if_pos rfl, hsome]
  by_cases htarget : target = edge.target
  · rw [if_pos htarget, htarget]
    by_cases hempty : (dependents layer.edges edge.target).erase edge.source = ∅
    · simp only [hempty, if_true, lookup_erase_ite]
    · simp only [hempty, if_false, lookup_insert_ite, if_true]
  · rw [if_neg htarget, ← h target]
    by_cases hempty : (dependents layer.edges edge.target).erase edge.source = ∅
    · simp only [hempty, if_true, lookup_erase_ite, htarget, if_false]
    · simp only [hempty, if_false, lookup_insert_ite, htarget]

@[simp] theorem removeEdge_edges (layer : Layer) (edge : Edge) :
    (layer.removeEdge edge).edges = layer.edges.erase edge := by
  unfold Layer.removeEdge
  split
  · rfl
  · rename_i hnot
    exact (Finset.erase_eq_of_notMem hnot).symm

@[simp] theorem removeEdge_nodes (layer : Layer) (edge : Edge) :
    (layer.removeEdge edge).nodes = layer.nodes := by
  unfold Layer.removeEdge
  split <;> rfl

@[simp] theorem removeEdge_fileToNodes (layer : Layer) (edge : Edge) :
    (layer.removeEdge edge).fileToNodes = layer.fileToNodes := by
  unfold Layer.removeEdge
  split <;> rfl

/-! ## Edits -/

/-- List the source of an edge under its target when it is a dependency. -/
def indexEdge (derived : FMap String (Finset String)) (edge : Edge) : FMap String (Finset String) :=
  if edge.kind.isDependency then
    derived.insert edge.target (insert edge.source ((derived.lookup edge.target).getD ∅))
  else derived

/-- The index that the edges alone give. -/
def derivedReverseDeps (layer : Layer) : FMap String (Finset String) :=
  (HashOrder.increasing.order layer.edges).foldl indexEdge ∅

/-- An edit of the edges. -/
inductive EdgeEdit where
  | add (edge : Edge)
  | remove (edge : Edge)

/-- The layer after an edit. -/
def EdgeEdit.applyTo (layer : Layer) : EdgeEdit → Layer
  | .add edge => layer.addEdge edge
  | .remove edge => layer.removeEdge edge

theorem indexInStep_new : IndexInStep Layer.new := fun _ => rfl

/-- Indexing edge by edge is adding edge by edge. -/
theorem foldl_indexEdge (edges : List Edge) (layer : Layer) :
    edges.foldl indexEdge layer.reverseDeps = (edges.foldl Layer.addEdge layer).reverseDeps := by
  induction edges generalizing layer with
  | nil => rfl
  | cons edge edges ih =>
    rw [List.foldl_cons, List.foldl_cons, ← ih]
    rfl

theorem edges_foldl_addEdge (edges : List Edge) (layer : Layer) :
    (edges.foldl Layer.addEdge layer).edges = layer.edges ∪ edges.toFinset := by
  induction edges generalizing layer with
  | nil => simp
  | cons edge edges ih =>
    rw [List.foldl_cons, ih, List.toFinset_cons]
    simp only [Layer.addEdge]
    rw [Finset.union_insert, Finset.insert_union]

theorem IndexInStep.foldl_addEdge {layer : Layer} (h : IndexInStep layer) (edges : List Edge) :
    IndexInStep (edges.foldl Layer.addEdge layer) := by
  induction edges generalizing layer with
  | nil => exact h
  | cons edge edges ih => exact ih (h.addEdge edge)

/-- An index in step is the one that the edges give. -/
theorem IndexInStep.eq_derived {layer : Layer} (h : IndexInStep layer) :
    layer.reverseDeps = derivedReverseDeps layer := by
  have hderived : derivedReverseDeps layer =
      ((HashOrder.increasing.order layer.edges).foldl Layer.addEdge Layer.new).reverseDeps :=
    foldl_indexEdge _ Layer.new
  rw [hderived]
  apply h.reverseDeps_eq (indexInStep_new.foldl_addEdge _)
  rw [edges_foldl_addEdge]
  ext edge
  simp [Layer.new, HashOrder.mem_order]

/-- No target of an index in step is listed without a source. -/
theorem IndexInStep.sources_nonempty {layer : Layer} (h : IndexInStep layer) {target : String}
    {sources : Finset String} (hsources : layer.reverseDeps.lookup target = some sources) :
    sources ≠ ∅ := by
  rw [h target] at hsources
  split at hsources
  · cases hsources
  · rename_i hsome
    rw [← Option.some.inj hsources]
    exact hsome

/-- An edit keeps the index in step. -/
theorem IndexInStep.applyTo {layer : Layer} (h : IndexInStep layer) (edit : EdgeEdit) :
    IndexInStep (EdgeEdit.applyTo layer edit) := by
  cases edit with
  | add edge => exact h.addEdge edge
  | remove edge => exact h.removeEdge edge

/-- Any edits keep the index in step. -/
theorem IndexInStep.run {layer : Layer} (h : IndexInStep layer) (edits : List EdgeEdit) :
    IndexInStep (Runs.run EdgeEdit.applyTo layer edits) := by
  induction edits generalizing layer with
  | nil => exact h
  | cons edit edits ih => exact ih (h.applyTo edit)

/-- After any edits the index is the one that the edges alone give, and no
target is listed without a source. -/
theorem reverseDeps_maintained (edits : List EdgeEdit) :
    (Runs.run EdgeEdit.applyTo Layer.new edits).reverseDeps =
        derivedReverseDeps (Runs.run EdgeEdit.applyTo Layer.new edits) ∧
      ∀ target sources,
        (Runs.run EdgeEdit.applyTo Layer.new edits).reverseDeps.lookup target = some sources →
          sources ≠ ∅ := by
  have hstep := indexInStep_new.run edits
  exact ⟨hstep.eq_derived, fun target sources hsources => hstep.sources_nonempty hsources⟩

end Tyo3.ReverseDependencies
