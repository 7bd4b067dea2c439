import Tyo3.CodeLayerPasses

/-!
# The walk over the ancestors of a class

The methods that a class may override are gathered breadth first over the
inheritance edges, the first method of a name staying. The walk marks a class
when it is queued, so it ends on cyclic inheritance too, and a name ends up
with a method of a nearest class that has one.
-/

namespace Tyo3.InheritanceWalks

open CodeLayer CodeLayerBuilder CodeLayerPasses FiniteMaps Worklists

/-! ## Ancestors and their methods -/

/-- One inheritance edge joins two nodes. -/
def Inherits (layer : Layer) (cls parent : String) : Prop :=
  ∃ e ∈ layer.edges, e.kind = .inherits ∧ e.source = cls ∧ e.target = parent

/-- A class is reached over a number of inheritance edges. -/
def Ascends (layer : Layer) (cls : String) : ℕ → String → Prop :=
  Walk (fun child => {parent | Inherits layer child parent}) cls

/-- A method or constructor of a name directly inside a node. -/
def HasMethod (layer : Layer) (container name method : String) : Prop :=
  (∃ e ∈ layer.edges, (e.kind = .defines ∨ e.kind = .contains) ∧ e.source = container ∧
    e.target = method) ∧
  ∃ node, layer.nodes.lookup method = some node ∧
    (node.kind = .method ∨ node.kind = .constructor) ∧ node.name = name

/-- A method of a name inside a class at the least distance at which there is
one. -/
def Nearest (layer : Layer) (cls name method : String) : Prop :=
  ∃ k ancestor, Ascends layer cls (k + 1) ancestor ∧ HasMethod layer ancestor name method ∧
    ∀ j < k, ∀ other, Ascends layer cls (j + 1) other → ∀ m, ¬ HasMethod layer other name m

theorem mem_parentsOf {layer : Layer} {cls parent : String} :
    parent ∈ parentsOf layer.edges cls ↔ Inherits layer cls parent := by
  unfold parentsOf Inherits
  rw [HashOrder.mem_order, Finset.mem_image]
  constructor
  · rintro ⟨e, he, htarget⟩
    have hmem := Finset.mem_filter.mp he
    exact ⟨e, hmem.1, hmem.2.2, hmem.2.1, htarget⟩
  · rintro ⟨e, he, hkind, hsource, htarget⟩
    exact ⟨e, Finset.mem_filter.mpr ⟨he, hsource, hkind⟩, htarget⟩

/-! ## Noting methods -/

/-- What noting children does to the table: entries stay, a new entry is one
of the children, and no name of a child is left without one. -/
structure Noted (found : String → String → Prop) (methods methods' : FMap String String) :
    Prop where
  /-- Entries stay. -/
  stays : ∀ name m, methods.lookup name = some m → methods'.lookup name = some m
  /-- New entries are found. -/
  new : ∀ name m, methods'.lookup name = some m → methods.lookup name = none → found name m
  /-- What is found has an entry for its name. -/
  all : ∀ name m, found name m → methods'.lookup name ≠ none

theorem Noted.trans {found found' : String → String → Prop}
    {methods methods' methods'' : FMap String String} (h : Noted found methods methods')
    (h' : Noted found' methods' methods'') :
    Noted (fun name m => found name m ∨ found' name m) methods methods'' where
  stays := fun name m hm => h'.stays name m (h.stays name m hm)
  new := fun name m hm hnone => by
    cases hbetween : methods'.lookup name with
    | none => exact .inr (h'.new name m hm hbetween)
    | some first =>
      have hsame := h'.stays name first hbetween
      rw [hm] at hsame
      rw [← Option.some.inj hsame] at hbetween
      exact .inl (h.new name m hbetween hnone)
  all := fun name m hfound => by
    rcases hfound with hfound | hfound
    · cases hbetween : methods'.lookup name with
      | none => exact absurd hbetween (h.all name m hfound)
      | some first =>
        rw [h'.stays name first hbetween]
        exact Option.some_ne_none first
    · exact h'.all name m hfound

/-- A child that is a method of a name. -/
def IsMethod (layer : Layer) (child name : String) : Prop :=
  ∃ node, layer.nodes.lookup child = some node ∧
    (node.kind = .method ∨ node.kind = .constructor) ∧ node.name = name

theorem noted_noteMethod (layer : Layer) (methods : FMap String String) (child : String) :
    Noted (fun name m => m = child ∧ IsMethod layer child name) methods
      (noteMethod layer.nodes methods child) := by
  unfold noteMethod
  split
  · rename_i hnone
    refine ⟨fun _ _ hm => hm, fun name m hm hbefore => ?_, fun name m hfound => ?_⟩
    · rw [hbefore] at hm
      cases hm
    · obtain ⟨-, node, hnode, -⟩ := hfound
      rw [hnone] at hnode
      cases hnode
  · rename_i node hnode
    split
    · rename_i hnew
      refine ⟨fun name m hm => ?_, fun name m hm hbefore => ?_, fun name m hfound => ?_⟩
      · rw [lookup_insert_ite, if_neg]
        · exact hm
        · intro heq
          rw [heq, hnew.2] at hm
          cases hm
      · rw [lookup_insert_ite] at hm
        split at hm
        · rename_i heq
          exact ⟨(Option.some.inj hm).symm, node, hnode, hnew.1, heq.symm⟩
        · rw [hbefore] at hm
          cases hm
      · obtain ⟨-, node', hnode', -, hname⟩ := hfound
        rw [hnode] at hnode'
        rw [lookup_insert_ite, if_pos]
        · exact Option.some_ne_none child
        · rw [← hname, ← Option.some.inj hnode']
    · rename_i hold
      refine ⟨fun _ _ hm => hm, fun name m hm hbefore => ?_, fun name m hfound => ?_⟩
      · rw [hbefore] at hm
        cases hm
      · obtain ⟨-, node', hnode', hkind, hname⟩ := hfound
        rw [hnode] at hnode'
        rw [← Option.some.inj hnode'] at hkind hname
        intro hbefore
        rw [← hname] at hbefore
        exact hold ⟨hkind, hbefore⟩

/-- Noting some children one after the other. -/
theorem noted_children (layer : Layer) (children : List String) (methods : FMap String String) :
    Noted (fun name m => m ∈ children ∧ IsMethod layer m name) methods
      (children.foldl (noteMethod layer.nodes) methods) := by
  induction children generalizing methods with
  | nil =>
    refine ⟨fun _ _ hm => hm, fun name m hm hbefore => ?_, fun name m hfound => ?_⟩
    · rw [List.foldl_nil, hbefore] at hm
      cases hm
    · exact absurd hfound.1 List.not_mem_nil
  | cons child children ih =>
    have hall := (noted_noteMethod layer methods child).trans
      (ih (noteMethod layer.nodes methods child))
    rw [List.foldl_cons]
    refine ⟨hall.stays, fun name m hm hbefore => ?_, fun name m hfound => hall.all name m ?_⟩
    · rcases hall.new name m hm hbefore with ⟨heq, hmethod⟩ | ⟨hin, hmethod⟩
      · exact ⟨heq ▸ List.mem_cons_self, heq ▸ hmethod⟩
      · exact ⟨List.mem_cons_of_mem _ hin, hmethod⟩
    · rcases List.mem_cons.mp hfound.1 with heq | hin
      · exact .inl ⟨heq, heq ▸ hfound.2⟩
      · exact .inr ⟨hin, hfound.2⟩

/-! ## One step -/

/-- What looking at parents does: they are marked, the new ones are queued
and their methods are noted. -/
structure Looked (layer : Layer) (parents : List String) (acc acc' : AncestorWalk × List String) :
    Prop where
  /-- The parents are marked. -/
  visited : ∀ x, x ∈ acc'.1.visited ↔ x ∈ acc.1.visited ∨ x ∈ parents
  /-- The new ones are queued. -/
  queued : ∀ x, x ∈ acc'.2 ↔ x ∈ acc.2 ∨ x ∈ parents ∧ x ∉ acc.1.visited
  /-- Their methods are noted. -/
  noted : Noted (fun name m => ∃ parent ∈ parents, HasMethod layer parent name m)
    acc.1.methods acc'.1.methods
  /-- Marks pay for the queue. -/
  paid : ∀ targets : Finset String, (∀ parent ∈ parents, parent ∈ targets) →
    (targets \ acc'.1.visited).card + acc'.2.length ≤
      (targets \ acc.1.visited).card + acc.2.length

theorem looked_foldl (layer : Layer) (parents : List String) (acc : AncestorWalk × List String) :
    Looked layer parents acc (parents.foldl (visitParent layer) acc) := by
  induction parents generalizing acc with
  | nil =>
    refine ⟨by simp, by simp, ⟨fun _ _ hm => hm, fun name m hm hbefore => ?_, by simp⟩, by simp⟩
    rw [List.foldl_nil, hbefore] at hm
    cases hm
  | cons parent parents ih =>
    have hrest := ih (visitParent layer acc parent)
    have hnoted := (noted_children layer (childrenOf layer.edges parent) acc.1.methods).trans
      hrest.noted
    rw [List.foldl_cons]
    refine ⟨fun x => ?_, fun x => ?_, ⟨hnoted.stays, fun name m hm hbefore => ?_,
      fun name m hfound => hnoted.all name m ?_⟩, fun targets htargets => ?_⟩
    · rw [hrest.visited x]
      unfold visitParent
      simp only [Finset.mem_insert, List.mem_cons]
      tauto
    · rw [hrest.queued x]
      unfold visitParent
      by_cases hseen : parent ∈ acc.1.visited
      · simp only [if_pos hseen, Finset.mem_insert, List.mem_cons]
        constructor
        · rintro (hq | ⟨hin, hnot⟩)
          · exact .inl hq
          · exact .inr ⟨.inr hin, fun hv => hnot (.inr hv)⟩
        · rintro (hq | ⟨heq | hin, hnot⟩)
          · exact .inl hq
          · exact absurd (heq ▸ hseen) hnot
          · refine .inr ⟨hin, ?_⟩
            rintro (heq | hv)
            · exact hnot (heq ▸ hseen)
            · exact hnot hv
      · simp only [if_neg hseen, Finset.mem_insert, List.mem_cons, List.mem_append,
          List.not_mem_nil, or_false]
        constructor
        · rintro ((hq | heq) | ⟨hin, hnot⟩)
          · exact .inl hq
          · exact .inr ⟨.inl heq, heq ▸ hseen⟩
          · exact .inr ⟨.inr hin, fun hv => hnot (.inr hv)⟩
        · rintro (hq | ⟨heq | hin, hnot⟩)
          · exact .inl (.inl hq)
          · exact .inl (.inr heq)
          · by_cases heq : x = parent
            · exact .inl (.inr heq)
            · exact .inr ⟨hin, fun hv => hv.elim heq hnot⟩
    · rcases hnoted.new name m hm hbefore with ⟨hchild, hmethod⟩ | ⟨other, hother, hhas⟩
      · exact ⟨parent, List.mem_cons_self, mem_childrenOf.mp hchild, hmethod⟩
      · exact ⟨other, List.mem_cons_of_mem _ hother, hhas⟩
    · obtain ⟨other, hother, hhas⟩ := hfound
      rcases List.mem_cons.mp hother with heq | hin
      · rw [heq] at hhas
        exact .inl ⟨mem_childrenOf.mpr hhas.1, hhas.2⟩
      · exact .inr ⟨other, hin, hhas⟩
    · have hpaid := hrest.paid targets fun p hp => htargets p (List.mem_cons_of_mem _ hp)
      refine hpaid.trans ?_
      unfold visitParent
      by_cases hseen : parent ∈ acc.1.visited
      · simp only [if_pos hseen, Finset.insert_eq_of_mem hseen]
        exact le_refl _
      · have hin : parent ∈ targets \ acc.1.visited :=
          Finset.mem_sdiff.mpr ⟨htargets parent List.mem_cons_self, hseen⟩
        have herase : targets \ insert parent acc.1.visited =
            (targets \ acc.1.visited).erase parent := by
          ext x
          simp only [Finset.mem_sdiff, Finset.mem_insert, Finset.mem_erase]
          tauto
        have hcard := Finset.card_erase_add_one hin
        simp only [if_neg hseen, herase, List.length_append, List.length_singleton]
        omega

/-- One step of the walk spreads over the inheritance edges. -/
theorem spreads_ancestorStep (layer : Layer) :
    Spreads (ancestorStep layer) AncestorWalk.visited
      (fun child => {parent | Inherits layer child parent}) where
  visits := fun walk current x => by
    have hlooked := looked_foldl layer (parentsOf layer.edges current) (walk, [])
    unfold ancestorStep
    rw [hlooked.visited x, mem_parentsOf]
    rfl
  appends := fun walk current x => by
    have hlooked := looked_foldl layer (parentsOf layer.edges current) (walk, [])
    unfold ancestorStep
    rw [hlooked.queued x, mem_parentsOf]
    exact or_iff_right List.not_mem_nil

/-- Marks pay for the queue of the walk. -/
theorem bounded_ancestorStep (layer : Layer) :
    Bounded (ancestorStep layer) fun walk => (inheritTargets layer.edges \ walk.visited).card where
  pays := fun walk current => by
    have hlooked := looked_foldl layer (parentsOf layer.edges current) (walk, [])
    have htargets : ∀ parent ∈ parentsOf layer.edges current,
        parent ∈ inheritTargets layer.edges := by
      intro parent hparent
      obtain ⟨e, he, hkind, -, htarget⟩ := mem_parentsOf.mp hparent
      exact Finset.mem_image.mpr ⟨e, Finset.mem_filter.mpr ⟨he, hkind⟩, htarget⟩
    exact hlooked.paid _ htargets

/-! ## The whole walk -/

/-- The walk over the ancestors ends, with the methods it returns. -/
theorem ends_ancestorMethods (layer : Layer) (cls : String) :
    ∃ final, Ends (ancestorStep layer) ⟨{cls}, ∅⟩ [cls] final ∧
      final.methods = ancestorMethods layer cls := by
  refine ⟨_, ends_run (bounded_ancestorStep layer) ?_, rfl⟩
  have hcard := Finset.card_le_card
    (Finset.sdiff_subset : inheritTargets layer.edges \ {cls} ⊆ inheritTargets layer.edges)
  simp only [List.length_singleton]
  omega

/-- The walk notes a nearest method of every name that some ancestor has. -/
theorem ancestorMethods_spec (layer : Layer) (cls name : String) :
    (∀ m, (ancestorMethods layer cls).lookup name = some m → Nearest layer cls name m) ∧
    ((ancestorMethods layer cls).lookup name = none → ∀ m, ¬ Nearest layer cls name m) := by
  obtain ⟨final, hends, hfinal⟩ := ends_ancestorMethods layer cls
  -- names of parents of classes that are done have an entry, and entries are nearest
  have hlevels : Levels (fun child => {parent | Inherits layer child parent}) cls
      (AncestorWalk.visited ⟨{cls}, ∅⟩) ∅ 0 [cls] [] := by
    refine ⟨by simp, fun x hx => .inr (List.mem_singleton.mpr hx.1), ?_, by simp, ?_, by simp⟩
    · intro x hx
      exact ⟨List.mem_singleton.mp hx, by simp⟩
    · intro x
      rw [Finset.mem_singleton, or_iff_left List.not_mem_nil]
      constructor
      · intro heq
        exact ⟨0, le_refl 0, heq, by simp⟩
      · rintro ⟨j, hj, hat⟩
        have hzero : j = 0 := by omega
        rw [hzero] at hat
        exact hat.1
  have hrule := @breadthFirst _ _ (fun child => {parent | Inherits layer child parent}) cls
    (ancestorStep layer) AncestorWalk.visited (spreads_ancestorStep layer)
    (fun walk done => (∀ child ∈ done, ∀ parent, Inherits layer child parent →
        ∀ name m, HasMethod layer parent name m → walk.methods.lookup name ≠ none) ∧
      ∀ name m, walk.methods.lookup name = some m → Nearest layer cls name m)
    (by
      intro walk done current k hat hnear hnotes
      have hlooked := looked_foldl layer (parentsOf layer.edges current) (walk, [])
      refine ⟨fun child hchild parent hparent name m hhas => ?_, fun name m hm => ?_⟩
      · rcases hchild with heq | hdone
        · rw [heq] at hparent
          exact hlooked.noted.all name m ⟨parent, mem_parentsOf.mpr hparent, hhas⟩
        · have hbefore := hnotes.1 child hdone parent hparent name m hhas
          cases hentry : walk.methods.lookup name with
          | none => exact absurd hentry hbefore
          | some first =>
            have hstays := hlooked.noted.stays name first hentry
            exact fun hnone => Option.some_ne_none first (hstays.symm.trans hnone)
      · cases hentry : walk.methods.lookup name with
        | some first =>
          have hstays := hlooked.noted.stays name first hentry
          have hsame := Option.some.inj (hstays.symm.trans hm)
          exact hnotes.2 name m (hsame ▸ hentry)
        | none =>
          obtain ⟨parent, hparent, hhas⟩ := hlooked.noted.new name m hm hentry
          refine ⟨k, parent, ⟨current, hat.1, mem_parentsOf.mp hparent⟩, hhas, ?_⟩
          rintro j hj other ⟨child, hwalk, hinherits⟩ m' hhas'
          obtain ⟨i, hi, hati⟩ := exists_atDistance hwalk
          exact hnotes.1 child (hnear i (by omega) child hati) other hinherits name m' hhas' hentry)
    _ _ _ hends 0 [cls] [] ∅ rfl hlevels ⟨by simp, fun name m hm => by cases hm⟩
  obtain ⟨done, hnotes, hall⟩ := hrule
  rw [← hfinal]
  refine ⟨fun m hm => hnotes.2 name m hm, fun hnone m hnearest => ?_⟩
  obtain ⟨k, ancestor, ⟨child, hwalk, hinherits⟩, hhas, -⟩ := hnearest
  exact hnotes.1 child (hall k child hwalk) ancestor hinherits name m hhas hnone

end Tyo3.InheritanceWalks
