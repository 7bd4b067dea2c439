import Tyo3.IdentityPostState

/-!
# Registries along whole runs of reconciliations

Every registry the program can hold comes from the empty one by a sequence
of reconciliations. The indexes stay sound along every such run. The path
index also stays complete as long as no reconciliation binds an orphan whose
old path has another owner by now; entities of pairwise different paths each
keep an id of their own.
-/

namespace Tyo3.IdentityRuns

open Entities FiniteMaps IdentityAnchors IdentityMatching IdentityPostState IdentityReconciliation

/-- One reconciliation: what it is given besides the registry. -/
structure Call where
  /-- Order of the anchor store. -/
  iter : HashOrder DurableId
  /-- Supply of fresh ids. -/
  mint : ℕ → DurableId
  /-- Extracted entities. -/
  entities : List Entity
  /-- Revision of the commit. -/
  revision : Revision
  /-- Scoped files, absent for the whole project. -/
  scope : Option (Finset String)

/-- Report and registry after a call. -/
def Call.run (c : Call) (r : IdentityRegistry) : Reconciliation × IdentityRegistry :=
  reconcileImpl c.iter c.mint r c.entities c.revision c.scope

/-- Registries reached from the empty one by calls with fresh ids that meet
a condition on the registry and the call. -/
inductive ReachableBy (ok : IdentityRegistry → Call → Prop) : IdentityRegistry → Prop
  | start : ReachableBy ok IdentityRegistry.empty
  | step {r : IdentityRegistry} (c : Call) (hr : ReachableBy ok r) (hf : Fresh c.mint r)
      (hok : ok r c) : ReachableBy ok (c.run r).2

/-- A stronger condition reaches fewer registries. -/
theorem ReachableBy.mono {ok ok' : IdentityRegistry → Call → Prop} (h : ∀ r c, ok r c → ok' r c)
    {r : IdentityRegistry} (hr : ReachableBy ok r) : ReachableBy ok' r := by
  induction hr with
  | start => exact ReachableBy.start
  | step c _ hf hok ih => exact ReachableBy.step c ih hf (h _ c hok)

/-- Every reachable registry has sound indexes. -/
theorem ReachableBy.sound {ok : IdentityRegistry → Call → Prop} {r : IdentityRegistry}
    (hr : ReachableBy ok r) : r.Sound := by
  induction hr with
  | start => exact IdentityRegistry.Sound.empty
  | step c _ _ _ ih => exact reconcileImpl_sound ih c.iter c.mint c.entities c.revision c.scope

/-- The entities of a call have pairwise different paths. -/
def DistinctPaths (_ : IdentityRegistry) (c : Call) : Prop :=
  (c.entities.map Entity.qualifiedPath).Nodup

instance (r : IdentityRegistry) (c : Call) : Decidable (DistinctPaths r c) :=
  inferInstanceAs (Decidable (List.Nodup _))

/-- A supply of ids, each longer than the given bound. -/
def longIds (bound k : ℕ) : DurableId := String.ofList (List.replicate (bound + k + 1) 'A')

/-- Long ids differ in length. -/
theorem longIds_injective (bound : ℕ) : Function.Injective (longIds bound) := by
  intro i j hij
  have hlen := congrArg String.length hij
  simp only [longIds, String.length_ofList, List.length_replicate] at hlen
  omega

/-- Long ids are fresh for a registry of short ones. -/
theorem longIds_fresh {r : IdentityRegistry} {bound : ℕ}
    (h : ∀ id ∈ r.byId.keys, id.length ≤ bound) : Fresh (longIds bound) r where
  injective := longIds_injective bound
  unknown k := by
    cases hg : r.get (longIds bound k) with
    | none => rfl
    | some a =>
      have hlen := h (longIds bound k) ((mem_keys_iff _ _).mpr ⟨a, hg⟩)
      simp only [longIds, String.length_ofList, List.length_replicate] at hlen
      omega

/-! ## The index invariant -/

/-- The three indexes agree: live anchors are found under their path and
exactly once under their hash, a path entry names a live anchor of that
path, a hash entry an anchor of that hash. -/
structure Indexed (r : IdentityRegistry) : Prop where
  /-- A live anchor is found under its path. -/
  live_path : ∀ id a, r.get id = some a → a.status ≠ .orphaned →
    r.byPath.lookup a.qualifiedPath = some id
  /-- A live anchor is listed once under its hash. -/
  live_hash : ∀ id a, r.get id = some a → a.status ≠ .orphaned →
    (r.hashIds a.contentHash).count id = 1
  /-- A path entry names a live anchor of that path. -/
  path_live : ∀ p id, r.byPath.lookup p = some id →
    ∃ a, r.get id = some a ∧ a.status ≠ .orphaned ∧ a.qualifiedPath = p
  /-- A hash entry names an anchor of that hash. -/
  hash_listed : ∀ h id, id ∈ r.hashIds h → ∃ a, r.get id = some a ∧ a.contentHash = h

/-- The empty registry is indexed. -/
theorem Indexed.empty : Indexed IdentityRegistry.empty where
  live_path id a h := by simp [IdentityRegistry.get, IdentityRegistry.empty] at h
  live_hash id a h := by simp [IdentityRegistry.get, IdentityRegistry.empty] at h
  path_live p id h := by simp [IdentityRegistry.empty] at h
  hash_listed h id hm := by simp [IdentityRegistry.hashIds, IdentityRegistry.empty] at hm

/-- An anchor that the second or third pass may offer to an entity. -/
def Resembles (a : Anchor) (e : Entity) : Prop :=
  a.contentHash = e.contentHash ∨ a.name = e.name ∧ a.kind = e.kind ∧ a.container = e.container

instance (a : Anchor) (e : Entity) : Decidable (Resembles a e) :=
  inferInstanceAs (Decidable (_ ∨ _))

/-- No orphan in scope whose old path is the path of an entity resembles an
entity further down the path order that has no anchor under its path. -/
def KeepsPaths (r : IdentityRegistry) (c : Call) : Prop :=
  ∀ id ∈ r.byId.keys, ∀ a ∈ r.get id, a.status = .orphaned →
    anchorInScope r id c.scope = true →
    ∀ x ∈ c.entities, x.qualifiedPath = a.qualifiedPath →
    ∀ y ∈ c.entities, x.qualifiedPath < y.qualifiedPath →
      r.byPath.lookup y.qualifiedPath = none → ¬Resembles a y

instance (r : IdentityRegistry) (c : Call) : Decidable (KeepsPaths r c) :=
  inferInstanceAs (Decidable (∀ id ∈ r.byId.keys, ∀ a ∈ r.get id, _))

section Step

variable {r : IdentityRegistry} {mint : ℕ → DurableId} {entities : List Entity}
  {revision : Revision} {scope : Option (Finset String)}
  {out : Reconciliation × IdentityRegistry} {plan : List Bound}

/-- An entry that gives up the path of another entry or of an unclaimed live
anchor was bound to an orphan in scope that resembles its entity. -/
theorem orphan_of_givenUp (hs : r.Sound) (hi : Indexed r)
    (ho : Outcome mint r entities revision scope out plan) {y : Bound} (hy : y ∈ plan) {q : String}
    (hgive : givenUp r y = some q) (hq : q ≠ y.entity.qualifiedPath)
    (hholder : ∀ id, r.byPath.lookup q = some id → id ≠ y.id) :
    ∃ a, r.get y.id = some a ∧ a.qualifiedPath = q ∧ a.status = .orphaned ∧
      anchorInScope r y.id scope = true ∧ r.byPath.lookup y.entity.qualifiedPath = none ∧
      Resembles a y.entity := by
  have hminted : y.binding.isMinted = false := by
    unfold givenUp at hgive
    cases hm : y.binding.isMinted with
    | true => simp [hm] at hgive
    | false => rfl
  unfold givenUp at hgive
  rw [hminted, if_neg Bool.false_ne_true] at hgive
  obtain ⟨a, ha, haq⟩ := Option.map_eq_some_iff.mp hgive
  have horphan : a.status = .orphaned := by
    by_contra hlive
    have hpath := hi.live_path y.id a ha hlive
    rw [haq] at hpath
    exact hholder y.id hpath rfl
  have hj := ho.justified y hy
  have hfree : y.binding.isExact = false → r.byPath.lookup y.entity.qualifiedPath = none := by
    intro hne
    cases hl : r.byPath.lookup y.entity.qualifiedPath with
    | none => rfl
    | some id =>
      have hex := (ho.indexed y hy id hl).2
      rw [hne] at hex
      cases hex
  cases hb : y.binding with
  | exact id oldHash =>
    rw [hb] at hj
    have hid : y.id = id := congrArg Binding.id hb
    obtain ⟨b, hget, hbp⟩ := hs.path_anchor _ id hj.1
    rw [hid, hget] at ha
    cases ha
    exact (hq (haq.symm.trans hbp)).elim
  | moved id oldPath oldHash =>
    rw [hb] at hj hfree
    have hid : y.id = id := congrArg Binding.id hb
    obtain ⟨⟨b, hget, hhash, -⟩, hscope, -⟩ := hj
    rw [← hid] at hget hscope
    rw [ha] at hget
    cases hget
    exact ⟨a, ha, haq, horphan, hscope, hfree rfl, Or.inl hhash⟩
  | struct id confidence oldHash =>
    rw [hb] at hj hfree
    have hid : y.id = id := congrArg Binding.id hb
    obtain ⟨⟨b, hget, -, hname, hkind, hcont⟩, hscope, -⟩ := hj
    rw [← hid] at hget hscope
    rw [ha] at hget
    cases hget
    exact ⟨a, ha, haq, horphan, hscope, hfree rfl, Or.inr ⟨hname, hkind, hcont⟩⟩
  | minted id =>
    rw [hb] at hminted
    cases hminted

/-- No path of an entity belongs to a vanished anchor. -/
theorem not_vanishedPath_of_mem (hi : Indexed r)
    (ho : Outcome mint r entities revision scope out plan) {x : Bound} (hx : x ∈ plan) :
    ¬VanishedPath scope plan r x.entity.qualifiedPath := by
  rintro ⟨id, hv, hq⟩
  obtain ⟨hfree, -, a, ha, hlive⟩ := vanished_iff.mp hv
  rw [ha, Option.map_some, Option.some_inj] at hq
  have hpath := hi.live_path id a ha hlive
  rw [hq] at hpath
  exact hfree (mem_claimed.mpr ⟨x, hx, (ho.indexed x hx id hpath).1⟩)

/-- The path entry of an entity survives exactly when no entry further down
gives it up. -/
theorem byPath_taken_iff (hi : Indexed r)
    (ho : Outcome mint r entities revision scope out plan) {x : Bound} (hx : x ∈ plan) :
    out.2.byPath.lookup x.entity.qualifiedPath = some x.id ↔
      ¬∃ y ∈ plan, x.entity.qualifiedPath < y.entity.qualifiedPath ∧
        givenUp r y = some x.entity.qualifiedPath := by
  rw [ho.byPath_taken x hx]
  exact ⟨fun h => h.2.2, fun h => ⟨rfl, not_vanishedPath_of_mem hi ho hx, h⟩⟩

/-- An anchor that stays live without an entity keeps its path entry. -/
theorem byPath_unclaimed (hs : r.Sound) (hi : Indexed r)
    (ho : Outcome mint r entities revision scope out plan) {id : DurableId} {a : Anchor}
    (hid : id ∉ claimed plan) (hget : out.2.get id = some a) (hlive : a.status ≠ .orphaned) :
    out.2.byPath.lookup a.qualifiedPath = some id := by
  have hstay : vanished scope (claimed plan) r id ≠ true ∧ r.get id = some a := by
    rw [ho.get_other id hid] at hget
    split at hget
    · obtain ⟨b, -, hb⟩ := Option.map_eq_some_iff.mp hget
      rw [← hb] at hlive
      exact (hlive rfl).elim
    · rename_i hv
      exact ⟨hv, hget⟩
  obtain ⟨hv, ha⟩ := hstay
  have hpath := hi.live_path id a ha hlive
  have hout : anchorInScope r id scope = false := by
    cases hsc : anchorInScope r id scope with
    | false => rfl
    | true => exact (hv (vanished_iff.mpr ⟨hid, hsc, a, ha, hlive⟩)).elim
  have huntaken : ∀ x ∈ plan, x.entity.qualifiedPath ≠ a.qualifiedPath := by
    intro x hx h
    have hx' := (ho.indexed x hx id (h ▸ hpath)).1
    exact hid (mem_claimed.mpr ⟨x, hx, hx'⟩)
  refine (ho.byPath_other _ huntaken id).mpr ⟨hpath, ?_, ?_⟩
  · rintro ⟨k, hk, hq⟩
    obtain ⟨-, -, b, hb, hblive⟩ := vanished_iff.mp hk
    rw [hb, Option.map_some, Option.some_inj] at hq
    have hkpath := hi.live_path k b hb hblive
    rw [hq, hpath] at hkpath
    cases hkpath
    exact hv hk
  · rintro ⟨y, hy, hgive⟩
    have hholder : ∀ k, r.byPath.lookup a.qualifiedPath = some k → k ≠ y.id := by
      intro k hk h
      rw [hpath] at hk
      cases hk
      exact hid (mem_claimed.mpr ⟨y, hy, h.symm⟩)
    obtain ⟨b, hb, hbq, -, hscope, -⟩ :=
      orphan_of_givenUp hs hi ho hy hgive (huntaken y hy).symm hholder
    -- both anchors have one path, so the scope cannot tell them apart
    have hsame : anchorInScope r y.id scope = anchorInScope r id scope := by
      unfold anchorInScope
      cases scope with
      | none => rfl
      | some files => simp only [hb, ha, hbq]
    rw [hsame, hout] at hscope
    cases hscope

/-- A step keeps the index invariant exactly when no entry gives up the path
of an entry before it. -/
theorem indexed_step_iff (hs : r.Sound) (hs' : out.2.Sound) (hi : Indexed r)
    (ho : Outcome mint r entities revision scope out plan) :
    Indexed out.2 ↔ ∀ x ∈ plan, ∀ y ∈ plan, x.entity.qualifiedPath < y.entity.qualifiedPath →
      givenUp r y ≠ some x.entity.qualifiedPath := by
  constructor
  · intro hi' x hx y hy hlt hgive
    obtain ⟨a, ha, hap, -, hlive⟩ := ho.get_bound_live hx
    have hpath := hi'.live_path x.id a ha hlive
    rw [hap] at hpath
    exact (byPath_taken_iff hi ho hx).mp hpath ⟨y, hy, hlt, hgive⟩
  · intro hkeep
    refine ⟨?_, fun id a ha _ => hs'.hash_once id a ha, ?_, hs'.hash_anchor⟩
    · intro id a ha hlive
      by_cases hid : id ∈ claimed plan
      · obtain ⟨x, hx, rfl⟩ := mem_claimed.mp hid
        obtain ⟨b, hb, hbp, -⟩ := ho.get_bound_live hx
        rw [hb] at ha
        cases ha
        rw [hbp]
        refine (byPath_taken_iff hi ho hx).mpr ?_
        rintro ⟨y, hy, hlt, hgive⟩
        exact hkeep x hx y hy hlt hgive
      · exact byPath_unclaimed hs hi ho hid ha hlive
    · intro p id hp
      by_cases htaken : ∃ x ∈ plan, x.entity.qualifiedPath = p
      · obtain ⟨x, hx, rfl⟩ := htaken
        obtain ⟨a, ha, hap, -, hlive⟩ := ho.get_bound_live hx
        have hidx := ((ho.byPath_taken x hx id).mp hp).1
        exact ⟨a, hidx ▸ ha, hlive, hap⟩
      · have huntaken : ∀ x ∈ plan, x.entity.qualifiedPath ≠ p :=
          fun x hx h => htaken ⟨x, hx, h⟩
        obtain ⟨hold, hvan, hgive⟩ := (ho.byPath_other p huntaken id).mp hp
        obtain ⟨a, ha, hlive, hap⟩ := hi.path_live p id hold
        have hid : id ∉ claimed plan := by
          intro hmem
          obtain ⟨y, hy, hyid⟩ := mem_claimed.mp hmem
          refine hgive ⟨y, hy, ?_⟩
          unfold givenUp
          cases hm : y.binding.isMinted with
          | true =>
            have hnone := ho.fits.minted y hy hm
            rw [hyid, ha] at hnone
            cases hnone
          | false =>
            rw [if_neg Bool.false_ne_true, hyid, ha, Option.map_some, hap]
        have hstay : vanished scope (claimed plan) r id ≠ true := by
          intro hv
          refine hvan ⟨id, hv, ?_⟩
          rw [ha, Option.map_some, hap]
        refine ⟨a, ?_, hlive, hap⟩
        rw [ho.get_other id hid, if_neg hstay]
        exact ha

end Step

/-- A call that keeps paths keeps the index invariant. -/
theorem Indexed.step {r : IdentityRegistry} (hs : r.Sound) (hi : Indexed r) {c : Call}
    (hf : Fresh c.mint r) (hd : DistinctPaths r c) (hk : KeepsPaths r c) :
    Indexed (c.run r).2 := by
  obtain ⟨plan, ho⟩ := reconcileImpl_outcome hs.linked hf c.iter hd c.revision c.scope
  have hs' := reconcileImpl_sound hs c.iter c.mint c.entities c.revision c.scope
  refine (indexed_step_iff hs hs' hi ho).mpr ?_
  intro x hx y hy hlt hgive
  have hmem : ∀ z ∈ plan, z.entity ∈ c.entities := by
    intro z hz
    have h : z.entity ∈ sortEntities c.entities := by
      rw [← ho.entities]
      exact List.mem_map_of_mem hz
    exact (sortEntities_perm _).mem_iff.mp h
  have hne : y.id ≠ x.id := by
    intro h
    have hxy := List.inj_on_of_nodup_map ho.fits.distinct hy hx h
    rw [hxy] at hlt
    exact lt_irrefl _ hlt
  have hholder : ∀ id, r.byPath.lookup x.entity.qualifiedPath = some id → id ≠ y.id := by
    intro id hid h
    exact hne (h ▸ (ho.indexed x hx id hid).1).symm
  obtain ⟨a, ha, hap, horphan, hscope, hfree, hlike⟩ :=
    orphan_of_givenUp hs hi ho hy hgive hlt.ne hholder
  exact hk y.id ((mem_keys_iff _ _).mpr ⟨a, ha⟩) a ha horphan hscope x.entity (hmem x hx)
    hap.symm y.entity (hmem y hy) hlt hfree hlike

/-- A function at the top level of a file, as the extraction reports it. -/
def topFunction (file name : String) (hash : ContentHash) : Entity where
  qualifiedPath := file ++ "::" ++ name
  kind := .function
  contentHash := hash
  container := none
  name := name
  file := file
  fullRange := ⟨0, 0⟩
  nameRange := ⟨0, 0⟩
  qualifiedName := name

/-- A call on the whole project whose fresh ids are longer than the bound. -/
def wholeCall (bound : ℕ) (revision : Revision) (entities : List Entity) : Call where
  iter := HashOrder.increasing
  mint := longIds bound
  entities := entities
  revision := revision
  scope := none

/-- The registry after a list of calls. -/
def runCalls (calls : List Call) : IdentityRegistry :=
  calls.foldl (fun r c => (c.run r).2) IdentityRegistry.empty

/-- Along a run of calls with distinct paths that keep paths, every registry
is indexed. -/
theorem indexed_of_reachable {r : IdentityRegistry}
    (hr : ReachableBy (fun r c => DistinctPaths r c ∧ KeepsPaths r c) r) : Indexed r := by
  induction hr with
  | start => exact Indexed.empty
  | step c hr hf hok ih => exact ih.step hr.sound hf hok.1 hok.2

/-- A function is written, deleted and restored: the path index follows. -/
theorem indexed_of_reachable_restored :
    Indexed (runCalls
      [wholeCall 0 1 [topFunction "a.py" "f" 1], wholeCall 1 2 [],
        wholeCall 1 3 [topFunction "a.py" "f" 1]]) ∧
    (runCalls
      [wholeCall 0 1 [topFunction "a.py" "f" 1], wholeCall 1 2 [],
        wholeCall 1 3 [topFunction "a.py" "f" 1]]).byPath.lookup "a.py::f" = some "A" := by
  refine ⟨indexed_of_reachable ?_, by decide +kernel⟩
  refine ReachableBy.step (wholeCall 1 3 [topFunction "a.py" "f" 1]) ?_
    (longIds_fresh (by decide +kernel)) ⟨by decide +kernel, by decide +kernel⟩
  refine ReachableBy.step (wholeCall 1 2 []) ?_
    (longIds_fresh (by decide +kernel)) ⟨by decide +kernel, by decide +kernel⟩
  exact ReachableBy.step (wholeCall 0 1 [topFunction "a.py" "f" 1]) ReachableBy.start
    (longIds_fresh (by decide +kernel)) ⟨by decide +kernel, by decide +kernel⟩

/-- A function is deleted, its path is taken by another body, and the old
body comes back in a later file: binding it drops the path entry of the
live function. -/
theorem not_indexed_after_path_reuse :
    ∃ r, ReachableBy DistinctPaths r ∧ ¬Indexed r := by
  refine ⟨runCalls
    [wholeCall 0 1 [topFunction "a.py" "f" 1], wholeCall 1 2 [],
      wholeCall 1 3 [topFunction "a.py" "f" 2],
      wholeCall 2 4 [topFunction "a.py" "f" 2, topFunction "b.py" "g" 1]], ?_, ?_⟩
  · refine ReachableBy.step (wholeCall 2 4 [topFunction "a.py" "f" 2, topFunction "b.py" "g" 1]) ?_
      (longIds_fresh (by decide +kernel)) (by decide +kernel)
    refine ReachableBy.step (wholeCall 1 3 [topFunction "a.py" "f" 2]) ?_
      (longIds_fresh (by decide +kernel)) (by decide +kernel)
    refine ReachableBy.step (wholeCall 1 2 []) ?_
      (longIds_fresh (by decide +kernel)) (by decide +kernel)
    exact ReachableBy.step (wholeCall 0 1 [topFunction "a.py" "f" 1]) ReachableBy.start
      (longIds_fresh (by decide +kernel)) (by decide +kernel)
  · intro hi
    have hlost := hi.live_path "AA"
      { id := "AA", qualifiedPath := "a.py::f", contentHash := 2, kind := .function
        firstSeenRev := 3, lastSeenRev := 4, status := .active }
      (by decide +kernel) (by decide)
    have hnone : (runCalls
        [wholeCall 0 1 [topFunction "a.py" "f" 1], wholeCall 1 2 [],
          wholeCall 1 3 [topFunction "a.py" "f" 2],
          wholeCall 2 4 [topFunction "a.py" "f" 2, topFunction "b.py" "g" 1]]).byPath.lookup
        "a.py::f" = none := by decide +kernel
    rw [hnone] at hlost
    cases hlost

/-! ## One live id for every entity -/

/-- Every entity is bound to one id of its own, which is a live anchor with
the path and hash of the entity afterwards. -/
def OwnIds (c : Call) (r : IdentityRegistry) : Prop :=
  ∃ pairing : List (Entity × Binding),
    (pairing.map Prod.fst).Perm c.entities ∧
    (pairing.map fun x => (x.1.qualifiedPath, x.2)).Perm (c.run r).1.bindings ∧
    (pairing.map fun x => x.2.id).Nodup ∧
    ∀ x ∈ pairing, ∃ a, (c.run r).2.get x.2.id = some a ∧ a.status ≠ .orphaned ∧
      a.qualifiedPath = x.1.qualifiedPath ∧ a.contentHash = x.1.contentHash

/-- The ids whose anchor has a path. -/
def idsAtPath (r : IdentityRegistry) (p : String) : Finset DurableId :=
  r.byId.keys.filter fun id => (r.get id).map Anchor.qualifiedPath = some p

/-- An id stands at a path when its anchor has it. -/
theorem mem_idsAtPath {r : IdentityRegistry} {p : String} {id : DurableId} :
    id ∈ idsAtPath r p ↔ (r.get id).map Anchor.qualifiedPath = some p := by
  unfold idsAtPath
  rw [Finset.mem_filter, mem_keys_iff]
  constructor
  · exact fun h => h.2
  · intro h
    obtain ⟨a, ha, -⟩ := Option.map_eq_some_iff.mp h
    exact ⟨⟨a, ha⟩, h⟩

/-- Entities of pairwise different paths get ids of their own. -/
theorem ownIds_of_distinctPaths {r : IdentityRegistry} (hs : r.Sound) {c : Call}
    (hf : Fresh c.mint r) (hd : DistinctPaths r c) : OwnIds c r := by
  obtain ⟨plan, ho⟩ := reconcileImpl_outcome hs.linked hf c.iter hd c.revision c.scope
  refine ⟨plan.map fun x => (x.entity, x.binding), ?_, ?_, ?_, ?_⟩
  · rw [List.map_map, show (Prod.fst ∘ fun x : Bound => (x.entity, x.binding)) = Bound.entity from rfl,
      ho.entities]
    exact sortEntities_perm c.entities
  · rw [List.map_map]
    exact ho.bindings.symm
  · rw [List.map_map]
    exact ho.fits.distinct
  · intro x hx
    obtain ⟨y, hy, rfl⟩ := List.mem_map.mp hx
    obtain ⟨a, ha, hap, hah, hlive⟩ := ho.get_bound_live hy
    exact ⟨a, ha, hlive, hap, hah⟩

/-- An id that no path entry of the passes names is not touched when the
bindings are applied. -/
theorem get_applyBindings_of_unapplied {st : Matching} {id : DurableId}
    (hid : ∀ p b, st.bindingsByPath.lookup p = some b → b.id ≠ id) (revision : Revision)
    (sorted : List Entity) (r : IdentityRegistry) :
    (applyBindings revision st sorted r).get id = r.get id := by
  unfold applyBindings
  induction sorted generalizing r with
  | nil => rfl
  | cons e sorted ih =>
    rw [List.foldl_cons, ih]
    cases hb : st.bindingsByPath.lookup e.qualifiedPath with
    | none => rfl
    | some b =>
      have hget := get_applyBinding revision st.needsReview r ⟨0, e, b, false⟩ id
      rw [if_neg (hid _ b hb).symm] at hget
      exact hget

/-- A bound id that no path entry names keeps the path of its old anchor. -/
theorem path_of_unapplied {r : IdentityRegistry} {c : Call} {id : DurableId}
    (hbound : id ∈ (matchEntities c.iter c.mint r c.scope (sortEntities c.entities)).boundIds)
    (hid : ∀ p b, (matchEntities c.iter c.mint r c.scope
      (sortEntities c.entities)).bindingsByPath.lookup p = some b → b.id ≠ id) :
    ((c.run r).2.get id).map Anchor.qualifiedPath = (r.get id).map Anchor.qualifiedPath := by
  unfold Call.run reconcileImpl retireVanished
  dsimp only
  generalize matchEntities c.iter c.mint r c.scope (sortEntities c.entities) = st at *
  have happly := get_applyBindings_of_unapplied hid c.revision (sortEntities c.entities) r
  have hflag := get_flagNeedsReview st.needsReview
    (applyBindings c.revision st (sortEntities c.entities) r) id
  have hpath : ((flagNeedsReview st.needsReview
      (applyBindings c.revision st (sortEntities c.entities) r)).get id).map
        Anchor.qualifiedPath = (r.get id).map Anchor.qualifiedPath := by
    rw [hflag, happly]
    split
    · rw [Option.map_map]
      rfl
    · rfl
  generalize flagNeedsReview st.needsReview
    (applyBindings c.revision st (sortEntities c.entities) r) = flagged at hpath ⊢
  have hkeys : ∀ k ∈ c.iter.order flagged.byId.keys, ∃ a, flagged.get k = some a := by
    intro k hk
    rw [c.iter.mem_order, mem_keys_iff] at hk
    exact hk
  have hget := (foldl_retireStep c.revision c.scope st.boundIds (c.iter.order flagged.byId.keys)
    (c.iter.nodup_order _) ([], flagged) hkeys).2.1 id
  rw [hget, if_neg (fun h => (vanished_iff.mp h.2).1 hbound)]
  exact hpath

/-- Entities with ids of their own share a path only with the anchors that
stood there before: all but one of their ids had it already. -/
theorem count_le_of_ownIds {r : IdentityRegistry} (hs : r.Sound) {c : Call}
    (hf : Fresh c.mint r) (ho : OwnIds c r) (p : String) :
    (c.entities.map Entity.qualifiedPath).count p ≤ (idsAtPath r p).card + 1 := by
  obtain ⟨exact, rest, ht, -, -, -, -⟩ :=
    matchEntities_tracks c.iter hs.linked hf c.scope (sortEntities c.entities)
  obtain ⟨pairing, hents, hbinds, hnd, hlive⟩ := ho
  have hbindings : (c.run r).1.bindings =
      (exact ++ rest).map fun x => (x.entity.qualifiedPath, x.binding) := ht.bindings
  have hlog : ∀ x ∈ pairing, ∃ y ∈ exact ++ rest,
      y.entity.qualifiedPath = x.1.qualifiedPath ∧ y.binding = x.2 := by
    intro x hx
    have hmem := hbinds.mem_iff.mp (List.mem_map_of_mem hx)
    rw [hbindings] at hmem
    obtain ⟨y, hy, hyx⟩ := List.mem_map.mp hmem
    exact ⟨y, hy, congrArg Prod.fst hyx, congrArg Prod.snd hyx⟩
  generalize hgroup : (pairing.filter fun x => x.1.qualifiedPath = p) = group
  have hcount : (c.entities.map Entity.qualifiedPath).count p = group.length := by
    rw [← (hents.map Entity.qualifiedPath).count_eq p, List.map_map, List.count, List.countP_map,
      List.countP_eq_length_filter, ← hgroup]
    congr 1
  have hgnd : (group.map fun x => x.2.id).Nodup := by
    rw [← hgroup]
    exact hnd.sublist (List.filter_sublist.map _)
  by_cases hempty : group = []
  · rw [hcount, hempty]
    exact Nat.zero_le _
  -- one of the group's ids is applied, and only one: the last bound at the path
  have hlast : ∃ b, (matchEntities c.iter c.mint r c.scope
      (sortEntities c.entities)).bindingsByPath.lookup p = some b := by
    obtain ⟨x, hx⟩ := List.exists_mem_of_ne_nil group hempty
    rw [← hgroup, List.mem_filter] at hx
    obtain ⟨y, hy, hyp, -⟩ := hlog x hx.1
    have hknown := ht.path_known y hy
    rw [hyp, of_decide_eq_true hx.2] at hknown
    exact hknown
  obtain ⟨last, hlast⟩ := hlast
  have hsub : (group.map fun x => x.2.id).toFinset ⊆ insert last.id (idsAtPath r p) := by
    intro id hid
    rw [List.mem_toFinset] at hid
    obtain ⟨x, hx, rfl⟩ := List.mem_map.mp hid
    rw [← hgroup, List.mem_filter] at hx
    obtain ⟨hx, hxp⟩ := hx
    have hxp' : x.1.qualifiedPath = p := of_decide_eq_true hxp
    obtain ⟨y, hy, hyp, hyb⟩ := hlog x hx
    rw [Finset.mem_insert, mem_idsAtPath]
    by_cases hid' : x.2.id = last.id
    · exact Or.inl hid'
    · right
      have hyid : y.id = x.2.id := congrArg Binding.id hyb
      have hunapplied : ∀ q b, (matchEntities c.iter c.mint r c.scope
          (sortEntities c.entities)).bindingsByPath.lookup q = some b → b.id ≠ x.2.id := by
        intro q b hb h
        obtain ⟨z, hz, hzq, hzb⟩ := ht.by_path q b hb
        have hzid : z.id = y.id := by
          rw [hyid, ← h]
          exact congrArg Binding.id hzb
        have hzy : z = y := List.inj_on_of_nodup_map ht.distinct hz hy hzid
        rw [← hzq, hzy, hyp, hxp', hlast] at hb
        cases hb
        exact hid' h.symm
      have hb := (ht.bound x.2.id).mpr ⟨y, hy, hyid⟩
      obtain ⟨a, ha, -, hap, -⟩ := hlive x hx
      rw [← path_of_unapplied hb hunapplied, ha, Option.map_some, hap, hxp']
  calc (c.entities.map Entity.qualifiedPath).count p
      = (group.map fun x => x.2.id).toFinset.card := by
        rw [hcount, List.toFinset_card_of_nodup hgnd, List.length_map]
    _ ≤ (insert last.id (idsAtPath r p)).card := Finset.card_le_card hsub
    _ ≤ (idsAtPath r p).card + 1 := Finset.card_insert_le _ _

/-- Reconciliation gives every entity a live id of its own when the paths are
pairwise different; conversely a path may repeat only as often as anchors
stood there before, plus one. -/
theorem ownIds_reachable {r : IdentityRegistry} (hr : ReachableBy (fun _ _ => True) r) (c : Call)
    (hf : Fresh c.mint r) :
    (DistinctPaths r c → OwnIds c r) ∧
      (OwnIds c r → ∀ p, (c.entities.map Entity.qualifiedPath).count p ≤
        (idsAtPath r p).card + 1) :=
  ⟨ownIds_of_distinctPaths hr.sound hf, count_le_of_ownIds hr.sound hf⟩

/-- Two functions of one file get two live ids. -/
theorem ownIds_reachable_two_functions :
    OwnIds (wholeCall 0 1 [topFunction "a.py" "f" 1, topFunction "a.py" "g" 2])
      IdentityRegistry.empty :=
  (ownIds_reachable ReachableBy.start _ (longIds_fresh (by decide +kernel))).1 (by decide +kernel)

/-- A function defined twice in one file gets two ids and only one of them
reaches the registry. -/
theorem not_ownIds_redefined :
    ReachableBy (fun _ _ => True) IdentityRegistry.empty ∧
    Fresh (longIds 0) IdentityRegistry.empty ∧
    ((wholeCall 0 1 [topFunction "a.py" "f" 1, topFunction "a.py" "f" 2]).run
      IdentityRegistry.empty).1.bindings =
        [("a.py::f", .minted "A"), ("a.py::f", .minted "AA")] ∧
    ((wholeCall 0 1 [topFunction "a.py" "f" 1, topFunction "a.py" "f" 2]).run
      IdentityRegistry.empty).2.get "A" = none ∧
    ¬OwnIds (wholeCall 0 1 [topFunction "a.py" "f" 1, topFunction "a.py" "f" 2])
      IdentityRegistry.empty := by
  have hfresh : Fresh (longIds 0) IdentityRegistry.empty := longIds_fresh (by decide +kernel)
  refine ⟨ReachableBy.start, hfresh, by decide +kernel, by decide +kernel, ?_⟩
  intro hown
  have hbound := count_le_of_ownIds IdentityRegistry.Sound.empty hfresh hown "a.py::f"
  have hempty : (idsAtPath IdentityRegistry.empty "a.py::f").card = 0 := by decide +kernel
  have htwice : ((wholeCall 0 1 [topFunction "a.py" "f" 1,
      topFunction "a.py" "f" 2]).entities.map Entity.qualifiedPath).count "a.py::f" = 2 := by
    decide +kernel
  omega

end Tyo3.IdentityRuns
