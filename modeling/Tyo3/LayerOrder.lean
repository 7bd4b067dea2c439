import Tyo3.Configuration
import Tyo3.DependencyOrders

/-!
# The order of the layers is topological

The listing loop counts, for each layer, the dependencies that are not listed
yet. The counters are right before every step of the loop, so a layer becomes
ready exactly when its dependencies are listed, and an accepted order lists
`code` and every layer once, each after its dependencies. The counters are
64-bit words; a layer has fewer dependencies than that, as any vector has.
-/

namespace Tyo3.LayerOrder

open FiniteMaps Tyo3.Configuration DependencyOrders

/-! ## The counted dependencies -/

/-- The layers with their dependencies, one pair each, in counting order. -/
def dependencies (raw : RawConfig) : List (String × String) :=
  (entries raw.layers).flatMap fun entry => (effectiveDependsOn entry.2).map (Prod.mk entry.1)

/-- `code` and the layers. -/
def nodes (raw : RawConfig) : Finset String := insert "code" raw.layers.keys

/-- The counters hold the number of dependencies of any layer. -/
def Fits (raw : RawConfig) : Prop :=
  ∀ name layer, raw.layers.lookup name = some layer → layer.dependsOn.length < 2 ^ 64

/-- An entry of a sorted map is a key with its value. -/
theorem mem_entries {V : Type*} (m : FMap String V) (name : String) (value : V) :
    (name, value) ∈ entries m ↔ m.lookup name = some value := by
  have hkeys : name ∈ HashOrder.increasing.order m.keys ↔ ∃ v, m.lookup name = some v :=
    (HashOrder.mem_order _ _ _).trans (mem_keys_iff m name)
  constructor
  · intro hmem
    obtain ⟨key, _, hkey⟩ := List.mem_filterMap.mp hmem
    obtain ⟨v, hv, hpair⟩ := Option.map_eq_some_iff.mp hkey
    rw [Prod.mk.injEq] at hpair
    rw [← hpair.1, ← hpair.2, hv]
  · intro hlookup
    apply List.mem_filterMap.mpr
    exact ⟨name, hkeys.mpr ⟨value, hlookup⟩, by rw [hlookup]; rfl⟩

/-- A pair is a layer with one of its dependencies. -/
theorem mem_dependencies {raw : RawConfig} {name dep : String} :
    (name, dep) ∈ dependencies raw ↔
      ∃ layer, raw.layers.lookup name = some layer ∧ dep ∈ effectiveDependsOn layer := by
  constructor
  · intro hpair
    obtain ⟨entry, hentry, hdep⟩ := List.mem_flatMap.mp hpair
    obtain ⟨found, hfound, heq⟩ := List.mem_map.mp hdep
    rw [Prod.mk.injEq] at heq
    have hlookup : raw.layers.lookup entry.1 = some entry.2 := (mem_entries _ _ _).mp hentry
    rw [heq.1] at hlookup
    exact ⟨entry.2, hlookup, heq.2 ▸ hfound⟩
  · intro ⟨layer, hlookup, hdep⟩
    apply List.mem_flatMap.mpr
    exact ⟨(name, layer), (mem_entries _ _ _).mpr hlookup, List.mem_map_of_mem hdep⟩

/-- The layer of a pair is a node. -/
theorem mem_nodes_of_pair {raw : RawConfig} {name dep : String}
    (hpair : (name, dep) ∈ dependencies raw) : name ∈ nodes raw := by
  obtain ⟨layer, hlookup, _⟩ := mem_dependencies.mp hpair
  apply Finset.mem_insert_of_mem
  exact (mem_keys_iff _ _).mpr ⟨layer, hlookup⟩

/-- The table after some pairs were counted. -/
structure Counted (raw : RawConfig) (done : List (String × String)) (table : DependencyTable) :
    Prop where
  /-- The counters are those of the nodes. -/
  keys : table.incoming.keys = nodes raw
  /-- Counters count the pairs of a layer. -/
  counts : ∀ name, (table.incoming.lookup name).getD 0 = (done.map Prod.fst).count name
  /-- The layers that wait for a dependency are listed under it. -/
  waits : ∀ dep, (table.outgoing.lookup dep).getD [] = waiting done dep
  /-- Counted dependencies are declared. -/
  declared : ∀ pair ∈ done, pair.2 ∈ nodes raw

/-- Values after one value was written for some names. -/
theorem lookup_foldl_insert {V : Type*} (value : V) (names : List String) (m : FMap String V)
    (name : String) :
    (names.foldl (fun m name => m.insert name value) m).lookup name =
      if name ∈ names then some value else m.lookup name := by
  induction names generalizing m with
  | nil => rfl
  | cons first names ih =>
    rw [List.foldl_cons, ih, lookup_insert_ite]
    by_cases hin : name ∈ names
    · rw [if_pos hin, if_pos (List.mem_cons_of_mem _ hin)]
    · by_cases hfirst : name = first
      · rw [if_neg hin, if_pos hfirst, if_pos (hfirst ▸ List.mem_cons_self)]
      · have hout : name ∉ first :: names := fun hmem => (List.mem_cons.mp hmem).elim hfirst hin
        rw [if_neg hin, if_neg hfirst, if_neg hout]

/-- The counters before the first pair. -/
theorem lookup_startTable (raw : RawConfig) (name : String) :
    (startTable raw).incoming.lookup name = if name ∈ nodes raw then some 0 else none := by
  have hmem : name ∈ HashOrder.increasing.order raw.layers.keys ↔ name ∈ raw.layers.keys :=
    HashOrder.mem_order _ _ _
  rw [startTable, lookup_foldl_insert, lookup_insert_ite, Finmap.lookup_empty]
  by_cases hlayer : name ∈ raw.layers.keys
  · have hnode : name ∈ nodes raw := Finset.mem_insert_of_mem hlayer
    rw [if_pos (hmem.mpr hlayer), if_pos hnode]
  · rw [if_neg (fun h => hlayer (hmem.mp h))]
    simp [nodes, hlayer]

/-- The first table has counted no pair. -/
theorem counted_startTable (raw : RawConfig) : Counted raw [] (startTable raw) where
  keys := by
    ext name
    rw [mem_keys_iff, lookup_startTable]
    by_cases hnode : name ∈ nodes raw <;> simp [hnode]
  counts name := by
    rw [lookup_startTable]
    by_cases hnode : name ∈ nodes raw <;> simp [hnode]
  waits dep := rfl
  declared := by simp

/-- Counting a pair. -/
theorem counted_addDependency {raw : RawConfig} {done : List (String × String)}
    {table after : DependencyTable} {name dep : String} (hcount : Counted raw done table)
    (hname : name ∈ nodes raw) (hadd : addDependency raw name table dep = .ok after) :
    Counted raw (done ++ [(name, dep)]) after := by
  unfold addDependency at hadd
  split_ifs at hadd with hdangling
  have hafter := (Except.ok.inj hadd).symm
  subst hafter
  have hdeclared : dep ∈ nodes raw := by
    by_cases hcode : dep = "code"
    · rw [hcode]
      exact Finset.mem_insert_self _ _
    · apply Finset.mem_insert_of_mem
      have hsome : raw.layers.lookup dep ≠ none := fun hnone => hdangling ⟨hcode, hnone⟩
      exact (mem_keys_iff _ _).mpr (Option.ne_none_iff_exists'.mp hsome)
  constructor
  · have hkey : name ∈ table.incoming.keys := hcount.keys ▸ hname
    rw [← hcount.keys]
    ext other
    rw [mem_keys_iff, mem_keys_iff, lookup_insert_ite]
    by_cases hother : other = name
    · rw [if_pos hother, hother]
      exact ⟨fun _ => (mem_keys_iff _ _).mp hkey, fun _ => ⟨_, rfl⟩⟩
    · rw [if_neg hother]
  · intro other
    rw [lookup_insert_ite, List.map_append, List.count_append, ← hcount.counts other]
    by_cases hother : other = name
    · rw [if_pos hother, hother, Option.getD_some, List.map_singleton, List.count_singleton_self]
    · rw [if_neg hother, List.map_singleton, List.count_singleton]
      simp [Ne.symm hother]
  · intro other
    have hwaits := hcount.waits other
    unfold waiting at hwaits ⊢
    rw [lookup_insert_ite, List.filter_append, List.map_append, ← hwaits]
    by_cases hother : other = dep
    · subst hother
      simp
    · simp [hother, Ne.symm hother]
  · intro pair hpair
    rcases List.mem_append.mp hpair with hold | hnew
    · exact hcount.declared pair hold
    · rw [List.mem_singleton.mp hnew]
      exact hdeclared

/-- Counting a list of pairs. -/
theorem counted_foldlM {raw : RawConfig} (pairs : List (String × String))
    (hpairs : ∀ pair ∈ pairs, pair.1 ∈ nodes raw) {done : List (String × String)}
    {table after : DependencyTable} (hcount : Counted raw done table)
    (hfold : pairs.foldlM (fun table pair => addDependency raw pair.1 table pair.2) table =
      .ok after) : Counted raw (done ++ pairs) after := by
  induction pairs generalizing done table with
  | nil =>
    rw [List.append_nil]
    exact Except.ok.inj hfold ▸ hcount
  | cons pair pairs ih =>
    rw [List.foldlM_cons] at hfold
    cases hadd : addDependency raw pair.1 table pair.2 with
    | error e =>
      rw [hadd] at hfold
      exact absurd hfold (by simp [bind, Except.bind])
    | ok next =>
      rw [hadd] at hfold
      have hnext := counted_addDependency hcount (hpairs pair List.mem_cons_self) hadd
      have hrest := ih (fun p hp => hpairs p (List.mem_cons_of_mem _ hp)) hnext hfold
      rwa [List.append_assoc] at hrest

/-- The table counts the pairs one after the other. -/
theorem dependencyTable_eq (raw : RawConfig) :
    dependencyTable raw = (dependencies raw).foldlM
      (fun table pair => addDependency raw pair.1 table pair.2) (startTable raw) := by
  unfold dependencyTable dependencies
  generalize startTable raw = table
  induction entries raw.layers generalizing table with
  | nil => rfl
  | cons entry rest ih =>
    rw [List.foldlM_cons, List.flatMap_cons, List.foldlM_append, List.foldlM_map]
    simp only [ih]

/-- An accepted table counts every dependency. -/
theorem counted_dependencyTable {raw : RawConfig} {table : DependencyTable}
    (htable : dependencyTable raw = .ok table) : Counted raw (dependencies raw) table := by
  rw [dependencyTable_eq] at htable
  have hpairs : ∀ pair ∈ dependencies raw, pair.1 ∈ nodes raw := fun pair hpair =>
    mem_nodes_of_pair hpair
  exact counted_foldlM _ hpairs (counted_startTable raw) htable

/-- A layer is counted once for each of its dependencies. -/
theorem count_flatMap_le {items : List (String × LayerCfg)} (hnodup : (items.map Prod.fst).Nodup)
    {bound : ℕ} (hbound : ∀ item ∈ items, (effectiveDependsOn item.2).length ≤ bound)
    (name : String) :
    ((items.flatMap fun item => (effectiveDependsOn item.2).map (Prod.mk item.1)).map
      Prod.fst).count name ≤ bound := by
  induction items with
  | nil => exact Nat.zero_le _
  | cons item items ih =>
    have hsplit := List.nodup_cons.mp hnodup
    have hrest := ih hsplit.2 fun other hother => hbound other (List.mem_cons_of_mem _ hother)
    rw [List.flatMap_cons, List.map_append, List.count_append, List.map_map]
    by_cases hname : item.1 = name
    · have hzero : ((items.flatMap fun item =>
          (effectiveDependsOn item.2).map (Prod.mk item.1)).map Prod.fst).count name = 0 := by
        apply List.count_eq_zero_of_not_mem
        intro hmem
        obtain ⟨pair, hpair, hfst⟩ := List.mem_map.mp hmem
        obtain ⟨other, hother, hdep⟩ := List.mem_flatMap.mp hpair
        obtain ⟨dep, _, hmk⟩ := List.mem_map.mp hdep
        apply hsplit.1
        rw [hname, ← hfst, ← hmk]
        exact List.mem_map_of_mem hother
      have hlength := List.count_le_length (a := name)
        (l := (effectiveDependsOn item.2).map (Prod.fst ∘ Prod.mk item.1))
      rw [List.length_map] at hlength
      have hitem := hbound item List.mem_cons_self
      omega
    · have hzero : ((effectiveDependsOn item.2).map (Prod.fst ∘ Prod.mk item.1)).count name = 0 := by
        apply List.count_eq_zero_of_not_mem
        intro hmem
        obtain ⟨dep, _, hdep⟩ := List.mem_map.mp hmem
        exact hname hdep
      omega

/-- Every entry of a sorted map has its own key. -/
theorem nodup_entries {V : Type*} (m : FMap String V) : ((entries m).map Prod.fst).Nodup := by
  have hkeys : (entries m).map Prod.fst =
      (HashOrder.increasing.order m.keys).filter fun key => (m.lookup key).isSome := by
    unfold entries
    rw [List.map_filterMap, ← List.filterMap_eq_filter]
    apply List.filterMap_congr
    intro key _
    cases hlookup : m.lookup key <;> simp [Option.guard, hlookup]
  rw [hkeys]
  exact (HashOrder.nodup_order _ _).filter _

/-- No counter reaches the size of its word. -/
theorem count_dependencies_lt {raw : RawConfig} (hfits : Fits raw) (name : String) :
    ((dependencies raw).map Prod.fst).count name < 2 ^ 64 := by
  have hbound : ∀ item ∈ entries raw.layers, (effectiveDependsOn item.2).length ≤ 2 ^ 64 - 1 := by
    intro item hitem
    have hlength := hfits item.1 item.2 ((mem_entries _ _ _).mp hitem)
    unfold effectiveDependsOn
    split_ifs
    · norm_num
    · omega
  have hcount := count_flatMap_le (nodup_entries raw.layers) hbound name
  rw [← dependencies] at hcount
  omega

/-! ## The listing loop -/

/-- The state of the loop while some waiting pairs of the last listed node
are still to be settled. -/
structure Sound (raw : RawConfig) (l : Listing) (unsettled : List String) : Prop where
  /-- The counters are those of the nodes. -/
  keys : l.incoming.keys = nodes raw
  /-- Counters count the open pairs and the unsettled ones. -/
  counts : ∀ name, (l.incoming.lookup name).getD 0 =
    openCount (dependencies raw) l.order name + unsettled.count name
  /-- No node is listed or ready twice. -/
  nodup : (l.order ++ l.ready).Nodup
  /-- The listed and the ready nodes are those with a zero counter. -/
  zero : ∀ name, name ∈ l.order ++ l.ready ↔
    name ∈ nodes raw ∧ (l.incoming.lookup name).getD 0 = 0
  /-- What is listed is in order. -/
  topological : Topological (dependencies raw) l.order

/-- A counter of the loop is a word. -/
theorem Sound.count_lt {raw : RawConfig} (hfits : Fits raw) {l : Listing} {listed : String}
    {order : List String} (horder : l.order = order ++ [listed]) (hnew : listed ∉ order)
    {unsettled : List String} (hsound : Sound raw l unsettled)
    (hsub : ∀ name, unsettled.count name ≤ (waiting (dependencies raw) listed).count name)
    (name : String) : (l.incoming.lookup name).getD 0 < 2 ^ 64 := by
  have hopen := openCount_concat (dependencies raw) hnew name
  have hall : openCount (dependencies raw) order name ≤ openCount (dependencies raw) [] name := by
    apply List.countP_mono_left
    intro pair _ hpair
    simp only [decide_eq_true_eq] at hpair ⊢
    exact ⟨hpair.1, List.not_mem_nil⟩
  have hword := count_dependencies_lt hfits name
  rw [openCount_nil] at hall
  rw [hsound.counts, horder]
  have hcount := hsub name
  omega

/-- What settling does with the counter below. -/
theorem settle_of_count {l : Listing} {target : String} {count : ℕ}
    (hcount : ((l.incoming.lookup target).getD 0 + (2 ^ 64 - 1)) % 2 ^ 64 = count) :
    settle l target =
      if count = 0 then
        { l with incoming := l.incoming.insert target count
                 ready := (l.ready ++ [target]).insertionSort (· ≤ ·) }
      else { l with incoming := l.incoming.insert target count } := by
  subst hcount
  rfl

/-- Settling one waiting pair. -/
theorem Sound.settle {raw : RawConfig} {l : Listing} {target : String} {unsettled : List String}
    (hsound : Sound raw l (target :: unsettled)) (htarget : target ∈ nodes raw)
    (hword : (l.incoming.lookup target).getD 0 < 2 ^ 64) :
    Sound raw (settle l target) unsettled := by
  have hold := hsound.counts target
  rw [List.count_cons_self] at hold
  have hcount : ((l.incoming.lookup target).getD 0 + (2 ^ 64 - 1)) % 2 ^ 64 =
      (l.incoming.lookup target).getD 0 - 1 := by omega
  have hnew : target ∉ l.order ++ l.ready := fun hmem => by
    have hzero := ((hsound.zero target).mp hmem).2
    omega
  have hkeys : (l.incoming.insert target ((l.incoming.lookup target).getD 0 - 1)).keys =
      nodes raw := by
    rw [← hsound.keys]
    ext name
    rw [mem_keys_iff, mem_keys_iff, lookup_insert_ite]
    by_cases hname : name = target
    · rw [if_pos hname, hname]
      have hkey : target ∈ l.incoming.keys := hsound.keys ▸ htarget
      exact ⟨fun _ => (mem_keys_iff _ _).mp hkey, fun _ => ⟨_, rfl⟩⟩
    · rw [if_neg hname]
  have hcounts : ∀ name, ((l.incoming.insert target
      ((l.incoming.lookup target).getD 0 - 1)).lookup name).getD 0 =
      openCount (dependencies raw) l.order name + unsettled.count name := by
    intro name
    rw [lookup_insert_ite]
    by_cases hname : name = target
    · rw [if_pos hname, hname, Option.getD_some]
      omega
    · rw [if_neg hname, hsound.counts, List.count_cons_of_ne (Ne.symm hname)]
  have hother : ∀ name, name ≠ target → ((l.incoming.insert target
      ((l.incoming.lookup target).getD 0 - 1)).lookup name).getD 0 =
      (l.incoming.lookup name).getD 0 := by
    intro name hname
    rw [lookup_insert_ite, if_neg hname]
  have hself : ((l.incoming.insert target
      ((l.incoming.lookup target).getD 0 - 1)).lookup target).getD 0 =
      (l.incoming.lookup target).getD 0 - 1 := by
    rw [lookup_insert_ite, if_pos rfl, Option.getD_some]
  rw [settle_of_count hcount]
  by_cases hdone : (l.incoming.lookup target).getD 0 - 1 = 0
  · rw [if_pos hdone]
    have hperm : (l.order ++ (l.ready ++ [target]).insertionSort (· ≤ ·)).Perm
        (target :: (l.order ++ l.ready)) := by
      have hsorted := (List.perm_insertionSort (· ≤ ·) (l.ready ++ [target])).append_left l.order
      rw [← List.append_assoc] at hsorted
      exact hsorted.trans (List.perm_append_singleton _ _)
    refine ⟨hkeys, hcounts, ?_, ?_, hsound.topological⟩
    · rw [hperm.nodup_iff]
      exact List.nodup_cons.mpr ⟨hnew, hsound.nodup⟩
    · intro name
      rw [hperm.mem_iff, List.mem_cons]
      by_cases hname : name = target
      · subst hname
        rw [hself]
        exact ⟨fun _ => ⟨htarget, hdone⟩, fun _ => Or.inl rfl⟩
      · rw [hother name hname, hsound.zero]
        exact ⟨fun h => h.resolve_left hname, Or.inr⟩
  · rw [if_neg hdone]
    refine ⟨hkeys, hcounts, hsound.nodup, ?_, hsound.topological⟩
    intro name
    by_cases hname : name = target
    · subst hname
      rw [hself]
      exact ⟨fun hmem => absurd hmem hnew, fun h => absurd h.2 hdone⟩
    · rw [hother name hname]
      exact hsound.zero name

/-- Settling leaves the listed nodes alone. -/
theorem order_settle (l : Listing) (target : String) : (settle l target).order = l.order := by
  rw [settle_of_count rfl]
  split_ifs <;> rfl

/-- Settling all waiting pairs of a listed node. -/
theorem Sound.settleAll {raw : RawConfig} (hfits : Fits raw) {order : List String}
    {listed : String} (hnew : listed ∉ order) (targets : List String) {l : Listing}
    (horder : l.order = order ++ [listed])
    (hnodes : ∀ target ∈ targets, target ∈ nodes raw)
    (hsub : ∀ name, targets.count name ≤ (waiting (dependencies raw) listed).count name)
    (hsound : Sound raw l targets) : Sound raw (targets.foldl Configuration.settle l) [] := by
  induction targets generalizing l with
  | nil => exact hsound
  | cons target targets ih =>
    have hword := hsound.count_lt hfits horder hnew hsub target
    have hnext := hsound.settle (hnodes target List.mem_cons_self) hword
    rw [List.foldl_cons]
    apply ih _ _ _ hnext
    · rw [order_settle, horder]
    · exact fun other hother => hnodes other (List.mem_cons_of_mem _ hother)
    · intro name
      have hcount := hsub name
      rw [List.count_cons] at hcount
      omega

/-- A ready node is not listed. -/
theorem Sound.not_mem_order {raw : RawConfig} {l : Listing} {unsettled : List String}
    (hsound : Sound raw l unsettled) {node : String} {ready : List String}
    (hready : l.ready = node :: ready) : node ∉ l.order := by
  have hnodup := hsound.nodup
  rw [hready, List.nodup_append_comm, List.cons_append, List.nodup_cons] at hnodup
  exact fun hmem => hnodup.1 (List.mem_append_right _ hmem)

/-- Listing a ready node. -/
theorem Sound.list {raw : RawConfig} {l : Listing} {node : String} {ready targets : List String}
    (hsound : Sound raw l []) (hready : l.ready = node :: ready)
    (htargets : targets.Perm (waiting (dependencies raw) node)) :
    Sound raw { l with ready := ready, order := l.order ++ [node] } targets := by
  have hnew := hsound.not_mem_order hready
  have hopen : openCount (dependencies raw) l.order node = 0 := by
    have hmem : node ∈ l.order ++ l.ready := by
      rw [hready]
      exact List.mem_append_right _ List.mem_cons_self
    have hzero := ((hsound.zero node).mp hmem).2
    rwa [hsound.counts, List.count_nil, Nat.add_zero] at hzero
  have hlist : l.order ++ [node] ++ ready = l.order ++ l.ready := by
    rw [hready, List.append_assoc, List.singleton_append]
  refine ⟨hsound.keys, ?_, ?_, ?_, ?_⟩
  · intro name
    rw [hsound.counts, List.count_nil, Nat.add_zero, htargets.count_eq]
    exact openCount_concat _ hnew name
  · exact hlist ▸ hsound.nodup
  · intro name
    change name ∈ l.order ++ [node] ++ ready ↔ _
    rw [hlist]
    exact hsound.zero name
  · exact hsound.topological.concat fun dep hpair => mem_of_openCount_eq_zero hopen hpair

/-- The waiting layers of a node, as the loop goes through them. -/
def targetsOf (outgoing : FMap String (List String)) (node : String) : List String :=
  ((outgoing.lookup node).getD []).insertionSort (· ≤ ·)

section Targets

variable {raw : RawConfig} {table : DependencyTable}
  (hcounted : Counted raw (dependencies raw) table)
include hcounted

theorem perm_targetsOf (node : String) :
    (targetsOf table.outgoing node).Perm (waiting (dependencies raw) node) := by
  unfold targetsOf
  rw [hcounted.waits]
  exact List.perm_insertionSort _ _

theorem mem_nodes_of_targetsOf {node target : String}
    (h : target ∈ targetsOf table.outgoing node) : target ∈ nodes raw := by
  have hwait := (perm_targetsOf hcounted node).mem_iff.mp h
  obtain ⟨pair, hpair, hfst⟩ := List.mem_map.mp hwait
  exact hfst ▸ mem_nodes_of_pair (List.mem_of_mem_filter hpair)

/-- One round of the loop keeps its invariant. -/
theorem Sound.next (hfits : Fits raw) {l : Listing} (hsound : Sound raw l []) {node : String}
    {ready : List String} (hready : l.ready = node :: ready) :
    Sound raw ((targetsOf table.outgoing node).foldl Configuration.settle
      { l with ready := ready, order := l.order ++ [node] }) [] := by
  have hperm := perm_targetsOf hcounted node
  have hnew := hsound.not_mem_order hready
  exact Sound.settleAll hfits hnew _ rfl (fun _ => mem_nodes_of_targetsOf hcounted)
    (fun name => (hperm.count_eq name).le) (hsound.list hready hperm)

end Targets

/-- The loop keeps its invariant. -/
theorem Sound.listLayers {raw : RawConfig} (hfits : Fits raw) {table : DependencyTable}
    (hcounted : Counted raw (dependencies raw) table) (fuel : ℕ) {l : Listing}
    (hsound : Sound raw l []) : Sound raw (listLayers table.outgoing fuel l) [] := by
  induction fuel generalizing l with
  | zero => exact hsound
  | succ fuel ih =>
    unfold Configuration.listLayers
    cases hready : l.ready with
    | nil => exact hsound
    | cons node ready => exact ih (hsound.next hcounted hfits hready)

/-- The loop starts with the nodes that have no dependency. -/
theorem Sound.start {raw : RawConfig} {table : DependencyTable}
    (hcounted : Counted raw (dependencies raw) table) :
    Sound raw ⟨table.incoming, (((entries table.incoming).filter fun entry =>
      entry.2 = 0).map Prod.fst).insertionSort (· ≤ ·), []⟩ [] where
  keys := hcounted.keys
  counts name := by
    rw [hcounted.counts, openCount_nil, List.count_nil, Nat.add_zero]
  nodup := by
    rw [List.nil_append, (List.perm_insertionSort _ _).nodup_iff]
    exact (nodup_entries _).sublist (List.filter_sublist.map _)
  zero name := by
    rw [List.nil_append, (List.perm_insertionSort _ _).mem_iff, ← hcounted.keys, mem_keys_iff]
    constructor
    · intro hmem
      obtain ⟨entry, hentry, hname⟩ := List.mem_map.mp hmem
      obtain ⟨hin, hzero⟩ := List.mem_filter.mp hentry
      have hlookup : table.incoming.lookup entry.1 = some entry.2 := (mem_entries _ _ _).mp hin
      rw [hname, of_decide_eq_true hzero] at hlookup
      exact ⟨⟨0, hlookup⟩, by rw [hlookup]; rfl⟩
    · intro ⟨⟨count, hlookup⟩, hzero⟩
      rw [hlookup, Option.getD_some] at hzero
      subst hzero
      apply List.mem_map.mpr
      exact ⟨(name, 0), List.mem_filter.mpr ⟨(mem_entries _ _ _).mpr hlookup, by simp⟩, rfl⟩
  topological := Topological.nil _

/-- What an accepted order of the layers is. -/
structure Ordered (raw : RawConfig) (order : List String) : Prop where
  /-- Nothing is listed twice. -/
  nodup : order.Nodup
  /-- `code` and every layer are listed, and nothing else. -/
  complete : ∀ name, name ∈ order ↔ name ∈ nodes raw
  /-- Dependencies stand before their dependants. -/
  topological : Topological (dependencies raw) order
  /-- Dependencies are declared. -/
  declared : ∀ pair ∈ dependencies raw, pair.2 ∈ nodes raw

/-- An accepted order is topological and complete. -/
theorem ordered_topoOrder {raw : RawConfig} (hfits : Fits raw) {order : List String}
    (horder : topoOrder raw = .ok order) : Ordered raw order := by
  unfold topoOrder at horder
  cases htable : dependencyTable raw with
  | error e =>
    rw [htable] at horder
    exact absurd horder (by simp [bind, Except.bind])
  | ok table =>
    rw [htable] at horder
    have hcounted := counted_dependencyTable htable
    have hsound := Sound.listLayers hfits hcounted table.incoming.keys.card
      (Sound.start hcounted)
    simp only [bind, Except.bind] at horder
    generalize listLayers table.outgoing table.incoming.keys.card _ = listing at hsound horder
    split_ifs at horder with hlength
    rw [ne_eq, not_not] at hlength
    have hlisted := Except.ok.inj horder
    subst hlisted
    have hnodup : listing.order.Nodup := (List.nodup_append.mp hsound.nodup).1
    have hsub : listing.order.toFinset ⊆ nodes raw := by
      intro name hname
      exact ((hsound.zero name).mp (List.mem_append_left _ (List.mem_toFinset.mp hname))).1
    have hall : listing.order.toFinset = nodes raw := by
      apply Finset.eq_of_subset_of_card_le hsub
      rw [List.toFinset_card_of_nodup hnodup, hlength, hcounted.keys]
    refine ⟨hnodup, ?_, hsound.topological, hcounted.declared⟩
    intro name
    rw [← hall, List.mem_toFinset]

end Tyo3.LayerOrder
