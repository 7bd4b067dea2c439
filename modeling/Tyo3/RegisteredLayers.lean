import Tyo3.LayerRuntime

/-!
# The order of the layers when more are registered

The listing loop takes every layer that can be ordered and never a counter
below zero, so the layers are refused exactly when a dependency is not
declared or the dependencies run in a circle. An authored layer that is
registered later has no dependency and is put at the end of the order, which
stays topological. The name of the code itself is not refused there.
-/

namespace Tyo3.RegisteredLayers

open FiniteMaps Tyo3.Configuration DependencyOrders LayerOrder LayerRuntime

/-! ## The loop with checked counters -/

/-- Count one dependency of a waiting layer as listed; none when the layer has
no counter or its counter is zero. -/
def checkedSettle (l : Listing) (target : String) : Option Listing :=
  match l.incoming.lookup target with
  | none => none
  | some count => if count = 0 then none else some (settle l target)

/-- List the first ready layer until none is ready; none when a counter is
missing or zero, or when layers are still ready at the end. -/
def checkedList (outgoing : FMap String (List String)) : ℕ → Listing → Option Listing
  | 0, l => if l.ready = [] then some l else none
  | fuel + 1, l =>
    match l.ready with
    | [] => some l
    | node :: ready =>
      ((targetsOf outgoing node).foldlM checkedSettle
        { l with ready := ready, order := l.order ++ [node] }).bind (checkedList outgoing fuel)

section Loop

variable {raw : RawConfig} (hfits : Fits raw) {table : DependencyTable}
  (hcounted : Counted raw (dependencies raw) table)

/-- A pair that waits has a counter above zero. -/
theorem checkedSettle_eq {l : Listing} {target : String} {unsettled : List String}
    (hsound : Sound raw l (target :: unsettled)) (htarget : target ∈ nodes raw) :
    checkedSettle l target = some (settle l target) := by
  have hcount := hsound.counts target
  rw [List.count_cons_self] at hcount
  have hkey : target ∈ l.incoming.keys := hsound.keys ▸ htarget
  obtain ⟨count, hlookup⟩ := (mem_keys_iff _ _).mp hkey
  rw [hlookup, Option.getD_some] at hcount
  have hpos : count ≠ 0 := by omega
  unfold checkedSettle
  rw [hlookup]
  exact if_neg hpos

include hfits in
/-- All waiting pairs of a listed node have counters above zero. -/
theorem checkedSettle_all {order : List String} {listed : String} (hnew : listed ∉ order)
    (targets : List String) {l : Listing} (horder : l.order = order ++ [listed])
    (hnodes : ∀ target ∈ targets, target ∈ nodes raw)
    (hsub : ∀ name, targets.count name ≤ (waiting (dependencies raw) listed).count name)
    (hsound : Sound raw l targets) :
    targets.foldlM checkedSettle l = some (targets.foldl settle l) := by
  induction targets generalizing l with
  | nil => rfl
  | cons target targets ih =>
    have hhere := hnodes target List.mem_cons_self
    have hword := hsound.count_lt hfits horder hnew hsub target
    have hnext := hsound.settle hhere hword
    rw [List.foldlM_cons, List.foldl_cons, checkedSettle_eq hsound hhere]
    apply ih _ _ _ hnext
    · rw [order_settle, horder]
    · exact fun other hother => hnodes other (List.mem_cons_of_mem _ hother)
    · intro name
      have hcount := hsub name
      rw [List.count_cons] at hcount
      omega

theorem order_foldl_settle (targets : List String) (l : Listing) :
    (targets.foldl settle l).order = l.order := by
  induction targets generalizing l with
  | nil => rfl
  | cons target targets ih => rw [List.foldl_cons, ih, order_settle]

/-- There are no more listed and ready nodes than nodes. -/
theorem length_le_card {l : Listing} (hsound : Sound raw l []) :
    l.order.length + l.ready.length ≤ (nodes raw).card := by
  have hsub : (l.order ++ l.ready).toFinset ⊆ nodes raw := by
    intro name hname
    exact ((hsound.zero name).mp (List.mem_toFinset.mp hname)).1
  have hcard := Finset.card_le_card hsub
  rw [List.toFinset_card_of_nodup hsound.nodup, List.length_append] at hcard
  exact hcard

include hfits hcounted in
/-- With as many rounds as there are nodes the loop ends, and no counter is
taken below zero. -/
theorem checkedList_eq (fuel : ℕ) {l : Listing} (hsound : Sound raw l [])
    (hfuel : (nodes raw).card ≤ l.order.length + fuel) :
    checkedList table.outgoing fuel l = some (listLayers table.outgoing fuel l) ∧
      (listLayers table.outgoing fuel l).ready = [] := by
  induction fuel generalizing l with
  | zero =>
    have hlength := length_le_card hsound
    have hempty : l.ready = [] := List.length_eq_zero_iff.mp (by omega)
    exact ⟨if_pos hempty, hempty⟩
  | succ fuel ih =>
    unfold checkedList Configuration.listLayers
    cases hready : l.ready with
    | nil => exact ⟨rfl, hready⟩
    | cons node ready =>
      have hperm := perm_targetsOf hcounted node
      have hnew := hsound.not_mem_order hready
      have hall := checkedSettle_all hfits hnew (targetsOf table.outgoing node) rfl
        (fun _ => mem_nodes_of_targetsOf hcounted) (fun name => (hperm.count_eq name).le)
        (hsound.list hready hperm)
      have hnext := hsound.next hcounted hfits hready
      simp only [hall, Option.bind_some]
      apply ih hnext
      rw [order_foldl_settle, List.length_append, List.length_singleton]
      omega

end Loop

/-! ## When there is an order -/

/-- What the order of the layers can be made of. -/
structure Orderable (raw : RawConfig) : Prop where
  /-- Dependencies are declared layers or code. -/
  declared : ∀ pair ∈ dependencies raw, pair.2 ∈ nodes raw
  /-- They do not run in a circle. -/
  acyclic : Acyclic (dependencies raw)

/-- Declared dependencies are all counted. -/
theorem exists_dependencyTable {raw : RawConfig}
    (hdeclared : ∀ pair ∈ dependencies raw, pair.2 ∈ nodes raw) :
    ∃ table, dependencyTable raw = .ok table := by
  rw [dependencyTable_eq]
  generalize startTable raw = table
  generalize dependencies raw = pairs at hdeclared
  induction pairs generalizing table with
  | nil => exact ⟨table, rfl⟩
  | cons pair pairs ih =>
    have hknown : ¬ (pair.2 ≠ "code" ∧ raw.layers.lookup pair.2 = none) := by
      rintro ⟨hcode, hnone⟩
      rcases Finset.mem_insert.mp (hdeclared pair List.mem_cons_self) with heq | hkey
      · exact hcode heq
      · obtain ⟨layer, hlayer⟩ := (mem_keys_iff _ _).mp hkey
        rw [hnone] at hlayer
        cases hlayer
    rw [List.foldlM_cons]
    unfold addDependency
    rw [if_neg hknown]
    exact ih _ fun other hother => hdeclared other (List.mem_cons_of_mem _ hother)

/-- A loop that ends without a cycle has listed every node. -/
theorem mem_order_of_acyclic {raw : RawConfig} (horderable : Orderable raw) {l : Listing}
    (hsound : Sound raw l []) (hready : l.ready = []) {name : String} (hname : name ∈ nodes raw) :
    name ∈ l.order := by
  by_contra hopen
  have hsome : ((nodes raw).filter fun node => node ∉ l.order).Nonempty :=
    ⟨name, Finset.mem_filter.mpr ⟨hname, hopen⟩⟩
  obtain ⟨node, hnode, hdeps⟩ := horderable.acyclic.exists_settled hsome
  obtain ⟨hin, hunlisted⟩ := Finset.mem_filter.mp hnode
  -- all dependencies of this node are listed, so its counter is zero
  have hcount : openCount (dependencies raw) l.order node = 0 := by
    refine List.countP_eq_zero.mpr fun pair hpair hboth => ?_
    obtain ⟨hfst, hsnd⟩ := of_decide_eq_true hboth
    refine hdeps pair.2 (hfst ▸ hpair) (Finset.mem_filter.mpr ⟨?_, hsnd⟩)
    exact horderable.declared pair hpair
  have hzero : node ∈ l.order ++ l.ready := by
    rw [hsound.zero, hsound.counts, List.count_nil, Nat.add_zero]
    exact ⟨hin, hcount⟩
  rw [hready, List.append_nil] at hzero
  exact hunlisted hzero

/-- An accepted order leaves no room for a cycle. -/
theorem orderable_of_ordered {raw : RawConfig} {order : List String} (h : Ordered raw order) :
    Orderable raw := by
  refine ⟨h.declared, h.topological.acyclic fun pair hpair => ?_⟩
  exact (h.complete pair.1).mpr (mem_nodes_of_pair hpair)

/-- The listing that the loop starts from. -/
def startListing (table : DependencyTable) : Listing :=
  ⟨table.incoming, (((entries table.incoming).filter fun entry => entry.2 = 0).map
    Prod.fst).insertionSort (· ≤ ·), []⟩

/-- The layers are ordered exactly when they can be. -/
theorem topoOrder_ok_iff {raw : RawConfig} (hfits : Fits raw) :
    (∃ order, topoOrder raw = .ok order) ↔ Orderable raw := by
  constructor
  · rintro ⟨order, horder⟩
    exact orderable_of_ordered (ordered_topoOrder hfits horder)
  · intro horderable
    obtain ⟨table, htable⟩ := exists_dependencyTable horderable.declared
    have hcounted := counted_dependencyTable htable
    have hstart : Sound raw (startListing table) [] := Sound.start hcounted
    have hsound := Sound.listLayers hfits hcounted table.incoming.keys.card hstart
    have hends := (checkedList_eq hfits hcounted table.incoming.keys.card hstart
      (by rw [hcounted.keys]; omega)).2
    have hall : (listLayers table.outgoing table.incoming.keys.card
        (startListing table)).order.toFinset = nodes raw := by
      ext name
      rw [List.mem_toFinset]
      constructor
      · intro hname
        exact ((hsound.zero name).mp (List.mem_append_left _ hname)).1
      · exact mem_order_of_acyclic horderable hsound hends
    have hlength : (listLayers table.outgoing table.incoming.keys.card
        (startListing table)).order.length = table.incoming.keys.card := by
      have hcard := List.toFinset_card_of_nodup (List.nodup_append.mp hsound.nodup).1
      rw [← hcard, hall, hcounted.keys]
    have hok : topoOrder raw = .ok (listLayers table.outgoing table.incoming.keys.card
        (startListing table)).order := by
      unfold topoOrder
      rw [htable]
      exact if_neg (not_not.mpr hlength)
    exact ⟨_, hok⟩

/-! ## Registration -/

/-- Declare an authored layer after validation. A layer that is authored
already stays as it is; a derived layer of the same name is refused. -/
def registerAuthoredLayer (cfg : ValidatedConfig) (name : String) (history reviewOnChange : Bool) :
    Except String ValidatedConfig :=
  match cfg.raw.layers.lookup name with
  | some existing =>
    if existing.origin ≠ .authored then
      .error ("'" ++ name ++ "' is already declared as a non-authored layer")
    else .ok cfg
  | none =>
    let layer : LayerCfg := { origin := .authored, serving := .stale, recompute := .lazy
                              history := history, reviewOnChange := reviewOnChange }
    .ok
      { raw := { cfg.raw with layers := cfg.raw.layers.insert name layer }
        topoOrder := if cfg.topoOrder.contains name then cfg.topoOrder
          else cfg.topoOrder ++ [name] }

/-- One call. -/
structure Registration where
  /-- Name of the layer. -/
  name : String
  /-- Whether earlier versions are kept. -/
  history : Bool
  /-- Whether a changed body asks for review. -/
  reviewOnChange : Bool

/-- The configuration after a call; a refused call changes nothing. -/
def register (cfg : ValidatedConfig) (call : Registration) : ValidatedConfig :=
  match registerAuthoredLayer cfg call.name call.history call.reviewOnChange with
  | .ok after => after
  | .error _ => cfg

/-- What a call can do: nothing, or declare a layer that was not there. -/
theorem register_cases (cfg : ValidatedConfig) (call : Registration) :
    ((cfg.raw.layers.lookup call.name).isSome = true ∧ register cfg call = cfg) ∨
      (cfg.raw.layers.lookup call.name = none ∧ ∃ layer : LayerCfg,
        effectiveDependsOn layer = [] ∧ register cfg call =
          { raw := { cfg.raw with layers := cfg.raw.layers.insert call.name layer }
            topoOrder := if cfg.topoOrder.contains call.name then cfg.topoOrder
              else cfg.topoOrder ++ [call.name] }) := by
  unfold register registerAuthoredLayer
  cases hlookup : cfg.raw.layers.lookup call.name with
  | some existing =>
    left
    by_cases horigin : existing.origin ≠ .authored
    · simp [horigin]
    · simp [horigin]
  | none =>
    right
    exact ⟨rfl, _, rfl, rfl⟩

/-- A new layer without dependencies adds no pair. -/
theorem mem_dependencies_insert {raw : RawConfig} {name : String} {layer : LayerCfg}
    (hnew : raw.layers.lookup name = none) (hdeps : effectiveDependsOn layer = [])
    (pair : String × String) :
    pair ∈ dependencies { raw with layers := raw.layers.insert name layer } ↔
      pair ∈ dependencies raw := by
  obtain ⟨node, dep⟩ := pair
  rw [mem_dependencies, mem_dependencies]
  simp only [lookup_insert_ite]
  by_cases hname : node = name
  · rw [hname]
    simp [hnew, hdeps]
  · simp [hname]

/-- A call keeps the order. -/
theorem ordered_register {cfg : ValidatedConfig} (h : Ordered cfg.raw cfg.topoOrder)
    (call : Registration) :
    Ordered (register cfg call).raw (register cfg call).topoOrder := by
  rcases register_cases cfg call with ⟨-, hsame⟩ | ⟨hnew, layer, hdeps, hafter⟩
  · rw [hsame]
    exact h
  · rw [hafter]
    have hpairs := mem_dependencies_insert hnew hdeps
    have hnodes : ∀ name, name ∈ nodes { cfg.raw with
        layers := cfg.raw.layers.insert call.name layer } ↔
        name ∈ nodes cfg.raw ∨ name = call.name := by
      intro name
      unfold nodes
      rw [Finset.mem_insert, Finset.mem_insert, mem_keys_iff, mem_keys_iff]
      simp only [lookup_insert_ite]
      by_cases hname : name = call.name
      · simp [hname]
      · simp [hname]
    have htopo : ∀ {order : List String}, Topological (dependencies cfg.raw) order →
        Topological (dependencies { cfg.raw with
          layers := cfg.raw.layers.insert call.name layer }) order := by
      intro order htopo before node after horder dep hpair
      exact htopo before node after horder dep ((hpairs _).mp hpair)
    have hdeclared : ∀ pair ∈ dependencies { cfg.raw with
        layers := cfg.raw.layers.insert call.name layer }, pair.2 ∈ nodes { cfg.raw with
        layers := cfg.raw.layers.insert call.name layer } := by
      intro pair hpair
      exact (hnodes _).mpr (.inl (h.declared pair ((hpairs pair).mp hpair)))
    by_cases hin : call.name ∈ cfg.topoOrder
    · rw [if_pos (List.contains_iff_mem.mpr hin)]
      refine ⟨h.nodup, fun name => ?_, htopo h.topological, hdeclared⟩
      rw [hnodes, h.complete]
      refine ⟨.inl, fun hname => hname.elim id fun heq => ?_⟩
      rw [heq]
      exact (h.complete _).mp hin
    · rw [if_neg (fun hcontains => hin (List.contains_iff_mem.mp hcontains))]
      refine ⟨?_, fun name => ?_, htopo (h.topological.concat fun dep hpair => ?_), hdeclared⟩
      · rw [List.nodup_append_comm, List.singleton_append]
        exact List.nodup_cons.mpr ⟨hin, h.nodup⟩
      · rw [List.mem_append, List.mem_singleton, hnodes, h.complete]
      · obtain ⟨found, hfound, -⟩ := mem_dependencies.mp hpair
        rw [hnew] at hfound
        cases hfound

/-- Any calls keep the order. -/
theorem ordered_foldl_register (calls : List Registration) {cfg : ValidatedConfig}
    (h : Ordered cfg.raw cfg.topoOrder) :
    Ordered (calls.foldl register cfg).raw (calls.foldl register cfg).topoOrder := by
  induction calls generalizing cfg with
  | nil => exact h
  | cons call calls ih => exact ih (ordered_register h call)

/-- A layer is declared after some calls when it was before or one of them
names it. -/
theorem isSome_foldl_register (calls : List Registration) (cfg : ValidatedConfig) (name : String) :
    ((calls.foldl register cfg).raw.layers.lookup name).isSome = true ↔
      (cfg.raw.layers.lookup name).isSome = true ∨ ∃ call ∈ calls, call.name = name := by
  induction calls generalizing cfg with
  | nil => simp
  | cons call calls ih =>
    have hstep : ((register cfg call).raw.layers.lookup name).isSome = true ↔
        (cfg.raw.layers.lookup name).isSome = true ∨ call.name = name := by
      rcases register_cases cfg call with ⟨hthere, hsame⟩ | ⟨hnew, layer, -, hafter⟩
      · rw [hsame]
        refine ⟨.inl, fun h => h.elim id fun heq => ?_⟩
        rw [← heq]
        exact hthere
      · rw [hafter]
        simp only [lookup_insert_ite]
        by_cases hname : name = call.name
        · simp [hname]
        · simp [hname, Ne.symm hname]
    rw [List.foldl_cons, ih, hstep]
    simp only [List.mem_cons, exists_eq_or_imp]
    tauto

/-! ## The order after any calls -/

/-- What the order of the layers of a file owes to its readers, also after
some layers were registered. -/
structure OrderKept (raw : RawConfig) (calls : List Registration) : Prop where
  /-- The layers are ordered exactly when they can be. -/
  accepted : (∃ order, topoOrder raw = .ok order) ↔ Orderable raw
  /-- An accepted order lists every node once, dependencies first. -/
  ordered : ∀ order, topoOrder raw = .ok order → Ordered raw order
  /-- The loop ends and no counter is taken below zero. -/
  ends : ∀ table, dependencyTable raw = .ok table →
    (checkedList table.outgoing table.incoming.keys.card (startListing table)).isSome = true
  /-- The order stays so after the calls, and no layer is called code. -/
  registered : ∀ cfg, validate raw = .ok cfg →
    Ordered (calls.foldl register cfg).raw (calls.foldl register cfg).topoOrder ∧
      (calls.foldl register cfg).raw.layers.lookup "code" = none

/-- The order is kept exactly when no call on a valid configuration registers
a layer by the name of the code. -/
theorem orderKept_iff {raw : RawConfig} (hfits : Fits raw) (calls : List Registration) :
    OrderKept raw calls ↔
      ∀ cfg, validate raw = .ok cfg → ∀ call ∈ calls, call.name ≠ "code" := by
  have hcode : ∀ cfg, validate raw = .ok cfg →
      ((calls.foldl register cfg).raw.layers.lookup "code" = none ↔
        ∀ call ∈ calls, call.name ≠ "code") := by
    intro cfg hvalid
    have haccepted := accepted_of_validate hvalid
    have hnone : cfg.raw.layers.lookup "code" = none := by
      rw [haccepted.kept]
      exact haccepted.reserved
    have hafter := isSome_foldl_register calls cfg "code"
    rw [hnone] at hafter
    rw [← Option.not_isSome_iff_eq_none, hafter]
    simp
  constructor
  · intro hkept cfg hvalid
    exact (hcode cfg hvalid).mp (hkept.registered cfg hvalid).2
  · intro hcalls
    refine ⟨topoOrder_ok_iff hfits, fun order => ordered_topoOrder hfits, ?_, ?_⟩
    · intro table htable
      have hcounted := counted_dependencyTable htable
      have hstart : Sound raw (startListing table) [] := Sound.start hcounted
      rw [(checkedList_eq hfits hcounted table.incoming.keys.card hstart
        (by rw [hcounted.keys]; omega)).1]
      rfl
    · intro cfg hvalid
      refine ⟨?_, (hcode cfg hvalid).mpr (hcalls cfg hvalid)⟩
      have haccepted := accepted_of_validate hvalid
      apply ordered_foldl_register
      rw [haccepted.kept]
      exact ordered_topoOrder hfits haccepted.order

/-- Two authored layers beside a chain of derived ones. -/
theorem orderKept_notes :
    (validate chainConfig).toOption.isSome = true ∧
      OrderKept chainConfig [⟨"notes", true, true⟩, ⟨"intent", true, false⟩] := by
  refine ⟨by decide +kernel, (orderKept_iff (fits_of_length_le ?_) _).mpr ?_⟩
  · intro name layer hlayer
    unfold chainConfig withLayers at hlayer
    simp only [lookup_insert_ite] at hlayer
    split at hlayer
    · rw [← Option.some.inj hlayer]
      exact Nat.le_refl 1
    · split at hlayer
      · rw [← Option.some.inj hlayer]
        exact Nat.le_refl 1
      · cases hlayer
  · intro _ _
    decide

/-- The name of the code is refused in a file and accepted afterwards. -/
theorem code_registered :
    (∃ cfg, validate chainConfig = .ok cfg ∧
      registerAuthoredLayer cfg "code" true true = .ok (register cfg ⟨"code", true, true⟩) ∧
      ((register cfg ⟨"code", true, true⟩).raw.layers.lookup "code").isSome = true) ∧
    ¬ OrderKept chainConfig [⟨"code", true, true⟩] := by
  have hvalid : ∃ cfg, validate chainConfig = .ok cfg := ⟨_, rfl⟩
  obtain ⟨cfg, hcfg⟩ := hvalid
  have hnone : cfg.raw.layers.lookup "code" = none := by
    have haccepted := accepted_of_validate hcfg
    rw [haccepted.kept]
    exact haccepted.reserved
  have hsome : ((register cfg ⟨"code", true, true⟩).raw.layers.lookup "code").isSome = true :=
    (isSome_foldl_register [⟨"code", true, true⟩] cfg "code").mpr
      (.inr ⟨_, List.mem_cons_self, rfl⟩)
  refine ⟨⟨cfg, hcfg, ?_, hsome⟩, fun hkept => ?_⟩
  · unfold register registerAuthoredLayer
    simp only [hnone]
  · have hcode := (hkept.registered cfg hcfg).2
    change (register cfg ⟨"code", true, true⟩).raw.layers.lookup "code" = none at hcode
    rw [hcode] at hsome
    cases hsome

end Tyo3.RegisteredLayers
