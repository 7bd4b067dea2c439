import Tyo3.DerivedLayers
import Tyo3.PlacementSweeps

/-!
# The effective order of the layers

A session has the layers of its configuration and the derived layers that were
registered. The native order lists the former; the others are placed behind it,
sweep by sweep, each after its dependencies. A layer that depends, directly or
not, on a cycle or on a layer that is nowhere is never placed by a sweep, and is
appended at the end in the order of the table.
-/

namespace Tyo3.EffectiveOrders

open DerivedLayers PlacementSweeps

/-! ## The table of layers -/

/-- A table of layers in insertion order. -/
structure LayerTable where
  /-- The layers with their names. -/
  entries : List (String × LayerConfig)
  /-- A name is used once. -/
  distinct : (entries.map Prod.fst).Nodup

/-- A registered kind of a derived layer, what the table takes from it. -/
structure DerivedLayerSpec where
  /-- Declared dependencies. -/
  dependsOn : List String
  /-- Version of the producer. -/
  generatorVersion : String
  /-- Hash profile of its keys. -/
  hashProfile : String
  /-- What a cache key covers; traced reads by default. -/
  keyLocality : Option String
  /-- How a stale read is served. -/
  serving : String
  /-- When values are computed again. -/
  recompute : String
  /-- Entity kinds it applies to. -/
  entityKinds : List String

/-- A registered kind of a layer. -/
inductive LayerSpec where
  | authored
  | derived (spec : DerivedLayerSpec)

/-- The configuration of a registered layer. -/
def DerivedLayerSpec.toLayerConfig (spec : DerivedLayerSpec) : LayerConfig where
  origin := "derived"
  dependsOn := spec.dependsOn
  generator := none
  generatorVersion := some spec.generatorVersion
  hashProfile := some spec.hashProfile
  store := none
  serving := spec.serving
  recompute := spec.recompute
  keyLocality := match spec.keyLocality with
    | none => "traced"
    | some locality => if locality = "" then "traced" else locality
  entityKinds := spec.entityKinds
  history := true
  reviewOnChange := false

namespace LayerTable

variable (table : LayerTable)

/-- The names of the layers. -/
def names : List String := table.entries.map Prod.fst

/-- The dependencies of a layer. -/
def dependsOn (name : String) : List String :=
  match table.entries.lookup name with
  | some config => config.dependsOn
  | none => []

/-- Add a registered layer. A name of the table keeps its layer, and authored
layers come from the configuration alone. -/
def register (name : String) : LayerSpec → LayerTable
  | .authored => table
  | .derived spec =>
    if hname : name ∈ table.names then table
    else
      { entries := table.entries ++ [(name, spec.toLayerConfig)]
        distinct := by
          rw [List.map_append]
          refine List.nodup_append'.mpr ⟨table.distinct, List.nodup_singleton _, ?_⟩
          exact List.disjoint_singleton.mpr hname }

end LayerTable

/-- The layers of the configuration and the registered derived ones. -/
def buildEffectiveLayers (config : LayerTable) (registered : List (String × LayerSpec)) :
    LayerTable :=
  registered.foldl (fun table entry => table.register entry.1 entry.2) config

theorem LayerTable.mem_names_register (table : LayerTable) (name other : String) (spec : LayerSpec) :
    other ∈ (table.register name spec).names ↔
      other ∈ table.names ∨ other = name ∧ ∃ derived, spec = .derived derived := by
  cases spec with
  | authored => simp [register]
  | derived spec =>
    unfold register
    split_ifs with hname
    · constructor
      · exact .inl
      · rintro (hin | ⟨heq, -⟩)
        · exact hin
        · rwa [heq]
    · simp [names]

/-- The effective layers are those of the configuration and the registered
derived ones. -/
theorem mem_names_buildEffectiveLayers (config : LayerTable) (registered : List (String × LayerSpec))
    (name : String) :
    name ∈ (buildEffectiveLayers config registered).names ↔
      name ∈ config.names ∨ ∃ spec, (name, LayerSpec.derived spec) ∈ registered := by
  induction registered generalizing config with
  | nil => simp [buildEffectiveLayers]
  | cons entry registered ih =>
    have hfirst : buildEffectiveLayers config (entry :: registered) =
        buildEffectiveLayers (config.register entry.1 entry.2) registered := rfl
    obtain ⟨first, spec⟩ := entry
    rw [hfirst, ih, LayerTable.mem_names_register, or_assoc]
    refine or_congr_right ?_
    simp only [List.mem_cons, Prod.mk.injEq, exists_or]
    refine or_congr_left ?_
    constructor
    · rintro ⟨hname, derived, hspec⟩
      exact ⟨derived, hname, hspec.symm⟩
    · rintro ⟨derived, hname, hspec⟩
      exact ⟨hname, derived, hspec.symm⟩

/-! ## The order -/

/-- The layers that the native order lacks. -/
def missing (native : List String) (table : LayerTable) : List String :=
  table.names.filter fun name => name ∉ native ∧ name ≠ "code"

/-- The native order with the layers that it lacks behind it. -/
def effectiveTopoOrder (native : List String) (table : LayerTable) : Option (List String) :=
  let pending := missing native table
  place table.dependsOn {"code"} (pending.length + 2) true native pending

/-- A name that is code, native, or a layer whose dependencies resolve. -/
def Resolves (native : List String) (table : LayerTable) : String → Prop :=
  Settles table.dependsOn {"code"} native (missing native table)

/-- A layer that the native order lacks, with a dependency of it. -/
def DependsOn (native : List String) (table : LayerTable) : String → String → Prop :=
  Waits table.dependsOn (missing native table)

/-- A name that is neither code nor native nor a layer. -/
def Unknown (native : List String) (table : LayerTable) (name : String) : Prop :=
  name ∉ native ∧ name ≠ "code" ∧ name ∉ table.names

/-- A layer that depends, directly or not, on one that is on a cycle or has an
unknown dependency, or is one. -/
def Unresolvable (native : List String) (table : LayerTable) (name : String) : Prop :=
  ∃ other, Relation.ReflTransGen (DependsOn native table) name other ∧
    (Relation.TransGen (DependsOn native table) other other ∨
      ∃ dep, DependsOn native table other dep ∧ Unknown native table dep)

section Order

variable {native : List String} {table : LayerTable}

theorem mem_missing {name : String} :
    name ∈ missing native table ↔ name ∈ table.names ∧ name ∉ native ∧ name ≠ "code" := by
  simp [missing]

theorem nodup_missing : (missing native table).Nodup := table.distinct.filter _

/-- The sweeps end. The order is the native one, then the layers that the sweeps
placed, then the layers that have a dependency which was never placed. -/
theorem effectiveTopoOrder_parts (native : List String) (table : LayerTable) :
    ∃ added stuck, effectiveTopoOrder native table = some (native ++ added ++ stuck) ∧
      (added ++ stuck).Perm (missing native table) ∧
      Placed table.dependsOn {"code"} native added ∧
      ∀ name ∈ stuck, ∃ dep ∈ table.dependsOn name, dep ∉ native ++ added ∧
        dep ∉ ({"code"} : Finset String) :=
  place_spec (by omega) (fun _ => by omega) nofun

theorem unresolvable_of_blocked {name : String}
    (h : Blocked table.dependsOn {"code"} native (missing native table) name) :
    Unresolvable native table name := by
  obtain ⟨other, hlead, hcycle | ⟨hin, dep, hdep, hcode, hnative, hout⟩⟩ := h
  · exact ⟨other, hlead, .inl hcycle⟩
  · refine ⟨other, hlead, .inr ⟨dep, ⟨hin, hdep⟩, hnative, ?_, fun hname => hout ?_⟩⟩
    · simpa using hcode
    · exact mem_missing.mpr ⟨hname, hnative, by simpa using hcode⟩

variable {added stuck : List String} (hperm : (added ++ stuck).Perm (missing native table))
include hperm

/-- A layer that the native order lacks has one place. -/
theorem place_unique {name : String} {front back before after : List String}
    (hmissing : name ∈ missing native table)
    (hsplit : added = front ++ name :: back)
    (horder : native ++ added ++ stuck = before ++ name :: after) : before = native ++ front := by
  have hnodup : (front ++ name :: (back ++ stuck)).Nodup := by
    have hall := hperm.nodup_iff.mpr nodup_missing
    rw [hsplit] at hall
    simpa using hall
  have hnative : name ∉ native := (mem_missing.mp hmissing).2.1
  have hfront : name ∉ native ++ front := by
    rw [List.mem_append]
    rintro (hin | hin)
    · exact hnative hin
    · exact (List.nodup_append'.mp hnodup).2.2 hin List.mem_cons_self
  have hback : name ∉ back ++ stuck :=
    (List.nodup_cons.mp (List.nodup_append'.mp hnodup).2.1).1
  have heq : (native ++ front) ++ name :: (back ++ stuck) = before ++ name :: after := by
    rw [← horder, hsplit]
    simp
  exact ((List.append_cons_inj_of_notMem hfront hback).mp heq).1.symm

/-- A layer that resolves stands behind its dependencies. -/
theorem mem_before_of_resolves (hplaced : Placed table.dependsOn {"code"} native added)
    (hstuck : ∀ name ∈ stuck, ∃ dep ∈ table.dependsOn name, dep ∉ native ++ added ∧
      dep ∉ ({"code"} : Finset String)) {name : String} (hmissing : name ∈ missing native table)
    (hresolves : Resolves native table name) {before after : List String}
    (horder : native ++ added ++ stuck = before ++ name :: after) {dep : String}
    (hdep : dep ∈ table.dependsOn name) : dep ∈ before ∨ dep = "code" ∧ "code" ∉ native := by
  obtain ⟨hname, hnative, hcode⟩ := mem_missing.mp hmissing
  have hin : name ∈ added := by
    rcases mem_of_settles hperm hstuck hresolves with hin | hin
    · rcases List.mem_append.mp hin with hin | hin
      · exact absurd hin hnative
      · exact hin
    · exact absurd (Finset.mem_singleton.mp hin) hcode
  obtain ⟨front, back, hsplit⟩ := List.append_of_mem hin
  rw [place_unique hperm hmissing hsplit horder]
  rcases hplaced front name back hsplit dep hdep with hbefore | hgiven
  · exact .inl hbefore
  · have heq : dep = "code" := Finset.mem_singleton.mp hgiven
    by_cases hlisted : "code" ∈ native
    · exact .inl (List.mem_append_left _ (heq ▸ hlisted))
    · exact .inr ⟨heq, hlisted⟩

/-- Every layer is listed once; a layer called code only by the native order. -/
theorem count_order (hnative : native.Nodup) {name : String} (hname : name ∈ table.names)
    (hcode : name = "code" → "code" ∈ native) : (native ++ added ++ stuck).count name = 1 := by
  have hcount : (added ++ stuck).count name = (missing native table).count name :=
    hperm.count_eq name
  rw [List.append_assoc, List.count_append, hcount]
  by_cases hin : name ∈ native
  · have hout : name ∉ missing native table := fun hmem => (mem_missing.mp hmem).2.1 hin
    rw [List.count_eq_one_of_mem hnative hin, List.count_eq_zero_of_not_mem hout]
  · have hmem : name ∈ missing native table :=
      mem_missing.mpr ⟨hname, hin, fun heq => hin (heq ▸ hcode heq)⟩
    rw [List.count_eq_zero_of_not_mem hin, List.count_eq_one_of_mem nodup_missing hmem]

end Order

/-- The order ends, starts with the native one and lists every layer once, a
layer called code only where the native order does. A layer that the native
order lacks stands behind its dependencies when these resolve; only a layer that
depends, directly or not, on a cycle or on an unknown name may stand before
one. -/
theorem effectiveTopoOrder_extends (native : List String) (table : LayerTable) :
    ∃ order, effectiveTopoOrder native table = some order ∧ native <+: order ∧
      (native.Nodup → ∀ name ∈ table.names, (name = "code" → "code" ∈ native) →
        order.count name = 1) ∧
      ∀ name ∈ missing native table, ∀ before after, order = before ++ name :: after →
        ((∀ dep ∈ table.dependsOn name, Resolves native table dep) →
          ∀ dep ∈ table.dependsOn name, dep ∈ before ∨ dep = "code" ∧ "code" ∉ native) ∧
        ((∃ dep ∈ table.dependsOn name, dep ≠ "code" ∧ dep ∉ before) →
          Unresolvable native table name) := by
  obtain ⟨added, stuck, horder, hperm, hplaced, hstuck⟩ := effectiveTopoOrder_parts native table
  refine ⟨_, horder, ?_, fun hnodup name hname hcode => count_order hperm hnodup hname hcode,
    fun name hmissing before after hsplit => ⟨fun hdeps dep hdep => ?_, ?_⟩⟩
  · rw [List.append_assoc]
    exact List.prefix_append _ _
  · exact mem_before_of_resolves hperm hplaced hstuck hmissing (.waiting hmissing hdeps) hsplit hdep
  · rintro ⟨dep, hdep, hcode, hout⟩
    refine unresolvable_of_blocked (blocked_of_not_settles hmissing fun hresolves => ?_)
    rcases mem_before_of_resolves hperm hplaced hstuck hmissing hresolves hsplit hdep with
      hbefore | ⟨heq, -⟩
    · exact hout hbefore
    · exact hcode heq

/-! ## A layer over a cycle -/

/-- A registered layer with dependencies. -/
def layerOver (dependsOn : List String) : LayerConfig :=
  DerivedLayerSpec.toLayerConfig ⟨dependsOn, "v1", "structure", none, "block", "lazy", []⟩

/-- A layer over two that depend on each other. -/
def overCycle : LayerTable where
  entries := [("a", layerOver ["b"]), ("b", layerOver ["c"]), ("c", layerOver ["b"])]
  distinct := by decide

/-- A layer with the name of the code. -/
def codeAlone : LayerTable where
  entries := [("code", layerOver [])]
  distinct := by decide

theorem dependsOn_overCycle {name dep : String} (h : DependsOn ["code"] overCycle name dep) :
    dep = "b" ∨ dep = "c" := by
  obtain ⟨hname, hdep⟩ := h
  have hall : ∀ name ∈ overCycle.names, ∀ dep ∈ overCycle.dependsOn name, dep = "b" ∨ dep = "c" := by
    decide
  exact hall name (mem_missing.mp hname).1 dep hdep

/-- A layer may stand before a dependency that is on a cycle, without being on
one itself and without an unknown dependency anywhere. A layer called code is
not listed when the native order does not list code. -/
theorem layer_before_cycle :
    (effectiveTopoOrder ["code"] overCycle = some (["code"] ++ "a" :: ["b", "c"]) ∧
      "b" ∈ overCycle.dependsOn "a" ∧ "b" ∉ ["code"] ∧
      ¬ Relation.TransGen (DependsOn ["code"] overCycle) "a" "a" ∧
      ∀ name dep, DependsOn ["code"] overCycle name dep → ¬ Unknown ["code"] overCycle dep) ∧
    effectiveTopoOrder [] codeAlone = some [] ∧ "code" ∈ codeAlone.names := by
  refine ⟨⟨by decide, by decide, by decide, fun hcycle => ?_, fun name dep h hunknown => ?_⟩,
    by decide, by decide⟩
  · -- nothing depends on the layer
    obtain ⟨name, -, hlast⟩ := Relation.TransGen.tail'_iff.mp hcycle
    rcases dependsOn_overCycle hlast with heq | heq
    · exact absurd heq (by decide)
    · exact absurd heq (by decide)
  · rcases dependsOn_overCycle h with rfl | rfl
    · exact hunknown.2.2 (by decide)
    · exact hunknown.2.2 (by decide)

end Tyo3.EffectiveOrders
