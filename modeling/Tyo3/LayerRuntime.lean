import Tyo3.DerivedLayers
import Tyo3.LayerOrder

/-!
# The runtime layers against the validated configuration

Validation resolves the defaults of a layer, and the runtime reads the layer
as it was written and resolves defaults again. Every derived layer reaches the
runtime. It agrees with the validated one when it declares its dependencies,
names its hash profile, or leaves it to a default both sides share, names no
kind the two sides spell differently, and reaches code through its first
dependencies.
-/

namespace Tyo3.LayerRuntime

open FiniteMaps JsonValues Tyo3.Configuration DerivedLayers LayerOrder

open AuthoredStore (LayerOrigin)

open CodeLayer (SymbolKindDto)

/-! ## What validation establishes -/

/-- The hash profile of a layer, none where the table has no such entry. -/
def profileFor (cfg : ValidatedConfig) (layer : String) : Option HashProfileCfg :=
  if layer = "code" then cfg.raw.hashing.profiles.lookup cfg.raw.spine.defaultHashProfile
  else (cfg.raw.layers.lookup layer).bind fun layerCfg =>
    cfg.raw.hashing.profiles.lookup (layerCfg.hashProfile.getD cfg.raw.spine.defaultHashProfile)

/-- The facts about an accepted configuration that the runtime rests on. -/
structure Accepted (raw : RawConfig) (cfg : ValidatedConfig) : Prop where
  /-- The file is kept. -/
  kept : cfg.raw = raw
  /-- The layers are ordered. -/
  order : topoOrder raw = .ok cfg.topoOrder
  /-- No layer is called code. -/
  reserved : raw.layers.lookup "code" = none
  /-- Hash profiles are declared. -/
  profiles : ∀ name layer, raw.layers.lookup name = some layer →
    (raw.hashing.profiles.lookup (layer.hashProfile.getD raw.spine.defaultHashProfile)).isSome
  /-- No layer depends on an authored one. -/
  derived : ∀ name layer, raw.layers.lookup name = some layer → ∀ dep ∈ effectiveDependsOn layer,
    ∀ depLayer, raw.layers.lookup dep = some depLayer → depLayer.origin = .derived
  /-- Kinds are known. -/
  kinds : ∀ name layer, raw.layers.lookup name = some layer →
    ∀ kind ∈ layer.entityKinds, isKnownKind kind = true

/-- A loop of checks passes when every check does. -/
theorem forM_ok {α : Type*} {check : α → Except ConfigError Unit} {items : List α}
    (h : items.forM check = .ok ()) : ∀ item ∈ items, check item = .ok () := by
  induction items with
  | nil => exact fun item hitem => absurd hitem List.not_mem_nil
  | cons first items ih =>
    change (check first >>= fun _ => items.forM check) = .ok () at h
    cases hfirst : check first with
    | error e =>
      rw [hfirst] at h
      exact absurd h (by simp [bind, Except.bind])
    | ok value =>
      rw [hfirst] at h
      intro item hitem
      rcases List.mem_cons.mp hitem with hsame | hrest
      · rw [hsame]
        exact hfirst
      · exact ih h item hrest

/-- A check of all layers passes on each of them. -/
theorem forLayers_ok {raw : RawConfig} {check : String → LayerCfg → Except ConfigError Unit}
    (h : forLayers raw check = .ok ()) {name : String} {layer : LayerCfg}
    (hlayer : raw.layers.lookup name = some layer) : check name layer = .ok () :=
  forM_ok h (name, layer) ((mem_entries _ _ _).mpr hlayer)

/-- A guarded step succeeds when the guard fails. -/
theorem guard_ok {β : Type} {c : Prop} [Decidable c] {e : ConfigError}
    {rest : Unit → Except ConfigError β} {result : β}
    (h : (if c then (throw e >>= rest) else rest ()) = .ok result) :
    ¬c ∧ rest () = .ok result := by
  split_ifs at h with hc
  · exact absurd h (by simp [throw, throwThe, MonadExceptOf.throw, bind, Except.bind])
  · exact ⟨hc, h⟩

/-- What `validate` has checked. -/
theorem accepted_of_validate {raw : RawConfig} {cfg : ValidatedConfig}
    (h : validate raw = .ok cfg) : Accepted raw cfg := by
  unfold validate at h
  obtain ⟨_, h⟩ := guard_ok h
  obtain ⟨_, h⟩ := guard_ok h
  obtain ⟨_, hprofiles, h⟩ := bind_ok h
  obtain ⟨_, _, h⟩ := bind_ok h
  obtain ⟨hreserved, h⟩ := guard_ok h
  obtain ⟨order, horder, h⟩ := bind_ok h
  obtain ⟨_, hdeps, h⟩ := bind_ok h
  obtain ⟨_, _, h⟩ := bind_ok h
  obtain ⟨_, hkinds, h⟩ := bind_ok h
  obtain ⟨_, _, h⟩ := bind_ok h
  obtain ⟨_, h⟩ := guard_ok h
  obtain ⟨_, _, h⟩ := bind_ok h
  obtain ⟨_, _, h⟩ := bind_ok h
  obtain ⟨_, _, h⟩ := bind_ok h
  have hcfg := Except.ok.inj h
  subst hcfg
  refine ⟨rfl, horder, ?_, ?_, ?_, ?_⟩
  · rwa [Bool.not_eq_true, Option.isSome_eq_false_iff, Option.isNone_iff_eq_none] at hreserved
  · intro name layer hlayer
    have hcheck := forLayers_ok hprofiles hlayer
    unfold checkHashProfile at hcheck
    by_contra hmissing
    rw [Bool.not_eq_true, Option.isSome_eq_false_iff] at hmissing
    rw [if_pos hmissing] at hcheck
    exact absurd hcheck (by simp)
  · intro name layer hlayer dep hdep depLayer hdepLayer
    have hcheck := forM_ok (forLayers_ok hdeps hlayer) dep hdep
    rw [hdepLayer] at hcheck
    cases horigin : depLayer.origin with
    | derived => rfl
    | authored =>
      simp only [horigin, if_true] at hcheck
      exact absurd hcheck (by simp)
  · intro name layer hlayer kind hkind
    have hcheck := forM_ok (forLayers_ok hkinds hlayer) kind hkind
    by_contra hunknown
    rw [if_neg hunknown] at hcheck
    exact absurd hcheck (by simp)

/-! ## Reading the projection -/

/-- The text of an origin. -/
def originText : LayerOrigin → String
  | .derived => "derived"
  | .authored => "authored"

/-- The text of a serving mode. -/
def servingText : ServingMode → String
  | .stale => "stale"
  | .block => "block"

/-- The text of a recompute mode. -/
def recomputeText : RecomputeMode → String
  | .lazy => "lazy"
  | .eager => "eager"

/-- The text of a key locality, local when none is named. -/
def localityText : Option KeyLocality → String
  | some .semantic => "semantic"
  | some .local_ | none => "local"

/-- A layer as the runtime should read it. -/
def runtimeConfig (l : LayerCfg) : LayerConfig where
  origin := originText l.origin
  dependsOn := l.dependsOn
  generator := l.generator
  generatorVersion := l.generatorVersion
  hashProfile := l.hashProfile
  store := l.store
  serving := servingText l.serving
  recompute := recomputeText l.recompute
  keyLocality := localityText l.keyLocality
  entityKinds := l.entityKinds
  history := l.history
  reviewOnChange := l.reviewOnChange

/-- A printed list of texts reads back. -/
theorem texts_strings (items : List String) : texts (some (strings items)) = some items := by
  change (items.map Json.str).mapM Json.asStr = some items
  induction items with
  | nil => rfl
  | cons item items ih =>
    rw [List.map_cons, List.mapM_cons, ih]
    rfl

/-- A printed optional text reads back. -/
theorem asStr_optStr (text : Option String) : (optStr text).asStr = text := by
  cases text <;> rfl

/-- A printed layer reads back. -/
theorem layer_layerJson (l : LayerCfg) :
    DerivedLayers.layer (layerJson l) = some (runtimeConfig l) := by
  have horigin : (originJson l.origin).asStr = some (originText l.origin) := by
    cases l.origin <;> rfl
  have hserving : (servingJson l.serving).asStr = some (servingText l.serving) := by
    cases l.serving <;> rfl
  have hrecompute : (recomputeJson l.recompute).asStr = some (recomputeText l.recompute) := by
    cases l.recompute <;> rfl
  have hlocality : (if ((keyLocalityJson l.keyLocality).asStr).getD "" = "" then "local"
      else ((keyLocalityJson l.keyLocality).asStr).getD "") = localityText l.keyLocality := by
    cases l.keyLocality with
    | none => rfl
    | some locality => cases locality <;> rfl
  have hfields : ∀ key, field key (layerJson l) = List.lookup key
      [("depends_on", strings l.dependsOn), ("entity_kinds", strings l.entityKinds),
        ("generator", optStr l.generator), ("generator_version", optStr l.generatorVersion),
        ("hash_profile", optStr l.hashProfile), ("history", .bool l.history),
        ("key_locality", keyLocalityJson l.keyLocality), ("origin", originJson l.origin),
        ("recompute", recomputeJson l.recompute), ("review_on_change", .bool l.reviewOnChange),
        ("serving", servingJson l.serving), ("store", optStr l.store)] := fun _ => rfl
  unfold DerivedLayers.layer
  simp only [hfields, List.lookup_cons, String.reduceBEq, Option.bind_some, horigin, hserving,
    hrecompute, texts_strings, asStr_optStr, asBool, Option.bind_eq_bind]
  rw [hlocality]
  rfl

/-- A key of a sorted map is found among its entries. -/
theorem lookup_entries {V W : Type} (m : FMap String V) (print : V → W) (name : String) :
    ((entries m).map fun entry => (entry.1, print entry.2)).lookup name =
      (m.lookup name).map print := by
  cases hfound : ((entries m).map fun entry => (entry.1, print entry.2)).lookup name with
  | none =>
    rw [List.lookup_eq_none_iff] at hfound
    cases hlookup : m.lookup name with
    | none => rfl
    | some value =>
      have hentry : (name, value) ∈ entries m := (mem_entries _ _ _).mpr hlookup
      exact absurd (hfound _ (List.mem_map_of_mem hentry)) (by simp)
  | some printed =>
    obtain ⟨before, after, hsplit, _⟩ := List.lookup_eq_some_iff.mp hfound
    have hpair : (name, printed) ∈ (entries m).map fun entry => (entry.1, print entry.2) := by
      rw [hsplit]
      exact List.mem_append_right _ List.mem_cons_self
    obtain ⟨entry, hentry, hmk⟩ := List.mem_map.mp hpair
    rw [Prod.mk.injEq] at hmk
    have hlookup : m.lookup entry.1 = some entry.2 := (mem_entries _ _ _).mp hentry
    rw [← hmk.1, hlookup, ← hmk.2]
    rfl

/-- The layers the runtime reads for an order. -/
theorem lookup_readLayers {raw : RawConfig} (names : List String) {start : FMap String LayerConfig} :
    ∃ layers, names.foldlM (fun layers name =>
        match field name (tables layerJson raw.layers) with
        | some data =>
          if name = "code" then some layers else (DerivedLayers.layer data).map (layers.insert name)
        | none => some layers) start = some layers ∧
      ∀ name, layers.lookup name =
        if name ∈ names ∧ name ≠ "code" ∧ (raw.layers.lookup name).isSome
        then (raw.layers.lookup name).map runtimeConfig else start.lookup name := by
  induction names generalizing start with
  | nil => exact ⟨start, rfl, fun name => by simp⟩
  | cons first names ih =>
    have hfield : field first (tables layerJson raw.layers) =
        (raw.layers.lookup first).map layerJson := lookup_entries _ _ _
    rw [List.foldlM_cons, hfield]
    cases hfirst : raw.layers.lookup first with
    | none =>
      obtain ⟨layers, hfold, hlayers⟩ := @ih start
      refine ⟨layers, hfold, fun name => ?_⟩
      rw [hlayers name]
      by_cases hname : name = first
      · subst hname
        simp [hfirst]
      · simp [hname]
    | some cfg =>
      simp only [Option.map_some]
      by_cases hcode : first = "code"
      · obtain ⟨layers, hfold, hlayers⟩ := @ih start
        refine ⟨layers, by rw [if_pos hcode]; exact hfold, fun name => ?_⟩
        rw [hlayers name]
        by_cases hname : name = first
        · simp [hname, hcode]
        · simp [hname]
      · obtain ⟨layers, hfold, hlayers⟩ := @ih (start.insert first (runtimeConfig cfg))
        rw [if_neg hcode, layer_layerJson]
        refine ⟨layers, hfold, fun name => ?_⟩
        rw [hlayers name, lookup_insert_ite]
        by_cases hname : name = first
        · subst hname
          simp [hfirst, hcode]
        · simp [hname]

/-- The runtime reads every layer of the order as it was written. -/
theorem fromJson_configJson (cfg : ValidatedConfig) :
    ∃ config, fromJson (configJson cfg) = some config ∧ config.topoOrder = cfg.topoOrder ∧
      ∀ name, config.layers.lookup name =
        if name ∈ cfg.topoOrder ∧ name ≠ "code" ∧ (cfg.raw.layers.lookup name).isSome
        then (cfg.raw.layers.lookup name).map runtimeConfig else none := by
  obtain ⟨layers, hfold, hlayers⟩ :=
    @lookup_readLayers cfg.raw cfg.topoOrder (∅ : FMap String LayerConfig)
  refine ⟨⟨layers, cfg.topoOrder⟩, ?_, rfl, ?_⟩
  · have hread : readLayers (tables layerJson cfg.raw.layers) cfg.topoOrder = some layers := hfold
    have hraw : field "raw" (configJson cfg) = some (rawJson cfg.raw) := rfl
    have horder : field "topo_order" (configJson cfg) = some (strings cfg.topoOrder) := rfl
    have hfield : field "layers" (rawJson cfg.raw) = some (tables layerJson cfg.raw.layers) := rfl
    unfold fromJson
    simp only [hraw, horder, hfield, texts_strings, Option.bind_eq_bind, Option.bind_some,
      Option.getD_some, hread]
    rfl
  · intro name
    rw [hlayers name, Finmap.lookup_empty]

/-! ## The graph of layers -/

/-- The runtime layer of a derived layer. -/
def runtimeLayer (raw : RawConfig) (name : String) : Option DerivedLayer :=
  (raw.layers.lookup name).bind fun layer =>
    if layer.origin = .derived then some (DerivedLayer.fromConfig name (runtimeConfig layer))
    else none

/-- A runtime layer comes from a derived layer of the configuration. -/
theorem runtimeLayer_eq_some {raw : RawConfig} {name : String} {layer : DerivedLayer} :
    runtimeLayer raw name = some layer ↔ ∃ cfg, raw.layers.lookup name = some cfg ∧
      cfg.origin = .derived ∧ layer = DerivedLayer.fromConfig name (runtimeConfig cfg) := by
  constructor
  · intro h
    obtain ⟨cfg, hcfg, hbuilt⟩ := Option.bind_eq_some_iff.mp h
    split_ifs at hbuilt with hderived
    exact ⟨cfg, hcfg, hderived, (Option.some.inj hbuilt).symm⟩
  · intro ⟨cfg, hcfg, hderived, hlayer⟩
    rw [runtimeLayer, hcfg, Option.bind_some, if_pos hderived, hlayer]

/-- A runtime layer carries its name. -/
theorem name_of_runtimeLayer {raw : RawConfig} {name : String} {layer : DerivedLayer}
    (h : runtimeLayer raw name = some layer) : layer.name = name := by
  obtain ⟨cfg, _, _, hlayer⟩ := runtimeLayer_eq_some.mp h
  rw [hlayer]
  rfl

/-- The table of a list of layers that their names determine. -/
theorem lookup_foldl_layers {source : String → Option DerivedLayer} (layers : List DerivedLayer)
    (hsource : ∀ layer ∈ layers, source layer.name = some layer) {m : FMap String DerivedLayer}
    (name : String) :
    (layers.foldl (fun m layer => m.insert layer.name layer) m).lookup name =
      if name ∈ layers.map DerivedLayer.name then source name else m.lookup name := by
  induction layers generalizing m with
  | nil => rfl
  | cons first layers ih =>
    have hrest := fun m => @ih (fun layer hlayer =>
      hsource layer (List.mem_cons_of_mem _ hlayer)) m
    rw [List.foldl_cons, hrest, lookup_insert_ite, List.map_cons]
    by_cases hin : name ∈ layers.map DerivedLayer.name
    · rw [if_pos hin, if_pos (List.mem_cons_of_mem _ hin)]
    · rw [if_neg hin]
      by_cases hfirst : name = first.name
      · subst hfirst
        rw [if_pos rfl, if_pos List.mem_cons_self, hsource first List.mem_cons_self]
      · have hout : name ∉ first.name :: layers.map DerivedLayer.name :=
          fun hmem => (List.mem_cons.mp hmem).elim hfirst hin
        rw [if_neg hfirst, if_neg hout]

/-- The runtime has exactly the derived layers of a validated configuration. -/
theorem mem_derivedLayers {raw : RawConfig} {cfg : ValidatedConfig} {config : TyConfig}
    (hfits : Fits raw) (haccepted : Accepted raw cfg)
    (horder : config.topoOrder = cfg.topoOrder)
    (hlayers : ∀ name, config.layers.lookup name =
      if name ∈ cfg.topoOrder ∧ name ≠ "code" ∧ (cfg.raw.layers.lookup name).isSome
      then (cfg.raw.layers.lookup name).map runtimeConfig else none) (layer : DerivedLayer) :
    layer ∈ derivedLayers config ↔ runtimeLayer raw layer.name = some layer := by
  have hordered := ordered_topoOrder hfits haccepted.order
  have hlisted : ∀ name l, raw.layers.lookup name = some l →
      name ∈ cfg.topoOrder ∧ name ≠ "code" := by
    intro name l hl
    constructor
    · rw [hordered.complete]
      exact Finset.mem_insert_of_mem ((mem_keys_iff _ _).mpr ⟨l, hl⟩)
    · intro hcode
      rw [hcode, haccepted.reserved] at hl
      exact absurd hl (by simp)
  have hread : ∀ name, config.layers.lookup name = (raw.layers.lookup name).map runtimeConfig := by
    intro name
    rw [hlayers, haccepted.kept]
    cases hl : raw.layers.lookup name with
    | none => simp
    | some l => simp [hlisted name l hl]
  unfold derivedLayers
  rw [List.mem_filterMap, horder]
  constructor
  · intro ⟨name, _, hsome⟩
    split_ifs at hsome with hcode
    rw [hread name] at hsome
    cases hl : raw.layers.lookup name with
    | none =>
      rw [hl] at hsome
      exact absurd hsome (by simp)
    | some l =>
      rw [hl] at hsome
      simp only [Option.map_some] at hsome
      split_ifs at hsome with horigin
      have hlayer := (Option.some.inj hsome).symm
      subst hlayer
      have hname : (DerivedLayer.fromConfig name (runtimeConfig l)).name = name := rfl
      have hderived : l.origin = .derived := by
        cases hkind : l.origin with
        | derived => rfl
        | authored => exact absurd (by rw [runtimeConfig, hkind]; rfl) horigin
      rw [hname]
      exact runtimeLayer_eq_some.mpr ⟨l, hl, hderived, rfl⟩
  · intro hsome
    obtain ⟨l, hl, hderived, hbuilt⟩ := runtimeLayer_eq_some.mp hsome
    have hplace := hlisted layer.name l hl
    refine ⟨layer.name, hplace.1, ?_⟩
    have horigin : (runtimeConfig l).origin ≠ "authored" := by
      change originText l.origin ≠ "authored"
      rw [hderived]
      decide
    rw [if_neg hplace.2, hread, hl]
    simp only [Option.map_some]
    rw [if_neg horigin]
    exact congrArg some hbuilt.symm

/-- The graph of layers is built, and finds every derived layer. -/
theorem exists_dag {raw : RawConfig} {cfg : ValidatedConfig} (hfits : Fits raw)
    (haccepted : Accepted raw cfg) :
    ∃ config dag, fromJson (configJson cfg) = some config ∧
      DerivationDAG.fromSession config = .ok dag ∧ dag.topoOrder = cfg.topoOrder ∧
      ∀ name, dag.layerMap.lookup name = runtimeLayer raw name := by
  obtain ⟨config, hconfig, horder, hlayers⟩ := fromJson_configJson cfg
  have hmem := mem_derivedLayers hfits haccepted horder hlayers
  have hlookup : ∀ name, ((derivedLayers config).foldl (fun m layer => m.insert layer.name layer)
      (∅ : FMap String DerivedLayer)).lookup name = runtimeLayer raw name := by
    intro name
    rw [lookup_foldl_layers _ fun layer hlayer => (hmem layer).mp hlayer, Finmap.lookup_empty]
    split_ifs with hin
    · rfl
    · cases hruntime : runtimeLayer raw name with
      | none => rfl
      | some layer =>
        have hname := name_of_runtimeLayer hruntime
        have hlayer : layer ∈ derivedLayers config := (hmem layer).mpr (by rw [hname, hruntime])
        exact absurd (hname ▸ List.mem_map_of_mem hlayer) hin
  have hdeclared := (ordered_topoOrder hfits haccepted.order).declared
  have hknown : (derivedLayers config).findSome? (fun layer => (layer.dependsOn.find? fun dep =>
      dep ≠ "code" ∧ ((derivedLayers config).foldl (fun m layer => m.insert layer.name layer)
        (∅ : FMap String DerivedLayer)).lookup dep = none).map (Prod.mk layer.name)) = none := by
    rw [List.findSome?_eq_none_iff]
    intro layer hlayer
    rw [Option.map_eq_none_iff, List.find?_eq_none]
    intro dep hdep
    rw [hlookup, decide_eq_true_eq]
    intro ⟨hcode, hmissing⟩
    obtain ⟨l, hl, hderived, hbuilt⟩ := runtimeLayer_eq_some.mp ((hmem layer).mp hlayer)
    have hdepends : dep ∈ effectiveDependsOn l := by
      rw [hbuilt] at hdep
      have hin : dep ∈ l.dependsOn := hdep
      have hnonempty : l.dependsOn ≠ [] := List.ne_nil_of_mem hin
      unfold effectiveDependsOn
      rwa [if_neg fun h => hnonempty h.2]
    have hnode := hdeclared (layer.name, dep) (mem_dependencies.mpr ⟨l, hl, hdepends⟩)
    rcases Finset.mem_insert.mp hnode with hsame | hlayerKey
    · exact hcode hsame
    · obtain ⟨depLayer, hdepLayer⟩ := (mem_keys_iff _ _).mp hlayerKey
      have horigin := haccepted.derived _ _ hl dep hdepends depLayer hdepLayer
      rw [runtimeLayer, hdepLayer, Option.bind_some, if_pos horigin] at hmissing
      exact absurd hmissing (by simp)
  refine ⟨config, ⟨derivedLayers config, _, config.topoOrder⟩, hconfig, ?_, horder, hlookup⟩
  unfold DerivationDAG.fromSession DerivationDAG.init
  simp only [hknown]

/-! ## Agreement -/

/-- The word of a configuration for a kind of symbol. -/
def configWord : SymbolKindDto → Option String
  | .module_ => some "module"
  | .class_ => some "class"
  | .function => some "function"
  | .method => some "method"
  | .constructor => some "constructor"
  | .variable_ => some "variable"
  | .constant => some "constant"
  | .field => some "field"
  | .parameter => some "parameter"
  | .property => some "property"
  | .typeParameter => some "type_parameter"
  | .import_ => some "import"
  | .unknown => none

/-- The words for kinds are the known ones. -/
theorem isKnownKind_iff (word : String) :
    isKnownKind word = true ↔ ∃ kind, configWord kind = some word := by
  constructor
  · intro hknown
    have hmem : word ∈ knownKinds := List.contains_iff_mem.mp hknown
    have hall : ∀ known ∈ knownKinds, ∃ kind ∈ [SymbolKindDto.module_, .class_, .function, .method,
        .constructor, .variable_, .constant, .field, .parameter, .property, .typeParameter,
        .import_], configWord kind = some known := by decide
    obtain ⟨kind, _, hkind⟩ := hall word hmem
    exact ⟨kind, hkind⟩
  · intro ⟨kind, hkind⟩
    have hall : (configWord kind).all isKnownKind = true := by cases kind <;> decide
    rwa [hkind] at hall

/-- A node that was hashed under every declared profile and no other. -/
def Hashed (raw : RawConfig) (node : SymbolNode) : Prop :=
  ∀ profile, (node.contentHashes.lookup profile).isSome ↔
    (raw.hashing.profiles.lookup profile).isSome

/-- The runtime layer does what the validated layer says. -/
structure Agrees (cfg : ValidatedConfig) (name : String) (layer : LayerCfg) (dag : DerivationDAG)
    (derived : DerivedLayer) : Prop where
  /-- The dependencies are the effective ones. -/
  dependencies : derived.dependsOn = effectiveDependsOn layer
  /-- The hash profile is the selected one. -/
  profile : cfg.raw.hashing.profiles.lookup derived.hashProfile = profileFor cfg name
  /-- It applies to the kinds the layer names. -/
  kinds : ∀ kind, derived.appliesTo (symbolKindStr kind) = true ↔
    layer.entityKinds = [] ∨ ∃ word ∈ layer.entityKinds, configWord kind = some word
  /-- An input is resolved for every hashed entity when no artifact is missing. -/
  resolves : ∀ hashBytes iter decode caches snap id node, snap.graph.symbol id = some node →
    Hashed cfg.raw node → (∀ name key, (caches name key).isSome) →
      ∃ input, resolveInput hashBytes iter decode dag caches snap derived id = .ok input

/-- The first dependencies of a layer end in a layer of code alone, whose
profile is declared under the name the runtime uses. -/
inductive Grounded (raw : RawConfig) : LayerCfg → Prop where
  | code {layer : LayerCfg} (honly : layer.dependsOn = ["code"])
      (hprofile : (raw.hashing.profiles.lookup (orElse layer.hashProfile "structure")).isSome) :
      Grounded raw layer
  | upstream {layer up : LayerCfg} {dep : String} {others : List String}
      (hdeps : layer.dependsOn = dep :: others) (hup : raw.layers.lookup dep = some up)
      (hrest : Grounded raw up) : Grounded raw layer

/-- What a layer has to be written like. -/
structure Conforms (raw : RawConfig) (layer : LayerCfg) : Prop where
  /-- A profile is named, or the default is the profile called structure. -/
  profile : layer.hashProfile.getD "" ≠ "" ∨ raw.hashing.profiles.lookup "structure" =
    raw.hashing.profiles.lookup (layer.hashProfile.getD raw.spine.defaultHashProfile)
  /-- Classes are not named. -/
  classes : "class" ∉ layer.entityKinds
  /-- Imports are not named. -/
  imports : "import" ∉ layer.entityKinds
  /-- The layer reaches code. -/
  grounded : Grounded raw layer

/-- The runtime selects the profile validation selects. -/
theorem profile_agrees_iff {raw : RawConfig} {cfg : ValidatedConfig} (haccepted : Accepted raw cfg)
    {name : String} {layer : LayerCfg} (hlayer : raw.layers.lookup name = some layer) :
    cfg.raw.hashing.profiles.lookup
        (DerivedLayer.fromConfig name (runtimeConfig layer)).hashProfile = profileFor cfg name ↔
      layer.hashProfile.getD "" ≠ "" ∨ raw.hashing.profiles.lookup "structure" =
        raw.hashing.profiles.lookup (layer.hashProfile.getD raw.spine.defaultHashProfile) := by
  have hcode : name ≠ "code" := by
    intro hname
    rw [hname, haccepted.reserved] at hlayer
    exact absurd hlayer (by simp)
  have hprofile : (DerivedLayer.fromConfig name (runtimeConfig layer)).hashProfile =
      orElse layer.hashProfile "structure" := rfl
  rw [profileFor, if_neg hcode, haccepted.kept, hlayer, Option.bind_some, hprofile, orElse]
  by_cases hempty : layer.hashProfile.getD "" = ""
  · rw [if_pos hempty]
    exact ⟨Or.inr, fun h => h.resolve_left (fun hne => hne hempty)⟩
  · rw [if_neg hempty]
    refine ⟨fun _ => Or.inl hempty, fun _ => ?_⟩
    cases hnamed : layer.hashProfile with
    | none => exact absurd (by rw [hnamed]; rfl) hempty
    | some profile => rfl

/-- The runtime applies to the kinds the layer names, two of them apart. -/
theorem kinds_agree_iff {raw : RawConfig} {cfg : ValidatedConfig} (haccepted : Accepted raw cfg)
    {name : String} {layer : LayerCfg} (hlayer : raw.layers.lookup name = some layer) :
    (∀ kind, (DerivedLayer.fromConfig name (runtimeConfig layer)).appliesTo
        (symbolKindStr kind) = true ↔
      layer.entityKinds = [] ∨ ∃ word ∈ layer.entityKinds, configWord kind = some word) ↔
    "class" ∉ layer.entityKinds ∧ "import" ∉ layer.entityKinds := by
  have happlies : ∀ kind, (DerivedLayer.fromConfig name (runtimeConfig layer)).appliesTo kind =
      true ↔ layer.entityKinds = [] ∨ kind ∈ layer.entityKinds := by
    intro kind
    unfold DerivedLayer.appliesTo DerivedLayer.fromConfig runtimeConfig
    by_cases hempty : layer.entityKinds = []
    · simp [hempty]
    · simp [hempty]
  have hknown := haccepted.kinds name layer hlayer
  have hunknown : ∀ word, isKnownKind word = false → word ∉ layer.entityKinds := by
    intro word hword hmem
    rw [hknown word hmem] at hword
    exact absurd hword (by simp)
  have hclass : "class_" ∉ layer.entityKinds := hunknown _ (by decide)
  have himport : "import_" ∉ layer.entityKinds := hunknown _ (by decide)
  have hother : "unknown" ∉ layer.entityKinds := hunknown _ (by decide)
  constructor
  · intro hagree
    constructor
    · intro hmem
      have happly := (hagree .class_).mpr (Or.inr ⟨"class", hmem, rfl⟩)
      rcases (happlies _).mp happly with hempty | hin
      · exact absurd (hempty ▸ hmem) List.not_mem_nil
      · exact hclass hin
    · intro hmem
      have happly := (hagree .import_).mpr (Or.inr ⟨"import", hmem, rfl⟩)
      rcases (happlies _).mp happly with hempty | hin
      · exact absurd (hempty ▸ hmem) List.not_mem_nil
      · exact himport hin
  · intro habsent kind
    obtain ⟨hnoClass, hnoImport⟩ := habsent
    rw [happlies]
    have hword : symbolKindStr kind ∈ layer.entityKinds ↔
        ∃ word ∈ layer.entityKinds, configWord kind = some word := by
      cases kind <;> simp [symbolKindStr, configWord, hclass, himport, hother, hnoClass, hnoImport]
    rw [hword]

/-- A layer of the graph is a layer of the configuration. -/
theorem config_of_layer {raw : RawConfig} {dag : DerivationDAG}
    (hdag : ∀ name, dag.layerMap.lookup name = runtimeLayer raw name) {name : String}
    {layer : DerivedLayer} (hlayer : dag.layer name = .ok layer) :
    ∃ cfg, raw.layers.lookup name = some cfg ∧
      layer = DerivedLayer.fromConfig name (runtimeConfig cfg) := by
  unfold DerivationDAG.layer at hlayer
  rw [hdag] at hlayer
  cases hruntime : runtimeLayer raw name with
  | none =>
    rw [hruntime] at hlayer
    exact absurd hlayer (by simp)
  | some found =>
    rw [hruntime] at hlayer
    obtain ⟨cfg, hcfg, _, hbuilt⟩ := runtimeLayer_eq_some.mp hruntime
    exact ⟨cfg, hcfg, (Except.ok.inj hlayer).symm.trans hbuilt⟩

/-- A derived layer of the configuration is a layer of the graph. -/
theorem layer_of_config {raw : RawConfig} {dag : DerivationDAG}
    (hdag : ∀ name, dag.layerMap.lookup name = runtimeLayer raw name) {name : String}
    {cfg : LayerCfg} (hcfg : raw.layers.lookup name = some cfg) (hderived : cfg.origin = .derived) :
    dag.layer name = .ok (DerivedLayer.fromConfig name (runtimeConfig cfg)) := by
  unfold DerivationDAG.layer
  rw [hdag, runtimeLayer_eq_some.mpr ⟨cfg, hcfg, hderived, rfl⟩]

/-- A layer whose first dependency is a layer does not derive from code, and
that layer is derived. -/
theorem first_dependency {raw : RawConfig} {cfg : ValidatedConfig} (haccepted : Accepted raw cfg)
    {name dep : String} {others : List String} {layer up : LayerCfg}
    (hlayer : raw.layers.lookup name = some layer) (hdeps : layer.dependsOn = dep :: others)
    (hup : raw.layers.lookup dep = some up) :
    (DerivedLayer.fromConfig name (runtimeConfig layer)).isCodeDerived = false ∧
      dep ∈ effectiveDependsOn layer ∧ up.origin = .derived := by
  have hcode : (DerivedLayer.fromConfig name (runtimeConfig layer)).isCodeDerived = false := by
    apply decide_eq_false
    intro honly
    have hlist : layer.dependsOn = ["code"] := honly
    rw [hdeps, List.cons.injEq] at hlist
    rw [hlist.1, haccepted.reserved] at hup
    exact absurd hup (by simp)
  have heffective : dep ∈ effectiveDependsOn layer := by
    have hsome : ¬(layer.origin = .derived ∧ layer.dependsOn = []) := by
      intro h
      rw [hdeps] at h
      exact absurd h.2 (by simp)
    rw [effectiveDependsOn, if_neg hsome, hdeps]
    exact List.mem_cons_self
  exact ⟨hcode, heffective, haccepted.derived name layer hlayer dep heffective up hup⟩

section Resolving

variable {hashBytes : Bytes → String} {iter : HashOrder String} {decode : Bytes → String}
  {raw : RawConfig} {dag : DerivationDAG} {caches : Artifacts} {snap : Snapshot} {id : String}
  {node : SymbolNode}

/-- A grounded layer has a key for every hashed entity. The place of a layer
in the order bounds the way to code. -/
theorem resolveUpstreamHash_of_grounded {cfg : ValidatedConfig} (hfits : Fits raw)
    (haccepted : Accepted raw cfg)
    (hdag : ∀ name, dag.layerMap.lookup name = runtimeLayer raw name)
    (hnode : snap.graph.symbol id = some node) (hhashed : Hashed raw node)
    (hcached : ∀ name key, (caches name key).isSome) {layer : LayerCfg}
    (hgrounded : Grounded raw layer) {name : String} {fuel : ℕ}
    (hlayer : raw.layers.lookup name = some layer) (hfuel : cfg.topoOrder.idxOf name < fuel) :
    ∃ hash, resolveUpstreamHash hashBytes dag caches snap id fuel
      (DerivedLayer.fromConfig name (runtimeConfig layer)) = .ok (some hash) := by
  induction hgrounded generalizing name fuel with
  | @code layer honly hprofile =>
    cases fuel with
    | zero => omega
    | succ fuel =>
      have hcode : (DerivedLayer.fromConfig name (runtimeConfig layer)).isCodeDerived = true :=
        decide_eq_true honly
      obtain ⟨hash, hhash⟩ := Option.isSome_iff_exists.mp ((hhashed _).mpr hprofile)
      exact ⟨hash, resolveUpstreamHash_ok_iff.mpr (.inl ⟨hcode, node, hnode, hhash⟩)⟩
  | @upstream layer up dep others hdeps hup hrest ih =>
    cases fuel with
    | zero => omega
    | succ fuel =>
      obtain ⟨hcode, heffective, hderived⟩ := first_dependency haccepted hlayer hdeps hup
      have hordered := ordered_topoOrder hfits haccepted.order
      have hfound := layer_of_config hdag hup hderived
      have hnamed : name ∈ cfg.topoOrder := by
        rw [hordered.complete]
        exact Finset.mem_insert_of_mem ((mem_keys_iff _ _).mpr ⟨layer, hlayer⟩)
      have hbefore := hordered.topological.idxOf_lt hnamed
        (mem_dependencies.mpr ⟨layer, hlayer, heffective⟩)
      obtain ⟨hash, hhash⟩ := ih hup (show cfg.topoOrder.idxOf dep < fuel by omega)
      obtain ⟨artifact, hartifact⟩ := Option.isSome_iff_exists.mp (hcached dep
        ((DerivedLayer.fromConfig dep (runtimeConfig up)).storeKey hash))
      have hfirst : (DerivedLayer.fromConfig name (runtimeConfig layer)).dependsOn =
        dep :: others := hdeps
      have hcache : caches (DerivedLayer.fromConfig dep (runtimeConfig up)).name
        ((DerivedLayer.fromConfig dep (runtimeConfig up)).storeKey hash) = some artifact := hartifact
      exact ⟨hashBytes artifact, resolveUpstreamHash_ok_iff.mpr
        (.inr ⟨hcode, dep, others, _, hash, artifact, hfirst, hfound, hhash, hcache, rfl⟩)⟩

/-- A layer with a key for a hashed entity is grounded. -/
theorem grounded_of_resolveUpstreamHash
    (hdag : ∀ name, dag.layerMap.lookup name = runtimeLayer raw name)
    (hnode : snap.graph.symbol id = some node) (hhashed : Hashed raw node) {layer : LayerCfg}
    {name hash : String} {fuel : ℕ}
    (hresolved : resolveUpstreamHash hashBytes dag caches snap id fuel
      (DerivedLayer.fromConfig name (runtimeConfig layer)) = .ok (some hash)) :
    Grounded raw layer := by
  induction fuel generalizing name layer hash with
  | zero => exact absurd hresolved (by simp [resolveUpstreamHash])
  | succ fuel ih =>
    rcases resolveUpstreamHash_ok_iff.mp hresolved with
      ⟨hcode, found, hfound, hhash⟩ | ⟨-, dep, others, upUp, upHash, _, hdeps, hfound, hup, -, -⟩
    · obtain rfl := Option.some.inj (hnode.symm.trans hfound)
      exact .code (of_decide_eq_true hcode)
        ((hhashed _).mp (Option.isSome_iff_exists.mpr ⟨hash, hhash⟩))
    · obtain ⟨up, hlookup, rfl⟩ := config_of_layer hdag hfound
      exact .upstream hdeps hlookup (ih hup)

/-- An input of a layer for a hashed entity is resolved, when no artifact is
missing, exactly when the layer is grounded. -/
theorem resolves_iff_grounded {cfg : ValidatedConfig} (hfits : Fits raw)
    (haccepted : Accepted raw cfg) (horder : dag.topoOrder = cfg.topoOrder)
    (hdag : ∀ name, dag.layerMap.lookup name = runtimeLayer raw name)
    (hnode : snap.graph.symbol id = some node) (hhashed : Hashed raw node)
    (hcached : ∀ name key, (caches name key).isSome) {name : String} {layer : LayerCfg}
    (hlayer : raw.layers.lookup name = some layer) :
    (∃ input, resolveInput hashBytes iter decode dag caches snap
      (DerivedLayer.fromConfig name (runtimeConfig layer)) id = .ok input) ↔ Grounded raw layer := by
  have hbound : ∀ dep, cfg.topoOrder.idxOf dep < dag.topoOrder.length + 1 := fun dep => by
    have hplace := List.idxOf_le_length (a := dep) (l := cfg.topoOrder)
    rw [horder]
    omega
  constructor
  · intro ⟨⟨input, key⟩, hinput⟩
    rcases resolveInput_ok_iff.mp hinput with
      ⟨hcode, found, hash, hfound, hhash, -⟩ |
      ⟨-, dep, others, upstream, upHash, _, hdeps, hfound, hup, -⟩
    · obtain rfl := Option.some.inj (hnode.symm.trans hfound)
      exact .code (of_decide_eq_true hcode)
        ((hhashed _).mp (Option.isSome_iff_exists.mpr ⟨hash, hhash⟩))
    · obtain ⟨up, hlookup, rfl⟩ := config_of_layer hdag hfound
      exact .upstream hdeps hlookup (grounded_of_resolveUpstreamHash hdag hnode hhashed hup)
  · intro hgrounded
    cases hgrounded with
    | code honly hdeclared =>
      have hcode : (DerivedLayer.fromConfig name (runtimeConfig layer)).isCodeDerived = true :=
        decide_eq_true honly
      obtain ⟨hash, hhash⟩ := Option.isSome_iff_exists.mp ((hhashed _).mpr hdeclared)
      exact ⟨⟨_, _⟩, resolveInput_ok_iff.mpr (.inl ⟨hcode, node, hash, hnode, hhash, rfl, rfl⟩)⟩
    | @upstream _ up dep others hdeps hup hrest =>
      obtain ⟨hcode, _, hderived⟩ := first_dependency haccepted hlayer hdeps hup
      have hfound := layer_of_config hdag hup hderived
      have hresolved : ∃ hash, resolveUpstreamHash hashBytes dag caches snap id
          (dag.topoOrder.length + 1) (DerivedLayer.fromConfig dep (runtimeConfig up)) =
          .ok (some hash) :=
        resolveUpstreamHash_of_grounded hfits haccepted hdag hnode hhashed hcached hrest hup
          (hbound dep)
      obtain ⟨hash, hhash⟩ := hresolved
      obtain ⟨artifact, hartifact⟩ := Option.isSome_iff_exists.mp (hcached
        (DerivedLayer.fromConfig dep (runtimeConfig up)).name
        ((DerivedLayer.fromConfig dep (runtimeConfig up)).storeKey hash))
      have hfirst : (DerivedLayer.fromConfig name (runtimeConfig layer)).dependsOn =
        dep :: others := hdeps
      exact ⟨⟨_, _⟩, resolveInput_ok_iff.mpr
        (.inr ⟨hcode, dep, others, _, hash, artifact, hfirst, hfound, hhash, hartifact, rfl, rfl⟩)⟩

end Resolving

/-- Some snapshot has a hashed entity. -/
theorem exists_hashed (raw : RawConfig) :
    ∃ (snap : Snapshot) (id : String) (node : SymbolNode),
      snap.graph.symbol id = some node ∧ Hashed raw node := by
  let names := HashOrder.increasing.order raw.hashing.profiles.keys
  let hashes : FMap String String := names.foldl (fun m name => m.insert name "0") ∅
  have hlookup : ∀ profile, hashes.lookup profile = if profile ∈ names then some "0" else none :=
    fun profile => (lookup_foldl_insert _ _ _ _).trans (by rw [Finmap.lookup_empty])
  have hdecimal : ∀ profile hash, hashes.lookup profile = some hash →
      hash ≠ "" ∧ ∀ c ∈ hash.toList, c.isDigit = true := by
    intro profile hash hhash
    rw [hlookup] at hhash
    split_ifs at hhash
    rw [← Option.some.inj hhash]
    exact ⟨by decide, List.all_eq_true.mp (by decide)⟩
  let node : SymbolNode := ⟨.function, hashes, hdecimal⟩
  let graph : PinnedGraph := ⟨(∅ : FMap String SymbolNode).insert "" node, ∅, by simp⟩
  refine ⟨⟨graph, fun _ => ""⟩, "", node, Finmap.lookup_insert _, fun profile => ?_⟩
  have hnames : profile ∈ names ↔ ∃ value, raw.hashing.profiles.lookup profile = some value :=
    (HashOrder.mem_order _ _ _).trans (mem_keys_iff _ _)
  have hnode : node.contentHashes.lookup profile = if profile ∈ names then some "0" else none :=
    hlookup profile
  rw [hnode, Option.isSome_iff_exists, Option.isSome_iff_exists, ← hnames]
  by_cases hin : profile ∈ names <;> simp [hin]

/-- The runtime layer of a derived layer agrees with it exactly when the layer
conforms. -/
theorem agrees_iff_conforms {raw : RawConfig} {cfg : ValidatedConfig} {dag : DerivationDAG}
    (hfits : Fits raw) (haccepted : Accepted raw cfg) (horder : dag.topoOrder = cfg.topoOrder)
    (hdag : ∀ name, dag.layerMap.lookup name = runtimeLayer raw name) {name : String}
    {layer : LayerCfg} (hlayer : raw.layers.lookup name = some layer) :
    Agrees cfg name layer dag (DerivedLayer.fromConfig name (runtimeConfig layer)) ↔
      Conforms raw layer := by
  have hprofile := profile_agrees_iff haccepted hlayer
  have hkinds := kinds_agree_iff haccepted hlayer
  constructor
  · intro hagrees
    have hnamed := hkinds.mp hagrees.kinds
    refine ⟨hprofile.mp hagrees.profile, hnamed.1, hnamed.2, ?_⟩
    obtain ⟨snap, id, node, hnode, hhashed⟩ := exists_hashed raw
    have hcached : ∀ name key : String, ((fun _ _ => some []) : Artifacts) name key |>.isSome :=
      fun _ _ => rfl
    have hresolves := hagrees.resolves (fun _ => "") HashOrder.increasing (fun _ => "") _ snap id
      node hnode (haccepted.kept ▸ hhashed) hcached
    exact (resolves_iff_grounded hfits haccepted horder hdag hnode hhashed hcached hlayer).mp
      hresolves
  · intro hconforms
    refine ⟨?_, hprofile.mpr hconforms.profile,
      hkinds.mpr ⟨hconforms.classes, hconforms.imports⟩, ?_⟩
    · have hdeclares : layer.dependsOn ≠ [] := by
        cases hconforms.grounded with
        | code honly _ => simp [honly]
        | upstream hdeps _ _ => simp [hdeps]
      rw [effectiveDependsOn, if_neg fun h => hdeclares h.2]
      rfl
    · intro hashBytes iter decode caches snap id node hnode hhashed hcached
      have hraw : Hashed raw node := haccepted.kept ▸ hhashed
      exact (resolves_iff_grounded hfits haccepted horder hdag hnode hraw hcached hlayer).mpr
        hconforms.grounded

/-- For every derived layer of a validated configuration, the layer runtime
built from the JSON projection has the effective dependencies, the selected
profile and the named kinds, and resolves its inputs, exactly when the layer
conforms. -/
theorem layer_runtime_agrees {raw : RawConfig} {cfg : ValidatedConfig} (hfits : Fits raw)
    (hvalid : validate raw = .ok cfg) {name : String} {layer : LayerCfg}
    (hlayer : raw.layers.lookup name = some layer) (hderived : layer.origin = .derived) :
    (∃ config dag derived, fromJson (configJson cfg) = some config ∧
      DerivationDAG.fromSession config = .ok dag ∧ dag.layer name = .ok derived ∧
      Agrees cfg name layer dag derived) ↔ Conforms raw layer := by
  have haccepted := accepted_of_validate hvalid
  obtain ⟨config, dag, hconfig, hsession, horder, hdag⟩ := exists_dag hfits haccepted
  have hfound := layer_of_config hdag hlayer hderived
  have hiff := agrees_iff_conforms hfits haccepted horder hdag hlayer
  constructor
  · intro ⟨config', dag', derived, hconfig', hsession', hfound', hagrees⟩
    have hsame : config = config' := Option.some.inj (hconfig.symm.trans hconfig')
    subst hsame
    have hsameDag : dag = dag' := Except.ok.inj (hsession.symm.trans hsession')
    subst hsameDag
    have hsameLayer := Except.ok.inj (hfound.symm.trans hfound')
    subst hsameLayer
    exact hiff.mp hagrees
  · intro hconforms
    exact ⟨config, dag, _, hconfig, hsession, hfound, hiff.mpr hconforms⟩

/-- A derived layer with what validation requires of one. -/
def summaryLayer : LayerCfg where
  origin := .derived
  generator := some "model"
  generatorVersion := some "1"
  store := some "files"

/-- A configuration with the given layers and default profile. -/
def withLayers (defaultProfile : String) (layers : FMap String LayerCfg) : RawConfig where
  schemaVersion := currentSchemaVersion
  spine := { defaultHashProfile := defaultProfile }
  hashing := ⟨(∅ : FMap String HashProfileCfg).insert defaultProfile {}⟩
  layers := layers
  generators := (∅ : FMap String GeneratorCfg).insert "model" {}
  stores := (∅ : FMap String StoreCfg).insert "files" { backend := "fs" }

/-- A layer of code and a layer of its values. -/
def chainConfig : RawConfig := withLayers "structure"
  (((∅ : FMap String LayerCfg).insert "summary"
    { summaryLayer with dependsOn := ["code"], entityKinds := ["function"] }).insert "digest"
    { summaryLayer with dependsOn := ["summary"], hashProfile := some "structure" })

/-- A layer that leaves its dependency and its profile to the defaults and
names classes. -/
def defaultsConfig : RawConfig := withLayers "lexical"
  ((∅ : FMap String LayerCfg).insert "summary" { summaryLayer with entityKinds := ["class"] })

/-- A configuration whose layers have one dependency at most has small
counters. -/
theorem fits_of_length_le {raw : RawConfig}
    (hlayers : ∀ name layer, raw.layers.lookup name = some layer → layer.dependsOn.length ≤ 1) :
    Fits raw := by
  intro name layer hlayer
  have hlength := hlayers name layer hlayer
  omega

/-- Both layers of the chain agree: shown for the one that reads the other. -/
theorem layer_runtime_agrees_chain :
    ∃ cfg, validate chainConfig = .ok cfg ∧ ∃ layer, chainConfig.layers.lookup "digest" = some layer ∧
      ∃ config dag derived, fromJson (configJson cfg) = some config ∧
        DerivationDAG.fromSession config = .ok dag ∧ dag.layer "digest" = .ok derived ∧
        Agrees cfg "digest" layer dag derived := by
  have hvalid : (validate chainConfig).toOption.isSome = true := by decide +kernel
  cases hcfg : validate chainConfig with
  | error e =>
    rw [hcfg] at hvalid
    exact absurd hvalid (by simp [Except.toOption])
  | ok cfg =>
    have hsmall : Fits chainConfig := by
      apply fits_of_length_le
      intro name layer hlayer
      rcases eq_or_lookup_of_lookup_insert hlayer with hdigest | hlayer
      · rw [hdigest]
        decide
      · rcases eq_or_lookup_of_lookup_insert hlayer with hsummary | hlayer
        · rw [hsummary]
          decide
        · exact absurd hlayer (by rw [Finmap.lookup_empty]; simp)
    have hlayer : chainConfig.layers.lookup "digest" =
        some { summaryLayer with dependsOn := ["summary"], hashProfile := some "structure" } := rfl
    have hconforms : Conforms chainConfig
        { summaryLayer with dependsOn := ["summary"], hashProfile := some "structure" } := by
      refine ⟨Or.inl (by decide), by decide, by decide, ?_⟩
      have hup : chainConfig.layers.lookup "summary" =
          some { summaryLayer with dependsOn := ["code"], entityKinds := ["function"] } := rfl
      exact .upstream rfl hup (.code rfl (by decide))
    exact ⟨cfg, rfl, _, hlayer,
      (layer_runtime_agrees hsmall hcfg hlayer rfl).mpr hconforms⟩

/-- A layer left to its defaults is validated, but the runtime gives it no
dependency, so its inputs are never resolved. -/
theorem layer_runtime_disagrees :
    ¬∀ raw cfg name layer, Fits raw → validate raw = .ok cfg →
      raw.layers.lookup name = some layer → layer.origin = .derived →
      ∃ config dag derived, fromJson (configJson cfg) = some config ∧
        DerivationDAG.fromSession config = .ok dag ∧ dag.layer name = .ok derived ∧
        Agrees cfg name layer dag derived := by
  intro hclaim
  have hvalid : (validate defaultsConfig).toOption.isSome = true := by decide +kernel
  cases hcfg : validate defaultsConfig with
  | error e =>
    rw [hcfg] at hvalid
    exact absurd hvalid (by simp [Except.toOption])
  | ok cfg =>
    have hsmall : Fits defaultsConfig := by
      apply fits_of_length_le
      intro name layer hlayer
      rcases eq_or_lookup_of_lookup_insert hlayer with hsummary | hlayer
      · rw [hsummary]
        decide
      · exact absurd hlayer (by rw [Finmap.lookup_empty]; simp)
    have hlayer : defaultsConfig.layers.lookup "summary" =
        some { summaryLayer with entityKinds := ["class"] } := rfl
    obtain ⟨config, dag, derived, hconfig, hsession, hfound, hagrees⟩ :=
      hclaim defaultsConfig cfg "summary" _ hsmall hcfg hlayer rfl
    have haccepted := accepted_of_validate hcfg
    obtain ⟨config', dag', hconfig', hsession', horder, hdag⟩ := exists_dag hsmall haccepted
    have hsame : config' = config := Option.some.inj (hconfig'.symm.trans hconfig)
    subst hsame
    have hsameDag : dag' = dag := Except.ok.inj (hsession'.symm.trans hsession)
    subst hsameDag
    obtain ⟨found, hlookup, hderived⟩ := config_of_layer hdag hfound
    have hlayerSame := Option.some.inj (hlayer.symm.trans hlookup)
    have hdeps := hagrees.dependencies
    rw [hderived, ← hlayerSame] at hdeps
    exact absurd hdeps (by decide)

end Tyo3.LayerRuntime
