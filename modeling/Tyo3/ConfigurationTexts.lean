import Tyo3.SecretLint

/-!
# The texts of a configuration

The JSON form that the lint walks holds every text of the file that looks like
a secret, and no other text that does: the readers of the typed tree drop no
text, and neither the defaults nor the names of variants look like secrets.
-/

namespace Tyo3.ConfigurationTexts

open FiniteMaps JsonValues Tyo3.Configuration ConfigurationLoading TomlValues LayerOrder SecretLint

/-! ## Texts of JSON forms -/

theorem mem_textsOf_obj {fields : List (String × Json)} {s : String} :
    s ∈ textsOf (.obj fields) ↔ ∃ field ∈ fields, s ∈ textsOf field.2 := by
  rw [textsOf]
  induction fields with
  | nil => simp [SecretLint.textsOfFields]
  | cons field fields ih =>
    rw [SecretLint.textsOfFields, List.mem_append, ih, List.exists_mem_cons_iff]

theorem mem_textsOf_strings {texts : List String} {s : String} :
    s ∈ textsOf (strings texts) ↔ ∃ text ∈ texts, s ∈ textsOf (.str text) := by
  rw [strings, textsOf]
  induction texts with
  | nil => simp [SecretLint.textsOfItems]
  | cons text texts ih =>
    rw [List.map_cons, SecretLint.textsOfItems, List.mem_append, ih, List.exists_mem_cons_iff]

theorem mem_textsOf_optStr {text : Option String} {s : String} :
    s ∈ textsOf (optStr text) ↔ ∃ x ∈ text, s ∈ textsOf (.str x) := by
  cases text <;> simp [optStr, textsOf]

theorem mem_textsOf_optNat {value : Option ℕ} {s : String} :
    s ∈ textsOf (optNat value) ↔ ∃ x ∈ value, s ∈ textsOf (.nat x) := by
  cases value <;> simp [optNat, textsOf]

theorem mem_textsOf_tables {V : Type} {json : V → Json} {m : FMap String V} {s : String} :
    s ∈ textsOf (tables json m) ↔
      ∃ key value, m.lookup key = some value ∧ s ∈ textsOf (json value) := by
  rw [tables, mem_textsOf_obj]
  constructor
  · intro h
    obtain ⟨field, hfield, hs⟩ := h
    obtain ⟨entry, hentry, rfl⟩ := List.mem_map.mp hfield
    exact ⟨entry.1, entry.2, (mem_entries _ _ _).mp hentry, hs⟩
  · intro h
    obtain ⟨key, value, hlookup, hs⟩ := h
    exact ⟨_, List.mem_map_of_mem ((mem_entries _ _ _).mpr hlookup), hs⟩

/-! ## Readers of plain values -/

/-- A text that the lint takes for a secret. -/
def Secret (s : String) : Prop := looksLikeSecret s = true

instance : DecidablePred Secret := fun s => inferInstanceAs (Decidable (looksLikeSecret s = true))

/-- A reader keeps secrets: they stand in the JSON form of what is read when
they stand in the value. -/
def KeepsSecrets {α : Type} (read : Toml → Option α) (json : α → Json) : Prop :=
  Keeps Secret read fun a s => s ∈ textsOf (json a)

theorem keepsSecrets_string : KeepsSecrets readString Json.str := by
  intro v text s hv hread hs
  have hkeeps := keeps_string v text s hv hread hs
  simpa [textsOf] using hkeeps

theorem keepsSecrets_bool : KeepsSecrets readBool Json.bool := by
  intro v value s hv hread hs
  have hkeeps := keeps_bool v value s hv hread hs
  simpa [textsOf] using hkeeps

theorem keepsSecrets_unsigned (bound : ℕ) : KeepsSecrets (readUnsigned bound) Json.nat := by
  intro v value s hv hread hs
  have hkeeps := keeps_unsigned bound v value s hv hread hs
  simpa [textsOf] using hkeeps

/-- Neither the names that are read nor those that are written look like
secrets. -/
theorem keepsSecrets_variant {α : Type} {variants : List (String × α)} {json : α → Json}
    (hnames : ∀ e ∈ variants, ¬ Secret e.1) (hjson : ∀ a, ∀ s ∈ textsOf (json a), ¬ Secret s) :
    KeepsSecrets (readVariant variants) json := by
  intro v a s hv hread hs
  have hkeeps := keeps_variant hnames v a s hv hread hs
  have hnone : s ∉ textsOf (json a) := fun hmem => hjson a s hmem hs
  exact iff_of_false hnone hkeeps.mpr

theorem keepsSecrets_strings : KeepsSecrets (readVec readString) strings := by
  intro v texts s hv hread hs
  dsimp only
  rw [mem_textsOf_strings]
  exact keeps_vec keepsSecrets_string v texts s hv hread hs

theorem keepsSecrets_tables {V : Type} {read : Toml → Option V} {json : V → Json}
    (h : KeepsSecrets read json) : KeepsSecrets (readMap read) (tables json) := by
  intro v m s hv hread hs
  dsimp only
  rw [mem_textsOf_tables]
  exact keeps_map h v m s hv hread hs

theorem keepsSecrets_origin : KeepsSecrets readOrigin originJson :=
  keepsSecrets_variant (by decide) fun origin => by cases origin <;> decide

theorem keepsSecrets_serving : KeepsSecrets readServing servingJson :=
  keepsSecrets_variant (by decide) fun serving => by cases serving <;> decide

theorem keepsSecrets_recompute : KeepsSecrets readRecompute recomputeJson :=
  keepsSecrets_variant (by decide) fun recompute => by cases recompute <;> decide

theorem keepsSecrets_keyLocality : KeepsSecrets readKeyLocality fun k => keyLocalityJson (some k) :=
  keepsSecrets_variant (by decide) fun locality => by cases locality <;> decide

theorem keepsSecrets_gc : KeepsSecrets readGc gcJson :=
  keepsSecrets_variant (by decide) fun gc => by cases gc <;> decide

theorem mem_textsOf_keyLocality {locality : Option KeyLocality} {s : String} :
    s ∈ textsOf (keyLocalityJson locality) ↔
      ∃ x ∈ locality, s ∈ textsOf (keyLocalityJson (some x)) := by
  cases locality <;> simp [keyLocalityJson, textsOf]

/-! ## Readers of records -/

section Fields

variable {α : Type} {read : Toml → Option α} {json : α → Json} {fields : List (String × Toml)}
  {name s : String}

theorem KeepsSecrets.required (h : KeepsSecrets read json) (hfields : ∀ f ∈ fields, f.2.Keyed)
    (hs : Secret s) {a : α} (hread : required read fields name = some a) :
    s ∈ textsOf (json a) ↔ s ∈ textsAt fields name :=
  Keeps.required h hfields hs hread

/-- The JSON form of an optional field is that of its value, or has no text. -/
theorem KeepsSecrets.optional (h : KeepsSecrets read json) (hfields : ∀ f ∈ fields, f.2.Keyed)
    (hs : Secret s) {a : Option α} (hread : optional read fields name = some a) {form : Json}
    (hform : s ∈ textsOf form ↔ ∃ x ∈ a, s ∈ textsOf (json x)) :
    s ∈ textsOf form ↔ s ∈ textsAt fields name :=
  hform.trans (Keeps.optional h hfields hs hread)

/-- The default does not look like a secret. -/
theorem KeepsSecrets.defaulted (h : KeepsSecrets read json) (hfields : ∀ f ∈ fields, f.2.Keyed)
    (hs : Secret s) {a default : α} (hread : defaulted read default fields name = some a)
    (hdefault : ∀ s ∈ textsOf (json default), ¬ Secret s) :
    s ∈ textsOf (json a) ↔ s ∈ textsAt fields name :=
  Keeps.defaulted h hfields hs (fun hmem => hdefault s hmem hs) hread

/-- A record keeps secrets when each of its fields does. -/
theorem mem_textsOf_record {decl : List (String × Bool)} {v : Toml} (hv : v.Keyed)
    (hread : readFields decl v = some fields) {form : List (String × Json)}
    (hdecl : (decl.map Prod.fst).Nodup) (hnames : (form.map Prod.fst).Perm (decl.map Prod.fst))
    (heach : (∀ f ∈ fields, f.2.Keyed) →
      form.Forall fun field => s ∈ textsOf field.2 ↔ s ∈ textsAt fields field.1) :
    s ∈ textsOf (.obj form) ↔ s ∈ v.texts := by
  obtain ⟨hkeyed, htexts⟩ := readFields_spec hdecl hv hread
  have hfield := List.forall_iff_forall_mem.mp (heach hkeyed)
  rw [mem_textsOf_obj, htexts s]
  constructor
  · intro h
    obtain ⟨field, hmem, hs⟩ := h
    exact ⟨field.1, hnames.mem_iff.mp (List.mem_map_of_mem hmem), (hfield field hmem).mp hs⟩
  · intro h
    obtain ⟨name, hname, hs⟩ := h
    obtain ⟨field, hmem, rfl⟩ := List.mem_map.mp (hnames.mem_iff.mpr hname)
    exact ⟨field, hmem, (hfield field hmem).mpr hs⟩

end Fields

theorem keepsSecrets_store : KeepsSecrets readStore storeJson := by
  intro v store s hv hread hs
  obtain ⟨fields, hfields, hread⟩ := Option.bind_eq_some_iff.mp hread
  obtain ⟨backend, hbackend, hread⟩ := Option.bind_eq_some_iff.mp hread
  obtain ⟨path, hpath, hread⟩ := Option.bind_eq_some_iff.mp hread
  obtain ⟨url, hurl, hread⟩ := Option.bind_eq_some_iff.mp hread
  obtain ⟨metric, hmetric, hread⟩ := Option.bind_eq_some_iff.mp hread
  obtain ⟨dim, hdim, hread⟩ := Option.bind_eq_some_iff.mp hread
  obtain ⟨gc, hgc, hread⟩ := Option.bind_eq_some_iff.mp hread
  cases hread
  refine mem_textsOf_record hv hfields (by decide) (by simp only [List.map]; decide) fun hkeyed => ?_
  exact ⟨keepsSecrets_string.required hkeyed hs hbackend,
    (keepsSecrets_unsigned _).optional hkeyed hs hdim mem_textsOf_optNat,
    keepsSecrets_gc.defaulted hkeyed hs hgc (by decide),
    keepsSecrets_string.optional hkeyed hs hmetric mem_textsOf_optStr,
    keepsSecrets_string.optional hkeyed hs hpath mem_textsOf_optStr,
    keepsSecrets_string.optional hkeyed hs hurl mem_textsOf_optStr⟩

theorem keepsSecrets_generator : KeepsSecrets readGenerator generatorJson := by
  intro v generator s hv hread hs
  obtain ⟨fields, hfields, hread⟩ := Option.bind_eq_some_iff.mp hread
  obtain ⟨generatorType, htype, hread⟩ := Option.bind_eq_some_iff.mp hread
  obtain ⟨callable, hcallable, hread⟩ := Option.bind_eq_some_iff.mp hread
  obtain ⟨command, hcommand, hread⟩ := Option.bind_eq_some_iff.mp hread
  obtain ⟨endpoint, hendpoint, hread⟩ := Option.bind_eq_some_iff.mp hread
  obtain ⟨model, hmodel, hread⟩ := Option.bind_eq_some_iff.mp hread
  obtain ⟨dim, hdim, hread⟩ := Option.bind_eq_some_iff.mp hread
  obtain ⟨batchSize, hbatch, hread⟩ := Option.bind_eq_some_iff.mp hread
  obtain ⟨concurrency, hconcurrency, hread⟩ := Option.bind_eq_some_iff.mp hread
  obtain ⟨timeoutMs, htimeout, hread⟩ := Option.bind_eq_some_iff.mp hread
  cases hread
  refine mem_textsOf_record hv hfields (by decide) (by simp only [List.map]; decide) fun hkeyed => ?_
  exact ⟨(keepsSecrets_unsigned _).optional hkeyed hs hbatch mem_textsOf_optNat,
    keepsSecrets_string.optional hkeyed hs hcallable mem_textsOf_optStr,
    keepsSecrets_strings.defaulted hkeyed hs hcommand (by decide),
    (keepsSecrets_unsigned _).optional hkeyed hs hconcurrency mem_textsOf_optNat,
    (keepsSecrets_unsigned _).optional hkeyed hs hdim mem_textsOf_optNat,
    keepsSecrets_string.optional hkeyed hs hendpoint mem_textsOf_optStr,
    keepsSecrets_string.optional hkeyed hs hmodel mem_textsOf_optStr,
    (keepsSecrets_unsigned _).optional hkeyed hs htimeout mem_textsOf_optNat,
    keepsSecrets_string.optional hkeyed hs htype mem_textsOf_optStr⟩

theorem keepsSecrets_layer : KeepsSecrets readLayer layerJson := by
  intro v layer s hv hread hs
  obtain ⟨fields, hfields, hread⟩ := Option.bind_eq_some_iff.mp hread
  obtain ⟨origin, horigin, hread⟩ := Option.bind_eq_some_iff.mp hread
  obtain ⟨dependsOn, hdepends, hread⟩ := Option.bind_eq_some_iff.mp hread
  obtain ⟨generator, hgenerator, hread⟩ := Option.bind_eq_some_iff.mp hread
  obtain ⟨generatorVersion, hversion, hread⟩ := Option.bind_eq_some_iff.mp hread
  obtain ⟨hashProfile, hprofile, hread⟩ := Option.bind_eq_some_iff.mp hread
  obtain ⟨store, hstore, hread⟩ := Option.bind_eq_some_iff.mp hread
  obtain ⟨serving, hserving, hread⟩ := Option.bind_eq_some_iff.mp hread
  obtain ⟨recompute, hrecompute, hread⟩ := Option.bind_eq_some_iff.mp hread
  obtain ⟨keyLocality, hlocality, hread⟩ := Option.bind_eq_some_iff.mp hread
  obtain ⟨entityKinds, hkinds, hread⟩ := Option.bind_eq_some_iff.mp hread
  obtain ⟨history, hhistory, hread⟩ := Option.bind_eq_some_iff.mp hread
  obtain ⟨reviewOnChange, hreview, hread⟩ := Option.bind_eq_some_iff.mp hread
  cases hread
  refine mem_textsOf_record hv hfields (by decide) (by simp only [List.map]; decide) fun hkeyed => ?_
  exact ⟨keepsSecrets_strings.defaulted hkeyed hs hdepends (by decide),
    keepsSecrets_strings.defaulted hkeyed hs hkinds (by decide),
    keepsSecrets_string.optional hkeyed hs hgenerator mem_textsOf_optStr,
    keepsSecrets_string.optional hkeyed hs hversion mem_textsOf_optStr,
    keepsSecrets_string.optional hkeyed hs hprofile mem_textsOf_optStr,
    keepsSecrets_bool.defaulted hkeyed hs hhistory (by decide),
    keepsSecrets_keyLocality.optional hkeyed hs hlocality mem_textsOf_keyLocality,
    keepsSecrets_origin.required hkeyed hs horigin,
    keepsSecrets_recompute.defaulted hkeyed hs hrecompute (by decide),
    keepsSecrets_bool.defaulted hkeyed hs hreview (by decide),
    keepsSecrets_serving.defaulted hkeyed hs hserving (by decide),
    keepsSecrets_string.optional hkeyed hs hstore mem_textsOf_optStr⟩

theorem keepsSecrets_hashProfile : KeepsSecrets readHashProfile hashProfileJson := by
  intro v profile s hv hread hs
  obtain ⟨fields, hfields, hread⟩ := Option.bind_eq_some_iff.mp hread
  obtain ⟨whitespace, hwhitespace, hread⟩ := Option.bind_eq_some_iff.mp hread
  obtain ⟨commas, hcommas, hread⟩ := Option.bind_eq_some_iff.mp hread
  obtain ⟨comments, hcomments, hread⟩ := Option.bind_eq_some_iff.mp hread
  obtain ⟨docstrings, hdocstrings, hread⟩ := Option.bind_eq_some_iff.mp hread
  cases hread
  refine mem_textsOf_record hv hfields (by decide) (by simp only [List.map]; decide) fun hkeyed => ?_
  exact ⟨keepsSecrets_bool.defaulted hkeyed hs hcomments (by decide),
    keepsSecrets_bool.defaulted hkeyed hs hdocstrings (by decide),
    keepsSecrets_bool.defaulted hkeyed hs hcommas (by decide),
    keepsSecrets_bool.defaulted hkeyed hs hwhitespace (by decide)⟩

theorem keepsSecrets_hashing : KeepsSecrets readHashing fun hashing =>
    .obj [("profiles", tables hashProfileJson hashing.profiles)] := by
  intro v hashing s hv hread hs
  obtain ⟨fields, hfields, hread⟩ := Option.bind_eq_some_iff.mp hread
  obtain ⟨profiles, hprofiles, hread⟩ := Option.bind_eq_some_iff.mp hread
  cases hread
  refine mem_textsOf_record hv hfields (by decide) (by simp only [List.map]; decide) fun hkeyed => ?_
  exact (keepsSecrets_tables keepsSecrets_hashProfile).defaulted hkeyed hs hprofiles (by decide)

theorem keepsSecrets_project : KeepsSecrets readProject fun project =>
    .obj [("name", optStr project.name)] := by
  intro v project s hv hread hs
  obtain ⟨fields, hfields, hread⟩ := Option.bind_eq_some_iff.mp hread
  obtain ⟨name, hname, hread⟩ := Option.bind_eq_some_iff.mp hread
  cases hread
  refine mem_textsOf_record hv hfields (by decide) (by simp only [List.map]; decide) fun hkeyed => ?_
  exact keepsSecrets_string.optional hkeyed hs hname mem_textsOf_optStr

theorem keepsSecrets_spine : KeepsSecrets readSpine fun spine =>
    .obj [("default_hash_profile", .str spine.defaultHashProfile),
      ("retain_cap", .nat spine.retainCap)] := by
  intro v spine s hv hread hs
  obtain ⟨fields, hfields, hread⟩ := Option.bind_eq_some_iff.mp hread
  obtain ⟨retainCap, hretain, hread⟩ := Option.bind_eq_some_iff.mp hread
  obtain ⟨profile, hprofile, hread⟩ := Option.bind_eq_some_iff.mp hread
  cases hread
  refine mem_textsOf_record hv hfields (by decide) (by simp only [List.map]; decide) fun hkeyed => ?_
  exact ⟨keepsSecrets_string.defaulted hkeyed hs hprofile (by decide),
    (keepsSecrets_unsigned _).defaulted hkeyed hs hretain (by decide)⟩

theorem keepsSecrets_bus : KeepsSecrets readBus fun bus =>
    .obj [("overflow", .str bus.overflow), ("queue_capacity", .nat bus.queueCapacity)] := by
  intro v bus s hv hread hs
  obtain ⟨fields, hfields, hread⟩ := Option.bind_eq_some_iff.mp hread
  obtain ⟨queueCapacity, hcapacity, hread⟩ := Option.bind_eq_some_iff.mp hread
  obtain ⟨overflow, hoverflow, hread⟩ := Option.bind_eq_some_iff.mp hread
  cases hread
  refine mem_textsOf_record hv hfields (by decide) (by simp only [List.map]; decide) fun hkeyed => ?_
  exact ⟨keepsSecrets_string.defaulted hkeyed hs hoverflow (by decide),
    (keepsSecrets_unsigned _).defaulted hkeyed hs hcapacity (by decide)⟩

theorem keepsSecrets_watcher : KeepsSecrets readWatcher fun watcher =>
    .obj [("debounce_ms", .nat watcher.debounceMs), ("enabled", .bool watcher.enabled)] := by
  intro v watcher s hv hread hs
  obtain ⟨fields, hfields, hread⟩ := Option.bind_eq_some_iff.mp hread
  obtain ⟨enabled, henabled, hread⟩ := Option.bind_eq_some_iff.mp hread
  obtain ⟨debounceMs, hdebounce, hread⟩ := Option.bind_eq_some_iff.mp hread
  cases hread
  refine mem_textsOf_record hv hfields (by decide) (by simp only [List.map]; decide) fun hkeyed => ?_
  exact ⟨(keepsSecrets_unsigned _).defaulted hkeyed hs hdebounce (by decide),
    keepsSecrets_bool.defaulted hkeyed hs henabled (by decide)⟩

theorem keepsSecrets_coordination : KeepsSecrets readCoordination fun coordination =>
    .obj [("bus", .obj [("overflow", .str coordination.bus.overflow),
        ("queue_capacity", .nat coordination.bus.queueCapacity)]),
      ("watcher", .obj [("debounce_ms", .nat coordination.watcher.debounceMs),
        ("enabled", .bool coordination.watcher.enabled)])] := by
  intro v coordination s hv hread hs
  obtain ⟨fields, hfields, hread⟩ := Option.bind_eq_some_iff.mp hread
  obtain ⟨bus, hbus, hread⟩ := Option.bind_eq_some_iff.mp hread
  obtain ⟨watcher, hwatcher, hread⟩ := Option.bind_eq_some_iff.mp hread
  cases hread
  refine mem_textsOf_record hv hfields (by decide) (by simp only [List.map]; decide) fun hkeyed => ?_
  exact ⟨keepsSecrets_bus.defaulted hkeyed hs hbus (by decide),
    keepsSecrets_watcher.defaulted hkeyed hs hwatcher (by decide)⟩

theorem keepsSecrets_codeGraph : KeepsSecrets readCodeGraph fun codeGraph =>
    .obj [("precision", .str codeGraph.precision), ("refinement", .str codeGraph.refinement)] := by
  intro v codeGraph s hv hread hs
  obtain ⟨fields, hfields, hread⟩ := Option.bind_eq_some_iff.mp hread
  obtain ⟨precision, hprecision, hread⟩ := Option.bind_eq_some_iff.mp hread
  obtain ⟨refinement, hrefinement, hread⟩ := Option.bind_eq_some_iff.mp hread
  cases hread
  refine mem_textsOf_record hv hfields (by decide) (by simp only [List.map]; decide) fun hkeyed => ?_
  exact ⟨keepsSecrets_string.defaulted hkeyed hs hprecision (by decide),
    keepsSecrets_string.defaulted hkeyed hs hrefinement (by decide)⟩

theorem keepsSecrets_sidecar : KeepsSecrets readSidecar fun sidecar =>
    .obj [("gitignore_cache", .bool sidecar.gitignoreCache)] := by
  intro v sidecar s hv hread hs
  obtain ⟨fields, hfields, hread⟩ := Option.bind_eq_some_iff.mp hread
  obtain ⟨gitignoreCache, hgitignore, hread⟩ := Option.bind_eq_some_iff.mp hread
  cases hread
  refine mem_textsOf_record hv hfields (by decide) (by simp only [List.map]; decide) fun hkeyed => ?_
  exact keepsSecrets_bool.defaulted hkeyed hs hgitignore (by decide)

/-- The JSON form of the whole configuration holds the secrets of the file. -/
theorem keepsSecrets_tryInto : KeepsSecrets tryInto rawJson := by
  intro v raw s hv hread hs
  obtain ⟨fields, hfields, hread⟩ := Option.bind_eq_some_iff.mp hread
  obtain ⟨schemaVersion, hschema, hread⟩ := Option.bind_eq_some_iff.mp hread
  obtain ⟨project, hproject, hread⟩ := Option.bind_eq_some_iff.mp hread
  obtain ⟨spine, hspine, hread⟩ := Option.bind_eq_some_iff.mp hread
  obtain ⟨hashing, hhashing, hread⟩ := Option.bind_eq_some_iff.mp hread
  obtain ⟨layers, hlayers, hread⟩ := Option.bind_eq_some_iff.mp hread
  obtain ⟨generators, hgenerators, hread⟩ := Option.bind_eq_some_iff.mp hread
  obtain ⟨stores, hstores, hread⟩ := Option.bind_eq_some_iff.mp hread
  obtain ⟨coordination, hcoordination, hread⟩ := Option.bind_eq_some_iff.mp hread
  obtain ⟨codeGraph, hcodeGraph, hread⟩ := Option.bind_eq_some_iff.mp hread
  obtain ⟨sidecar, hsidecar, hread⟩ := Option.bind_eq_some_iff.mp hread
  cases hread
  refine mem_textsOf_record hv hfields (by decide) (by simp only [List.map]; decide) fun hkeyed => ?_
  exact ⟨keepsSecrets_codeGraph.defaulted hkeyed hs hcodeGraph (by decide),
    keepsSecrets_coordination.defaulted hkeyed hs hcoordination (by decide),
    (keepsSecrets_tables keepsSecrets_generator).defaulted hkeyed hs hgenerators (by decide),
    keepsSecrets_hashing.defaulted hkeyed hs hhashing (by decide),
    (keepsSecrets_tables keepsSecrets_layer).defaulted hkeyed hs hlayers (by decide),
    keepsSecrets_project.defaulted hkeyed hs hproject (by decide),
    (keepsSecrets_unsigned _).required hkeyed hs hschema,
    keepsSecrets_sidecar.defaulted hkeyed hs hsidecar (by decide),
    keepsSecrets_spine.defaulted hkeyed hs hspine (by decide),
    (keepsSecrets_tables keepsSecrets_store).defaulted hkeyed hs hstores (by decide)⟩

/-- Hash profiles have no texts. -/
theorem textsOf_profiles (profiles : FMap String HashProfileCfg) :
    textsOf (tables hashProfileJson profiles) = [] := by
  rw [List.eq_nil_iff_forall_not_mem]
  intro s hs
  obtain ⟨key, profile, -, hmem⟩ := mem_textsOf_tables.mp hs
  simp [hashProfileJson, textsOf, SecretLint.textsOfFields] at hmem

/-- The built-in profile adds no text. -/
theorem textsOf_seedStructure (raw : RawConfig) :
    textsOf (rawJson (seedStructure raw)) = textsOf (rawJson raw) := by
  unfold seedStructure
  split
  · rfl
  · simp only [rawJson, textsOf, SecretLint.textsOfFields, textsOf_profiles]

end Tyo3.ConfigurationTexts
