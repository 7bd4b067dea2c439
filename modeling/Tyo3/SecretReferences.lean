import Tyo3.ConfigurationTexts

/-!
# Secrets that come in by reference

The lint sees texts after the replacement of references. A text without a
reference is what it was; a text with one looks like a secret or not as the
values of the names have it. So the rejection follows from the file alone only
when those texts do not decide it.
-/

namespace Tyo3.SecretReferences

open Tyo3.Configuration ConfigurationLoading TomlValues SecretLint ConfigurationTexts

/-! ## Texts without references -/

/-- The names of the references in a text, from inside the name of a reference
or from outside of one. -/
def referencesFrom : Option (List Char) → List Char → List String
  | none, '$' :: '\x7b' :: rest => referencesFrom (some []) rest
  | none, _ :: rest => referencesFrom none rest
  | none, [] => []
  | some name, '\x7d' :: rest => String.ofList name :: referencesFrom none rest
  | some name, c :: rest => referencesFrom (some (name ++ [c])) rest
  | some _, [] => []

/-- The names of the references in a text. -/
def references (s : String) : List String := referencesFrom none s.toList

/-- What has been read of an open reference. -/
def opened : Option (List Char) → List Char
  | none => []
  | some name => '$' :: '\x7b' :: name

/-- Without a reference nothing is replaced. -/
theorem expandChars_of_references (resolve : String → Option String) (state : Option (List Char))
    (chars : List Char) (h : referencesFrom state chars = []) :
    expandChars resolve state chars = .ok (opened state ++ chars) := by
  fun_induction referencesFrom state chars with
  | case1 rest ih =>
    rw [expandChars, ih h]
    rfl
  | case2 c rest hnot ih =>
    rw [expandChars.eq_2 _ _ _ hnot, ih h]
    rfl
  | case3 => rfl
  | case4 name rest ih => cases h
  | case5 name c rest hnot ih =>
    rw [expandChars.eq_5 _ _ _ _ hnot, ih h]
    simp [opened]
  | case6 name => simp [expandChars, opened]

theorem expandString_of_references (resolve : String → Option String) {s : String}
    (h : references s = []) : expandString resolve s = .ok s := by
  rw [expandString, expandChars_of_references resolve none s.toList h]
  simp [opened, Except.map]

/-! ## The value after the replacement -/

/-- Texts stand where their replacements stand. -/
def Replaced (resolve : String → Option String) : List String → List String → Prop :=
  List.Forall₂ fun s t => expandString resolve s = .ok t

theorem Replaced.append {resolve : String → Option String}
    {before before' after after' : List String} (hbefore : Replaced resolve before before')
    (hafter : Replaced resolve after after') :
    Replaced resolve (before ++ after) (before' ++ after') :=
  List.rel_append hbefore hafter

/-- Some replacement is of a kind when some text is replaced by one. -/
theorem Replaced.exists_iff {resolve : String → Option String} {texts texts' : List String}
    (h : Replaced resolve texts texts') (P : String → Prop) :
    (∃ t ∈ texts', P t) ↔ ∃ s ∈ texts, ∃ t, expandString resolve s = .ok t ∧ P t := by
  induction h with
  | nil => simp
  | @cons s t texts texts' hone _ ih =>
    rw [List.exists_mem_cons_iff, List.exists_mem_cons_iff, ih]
    have hhead : (∃ t', expandString resolve s = .ok t' ∧ P t') ↔ P t := by
      rw [hone]
      simp
    rw [hhead]

mutual

theorem expandValue_replaced {resolve : String → Option String} : ∀ {v w : Toml},
    expandValue resolve v = .ok w → Replaced resolve v.texts w.texts
  | .string s, w, h => by
    obtain ⟨t, hs, rfl⟩ := map_ok h
    exact .cons hs .nil
  | .array items, w, h => by
    obtain ⟨items', hitems, rfl⟩ := map_ok h
    rw [Toml.texts, Toml.texts]
    exact expandItems_replaced hitems
  | .table fields, w, h => by
    obtain ⟨fields', hfields, rfl⟩ := map_ok h
    rw [Toml.texts, Toml.texts]
    exact expandFields_replaced hfields
  | .integer value, w, h => by cases h; exact .nil
  | .float text, w, h => by cases h; exact .nil
  | .boolean value, w, h => by cases h; exact .nil
  | .datetime text, w, h => by cases h; exact .nil

theorem expandItems_replaced {resolve : String → Option String} : ∀ {items items' : List Toml},
    expandItems resolve items = .ok items' →
      Replaced resolve (Toml.textsOfItems items) (Toml.textsOfItems items')
  | [], items', h => by
    cases h
    exact .nil
  | item :: items, items', h => by
    obtain ⟨item', hitem, hrest⟩ := bind_ok h
    obtain ⟨rest, hitems, heq⟩ := bind_ok hrest
    cases heq
    rw [Toml.textsOfItems, Toml.textsOfItems]
    exact (expandValue_replaced hitem).append (expandItems_replaced hitems)

theorem expandFields_replaced {resolve : String → Option String} :
    ∀ {fields fields' : List (String × Toml)}, expandFields resolve fields = .ok fields' →
      Replaced resolve (Toml.textsOfFields fields) (Toml.textsOfFields fields')
  | [], fields', h => by
    cases h
    exact .nil
  | (key, item) :: fields, fields', h => by
    obtain ⟨item', hitem, hrest⟩ := bind_ok h
    obtain ⟨rest, hfields, heq⟩ := bind_ok hrest
    cases heq
    rw [Toml.textsOfFields, Toml.textsOfFields]
    exact (expandValue_replaced hitem).append (expandFields_replaced hfields)

end

/-- Fields keep their names. -/
theorem expandFields_names {resolve : String → Option String}
    {fields fields' : List (String × Toml)} (h : expandFields resolve fields = .ok fields') :
    fields'.map Prod.fst = fields.map Prod.fst := by
  induction fields generalizing fields' with
  | nil =>
    cases h
    rfl
  | cons field fields ih =>
    obtain ⟨item', _, hrest⟩ := bind_ok h
    obtain ⟨rest, hfields, heq⟩ := bind_ok hrest
    cases heq
    rw [List.map_cons, List.map_cons, ih hfields]

mutual

theorem expandValue_keyed {resolve : String → Option String} : ∀ {v w : Toml},
    expandValue resolve v = .ok w → v.Keyed → w.Keyed
  | .string s, w, h, _ => by
    obtain ⟨t, _, rfl⟩ := map_ok h
    exact trivial
  | .array items, w, h, hv => by
    obtain ⟨items', hitems, rfl⟩ := map_ok h
    rw [Toml.Keyed] at hv ⊢
    exact expandItems_keyed hitems hv
  | .table fields, w, h, hv => by
    obtain ⟨fields', hfields, rfl⟩ := map_ok h
    rw [Toml.Keyed] at hv ⊢
    rw [expandFields_names hfields]
    exact ⟨hv.1, expandFields_keyed hfields hv.2⟩
  | .integer value, w, h, _ => by cases h; exact trivial
  | .float text, w, h, _ => by cases h; exact trivial
  | .boolean value, w, h, _ => by cases h; exact trivial
  | .datetime text, w, h, _ => by cases h; exact trivial

theorem expandItems_keyed {resolve : String → Option String} : ∀ {items items' : List Toml},
    expandItems resolve items = .ok items' → Toml.KeyedItems items → Toml.KeyedItems items'
  | [], items', h, _ => by
    cases h
    exact trivial
  | item :: items, items', h, hkeyed => by
    obtain ⟨item', hitem, hrest⟩ := bind_ok h
    obtain ⟨rest, hitems, heq⟩ := bind_ok hrest
    cases heq
    rw [Toml.KeyedItems] at hkeyed ⊢
    exact ⟨expandValue_keyed hitem hkeyed.1, expandItems_keyed hitems hkeyed.2⟩

theorem expandFields_keyed {resolve : String → Option String} :
    ∀ {fields fields' : List (String × Toml)}, expandFields resolve fields = .ok fields' →
      Toml.KeyedFields fields → Toml.KeyedFields fields'
  | [], fields', h, _ => by
    cases h
    exact trivial
  | (key, item) :: fields, fields', h, hkeyed => by
    obtain ⟨item', hitem, hrest⟩ := bind_ok h
    obtain ⟨rest, hfields, heq⟩ := bind_ok hrest
    cases heq
    rw [Toml.KeyedFields] at hkeyed ⊢
    exact ⟨expandValue_keyed hitem hkeyed.1, expandFields_keyed hfields hkeyed.2⟩

end

/-! ## The files -/

/-- An inserted field keeps a table a map. -/
theorem insertField_keyed {fields : List (String × Toml)} (hkeyed : (Toml.table fields).Keyed)
    {field : String × Toml} (hfield : field.2.Keyed) :
    (Toml.table (insertField fields field)).Keyed := by
  rw [Toml.Keyed, Toml.keyedFields_iff] at hkeyed ⊢
  unfold insertField
  split_ifs with hknown
  · have hnames : (fields.map fun f => if f.1 = field.1 then field else f).map Prod.fst =
        fields.map Prod.fst := by
      rw [List.map_map]
      refine List.map_congr_left fun f _ => ?_
      rw [Function.comp_apply]
      split_ifs with heq
      · exact heq.symm
      · rfl
    rw [hnames]
    refine ⟨hkeyed.1, fun f hf => ?_⟩
    obtain ⟨old, hold, rfl⟩ := List.mem_map.mp hf
    split_ifs
    · exact hfield
    · exact hkeyed.2 old hold
  · refine ⟨?_, fun f hf => ?_⟩
    · rw [List.map_append, List.nodup_append]
      refine ⟨hkeyed.1, List.nodup_singleton _, fun name hname other hother heq => ?_⟩
      rw [List.map_singleton, List.mem_singleton] at hother
      exact hknown (hother ▸ heq ▸ hname)
    · rcases List.mem_append.mp hf with hold | hnew
      · exact hkeyed.2 f hold
      · rw [List.mem_singleton.mp hnew]
        exact hfield

theorem shallowMerge_keyed {base overlay : Toml} (hbase : base.Keyed) (hoverlay : overlay.Keyed) :
    (shallowMerge base overlay).Keyed := by
  unfold shallowMerge
  split
  · rename_i fields overlay
    rw [Toml.Keyed, Toml.keyedFields_iff] at hoverlay
    replace hoverlay := hoverlay.2
    induction overlay generalizing fields with
    | nil => exact hbase
    | cons field overlay ih =>
      have hone := insertField_keyed hbase (hoverlay field List.mem_cons_self)
      exact ih _ hone fun f hf => hoverlay f (List.mem_cons_of_mem _ hf)
  · exact hoverlay

theorem parseFile_keyed {lib : TomlLibrary} {file : Except String String} {v : Toml}
    (h : parseFile lib file = .ok v) : v.Keyed := by
  unfold parseFile at h
  split at h
  · cases h
  · rename_i text
    split at h
    · cases h
    · rename_i hvalue
      cases h
      exact lib.keyed text _ hvalue

theorem mergedValue_keyed {lib : TomlLibrary} {committed : Except String String}
    {configLocal : File} {v : Toml} (h : mergedValue lib committed configLocal = .ok v) : v.Keyed := by
  obtain ⟨value, hvalue, hrest⟩ := bind_ok h
  cases configLocal with
  | none =>
    cases hrest
    exact parseFile_keyed hvalue
  | some file =>
    obtain ⟨overlay, hoverlay, heq⟩ := bind_ok hrest
    cases heq
    exact shallowMerge_keyed (parseFile_keyed hvalue) (parseFile_keyed hoverlay)

/-! ## Loading does not speak of inline secrets -/

theorem silent_expandChars (resolve : String → Option String) (state : Option (List Char))
    (chars : List Char) : Silent (expandChars resolve state chars) := by
  fun_induction expandChars resolve state chars with
  | case1 rest ih => exact ih
  | case2 c rest _ ih => exact ih.map
  | case3 => exact silent_ok _
  | case4 name rest value _ ih => exact ih.map
  | case5 name rest _ => exact silent_error rfl
  | case6 name c rest _ ih => exact ih
  | case7 name => exact silent_ok _

mutual

theorem silent_expandValue (resolve : String → Option String) :
    ∀ v : Toml, Silent (expandValue resolve v)
  | .string s => (silent_expandChars resolve none s.toList).map.map
  | .array items => (silent_expandItems resolve items).map
  | .table fields => (silent_expandFields resolve fields).map
  | .integer _ => silent_ok _
  | .float _ => silent_ok _
  | .boolean _ => silent_ok _
  | .datetime _ => silent_ok _

theorem silent_expandItems (resolve : String → Option String) :
    ∀ items : List Toml, Silent (expandItems resolve items)
  | [] => silent_ok _
  | item :: items => (silent_expandValue resolve item).bind fun _ =>
    (silent_expandItems resolve items).bind fun _ => silent_ok _

theorem silent_expandFields (resolve : String → Option String) :
    ∀ fields : List (String × Toml), Silent (expandFields resolve fields)
  | [] => silent_ok _
  | (_, item) :: fields => (silent_expandValue resolve item).bind fun _ =>
    (silent_expandFields resolve fields).bind fun _ => silent_ok _

end

theorem silent_parseFile (lib : TomlLibrary) (file : Except String String) :
    Silent (parseFile lib file) := by
  unfold parseFile
  split
  · exact silent_error rfl
  · split
    · exact silent_error rfl
    · exact silent_ok _

theorem silent_mergedValue (lib : TomlLibrary) (committed : Except String String)
    (configLocal : File) : Silent (mergedValue lib committed configLocal) := by
  refine (silent_parseFile lib committed).bind fun value => ?_
  cases configLocal with
  | none => exact silent_ok _
  | some file => exact (silent_parseFile lib file).bind fun _ => silent_ok _

theorem silent_loadSecrets (lib : TomlLibrary) (file : File) : Silent (loadSecrets lib file) := by
  cases file with
  | none => exact silent_ok _
  | some file =>
    refine (silent_parseFile lib file).bind fun value => ?_
    split
    · exact silent_ok _
    · exact silent_ok _

theorem silent_load (lib : TomlLibrary) (files : ConfigFiles) (a : Assignment) :
    Silent (load lib files a) := by
  unfold load
  split
  · exact silent_ok _
  · refine (silent_mergedValue lib _ _).bind fun merged => ?_
    refine (silent_loadSecrets lib _).bind fun secrets => ?_
    refine (silent_expandValue _ _).bind fun value => ?_
    split
    · exact silent_ok _
    · exact silent_error rfl

/-! ## What the rejection depends on -/

/-- The texts of the files. -/
def fileTexts (lib : TomlLibrary) (files : ConfigFiles) : List String :=
  match files.config with
  | none => []
  | some committed =>
    match mergedValue lib committed files.configLocal with
    | .ok merged => merged.texts
    | .error _ => []

/-- The values of the names. -/
def assigned (lib : TomlLibrary) (a : Assignment) : Except ConfigError (String → Option String) :=
  (loadSecrets lib a.secrets).map (resolve a.env)

/-- A text looks like a secret after the replacement. -/
def Shows (lib : TomlLibrary) (a : Assignment) (s : String) : Prop :=
  ∃ values t, assigned lib a = .ok values ∧ expandString values s = .ok t ∧ Secret t

/-- The configuration is rejected for an inline secret. -/
def Inline (lib : TomlLibrary) (files : ConfigFiles) (a : Assignment) : Prop :=
  ∃ path, (load lib files a >>= fun raw => validate raw) = .error (.secretInline path)

/-- The configuration can be read and passes the checks before the lint. -/
def Passes (lib : TomlLibrary) (files : ConfigFiles) (a : Assignment) : Prop :=
  ∃ raw order, load lib files a = .ok raw ∧ checkSettings raw = .ok order

/-- No loaded configuration has secrets but those of the files. -/
theorem load_secrets_iff {lib : TomlLibrary} {files : ConfigFiles} {a : Assignment}
    {raw : RawConfig} (h : load lib files a = .ok raw) :
    (∃ s ∈ textsOf (rawJson raw), Secret s) ↔ ∃ s ∈ fileTexts lib files, Shows lib a s := by
  unfold load at h
  unfold fileTexts
  cases hconfig : files.config with
  | none =>
    rw [hconfig] at h
    cases h
    have hplain : ∀ s ∈ textsOf (rawJson .defaults), ¬ Secret s := by decide
    simpa using hplain
  | some committed =>
    rw [hconfig] at h
    obtain ⟨merged, hmerged, hread⟩ := bind_ok h
    dsimp only
    rw [hmerged]
    obtain ⟨secrets, hsecrets, hread⟩ := bind_ok hread
    obtain ⟨value, hvalue, hread⟩ := bind_ok hread
    have hassigned : assigned lib a = .ok (resolve a.env secrets) := by
      rw [assigned, hsecrets]
      rfl
    cases htree : tryInto value with
    | none =>
      rw [htree] at hread
      cases hread
    | some tree =>
      rw [htree] at hread
      cases hread
      have hkeyed : value.Keyed := expandValue_keyed hvalue (mergedValue_keyed hmerged)
      have hsame : (∃ s ∈ textsOf (rawJson tree), Secret s) ↔ ∃ s ∈ value.texts, Secret s := by
        refine exists_congr fun s => and_congr_left fun hs => ?_
        exact keepsSecrets_tryInto value tree s hkeyed htree hs
      rw [textsOf_seedStructure, hsame, (expandValue_replaced hvalue).exists_iff]
      refine exists_congr fun s => and_congr_right fun _ => ?_
      simp [Shows, hassigned]

/-- A configuration is rejected when the other checks pass and a text of the
files looks like a secret after the replacement. -/
theorem inline_iff (lib : TomlLibrary) (files : ConfigFiles) (a : Assignment) :
    Inline lib files a ↔ Passes lib files a ∧ ∃ s ∈ fileTexts lib files, Shows lib a s := by
  unfold Inline Passes
  cases hload : load lib files a with
  | error e =>
    have hsilent := silent_load lib files a
    rw [hload] at hsilent
    refine iff_of_false (fun h => ?_) fun h => ?_
    · obtain ⟨path, hpath⟩ := h
      exact hsilent path (congrArg Except.error (Except.error.inj hpath))
    · obtain ⟨⟨raw, order, hraw, -⟩, -⟩ := h
      cases hraw
  | ok raw =>
    change (∃ path, validate raw = .error (.secretInline path)) ↔ _
    rw [validate_secretInline_iff, ← load_secrets_iff hload]
    simp [Secret]

/-- Two assignments of values to the same names. -/
def SameNames (lib : TomlLibrary) (a₁ a₂ : Assignment) : Prop :=
  ∃ values₁ values₂, assigned lib a₁ = .ok values₁ ∧ assigned lib a₂ = .ok values₂ ∧
    ∀ name, (values₁ name).isSome = (values₂ name).isSome

/-- A text that is one reference and nothing else. -/
def IsReference (s : String) : Prop :=
  ∃ name : String, '\x7d' ∉ name.toList ∧ s = "$\x7b" ++ name ++ "\x7d"

/-- Every text that looks like a secret after the replacement came in by
reference. -/
def OnlyReferences (lib : TomlLibrary) (files : ConfigFiles) (a : Assignment) : Prop :=
  ∀ s ∈ fileTexts lib files, Shows lib a s → IsReference s

/-- A secret is written into the files: a text without a reference looks like
one. -/
def Written (lib : TomlLibrary) (files : ConfigFiles) : Prop :=
  ∃ s ∈ fileTexts lib files, references s = [] ∧ Secret s

/-- A text with a reference looks like a secret after the replacement. -/
def BroughtIn (lib : TomlLibrary) (files : ConfigFiles) (a : Assignment) : Prop :=
  ∃ s ∈ fileTexts lib files, references s ≠ [] ∧ Shows lib a s

/-- The rejection does not depend on the values of the names, and what came in
by reference is not rejected. -/
structure Neutral (lib : TomlLibrary) (files : ConfigFiles) (a₁ a₂ : Assignment) : Prop where
  /-- One is rejected when the other is. -/
  same : Inline lib files a₁ ↔ Inline lib files a₂
  /-- Secrets that only come in by reference are not rejected. -/
  references : ∀ a, a = a₁ ∨ a = a₂ → OnlyReferences lib files a → ¬ Inline lib files a

/-- When the values of the names do not decide the rejection. -/
structure Undecided (lib : TomlLibrary) (files : ConfigFiles) (a₁ a₂ : Assignment) : Prop where
  /-- Where both pass the other checks, a secret is written into the files, or
  the references bring one in under both or under neither. -/
  both : Passes lib files a₁ → Passes lib files a₂ →
    Written lib files ∨ (BroughtIn lib files a₁ ↔ BroughtIn lib files a₂)
  /-- Where one passes the other checks, nothing looks like a secret. -/
  one : ∀ a b, a = a₁ ∧ b = a₂ ∨ a = a₂ ∧ b = a₁ → Passes lib files a → ¬ Passes lib files b →
    ¬ Written lib files ∧ ¬ BroughtIn lib files a
  /-- Where a reference brings one in, something else than a reference looks
  like a secret too. -/
  more : ∀ a, a = a₁ ∨ a = a₂ → Passes lib files a → BroughtIn lib files a →
    ∃ s ∈ fileTexts lib files, Shows lib a s ∧ ¬ IsReference s

theorem shows_iff {lib : TomlLibrary} {a : Assignment} {values : String → Option String}
    (h : assigned lib a = .ok values) (s : String) :
    Shows lib a s ↔ ∃ t, expandString values s = .ok t ∧ Secret t := by
  simp [Shows, h]

/-- A text that looks like a secret has a reference or is written so. -/
theorem exists_shows_iff {lib : TomlLibrary} {files : ConfigFiles} {a : Assignment}
    {values : String → Option String} (h : assigned lib a = .ok values) :
    (∃ s ∈ fileTexts lib files, Shows lib a s) ↔
      Written lib files ∨ BroughtIn lib files a := by
  have hplain : ∀ s, references s = [] → (Shows lib a s ↔ Secret s) := by
    intro s hs
    rw [shows_iff h, expandString_of_references values hs]
    simp
  constructor
  · intro hshown
    obtain ⟨s, hmem, hs⟩ := hshown
    by_cases hrefs : references s = []
    · exact Or.inl ⟨s, hmem, hrefs, (hplain s hrefs).mp hs⟩
    · exact Or.inr ⟨s, hmem, hrefs, hs⟩
  · intro hshown
    rcases hshown with ⟨s, hmem, hrefs, hs⟩ | ⟨s, hmem, _, hs⟩
    · exact ⟨s, hmem, (hplain s hrefs).mpr hs⟩
    · exact ⟨s, hmem, hs⟩

theorem referencesFrom_name {name : List Char} (acc : List Char) (h : '\x7d' ∉ name) :
    referencesFrom (some acc) (name ++ ['\x7d']) = [String.ofList (acc ++ name)] := by
  induction name generalizing acc with
  | nil => simp [referencesFrom]
  | cons c name ih =>
    have hne : c ≠ '\x7d' := fun heq => h (heq ▸ List.mem_cons_self)
    have hrest : '\x7d' ∉ name := fun hmem => h (List.mem_cons_of_mem _ hmem)
    have hstep := ih (acc ++ [c]) hrest
    rw [List.cons_append, referencesFrom.eq_5 _ _ _ hne, hstep]
    simp

/-- A text that is one reference has it. -/
theorem not_isReference {s : String} (h : references s = []) : ¬ IsReference s := by
  intro hone
  obtain ⟨name, hname, rfl⟩ := hone
  have hnames := referencesFrom_name [] hname
  have hchars : ("$\x7b" ++ name ++ "\x7d").toList =
      '$' :: '\x7b' :: (name.toList ++ ['\x7d']) := by
    rw [String.toList_append, String.toList_append]
    rfl
  rw [references, hchars, referencesFrom, hnames] at h
  cases h

section Two

variable {lib : TomlLibrary} {files : ConfigFiles} {a₁ a₂ : Assignment}

/-- An assignment of two has values. -/
theorem SameNames.assigned (h : SameNames lib a₁ a₂) {a : Assignment} (ha : a = a₁ ∨ a = a₂) :
    ∃ values, assigned lib a = .ok values := by
  obtain ⟨values₁, values₂, h₁, h₂, -⟩ := h
  rcases ha with rfl | rfl
  · exact ⟨values₁, h₁⟩
  · exact ⟨values₂, h₂⟩

/-- A rejection is by what is written or by what a reference brings in. -/
theorem SameNames.inline_iff (h : SameNames lib a₁ a₂) (files : ConfigFiles) {a : Assignment}
    (ha : a = a₁ ∨ a = a₂) :
    Inline lib files a ↔
      Passes lib files a ∧ (Written lib files ∨ BroughtIn lib files a) := by
  obtain ⟨values, hvalues⟩ := h.assigned ha
  rw [SecretReferences.inline_iff, exists_shows_iff hvalues]

/-- Where one of two is rejected, so is the other. -/
theorem Neutral.inline_of_inline (h : Neutral lib files a₁ a₂) {a b : Assignment}
    (hab : a = a₁ ∧ b = a₂ ∨ a = a₂ ∧ b = a₁) (hinline : Inline lib files a) :
    Inline lib files b := by
  rcases hab with ⟨rfl, rfl⟩ | ⟨rfl, rfl⟩
  · exact h.same.mp hinline
  · exact h.same.mpr hinline

theorem Neutral.undecided (hsame : SameNames lib a₁ a₂) (h : Neutral lib files a₁ a₂) :
    Undecided lib files a₁ a₂ := by
  have h₁ := hsame.inline_iff files (Or.inl rfl)
  have h₂ := hsame.inline_iff files (Or.inr rfl)
  refine ⟨fun hfirst hsecond => ?_, fun a b hab hpasses hfails => ?_,
    fun a ha hpasses hbrought => ?_⟩
  · by_cases hwritten : Written lib files
    · exact Or.inl hwritten
    · refine Or.inr ⟨fun hbrought => ?_, fun hbrought => ?_⟩
      · have hinline := h.same.mp (h₁.mpr ⟨hfirst, Or.inr hbrought⟩)
        exact (h₂.mp hinline).2.resolve_left hwritten
      · have hinline := h.same.mpr (h₂.mpr ⟨hsecond, Or.inr hbrought⟩)
        exact (h₁.mp hinline).2.resolve_left hwritten
  · have ha : a = a₁ ∨ a = a₂ := hab.imp And.left And.left
    have hb : b = a₁ ∨ b = a₂ := (hab.imp And.right And.right).symm
    have hnot : ¬ (Written lib files ∨ BroughtIn lib files a) := by
      intro hsecret
      have hinline := h.inline_of_inline hab ((hsame.inline_iff files ha).mpr ⟨hpasses, hsecret⟩)
      exact hfails ((hsame.inline_iff files hb).mp hinline).1
    exact not_or.mp hnot
  · by_contra hnone
    have hinline := (hsame.inline_iff files ha).mpr ⟨hpasses, Or.inr hbrought⟩
    refine h.references a ha (fun s hmem hs => ?_) hinline
    by_contra hnot
    exact hnone ⟨s, hmem, hs, hnot⟩

/-- One rejection gives the other. -/
theorem Undecided.inline_of_inline (hsame : SameNames lib a₁ a₂) (h : Undecided lib files a₁ a₂)
    {a b : Assignment} (hab : a = a₁ ∧ b = a₂ ∨ a = a₂ ∧ b = a₁) (hinline : Inline lib files a) :
    Inline lib files b := by
  have ha : a = a₁ ∨ a = a₂ := hab.imp And.left And.left
  have hb : b = a₁ ∨ b = a₂ := (hab.imp And.right And.right).symm
  obtain ⟨hpasses, hsecret⟩ := (hsame.inline_iff files ha).mp hinline
  have hother : Passes lib files b := by
    by_contra hfails
    have hnone := h.one a b hab hpasses hfails
    exact hsecret.elim hnone.1 hnone.2
  refine (hsame.inline_iff files hb).mpr ⟨hother, ?_⟩
  rcases hsecret with hwritten | hbrought
  · exact Or.inl hwritten
  · rcases hab with ⟨rfl, rfl⟩ | ⟨rfl, rfl⟩
    · exact (h.both hpasses hother).imp_right fun heq => heq.mp hbrought
    · exact (h.both hother hpasses).imp_right fun heq => heq.mpr hbrought

/-- What came in by reference is not rejected. -/
theorem Undecided.references (hsame : SameNames lib a₁ a₂) (h : Undecided lib files a₁ a₂)
    {a : Assignment} (ha : a = a₁ ∨ a = a₂) (honly : OnlyReferences lib files a) :
    ¬ Inline lib files a := by
  intro hinline
  obtain ⟨hpasses, hsecret⟩ := (hsame.inline_iff files ha).mp hinline
  rcases hsecret with ⟨s, hmem, hrefs, hs⟩ | hbrought
  · obtain ⟨values, hvalues⟩ := hsame.assigned ha
    have hshows : Shows lib a s :=
      (shows_iff hvalues s).mpr ⟨s, expandString_of_references values hrefs, hs⟩
    exact not_isReference hrefs (honly s hmem hshows)
  · obtain ⟨s, hmem, hs, hnot⟩ := h.more a ha hpasses hbrought
    exact hnot (honly s hmem hs)

end Two

/-- The rejection for an inline secret does not depend on the values of the
names when these do not decide it, and only then. -/
theorem rejection_neutral_iff (lib : TomlLibrary) (files : ConfigFiles) (a₁ a₂ : Assignment)
    (hsame : SameNames lib a₁ a₂) : Neutral lib files a₁ a₂ ↔ Undecided lib files a₁ a₂ := by
  constructor
  · intro h
    exact h.undecided hsame
  · intro h
    refine ⟨⟨fun hinline => ?_, fun hinline => ?_⟩, fun a ha honly => h.references hsame ha honly⟩
    · exact h.inline_of_inline hsame (Or.inl ⟨rfl, rfl⟩) hinline
    · exact h.inline_of_inline hsame (Or.inr ⟨rfl, rfl⟩) hinline

/-- A configuration whose endpoint is a reference. -/
def referringText : String :=
  "schema_version = 1\n[generators.g]\nendpoint = \"$\x7bKEY\x7d\"\n"

/-- Its value. -/
def referringValue : Toml :=
  .table [("schema_version", .integer 1),
    ("generators", .table [("g", .table [("endpoint", .string "$\x7bKEY\x7d")])])]

/-- A library that knows this text. -/
def referringLibrary : TomlLibrary where
  fromStr text := if text = referringText then .ok referringValue else .error "expected an equals sign"
  keyed text v h := by
    split_ifs at h
    cases h
    simp [referringValue, Toml.Keyed, Toml.KeyedFields]
  complaint _ := "unknown field"

/-- The committed file alone. -/
def referringFiles : ConfigFiles := ⟨some (.ok referringText), none⟩

/-- The key in the environment. -/
def keyIs (value : String) : Assignment :=
  ⟨fun name => if name = "KEY" then some value else none, none⟩

theorem sameNames_keyIs (first second : String) :
    SameNames referringLibrary (keyIs first) (keyIs second) := by
  refine ⟨_, _, rfl, rfl, fun name => ?_⟩
  unfold resolve keyIs
  dsimp only
  split_ifs <;> rfl

/-- The endpoint looks like a secret as the key does. -/
theorem shown_keyIs (value : String) :
    (∃ s ∈ fileTexts referringLibrary referringFiles, Shows referringLibrary (keyIs value) s) ↔
      Secret value := by
  have htexts : fileTexts referringLibrary referringFiles = ["$\x7bKEY\x7d"] := by decide
  have hvalues : assigned referringLibrary (keyIs value) = .ok (resolve (keyIs value).env []) := rfl
  have hchars : "$\x7bKEY\x7d".toList = ['$', '\x7b', 'K', 'E', 'Y', '\x7d'] := by decide
  have hreplaced : expandString (resolve (keyIs value).env []) "$\x7bKEY\x7d" = .ok value := by
    rw [expandString, hchars]
    simp [expandChars, resolve, keyIs, Except.map]
  rw [htexts]
  simp [shows_iff hvalues, hreplaced]

theorem passes_keyIs (value : String) : Passes referringLibrary referringFiles (keyIs value) := by
  exact ⟨_, ["code"], rfl, rfl⟩

/-- Nothing looks like a secret when the key does not. -/
theorem plain_keyIs {value : String} (h : ¬ Secret value) :
    ¬ Written referringLibrary referringFiles ∧
      ¬ BroughtIn referringLibrary referringFiles (keyIs value) := by
  have hvalues : assigned referringLibrary (keyIs value) = .ok (resolve (keyIs value).env []) := rfl
  have hnone : ¬ (Written referringLibrary referringFiles ∨
      BroughtIn referringLibrary referringFiles (keyIs value)) := by
    rw [← exists_shows_iff hvalues, shown_keyIs]
    exact h
  exact not_or.mp hnone

/-- Two keys that do not look like secrets. -/
theorem rejection_neutral_plain_keys :
    Neutral referringLibrary referringFiles (keyIs "abc") (keyIs "def") := by
  have hfirst := plain_keyIs (by decide : ¬ Secret "abc")
  have hsecond := plain_keyIs (by decide : ¬ Secret "def")
  have hsame := sameNames_keyIs "abc" "def"
  refine (rejection_neutral_iff _ _ _ _ hsame).mpr ⟨fun _ _ => ?_, fun a b hab _ hfails => ?_,
    fun a ha _ hbrought => ?_⟩
  · exact Or.inr (iff_of_false hfirst.2 hsecond.2)
  · rcases hab with ⟨rfl, rfl⟩ | ⟨rfl, rfl⟩
    · exact absurd (passes_keyIs "def") hfails
    · exact absurd (passes_keyIs "abc") hfails
  · rcases ha with rfl | rfl
    · exact absurd hbrought hfirst.2
    · exact absurd hbrought hsecond.2

/-- A secret that only comes in by reference is rejected as inline, and another
value under the same name is not. -/
theorem secret_by_reference_rejected :
    SameNames referringLibrary (keyIs "abc") (keyIs "sk-livesecret1234567890") ∧
      ¬ Inline referringLibrary referringFiles (keyIs "abc") ∧
      Inline referringLibrary referringFiles (keyIs "sk-livesecret1234567890") ∧
      ¬ Neutral referringLibrary referringFiles (keyIs "abc")
        (keyIs "sk-livesecret1234567890") := by
  have hplain : ¬ Inline referringLibrary referringFiles (keyIs "abc") := by
    rw [inline_iff, shown_keyIs]
    exact fun h => absurd h.2 (by decide)
  have hsecret : Inline referringLibrary referringFiles (keyIs "sk-livesecret1234567890") := by
    rw [inline_iff, shown_keyIs]
    exact ⟨passes_keyIs _, by decide⟩
  exact ⟨sameNames_keyIs _ _, hplain, hsecret, fun h => hplain (h.same.mpr hsecret)⟩

end Tyo3.SecretReferences
