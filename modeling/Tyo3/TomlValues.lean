import Tyo3.FiniteMaps

/-!
# TOML values and typed readers

The value type of a TOML library, the texts that stand in a value, and
readers that turn a value into a typed record: a record has its fields under
their names in a table or in their order in an array, unknown fields are
refused, and a field may be required, optional or have a default. Nothing
here names a program.
-/

namespace Tyo3.TomlValues

open FiniteMaps

/-- A TOML value. -/
inductive Toml where
  | string (text : String)
  | integer (value : ℤ)
  | float (text : String)
  | boolean (value : Bool)
  | datetime (text : String)
  | array (items : List Toml)
  | table (fields : List (String × Toml))

namespace Toml

mutual

/-- The texts that stand in a value. -/
def texts : Toml → List String
  | .string text => [text]
  | .array items => textsOfItems items
  | .table fields => textsOfFields fields
  | .integer _ => []
  | .float _ => []
  | .boolean _ => []
  | .datetime _ => []

/-- The texts that stand in values. -/
def textsOfItems : List Toml → List String
  | [] => []
  | item :: items => item.texts ++ textsOfItems items

/-- The texts that stand in the values of fields. -/
def textsOfFields : List (String × Toml) → List String
  | [] => []
  | (_, item) :: fields => item.texts ++ textsOfFields fields

end

theorem textsOfItems_eq (items : List Toml) : textsOfItems items = items.flatMap texts := by
  induction items with
  | nil => rfl
  | cons item items ih => rw [textsOfItems, ih, List.flatMap_cons]

theorem textsOfFields_eq (fields : List (String × Toml)) :
    textsOfFields fields = fields.flatMap fun f => f.2.texts := by
  induction fields with
  | nil => rfl
  | cons field fields ih => rw [textsOfFields, ih, List.flatMap_cons]

mutual

/-- No table in the value has two fields of one name. -/
def Keyed : Toml → Prop
  | .array items => KeyedItems items
  | .table fields => (fields.map Prod.fst).Nodup ∧ KeyedFields fields
  | .string _ => True
  | .integer _ => True
  | .float _ => True
  | .boolean _ => True
  | .datetime _ => True

/-- The same of values. -/
def KeyedItems : List Toml → Prop
  | [] => True
  | item :: items => item.Keyed ∧ KeyedItems items

/-- The same of the values of fields. -/
def KeyedFields : List (String × Toml) → Prop
  | [] => True
  | (_, item) :: fields => item.Keyed ∧ KeyedFields fields

end

theorem keyedItems_iff (items : List Toml) : KeyedItems items ↔ ∀ item ∈ items, item.Keyed := by
  induction items with
  | nil => simp [KeyedItems]
  | cons item items ih => simp [KeyedItems, ih]

theorem keyedFields_iff (fields : List (String × Toml)) :
    KeyedFields fields ↔ ∀ field ∈ fields, field.2.Keyed := by
  induction fields with
  | nil => simp [KeyedFields]
  | cons field fields ih => simp [KeyedFields, ih]

end Toml

/-! ## Readers -/

/-- A text. -/
def readString : Toml → Option String
  | .string text => some text
  | _ => none

/-- A truth value. -/
def readBool : Toml → Option Bool
  | .boolean value => some value
  | _ => none

/-- An unsigned number below a bound. -/
def readUnsigned (bound : ℕ) : Toml → Option ℕ
  | .integer value => if 0 ≤ value ∧ value < bound then some value.toNat else none
  | _ => none

/-- A list. -/
def readVec {α : Type*} (read : Toml → Option α) : Toml → Option (List α)
  | .array items => items.mapM read
  | _ => none

/-- A map of values by name. -/
def readMap {V : Type*} (read : Toml → Option V) : Toml → Option (FMap String V)
  | .table fields =>
    (fields.mapM fun f => (read f.2).map (Prod.mk f.1)).map fun entries =>
      entries.foldl (fun m e => m.insert e.1 e.2) ∅
  | _ => none

/-- A variant without data: its name, or its name with nothing in it. -/
def readVariant {α : Type*} (variants : List (String × α)) : Toml → Option α
  | .string name => variants.lookup name
  | .table [(name, .table [])] => variants.lookup name
  | .table [(name, .array [])] => variants.lookup name
  | _ => none

/-- The fields of a record. Its declaration lists the names in their order,
each with whether it has a default in an array. -/
def readFields (decl : List (String × Bool)) : Toml → Option (List (String × Toml))
  | .table fields => if fields.all fun f => (decl.map Prod.fst).contains f.1 then some fields else none
  | .array items =>
    if items.length ≤ decl.length ∧ (decl.drop items.length).all Prod.snd then
      some ((decl.map Prod.fst).zip items)
    else none
  | _ => none

/-- A field that must be there. -/
def required {α : Type*} (read : Toml → Option α) (fields : List (String × Toml)) (name : String) :
    Option α :=
  (fields.lookup name).bind read

/-- A field that may be absent. -/
def optional {α : Type*} (read : Toml → Option α) (fields : List (String × Toml)) (name : String) :
    Option (Option α) :=
  match fields.lookup name with
  | some value => (read value).map some
  | none => some none

/-- A field with a default. -/
def defaulted {α : Type*} (read : Toml → Option α) (default : α) (fields : List (String × Toml))
    (name : String) : Option α :=
  match fields.lookup name with
  | some value => read value
  | none => some default

/-- The texts of a field. -/
def textsAt (fields : List (String × Toml)) (name : String) : List String :=
  (fields.lookup name).elim [] Toml.texts

/-! ## What readers keep -/

/-- In a list without repeated names a field is found by its name. -/
theorem lookup_of_mem {fields : List (String × Toml)} (hd : (fields.map Prod.fst).Nodup)
    {f : String × Toml} (hf : f ∈ fields) : fields.lookup f.1 = some f.2 := by
  induction fields with
  | nil => exact absurd hf List.not_mem_nil
  | cons first rest ih =>
    rw [List.map_cons, List.nodup_cons] at hd
    rcases List.mem_cons.mp hf with rfl | hrest
    · exact List.lookup_cons_self
    · have hne : (f.1 == first.1) = false := by
        rw [beq_eq_false_iff_ne]
        intro heq
        exact hd.1 (heq ▸ List.mem_map_of_mem hrest)
      rw [List.lookup_cons, hne]
      exact ih hd.2 hrest

theorem mem_of_lookup {fields : List (String × Toml)} {name : String} {value : Toml}
    (h : fields.lookup name = some value) : (name, value) ∈ fields := by
  obtain ⟨before, after, heq, -⟩ := List.lookup_eq_some_iff.mp h
  rw [heq]
  simp

/-- The texts of fields without repeated names, name by name. -/
theorem mem_textsOfFields {fields : List (String × Toml)} (hd : (fields.map Prod.fst).Nodup)
    {names : List String} (hknown : ∀ f ∈ fields, f.1 ∈ names) {s : String} :
    s ∈ Toml.textsOfFields fields ↔ ∃ name ∈ names, s ∈ textsAt fields name := by
  rw [Toml.textsOfFields_eq, List.mem_flatMap]
  constructor
  · intro h
    obtain ⟨f, hf, hs⟩ := h
    refine ⟨f.1, hknown f hf, ?_⟩
    rw [textsAt, lookup_of_mem hd hf]
    exact hs
  · intro h
    obtain ⟨name, -, hs⟩ := h
    cases hvalue : fields.lookup name with
    | none =>
      rw [textsAt, hvalue] at hs
      exact absurd hs List.not_mem_nil
    | some value =>
      rw [textsAt, hvalue] at hs
      exact ⟨(name, value), mem_of_lookup hvalue, hs⟩

/-- The fields of a record hold the texts of its value. -/
theorem readFields_spec {decl : List (String × Bool)} (hdecl : (decl.map Prod.fst).Nodup) {v : Toml}
    (hv : v.Keyed) {fields : List (String × Toml)} (h : readFields decl v = some fields) :
    (∀ f ∈ fields, f.2.Keyed) ∧
      ∀ s, s ∈ v.texts ↔ ∃ name ∈ decl.map Prod.fst, s ∈ textsAt fields name := by
  cases v with
  | table all =>
    simp only [readFields] at h
    split_ifs at h with hknown
    cases h
    rw [Toml.Keyed, Toml.keyedFields_iff] at hv
    refine ⟨hv.2, fun s => mem_textsOfFields hv.1 fun f hf => ?_⟩
    have hone := List.all_eq_true.mp hknown f hf
    exact List.contains_iff_mem.mp hone
  | array items =>
    simp only [readFields] at h
    split_ifs at h with hfits
    cases h
    rw [Toml.Keyed, Toml.keyedItems_iff] at hv
    have hlength : items.length ≤ (decl.map Prod.fst).length := by
      rw [List.length_map]
      exact hfits.1
    have hnames : (((decl.map Prod.fst).zip items).map Prod.fst).Nodup := by
      rw [List.zip_eq_zip_take_min, List.map_fst_zip (by simp)]
      exact hdecl.sublist (List.take_sublist _ _)
    refine ⟨fun f hf => hv f.2 (List.of_mem_zip hf).2, fun s => ?_⟩
    have hfields := mem_textsOfFields hnames (fun f hf => (List.of_mem_zip hf).1) (s := s)
    rw [← hfields, Toml.textsOfFields_eq, Toml.texts, Toml.textsOfItems_eq]
    have hvalues : ((decl.map Prod.fst).zip items).map Prod.snd = items :=
      List.map_snd_zip hlength
    rw [← List.flatMap_map Prod.snd Toml.texts, hvalues]
  | string text => simp [readFields] at h
  | integer value => simp [readFields] at h
  | float text => simp [readFields] at h
  | boolean value => simp [readFields] at h
  | datetime text => simp [readFields] at h

section Keeping

variable {α V : Type*} {P : String → Prop}

/-- A reader keeps the texts of a kind: what it reads holds the ones that
stand in the value. -/
def Keeps (P : String → Prop) (read : Toml → Option α) (holds : α → String → Prop) : Prop :=
  ∀ v a s, v.Keyed → read v = some a → P s → (holds a s ↔ s ∈ v.texts)

theorem keeps_string : Keeps P readString fun text s => s = text := by
  intro v a s _ h _
  cases v <;> simp_all [readString, Toml.texts]

theorem keeps_bool : Keeps P readBool fun _ _ => False := by
  intro v a s _ h _
  cases v <;> simp_all [readBool, Toml.texts]

theorem keeps_unsigned (bound : ℕ) : Keeps P (readUnsigned bound) fun _ _ => False := by
  intro v a s _ h _
  cases v <;> simp_all [readUnsigned, Toml.texts]

/-- The name of a variant is not of the kind. -/
theorem keeps_variant {variants : List (String × α)} (hnames : ∀ e ∈ variants, ¬ P e.1) :
    Keeps P (readVariant variants) fun _ _ => False := by
  intro v a s _ h hs
  refine iff_of_false id fun hmem => ?_
  unfold readVariant at h
  split at h
  · rw [Toml.texts, List.mem_singleton] at hmem
    obtain ⟨before, after, heq, -⟩ := List.lookup_eq_some_iff.mp h
    exact hnames _ (by rw [heq]; exact List.mem_append_right _ List.mem_cons_self) (hmem ▸ hs)
  · simp [Toml.texts, Toml.textsOfFields] at hmem
  · simp [Toml.texts, Toml.textsOfFields, Toml.textsOfItems] at hmem
  · cases h

/-- What a fallible traversal reads, item by item. -/
theorem mapM_eq_some {β γ : Type*} {read : β → Option γ} {items : List β} {values : List γ}
    (h : items.mapM read = some values) :
    List.Forall₂ (fun item value => read item = some value) items values := by
  induction items generalizing values with
  | nil =>
    cases h
    exact .nil
  | cons item items ih =>
    rw [List.mapM_cons] at h
    obtain ⟨value, hvalue, hrest⟩ := Option.bind_eq_some_iff.mp h
    obtain ⟨rest, hitems, heq⟩ := Option.bind_eq_some_iff.mp hrest
    cases heq
    exact .cons hvalue (ih hitems)

theorem keeps_vec {read : Toml → Option α} {holds : α → String → Prop}
    (h : Keeps P read holds) : Keeps P (readVec read) fun values s => ∃ a ∈ values, holds a s := by
  intro v values s hv hread hs
  cases v with
  | array items =>
    rw [Toml.Keyed, Toml.keyedItems_iff] at hv
    rw [Toml.texts, Toml.textsOfItems_eq, List.mem_flatMap]
    have hall := mapM_eq_some hread
    clear hread
    dsimp only
    induction hall with
    | nil => simp
    | cons hone _ ih =>
      have hhead := h _ _ s (hv _ List.mem_cons_self) hone hs
      have htail := ih fun item hitem => hv item (List.mem_cons_of_mem _ hitem)
      rw [List.exists_mem_cons_iff, List.exists_mem_cons_iff]
      exact or_congr hhead htail
  | string text => simp [readVec] at hread
  | integer value => simp [readVec] at hread
  | float text => simp [readVec] at hread
  | boolean value => simp [readVec] at hread
  | datetime text => simp [readVec] at hread
  | table fields => simp [readVec] at hread

theorem keeps_map {read : Toml → Option V} {holds : V → String → Prop} (h : Keeps P read holds) :
    Keeps P (readMap read) fun m s => ∃ key value, m.lookup key = some value ∧ holds value s := by
  intro v m s hv hread hs
  cases v with
  | table fields =>
    rw [Toml.Keyed, Toml.keyedFields_iff] at hv
    obtain ⟨entries, hentries, rfl⟩ := Option.map_eq_some_iff.mp hread
    have hall := mapM_eq_some hentries
    have hkeys : entries.map Prod.fst = fields.map Prod.fst := by
      clear hread hentries hv
      induction hall with
      | nil => rfl
      | cons hone _ ih =>
        obtain ⟨value, -, rfl⟩ := Option.map_eq_some_iff.mp hone
        rw [List.map_cons, List.map_cons, ih]
    have hnodup : (entries.map Prod.fst).Nodup := hkeys ▸ hv.1
    have hlookup : ∀ key value, (entries.foldl (fun m e => m.insert e.1 e.2)
        (∅ : FMap String V)).lookup key = some value ↔ (key, value) ∈ entries := by
      intro key value
      rw [lookup_foldl_insert hnodup]
      simp
    have hvalues : (∃ key value, (key, value) ∈ entries ∧ holds value s) ↔
        ∃ f ∈ fields, s ∈ f.2.texts := by
      have hfields := hv.2
      clear hread hentries hv hkeys hnodup hlookup
      induction hall with
      | nil => simp
      | cons hone _ ih =>
        rename_i field entry fields entries
        obtain ⟨value, hvalue, rfl⟩ := Option.map_eq_some_iff.mp hone
        have hhead := h _ _ s (hfields _ List.mem_cons_self) hvalue hs
        have htail := ih fun f hf => hfields f (List.mem_cons_of_mem _ hf)
        rw [List.exists_mem_cons_iff]
        refine Iff.trans ?_ (or_congr hhead htail)
        constructor
        · intro hmem
          obtain ⟨key, value', hin, hholds⟩ := hmem
          rcases List.mem_cons.mp hin with heq | hrest
          · cases heq
            exact Or.inl hholds
          · exact Or.inr ⟨key, value', hrest, hholds⟩
        · intro hmem
          rcases hmem with hholds | ⟨key, value', hin, hholds⟩
          · exact ⟨_, value, List.mem_cons_self, hholds⟩
          · exact ⟨key, value', List.mem_cons_of_mem _ hin, hholds⟩
    rw [Toml.texts, Toml.textsOfFields_eq, List.mem_flatMap, ← hvalues]
    simp only [hlookup]
  | array items => simp [readMap] at hread
  | string text => simp [readMap] at hread
  | integer value => simp [readMap] at hread
  | float text => simp [readMap] at hread
  | boolean value => simp [readMap] at hread
  | datetime text => simp [readMap] at hread

variable {read : Toml → Option α} {holds : α → String → Prop} {fields : List (String × Toml)}
  {name s : String}

/-- A required field holds its texts. -/
theorem Keeps.required (h : Keeps P read holds) (hfields : ∀ f ∈ fields, f.2.Keyed) (hs : P s)
    {a : α} (hread : required read fields name = some a) :
    holds a s ↔ s ∈ textsAt fields name := by
  obtain ⟨value, hvalue, ha⟩ := Option.bind_eq_some_iff.mp hread
  rw [textsAt, hvalue]
  exact h value a s (hfields _ (mem_of_lookup hvalue)) ha hs

/-- An optional field holds its texts, none where it is absent. -/
theorem Keeps.optional (h : Keeps P read holds) (hfields : ∀ f ∈ fields, f.2.Keyed) (hs : P s)
    {a : Option α} (hread : optional read fields name = some a) :
    (∃ x ∈ a, holds x s) ↔ s ∈ textsAt fields name := by
  unfold TomlValues.optional at hread
  rw [textsAt]
  cases hvalue : fields.lookup name with
  | none =>
    rw [hvalue] at hread
    cases hread
    simp
  | some value =>
    rw [hvalue] at hread
    obtain ⟨x, hx, rfl⟩ := Option.map_eq_some_iff.mp hread
    have hone := h value x s (hfields _ (mem_of_lookup hvalue)) hx hs
    simpa using hone

/-- A field with a default that holds no text of the kind. -/
theorem Keeps.defaulted (h : Keeps P read holds) (hfields : ∀ f ∈ fields, f.2.Keyed) (hs : P s)
    {a default : α} (hdefault : ¬ holds default s)
    (hread : defaulted read default fields name = some a) :
    holds a s ↔ s ∈ textsAt fields name := by
  unfold TomlValues.defaulted at hread
  rw [textsAt]
  cases hvalue : fields.lookup name with
  | none =>
    rw [hvalue] at hread
    cases hread
    exact iff_of_false hdefault List.not_mem_nil
  | some value =>
    rw [hvalue] at hread
    exact h value a s (hfields _ (mem_of_lookup hvalue)) hread hs

end Keeping

end Tyo3.TomlValues
