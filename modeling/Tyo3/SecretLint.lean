import Tyo3.ConfigurationLoading
import Tyo3.LayerOrder

/-!
# The lint of inline secrets

The lint looks at the configuration after its references have been replaced,
so it cannot tell a text that was written into the file from one that came in
by reference. What it says depends on three things: whether the other checks
pass, whether a text without a reference looks like a secret, and whether a
text with a reference looks like one after the replacement.
-/

namespace Tyo3.SecretLint

open FiniteMaps JsonValues Tyo3.Configuration ConfigurationLoading TomlValues LayerOrder

/-! ## The lint -/

mutual

/-- The texts that stand in a JSON value. -/
def textsOf : Json → List String
  | .str s => [s]
  | .arr items => textsOfItems items
  | .obj fields => textsOfFields fields
  | .null => []
  | .bool _ => []
  | .nat _ => []
  | .real _ => []

/-- The texts that stand in JSON values. -/
def textsOfItems : List Json → List String
  | [] => []
  | item :: items => textsOf item ++ textsOfItems items

/-- The texts that stand in the fields of a JSON object. -/
def textsOfFields : List (String × Json) → List String
  | [] => []
  | (_, item) :: fields => textsOf item ++ textsOfFields fields

end

/-- The verdict of a check on texts: the place of one that looks like a secret,
or none does. -/
def Verdict (texts : List String) (result : Except ConfigError Unit) : Prop :=
  (∃ path, result = .error (.secretInline path)) ∧ (∃ s ∈ texts, looksLikeSecret s = true) ∨
    result = .ok () ∧ ∀ s ∈ texts, looksLikeSecret s = false

/-- One check after the other. -/
theorem Verdict.append {first rest : List String} {result next joined : Except ConfigError Unit}
    (hfirst : Verdict first result) (hrest : Verdict rest next)
    (herror : ∀ e, result = .error e → joined = .error e) (hok : result = .ok () → joined = next) :
    Verdict (first ++ rest) joined := by
  rcases hfirst with ⟨⟨path, hresult⟩, s, hs, hsecret⟩ | ⟨hresult, hnone⟩
  · exact Or.inl ⟨⟨path, herror _ hresult⟩, s, List.mem_append_left _ hs, hsecret⟩
  · rw [hok hresult]
    rcases hrest with ⟨hpath, s, hs, hsecret⟩ | ⟨hnext, hnone'⟩
    · exact Or.inl ⟨hpath, s, List.mem_append_right _ hs, hsecret⟩
    · refine Or.inr ⟨hnext, fun s hs => ?_⟩
      rcases List.mem_append.mp hs with hleft | hright
      · exact hnone s hleft
      · exact hnone' s hright

mutual

theorem lintSecretValue_verdict (path : String) :
    ∀ value : Json, Verdict (textsOf value) (lintSecretValue path value)
  | .str s => by
    rw [textsOf, lintSecretValue]
    split_ifs with hsecret
    · exact Or.inl ⟨⟨path, rfl⟩, s, List.mem_singleton_self s, hsecret⟩
    · refine Or.inr ⟨rfl, fun s' hs' => ?_⟩
      rw [List.mem_singleton.mp hs']
      exact Bool.eq_false_iff.mpr hsecret
  | .arr items => by
    rw [textsOf, lintSecretValue]
    exact lintSecretItems_verdict path 0 items
  | .obj fields => by
    rw [textsOf, lintSecretValue]
    exact lintSecretFields_verdict path fields
  | .null => Or.inr ⟨rfl, fun s hs => absurd hs (by simp [textsOf])⟩
  | .bool _ => Or.inr ⟨rfl, fun s hs => absurd hs (by simp [textsOf])⟩
  | .nat _ => Or.inr ⟨rfl, fun s hs => absurd hs (by simp [textsOf])⟩
  | .real _ => Or.inr ⟨rfl, fun s hs => absurd hs (by simp [textsOf])⟩

theorem lintSecretItems_verdict (path : String) (idx : ℕ) :
    ∀ items : List Json, Verdict (textsOfItems items) (lintSecretItems path idx items)
  | [] => Or.inr ⟨rfl, fun s hs => absurd hs (by simp [textsOfItems])⟩
  | item :: items => by
    rw [textsOfItems, lintSecretItems]
    exact (lintSecretValue_verdict (path ++ "[" ++ toString idx ++ "]") item).append
      (lintSecretItems_verdict path (idx + 1) items) (fun e he => by rw [he]) (fun h => by rw [h])

theorem lintSecretFields_verdict (path : String) :
    ∀ fields : List (String × Json), Verdict (textsOfFields fields) (lintSecretFields path fields)
  | [] => Or.inr ⟨rfl, fun s hs => absurd hs (by simp [textsOfFields])⟩
  | (key, item) :: fields => by
    rw [textsOfFields, lintSecretFields]
    exact (lintSecretValue_verdict (path ++ "." ++ key) item).append
      (lintSecretFields_verdict path fields) (fun e he => by rw [he]) (fun h => by rw [h])

end

/-! ## The checks before the lint -/

/-- The checks of `validate` before the lint. -/
def checkSettings (raw : RawConfig) : Except ConfigError (List String) := do
  if raw.schemaVersion ≠ currentSchemaVersion then
    throw (.unknownVersion raw.schemaVersion)
  if (raw.hashing.profiles.lookup raw.spine.defaultHashProfile).isNone then
    throw (.danglingRef "spine.default_hash_profile" raw.spine.defaultHashProfile)
  forLayers raw (checkHashProfile raw)
  forLayers raw (checkDerived raw)
  if (raw.layers.lookup "code").isSome then
    throw (.reservedName "code")
  let order ← topoOrder raw
  forLayers raw (checkDependencies raw)
  forLayers raw checkOrigin
  forLayers raw checkKinds
  forLayers raw (checkDimensions raw)
  if !(["coalesce", "drop_and_mark_lagged", "error_and_close"].contains
      raw.coordination.bus.overflow) then
    throw (.blockingOverflow raw.coordination.bus.overflow)
  checkAllowed "code_graph.precision" "container, method" ["container", "method"]
    raw.codeGraph.precision
  checkAllowed "code_graph.refinement" "sync, async" ["sync", "async"] raw.codeGraph.refinement
  return order

/-- Validation is the other checks and then the lint. -/
theorem validate_eq (raw : RawConfig) :
    validate raw = do
      let order ← checkSettings raw
      lintSecrets raw
      return ⟨raw, order⟩ := by
  unfold validate checkSettings
  split_ifs <;> simp [bind_assoc]

/-- A check that does not speak of inline secrets. -/
def Silent {α : Type} (result : Except ConfigError α) : Prop :=
  ∀ path, result ≠ .error (.secretInline path)

theorem silent_ok {α : Type} (a : α) : Silent (.ok a) := fun _ h => by cases h

/-- Whether an error is about an inline secret. -/
def aboutSecret : ConfigError → Bool
  | .secretInline _ => true
  | _ => false

theorem silent_error {α : Type} {e : ConfigError} (h : aboutSecret e = false) :
    Silent (.error e : Except ConfigError α) := by
  intro path heq
  rw [Except.error.inj heq] at h
  cases h

theorem Silent.bind {α β : Type} {first : Except ConfigError α} {rest : α → Except ConfigError β}
    (hfirst : Silent first) (hrest : ∀ a, Silent (rest a)) : Silent (first >>= rest) := by
  cases first with
  | ok a => exact hrest a
  | error e => exact fun path heq => hfirst path (congrArg Except.error (Except.error.inj heq))

theorem Silent.map {α β : Type} {first : Except ConfigError α} {f : α → β}
    (hfirst : Silent first) : Silent (first.map f) := by
  cases first with
  | ok a => exact silent_ok (f a)
  | error e => exact fun path heq => hfirst path (congrArg Except.error (Except.error.inj heq))

theorem silent_ite {α : Type} {c : Prop} [Decidable c] {yes no : Except ConfigError α}
    (hyes : Silent yes) (hno : Silent no) : Silent (if c then yes else no) := by
  split_ifs
  · exact hyes
  · exact hno

theorem silent_forM {ι : Type} {items : List ι} {check : ι → Except ConfigError Unit}
    (h : ∀ item, Silent (check item)) : Silent (items.forM check) := by
  induction items with
  | nil => exact silent_ok ()
  | cons item items ih => exact (h item).bind fun _ => ih

theorem silent_foldlM {ι α : Type} {items : List ι} {f : α → ι → Except ConfigError α}
    (h : ∀ a item, Silent (f a item)) (a : α) : Silent (items.foldlM f a) := by
  induction items generalizing a with
  | nil => exact silent_ok a
  | cons item items ih => exact (h a item).bind fun a' => ih a'

theorem silent_topoOrder (raw : RawConfig) : Silent (topoOrder raw) := by
  have htable : Silent (dependencyTable raw) := by
    refine silent_foldlM (fun table entry => silent_foldlM (fun table dep => ?_) table) _
    exact silent_ite (silent_error rfl) (silent_ok _)
  refine htable.bind fun table => ?_
  exact silent_ite (silent_error rfl) (silent_ok _)

theorem silent_checkReference {V : Type} (name field : String) (declared : FMap String V)
    (target : Option String) : Silent (checkReference name field declared target) := by
  cases target with
  | none => exact silent_error rfl
  | some target => exact silent_ite (silent_error rfl) (silent_ok _)

theorem silent_checkOrigin (name : String) (layer : LayerCfg) :
    Silent (checkOrigin name layer) := by
  unfold checkOrigin
  split
  · exact silent_ite (silent_error rfl) (silent_ok _)
  · exact silent_ite (silent_error rfl) (silent_ok _)

theorem silent_checkDependencies (raw : RawConfig) (name : String) (layer : LayerCfg) :
    Silent (checkDependencies raw name layer) := by
  refine silent_forM fun dep => ?_
  split
  · exact silent_ite (silent_error rfl) (silent_ok _)
  · exact silent_ok _

theorem silent_checkDimensions (raw : RawConfig) (name : String) (layer : LayerCfg) :
    Silent (checkDimensions raw name layer) := by
  unfold checkDimensions
  split
  · split
    · exact silent_ite (silent_error rfl) (silent_ok _)
    · exact silent_ok _
  · exact silent_ok _

theorem silent_guard {α : Type} {c : Prop} [Decidable c] {e : ConfigError}
    (he : aboutSecret e = false) {rest : Unit → Except ConfigError α}
    (hrest : Silent (rest ())) :
    Silent (if c then (throw e >>= rest) else rest ()) :=
  silent_ite ((silent_error he).bind fun _ => hrest) hrest

/-- The other checks do not speak of inline secrets. -/
theorem silent_checkSettings (raw : RawConfig) : Silent (checkSettings raw) := by
  unfold checkSettings
  refine silent_guard rfl (silent_guard rfl ?_)
  refine (silent_forM fun _ => silent_ite (silent_error rfl) (silent_ok _)).bind fun _ => ?_
  refine (silent_forM fun _ => silent_ite ((silent_checkReference _ _ _ _).bind fun _ =>
    silent_checkReference _ _ _ _) (silent_ok _)).bind fun _ => ?_
  refine silent_guard rfl ((silent_topoOrder raw).bind fun order => ?_)
  refine (silent_forM fun _ => silent_checkDependencies raw _ _).bind fun _ => ?_
  refine (silent_forM fun _ => silent_checkOrigin _ _).bind fun _ => ?_
  refine (silent_forM fun _ => silent_forM fun _ =>
    silent_ite (silent_ok _) (silent_error rfl)).bind fun _ => ?_
  refine (silent_forM fun _ => silent_checkDimensions raw _ _).bind fun _ => ?_
  refine silent_guard rfl ?_
  refine (silent_ite (silent_ok _) (silent_error rfl)).bind fun _ => ?_
  exact (silent_ite (silent_ok _) (silent_error rfl)).bind fun _ => silent_ok _

/-- A configuration is rejected for an inline secret when the other checks pass
and one of its texts looks like a secret. -/
theorem validate_secretInline_iff (raw : RawConfig) :
    (∃ path, validate raw = .error (.secretInline path)) ↔
      (∃ order, checkSettings raw = .ok order) ∧
        ∃ s ∈ textsOf (rawJson raw), looksLikeSecret s = true := by
  rw [validate_eq]
  cases hchecks : checkSettings raw with
  | error e =>
    have hsilent := silent_checkSettings raw
    rw [hchecks] at hsilent
    simp only [reduceCtorEq, exists_false, false_and, iff_false]
    intro h
    obtain ⟨path, hpath⟩ := h
    exact hsilent path (congrArg Except.error (Except.error.inj hpath))
  | ok order =>
    have hverdict := lintSecretValue_verdict "$" (rawJson raw)
    change (∃ path, (lintSecrets raw >>= fun _ => pure ⟨raw, order⟩) =
      (Except.error (.secretInline path) : Except ConfigError ValidatedConfig)) ↔ _
    unfold lintSecrets
    rcases hverdict with ⟨⟨path, hresult⟩, hsecret⟩ | ⟨hresult, hnone⟩
    · rw [hresult]
      exact iff_of_true ⟨path, rfl⟩ ⟨⟨order, rfl⟩, hsecret⟩
    · rw [hresult]
      refine iff_of_false (fun h => ?_) fun h => ?_
      · obtain ⟨path, hpath⟩ := h
        cases hpath
      · obtain ⟨-, s, hs, hsecret⟩ := h
        rw [hnone s hs] at hsecret
        cases hsecret

end Tyo3.SecretLint
