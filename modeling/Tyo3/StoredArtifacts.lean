import Tyo3.ArtifactFiles
import Tyo3.Runs

/-!
# The artifact store as a map

Seen by its keys the store is a map that forgets nothing but what is deleted
or pruned. Paths keep the keys apart and stay below the directory of the
store, and the listing gives the keys back, as long as no version is written
with one or two dots alone. A write that was cut off leaves a file that no key
has and that is not listed.
-/

namespace Tyo3.StoredArtifacts

open FiniteMaps JsonValues DerivedLayers ArtifactFiles Runs

/-! ## Keys -/

/-- A key that layers use: a hash in letters and digits and a version as
configurations have it. -/
structure CacheKey where
  /-- The input hash. -/
  inputHash : String
  /-- The version of the generator. -/
  generatorVersion : String
  /-- Hashes are plain. -/
  plain : Plain inputHash
  /-- Versions are not empty. -/
  filled : generatorVersion ≠ ""

namespace CacheKey

/-- The key of the store. -/
def toStoreKey (key : CacheKey) : String := key.inputHash ++ ":" ++ key.generatorVersion

theorem ext_iff {key key' : CacheKey} :
    key = key' ↔ key.inputHash = key'.inputHash ∧ key.generatorVersion = key'.generatorVersion := by
  cases key
  cases key'
  simp

instance : DecidableEq CacheKey := fun _ _ => decidable_of_iff _ ext_iff.symm

theorem toStoreKey_injective : Function.Injective toStoreKey := by
  intro key key' h
  have hparts := congrArg partitionKey h
  unfold toStoreKey at hparts
  rw [partitionKey_of_plain key.plain, partitionKey_of_plain key'.plain] at hparts
  exact ext_iff.mpr (Prod.mk.inj hparts)

end CacheKey

/-! ## Operations -/

/-- What happens to a store. -/
inductive Operation where
  | put (key : CacheKey) (artifact : Bytes)
  | delete (key : CacheKey)
  | prune (keys : Finset CacheKey)
  /-- A write that is cut off before the file has its name. -/
  | cutOff (key : CacheKey) (artifact : Bytes)

/-- The keys of an operation. -/
def Operation.keys : Operation → Finset CacheKey
  | .put key _ | .delete key | .cutOff key _ => {key}
  | .prune keys => keys

/-- The path of the file that is written before it gets its name. -/
def temporaryPath (key : String) : List String :=
  (path key).dropLast ++ [((path key).getLast?.getD "") ++ ".tmp"]

section Running

variable (decode : Bytes → String) (iter : HashOrder String)

/-- The files after an operation. A completed write renames its temporary
file. -/
def takeStep (store : FsStore) : Operation → FsStore
  | .put key artifact =>
    FsStore.put (store.erase (temporaryPath key.toStoreKey)) key.toStoreKey artifact
  | .delete key => store.delete key.toStoreKey
  | .prune keys => store.prune decode iter (keys.image CacheKey.toStoreKey)
  | .cutOff key artifact => store.insert (temporaryPath key.toStoreKey) artifact

end Running

/-- The artifacts by key. -/
abbrev Held := CacheKey → Option Bytes

/-- What an operation means for the artifacts. -/
def meaning (held : Held) : Operation → Held
  | .put key artifact => Function.update held key (some artifact)
  | .delete key => Function.update held key none
  | .prune keys => fun key =>
    if key ∉ keys ∧ ∃ other ∈ keys, other.generatorVersion = key.generatorVersion then none
    else held key
  | .cutOff _ _ => held

/-! ## Paths -/

/-- A listed version has paths of its own. -/
theorem eq_of_path_eq {key key' : CacheKey} (hlisted : Listed key.generatorVersion)
    (h : path key.toStoreKey = path key'.toStoreKey) : key = key' :=
  CacheKey.ext_iff.mpr ⟨hash_eq_of_path_eq key.plain key'.plain h,
    version_eq_of_path_eq key.plain key'.plain hlisted h⟩

/-- The last part of a path is the hash. -/
theorem getLast?_path (key : CacheKey) : (path key.toStoreKey).getLast? = some key.inputHash := by
  unfold CacheKey.toStoreKey
  rw [path_of_plain key.plain]
  split_ifs <;> rfl

/-- A file that is being written has the path of no key. -/
theorem temporaryPath_ne (key key' : CacheKey) :
    temporaryPath key.toStoreKey ≠ path key'.toStoreKey := by
  intro h
  have hlast := congrArg List.getLast? h
  rw [getLast?_path, temporaryPath, List.getLast?_concat, getLast?_path,
    Option.some.injEq, Option.getD_some] at hlast
  have hdot : '.' ∈ key'.inputHash.toList := by
    rw [← hlast, String.toList_append]
    exact List.mem_append_right _ (by decide)
  exact absurd (key'.plain.2 '.' hdot) (by decide)

/-- It is not listed. -/
theorem listedKey_temporaryPath (decode : Bytes → String) (key : CacheKey) :
    FsStore.listedKey decode (temporaryPath key.toStoreKey) = none := by
  have htemporary : FsStore.isTemporary (key.inputHash ++ ".tmp") = true := by
    have hlong : 0 < key.inputHash.length := by
      rw [← String.length_toList]
      refine List.length_pos_iff.mpr fun hnil => key.plain.1 ?_
      exact String.toList_injective hnil
    unfold FsStore.isTemporary
    rw [Bool.and_eq_true, decide_eq_true_eq, List.isSuffixOf_iff_suffix, String.length_append,
      String.toList_append]
    exact ⟨Nat.lt_add_of_pos_left hlong, List.suffix_append _ _⟩
  unfold temporaryPath
  rw [getLast?_path, Option.getD_some]
  unfold CacheKey.toStoreKey
  rw [path_of_plain key.plain]
  split_ifs
  · rfl
  · change (if _ then none else some _) = none
    rw [htemporary, Bool.or_true, if_pos rfl]

/-! ## Runs -/

/-- The versions that occur in a set of keys. -/
theorem mem_versions_image {keys : Finset CacheKey} {version : String} :
    version ∈ FsStore.versions (keys.image CacheKey.toStoreKey) ↔
      ∃ key ∈ keys, key.generatorVersion = version := by
  unfold FsStore.versions
  constructor
  · intro h
    obtain ⟨text, htext, hversion⟩ := Finset.mem_image.mp h
    obtain ⟨key, hkey, heq⟩ := Finset.mem_image.mp (Finset.mem_filter.mp htext).1
    refine ⟨key, hkey, ?_⟩
    rw [← hversion, ← heq, CacheKey.toStoreKey, partitionKey_of_plain key.plain]
  · rintro ⟨key, hkey, hversion⟩
    refine Finset.mem_image.mpr ⟨key.toStoreKey, Finset.mem_filter.mpr
      ⟨Finset.mem_image_of_mem _ hkey, ?_⟩, ?_⟩
    · unfold CacheKey.toStoreKey
      simp
    · rw [CacheKey.toStoreKey, partitionKey_of_plain key.plain, hversion]

/-- The files of a store hold some artifacts. -/
structure Represents (decode : Bytes → String) (store : FsStore) (held : Held) : Prop where
  /-- Files belong to keys or are not listed. -/
  clean : Clean decode store
  /-- The artifacts are read under their keys. -/
  get : ∀ key : CacheKey, Listed key.generatorVersion → store.get key.toStoreKey = held key
  /-- Nothing else is held. -/
  listed : ∀ key : CacheKey, (held key).isSome = true → Listed key.generatorVersion

theorem Clean.insert {decode : Bytes → String} {store : FsStore} (h : Clean decode store)
    {p : List String} (hp : (∃ hash version, Plain hash ∧ p = path (hash ++ ":" ++ version)) ∨
      FsStore.listedKey decode p = none) (artifact : Bytes) :
    Clean decode (store.insert p artifact) := by
  intro q hq
  obtain ⟨found, hfound⟩ := (mem_keys_iff _ _).mp hq
  rw [lookup_insert_ite] at hfound
  split at hfound
  · rename_i heq
    rw [heq]
    exact hp
  · exact h q ((mem_keys_iff _ _).mpr ⟨found, hfound⟩)

theorem Clean.of_lookup {decode : Bytes → String} {store store' : FsStore} (h : Clean decode store)
    (hsub : ∀ p artifact, store'.lookup p = some artifact → store.lookup p = some artifact) :
    Clean decode store' := by
  intro p hp
  obtain ⟨artifact, hartifact⟩ := (mem_keys_iff _ _).mp hp
  exact h p ((mem_keys_iff _ _).mpr ⟨artifact, hsub p artifact hartifact⟩)

theorem lookup_of_erase {store : FsStore} {p q : List String} {artifact : Bytes}
    (h : (store.erase q).lookup p = some artifact) : store.lookup p = some artifact := by
  rw [lookup_erase_ite] at h
  split at h
  · cases h
  · exact h

section Steps

variable {decode : Bytes → String} {iter : HashOrder String} {store : FsStore} {held : Held}

theorem path_ne_of_ne {key other : CacheKey} (hlisted : Listed other.generatorVersion)
    (hne : other ≠ key) : path other.toStoreKey ≠ path key.toStoreKey :=
  fun hpath => hne (eq_of_path_eq hlisted hpath)

/-- A write puts its artifact there. -/
theorem Represents.put (h : Represents decode store held) {key : CacheKey}
    (hkey : Listed key.generatorVersion) (artifact : Bytes) :
    Represents decode (takeStep decode iter store (.put key artifact))
      (meaning held (.put key artifact)) := by
  refine ⟨?_, fun other hother => ?_, fun other hother => ?_⟩
  · exact Clean.insert (Clean.of_lookup h.clean fun _ _ => lookup_of_erase)
      (.inl ⟨_, _, key.plain, rfl⟩) artifact
  · simp only [takeStep, meaning, FsStore.put, FsStore.get]
    rw [lookup_insert_ite, lookup_erase_ite]
    by_cases heq : other = key
    · rw [heq, Function.update_self, if_pos rfl]
    · rw [if_neg (path_ne_of_ne hother heq), if_neg (temporaryPath_ne key other).symm,
        Function.update_of_ne heq]
      exact h.get other hother
  · simp only [meaning] at hother
    by_cases heq : other = key
    · rw [heq]
      exact hkey
    · rw [Function.update_of_ne heq] at hother
      exact h.listed other hother

/-- A removal takes its artifact away. -/
theorem Represents.delete (h : Represents decode store held) (key : CacheKey) :
    Represents decode (takeStep decode iter store (.delete key)) (meaning held (.delete key)) := by
  refine ⟨Clean.of_lookup h.clean fun _ _ => lookup_of_erase, fun other hother => ?_,
    fun other hother => ?_⟩
  · simp only [takeStep, meaning, FsStore.delete, FsStore.get]
    rw [lookup_erase_ite]
    by_cases heq : other = key
    · rw [heq, Function.update_self, if_pos rfl]
    · rw [if_neg (path_ne_of_ne hother heq), Function.update_of_ne heq]
      exact h.get other hother
  · simp only [meaning] at hother
    by_cases heq : other = key
    · rw [heq, Function.update_self] at hother
      cases hother
    · rw [Function.update_of_ne heq] at hother
      exact h.listed other hother

/-- A collection takes what is unreachable in its versions. -/
theorem Represents.prune (hdecode : ∀ text, decode (utf8 text) = text)
    (h : Represents decode store held) (keys : Finset CacheKey) :
    Represents decode (takeStep decode iter store (.prune keys)) (meaning held (.prune keys)) := by
  refine ⟨Clean.of_lookup h.clean fun _ _ => lookup_of_prune, fun other hother => ?_,
    fun other hother => ?_⟩
  · simp only [takeStep, meaning]
    have hget : (store.prune decode iter (keys.image CacheKey.toStoreKey)).get other.toStoreKey =
        if Collected (keys.image CacheKey.toStoreKey) other.inputHash other.generatorVersion
          then none else store.get other.toStoreKey :=
      get_prune hdecode h.clean other.plain
    have hcollected : Collected (keys.image CacheKey.toStoreKey) other.inputHash
        other.generatorVersion ↔ other ∉ keys ∧
          ∃ key ∈ keys, key.generatorVersion = other.generatorVersion := by
      unfold Collected
      rw [mem_versions_image, and_iff_left hother]
      refine and_congr_left fun _ => not_congr ?_
      exact CacheKey.toStoreKey_injective.mem_finset_image
    rw [hget, h.get other hother]
    exact if_congr hcollected rfl rfl
  · simp only [meaning] at hother
    split at hother
    · cases hother
    · exact h.listed other hother

/-- A write that is cut off leaves a file that is never read. -/
theorem Represents.cutOff (h : Represents decode store held) (key : CacheKey) (artifact : Bytes) :
    Represents decode (takeStep decode iter store (.cutOff key artifact))
      (meaning held (.cutOff key artifact)) := by
  refine ⟨Clean.insert h.clean (.inr (listedKey_temporaryPath decode key)) artifact,
    fun other hother => ?_, h.listed⟩
  simp only [takeStep, meaning, FsStore.get]
  rw [lookup_insert_ite, if_neg (temporaryPath_ne key other).symm]
  exact h.get other hother

/-- An operation on listed versions does what it means. -/
theorem Represents.step (hdecode : ∀ text, decode (utf8 text) = text)
    (h : Represents decode store held) {operation : Operation}
    (hkeys : ∀ key ∈ operation.keys, Listed key.generatorVersion) :
    Represents decode (takeStep decode iter store operation) (meaning held operation) := by
  cases operation with
  | put key artifact => exact h.put (hkeys key (Finset.mem_singleton_self key)) artifact
  | delete key => exact h.delete key
  | prune keys => exact h.prune hdecode keys
  | cutOff key artifact => exact h.cutOff key artifact

theorem represents_empty : Represents decode (∅ : FsStore) fun _ => none := by
  refine ⟨fun p hp => absurd hp (Finset.notMem_empty p), fun _ _ => rfl, fun _ hsome => ?_⟩
  cases hsome

/-- A run on listed versions does what it means. -/
theorem represents_run (hdecode : ∀ text, decode (utf8 text) = text) {operations : List Operation}
    (hkeys : ∀ operation ∈ operations, ∀ key ∈ operation.keys, Listed key.generatorVersion)
    (h : Represents decode store held) :
    Represents decode (run (takeStep decode iter) store operations)
      (run meaning held operations) := by
  induction operations generalizing store held with
  | nil => exact h
  | cons operation operations ih =>
    rw [run_cons, run_cons]
    refine ih (fun other hother => hkeys other (List.mem_cons_of_mem _ hother)) ?_
    exact h.step hdecode (hkeys operation List.mem_cons_self)

end Steps

/-! ## The store as a map -/

/-- What the store owes to the keys of some versions. -/
structure Faithful (decode : Bytes → String) (iter : HashOrder String) (versions : Set String) :
    Prop where
  /-- Keys have paths of their own. -/
  distinct : ∀ key key' : CacheKey, key.generatorVersion ∈ versions →
    key'.generatorVersion ∈ versions → path key.toStoreKey = path key'.toStoreKey → key = key'
  /-- Paths are below the directory of the store. -/
  below : ∀ key : CacheKey, key.generatorVersion ∈ versions →
    path key.toStoreKey ≠ [] ∧ ".." ∉ path key.toStoreKey
  /-- After any operations the artifacts are those that they mean, and exactly
  their keys are listed. -/
  run : ∀ operations : List Operation,
    (∀ operation ∈ operations, ∀ key ∈ operation.keys, key.generatorVersion ∈ versions) →
    (∀ key : CacheKey, key.generatorVersion ∈ versions →
      (run (takeStep decode iter) ∅ operations).get key.toStoreKey =
        run meaning (fun _ => none) operations key) ∧
    ∀ text, text ∈ (run (takeStep decode iter) ∅ operations).iterKeys decode ↔
      ∃ key : CacheKey, key.toStoreKey = text ∧
        (run meaning (fun _ => none) operations key).isSome = true

/-- No part of a path leads up. -/
theorem not_mem_path {key : CacheKey} (hlisted : Listed key.generatorVersion) :
    path key.toStoreKey ≠ [] ∧ ".." ∉ path key.toStoreKey := by
  have hparent : ArtifactFiles.quote key.generatorVersion = ".." ↔ key.generatorVersion = ".." :=
    quote_injective.eq_iff' (by decide)
  have hplain : ∀ {name : String}, '.' ∉ name.toList → name ≠ ".." := by
    intro name hdot heq
    rw [heq] at hdot
    exact hdot (by decide)
  have hnodot : '.' ∉ key.inputHash.toList :=
    fun hdot => absurd (key.plain.2 '.' hdot) (by decide)
  have hshard : shard key.inputHash ≠ ".." := by
    unfold shard
    split_ifs
    · refine hplain fun hdot => hnodot ?_
      rw [String.toList_ofList] at hdot
      exact List.mem_of_mem_take hdot
    · decide
  unfold CacheKey.toStoreKey
  rw [path_of_plain key.plain, if_neg (not_or.mpr ⟨hlisted.1, hlisted.2.1⟩)]
  refine ⟨List.cons_ne_nil _ _, fun hin => ?_⟩
  rcases List.mem_cons.mp hin with heq | hin
  · exact hlisted.2.2 (hparent.mp heq.symm)
  · rcases List.mem_cons.mp hin with heq | hin
    · exact hshard heq.symm
    · exact hplain hnodot (List.mem_singleton.mp hin).symm

/-- The key with the shortest hash. -/
def zeroKey (version : String) (hfilled : version ≠ "") : CacheKey where
  inputHash := "0"
  generatorVersion := version
  plain := ⟨by decide, by simp⟩
  filled := hfilled

/-- The store is a map for the keys of some versions exactly when none of them
is written with one or two dots alone. -/
theorem faithful_iff {decode : Bytes → String} (hdecode : ∀ text, decode (utf8 text) = text)
    (iter : HashOrder String) (versions : Set String) :
    Faithful decode iter versions ↔
      ∀ version ∈ versions, version ≠ "." ∧ version ≠ ".." := by
  constructor
  · intro h version hversion
    refine ⟨fun hdot => ?_, fun hdots => ?_⟩
    · -- a file of this version is not listed
      rw [hdot] at hversion
      have hkey := (h.run [.put (zeroKey "." (by decide)) []] (fun operation hoperation key hkey => by
        rw [List.mem_singleton.mp hoperation] at hkey
        rw [Finset.mem_singleton.mp hkey]
        exact hversion)).2 "0:."
      have hheld := hkey.mpr ⟨zeroKey "." (by decide), rfl, by
        rw [run_cons, run_nil, meaning, Function.update_self]
        rfl⟩
      have hclean : Clean decode (run (takeStep decode iter) ∅
          [.put (zeroKey "." (by decide)) []]) := by
        refine Clean.insert (Clean.of_lookup represents_empty.clean fun _ _ => lookup_of_erase) ?_ []
        exact .inl ⟨_, _, (zeroKey "." (by decide)).plain, rfl⟩
      obtain ⟨hash, found, hplain, hlisted, heq, -⟩ := (mem_iterKeys hdecode hclean).mp hheld
      have hparts := congrArg partitionKey heq
      rw [partitionKey_of_plain hplain] at hparts
      have hfound : found = "." := (Prod.mk.inj hparts).2.symm
      exact hlisted.2.1 hfound
    · -- a path of this version leads out of the store
      rw [hdots] at hversion
      have hbelow := (h.below (zeroKey ".." (by decide)) hversion).2
      exact hbelow (by decide +kernel)
  · intro hversions
    have hlisted : ∀ key : CacheKey, key.generatorVersion ∈ versions →
        Listed key.generatorVersion :=
      fun key hkey => ⟨key.filled, hversions _ hkey⟩
    refine ⟨fun key key' hkey _ => eq_of_path_eq (hlisted key hkey),
      fun key hkey => not_mem_path (hlisted key hkey), fun operations hkeys => ?_⟩
    have hrun := @represents_run decode iter ∅ (fun _ => none) hdecode operations
      (fun operation hoperation key hkey => hlisted key (hkeys operation hoperation key hkey))
      represents_empty
    refine ⟨fun key hkey => hrun.get key (hlisted key hkey), fun text => ?_⟩
    rw [mem_iterKeys hdecode hrun.clean]
    constructor
    · rintro ⟨hash, version, hplain, hlisted', heq, hsome⟩
      refine ⟨⟨hash, version, hplain, hlisted'.1⟩, heq.symm, ?_⟩
      rw [← hrun.get ⟨hash, version, hplain, hlisted'.1⟩ hlisted']
      rw [heq] at hsome
      exact hsome
    · rintro ⟨key, heq, hsome⟩
      have hkey := hrun.listed key hsome
      refine ⟨key.inputHash, key.generatorVersion, key.plain, hkey, heq.symm, ?_⟩
      rw [← heq, hrun.get key hkey]
      exact hsome

theorem faithful_first : Faithful sampleDecode HashOrder.increasing {"v1"} := by
  refine (faithful_iff sampleDecode_utf8 HashOrder.increasing {"v1"}).mpr fun version hversion => ?_
  rw [Set.mem_singleton_iff.mp hversion]
  decide

/-- One dot hides a key from the listing, and two dots lead to the directory
above. -/
theorem dots_accepted :
    FsStore.iterKeys sampleDecode (FsStore.put ∅ "0:." [1]) = ∅ ∧
    path "0:.." = ["..", "_", "0"] ∧
    ¬ Faithful sampleDecode HashOrder.increasing {version | version ≠ ""} := by
  refine ⟨by decide +kernel, by decide +kernel, fun h => ?_⟩
  have hbelow := (h.below (zeroKey ".." (by decide)) (by decide)).2
  exact hbelow (by decide +kernel)

end Tyo3.StoredArtifacts
