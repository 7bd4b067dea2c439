import Tyo3.DerivedLayers
import Tyo3.PercentCoding

/-!
# Artifacts on disk

An artifact lives in a file whose path is its key: a directory for the version
of the generator, a shard, and the input hash. Collection lists the keys from
the directories and removes the files of the versions it was given keys of.
Paths drop empty parts and single dots, so the versions that are written with
dots alone have no directory of their own and are never listed.
-/

namespace Tyo3.ArtifactFiles

open FiniteMaps JsonValues PercentCoding DerivedLayers

/-! ## Paths -/

/-- Split a key at its first colon. -/
def partitionKey (key : String) : String × String :=
  (String.ofList (key.toList.takeWhile (· ≠ ':')),
    String.ofList ((key.toList.dropWhile (· ≠ ':')).drop 1))

/-- A version as the name of a directory. -/
def quote (version : String) : String := String.ofList (quoteBytes (utf8 version))

/-- The version of a directory name. -/
def unquote (decode : Bytes → String) (name : String) : String := decode (unquoteBytes name.toList)

/-- The shard of an input hash. -/
def shard (inputHash : String) : String :=
  if 2 ≤ inputHash.length then String.ofList (inputHash.toList.take 2) else "_"

/-- The parts of the path of a key, below the directory of the store. -/
def path (key : String) : List String :=
  [quote (partitionKey key).2, shard (partitionKey key).1, (partitionKey key).1].filter
    fun part => part ≠ "" ∧ part ≠ "."

/-! ## The store -/

/-- The files of a store by their paths. -/
abbrev FsStore := FMap (List String) Bytes

namespace FsStore

/-- The artifact of a key. -/
def get (store : FsStore) (key : String) : Option Bytes := store.lookup (path key)

/-- Store an artifact. -/
def put (store : FsStore) (key : String) (artifact : Bytes) : FsStore :=
  store.insert (path key) artifact

/-- Remove an artifact. -/
def delete (store : FsStore) (key : String) : FsStore := store.erase (path key)

/-- Whether a file is one that is being written. -/
def isTemporary (name : String) : Bool :=
  4 < name.length && ".tmp".toList.isSuffixOf name.toList

/-- The key of a listed file. A listing has no entry for the directory
above. -/
def listedKey (decode : Bytes → String) : List String → Option String
  | [version, _, name] =>
    if version = ".." || isTemporary name then none else some (name ++ ":" ++ unquote decode version)
  | _ => none

/-- The keys of a store, from its directories. -/
def iterKeys (decode : Bytes → String) (store : FsStore) : Finset String :=
  store.keys.biUnion fun p => (listedKey decode p).toFinset

/-- The versions that occur in keys. -/
def versions (keys : Finset String) : Finset String :=
  (keys.filter fun key => ':' ∈ key.toList).image fun key => (partitionKey key).2

/-- Remove the unreachable artifacts of the versions that occur in the
reachable keys. -/
def prune (decode : Bytes → String) (iter : HashOrder String) (store : FsStore)
    (reachable : Finset String) : FsStore :=
  if reachable = ∅ then store
  else if versions reachable = ∅ then store
  else (iter.order (iterKeys decode store)).foldl (fun store key =>
    if (partitionKey key).2 ∉ versions reachable ∨ key ∈ reachable then store
    else store.erase (path key)) store

end FsStore

/-! ## Names -/

/-- A name of letters and digits, as hashes are. -/
def Plain (name : String) : Prop := name ≠ "" ∧ ∀ c ∈ name.toList, c.isAlphanum = true

/-- A version with a directory that is listed. -/
def Listed (version : String) : Prop := version ≠ "" ∧ version ≠ "." ∧ version ≠ ".."

instance (version : String) : Decidable (Listed version) :=
  inferInstanceAs (Decidable (version ≠ "" ∧ version ≠ "." ∧ version ≠ ".."))

theorem utf8_injective : Function.Injective utf8 := by
  intro a b h
  have hdata : a.toUTF8.data = b.toUTF8.data := Array.toList_inj.mp h
  exact String.toByteArray_inj.mp (congrArg ByteArray.mk hdata)

theorem quote_injective : Function.Injective quote := by
  intro a b h
  have hchars : quoteBytes (utf8 a) = quoteBytes (utf8 b) := String.ofList_injective h
  have hbytes := congrArg unquoteBytes hchars
  rw [unquoteBytes_quoteBytes, unquoteBytes_quoteBytes] at hbytes
  exact utf8_injective hbytes

theorem unquote_quote {decode : Bytes → String} (hdecode : ∀ text, decode (utf8 text) = text)
    (version : String) : unquote decode (quote version) = version := by
  rw [unquote, quote, String.toList_ofList, unquoteBytes_quoteBytes, hdecode]

/-- Read bytes that are the bytes of a text. -/
def sampleDecode (bytes : Bytes) : String := (String.fromUTF8? ⟨bytes.toArray⟩).getD ""

theorem sampleDecode_utf8 (text : String) : sampleDecode (utf8 text) = text := by
  have hbytes : (⟨(utf8 text).toArray⟩ : ByteArray) = text.toUTF8 := rfl
  unfold sampleDecode
  rw [hbytes]
  unfold String.fromUTF8?
  rw [dif_pos (show text.toUTF8.IsValidUTF8 from text.isValidUTF8)]
  rfl

/-- A plain name has no colon, and the rest of a key after it is the
version. -/
theorem partitionKey_of_plain {hash : String} (hplain : Plain hash) (version : String) :
    partitionKey (hash ++ ":" ++ version) = (hash, version) := by
  have hcolon : ∀ c ∈ hash.toList, decide (c ≠ ':') = true := by
    intro c hc
    have halnum := hplain.2 c hc
    rw [decide_eq_true_iff]
    intro heq
    rw [heq] at halnum
    exact absurd halnum (by decide)
  have hchars : (hash ++ ":" ++ version).toList = hash.toList ++ ':' :: version.toList := by
    rw [String.toList_append, String.toList_append, List.append_assoc]
    rfl
  unfold partitionKey
  rw [hchars, List.takeWhile_append_of_pos hcolon, List.dropWhile_append_of_pos hcolon]
  simp

/-- A plain name is none of the parts that paths drop. -/
theorem kept_of_plain {hash : String} (hplain : Plain hash) : hash ≠ "" ∧ hash ≠ "." := by
  refine ⟨hplain.1, fun hdot => ?_⟩
  have halnum := hplain.2 '.' (by rw [hdot]; decide)
  exact absurd halnum (by decide)

/-- No shard is one of the parts that paths drop. -/
theorem kept_shard (hash : String) : shard hash ≠ "" ∧ shard hash ≠ "." := by
  unfold shard
  split_ifs with hlong
  · have htwo : (hash.toList.take 2).length = 2 := by
      rw [List.length_take, String.length_toList]
      omega
    refine ⟨fun hempty => ?_, fun hdot => ?_⟩
    · rw [String.ofList_injective hempty] at htwo
      exact absurd htwo (by decide)
    · have hone : hash.toList.take 2 = ['.'] := String.ofList_injective hdot
      rw [hone] at htwo
      exact absurd htwo (by decide)
  · decide

/-- The path of a key with a plain hash. -/
theorem path_of_plain {hash : String} (hplain : Plain hash) (version : String) :
    path (hash ++ ":" ++ version) =
      if version = "" ∨ version = "." then [shard hash, hash]
      else [quote version, shard hash, hash] := by
  have hempty : quote version = "" ↔ version = "" := quote_injective.eq_iff' (by decide)
  have hdot : quote version = "." ↔ version = "." := quote_injective.eq_iff' (by decide)
  have hhash := kept_of_plain hplain
  have hshard := kept_shard hash
  unfold path
  rw [partitionKey_of_plain hplain]
  by_cases hdropped : version = "" ∨ version = "."
  · rw [if_pos hdropped]
    have hquote : ¬ (quote version ≠ "" ∧ quote version ≠ ".") := by
      rw [ne_eq, ne_eq, hempty, hdot, ← not_or]
      exact not_not_intro hdropped
    simp [hquote, hshard, hhash]
  · rw [if_neg hdropped]
    have hquote : quote version ≠ "" ∧ quote version ≠ "." := by
      rw [ne_eq, ne_eq, hempty, hdot, ← not_or]
      exact hdropped
    simp [hquote, hshard, hhash]

/-- Keys with plain hashes and one version have different paths. -/
theorem hash_eq_of_path_eq {hash hash' : String} (hplain : Plain hash) (hplain' : Plain hash')
    {version version' : String}
    (h : path (hash ++ ":" ++ version) = path (hash' ++ ":" ++ version')) : hash = hash' := by
  have hlast := congrArg List.getLast? h
  rw [path_of_plain hplain, path_of_plain hplain'] at hlast
  split_ifs at hlast <;> simpa using hlast

/-- A listed version has paths of its own. -/
theorem version_eq_of_path_eq {hash hash' : String} (hplain : Plain hash) (hplain' : Plain hash')
    {version version' : String} (hlisted : Listed version)
    (h : path (hash ++ ":" ++ version) = path (hash' ++ ":" ++ version')) :
    version = version' := by
  have hkept : ¬ (version = "" ∨ version = ".") := not_or.mpr ⟨hlisted.1, hlisted.2.1⟩
  rw [path_of_plain hplain, path_of_plain hplain', if_neg hkept] at h
  split_ifs at h
  · have hlength := congrArg List.length h
    exact absurd hlength (by simp)
  · exact quote_injective (List.cons.inj h).1

/-! ## What collection removes -/

/-- Every file was stored under a key with a plain hash. -/
def Made (store : FsStore) : Prop :=
  ∀ p ∈ store.keys, ∃ hash version, Plain hash ∧ p = path (hash ++ ":" ++ version)

theorem made_put {store : FsStore} (hmade : Made store) {hash : String} (hplain : Plain hash)
    (version : String) (artifact : Bytes) :
    Made (store.put (hash ++ ":" ++ version) artifact) := by
  intro p hp
  obtain ⟨found, hfound⟩ := (mem_keys_iff _ _).mp hp
  unfold FsStore.put at hfound
  rw [lookup_insert_ite] at hfound
  split_ifs at hfound with hsame
  · exact ⟨hash, version, hplain, hsame⟩
  · exact hmade p ((mem_keys_iff _ _).mpr ⟨found, hfound⟩)

/-- Every file was stored under a key with a plain hash, or is not listed. -/
def Clean (decode : Bytes → String) (store : FsStore) : Prop :=
  ∀ p ∈ store.keys, (∃ hash version, Plain hash ∧ p = path (hash ++ ":" ++ version)) ∨
    FsStore.listedKey decode p = none

theorem Made.clean {store : FsStore} (hmade : Made store) (decode : Bytes → String) :
    Clean decode store :=
  fun p hp => .inl (hmade p hp)

section Pruning

variable {decode : Bytes → String} {iter : HashOrder String} {store : FsStore}
  {reachable : Finset String} {hash version : String}

/-- The key that is listed for the file of a key. -/
theorem listedKey_path (hdecode : ∀ text, decode (utf8 text) = text) (hplain : Plain hash) :
    FsStore.listedKey decode (path (hash ++ ":" ++ version)) =
      if Listed version then some (hash ++ ":" ++ version) else none := by
  have hparent : quote version = ".." ↔ version = ".." := quote_injective.eq_iff' (by decide)
  have htemporary : FsStore.isTemporary hash = false := by
    unfold FsStore.isTemporary
    by_contra hends
    rw [Bool.not_eq_false, Bool.and_eq_true, List.isSuffixOf_iff_suffix] at hends
    have hdot : '.' ∈ hash.toList := hends.2.subset (by decide)
    exact absurd (hplain.2 '.' hdot) (by decide)
  rw [path_of_plain hplain]
  by_cases hdropped : version = "" ∨ version = "."
  · have hnot : ¬ Listed version := fun hlisted => hdropped.elim hlisted.1 hlisted.2.1
    rw [if_pos hdropped, if_neg hnot]
    rfl
  · rw [if_neg hdropped, FsStore.listedKey, unquote_quote hdecode]
    by_cases hup : version = ".."
    · have hnot : ¬ Listed version := fun hlisted => hlisted.2.2 hup
      rw [if_neg hnot]
      simp [hparent.mpr hup]
    · have hlisted : Listed version := ⟨(not_or.mp hdropped).1, (not_or.mp hdropped).2, hup⟩
      have hquote : quote version ≠ ".." := fun heq => hup (hparent.mp heq)
      rw [if_pos hlisted]
      simp [hquote, htemporary]

/-- A listed key is that of a file under a plain hash and a listed version. -/
theorem mem_iterKeys (hdecode : ∀ text, decode (utf8 text) = text) (hclean : Clean decode store)
    {key : String} : key ∈ store.iterKeys decode ↔
      ∃ hash version, Plain hash ∧ Listed version ∧ key = hash ++ ":" ++ version ∧
        (store.get key).isSome := by
  rw [FsStore.iterKeys, Finset.mem_biUnion]
  constructor
  · intro h
    obtain ⟨p, hp, hkey⟩ := h
    rcases hclean p hp with ⟨hash, version, hplain, hpath⟩ | hhidden
    · rw [hpath] at hp
      rw [hpath, listedKey_path hdecode hplain] at hkey
      split_ifs at hkey with hlisted
      · have heq : key = hash ++ ":" ++ version := by simpa using hkey
        refine ⟨hash, version, hplain, hlisted, heq, ?_⟩
        obtain ⟨artifact, hartifact⟩ := (mem_keys_iff _ _).mp hp
        rw [heq, FsStore.get, hartifact]
        rfl
      · simp at hkey
    · rw [hhidden] at hkey
      simp at hkey
  · intro h
    obtain ⟨hash, version, hplain, hlisted, rfl, hsome⟩ := h
    obtain ⟨artifact, hartifact⟩ := Option.isSome_iff_exists.mp hsome
    refine ⟨path (hash ++ ":" ++ version), (mem_keys_iff _ _).mpr ⟨artifact, hartifact⟩, ?_⟩
    rw [listedKey_path hdecode hplain, if_pos hlisted]
    simp

/-- What a loop that removes all keys but some leaves. -/
theorem lookup_foldl_erase_path (spared : String → Prop) [DecidablePred spared]
    (keys : List String) (store : FsStore) (p : List String) :
    (keys.foldl (fun store key => if spared key then store else store.erase (path key))
      store).lookup p =
      if ∃ key ∈ keys, ¬ spared key ∧ p = path key then none else store.lookup p := by
  induction keys generalizing store with
  | nil => simp
  | cons key keys ih =>
    rw [List.foldl_cons, ih]
    by_cases hspared : spared key
    · simp [hspared]
    · rw [if_neg hspared, lookup_erase_ite]
      by_cases hsame : p = path key
      · simp [hspared, hsame]
      · simp [hspared, hsame]

/-- A key is collected when it is not reachable, and its version is listed and
that of a reachable key. -/
def Collected (reachable : Finset String) (hash version : String) : Prop :=
  hash ++ ":" ++ version ∉ reachable ∧ version ∈ FsStore.versions reachable ∧ Listed version

instance (reachable : Finset String) (hash version : String) :
    Decidable (Collected reachable hash version) :=
  inferInstanceAs (Decidable (_ ∧ _ ∧ _))

/-- Collection removes what is collected and nothing else. -/
theorem get_prune (hdecode : ∀ text, decode (utf8 text) = text) (hclean : Clean decode store)
    (hplain : Plain hash) :
    (store.prune decode iter reachable).get (hash ++ ":" ++ version) =
      if Collected reachable hash version then none else store.get (hash ++ ":" ++ version) := by
  by_cases hversions : FsStore.versions reachable = ∅
  · have hnot : ¬ Collected reachable hash version := by
      intro hcollected
      rw [Collected, hversions] at hcollected
      exact absurd hcollected.2.1 (Finset.notMem_empty _)
    rw [if_neg hnot]
    unfold FsStore.prune
    rw [if_pos hversions, ite_self]
  · have hsome : reachable ≠ ∅ := by
      intro hempty
      rw [hempty] at hversions
      exact hversions rfl
    unfold FsStore.prune FsStore.get
    rw [if_neg hsome, if_neg hversions, lookup_foldl_erase_path]
    by_cases hcollected : Collected reachable hash version
    · rw [if_pos hcollected]
      split_ifs with hdropped
      · rfl
      · by_contra hfile
        refine hdropped ⟨hash ++ ":" ++ version, ?_, ?_, rfl⟩
        · rw [HashOrder.mem_order, mem_iterKeys hdecode hclean]
          exact ⟨hash, version, hplain, hcollected.2.2, rfl, Option.isSome_iff_ne_none.mpr hfile⟩
        · rw [partitionKey_of_plain hplain, not_or, not_not]
          exact ⟨hcollected.2.1, hcollected.1⟩
    · rw [if_neg hcollected, if_neg]
      intro hdropped
      obtain ⟨key, hkey, hspared, hpath⟩ := hdropped
      rw [HashOrder.mem_order, mem_iterKeys hdecode hclean] at hkey
      obtain ⟨hash', version', hplain', hlisted, rfl, -⟩ := hkey
      have hhash := hash_eq_of_path_eq hplain' hplain hpath.symm
      have hversion := version_eq_of_path_eq hplain' hplain hlisted hpath.symm
      subst hhash hversion
      rw [partitionKey_of_plain hplain, not_or, not_not] at hspared
      exact hcollected ⟨hspared.2, hspared.1, hlisted⟩

/-- A file that is there after a collection was there before it. -/
theorem lookup_of_prune {p : List String} {artifact : Bytes}
    (h : (store.prune decode iter reachable).lookup p = some artifact) :
    store.lookup p = some artifact := by
  unfold FsStore.prune at h
  split_ifs at h
  · exact h
  · exact h
  · rw [lookup_foldl_erase_path] at h
    split_ifs at h
    exact h

/-- So is an artifact. -/
theorem get_of_get_prune {key : String} {artifact : Bytes}
    (h : (store.prune decode iter reachable).get key = some artifact) :
    store.get key = some artifact := lookup_of_prune h

theorem made_prune (hmade : Made store) : Made (store.prune decode iter reachable) := by
  intro p hp
  obtain ⟨artifact, hartifact⟩ := (mem_keys_iff _ _).mp hp
  exact hmade p ((mem_keys_iff _ _).mpr ⟨artifact, lookup_of_prune hartifact⟩)

end Pruning

end Tyo3.ArtifactFiles
