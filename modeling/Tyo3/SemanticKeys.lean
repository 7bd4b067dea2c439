import Tyo3.ArtifactFiles
import Tyo3.TracedReads
import Tyo3.Worklists

/-!
# Semantic keys

A semantic key digests the content hash of an entity together with a text that
names everything the entity uses, directly or not, each with its content hash.
The walk that collects these ids ends with exactly what the entity leads to,
itself left out, whatever cycles there are; and the text is read back as long
as no id has a zero character: the last equals sign of an entry stands before
its hash. So the key moves exactly when one of these hashes moves or the ids
themselves change.
-/

namespace Tyo3.SemanticKeys

open FiniteMaps JsonValues DerivedLayers Worklists

/-! ## The walk -/

section Walk

variable (iter : HashOrder String) (g : PinnedGraph) (start : String)

/-- One round of the walk. -/
def closureStep (closure : Finset String) (current : String) : Finset String × List String :=
  let fresh := (iter.order (g.dependencies current)).filter fun id => id ≠ start ∧ id ∉ closure
  (closure ∪ fresh.toFinset, fresh.reverse)

/-- The walk takes the id pushed last. -/
theorem closureLoop_eq (fuel : ℕ) (closure : Finset String) (frontier : List String) :
    closureLoop iter g start fuel closure frontier =
      runStack (closureStep iter g start) fuel closure frontier := by
  induction fuel generalizing closure frontier with
  | zero => rfl
  | succ fuel ih =>
    cases frontier with
    | nil => rfl
    | cons current frontier => exact ih _ _

theorem mem_fresh {closure : Finset String} {current id : String} :
    id ∈ (iter.order (g.dependencies current)).filter (fun id => id ≠ start ∧ id ∉ closure) ↔
      id ∈ g.dependencies current ∧ id ≠ start ∧ id ∉ closure := by
  rw [List.mem_filter, HashOrder.mem_order, decide_eq_true_eq]

theorem marks_closureStep :
    Marks (closureStep iter g start) (fun id => (g.dependencies id : Set String)) start where
  marks closure current id := by
    unfold closureStep
    rw [Finset.mem_union, List.mem_toFinset, mem_fresh, Finset.mem_coe]
    tauto
  pushes closure current id := by
    unfold closureStep
    rw [List.mem_reverse, mem_fresh, Finset.mem_coe]

/-- What an entity uses is part of the graph. -/
theorem mem_keys_of_dependency {current id : String} (h : id ∈ g.dependencies current) :
    id ∈ g.symbols.keys := by
  obtain ⟨edge, hedge, htarget⟩ := Finset.mem_image.mp h
  rw [← htarget]
  exact (g.known edge (Finset.mem_filter.mp hedge).1).2

/-- Every push is paid for by a node that was not collected. -/
theorem bounded_closureStep :
    Bounded (closureStep iter g start) fun closure => (g.symbols.keys \ closure).card where
  pays closure current := by
    unfold closureStep
    generalize hfresh : (iter.order (g.dependencies current)).filter
      (fun id => id ≠ start ∧ id ∉ closure) = fresh
    have hmem : ∀ id ∈ fresh, id ∈ g.symbols.keys ∧ id ∉ closure := by
      intro id hid
      rw [← hfresh] at hid
      obtain ⟨hdep, -, hnot⟩ := (mem_fresh iter g start).mp hid
      exact ⟨mem_keys_of_dependency g hdep, hnot⟩
    have hnodup : fresh.Nodup := by
      rw [← hfresh]
      exact (iter.nodup_order _).filter _
    have hsub : fresh.toFinset ⊆ g.symbols.keys \ closure := by
      intro id hid
      exact Finset.mem_sdiff.mpr (hmem id (List.mem_toFinset.mp hid))
    have hsplit : g.symbols.keys \ (closure ∪ fresh.toFinset) =
        (g.symbols.keys \ closure) \ fresh.toFinset := by
      ext id
      simp only [Finset.mem_sdiff, Finset.mem_union]
      tauto
    have hcard := Finset.card_sdiff_add_card_eq_card hsub
    rw [List.toFinset_card_of_nodup hnodup] at hcard
    simp only [hsplit, List.length_reverse]
    omega

/-- The walk of an entity ends. -/
theorem empties_dependencyClosure :
    Empties (closureStep iter g start) ∅ [start] (dependencyClosure iter g start) := by
  unfold dependencyClosure
  rw [closureLoop_eq]
  refine empties_runStack (bounded_closureStep iter g start) ?_
  rw [Finset.sdiff_empty, List.length_singleton]

/-- What an entity uses, directly or not, itself left out. -/
def InClosure (id other : String) : Prop :=
  Relation.TransGen (fun a b => (a, b) ∈ g.uses) id other ∧ other ≠ id

theorem mem_dependencies_iff {current id : String} :
    id ∈ g.dependencies current ↔ (current, id) ∈ g.uses := by
  unfold PinnedGraph.dependencies
  rw [Finset.mem_image]
  constructor
  · rintro ⟨⟨source, target⟩, hedge, htarget⟩
    obtain ⟨hin, hsource⟩ := Finset.mem_filter.mp hedge
    rw [← hsource, ← htarget]
    exact hin
  · exact fun h => ⟨(current, id), Finset.mem_filter.mpr ⟨h, rfl⟩, rfl⟩

/-- The walk collects exactly what the entity leads to. -/
theorem mem_dependencyClosure (other : String) :
    other ∈ dependencyClosure iter g start ↔ InClosure g start other := by
  have hfinal := (marks_closureStep iter g start).mem_final_iff
    (empties_dependencyClosure iter g start) other
  simp only [Finset.mem_coe, mem_dependencies_iff] at hfinal
  exact hfinal

end Walk

/-! ## The text -/

/-- An id without the character that the text separates entries with. -/
def Unseparated (id : String) : Prop := Char.ofNat 0 ∉ id.toList

instance (id : String) : Decidable (Unseparated id) :=
  inferInstanceAs (Decidable (Char.ofNat 0 ∉ id.toList))

/-- Words put together with a separator and closed with one more. -/
theorem toList_intercalate (words : List String) (hsome : words ≠ []) :
    (String.intercalate "\x00" words).toList ++ [Char.ofNat 0] =
      TokenStreams.joined (Char.ofNat 0) (words.map String.toList) := by
  induction words with
  | nil => exact absurd rfl hsome
  | cons word words ih =>
    cases words with
    | nil =>
      rw [String.intercalate_singleton, List.map_singleton, TokenStreams.joined_cons]
      rfl
    | cons next words =>
      rw [String.intercalate_cons_cons, List.map_cons, TokenStreams.joined_cons,
        ← ih (List.cons_ne_nil _ _)]
      simp only [String.toList_append, List.append_assoc]
      rfl

/-- Words that are not empty and have no separator are read back. -/
theorem eq_of_intercalate {words words' : List String}
    (h : ∀ word ∈ words, word ≠ "" ∧ Char.ofNat 0 ∉ word.toList)
    (h' : ∀ word ∈ words', word ≠ "" ∧ Char.ofNat 0 ∉ word.toList)
    (htext : String.intercalate "\x00" words = String.intercalate "\x00" words') :
    words = words' := by
  have hempty : ∀ {some_ : List String}, (∀ word ∈ some_, word ≠ "" ∧ Char.ofNat 0 ∉ word.toList) →
      some_ ≠ [] → String.intercalate "\x00" some_ ≠ "" := by
    intro some_ hall hne htext
    cases some_ with
    | nil => exact hne rfl
    | cons word rest =>
      have hjoined := toList_intercalate (word :: rest) hne
      rw [htext, List.map_cons, TokenStreams.joined_cons] at hjoined
      have hword : word.toList ≠ [] := fun hnil =>
        (hall word List.mem_cons_self).1 (String.toList_injective hnil)
      cases hlist : word.toList with
      | nil => exact hword hlist
      | cons c cs =>
        rw [hlist] at hjoined
        have hlength := congrArg List.length hjoined
        simp at hlength
  by_cases hnil : words = []
  · by_cases hnil' : words' = []
    · rw [hnil, hnil']
    · rw [hnil] at htext
      exact absurd htext.symm (hempty h' hnil')
  · by_cases hnil' : words' = []
    · rw [hnil'] at htext
      exact absurd htext (hempty h hnil)
    · have hjoined := toList_intercalate words hnil
      rw [htext, toList_intercalate words' hnil'] at hjoined
      have hwords := TokenStreams.joined_injective ?_ ?_ hjoined
      · exact (List.map_injective_iff.mpr (fun _ _ => String.toList_injective) hwords).symm
      · intro word hword
        obtain ⟨text, htext, heq⟩ := List.mem_map.mp hword
        rw [← heq]
        exact (h' text htext).2
      · intro word hword
        obtain ⟨text, htext, heq⟩ := List.mem_map.mp hword
        rw [← heq]
        exact (h text htext).2

/-- The hash of an id under a profile. -/
def profileHash (g : PinnedGraph) (profile id : String) : Option String :=
  (g.symbol id).bind fun node => node.contentHashes.lookup profile

/-- A missing hash is told from every other one. -/
theorem hashOf_eq_iff {g g' : PinnedGraph} {profile id : String} :
    g.hashOf profile id = g'.hashOf profile id ↔
      profileHash g profile id = profileHash g' profile id := by
  have hsome : ∀ (g : PinnedGraph) hash, profileHash g profile id = some hash → hash ≠ "" := by
    intro g hash hhash
    obtain ⟨node, -, hlookup⟩ := Option.bind_eq_some_iff.mp hhash
    exact (node.decimal profile hash hlookup).1
  have hgetD : ∀ g : PinnedGraph, g.hashOf profile id = (profileHash g profile id).getD "" :=
    fun _ => rfl
  rw [hgetD, hgetD]
  cases hhash : profileHash g profile id with
  | none =>
    cases hhash' : profileHash g' profile id with
    | none => simp
    | some hash' => simpa using (hsome g' hash' hhash').symm
  | some hash =>
    cases hhash' : profileHash g' profile id with
    | none => simpa using hsome g hash hhash
    | some hash' => simp

/-- Two sets of ids have the same members with the same hashes. -/
def SameHashes (g g' : PinnedGraph) (profile : String) (ids ids' : Finset String) : Prop :=
  ids = ids' ∧ ∀ id ∈ ids, profileHash g profile id = profileHash g' profile id

/-- The last equals sign of an entry stands before its hash. -/
theorem entry_inj {g g' : PinnedGraph} {profile id id' : String}
    (h : id ++ "=" ++ g.hashOf profile id = id' ++ "=" ++ g'.hashOf profile id') :
    id = id' ∧ g.hashOf profile id = g'.hashOf profile id' := by
  have hsign : ∀ g : PinnedGraph, ∀ id, '=' ∉ (g.hashOf profile id).toList.reverse := by
    intro g id hmem
    have hdigit := TracedReads.isDigit_hashOf g profile id _ (List.mem_reverse.mp hmem)
    exact absurd hdigit (by decide)
  have hlist := congrArg (fun text => text.toList.reverse) h
  simp only [String.toList_append, List.reverse_append] at hlist
  obtain ⟨hhash, hname⟩ := TokenStreams.eq_of_separated (hsign g id) (hsign g' id') hlist
  exact ⟨String.toList_injective (List.reverse_injective hname),
    String.toList_injective (List.reverse_injective hhash)⟩

/-- The text of some ids determines the ids and their hashes. -/
theorem pairsText_eq_iff {g g' : PinnedGraph} {profile : String} {ids ids' : Finset String}
    (hids : ∀ id ∈ ids, Unseparated id) (hids' : ∀ id ∈ ids', Unseparated id) :
    pairsText g profile ids = pairsText g' profile ids' ↔ SameHashes g g' profile ids ids' := by
  have hword : ∀ (g : PinnedGraph) (ids : Finset String), (∀ id ∈ ids, Unseparated id) →
      ∀ word ∈ (HashOrder.increasing.order ids).map fun id => id ++ "=" ++ g.hashOf profile id,
        word ≠ "" ∧ Char.ofNat 0 ∉ word.toList := by
    intro g ids hids word hword
    obtain ⟨id, hid, heq⟩ := List.mem_map.mp hword
    rw [← heq]
    refine ⟨fun hempty => ?_, fun hmem => ?_⟩
    · have hlength := congrArg String.length hempty
      simp at hlength
    · simp only [String.toList_append, List.mem_append] at hmem
      rcases hmem with (hname | hsign) | hhash
      · exact hids id ((HashOrder.mem_order _ _ _).mp hid) hname
      · exact absurd hsign (by decide)
      · exact TracedReads.separator_notMem_hashOf g profile id hhash
  constructor
  · intro htext
    have hwords := eq_of_intercalate (hword g ids hids) (hword g' ids' hids') htext
    have horder : ∀ xs ys : List String, xs.map (fun id => id ++ "=" ++ g.hashOf profile id) =
          ys.map (fun id => id ++ "=" ++ g'.hashOf profile id) →
        xs = ys ∧ ∀ id ∈ xs, g.hashOf profile id = g'.hashOf profile id := by
      intro xs
      induction xs with
      | nil =>
        intro ys heq
        cases ys with
        | nil => exact ⟨rfl, fun id hid => absurd hid List.not_mem_nil⟩
        | cons y ys => cases heq
      | cons x xs ih =>
        intro ys heq
        cases ys with
        | nil => cases heq
        | cons y ys =>
          obtain ⟨hfirst, hrest⟩ := List.cons.inj heq
          obtain ⟨hxy, hhash⟩ := entry_inj hfirst
          obtain ⟨hsame, hhashes⟩ := ih ys hrest
          refine ⟨by rw [hxy, hsame], fun id hid => ?_⟩
          rcases List.mem_cons.mp hid with heq | hin
          · rw [heq, hhash, hxy]
          · exact hhashes id hin
    obtain ⟨hlist, hhashes⟩ := horder _ _ hwords
    refine ⟨?_, fun id hid => hashOf_eq_iff.mp (hhashes id ((HashOrder.mem_order _ _ _).mpr hid))⟩
    ext id
    rw [← HashOrder.increasing.mem_order ids id, hlist, HashOrder.mem_order]
  · rintro ⟨hsame, hhashes⟩
    unfold pairsText
    rw [← hsame]
    congr 1
    refine List.map_congr_left fun id hid => ?_
    rw [hashOf_eq_iff.mpr (hhashes id ((HashOrder.mem_order _ _ _).mp hid))]

/-! ## Keys -/

/-- What the key of an entity covers besides its own hash is the same in two
graphs. -/
def SameSurroundings (layer : DerivedLayer) (g g' : PinnedGraph) (id : String) : Prop :=
  match layer.keyLocality with
  | .semantic => (∀ other, InClosure g id other ↔ InClosure g' id other) ∧
      ∀ other, InClosure g id other →
        profileHash g layer.hashProfile other = profileHash g' layer.hashProfile other
  | .reverseSemantic => SameHashes g g' layer.hashProfile (g.dependents id) (g'.dependents id)
  | .local_ | .traced => True

/-- The closure of an entity is part of the graph. -/
theorem unseparated_of_closure {iter : HashOrder String} {g : PinnedGraph}
    (hids : ∀ id ∈ g.symbols.keys, Unseparated id) {id : String} :
    ∀ other ∈ dependencyClosure iter g id, Unseparated other := by
  intro other hother
  obtain ⟨hpath, -⟩ := (mem_dependencyClosure iter g id other).mp hother
  obtain ⟨source, -, hedge⟩ := Relation.TransGen.tail'_iff.mp hpath
  exact hids other (g.known (source, other) hedge).2

theorem unseparated_of_dependents {g : PinnedGraph}
    (hids : ∀ id ∈ g.symbols.keys, Unseparated id) {id : String} :
    ∀ other ∈ g.dependents id, Unseparated other := by
  intro other hother
  obtain ⟨edge, hedge, hsource⟩ := Finset.mem_image.mp hother
  rw [← hsource]
  exact hids edge.1 (g.known edge (Finset.mem_filter.mp hedge).1).1

section Keys

variable {hashBytes : Bytes → String} (hinj : Function.Injective hashBytes)
include hinj

/-- The digest of a content hash and a fingerprint determines both. -/
theorem folded_eq_iff {hash hash' : String} (hhash : ∀ c ∈ hash.toList, c.isDigit = true)
    (hhash' : ∀ c ∈ hash'.toList, c.isDigit = true) (text text' : String) :
    hashBytes (utf8 (hash ++ "\x00" ++ hashBytes (utf8 text))) =
        hashBytes (utf8 (hash' ++ "\x00" ++ hashBytes (utf8 text'))) ↔
      hash = hash' ∧ text = text' := by
  have hplain : ∀ {hash : String}, (∀ c ∈ hash.toList, c.isDigit = true) →
      Char.ofNat 0 ∉ hash.toList :=
    fun hdigits hmem => absurd (hdigits _ hmem) (by decide)
  constructor
  · intro heq
    have htext := ArtifactFiles.utf8_injective (hinj heq)
    have hlist := congrArg String.toList htext
    simp only [String.toList_append, List.append_assoc] at hlist
    obtain ⟨hsame, hprint⟩ := TokenStreams.eq_of_separated (hplain hhash) (hplain hhash') hlist
    refine ⟨String.toList_injective hsame, ?_⟩
    exact ArtifactFiles.utf8_injective (hinj (String.toList_injective hprint))
  · rintro ⟨hsame, htext⟩
    rw [hsame, htext]

/-- The key of an entity of the code determines its hash and what else it
covers. -/
theorem codeHash_eq_iff {iter iter' : HashOrder String} {snap snap' : Snapshot}
    (hids : ∀ id ∈ snap.graph.symbols.keys, Unseparated id)
    (hids' : ∀ id ∈ snap'.graph.symbols.keys, Unseparated id) (layer : DerivedLayer)
    {id hash hash' : String} (hdigits : ∀ c ∈ hash.toList, c.isDigit = true)
    (hdigits' : ∀ c ∈ hash'.toList, c.isDigit = true) :
    codeHash hashBytes iter snap layer id hash = codeHash hashBytes iter' snap' layer id hash' ↔
      hash = hash' ∧ SameSurroundings layer snap.graph snap'.graph id := by
  unfold codeHash SameSurroundings
  cases hlocality : layer.keyLocality with
  | semantic =>
    dsimp only
    rw [folded_eq_iff hinj hdigits hdigits', pairsText_eq_iff (unseparated_of_closure hids)
      (unseparated_of_closure hids')]
    unfold SameHashes
    rw [Finset.ext_iff]
    simp only [mem_dependencyClosure]
  | reverseSemantic =>
    dsimp only
    rw [folded_eq_iff hinj hdigits hdigits', pairsText_eq_iff (unseparated_of_dependents hids)
      (unseparated_of_dependents hids')]
  | local_ => simp only [and_true]
  | traced => simp only [and_true]

omit hinj in
/-- What is resolved for an entity of the code. -/
theorem resolveInput_code_ok {iter : HashOrder String} {decode : Bytes → String}
    {dag : DerivationDAG} {caches : Artifacts} {snap : Snapshot} {layer : DerivedLayer}
    (hcode : layer.isCodeDerived = true) {id hash : String} {input : GenInput}
    (h : resolveInput hashBytes iter decode dag caches snap layer id = .ok (input, hash)) :
    ∃ content, profileHash snap.graph layer.hashProfile id = some content ∧
      (∀ c ∈ content.toList, c.isDigit = true) ∧
      hash = codeHash hashBytes iter snap layer id content := by
  rcases resolveInput_ok_iff.mp h with
    ⟨-, node, content, hnode, hcontent, -, hkey⟩ | ⟨hcode', -⟩
  · refine ⟨content, ?_, (node.decimal _ _ hcontent).2, hkey⟩
    unfold profileHash
    rw [hnode]
    exact hcontent
  · rw [hcode] at hcode'
    cases hcode'

/-- The semantic key of an entity is the same at two snapshots exactly when its
own hash and the hashes of everything else it uses, directly or not, are; and
the walk that collects these ends. -/
theorem semantic_key_iff {iter iter' : HashOrder String} {decode : Bytes → String}
    {dag : DerivationDAG} {caches caches' : Artifacts} {snap snap' : Snapshot}
    {layer : DerivedLayer} (hcode : layer.isCodeDerived = true)
    (hsemantic : layer.keyLocality = .semantic)
    (hids : ∀ id ∈ snap.graph.symbols.keys, Unseparated id)
    (hids' : ∀ id ∈ snap'.graph.symbols.keys, Unseparated id) {id : String}
    {input input' : GenInput} {hash hash' : String}
    (h : resolveInput hashBytes iter decode dag caches snap layer id = .ok (input, hash))
    (h' : resolveInput hashBytes iter' decode dag caches' snap' layer id = .ok (input', hash')) :
    (hash = hash' ↔
      profileHash snap.graph layer.hashProfile id = profileHash snap'.graph layer.hashProfile id ∧
      (∀ other, InClosure snap.graph id other ↔ InClosure snap'.graph id other) ∧
      ∀ other, InClosure snap.graph id other →
        profileHash snap.graph layer.hashProfile other =
          profileHash snap'.graph layer.hashProfile other) ∧
    Empties (closureStep iter snap.graph id) ∅ [id] (dependencyClosure iter snap.graph id) ∧
    Empties (closureStep iter' snap'.graph id) ∅ [id] (dependencyClosure iter' snap'.graph id) := by
  refine ⟨?_, empties_dependencyClosure iter snap.graph id,
    empties_dependencyClosure iter' snap'.graph id⟩
  obtain ⟨content, hcontent, hdigits, hkey⟩ := resolveInput_code_ok hcode h
  obtain ⟨content', hcontent', hdigits', hkey'⟩ := resolveInput_code_ok hcode h'
  rw [hcontent, hcontent', Option.some.injEq, hkey, hkey',
    codeHash_eq_iff hinj hids hids' layer hdigits hdigits']
  unfold SameSurroundings
  rw [hsemantic]

end Keys

/-! ## Two functions that use each other -/

/-- The bytes as characters, a digest without collisions. -/
def bytesText (bytes : Bytes) : String := String.ofList (bytes.map fun b : UInt8 => Char.ofUInt8 b)

theorem bytesText_injective : Function.Injective bytesText := by
  intro first second h
  have hlist := congrArg String.toList h
  unfold bytesText at hlist
  rw [String.toList_ofList, String.toList_ofList] at hlist
  refine List.map_injective_iff.mpr (fun a b hab => ?_) hlist
  have hbyte : ∀ byte : UInt8, (Char.ofUInt8 byte).val.toUInt8 = byte :=
    fun byte => UInt8.toUInt8_toUInt32 byte
  have hval := congrArg (fun c : Char => c.val.toUInt8) hab
  rw [hbyte, hbyte] at hval
  exact hval

/-- A semantic layer of code. -/
def meaningLayer : DerivedLayer where
  name := "meaning"
  dependsOn := ["code"]
  generatorVersion := "1"
  hashProfile := "structure"
  serving := "block"
  recompute := "lazy"
  keyLocality := .semantic
  entityKinds := none

/-- Two functions that use each other, the second with a given hash. -/
def mutualSnapshot (hash : String) (hdecimal : hash ≠ "" ∧ hash.toList.all Char.isDigit = true) :
    Snapshot where
  graph := { symbols := ((∅ : FMap String SymbolNode).insert "a"
               (TracedReads.functionNode "1" TracedReads.decimal_one)).insert "b"
               (TracedReads.functionNode hash hdecimal)
             uses := {("a", "b"), ("b", "a")}
             known := by simp [Finmap.mem_keys, Finmap.mem_insert] }
  entitySource := fun _ => ""

/-- What is resolved for the first one. -/
def meaningOf (snap : Snapshot) : Except ResolveError (GenInput × String) :=
  resolveInput bytesText HashOrder.increasing (fun _ => "") ⟨[], ∅, []⟩ (fun _ _ => none) snap
    meaningLayer "a"

/-- The key of one function moves with the other one. -/
theorem semantic_key_mutual :
    ∃ input key input' key', meaningOf (mutualSnapshot "2" (by decide)) = .ok (input, key) ∧
      meaningOf (mutualSnapshot "3" (by decide)) = .ok (input', key') ∧ key ≠ key' := by
  obtain ⟨input, key, hkey⟩ : ∃ input key,
      meaningOf (mutualSnapshot "2" (by decide)) = .ok (input, key) := ⟨_, _, rfl⟩
  obtain ⟨input', key', hkey'⟩ : ∃ input' key',
      meaningOf (mutualSnapshot "3" (by decide)) = .ok (input', key') := ⟨_, _, rfl⟩
  have hids : ∀ id ∈ (mutualSnapshot "2" (by decide)).graph.symbols.keys, Unseparated id := by
    decide +kernel
  have hids' : ∀ id ∈ (mutualSnapshot "3" (by decide)).graph.symbols.keys, Unseparated id := by
    decide +kernel
  have hused : InClosure (mutualSnapshot "2" (by decide)).graph "a" "b" :=
    ⟨Relation.TransGen.single (by decide +kernel), by decide⟩
  refine ⟨input, key, input', key', hkey, hkey', fun hsame => ?_⟩
  have hmoved := ((semantic_key_iff bytesText_injective rfl rfl hids hids' hkey hkey').1.mp
    hsame).2.2 "b" hused
  exact absurd hmoved (by decide +kernel)

end Tyo3.SemanticKeys
