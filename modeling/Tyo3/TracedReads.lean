import Tyo3.TokenStreams
import Tyo3.TracedLayers

/-!
# Freshness and separation of traced reads

A read that finds the recorded ids unchanged serves the cached artifact as
fresh. This is right as long as a changed answer shows in the hash of some id
that was recorded; an answer that gained a member not recorded before does not
show. A key names what was read and not the entity it was read for, so two
productions are kept apart only by what they read.
-/

namespace Tyo3.TracedReads

open FiniteMaps JsonValues DerivedLayers QueryPrograms Runs TracedLayers

/-! ## The text of a read-set -/

/-- The hash of an id has digits only. -/
theorem isDigit_hashOf (g : PinnedGraph) (profile id : String) :
    ∀ c ∈ (g.hashOf profile id).toList, c.isDigit = true := by
  unfold PinnedGraph.hashOf
  cases hnode : g.symbol id with
  | none => simp
  | some node =>
    rw [Option.bind_some]
    cases hhash : node.contentHashes.lookup profile with
    | none => simp
    | some hash => exact (node.decimal profile hash hhash).2

/-- The hash of an id has no zero character. -/
theorem separator_notMem_hashOf (g : PinnedGraph) (profile id : String) :
    Char.ofNat 0 ∉ (g.hashOf profile id).toList :=
  fun hmem => absurd (isDigit_hashOf g profile id _ hmem) (by decide)

/-- The text of some ids with their hashes determines the hashes. -/
theorem eq_of_intercalate_eq {first second : String → String} {ids : List String}
    (hfirst : ∀ id, Char.ofNat 0 ∉ (first id).toList)
    (hsecond : ∀ id, Char.ofNat 0 ∉ (second id).toList)
    (htext : String.intercalate "\x00" (ids.map fun id => id ++ "=" ++ first id) =
      String.intercalate "\x00" (ids.map fun id => id ++ "=" ++ second id)) :
    ∀ id ∈ ids, first id = second id := by
  induction ids with
  | nil => exact fun id hid => absurd hid List.not_mem_nil
  | cons id ids ih =>
    cases ids with
    | nil =>
      simp only [List.map_cons, List.map_nil, String.intercalate_singleton,
        String.append_right_inj] at htext
      intro other hother
      rw [List.mem_singleton.mp hother, htext]
    | cons next ids =>
      simp only [List.map_cons, String.intercalate_cons_cons, String.append_assoc,
        String.append_right_inj] at htext
      have hlist := congrArg String.toList htext
      simp only [String.toList_append] at hlist
      obtain ⟨hhead, htail⟩ := TokenStreams.eq_of_separated (hfirst id) (hsecond id) hlist
      intro other hother
      rcases List.mem_cons.mp hother with hsame | hrest
      · rw [hsame]
        exact String.toList_injective hhead
      · apply ih _ other hrest
        simp only [List.map_cons, String.append_assoc]
        exact String.toList_injective htail

/-- The text of a read-set determines the hash of every id in it. -/
theorem hashOf_eq_of_pairsText_eq {g g' : PinnedGraph} {profile : String} {ids : Finset String}
    (htext : pairsText g profile ids = pairsText g' profile ids) {id : String} (hid : id ∈ ids) :
    g.hashOf profile id = g'.hashOf profile id :=
  eq_of_intercalate_eq (separator_notMem_hashOf g profile) (separator_notMem_hashOf g' profile)
    htext id ((HashOrder.mem_order _ _ _).mpr hid)

/-! ## Two layers and some graphs -/

/-- A traced layer of code. -/
def callersLayer : DerivedLayer where
  name := "callers"
  dependsOn := ["code"]
  generatorVersion := "1"
  hashProfile := "structure"
  serving := "block"
  recompute := "lazy"
  keyLocality := .traced
  entityKinds := none

/-- The producer that lists who uses an entity. -/
def callersProducer : Producer := fun _ => .ask (.dependents none) fun found => .done (.artifact
  (match found with
    | .ids ids => utf8 (String.intercalate "," ids)
    | .symbol _ | .places _ => []))

/-- The producer that looks at what an entity uses and gives its name. -/
def nameProducer : Producer := fun id =>
  .ask (.dependencies none) fun _ => .done (.artifact (utf8 id))

/-- The digest on the texts of the runs below. -/
def digest (bytes : Bytes) : String :=
  if bytes = utf8 "f=1\x00g=2" then "6c6a77b1540a80f61bf8d29dce4c0a1b"
  else if bytes = utf8 "f=1\x00g=3" then "ebb95aa4361e4044de81b4581712b1ae"
  else if bytes = utf8 "f=1\x00g=3\x00h=4" then "a22b51af8dd651bb643101d6ecfab2b8"
  else if bytes = utf8 "a=1\x00b=2" then "e1a036aeae08a3a6de7e8add00a10de2"
  else ""

/-- A function with a hash. -/
def functionNode (hash : String)
    (hdecimal : hash ≠ "" ∧ hash.toList.all Char.isDigit = true) : SymbolNode where
  kind := .function
  contentHashes := (∅ : FMap String String).insert "structure" hash
  decimal profile found hfound := by
    rcases eq_or_lookup_of_lookup_insert hfound with hsame | hnone
    · rw [hsame]
      exact ⟨hdecimal.1, List.all_eq_true.mp hdecimal.2⟩
    · exact absurd hnone (by rw [Finmap.lookup_empty]; simp)

theorem decimal_one : "1" ≠ "" ∧ "1".toList.all Char.isDigit = true := by decide

theorem decimal_two : "2" ≠ "" ∧ "2".toList.all Char.isDigit = true := by decide

theorem decimal_three : "3" ≠ "" ∧ "3".toList.all Char.isDigit = true := by decide

/-- One function that nothing uses. -/
def aloneView : View where
  graph := { symbols := (∅ : FMap String SymbolNode).insert "f" (functionNode "1" decimal_one)
             uses := ∅
             known := by simp }
  references := fun _ => []

/-- The function with one caller. -/
def calledView : View where
  graph := { symbols := ((∅ : FMap String SymbolNode).insert "f" (functionNode "1" decimal_one)).insert
               "g" (functionNode "2" decimal_two)
             uses := {("g", "f")}
             known := by decide }
  references := fun _ => []

/-- The function with two callers, one of them changed. -/
def grownView : View where
  graph := { symbols := (((∅ : FMap String SymbolNode).insert "f"
               (functionNode "1" decimal_one)).insert "g" (functionNode "3" decimal_three)).insert
               "h" (functionNode "4" (by decide))
             uses := {("g", "f"), ("h", "f")}
             known := by decide }
  references := fun _ => []

/-- Two functions that use each other. -/
def mutualView : View where
  graph := { symbols := ((∅ : FMap String SymbolNode).insert "a" (functionNode "1" decimal_one)).insert
               "b" (functionNode "2" decimal_two)
             uses := {("a", "b"), ("b", "a")}
             known := by decide }
  references := fun _ => []

/-! ## Freshness -/

section Claims

variable (hashBytes : Bytes → String) (layer : DerivedLayer) (producer : Producer)

/-- At a read, an answer that changed since the bound artifact was made shows
in the hash of an id recorded then. -/
def Visible (s : Session) : Step → Prop
  | .read revision id _ => ∀ view ∈ s.history[revision]?, ∀ made ∈ s.origins.lookup id,
    (∃ query ∈ (producer id).asked (answer layer.hashProfile made.view id),
      answer layer.hashProfile view id query ≠ answer layer.hashProfile made.view id query) →
    ∃ other ∈ made.readSet, view.graph.hashOf layer.hashProfile other ≠
      made.view.graph.hashOf layer.hashProfile other
  | .commit _ _ | .reopen => True

/-- At a read, the digest tells the text of the recorded ids then from their
text now. -/
def TellsApart (s : Session) : Step → Prop
  | .read revision id _ => ∀ view ∈ s.history[revision]?, ∀ made ∈ s.origins.lookup id,
    hashBytes (utf8 (pairsText view.graph layer.hashProfile made.readSet)) =
      hashBytes (utf8 (pairsText made.view.graph layer.hashProfile made.readSet)) →
    pairsText view.graph layer.hashProfile made.readSet =
      pairsText made.view.graph layer.hashProfile made.readSet
  | .commit _ _ | .reopen => True

instance Visible.decidable (s : Session) : ∀ step, Decidable (Visible layer producer s step)
  | .read revision id _ => inferInstanceAs (Decidable (∀ view ∈ s.history[revision]?,
      ∀ made ∈ s.origins.lookup id,
      (∃ query ∈ (producer id).asked (answer layer.hashProfile made.view id),
        answer layer.hashProfile view id query ≠ answer layer.hashProfile made.view id query) →
      ∃ other ∈ made.readSet, view.graph.hashOf layer.hashProfile other ≠
        made.view.graph.hashOf layer.hashProfile other))
  | .commit _ _ | .reopen => isTrue trivial

instance TellsApart.decidable (s : Session) : ∀ step, Decidable (TellsApart hashBytes layer s step)
  | .read revision id _ => inferInstanceAs (Decidable (∀ view ∈ s.history[revision]?,
      ∀ made ∈ s.origins.lookup id,
      hashBytes (utf8 (pairsText view.graph layer.hashProfile made.readSet)) =
        hashBytes (utf8 (pairsText made.view.graph layer.hashProfile made.readSet)) →
      pairsText view.graph layer.hashProfile made.readSet =
        pairsText made.view.graph layer.hashProfile made.readSet))
  | .commit _ _ | .reopen => isTrue trivial

/-- An artifact served as fresh is what the producer yields at the snapshot. -/
def Current (s : Session) : Step → Prop
  | .read revision id onMiss => ∀ view ∈ s.history[revision]?, ∀ artifact,
    (derivedTraced hashBytes layer producer s.layer view id onMiss).2 =
      .value (some artifact) .fresh →
    (produceCode producer layer.hashProfile view id).1 = .artifact artifact
  | .commit _ _ | .reopen => True

variable {hashBytes layer producer}

/-- The last good artifact is never served as fresh. -/
theorem tracedServeLastGood_ne_fresh (l : LayerState) (id : String) (artifact : Option Bytes) :
    tracedServeLastGood l id ≠ .value artifact .fresh := by
  unfold tracedServeLastGood
  cases (l.lastGood.lookup id).bind l.store.lookup with
  | none => by_cases hfailed : id ∈ l.failed <;> simp [hfailed]
  | some found => by_cases hfailed : id ∈ l.failed <;> simp [hfailed]

/-- An unchanged key means unchanged hashes of the ids it was made of. -/
theorem hashOf_eq_of_fingerprint_eq {view before : View} {id : String} {readSet : Finset String}
    (happart : hashBytes (utf8 (pairsText view.graph layer.hashProfile readSet)) =
        hashBytes (utf8 (pairsText before.graph layer.hashProfile readSet)) →
      pairsText view.graph layer.hashProfile readSet =
        pairsText before.graph layer.hashProfile readSet)
    (hkey : tracedFingerprint hashBytes layer.hashProfile view id readSet =
      tracedFingerprint hashBytes layer.hashProfile before id readSet) {other : String}
    (hother : other ∈ readSet) :
    view.graph.hashOf layer.hashProfile other = before.graph.hashOf layer.hashProfile other := by
  unfold tracedFingerprint keyInput at hkey
  by_cases hown : readSet = {id}
  · rw [if_pos hown, if_pos hown] at hkey
    rw [hown] at hother
    rw [Finset.mem_singleton.mp hother]
    exact hkey
  · rw [if_neg hown, if_neg hown] at hkey
    exact hashOf_eq_of_pairsText_eq (happart hkey) hother

/-- What the cheap check serves is what the producer would yield. -/
theorem produced_of_selfHealCheck {s : Session} (hsound : Sound hashBytes layer producer s)
    {revision : ℕ} {id : String} {onMiss : OnMiss} {view : View}
    (hview : view ∈ s.history[revision]?)
    (hvisible : Visible layer producer s (.read revision id onMiss))
    (happart : TellsApart hashBytes layer s (.read revision id onMiss)) {artifact : Bytes}
    (hcheck : selfHealCheck hashBytes layer s.layer view id = some artifact) :
    (produceCode producer layer.hashProfile view id).1 = .artifact artifact := by
  unfold selfHealCheck at hcheck
  cases hbinding : s.layer.bindings.lookup id with
  | none =>
    simp only [hbinding] at hcheck
    exact absurd hcheck (by simp)
  | some hash =>
    obtain ⟨made, horigin, hid, hlog, hread, hkey, hheld⟩ := hsound.bound id hash hbinding
    have hgenuine := hsound.genuine made hlog
    simp only [hbinding, hread] at hcheck
    split_ifs at hcheck with hsame
    rw [hkey] at hsame
    subst hid
    have hartifact : made.artifact = artifact := Option.some.inj (hheld.symm.trans hcheck)
    have hanswers : ∀ query ∈ (producer made.id).asked (answer layer.hashProfile made.view made.id),
        answer layer.hashProfile view made.id query =
          answer layer.hashProfile made.view made.id query := by
      by_contra hchanged
      push Not at hchanged
      obtain ⟨other, hother, hmoved⟩ := hvisible view hview made horigin hchanged
      exact hmoved (hashOf_eq_of_fingerprint_eq (happart view hview made horigin) hsame hother)
    have hrun := Program.run_congr (producer made.id) hanswers
    have hmade := congrArg Prod.fst hgenuine
    rw [← hartifact]
    exact hrun.2.trans hmade

/-- What a read serves as fresh is what the producer would yield. -/
theorem produced_of_fresh {s : Session} (hsound : Sound hashBytes layer producer s)
    {revision : ℕ} {id : String} {onMiss : OnMiss} {view : View}
    (hview : view ∈ s.history[revision]?)
    (hvisible : Visible layer producer s (.read revision id onMiss))
    (happart : TellsApart hashBytes layer s (.read revision id onMiss))
    {made : Option Production} {after : LayerState} {reply : Reply} {artifact : Bytes}
    (heffect : ReadEffect hashBytes layer producer s.layer view id made after reply)
    (hreply : reply = .value (some artifact) .fresh) :
    (produceCode producer layer.hashProfile view id).1 = .artifact artifact := by
  cases heffect with
  | absent hnone => exact absurd hreply (by simp)
  | lastGood failed => exact absurd hreply (tracedServeLastGood_ne_fresh _ _ _)
  | conflict bytes readSet existing hproduced htaken hother => exact absurd hreply (by simp)
  | bound bytes readSet store hproduced hkept hstored hself =>
    have hsame : bytes = artifact := by simpa using hreply
    rw [hproduced, hsame]
  | healed bytes hcheck =>
    have hsame : bytes = artifact := by simpa using hreply
    subst hsame
    exact produced_of_selfHealCheck hsound hview hvisible happart hcheck

/-- A step under these conditions is current. -/
theorem current_of_sound {s : Session} (hsound : Sound hashBytes layer producer s) {step : Step}
    (hvisible : Visible layer producer s step) (happart : TellsApart hashBytes layer s step) :
    Current hashBytes layer producer s step := by
  cases step with
  | commit view deleted => trivial
  | reopen => trivial
  | read revision id onMiss =>
    intro view hview artifact hreply
    have heffect := derivedTraced_effect hashBytes layer producer s.layer view id onMiss
    exact produced_of_fresh hsound hview hvisible happart heffect hreply

/-- In every run of commits, reads and reopened sessions in which a changed
answer shows in a recorded id and the digest tells texts apart, an artifact
served as fresh is what the producer yields at the snapshot of the read. -/
theorem traced_fresh_is_current {steps : List Step}
    (hvisible : Along (takeStep hashBytes layer producer) (Visible layer producer) start steps)
    (happart : Along (takeStep hashBytes layer producer) (TellsApart hashBytes layer) start steps) :
    Along (takeStep hashBytes layer producer) (Current hashBytes layer producer) start steps := by
  have hboth := along_and.mpr ⟨hvisible, happart⟩
  have hkeep : ∀ s step, Sound hashBytes layer producer s →
      Visible layer producer s step ∧ TellsApart hashBytes layer s step →
      Sound hashBytes layer producer (takeStep hashBytes layer producer s step) :=
    fun s step hsound _ => hsound.takeStep step
  exact along_of_invariant hkeep
    (fun s step hsound hstep => current_of_sound hsound hstep.1 hstep.2) sound_start hboth

/-- A caller is added and another one changes: the change shows, and the next
read lists both. -/
theorem traced_fresh_is_current_grown :
    Along (takeStep digest callersLayer callersProducer)
      (Current digest callersLayer callersProducer) start
      [.commit calledView ∅, .read 0 "f" .produce, .commit grownView ∅, .read 1 "f" .produce] :=
  traced_fresh_is_current (by decide +kernel) (by decide +kernel)

/-- A first caller is added and nothing else changes: the next read reports
the list without it as fresh. -/
theorem traced_fresh_is_outdated :
    ¬Along (takeStep digest callersLayer callersProducer)
      (Current digest callersLayer callersProducer) start
      [.commit aloneView ∅, .read 0 "f" .produce, .commit calledView ∅, .read 1 "f" .produce] := by
  intro hcurrent
  have hlast := hcurrent.2.2.2.1 calledView rfl (utf8 "") (by decide +kernel)
  exact absurd hlast (by decide +kernel)

/-! ## Separation -/

variable (hashBytes layer producer)

/-- An artifact a read asks the producer for is made of other ids or hashes
than every different artifact made before, for this entity or another. -/
def Separate (s : Session) : Step → Prop
  | .read revision id onMiss => ∀ view ∈ s.history[revision]?,
    ∀ made ∈ producing hashBytes layer producer s.layer view id onMiss, ∀ earlier ∈ s.log,
    earlier.artifact ≠ made.artifact →
    keyInput layer.hashProfile earlier.view earlier.id earlier.readSet ≠
      keyInput layer.hashProfile made.view made.id made.readSet
  | .commit _ _ | .reopen => True

/-- Keys of different make are different. -/
def KeysApart (s : Session) : Step → Prop
  | .read revision id onMiss => ∀ view ∈ s.history[revision]?,
    ∀ made ∈ producing hashBytes layer producer s.layer view id onMiss, ∀ earlier ∈ s.log,
    earlier.key hashBytes layer = made.key hashBytes layer →
    keyInput layer.hashProfile earlier.view earlier.id earlier.readSet =
      keyInput layer.hashProfile made.view made.id made.readSet
  | .commit _ _ | .reopen => True

instance Separate.decidable (s : Session) :
    ∀ step, Decidable (Separate hashBytes layer producer s step)
  | .read revision id onMiss => inferInstanceAs (Decidable (∀ view ∈ s.history[revision]?,
      ∀ made ∈ producing hashBytes layer producer s.layer view id onMiss, ∀ earlier ∈ s.log,
      earlier.artifact ≠ made.artifact →
      keyInput layer.hashProfile earlier.view earlier.id earlier.readSet ≠
        keyInput layer.hashProfile made.view made.id made.readSet))
  | .commit _ _ | .reopen => isTrue trivial

instance KeysApart.decidable (s : Session) :
    ∀ step, Decidable (KeysApart hashBytes layer producer s step)
  | .read revision id onMiss => inferInstanceAs (Decidable (∀ view ∈ s.history[revision]?,
      ∀ made ∈ producing hashBytes layer producer s.layer view id onMiss, ∀ earlier ∈ s.log,
      earlier.key hashBytes layer = made.key hashBytes layer →
      keyInput layer.hashProfile earlier.view earlier.id earlier.readSet =
        keyInput layer.hashProfile made.view made.id made.readSet))
  | .commit _ _ | .reopen => isTrue trivial

/-- A read raises no conflict, and serves only what was made for its entity. -/
def OwnArtifacts (s : Session) : Step → Prop
  | .read revision id onMiss => ∀ view ∈ s.history[revision]?,
    (∀ key, (derivedTraced hashBytes layer producer s.layer view id onMiss).2 ≠ .conflict key) ∧
    ∀ artifact status, (derivedTraced hashBytes layer producer s.layer view id onMiss).2 =
        .value (some artifact) status →
      ∃ made ∈ (takeStep hashBytes layer producer s (.read revision id onMiss)).log,
        made.id = id ∧ made.artifact = artifact ∧ Genuine layer producer made
  | .commit _ _ | .reopen => True

variable {hashBytes layer producer}

/-- The last good artifact was made for its entity. -/
theorem made_of_lastGood {s : Session} (hsound : Sound hashBytes layer producer s)
    {failed : Finset String} {id : String} {artifact : Bytes} {status : Status}
    (hreply : tracedServeLastGood { s.layer with failed := failed } id =
      .value (some artifact) status) : ∃ made ∈ s.log, made.id = id ∧ made.artifact = artifact := by
  unfold tracedServeLastGood at hreply
  cases hgood : s.layer.lastGood.lookup id with
  | none =>
    simp only [hgood, Option.bind_none] at hreply
    exact absurd hreply (by simp)
  | some key =>
    obtain ⟨made, hlog, hid, hheld⟩ := hsound.good id key hgood
    simp only [hgood, Option.bind_some, hheld] at hreply
    injection hreply with hvalue
    exact ⟨made, hlog, hid, Option.some.inj hvalue⟩

/-- The cached artifact was made for its entity. -/
theorem made_of_selfHealCheck {s : Session} (hsound : Sound hashBytes layer producer s)
    {view : View} {id : String} {artifact : Bytes}
    (hcheck : selfHealCheck hashBytes layer s.layer view id = some artifact) :
    ∃ made ∈ s.log, made.id = id ∧ made.artifact = artifact := by
  unfold selfHealCheck at hcheck
  cases hbinding : s.layer.bindings.lookup id with
  | none =>
    simp only [hbinding] at hcheck
    exact absurd hcheck (by simp)
  | some hash =>
    obtain ⟨made, _, hid, hlog, hread, _, hheld⟩ := hsound.bound id hash hbinding
    simp only [hbinding, hread] at hcheck
    split_ifs at hcheck with hsame
    exact ⟨made, hlog, hid, Option.some.inj (hheld.symm.trans hcheck)⟩

/-- A served artifact was made for its entity, in every run. -/
theorem made_of_value {s : Session} (hsound : Sound hashBytes layer producer s) {view : View}
    {id : String} {made : Option Production} {after : LayerState} {reply : Reply}
    (heffect : ReadEffect hashBytes layer producer s.layer view id made after reply)
    {artifact : Bytes} {status : Status} (hreply : reply = .value (some artifact) status) :
    ∃ found ∈ (s.afterRead id made after reply).log, found.id = id ∧ found.artifact = artifact := by
  cases heffect with
  | absent hnone => exact absurd hreply (by simp)
  | conflict bytes readSet existing hproduced htaken hother => exact absurd hreply (by simp)
  | lastGood failed => exact made_of_lastGood hsound hreply
  | healed bytes hcheck =>
    have hsame : bytes = artifact := by
      injection hreply with hvalue
      exact Option.some.inj hvalue
    exact made_of_selfHealCheck hsound (hsame ▸ hcheck)
  | bound bytes readSet store hproduced hkept hstored hself =>
    have hsame : bytes = artifact := by
      injection hreply with hvalue
      exact Option.some.inj hvalue
    exact ⟨_, List.mem_append_right _ List.mem_cons_self, rfl, hsame⟩

/-- A conflict is with an earlier production under the same key. -/
theorem earlier_of_conflict {s : Session} (hsound : Sound hashBytes layer producer s) {view : View}
    {id : String} {made : Option Production} {after : LayerState} {reply : Reply}
    (heffect : ReadEffect hashBytes layer producer s.layer view id made after reply) {key : String}
    (hreply : reply = .conflict key) :
    ∃ found ∈ made, ∃ earlier ∈ s.log, earlier.artifact ≠ found.artifact ∧
      earlier.key hashBytes layer = found.key hashBytes layer := by
  cases heffect with
  | absent hnone => exact absurd hreply (by simp)
  | healed bytes hcheck => exact absurd hreply (by simp)
  | bound bytes readSet store hproduced hkept hstored hself => exact absurd hreply (by simp)
  | lastGood failed =>
    unfold tracedServeLastGood at hreply
    split at hreply
    · exact absurd hreply (by simp)
    · exact absurd hreply (by simp)
  | conflict bytes readSet existing hproduced htaken hother =>
    obtain ⟨earlier, hlog, hartifact, hkey⟩ := hsound.stored _ _ htaken
    refine ⟨_, rfl, earlier, hlog, ?_, (layer.storeKey_injective hkey).symm⟩
    rw [hartifact]
    exact hother

/-- A step under these conditions keeps entities apart. -/
theorem ownArtifacts_of_sound {s : Session} (hsound : Sound hashBytes layer producer s)
    {step : Step} (hseparate : Separate hashBytes layer producer s step)
    (happart : KeysApart hashBytes layer producer s step) :
    OwnArtifacts hashBytes layer producer s step := by
  cases step with
  | commit view deleted => trivial
  | reopen => trivial
  | read revision id onMiss =>
    intro view hview
    have heffect := derivedTraced_effect hashBytes layer producer s.layer view id onMiss
    constructor
    · intro key hreply
      obtain ⟨made, hmade, earlier, hlog, hother, hkey⟩ :=
        earlier_of_conflict hsound heffect hreply
      exact hseparate view hview made hmade earlier hlog hother
        (happart view hview made hmade earlier hlog hkey)
    · intro artifact status hreply
      obtain ⟨made, hlog, hid, hartifact⟩ := made_of_value hsound heffect hreply
      have hlog' : made ∈ (takeStep hashBytes layer producer s (.read revision id onMiss)).log := by
        simp only [takeStep, Option.mem_def.mp hview]
        exact hlog
      exact ⟨made, hlog', hid, hartifact, (hsound.takeStep _).genuine made hlog'⟩

/-- In every run of commits, reads and reopened sessions in which different
artifacts are made of different ids or hashes and the digest tells these apart,
no read raises a conflict, and every artifact served for an entity was made
for it. -/
theorem traced_keys_keep_entities_apart {steps : List Step}
    (hseparate : Along (takeStep hashBytes layer producer) (Separate hashBytes layer producer)
      start steps)
    (happart : Along (takeStep hashBytes layer producer) (KeysApart hashBytes layer producer)
      start steps) :
    Along (takeStep hashBytes layer producer) (OwnArtifacts hashBytes layer producer) start
      steps := by
  have hboth := along_and.mpr ⟨hseparate, happart⟩
  have hkeep : ∀ s step, Sound hashBytes layer producer s →
      Separate hashBytes layer producer s step ∧ KeysApart hashBytes layer producer s step →
      Sound hashBytes layer producer (takeStep hashBytes layer producer s step) :=
    fun s step hsound _ => hsound.takeStep step
  exact along_of_invariant hkeep
    (fun s step hsound hstep => ownArtifacts_of_sound hsound hstep.1 hstep.2) sound_start hboth

/-- Both functions are read, before and after a change and again in the next
session. -/
theorem traced_keys_keep_entities_apart_reopened :
    Along (takeStep digest callersLayer callersProducer)
      (OwnArtifacts digest callersLayer callersProducer) start
      [.commit calledView ∅, .read 0 "f" .produce, .read 0 "g" .produce, .commit grownView ∅,
        .read 1 "f" .produce, .reopen, .read 1 "f" .produce] :=
  traced_keys_keep_entities_apart (by decide +kernel) (by decide +kernel)

/-- Two functions that read each other have one key: the second read raises. -/
theorem traced_keys_conflict :
    ¬Along (takeStep digest callersLayer nameProducer)
      (OwnArtifacts digest callersLayer nameProducer) start
      [.commit mutualView ∅, .read 0 "a" .produce, .read 0 "b" .produce] := by
  intro hown
  exact (hown.2.2.1 mutualView rfl).1 "e1a036aeae08a3a6de7e8add00a10de2:1" (by decide +kernel)

end Claims

end Tyo3.TracedReads
