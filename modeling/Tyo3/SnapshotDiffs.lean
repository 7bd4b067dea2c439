import Tyo3.CodeDiffs
import Tyo3.ExactIdentity
import Tyo3.PinnedIdentity
import Tyo3.RetainedRevisions

/-!
# What snapshot diffs tell

The graphs of two past revisions are built from the contents of their time,
but they find ids by path in the registry of the head the snapshots are taken
from. So the code diff reads two tables of hashes through one index of the
present. It tells the changes between the registries of the two revisions
when every id with a change still holds the paths it had.
-/

namespace Tyo3.SnapshotDiffs

open AuthoredHistory CodeDiffs CodeLayer CodeLayerBuilder CodeLayerProjects CommitAtomicity
  CommitFunnel CommitOutcomes CommitPlan ContentStore Entities ExactIdentity FiniteMaps GraphNodes
  IdentityAnchors IdentityRuns IdentityScope JsonValues KeyedChanges PinnedIdentity ProjectSessions
  RetainedRevisions Runs SessionRegistries Snapshots SystemPaths

/-! ## The contents of past heads -/

/-- A commit publishes one generation or takes versions at most. -/
theorem store_commit (crates : Crates) (env : Env) {head : HeadState} (hs : InStep head)
    (m : Mutation) :
    Publishes head.store (commit crates env head m).2.store ∨
      ∃ counter, (commit crates env head m).2.store =
        { head.store with versionCounter := counter } := by
  have houtcome := commit_outcome crates env hs m
  generalize (commit crates env head m).2 = head' at houtcome ⊢
  generalize (commit crates env head m).1 = result at houtcome
  cases houtcome with
  | idle counter armed hresult => exact .inr ⟨counter, rfl⟩
  | reconciled staged counter bytes hm hplan hauth hbytes => exact .inl ⟨rfl, rfl, rfl⟩
  | authored lcfg anchor bytes record hcfg hanchor hrecord hbytes => exact .inl ⟨rfl, rfl, rfl⟩

/-- The store of an opened head is the one the project was read into. -/
theorem store_openHead {crates : Crates} {env : Env} {o : Opening} {head : HeadState}
    (h : openHead crates env o = .ok head) :
    head.store = (Store.withRetainCap o.retainCap).ingestProject crates.walk env.disk o.root
      (isProjectRelevant crates.pyExtension) := by
  unfold openHead at h
  dsimp only at h
  split at h
  · cases h
  · rename_i head₁ hpersist
    obtain ⟨bytes, -, hhead⟩ := persistIdentity_ok hpersist
    cases h
    rw [hhead]
    rfl

/-- The store of every head keeps no revision ahead of its own. -/
theorem dated_of_reachable {crates : Crates} {head : HeadState} (h : Reachable crates head) :
    Dated head.store := by
  induction h with
  | opened hopen =>
    rw [store_openHead hopen]
    have hpublishes : ∀ (s : Store) changes, Publishes s (s.applyBatch changes) :=
      fun s changes => ⟨rfl, rfl, rfl⟩
    exact (hpublishes _ _).dated (dated_withRetainCap _)
  | step hreach a ih =>
    cases a with
    | registerAuthoredLayer name history reviewOnChange => exact ih
    | faultInject stage => exact ih
    | reload => exact ih
    | commit env m =>
      have hstore := store_commit crates env (inStep_of_reachable hreach) m
      unfold Action.run
      dsimp only
      rcases hstore with hp | ⟨counter, hcounter⟩
      · exact hp.dated ih
      · rw [hcounter]
        exact ⟨ih.past, ih.head⟩

/-- A head that commits have reached from an earlier one. -/
structure Later (crates : Crates) (start head : HeadState) : Prop where
  /-- The head is the one of a session. -/
  reachable : Reachable crates head
  /-- The registry is sound. -/
  sound : head.registry.Sound
  /-- The store keeps the content of the earlier head, if at all. -/
  follows : Follows start.store head.store

/-- Every sound head of a session comes after itself. -/
theorem later_self {crates : Crates} {head : HeadState} (hreach : Reachable crates head)
    (hsound : head.registry.Sound) : Later crates head head :=
  ⟨hreach, hsound, (dated_of_reachable hreach).follows⟩

/-- A commit leads to a later head. -/
theorem Later.commit {crates : Crates} {start head : HeadState} (h : Later crates start head)
    (step : CommitStep) : Later crates start (commitStep crates head step) := by
  obtain ⟨env, m⟩ := step
  have hs : InStep head := inStep_of_reachable h.reachable
  refine ⟨h.reachable.step (.commit env m), sound_run hs h.sound (.commit env m), ?_⟩
  unfold commitStep
  dsimp only
  rcases store_commit crates env hs m with hp | ⟨counter, hcounter⟩
  · exact hp.follows h.follows
  · rw [hcounter]
    exact ⟨h.follows.revision, h.follows.content⟩

/-- A run of commits leads to a later head. -/
theorem Later.run {crates : Crates} {start head : HeadState} (h : Later crates start head)
    (steps : List CommitStep) : Later crates start (run (commitStep crates) head steps) := by
  have hall : Along (commitStep crates) (fun _ _ => True) head steps :=
    along_of_forall fun _ _ => trivial
  exact invariant_run (fun _ step hlater _ => hlater.commit step) h hall

/-- A snapshot of an earlier revision has the graph of the content of that
time with the present registry. -/
theorem graph_of_snapshot {crates : Crates} {start head : HeadState}
    (h : Later crates start head) {s : Snapshot}
    (hsnap : snapshot head (some start.store.revision) = .ok s) (engine : Engine) :
    graph crates engine s = build (outputs crates (engine.answers start.store.generation) head) := by
  obtain ⟨generation, hgeneration, hpin⟩ := snapshot_some hsnap
  rw [hpin, graph_pin_past, h.follows.content generation hgeneration]

/-! ## Ids of entities -/

/-- The id an entity of a path gets in a graph. -/
def idAt (r : IdentityRegistry) (path : String) : Option DurableId :=
  (r.byPath.lookup path).filter fun id => isModuleId id = false

theorem idAt_eq_some {r : IdentityRegistry} {path : String} {id : DurableId} :
    idAt r path = some id ↔ r.byPath.lookup path = some id ∧ isModuleId id = false := by
  unfold idAt
  rw [Option.filter_eq_some_iff, decide_eq_true_eq]

/-- No id is found at two paths. -/
theorem idAt_injective {r : IdentityRegistry} (hs : r.Sound) (p q : String) (id : DurableId)
    (hp : idAt r p = some id) (hq : idAt r q = some id) : p = q :=
  hs.linked.path_injective (idAt_eq_some.mp hp).1 (idAt_eq_some.mp hq).1

/-! ## The diff as a reading -/

/-- A code diff tells the changes between two ledgers. -/
structure Tells (diff : CodeDiff) (before after : DurableId → Option (String × ContentHash)) :
    Prop where
  /-- Ids of the later ledger only. -/
  added : ∀ id, id ∈ diff.added ↔ Added (before id) (after id)
  /-- Ids of the earlier ledger only. -/
  removed : ∀ id, id ∈ diff.removed ↔ Added (after id) (before id)
  /-- Ids of both ledgers with different hashes. -/
  changed : ∀ id, id ∈ diff.changed ↔ Changed (before id) (after id)
  /-- Ids of both ledgers with equal hashes and different paths. -/
  moved : ∀ id, id ∈ diff.moved ↔ Moved (before id) (after id)

section Graphs

variable {crates : Crates} {answers : Answers} {head : HeadState}
  {read : DurableId → Option (String × ContentHash)} {id : DurableId}

/-- An entity node shows what its id reads. -/
theorem read_of_entityNode (hs : head.registry.Sound) (hx : Extracts crates answers head)
    (hr : Reads (idAt head.registry) (hashAt (extractEntities crates answers)) read)
    {node : NodeData} (h : entityNode (build (outputs crates answers head)) id = some node) :
    ∃ e ∈ extractEntities crates answers, read id = some (e.qualifiedPath, e.contentHash) ∧
      NodeOf head.root.asStr e node := by
  obtain ⟨hshape, e, he, hpath, hnode⟩ := entity_of_entityNode hs hx h
  refine ⟨e, he, (hr id _ _).mpr ⟨idAt_eq_some.mpr ⟨hpath, hshape⟩, ?_⟩, hnode⟩
  exact (hashAt_eq_some hx.distinct).mpr ⟨e, he, rfl, rfl⟩

/-- An id that reads an entry has its node in the graph. -/
theorem entityNode_of_read (hs : head.registry.Sound) (hx : Extracts crates answers head)
    (hr : Reads (idAt head.registry) (hashAt (extractEntities crates answers)) read)
    {path : String} {hash : ContentHash} (h : read id = some (path, hash)) :
    ∃ node, entityNode (build (outputs crates answers head)) id = some node ∧
      node.contentHash = some (toString hash.val) := by
  obtain ⟨hindex, htable⟩ := (hr id path hash).mp h
  obtain ⟨hpath, hshape⟩ := idAt_eq_some.mp hindex
  obtain ⟨e, he, hentity, hhash⟩ := (hashAt_eq_some hx.distinct).mp htable
  rw [← hentity] at hpath
  obtain ⟨node, hnode, hof⟩ := entityNode_of_entity hs hx he hpath hshape
  refine ⟨node, hnode, ?_⟩
  rw [hof.contentHash, hhash]

/-- The entity ids of the graph are the ids that read an entry. -/
theorem mem_entityIds_iff_read (hs : head.registry.Sound) (hx : Extracts crates answers head)
    (hr : Reads (idAt head.registry) (hashAt (extractEntities crates answers)) read) :
    id ∈ entityIds (build (outputs crates answers head)) ↔ ∃ entry, read id = some entry := by
  rw [mem_entityIds]
  constructor
  · rintro ⟨node, hnode⟩
    obtain ⟨e, -, hread, -⟩ := read_of_entityNode hs hx hr hnode
    exact ⟨_, hread⟩
  · rintro ⟨⟨path, hash⟩, hread⟩
    obtain ⟨node, hnode, -⟩ := entityNode_of_read hs hx hr hread
    exact ⟨node, hnode⟩

end Graphs

/-- Entities of one path in two contents have one place. -/
def Placed (before after : List Entity) : Prop :=
  ∀ e ∈ before, ∀ e' ∈ after, e.qualifiedPath = e'.qualifiedPath →
    e.file = e'.file ∧ e.qualifiedName = e'.qualifiedName

/-- Hashes with one text are equal. -/
theorem hash_eq_of_text {hash hash' : ContentHash} (h : toString hash.val = toString hash'.val) :
    hash = hash' := by
  have hparse := parseUnsigned_toString hash
  rw [h, parseUnsigned_toString] at hparse
  exact (Option.some.inj hparse).symm

section Readings

variable {crates : Crates} {before after : Answers} {head : HeadState}
  {read read' : DurableId → Option (String × ContentHash)}

/-- The ids of one graph only are those that read from one content only. -/
theorem mem_onlyIn (hs : head.registry.Sound) (hx : Extracts crates before head)
    (hx' : Extracts crates after head)
    (hr : Reads (idAt head.registry) (hashAt (extractEntities crates before)) read)
    (hr' : Reads (idAt head.registry) (hashAt (extractEntities crates after)) read')
    (id : DurableId) :
    id ∈ entityIds (build (outputs crates after head)) \
      entityIds (build (outputs crates before head)) ↔ Added (read id) (read' id) := by
  rw [Finset.mem_sdiff, mem_entityIds_iff_read hs hx hr, mem_entityIds_iff_read hs hx' hr']
  unfold Added
  rw [not_exists, ← Option.eq_none_iff_forall_ne_some, and_comm]

/-- An id of both graphs shows two entities of one path. -/
theorem entities_of_both (hs : head.registry.Sound) (hx : Extracts crates before head)
    (hx' : Extracts crates after head)
    (hr : Reads (idAt head.registry) (hashAt (extractEntities crates before)) read)
    (hr' : Reads (idAt head.registry) (hashAt (extractEntities crates after)) read')
    {id : DurableId} {b a : NodeData}
    (hb : entityNode (build (outputs crates before head)) id = some b)
    (ha : entityNode (build (outputs crates after head)) id = some a) :
    ∃ e ∈ extractEntities crates before, ∃ e' ∈ extractEntities crates after,
      e.qualifiedPath = e'.qualifiedPath ∧
      read id = some (e.qualifiedPath, e.contentHash) ∧
      read' id = some (e'.qualifiedPath, e'.contentHash) ∧
      NodeOf head.root.asStr e b ∧ NodeOf head.root.asStr e' a := by
  obtain ⟨e, he, hread, hnode⟩ := read_of_entityNode hs hx hr hb
  obtain ⟨e', he', hread', hnode'⟩ := read_of_entityNode hs hx' hr' ha
  have hpath : e.qualifiedPath = e'.qualifiedPath :=
    read_place (idAt_injective hs) hr hr' hread hread'
  exact ⟨e, he, e', he', hpath, hread, hread', hnode, hnode'⟩

/-- No code diff reports an id as moved. -/
theorem not_mem_moved (hs : head.registry.Sound) (hx : Extracts crates before head)
    (hx' : Extracts crates after head)
    (hplaced : Placed (extractEntities crates before) (extractEntities crates after))
    (id : DurableId) :
    id ∉ (computeCodeDiff (build (outputs crates after head))
      (build (outputs crates before head))).moved := by
  intro hmoved
  obtain ⟨a, b, ha, hb, htest⟩ := mem_compared.mp hmoved
  have hinj := idAt_injective hs
  obtain ⟨e, he, e', he', hpath, -, -, hnode, hnode'⟩ :=
    entities_of_both hs hx hx' (reads_reading hinj) (reads_reading hinj) hb ha
  obtain ⟨hfile, hname⟩ := hplaced e he e' he' hpath
  obtain ⟨-, hdiffers⟩ := of_decide_eq_true htest
  rcases hdiffers with hdiffers | hdiffers
  · apply hdiffers
    rw [hnode.file, hnode'.file, hfile]
  · apply hdiffers
    rw [hnode.qualifiedName, hnode'.qualifiedName, hname]

/-- The code diff tells the changes between what the ids read. -/
theorem tells_readings (hs : head.registry.Sound) (hx : Extracts crates before head)
    (hx' : Extracts crates after head)
    (hplaced : Placed (extractEntities crates before) (extractEntities crates after))
    (hr : Reads (idAt head.registry) (hashAt (extractEntities crates before)) read)
    (hr' : Reads (idAt head.registry) (hashAt (extractEntities crates after)) read') :
    Tells (computeCodeDiff (build (outputs crates after head))
      (build (outputs crates before head))) read read' where
  added := mem_onlyIn hs hx hx' hr hr'
  removed := mem_onlyIn hs hx' hx hr' hr
  changed id := by
    constructor
    · intro hchanged
      obtain ⟨a, b, ha, hb, htest⟩ := mem_compared.mp hchanged
      obtain ⟨e, -, e', -, -, hread, hread', hnode, hnode'⟩ :=
        entities_of_both hs hx hx' hr hr' hb ha
      refine ⟨_, _, _, _, hread, hread', fun hhash => of_decide_eq_true htest ?_⟩
      rw [hnode.contentHash, hnode'.contentHash, hhash]
    · rintro ⟨p, k, q, l, hread, hread', hne⟩
      obtain ⟨b, hb, hbhash⟩ := entityNode_of_read hs hx hr hread
      obtain ⟨a, ha, hahash⟩ := entityNode_of_read hs hx' hr' hread'
      refine mem_compared.mpr ⟨a, b, ha, hb, decide_eq_true fun hsame => hne ?_⟩
      rw [hahash, hbhash, Option.some_inj] at hsame
      exact (hash_eq_of_text hsame).symm
  moved id := by
    refine iff_of_false (not_mem_moved hs hx hx' hplaced id) ?_
    rintro ⟨p, q, k, hread, hread', hne⟩
    exact hne (read_place (idAt_injective hs) hr hr' hread hread')

/-- The code diff tells the changes between two readings through the present
registry. -/
theorem exists_readings (hs : head.registry.Sound) (hx : Extracts crates before head)
    (hx' : Extracts crates after head)
    (hplaced : Placed (extractEntities crates before) (extractEntities crates after)) :
    ∃ read read', Reads (idAt head.registry) (hashAt (extractEntities crates before)) read ∧
      Reads (idAt head.registry) (hashAt (extractEntities crates after)) read' ∧
      Tells (computeCodeDiff (build (outputs crates after head))
        (build (outputs crates before head))) read read' := by
  have hinj := idAt_injective hs
  exact ⟨_, _, reads_reading hinj, reads_reading hinj,
    tells_readings hs hx hx' hplaced (reads_reading hinj) (reads_reading hinj)⟩

end Readings

/-! ## Two revisions of a run -/

/-- What a diff between two heads, taken at a third one, needs to tell what
happened: identity was exact at both, and every id with a change between them
still holds the paths it had. -/
structure Traceable (crates : Crates) (engine : Engine) (before after head : HeadState) : Prop where
  /-- At the earlier head the live anchors are the entities. -/
  exactBefore : ExactAt crates engine before
  /-- At the later head the live anchors are the entities. -/
  exactAfter : ExactAt crates engine after
  /-- Ids with a change hold their paths. -/
  followed : Followed (idAt head.registry) (live before.registry) (live after.registry)

/-- What every diff that tells what happened must find: no id has moved, and
every id with a change still holds a path. -/
def Held (before after head : HeadState) : Prop :=
  ∀ id, live before.registry id ≠ live after.registry id →
    ¬ Moved (live before.registry id) (live after.registry id) ∧
      ∃ path, idAt head.registry path = some id

section Diffs

variable {crates : Crates} {engine : Engine} {before after head : HeadState}

/-- A diff that tells the changes of two ledgers found all ids that have one. -/
theorem held_of_tells (hs : head.registry.Sound)
    (hx : Extracts crates (engine.answers before.store.generation) head)
    (hx' : Extracts crates (engine.answers after.store.generation) head)
    (hplaced : Placed (extractEntities crates (engine.answers before.store.generation))
      (extractEntities crates (engine.answers after.store.generation)))
    (htells : Tells (computeCodeDiff
      (build (outputs crates (engine.answers after.store.generation) head))
      (build (outputs crates (engine.answers before.store.generation) head)))
      (live before.registry) (live after.registry)) : Held before after head := by
  obtain ⟨read, read', hr, hr', hreadings⟩ := exists_readings hs hx hx' hplaced
  intro id hne
  have hstays : ¬ Moved (live before.registry id) (live after.registry id) :=
    fun hmoved => not_mem_moved hs hx hx' hplaced id ((htells.moved id).mpr hmoved)
  refine ⟨hstays, ?_⟩
  rcases change_cases hne with hadded | hremoved | hchanged | hmoved
  · obtain ⟨-, ⟨path, hash⟩, hread⟩ := (hreadings.added id).mp ((htells.added id).mpr hadded)
    exact ⟨path, ((hr' id path hash).mp hread).1⟩
  · obtain ⟨-, ⟨path, hash⟩, hread⟩ := (hreadings.removed id).mp ((htells.removed id).mpr hremoved)
    exact ⟨path, ((hr id path hash).mp hread).1⟩
  · obtain ⟨path, hash, -, -, hread, -, -⟩ :=
      (hreadings.changed id).mp ((htells.changed id).mpr hchanged)
    exact ⟨path, ((hr id path hash).mp hread).1⟩
  · exact absurd hmoved hstays

/-- A diff of traceable heads tells the changes between their ledgers. -/
theorem tells_of_traceable (hs : head.registry.Sound)
    (hx : Extracts crates (engine.answers before.store.generation) head)
    (hx' : Extracts crates (engine.answers after.store.generation) head)
    (hplaced : Placed (extractEntities crates (engine.answers before.store.generation))
      (extractEntities crates (engine.answers after.store.generation)))
    (htraceable : Traceable crates engine before after head) :
    Tells (computeCodeDiff
      (build (outputs crates (engine.answers after.store.generation) head))
      (build (outputs crates (engine.answers before.store.generation) head)))
      (live before.registry) (live after.registry) := by
  have hinj := idAt_injective hs
  obtain ⟨read, read', hr, hr', htells⟩ := exists_readings hs hx hx' hplaced
  obtain ⟨hexact, hexact', hfollowed⟩ := htraceable
  refine ⟨fun id => ?_, fun id => ?_, fun id => ?_, fun id => ?_⟩
  · rw [htells.added]
    exact change_iff hexact hexact' hinj hr hr' hfollowed not_added_self id
  · rw [htells.removed]
    exact change_iff hexact' hexact hinj hr' hr hfollowed.symm not_added_self id
  · rw [htells.changed]
    exact change_iff hexact hexact' hinj hr hr' hfollowed not_changed_self id
  · rw [htells.moved]
    exact change_iff hexact hexact' hinj hr hr' hfollowed not_moved_self id

end Diffs

/-- In every run of commits the code diff between two retained revisions,
taken at any later head, tells the changes between the live anchors of the
two when they are traceable there, and only when no id moved and every id
with a change still holds a path. -/
theorem codeDiff_tells {crates : Crates} {root : SystemPath} {earlier : List SessionStep}
    {before after head : HeadState} (hbefore : runSessions crates root earlier = .opened before)
    {between later : List CommitStep} (hafter : after = run (commitStep crates) before between)
    (hhead : head = run (commitStep crates) after later) {engine : Engine}
    (hx : Extracts crates (engine.answers before.store.generation) head)
    (hx' : Extracts crates (engine.answers after.store.generation) head)
    (hplaced : Placed (extractEntities crates (engine.answers before.store.generation))
      (extractEntities crates (engine.answers after.store.generation))) {s s' : Snapshot}
    (hs : snapshot head (some before.store.revision) = .ok s)
    (hs' : snapshot head (some after.store.revision) = .ok s') :
    (Traceable crates engine before after head →
      Tells (computeCodeDiff (graph crates engine s') (graph crates engine s))
        (live before.registry) (live after.registry)) ∧
    (Tells (computeCodeDiff (graph crates engine s') (graph crates engine s))
        (live before.registry) (live after.registry) → Held before after head) := by
  obtain ⟨hreach, hsound⟩ := sound_runSessions hbefore
  have hfirst : Later crates before after := hafter ▸ (later_self hreach hsound).run between
  have hlast : Later crates before head := hhead ▸ hfirst.run later
  have hsecond : Later crates after head :=
    hhead ▸ (later_self hfirst.reachable hfirst.sound).run later
  rw [graph_of_snapshot hlast hs, graph_of_snapshot hsecond hs']
  exact ⟨tells_of_traceable hlast.sound hx hx' hplaced,
    held_of_tells hlast.sound hx hx' hplaced⟩

/-! ## An edit and a removal -/

instance (crates : Crates) (answers : Answers) (head : HeadState) :
    Decidable (Extracts crates answers head) :=
  decidable_of_iff (((sourceFiles crates answers).map SystemPath.asStr).Nodup ∧
      (∀ p ∈ sourceFiles crates answers, toGraphPath head.root.asStr p.asStr ≠ p.asStr) ∧
      ((extractEntities crates answers).map Entity.qualifiedPath).Nodup ∧
      head.defaultHashProfile ∈ head.hashProfiles ∧
      ∀ p ∈ sourceFiles crates answers, ∀ e ∈ fileEntities answers p,
        (answers.profileHashes p e.fullRange).lookup head.defaultHashProfile = some e.contentHash)
    ⟨fun ⟨hlisted, hbelow, hdistinct, hconfigured, hhashed⟩ =>
      ⟨hlisted, hbelow, hdistinct, hconfigured, hhashed⟩,
      fun h => ⟨h.listed, h.below, h.distinct, h.configured, h.hashed⟩⟩

instance (before after : List Entity) : Decidable (Placed before after) :=
  inferInstanceAs (Decidable (∀ e ∈ before, ∀ e' ∈ after, e.qualifiedPath = e'.qualifiedPath →
    e.file = e'.file ∧ e.qualifiedName = e'.qualifiedName))

/-- Only the ids of two registries have to be followed. -/
theorem followed_of_keys {now before after : IdentityRegistry}
    (h : ∀ id ∈ before.byId.keys ∪ after.byId.keys, live before id ≠ live after id →
      (∀ entry ∈ live before id, idAt now entry.1 = some id) ∧
        ∀ entry ∈ live after id, idAt now entry.1 = some id) :
    Followed (idAt now) (live before) (live after) := by
  have hknown : ∀ (r : IdentityRegistry) id, id ∉ r.byId.keys → live r id = none := by
    intro r id hid
    cases hlive : live r id with
    | none => rfl
    | some entry =>
      obtain ⟨a, hget, -⟩ := live_eq_some.mp hlive
      exact absurd ((mem_keys_iff _ _).mpr ⟨a, hget⟩) hid
  intro id hne
  by_cases hid : id ∈ before.byId.keys ∪ after.byId.keys
  · obtain ⟨hbefore, hafter⟩ := h id hid hne
    exact ⟨fun p k hentry => hbefore _ hentry, fun p k hentry => hafter _ hentry⟩
  · rw [Finset.notMem_union] at hid
    exact absurd ((hknown _ id hid.1).trans (hknown _ id hid.2).symm) hne

/-- An engine for the note project that reports hashes under the default
profile. -/
def profiledEngine : Engine :=
  { listedEngine notePaths with
    answers := fun content =>
      let answers := (listedEngine notePaths).answers content
      { answers with profileHashes := fun p range =>
          (∅ : FMap String ContentHash).insert "default" (answers.contentHash p range) } }

/-- Surroundings with that engine and ids beyond a length. -/
def profiledEnv (bound : ℕ) (disk : Disk) : Env :=
  { listedEnv notePaths disk with engine := profiledEngine, mint := longIds bound }

/-- Open the note project with the default profile. -/
def openProfiled : OpenRequest where
  env := profiledEnv 0 noteDisk
  listing := pathOrder
  config := notesConfig
  retainCap := 64
  hashProfiles := {"default"}
  defaultHashProfile := "default"

/-- Read the project again, with another text of the module on disk. -/
def syncText (text : String) : CommitStep :=
  (profiledEnv 1 ((∅ : Disk).insert ⟨["p", "a.py"]⟩ (.file text)), .syncAll)

/-- A watcher event that the module is gone. -/
def dropText : CommitStep := (profiledEnv 1 ∅, .poll [.deleted ⟨["p", "a.py"]⟩ .file])

/-- Whether the contents of two heads are in order at a third one, and kept
there. -/
def diffable (before after head : HeadState) : Bool :=
  decide (Extracts noteCrates (profiledEngine.answers before.store.generation) head) &&
  decide (Extracts noteCrates (profiledEngine.answers after.store.generation) head) &&
  decide (Placed (extractEntities noteCrates (profiledEngine.answers before.store.generation))
    (extractEntities noteCrates (profiledEngine.answers after.store.generation))) &&
  (head.store.generationAt before.store.revision).isSome &&
  (head.store.generationAt after.store.revision).isSome

/-- A kept revision has a snapshot. -/
theorem exists_snapshot {head : HeadState} {r : Revision}
    (h : (head.store.generationAt r).isSome = true) : ∃ s, snapshot head (some r) = .ok s := by
  obtain ⟨generation, hgeneration⟩ := Option.isSome_iff_exists.mp h
  refine ⟨pin head generation r none false, ?_⟩
  unfold snapshot
  dsimp only
  rw [hgeneration]

/-- What diffable heads provide. -/
theorem of_diffable {before after head : HeadState} (h : diffable before after head = true) :
    Extracts noteCrates (profiledEngine.answers before.store.generation) head ∧
    Extracts noteCrates (profiledEngine.answers after.store.generation) head ∧
    Placed (extractEntities noteCrates (profiledEngine.answers before.store.generation))
      (extractEntities noteCrates (profiledEngine.answers after.store.generation)) ∧
    (∃ s, snapshot head (some before.store.revision) = .ok s) ∧
    ∃ s', snapshot head (some after.store.revision) = .ok s' := by
  unfold diffable at h
  simp only [Bool.and_eq_true, decide_eq_true_eq] at h
  obtain ⟨⟨⟨⟨hx, hx'⟩, hplaced⟩, hkept⟩, hkept'⟩ := h
  exact ⟨hx, hx', hplaced, exists_snapshot hkept, exists_snapshot hkept'⟩

/-- Whether a commit publishes. -/
def committed (head : HeadState) (step : CommitStep) : Bool :=
  match (commit noteCrates step.1 head step.2).1 with
  | .ok (some _) => true
  | _ => false

/-- Whether the first of two edits publishes, with all ids in place and the
hashes of the variable as they should be. -/
def editedTwice (before : HeadState) : Bool :=
  let after := run (commitStep noteCrates) before [syncText "x = 100"]
  let head := run (commitStep noteCrates) after [syncText "x = 10000"]
  diffable before after head && committed before (syncText "x = 100") &&
  decide (∀ id ∈ before.registry.byId.keys, id.length ≤ 1) &&
  decide (∀ id ∈ before.registry.byId.keys ∪ after.registry.byId.keys,
    live before.registry id ≠ live after.registry id →
      (∀ entry ∈ live before.registry id, idAt head.registry entry.1 = some id) ∧
        ∀ entry ∈ live after.registry id, idAt head.registry entry.1 = some id) &&
  decide (live before.registry "A" = some ("/p/a.py::x", 5)) &&
  decide (live after.registry "A" = some ("/p/a.py::x", 7))

/-- After two edits of one variable the diff over the first one tells it. -/
theorem codeDiff_tells_edit :
    ∃ before after head s s',
      runSessions noteCrates ⟨["p"]⟩ [.open_ openProfiled] = .opened before ∧
      after = run (commitStep noteCrates) before [syncText "x = 100"] ∧
      head = run (commitStep noteCrates) after [syncText "x = 10000"] ∧
      snapshot head (some before.store.revision) = .ok s ∧
      snapshot head (some after.store.revision) = .ok s' ∧
      Traceable noteCrates profiledEngine before after head ∧
      Tells (computeCodeDiff (graph noteCrates profiledEngine s')
        (graph noteCrates profiledEngine s)) (live before.registry) (live after.registry) ∧
      Changed (live before.registry "A") (live after.registry "A") := by
  have htest : opensTo editedTwice (runSessions noteCrates ⟨["p"]⟩ [.open_ openProfiled]) = true := by
    decide +kernel
  obtain ⟨before, hbefore, hchecks⟩ := exists_of_opensTo htest
  unfold editedTwice at hchecks
  simp only [Bool.and_eq_true, decide_eq_true_eq] at hchecks
  obtain ⟨⟨⟨⟨⟨hdiffable, hcommitted⟩, hshort⟩, hkeys⟩, hlive⟩, hlive'⟩ := hchecks
  obtain ⟨hx, hx', hplaced, ⟨s, hs⟩, s', hs'⟩ := of_diffable hdiffable
  obtain ⟨hreach, hsound⟩ := sound_runSessions hbefore
  have hempty : IdentityMatching.Fresh (longIds 0) IdentityRegistry.empty :=
    longIds_fresh (by decide)
  have hexact : ExactAt noteCrates profiledEngine before :=
    exactAt_firstOpening hbefore hempty hx.distinct
  have hexact' : ExactAt noteCrates profiledEngine
      (run (commitStep noteCrates) before [syncText "x = 100"]) := by
    unfold committed at hcommitted
    split at hcommitted
    · rename_i dto hdto
      exact exactAt_commit (inStep_of_reachable hreach) hsound.linked (longIds_fresh hshort) rfl rfl
        hdto hx'.distinct
    · cases hcommitted
  have htraceable := Traceable.mk hexact hexact' (followed_of_keys hkeys)
  have htells := (codeDiff_tells hbefore rfl rfl hx hx' hplaced hs hs').1 htraceable
  refine ⟨before, _, _, s, s', hbefore, rfl, rfl, hs, hs', htraceable, htells, ?_⟩
  exact ⟨_, _, _, _, hlive, hlive', by decide⟩

/-- Whether the event takes the variable off the registry but not into the
removed ids of the diff. -/
def droppedUnseen (before : HeadState) : Bool :=
  let after := run (commitStep noteCrates) before [dropText]
  diffable before after after && decide (before.store.revision < after.store.revision) &&
  decide (live before.registry "A" = some ("/p/a.py::x", 5)) &&
  decide (live after.registry "A" = none) &&
  match snapshot after (some before.store.revision), snapshot after (some after.store.revision) with
  | .ok s, .ok s' => decide ("A" ∉ (computeCodeDiff (graph noteCrates profiledEngine s')
      (graph noteCrates profiledEngine s)).removed)
  | _, _ => false

/-- When the only module is dropped, its variable is live before and not
after, but the diff between the two revisions does not report it as
removed. -/
theorem codeDiff_misses_removal :
    ∃ before after s s',
      runSessions noteCrates ⟨["p"]⟩ [.open_ openProfiled] = .opened before ∧
      after = run (commitStep noteCrates) before [dropText] ∧
      before.store.revision < after.store.revision ∧
      Extracts noteCrates (profiledEngine.answers before.store.generation) after ∧
      Extracts noteCrates (profiledEngine.answers after.store.generation) after ∧
      snapshot after (some before.store.revision) = .ok s ∧
      snapshot after (some after.store.revision) = .ok s' ∧
      live before.registry "A" = some ("/p/a.py::x", 5) ∧ live after.registry "A" = none ∧
      "A" ∉ (computeCodeDiff (graph noteCrates profiledEngine s')
        (graph noteCrates profiledEngine s)).removed ∧
      ¬ Tells (computeCodeDiff (graph noteCrates profiledEngine s')
        (graph noteCrates profiledEngine s)) (live before.registry) (live after.registry) := by
  have htest : opensTo droppedUnseen (runSessions noteCrates ⟨["p"]⟩ [.open_ openProfiled]) =
      true := by decide +kernel
  obtain ⟨before, hbefore, hchecks⟩ := exists_of_opensTo htest
  unfold droppedUnseen at hchecks
  simp only [Bool.and_eq_true, decide_eq_true_eq] at hchecks
  obtain ⟨⟨⟨⟨hdiffable, hlt⟩, hlive⟩, hlive'⟩, hmissed⟩ := hchecks
  obtain ⟨hx, hx', -, ⟨s, hs⟩, s', hs'⟩ := of_diffable hdiffable
  rw [hs, hs'] at hmissed
  have hmissed := of_decide_eq_true hmissed
  refine ⟨before, _, s, s', hbefore, rfl, hlt, hx, hx', hs, hs', hlive, hlive', hmissed, ?_⟩
  intro htells
  exact hmissed ((htells.removed "A").mpr ⟨hlive', _, hlive⟩)

end Tyo3.SnapshotDiffs
