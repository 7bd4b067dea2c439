import Tyo3.SessionActor
import Tyo3.UnsavedBuffers

/-!
# The edits of one connection

A connection sends its buffers without waiting for replies. The reader takes
the lines in order and hands each to a pool of eight workers; a worker runs
the handler, which enqueues a closure on the session actor and waits for it.
The actor runs closures in the order in which they were enqueued, and this
need not be the order in which the requests were sent.
-/

namespace Tyo3.ConnectionEdits

open CommitAtomicity CommitFunnel CommitPlan ContentStore DiskSync Entities FiniteMaps Runs
  SessionActor SystemPaths UnsavedBuffers

/-! ## The actor between its start and its stop -/

section Service

variable {σ ε α : Type*}

/-- The session after closures have run. -/
def effects (start : σ) (fns : List (Closure σ ε α)) : σ :=
  fns.foldl (fun session fn => (fn session).1) start

/-- What closures return or raise when they run one after the other. -/
def outcomes : σ → List (Closure σ ε α) → List (Except ε α)
  | _, [] => []
  | session, fn :: fns => (fn session).2 :: outcomes (fn session).1 fns

/-- Queue entries numbered from a first future on. -/
def works : ℕ → List (Closure σ ε α) → List (Item σ ε α)
  | _, [] => []
  | first, fn :: fns => .work first fn :: works (first + 1) fns

@[simp] theorem effects_snoc (start : σ) (fns : List (Closure σ ε α)) (fn : Closure σ ε α) :
    effects start (fns ++ [fn]) = (fn (effects start fns)).1 := by
  simp [effects]

@[simp] theorem outcomes_snoc (start : σ) (fns : List (Closure σ ε α)) (fn : Closure σ ε α) :
    outcomes start (fns ++ [fn]) = outcomes start fns ++ [(fn (effects start fns)).2] := by
  induction fns generalizing start with
  | nil => rfl
  | cons first fns ih => simp [outcomes, effects, ih]

@[simp] theorem length_outcomes (start : σ) (fns : List (Closure σ ε α)) :
    (outcomes start fns).length = fns.length := by
  induction fns generalizing start with
  | nil => rfl
  | cons first fns ih => simp [outcomes, ih]

theorem works_snoc (first : ℕ) (fns : List (Closure σ ε α)) (fn : Closure σ ε α) :
    works first (fns ++ [fn]) = works first fns ++ [.work (first + fns.length) fn] := by
  induction fns generalizing first with
  | nil => rfl
  | cons head fns ih =>
    have hlength : first + 1 + fns.length = first + (head :: fns).length := by
      simp only [List.length_cons]
      omega
    rw [List.cons_append, works, ih, hlength]
    rfl

/-- The phase of an open actor that runs a closure or none. -/
def servingPhase (session : σ) (future : ℕ) : Option (Closure σ ε α) → Phase σ ε α
  | none => .looping session
  | some fn => .running session future fn

/-- An open actor has run some closures, may be running one, and has others in
its queue. -/
structure Serving (start : σ) (ran : List (Closure σ ε α)) (current : Option (Closure σ ε α))
    (waiting : List (Closure σ ε α)) (s : State σ ε α) : Prop where
  /-- It is not being stopped. -/
  stopped : s.stopped = false
  /-- No caller is between its check and its enqueueing. -/
  submitting : s.submitting = []
  /-- The session is the one that the closures left. -/
  phase : s.phase = servingPhase (effects start ran) ran.length current
  /-- The queue. -/
  queue : s.queue = works (ran.length + current.toList.length) waiting
  /-- The futures. -/
  futures : s.futures = (outcomes start ran).map Future.ofOutcome ++
    current.toList.map (fun _ => Future.running) ++ waiting.map fun _ => Future.pending

/-- A caller submits a closure to an open actor. -/
def submit (s : State σ ε α) (fn : Closure σ ε α) : State σ ε α :=
  step (step s (.submitCheck fn)) (.submitPut 0)

/-- An actor whose session has just been opened. -/
def openActor (session : σ) : State σ ε α :=
  run step State.new [.start, .opened (some session)]

variable {start : σ} {ran waiting : List (Closure σ ε α)} {current : Option (Closure σ ε α)}
  {fn : Closure σ ε α} {s : State σ ε α}

theorem serving_openActor (session : σ) :
    Serving session [] none [] (openActor session : State σ ε α) :=
  ⟨rfl, rfl, rfl, rfl, rfl⟩

namespace Serving

theorem length_futures (h : Serving start ran current waiting s) :
    s.futures.length = ran.length + current.toList.length + waiting.length := by
  rw [h.futures]
  simp [Nat.add_assoc]

theorem submit (h : Serving start ran current waiting s) (fn : Closure σ ε α) :
    Serving start ran current (waiting ++ [fn]) (submit s fn) := by
  have hsubmit : ConnectionEdits.submit s fn =
      { s with queue := s.queue ++ [.work s.futures.length fn],
               futures := s.futures ++ [.pending] } := by
    simp [ConnectionEdits.submit, step, putWork, h.stopped, h.submitting]
  rw [hsubmit]
  refine ⟨h.stopped, h.submitting, h.phase, ?_, ?_⟩
  · rw [works_snoc, h.length_futures, ← h.queue]
  · rw [List.map_append, ← List.append_assoc, ← h.futures]
    rfl

theorem take (h : Serving start ran none (fn :: waiting) s) :
    Serving start ran (some fn) waiting (step s .take) := by
  have hqueue : s.queue = .work ran.length fn :: works (ran.length + 1) waiting := h.queue
  have hfutures : s.futures = (outcomes start ran).map Future.ofOutcome ++
      .pending :: waiting.map fun _ => Future.pending := by
    rw [h.futures]
    simp
  have hlength : ((outcomes start ran).map Future.ofOutcome).length = ran.length := by simp
  have hget : s.futures[ran.length]? = some .pending := by
    rw [hfutures, List.getElem?_append_right (le_of_eq hlength), hlength]
    simp
  have htake : step s .take =
      { s with queue := works (ran.length + 1) waiting,
               phase := .running (effects start ran) ran.length fn,
               futures := s.futures.set ran.length .running,
               log := s.log ++ [.began ran.length] } := by
    have hphase : s.phase = .looping (effects start ran) := h.phase
    simp only [step, hphase, takeEntry, hqueue, hget]
    rfl
  rw [htake]
  refine ⟨h.stopped, h.submitting, rfl, rfl, ?_⟩
  rw [hfutures, List.set_append_right _ _ (le_of_eq hlength), hlength]
  simp

/-- With an empty queue, or with a closure running, there is nothing to
take. -/
theorem take_idle (h : Serving start ran current waiting s)
    (hidle : waiting = [] ∨ current ≠ none) : step s .take = s := by
  have hphase := h.phase
  have hqueue := h.queue
  cases current with
  | some running => simp only [step, hphase, servingPhase]
  | none =>
    rcases hidle with rfl | hne
    · simp only [step, hphase, servingPhase, takeEntry, hqueue, works]
    · exact absurd rfl hne

theorem finish (h : Serving start ran (some fn) waiting s) :
    Serving start (ran ++ [fn]) none waiting (step s .finish) := by
  have hphase : s.phase = .running (effects start ran) ran.length fn := h.phase
  have hlength : ((outcomes start ran).map (Future.ofOutcome : _ → Future ε α)).length =
      ran.length := by simp
  have hfinish : step s .finish = finishClosure s (effects start ran) ran.length fn := by
    simp only [step, hphase]
  rw [hfinish]
  refine ⟨h.stopped, h.submitting, ?_, ?_, ?_⟩
  · simp [finishClosure, servingPhase]
  · have hqueue := h.queue
    simpa [finishClosure] using hqueue
  · have hfutures : s.futures = (outcomes start ran).map Future.ofOutcome ++
        .running :: waiting.map fun _ => Future.pending := by
      rw [h.futures]
      simp
    rw [finishClosure, hfutures, List.set_append_right _ _ (le_of_eq hlength), hlength]
    simp

theorem finish_idle (h : Serving start ran none waiting s) : step s .finish = s := by
  have hphase := h.phase
  simp only [step, hphase, servingPhase]

/-- A future is resolved once its closure has run. -/
theorem lt_of_resolved (h : Serving start ran current waiting s) {k : ℕ} {future : Future ε α}
    (hk : s.futures[k]? = some future) (hresolved : future.resolved = true) : k < ran.length := by
  by_contra hge
  have hmem : future ∈ current.toList.map (fun _ => (Future.running : Future ε α)) ++
      waiting.map fun _ => Future.pending := by
    rw [h.futures, List.append_assoc, List.getElem?_append_right (by simp; omega)] at hk
    exact List.mem_of_getElem? hk
  rw [List.mem_append, List.mem_map, List.mem_map] at hmem
  rcases hmem with ⟨-, -, hrunning⟩ | ⟨-, -, hpending⟩
  · rw [← hrunning] at hresolved
    exact absurd hresolved (by simp [Future.resolved])
  · rw [← hpending] at hresolved
    exact absurd hresolved (by simp [Future.resolved])

end Serving

end Service

/-! ## Requests and their handlers -/

/-- A request that overlays buffers, as it comes over the wire. -/
inductive BufferRequest
  /-- One buffer. -/
  | syncBuffer (path text : String)
  /-- Many buffers in one commit. -/
  | syncBuffers (edits : List (String × String))
  deriving DecidableEq

/-- The buffers of a request. -/
def BufferRequest.edits : BufferRequest → List (String × String)
  | .syncBuffer path text => [(path, text)]
  | .syncBuffers edits => edits

/-- What the machine decides: how path texts are resolved, in which order the
map of the i-th request is iterated, and what its commit reads. -/
structure Host where
  /-- The project-relative spelling of a path. -/
  relpath : String → String
  /-- The file of a project-relative path. -/
  resolveSyncPath : String → SystemPath
  /-- The order of a hash map. -/
  iterate : ℕ → List (String × String) → List (String × String)
  /-- An iteration meets every entry once. -/
  iterate_perm : ∀ i edits, (iterate i edits).Perm edits
  /-- The libraries. -/
  crates : Crates
  /-- Disk and clock at the commit of a request. -/
  env : ℕ → Env
  /-- The paths that the engine takes for new at the commit of a request. -/
  isNew : ℕ → SystemPath → Bool

variable (host : Host)

/-- The file a path text names. -/
def Host.file (path : String) : SystemPath := host.resolveSyncPath (host.relpath path)

/-- A dictionary with an entry set. -/
def setItem (dict : List (String × String)) (key value : String) : List (String × String) :=
  if key ∈ dict.map Prod.fst then dict.map fun e => if e.1 = key then (key, value) else e
  else dict ++ [(key, value)]

/-- The dictionary of relative paths that `sync_buffers` builds. -/
def relEdits (edits : List (String × String)) : List (String × String) :=
  edits.foldl (fun dict e => setItem dict (host.relpath e.1) e.2) []

/-- The write of a request; none where the handler refuses its parameters. -/
def handle (i : ℕ) : BufferRequest → Option Request
  | .syncBuffer path text => some (.edit (host.file path) text)
  | .syncBuffers [] => none
  | .syncBuffers (first :: rest) =>
    some (.editMany ((host.iterate i (relEdits host (first :: rest))).map fun e =>
      (host.resolveSyncPath e.1, e.2)))

/-- The closure that a handler submits. -/
def work (i : ℕ) (request : Request) : Closure HeadState CommitError (Option CommitDelta) :=
  fun head =>
    (commit host.crates (host.env i) head (request.mutation (host.isNew i) fun _ => false)).swap

/-- The buffers of the i-th request. -/
def editsOf (sent : List BufferRequest) (i : ℕ) : List (String × String) :=
  (sent[i]?).elim [] BufferRequest.edits

/-- The files that the i-th request names. -/
def filesOf (sent : List BufferRequest) (i : ℕ) : List SystemPath :=
  (editsOf sent i).map fun e => host.file e.1

/-- The closure of the i-th request. -/
def closureOf (sent : List BufferRequest) (i : ℕ) :
    Closure HeadState CommitError (Option CommitDelta) :=
  match (sent[i]?).bind (handle host i) with
  | some request => work host i request
  | none => fun head => (head, .ok none)

theorem mem_setItem {dict : List (String × String)} {key value : String} {e : String × String}
    (h : e ∈ setItem dict key value) : e = (key, value) ∨ e ∈ dict := by
  unfold setItem at h
  split_ifs at h
  · obtain ⟨d, hd, heq⟩ := List.mem_map.mp h
    split_ifs at heq
    · exact Or.inl heq.symm
    · exact Or.inr (heq ▸ hd)
  · rcases List.mem_append.mp h with hold | hnew
    · exact Or.inr hold
    · exact Or.inl (List.mem_singleton.mp hnew)

theorem key_mem_setItem (dict : List (String × String)) (key value other : String) :
    other ∈ (setItem dict key value).map Prod.fst ↔ other = key ∨ other ∈ dict.map Prod.fst := by
  unfold setItem
  split_ifs with hmem
  · have hkeys : (dict.map fun e => if e.1 = key then (key, value) else e).map Prod.fst =
        dict.map Prod.fst := by
      rw [List.map_map]
      refine List.map_congr_left fun e _ => ?_
      by_cases he : e.1 = key
      · simp [he]
      · simp [he]
    rw [hkeys]
    refine ⟨Or.inr, fun h => h.elim (fun heq => heq ▸ hmem) id⟩
  · rw [List.map_append, List.mem_append]
    simp [or_comm]

theorem relEdits_snoc (edits : List (String × String)) (e : String × String) :
    relEdits host (edits ++ [e]) = setItem (relEdits host edits) (host.relpath e.1) e.2 := by
  simp [relEdits]

/-- Every entry of the dictionary comes from a buffer of the request. -/
theorem mem_relEdits {edits : List (String × String)} {d : String × String}
    (h : d ∈ relEdits host edits) : ∃ e ∈ edits, d = (host.relpath e.1, e.2) := by
  induction edits using List.reverseRecOn with
  | nil => exact absurd h (by simp [relEdits])
  | append_singleton edits e ih =>
    rw [relEdits_snoc] at h
    rcases mem_setItem h with heq | hold
    · exact ⟨e, by simp, heq⟩
    · obtain ⟨e', he', heq⟩ := ih hold
      exact ⟨e', List.mem_append_left _ he', heq⟩

/-- Every buffer of the request has an entry in the dictionary. -/
theorem relpath_mem_relEdits {edits : List (String × String)} {e : String × String}
    (h : e ∈ edits) : host.relpath e.1 ∈ (relEdits host edits).map Prod.fst := by
  induction edits using List.reverseRecOn with
  | nil => exact absurd h (by simp)
  | append_singleton edits last ih =>
    rw [relEdits_snoc, key_mem_setItem]
    rcases List.mem_append.mp h with hold | hnew
    · exact Or.inr (ih hold)
    · rw [List.mem_singleton.mp hnew]
      exact Or.inl rfl

/-- What a handler submits: an overlay of exactly the files that the request
names, each with a text that the request gives it. -/
theorem handle_spec {i : ℕ} {r : BufferRequest} {request : Request}
    (h : handle host i r = some request) :
    ∃ edits : List (SystemPath × String),
      (∀ isNew isNewVirtual, request.mutation isNew isNewVirtual = overlayEdits isNew edits) ∧
      (∀ p, p ∈ edits.map Prod.fst ↔ p ∈ r.edits.map fun e => host.file e.1) ∧
      ∀ d ∈ edits, ∃ e ∈ r.edits, d = (host.file e.1, e.2) := by
  cases r with
  | syncBuffer path text =>
    cases h
    exact ⟨[(host.file path, text)], fun _ _ => rfl, fun p => by simp [BufferRequest.edits],
      fun d hd => ⟨(path, text), List.mem_singleton_self _, List.mem_singleton.mp hd⟩⟩
  | syncBuffers all =>
    cases all with
    | nil => cases h
    | cons first rest =>
      cases h
      generalize hall : first :: rest = all
      have hperm := host.iterate_perm i (relEdits host all)
      refine ⟨_, fun _ _ => rfl, fun p => ?_, fun d hd => ?_⟩
      · simp only [BufferRequest.edits, List.map_map, List.mem_map, Function.comp]
        constructor
        · intro hp
          obtain ⟨d, hd, rfl⟩ := hp
          obtain ⟨e, he, rfl⟩ := mem_relEdits host (hperm.mem_iff.mp hd)
          exact ⟨e, he, rfl⟩
        · intro hp
          obtain ⟨e, he, rfl⟩ := hp
          obtain ⟨d, hd, hkey⟩ := List.mem_map.mp (relpath_mem_relEdits host he)
          exact ⟨d, hperm.mem_iff.mpr hd, by rw [hkey, Host.file]⟩
      · obtain ⟨d', hd', rfl⟩ := List.mem_map.mp hd
        obtain ⟨e, he, rfl⟩ := mem_relEdits host (hperm.mem_iff.mp hd')
        exact ⟨e, he, rfl⟩

/-! ## What a closure leaves -/

/-- An overlay that is not refused publishes. -/
theorem commit_overlay_published {crates : Crates} {env : Env} {head : HeadState}
    {isNew : SystemPath → Bool} {edits : List (SystemPath × String)} {result : Option CommitDelta}
    (h : (commit crates env head (overlayEdits isNew edits)).1 = .ok result) :
    ∃ dto, (commit crates env head (overlayEdits isNew edits)).1 = .ok (some dto) := by
  revert h
  unfold commit overlayEdits
  dsimp only [buildPlan]
  split
  · exact fun _ => ⟨_, rfl⟩
  · intro h
    cases h

/-- A batch of inserts gives a path among them one of its texts. -/
theorem textAt_edits (store : Store) {edits : List (SystemPath × String)} {p : SystemPath}
    (hp : p ∈ edits.map Prod.fst) :
    ∃ e ∈ edits, e.1 = p ∧
      (store.stage (edits.map fun e => .insert e.1 e.2)).1.textAt p = some e.2 := by
  rw [textAt_stage]
  generalize heffects : (edits.map fun e => Change.insert e.1 e.2).filterMap (Change.effectAt p) =
    effects
  have hne : effects ≠ [] := by
    intro hnil
    obtain ⟨e, he, hpath⟩ := List.mem_map.mp hp
    have hmem : some e.2 ∈ effects := by
      rw [← heffects, List.mem_filterMap]
      exact ⟨_, List.mem_map_of_mem he, by simp [Change.effectAt, hpath]⟩
    rw [hnil] at hmem
    exact absurd hmem (by simp)
  obtain ⟨last, hlast⟩ : ∃ last, effects.getLast? = some last :=
    ⟨_, List.getLast?_eq_getLast_of_ne_nil hne⟩
  have hmem : last ∈ effects := List.mem_of_getLast? hlast
  rw [← heffects, List.mem_filterMap] at hmem
  obtain ⟨c, hc, heffect⟩ := hmem
  obtain ⟨e, he, rfl⟩ := List.mem_map.mp hc
  have hpath : e.1 = p := by
    by_contra hother
    simp [Change.effectAt, hother] at heffect
  refine ⟨e, he, hpath, ?_⟩
  rw [hlast, Option.getD_some]
  simpa [Change.effectAt, hpath] using heffect.symm

/-- The head shows a buffer of the i-th request at a file. -/
def Shows (sent : List BufferRequest) (head : HeadState) (p : SystemPath) (i : ℕ) : Prop :=
  p ∈ head.unsavedOverlays ∧
    ∃ e ∈ editsOf sent i, host.file e.1 = p ∧ head.store.generation.textAt p = some e.2

/-- A closure that does not raise shows its own buffers and leaves the other
ones. -/
theorem closureOf_shows {sent : List BufferRequest} {head : HeadState} (hs : InStep head) {i : ℕ}
    (hhandled : ((sent[i]?).bind (handle host i)).isSome = true) {result : Option CommitDelta}
    (hok : (closureOf host sent i head).2 = .ok result) :
    (∀ p ∈ filesOf host sent i, Shows host sent (closureOf host sent i head).1 p i) ∧
      ∀ p, p ∉ filesOf host sent i → ∀ j, Shows host sent head p j →
        Shows host sent (closureOf host sent i head).1 p j := by
  obtain ⟨request, hrequest⟩ := Option.isSome_iff_exists.mp hhandled
  obtain ⟨r, hr, hhandle⟩ := Option.bind_eq_some_iff.mp hrequest
  obtain ⟨edits, hmutation, hfiles, hedits⟩ := handle_spec host hhandle
  have hclosure : closureOf host sent i head =
      (commit host.crates (host.env i) head (overlayEdits (host.isNew i) edits)).swap := by
    rw [closureOf, hrequest]
    simp only [work, hmutation]
  have heditsOf : editsOf sent i = r.edits := by simp [editsOf, hr]
  have hfilesOf : ∀ p, p ∈ filesOf host sent i ↔ p ∈ edits.map Prod.fst := by
    intro p
    rw [hfiles, filesOf, heditsOf]
  rw [hclosure] at hok ⊢
  obtain ⟨dto, hdto⟩ := commit_overlay_published hok
  have hcontent := commit_ok_content hs hdto
  have hunsaved : ∀ p, p ∈ (commit host.crates (host.env i) head
      (overlayEdits (host.isNew i) edits)).2.unsavedOverlays ↔
        p ∈ head.unsavedOverlays ∨ p ∈ edits.map Prod.fst := by
    intro p
    rw [hcontent.2]
    simp only [overlayEdits, gained, lost, List.toFinset_nil, Finset.sdiff_empty, Finset.mem_union,
      List.mem_toFinset]
  refine ⟨fun p hp => ?_, fun p hp j hj => ?_⟩
  · have hmem := (hfilesOf p).mp hp
    obtain ⟨d, hd, hpath, htext⟩ := textAt_edits head.store hmem
    obtain ⟨e, he, rfl⟩ := hedits d hd
    refine ⟨(hunsaved p).mpr (Or.inr hmem), e, heditsOf ▸ he, hpath, ?_⟩
    rw [Prod.fst_swap, hcontent.1]
    exact htext
  · obtain ⟨hin, e, he, hpath, htext⟩ := hj
    refine ⟨(hunsaved p).mpr (Or.inl hin), e, he, hpath, ?_⟩
    have hnot : setsAt (edits.map fun e => .insert e.1 e.2) p = false :=
      Bool.eq_false_iff.mpr fun hsets => hp ((hfilesOf p).mpr ((setsAt_edits edits p).mp hsets))
    have hlookup := lookup_stage_of_not_setsAt (s := head.store) hnot
    have hplanned : plannedChanges host.crates (host.env i) head
        (overlayEdits (host.isNew i) edits) = edits.map fun e => .insert e.1 e.2 := rfl
    rw [Prod.fst_swap, hcontent.1, hplanned, ← htext, ContentMap.textAt, ContentMap.textAt,
      hlookup]

/-- A closure leaves a head of a session. -/
theorem reachable_closureOf {sent : List BufferRequest} {head : HeadState}
    (hr : Reachable host.crates head) (i : ℕ) :
    Reachable host.crates (closureOf host sent i head).1 := by
  unfold closureOf
  cases (sent[i]?).bind (handle host i) with
  | some request =>
    exact .step hr (.commit (host.env i) (request.mutation (host.isNew i) fun _ => false))
  | none => exact hr

/-- The j-th request is the last one sent that names a file. -/
def LastNaming (sent : List BufferRequest) (j : ℕ) (p : SystemPath) : Prop :=
  p ∈ filesOf host sent j ∧ ∀ k < sent.length, j < k → p ∉ filesOf host sent k

/-- No request is followed by another one that names a file for which it is
the last one sent. -/
def KeepsLast (sent : List BufferRequest) (order : List ℕ) : Prop :=
  order.Pairwise fun j i => ∀ p, LastNaming host sent j p → p ∉ filesOf host sent i

/-- After closures in such an order every file shows the last buffer sent. -/
theorem effects_shows {sent : List BufferRequest} {head : HeadState}
    (hr : Reachable host.crates head) {order : List ℕ}
    (hhandled : ∀ i ∈ order, ((sent[i]?).bind (handle host i)).isSome = true)
    (hok : ∀ o ∈ outcomes head (order.map (closureOf host sent)), ∃ result, o = .ok result)
    (horder : KeepsLast host sent order) :
    Reachable host.crates (effects head (order.map (closureOf host sent))) ∧
      ∀ j ∈ order, ∀ p, LastNaming host sent j p →
        Shows host sent (effects head (order.map (closureOf host sent))) p j := by
  induction order using List.reverseRecOn with
  | nil => exact ⟨hr, fun j hj => absurd hj (by simp)⟩
  | append_singleton order i ih =>
    simp only [List.map_append, List.map_cons, List.map_nil, effects_snoc, outcomes_snoc,
      List.mem_append, List.mem_singleton] at hok hhandled ⊢
    have hparts := List.pairwise_append.mp horder
    obtain ⟨hreach, hshows⟩ := ih (fun j hj => hhandled j (Or.inl hj))
      (fun o ho => hok o (Or.inl ho)) hparts.1
    generalize effects head (order.map (closureOf host sent)) = before at hok hreach hshows ⊢
    obtain ⟨result, hresult⟩ := hok _ (Or.inr rfl)
    have hclosure := closureOf_shows host (inStep_of_reachable hreach) (hhandled i (Or.inr rfl))
      hresult
    refine ⟨reachable_closureOf host hreach i, fun j hj p hlast => ?_⟩
    rcases hj with hold | rfl
    · exact hclosure.2 p (hparts.2.2 j hold i (by simp) p hlast) j (hshows j hold p hlast)
    · exact hclosure.1 p hlast.1

/-! ## The connection -/

/-- The reader, the pool, its workers and the actor. Requests are known by
their place in the order in which they were sent. -/
structure Conn where
  /-- How many lines the reader has handed to the pool. -/
  read : ℕ
  /-- Requests in the queue of the pool. -/
  pooled : List ℕ
  /-- Requests that workers have taken and not yet enqueued at the actor. -/
  taken : List ℕ
  /-- Requests whose workers wait for the actor. -/
  waiting : List ℕ
  /-- Requests that are replied to. -/
  replied : List ℕ
  /-- Requests in the order in which the actor got them. -/
  enqueued : List ℕ
  /-- The actor. -/
  actor : State HeadState CommitError (Option CommitDelta)

/-- A new connection to an open session. -/
def Conn.new (head : HeadState) : Conn := ⟨0, [], [], [], [], [], openActor head⟩

/-- What happens next. -/
inductive Move
  /-- The reader reads a line and hands it to the pool. -/
  | read
  /-- A worker takes the oldest request of the pool. -/
  | work
  /-- A worker runs the handler of its request up to the wait. -/
  | handle (request : ℕ)
  /-- The actor takes a closure. -/
  | take
  /-- The closure of the actor ends. -/
  | finish
  /-- A worker whose future is resolved replies. -/
  | reply (request : ℕ)

/-- The bound of the pool. -/
def maxWorkers : ℕ := 8

/-- The future of a request is resolved. -/
def Conn.answered (s : Conn) (i : ℕ) : Bool :=
  (s.actor.futures[s.enqueued.idxOf i]?).any Future.resolved

/-- One move; a move that is not possible changes nothing. -/
def move (sent : List BufferRequest) (s : Conn) : Move → Conn
  | .read =>
    if s.read < sent.length then { s with read := s.read + 1, pooled := s.pooled ++ [s.read] }
    else s
  | .work =>
    match s.pooled with
    | [] => s
    | i :: rest =>
      if s.taken.length + s.waiting.length < maxWorkers then
        { s with pooled := rest, taken := s.taken ++ [i] }
      else s
  | .handle i =>
    if i ∈ s.taken then
      match (sent[i]?).bind (handle host i) with
      | some request =>
        { s with taken := s.taken.erase i, waiting := s.waiting ++ [i],
                 enqueued := s.enqueued ++ [i], actor := submit s.actor (work host i request) }
      | none => { s with taken := s.taken.erase i, replied := s.replied ++ [i] }
    else s
  | .take => { s with actor := step s.actor .take }
  | .finish => { s with actor := step s.actor .finish }
  | .reply i =>
    if i ∈ s.waiting ∧ s.answered i = true then
      { s with waiting := s.waiting.erase i, replied := s.replied ++ [i] }
    else s

/-- A handler does not enqueue after the last request sent that names one of
its files. -/
def InOrder (sent : List BufferRequest) (s : Conn) : Move → Prop
  | .handle i => i ∈ s.taken → ∀ p ∈ filesOf host sent i, ∀ j ∈ s.enqueued,
      p ∈ filesOf host sent j → ∃ k < sent.length, j < k ∧ p ∈ filesOf host sent k
  | _ => True

instance InOrder.decidable (sent : List BufferRequest) (s : Conn) :
    ∀ m, Decidable (InOrder host sent s m)
  | .handle i => inferInstanceAs (Decidable (i ∈ s.taken → ∀ p ∈ filesOf host sent i,
      ∀ j ∈ s.enqueued, p ∈ filesOf host sent j →
        ∃ k < sent.length, j < k ∧ p ∈ filesOf host sent k))
  | .read => isTrue trivial
  | .work => isTrue trivial
  | .take => isTrue trivial
  | .finish => isTrue trivial
  | .reply _ => isTrue trivial

/-- The invariant of a connection. -/
structure Conn.Inv (sent : List BufferRequest) (head : HeadState) (s : Conn) : Prop where
  /-- The actor has the closures of the enqueued requests, and the requests
  replied to have run. -/
  serving : ∃ ran current waiting, Serving head ran current waiting s.actor ∧
    ran ++ current.toList ++ waiting = s.enqueued.map (closureOf host sent) ∧
    ∀ k i : ℕ, s.enqueued[k]? = some i → i ∈ s.replied → k < ran.length
  /-- Every request is in one place. -/
  nodup : (s.pooled ++ s.taken ++ s.enqueued).Nodup
  /-- It has been read. -/
  below : ∀ i ∈ s.pooled ++ s.taken ++ s.enqueued, i < s.read
  /-- Who waits has enqueued. -/
  waiting : ∀ i ∈ s.waiting, i ∈ s.enqueued
  /-- A reply without enqueueing is a refusal. -/
  replied : ∀ i ∈ s.replied, ((sent[i]?).bind (handle host i)).isSome = true → i ∈ s.enqueued
  /-- A refused request is not enqueued. -/
  handled : ∀ i ∈ s.enqueued, ((sent[i]?).bind (handle host i)).isSome = true
  /-- The order is kept as far as it matters. -/
  order : KeepsLast host sent s.enqueued

variable {host} {sent : List BufferRequest} {head : HeadState} {s : Conn}

theorem inv_new : (Conn.new head).Inv host sent head := by
  refine ⟨⟨[], none, [], serving_openActor head, rfl, fun k i hk => ?_⟩, ?_, ?_, ?_, ?_, ?_, ?_⟩
  · simp [Conn.new] at hk
  all_goals simp [Conn.new, KeepsLast]

theorem inv_read (hs : s.Inv host sent head) : (move host sent s .read).Inv host sent head := by
  simp only [move]
  split_ifs with hmore
  · have hperm : (s.pooled ++ [s.read] ++ s.taken ++ s.enqueued).Perm
        (s.read :: (s.pooled ++ s.taken ++ s.enqueued)) := by
      simp only [List.append_assoc, List.singleton_append]
      exact List.perm_middle
    refine ⟨hs.serving, ?_, fun i hi => ?_, hs.waiting, hs.replied, hs.handled, hs.order⟩
    · refine hperm.nodup_iff.mpr (List.nodup_cons.mpr ⟨fun hmem => ?_, hs.nodup⟩)
      exact lt_irrefl _ (hs.below _ hmem)
    · rcases List.mem_cons.mp (hperm.mem_iff.mp hi) with rfl | hold
      · exact Nat.lt_succ_self _
      · exact Nat.lt_succ_of_lt (hs.below i hold)
  · exact hs

theorem inv_work (hs : s.Inv host sent head) : (move host sent s .work).Inv host sent head := by
  simp only [move]
  split
  · exact hs
  · rename_i i rest hpooled
    split_ifs
    · have hperm : (rest ++ (s.taken ++ [i]) ++ s.enqueued).Perm
          (s.pooled ++ s.taken ++ s.enqueued) := by
        rw [hpooled]
        simp only [List.append_assoc, List.cons_append]
        exact (List.perm_append_left_iff rest |>.mpr List.perm_middle).trans List.perm_middle
      exact ⟨hs.serving, hperm.nodup_iff.mpr hs.nodup,
        fun j hj => hs.below j (hperm.mem_iff.mp hj), hs.waiting, hs.replied, hs.handled, hs.order⟩
    · exact hs

/-- A request that a worker has taken is not enqueued. -/
theorem Conn.Inv.not_enqueued (hs : s.Inv host sent head) {i : ℕ} (hi : i ∈ s.taken) :
    i ∉ s.enqueued := fun hin =>
  (List.disjoint_of_nodup_append hs.nodup) (List.mem_append_right _ hi) hin

theorem inv_handle (hs : s.Inv host sent head) {i : ℕ} (hin : InOrder host sent s (.handle i)) :
    (move host sent s (.handle i)).Inv host sent head := by
  simp only [move]
  split_ifs with htaken
  · have hfresh := hs.not_enqueued htaken
    have hsub : (s.pooled ++ s.taken.erase i ++ s.enqueued).Sublist
        (s.pooled ++ s.taken ++ s.enqueued) :=
      ((List.Sublist.refl _).append List.erase_sublist).append (List.Sublist.refl _)
    obtain ⟨ran, current, waiting, hserving, hclosures, hran⟩ := hs.serving
    split
    · rename_i request hrequest
      have hclosure : closureOf host sent i = work host i request := by
        rw [closureOf, hrequest]
      have hperm : (s.pooled ++ s.taken.erase i ++ (s.enqueued ++ [i])).Perm
          (s.pooled ++ s.taken ++ s.enqueued) := by
        have hlast : (s.taken.erase i ++ (s.enqueued ++ [i])).Perm
            (i :: s.taken.erase i ++ s.enqueued) := by
          rw [← List.append_assoc]
          exact List.perm_append_singleton _ _
        have htail : (s.taken.erase i ++ (s.enqueued ++ [i])).Perm (s.taken ++ s.enqueued) :=
          hlast.trans ((List.perm_cons_erase htaken).symm.append_right _)
        rw [List.append_assoc, List.append_assoc]
        exact htail.append_left _
      refine ⟨⟨ran, current, waiting ++ [work host i request], hserving.submit _, ?_, ?_⟩,
        hperm.nodup_iff.mpr hs.nodup, fun j hj => hs.below j (hperm.mem_iff.mp hj), ?_, ?_, ?_, ?_⟩
      · rw [← List.append_assoc, hclosures, List.map_append, ← hclosure]
        rfl
      · intro k j hk hreplied
        rcases lt_or_ge k s.enqueued.length with hlt | hge
        · rw [List.getElem?_append_left hlt] at hk
          exact hran k j hk hreplied
        · rw [List.getElem?_append_right hge] at hk
          have hj : j = i := by
            have hmem := List.mem_of_getElem? hk
            exact List.mem_singleton.mp hmem
          rw [hj] at hreplied
          exact absurd (hs.replied i hreplied (by rw [hrequest]; rfl)) hfresh
      · intro j hj
        rcases List.mem_append.mp hj with hold | hnew
        · exact List.mem_append_left _ (hs.waiting j hold)
        · exact List.mem_append_right _ hnew
      · exact fun j hj hsome => List.mem_append_left _ (hs.replied j hj hsome)
      · intro j hj
        rcases List.mem_append.mp hj with hold | hnew
        · exact hs.handled j hold
        · rw [List.mem_singleton.mp hnew, hrequest]
          rfl
      · refine List.pairwise_append.mpr ⟨hs.order, List.pairwise_singleton _ _, ?_⟩
        intro j hj i' hi' p hlast hp
        rw [List.mem_singleton.mp hi'] at hp
        obtain ⟨k, hk, hjk, hpk⟩ := hin htaken p hp j hj hlast.1
        exact hlast.2 k hk hjk hpk
    · rename_i hnone
      refine ⟨⟨ran, current, waiting, hserving, hclosures, ?_⟩, hs.nodup.sublist hsub,
        fun j hj => hs.below j (hsub.subset hj), hs.waiting, ?_, hs.handled, hs.order⟩
      · intro k j hk hreplied
        rcases List.mem_append.mp hreplied with hold | hnew
        · exact hran k j hk hold
        · rw [List.mem_singleton.mp hnew] at hk
          exact absurd (List.mem_of_getElem? hk) hfresh
      · intro j hj hsome
        rcases List.mem_append.mp hj with hold | hnew
        · exact hs.replied j hold hsome
        · rw [List.mem_singleton.mp hnew, hnone] at hsome
          exact absurd hsome (by simp)
  · exact hs

theorem inv_take (hs : s.Inv host sent head) : (move host sent s .take).Inv host sent head := by
  obtain ⟨ran, current, waiting, hserving, hclosures, hran⟩ := hs.serving
  simp only [move]
  refine ⟨?_, hs.nodup, hs.below, hs.waiting, hs.replied, hs.handled, hs.order⟩
  cases current with
  | some fn =>
    rw [hserving.take_idle (Or.inr (by simp))]
    exact hs.serving
  | none =>
    cases waiting with
    | nil =>
      rw [hserving.take_idle (Or.inl rfl)]
      exact hs.serving
    | cons fn rest =>
      refine ⟨ran, some fn, rest, hserving.take, ?_, hran⟩
      rw [← hclosures]
      simp

theorem inv_finish (hs : s.Inv host sent head) :
    (move host sent s .finish).Inv host sent head := by
  obtain ⟨ran, current, waiting, hserving, hclosures, hran⟩ := hs.serving
  simp only [move]
  refine ⟨?_, hs.nodup, hs.below, hs.waiting, hs.replied, hs.handled, hs.order⟩
  cases current with
  | none =>
    rw [hserving.finish_idle]
    exact hs.serving
  | some fn =>
    refine ⟨ran ++ [fn], none, waiting, hserving.finish, ?_, fun k i hk hi => ?_⟩
    · rw [← hclosures]
      simp
    · have hlt := hran k i hk hi
      simp only [List.length_append, List.length_cons]
      omega

theorem inv_reply (hs : s.Inv host sent head) (i : ℕ) :
    (move host sent s (.reply i)).Inv host sent head := by
  obtain ⟨ran, current, waiting, hserving, hclosures, hran⟩ := hs.serving
  simp only [move]
  split_ifs with hcan
  · have henqueued := hs.waiting i hcan.1
    refine ⟨⟨ran, current, waiting, hserving, hclosures, ?_⟩, hs.nodup, hs.below,
      fun j hj => hs.waiting j (List.mem_of_mem_erase hj), ?_, hs.handled, hs.order⟩
    · intro k j hk hreplied
      rcases List.mem_append.mp hreplied with hold | hnew
      · exact hran k j hk hold
      · -- a request is enqueued once, so its future is the one it waits for
        rw [List.mem_singleton.mp hnew] at hk
        have hnodup : s.enqueued.Nodup := (List.nodup_append.mp hs.nodup).2.1
        have hplace : s.enqueued.idxOf i = k := by
          obtain ⟨hlt, hget⟩ := List.getElem?_eq_some_iff.mp hk
          rw [← hget]
          exact hnodup.idxOf_getElem k hlt
        have hanswered := hcan.2
        rw [Conn.answered, hplace, Option.any_eq_true] at hanswered
        obtain ⟨future, hfuture, hresolved⟩ := hanswered
        exact hserving.lt_of_resolved hfuture hresolved
    · intro j hj hsome
      rcases List.mem_append.mp hj with hold | hnew
      · exact hs.replied j hold hsome
      · rw [List.mem_singleton.mp hnew]
        exact henqueued
  · exact hs

theorem inv_move (s : Conn) (m : Move) (hs : s.Inv host sent head) (hm : InOrder host sent s m) :
    (move host sent s m).Inv host sent head := by
  cases m with
  | read => exact inv_read hs
  | work => exact inv_work hs
  | handle i => exact inv_handle hs hm
  | take => exact inv_take hs
  | finish => exact inv_finish hs
  | reply i => exact inv_reply hs i

/-- The future raised. -/
def raised : Future CommitError (Option CommitDelta) → Bool
  | .exception _ => true
  | _ => false

/-- A handler only refuses a request without buffers. -/
theorem handle_isSome {j : ℕ} {p : SystemPath} (hp : p ∈ filesOf host sent j) :
    j < sent.length ∧ ((sent[j]?).bind (handle host j)).isSome = true := by
  obtain ⟨e, he, -⟩ := List.mem_map.mp hp
  cases hsent : sent[j]? with
  | none => simp [editsOf, hsent] at he
  | some r =>
    refine ⟨(List.getElem?_eq_some_iff.mp hsent).1, ?_⟩
    rw [editsOf, hsent] at he
    cases r with
    | syncBuffer path text => rfl
    | syncBuffers edits =>
      cases edits with
      | nil => exact absurd he (by simp [BufferRequest.edits])
      | cons first rest => rfl

/-- Once all requests are replied to, the actor has run their closures and
nothing else. -/
theorem Conn.Inv.settled (hs : s.Inv host sent head)
    (hreplied : ∀ i < sent.length, i ∈ s.replied) :
    Serving head (s.enqueued.map (closureOf host sent)) none [] s.actor := by
  obtain ⟨ran, current, waiting, hserving, hclosures, hran⟩ := hs.serving
  have hall : s.enqueued.length ≤ ran.length := by
    by_contra hlt
    have hget : s.enqueued[ran.length]? = some (s.enqueued[ran.length]) :=
      List.getElem?_eq_getElem (Nat.lt_of_not_le hlt)
    have hhandled := hs.handled _ (List.mem_of_getElem? hget)
    obtain ⟨request, hrequest⟩ := Option.isSome_iff_exists.mp hhandled
    obtain ⟨r, hr, -⟩ := Option.bind_eq_some_iff.mp hrequest
    have hread := hreplied _ (List.getElem?_eq_some_iff.mp hr).1
    exact lt_irrefl _ (hran _ _ hget hread)
  have hlength := congrArg List.length hclosures
  simp only [List.length_append, List.length_map] at hlength
  have hcurrent : current = none := by
    cases current with
    | none => rfl
    | some fn =>
      simp only [Option.toList_some, List.length_cons] at hlength
      omega
  have hwaiting : waiting = [] := List.eq_nil_of_length_eq_zero (by omega)
  subst hcurrent hwaiting
  have hran' : ran = s.enqueued.map (closureOf host sent) := by
    rw [← hclosures]
    simp
  rw [← hran']
  exact hserving

/-- In every run in which no handler enqueues after the last request sent that
names one of its files: once all requests are replied to and no commit has
raised, every file that was named shows the buffer of the last request in the
order of sending. -/
theorem last_sent_shows (hr : Reachable host.crates head) (moves : List Move)
    (horder : Along (move host sent) (InOrder host sent) (Conn.new head) moves)
    (hreplied : ∀ i < sent.length, i ∈ (run (move host sent) (Conn.new head) moves).replied)
    (hok : ∀ f ∈ (run (move host sent) (Conn.new head) moves).actor.futures, raised f = false) :
    ∃ final, (run (move host sent) (Conn.new head) moves).actor.phase = .looping final ∧
      ∀ p j, LastNaming host sent j p → Shows host sent final p j := by
  have hinv : (run (move host sent) (Conn.new head) moves).Inv host sent head :=
    invariant_run (fun s m hs hm => inv_move s m hs hm) inv_new horder
  generalize run (move host sent) (Conn.new head) moves = s at hinv hreplied hok ⊢
  have hserving := hinv.settled hreplied
  have houtcomes : ∀ o ∈ outcomes head (s.enqueued.map (closureOf host sent)),
      ∃ result, o = .ok result := by
    intro o ho
    have hmem : Future.ofOutcome o ∈ s.actor.futures := by
      rw [hserving.futures, List.append_assoc]
      exact List.mem_append_left _ (List.mem_map_of_mem ho)
    have hraised := hok _ hmem
    cases o with
    | ok result => exact ⟨result, rfl⟩
    | error error => exact absurd hraised (by simp [Future.ofOutcome, raised])
  have hshows := effects_shows host hr hinv.handled houtcomes hinv.order
  refine ⟨_, hserving.phase, fun p j hlast => hshows.2 j ?_ p hlast⟩
  have hnamed := handle_isSome hlast.1
  exact hinv.replied j (hreplied j hnamed.1) hnamed.2

/-- A machine with a project of two modules. -/
def twoHost : Host where
  relpath := id
  resolveSyncPath path := ⟨["p", path]⟩
  iterate _ edits := edits
  iterate_perm _ _ := List.Perm.refl _
  crates := listedCrates twoPaths
  env _ := listedEnv twoPaths twoModules
  isNew _ _ := false

theorem reachable_twoHead : Reachable twoHost.crates twoHead :=
  have hopen : openHead (listedCrates twoPaths) (listedEnv twoPaths twoModules)
    (freshOpening ⟨["p"]⟩) = .ok twoHead := rfl
  .opened hopen

/-- One buffer typed twice. -/
def typed : List BufferRequest := [.syncBuffer "b.py" "x = 1", .syncBuffer "b.py" "x = 2"]

/-- The moves of two requests that two workers take, by the order in which
they enqueue. -/
def typing (first second : ℕ) : List Move :=
  [.read, .read, .work, .work, .handle first, .handle second, .take, .finish, .take, .finish,
    .reply second, .reply first]

/-- The text that the session holds for a file. -/
def Conn.text (s : Conn) (p : SystemPath) : Option String :=
  match s.actor.phase with
  | .looping head => head.store.generation.textAt p
  | _ => none

theorem last_sent_shows_typed :
    ∃ final, (run (move twoHost typed) (Conn.new twoHead) (typing 0 1)).actor.phase =
        .looping final ∧ Shows twoHost typed final ⟨["p", "b.py"]⟩ 1 := by
  obtain ⟨final, hphase, hshows⟩ := @last_sent_shows twoHost typed twoHead reachable_twoHead
    (typing 0 1) (by decide +kernel) (by decide +kernel) (by decide +kernel)
  exact ⟨final, hphase, hshows _ 1 ⟨by decide, by decide⟩⟩

theorem overtaken_request_wins :
    ¬ ∀ moves : List Move,
      (∀ i < typed.length, i ∈ (run (move twoHost typed) (Conn.new twoHead) moves).replied) →
      (∀ f ∈ (run (move twoHost typed) (Conn.new twoHead) moves).actor.futures,
        raised f = false) →
      ∃ final, (run (move twoHost typed) (Conn.new twoHead) moves).actor.phase = .looping final ∧
        ∀ p j, LastNaming twoHost typed j p → Shows twoHost typed final p j := by
  intro h
  obtain ⟨final, hphase, hshows⟩ := h (typing 1 0) (by decide +kernel) (by decide +kernel)
  obtain ⟨-, e, he, -, htext⟩ := hshows ⟨["p", "b.py"]⟩ 1 ⟨by decide, by decide⟩
  have hlast : (run (move twoHost typed) (Conn.new twoHead) (typing 1 0)).text ⟨["p", "b.py"]⟩ =
      some "x = 1" := by decide +kernel
  simp only [Conn.text, hphase] at hlast
  have hsent : e = ("b.py", "x = 2") := List.mem_singleton.mp he
  rw [htext, hsent] at hlast
  exact absurd hlast (by decide)

end Tyo3.ConnectionEdits
