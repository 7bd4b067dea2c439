import Mathlib.Order.Interval.Finset.Nat
import Tyo3.Configuration
import Tyo3.ContentStore

/-!
# The window of retained revisions

Every publication records its generation and drops the oldest ones beyond
the cap. With a positive cap the kept revisions are an interval that ends at
the head. Validation does not look at the cap, and a cap of zero drops the
generation that was just recorded.
-/

namespace Tyo3.RetainedRevisions

open FiniteMaps Entities ContentStore Tyo3.Configuration

/-- A call on the store. -/
inductive Operation where
  | applyBatch (changes : List Change)
  | stage (changes : List Change)
  | publishStaged (generation : ContentMap)

/-- The store after a call. -/
def Operation.run (s : Store) : Operation → Store
  | .applyBatch changes => s.applyBatch changes
  | .stage changes => (s.stage changes).2
  | .publishStaged generation => s.publishStaged generation

/-- The store after a sequence of calls. -/
def runAll (s : Store) (operations : List Operation) : Store := operations.foldl Operation.run s

/-- The lower end of the last revisions within a cap. -/
def windowStart (cap head : ℕ) : ℕ := head + 1 - min cap (head + 1)

/-- The kept revisions are the last ones within the cap, the head among
them. -/
structure Windowed (s : Store) : Prop where
  /-- The head is kept with the content a snapshot pins. -/
  head : s.generationAt s.revision = some s.capture
  /-- Exactly the last revisions are kept. -/
  window : s.retained.keys = Finset.Ico (windowStart s.retainCap s.revision) (s.revision + 1)
  /-- The oldest kept revision is the lower end. -/
  oldest : s.oldestRetained = windowStart s.retainCap s.revision

/-! ## Dropping the oldest generations -/

/-- The least key of a map over an interval is its lower end. -/
theorem head?_keys {m : FMap ℕ ContentMap} {start stop : ℕ}
    (hkeys : m.keys = Finset.Ico start stop) (hlt : start < stop) :
    (HashOrder.increasing.order m.keys).head? = some start := by
  have hmem : start ∈ m.keys := by
    rw [hkeys, Finset.mem_Ico]
    omega
  have hleast : ∀ other ∈ m.keys, start ≤ other := by
    intro other hother
    rw [hkeys, Finset.mem_Ico] at hother
    omega
  exact HashOrder.head?_increasing hmem hleast

/-- The oldest generation of an interval stands at its lower end. -/
theorem dropOldest_eq {m : FMap ℕ ContentMap} {start stop : ℕ}
    (hkeys : m.keys = Finset.Ico start stop) (hlt : start < stop) :
    Store.dropOldest m = m.erase start := by
  unfold Store.dropOldest
  rw [head?_keys hkeys hlt]

/-- Dropping shortens an interval at its lower end. -/
theorem keys_dropOldest {m : FMap ℕ ContentMap} {start stop : ℕ}
    (hkeys : m.keys = Finset.Ico start stop) (hlt : start < stop) :
    (Store.dropOldest m).keys = Finset.Ico (start + 1) stop := by
  have herase : (m.erase start).keys = Finset.Ico (start + 1) stop := by
    ext rev
    rw [Finmap.mem_keys, Finmap.mem_erase, ← Finmap.mem_keys, hkeys]
    simp only [Finset.mem_Ico]
    omega
  rw [dropOldest_eq hkeys hlt]
  exact herase

/-- Dropping several times shortens an interval as often and keeps the
generations that stay. -/
theorem iterate_dropOldest (count : ℕ) {m : FMap ℕ ContentMap} {start stop : ℕ}
    (hkeys : m.keys = Finset.Ico start stop) (hle : start + count ≤ stop) :
    (Store.dropOldest^[count] m).keys = Finset.Ico (start + count) stop ∧
      ∀ rev, start + count ≤ rev → (Store.dropOldest^[count] m).lookup rev = m.lookup rev := by
  induction count generalizing m start with
  | zero => exact ⟨hkeys, fun _ _ => rfl⟩
  | succ count ih =>
    have hlt : start < stop := by omega
    have hrest := ih (keys_dropOldest hkeys hlt) (by omega)
    have hshift : start + 1 + count = start + (count + 1) := by omega
    rw [hshift] at hrest
    refine ⟨hrest.1, fun rev hrev => ?_⟩
    have hne : rev ≠ start := by omega
    rw [Function.iterate_succ_apply, hrest.2 rev hrev, dropOldest_eq hkeys hlt, lookup_erase_ite,
      if_neg hne]

/-! ## One publication -/

/-- Recording a generation after the head and dropping what is beyond a
positive cap moves the window by one. -/
theorem keys_record {m : FMap ℕ ContentMap} {cap head : ℕ} (hcap : 1 ≤ cap)
    (hkeys : m.keys = Finset.Ico (windowStart cap head) (head + 1)) (generation : ContentMap)
    {kept : FMap ℕ ContentMap}
    (hkept : kept = Store.dropOldest^[(m.insert (head + 1) generation).keys.card - cap]
      (m.insert (head + 1) generation)) :
    kept.keys = Finset.Ico (windowStart cap (head + 1)) (head + 1 + 1) ∧
      ∀ rev, windowStart cap (head + 1) ≤ rev →
        kept.lookup rev = if rev = head + 1 then some generation else m.lookup rev := by
  have hstart : windowStart cap head = head + 1 - min cap (head + 1) := rfl
  have hnext : windowStart cap (head + 1) = head + 1 + 1 - min cap (head + 1 + 1) := rfl
  have hinsert : (m.insert (head + 1) generation).keys =
      Finset.Ico (windowStart cap head) (head + 1 + 1) := by
    ext rev
    rw [Finmap.mem_keys, Finmap.mem_insert, ← Finmap.mem_keys, hkeys]
    simp only [Finset.mem_Ico]
    omega
  have hcount : windowStart cap head + (head + 1 + 1 - windowStart cap head - cap) =
      windowStart cap (head + 1) := by omega
  have hdrop := iterate_dropOldest (head + 1 + 1 - windowStart cap head - cap) hinsert (by omega)
  rw [hcount] at hdrop
  rw [hinsert, Nat.card_Ico] at hkept
  rw [hkept]
  refine ⟨hdrop.1, fun rev hrev => ?_⟩
  rw [hdrop.2 rev hrev, lookup_insert_ite]

/-- What a publication does to a store: a new head, recorded within the
cap. -/
structure Publishes (s s' : Store) : Prop where
  /-- The cap stays. -/
  cap : s'.retainCap = s.retainCap
  /-- One revision is added. -/
  revision : s'.revision = s.revision + 1
  /-- The new head is recorded and the oldest generations are dropped. -/
  retained : s'.retained =
    Store.dropOldest^[(s.retained.insert (s.revision + 1) s'.generation).keys.card - s.retainCap]
      (s.retained.insert (s.revision + 1) s'.generation)

/-- A publication keeps the window, and a revision that stays kept keeps its
generation. -/
theorem Publishes.windowed {s s' : Store} (hp : Publishes s s') (hcap : 1 ≤ s.retainCap)
    (h : Windowed s) :
    Windowed s' ∧ ∀ rev g g', s.generationAt rev = some g → s'.generationAt rev = some g' →
      g' = g := by
  have hrecord := keys_record hcap h.window s'.generation hp.retained
  have hnext : windowStart s.retainCap (s.revision + 1) =
      s.revision + 1 + 1 - min s.retainCap (s.revision + 1 + 1) := rfl
  refine ⟨⟨?_, ?_, ?_⟩, ?_⟩
  · have hhead := hrecord.2 (s.revision + 1) (by rw [hnext]; exact Nat.sub_le_of_le_add (by omega))
    rw [if_pos rfl] at hhead
    unfold Store.generationAt Store.capture
    rw [hp.revision]
    exact hhead
  · rw [hp.cap, hp.revision]
    exact hrecord.1
  · unfold Store.oldestRetained
    rw [head?_keys hrecord.1 (by rw [hnext]; omega), Option.getD_some, hp.cap, hp.revision]
  · intro rev g g' hg hg'
    have hbefore : rev ∈ s.retained.keys := (mem_keys_iff _ _).mpr ⟨g, hg⟩
    rw [h.window, Finset.mem_Ico] at hbefore
    have hafter : rev ∈ s'.retained.keys := (mem_keys_iff _ _).mpr ⟨g', hg'⟩
    rw [hrecord.1, Finset.mem_Ico] at hafter
    have hlookup := hrecord.2 rev hafter.1
    rw [if_neg (Nat.ne_of_lt hbefore.2)] at hlookup
    exact Option.some.inj (hg'.symm.trans (hlookup.trans hg))

/-- Staging leaves the window alone; the other calls publish. -/
theorem Operation.run_cases (s : Store) (operation : Operation) :
    Publishes s (operation.run s) ∨
      ∃ counter, operation.run s = { s with versionCounter := counter } := by
  cases operation with
  | applyBatch changes => exact Or.inl ⟨rfl, rfl, rfl⟩
  | stage changes => exact Or.inr ⟨_, rfl⟩
  | publishStaged generation => exact Or.inl ⟨rfl, rfl, rfl⟩

/-! ## Generations of the past -/

/-- What is kept after a publication is the new head or was kept before. -/
theorem Publishes.generationAt_cases {s s' : Store} (hp : Publishes s s') {rev : ℕ}
    {g : ContentMap} (h : s'.generationAt rev = some g) :
    rev = s.revision + 1 ∧ g = s'.generation ∨ s.generationAt rev = some g := by
  unfold Store.generationAt at h
  rw [hp.retained] at h
  have hinserted := lookup_of_iterate_dropOldest _ h
  rw [lookup_insert_ite] at hinserted
  split at hinserted
  · rename_i hrev
    exact .inl ⟨hrev, (Option.some.inj hinserted).symm⟩
  · exact .inr hinserted

/-- Kept revisions are not ahead of the head, and the head is kept with its
own content, if at all. -/
structure Dated (s : Store) : Prop where
  /-- Nothing is kept ahead of the head. -/
  past : ∀ rev g, s.generationAt rev = some g → rev ≤ s.revision
  /-- The head is kept with its content. -/
  head : ∀ g, s.generationAt s.revision = some g → g = s.generation

/-- A store opened with any cap is dated. -/
theorem dated_withRetainCap (cap : ℕ) : Dated (Store.withRetainCap cap) := by
  have hlookup : ∀ rev g, (Store.withRetainCap cap).generationAt rev = some g →
      rev = 0 ∧ g = ContentMap.new := by
    intro rev g h
    unfold Store.generationAt Store.withRetainCap at h
    dsimp only at h
    rw [lookup_insert_ite] at h
    split at h
    · rename_i hrev
      exact ⟨hrev, (Option.some.inj h).symm⟩
    · cases h
  refine ⟨fun rev g h => ?_, fun g h => (hlookup _ g h).2⟩
  rw [(hlookup rev g h).1]
  exact Nat.zero_le _

/-- A publication keeps a store dated. -/
theorem Publishes.dated {s s' : Store} (hp : Publishes s s') (h : Dated s) : Dated s' := by
  refine ⟨fun rev g hg => ?_, fun g hg => ?_⟩
  · rw [hp.revision]
    rcases hp.generationAt_cases hg with ⟨hrev, -⟩ | hbefore
    · exact hrev.le
    · exact (h.past rev g hbefore).trans (Nat.le_succ _)
  · rcases hp.generationAt_cases hg with ⟨-, hcontent⟩ | hbefore
    · exact hcontent
    · have hle := h.past _ g hbefore
      rw [hp.revision] at hle
      exact absurd hle (Nat.not_succ_le_self _)

/-- A store that came after another one: it is not behind, and what it keeps
for that revision is the content of that time. -/
structure Follows (start s : Store) : Prop where
  /-- The revision is not behind. -/
  revision : start.revision ≤ s.revision
  /-- The revision is kept with its content. -/
  content : ∀ g, s.generationAt start.revision = some g → g = start.generation

/-- A dated store follows itself. -/
theorem Dated.follows {s : Store} (h : Dated s) : Follows s s := ⟨le_rfl, h.head⟩

/-- A publication keeps the content of every earlier revision that stays
kept. -/
theorem Publishes.follows {start s s' : Store} (hp : Publishes s s') (h : Follows start s) :
    Follows start s' := by
  refine ⟨?_, fun g hg => ?_⟩
  · rw [hp.revision]
    exact h.revision.trans (Nat.le_succ _)
  · rcases hp.generationAt_cases hg with ⟨hrev, -⟩ | hbefore
    · have hle := h.revision
      rw [hrev] at hle
      exact absurd hle (Nat.not_succ_le_self _)
    · exact h.content g hbefore

/-! ## Runs -/

/-- A store opened with a positive cap is in its window. -/
theorem windowed_withRetainCap {cap : ℕ} (hcap : 1 ≤ cap) : Windowed (Store.withRetainCap cap) := by
  have hstart : windowStart cap 0 = 0 := by
    have hmin : min cap 1 = 1 := by omega
    unfold windowStart
    omega
  have hkeys : ((∅ : FMap ℕ ContentMap).insert 0 ContentMap.new).keys = Finset.Ico 0 1 := by
    ext rev
    rw [Finmap.mem_keys, Finmap.mem_insert, Finset.mem_Ico]
    have hempty : rev ∉ (∅ : FMap ℕ ContentMap) := Finmap.notMem_empty
    simp only [hempty, or_false]
    omega
  refine ⟨rfl, ?_, ?_⟩
  · change ((∅ : FMap ℕ ContentMap).insert 0 ContentMap.new).keys = Finset.Ico (windowStart cap 0) 1
    rw [hstart, hkeys]
  · unfold Store.oldestRetained
    change ((HashOrder.increasing.order
      ((∅ : FMap ℕ ContentMap).insert 0 ContentMap.new).keys).head?).getD 0 = windowStart cap 0
    rw [head?_keys hkeys (by omega), hstart, Option.getD_some]

/-- Every call keeps the cap. -/
theorem Operation.retainCap_run (s : Store) (operation : Operation) :
    (operation.run s).retainCap = s.retainCap := by
  rcases operation.run_cases s with hp | ⟨counter, hs⟩
  · exact hp.cap
  · rw [hs]

/-- Every call keeps the window and the generations that stay kept. -/
theorem Operation.windowed_run {s : Store} (hcap : 1 ≤ s.retainCap) (h : Windowed s)
    (operation : Operation) :
    Windowed (operation.run s) ∧ ∀ rev g g', s.generationAt rev = some g →
      (operation.run s).generationAt rev = some g' → g' = g := by
  rcases operation.run_cases s with hp | ⟨counter, hs⟩
  · exact hp.windowed hcap h
  · rw [hs]
    exact ⟨⟨h.head, h.window, h.oldest⟩, fun rev g g' hg hg' => Option.some.inj (hg'.symm.trans hg)⟩

/-- The revision never goes back. -/
theorem Operation.revision_run_le (s : Store) (operation : Operation) :
    s.revision ≤ (operation.run s).revision := by
  rcases operation.run_cases s with hp | ⟨counter, hs⟩
  · rw [hp.revision]
    exact Nat.le_succ _
  · rw [hs]

/-- What a run keeps of a windowed store. -/
theorem windowed_runAll {s : Store} (hcap : 1 ≤ s.retainCap) (h : Windowed s)
    (operations : List Operation) :
    Windowed (runAll s operations) ∧ (runAll s operations).retainCap = s.retainCap ∧
      s.revision ≤ (runAll s operations).revision := by
  induction operations generalizing s with
  | nil => exact ⟨h, rfl, le_rfl⟩
  | cons operation operations ih =>
    have hcap' := operation.retainCap_run s
    have hrest := ih (by rw [hcap']; exact hcap) (operation.windowed_run hcap h).1
    exact ⟨hrest.1, hrest.2.1.trans hcap', (operation.revision_run_le s).trans hrest.2.2⟩

/-- The lower end of the window never goes back. -/
theorem windowStart_le {cap head head' : ℕ} (h : head ≤ head') :
    windowStart cap head ≤ windowStart cap head' := by
  unfold windowStart
  omega

/-- A revision kept after a run was kept before it, if it existed. -/
theorem mem_keys_of_mem_runAll {s : Store} (hcap : 1 ≤ s.retainCap) (h : Windowed s)
    {operations : List Operation} {rev : ℕ} (hle : rev < s.revision + 1)
    (hmem : rev ∈ (runAll s operations).retained.keys) : rev ∈ s.retained.keys := by
  have hrun := windowed_runAll hcap h operations
  rw [hrun.1.window, Finset.mem_Ico, hrun.2.1] at hmem
  rw [h.window, Finset.mem_Ico]
  exact ⟨(windowStart_le hrun.2.2).trans hmem.1, hle⟩

/-- A revision that stays kept along a run keeps its generation. -/
theorem generationAt_runAll {s : Store} (hcap : 1 ≤ s.retainCap) (h : Windowed s)
    {operations : List Operation} {rev : ℕ} {g g' : ContentMap}
    (hg : s.generationAt rev = some g)
    (hg' : (runAll s operations).generationAt rev = some g') : g' = g := by
  induction operations generalizing s g with
  | nil => exact Option.some.inj (hg'.symm.trans hg)
  | cons operation operations ih =>
    have hstep := operation.windowed_run hcap h
    have hcap' : 1 ≤ (operation.run s).retainCap := by
      rw [operation.retainCap_run s]
      exact hcap
    have hbefore : rev ∈ s.retained.keys := (mem_keys_iff _ _).mpr ⟨g, hg⟩
    rw [h.window, Finset.mem_Ico] at hbefore
    have hbound : rev < (operation.run s).revision + 1 :=
      hbefore.2.trans_le (Nat.succ_le_succ (operation.revision_run_le s))
    have hlast : rev ∈ (runAll (operation.run s) operations).retained.keys :=
      (mem_keys_iff _ _).mpr ⟨g', hg'⟩
    obtain ⟨g₁, hg₁⟩ := (mem_keys_iff _ _).mp (mem_keys_of_mem_runAll hcap' hstep.1 hbound hlast)
    have hsame : g₁ = g := hstep.2 rev g g₁ hg hg₁
    rw [hsame] at hg₁
    exact ih hcap' hstep.1 hg₁ hg'

/-- No store with a cap of zero is in its window: the window is empty, but
the head would be in it. -/
theorem not_windowed_of_retainCap_eq_zero {s : Store} (hcap : s.retainCap = 0) : ¬ Windowed s := by
  intro h
  have hmem : s.revision ∈ s.retained.keys := (mem_keys_iff _ _).mpr ⟨_, h.head⟩
  have hstart : windowStart 0 s.revision = s.revision + 1 := by
    unfold windowStart
    rw [Nat.zero_min]
    rfl
  rw [h.window, Finset.mem_Ico, hcap, hstart] at hmem
  exact absurd hmem.1 (Nat.not_succ_le_self _)

/-- Dropping removes one generation, if there is one. -/
theorem card_dropOldest (m : FMap ℕ ContentMap) :
    (Store.dropOldest m).keys.card = m.keys.card - 1 := by
  unfold Store.dropOldest
  cases hhead : (HashOrder.increasing.order m.keys).head? with
  | none =>
    have hempty : m.keys = ∅ := by
      refine Finset.eq_empty_of_forall_notMem fun rev hrev => ?_
      have hmem := (HashOrder.mem_order HashOrder.increasing m.keys rev).mpr hrev
      rw [List.head?_eq_none_iff.mp hhead] at hmem
      exact absurd hmem List.not_mem_nil
    simp [hempty]
  | some oldest =>
    have hmem : oldest ∈ m.keys :=
      (HashOrder.mem_order HashOrder.increasing m.keys oldest).mp (List.mem_of_head? hhead)
    have hkeys : (m.erase oldest).keys = m.keys.erase oldest := by
      ext rev
      rw [Finmap.mem_keys, Finmap.mem_erase, ← Finmap.mem_keys, Finset.mem_erase]
    change (m.erase oldest).keys.card = _
    rw [hkeys, Finset.card_erase_of_mem hmem]

theorem card_iterate_dropOldest (count : ℕ) (m : FMap ℕ ContentMap) :
    (Store.dropOldest^[count] m).keys.card = m.keys.card - count := by
  induction count generalizing m with
  | zero => rfl
  | succ count ih =>
    rw [Function.iterate_succ_apply, ih, card_dropOldest]
    omega

/-- A publication with a cap of zero keeps nothing. -/
theorem Publishes.generationAt_zero {s s' : Store} (hp : Publishes s s') (hcap : s.retainCap = 0)
    (rev : ℕ) : s'.generationAt rev = none := by
  have hcard : s'.retained.keys.card = 0 := by
    rw [hp.retained, card_iterate_dropOldest, hcap]
    omega
  have hempty : s'.retained.keys = ∅ := Finset.card_eq_zero.mp hcard
  have hnot : rev ∉ s'.retained := by
    rw [← Finmap.mem_keys, hempty]
    exact Finset.notMem_empty rev
  exact Finmap.lookup_eq_none.mpr hnot

/-- With a cap of zero nothing but the head is kept. -/
theorem generationAt_runAll_zero {s : Store} (hcap : s.retainCap = 0)
    (hhead : ∀ rev g, s.generationAt rev = some g → rev = s.revision)
    (operations : List Operation) {rev : ℕ} {g : ContentMap}
    (hg : (runAll s operations).generationAt rev = some g) :
    rev = (runAll s operations).revision := by
  induction operations generalizing s with
  | nil => exact hhead rev g hg
  | cons operation operations ih =>
    refine ih ((operation.retainCap_run s).trans hcap) (fun rev g hkept => ?_) hg
    rcases operation.run_cases s with hp | ⟨counter, hs⟩
    · rw [hp.generationAt_zero hcap] at hkept
      cases hkept
    · rw [hs] at hkept ⊢
      exact hhead rev g hkept

/-- What an opened store keeps is the head or one of the last revisions before
it within the cap. -/
theorem generationAt_within {cap : ℕ} {operations : List Operation} {rev : ℕ} {g : ContentMap}
    (hg : (runAll (Store.withRetainCap cap) operations).generationAt rev = some g) :
    rev = (runAll (Store.withRetainCap cap) operations).revision ∨
      (runAll (Store.withRetainCap cap) operations).revision + 1 -
          (runAll (Store.withRetainCap cap) operations).retainCap ≤ rev ∧
        rev < (runAll (Store.withRetainCap cap) operations).revision := by
  by_cases hcap : 1 ≤ cap
  · have hrun := windowed_runAll hcap (windowed_withRetainCap hcap) operations
    have hmem : rev ∈ (runAll (Store.withRetainCap cap) operations).retained.keys :=
      (mem_keys_iff _ _).mpr ⟨g, hg⟩
    rw [hrun.1.window, Finset.mem_Ico] at hmem
    have hwithin : ∀ head kept rev : ℕ, windowStart kept head ≤ rev → rev < head + 1 →
        rev = head ∨ head + 1 - kept ≤ rev ∧ rev < head := by
      intro head kept rev hstart hend
      unfold windowStart at hstart
      omega
    exact hwithin _ _ rev hmem.1 hmem.2
  · have hzero : cap = 0 := by omega
    subst hzero
    have hstart := dated_withRetainCap 0
    refine Or.inl (generationAt_runAll_zero rfl (fun rev g hkept => ?_) operations hg)
    have hle := hstart.past rev g hkept
    exact Nat.le_zero.mp hle

/-- The defaults with a cap of one's own. -/
def withCap (cap : ℕ) : RawConfig := { RawConfig.defaults with spine := { retainCap := cap } }

/-- Validation looks at no cap. -/
theorem validate_withCap (cap : ℕ) : validate (withCap cap) = .ok ⟨withCap cap, ["code"]⟩ := by
  have horder : topoOrder (withCap cap) = .ok ["code"] := by
    have hzero : topoOrder (withCap 0) = .ok ["code"] := by decide +kernel
    exact hzero
  have hlint : lintSecrets (withCap cap) = .ok () := by
    have hzero : lintSecrets (withCap 0) = .ok () := by decide +kernel
    rw [← hzero]
    simp only [lintSecrets, rawJson, lintSecretValue, lintSecretFields, withCap]
  unfold validate
  rw [horder, hlint]
  rfl

/-- Validation accepts every cap. All runs of the store keep their window,
and a generation as long as its revision is kept, exactly when the cap is
positive. -/
theorem windowed_iff_retainCap_pos (cap : ℕ) :
    (∃ raw cfg, validate raw = .ok cfg ∧ cfg.raw.spine.retainCap = cap) ∧
    ((∀ operations,
      Windowed (runAll (Store.withRetainCap cap) operations) ∧
      ∀ later rev g g',
        (runAll (Store.withRetainCap cap) operations).generationAt rev = some g →
        (runAll (Store.withRetainCap cap) (operations ++ later)).generationAt rev = some g' →
        g' = g) ↔ 1 ≤ cap) := by
  refine ⟨⟨withCap cap, _, validate_withCap cap, rfl⟩, ?_, ?_⟩
  · intro hall
    by_contra hcap
    have hzero : cap = 0 := by omega
    exact not_windowed_of_retainCap_eq_zero hzero (hall []).1
  · intro hcap operations
    have hrun := windowed_runAll hcap (windowed_withRetainCap hcap) operations
    refine ⟨hrun.1, fun later rev g g' hg hg' => ?_⟩
    have hcap' : 1 ≤ (runAll (Store.withRetainCap cap) operations).retainCap := by
      rw [hrun.2.1]
      exact hcap
    unfold runAll at hg'
    rw [List.foldl_append] at hg'
    exact generationAt_runAll hcap' hrun.1 hg hg'

/-- With an accepted cap of zero the first publication drops its own
generation, and the head is not kept. -/
theorem head_not_retained :
    validate (withCap 0) = .ok ⟨withCap 0, ["code"]⟩ ∧
    (runAll (Store.withRetainCap (withCap 0).spine.retainCap) [.applyBatch []]).revision = 1 ∧
    (runAll (Store.withRetainCap (withCap 0).spine.retainCap) [.applyBatch []]).generationAt 1 =
      none ∧
    ¬ Windowed (runAll (Store.withRetainCap (withCap 0).spine.retainCap) [.applyBatch []]) := by
  have hnone : (runAll (Store.withRetainCap (withCap 0).spine.retainCap)
      [.applyBatch []]).generationAt 1 = none := by decide +kernel
  refine ⟨validate_withCap 0, rfl, hnone, fun h => ?_⟩
  have hsome := hnone.symm.trans h.head
  cases hsome

end Tyo3.RetainedRevisions
