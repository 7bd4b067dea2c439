import Mathlib.Data.Finset.Basic
import Mathlib.Data.List.Nodup

/-!
# Queues without repeated keys

Items wait in a queue, at most one for each key, and some keys are blocked. An
item that comes while its key is blocked or waits already is left out, so of
several items with one key the first one stays. Nothing here names a program.
-/

namespace Tyo3.KeyedQueues

variable {ι κ : Type*} [DecidableEq κ] (key : ι → κ) (blocked : Finset κ)

/-- Let an item wait. -/
def add (queue : List ι) (item : ι) : List ι :=
  if key item ∈ blocked ∨ key item ∈ queue.map key then queue else queue ++ [item]

/-- Let some items wait, one after the other. -/
def addAll (queue items : List ι) : List ι := items.foldl (add key blocked) queue

variable {key blocked} {queue items : List ι} {item other : ι}

@[simp] theorem addAll_nil : addAll key blocked queue [] = queue := rfl

@[simp] theorem addAll_cons :
    addAll key blocked queue (item :: items) =
      addAll key blocked (add key blocked queue item) items :=
  rfl

theorem addAll_append (more : List ι) :
    addAll key blocked queue (items ++ more) =
      addAll key blocked (addAll key blocked queue items) more :=
  List.foldl_append

theorem mem_add_of_mem (h : other ∈ queue) : other ∈ add key blocked queue item := by
  unfold add
  split_ifs
  · exact h
  · exact List.mem_append_left _ h

/-- What waits goes on waiting. -/
theorem mem_addAll_of_mem (h : other ∈ queue) : other ∈ addAll key blocked queue items := by
  induction items generalizing queue with
  | nil => exact h
  | cons item items ih => exact ih (mem_add_of_mem h)

theorem mem_or_of_mem_add (h : other ∈ add key blocked queue item) :
    other ∈ queue ∨ other = item ∧ key item ∉ blocked := by
  unfold add at h
  split_ifs at h with hkept
  · exact .inl h
  · rcases List.mem_append.mp h with hold | hnew
    · exact .inl hold
    · exact .inr ⟨List.mem_singleton.mp hnew, fun hblocked => hkept (.inl hblocked)⟩

/-- What waits came before, or now with a key that is not blocked. -/
theorem mem_or_of_mem_addAll (h : other ∈ addAll key blocked queue items) :
    other ∈ queue ∨ other ∈ items ∧ key other ∉ blocked := by
  induction items generalizing queue with
  | nil => exact .inl h
  | cons item items ih =>
    rcases ih h with hadd | ⟨hin, hfree⟩
    · rcases mem_or_of_mem_add hadd with hold | ⟨heq, hfree⟩
      · exact .inl hold
      · rw [heq]
        exact .inr ⟨List.mem_cons_self, hfree⟩
    · exact .inr ⟨List.mem_cons_of_mem _ hin, hfree⟩

theorem nodup_add (h : (queue.map key).Nodup) : ((add key blocked queue item).map key).Nodup := by
  unfold add
  split_ifs with hkept
  · exact h
  · rw [List.map_append, List.map_singleton]
    refine List.nodup_append'.mpr ⟨h, List.nodup_singleton _, ?_⟩
    exact List.disjoint_singleton.mpr fun hmem => hkept (.inr hmem)

/-- No key waits twice. -/
theorem nodup_addAll (h : (queue.map key).Nodup) :
    ((addAll key blocked queue items).map key).Nodup := by
  induction items generalizing queue with
  | nil => exact h
  | cons item items ih => exact ih (nodup_add h)

/-- The first item with a key that is not blocked and does not wait is let in. -/
theorem mem_addAll_of_first {before after : List ι} (hfree : key item ∉ blocked)
    (hqueue : key item ∉ queue.map key) (hfirst : ∀ other ∈ before, key other ≠ key item) :
    item ∈ addAll key blocked queue (before ++ item :: after) := by
  induction before generalizing queue with
  | nil =>
    have hadd : add key blocked queue item = queue ++ [item] :=
      if_neg (not_or.mpr ⟨hfree, hqueue⟩)
    rw [List.nil_append, addAll_cons, hadd]
    exact mem_addAll_of_mem (List.mem_append_right _ (List.mem_singleton_self item))
  | cons other before ih =>
    rw [List.cons_append, addAll_cons]
    refine ih (fun hmem => ?_) fun first hin => hfirst first (List.mem_cons_of_mem _ hin)
    obtain ⟨kept, hkept, heq⟩ := List.mem_map.mp hmem
    rcases mem_or_of_mem_add hkept with hold | ⟨hsame, -⟩
    · exact hqueue (List.mem_map.mpr ⟨kept, hold, heq⟩)
    · rw [hsame] at heq
      exact hfirst other List.mem_cons_self heq

end Tyo3.KeyedQueues
