import Mathlib.Data.Finset.Insert

/-!
# Programs of one thread with locks that are not reentrant

A program runs from a state with a set of locks its thread holds. It
returns, raises an error, or waits for ever for a lock that it holds itself.
A block under a lock releases the lock however it ends, so the held locks
are an argument and not part of the state. Nothing here names a program.
-/

namespace Tyo3.LockedPrograms

/-- How a program ends. -/
inductive Outcome (L σ ε α : Type)
  /-- It returns a value. -/
  | returned (value : α) (state : σ)
  /-- It raises an error. -/
  | raised (error : ε) (state : σ)
  /-- It waits for a lock its own thread holds. -/
  | deadlocked (lock : L) (state : σ)

/-- A program, run from the locks held and a state. -/
def Program (L σ ε α : Type) := Finset L → σ → Outcome L σ ε α

namespace Program

variable {L σ ε α β : Type}

/-- Run one program and then another on its value. -/
def andThen (p : Program L σ ε α) (f : α → Program L σ ε β) : Program L σ ε β := fun held s =>
  match p held s with
  | .returned value s' => f value held s'
  | .raised error s' => .raised error s'
  | .deadlocked lock s' => .deadlocked lock s'

instance : Monad (Program L σ ε) where
  pure value := fun _ s => .returned value s
  bind := andThen

/-- Read the state. -/
def gets (f : σ → α) : Program L σ ε α := fun _ s => .returned (f s) s

/-- Read the state and change it. -/
def update (f : σ → α × σ) : Program L σ ε α := fun _ s => .returned (f s).1 (f s).2

/-- Raise an error. -/
def raise (error : ε) : Program L σ ε α := fun _ s => .raised error s

/-- Run a block under a lock. -/
def withLock [DecidableEq L] (lock : L) (body : Program L σ ε α) : Program L σ ε α := fun held s =>
  if lock ∈ held then .deadlocked lock s else body (insert lock held) s

/-- Run a block and pass over its errors. -/
def trying (body : Program L σ ε Unit) : Program L σ ε Unit := fun held s =>
  match body held s with
  | .raised _ s' => .returned () s'
  | outcome => outcome

/-- Run a block for every item of a list. -/
def forEach (body : β → Program L σ ε Unit) : List β → Program L σ ε Unit
  | [] => pure ()
  | item :: items => do
    body item
    forEach body items

variable {p : Program L σ ε α} {f : α → Program L σ ε β} {held : Finset L} {s s' : σ} {value : α}

@[simp] theorem pure_run (value : α) (held : Finset L) (s : σ) :
    (pure value : Program L σ ε α) held s = .returned value s := rfl

@[simp] theorem gets_run (f : σ → α) (held : Finset L) (s : σ) :
    (gets f : Program L σ ε α) held s = .returned (f s) s := rfl

@[simp] theorem update_run (f : σ → α × σ) (held : Finset L) (s : σ) :
    (update f : Program L σ ε α) held s = .returned (f s).1 (f s).2 := rfl

@[simp] theorem raise_run (error : ε) (held : Finset L) (s : σ) :
    (raise error : Program L σ ε α) held s = .raised error s := rfl

/-- A program goes on after one that returned. -/
theorem bind_of_returned (h : p held s = .returned value s') :
    (p >>= f) held s = f value held s' := by
  change andThen p f held s = _
  unfold andThen
  rw [h]

/-- Nothing goes on after a program that raised an error. -/
theorem bind_of_raised {error : ε} (h : p held s = .raised error s') :
    (p >>= f) held s = .raised error s' := by
  change andThen p f held s = _
  unfold andThen
  rw [h]

/-- Nothing goes on after a program that waits for ever. -/
theorem bind_of_deadlocked {lock : L} (h : p held s = .deadlocked lock s') :
    (p >>= f) held s = .deadlocked lock s' := by
  change andThen p f held s = _
  unfold andThen
  rw [h]

/-- A program goes on after a read. -/
@[simp] theorem gets_bind_run (g : σ → α) (f : α → Program L σ ε β) (held : Finset L) (s : σ) :
    (gets g >>= f) held s = f (g s) held s := rfl

/-- A program goes on after a change. -/
@[simp] theorem update_bind_run (g : σ → α × σ) (f : α → Program L σ ε β) (held : Finset L)
    (s : σ) : (update g >>= f) held s = f (g s).1 held (g s).2 := rfl

/-- A block under a lock that is free. -/
theorem withLock_of_free [DecidableEq L] {lock : L} (h : lock ∉ held) :
    withLock lock p held s = p (insert lock held) s := if_neg h

/-- A read and a change under a lock that is free. -/
theorem withLock_update_of_free [DecidableEq L] {lock : L} (h : lock ∉ held) (f : σ → α × σ) :
    (withLock lock (update f) : Program L σ ε α) held s = .returned (f s).1 (f s).2 :=
  withLock_of_free h

/-- A block under a lock the thread holds. -/
theorem withLock_of_held [DecidableEq L] {lock : L} (h : lock ∈ held) :
    withLock lock p held s = .deadlocked lock s := if_pos h

/-- A block that returns is not affected by passing over errors. -/
theorem trying_of_returned {body : Program L σ ε Unit} (h : body held s = .returned () s') :
    trying body held s = .returned () s' := by
  unfold trying
  rw [h]

/-- A loop whose body returns from every state. -/
theorem forEach_of_returned {body : β → Program L σ ε Unit} {effect : σ → β → σ}
    (h : ∀ item s, body item held s = .returned () (effect s item)) (items : List β) (s : σ) :
    forEach body items held s = .returned () (items.foldl effect s) := by
  induction items generalizing s with
  | nil => rfl
  | cons item items ih =>
    unfold forEach
    rw [bind_of_returned (h item s), ih]
    rfl

end Program

end Tyo3.LockedPrograms
