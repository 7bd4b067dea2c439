import Mathlib.Data.List.Infix
import Mathlib.Order.Lattice
import Mathlib.Order.BoundedOrder.Lattice
import Mathlib.Tactic.Common

/-!
# Queues between a producer and a consumer

A queue is offered elements, keeps some of them and hands them out in order.
An element that finds no room is merged into the last one or left out. The
account of a queue records what was offered, what was taken and what waits.
Each law says which moves of the account keep it. Nothing here names a
program.
-/

namespace Tyo3.BoundedQueues

variable {α κ S : Type*}

/-- Merge an element into the last one; an empty queue receives it as it is. -/
def mergeLast (merge : α → α → α) (x : α) : List α → List α
  | [] => [x]
  | [last] => [merge last x]
  | a :: b :: rest => a :: mergeLast merge x (b :: rest)

/-- Only the last element is touched by a merge. -/
theorem mergeLast_concat (merge : α → α → α) (x last : α) (front : List α) :
    mergeLast merge x (front ++ [last]) = front ++ [merge last x] := by
  induction front with
  | nil => rfl
  | cons a front ih =>
    cases front with
    | nil => rfl
    | cons b front =>
      have hstep : mergeLast merge x (a :: b :: (front ++ [last])) =
          a :: mergeLast merge x (b :: (front ++ [last])) := rfl
      rw [List.cons_append, List.cons_append, hstep, ← List.cons_append, ih]
      rfl

/-- A merge leaves a queue that is not empty as long as it was. -/
theorem length_mergeLast (merge : α → α → α) (x : α) {queue : List α} (h : queue ≠ []) :
    (mergeLast merge x queue).length = queue.length := by
  rw [← List.dropLast_append_getLast h, mergeLast_concat]
  simp only [List.length_append, List.length_singleton]

/-- What was offered to a queue, what was taken from it and what waits in it. -/
structure Account (α : Type*) where
  /-- Every element offered, in order. -/
  offered : List α
  /-- Every element taken, in order. -/
  taken : List α
  /-- The elements still in the queue, the oldest first. -/
  waiting : List α

/-- The elements that came through: taken or still waiting. -/
def Account.delivered (account : Account α) : List α := account.taken ++ account.waiting

/-- The account before anything was offered. -/
def Account.fresh : Account α := ⟨[], [], []⟩

/-- What happens to a queue in one move. -/
inductive Kind
  | idle
  | receive
  | merge
  | leave
  | take
  | clear
  deriving DecidableEq

/-- The moves of an account, by what happens in them. -/
inductive Move (merge : α → α → α) : Kind → Account α → Account α → Prop
  /-- Nothing changes. -/
  | idle {account : Account α} : Move merge .idle account account
  /-- An offered element joins the queue. -/
  | receive {account : Account α} (x : α) : Move merge .receive account
      { account with offered := account.offered ++ [x], waiting := account.waiting ++ [x] }
  /-- An offered element is merged into the last one of the queue. -/
  | merge {account : Account α} (x : α) (front : List α) (last : α)
      (h : account.waiting = front ++ [last]) : Move merge .merge account
      { account with offered := account.offered ++ [x], waiting := front ++ [merge last x] }
  /-- An offered element is left out. -/
  | leave {account : Account α} (x : α) : Move merge .leave account
      { account with offered := account.offered ++ [x] }
  /-- The oldest element is taken. -/
  | take {account : Account α} (first : α) (rest : List α) (h : account.waiting = first :: rest) :
      Move merge .take account
        { account with taken := account.taken ++ [first], waiting := rest }
  /-- The queue is emptied. -/
  | clear {account : Account α} : Move merge .clear account { account with waiting := [] }

section Order

variable [LinearOrder κ] (key : α → κ)

/-- Keys rise along a list. -/
def Rising (l : List α) : Prop := l.Pairwise fun a b => key a < key b

/-- Keys rise along a longer list when the new key exceeds all others. -/
theorem rising_concat {l : List α} {x : α} :
    Rising key (l ++ [x]) ↔ Rising key l ∧ ∀ a ∈ l, key a < key x := by
  unfold Rising
  rw [List.pairwise_append]
  simp

/-- What came through a queue rises and is bounded by what was offered. -/
structure InOrder (account : Account α) : Prop where
  /-- The keys of what came through rise. -/
  rising : Rising key account.delivered
  /-- No key exceeds all offered ones. -/
  bounded : ∀ a ∈ account.delivered, ∃ x ∈ account.offered, key a ≤ key x

variable {key}

theorem inOrder_fresh : InOrder key (Account.fresh : Account α) :=
  ⟨List.Pairwise.nil, nofun⟩

/-- A bound by what was offered earlier is a bound by what is offered now. -/
private theorem exists_le_concat {offered : List α} {a : α} (x : α)
    (h : ∃ y ∈ offered, key a ≤ key y) : ∃ y ∈ offered ++ [x], key a ≤ key y := by
  obtain ⟨y, hy, hle⟩ := h
  exact ⟨y, List.mem_append_left _ hy, hle⟩

/-- What comes through stays in order as long as the offers rise. -/
theorem Move.inOrder {merge : α → α → α} (hmerge : ∀ a b, key (merge a b) = max (key a) (key b))
    {kind : Kind} {before after : Account α} (h : Move merge kind before after)
    (hrising : Rising key after.offered) (hb : InOrder key before) : InOrder key after := by
  -- An offered element has a larger key than everything that came through.
  have hlater : ∀ x, Rising key (before.offered ++ [x]) → ∀ a ∈ before.delivered,
      key a < key x := by
    intro x hx a ha
    obtain ⟨y, hy, hle⟩ := hb.bounded a ha
    exact lt_of_le_of_lt hle (((rising_concat key).mp hx).2 y hy)
  cases h with
  | idle => exact hb
  | receive x =>
    have hdelivered : before.taken ++ (before.waiting ++ [x]) = before.delivered ++ [x] :=
      (List.append_assoc _ _ _).symm
    refine ⟨?_, ?_⟩
    · show Rising key (before.taken ++ (before.waiting ++ [x]))
      rw [hdelivered, rising_concat]
      exact ⟨hb.rising, hlater x hrising⟩
    · intro a ha
      change a ∈ before.taken ++ (before.waiting ++ [x]) at ha
      rw [hdelivered] at ha
      rcases List.mem_append.mp ha with ha | ha
      · exact exists_le_concat x (hb.bounded a ha)
      · have hax := List.mem_singleton.mp ha
        exact ⟨x, List.mem_append_right _ List.mem_cons_self, hax ▸ le_refl _⟩
  | merge x front last hwaiting =>
    have hold : before.delivered = (before.taken ++ front) ++ [last] := by
      rw [Account.delivered, hwaiting, List.append_assoc]
    have hnew : before.taken ++ (front ++ [merge last x]) =
        (before.taken ++ front) ++ [merge last x] := (List.append_assoc _ _ _).symm
    have hlast : key last < key x := hlater x hrising last (by rw [hold]; simp)
    have hkey : key (merge last x) = key x := by
      rw [hmerge]
      exact max_eq_right hlast.le
    refine ⟨?_, ?_⟩
    · show Rising key (before.taken ++ (front ++ [merge last x]))
      have hfront := hb.rising
      rw [hold, rising_concat] at hfront
      rw [hnew, rising_concat]
      refine ⟨hfront.1, fun a ha => ?_⟩
      rw [hkey]
      exact hlater x hrising a (by rw [hold]; exact List.mem_append_left _ ha)
    · intro a ha
      change a ∈ before.taken ++ (front ++ [merge last x]) at ha
      rw [hnew] at ha
      rcases List.mem_append.mp ha with ha | ha
      · exact exists_le_concat x (hb.bounded a (by rw [hold]; exact List.mem_append_left _ ha))
      · have hax := List.mem_singleton.mp ha
        exact ⟨x, List.mem_append_right _ List.mem_cons_self, by rw [hax, hkey]⟩
  | leave x => exact ⟨hb.rising, fun a ha => exists_le_concat x (hb.bounded a ha)⟩
  | take first rest hwaiting =>
    have hsame : (before.taken ++ [first]) ++ rest = before.delivered := by
      rw [Account.delivered, hwaiting, List.append_assoc, List.singleton_append]
    refine ⟨?_, ?_⟩
    · show Rising key ((before.taken ++ [first]) ++ rest)
      rw [hsame]
      exact hb.rising
    · intro a ha
      change a ∈ (before.taken ++ [first]) ++ rest at ha
      rw [hsame] at ha
      exact hb.bounded a ha
  | clear =>
    have htaken : ∀ a ∈ before.taken, a ∈ before.delivered := fun a ha =>
      List.mem_append_left _ ha
    refine ⟨?_, fun a ha => hb.bounded a (htaken a ?_)⟩
    · show Rising key (before.taken ++ [])
      rw [List.append_nil]
      exact (List.pairwise_append.mp hb.rising).1
    · simpa [Account.delivered] using ha

/-- Offers are only added. -/
theorem Move.rising_offered {merge : α → α → α} {kind : Kind} {before after : Account α}
    (h : Move merge kind before after) (hrising : Rising key after.offered) :
    Rising key before.offered := by
  cases h with
  | idle | take | clear => exact hrising
  | receive x => exact ((rising_concat key).mp hrising).1
  | merge x => exact ((rising_concat key).mp hrising).1
  | leave x => exact ((rising_concat key).mp hrising).1

/-- An element that is left out is missing in what came through. -/
theorem Move.exists_not_mem_delivered {merge : α → α → α} {before after : Account α}
    (h : Move merge .leave before after) (hrising : Rising key after.offered)
    (hb : InOrder key before) : ∃ x ∈ after.offered, x ∉ after.delivered := by
  cases h with
  | leave x =>
    refine ⟨x, List.mem_append_right _ List.mem_cons_self, fun hx => ?_⟩
    obtain ⟨y, hy, hle⟩ := hb.bounded x hx
    exact absurd (((rising_concat key).mp hrising).2 y hy) (not_lt.mpr hle)

/-- Offers stay on record. -/
theorem Move.mem_offered {merge : α → α → α} {kind : Kind} {before after : Account α}
    (h : Move merge kind before after) {x : α} (hx : x ∈ before.offered) :
    x ∈ after.offered := by
  cases h with
  | idle | take | clear => exact hx
  | receive | merge | leave => exact List.mem_append_left _ hx

/-- Without merges, what did not come through does not come through later. -/
theorem Move.not_mem_delivered {merge : α → α → α} {kind : Kind} {before after : Account α}
    (h : Move merge kind before after) (hmerge : kind ≠ .merge)
    (hrising : Rising key after.offered) {x : α} (hx : x ∈ before.offered)
    (hd : x ∉ before.delivered) : x ∉ after.delivered := by
  unfold Account.delivered at hd ⊢
  cases h with
  | idle | leave => exact hd
  | receive y =>
    have hlt := ((rising_concat key).mp hrising).2 x hx
    have hne : x ≠ y := fun he => lt_irrefl _ (he ▸ hlt)
    rw [← List.append_assoc, List.mem_append, List.mem_singleton]
    exact not_or.mpr ⟨hd, hne⟩
  | merge => exact absurd rfl hmerge
  | take first rest hwaiting =>
    rw [hwaiting] at hd
    rw [List.append_assoc, List.singleton_append]
    exact hd
  | clear =>
    rw [List.append_nil]
    exact fun hmem => hd (List.mem_append_left _ hmem)

end Order

section Joins

variable [SemilatticeSup S] [OrderBot S] (f : α → S)

/-- The join of a quantity over a list. -/
def joinOf (l : List α) : S := l.foldr (fun a s => f a ⊔ s) ⊥

variable {f}

@[simp] theorem joinOf_nil : joinOf f [] = ⊥ := rfl

@[simp] theorem joinOf_cons (a : α) (l : List α) : joinOf f (a :: l) = f a ⊔ joinOf f l := rfl

/-- The join over two lists. -/
theorem joinOf_append (l l' : List α) : joinOf f (l ++ l') = joinOf f l ⊔ joinOf f l' := by
  induction l with
  | nil => simp
  | cons a l ih => rw [List.cons_append, joinOf_cons, ih, joinOf_cons, sup_assoc]

/-- Every element is below the join. -/
theorem le_joinOf {l : List α} {a : α} (h : a ∈ l) : f a ≤ joinOf f l := by
  induction l with
  | nil => cases h
  | cons b l ih =>
    rw [joinOf_cons]
    rcases List.mem_cons.mp h with rfl | h
    · exact le_sup_left
    · exact le_sup_of_le_right (ih h)

/-- A bound of all elements bounds the join. -/
theorem joinOf_le {l : List α} {s : S} (h : ∀ a ∈ l, f a ≤ s) : joinOf f l ≤ s := by
  induction l with
  | nil => exact bot_le
  | cons a l ih =>
    rw [joinOf_cons]
    exact sup_le (h a List.mem_cons_self) (ih fun b hb => h b (List.mem_cons_of_mem _ hb))

/-- Moves that leave nothing out and do not empty the queue keep the join of
what came through equal to the join of what was offered. -/
theorem Move.joinOf_delivered {merge : α → α → α} (hmerge : ∀ a b, f (merge a b) = f a ⊔ f b)
    {kind : Kind} {before after : Account α} (h : Move merge kind before after)
    (hleave : kind ≠ .leave) (hclear : kind ≠ .clear)
    (hb : joinOf f before.delivered = joinOf f before.offered) :
    joinOf f after.delivered = joinOf f after.offered := by
  unfold Account.delivered at hb ⊢
  cases h with
  | idle => exact hb
  | receive x => rw [← List.append_assoc, joinOf_append, hb, ← joinOf_append]
  | merge x front last hwaiting =>
    rw [hwaiting, ← List.append_assoc, joinOf_append] at hb
    rw [← List.append_assoc, joinOf_append, joinOf_append before.offered, ← hb]
    simp only [joinOf_cons, joinOf_nil, hmerge, sup_bot_eq, sup_assoc]
  | leave => exact absurd rfl hleave
  | take first rest hwaiting =>
    rw [hwaiting] at hb
    rw [List.append_assoc, List.singleton_append]
    exact hb
  | clear => exact absurd rfl hclear

end Joins

section Covering

/-- Every offer is covered by something that came through. -/
def Covered (covers : α → α → Prop) (account : Account α) : Prop :=
  ∀ x ∈ account.offered, ∃ y ∈ account.delivered, covers y x

/-- Where a merge covers both its parts, offers stay covered as long as none is
left out and the queue is not emptied. -/
theorem Move.covered {covers : α → α → Prop} {merge : α → α → α} (hrefl : ∀ a, covers a a)
    (htrans : ∀ a b c, covers a b → covers b c → covers a c)
    (hleft : ∀ a b, covers (merge a b) a) (hright : ∀ a b, covers (merge a b) b)
    {kind : Kind} {before after : Account α} (h : Move merge kind before after)
    (hleave : kind ≠ .leave) (hclear : kind ≠ .clear) (hb : Covered covers before) :
    Covered covers after := by
  unfold Covered Account.delivered at hb ⊢
  cases h with
  | idle => exact hb
  | receive x =>
    intro a ha
    rw [← List.append_assoc]
    rcases List.mem_append.mp ha with ha | ha
    · obtain ⟨y, hy, hcovers⟩ := hb a ha
      exact ⟨y, List.mem_append_left _ hy, hcovers⟩
    · exact ⟨a, List.mem_append_right _ ha, hrefl a⟩
  | merge x front last hwaiting =>
    rw [hwaiting, ← List.append_assoc] at hb
    intro a ha
    rw [← List.append_assoc]
    have hmerged : merge last x ∈ before.taken ++ front ++ [merge last x] :=
      List.mem_append_right _ List.mem_cons_self
    rcases List.mem_append.mp ha with ha | ha
    · obtain ⟨y, hy, hcovers⟩ := hb a ha
      rcases List.mem_append.mp hy with hy | hy
      · exact ⟨y, List.mem_append_left _ hy, hcovers⟩
      · rw [List.mem_singleton.mp hy] at hcovers
        exact ⟨merge last x, hmerged, htrans _ _ _ (hleft last x) hcovers⟩
    · rw [List.mem_singleton.mp ha]
      exact ⟨merge last x, hmerged, hright last x⟩
  | leave => exact absurd rfl hleave
  | take first rest hwaiting =>
    rw [hwaiting] at hb
    rw [List.append_assoc, List.singleton_append]
    exact hb
  | clear => exact absurd rfl hclear

end Covering

/-- Moves without a merge keep what came through a part of what was offered,
in the order of the offers. -/
theorem Move.sublist {merge : α → α → α} {kind : Kind} {before after : Account α}
    (h : Move merge kind before after) (hmerge : kind ≠ .merge)
    (hb : before.delivered.Sublist before.offered) : after.delivered.Sublist after.offered := by
  unfold Account.delivered at hb ⊢
  cases h with
  | idle => exact hb
  | receive x =>
    rw [← List.append_assoc]
    exact hb.append (List.Sublist.refl [x])
  | merge => exact absurd rfl hmerge
  | leave x => exact hb.trans (List.sublist_append_left _ _)
  | take first rest hwaiting =>
    rw [hwaiting] at hb
    rw [List.append_assoc, List.singleton_append]
    exact hb
  | clear =>
    rw [List.append_nil]
    exact (List.sublist_append_left _ _).trans hb

/-- Moves that only receive and take bring everything through. -/
theorem Move.delivered_eq {merge : α → α → α} {kind : Kind} {before after : Account α}
    (h : Move merge kind before after) (hmerge : kind ≠ .merge) (hleave : kind ≠ .leave)
    (hclear : kind ≠ .clear) (hb : before.delivered = before.offered) :
    after.delivered = after.offered := by
  unfold Account.delivered at hb ⊢
  cases h with
  | idle => exact hb
  | receive x => rw [← List.append_assoc, hb]
  | merge => exact absurd rfl hmerge
  | leave => exact absurd rfl hleave
  | take first rest hwaiting =>
    rw [hwaiting] at hb
    rw [List.append_assoc, List.singleton_append]
    exact hb
  | clear => exact absurd rfl hclear

end Tyo3.BoundedQueues
