import Mathlib.Data.List.Chain
import Mathlib.Data.List.Nodup
import Mathlib.Logic.Relation
import Mathlib.Tactic.Common

/-!
# Searching for cycles

A depth-first search keeps the path to the node it stands at. When it meets a
node of that path again, the end of the path from there on is a cycle. When a
node is left, each of its successors was left before or lies on a cycle with
it. So a strongly connected set without a cycle of its own would be left in an
order that goes down along its edges, which no walk around it can do.

Every node of the path is an open call, and only so many calls may be open. A
search that fails stood at the end of a path with more nodes, none of them led
to by a node it had started from before; along such a path it does fail when it
looks at the next node of the path first. Nothing here names a program.
-/

namespace Tyo3.CycleSearches

/-- The state of a node: not entered, on the path, left. -/
inductive Color where
  | white | gray | black
  deriving DecidableEq, Repr

/-- The state of a search. -/
structure Search (V : Type*) where
  /-- Colors of the nodes. -/
  color : V → Option Color
  /-- The cycles found. -/
  cycles : List (List V)
  /-- The nodes in the order they were entered. -/
  visited : List V

section Searching

variable {V : Type*} [DecidableEq V] (next : V → List V)

/-- Look at a successor: a node of the path closes a cycle, a node that was not
entered is searched. -/
def look (search : Search V → V → Option (Search V)) (stack : List V) (s : Search V) (v : V) :
    Option (Search V) :=
  match s.color v with
  | some .gray => some { s with cycles := s.cycles ++ [stack.drop (stack.idxOf v)] }
  | some .white => search s v
  | _ => some s

/-- Enter a node. -/
def enter (s : Search V) (u : V) : Search V :=
  { s with color := Function.update s.color u (some .gray), visited := s.visited ++ [u] }

/-- Leave a node. -/
def leave (s : Search V) (u : V) : Search V :=
  { s with color := Function.update s.color u (some .black) }

/-- Search from a node at the end of a path. There is no result when more calls
are needed than may be open. -/
def dfs : ℕ → List V → Search V → V → Option (Search V)
  | 0, _, _, _ => none
  | frames + 1, stack, s, u =>
    ((next u).foldlM (look (dfs frames (stack ++ [u])) (stack ++ [u])) (enter s u)).map
      fun looked => leave looked u

/-- Before the search no node is entered. -/
def unvisited (nodes : List V) : Search V :=
  ⟨fun v => if v ∈ nodes then some .white else none, [], []⟩

/-- Search from a node unless it was entered. -/
def visit (frames : ℕ) (s : Search V) (u : V) : Option (Search V) :=
  if s.color u = some .white then dfs next frames [] s u else some s

/-- Search from every node that was not entered. -/
def searchAll (frames : ℕ) (nodes : List V) : Option (Search V) :=
  nodes.foldlM (visit next frames) (unvisited nodes)

/-! ## Cycles -/

/-- A simple cycle: different nodes, each leading to the next one and the last
one to the first. -/
structure SimpleCycle (r : V → V → Prop) (c : List V) : Prop where
  /-- No node is repeated. -/
  nodup : c.Nodup
  /-- Each node leads to the next one. -/
  chain : c.IsChain r
  /-- The last node leads to the first one. -/
  closes : ∃ first last, c.head? = some first ∧ c.getLast? = some last ∧ r last first

variable {next}

/-- The end of a path from a node to which its last node leads is a cycle. -/
theorem simpleCycle_drop {stack : List V} {u v : V} (hpath : stack.IsChain fun a b => b ∈ next a)
    (honce : stack.Nodup) (hlast : stack.getLast? = some u) (hin : v ∈ stack)
    (hedge : v ∈ next u) :
    SimpleCycle (fun a b => b ∈ next a) (stack.drop (stack.idxOf v)) ∧ u ∈ stack.drop (stack.idxOf v) ∧
      v ∈ stack.drop (stack.idxOf v) := by
  have hlt : stack.idxOf v < stack.length := List.idxOf_lt_length_of_mem hin
  have hfirst : (stack.drop (stack.idxOf v)).head? = some v := by
    rw [List.head?_drop, List.getElem?_eq_getElem hlt, List.getElem_idxOf]
  have hend : (stack.drop (stack.idxOf v)).getLast? = some u := by
    rw [List.getLast?_drop, if_neg (by omega), hlast]
  refine ⟨⟨honce.sublist (List.drop_sublist _ _), hpath.drop _, v, u, hfirst, hend, hedge⟩, ?_, ?_⟩
  · exact List.mem_of_getLast? hend
  · exact List.mem_of_head? hfirst

omit [DecidableEq V] in
/-- Along a chain each node leads to all later ones. -/
theorem reaches_of_chain {r : V → V → Prop} {a : V} {c : List V} (h : (a :: c).IsChain r) :
    ∀ b ∈ a :: c, Relation.ReflTransGen r a b := by
  induction c generalizing a with
  | nil =>
    intro b hb
    rw [List.mem_singleton.mp hb]
  | cons first c ih =>
    intro b hb
    obtain ⟨hstep, hrest⟩ := List.isChain_cons_cons.mp h
    rcases List.mem_cons.mp hb with heq | hin
    · rw [heq]
    · exact (ih hrest b hin).head hstep

omit [DecidableEq V] in
/-- Along a chain each node leads to the last one. -/
theorem reaches_last_of_chain {r : V → V → Prop} {c : List V} (h : c.IsChain r) {last : V}
    (hlast : c.getLast? = some last) : ∀ a ∈ c, Relation.ReflTransGen r a last := by
  intro a ha
  obtain ⟨before, after, hc⟩ := List.append_of_mem ha
  rw [hc] at h hlast
  have hchain := h.right_of_append
  rw [List.getLast?_append_of_ne_nil _ (List.cons_ne_nil a after)] at hlast
  exact reaches_of_chain hchain last (List.mem_of_getLast? hlast)

omit [DecidableEq V] in
/-- The nodes of a cycle lead to each other. -/
theorem SimpleCycle.reaches {r : V → V → Prop} {c : List V} (h : SimpleCycle r c) {a b : V}
    (ha : a ∈ c) (hb : b ∈ c) : Relation.ReflTransGen r a b := by
  obtain ⟨first, last, hfirst, hlast, hedge⟩ := h.closes
  have hto := reaches_last_of_chain h.chain hlast a ha
  have hfrom : Relation.ReflTransGen r first b := by
    cases c with
    | nil => cases hfirst
    | cons head rest =>
      have hsame : head = first := Option.some.inj hfirst
      have hchain := h.chain
      rw [hsame] at hchain hb
      exact reaches_of_chain hchain b hb
  exact (hto.tail hedge).trans hfrom

/-! ## What a search keeps -/

variable (next) in
/-- The nodes that were left, the last one first: each successor was left
before or lies on a cycle with the node. -/
def Settled (cycles : List (List V)) : List V → Prop
  | [] => True
  | v :: earlier =>
    (∀ w ∈ next v, w ∈ earlier ∨ ∃ c ∈ cycles, v ∈ c ∧ w ∈ c) ∧ Settled cycles earlier

omit [DecidableEq V] in
/-- More cycles settle the same nodes. -/
theorem Settled.mono {cycles cycles' : List (List V)} (hsub : cycles ⊆ cycles') {order : List V}
    (h : Settled next cycles order) : Settled next cycles' order := by
  induction order with
  | nil => trivial
  | cons v earlier ih =>
    refine ⟨fun w hw => ?_, ih h.2⟩
    rcases h.1 w hw with hearlier | ⟨c, hc, hboth⟩
    · exact .inl hearlier
    · exact .inr ⟨c, hsub hc, hboth⟩

variable (next) in
/-- A search that stands at the end of a path. -/
structure Standing (nodes stack : List V) (s : Search V) : Prop where
  /-- The nodes have colors. -/
  known : ∀ v, v ∈ nodes ↔ s.color v ≠ none
  /-- The path holds the nodes that were entered and not left. -/
  gray : ∀ v, s.color v = some .gray ↔ v ∈ stack
  /-- The path follows the edges. -/
  path : stack.IsChain fun a b => b ∈ next a
  /-- The path is simple. -/
  once : stack.Nodup
  /-- What was found are cycles. -/
  cycles : ∀ c ∈ s.cycles, SimpleCycle (fun a b => b ∈ next a) c
  /-- No node was entered twice. -/
  entered : s.visited.Nodup
  /-- The nodes that were entered are on the path or left. -/
  visited : ∀ v, v ∈ s.visited ↔ s.color v = some .gray ∨ s.color v = some .black
  /-- No node that was left leads to one that was not entered. -/
  closed : ∀ v, s.color v = some .black → ∀ w ∈ next v, s.color w ≠ some .white
  /-- The nodes that were left are settled. -/
  finished : ∃ order, (∀ v, s.color v = some .black ↔ v ∈ order) ∧ Settled next s.cycles order

/-- A later state of a search. -/
structure Later (s s' : Search V) : Prop where
  /-- Nodes that were left stay left. -/
  black : ∀ v, s.color v = some .black → s'.color v = some .black
  /-- No node becomes one that was not entered. -/
  white : ∀ v, s'.color v = some .white → s.color v = some .white
  /-- Cycles stay found. -/
  cycles : s.cycles ⊆ s'.cycles

omit [DecidableEq V] in
theorem Later.refl (s : Search V) : Later s s := ⟨fun _ h => h, fun _ h => h, List.Subset.refl _⟩

omit [DecidableEq V] in
theorem Later.trans {s t r : Search V} (h : Later s t) (h' : Later t r) : Later s r :=
  ⟨fun v hv => h'.black v (h.black v hv), fun v hv => h.white v (h'.white v hv),
    List.Subset.trans h.cycles h'.cycles⟩

@[simp] theorem color_enter (s : Search V) (u v : V) :
    (enter s u).color v = if v = u then some .gray else s.color v :=
  Function.update_apply s.color u (some .gray) v

@[simp] theorem color_leave (s : Search V) (u v : V) :
    (leave s u).color v = if v = u then some .black else s.color v :=
  Function.update_apply s.color u (some .black) v

/-- Entering a node at the end of the path. -/
theorem Standing.enter {nodes stack : List V} {s : Search V} {u : V} (h : Standing next nodes stack s)
    (hwhite : s.color u = some .white) (hedge : ∀ top ∈ stack.getLast?, u ∈ next top) :
    Standing next nodes (stack ++ [u]) (CycleSearches.enter s u) := by
  have hout : u ∉ stack := by
    intro hin
    rw [(h.gray u).mpr hin] at hwhite
    cases hwhite
  have hcolor := color_enter s u
  have hblack : ∀ v, (CycleSearches.enter s u).color v = some .black ↔ s.color v = some .black := by
    intro v
    rw [hcolor]
    by_cases hv : v = u
    · rw [if_pos hv, hv, hwhite]
      simp
    · rw [if_neg hv]
  have hgray : ∀ v, (CycleSearches.enter s u).color v = some .gray ↔
      v = u ∨ s.color v = some .gray := by
    intro v
    rw [hcolor]
    by_cases hv : v = u
    · simp [hv]
    · simp [hv]
  refine ⟨fun v => ?_, fun v => ?_, ?_, ?_, h.cycles, ?_, fun v => ?_, fun v hv w hw => ?_, ?_⟩
  · rw [h.known, hcolor]
    by_cases hv : v = u
    · rw [if_pos hv, hv, hwhite]
      simp
    · rw [if_neg hv]
  · rw [hgray, h.gray, List.mem_append, List.mem_singleton, or_comm]
  · refine h.path.append (List.isChain_singleton u) fun top htop v hv => ?_
    rw [← Option.some.inj hv]
    exact hedge top htop
  · rw [List.nodup_append]
    refine ⟨h.once, List.nodup_singleton u, fun a ha b hb hab => hout ?_⟩
    rw [← List.mem_singleton.mp hb, ← hab]
    exact ha
  · change (s.visited ++ [u]).Nodup
    rw [List.nodup_append]
    refine ⟨h.entered, List.nodup_singleton u, fun a ha b hb hab => ?_⟩
    rw [hab, List.mem_singleton.mp hb, h.visited, hwhite] at ha
    simp at ha
  · change v ∈ s.visited ++ [u] ↔ _
    rw [List.mem_append, List.mem_singleton, h.visited, hgray, hblack]
    tauto
  · rw [hcolor]
    by_cases hwu : w = u
    · rw [if_pos hwu]
      simp
    · rw [if_neg hwu]
      exact h.closed v ((hblack v).mp hv) w hw
  · obtain ⟨order, hall, hsettled⟩ := h.finished
    exact ⟨order, fun v => (hblack v).trans (hall v), hsettled⟩

/-- Leaving the node at the end of the path. -/
theorem Standing.leave {nodes stack : List V} {s : Search V} {u : V}
    (h : Standing next nodes (stack ++ [u]) s)
    (hsucc : ∀ v ∈ next u, s.color v = some .black ∨ ∃ c ∈ s.cycles, u ∈ c ∧ v ∈ c)
    (hseen : ∀ v ∈ next u, s.color v ≠ some .white) :
    Standing next nodes stack (CycleSearches.leave s u) := by
  have hgrayu : s.color u = some .gray :=
    (h.gray u).mpr (List.mem_append_right _ (List.mem_singleton_self u))
  have hout : u ∉ stack := fun hin =>
    (List.nodup_append.mp h.once).2.2 u hin u (List.mem_singleton_self u) rfl
  have hcolor := color_leave s u
  have hblack : ∀ v, (CycleSearches.leave s u).color v = some .black ↔
      v = u ∨ s.color v = some .black := by
    intro v
    rw [hcolor]
    by_cases hv : v = u
    · simp [hv]
    · simp [hv]
  have hgray : ∀ v, (CycleSearches.leave s u).color v = some .gray ↔ v ∈ stack := by
    intro v
    rw [hcolor]
    by_cases hv : v = u
    · rw [if_pos hv, hv]
      simp [hout]
    · rw [if_neg hv, h.gray, List.mem_append, List.mem_singleton]
      simp [hv]
  refine ⟨fun v => ?_, hgray, h.path.left_of_append, (List.nodup_append.mp h.once).1, h.cycles,
    h.entered, fun v => ?_, fun v hv w hw => ?_, ?_⟩
  · rw [h.known, hcolor]
    by_cases hv : v = u
    · rw [if_pos hv, hv, hgrayu]
      simp
    · rw [if_neg hv]
  · change v ∈ s.visited ↔ _
    rw [h.visited, hgray, hblack, h.gray, List.mem_append, List.mem_singleton]
    tauto
  · have hkept : s.color w ≠ some .white := by
      rcases (hblack v).mp hv with heq | hleft
      · exact hseen w (heq ▸ hw)
      · exact h.closed v hleft w hw
    rw [hcolor]
    split
    · simp
    · exact hkept
  · obtain ⟨order, hall, hsettled⟩ := h.finished
    refine ⟨u :: order, fun v => ?_, fun w hw => ?_, hsettled⟩
    · rw [hblack, hall, List.mem_cons]
    · rcases hsucc w hw with hleft | hcycle
      · exact .inl ((hall w).mp hleft)
      · exact .inr hcycle

/-! ## The search -/

variable (next) in
/-- What a search from a node does when it has a result. -/
structure Searched (nodes stack : List V) (s : Search V) (u : V) (s' : Search V) : Prop where
  /-- It returns to the end of the path. -/
  standing : Standing next nodes stack s'
  /-- It goes on from where it was. -/
  later : Later s s'
  /-- The node is left. -/
  black : s'.color u = some .black
  /-- The node leads to all that were entered. -/
  entered : ∀ w, s.color w = some .white → s'.color w ≠ some .white →
    Relation.ReflTransGen (fun a b => b ∈ next a) u w

variable (next) in
/-- A search from the successors of the end of a path. -/
def Searches (nodes stack : List V) (search : Search V → V → Option (Search V)) : Prop :=
  ∀ s u s', Standing next nodes stack s → s.color u = some .white →
    (∀ top ∈ stack.getLast?, u ∈ next top) → search s u = some s' →
    Searched next nodes stack s u s'

variable (next) in
/-- What looking at successors of the end of a path does. -/
structure Looked (nodes stack : List V) (u : V) (seen : List V) (s s' : Search V) : Prop where
  /-- It returns to the end of the path. -/
  standing : Standing next nodes (stack ++ [u]) s'
  /-- It goes on from where it was. -/
  later : Later s s'
  /-- Each successor is left or on a cycle with the node. -/
  done : ∀ v ∈ seen, s'.color v = some .black ∨ ∃ c ∈ s'.cycles, u ∈ c ∧ v ∈ c
  /-- Each successor was entered. -/
  known : ∀ v ∈ seen, s'.color v ≠ some .white
  /-- The node leads to all that were entered. -/
  entered : ∀ w, s.color w = some .white → s'.color w ≠ some .white →
    Relation.ReflTransGen (fun a b => b ∈ next a) u w

section Steps

variable {nodes : List V} (hnext : ∀ u ∈ nodes, ∀ v ∈ next u, v ∈ nodes)

include hnext

/-- Looking at a successor leaves it or finds a cycle with it. -/
theorem look_spec {stack : List V} {u : V} {search : Search V → V → Option (Search V)}
    (hsearch : Searches next nodes (stack ++ [u]) search) {s s' : Search V}
    (h : Standing next nodes (stack ++ [u]) s) {v : V} (hv : v ∈ next u)
    (hlook : look search (stack ++ [u]) s v = some s') : Looked next nodes stack u [v] s s' := by
  have hlast : (stack ++ [u]).getLast? = some u := List.getLast?_concat
  have hu : u ∈ nodes := by
    rw [h.known, (h.gray u).mpr (List.mem_append_right _ (List.mem_singleton_self u))]
    simp
  unfold look at hlook
  cases hcolor : s.color v with
  | none => exact absurd hcolor ((h.known v).mp (hnext u hu v hv))
  | some color =>
    rw [hcolor] at hlook
    cases color with
    | white =>
      have hedge : ∀ top ∈ (stack ++ [u]).getLast?, v ∈ next top := by
        intro top htop
        rw [hlast] at htop
        rw [← Option.some.inj htop]
        exact hv
      have hsearched := hsearch s v s' h hcolor hedge hlook
      refine ⟨hsearched.standing, hsearched.later, fun w hw => ?_, fun w hw => ?_,
        fun w hw hw' => (hsearched.entered w hw hw').head hv⟩
      · rw [List.mem_singleton.mp hw]
        exact .inl hsearched.black
      · rw [List.mem_singleton.mp hw, hsearched.black]
        simp
    | black =>
      cases hlook
      refine ⟨h, Later.refl _, fun w hw => ?_, fun w hw => ?_, fun w hw hw' => absurd hw hw'⟩
      · rw [List.mem_singleton.mp hw]
        exact .inl hcolor
      · rw [List.mem_singleton.mp hw, hcolor]
        simp
    | gray =>
      cases hlook
      obtain ⟨hcycle, hin, hin'⟩ := simpleCycle_drop h.path h.once hlast ((h.gray v).mp hcolor) hv
      have hsub : s.cycles ⊆ s.cycles ++ [(stack ++ [u]).drop ((stack ++ [u]).idxOf v)] :=
        List.subset_append_left _ _
      refine ⟨⟨h.known, h.gray, h.path, h.once, fun c hc => ?_, h.entered, h.visited, h.closed, ?_⟩,
        ⟨fun _ hb => hb, fun _ hw => hw, hsub⟩, fun w hw => ?_, fun w hw => ?_,
        fun w hw hw' => absurd hw hw'⟩
      · rcases List.mem_append.mp hc with hold | hnew
        · exact h.cycles c hold
        · rw [List.mem_singleton.mp hnew]
          exact hcycle
      · obtain ⟨order, hall, hsettled⟩ := h.finished
        exact ⟨order, hall, hsettled.mono hsub⟩
      · rw [List.mem_singleton.mp hw]
        exact .inr ⟨_, List.mem_append_right _ (List.mem_singleton_self _), hin, hin'⟩
      · rw [List.mem_singleton.mp hw]
        dsimp only
        rw [hcolor]
        simp

/-- Looking at successors one after the other. -/
theorem foldlM_look_spec {stack : List V} {u : V} {search : Search V → V → Option (Search V)}
    (hsearch : Searches next nodes (stack ++ [u]) search) {successors : List V}
    (hsub : successors ⊆ next u) {s s' : Search V} (h : Standing next nodes (stack ++ [u]) s)
    (hlook : successors.foldlM (look search (stack ++ [u])) s = some s') :
    Looked next nodes stack u successors s s' := by
  induction successors generalizing s with
  | nil =>
    cases hlook
    exact ⟨h, Later.refl _, fun v hv => absurd hv List.not_mem_nil,
      fun v hv => absurd hv List.not_mem_nil, fun w hw hw' => absurd hw hw'⟩
  | cons v successors ih =>
    rw [List.foldlM_cons] at hlook
    obtain ⟨s₁, hfirst, hrest⟩ := Option.bind_eq_some_iff.mp hlook
    have hlooked := look_spec hnext hsearch h (hsub List.mem_cons_self) hfirst
    have hothers := ih (List.Subset.trans (List.subset_cons_self _ _) hsub) hlooked.standing hrest
    refine ⟨hothers.standing, hlooked.later.trans hothers.later, fun w hw => ?_, fun w hw => ?_,
      fun w hw hw' => ?_⟩
    · rcases List.mem_cons.mp hw with heq | hin
      · rw [heq]
        rcases hlooked.done v (List.mem_singleton_self v) with hblack | ⟨c, hc, hboth⟩
        · exact .inl (hothers.later.black v hblack)
        · exact .inr ⟨c, hothers.later.cycles hc, hboth⟩
      · exact hothers.done w hin
    · rcases List.mem_cons.mp hw with heq | hin
      · rw [heq]
        exact fun hwhite => hlooked.known v (List.mem_singleton_self v) (hothers.later.white v hwhite)
      · exact hothers.known w hin
    · by_cases hbetween : s₁.color w = some .white
      · exact hothers.entered w hbetween hw'
      · exact hlooked.entered w hw hbetween

/-- A search from a node with a result leaves the node. -/
theorem dfs_spec (frames : ℕ) (stack : List V) :
    Searches next nodes stack (dfs next frames stack) := by
  induction frames generalizing stack with
  | zero => exact fun s u s' _ _ _ hdfs => nomatch hdfs
  | succ frames ih =>
    intro s u s' h hwhite hedge hdfs
    unfold dfs at hdfs
    obtain ⟨looked, hfold, hleave⟩ := Option.map_eq_some_iff.mp hdfs
    have hlooked := foldlM_look_spec hnext (ih (stack ++ [u])) (List.Subset.refl (next u))
      (h.enter hwhite hedge) hfold
    rw [← hleave]
    refine ⟨hlooked.standing.leave hlooked.done hlooked.known,
      ⟨fun v hv => ?_, fun v hv => ?_, hlooked.later.cycles⟩, ?_, fun w hw hw' => ?_⟩
    · have hne : v ≠ u := by
        intro heq
        rw [heq, hwhite] at hv
        cases hv
      have hentered : (CycleSearches.enter s u).color v = some .black := by
        rw [color_enter, if_neg hne]
        exact hv
      rw [color_leave, if_neg hne]
      exact hlooked.later.black v hentered
    · rw [color_leave] at hv
      split at hv
      · cases hv
      · rename_i hne
        have hbefore := hlooked.later.white v hv
        rwa [color_enter, if_neg hne] at hbefore
    · rw [color_leave, if_pos rfl]
    · by_cases hwu : w = u
      · rw [hwu]
      · rw [color_leave, if_neg hwu] at hw'
        refine hlooked.entered w ?_ hw'
        rw [color_enter, if_neg hwu]
        exact hw

/-! ## The search from all nodes -/

omit hnext in
/-- At the start no node was entered. -/
theorem standing_unvisited (nodes : List V) : Standing next nodes [] (unvisited nodes) := by
  have hcolor : ∀ v, (unvisited nodes).color v ≠ some .gray ∧
      (unvisited nodes).color v ≠ some .black := by
    intro v
    unfold unvisited
    by_cases hv : v ∈ nodes
    · simp [hv]
    · simp [hv]
  refine ⟨fun v => ?_, fun v => ?_, List.isChain_nil, List.nodup_nil,
    fun c hc => absurd hc List.not_mem_nil, List.nodup_nil, fun v => ?_,
    fun v hv => absurd hv (hcolor v).2, [], fun v => ?_, trivial⟩
  · unfold unvisited
    simp
  · exact iff_of_false (hcolor v).1 List.not_mem_nil
  · exact iff_of_false List.not_mem_nil fun h => h.elim (hcolor v).1 (hcolor v).2
  · exact iff_of_false (hcolor v).2 List.not_mem_nil

variable (next) in
/-- What searching from some nodes does when it has a result. -/
structure Visited (nodes roots : List V) (s s' : Search V) : Prop where
  /-- No node is on the path. -/
  standing : Standing next nodes [] s'
  /-- It goes on from where it was. -/
  later : Later s s'
  /-- The nodes are left. -/
  black : ∀ v ∈ roots, s'.color v = some .black
  /-- The nodes lead to all that were entered. -/
  entered : ∀ w, s.color w = some .white → s'.color w ≠ some .white →
    ∃ v ∈ roots, Relation.ReflTransGen (fun a b => b ∈ next a) v w

/-- A node is searched from unless it was entered before. -/
theorem visit_spec {frames : ℕ} {s s' : Search V} {u : V} (hu : u ∈ nodes)
    (h : Standing next nodes [] s) (hvisit : visit next frames s u = some s') :
    Visited next nodes [u] s s' := by
  unfold visit at hvisit
  split at hvisit
  · rename_i hwhite
    have hsearched := dfs_spec hnext frames [] s u s' h hwhite (fun top htop => by cases htop) hvisit
    refine ⟨hsearched.standing, hsearched.later, fun v hv => ?_, fun w hw hw' => ?_⟩
    · rw [List.mem_singleton.mp hv]
      exact hsearched.black
    · exact ⟨u, List.mem_singleton_self u, hsearched.entered w hw hw'⟩
  · rename_i hwhite
    cases hvisit
    refine ⟨h, Later.refl _, fun v hv => ?_, fun w hw hw' => absurd hw hw'⟩
    have hgray : s.color u ≠ some .gray := fun hg => List.not_mem_nil ((h.gray u).mp hg)
    rw [List.mem_singleton.mp hv]
    cases hcolor : s.color u with
    | none => exact absurd hcolor ((h.known u).mp hu)
    | some color =>
      cases color with
      | white => exact absurd hcolor hwhite
      | gray => exact absurd hcolor hgray
      | black => rfl

/-- Nodes are searched from one after the other. -/
theorem foldlM_visit_spec {frames : ℕ} {roots : List V} (hroots : roots ⊆ nodes) {s s' : Search V}
    (h : Standing next nodes [] s) (hvisit : roots.foldlM (visit next frames) s = some s') :
    Visited next nodes roots s s' := by
  induction roots generalizing s with
  | nil =>
    cases hvisit
    exact ⟨h, Later.refl _, fun v hv => absurd hv List.not_mem_nil, fun w hw hw' => absurd hw hw'⟩
  | cons u roots ih =>
    rw [List.foldlM_cons] at hvisit
    obtain ⟨s₁, hfirst, hrest⟩ := Option.bind_eq_some_iff.mp hvisit
    have hone := visit_spec hnext (hroots List.mem_cons_self) h hfirst
    have hothers := ih (List.Subset.trans (List.subset_cons_self _ _) hroots) hone.standing hrest
    refine ⟨hothers.standing, hone.later.trans hothers.later, fun v hv => ?_, fun w hw hw' => ?_⟩
    · rcases List.mem_cons.mp hv with heq | hin
      · rw [heq]
        exact hothers.later.black u (hone.black u (List.mem_singleton_self u))
      · exact hothers.black v hin
    · by_cases hbetween : s₁.color w = some .white
      · obtain ⟨v, hv, hreach⟩ := hothers.entered w hbetween hw'
        exact ⟨v, List.mem_cons_of_mem _ hv, hreach⟩
      · obtain ⟨v, hv, hreach⟩ := hone.entered w hw hbetween
        exact ⟨v, by rw [List.mem_singleton.mp hv]; exact List.mem_cons_self, hreach⟩

/-- A search with a result has left every node. -/
theorem searchAll_spec {frames : ℕ} {s : Search V} (hall : searchAll next frames nodes = some s) :
    Standing next nodes [] s ∧ ∀ v ∈ nodes, s.color v = some .black :=
  have hvisited := foldlM_visit_spec hnext (List.Subset.refl nodes) (standing_unvisited nodes)
    hall
  ⟨hvisited.standing, hvisited.black⟩

/-- A search with a result has entered every node once. -/
theorem visited_perm (hnodup : nodes.Nodup) {frames : ℕ} {s : Search V}
    (hall : searchAll next frames nodes = some s) : s.visited.Perm nodes := by
  obtain ⟨hstanding, hblack⟩ := searchAll_spec hnext hall
  refine (List.perm_ext_iff_of_nodup hstanding.entered hnodup).mpr fun v => ?_
  rw [hstanding.visited, hstanding.known]
  constructor
  · rintro (hgray | hleft)
    · rw [hgray]
      simp
    · rw [hleft]
      simp
  · intro hknown
    exact .inr (hblack v ((hstanding.known v).mpr hknown))

end Steps

/-! ## Searches without a result -/

omit [DecidableEq V] in
/-- A fold without a result has none at one of its elements. -/
theorem foldlM_eq_none {S : Type*} {f : S → V → Option S} {items : List V} {s : S}
    (h : items.foldlM f s = none) :
    ∃ before v after s', items = before ++ v :: after ∧ before.foldlM f s = some s' ∧
      f s' v = none := by
  induction items generalizing s with
  | nil => cases h
  | cons first items ih =>
    rw [List.foldlM_cons] at h
    cases hfirst : f s first with
    | none => exact ⟨[], first, items, s, rfl, rfl, hfirst⟩
    | some s₁ =>
      rw [hfirst] at h
      obtain ⟨before, v, after, s', hitems, hbefore, hnone⟩ := ih h
      refine ⟨first :: before, v, after, s', by rw [hitems, List.cons_append], ?_, hnone⟩
      rw [List.foldlM_cons, hfirst]
      exact hbefore

/-- A path of different nodes. It starts at a listed node, and no node that is
listed before leads to any of the path. -/
structure FreshPath (r : V → V → Prop) (nodes path : List V) : Prop where
  /-- Each node leads to the next one. -/
  chain : path.IsChain r
  /-- No node is repeated. -/
  nodup : path.Nodup
  /-- The nodes before the first one do not lead to the path. -/
  fresh : ∃ before first after, nodes = before ++ first :: after ∧ path.head? = some first ∧
    ∀ a ∈ before, ∀ b ∈ path, ¬Relation.ReflTransGen r a b

section Failures

variable {nodes : List V} (hnext : ∀ u ∈ nodes, ∀ v ∈ next u, v ∈ nodes)

include hnext

/-- A search from a node without a result stood at the end of a path of nodes
that were not entered, one longer than calls may be open. -/
theorem path_of_dfs_eq_none {frames : ℕ} {stack : List V} {s : Search V} {u : V}
    (h : Standing next nodes stack s) (hwhite : s.color u = some .white)
    (hedge : ∀ top ∈ stack.getLast?, u ∈ next top) (hnone : dfs next frames stack s u = none) :
    ∃ rest, (u :: rest).IsChain (fun a b => b ∈ next a) ∧ (u :: rest).Nodup ∧
      (∀ v ∈ u :: rest, s.color v = some .white) ∧ rest.length = frames := by
  induction frames generalizing stack s u with
  | zero =>
    refine ⟨[], List.isChain_singleton u, List.nodup_singleton u, fun v hv => ?_, rfl⟩
    rw [List.mem_singleton.mp hv]
    exact hwhite
  | succ frames ih =>
    unfold dfs at hnone
    obtain ⟨before, v, after, s₁, hitems, hbefore, hlook⟩ :=
      foldlM_eq_none (Option.map_eq_none_iff.mp hnone)
    have hv : v ∈ next u := by
      rw [hitems]
      exact List.mem_append_right _ List.mem_cons_self
    have hsub : before ⊆ next u := by
      rw [hitems]
      exact List.subset_append_left _ _
    have hlooked := foldlM_look_spec hnext (dfs_spec hnext frames (stack ++ [u])) hsub
      (h.enter hwhite hedge) hbefore
    have hnew : s₁.color v = some .white ∧ dfs next frames (stack ++ [u]) s₁ v = none := by
      unfold look at hlook
      split at hlook
      · cases hlook
      · rename_i hcolor
        exact ⟨hcolor, hlook⟩
      · cases hlook
    have hedge' : ∀ top ∈ (stack ++ [u]).getLast?, v ∈ next top := by
      intro top htop
      rw [List.getLast?_concat] at htop
      rw [← Option.some.inj htop]
      exact hv
    obtain ⟨rest, hchain, hnodup, hwhites, hlength⟩ := ih hlooked.standing hnew.1 hedge' hnew.2
    have hold : ∀ w ∈ v :: rest, w ≠ u ∧ s.color w = some .white := by
      intro w hw
      have hentered := hlooked.later.white w (hwhites w hw)
      rw [color_enter] at hentered
      split at hentered
      · cases hentered
      · rename_i hne
        exact ⟨hne, hentered⟩
    refine ⟨v :: rest, List.isChain_cons_cons.mpr ⟨hv, hchain⟩,
      List.nodup_cons.mpr ⟨fun hu => (hold u hu).1 rfl, hnodup⟩, fun w hw => ?_, ?_⟩
    · rcases List.mem_cons.mp hw with heq | hin
      · rw [heq]
        exact hwhite
      · exact (hold w hin).2
    · rw [List.length_cons, hlength]

omit [DecidableEq V] in
/-- Between searches the nodes that were left lead to such nodes only. -/
theorem Standing.black_of_reaches {s : Search V} (h : Standing next nodes [] s) {a b : V}
    (ha : s.color a = some .black) (hreach : Relation.ReflTransGen (fun a b => b ∈ next a) a b) :
    s.color b = some .black := by
  induction hreach with
  | refl => exact ha
  | @tail v w _ hedge hblack =>
    have hv : v ∈ nodes := by
      rw [h.known, hblack]
      simp
    have hknown := (h.known w).mp (hnext v hv w hedge)
    have hgray : s.color w ≠ some .gray := fun hg => List.not_mem_nil ((h.gray w).mp hg)
    cases hcolor : s.color w with
    | none => exact absurd hcolor hknown
    | some color =>
      cases color with
      | white => exact absurd hcolor (h.closed v hblack w hedge)
      | gray => exact absurd hcolor hgray
      | black => rfl

/-- A search without a result stood at the end of a path with more nodes than
calls may be open, which no node searched from before leads to. -/
theorem exists_path_of_searchAll_eq_none {frames : ℕ} (hnone : searchAll next frames nodes = none) :
    ∃ path, FreshPath (fun a b => b ∈ next a) nodes path ∧ frames < path.length := by
  obtain ⟨before, first, after, s, hnodes, hbefore, hvisit⟩ := foldlM_eq_none hnone
  have hsub : before ⊆ nodes := by
    rw [hnodes]
    exact List.subset_append_left _ _
  have hvisited := foldlM_visit_spec hnext hsub (standing_unvisited nodes) hbefore
  unfold visit at hvisit
  split at hvisit
  · rename_i hwhite
    obtain ⟨rest, hchain, hnodup, hwhites, hlength⟩ := path_of_dfs_eq_none hnext hvisited.standing
      hwhite (fun top htop => by cases htop) hvisit
    refine ⟨first :: rest, ⟨hchain, hnodup, before, first, after, hnodes, rfl,
      fun a ha b hb hreach => ?_⟩, ?_⟩
    · have hblack := hvisited.standing.black_of_reaches hnext (hvisited.black a ha) hreach
      rw [hwhites b hb] at hblack
      cases hblack
    · rw [List.length_cons, hlength]
      omega
  · cases hvisit

omit hnext in
/-- A search that looks at the next node of a path first has no result when the
path has more nodes than calls may be open. -/
theorem dfs_eq_none_of_path {frames : ℕ} {stack : List V} {s : Search V} {u : V} {rest : List V}
    (hchain : (u :: rest).IsChain fun a b => (next a).head? = some b) (hnodup : (u :: rest).Nodup)
    (hwhites : ∀ v ∈ u :: rest, s.color v = some .white) (hlong : frames ≤ rest.length) :
    dfs next frames stack s u = none := by
  induction frames generalizing stack s u rest with
  | zero => rfl
  | succ frames ih =>
    cases rest with
    | nil => cases hlong
    | cons v rest =>
      obtain ⟨hfirst, hchain'⟩ := List.isChain_cons_cons.mp hchain
      obtain ⟨hout, hnodup'⟩ := List.nodup_cons.mp hnodup
      obtain ⟨others, hothers⟩ := List.head?_eq_some_iff.mp hfirst
      have hentered : ∀ w ∈ v :: rest, (CycleSearches.enter s u).color w = some .white := by
        intro w hw
        have hne : w ≠ u := fun heq => hout (heq ▸ hw)
        rw [color_enter, if_neg hne]
        exact hwhites w (List.mem_cons_of_mem _ hw)
      have hnone : dfs next frames (stack ++ [u]) (CycleSearches.enter s u) v = none :=
        ih hchain' hnodup' hentered (by rw [List.length_cons] at hlong; omega)
      have hlook : look (dfs next frames (stack ++ [u])) (stack ++ [u]) (CycleSearches.enter s u) v =
          none := by
        unfold look
        rw [hentered v List.mem_cons_self]
        exact hnone
      unfold dfs
      rw [hothers, List.foldlM_cons, hlook]
      rfl

/-- The search has no result where some order of the successors leads along a
path with more nodes than calls may be open. -/
theorem searchAll_eq_none_of_path {frames : ℕ} {path : List V}
    (hpath : FreshPath (fun a b => b ∈ next a) nodes path)
    (hchain : path.IsChain fun a b => (next a).head? = some b) (hlong : frames < path.length) :
    searchAll next frames nodes = none := by
  obtain ⟨before, first, after, hnodes, hfirst, hfresh⟩ := hpath.fresh
  obtain ⟨rest, hrest⟩ := List.head?_eq_some_iff.mp hfirst
  unfold searchAll
  rw [hnodes, List.foldlM_append]
  cases hbefore : before.foldlM (visit next frames) (unvisited (before ++ first :: after)) with
  | none => rfl
  | some s =>
    rw [← hnodes] at hbefore
    have hsub : before ⊆ nodes := by
      rw [hnodes]
      exact List.subset_append_left _ _
    have hvisited := foldlM_visit_spec hnext hsub (standing_unvisited nodes) hbefore
    have hin : ∀ v ∈ path, v ∈ nodes := by
      have hstart : first ∈ nodes := by
        rw [hnodes]
        exact List.mem_append_right _ List.mem_cons_self
      intro v hv
      have hchain' := hpath.chain
      rw [hrest] at hchain' hv
      have hreach := reaches_of_chain hchain' v hv
      clear hv
      induction hreach with
      | refl => exact hstart
      | tail _ hedge ih => exact hnext _ ih _ hedge
    have hwhites : ∀ v ∈ first :: rest, s.color v = some .white := by
      intro v hv
      rw [← hrest] at hv
      have hstart : (unvisited nodes).color v = some .white := if_pos (hin v hv)
      by_contra hentered
      obtain ⟨a, ha, hreach⟩ := hvisited.entered v hstart hentered
      exact hfresh a ha v hv hreach
    have hnodup := hpath.nodup
    rw [hrest] at hchain hnodup hlong
    have hnone : visit next frames s first = none := by
      unfold visit
      rw [if_pos (hwhites first List.mem_cons_self)]
      exact dfs_eq_none_of_path hchain hnodup hwhites (by rw [List.length_cons] at hlong; omega)
    change (first :: after).foldlM (visit next frames) s = none
    rw [List.foldlM_cons, hnone]
    rfl

end Failures

/-! ## Strongly connected nodes -/

/-- Along a list every step leads further down. -/
def Descends (r : V → V → Prop) : List V → Prop
  | [] => True
  | v :: earlier => (∀ w, r v w → w ∈ earlier) ∧ Descends r earlier

omit [DecidableEq V] in
/-- Steps stay in the list. -/
theorem Descends.mem_of_reflTransGen {r : V → V → Prop} {order : List V} (h : Descends r order)
    {x y : V} (hx : x ∈ order) (hpath : Relation.ReflTransGen r x y) : y ∈ order := by
  have hstep : ∀ x ∈ order, ∀ y, r x y → y ∈ order := by
    clear hx hpath
    induction order with
    | nil => exact fun x hx => absurd hx List.not_mem_nil
    | cons v earlier ih =>
      intro x hx y hxy
      rcases List.mem_cons.mp hx with heq | hin
      · rw [heq] at hxy
        exact List.mem_cons_of_mem _ (h.1 y hxy)
      · exact List.mem_cons_of_mem _ (ih h.2 x hin y hxy)
  induction hpath with
  | refl => exact hx
  | tail _ hlast ih => exact hstep _ ih _ hlast

omit [DecidableEq V] in
/-- No walk returns to where it began. -/
theorem Descends.not_transGen {r : V → V → Prop} {order : List V} (h : Descends r order) :
    ∀ x ∈ order, ¬Relation.TransGen r x x := by
  induction order with
  | nil => exact fun x hx => absurd hx List.not_mem_nil
  | cons v earlier ih =>
    intro x hx hround
    by_cases hin : x ∈ earlier
    · exact ih h.2 x hin hround
    · have heq : x = v := (List.mem_cons.mp hx).resolve_right hin
      obtain ⟨w, hfirst, hrest⟩ := Relation.TransGen.head'_iff.mp hround
      rw [heq] at hfirst
      exact hin (h.2.mem_of_reflTransGen (h.1 w hfirst) hrest)

/-- Two nodes that lead to each other have a cycle among the nodes that lead
to them and back. -/
theorem exists_cycle {nodes : List V} (hnext : ∀ u ∈ nodes, ∀ v ∈ next u, v ∈ nodes) {frames : ℕ}
    {s : Search V} (hsearch : searchAll next frames nodes = some s) {a b : V}
    (ha : a ∈ nodes) (hab : a ≠ b)
    (hto : Relation.ReflTransGen (fun a b => b ∈ next a) a b)
    (hback : Relation.ReflTransGen (fun a b => b ∈ next a) b a) :
    ∃ c ∈ s.cycles, ∀ x ∈ c,
      Relation.ReflTransGen (fun a b => b ∈ next a) a x ∧
      Relation.ReflTransGen (fun a b => b ∈ next a) x a := by
  obtain ⟨hstanding, hall⟩ := searchAll_spec hnext hsearch
  obtain ⟨order, hblack, hsettled⟩ := hstanding.finished
  by_contra hnone
  -- steps among the nodes that lead to the first node and back
  let within (x y : V) : Prop := y ∈ next x ∧
    Relation.ReflTransGen (fun a b => b ∈ next a) a x ∧
    Relation.ReflTransGen (fun a b => b ∈ next a) y a
  have hdescends : Descends within order := by
    clear hblack
    induction order with
    | nil => trivial
    | cons v earlier ih =>
      refine ⟨fun w hw => ?_, ih hsettled.2⟩
      obtain ⟨hedge, hfrom, hreturn⟩ := hw
      rcases hsettled.1 w hedge with hearlier | ⟨c, hc, hv, hin⟩
      · exact hearlier
      · have hcycle := hstanding.cycles c hc
        refine absurd ⟨c, hc, fun x hx => ⟨?_, ?_⟩⟩ hnone
        · exact hfrom.trans (hcycle.reaches hv hx)
        · exact (hcycle.reaches hx hin).trans hreturn
  have hwalk : ∀ x, Relation.TransGen (fun a b => b ∈ next a) a x →
      Relation.ReflTransGen (fun a b => b ∈ next a) x a → Relation.TransGen within a x := by
    intro x hpath
    induction hpath with
    | single hedge => exact fun hreturn => .single ⟨hedge, .refl, hreturn⟩
    | tail hpath hedge ih =>
      intro hreturn
      exact (ih (hreturn.head hedge)).tail ⟨hedge, hpath.to_reflTransGen, hreturn⟩
  have hforth : Relation.TransGen (fun a b => b ∈ next a) a b :=
    (Relation.reflTransGen_iff_eq_or_transGen.mp hto).resolve_left hab.symm
  have hround := hwalk a (hforth.trans_left hback) .refl
  exact hdescends.not_transGen a ((hblack a).mp (hall a ha)) hround

end Searching

end Tyo3.CycleSearches
