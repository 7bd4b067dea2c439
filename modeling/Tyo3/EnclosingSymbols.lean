import Tyo3.CodeLayerBuilder

/-!
# The symbol around an occurrence

A reference starts at the symbol around it. The symbols of a file are sorted
by their number of lines and then by their end column, and the first that
contains the occurrence is taken. For nested ranges this is the innermost one
as long as no wider range on the same lines ends at the same place and is
listed first.
-/

namespace Tyo3.EnclosingSymbols

open CodeLayer CodeLayerBuilder FiniteMaps

/-! ## The first hit in a sorted list -/

section FirstHit

variable {α : Type*} (le : α → α → Prop) [DecidableRel le] (p : α → Bool)

/-- The first of the least elements with a property. -/
def firstLeast : List α → Option α
  | [] => none
  | a :: l =>
    if p a then
      match firstLeast l with
      | none => some a
      | some x => if le a x then some a else some x
    else firstLeast l

variable {le p}

/-- Searching after an insertion compares the new element with the old hit. -/
theorem find?_orderedInsert (htrans : ∀ a b c, le a b → le b c → le a c) (a : α) {l : List α}
    (hsorted : l.Pairwise le) :
    (l.orderedInsert le a).find? p =
      if p a then
        match l.find? p with
        | none => some a
        | some x => if le a x then some a else some x
      else l.find? p := by
  induction l with
  | nil =>
    rw [List.orderedInsert_nil]
    cases hp : p a with
    | true => simp [hp]
    | false => simp [hp]
  | cons b l ih =>
    have hrest := ih (List.pairwise_cons.mp hsorted).2
    rw [List.orderedInsert_cons]
    split
    · rename_i hle
      cases hp : p a with
      | false => simp [hp]
      | true =>
        have hhit : ∀ x, (b :: l).find? p = some x → le a x := by
          intro x hx
          rcases List.mem_cons.mp (List.mem_of_find?_eq_some hx) with heq | hin
          · exact heq ▸ hle
          · exact htrans a b x hle ((List.pairwise_cons.mp hsorted).1 x hin)
        rw [List.find?_cons_of_pos hp, if_pos rfl]
        cases hfound : (b :: l).find? p with
        | none => rfl
        | some x => simp only [if_pos (hhit x hfound)]
    · rename_i hle
      cases hb : p b with
      | true =>
        rw [List.find?_cons_of_pos hb, List.find?_cons_of_pos hb]
        simp only [if_neg hle, ite_self]
      | false =>
        have hskip : ¬ p b = true := by rw [hb]; exact Bool.false_ne_true
        rw [List.find?_cons_of_neg hskip, List.find?_cons_of_neg hskip, hrest]

/-- The first hit after sorting is the first of the least. -/
theorem find?_insertionSort (htrans : ∀ a b c, le a b → le b c → le a c)
    (htotal : ∀ a b, le a b ∨ le b a) (l : List α) :
    (l.insertionSort le).find? p = firstLeast le p l := by
  have : IsTrans α le := ⟨htrans⟩
  have : Std.Total le := ⟨htotal⟩
  induction l with
  | nil => rfl
  | cons a l ih =>
    rw [List.insertionSort_cons, find?_orderedInsert htrans a (List.pairwise_insertionSort le l),
      ih, firstLeast]

/-- Nothing is found exactly when nothing has the property. -/
theorem firstLeast_eq_none {l : List α} : firstLeast le p l = none ↔ ∀ a ∈ l, p a = false := by
  induction l with
  | nil => simp [firstLeast]
  | cons a l ih =>
    rw [firstLeast]
    cases hp : p a with
    | false => simp [ih, hp]
    | true =>
      have hsome : ∃ x, (match firstLeast le p l with
          | none => some a
          | some x => if le a x then some a else some x) = some x := by
        cases firstLeast le p l with
        | none => exact ⟨a, rfl⟩
        | some x =>
          dsimp only
          split
          · exact ⟨a, rfl⟩
          · exact ⟨x, rfl⟩
      obtain ⟨x, hx⟩ := hsome
      simp [hx, hp]

/-- What is found has the property, is least, and comes before the other
least ones. -/
theorem firstLeast_spec (htrans : ∀ a b c, le a b → le b c → le a c)
    (htotal : ∀ a b, le a b ∨ le b a) {l : List α} {x : α} (h : firstLeast le p l = some x) :
    ∃ pre post, l = pre ++ x :: post ∧ p x = true ∧ (∀ y ∈ pre, p y = true → ¬ le y x) ∧
      ∀ y ∈ post, p y = true → le x y := by
  induction l generalizing x with
  | nil => cases h
  | cons a l ih =>
    rw [firstLeast] at h
    cases hp : p a with
    | false =>
      rw [hp, if_neg Bool.false_ne_true] at h
      obtain ⟨pre, post, hl, hx, hpre, hpost⟩ := ih h
      refine ⟨a :: pre, post, by rw [hl]; rfl, hx, ?_, hpost⟩
      intro y hy hpy
      rcases List.mem_cons.mp hy with heq | hin
      · rw [heq, hp] at hpy
        cases hpy
      · exact hpre y hin hpy
    | true =>
      rw [hp, if_pos rfl] at h
      cases hfound : firstLeast le p l with
      | none =>
        rw [hfound] at h
        have hnone := firstLeast_eq_none.mp hfound
        refine ⟨[], l, by rw [Option.some.inj h]; rfl, Option.some.inj h ▸ hp, by simp, ?_⟩
        intro y hy hpy
        rw [hnone y hy] at hpy
        cases hpy
      | some z =>
        rw [hfound] at h
        obtain ⟨pre, post, hl, hz, hpre, hpost⟩ := ih hfound
        by_cases hle : le a z
        · simp only [if_pos hle] at h
          have hax := Option.some.inj h
          refine ⟨[], l, by rw [hax]; rfl, hax ▸ hp, by simp, ?_⟩
          rw [← hax]
          intro y hy hpy
          have hzy : le z y := by
            rw [hl] at hy
            rcases List.mem_append.mp hy with hin | hin
            · exact (htotal z y).resolve_right (hpre y hin hpy)
            · rcases List.mem_cons.mp hin with heq | hin
              · rw [heq]
                exact (htotal z z).elim id id
              · exact hpost y hin hpy
          exact htrans a z y hle hzy
        · simp only [if_neg hle] at h
          have hzx := Option.some.inj h
          rw [← hzx]
          refine ⟨a :: pre, post, by rw [hl]; rfl, hz, ?_, hpost⟩
          intro y hy hpy
          rcases List.mem_cons.mp hy with heq | hin
          · exact heq ▸ hle
          · exact hpre y hin hpy

end FirstHit

/-! ## Ranges -/

/-- One range lies within another, by the order of positions. -/
def Within (x y : Range) : Prop :=
  Builder.positionLe y.start x.start = true ∧ Builder.positionLe x.stop y.stop = true

/-- Two ranges have no position in common. -/
def Disjoint (x y : Range) : Prop :=
  Builder.positionLe y.start x.stop = false ∨ Builder.positionLe x.start y.stop = false

/-- Two ranges start on the same line and end at the same position. -/
def Tied (x y : Range) : Prop := x.start.line = y.start.line ∧ x.stop = y.stop

theorem positionLe_iff {p q : Position} : Builder.positionLe p q = true ↔
    p.line < q.line ∨ p.line = q.line ∧ p.column ≤ q.column := by
  unfold Builder.positionLe
  exact decide_eq_true_iff

theorem positionLe_trans {p q r : Position} (h : Builder.positionLe p q = true)
    (h' : Builder.positionLe q r = true) : Builder.positionLe p r = true := by
  rw [positionLe_iff] at h h' ⊢
  omega

theorem Within.refl (x : Range) : Within x x := by
  have hself : ∀ p : Position, Builder.positionLe p p = true := fun p =>
    positionLe_iff.mpr (.inr ⟨rfl, le_refl _⟩)
  exact ⟨hself x.start, hself x.stop⟩

theorem Within.trans {x y z : Range} (h : Within x y) (h' : Within y z) : Within x z :=
  ⟨positionLe_trans h'.1 h.1, positionLe_trans h.2 h'.2⟩

theorem Within.antisymm {x y : Range} (h : Within x y) (h' : Within y x) : x = y := by
  have heq : ∀ p q : Position, Builder.positionLe p q = true → Builder.positionLe q p = true →
      p = q := by
    intro p q hpq hqp
    rw [positionLe_iff] at hpq hqp
    have hline : p.line = q.line := by omega
    have hcolumn : p.column = q.column := by omega
    cases p
    cases q
    simp only at hline hcolumn
    rw [hline, hcolumn]
  have hstart := heq x.start y.start h'.1 h.1
  have hstop := heq x.stop y.stop h.2 h'.2
  cases x
  cases y
  simp only at hstart hstop
  rw [hstart, hstop]

/-- Ranges around an occurrence are not disjoint. -/
theorem not_disjoint_around {r x y : Range} (hr : Builder.positionLe r.start r.stop = true)
    (hx : Within r x) (hy : Within r y) : ¬ Disjoint x y := by
  intro h
  rcases h with h | h
  · have hin := positionLe_trans hy.1 (positionLe_trans hr hx.2)
    rw [h] at hin
    cases hin
  · have hin := positionLe_trans hx.1 (positionLe_trans hr hy.2)
    rw [h] at hin
    cases hin

/-! ## Spans -/

theorem spanLe_iff {x y : RangeCacheEntry} : Builder.spanLe x y = true ↔
    x.range.stop.line - x.range.start.line < y.range.stop.line - y.range.start.line ∨
    x.range.stop.line - x.range.start.line = y.range.stop.line - y.range.start.line ∧
      x.range.stop.column ≤ y.range.stop.column := by
  unfold Builder.spanLe
  exact decide_eq_true_iff

theorem spanLe_trans (x y z : RangeCacheEntry) (h : Builder.spanLe x y = true)
    (h' : Builder.spanLe y z = true) : Builder.spanLe x z = true := by
  rw [spanLe_iff] at h h' ⊢
  omega

theorem spanLe_total (x y : RangeCacheEntry) :
    Builder.spanLe x y = true ∨ Builder.spanLe y x = true := by
  rw [spanLe_iff, spanLe_iff]
  omega

/-- A range around an occurrence does not end before its first line. -/
theorem line_le_of_around {r x : Range} (hr : Builder.positionLe r.start r.stop = true)
    (hx : Within r x) : x.start.line ≤ x.stop.line := by
  have hin := positionLe_trans hx.1 (positionLe_trans hr hx.2)
  rw [positionLe_iff] at hin
  omega

/-- A range within another has no larger span. -/
theorem spanLe_of_within {x y : RangeCacheEntry} (hx : x.range.start.line ≤ x.range.stop.line)
    (h : Within x.range y.range) : Builder.spanLe x y = true := by
  have hstart := positionLe_iff.mp h.1
  have hstop := positionLe_iff.mp h.2
  rw [spanLe_iff]
  omega

/-- A range within one that has no larger span is tied with it. -/
theorem tied_of_within {x y : RangeCacheEntry} (hx : x.range.start.line ≤ x.range.stop.line)
    (h : Within x.range y.range) (hspan : Builder.spanLe y x = true) : Tied y.range x.range := by
  have hstart := positionLe_iff.mp h.1
  have hstop := positionLe_iff.mp h.2
  rw [spanLe_iff] at hspan
  have hline : y.range.start.line = x.range.start.line := by omega
  have hstopLine : y.range.stop.line = x.range.stop.line := by omega
  have hstopColumn : y.range.stop.column = x.range.stop.column := by omega
  refine ⟨hline, ?_⟩
  cases hy : y.range.stop
  cases hz : x.range.stop
  rw [hy, hz] at hstopLine hstopColumn
  simp only at hstopLine hstopColumn
  rw [hstopLine, hstopColumn]

/-- Tied ranges have the same span. -/
theorem spanLe_of_tied {x y : RangeCacheEntry} (h : Tied x.range y.range) :
    Builder.spanLe x y = true := by
  rw [spanLe_iff, h.1, h.2]
  omega

/-! ## The innermost symbol -/

/-- The nodes of a file that are not modules, in the order they are listed. -/
def nodeRanges (b : Builder) (file : String) : List RangeCacheEntry :=
  (b.idsOf file).filterMap fun did =>
    match b.layer.nodes.lookup did with
    | none => none
    | some node => if node.kind = .module_ then none else some ⟨node.range, did⟩

/-- A node around an occurrence that lies within every other. -/
def Innermost (entries : List RangeCacheEntry) (r : Range) (x : RangeCacheEntry) : Prop :=
  x ∈ entries ∧ Within r x.range ∧ ∀ y ∈ entries, Within r y.range → Within x.range y.range

/-- The nodes around an occurrence are nested. -/
def NestedAround (entries : List RangeCacheEntry) (r : Range) : Prop :=
  ∀ x ∈ entries, ∀ y ∈ entries, Within r x.range → Within r y.range →
    Within x.range y.range ∨ Within y.range x.range

/-- Ranges that are pairwise nested or disjoint are nested around every
occurrence. -/
theorem nestedAround_of_disjoint {entries : List RangeCacheEntry} {r : Range}
    (hr : Builder.positionLe r.start r.stop = true)
    (h : ∀ x ∈ entries, ∀ y ∈ entries, Within x.range y.range ∨ Within y.range x.range ∨
      Disjoint x.range y.range) : NestedAround entries r := by
  intro x hx y hy hrx hry
  rcases h x hx y hy with hin | hin | hdisjoint
  · exact .inl hin
  · exact .inr hin
  · exact absurd hdisjoint (not_disjoint_around hr hrx hry)

/-- Among the nodes around an occurrence that are tied with the innermost
one, one with the innermost range is listed first. -/
def InnermostListedFirst (entries : List RangeCacheEntry) (r : Range) : Prop :=
  ∀ inner, Innermost entries r inner → ∀ before outer after, entries = before ++ outer :: after →
    Within r outer.range → Tied outer.range inner.range →
    outer.range = inner.range ∨ ∃ x ∈ before, Within r x.range ∧ x.range = inner.range

/-- Nested nodes have an innermost one. -/
theorem exists_innermost {entries : List RangeCacheEntry} {r : Range}
    (hnested : NestedAround entries r) {x : RangeCacheEntry} (hx : x ∈ entries)
    (hrx : Within r x.range) : ∃ inner, Innermost entries r inner := by
  induction entries generalizing x with
  | nil => cases hx
  | cons a entries ih =>
    have hrest : NestedAround entries r := fun y hy z hz =>
      hnested y (List.mem_cons_of_mem _ hy) z (List.mem_cons_of_mem _ hz)
    have hcons : ∀ inner, Within r inner.range → inner ∈ a :: entries →
        (Within r a.range → Within inner.range a.range) →
        (∀ y ∈ entries, Within r y.range → Within inner.range y.range) →
        Innermost (a :: entries) r inner := by
      intro inner hrin hin ha hleast
      refine ⟨hin, hrin, fun y hy hry => ?_⟩
      rcases List.mem_cons.mp hy with heq | hin
      · rw [heq] at hry ⊢
        exact ha hry
      · exact hleast y hin hry
    by_cases hsome : ∃ y ∈ entries, Within r y.range
    · obtain ⟨y, hy, hry⟩ := hsome
      obtain ⟨inner, hin, hrin, hleast⟩ := ih hrest hy hry
      have hmem := List.mem_cons_of_mem a hin
      by_cases hra : Within r a.range
      · rcases hnested a List.mem_cons_self inner hmem hra hrin with h | h
        · exact ⟨a, hcons a hra List.mem_cons_self (fun _ => Within.refl _)
            fun z hz hrz => h.trans (hleast z hz hrz)⟩
        · exact ⟨inner, hcons inner hrin hmem (fun _ => h) hleast⟩
      · exact ⟨inner, hcons inner hrin hmem (fun h => absurd h hra) hleast⟩
    · rcases List.mem_cons.mp hx with heq | hin
      · rw [heq] at hrx
        exact ⟨a, hcons a hrx List.mem_cons_self (fun _ => Within.refl _)
          fun z hz hrz => absurd ⟨z, hz, hrz⟩ hsome⟩
      · exact absurd ⟨x, hin, hrx⟩ hsome

/-- What the search tests is that the node is around the occurrence. -/
def isAround (r : Range) (entry : RangeCacheEntry) : Bool :=
  Builder.positionLe entry.range.start r.start && Builder.positionLe r.stop entry.range.stop

theorem isAround_iff {r : Range} {entry : RangeCacheEntry} :
    isAround r entry = true ↔ Within r entry.range :=
  Bool.and_eq_true_iff

/-- The search takes the first of the nodes with the least span. -/
theorem findEnclosingSymbol_eq_firstLeast {b : Builder} {file : String}
    (hcache : b.rangeCache.lookup file = some (b.rangeEntries file)) (r : Range) :
    b.findEnclosingSymbol file r =
      match firstLeast (fun x y => Builder.spanLe x y = true) (isAround r) (nodeRanges b file) with
      | some entry => some entry.durableId
      | none =>
        if b.layer.hasNode (makeModuleDurableId file) then some (makeModuleDurableId file)
        else none := by
  have hfirst := @find?_insertionSort _ (fun x y => Builder.spanLe x y = true) _ (isAround r)
    spanLe_trans spanLe_total (nodeRanges b file)
  unfold Builder.findEnclosingSymbol
  rw [hcache, ← hfirst]
  rfl

/-- The first of the nodes with the least span is the innermost one exactly
when the innermost range is listed first among those tied with it. -/
theorem innermost_firstLeast_iff {entries : List RangeCacheEntry} {r : Range}
    (hr : Builder.positionLe r.start r.stop = true) (hnested : NestedAround entries r)
    {x : RangeCacheEntry}
    (hx : firstLeast (fun x y => Builder.spanLe x y = true) (isAround r) entries = some x) :
    Innermost entries r x ↔ InnermostListedFirst entries r := by
  obtain ⟨pre, post, hentries, haround, hpre, hpost⟩ := firstLeast_spec spanLe_trans spanLe_total hx
  have hrx := isAround_iff.mp haround
  have hmem : x ∈ entries := hentries ▸ List.mem_append_right _ List.mem_cons_self
  have hbefore : ∀ y ∈ pre, Within r y.range → ¬ Builder.spanLe y x = true := fun y hy hry =>
    hpre y hy (isAround_iff.mpr hry)
  have hleast : ∀ y ∈ entries, Within r y.range → Builder.spanLe x y = true := by
    intro y hy hry
    rw [hentries] at hy
    rcases List.mem_append.mp hy with hin | hin
    · exact (spanLe_total x y).resolve_right (hbefore y hin hry)
    · rcases List.mem_cons.mp hin with heq | hin
      · rw [heq]
        exact (spanLe_total x x).elim id id
      · exact hpost y hin (isAround_iff.mpr hry)
  constructor
  · -- what is found has the innermost range, and nothing tied with it is listed before it
    intro hinner inner hin before outer after hsplit hro htied
    have hrange : x.range = inner.range :=
      (hinner.2.2 inner hin.1 hin.2.1).antisymm (hin.2.2 x hmem hrx)
    rw [← hrange] at htied
    have hout : outer ∉ pre := fun h => hbefore outer h hro (spanLe_of_tied htied)
    rw [hentries] at hsplit
    rcases List.append_eq_append_iff.mp hsplit with ⟨gap, hbeforeEq, hrestEq⟩ |
      ⟨gap, hpreEq, hrestEq⟩
    · cases gap with
      | nil =>
        have hxo : x = outer := (List.cons.inj hrestEq).1
        exact .inl (hxo ▸ hrange)
      | cons first gap =>
        have hxo : x = first := (List.cons.inj hrestEq).1
        refine .inr ⟨x, ?_, hrx, hrange⟩
        rw [hbeforeEq, hxo]
        exact List.mem_append_right _ List.mem_cons_self
    · cases gap with
      | nil =>
        have hxo : outer = x := (List.cons.inj hrestEq).1
        exact .inl (hxo ▸ hrange)
      | cons first gap =>
        have hxo : outer = first := (List.cons.inj hrestEq).1
        refine absurd ?_ hout
        rw [hpreEq, hxo]
        exact List.mem_append_right _ List.mem_cons_self
  · intro hfirst
    obtain ⟨inner, hin⟩ := exists_innermost hnested hmem hrx
    have hwithin := hin.2.2 x hmem hrx
    have htied := tied_of_within (line_le_of_around hr hin.2.1) hwithin (hleast inner hin.1 hin.2.1)
    rcases hfirst inner hin pre x post hentries hrx htied with heq | ⟨y, hy, hry, heq⟩
    · refine ⟨hmem, hrx, fun y hy hry => ?_⟩
      rw [heq]
      exact hin.2.2 y hy hry
    · have hspan : Builder.spanLe y x = true :=
        spanLe_of_within (line_le_of_around hr hry) (heq ▸ hwithin)
      exact absurd hspan (hbefore y hy hry)

/-- The search returns an innermost node around the occurrence, and the
module exactly when there is none. -/
def FindsInnermost (b : Builder) (file : String) (r : Range) : Prop :=
  (b.findEnclosingSymbol file r = some (makeModuleDurableId file) ↔
    ∀ x ∈ nodeRanges b file, ¬ Within r x.range) ∧
  ((∃ x ∈ nodeRanges b file, Within r x.range) →
    ∃ x, Innermost (nodeRanges b file) r x ∧ b.findEnclosingSymbol file r = some x.durableId)

/-- A listed node is no module. -/
theorem kind_of_mem_nodeRanges {b : Builder} {file : String} {x : RangeCacheEntry}
    (hx : x ∈ nodeRanges b file) : ∃ node, b.layer.nodes.lookup x.durableId = some node ∧
      node.kind ≠ .module_ ∧ x.range = node.range := by
  obtain ⟨did, -, hentry⟩ := List.mem_filterMap.mp hx
  cases hnode : b.layer.nodes.lookup did with
  | none =>
    rw [hnode] at hentry
    cases hentry
  | some node =>
    rw [hnode] at hentry
    simp only at hentry
    split at hentry
    · cases hentry
    · rename_i hkind
      have heq := Option.some.inj hentry
      refine ⟨node, ?_, hkind, ?_⟩
      · rw [← heq]
        exact hnode
      · rw [← heq]

/-- For nested ranges the innermost symbol is found exactly when its range is
listed first among those tied with it. -/
theorem findsInnermost_iff (b : Builder) (file : String) (r : Range)
    (hcache : b.rangeCache.lookup file = some (b.rangeEntries file))
    (hmodule : (b.layer.nodes.lookup (makeModuleDurableId file)).map NodeData.kind = some .module_)
    (hr : Builder.positionLe r.start r.stop = true) (hnested : NestedAround (nodeRanges b file) r) :
    FindsInnermost b file r ↔ InnermostListedFirst (nodeRanges b file) r := by
  have hfind := findEnclosingSymbol_eq_firstLeast hcache r
  obtain ⟨moduleNode, hlookup, hkind⟩ := Option.map_eq_some_iff.mp hmodule
  cases hfound : firstLeast (fun x y => Builder.spanLe x y = true) (isAround r)
      (nodeRanges b file) with
  | none =>
    have hnone : ∀ x ∈ nodeRanges b file, ¬ Within r x.range := by
      intro x hx hrx
      have hfalse := firstLeast_eq_none.mp hfound x hx
      rw [isAround_iff.mpr hrx] at hfalse
      cases hfalse
    have hhas : b.layer.hasNode (makeModuleDurableId file) = true := by
      unfold Layer.hasNode
      rw [hlookup]
      rfl
    rw [hfound, hhas] at hfind
    constructor
    · intro _ inner hinner
      exact absurd hinner.2.1 (hnone inner hinner.1)
    · intro _
      refine ⟨⟨fun _ => hnone, fun _ => hfind⟩, fun h => ?_⟩
      obtain ⟨x, hx, hrx⟩ := h
      exact absurd hrx (hnone x hx)
  | some x =>
    rw [hfound] at hfind
    simp only at hfind
    rw [← innermost_firstLeast_iff hr hnested hfound]
    obtain ⟨pre, post, hentries, haround, -, -⟩ := firstLeast_spec spanLe_trans spanLe_total hfound
    have hrx := isAround_iff.mp haround
    have hmem : x ∈ nodeRanges b file := hentries ▸ List.mem_append_right _ List.mem_cons_self
    obtain ⟨node, hnode, hnotModule, hrange⟩ := kind_of_mem_nodeRanges hmem
    constructor
    · intro h
      obtain ⟨y, hy, hysome⟩ := h.2 ⟨x, hmem, hrx⟩
      obtain ⟨node', hnode', -, hrange'⟩ := kind_of_mem_nodeRanges hy.1
      have hid : x.durableId = y.durableId := Option.some.inj (hfind.symm.trans hysome)
      rw [← hid, hnode] at hnode'
      have hsame : x.range = y.range := by
        rw [hrange, hrange', Option.some.inj hnode']
      refine ⟨hmem, hrx, fun z hz hrz => ?_⟩
      rw [hsame]
      exact hy.2.2 z hz hrz
    · intro hinner
      refine ⟨⟨fun h => ?_, fun h => absurd hrx (h x hmem)⟩, fun _ => ⟨x, hinner, hfind⟩⟩
      have hid : x.durableId = makeModuleDurableId file := Option.some.inj (hfind.symm.trans h)
      rw [hid, hlookup] at hnode
      rw [← Option.some.inj hnode] at hnotModule
      exact absurd hkind hnotModule

instance (x y : Range) : Decidable (Within x y) :=
  inferInstanceAs (Decidable (_ ∧ _))

instance (x y : Range) : Decidable (Disjoint x y) :=
  inferInstanceAs (Decidable (_ ∨ _))

instance (x y : Range) : Decidable (Tied x y) :=
  inferInstanceAs (Decidable (_ ∧ _))

/-- A class with one attribute, at given ranges. -/
def classWithAttribute (classRange attributeRange : Range) : Builder :=
  (Builder.new.materializeFileNodes "a.py"
    [⟨"A", none, .class_, classRange, none, none, some "A1", none, ∅⟩,
      ⟨"x", some "A.x", .field, attributeRange, none, some "A", some "x1", none, ∅⟩]
    ).buildRangeCache "a.py"

/-- Below its class on a line of its own, the attribute is found. -/
theorem attribute_found :
    FindsInnermost (classWithAttribute ⟨⟨1, 1⟩, ⟨2, 10⟩⟩ ⟨⟨2, 5⟩, ⟨2, 10⟩⟩) "a.py"
      ⟨⟨2, 9⟩, ⟨2, 10⟩⟩ := by
  refine (findsInnermost_iff _ _ _ rfl (by decide) (by decide)
    (nestedAround_of_disjoint (by decide) (by decide))).mpr ?_
  have huntied : ∀ x ∈ nodeRanges (classWithAttribute ⟨⟨1, 1⟩, ⟨2, 10⟩⟩ ⟨⟨2, 5⟩, ⟨2, 10⟩⟩) "a.py",
      ∀ y ∈ nodeRanges (classWithAttribute ⟨⟨1, 1⟩, ⟨2, 10⟩⟩ ⟨⟨2, 5⟩, ⟨2, 10⟩⟩) "a.py",
      Tied x.range y.range → x.range = y.range := by decide
  intro inner hinner before outer after hentries _ htied
  have hmem : outer ∈ nodeRanges (classWithAttribute ⟨⟨1, 1⟩, ⟨2, 10⟩⟩ ⟨⟨2, 5⟩, ⟨2, 10⟩⟩) "a.py" :=
    hentries ▸ List.mem_append_right _ List.mem_cons_self
  exact .inl (huntied outer hmem inner hinner.1 htied)

/-- In `class A: x = y` both the class and the attribute end with the line.
The class is found around `y`, not the attribute. -/
theorem one_line_class_found :
    (∀ x ∈ nodeRanges (classWithAttribute ⟨⟨1, 1⟩, ⟨1, 15⟩⟩ ⟨⟨1, 10⟩, ⟨1, 15⟩⟩) "a.py",
      ∀ y ∈ nodeRanges (classWithAttribute ⟨⟨1, 1⟩, ⟨1, 15⟩⟩ ⟨⟨1, 10⟩, ⟨1, 15⟩⟩) "a.py",
      Within x.range y.range ∨ Within y.range x.range ∨ Disjoint x.range y.range) ∧
    ¬ FindsInnermost (classWithAttribute ⟨⟨1, 1⟩, ⟨1, 15⟩⟩ ⟨⟨1, 10⟩, ⟨1, 15⟩⟩) "a.py"
      ⟨⟨1, 14⟩, ⟨1, 15⟩⟩ := by
  refine ⟨by decide, fun h => ?_⟩
  have hfound : (classWithAttribute ⟨⟨1, 1⟩, ⟨1, 15⟩⟩ ⟨⟨1, 10⟩, ⟨1, 15⟩⟩).findEnclosingSymbol "a.py"
      ⟨⟨1, 14⟩, ⟨1, 15⟩⟩ = some "A1" := by decide
  have houter : ∀ x ∈ nodeRanges (classWithAttribute ⟨⟨1, 1⟩, ⟨1, 15⟩⟩ ⟨⟨1, 10⟩, ⟨1, 15⟩⟩) "a.py",
      x.durableId = "A1" → ¬ Within x.range ⟨⟨1, 10⟩, ⟨1, 15⟩⟩ := by decide
  obtain ⟨x, hx, hsome⟩ := h.2 (by decide)
  rw [hfound] at hsome
  exact houter x hx.1 (Option.some.inj hsome).symm
    (hx.2.2 ⟨⟨⟨1, 10⟩, ⟨1, 15⟩⟩, "x1"⟩ (by decide) (by decide))

end Tyo3.EnclosingSymbols
