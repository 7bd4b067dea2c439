import Mathlib.Data.List.Basic
import Mathlib.Data.List.Induction
import Mathlib.Data.String.Basic
import Mathlib.Tactic.Common

/-!
# Texts with separators

A structure is written out as a list of texts, each closed by a separator. A
text that holds the separator counts as several words, so two lists write the
same exactly when they have the same words in the same order. Entries that
write several texts each are read back from the end. The lemmas name no program.
-/

namespace Tyo3.TokenStreams

/-! ## Words and separators -/

/-- The words between the separators of a text. -/
def pieces (sep : Char) : List Char → List (List Char)
  | [] => [[]]
  | c :: text =>
    if c = sep then [] :: pieces sep text
    else
      match pieces sep text with
      | [] => [[c]]
      | word :: words => (c :: word) :: words

/-- Words as one text, each closed by the separator. -/
def joined (sep : Char) (words : List (List Char)) : List Char :=
  words.flatMap fun word => word ++ [sep]

@[simp] theorem joined_nil (sep : Char) : joined sep [] = [] := rfl

theorem joined_cons (sep : Char) (word : List Char) (words : List (List Char)) :
    joined sep (word :: words) = word ++ sep :: joined sep words := by
  unfold joined
  rw [List.flatMap_cons, List.append_assoc]
  rfl

theorem joined_append (sep : Char) (xs ys : List (List Char)) :
    joined sep (xs ++ ys) = joined sep xs ++ joined sep ys := by
  unfold joined
  rw [List.flatMap_append]

/-- The words of a text join back to it. -/
theorem joined_pieces (sep : Char) (text : List Char) :
    joined sep (pieces sep text) = text ++ [sep] := by
  induction text with
  | nil => rfl
  | cons c text ih =>
    unfold pieces
    split
    · rename_i hc
      rw [joined_cons, ih, hc]
      rfl
    · split
      · rename_i hnone
        rw [hnone, joined_nil] at ih
        exact absurd ih.symm (by simp)
      · rename_i word words hsome
        rw [hsome, joined_cons] at ih
        rw [joined_cons, List.cons_append, ih]
        rfl

/-- No word of a text holds the separator. -/
theorem not_mem_pieces {sep : Char} {text word : List Char} (hword : word ∈ pieces sep text) :
    sep ∉ word := by
  induction text generalizing word with
  | nil =>
    have hnil : word = [] := by simpa [pieces] using hword
    rw [hnil]
    exact List.not_mem_nil
  | cons c text ih =>
    unfold pieces at hword
    split at hword
    · rcases List.mem_cons.mp hword with hnil | hrest
      · rw [hnil]
        exact List.not_mem_nil
      · exact ih hrest
    · rename_i hc
      split at hword
      · have hone : word = [c] := by simpa using hword
        rw [hone, List.mem_singleton]
        exact fun hsep => hc hsep.symm
      · rename_i head tail hsome
        rcases List.mem_cons.mp hword with hhead | htail
        · have hold : sep ∉ head := ih (hsome ▸ List.mem_cons_self)
          rw [hhead, List.mem_cons]
          exact fun hsep => hsep.elim (fun heq => hc heq.symm) hold
        · exact ih (hsome ▸ List.mem_cons_of_mem _ htail)

/-- A text without the separator is one word. -/
theorem pieces_eq_of_not_mem {sep : Char} {text : List Char} (h : sep ∉ text) :
    pieces sep text = [text] := by
  induction text with
  | nil => rfl
  | cons c text ih =>
    have hc : c ≠ sep := fun heq => h (heq ▸ List.mem_cons_self)
    have hrest : pieces sep text = [text] := ih fun hmem => h (List.mem_cons_of_mem _ hmem)
    rw [pieces, if_neg hc, hrest]

/-- Two words without the separator are told apart by the text that starts
with them. -/
theorem eq_of_separated {sep : Char} {x y : List Char} (hx : sep ∉ x) (hy : sep ∉ y)
    {s t : List Char} (h : x ++ sep :: s = y ++ sep :: t) : x = y ∧ s = t := by
  induction x generalizing y with
  | nil =>
    cases y with
    | nil => exact ⟨rfl, (List.cons.inj h).2⟩
    | cons c y =>
      have hc : sep = c := (List.cons.inj h).1
      exact absurd (hc ▸ List.mem_cons_self) hy
  | cons c x ih =>
    cases y with
    | nil =>
      have hc : c = sep := (List.cons.inj h).1
      exact absurd (hc ▸ List.mem_cons_self) hx
    | cons d y =>
      have hcd := List.cons.inj h
      have htail := ih (fun hmem => hx (List.mem_cons_of_mem _ hmem))
        (fun hmem => hy (List.mem_cons_of_mem _ hmem)) hcd.2
      rw [hcd.1, htail.1]
      exact ⟨rfl, htail.2⟩

/-- Words without the separator are read back from their text. -/
theorem joined_injective {sep : Char} {xs ys : List (List Char)} (hxs : ∀ word ∈ xs, sep ∉ word)
    (hys : ∀ word ∈ ys, sep ∉ word) (htext : joined sep xs = joined sep ys) : xs = ys := by
  induction xs generalizing ys with
  | nil =>
    cases ys with
    | nil => rfl
    | cons y ys =>
      rw [joined_nil, joined_cons] at htext
      exact absurd htext.symm (by simp)
  | cons x xs ih =>
    cases ys with
    | nil =>
      rw [joined_nil, joined_cons] at htext
      exact absurd htext (by simp)
    | cons y ys =>
      rw [joined_cons, joined_cons] at htext
      have hsplit := eq_of_separated (hxs x List.mem_cons_self) (hys y List.mem_cons_self) htext
      have hrest := ih (fun w hw => hxs w (List.mem_cons_of_mem _ hw))
        (fun w hw => hys w (List.mem_cons_of_mem _ hw)) hsplit.2
      rw [hsplit.1, hrest]

/-! ## Lists of texts -/

/-- The words of texts. -/
def words (sep : Char) (texts : List String) : List (List Char) :=
  texts.flatMap fun text => pieces sep text.toList

/-- Texts one after the other, each closed by the separator. -/
def text (sep : Char) (texts : List String) : List Char := joined sep (words sep texts)

@[simp] theorem words_append (sep : Char) (xs ys : List String) :
    words sep (xs ++ ys) = words sep xs ++ words sep ys := List.flatMap_append

@[simp] theorem text_nil (sep : Char) : text sep [] = [] := rfl

@[simp] theorem text_append (sep : Char) (xs ys : List String) :
    text sep (xs ++ ys) = text sep xs ++ text sep ys := by
  unfold text
  rw [words_append, joined_append]

@[simp] theorem text_cons (sep : Char) (first : String) (texts : List String) :
    text sep (first :: texts) = first.toList ++ sep :: text sep texts := by
  unfold text words
  rw [List.flatMap_cons, joined_append, joined_pieces, List.append_assoc]
  rfl

/-- Lists of texts write the same exactly when they have the same words. -/
theorem text_eq_iff {sep : Char} {xs ys : List String} :
    text sep xs = text sep ys ↔ words sep xs = words sep ys := by
  have hfree : ∀ (texts : List String), ∀ word ∈ words sep texts, sep ∉ word := by
    intro texts word hword
    obtain ⟨_, -, hpiece⟩ := List.mem_flatMap.mp hword
    exact not_mem_pieces hpiece
  exact ⟨fun h => joined_injective (hfree xs) (hfree ys) h, congrArg (joined sep)⟩

/-- Texts without the separator are read back from their words. -/
theorem eq_of_words {sep : Char} {xs ys : List String} (hxs : ∀ x ∈ xs, sep ∉ x.toList)
    (hys : ∀ y ∈ ys, sep ∉ y.toList) (h : words sep xs = words sep ys) : xs = ys := by
  have hone : ∀ {texts : List String}, (∀ x ∈ texts, sep ∉ x.toList) →
      words sep texts = texts.map String.toList := by
    intro texts hfree
    unfold words
    rw [List.flatMap_congr fun x hx => pieces_eq_of_not_mem (hfree x hx)]
    exact List.map_eq_flatMap.symm
  rw [hone hxs, hone hys] at h
  exact List.map_injective_iff.mpr (fun _ _ => String.toList_inj.mp) h

/-! ## Reading from the end -/

/-- A run of entries with a property is read off the end of a list, when no such
entry stands before it. -/
theorem eq_of_run {β : Type*} {P : β → Prop} {xs ys before before' : List β}
    (hbefore : ∀ last ∈ before.getLast?, ¬ P last) (hbefore' : ∀ last ∈ before'.getLast?, ¬ P last)
    (hxs : ∀ x ∈ xs, P x) (hys : ∀ y ∈ ys, P y) (h : before ++ xs = before' ++ ys) :
    xs = ys ∧ before = before' := by
  -- what one run has more would be the end of the other list
  have hnone : ∀ {before more : List β}, (∀ last ∈ (before ++ more).getLast?, ¬ P last) →
      (∀ x ∈ more, P x) → more = [] := by
    intro before more hlast hmore
    rcases List.eq_nil_or_concat' more with hnil | ⟨init, last, rfl⟩
    · exact hnil
    · have hmem : last ∈ (before ++ (init ++ [last])).getLast? := by
        rw [← List.append_assoc, List.getLast?_concat]
        exact rfl
      exact absurd (hmore last (List.mem_append_right _ (List.mem_singleton.mpr rfl)))
        (hlast last hmem)
  rcases List.append_eq_append_iff.mp h with ⟨more, rfl, rfl⟩ | ⟨more, rfl, rfl⟩
  · have hmore := hnone hbefore' fun x hx => hxs x (List.mem_append_left _ hx)
    rw [hmore, List.nil_append, List.append_nil]
    exact ⟨rfl, rfl⟩
  · have hmore := hnone hbefore fun y hy => hys y (List.mem_append_left _ hy)
    rw [hmore, List.nil_append, List.append_nil]
    exact ⟨rfl, rfl⟩

/-- Lists of entries are read back from their texts, when the last entry is. -/
theorem eq_of_flatMap {α β : Type*} {texts : α → List β} {good : α → Prop}
    {E : List β → Prop} (hsome : ∀ p, texts p ≠ [])
    (hended : ∀ ps : List α, (∀ p ∈ ps, good p) → E (ps.flatMap texts))
    (hread : ∀ p q, good p → good q → ∀ xs ys, E xs → E ys →
      xs ++ texts p = ys ++ texts q → p = q ∧ xs = ys)
    {ps qs : List α} (hps : ∀ p ∈ ps, good p) (hqs : ∀ q ∈ qs, good q)
    (h : ps.flatMap texts = qs.flatMap texts) : ps = qs := by
  induction ps using List.reverseRecOn generalizing qs with
  | nil =>
    cases qs with
    | nil => rfl
    | cons q qs =>
      rw [List.flatMap_nil, List.flatMap_cons] at h
      exact absurd (List.append_eq_nil_iff.mp h.symm).1 (hsome q)
  | append_singleton ps p ih =>
    rcases List.eq_nil_or_concat' qs with rfl | ⟨qs, q, rfl⟩
    · rw [List.flatMap_nil, List.flatMap_append, List.flatMap_singleton] at h
      exact absurd (List.append_eq_nil_iff.mp h).2 (hsome p)
    · rw [List.flatMap_append, List.flatMap_append, List.flatMap_singleton,
        List.flatMap_singleton] at h
      have hps' : ∀ p ∈ ps, good p := fun p hp => hps p (List.mem_append_left _ hp)
      have hqs' : ∀ q ∈ qs, good q := fun q hq => hqs q (List.mem_append_left _ hq)
      obtain ⟨hlast, hrest⟩ := hread p q (hps p List.mem_concat_self) (hqs q List.mem_concat_self)
        _ _ (hended ps hps') (hended qs hqs') h
      rw [hlast, ih hps' hqs' hrest]

end Tyo3.TokenStreams
