import Tyo3.CommitFunnel
import Tyo3.ResolvedPaths
import Tyo3.TokenStreams

/-!
# Paths below the root

The text of the root is cut off the text of a native path, and then a slash if
there is one. For a path below the root that leaves its relative form. A path
whose text merely goes on where the last name of the root ends is cut in the
middle of a name, and is taken for a path below the root.
-/

namespace Tyo3.RootedPaths

open CodeLayerBuilder CommitFunnel ResolvedPaths SystemPaths TextSearch

/-- A path in normal form. -/
def Normal (p : SystemPath) : Prop := ∀ name ∈ p.components, Plain name

instance (p : SystemPath) : Decidable (Normal p) :=
  inferInstanceAs (Decidable (∀ name ∈ p.components, Plain name))

/-- A path lies strictly below the root. -/
def Below (root p : SystemPath) : Prop :=
  root.components <+: p.components ∧ root.components ≠ p.components

instance (root p : SystemPath) : Decidable (Below root p) := inferInstanceAs (Decidable (_ ∧ _))

/-- The form of a path relative to the root, absent when it is not below. -/
def relative (root p : SystemPath) : Option String :=
  if Below root p then
    some (String.intercalate "/" (p.components.drop root.components.length))
  else none

/-- Both functions tell the paths below the root from all others. -/
structure Respects (root p : SystemPath) : Prop where
  /-- Only a path below the root has a graph path, its relative form. -/
  native : nativeToGraph root.asStr p.asStr = relative root p
  /-- Any other path is kept. -/
  kept : toGraphPath root.asStr p.asStr = (relative root p).getD p.asStr

/-- A path that is at or below a sibling of the root whose name is that of the
root with more behind it. -/
def Lengthened (root p : SystemPath) : Prop :=
  ∃ front name extra rest, extra ≠ "" ∧ root.components = front ++ [name] ∧
    p.components = front ++ (name ++ extra) :: rest

/-! ## Texts of paths -/

/-- Names with a slash before each. -/
def slashed (names : List String) : List Char := names.flatMap fun name => '/' :: name.toList

@[simp] theorem slashed_nil : slashed [] = [] := rfl

@[simp] theorem slashed_cons (name : String) (names : List String) :
    slashed (name :: names) = '/' :: (name.toList ++ slashed names) := rfl

theorem slashed_append (names others : List String) :
    slashed (names ++ others) = slashed names ++ slashed others := List.flatMap_append

theorem toList_intercalate_cons (name : String) (names : List String) :
    (String.intercalate "/" (name :: names)).toList = name.toList ++ slashed names := by
  induction names generalizing name with
  | nil => simp
  | cons next names ih =>
    rw [String.intercalate_cons_cons, String.toList_append, String.toList_append, ih, slashed_cons,
      List.append_assoc]
    rfl

theorem toList_asStr_root : (⟨[]⟩ : SystemPath).asStr.toList = ['/'] := rfl

/-- The text of a path that is not the root of the file system. -/
theorem toList_asStr {p : SystemPath} (h : p.components ≠ []) :
    p.asStr.toList = slashed p.components := by
  obtain ⟨components⟩ := p
  cases components with
  | nil => exact absurd rfl h
  | cons name names =>
    unfold SystemPath.asStr
    rw [String.toList_append, toList_intercalate_cons]
    rfl

/-- Names without slashes are read back from the text. -/
theorem slashed_injective {names others : List String} (hnames : ∀ name ∈ names, Whole name)
    (hothers : ∀ name ∈ others, Whole name) (h : slashed names = slashed others) :
    names = others := by
  have hjoined : ∀ names, slashed names ++ ['/'] =
      '/' :: TokenStreams.joined '/' (names.map String.toList) := by
    intro names
    induction names with
    | nil => rfl
    | cons name names ih =>
      rw [slashed_cons, List.cons_append, List.append_assoc, ih, List.map_cons,
        TokenStreams.joined_cons]
  have hwhole : ∀ {names : List String}, (∀ name ∈ names, Whole name) →
      ∀ word ∈ names.map String.toList, '/' ∉ word := by
    intro names hall word hword
    obtain ⟨name, hname, rfl⟩ := List.mem_map.mp hword
    exact hall name hname
  have htext := congrArg (fun text => text ++ ['/']) h
  rw [hjoined, hjoined] at htext
  have hmap := TokenStreams.joined_injective (hwhole hnames) (hwhole hothers)
    (List.cons.inj htext).2
  exact List.map_injective_iff.mpr (fun _ _ heq => String.toList_injective heq) hmap

/-! ## Texts that start with another -/

/-- A word without slashes in front of a slash is the first word. -/
theorem eq_of_slash_prefix {word first text : List Char} {names : List String}
    (hword : '/' ∉ word) (hfirst : '/' ∉ first)
    (h : word ++ '/' :: text <+: first ++ slashed names) :
    word = first ∧ '/' :: text <+: slashed names := by
  induction word generalizing first with
  | nil =>
    cases first with
    | nil => exact ⟨rfl, h⟩
    | cons c first =>
      have hc := (List.cons_prefix_cons.mp h).1
      exact absurd (hc ▸ List.mem_cons_self) hfirst
  | cons c word ih =>
    cases first with
    | nil =>
      cases names with
      | nil => exact absurd h (by simp)
      | cons name names =>
        have hc := (List.cons_prefix_cons.mp h).1
        exact absurd (hc ▸ List.mem_cons_self) hword
    | cons d first =>
      obtain ⟨hc, hrest⟩ := List.cons_prefix_cons.mp h
      obtain ⟨hsame, htext⟩ := ih (fun hmem => hword (List.mem_cons_of_mem _ hmem))
        (fun hmem => hfirst (List.mem_cons_of_mem _ hmem)) hrest
      exact ⟨by rw [hc, hsame], htext⟩

/-- A word without slashes is a start of the first word. -/
theorem prefix_of_word_prefix {word first : List Char} {names : List String} (hword : '/' ∉ word)
    (h : word <+: first ++ slashed names) : word <+: first := by
  induction word generalizing first with
  | nil => exact List.nil_prefix
  | cons c word ih =>
    cases first with
    | nil =>
      cases names with
      | nil => exact absurd h (by simp)
      | cons name names =>
        have hc := (List.cons_prefix_cons.mp h).1
        exact absurd (hc ▸ List.mem_cons_self) hword
    | cons d first =>
      obtain ⟨hc, hrest⟩ := List.cons_prefix_cons.mp h
      exact List.cons_prefix_cons.mpr
        ⟨hc, ih (fun hmem => hword (List.mem_cons_of_mem _ hmem)) hrest⟩

/-- The text of a path starts with that of another one when its names do, the
last one perhaps with more behind it. -/
theorem names_of_prefix {names others : List String} (hnames : ∀ name ∈ names, Whole name)
    (hothers : ∀ name ∈ others, Whole name) (hsome : names ≠ [])
    (h : slashed names <+: slashed others) :
    ∃ front name extra rest, names = front ++ [name] ∧ others = front ++ (name ++ extra) :: rest := by
  induction names generalizing others with
  | nil => exact absurd rfl hsome
  | cons name names ih =>
    cases others with
    | nil => exact absurd h (by simp)
    | cons other others =>
      rw [slashed_cons, slashed_cons] at h
      have htext := (List.cons_prefix_cons.mp h).2
      have hname := hnames name List.mem_cons_self
      cases names with
      | nil =>
        rw [slashed_nil, List.append_nil] at htext
        obtain ⟨extra, hextra⟩ := prefix_of_word_prefix hname htext
        refine ⟨[], name, String.ofList extra, others, rfl, ?_⟩
        have heq : other = name ++ String.ofList extra := by
          apply String.toList_injective
          rw [String.toList_append, String.toList_ofList, hextra]
        rw [heq]
        rfl
      | cons next names =>
        obtain ⟨hsame, hrest⟩ := eq_of_slash_prefix hname (hothers other List.mem_cons_self) htext
        obtain ⟨front, last, extra, rest, hfront, hlast⟩ :=
          ih (fun name hmem => hnames name (List.mem_cons_of_mem _ hmem))
            (fun name hmem => hothers name (List.mem_cons_of_mem _ hmem)) (List.cons_ne_nil _ _) hrest
        refine ⟨name :: front, last, extra, rest, by rw [hfront]; rfl, ?_⟩
        rw [hlast, String.toList_injective hsame]
        rfl

/-! ## Cutting off the root -/

/-- A start is cut off a text that has it. -/
theorem stripPrefix_eq_some {start text rest : String} :
    stripPrefix start text = some rest ↔ text.toList = start.toList ++ rest.toList := by
  unfold stripPrefix
  constructor
  · intro h
    split_ifs at h with hstart
    obtain ⟨tail, htail⟩ := List.isPrefixOf_iff_prefix.mp hstart
    rw [← Option.some.inj h, String.toList_ofList, ← htail, List.drop_left]
  · intro h
    rw [if_pos (List.isPrefixOf_iff_prefix.mpr ⟨rest.toList, h.symm⟩), h, List.drop_left,
      String.ofList_toList]

theorem stripPrefix_eq_none {start text : String} :
    stripPrefix start text = none ↔ ¬ start.toList <+: text.toList := by
  unfold stripPrefix
  split_ifs with hstart
  · simp [List.isPrefixOf_iff_prefix.mp hstart]
  · simpa using fun h => hstart (List.isPrefixOf_iff_prefix.mpr h)

/-- What is left once a slash is cut off. -/
def unslashed (rest : String) : String := (stripPrefix "/" rest).getD rest

theorem unslashed_slash {text rest : String} (h : rest.toList = '/' :: text.toList) :
    unslashed rest = text := by
  unfold unslashed
  rw [stripPrefix_eq_some.mpr (show rest.toList = "/".toList ++ text.toList from h)]
  rfl

theorem unslashed_of_head {rest : String} (h : rest.toList.head? ≠ some '/') :
    unslashed rest = rest := by
  unfold unslashed
  have hnone : stripPrefix "/" rest = none := by
    rw [stripPrefix_eq_none]
    rintro ⟨tail, htail⟩
    rw [← htail] at h
    exact h rfl
  rw [hnone]
  rfl

/-- The two functions are one: what has no graph path is kept. -/
theorem toGraphPath_eq (root native : String) :
    toGraphPath root native = (nativeToGraph root native).getD native := by
  unfold toGraphPath nativeToGraph
  cases stripPrefix root native with
  | none => rfl
  | some rest =>
    dsimp only
    split_ifs
    · rfl
    · rfl

theorem nativeToGraph_of_append {root native rest : String}
    (h : native.toList = root.toList ++ rest.toList) :
    nativeToGraph root native = if unslashed rest = "" then none else some (unslashed rest) := by
  unfold nativeToGraph
  rw [stripPrefix_eq_some.mpr h]
  rfl

/-- A relative path starts with a name, not with a slash. -/
theorem head_of_name {name : String} (hname : Plain name) (names : List String) :
    (name.toList ++ slashed names).head? ≠ some '/' ∧ name.toList ++ slashed names ≠ [] := by
  cases hlist : name.toList with
  | nil => exact absurd (String.toList_injective hlist) hname.2.1
  | cons c cs =>
    refine ⟨fun hhead => hname.1 ?_, List.cons_ne_nil _ _⟩
    rw [hlist, ← Option.some.inj hhead]
    exact List.mem_cons_self

section Cutting

variable {root p : SystemPath} (hroot : Normal root) (hp : Normal p)

theorem below_iff : Below root p ↔
    ∃ name names, p.components = root.components ++ name :: names := by
  unfold Below
  constructor
  · rintro ⟨⟨rest, hrest⟩, hne⟩
    cases rest with
    | nil =>
      rw [List.append_nil] at hrest
      exact absurd hrest hne
    | cons name names => exact ⟨name, names, hrest.symm⟩
  · rintro ⟨name, names, heq⟩
    rw [heq]
    exact ⟨List.prefix_append _ _, fun hsame => by simpa using congrArg List.length hsame⟩

theorem relative_of_below {name : String} {names : List String}
    (h : p.components = root.components ++ name :: names) :
    relative root p = some (String.intercalate "/" (name :: names)) := by
  unfold relative
  rw [if_pos (below_iff.mpr ⟨name, names, h⟩), h, List.drop_left]

include hp in
/-- A path below the root has its relative form. -/
theorem nativeToGraph_of_below (h : Below root p) :
    nativeToGraph root.asStr p.asStr = relative root p := by
  obtain ⟨name, names, heq⟩ := below_iff.mp h
  have hname : Plain name := hp name (by rw [heq]; simp)
  have htext := toList_intercalate_cons name names
  have hhead := head_of_name hname names
  rw [← htext] at hhead
  have hsome : String.intercalate "/" (name :: names) ≠ "" := by
    intro hempty
    exact hhead.2 (by rw [hempty]; rfl)
  have hp' : p.asStr.toList = slashed p.components := toList_asStr (by rw [heq]; simp)
  rw [relative_of_below heq]
  by_cases hfs : root.components = []
  · -- the root of the file system is a slash itself
    have hnative : p.asStr.toList = root.asStr.toList ++
        (String.intercalate "/" (name :: names)).toList := by
      rw [hp', heq, hfs, List.nil_append, slashed_cons, htext]
      obtain ⟨components⟩ := root
      rw [show components = [] from hfs, toList_asStr_root]
      rfl
    rw [nativeToGraph_of_append hnative, unslashed_of_head hhead.1, if_neg hsome]
  · have hnative : p.asStr.toList = root.asStr.toList ++
        ("/" ++ String.intercalate "/" (name :: names)).toList := by
      rw [hp', heq, toList_asStr hfs, slashed_append, slashed_cons, String.toList_append, htext]
      rfl
    have hcut : unslashed ("/" ++ String.intercalate "/" (name :: names)) =
        String.intercalate "/" (name :: names) := unslashed_slash String.toList_append
    rw [nativeToGraph_of_append hnative, hcut, if_neg hsome]

/-- A path that goes on where the last name of the root ends has a graph path,
and is not below. -/
theorem nativeToGraph_of_lengthened (hp : Normal p) (h : Lengthened root p) :
    nativeToGraph root.asStr p.asStr ≠ none ∧ ¬ Below root p := by
  obtain ⟨front, name, extra, rest, hextra, hroot', hp'⟩ := h
  have hplain : Plain (name ++ extra) := hp _ (by rw [hp']; simp)
  have hnative : p.asStr.toList = root.asStr.toList ++
      (String.ofList (extra.toList ++ slashed rest)).toList := by
    rw [toList_asStr (by rw [hp']; simp), toList_asStr (by rw [hroot']; simp), hp', hroot',
      slashed_append, slashed_append, slashed_cons, slashed_cons, String.toList_append,
      String.toList_ofList]
    simp
  have hhead : (String.ofList (extra.toList ++ slashed rest)).toList.head? ≠ some '/' ∧
      String.ofList (extra.toList ++ slashed rest) ≠ "" := by
    cases hlist : extra.toList with
    | nil => exact absurd (String.toList_injective hlist) hextra
    | cons c cs =>
      rw [String.toList_ofList]
      refine ⟨fun hhead => hplain.1 ?_, fun hempty => ?_⟩
      · rw [String.toList_append, hlist, ← Option.some.inj hhead]
        exact List.mem_append_right _ List.mem_cons_self
      · have hlist := congrArg String.toList hempty
        rw [String.toList_ofList] at hlist
        cases hlist
  refine ⟨?_, ?_⟩
  · rw [nativeToGraph_of_append hnative, unslashed_of_head hhead.1, if_neg hhead.2]
    simp
  · intro hbelow
    obtain ⟨first, others, heq⟩ := below_iff.mp hbelow
    rw [hp', hroot', List.append_assoc, List.singleton_append] at heq
    have hsame := (List.cons.inj (List.append_cancel_left heq)).1
    have hlist := congrArg String.toList hsame
    rw [String.toList_append] at hlist
    exact hextra (String.toList_injective (List.append_right_eq_self.mp hlist))

include hroot hp in
/-- Any other path has no graph path. -/
theorem nativeToGraph_of_outside (h : ¬ Below root p) (hlong : ¬ Lengthened root p) :
    nativeToGraph root.asStr p.asStr = none := by
  by_cases hsame : root.components = p.components
  · -- the root itself leaves nothing
    obtain rfl : root = p := by
      cases root
      cases p
      exact congrArg SystemPath.mk hsame
    have hnative : root.asStr.toList = root.asStr.toList ++ "".toList :=
      (List.append_nil _).symm
    rw [nativeToGraph_of_append hnative]
    rfl
  · have hnot : ¬ root.asStr.toList <+: p.asStr.toList := by
      intro hprefix
      by_cases hfs : root.components = []
      · exact h ⟨by rw [hfs]; exact List.nil_prefix, hsame⟩
      · rw [toList_asStr hfs] at hprefix
        by_cases hnil : p.components = []
        · obtain ⟨components⟩ := p
          rw [show components = [] from hnil, toList_asStr_root] at hprefix
          -- a slash alone starts with no name
          obtain ⟨name, names, heq⟩ := List.exists_cons_of_ne_nil hfs
          rw [heq, slashed_cons] at hprefix
          have hempty := List.prefix_nil.mp (List.cons_prefix_cons.mp hprefix).2
          exact (head_of_name (hroot name (by rw [heq]; exact List.mem_cons_self)) names).2 hempty
        · rw [toList_asStr hnil] at hprefix
          obtain ⟨front, name, extra, rest, hfront, hlast⟩ := names_of_prefix
            (fun name hmem => (hroot name hmem).1) (fun name hmem => (hp name hmem).1) hfs hprefix
          by_cases hextra : extra = ""
          · rw [hextra, String.append_empty, ← List.singleton_append, ← List.append_assoc,
              ← hfront] at hlast
            exact h ⟨⟨rest, hlast.symm⟩, hsame⟩
          · exact hlong ⟨front, name, extra, rest, hextra, hfront, hlast⟩
    unfold nativeToGraph
    rw [stripPrefix_eq_none.mpr hnot]

include hroot hp in
/-- A path is told right exactly when it is not one of the longer siblings. -/
theorem respects_iff : Respects root p ↔ ¬ Lengthened root p := by
  constructor
  · intro hrespects hlong
    obtain ⟨hsome, hout⟩ := nativeToGraph_of_lengthened hp hlong
    rw [hrespects.native] at hsome
    unfold relative at hsome
    rw [if_neg hout] at hsome
    exact hsome rfl
  · intro hlong
    have hnative : nativeToGraph root.asStr p.asStr = relative root p := by
      by_cases hbelow : Below root p
      · exact nativeToGraph_of_below hp hbelow
      · rw [nativeToGraph_of_outside hroot hp hbelow hlong]
        unfold relative
        rw [if_neg hbelow]
    refine ⟨hnative, ?_⟩
    rw [toGraphPath_eq, hnative]

/-- Paths below the root keep different graph paths. -/
theorem eq_of_toGraphPath_eq {q : SystemPath} (hp : Normal p) (hq : Normal q) (hbelow : Below root p)
    (hbelow' : Below root q)
    (h : toGraphPath root.asStr p.asStr = toGraphPath root.asStr q.asStr) : p = q := by
  obtain ⟨name, names, heq⟩ := below_iff.mp hbelow
  obtain ⟨name', names', heq'⟩ := below_iff.mp hbelow'
  rw [toGraphPath_eq, toGraphPath_eq, nativeToGraph_of_below hp hbelow,
    nativeToGraph_of_below hq hbelow', relative_of_below heq, relative_of_below heq'] at h
  have htext := congrArg String.toList h
  rw [Option.getD_some, Option.getD_some, toList_intercalate_cons, toList_intercalate_cons] at htext
  have hslashed : slashed (name :: names) = slashed (name' :: names') := by
    rw [slashed_cons, slashed_cons, htext]
  have hwhole : ∀ {path : SystemPath} {names : List String}, Normal path →
      path.components = root.components ++ names → ∀ name ∈ names, Whole name := by
    intro path names hnormal hpath name hmem
    exact (hnormal name (by rw [hpath]; exact List.mem_append_right _ hmem)).1
  have hnames := slashed_injective (hwhole hp heq) (hwhole hq heq') hslashed
  have hsame : p.components = q.components := by rw [heq, heq', hnames]
  cases p
  cases q
  exact congrArg SystemPath.mk hsame

/-- A path is told right exactly when it is not at or below a sibling whose name
is that of the root with more behind it. The two functions agree on every text,
and no two paths below the root get one graph path. -/
theorem root_respected_iff (hroot : Normal root) :
    (∀ p, Normal p → (Respects root p ↔ ¬ Lengthened root p)) ∧
    (∀ native, toGraphPath root.asStr native = (nativeToGraph root.asStr native).getD native) ∧
    ∀ p q, Normal p → Normal q → Below root p → Below root q →
      toGraphPath root.asStr p.asStr = toGraphPath root.asStr q.asStr → p = q := by
  refine ⟨fun p hp => respects_iff hroot hp, fun native => toGraphPath_eq _ native, ?_⟩
  intro p q hp hq hbelow hbelow' h
  exact eq_of_toGraphPath_eq hp hq hbelow hbelow' h

end Cutting

/-- A root. -/
def appRoot : SystemPath := ⟨["work", "app"]⟩

/-- A module below it. -/
theorem module_respected : nativeToGraph "/work/app" "/work/app/pkg/m.py" = some "pkg/m.py" ∧
    toGraphPath "/work/app" "/work/app/pkg/m.py" = "pkg/m.py" := by
  have hlong : ¬ Lengthened appRoot ⟨["work", "app", "pkg", "m.py"]⟩ := by
    rintro ⟨front, name, extra, rest, hextra, hroot, hp⟩
    have hfront : front = ["work"] := (List.append_inj_left' hroot.symm rfl)
    rw [hfront] at hroot hp
    have hname : name = "app" := (List.cons.inj (List.cons.inj hroot).2).1.symm
    rw [hname] at hp
    have happ : "app" = "app" ++ extra := (List.cons.inj (List.cons.inj hp).2).1
    have hlist := congrArg String.toList happ
    rw [String.toList_append] at hlist
    exact hextra (String.toList_injective (List.append_right_eq_self.mp hlist.symm))
  have hrespects := ((root_respected_iff (show Normal appRoot by decide)).1
    ⟨["work", "app", "pkg", "m.py"]⟩ (by decide)).mpr hlong
  exact ⟨hrespects.native, hrespects.kept⟩

/-- A module of a sibling is taken for one below the root. -/
theorem sibling_not_respected : Normal appRoot ∧ Normal ⟨["work", "app2", "m.py"]⟩ ∧
    ¬ Below appRoot ⟨["work", "app2", "m.py"]⟩ ∧
    nativeToGraph "/work/app" "/work/app2/m.py" = some "2/m.py" ∧
    toGraphPath "/work/app" "/work/app2/m.py" = "2/m.py" ∧
    ¬ Respects appRoot ⟨["work", "app2", "m.py"]⟩ := by
  refine ⟨by decide, by decide, by decide, by decide, by decide, fun hrespects => ?_⟩
  have hnative := hrespects.native
  revert hnative
  decide

end Tyo3.RootedPaths
