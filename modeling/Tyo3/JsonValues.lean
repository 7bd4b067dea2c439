import Mathlib.Data.List.Sort
import Mathlib.Data.Nat.Digits.Defs
import Mathlib.Tactic.Common

/-!
# JSON values and numbers as text

The value type that a JSON library hands to a program, with total readers:
indexing a missing field gives null, a reader of the wrong type gives none.
The text format itself is a codec the program takes from outside. Wide
integers travel as decimal or hexadecimal texts. Nothing here names a
program.
-/

namespace Tyo3.JsonValues

/-- A JSON value. The fields of an object stand in the order of its map. -/
inductive Json where
  | null
  | bool (value : Bool)
  | nat (value : ℕ)
  | real (text : String)
  | str (text : String)
  | arr (items : List Json)
  | obj (fields : List (String × Json))

namespace Json

/-- The value of a field, null when there is none. -/
def index (key : String) : Json → Json
  | .obj fields => (fields.lookup key).getD .null
  | _ => .null

/-- An unsigned integer. -/
def asU64 : Json → Option ℕ
  | .nat value => some value
  | _ => none

/-- A text. -/
def asStr : Json → Option String
  | .str text => some text
  | _ => none

/-- The items of an array. -/
def asArray : Json → Option (List Json)
  | .arr items => some items
  | _ => none

mutual

/-- Whether two values are the same. -/
def same : Json → Json → Bool
  | .null, .null => true
  | .bool a, .bool b => a == b
  | .nat a, .nat b => a == b
  | .real a, .real b => a == b
  | .str a, .str b => a == b
  | .arr as, .arr bs => sameItems as bs
  | .obj as, .obj bs => sameFields as bs
  | _, _ => false

/-- Whether two lists of items are the same. -/
def sameItems : List Json → List Json → Bool
  | [], [] => true
  | a :: as, b :: bs => same a b && sameItems as bs
  | _, _ => false

/-- Whether two lists of fields are the same. -/
def sameFields : List (String × Json) → List (String × Json) → Bool
  | [], [] => true
  | (k, a) :: as, (l, b) :: bs => k == l && same a b && sameFields as bs
  | _, _ => false

end

mutual

/-- The comparison is equality. -/
theorem same_iff : ∀ a b : Json, same a b = true ↔ a = b
  | .null, b => by cases b <;> simp [same]
  | .bool a, b => by cases b <;> simp [same]
  | .nat a, b => by cases b <;> simp [same]
  | .real a, b => by cases b <;> simp [same]
  | .str a, b => by cases b <;> simp [same]
  | .arr as, b => by
    cases b with
    | arr bs => simp [same, sameItems_iff as bs]
    | _ => simp [same]
  | .obj as, b => by
    cases b with
    | obj bs => simp [same, sameFields_iff as bs]
    | _ => simp [same]

/-- The comparison of items is equality. -/
theorem sameItems_iff : ∀ as bs : List Json, sameItems as bs = true ↔ as = bs
  | [], bs => by cases bs <;> simp [sameItems]
  | a :: as, [] => by simp [sameItems]
  | a :: as, b :: bs => by simp [sameItems, same_iff a b, sameItems_iff as bs]

/-- The comparison of fields is equality. -/
theorem sameFields_iff : ∀ as bs : List (String × Json), sameFields as bs = true ↔ as = bs
  | [], bs => by cases bs <;> simp [sameFields]
  | (k, a) :: as, [] => by simp [sameFields]
  | (k, a) :: as, (l, b) :: bs => by
    simp [sameFields, same_iff a b, sameFields_iff as bs]

end

instance : DecidableEq Json := fun a b => decidable_of_iff (same a b = true) (same_iff a b)

end Json

/-- The contents of a file. -/
abbrev Bytes := List UInt8

/-- A JSON library: printing, the check for valid text, and parsing. -/
structure Codec where
  /-- Print a value with indentation. -/
  toVecPretty : Json → Except String Bytes
  /-- Read bytes as text. -/
  fromUtf8 : Bytes → Except String String
  /-- Parse a text. -/
  fromStr : String → Except String Json

/-- Printing a value and parsing the text gives the value back. -/
def Codec.RoundTrips (codec : Codec) (value : Json) : Prop :=
  ∃ bytes text, codec.toVecPretty value = .ok bytes ∧ codec.fromUtf8 bytes = .ok text ∧
    codec.fromStr text = .ok value

/-- A character inside a printed text: quotes, backslashes and control
characters are escaped. -/
def escapeChar (c : Char) : String :=
  if c = '"' then "\\\""
  else if c = '\\' then "\\\\"
  else if c = '\n' then "\\n"
  else if c = '\r' then "\\r"
  else if c = '\t' then "\\t"
  else if c = Char.ofNat 8 then "\\b"
  else if c = Char.ofNat 12 then "\\f"
  else if c.toNat < 16 then "\\u000" ++ String.ofList (Nat.toDigits 16 c.toNat)
  else if c.toNat < 32 then "\\u00" ++ String.ofList (Nat.toDigits 16 c.toNat)
  else String.singleton c

/-- A printed text. -/
def quote (text : String) : String :=
  "\"" ++ String.join (text.toList.map escapeChar) ++ "\""

/-- A new line at an indentation level. -/
def newline (level : ℕ) : String := "\n" ++ String.ofList (List.replicate (2 * level) ' ')

mutual

/-- Print a value with two spaces per level, one item or field a line. -/
def pretty (level : ℕ) : Json → String
  | .null => "null"
  | .bool value => if value then "true" else "false"
  | .nat value => toString value
  | .real text => text
  | .str text => quote text
  | .arr [] => "[]"
  | .arr (item :: items) =>
    "[" ++ newline (level + 1) ++ pretty (level + 1) item ++ prettyItems (level + 1) items ++
      newline level ++ "]"
  | .obj [] => "\x7b\x7d"
  | .obj ((key, value) :: fields) =>
    "\x7b" ++ newline (level + 1) ++ quote key ++ ": " ++ pretty (level + 1) value ++
      prettyFields (level + 1) fields ++ newline level ++ "\x7d"

/-- The items after the first. -/
def prettyItems (level : ℕ) : List Json → String
  | [] => ""
  | item :: items => "," ++ newline level ++ pretty level item ++ prettyItems level items

/-- The fields after the first. -/
def prettyFields (level : ℕ) : List (String × Json) → String
  | [] => ""
  | (key, value) :: fields =>
    "," ++ newline level ++ quote key ++ ": " ++ pretty level value ++ prettyFields level fields

end

/-- A library that prints every value and reads back the text of one. -/
def Codec.reading (value : Json) : Codec where
  toVecPretty v := .ok (pretty 0 v).toUTF8.toList
  fromUtf8 bytes :=
    if bytes = (pretty 0 value).toUTF8.toList then .ok (pretty 0 value)
    else .error "invalid utf-8 sequence"
  fromStr text := if text = pretty 0 value then .ok value else .error "expected value"

/-- The value it reads makes the round trip. -/
theorem Codec.reading_roundTrips (value : Json) : (Codec.reading value).RoundTrips value :=
  ⟨(pretty 0 value).toUTF8.toList, pretty 0 value, rfl, if_pos rfl, if_pos rfl⟩

/-- The printed texts of values, as they are and with a newline at the end. -/
def printedTexts (values : List Json) : List String :=
  values.flatMap fun v => [pretty 0 v, pretty 0 v ++ "\n"]

/-- A library that prints every value and reads back the printed texts of
some. -/
def Codec.listing (values : List Json) : Codec where
  toVecPretty v := .ok (pretty 0 v).toUTF8.data.toList
  fromUtf8 bytes :=
    match (printedTexts values).find? fun text => text.toUTF8.data.toList = bytes with
    | some text => .ok text
    | none => .error "invalid utf-8 sequence"
  fromStr text :=
    match values.find? fun v => decide (pretty 0 v = text ∨ pretty 0 v ++ "\n" = text) with
    | some v => .ok v
    | none => .error "expected value"

/-- A text is determined by its bytes. -/
theorem eq_of_bytes_eq {s t : String} (h : s.toUTF8.data.toList = t.toUTF8.data.toList) :
    s = t := by
  have hdata : s.toByteArray.data = t.toByteArray.data := Array.toList_inj.mp h
  exact String.toByteArray_inj.mp (ByteArray.ext hdata)

/-- A printed value with a newline at the end is valid text. -/
theorem Codec.listing_fromUtf8 {values : List Json} {v : Json} (hv : v ∈ values) :
    (Codec.listing values).fromUtf8 ((pretty 0 v).toUTF8.data.toList ++ [10]) =
      .ok (pretty 0 v ++ "\n") := by
  have hbytes : (pretty 0 v).toUTF8.data.toList ++ [10] =
      (pretty 0 v ++ "\n").toUTF8.data.toList := by
    rw [String.toUTF8_eq_toByteArray, String.toUTF8_eq_toByteArray, String.toByteArray_append,
      ByteArray.toList_data_append]
    rfl
  have hmem : pretty 0 v ++ "\n" ∈ printedTexts values :=
    List.mem_flatMap.mpr ⟨v, hv, by simp⟩
  rw [hbytes]
  unfold Codec.listing
  dsimp only
  cases hfind : (printedTexts values).find? fun text =>
      decide (text.toUTF8.data.toList = (pretty 0 v ++ "\n").toUTF8.data.toList) with
  | none =>
    have hnone := List.find?_eq_none.mp hfind (pretty 0 v ++ "\n") hmem
    exact (hnone (decide_eq_true rfl)).elim
  | some text =>
    have htext : text.toUTF8.data.toList = (pretty 0 v ++ "\n").toUTF8.data.toList := by
      simpa using List.find?_some hfind
    rw [eq_of_bytes_eq htext]

/-- Parse an unsigned decimal number below a bound: an optional plus sign and
at least one digit. -/
def parseUnsigned (bound : ℕ) (text : String) : Option (Fin bound) :=
  let digits := match text.toList with
    | '+' :: rest => rest
    | chars => chars
  if digits = [] ∨ digits.all Char.isDigit = false then none
  else if h : Nat.ofDigitChars 10 digits 0 < bound then some ⟨_, h⟩ else none

/-- A printed number parses to itself. -/
theorem parseUnsigned_toString {bound : ℕ} (n : Fin bound) :
    parseUnsigned bound (toString n.val) = some n := by
  have hchars : (toString n.val).toList = Nat.toDigits 10 n.val := by
    simp [ToString.toString, Nat.repr]
  have hdigit : ∀ c ∈ Nat.toDigits 10 n.val, c.isDigit = true := fun c hc =>
    Nat.isDigit_of_mem_toDigits (by omega) (by omega) hc
  have hne : Nat.toDigits 10 n.val ≠ [] := Nat.toDigits_ne_nil
  have hplain : (match (toString n.val).toList with
      | '+' :: rest => rest
      | chars => chars) = Nat.toDigits 10 n.val := by
    rw [hchars]
    split
    · rename_i rest h
      have hplus := hdigit '+' (h ▸ List.mem_cons_self)
      exact (Bool.false_ne_true hplus).elim
    · rfl
  have hall : (Nat.toDigits 10 n.val).all Char.isDigit = true := List.all_eq_true.mpr hdigit
  have hvalue : Nat.ofDigitChars 10 (Nat.toDigits 10 n.val) 0 = n.val := by
    rw [Nat.ofDigitChars_toDigits (by omega) (by omega)]
  unfold parseUnsigned
  simp only [hplain, hne, hall, hvalue, Bool.true_eq_false, or_self, if_false]
  rw [dif_pos n.isLt]

/-- The value of a hexadecimal digit. -/
def hexDigit (c : Char) : Option ℕ :=
  if c.isDigit then some (c.toNat - '0'.toNat)
  else if 'a' ≤ c ∧ c ≤ 'f' then some (c.toNat - 'a'.toNat + 10)
  else if 'A' ≤ c ∧ c ≤ 'F' then some (c.toNat - 'A'.toNat + 10)
  else none

/-- Read digits after a number, none when one is not a digit. -/
def readHex (start : ℕ) (digits : List Char) : Option ℕ :=
  digits.foldlM (fun acc c => (hexDigit c).map fun d => 16 * acc + d) start

/-- The characters after an optional plus sign. -/
def dropPlus : List Char → List Char
  | '+' :: rest => rest
  | chars => chars

/-- Parse an unsigned hexadecimal number below a bound: an optional plus sign
and at least one digit. -/
def parseHex (bound : ℕ) (text : String) : Option (Fin bound) :=
  let digits := dropPlus text.toList
  if digits = [] then none
  else match readHex 0 digits with
    | none => none
    | some n => if h : n < bound then some ⟨n, h⟩ else none

/-- The number as at least the given count of hexadecimal digits. -/
def hexText (width n : ℕ) : String :=
  let digits := Nat.toDigits 16 n
  String.ofList (List.replicate (width - digits.length) '0' ++ digits)

/-- A printed digit has its value. -/
theorem hexDigit_digitChar {d : ℕ} (hd : d < 16) : hexDigit d.digitChar = some d := by
  have hall : ∀ e : Fin 16, hexDigit e.val.digitChar = some e.val := by decide
  exact hall ⟨d, hd⟩

/-- The printed digits of a number have its value. -/
theorem readHex_toDigits (n : ℕ) : readHex 0 (Nat.toDigits 16 n) = some n := by
  induction n using Nat.strong_induction_on with
  | _ n ih =>
    by_cases hn : n < 16
    · have hdigit := hexDigit_digitChar hn
      rw [Nat.toDigits_of_lt_base hn]
      simp [readHex, hdigit]
    · have hmod : n % 16 < 16 := Nat.mod_lt _ (by omega)
      have hdigit := hexDigit_digitChar hmod
      have hrest := ih (n / 16) (by omega)
      have hvalue : 16 * (n / 16) + n % 16 = n := by omega
      unfold readHex at hrest ⊢
      rw [Nat.toDigits_of_base_le (by omega) (by omega), List.foldlM_append, hrest]
      simp [hdigit, hvalue]

/-- Zeros in front of a number do not count. -/
theorem readHex_zeros (k : ℕ) (digits : List Char) :
    readHex 0 (List.replicate k '0' ++ digits) = readHex 0 digits := by
  have hzero : hexDigit '0' = some 0 := by decide
  induction k with
  | zero => simp
  | succ k ih =>
    rw [List.replicate_succ, List.cons_append]
    unfold readHex at ih ⊢
    rw [List.foldlM_cons, hzero]
    exact ih

/-- Digits that have a value start with no sign. -/
theorem dropPlus_of_readHex {digits : List Char} {n : ℕ} (h : readHex 0 digits = some n) :
    dropPlus digits = digits := by
  have hsign : hexDigit '+' = none := by decide
  unfold dropPlus
  split
  · unfold readHex at h
    rw [List.foldlM_cons, hsign] at h
    cases h
  · rfl

/-- A printed hexadecimal number parses to itself. -/
theorem parseHex_hexText {bound : ℕ} (width : ℕ) (n : Fin bound) :
    parseHex bound (hexText width n.val) = some n := by
  have hchars : (hexText width n.val).toList =
      List.replicate (width - (Nat.toDigits 16 n.val).length) '0' ++ Nat.toDigits 16 n.val := by
    simp [hexText]
  have hread : readHex 0 (hexText width n.val).toList = some n.val := by
    rw [hchars, readHex_zeros, readHex_toDigits]
  have hne : (hexText width n.val).toList ≠ [] := by
    rw [hchars]
    simp [Nat.toDigits_ne_nil]
  unfold parseHex
  simp only [dropPlus_of_readHex hread, hne, hread, if_false]
  rw [dif_pos n.isLt]

end Tyo3.JsonValues
