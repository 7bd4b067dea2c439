import Tyo3.JsonValues

/-!
# Percent coding

Bytes as a text that is safe in a name: letters, digits and four marks stand
for themselves, every other byte is a percent sign and two hexadecimal digits.
Decoding leaves a percent sign that starts no such pair as it is. Nothing here
names a program.
-/

namespace Tyo3.PercentCoding

open JsonValues

/-- Whether a byte stands for itself. -/
def unreserved (byte : UInt8) : Bool :=
  let c := Char.ofNat byte.toNat
  byte.toNat < 128 && (c.isAlphanum || ['_', '.', '-', '~'].contains c)

/-- The digit of a number below sixteen. -/
def hexDigit (value : ℕ) : Char := (['0', '1', '2', '3', '4', '5', '6', '7', '8', '9', 'A', 'B',
  'C', 'D', 'E', 'F'][value]?).getD '0'

/-- The number of a digit in either case. -/
def hexValue (c : Char) : Option ℕ :=
  if '0' ≤ c ∧ c ≤ '9' then some (c.toNat - '0'.toNat)
  else if 'A' ≤ c ∧ c ≤ 'F' then some (c.toNat - 'A'.toNat + 10)
  else if 'a' ≤ c ∧ c ≤ 'f' then some (c.toNat - 'a'.toNat + 10)
  else none

/-- The text of a byte. -/
def quoteByte (byte : UInt8) : List Char :=
  if unreserved byte then [Char.ofNat byte.toNat]
  else ['%', hexDigit (byte.toNat / 16), hexDigit (byte.toNat % 16)]

/-- The text of bytes. -/
def quoteBytes (bytes : Bytes) : List Char := bytes.flatMap quoteByte

/-- The bytes of a text. -/
def unquoteBytes : List Char → Bytes
  | '%' :: high :: low :: rest =>
    match hexValue high, hexValue low with
    | some h, some l => UInt8.ofNat (16 * h + l) :: unquoteBytes rest
    | _, _ => String.utf8EncodeChar '%' ++ unquoteBytes (high :: low :: rest)
  | c :: rest => String.utf8EncodeChar c ++ unquoteBytes rest
  | [] => []

theorem hexValue_hexDigit : ∀ value < 16, hexValue (hexDigit value) = some value := by decide

/-- A byte that stands for itself is no percent sign and has one byte. -/
theorem plain_of_unreserved : ∀ value < 256, unreserved (UInt8.ofNat value) = true →
    Char.ofNat value ≠ '%' ∧ String.utf8EncodeChar (Char.ofNat value) = [UInt8.ofNat value] := by
  decide +kernel

/-- The text of one byte is read back, whatever follows. -/
theorem unquoteBytes_quoteByte (byte : UInt8) (rest : List Char) :
    unquoteBytes (quoteByte byte ++ rest) = byte :: unquoteBytes rest := by
  have hbound : byte.toNat < 256 := byte.toNat_lt
  have hbyte : UInt8.ofNat byte.toNat = byte := UInt8.ofNat_toNat
  unfold quoteByte
  by_cases hplain : unreserved byte = true
  · rw [if_pos hplain]
    have hchar := plain_of_unreserved byte.toNat hbound (by rw [hbyte]; exact hplain)
    rw [List.singleton_append, unquoteBytes.eq_2 _ _ fun _ _ _ hpercent _ => hchar.1 hpercent,
      hchar.2, hbyte]
    rfl
  · have hhigh := hexValue_hexDigit (byte.toNat / 16) (by omega)
    have hlow := hexValue_hexDigit (byte.toNat % 16) (by omega)
    have hvalue : 16 * (byte.toNat / 16) + byte.toNat % 16 = byte.toNat := by omega
    rw [if_neg hplain, List.cons_append, List.cons_append, List.cons_append, List.nil_append,
      unquoteBytes]
    simp only [hhigh, hlow, hvalue, hbyte]

theorem unquoteBytes_quoteBytes (bytes : Bytes) : unquoteBytes (quoteBytes bytes) = bytes := by
  induction bytes with
  | nil => rfl
  | cons byte bytes ih =>
    rw [quoteBytes, List.flatMap_cons, unquoteBytes_quoteByte]
    exact congrArg (byte :: ·) ih

end Tyo3.PercentCoding
