import KeywordTable.Value

/-!
# Byte strings as text

Two written forms of a byte string.  The **hexadecimal** form spends two
lower-case digits on a byte.  The **base 64** form spends four digits on three
bytes, high bits first, and fills the last group up with `=`; its reader takes
exactly what its writer produces, so a group that carries stray low bits or
lacks its filling is no byte string.

* `ofBase64?_toBase64` — base 64 text reads back as the bytes it was written from.
-/

namespace KeywordTable

namespace Bytes

/-- The sixteen hexadecimal digits. -/
def hexDigit (n : Nat) : Char :=
  if n < 10 then Char.ofNat (48 + n) else Char.ofNat (87 + n)

/-- What a hexadecimal digit stands for. -/
def hexDigit? (c : Char) : Option Nat :=
  if '0' ≤ c ∧ c ≤ '9' then some (c.toNat - 48)
  else if 'a' ≤ c ∧ c ≤ 'f' then some (c.toNat - 87)
  else if 'A' ≤ c ∧ c ≤ 'F' then some (c.toNat - 55)
  else none

/-- The digits of a byte string, two for a byte. -/
def hexDigits : Bytes → List Char
  | [] => []
  | b :: rest => hexDigit (b.toNat / 16) :: hexDigit (b.toNat % 16) :: hexDigits rest

/-- Read pairs of hexadecimal digits. -/
def ofHexDigits? : List Char → Option Bytes
  | [] => some []
  | [_] => none
  | h :: l :: rest => do
    let high ← hexDigit? h
    let low ← hexDigit? l
    let bytes ← ofHexDigits? rest
    return UInt8.ofNat (16 * high + low) :: bytes

/-- The hexadecimal text of a byte string. -/
def toHex (bytes : Bytes) : String := String.ofList (hexDigits bytes)

/-- The byte string a hexadecimal text stands for. -/
def ofHex? (text : String) : Option Bytes := ofHexDigits? text.toList

/-- The sixty-four digits of the base 64 form. -/
def base64Digit (n : Nat) : Char :=
  if n < 26 then Char.ofNat (65 + n)
  else if n < 52 then Char.ofNat (71 + n)
  else if n < 62 then Char.ofNat (n - 4)
  else if n = 62 then '+'
  else '/'

/-- What a base 64 digit stands for. -/
def base64Digit? (c : Char) : Option Nat :=
  if 'A' ≤ c ∧ c ≤ 'Z' then some (c.toNat - 65)
  else if 'a' ≤ c ∧ c ≤ 'z' then some (c.toNat - 71)
  else if '0' ≤ c ∧ c ≤ '9' then some (c.toNat + 4)
  else if c = '+' then some 62
  else if c = '/' then some 63
  else none

/-- The digits of a byte string, four for three bytes, filled up with `=`. -/
def base64Digits : Bytes → List Char
  | [] => []
  | [a] => [base64Digit (a.toNat / 4), base64Digit (a.toNat % 4 * 16), '=', '=']
  | [a, b] =>
    [base64Digit (a.toNat / 4), base64Digit (a.toNat % 4 * 16 + b.toNat / 16),
      base64Digit (b.toNat % 16 * 4), '=']
  | a :: b :: c :: rest =>
    base64Digit (a.toNat / 4) :: base64Digit (a.toNat % 4 * 16 + b.toNat / 16) ::
      base64Digit (b.toNat % 16 * 4 + c.toNat / 64) :: base64Digit (c.toNat % 64) ::
      base64Digits rest

/-- Read groups of four base 64 digits; only the last may be filled up, and only
over bits that are zero. -/
def ofBase64Digits? : List Char → Option Bytes
  | [] => some []
  | [w, x, '=', '='] => do
    let i ← base64Digit? w
    let j ← base64Digit? x
    if j % 16 = 0 then return [UInt8.ofNat (i * 4 + j / 16)] else none
  | [w, x, y, '='] => do
    let i ← base64Digit? w
    let j ← base64Digit? x
    let k ← base64Digit? y
    if k % 4 = 0 then
      return [UInt8.ofNat (i * 4 + j / 16), UInt8.ofNat (j % 16 * 16 + k / 4)]
    else none
  | w :: x :: y :: z :: rest => do
    let i ← base64Digit? w
    let j ← base64Digit? x
    let k ← base64Digit? y
    let l ← base64Digit? z
    let bytes ← ofBase64Digits? rest
    return UInt8.ofNat (i * 4 + j / 16) :: UInt8.ofNat (j % 16 * 16 + k / 4) ::
      UInt8.ofNat (k % 4 * 64 + l) :: bytes
  | _ => none

/-- The base 64 text of a byte string. -/
def toBase64 (bytes : Bytes) : String := String.ofList (base64Digits bytes)

/-- The byte string a base 64 text stands for. -/
def ofBase64? (text : String) : Option Bytes := ofBase64Digits? text.toList

/-- Each of the sixty-four digits reads back as itself. -/
theorem base64Digit?_base64Digit {n : Nat} (h : n < 64) :
    base64Digit? (base64Digit n) = some n := by
  have all : ∀ k : Fin 64, base64Digit? (base64Digit k) = some k.val := by decide
  exact all ⟨n, h⟩

/-- What fills up a group is no digit. -/
theorem base64Digit_ne {n : Nat} (h : n < 64) : base64Digit n ≠ '=' := by
  have all : ∀ k : Fin 64, base64Digit k ≠ '=' := by decide
  exact all ⟨n, h⟩

/-- The digits of a byte string read back as its bytes. -/
theorem ofBase64Digits?_base64Digits (bytes : Bytes) :
    ofBase64Digits? (base64Digits bytes) = some bytes := by
  induction bytes using base64Digits.induct with
  | case1 => rfl
  | case2 a =>
    have ha : a.toNat < 256 := a.toNat_lt_size
    have high : a.toNat / 4 < 64 := by omega
    have low : a.toNat % 4 * 16 < 64 := by omega
    have whole : a.toNat / 4 * 4 + a.toNat % 4 * 16 / 16 = a.toNat := by omega
    have filled : a.toNat % 4 * 16 % 16 = 0 := by omega
    simp only [base64Digits, ofBase64Digits?, base64Digit?_base64Digit high,
      base64Digit?_base64Digit low, whole, filled, UInt8.ofNat_toNat, if_true,
      Option.bind_eq_bind, Option.bind_some, Option.pure_def]
  | case3 a b =>
    have ha : a.toNat < 256 := a.toNat_lt_size
    have hb : b.toNat < 256 := b.toNat_lt_size
    have high : a.toNat / 4 < 64 := by omega
    have middle : a.toNat % 4 * 16 + b.toNat / 16 < 64 := by omega
    have low : b.toNat % 16 * 4 < 64 := by omega
    have first : a.toNat / 4 * 4 + (a.toNat % 4 * 16 + b.toNat / 16) / 16 = a.toNat := by omega
    have second : (a.toNat % 4 * 16 + b.toNat / 16) % 16 * 16 + b.toNat % 16 * 4 / 4 =
        b.toNat := by omega
    have filled : b.toNat % 16 * 4 % 4 = 0 := by omega
    rw [base64Digits, ofBase64Digits?]
    · simp only [base64Digit?_base64Digit high, base64Digit?_base64Digit middle,
        base64Digit?_base64Digit low, first, second, filled, UInt8.ofNat_toNat, if_true,
        Option.bind_eq_bind, Option.bind_some, Option.pure_def]
    · exact fun hfill => absurd hfill (base64Digit_ne low)
  | case4 a b c rest ih =>
    have ha : a.toNat < 256 := a.toNat_lt_size
    have hb : b.toNat < 256 := b.toNat_lt_size
    have hc : c.toNat < 256 := c.toNat_lt_size
    have high : a.toNat / 4 < 64 := by omega
    have second : a.toNat % 4 * 16 + b.toNat / 16 < 64 := by omega
    have third : b.toNat % 16 * 4 + c.toNat / 64 < 64 := by omega
    have low : c.toNat % 64 < 64 := by omega
    have wholeA : a.toNat / 4 * 4 + (a.toNat % 4 * 16 + b.toNat / 16) / 16 = a.toNat := by omega
    have wholeB : (a.toNat % 4 * 16 + b.toNat / 16) % 16 * 16 +
        (b.toNat % 16 * 4 + c.toNat / 64) / 4 = b.toNat := by omega
    have wholeC : (b.toNat % 16 * 4 + c.toNat / 64) % 4 * 64 + c.toNat % 64 = c.toNat := by omega
    rw [base64Digits, ofBase64Digits?]
    · simp only [base64Digit?_base64Digit high, base64Digit?_base64Digit second,
        base64Digit?_base64Digit third, base64Digit?_base64Digit low, ih, wholeA, wholeB, wholeC,
        UInt8.ofNat_toNat, Option.bind_eq_bind, Option.bind_some, Option.pure_def]
    · exact fun _ hfill => absurd hfill (base64Digit_ne low)
    · exact fun hfill => absurd hfill (base64Digit_ne low)

/-- Base 64 text reads back as the bytes it was written from. -/
theorem ofBase64?_toBase64 (bytes : Bytes) : ofBase64? (toBase64 bytes) = some bytes := by
  rw [ofBase64?, toBase64, String.toList_ofList, ofBase64Digits?_base64Digits]

end Bytes

end KeywordTable
