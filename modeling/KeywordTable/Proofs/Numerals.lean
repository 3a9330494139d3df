import KeywordTable.Proofs.Keywords
import KeywordTable.Update
import Mathlib.Algebra.Order.Field.Power
import Mathlib.Data.Nat.Digits.Lemmas
import Mathlib.Tactic.FieldSimp
import Mathlib.Tactic.Linarith
import Mathlib.Tactic.NormNum
import Mathlib.Tactic.Positivity
import Mathlib.Tactic.Ring

/-!
# Numerals and the turning of their sign

A `DecimalText` is a numeral as it is written: a sign if there is one, digits around a
point that may be missing, an exponent if there is one.  It denotes a rational number, and
`Denotes` says which text denotes which number, whatever their length and size.

The reader of numerals reads every numeral (`ofText?_text`) and keeps its number
(`value_decimal`), so no text denotes two numbers; and it finds the nearest double zero exactly
up to `2⁻¹⁰⁷⁵` (`vanishes_iff_underflows`).

Counting down turns the sign on the text.  `DecimalText.turnsSign` says for every numeral
what comes of that, and `Change.counts_both_ways` what the counting functions add.  The opposite
number is added exactly if the numeral has a minus, is zero, or has no sign and is larger than
`2⁻¹⁰⁷⁵`; a smaller one keeps its text, and an explicit plus ends up behind a minus, which
leaves no numeral at all.
-/

namespace KeywordTable

/-! ### Numerals as they are written -/

/-- A decimal digit. -/
abbrev Digit := Fin 10

namespace Digit

/-- The character of a digit. -/
def char (digit : Digit) : Char := Char.ofNat ('0'.toNat + digit)

/-- The characters of digits. -/
def spelling (digits : List Digit) : List Char := digits.map char

/-- The number that digits spell, the last one counting least. -/
def number (digits : List Digit) : ℕ := Nat.ofDigits 10 (digits.reverse.map Fin.val)

theorem isDigit_char : ∀ digit : Digit, digit.char.isDigit = true := by decide

theorem toNat_char : ∀ digit : Digit, digit.char.toNat - '0'.toNat = digit := by decide

/-- A run of digits is spelled by digits alone. -/
theorem isDigit_of_mem_spelling {digits : List Digit} {c : Char} (h : c ∈ spelling digits) :
    c.isDigit = true := by
  obtain ⟨digit, _, rfl⟩ := List.mem_map.mp h
  exact isDigit_char digit

/-- Runs of digits are spelled one behind the other. -/
theorem spelling_append (front back : List Digit) :
    spelling (front ++ back) = spelling front ++ spelling back := List.map_append

@[simp] theorem spelling_eq_nil {digits : List Digit} : spelling digits = [] ↔ digits = [] :=
  List.map_eq_nil_iff

/-- Digits in front count more by as many places as there are digits behind them. -/
theorem number_append (front back : List Digit) :
    number (front ++ back) = number front * 10 ^ back.length + number back := by
  simp only [number, List.reverse_append, List.map_append, Nat.ofDigits_append, List.length_map,
    List.length_reverse]
  ring

/-- What a run of digits is read as is what it spells. -/
theorem natOfDigits_spelling (digits : List Digit) :
    Decimal.natOfDigits (spelling digits) = number digits := by
  induction digits using List.reverseRecOn with
  | nil => rfl
  | append_singleton front last ih =>
      have hlast : number [last] = last := by simp [number]
      rw [number_append, hlast, ← ih, List.length_singleton, pow_one, Nat.mul_comm,
        ← toNat_char last, spelling_append, Decimal.natOfDigits, List.foldl_append]
      rfl

end Digit

/-- The sign in front of a numeral. -/
inductive Sign where
  | absent
  | plus
  | minus
deriving DecidableEq

namespace Sign

/-- The characters of a sign. -/
def spelling : Sign → List Char
  | .absent => []
  | .plus => ['+']
  | .minus => ['-']

/-- What a sign multiplies by. -/
def factor : Sign → ℤ
  | .absent | .plus => 1
  | .minus => -1

end Sign

/-- The exponent of a numeral: its letter, a sign if there is one, and digits. -/
structure ExponentPart where
  capital : Bool
  sign : Sign
  digits : List Digit
  digits_ne_nil : digits ≠ []

namespace ExponentPart

/-- The characters of an exponent. -/
def spelling (part : ExponentPart) : List Char :=
  (if part.capital then 'E' else 'e') :: (part.sign.spelling ++ Digit.spelling part.digits)

/-- The power of ten that an exponent stands for. -/
def value (part : ExponentPart) : ℤ := part.sign.factor * Digit.number part.digits

end ExponentPart

/-- A decimal numeral as it is written.  The point may be missing, and there may be no digits
on one of its sides, but not on both. -/
structure DecimalText where
  sign : Sign
  whole : List Digit
  fraction : Option (List Digit)
  exponent : Option ExponentPart
  has_digit : whole ++ fraction.getD [] ≠ []

namespace DecimalText

/-- The digits behind the point. -/
def places (numeral : DecimalText) : List Digit := numeral.fraction.getD []

/-- The power of ten that the numeral is multiplied by. -/
def order (numeral : DecimalText) : ℤ := numeral.exponent.elim 0 ExponentPart.value

/-- The characters of the numeral behind its sign. -/
def unsigned (numeral : DecimalText) : List Char :=
  Digit.spelling numeral.whole ++
    (numeral.fraction.elim [] (fun digits => '.' :: Digit.spelling digits) ++
      numeral.exponent.elim [] ExponentPart.spelling)

/-- The characters of the numeral. -/
def spelling (numeral : DecimalText) : List Char := numeral.sign.spelling ++ numeral.unsigned

/-- The numeral as a text. -/
def text (numeral : DecimalText) : String := String.ofList numeral.spelling

/-- The text of a numeral has the characters that it is spelled with. -/
@[simp] theorem toList_text (numeral : DecimalText) : numeral.text.toList = numeral.spelling :=
  String.toList_ofList

/-- The size of the number that the numeral denotes. -/
def magnitude (numeral : DecimalText) : ℚ :=
  (Digit.number numeral.whole + Digit.number numeral.places / 10 ^ numeral.places.length) *
    10 ^ numeral.order

/-- The number that the numeral denotes. -/
def value (numeral : DecimalText) : ℚ := numeral.sign.factor * numeral.magnitude

/-- The numeral with another sign. -/
def withSign (numeral : DecimalText) (sign : Sign) : DecimalText := { numeral with sign }

@[simp] theorem sign_withSign (numeral : DecimalText) (sign : Sign) :
    (numeral.withSign sign).sign = sign := rfl

/-- The opposite sign gives the opposite number. -/
theorem value_withSign {numeral : DecimalText} {sign : Sign}
    (h : sign.factor = -numeral.sign.factor) : (numeral.withSign sign).value = -numeral.value := by
  show (sign.factor * numeral.magnitude : ℚ) = -(numeral.sign.factor * numeral.magnitude)
  rw [h]
  push_cast
  ring

end DecimalText

/-- The text is a decimal numeral, and this is its number. -/
def Denotes (text : String) (x : ℚ) : Prop :=
  ∃ numeral : DecimalText, numeral.text = text ∧ numeral.value = x

/-- The number is so small that its nearest double is zero: half of the smallest positive
double at most. -/
def Underflows (x : ℚ) : Prop := |x| ≤ 2 ^ (-1075 : ℤ)

/-! ### The reader of numerals -/

/-- The characters start with no sign. -/
def NoSignAhead (cs : List Char) : Prop := ∀ rest, cs ≠ '-' :: rest ∧ cs ≠ '+' :: rest

/-- The characters start with no digit. -/
def NoDigitAhead (cs : List Char) : Prop := ∀ c ∈ cs.head?, c.isDigit = false

variable {cs : List Char}

/-- A character that is no sign is not taken for one. -/
theorem noSignAhead_cons {c : Char} {rest : List Char} (hminus : c ≠ '-') (hplus : c ≠ '+') :
    NoSignAhead (c :: rest) := by
  intro rest'
  constructor
  · rintro ⟨⟩
    exact hminus rfl
  · rintro ⟨⟩
    exact hplus rfl

/-- A run of digits does not begin with a sign. -/
theorem noSignAhead_spelling {digits : List Digit} (hne : digits ≠ []) (rest : List Char) :
    NoSignAhead (Digit.spelling digits ++ rest) := by
  cases digits with
  | nil => exact absurd rfl hne
  | cons first digits =>
      have hfirst := Digit.isDigit_char first
      refine noSignAhead_cons ?_ ?_
      all_goals
        intro h
        rw [h] at hfirst
        exact absurd hfirst (by decide)

namespace Decimal

/-- A sign reads back where no second sign follows it. -/
theorem readSign_spelling (sign : Sign) (h : NoSignAhead cs) :
    readSign (sign.spelling ++ cs) = (decide (sign = .minus), cs) := by
  cases sign with
  | absent =>
      show readSign cs = (false, cs)
      unfold readSign
      split
      · exact absurd rfl (h _).1
      · exact absurd rfl (h _).2
      · rfl
  | plus => rfl
  | minus => rfl

/-- A run of digits reads back where no digit follows it. -/
theorem readDigits_spelling (digits : List Digit) (h : NoDigitAhead cs) :
    readDigits (Digit.spelling digits ++ cs) = (Digit.spelling digits, cs) := by
  have hdigits : ∀ c ∈ Digit.spelling digits, c.isDigit = true :=
    fun _ => Digit.isDigit_of_mem_spelling
  have hstop : cs.takeWhile Char.isDigit = [] ∧ cs.dropWhile Char.isDigit = cs := by
    cases cs with
    | nil => exact ⟨rfl, rfl⟩
    | cons c rest => simp [h c rfl]
  rw [readDigits, List.takeWhile_append_of_pos hdigits, List.dropWhile_append_of_pos hdigits,
    hstop.1, hstop.2, List.append_nil]

/-- An integer reads back as the number that its digits denote, with its sign. -/
theorem readInteger?_spelling (sign : Sign) {digits : List Digit} (hne : digits ≠ []) :
    readInteger? (sign.spelling ++ Digit.spelling digits) =
      some (sign.factor * Digit.number digits) := by
  have hahead : NoSignAhead (Digit.spelling digits) := by
    simpa using noSignAhead_spelling hne []
  have hdigits : ¬ (Digit.spelling digits = [] ∨
      (Digit.spelling digits).any (fun c => !c.isDigit) = true) := by
    rintro (hnil | hany)
    · exact hne (Digit.spelling_eq_nil.mp hnil)
    · obtain ⟨c, hc, hnot⟩ := List.any_eq_true.mp hany
      simp [Digit.isDigit_of_mem_spelling hc] at hnot
  simp only [readInteger?, readSign_spelling sign hahead, if_neg hdigits,
    Digit.natOfDigits_spelling]
  cases sign with
  | absent => simp [Sign.factor]
  | plus => simp [Sign.factor]
  | minus => simp [Sign.factor]

/-- An exponent reads back, and so does one that is left out. -/
theorem readExponent?_spelling (exponent : Option ExponentPart) :
    readExponent? (exponent.elim [] ExponentPart.spelling) =
      some (exponent.elim 0 ExponentPart.value) := by
  cases exponent with
  | none => rfl
  | some part =>
      have hletter : (if part.capital then 'E' else 'e') = 'e' ∨
          (if part.capital then 'E' else 'e') = 'E' := by
        cases part.capital with
        | false => exact Or.inl rfl
        | true => exact Or.inr rfl
      show readExponent? part.spelling = some part.value
      rw [ExponentPart.spelling, readExponent?, if_pos hletter]
      exact readInteger?_spelling part.sign part.digits_ne_nil

/-- An exponent does not begin with a digit, so a run of digits ends before it. -/
theorem noDigitAhead_exponent (exponent : Option ExponentPart) :
    NoDigitAhead (exponent.elim [] ExponentPart.spelling) := by
  rintro c hc
  cases exponent with
  | none => cases hc
  | some part =>
      cases hc
      cases part.capital with
      | false => decide
      | true => decide

/-- The digits behind a point read back, whether there is a point or not. -/
theorem readFraction_spelling (fraction : Option (List Digit)) (exponent : Option ExponentPart) :
    readFraction (fraction.elim [] (fun digits => '.' :: Digit.spelling digits) ++
        exponent.elim [] ExponentPart.spelling) =
      (Digit.spelling (fraction.getD []), exponent.elim [] ExponentPart.spelling) := by
  cases fraction with
  | some digits => exact readDigits_spelling digits (noDigitAhead_exponent exponent)
  | none =>
      cases exponent with
      | none => rfl
      | some part =>
          show readFraction part.spelling = ([], part.spelling)
          unfold readFraction ExponentPart.spelling
          cases part.capital with
          | false => rfl
          | true => rfl

/-- The number that the reader makes of its three parts. -/
def value (decimal : Decimal) : ℚ :=
  (if decimal.negative then -1 else 1) * (decimal.coefficient * 10 ^ decimal.exponent)

/-- The sign of a decimal does not matter for its distance from zero. -/
theorem abs_value (decimal : Decimal) :
    |decimal.value| = decimal.coefficient * 10 ^ decimal.exponent := by
  have hnonneg : (0 : ℚ) ≤ decimal.coefficient * 10 ^ decimal.exponent := by positivity
  unfold value
  split
  · rw [neg_one_mul, abs_neg, abs_of_nonneg hnonneg]
  · rw [one_mul, abs_of_nonneg hnonneg]

end Decimal

namespace DecimalText

variable (numeral : DecimalText)

/-- The numeral as the reader takes it apart: all digits as one number, and the point moved
behind them. -/
def decimal : Decimal where
  negative := decide (numeral.sign = .minus)
  coefficient := Digit.number (numeral.whole ++ numeral.places)
  exponent := numeral.order - numeral.places.length

/-- What follows the sign of a numeral does not begin with another sign, but with a digit or a
point. -/
theorem noSignAhead_unsigned : NoSignAhead numeral.unsigned := by
  cases hwhole : numeral.whole with
  | cons first digits =>
      rw [unsigned, hwhole]
      exact noSignAhead_spelling (by simp) _
  | nil =>
      cases hfraction : numeral.fraction with
      | none => exact absurd (by rw [hwhole, hfraction]; rfl) numeral.has_digit
      | some digits =>
          rw [unsigned, hwhole, hfraction]
          exact noSignAhead_cons (by decide) (by decide)

/-- What follows the digits before the point does not begin with a digit. -/
theorem noDigitAhead_afterWhole :
    NoDigitAhead (numeral.fraction.elim [] (fun digits => '.' :: Digit.spelling digits) ++
      numeral.exponent.elim [] ExponentPart.spelling) := by
  cases numeral.fraction with
  | none => exact Decimal.noDigitAhead_exponent numeral.exponent
  | some digits =>
      rintro c hc
      cases hc
      decide

/-- **Every numeral is read.**  Nothing of it is lost, however long it is. -/
theorem ofText?_text : Decimal.ofText? numeral.text = some numeral.decimal := by
  have hdigits : ¬ Digit.spelling numeral.whole ++ Digit.spelling numeral.places = [] := by
    rw [← Digit.spelling_append, Digit.spelling_eq_nil]
    exact numeral.has_digit
  have hunsigned : Decimal.readDigits numeral.unsigned = _ :=
    Decimal.readDigits_spelling numeral.whole numeral.noDigitAhead_afterWhole
  rw [Decimal.ofText?, toList_text, spelling, Decimal.ofChars?]
  simp only [Decimal.readSign_spelling _ numeral.noSignAhead_unsigned, hunsigned,
    Decimal.readFraction_spelling, Decimal.readExponent?_spelling]
  rw [← places, if_neg hdigits, ← Digit.spelling_append, Digit.natOfDigits_spelling]
  simp [decimal, order, Digit.spelling]

/-- The digits of a numeral and its places make up the size that its coefficient and exponent
have. -/
theorem magnitude_eq :
    numeral.magnitude = numeral.decimal.coefficient * 10 ^ numeral.decimal.exponent := by
  have hten : (10 : ℚ) ^ numeral.places.length ≠ 0 := by positivity
  show numeral.magnitude = (Digit.number (numeral.whole ++ numeral.places) : ℚ) *
    10 ^ (numeral.order - numeral.places.length : ℤ)
  rw [magnitude, Digit.number_append, zpow_sub₀ (by norm_num), zpow_natCast]
  push_cast
  field_simp

/-- The reader keeps the number. -/
theorem value_decimal : numeral.decimal.value = numeral.value := by
  rw [Decimal.value, value, magnitude_eq]
  cases hsign : numeral.sign with
  | absent => simp [decimal, hsign, Sign.factor]
  | plus => simp [decimal, hsign, Sign.factor]
  | minus => simp [decimal, hsign, Sign.factor]

/-- Numerals with one text denote one number. -/
theorem value_eq_of_text {other : DecimalText} (h : numeral.text = other.text) :
    numeral.value = other.value := by
  have hread := numeral.ofText?_text
  rw [h, other.ofText?_text] at hread
  have hdecimal : other.decimal = numeral.decimal := Option.some.inj hread
  rw [← value_decimal, ← value_decimal, hdecimal]

/-- The text of a numeral denotes its value and no other number. -/
theorem denotes_text {x : ℚ} : Denotes numeral.text x ↔ x = numeral.value := by
  constructor
  · rintro ⟨other, htext, rfl⟩
    exact value_eq_of_text other htext
  · rintro rfl
    exact ⟨numeral, rfl, rfl⟩

end DecimalText

/-! ### Numbers that are zero as doubles -/

namespace Decimal

/-- A coefficient of one digit vanishes behind so many places. -/
theorem two_pow_le_ten_pow : Nat.pow 2 1075 ≤ 10 ^ 324 := by decide +kernel

/-- A number is below the power of ten with as many zeros as it has digits. -/
theorem lt_ten_pow_digitCount (n : Nat) : n < 10 ^ digitCount n :=
  (Nat.length_toDigits_le_iff (by decide) Nat.length_toDigits_pos).mp le_rfl

/-- A number behind the point is small enough if its coefficient is, and the count of digits
alone may tell. -/
theorem vanishes_iff (decimal : Decimal) :
    decimal.vanishes = true ↔
      decimal.coefficient = 0 ∨
        (decimal.exponent < 0 ∧
          decimal.coefficient * Nat.pow 2 1075 ≤ 10 ^ (-decimal.exponent).toNat) := by
  have hplaces : 0 < (-decimal.exponent).toNat ↔ decimal.exponent < 0 := by omega
  have hlong (h : digitCount decimal.coefficient + 324 ≤ (-decimal.exponent).toNat) :
      decimal.coefficient * Nat.pow 2 1075 ≤ 10 ^ (-decimal.exponent).toNat :=
    calc decimal.coefficient * Nat.pow 2 1075
        ≤ 10 ^ digitCount decimal.coefficient * 10 ^ 324 :=
          Nat.mul_le_mul (lt_ten_pow_digitCount _).le two_pow_le_ten_pow
      _ = 10 ^ (digitCount decimal.coefficient + 324) := (pow_add _ _ _).symm
      _ ≤ 10 ^ (-decimal.exponent).toNat := Nat.pow_le_pow_right (by decide) h
  simp only [vanishes, Bool.or_eq_true, Bool.and_eq_true, beq_iff_eq, decide_eq_true_eq, hplaces]
  constructor
  · rintro ((hzero | hcount) | hsmall)
    · exact Or.inl hzero
    · exact Or.inr ⟨by omega, hlong hcount⟩
    · exact Or.inr hsmall
  · rintro (hzero | hsmall)
    · exact Or.inl (Or.inl hzero)
    · exact Or.inr hsmall

/-- A negative power of two is the inverse of the natural one. -/
theorem two_zpow_neg (n : ℕ) : (2 : ℚ) ^ (-(n : ℤ)) = ((Nat.pow 2 n : ℕ) : ℚ)⁻¹ := by
  rw [zpow_neg, zpow_natCast, Nat.pow_eq, Nat.cast_pow, Nat.cast_ofNat]

/-- The nearest double is zero exactly up to half of the smallest positive one. -/
theorem vanishes_iff_underflows (decimal : Decimal) :
    decimal.vanishes = true ↔ Underflows decimal.value := by
  rw [vanishes_iff, Underflows, abs_value, show (-1075 : ℤ) = -((1075 : ℕ) : ℤ) from rfl,
    two_zpow_neg]
  generalize hbits : 1075 = bits
  have hbig : 1 < Nat.pow 2 bits := Nat.one_lt_two_pow (by omega)
  generalize Nat.pow 2 bits = half at hbig ⊢
  have hhalf : (1 : ℚ) < half := by exact_mod_cast hbig
  rcases Nat.eq_zero_or_pos decimal.coefficient with hzero | hpos
  · simp [hzero]
  have hne : decimal.coefficient ≠ 0 := by omega
  rcases lt_or_ge decimal.exponent 0 with hnegative | hnonneg
  · obtain ⟨places, hplaces⟩ : ∃ places : ℕ, decimal.exponent = -places :=
      ⟨(-decimal.exponent).toNat, by omega⟩
    have hten : (0 : ℚ) < 10 ^ places := by positivity
    rw [hplaces, zpow_neg, zpow_natCast, ← div_eq_mul_inv, div_le_iff₀ hten, inv_mul_eq_div,
      le_div_iff₀ (by linarith), neg_neg, Int.toNat_natCast]
    constructor
    · rintro (hzero | ⟨_, hle⟩)
      · exact absurd hzero hne
      · exact_mod_cast hle
    · intro hle
      exact Or.inr ⟨by omega, by exact_mod_cast hle⟩
  · have hcoefficient : (1 : ℚ) ≤ decimal.coefficient := by exact_mod_cast hpos
    have hscale : (1 : ℚ) ≤ 10 ^ decimal.exponent := one_le_zpow₀ (by norm_num) hnonneg
    have hlarge : (1 : ℚ) ≤ decimal.coefficient * 10 ^ decimal.exponent :=
      one_le_mul_of_one_le_of_one_le hcoefficient hscale
    have hsmall : (half : ℚ)⁻¹ < 1 := inv_lt_one_of_one_lt₀ hhalf
    constructor
    · rintro (hzero | ⟨hnegative, _⟩)
      · exact absurd hzero hne
      · omega
    · intro hle
      linarith

end Decimal

namespace DecimalText

variable (numeral : DecimalText)

/-- A text is taken for zero if the value that it denotes underflows. -/
theorem isZeroText_iff : isZeroText numeral.text = true ↔ Underflows numeral.value := by
  rw [isZeroText, ofText?_text, ← value_decimal]
  exact Decimal.vanishes_iff_underflows numeral.decimal

/-! ### The sign turned on the text -/

/-- A numeral that is given the sign it has stays as it is. -/
theorem withSign_eq_self {sign : Sign} (h : numeral.sign = sign) :
    numeral.withSign sign = numeral := by
  subst h
  rfl

/-- A minus in the text is a character in front of the unsigned text. -/
theorem text_withSign_minus :
    (numeral.withSign .minus).text = "-" ++ (numeral.withSign .absent).text := by
  refine String.toList_injective ?_
  rw [String.toList_append, toList_text, toList_text]
  rfl

/-- A minus in front of a numeral without a sign denotes the opposite number. -/
theorem denotes_minus_append (h : numeral.sign = .absent) :
    Denotes ("-" ++ numeral.text) (-numeral.value) := by
  refine ⟨numeral.withSign .minus, ?_, value_withSign (by rw [h]; rfl)⟩
  rw [text_withSign_minus, withSign_eq_self numeral h]

/-- A minus in front of a plus leaves no numeral. -/
theorem not_denotes_minus_append (h : numeral.sign = .plus) (x : ℚ) :
    ¬ Denotes ("-" ++ numeral.text) x := by
  rintro ⟨other, htext, _⟩
  have hlist : ("-" ++ numeral.text).toList = '-' :: '+' :: numeral.unsigned := by
    rw [String.toList_append, toList_text, spelling, h]
    rfl
  have hread : Decimal.ofText? ("-" ++ numeral.text) = none := by
    rw [Decimal.ofText?, hlist]
    rfl
  rw [← htext, other.ofText?_text] at hread
  cases hread

/-- A minus in front is taken away. -/
theorem negated_minus_append (text : String) : negated ("-" ++ text) = text := by
  have hlist : ("-" ++ text).toList = '-' :: text.toList := String.toList_append
  unfold negated
  rw [hlist]
  exact String.ofList_toList

/-- A number with a minus is turned into the one without a sign. -/
theorem negated_text_of_minus (h : numeral.sign = .minus) :
    negated numeral.text = (numeral.withSign .absent).text := by
  rw [← withSign_eq_self numeral h, text_withSign_minus, negated_minus_append]
  rfl

/-- Without a minus in front, what decides is whether the nearest double is zero. -/
theorem negated_text_of_ne_minus (h : numeral.sign ≠ .minus) :
    negated numeral.text =
      if isZeroText numeral.text then numeral.text else "-" ++ numeral.text := by
  have hminus (rest : List Char) : numeral.text.toList ≠ '-' :: rest := by
    rw [toList_text, spelling]
    cases hsign : numeral.sign with
    | absent => exact (numeral.noSignAhead_unsigned rest).1
    | plus => simp [Sign.spelling]
    | minus => exact absurd hsign h
  unfold negated
  split
  · next rest hlist => exact absurd hlist (hminus rest)
  · rfl

/-- A number without a minus that underflows stays as it is. -/
theorem negated_text_of_underflows (hsign : numeral.sign ≠ .minus)
    (h : Underflows numeral.value) : negated numeral.text = numeral.text := by
  rw [negated_text_of_ne_minus numeral hsign, if_pos (numeral.isZeroText_iff.mpr h)]

/-- Any other number without a minus gets one in front, also in front of a plus. -/
theorem negated_text_of_not_underflows (hsign : numeral.sign ≠ .minus)
    (h : ¬ Underflows numeral.value) : negated numeral.text = "-" ++ numeral.text := by
  rw [negated_text_of_ne_minus numeral hsign,
    if_neg (fun hzero => h (numeral.isZeroText_iff.mp hzero))]

/-- What becomes of a numeral whose sign is turned on the text. -/
structure TurnsSign : Prop where
  /-- When the opposite number is denoted. -/
  opposite : Denotes (negated numeral.text) (-numeral.value) ↔
    numeral.sign = .minus ∨ numeral.value = 0 ∨
      (numeral.sign = .absent ∧ ¬ Underflows numeral.value)
  /-- A number too small for the doubles keeps its text. -/
  unturned : numeral.sign ≠ .minus → Underflows numeral.value →
    negated numeral.text = numeral.text
  /-- Any other number with a plus is spoilt. -/
  spoilt : numeral.sign = .plus → ¬ Underflows numeral.value →
    ∀ x, ¬ Denotes (negated numeral.text) x
  /-- When turning the sign again gives the number back. -/
  twice : Denotes (negated (negated numeral.text)) numeral.value ↔
    ¬ (numeral.sign = .minus ∧ Underflows numeral.value ∧ numeral.value ≠ 0)

/-- Without its minus a number has the opposite value. -/
theorem value_withSign_absent (h : numeral.sign = .minus) :
    (numeral.withSign .absent).value = -numeral.value :=
  value_withSign (by rw [h]; rfl)

/-- The turned text denotes the opposite number if the sign was a minus, if the number is zero,
or if there was no sign and the number does not underflow. -/
theorem denotes_negated_iff :
    Denotes (negated numeral.text) (-numeral.value) ↔
      numeral.sign = .minus ∨ numeral.value = 0 ∨
        (numeral.sign = .absent ∧ ¬ Underflows numeral.value) := by
  by_cases hminus : numeral.sign = .minus
  · refine iff_of_true ⟨numeral.withSign .absent, ?_, ?_⟩ (Or.inl hminus)
    · exact (negated_text_of_minus numeral hminus).symm
    · exact numeral.value_withSign_absent hminus
  by_cases hsmall : Underflows numeral.value
  · rw [negated_text_of_underflows numeral hminus hsmall, denotes_text]
    constructor
    · intro heq
      exact Or.inr (Or.inl (by linarith))
    · rintro (hsign | hzero | ⟨_, hlarge⟩)
      · exact absurd hsign hminus
      · rw [hzero, neg_zero]
      · exact absurd hsmall hlarge
  · have hne : numeral.value ≠ 0 := by
      intro hzero
      exact hsmall (by simp [Underflows, hzero])
    rw [negated_text_of_not_underflows numeral hminus hsmall]
    cases hsign : numeral.sign with
    | minus => exact absurd hsign hminus
    | absent =>
        exact iff_of_true (numeral.denotes_minus_append hsign) (Or.inr (Or.inr ⟨rfl, hsmall⟩))
    | plus =>
        refine iff_of_false (numeral.not_denotes_minus_append hsign _) ?_
        rintro (hsign | hzero | ⟨hsign, _⟩)
        · cases hsign
        · exact hne hzero
        · cases hsign

/-- Turned twice, a text denotes the number again unless it had a minus and underflows without
being zero. -/
theorem denotes_negated_negated_iff :
    Denotes (negated (negated numeral.text)) numeral.value ↔
      ¬ (numeral.sign = .minus ∧ Underflows numeral.value ∧ numeral.value ≠ 0) := by
  have hself : Denotes numeral.text numeral.value := ⟨numeral, rfl, rfl⟩
  by_cases hminus : numeral.sign = .minus
  · have hopposite := numeral.value_withSign_absent hminus
    have hsame : Underflows (numeral.withSign .absent).value ↔ Underflows numeral.value := by
      rw [hopposite, Underflows, abs_neg, Underflows]
    rw [negated_text_of_minus numeral hminus]
    by_cases hsmall : Underflows numeral.value
    · rw [negated_text_of_underflows _ (by simp) (hsame.mpr hsmall), denotes_text, hopposite]
      constructor
      · rintro heq ⟨_, _, hne⟩
        exact hne (by linarith)
      · intro hnot
        have hzero : numeral.value = 0 := by
          by_contra hne
          exact hnot ⟨hminus, hsmall, hne⟩
        rw [hzero, neg_zero]
    · rw [negated_text_of_not_underflows _ (by simp) (fun h => hsmall (hsame.mp h)),
        ← text_withSign_minus, withSign_eq_self numeral hminus]
      exact iff_of_true hself (fun h => hsmall h.2.1)
  · refine iff_of_true ?_ (fun h => hminus h.1)
    by_cases hsmall : Underflows numeral.value
    · rw [negated_text_of_underflows numeral hminus hsmall,
        negated_text_of_underflows numeral hminus hsmall]
      exact hself
    · rw [negated_text_of_not_underflows numeral hminus hsmall, negated_minus_append]
      exact hself

/-- **What turning the sign of a number text comes to**, for every numeral. -/
theorem turnsSign : numeral.TurnsSign where
  opposite := numeral.denotes_negated_iff
  unturned := negated_text_of_underflows numeral
  spoilt hsign hlarge x := by
    rw [negated_text_of_not_underflows numeral (by rw [hsign]; decide) hlarge]
    exact not_denotes_minus_append numeral hsign x
  twice := numeral.denotes_negated_negated_iff

end DecimalText

/-! ### Counting up and down -/

namespace Change

/-- **What the counting functions add.**  Counting up adds the number itself.  Counting down
adds the text whose sign is turned, and `DecimalText.TurnsSign` says when that is the opposite
number. -/
theorem counts_both_ways (numeral : DecimalText) {up down : String} {path : AttributePath}
    (hup : resolve UpdateFunction up = .ok (path, .plus))
    (hdown : resolve UpdateFunction down = .ok (path, .minus)) :
    ofArgument up (.number numeral.text) = .ok (.add path (.number numeral.text)) ∧
      (∀ x, Denotes numeral.text x ↔ x = numeral.value) ∧
      ofArgument down (.number numeral.text) =
        .ok (.add path (.number (negated numeral.text))) ∧
      numeral.TurnsSign := by
  refine ⟨?_, fun _ => numeral.denotes_text, ?_, numeral.turnsSign⟩
  · rw [ofArgument, hup]
    rfl
  · rw [ofArgument, hdown]
    rfl

/-- A numeral with every part there is, counted up and down. -/
theorem counts_both_ways_stock :
    let numeral : DecimalText :=
      ⟨.minus, [2], some [5, 0], some ⟨false, .plus, [3], by decide⟩, by decide⟩
    let stock : AttributePath := ⟨["stock"], by decide, by decide⟩
    resolve UpdateFunction "stock__plus" = .ok (stock, .plus) ∧
      resolve UpdateFunction "stock__minus" = .ok (stock, .minus) ∧
      ofArgument "stock__plus" (.number "-2.50e+3") = .ok (.add stock (.number "-2.50e+3")) ∧
      ofArgument "stock__minus" (.number "-2.50e+3") = .ok (.add stock (.number "2.50e+3")) ∧
      numeral.TurnsSign := by
  intro numeral stock
  have hup : resolve UpdateFunction "stock__plus" = .ok (stock, .plus) := rfl
  have hdown : resolve UpdateFunction "stock__minus" = .ok (stock, .minus) := rfl
  have hturned : negated numeral.text = "2.50e+3" := by decide
  obtain ⟨hadded, _, hsubtracted, hturns⟩ := counts_both_ways numeral hup hdown
  rw [hturned] at hsubtracted
  exact ⟨hup, hdown, hadded, hsubtracted, hturns⟩

/-- Counting down by `+5` adds a text that is no numeral. -/
theorem counts_down_explicit_plus :
    let stock : AttributePath := ⟨["stock"], by decide, by decide⟩
    Denotes "+5" 5 ∧
      ofArgument "stock__minus" (.number "+5") = .ok (.add stock (.number "-+5")) ∧
      ∀ x, ¬ Denotes "-+5" x := by
  let five : DecimalText := ⟨.plus, [5], none, none, by decide⟩
  have hvalue : five.value = 5 := by
    simp [five, DecimalText.value, DecimalText.magnitude, DecimalText.places, DecimalText.order,
      Digit.number, Sign.factor]
  exact ⟨⟨five, rfl, hvalue⟩, rfl, five.not_denotes_minus_append rfl⟩

end Change

end KeywordTable
