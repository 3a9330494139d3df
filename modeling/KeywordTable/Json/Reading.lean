import KeywordTable.Bytes
import KeywordTable.Json

/-!
# Reading JSON

What a spelled document denotes, with the grammar of the JSON data format taken to
the letter: numbers have no leading zeros, and escapes of characters beyond the
basic plane come as a pair.  `Json.parse?` reads one value with nothing but blanks
around it.
-/

namespace KeywordTable

namespace Json

/-- The number that four hexadecimal digits denote. -/
def ofFourHexDigits? (a b c d : Char) : Option Nat := do
  let a ← Bytes.hexDigit? a
  let b ← Bytes.hexDigit? b
  let c ← Bytes.hexDigit? c
  let d ← Bytes.hexDigit? d
  return 4096 * a + 256 * b + 16 * c + d

/-- The character that an escape of one letter stands for. -/
def ofEscape? : Char → Option Char
  | '"' => some '"'
  | '\\' => some '\\'
  | '/' => some '/'
  | 'b' => some '\x08'
  | 'f' => some '\x0c'
  | 'n' => some '\n'
  | 'r' => some '\r'
  | 't' => some '\t'
  | _ => none

/-- The first half of a pair that stands for one character. -/
def isHighHalf (n : Nat) : Bool := 0xD800 ≤ n && n < 0xDC00

/-- The second half of a pair that stands for one character. -/
def isLowHalf (n : Nat) : Bool := 0xDC00 ≤ n && n < 0xE000

/-- The text that is spelled by what `seen`, last character first, already denotes
and by the rest of the inside. -/
def unescapeFrom (seen : List Char) : List Char → Option String
  | [] => some (String.ofList seen.reverse)
  | '\\' :: 'u' :: a :: b :: c :: d :: rest =>
    match ofFourHexDigits? a b c d with
    | none => none
    | some n =>
      if isLowHalf n then none
      else if isHighHalf n then
        match rest with
        | '\\' :: 'u' :: e :: f :: g :: h :: rest =>
          match ofFourHexDigits? e f g h with
          | none => none
          | some m =>
            if isLowHalf m then
              unescapeFrom (Char.ofNat (0x10000 + (n - 0xD800) * 1024 + (m - 0xDC00)) :: seen) rest
            else none
        | _ => none
      else unescapeFrom (Char.ofNat n :: seen) rest
  | '\\' :: c :: rest =>
    match ofEscape? c with
    | some c => unescapeFrom (c :: seen) rest
    | none => none
  | c :: rest => if c = '\\' then none else unescapeFrom (c :: seen) rest

/-- The text that the inside of a spelled text denotes. -/
def unescape? (inside : String) : Option String := unescapeFrom [] inside.toList

/-- Is this an integer part: a zero, or digits that do not begin with one? -/
def isWhole : List Char → Bool
  | [] => false
  | ['0'] => true
  | '0' :: _ => false
  | cs => cs.all Char.isDigit

/-- Is this an exponent, its letter taken off? -/
def isExponent : List Char → Bool
  | '-' :: digits | '+' :: digits | digits => !digits.isEmpty && digits.all Char.isDigit

/-- Is this what may follow an integer part? -/
def isTail : List Char → Bool
  | [] => true
  | '.' :: rest =>
    let digits := rest.takeWhile Char.isDigit
    !digits.isEmpty &&
      match rest.dropWhile Char.isDigit with
      | [] => true
      | c :: exponent => (c == 'e' || c == 'E') && isExponent exponent
  | c :: exponent => (c == 'e' || c == 'E') && isExponent exponent

/-- Is this a number without its sign? -/
def isUnsigned (cs : List Char) : Bool :=
  isWhole (cs.takeWhile Char.isDigit) && isTail (cs.dropWhile Char.isDigit)

/-- Is this a number? -/
def isNumber : List Char → Bool
  | '-' :: rest => isUnsigned rest
  | cs => isUnsigned cs

mutual

/-- The value that a spelling denotes. -/
def ofSpelling? : Spelling → Option Json
  | .null => some .null
  | .bool flag => some (.bool flag)
  | .number literal => if isNumber literal.toList then some (.number literal) else none
  | .text inside => (unescape? inside).map .text
  | .array elements => (ofElements? elements).map .array
  | .object members => (ofMembers? members).map .object

/-- The values that the elements of an array denote. -/
def ofElements? : List Spelling → Option (List Json)
  | [] => some []
  | element :: rest => do
    let value ← ofSpelling? element
    return value :: (← ofElements? rest)

/-- The members that those of an object denote. -/
def ofMembers? : List (String × Spelling) → Option (List (String × Json))
  | [] => some []
  | (name, member) :: rest => do
    let name ← unescape? name
    let value ← ofSpelling? member
    return (name, value) :: (← ofMembers? rest)

end

/-- The value that a text spells. -/
def parse? (text : String) : Option Json := do ofSpelling? (← Spelling.parse? text.length text)

end Json

end KeywordTable
