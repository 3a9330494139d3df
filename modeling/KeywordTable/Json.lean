import KeywordTable.Fields

/-!
# JSON values and documents

The values of the JSON data format.  A number keeps the text it was written with,
so that whoever needs it decides what it denotes, and the members of an object
keep their order and their repetitions.  `Json.render` writes a value without blanks.

A `Spelling` is a document cut into its parts and nothing more: a text is kept as it
stands between its quotes, escapes and all, and a number as the characters it is
written with.  Whoever needs a text or a number finds out then whether it is one, so
a document may hold parts that mean nothing as long as nobody asks about them.
`Spelling.parse?` reads one document with nothing but blanks around it.  Documents
nest, and the reader is told how many levels it may go down.
-/

namespace KeywordTable

/-- A value of the JSON data format. -/
inductive Json where
  | null
  | bool (flag : Bool)
  | number (literal : String)
  | text (content : String)
  | array (elements : List Json)
  | object (members : List (String × Json))
deriving Inhabited

namespace Json

/-- An integer. -/
def integer (n : Int) : Json := .number (toString n)

/-- The member of this name; of a repeated name the last counts. -/
def member? (json : Json) (name : String) : Option Json :=
  match json with
  | .object members => (members.reverse.lookup name)
  | _ => none

/-- Four hexadecimal digits. -/
def fourHexDigits (n : Nat) : List Char :=
  let digits := Nat.toDigits 16 n
  List.replicate (4 - digits.length) '0' ++ digits

/-- How a character stands between quotes. -/
def escape (c : Char) : List Char :=
  if c = '"' then ['\\', '"']
  else if c = '\\' then ['\\', '\\']
  else if c = '\n' then ['\\', 'n']
  else if c = '\r' then ['\\', 'r']
  else if c = '\t' then ['\\', 't']
  else if c.toNat < 32 then '\\' :: 'u' :: fourHexDigits c.toNat
  else [c]

/-- A text between quotes. -/
def quote (content : String) : String :=
  String.ofList ('"' :: content.toList.flatMap escape ++ ['"'])

mutual

/-- The text of a value. -/
def render : Json → String
  | .null => "null"
  | .bool true => "true"
  | .bool false => "false"
  | .number literal => literal
  | .text content => quote content
  | .array elements => "[" ++ ",".intercalate (renderElements elements) ++ "]"
  | .object members => "\x7b" ++ ",".intercalate (renderMembers members) ++ "\x7d"

/-- The texts of the elements of an array. -/
def renderElements : List Json → List String
  | [] => []
  | element :: rest => render element :: renderElements rest

/-- The texts of the members of an object. -/
def renderMembers : List (String × Json) → List String
  | [] => []
  | (name, value) :: rest => (quote name ++ ":" ++ render value) :: renderMembers rest

end

end Json

/-! ### Documents as they are spelled -/

/-- A part of a JSON document as it is spelled. -/
inductive Spelling where
  | null
  | bool (flag : Bool)
  | number (literal : String)
  | text (inside : String)
  | array (elements : List Spelling)
  | object (members : List (String × Spelling))
deriving Inhabited

namespace Spelling

/-- Is this a blank of the format? -/
def isBlank (c : Char) : Bool := c == ' ' || c == '\t' || c == '\n' || c == '\r'

/-- What follows the blanks. -/
def skipBlanks (cs : List Char) : List Char := cs.dropWhile isBlank

/-- The rest of a text whose characters so far are `seen`, last one first, and
what follows the closing quote.  A backslash takes the next character with it. -/
def readInside (seen : List Char) : List Char → Option (String × List Char)
  | '"' :: rest => some (String.ofList seen.reverse, rest)
  | '\\' :: c :: rest => readInside (c :: '\\' :: seen) rest
  | c :: rest => if c.toNat < 32 then none else readInside (c :: seen) rest
  | [] => none

/-- May a number begin with the character? -/
def startsNumber (c : Char) : Bool := c.isDigit || c == '-'

/-- May the character stand in a number? -/
def isNumberChar (c : Char) : Bool :=
  startsNumber c || c == '+' || c == '.' || c == 'e' || c == 'E'

/-- The characters of a number and what follows them. -/
def readNumber : List Char → Option (Spelling × List Char)
  | c :: rest =>
    if startsNumber c then
      some (.number (String.ofList (c :: rest.takeWhile isNumberChar)),
        rest.dropWhile isNumberChar)
    else none
  | [] => none

/-- The elements of an array up to its end, at least one and at most so many. -/
def readElements (read : List Char → Option (Spelling × List Char)) :
    Nat → List Char → Option (List Spelling × List Char)
  | 0, _ => none
  | most + 1, cs => do
    let (element, rest) ← read cs
    match skipBlanks rest with
    | ',' :: rest => do
      let (elements, rest) ← readElements read most rest
      return (element :: elements, rest)
    | ']' :: rest => return ([element], rest)
    | _ => none

/-- The members of an object up to its end, at least one and at most so many. -/
def readMembers (read : List Char → Option (Spelling × List Char)) :
    Nat → List Char → Option (List (String × Spelling) × List Char)
  | 0, _ => none
  | most + 1, cs =>
    match skipBlanks cs with
    | '"' :: rest => do
      let (name, rest) ← readInside [] rest
      match skipBlanks rest with
      | ':' :: rest => do
        let (value, rest) ← read rest
        match skipBlanks rest with
        | ',' :: rest => do
          let (members, rest) ← readMembers read most rest
          return ((name, value) :: members, rest)
        | '\x7d' :: rest => return ([(name, value)], rest)
        | _ => none
      | _ => none
    | _ => none

/-- A part and what follows it.  Nothing is more than `size` characters long, and
arrays and objects stand inside each other up to the given number of levels. -/
def readPart (size : Nat) : Nat → List Char → Option (Spelling × List Char)
  | levels, cs =>
    match skipBlanks cs with
    | 'n' :: 'u' :: 'l' :: 'l' :: rest => some (.null, rest)
    | 't' :: 'r' :: 'u' :: 'e' :: rest => some (.bool true, rest)
    | 'f' :: 'a' :: 'l' :: 's' :: 'e' :: rest => some (.bool false, rest)
    | '"' :: rest => do
      let (inside, rest) ← readInside [] rest
      return (.text inside, rest)
    | '[' :: rest =>
      match levels, skipBlanks rest with
      | 0, _ => none
      | _ + 1, ']' :: rest => some (.array [], rest)
      | levels + 1, rest => do
        let (elements, rest) ← readElements (readPart size levels) size rest
        return (.array elements, rest)
    | '\x7b' :: rest =>
      match levels, skipBlanks rest with
      | 0, _ => none
      | _ + 1, '\x7d' :: rest => some (.object [], rest)
      | levels + 1, rest => do
        let (members, rest) ← readMembers (readPart size levels) size rest
        return (.object members, rest)
    | rest => readNumber rest

/-- The document that a text spells, if it nests no deeper than so many levels. -/
def parse? (levels : Nat) (text : String) : Option Spelling :=
  let cs := text.toList
  match readPart cs.length levels cs with
  | some (spelling, rest) => if (skipBlanks rest).isEmpty then some spelling else none
  | none => none

end Spelling

end KeywordTable
