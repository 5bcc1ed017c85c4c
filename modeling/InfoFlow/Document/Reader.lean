import InfoFlow.Document.Basic

namespace InfoFlow.Document

def isBlank (c : Char) : Bool := c == ' ' || c == '\t' || c == '\n' || c == '\r'

def skipBlanks (cs : List Char) : List Char := cs.dropWhile isBlank

def hexDigit? (c : Char) : Option Nat :=
  if c.isDigit then some (c.toNat - '0'.toNat)
  else if 'a' ≤ c && c ≤ 'f' then some (c.toNat - 'a'.toNat + 10)
  else if 'A' ≤ c && c ≤ 'F' then some (c.toNat - 'A'.toNat + 10)
  else none

/-- Four hexadecimal digits. -/
def readUnit? : List Char → Option (Nat × List Char)
  | a :: b :: c :: d :: rest => do
    let digits ← [a, b, c, d].mapM hexDigit?
    return (digits.foldl (fun n digit => 16 * n + digit) 0, rest)
  | _ => none

/-- The character of an escape by number; one beyond the first `2 ^ 16` is written as a pair. -/
def readEscapedUnit? (cs : List Char) : Option (Char × List Char) := do
  let (high, rest) ← readUnit? cs
  if high < 0xD800 || 0xE000 ≤ high then return (Char.ofNat high, rest)
  else if 0xDC00 ≤ high then none
  else match rest with
    | '\\' :: 'u' :: rest => do
      let (low, rest) ← readUnit? rest
      if 0xDC00 ≤ low && low < 0xE000 then
        return (Char.ofNat (0x10000 + (high - 0xD800) * 0x400 + (low - 0xDC00)), rest)
      else none
    | _ => none

/-- The character of an escape, after its backslash. -/
def readEscape? : List Char → Option (Char × List Char)
  | 'u' :: rest => readEscapedUnit? rest
  | c :: rest =>
    let plain := [('"', '"'), ('\\', '\\'), ('/', '/'), ('b', '\x08'), ('f', '\x0c'),
      ('n', '\n'), ('r', '\r'), ('t', '\t')]
    (plain.lookup c).map (·, rest)
  | [] => none

/-- The characters of a text, after its opening quote; `read` are those so far, latest first. -/
def readText? (read : List Char) : Nat → List Char → Option (String × List Char)
  | _, '"' :: rest => some (String.ofList read.reverse, rest)
  | fuel + 1, '\\' :: rest => do
    let (c, rest) ← readEscape? rest
    readText? (c :: read) fuel rest
  | fuel + 1, c :: rest => if c.toNat < 32 then none else readText? (c :: read) fuel rest
  | _, _ => none

/-- At least one digit. -/
def readDigits? (cs : List Char) : Option (List Char × List Char) :=
  let digits := cs.takeWhile Char.isDigit
  if digits.isEmpty then none else some (digits, cs.dropWhile Char.isDigit)

/-- Digits without a superfluous zero in front. -/
def readWhole? : List Char → Option (List Char × List Char)
  | '0' :: rest => some (['0'], rest)
  | cs => readDigits? cs

/-- A fraction, if there is a point. -/
def readFraction? : List Char → Option (List Char × List Char)
  | '.' :: rest => (readDigits? rest).map fun (digits, rest) => ('.' :: digits, rest)
  | cs => some ([], cs)

/-- An exponent, if there is a mark. -/
def readExponent? : List Char → Option (List Char × List Char)
  | c :: rest =>
    if c == 'e' || c == 'E' then
      let sign := rest.takeWhile fun c => c == '+' || c == '-'
      if 1 < sign.length then none
      else (readDigits? (rest.drop sign.length)).map fun (digits, rest) =>
        (c :: (sign ++ digits), rest)
    else some ([], c :: rest)
  | [] => some ([], [])

/-- The spelling of a number. -/
def readNumber? (cs : List Char) : Option (String × List Char) := do
  let sign := if cs.head? = some '-' then ['-'] else []
  let (whole, rest) ← readWhole? (cs.drop sign.length)
  let (fraction, rest) ← readFraction? rest
  let (exponent, rest) ← readExponent? rest
  return (String.ofList (sign ++ whole ++ fraction ++ exponent), rest)

/-- A word of the notation that stands for a value. -/
def readWord? (cs : List Char) : Option (Document × List Char) :=
  [("true", bool true), ("false", bool false), ("null", null)].findSome? fun (word, value) =>
    if word.toList.isPrefixOf cs then some (value, cs.drop word.length) else none

mutual

/-- A value, after blanks. The number bounds the depth of nested values; the length of the text is
enough. -/
def readValue? : Nat → List Char → Option (Document × List Char)
  | 0, _ => none
  | fuel + 1, cs =>
    match skipBlanks cs with
    | '\x7b' :: rest =>
      match skipBlanks rest with
      | '\x7d' :: rest => some (record [], rest)
      | rest => readFields? fuel rest
    | '[' :: rest =>
      match skipBlanks rest with
      | ']' :: rest => some (list [], rest)
      | rest => readItems? fuel rest
    | '"' :: rest => (readText? [] rest.length rest).map fun (s, rest) => (text s, rest)
    | cs =>
      match readWord? cs with
      | some read => some read
      | none => (readNumber? cs).map fun (spelling, rest) => (number spelling, rest)

/-- The items of a list up to its end; there is at least one. -/
def readItems? : Nat → List Char → Option (Document × List Char)
  | 0, _ => none
  | fuel + 1, cs => do
    let (item, rest) ← readValue? fuel cs
    match skipBlanks rest with
    | ',' :: rest =>
      match ← readItems? fuel rest with
      | (list items, rest) => return (list (item :: items), rest)
      | _ => none
    | ']' :: rest => return (list [item], rest)
    | _ => none

/-- The fields of a record up to its end; there is at least one. -/
def readFields? : Nat → List Char → Option (Document × List Char)
  | 0, _ => none
  | fuel + 1, cs => do
    match skipBlanks cs with
    | '"' :: rest =>
      let (name, rest) ← readText? [] rest.length rest
      match skipBlanks rest with
      | ':' :: rest =>
        let (value, rest) ← readValue? fuel rest
        match skipBlanks rest with
        | ',' :: rest =>
          match ← readFields? fuel rest with
          | (record fields, rest) => return (record ((name, value) :: fields), rest)
          | _ => none
        | '\x7d' :: rest => return (record [(name, value)], rest)
        | _ => none
      | _ => none
    | _ => none

end

/-- Reads a document that takes up the whole text. -/
def parse? (s : String) : Option Document := do
  let cs := s.toList
  let (d, rest) ← readValue? (cs.length + 1) cs
  if (skipBlanks rest).isEmpty then some d else none

end InfoFlow.Document
