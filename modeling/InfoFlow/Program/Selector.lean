import InfoFlow.Decimal.Reader
import InfoFlow.Text.Properties

namespace InfoFlow

/-- The name of a variable, or one of its elements, as in `name[3]`. -/
structure Selector where
  name : String
  index : Option Nat
  deriving Repr, DecidableEq

namespace Selector

def isNameStart (c : Char) : Bool := Text.isAlphabetic c || c == '_'

def isNamePart (c : Char) : Bool := Text.isAlphanumeric c || c == '_' || c == '.'

/-- A letter or an underscore, and then letters, digits, underscores and points, in any script. -/
def isName : List Char → Bool
  | [] => false
  | c :: cs => isNameStart c && cs.all isNamePart

/-- A natural number that fits in a word: ASCII digits, after a plus sign or none. -/
def readIndex? (cs : List Char) : Option Nat := do
  let n ← Decimal.readDigits? (match cs with
    | '+' :: rest => rest
    | cs => cs)
  if n < UInt64.size then some n else none

/-- The text without a closing bracket at its end. -/
def withoutBracket? (cs : List Char) : Option (List Char) :=
  if cs.getLast? = some ']' then some cs.dropLast else none

/-- Reads a selector from its characters. -/
def ofChars? (cs : List Char) : Option (List Char × Option Nat) :=
  let name := cs.takeWhile (· != '[')
  match cs.dropWhile (· != '[') with
  | [] => if isName name then some (name, none) else none
  | _ :: rest => do
    let index ← readIndex? (Text.trim (← withoutBracket? rest))
    if isName name then some (name, some index) else none

/-- Reads a selector; `none` for anything else. -/
def parse? (s : String) : Option Selector :=
  (ofChars? s.toList).map fun (name, index) => ⟨String.ofList name, index⟩

end Selector

end InfoFlow
