import SatSearch.Json.Value
/-!
# Writing JSON

The compact form has no blanks at all. The indented form puts every item and member on a line of its
own, two blanks further in than what it belongs to. In strings only quotes, backslashes and control
characters are escaped.
-/

namespace SatSearch

namespace Json

def hexDigit (n : Nat) : Char := if n < 10 then Char.ofNat (48 + n) else Char.ofNat (87 + n)

/-- A character as it stands between quotes. -/
def escape (c : Char) : List Char :=
  match c with
  | '"' => ['\\', '"']
  | '\\' => ['\\', '\\']
  | '\n' => ['\\', 'n']
  | '\r' => ['\\', 'r']
  | '\t' => ['\\', 't']
  | '\x08' => ['\\', 'b']
  | '\x0c' => ['\\', 'f']
  | c =>
    if c.toNat < 32 then
      ['\\', 'u', '0', '0', hexDigit (c.toNat / 16), hexDigit (c.toNat % 16)]
    else [c]

def quote (cs : List Char) : List Char := '"' :: cs.flatMap escape ++ ['"']

/-- A string; one without characters is written as an empty one. -/
def quoteText (text : Option String) : List Char := quote (text.getD "").toList

mutual

/-- The compact form. -/
def render : Value → List Char
  | .null => "null".toList
  | .bool true => "true".toList
  | .bool false => "false".toList
  | .number spelling => spelling
  | .string text => quoteText text
  | .array items => '[' :: renderItems items
  | .object members => '\x7b' :: renderMembers members

/-- The items, each with a comma before it unless it is the first, and the closing bracket. -/
def renderItems : List Value → List Char
  | [] => [']']
  | v :: vs => render v ++ renderMoreItems vs

def renderMoreItems : List Value → List Char
  | [] => [']']
  | v :: vs => ',' :: (render v ++ renderMoreItems vs)

def renderMembers : List (Option String × Value) → List Char
  | [] => ['\x7d']
  | (key, v) :: ms => quoteText key ++ ':' :: (render v ++ renderMoreMembers ms)

def renderMoreMembers : List (Option String × Value) → List Char
  | [] => ['\x7d']
  | (key, v) :: ms => ',' :: (quoteText key ++ ':' :: (render v ++ renderMoreMembers ms))

end

/-- The compact text of a value. -/
def Value.text (v : Value) : String := String.ofList (render v)

/-- A line end and the blanks in front of something at the given depth. -/
def lineAt (depth : Nat) : List Char := '\n' :: List.replicate (2 * depth) ' '

mutual

/-- The indented form of a value that stands at the given depth. -/
def renderIndented (depth : Nat) : Value → List Char
  | .array (v :: vs) => '[' :: renderIndentedItems (depth + 1) (v :: vs) ++ lineAt depth ++ [']']
  | .object (m :: ms) =>
    '\x7b' :: renderIndentedMembers (depth + 1) (m :: ms) ++ lineAt depth ++ ['\x7d']
  | v => render v

def renderIndentedItems (depth : Nat) : List Value → List Char
  | [] => []
  | [v] => lineAt depth ++ renderIndented depth v
  | v :: w :: vs =>
    lineAt depth ++ renderIndented depth v ++ ',' :: renderIndentedItems depth (w :: vs)

def renderIndentedMembers (depth : Nat) : List (Option String × Value) → List Char
  | [] => []
  | [(key, v)] => lineAt depth ++ quoteText key ++ ':' :: ' ' :: renderIndented depth v
  | (key, v) :: m :: ms =>
    lineAt depth ++ quoteText key ++ ':' :: ' ' :: renderIndented depth v
      ++ ',' :: renderIndentedMembers depth (m :: ms)

end

/-- The indented text of a value. -/
def Value.indentedText (v : Value) : String := String.ofList (renderIndented 0 v)

end Json

end SatSearch
