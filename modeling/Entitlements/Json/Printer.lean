import Entitlements.Json.Basic
import Entitlements.Json.Decimal

/-! # Writing JSON

`Json.render` gives the compact text of a value, entries in their order. Inside a string the quote,
the backslash and the characters below the space are escaped, by letter where JSON has one; every
other character is written as it is. -/

namespace Entitlements

namespace Json

/-- The digits of hexadecimal numbers. -/
def hexDigit (n : Nat) : Char := "0123456789abcdef".toList.getD n '0'

/-- How a character is written inside a string. -/
def escapeChar (c : Char) : List Char :=
  if c = '"' then ['\\', '"']
  else if c = '\\' then ['\\', '\\']
  else if c = '\x08' then ['\\', 'b']
  else if c = '\x0c' then ['\\', 'f']
  else if c = '\n' then ['\\', 'n']
  else if c = '\r' then ['\\', 'r']
  else if c = '\t' then ['\\', 't']
  else if c.toNat < 0x20 then
    ['\\', 'u', '0', '0', hexDigit (c.toNat / 16), hexDigit (c.toNat % 16)]
  else [c]

/-- A string between quotes. -/
def renderString (s : String) : List Char := '"' :: (s.toList.flatMap escapeChar ++ ['"'])

mutual

/-- The characters of a value's text. -/
def renderChars : Json → List Char
  | .null | .unreadable => "null".toList
  | .bool true => "true".toList
  | .bool false => "false".toList
  | .int n => (toString n).toList
  | .float bits => (Double.text bits).toList
  | .str s => renderString s
  | .arr [] => ['[', ']']
  | .arr (j :: js) => '[' :: (renderChars j ++ renderItems js)
  | .obj [] => ['\x7b', '\x7d']
  | .obj ((k, j) :: es) => '\x7b' :: (renderString k ++ ':' :: (renderChars j ++ renderEntries es))

/-- The further items of an array, and its end. -/
def renderItems : List Json → List Char
  | [] => [']']
  | j :: js => ',' :: (renderChars j ++ renderItems js)

/-- The further entries of an object, and its end. -/
def renderEntries : List (String × Json) → List Char
  | [] => ['\x7d']
  | (k, j) :: es => ',' :: (renderString k ++ ':' :: (renderChars j ++ renderEntries es))

end

/-- The compact text of a value. -/
def render (j : Json) : String := String.ofList (renderChars j)

end Json

end Entitlements
