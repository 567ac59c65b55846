import Entitlements.Json.Parser
import Entitlements.Text.Utf8

/-! # Percent-encoding

Characters that may not stand in an address are written as their bytes, each as a `%` and two
digits (`encodeWhere`); a `%` that is already there stays. Reading takes every `%` with two digits
for a byte (`percentDecode`). -/

namespace Entitlements

/-- The digits of percent-encoded bytes. -/
def upperHexDigit (n : Nat) : Char := "0123456789ABCDEF".toList.getD n '0'

/-- The percent-encoded bytes of a character. -/
def percentEncode (c : Char) : List Char :=
  (String.utf8EncodeChar c).flatMap fun b =>
    ['%', upperHexDigit (b.toNat / 16), upperHexDigit (b.toNat % 16)]

/-- The text with the characters percent-encoded for which `p` holds. -/
def encodeWhere (p : Char → Bool) (cs : List Char) : List Char :=
  cs.flatMap fun c => if p c then percentEncode c else [c]

/-- Whether a character is a control or stands outside ASCII. -/
def isControlOrBeyond (c : Char) : Bool := c.toNat < 0x20 || 0x7E < c.toNat

/-- Whether a character is encoded in a path. -/
def isEncodedInPath (c : Char) : Bool :=
  isControlOrBeyond c || [' ', '"', '<', '>', '\x60', '\x7b', '\x7d'].contains c

/-- Whether a character is encoded in a query. -/
def isEncodedInQuery (c : Char) : Bool :=
  isControlOrBeyond c || [' ', '"', '<', '>', '\x27'].contains c

/-- A character of a form field: a space is a plus, and only letters, digits and `*-._` stay. -/
def encodeFormChar (c : Char) : List Char :=
  if c = ' ' then ['+']
  else if c.isAlphanum || ['*', '-', '.', '_'].contains c then [c]
  else percentEncode c

/-- The fields of a form, in order. -/
def encodeForm (fields : List (String × String)) : List Char :=
  ['&'].intercalate (fields.map fun f =>
    f.1.toList.flatMap encodeFormChar ++ '=' :: f.2.toList.flatMap encodeFormChar)

/-- The bytes of a text; a `%` and two hexadecimal digits stand for one byte. -/
def percentDecode : List Char → List UInt8
  | '%' :: a :: b :: cs =>
    match Json.hexValue? a, Json.hexValue? b with
    | some high, some low => UInt8.ofNat (high * 16 + low) :: percentDecode cs
    | _, _ => String.utf8EncodeChar '%' ++ percentDecode (a :: b :: cs)
  | c :: cs => String.utf8EncodeChar c ++ percentDecode cs
  | [] => []

end Entitlements
