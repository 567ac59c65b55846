/-! # UTF-8

Bytes as text. `decodeUtf8` gives a character for every well-formed sequence and a gap for every
longest part of a sequence that is broken off; text is read strictly, without gaps, or with U+FFFD
in their place. -/

namespace Entitlements

/-- Whether a byte continues a sequence. -/
def isTail (b : UInt8) : Bool := 0x80 ≤ b && b ≤ 0xBF

/-- The character of the sequence that starts with `b`, and how many of the following bytes belong
to it; no character for a sequence that is broken off. -/
def takeSequence (b : UInt8) (rest : List UInt8) : Option Char × Nat :=
  let bits := fun (x : UInt8) => x.toNat % 64
  if b < 0x80 then (some (Char.ofNat b.toNat), 0)
  else if 0xC2 ≤ b && b ≤ 0xDF then
    match rest with
    | x :: _ => if isTail x then (some (Char.ofNat (b.toNat % 32 * 64 + bits x)), 1) else (none, 0)
    | [] => (none, 0)
  else if 0xE0 ≤ b && b ≤ 0xEF then
    match rest with
    | x :: rest =>
      if isTail x && (b != 0xE0 || 0xA0 ≤ x) && (b != 0xED || x ≤ 0x9F) then
        match rest with
        | y :: _ =>
          if isTail y then (some (Char.ofNat ((b.toNat % 16 * 64 + bits x) * 64 + bits y)), 2)
          else (none, 1)
        | [] => (none, 1)
      else (none, 0)
    | [] => (none, 0)
  else if 0xF0 ≤ b && b ≤ 0xF4 then
    match rest with
    | x :: rest =>
      if isTail x && (b != 0xF0 || 0x90 ≤ x) && (b != 0xF4 || x ≤ 0x8F) then
        match rest with
        | y :: rest =>
          if isTail y then
            match rest with
            | z :: _ =>
              if isTail z then
                (some (Char.ofNat (((b.toNat % 8 * 64 + bits x) * 64 + bits y) * 64 + bits z)), 3)
              else (none, 2)
            | [] => (none, 2)
          else (none, 1)
        | [] => (none, 1)
      else (none, 0)
    | [] => (none, 0)
  else (none, 0)

/-- The characters of the bytes, with a gap for every sequence that is broken off. -/
def decodeUtf8 : List UInt8 → List (Option Char)
  | [] => []
  | b :: rest =>
    let (c, n) := takeSequence b rest
    c :: decodeUtf8 (rest.drop n)
  termination_by bs => bs.length
  decreasing_by simp only [List.length_drop, List.length_cons]; omega

/-- The text of well-formed bytes. -/
def textOfBytes? (bs : List UInt8) : Option String := ((decodeUtf8 bs).mapM id).map String.ofList

/-- The text of the bytes, with U+FFFD in the gaps. -/
def textOfBytes (bs : List UInt8) : String :=
  .ofList ((decodeUtf8 bs).map fun c => c.getD '\ufffd')

/-- The bytes behind a byte order mark, if there is one. -/
def dropMark : List UInt8 → List UInt8
  | 0xEF :: 0xBB :: 0xBF :: bs => bs
  | bs => bs

/-- The bytes of a text. -/
def bytesOfText (s : String) : List UInt8 := s.toList.flatMap String.utf8EncodeChar

end Entitlements
