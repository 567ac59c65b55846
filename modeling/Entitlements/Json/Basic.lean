import Entitlements.Text.KeySet

/-! # JSON values

Values keep the entries of an object in the order in which they are written, repeated keys
included. A value of free form is canonical when the keys of every object in it are strictly
increasing and nothing in it is unreadable (`Json.Canonical`); `Json.canonical?` brings a value
into this form, the last value of a repeated key counting. -/

namespace Entitlements

/-- A JSON value. -/
inductive Json where
  | null
  | bool (b : Bool)
  /-- A whole number that fits into 64 bits, signed or unsigned. -/
  | int (n : Int)
  /-- Any other number, as the bits of a double. -/
  | float (bits : UInt64)
  | str (s : String)
  | arr (items : List Json)
  | obj (entries : List (String × Json))
  /-- A part of a text that may be skipped but not read: a string that names half of a surrogate
  pair, a number outside the range of doubles, a value nested too deep. -/
  | unreadable
  deriving Inhabited, Repr

namespace Json

/-! ### Equality -/

mutual

/-- Whether two values are equal. -/
def decEq : (a b : Json) → Decidable (a = b)
  | .null, b =>
    match b with
    | .null => isTrue rfl
    | .bool _ | .int _ | .float _ | .str _ | .arr _ | .obj _ | .unreadable => isFalse nofun
  | .bool x, b =>
    match b with
    | .bool y => decidable_of_iff (x = y) (by simp)
    | .null | .int _ | .float _ | .str _ | .arr _ | .obj _ | .unreadable => isFalse nofun
  | .int x, b =>
    match b with
    | .int y => decidable_of_iff (x = y) (by simp)
    | .null | .bool _ | .float _ | .str _ | .arr _ | .obj _ | .unreadable => isFalse nofun
  | .float x, b =>
    match b with
    | .float y => decidable_of_iff (x = y) (by simp)
    | .null | .bool _ | .int _ | .str _ | .arr _ | .obj _ | .unreadable => isFalse nofun
  | .str x, b =>
    match b with
    | .str y => decidable_of_iff (x = y) (by simp)
    | .null | .bool _ | .int _ | .float _ | .arr _ | .obj _ | .unreadable => isFalse nofun
  | .arr xs, b =>
    match b with
    | .arr ys =>
      match decEqItems xs ys with
      | isTrue h => isTrue (by rw [h])
      | isFalse h => isFalse (by simpa using h)
    | .null | .bool _ | .int _ | .float _ | .str _ | .obj _ | .unreadable => isFalse nofun
  | .obj xs, b =>
    match b with
    | .obj ys =>
      match decEqEntries xs ys with
      | isTrue h => isTrue (by rw [h])
      | isFalse h => isFalse (by simpa using h)
    | .null | .bool _ | .int _ | .float _ | .str _ | .arr _ | .unreadable => isFalse nofun
  | .unreadable, b =>
    match b with
    | .unreadable => isTrue rfl
    | .null | .bool _ | .int _ | .float _ | .str _ | .arr _ | .obj _ => isFalse nofun

/-- Whether two lists of values are equal. -/
def decEqItems : (xs ys : List Json) → Decidable (xs = ys)
  | [], [] => isTrue rfl
  | [], _ :: _ => isFalse nofun
  | _ :: _, [] => isFalse nofun
  | x :: xs, y :: ys =>
    match decEq x y with
    | isFalse h => isFalse (by simp [h])
    | isTrue h =>
      match decEqItems xs ys with
      | isTrue h' => isTrue (by rw [h, h'])
      | isFalse h' => isFalse (by simp [h'])

/-- Whether two lists of entries are equal. -/
def decEqEntries : (xs ys : List (String × Json)) → Decidable (xs = ys)
  | [], [] => isTrue rfl
  | [], _ :: _ => isFalse nofun
  | _ :: _, [] => isFalse nofun
  | (k, x) :: xs, (l, y) :: ys =>
    match decEq x y with
    | isFalse h => isFalse (by simp [h])
    | isTrue h =>
      match decEqEntries xs ys with
      | isFalse h' => isFalse (by simp [h'])
      | isTrue h' =>
        if hk : k = l then isTrue (by rw [h, h', hk]) else isFalse (by simp [hk])

end

instance : DecidableEq Json := decEq

/-! ### Canonical form -/

mutual

/-- The canonical form of a value, unless a part of it is unreadable. -/
def canonical? : Json → Option Json
  | .null => some .null
  | .bool b => some (.bool b)
  | .int n => some (.int n)
  | .float bits => some (.float bits)
  | .str s => some (.str s)
  | .arr items => (canonicalItems? items).map .arr
  | .obj entries => (canonicalEntries? entries).map fun es => .obj (sortEntries es)
  | .unreadable => none

/-- The canonical forms of the values of a list. -/
def canonicalItems? : List Json → Option (List Json)
  | [] => some []
  | j :: js => do return (← canonical? j) :: (← canonicalItems? js)

/-- The entries with the canonical forms of their values. -/
def canonicalEntries? : List (String × Json) → Option (List (String × Json))
  | [] => some []
  | (k, j) :: es => do return (k, ← canonical? j) :: (← canonicalEntries? es)

end

/-- Whether a value is in canonical form. -/
def Canonical (j : Json) : Prop := canonical? j = some j

instance (j : Json) : Decidable j.Canonical := inferInstanceAs (Decidable (_ = _))

end Json

end Entitlements
