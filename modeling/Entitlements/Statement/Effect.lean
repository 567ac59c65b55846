import Entitlements.Text.LetterCase

/-! # Effects

The keyword that opens a clause: it grants the clause's actions or denies them. Denials are parsed
and reported, but no analysis subtracts them from the grants. -/

namespace Entitlements

/-- What a clause does with its actions. -/
inductive Effect where
  | allow
  | deny
  deriving DecidableEq, Repr

namespace Effect

/-- The keyword, in capitals. -/
def keyword : Effect → String
  | allow => "ALLOW"
  | deny => "DENY"

/-- The effect with this keyword, in any letter case. No letter outside ASCII is the lower case of
a letter of either keyword. -/
def ofKeyword? (s : String) : Option Effect :=
  if sameLetters s "ALLOW" then some allow
  else if sameLetters s "DENY" then some deny
  else none

/-- The effect whose keyword is exactly `s`. -/
def ofName? (s : String) : Option Effect :=
  if s = "ALLOW" then some allow else if s = "DENY" then some deny else none

/-- Whether the effect grants. -/
def isAllow : Effect → Bool
  | allow => true
  | deny => false

theorem isAllow_iff {e : Effect} : e.isAllow = true ↔ e = allow := by cases e <;> decide

theorem ofKeyword?_keyword (e : Effect) : ofKeyword? e.keyword = some e := by
  cases e <;> decide +kernel

theorem ofName?_keyword (e : Effect) : ofName? e.keyword = some e := by
  cases e <;> decide

end Effect

end Entitlements
