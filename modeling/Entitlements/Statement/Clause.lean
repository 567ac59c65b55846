import Entitlements.Text.Blank
import Entitlements.Statement.Basic

/-! # Clauses

A statement is cut at `;` into clauses, and a clause reads

    (ALLOW | DENY) item [, item ...] [WHERE conditions]

with the keywords in any letter case. The items are the longest comma-separated run that starts
after the effect; text after it that is not a `WHERE` part is left aside. A piece that does not
start this way is no clause and declares nothing (`parseStatement`). -/

namespace Entitlements

/-- Whether `c` can stand in an item: it is neither blank nor a comma. -/
def isItemChar (c : Char) : Bool := !isBlank c && c != ','

/-- The item at the start of a text, possibly empty, and what follows it. -/
def takeItem (cs : List Char) : List Char × List Char :=
  (cs.takeWhile isItemChar, cs.dropWhile isItemChar)

/-- The next item behind a comma, with blanks on either side of the comma, and what follows it. -/
def nextItem? (cs : List Char) : Option (List Char × List Char) :=
  match dropBlanks cs with
  | ',' :: rest =>
    match takeItem (dropBlanks rest) with
    | ([], _) => none
    | taken => some taken
  | _ => none

theorem length_of_nextItem? {cs item rest : List Char} (h : nextItem? cs = some (item, rest)) :
    rest.length < cs.length := by
  have hcs := dropBlanks_length_le cs
  unfold nextItem? at h
  split at h
  · next rest' heq =>
    have h1 := dropBlanks_length_le rest'
    have h2 := (List.dropWhile_suffix isItemChar (l := dropBlanks rest')).length_le
    rw [heq, List.length_cons] at hcs
    split at h
    · simp at h
    · simp only [takeItem, Option.some.injEq, Prod.mk.injEq] at h
      rw [← h.2]
      omega
  · simp at h

/-- The items that follow a first one, as many as there are, and the text after the last. -/
def moreItems (cs : List Char) : List (List Char) × List Char :=
  match _h : nextItem? cs with
  | none => ([], cs)
  | some (item, rest) => (item :: (moreItems rest).1, (moreItems rest).2)
  termination_by cs.length
  decreasing_by all_goals exact length_of_nextItem? _h

/-- A comma-separated run of items and the text after it. -/
def takeItems? (cs : List Char) : Option (List (List Char) × List Char) :=
  match takeItem cs with
  | ([], _) => none
  | (item, rest) => some (item :: (moreItems rest).1, (moreItems rest).2)

/-- What follows `word`, in any letter case, and at least one blank. -/
def afterWord? (word cs : List Char) : Option (List Char) :=
  match stripWord? word cs with
  | some (c :: rest) => if isBlank c then some (dropBlanks rest) else none
  | _ => none

/-- The effect at the start of a clause, and the text from the first item on. -/
def takeEffect? (cs : List Char) : Option (Effect × List Char) :=
  match afterWord? Effect.allow.keyword.toList cs with
  | some rest => some (.allow, rest)
  | none =>
    match afterWord? Effect.deny.keyword.toList cs with
    | some rest => some (.deny, rest)
    | none => none

/-- The conditions of a `WHERE` part at the start of a text. -/
def takeConditions? (cs : List Char) : Option (List Char) :=
  match afterWord? "WHERE".toList cs with
  | some [] => none
  | some conditions => some (dropBlanksEnd conditions)
  | none => none

/-- One clause: the effect, the actions in order, and the conditions they share. -/
structure Clause where
  effect : Effect
  actions : List String
  conditions : Option String
  deriving DecidableEq, Repr

namespace Clause

/-- The clause at the start of a piece without blanks around it. -/
def parse? (cs : List Char) : Option Clause := do
  let (effect, rest) ← takeEffect? cs
  let (items, rest) ← takeItems? rest
  return ⟨effect, items.map String.ofList, (takeConditions? (dropBlanks rest)).map String.ofList⟩

/-- One declaration for each action. -/
def declarations (c : Clause) : List PermissionStatement :=
  c.actions.map fun action => .declare c.effect action c.conditions

end Clause

/-- The clauses of a statement, in order; pieces that are no clause are skipped. -/
def parseClauses (statement : String) : List Clause :=
  (splitOn ';' statement.toList).filterMap fun piece => Clause.parse? (trim piece)

/-- The permissions a statement declares: one for each action of each clause, in order and with
repetitions. -/
def parseStatement (statement : String) : List PermissionStatement :=
  (parseClauses statement).flatMap Clause.declarations

end Entitlements
