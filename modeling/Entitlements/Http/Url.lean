import Entitlements.Http.Host
import Entitlements.Text.LetterCase

/-! # Addresses

Reading the address of a resource the way browsers do (`Url.parse?`), as far as addresses with the
schemes `http` and `https` go, and the target that a request for it names (`Url.target`). A name and
a password in the address are no part of it; they are read by `Url.credentials?`. -/

namespace Entitlements

/-- A server: scheme, host and port. -/
structure Origin where
  /-- Whether the scheme is `https`. -/
  secure : Bool
  host : String
  port : Nat
  deriving DecidableEq, Repr

/-- The port of a scheme that need not be named. -/
def standardPort (secure : Bool) : Nat := if secure then 443 else 80

/-- The address of a resource, its parts in the form in which they are sent. -/
structure Url where
  origin : Origin
  /-- What stands between the slashes of the path. -/
  segments : List (List Char)
  query : Option (List Char)
  deriving DecidableEq, Repr

/-! ### Paths -/

/-- Whether a segment is a single dot. -/
def isDot (segment : List Char) : Bool :=
  [".", "%2e"].contains (String.ofList (segment.map Char.toLower))

/-- Whether a segment is two dots. -/
def isDoubleDot (segment : List Char) : Bool :=
  ["..", ".%2e", "%2e.", "%2e%2e"].contains (String.ofList (segment.map Char.toLower))

/-- The path behind the segments `done`, the last one first: a dot stays where it is, and two dots
go back by one. -/
def resolveFrom (done : List (List Char)) : List (List Char) → List (List Char)
  | [] => done.reverse
  | [segment] =>
    if isDoubleDot segment then ([] :: done.tail).reverse
    else if isDot segment then ([] :: done).reverse
    else (encodeWhere isEncodedInPath segment :: done).reverse
  | segment :: rest =>
    if isDoubleDot segment then resolveFrom done.tail rest
    else if isDot segment then resolveFrom done rest
    else resolveFrom (encodeWhere isEncodedInPath segment :: done) rest

/-- The segments of a path's text; a backslash separates them like a slash. -/
def resolvePath (cs : List Char) : List (List Char) :=
  resolveFrom [] (splitOn '/' ((cs.map fun c => if c = '\\' then '/' else c).drop 1))

/-! ### Parts of an address -/

/-- The text without controls and spaces at its ends, and without tabs and line ends. -/
def cleanAddress (cs : List Char) : List Char :=
  let isEnd := fun (c : Char) => c.toNat ≤ 0x20
  (((cs.dropWhile isEnd).reverse.dropWhile isEnd).reverse).filter fun c =>
    c != '\t' && c != '\n' && c != '\r'

/-- Whether a character is a slash of either kind. -/
def isSlash (c : Char) : Bool := c = '/' || c = '\\'

/-- Whether a character ends the name of a server. -/
def endsServer (c : Char) : Bool := c = '/' || c = '\\' || c = '?' || c = '#'

/-- Whether an address starts with a scheme that is served, what is the rest, and whether the
scheme is `https`. -/
def takeScheme? (cs : List Char) : Option (Bool × List Char) :=
  match stripWord? "http:".toList cs with
  | some rest => some (false, rest)
  | none => (stripWord? "https:".toList cs).map fun rest => (true, rest)

/-- Whether the scheme is `https`, and what follows the scheme and its slashes. -/
def takeServer? (cs : List Char) : Option (Bool × List Char) :=
  (takeScheme? cs).map fun found => (found.1, found.2.dropWhile isSlash)

/-- The text behind its last `@`, which ends the name of a user; all of it if there is none. -/
def dropUser (cs : List Char) : List Char := (cs.reverse.takeWhile (· != '@')).reverse

/-- The text in front of its last `@`; none of it if there is no `@`. -/
def takeUser (cs : List Char) : List Char := ((cs.reverse.dropWhile (· != '@')).drop 1).reverse

/-- The host of a server, and its port behind a colon; inside brackets, a colon is part of the
host. -/
def cutPort (inBrackets : Bool) : List Char → List Char × List Char
  | [] => ([], [])
  | c :: cs =>
    if c = ':' && !inBrackets then ([], cs)
    else
      let (host, port) := cutPort (c = '[' || (inBrackets && c != ']')) cs
      (c :: host, port)

/-- The server of a host with or without a port; a user named in front of it is left out. -/
def originOf? (names : AsciiNames) (secure : Bool) (cs : List Char) : Option Origin := do
  let (host, digits) := cutPort false (dropUser cs)
  let host ← hostOf? names host
  let port := natOfDigits digits
  if !digits.all Char.isDigit || 65535 < port then none
  else some ⟨secure, host, if digits.isEmpty then standardPort secure else port⟩

/-- The name and the password in front of a server, each percent-encoded. -/
def credentialsOf? (cs : List Char) : Option (String × String) := do
  let user := takeUser cs
  let name ← textOfBytes? (percentDecode (user.takeWhile (· != ':')))
  let password := textOfBytes? (percentDecode ((user.dropWhile (· != ':')).drop 1))
  if name.isEmpty && password.all (·.isEmpty) then none else some (name, password.getD "")

namespace Url

/-- The query of a resource, if it has one. -/
def queryOf (resource : List Char) : Option (List Char) :=
  match resource.dropWhile (· != '?') with
  | [] => none
  | _ :: query => some (encodeWhere isEncodedInQuery query)

/-- The address of a resource at a server, by the text of its path and query. -/
def ofResource (origin : Origin) (cs : List Char) : Url :=
  let resource := cs.takeWhile (· != '#')
  ⟨origin, resolvePath (resource.takeWhile (· != '?')), queryOf resource⟩

/-- The address that a text stands for. -/
def parse? (names : AsciiNames) (s : String) : Option Url := do
  let (secure, rest) ← takeServer? (cleanAddress s.toList)
  let origin ← originOf? names secure (rest.takeWhile (!endsServer ·))
  return ofResource origin (rest.dropWhile (!endsServer ·))

/-- The name and the password in the text of an address. -/
def credentials? (s : String) : Option (String × String) := do
  let (_, rest) ← takeServer? (cleanAddress s.toList)
  credentialsOf? (rest.takeWhile (!endsServer ·))

/-- The address with further fields in its query; an empty query is left out. -/
def withFields (u : Url) (fields : List (String × String)) : Url :=
  let query := u.query.getD []
  let query :=
    if fields.isEmpty then query
    else if query.isEmpty then encodeForm fields
    else query ++ '&' :: encodeForm fields
  { u with query := if query.isEmpty then none else some query }

/-- The path of the address. -/
def path (u : Url) : List Char := '/' :: ['/'].intercalate u.segments

/-- What a request for the address names: path and query. -/
def target (u : Url) : String :=
  .ofList (u.path ++ u.query.elim [] ('?' :: ·))

/-- The text of the address. -/
def text (u : Url) : String :=
  (if u.origin.secure then "https://" else "http://") ++ u.origin.host
    ++ (if u.origin.port = standardPort u.origin.secure then "" else ":" ++ toString u.origin.port)
    ++ u.target

end Url

end Entitlements
