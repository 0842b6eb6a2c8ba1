import Switchboard.Text.Blank
import Switchboard.Url.Host

/-!
# URLs

The absolute URLs of endpoints, read as browsers read them: blanks around the
text do not count, a scheme that the web knows has a host, and its path is
normalized.

## Main definitions

* `Url` — the parts of a URL.
* `Url.ofChars?` — the URL that a text spells.
* `Url.isHttp`, `Url.target`, `Url.authority` — what a request needs of it.
-/

namespace Switchboard

/-- The parts of a URL.  A fragment is never sent and is left out. -/
structure Url where
  /-- The scheme, in lower case. -/
  scheme : String
  /-- The name and the password in front of the host, as they are written. -/
  credentials : Option (List Char)
  /-- The host, if there is one. -/
  host : Option Url.Host
  /-- The port, if it is not the scheme's own. -/
  port : Option Nat
  /-- The path. -/
  path : List Char
  /-- The query, if there is one. -/
  query : Option (List Char)
  deriving DecidableEq, Repr, Inhabited

namespace Url

/-! ### Schemes -/

/-- The schemes that the web knows, with their ports. -/
def specialPorts : List (String × Option Nat) :=
  [("http", some 80), ("https", some 443), ("ws", some 80), ("wss", some 443),
   ("ftp", some 21), ("file", none)]

/-- Whether the web knows a scheme. -/
def isSpecial (scheme : String) : Bool := (specialPorts.lookup scheme).isSome

/-- The port that a scheme uses when none is given. -/
def defaultPort (scheme : String) : Option Nat := (specialPorts.lookup scheme).join

/-- A character of a scheme after its first. -/
def isSchemeChar (c : Char) : Bool :=
  Text.Ascii.isAlphanumeric c || c = '+' || c = '-' || c = '.'

/-- The scheme in front of a colon, and what follows the colon. -/
def scheme? (cs : List Char) : Option (String × List Char) :=
  match cs with
  | [] => none
  | c :: _ =>
    if Text.Ascii.isLetter c then
      match cs.dropWhile isSchemeChar with
      | ':' :: rest =>
        some (String.ofList ((cs.takeWhile isSchemeChar).map Text.Ascii.lowerChar), rest)
      | _ => none
    else none

/-! ### Paths and queries -/

/-- A character that may stand in a path as it is. -/
def isPathChar (c : Char) : Bool :=
  0x20 < c.toNat && c.toNat < 0x7F
    && !(['"', '#', '<', '>', '?', '^', Char.ofNat 96, Char.ofNat 123, Char.ofNat 125].contains c)

/-- A character that may stand in a query as it is. -/
def isQueryChar (special : Bool) (c : Char) : Bool :=
  0x20 < c.toNat && c.toNat < 0x7F && !(['"', '#', '<', '>'].contains c)
    && !(special && c = '\'')

/-- A character that divides a path. -/
def isSlash (special : Bool) (c : Char) : Bool := c = '/' || (special && c = '\\')

/-- The segments between the slashes. -/
def segments (special : Bool) (cs : List Char) : List (List Char) :=
  Address.splitAt '/' (cs.map fun c => if isSlash special c then '/' else c)

/-- The segment with its escaped dots replaced. -/
def undotted : List Char → List Char
  | '%' :: '2' :: 'e' :: rest => '.' :: undotted rest
  | '%' :: '2' :: 'E' :: rest => '.' :: undotted rest
  | c :: rest => c :: undotted rest
  | [] => []

/-- Walks the segments: one dot stays where it is, two dots go back.  `done` are
the segments so far, the latest first. -/
def walk (done : List (List Char)) : List (List Char) → List (List Char)
  | [] => done.reverse
  | s :: rest =>
    let last := rest.isEmpty
    match undotted s with
    | ['.'] => walk (if last then [] :: done else done) rest
    | ['.', '.'] => walk (if last then [] :: done.tail else done.tail) rest
    | _ => walk (Text.Percent.encodeChars isPathChar s :: done) rest

/-- The normalized path of a text that begins with a slash. -/
def normalize (special : Bool) (cs : List Char) : List Char :=
  (walk [] (segments special (cs.drop 1))).flatMap fun s => '/' :: s

/-- What stands before a fragment. -/
def withoutFragment (cs : List Char) : List Char := cs.takeWhile (· ≠ '#')

/-- The query after a path, if there is one. -/
def queryOf (special : Bool) (cs : List Char) : Option (List Char) :=
  match cs.dropWhile (· ≠ '?') with
  | _ :: q => some (Text.Percent.encodeChars (isQueryChar special) q)
  | [] => none

/-- The URL with the path and the query that a text spells. -/
def withRest (u : Url) (cs : List Char) : Url :=
  let special := isSpecial u.scheme
  let cs := withoutFragment cs
  let path := cs.takeWhile (· ≠ '?')
  let path :=
    match path with
    | [] => if special then ['/'] else []
    | c :: _ => if isSlash special c then normalize special path else
        if special then normalize special ('/' :: path)
        else Text.Percent.encodeChars (fun c => !Host.isControl c && c.toNat < 0x7F) path
  { u with path, query := queryOf special cs }

/-! ### Authorities -/

/-- A character that ends an authority. -/
def endsAuthority (special : Bool) (c : Char) : Bool :=
  c = '/' || c = '?' || c = '#' || (special && c = '\\')

/-- What stands before the last at sign, if there is one, and what stands after
it. -/
def splitCredentials (cs : List Char) : Option (List Char) × List Char :=
  let back := cs.reverse
  match back.dropWhile (· ≠ '@') with
  | [] => (none, cs)
  | _ :: front => (some front.reverse, (back.takeWhile (· ≠ '@')).reverse)

/-- What stands before the colon in front of a port, and what stands after it;
colons between brackets do not count. -/
def splitPort (inside : Bool) : List Char → List Char × Option (List Char)
  | [] => ([], none)
  | c :: rest =>
    if c = ':' ∧ inside = false then ([], some rest)
    else
      let r := splitPort (if c = '[' then true else if c = ']' then false else inside) rest
      (c :: r.1, r.2)

/-- The port that digits spell; no digits ask for the scheme's own. -/
def port? (scheme : String) (cs : List Char) : Option (Option Nat) :=
  if cs.all Text.Ascii.isDigit then
    let n := Text.Ascii.numberOf cs
    if cs = [] then some none
    else if n < 65536 then some (if defaultPort scheme = some n then none else some n)
    else none
  else none

/-- Whether credentials have a name or a password. -/
def hasContent (credentials : List Char) : Bool := credentials ≠ [] && credentials ≠ [':']

/-- Whether the host may be left out between the given parts: a known scheme, a
port and credentials need one, and so does a bare at sign with a path after it. -/
def mayLackHost (special : Bool) (credentials port : Option (List Char))
    (rest : List Char) : Bool :=
  !special && port.isNone && !credentials.any hasContent
    && (credentials ≠ some [] || rest = [])

/-- The URL that an authority and what follows it spell. -/
def ofAuthority? (scheme : String) (cs : List Char) : Option Url := do
  let special := isSpecial scheme
  let (credentials, place) := splitCredentials (cs.takeWhile (!endsAuthority special ·))
  let rest := cs.dropWhile (!endsAuthority special ·)
  let (name, port) := splitPort false place
  if name = [] ∧ mayLackHost special credentials port rest = false then none
  let host ← if special then Host.ofSpecial? name else Host.ofOther? name
  let port ← port? scheme (port.getD [])
  return withRest ⟨scheme, credentials.filter hasContent, some host, port, [], none⟩ rest

/-- Whether two characters name a drive. -/
def isDrive : List Char → Bool
  | [c, d] => Text.Ascii.isLetter c && (d = ':' || d = '|')
  | _ => false

/-- The URL of a file: its host may be left out. -/
def ofFile? (cs : List Char) : Option Url := do
  match cs with
  | a :: b :: rest =>
    if isSlash true a && isSlash true b then
      let name := rest.takeWhile (!endsAuthority true ·)
      if name = [] ∨ isDrive name then
        return withRest ⟨"file", none, none, none, [], none⟩ rest
      else
        let host ← Host.ofSpecial? name
        return withRest ⟨"file", none, some host, none, [], none⟩
          (rest.dropWhile (!endsAuthority true ·))
    else return withRest ⟨"file", none, none, none, [], none⟩ cs
  | _ => return withRest ⟨"file", none, none, none, [], none⟩ cs

/-! ### Reading -/

/-- A character that is dropped at the ends of a URL. -/
def isEdge (c : Char) : Bool := c.toNat ≤ 0x20

/-- The characters of a URL that count. -/
def significant (cs : List Char) : List Char :=
  let cs := ((cs.dropWhile isEdge).reverse.dropWhile isEdge).reverse
  cs.filter fun c => c ≠ '\t' ∧ c ≠ '\n' ∧ c ≠ '\r'

/-- The URL that a text spells. -/
def ofChars? (cs : List Char) : Option Url := do
  let (scheme, rest) ← scheme? (significant cs)
  if scheme = "file" then ofFile? rest
  else if isSpecial scheme then ofAuthority? scheme (rest.dropWhile (isSlash true))
  else
    match rest with
    | '/' :: '/' :: rest => ofAuthority? scheme rest
    | rest => return withRest ⟨scheme, none, none, none, [], none⟩ rest

/-! ### What a request needs -/

/-- Whether a request can be sent there. -/
def isHttp (u : Url) : Bool := u.scheme = "http" || u.scheme = "https"

/-- The host and the port, as the request names them. -/
def authority (u : Url) : List Char :=
  (u.host.map Host.render).getD []
    ++ (u.port.map fun p => ':' :: Nat.toDigits 10 p).getD []

/-- The path and the query, as the request names them. -/
def target (u : Url) : List Char :=
  u.path ++ (u.query.map fun q => '?' :: q).getD []

end Url

end Switchboard
