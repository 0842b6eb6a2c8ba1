import Switchboard.Endpoint.Basic
import Switchboard.Endpoint.Connection
import Switchboard.Setup
import Switchboard.Text.Blank
import Switchboard.Url.Address

/-!
# Channels

A channel leads to the server that a URI names.  The URI is checked when the
channel is made, and so is what an encrypted connection needs; nothing is
connected yet.

## Main definitions

* `channelUri` — the URI of an endpoint.
* `isUri` — whether a text is the URI of a server.
* `isPath` — whether a text can stand as the path of a request.
* `isServerName` — whether a host can be named in a certificate.
* `encryptable` — whether an encrypted connection can be set up.
-/

namespace Switchboard.Grpc

open Text.Ascii

/-! ### URIs -/

/-- Whether one list stands within another. -/
def isWithin (part : List Char) : List Char → Bool
  | [] => part.isEmpty
  | c :: cs => part.isPrefixOf (c :: cs) || isWithin part cs

/-- What stands between a scheme and the rest. -/
def schemeMark : List Char := "://".toList

/-- The URI of an endpoint: one without a scheme gets one that tells whether the
connection is encrypted. -/
def channelUri (url : String) (plain : Bool) : String :=
  let url := Text.trim url
  if isWithin schemeMark url.toList then url
  else if plain then "http://" ++ url
  else "https://" ++ url

/-- A character that may stand in a scheme. -/
def isSchemeChar (c : Char) : Bool := isAlphanumeric c || c = '+' || c = '-' || c = '.'

/-- The number of characters that a scheme may have. -/
def maxScheme : Nat := 64

/-- What follows the scheme of a URI.  There may be nothing in front of the mark;
nothing else than a scheme may. -/
def afterScheme? (cs : List Char) : Option (List Char) :=
  let scheme := cs.takeWhile isSchemeChar
  let rest := cs.drop scheme.length
  if schemeMark.isPrefixOf rest ∧ scheme.length ≤ maxScheme then some (rest.drop 3) else none

/-- A character that may stand in an authority; a percent sign is checked on its
own. -/
def isAuthorityChar (c : Char) : Bool :=
  isAlphanumeric c || "!$&'()*+,-.:;=@[]_~%".toList.contains c

/-- What has been seen of an authority. -/
structure Authority where
  /-- The number of colons that may yet turn out to be in front of a port. -/
  colons : Nat := 0
  /-- Whether a bracket has been opened. -/
  opened : Bool := false
  /-- Whether it has been closed. -/
  closed : Bool := false
  /-- Whether there was a percent sign that may yet turn out to be in the host. -/
  percent : Bool := false
  /-- The last character. -/
  last : Option Char := none

/-- Takes up a character.  What came before an at sign is no part of the host,
and what stands in brackets is no port. -/
def Authority.step (a : Authority) (c : Char) : Option Authority :=
  let a := { a with last := some c }
  match c with
  | ':' => if a.colons < 8 then some { a with colons := a.colons + 1 } else none
  | '[' => if a.percent || a.opened then none else some { a with opened := true }
  | ']' =>
    if !a.opened || a.closed then none
    else some { a with closed := true, colons := 0, percent := false }
  | '@' => some { a with colons := 0, percent := false }
  | '%' => some { a with percent := true }
  | c => if isAuthorityChar c then some a else none

/-- Whether an authority names a host. -/
def isAuthority (cs : List Char) : Bool :=
  match cs.foldlM Authority.step {} with
  | some a =>
    cs ≠ [] && a.opened = a.closed && a.colons ≤ 1 && !a.percent && a.last ≠ some '@'
  | none => false

/-- A character that ends an authority. -/
def endsAuthority (c : Char) : Bool := c = '/' || c = '?' || c = '#'

/-- A character that may stand in a path. -/
def isPathChar (c : Char) : Bool :=
  let n := c.toNat
  n = 0x21 || (0x24 ≤ n && n ≤ 0x3B) || n = 0x3D || (0x40 ≤ n && n ≤ 0x5F)
    || (0x61 ≤ n && n ≤ 0x7A) || n = 0x7C || 0x7E ≤ n || c = '"' || c = '\x7b' || c = '\x7d'

/-- A character that may stand in a query. -/
def isQueryChar (c : Char) : Bool :=
  let n := c.toNat
  n = 0x21 || (0x24 ≤ n && n ≤ 0x3B) || n = 0x3D || 0x3F ≤ n

/-- A path with its query, without the fragment: that is not sent. -/
def withoutFragment (cs : List Char) : List Char := cs.takeWhile (· ≠ '#')

/-- Whether a text can stand as a path with its query; a fragment may hold
anything. -/
def isPath (cs : List Char) : Bool :=
  let address := withoutFragment cs
  (address.takeWhile (· ≠ '?')).all isPathChar
    && ((address.dropWhile (· ≠ '?')).drop 1).all isQueryChar

/-- The number of bytes that a URI may have. -/
def maxUri : Nat := 65534

/-- Whether a text is the URI of a server, or a path. -/
def isUri (cs : List Char) : Bool :=
  (Text.Utf8.encodeChars cs).length ≤ maxUri
    && match cs with
      | '/' :: _ => isPath cs
      | _ =>
        match afterScheme? cs with
        | some rest =>
          isAuthority (rest.takeWhile (!endsAuthority ·))
            && isPath (rest.dropWhile (!endsAuthority ·))
        | none => false

/-- The host of a URI with an authority. -/
def hostOf (cs : List Char) : List Char :=
  let authority := ((afterScheme? cs).getD []).takeWhile (!endsAuthority ·)
  let host := (authority.reverse.takeWhile (· ≠ '@')).reverse
  match host with
  | '[' :: _ => host.takeWhile (· ≠ ']') ++ [']']
  | _ => host.takeWhile (· ≠ ':')

/-! ### Encryption -/

/-- Whether a part of a name between two points is well-formed. -/
def isLabel (cs : List Char) : Bool :=
  cs ≠ [] && cs.length ≤ 63 && cs.all (fun c => isAlphanumeric c || c = '-' || c = '_')
    && cs.head? ≠ some '-' && cs.getLast? ≠ some '-'

/-- The number that digits without needless zeros spell, if it fits a byte. -/
def isOctet (cs : List Char) : Bool :=
  cs ≠ [] && cs.length ≤ 3 && cs.all isDigit && (cs.head? ≠ some '0' || cs.length = 1)
    && numberOf cs ≤ 255

/-- Whether a host can be named in a certificate: an address of four numbers, or a
name whose last part is no number. -/
def isServerName (cs : List Char) : Bool :=
  let labels := Url.Address.splitAt '.' cs
  let named := if labels.getLast? = some [] then labels.dropLast else labels
  (labels.length = 4 && labels.all isOctet)
    || (cs.length ≤ 253 && named ≠ [] && named.all isLabel
      && !((named.getLast?.getD []).all isDigit))

/-- Whether the client certificate of a connection belongs to its key. -/
def presentable (i : Tls.Identity) : Bool :=
  match Tls.Pem.certificates i.cert, Tls.Pem.privateKey i.key with
  | .ok certs, .ok (some key) => Tls.Material.matching certs key
  | _, _ => false

/-- Whether an encrypted connection to a host can be set up. -/
def encryptable (m : Tls.Material) (host : List Char) : Bool :=
  m.trusted && m.identity.all presentable && isServerName host

/-! ### Channels -/

/-- A server that can be called. -/
structure Channel where
  /-- Where it is. -/
  uri : String
  deriving DecidableEq, Repr, Inhabited

/-- Whether a connection is encrypted. -/
def encrypts (uri : String) (c : Connection) : Bool :=
  !c.insecureSkipVerify && "https://".toList.isPrefixOf uri.toList

/-- The channel of an endpoint.  The files of the connection are only read when
it is encrypted. -/
def Channel.build (fs : FileSystem) (e : Endpoint) (c : Connection) :
    Except SetupTrouble Channel :=
  let uri := channelUri e.url c.insecureSkipVerify
  if ¬ isUri uri.toList then
    .error (.refused (.clientInit ("failed to connect to gRPC server " ++ uri)))
  else if encrypts uri c then
    match Tls.Material.load fs c with
    | .error t => .error (.file t)
    | .ok m =>
      if encryptable m (hostOf uri.toList) then .ok ⟨uri⟩
      else .error (.refused (.clientInit "failed to configure gRPC TLS"))
  else .ok ⟨uri⟩

end Switchboard.Grpc
