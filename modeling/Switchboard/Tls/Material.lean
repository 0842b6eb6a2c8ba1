import Switchboard.Endpoint.Connection
import Switchboard.Failure
import Switchboard.FileSystem
import Switchboard.Tls.Der
import Switchboard.Tls.Pem

/-!
# Certificates and keys of a connection

The files that the settings of a connection name are read and checked when a
client is built.

## Main definitions

* `Identity`, `Material` — what the files hold.
* `Trouble` — what can be wrong with a file.
* `Material.load` — reads the files.
* `Material.trusted`, `Material.presentable` — what a connection can be made
  with.
-/

namespace Switchboard.Tls

/-- A client certificate and its key, as their files hold them. -/
structure Identity where
  /-- The file of the certificate. -/
  cert : Bytes
  /-- The file of the key. -/
  key : Bytes
  deriving DecidableEq, Repr, Inhabited

/-- The files of the key and the certificate one after the other, with a line
break between them. -/
def Identity.combined (i : Identity) : Bytes :=
  i.key ++ (if i.key.getLast? = some 0x0A then [] else [0x0A]) ++ i.cert

/-- The text of an identity, which does not show the key. -/
def Identity.text (i : Identity) : String :=
  "ClientIdentity \x7b cert_pem_len: " ++ toString i.cert.length
    ++ ", key_pem: \"<redacted>\" \x7d"

/-- What the files of a connection hold. -/
structure Material where
  /-- The file of the certificates to trust. -/
  caPem : Option Bytes
  /-- The certificates in it. -/
  caDer : List Bytes
  /-- The client certificate and its key. -/
  identity : Option Identity
  deriving DecidableEq, Repr, Inhabited

/-- What a file of a connection is for. -/
inductive Purpose where
  /-- It holds the certificates to trust. -/
  | authority
  /-- It holds the client certificate. -/
  | certificate
  /-- It holds the key of the client certificate. -/
  | key
  deriving DecidableEq, Repr, Inhabited

/-- The words for a purpose. -/
def Purpose.text : Purpose → String
  | .authority => "CA certificate"
  | .certificate => "client certificate"
  | .key => "client key"

/-- What can be wrong with a file. -/
inductive Trouble where
  /-- It cannot be read. -/
  | unreadable (purpose : Purpose) (path : String) (why : FileTrouble)
  /-- It is malformed. -/
  | malformed (purpose : Purpose) (path : String) (why : Pem.Trouble)
  /-- It holds nothing that it is read for. -/
  | empty (purpose : Purpose) (path : String)
  deriving Repr, Inhabited

namespace Trouble

/-- What was done with a file when the trouble came up. -/
def deed : Purpose → String
  | .key => "load"
  | _ => "parse"

/-- What is missing in an empty file. -/
def missing : Purpose → String
  | .key => "no private key found"
  | _ => "no PEM certificates found"

/-- The trouble without the words of others for it. -/
def summary : Trouble → String
  | .unreadable p path _ => "failed to read " ++ p.text ++ " " ++ path
  | .malformed p path _ => "failed to " ++ deed p ++ " " ++ p.text ++ " " ++ path
  | .empty p path =>
    "failed to " ++ deed p ++ " " ++ p.text ++ " " ++ path ++ ": " ++ missing p

/-- The words of others for the trouble. -/
def reason : Trouble → String
  | .unreadable _ _ why => ": " ++ why.text
  | .malformed _ _ why => ": " ++ why.text
  | .empty _ _ => ""

/-- The failure that the trouble is reported as. -/
def failure (t : Trouble) : Failure := .clientInit (t.summary ++ t.reason)

end Trouble

namespace Material

/-- No files. -/
def none : Material := ⟨.none, [], .none⟩

/-- Whether no file is named. -/
def isEmpty (m : Material) : Bool := m.caPem.isNone && m.identity.isNone

/-- The content of a file. -/
def read (fs : FileSystem) (p : Purpose) (path : String) : Except Trouble Bytes :=
  (fs.read path).mapError (.unreadable p path)

/-- The certificates in a file, of which there is at least one. -/
def certificatesIn (p : Purpose) (path : String) (pem : Bytes) :
    Except Trouble (List Bytes) := do
  match ← (Pem.certificates pem).mapError (.malformed p path) with
  | [] => .error (.empty p path)
  | ders => .ok ders

/-- Checks that there is a private key in a file. -/
def checkKey (path : String) (pem : Bytes) : Except Trouble Unit := do
  match ← (Pem.privateKey pem).mapError (.malformed .key path) with
  | .none => .error (.empty .key path)
  | some _ => .ok ()

/-- Reads the file of certificates to trust. -/
def loadAuthority (fs : FileSystem) (path : String) (m : Material) :
    Except Trouble Material := do
  let pem ← read fs .authority path
  let ders ← certificatesIn .authority path pem
  return { m with caPem := some pem, caDer := ders }

/-- Reads the files of a client certificate and its key. -/
def loadIdentity (fs : FileSystem) (certPath keyPath : String) (m : Material) :
    Except Trouble Material := do
  let cert ← read fs .certificate certPath
  let _ ← certificatesIn .certificate certPath cert
  let key ← read fs .key keyPath
  checkKey keyPath key
  return { m with identity := some ⟨cert, key⟩ }

/-- Reads the files that the settings name.  A client certificate without a key
is not read, nor a key without a certificate. -/
def load (fs : FileSystem) (c : Connection) : Except Trouble Material := do
  let m ← match c.caCertPath with
    | some path => loadAuthority fs path none
    | .none => .ok none
  match c.identityPaths with
  | some (cert, key) => loadIdentity fs cert key m
  | .none => .ok m

/-! ### Use -/

/-- Whether all certificates to trust can be used. -/
def trusted (m : Material) : Bool := m.caDer.all Der.isCertificate

/-- The certificates and the last private key of a file that holds nothing
else. -/
def parts? (pem : Bytes) : Option (List Bytes × Pem.Section) := do
  match Pem.sections pem with
  | (ss, .none) =>
    let certs := ss.filter fun s => s.label = .certificate
    let keys := ss.filter fun s => s.label.isPrivateKey
    if certs.length + keys.length = ss.length ∧ certs ≠ [] then
      return (certs.map Pem.Section.der, ← keys.getLast?)
    else .none
  | _ => .none

/-- Whether a private key can be used with the first of several certificates. -/
def matching (certs : List Bytes) (key : Pem.Section) : Bool :=
  match certs with
  | cert :: _ => Der.keyBelongs cert key.der (key.label ≠ .privateKey)
  | [] => false

end Material

end Switchboard.Tls
