import Switchboard.Json.Record

/-!
# Connection settings

How the connection to an endpoint is secured.  Certificates and keys are named
by their paths; the files are read when a client is built.

## Main definitions

* `Connection` — the settings.
* `Connection.identityPaths` — the client certificate and its key, if both are
  given.
* `Connection.toJson`, `Connection.ofDocument?` — the written form.
-/

namespace Switchboard

/-- How the connection to an endpoint is secured. -/
structure Connection where
  /-- Accept any server certificate; for gRPC, use no encryption at all. -/
  insecureSkipVerify : Bool
  /-- The file of the client certificate. -/
  tlsCertPath : Option String
  /-- The file of the key that belongs to the client certificate. -/
  tlsKeyPath : Option String
  /-- The file of the certificates to trust besides the usual ones. -/
  caCertPath : Option String
  deriving DecidableEq, Repr, Inhabited

namespace Connection

/-- The settings of a configuration that says nothing. -/
def standard : Connection := ⟨false, none, none, none⟩

/-- The settings that check no certificate. -/
def insecure : Connection := { standard with insecureSkipVerify := true }

/-- The settings with a client certificate and its key. -/
def withIdentity (c : Connection) (cert key : String) : Connection :=
  { c with tlsCertPath := some cert, tlsKeyPath := some key }

/-- The settings with a file of certificates to trust. -/
def withCaCert (c : Connection) (path : String) : Connection :=
  { c with caCertPath := some path }

/-- The files of the client certificate and its key, if both are given. -/
def identityPaths (c : Connection) : Option (String × String) :=
  match c.tlsCertPath, c.tlsKeyPath with
  | some cert, some key => some (cert, key)
  | _, _ => none

/-- Whether any file has to be read. -/
def hasTlsMaterial (c : Connection) : Bool :=
  c.caCertPath.isSome || c.identityPaths.isSome

/-! ### Written form -/

open Json

/-- The names of the fields, in order. -/
def fieldNames : List String :=
  ["insecure_skip_verify", "tls_cert_path", "tls_key_path", "ca_cert_path"]

/-- The settings are written with all their fields. -/
def toJson (c : Connection) : Value :=
  .ofMembers
    [("insecure_skip_verify", .bool c.insecureSkipVerify),
     ("tls_cert_path", .ofString? c.tlsCertPath), ("tls_key_path", .ofString? c.tlsKeyPath),
     ("ca_cert_path", .ofString? c.caCertPath)]

/-- Reads the written form; every field may be left out. -/
def ofDocument? (d : Document) (rules : Document.Rules := .json) : Option Connection := do
  let path := Document.withDefault? none (Document.optional? Document.text?)
  match ← d.record? fieldNames rules with
  | [skip, cert, key, ca] =>
    return {
      insecureSkipVerify := ← Document.withDefault? false Document.bool? skip
      tlsCertPath := ← path cert
      tlsKeyPath := ← path key
      caCertPath := ← path ca }
  | _ => none

end Connection

end Switchboard
