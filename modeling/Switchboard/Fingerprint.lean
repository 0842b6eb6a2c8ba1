import Switchboard.Digest.Sha256
import Switchboard.Endpoint.Basic
import Switchboard.Endpoint.Connection

/-!
# Fingerprints

The name under which the client of an endpoint is kept.  It depends on what the
client is built from, and on nothing that a single call may change: not on the
timeout, the number of retries, the service description or the default method.

## Main definitions

* `Fingerprint.key` — the identity of an endpoint under given connection
  settings, as a text.
* `Fingerprint.of` — the digest of that text.
-/

namespace Switchboard

/-- The name under which a client is kept: a digest in hexadecimal digits. -/
structure Fingerprint where
  /-- The digits. -/
  digits : String
  deriving DecidableEq, Repr, Inhabited

namespace Fingerprint

/-- The fields that make up the identity, in order; a path that is not given
counts as empty. -/
def fields (e : Endpoint) (c : Connection) : List String :=
  [e.friendlyName, e.url, e.protocol.name, if c.insecureSkipVerify then "true" else "false",
   c.tlsCertPath.getD "", c.tlsKeyPath.getD "", c.caCertPath.getD ""]

/-- The identity as a text: its fields with bars between them. -/
def key (e : Endpoint) (c : Connection) : String :=
  String.intercalate "|" (fields e c)

/-- The fingerprint of an endpoint under the given connection settings. -/
def of (e : Endpoint) (c : Connection) : Fingerprint :=
  ⟨Text.Hex.encode (Digest.sha256 (Text.Utf8.encode (key e c)))⟩

end Fingerprint

end Switchboard
