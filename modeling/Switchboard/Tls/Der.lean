import Switchboard.Text.Utf8

/-!
# Certificates and keys in DER

Just enough of the encoding of certificates and private keys to tell what can be
used: the shape of a certificate, and whether a private key belongs to it.

## Main definitions

* `Element` — a tag and a content.
* `elements? bs` — the elements that a byte string consists of.
* `Certificate.publicKey?` — the public key of a certificate.
* `keyBelongs` — a private key that can be used with a certificate.
-/

namespace Switchboard.Tls.Der

/-- A tag and a content. -/
structure Element where
  /-- The tag. -/
  tag : UInt8
  /-- The content. -/
  content : Bytes
  deriving DecidableEq, Repr, Inhabited

/-- The number that bytes spell, the most significant first. -/
def number (bs : Bytes) : Nat := bs.foldl (fun n b => 256 * n + b.toNat) 0

/-- The length in front of a content, and what follows it. -/
def length? : Bytes → Option (Nat × Bytes)
  | [] => none
  | b :: rest =>
    if b < 0x80 then some (b.toNat, rest)
    else
      let k := b.toNat - 128
      if k = 0 ∨ 4 < k ∨ rest.length < k then none
      else some (number (rest.take k), rest.drop k)

/-- The element at the front, and what follows it. -/
def element? : Bytes → Option (Element × Bytes)
  | [] => none
  | tag :: rest => do
    let (n, rest) ← length? rest
    if rest.length < n then none else some (⟨tag, rest.take n⟩, rest.drop n)

/-- The elements that a byte string consists of, at most as many as `fuel`. -/
def elementsFrom (fuel : Nat) (bs : Bytes) : Option (List Element) :=
  match fuel, bs with
  | _, [] => some []
  | 0, _ => none
  | fuel + 1, bs => do
    let (e, rest) ← element? bs
    return e :: (← elementsFrom fuel rest)

/-- The elements that a byte string consists of.  Each takes at least two
bytes. -/
def elements? (bs : Bytes) : Option (List Element) := elementsFrom bs.length bs

/-- The tag of a sequence. -/
def sequence : UInt8 := 0x30

/-- The elements of the only element of a byte string, which has to be a
sequence. -/
def sequence? (bs : Bytes) : Option (List Element) := do
  match ← elements? bs with
  | [e] => if e.tag = sequence then elements? e.content else none
  | _ => none

/-! ### Certificates -/

/-- The fields of the signed part of a certificate after its version. -/
def signedFields? : List Element → Option (List Element)
  | v :: rest => some (if v.tag = 0xA0 then rest else v :: rest)
  | [] => none

/-- The algorithm and the bits of the public key of a certificate. -/
def publicKey? (certificate : Bytes) : Option (List Element) := do
  match ← sequence? certificate with
  | [signed, algorithm, signature] =>
    if signed.tag ≠ sequence ∨ algorithm.tag ≠ sequence ∨ signature.tag ≠ 0x03 then none
    match ← signedFields? (← elements? signed.content) with
    | serial :: signing :: issuer :: validity :: subject :: key :: _ =>
      if serial.tag = 0x02 ∧ signing.tag = sequence ∧ issuer.tag = sequence
          ∧ validity.tag = sequence ∧ subject.tag = sequence ∧ key.tag = sequence then
        elements? key.content
      else none
    | _ => none
  | _ => none

/-- Whether a byte string has the shape of a certificate. -/
def isCertificate (bs : Bytes) : Bool := (publicKey? bs).isSome

/-! ### Private keys -/

/-- The bits of the public key that a key for an elliptic curve carries. -/
def curvePoint? (key : Bytes) : Option Bytes := do
  let fields ← sequence? key
  let outer ← fields.find? fun e => e.tag = 0xA1
  match ← elements? outer.content with
  | [bits] => if bits.tag = 0x03 then some bits.content else none
  | _ => none

/-- The bits of the public key that a key for RSA carries: its modulus and its
public exponent. -/
def modulus? (key : Bytes) : Option (List Bytes) := do
  match ← sequence? key with
  | _ :: n :: e :: _ :: _ :: _ :: _ :: _ :: _ =>
    if n.tag = 0x02 ∧ e.tag = 0x02 then some [n.content, e.content] else none
  | _ => none

/-- Whether a key for an elliptic curve belongs to the bits of a public key. -/
def curveKeyBelongs (key bits : Bytes) : Bool := curvePoint? key = some bits

/-- Whether a key for RSA belongs to the bits of a public key. -/
def rsaKeyBelongs (key bits : Bytes) : Bool :=
  match modulus? key, sequence? (bits.drop 1) with
  | some parts, some [n, e] => parts = [n.content, e.content]
  | _, _ => false

/-- The key inside of a note of its algorithm, and the note. -/
def unwrap? (key : Bytes) : Option (List Element × Bytes) := do
  match ← sequence? key with
  | version :: algorithm :: inner :: _ =>
    if version.tag = 0x02 ∧ algorithm.tag = sequence ∧ inner.tag = 0x04 then
      return (← elements? algorithm.content, inner.content)
    else none
  | _ => none

/-- Whether a private key can be used with a certificate: it has the shape of a
key, and where it carries its public key, that is the certificate's.  A key
without a note of its algorithm says so by `bare`. -/
def keyBelongs (certificate key : Bytes) (bare : Bool) : Bool :=
  match publicKey? certificate with
  | some [algorithm, bits] =>
    if bare then curveKeyBelongs key bits.content || rsaKeyBelongs key bits.content
    else
      match unwrap? key with
      | none => false
      | some (note, inner) =>
        elements? algorithm.content = some note &&
          (curveKeyBelongs inner bits.content || rsaKeyBelongs inner bits.content
            || inner.length = 34)
  | _ => false

end Switchboard.Tls.Der
