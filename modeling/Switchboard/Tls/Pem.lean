import Switchboard.Text.Base64
import Switchboard.Text.Quoted

/-!
# PEM files

A PEM file holds sections between a line that begins and a line that ends one;
what stands outside of sections does not count.

## Main definitions

* `Label` — the kinds of section.
* `Trouble` — what can be wrong with a file.
* `sections bs` — the sections of a file, up to where it goes wrong.
* `certificates`, `privateKey` — what a file is read for.
-/

namespace Switchboard.Tls.Pem

/-- The kinds of section. -/
inductive Label where
  /-- A certificate. -/
  | certificate
  /-- A private key with a note of its algorithm. -/
  | privateKey
  /-- A private key for RSA. -/
  | rsaPrivateKey
  /-- A private key for an elliptic curve. -/
  | ecPrivateKey
  /-- A public key. -/
  | publicKey
  /-- A list of revoked certificates. -/
  | revocations
  /-- A wish for a certificate. -/
  | request
  /-- Keys for hiding the name of a server. -/
  | hello
  deriving DecidableEq, Repr, Inhabited

/-- The kind of section with the given name. -/
def Label.ofName? (name : String) : Option Label :=
  [("CERTIFICATE", Label.certificate), ("PRIVATE KEY", .privateKey),
   ("RSA PRIVATE KEY", .rsaPrivateKey), ("EC PRIVATE KEY", .ecPrivateKey),
   ("PUBLIC KEY", .publicKey), ("X509 CRL", .revocations),
   ("CERTIFICATE REQUEST", .request), ("ECHCONFIG", .hello)].lookup name

/-- Whether a section holds a private key. -/
def Label.isPrivateKey (l : Label) : Bool :=
  l = .privateKey || l = .rsaPrivateKey || l = .ecPrivateKey

/-- A section and its content. -/
structure Section where
  /-- The kind of section. -/
  label : Label
  /-- The bytes that it holds. -/
  der : Bytes
  deriving Repr, Inhabited

/-- What can be wrong with a file. -/
inductive Trouble where
  /-- A line begins a section in a wrong form. -/
  | malformedStart (line : Bytes)
  /-- A section does not end. -/
  | endMissing (marker : Bytes)
  /-- The content of a section is not Base64. -/
  | notBase64
  deriving Repr, Inhabited

/-- The words for the trouble. -/
def Trouble.text : Trouble → String
  | .malformedStart line =>
    "illegal section start: " ++ Text.quoted (Text.Utf8.decodeLossy line)
  | .endMissing marker =>
    "section end " ++ Text.quoted (Text.Utf8.decodeLossy marker) ++ " missing"
  | .notBase64 => "base64 decode error"

/-! ### Lines -/

/-- The bytes of an ASCII text. -/
def ascii (s : String) : Bytes := s.toList.map fun c => UInt8.ofNat c.toNat

/-- A byte that ends a line. -/
def endsLine (b : UInt8) : Bool := b = 0x0A || b = 0x0D

/-- The lines of a file, each with the byte that ends it. -/
def lines : Bytes → List Bytes
  | [] => []
  | b :: bs =>
    if endsLine b then [b] :: lines bs
    else
      match lines bs with
      | [] => [[b]]
      | l :: ls => (b :: l) :: ls

/-- What a line that begins a section starts with. -/
def startStem : Bytes := ascii "-----BEGIN "

/-- A byte that may follow the dashes of a line. -/
def isFiller (b : UInt8) : Bool := endsLine b || b = 0x20

/-- The name of the section that a line begins; nothing if not exactly five
dashes end the line. -/
def startName? (line : Bytes) : Option Bytes :=
  let tail := line.reverse.takeWhile fun b => b = 0x2D || isFiller b
  let body := line.take (line.length - tail.length)
  if tail.count 0x2D = 5 then
    some ((body ++ tail.reverse.takeWhile (· ≠ 0x2D)).drop startStem.length)
  else none

/-- The line that ends a section. -/
def endMarker (name : Bytes) : Bytes := ascii "-----END " ++ name ++ ascii "-----"

/-! ### Content -/

/-- A blank of ASCII. -/
def isBlank (b : UInt8) : Bool := b = 0x20 || (0x09 ≤ b && b ≤ 0x0D)

/-- The bytes that the lines of a section stand for: blanks do not count, and
padding may be left out. -/
def content? (text : Bytes) : Option Bytes :=
  let cs := (text.filter fun b => !isBlank b).map fun b => Char.ofNat b.toNat
  let digits := Text.Base64.unpadded cs
  if cs.length - digits.length ≤ 2 then Text.Base64.decode? Text.Base64.standard digits
  else none

/-! ### Sections -/

/-- An open section: its name and its lines so far, joined. -/
abbrev Open := Option (Bytes × Bytes)

/-- Whether a line begins a section, in whatever form. -/
def isStart (line : Bytes) : Bool := startStem.isPrefixOf line

/-- The sections in a list of lines, up to where they go wrong. -/
def scan (current : Open) : List Bytes → List Section × Option Trouble
  | [] =>
    match current with
    | none => ([], none)
    | some (name, _) => ([], some (.endMissing (endMarker name)))
  | line :: rest =>
    if isStart line then
      match startName? line with
      | none => ([], some (.malformedStart line))
      | some name => scan (some (name, (current.map Prod.snd).getD [])) rest
    else
      match current with
      | none => scan none rest
      | some (name, text) =>
        if (endMarker name).isPrefixOf line then
          match Label.ofName? (Text.Utf8.decodeLossy name) with
          | none => scan none rest
          | some label =>
            match content? text with
            | none => ([], some .notBase64)
            | some der =>
              let r := scan none rest
              (⟨label, der⟩ :: r.1, r.2)
        else scan (some (name, text ++ line)) rest

/-- The sections of a file, up to where it goes wrong. -/
def sections (bs : Bytes) : List Section × Option Trouble := scan none (lines bs)

/-- The certificates of a file. -/
def certificates (bs : Bytes) : Except Trouble (List Bytes) :=
  match sections bs with
  | (_, some t) => .error t
  | (ss, none) => .ok ((ss.filter fun s => s.label = .certificate).map Section.der)

/-- The first private key of a file, if it has one; what comes after it does not
count. -/
def privateKey (bs : Bytes) : Except Trouble (Option Section) :=
  let (ss, t) := sections bs
  match ss.find? fun s => s.label.isPrivateKey, t with
  | some key, _ => .ok (some key)
  | none, some t => .error t
  | none, none => .ok none

end Switchboard.Tls.Pem
