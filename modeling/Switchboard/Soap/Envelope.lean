import Switchboard.Failure
import Switchboard.Json.Printer
import Switchboard.Xml.Reference

/-!
# Writing SOAP envelopes

An envelope holds one element, named for the operation, with one child for each
parameter.

## Main definitions

* `parameterText v` — the text that stands for a parameter's value.
* `operationElement` — the element of an operation with its parameters.
* `envelope` — the whole document.
-/

namespace Switchboard.Soap

open Json

/-- The namespace of the envelope's own elements. -/
def envelopeNamespace : String := "http://schemas.xmlsoap.org/soap/envelope/"

/-- The text that stands for a parameter's value: a text as it is, nothing for
null, compact JSON for anything else. -/
def parameterText : Value → List Char
  | .string s => s.toList
  | .null => []
  | v => v.renderChars

/-- The element of one parameter. -/
def parameterElement (p : String × Value) : List Char :=
  '<' :: p.1.toList ++ '>' :: Xml.escapeChars (parameterText p.2)
    ++ '<' :: '/' :: p.1.toList ++ ['>']

/-- The element of an operation with its parameters, in the order of their
names. -/
def operationElement (operation ns : String) (params : Dictionary Value) : List Char :=
  '<' :: operation.toList ++ " xmlns=\"".toList ++ Xml.escapeChars ns.toList
    ++ '"' :: '>' :: params.flatMap parameterElement
    ++ '<' :: '/' :: operation.toList ++ ['>']

/-- What stands before the content of the body. -/
def opening : String :=
  "<?xml version=\"1.0\" encoding=\"utf-8\"?>\n"
    ++ "<soap:Envelope xmlns:soap=\"" ++ envelopeNamespace ++ "\""
    ++ " xmlns:xsi=\"http://www.w3.org/2001/XMLSchema-instance\""
    ++ " xmlns:xsd=\"http://www.w3.org/2001/XMLSchema\">\n"
    ++ "  <soap:Body>\n    "

/-- What stands after the content of the body. -/
def closing : String := "\n  </soap:Body>\n</soap:Envelope>"

/-- Parameters need an operation to belong to. -/
def operationRequired : Failure :=
  .validation "SOAP operation name is required to build an envelope"

/-- The envelope of an operation with its parameters; without an operation and
parameters its body is empty. -/
def envelope (operation ns : String) (params : Dictionary Value) :
    Except Failure String :=
  if operation = "" ∧ params ≠ [] then .error operationRequired
  else
    let content := if operation = "" then [] else operationElement operation ns params
    .ok (String.ofList (opening.toList ++ content ++ closing.toList))

end Switchboard.Soap
