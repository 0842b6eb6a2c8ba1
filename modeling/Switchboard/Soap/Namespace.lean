import Switchboard.Text.Blank

/-!
# The namespace of a SOAP service

A service description is never fetched; its address only suggests the namespace
of the operations.

## Main definitions

* `namespaceOf url` — the namespace that the address of a description suggests.
* `namespaceFor url?` — the namespace of a service that may have no description.
-/

namespace Switchboard.Soap

/-- The namespace of a service that names no description. -/
def standardNamespace : String := "http://tempuri.org/"

/-- The characters without the given ones at the back, if they are there. -/
def dropBack? (back cs : List Char) : Option (List Char) :=
  if back.isSuffixOf cs then some (cs.take (cs.length - back.length)) else none

/-- The address without the query that asks for a description. -/
def withoutQuery (cs : List Char) : List Char :=
  ((dropBack? "?wsdl".toList cs).orElse fun _ => dropBack? "?WSDL".toList cs).getD cs

/-- The characters up to and including the last slash. -/
def throughLastSlash (cs : List Char) : List Char :=
  (cs.reverse.dropWhile (· ≠ '/')).reverse

/-- The namespace that the address of a description suggests: the address up to
its last slash.  Where that slash is missing or comes first, a slash is put at
the end instead. -/
def namespaceOf (url : String) : String :=
  let cs := withoutQuery url.toList
  let front := throughLastSlash cs
  String.ofList (if 1 < front.length then front else cs ++ ['/'])

/-- The namespace of a service with the given description, if any; a blank
address is none. -/
def namespaceFor (wsdlUrl : Option String) : String :=
  match wsdlUrl with
  | some url => if Text.IsBlank url then standardNamespace else namespaceOf url
  | none => standardNamespace

end Switchboard.Soap
