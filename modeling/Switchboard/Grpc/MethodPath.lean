import Switchboard.Failure

/-!
# Method paths

A gRPC method is called by the path of its service and its own name,
`/package.Service/Method`.

## Main definitions

* `MethodPath` — a service and a method.
* `MethodPath.path` — the path on which the method is called.
* `MethodPath.parse` — the method that a path names.
-/

namespace Switchboard.Grpc

/-- A method of a service. -/
structure MethodPath where
  /-- The full name of the service. -/
  service : String
  /-- The name of the method within the service. -/
  method : String
  deriving DecidableEq, Repr, Inhabited

namespace MethodPath

/-- The path on which the method is called. -/
def path (p : MethodPath) : String := "/" ++ p.service ++ "/" ++ p.method

/-- What stands before and after the last slash. -/
def splitLast? (cs : List Char) : Option (List Char × List Char) :=
  let back := cs.reverse
  match back.dropWhile (· ≠ '/') with
  | [] => none
  | _ :: front => some (front.reverse, (back.takeWhile (· ≠ '/')).reverse)

/-- The method that a text names, if it has the form of a path: a slash, a
service, a slash and a name without one. -/
def ofChars? : List Char → Option MethodPath
  | '/' :: cs =>
    match splitLast? cs with
    | some (service, method) =>
      if service = [] ∨ method = [] then none
      else some ⟨String.ofList service, String.ofList method⟩
    | none => none
  | _ => none

/-- A text that is not the path of a method. -/
def malformed (name : String) : Failure :=
  .validation ("invalid method name format: " ++ name)

/-- The method that a path names. -/
def parse (name : String) : Except Failure MethodPath :=
  if name = "" then .error (.validation "method is required for gRPC calls")
  else
    match ofChars? name.toList with
    | some p => .ok p
    | none => .error (malformed name)

end MethodPath

end Switchboard.Grpc
