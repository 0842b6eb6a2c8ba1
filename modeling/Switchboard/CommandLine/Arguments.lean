import Switchboard.Json.Printer
import Switchboard.Json.Document

/-!
# Command-line arguments

`polycall [--config PATH] <endpoint> [PARAMS_JSON]`: options and positional
arguments come in any order, and the last path given for the catalog counts.

## Main definitions

* `CallArguments`, `Command` — what the arguments ask for.
* `UsageError` — why they ask for nothing.
* `Command.parse` — what a list of arguments asks for.
-/

namespace Switchboard.CommandLine

open Json

/-- The arguments of a call. -/
structure CallArguments where
  /-- The path of the catalog, if one is given. -/
  catalog : Option String
  /-- The name of the endpoint. -/
  endpoint : String
  /-- The parameters of the call, if they are given. -/
  params : Option (Dictionary Value)
  deriving Repr, Inhabited

/-- What the arguments ask for. -/
inductive Command where
  /-- The usage text. -/
  | help
  /-- One call. -/
  | call (args : CallArguments)
  deriving Repr, Inhabited

/-- Why the arguments ask for nothing. -/
inductive UsageError where
  /-- The last argument is an option that needs a path. -/
  | pathRequired
  /-- There is no such option. -/
  | unknownOption (flag : String)
  /-- No endpoint is named. -/
  | endpointRequired
  /-- The parameters are not JSON. -/
  | paramsNotJson
  /-- The parameters are JSON, but no object. -/
  | paramsNotObject (v : Value)
  /-- There are too many arguments. -/
  | unexpected (argument : String)
  deriving Repr, Inhabited

/-- The text of an error. -/
def UsageError.message : UsageError → String
  | .pathRequired => "--config requires a path"
  | .unknownOption flag => "unknown option: " ++ flag
  | .endpointRequired => "missing endpoint name"
  | .paramsNotJson => "PARAMS_JSON is not valid JSON"
  | .paramsNotObject v => "PARAMS_JSON must be a JSON object, got " ++ v.render
  | .unexpected argument => "unexpected argument: " ++ argument

/-- The usage text. -/
def usage : String :=
  "usage: polycall [--config PATH] <endpoint> [PARAMS_JSON]\n\n"
    ++ "  --config PATH   endpoint catalog (TOML or JSON); defaults to $POLYCALL_CONFIG,\n"
    ++ "                  then ./polycall.toml, ./polycall.json, ./config/polycall.toml\n"
    ++ "  endpoint        friendly name of a catalog endpoint\n"
    ++ "  PARAMS_JSON     call parameters, e.g. '\x7b\"method\":\"POST\",\"body\":\x7b\"id\":1\x7d\x7d'\n"

/-! ### Options -/

/-- What one argument is. -/
inductive Argument where
  /-- The wish for the usage text. -/
  | help
  /-- The option that takes the next argument as the path of the catalog. -/
  | catalog
  /-- The option with the path in it. -/
  | catalogPath (path : String)
  /-- An option that does not exist. -/
  | unknown
  /-- A positional argument. -/
  | positional
  deriving DecidableEq, Repr

/-- What the option with a path in it begins with. -/
def catalogStem : List Char := "--config=".toList

/-- What an argument is. -/
def Argument.of (arg : String) : Argument :=
  if arg = "-h" ∨ arg = "--help" then .help
  else if arg = "-c" ∨ arg = "--config" then .catalog
  else if catalogStem.isPrefixOf arg.toList then
    .catalogPath (String.ofList (arg.toList.drop catalogStem.length))
  else
    match arg.toList with
    | '-' :: _ :: _ => .unknown
    | _ => .positional

/-- What a list of arguments holds besides the wish for the usage text, which is
`none`: the last path of the catalog and the positional arguments. -/
def gather (catalog : Option String) :
    List String → Except UsageError (Option (Option String × List String))
  | [] => .ok (some (catalog, []))
  | arg :: rest =>
    match Argument.of arg with
    | .help => .ok none
    | .catalogPath path => gather (some path) rest
    | .unknown => .error (.unknownOption arg)
    | .positional => do
      return (← gather catalog rest).map fun r => (r.1, arg :: r.2)
    | .catalog =>
      match rest with
      | [] => .error .pathRequired
      | path :: rest => gather (some path) rest

/-! ### Positional arguments -/

/-- The parameters that an argument spells. -/
def parseParams (arg : String) : Except UsageError (Dictionary Value) :=
  match Value.ofText? arg.toList with
  | none => .error .paramsNotJson
  | some (.object ms) => .ok ms
  | some v => .error (.paramsNotObject v)

/-- What the positional arguments ask for. -/
def ofPositionals (catalog : Option String) : List String → Except UsageError CallArguments
  | [] => .error .endpointRequired
  | [endpoint] => .ok ⟨catalog, endpoint, none⟩
  | endpoint :: params :: rest => do
    let params ← parseParams params
    match rest with
    | [] => .ok ⟨catalog, endpoint, some params⟩
    | extra :: _ => .error (.unexpected extra)

/-- What a list of arguments asks for. -/
def Command.parse (args : List String) : Except UsageError Command := do
  match ← gather none args with
  | none => return .help
  | some (catalog, positionals) => return .call (← ofPositionals catalog positionals)

end Switchboard.CommandLine
