import Switchboard.Failure
import Switchboard.Text.Ascii
import Switchboard.Text.Blank

/-!
# Log formats

How log lines are written.  The format is named by a person or by the
environment; a process installs its log output once.

## Main definitions

* `LogFormat` — the two formats.
* `LogFormat.parse` — the format that a person names.
* `LogFormat.ofEnvironment` — the format that the environment asks for.
* `LogFormat.install` — the log output of a process.
-/

namespace Switchboard

/-- How log lines are written. -/
inductive LogFormat where
  /-- For people. -/
  | pretty
  /-- One JSON object per line. -/
  | json
  deriving DecidableEq, Repr, Inhabited

namespace LogFormat

/-- The name of the environment variable that chooses the format. -/
def variableName : String := "POLYCALL_LOG_FORMAT"

/-- The written name of a format. -/
def name : LogFormat → String
  | .pretty => "pretty"
  | .json => "json"

/-- The format that a person names: blanks around the name and the case of its
letters do not count, and no name at all asks for the format for people. -/
def parse (s : String) : Except Failure LogFormat :=
  let word := Text.Ascii.lower (Text.trim s)
  if word = "json" then .ok .json
  else if word = "pretty" ∨ word = "text" ∨ word = "" then .ok .pretty
  else .error (.config ("unknown log format: " ++ word))

/-- The format that the environment asks for; what is not understood asks for
nothing. -/
def ofEnvironment (value : Option String) : LogFormat :=
  match value.map parse with
  | some (.ok f) => f
  | _ => .pretty

/-- The log output of a process after an installation; a second one fails. -/
def install (current : Option LogFormat) (f : LogFormat) : Except Failure LogFormat :=
  match current with
  | none => .ok f
  | some _ => .error (.config "failed to install tracing subscriber")

@[simp] theorem ofEnvironment_none : ofEnvironment none = .pretty := rfl

@[simp] theorem install_none (f : LogFormat) : install none f = .ok f := rfl

end LogFormat

end Switchboard
