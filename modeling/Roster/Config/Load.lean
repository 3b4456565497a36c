import Roster.Config.Codec
import Roster.Yaml.Reader

/-!
# Roster.Config.Load

Loading a cluster's configuration: read, decode, validate.
-/

namespace Roster

inductive LoadError where
  | missing
  | unreadable
  | invalid (cause : ValidationError)
deriving DecidableEq

namespace LoadError

def message : LoadError → String
  | .missing => "failed to read configuration: No such file or directory (os error 2)"
  | .unreadable => "failed to parse configuration"
  | .invalid cause => "invalid configuration: " ++ cause.message

end LoadError

namespace ClusterConfig

def ofText (text : String) : Except LoadError ClusterConfig :=
  match (Yaml.parse? text).bind (decode Yaml.format) with
  | none => .error .unreadable
  | some c =>
    match c.validate with
    | .error e => .error (.invalid e)
    | .ok () => .ok c

/-- The text of a file, `none` when there is no such file. -/
def ofFile (content? : Option String) : Except LoadError ClusterConfig :=
  match content? with
  | none => .error .missing
  | some text => ofText text

end ClusterConfig

end Roster
