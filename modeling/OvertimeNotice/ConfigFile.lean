import OvertimeNotice.Config
import OvertimeNotice.Files.Tree
import OvertimeNotice.Json.Reader

/-!
# The configuration file

A configuration is read from `config/notify_config.json` in the data directory and checked before
it is used.
-/

namespace OvertimeNotice

/-- Why there is no configuration. -/
inductive LoadFault where
  | unreadable (path : String) (fault : FileFault)
  | unparsable (path : String)
  | invalid (fault : ConfigFault)
deriving DecidableEq, Repr

def LoadFault.message : LoadFault → String
  | unreadable path fault => "Cannot read " ++ path ++ ": " ++ fault.message
  | unparsable path => "Cannot parse " ++ path ++ ": " ++ jsonComplaint
  | invalid fault => (Failure.config fault).message

namespace Config

def pathText (dataDir : String) : String := dataDir ++ "/config/notify_config.json"

/-- The configuration of a data directory. -/
def load (dataDir : String) (t : Tree) : Except LoadFault Config :=
  match t.readText (Path.ofText (pathText dataDir)) with
  | .error f => .error (.unreadable (pathText dataDir) f)
  | .ok text =>
    match (Json.parse? text).bind Config.ofJson? with
    | none => .error (.unparsable (pathText dataDir))
    | some c =>
      match c.validate with
      | .error f => .error (.invalid f)
      | .ok () => .ok c

end Config

end OvertimeNotice
