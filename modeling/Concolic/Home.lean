import Concolic.Path

/-
  Where the program keeps its own files.
-/

namespace Concolic

/-- The two environment variables that matter. -/
structure Home where
  user : String
  /-- The program's own directory, if it is set. -/
  own : Option String
  deriving DecidableEq, Repr

namespace Home

/-- The directory of the program's files. -/
def configDir (h : Home) : String :=
  match h.own with
  | some dir => dir
  | none => Path.join h.user ".catg"

/-- Where the configuration lies. -/
def configFile (h : Home) : String := Path.join h.configDir "config.toml"

/-- The directory for records. -/
def stateDir (h : Home) : String := Path.join h.configDir "state"

end Home

end Concolic
