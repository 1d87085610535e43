import Scriptlet.Function
import Scriptlet.Host

/-!
# Modules of the host

A module is a set of host functions with the privileges that it requires. It is installed
only where all of them are granted.
-/

namespace Scriptlet.Host

/-- What modules may be allowed to do. -/
inductive Privilege where
  | files | threading | process
  deriving DecidableEq, Repr

/-- The name of a privilege. -/
def Privilege.name : Privilege → String
  | .files => "FILE_IO"
  | .threading => "THREADING"
  | .process => "PROCESS"

/-- Every privilege. -/
def Privilege.all : List Privilege := [.files, .threading, .process]

/-- The number that stands for a set of privileges: a bit for each. -/
def Privilege.bits (privileges : List Privilege) : Nat :=
  (if .files ∈ privileges then 1 else 0) + (if .threading ∈ privileges then 2 else 0) +
    (if .process ∈ privileges then 4 else 0)

/-- A function of the host before it is registered. -/
structure Definition where
  name : String
  style : HostStyle
  code : Code

/-- A set of host functions. -/
structure Module where
  name : String
  required : List Privilege
  functions : List Definition

/-- Whether a module may be installed where some privileges are granted. -/
def Module.isAllowed (module' : Module) (granted : List Privilege) : Bool :=
  module'.required.all (granted.contains ·)

end Scriptlet.Host
