import Mathlib

/-!
# Paths

A path is a text; its components stand between slashes. Joining an absolute path to a
base gives the absolute path.
-/

namespace Lib

/-- The path starts at the root. -/
def isAbsolute (path : String) : Bool := path.toList.head? = some '/'

/-- Some component of the path leads to the parent directory. -/
def hasParentDir (path : String) : Bool := (path.toList.splitOn '/').contains ['.', '.']

/-- A path below another; an absolute one stands for itself. -/
def joinPath (base name : String) : String :=
  if isAbsolute name then name
  else if base.toList.getLast? = some '/' then base ++ name
  else base ++ "/" ++ name

end Lib
