/-
Truth values as people write them in flags and settings.
-/
import Bindery.Bytes

namespace Bindery.Bytes

/-- The truth value of one of its usual spellings. -/
def truth? (s : Bytes) : Option Bool :=
  if ["1", "t", "T", "true", "TRUE", "True"].any (utf8 · == s) then some true
  else if ["0", "f", "F", "false", "FALSE", "False"].any (utf8 · == s) then some false
  else none

end Bindery.Bytes
