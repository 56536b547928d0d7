/-
The release of the tool and the words that name it in generated files.
-/
import Bindery.Bytes

namespace Bindery.Release

def version : Bytes := utf8 "0.7.1"

/-- How the tool names itself. -/
def generator : Bytes := utf8 "wasm-pack v" ++ version

end Bindery.Release
