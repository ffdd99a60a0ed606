/-!
The name and the version of the program, as its pages, its command line and its service show them.
-/

namespace NatSpec

def programName : String := "soldocgen"

def programVersion : String := "0.1.0"

end NatSpec
