/-!
# The generator's name

The name under which the program signs its output.
-/

namespace TypedSettings

/-- The name of the program. -/
def generatorName : String := "json-settings-gen"

/-- The version of the program. -/
def generatorVersion : String := "0.1.0"

end TypedSettings
