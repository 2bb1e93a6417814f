/-!
# Dotted paths

A path is a row of segments with dots between them.  Every text is a path; a text without a dot
is a single segment, and segments may be empty.
-/

namespace FeatureProbes
namespace Text

/-- The segments between the dots of a path. -/
def segments (path : String) : List String :=
  (path.toList.splitOn '.').map String.ofList

/-- The path of some segments. -/
def joinSegments (parts : List String) : String :=
  ".".intercalate parts

end Text
end FeatureProbes
