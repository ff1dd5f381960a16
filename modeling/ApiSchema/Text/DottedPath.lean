/-!
# Dotted paths

A path such as `Store.Pets` names a chain of namespaces; its segments are separated by dots. A
text without a dot is a path of one segment, and so is the empty text.
-/

namespace ApiSchema.DottedPath

/-- The segments of a path, outermost first. -/
def segments (path : String) : List String := (path.toList.splitOn '.').map String.ofList

/-- The path with the given segments. -/
def join (segments : List String) : String := ".".intercalate segments

/-- The segments before the last one, and the last one. -/
def splitLast (path : String) : List String × String :=
  ((segments path).dropLast, (segments path).getLastD "")

/-- The last segment of a path. -/
def lastSegment (path : String) : String := (splitLast path).2

end ApiSchema.DottedPath
