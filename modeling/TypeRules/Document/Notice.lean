/-! # Notices

What a document is remarked upon while it is loaded.  Loading goes on after a warning.
-/

namespace TypeRules

inductive Notice where
  /-- The version is under the key of former times. -/
  | formerVersionKey
  | unsupportedVersion (version : String)
  /-- There is no base package, so that the default one is used. -/
  | defaultPackage (package : String)
  | strayMethods
  /-- There are paths or extensions inside of a path. -/
  | strayBlocks (path : String)
  deriving DecidableEq, Repr

/-- The remark as it is shown, with its weight in front. -/
def Notice.text : Notice → String
  | formerVersionKey =>
    "WARN: 'openapi-processor-spring' is deprecated, " ++
      "use 'openapi-processor-mapping' to set the mapping version"
  | unsupportedVersion version => "ERROR: unsupported mapping version '" ++ version ++ "'"
  | defaultPackage package =>
    "WARN: no 'options.package-name' set, using default package '" ++ package ++ "'"
  | strayMethods => "WARN: method keys are only supported below 'map.paths', ignoring them"
  | strayBlocks path => "WARN: ignoring nested 'paths'/'extensions' of path '" ++ path ++ "'"

end TypeRules
