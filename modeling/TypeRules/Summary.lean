import TypeRules.Lookup

/-! # Summaries

A configuration in a few lines: its base package, and how many rules there are at each of its
levels and in its extensions.
-/

namespace TypeRules

/-- The number of rules as it is shown. -/
def countText (count : Nat) : String := toString count ++ " rules"

/-- The size of a level, and whether it excludes. -/
def Level.summary (l : Level) : String :=
  countText l.ruleCount ++ if l.exclude then " (excluded)" else ""

/-- The lines about a path and its methods. -/
def Endpoint.summary (path : String) (e : Endpoint) : List String :=
  ("path " ++ path ++ ": " ++ e.level.summary) ::
    e.methods.map fun (method, level) => "  " ++ method.text ++ ": " ++ level.summary

def Config.summary (c : Config) : List String :=
  ("package: " ++ c.options.basePackage) ::
    ("global: " ++ countText c.repository.global.ruleCount) ::
    (c.repository.endpoints.flatMap fun (path, endpoint) => endpoint.summary path) ++
    c.repository.extensions.map fun (name, rules) =>
      "extension " ++ name ++ ": " ++ countText rules.length

end TypeRules
