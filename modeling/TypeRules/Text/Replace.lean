/-! # Replacing a phrase

`replaceAll` replaces every occurrence of a phrase, from left to right and without
looking again at what it has written.
-/

namespace TypeRules.Text

/-- The text with every occurrence of a phrase, which is not empty, replaced. -/
def replaceAll (phrase replacement : List Char) : List Char → List Char
  | [] => []
  | c :: cs =>
    if phrase.isPrefixOf (c :: cs) then
      replacement ++ replaceAll phrase replacement (cs.drop (phrase.length - 1))
    else c :: replaceAll phrase replacement cs
termination_by cs => cs.length
decreasing_by
  · simp only [List.length_drop, List.length_cons]
    omega
  · simp only [List.length_cons]
    omega

end TypeRules.Text
