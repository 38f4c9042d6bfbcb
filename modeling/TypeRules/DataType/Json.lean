import TypeRules.DataType
import TypeRules.Json

/-! # Data types as JSON

The JSON form of data types, which tells the kind of every layer.
-/

namespace TypeRules

def QualifiedName.fields (q : QualifiedName) : List (String × Json) :=
  [("name", .string q.name), ("package", .string q.package)]

mutual

def GenericType.toJson : GenericType → Json
  | .mk id args => .object (id.fields ++ [("generics", .array (GenericType.argsToJson args))])

def GenericType.argsToJson : List GenericType → List Json
  | [] => []
  | a :: as => a.toJson :: GenericType.argsToJson as

end

def DataType.toJson : DataType → Json
  | .simple id => .object (("kind", .string "simple") :: id.fields)
  | .collection id item =>
    .object (("kind", .string "collection") :: id.fields ++ [("item", item.toJson)])
  | .mapped id item multi =>
    .object (("kind", .string "mapped-collection") :: id.fields ++
      [("item", item.toJson), ("multi", .bool multi)])
  | .single id inner =>
    .object (("kind", .string "single") :: id.fields ++ [("data_type", inner.toJson)])
  | .result id inner generics replacement =>
    .object (("kind", .string "result") :: id.fields ++
      [("data_type", inner.toJson), ("generics", .array (GenericType.argsToJson generics)),
       ("plain_replacement", .bool replacement)])
  | .nullable id inner initial =>
    .object (("kind", .string "null") :: id.fields ++
      [("data_type", inner.toJson), ("init", .ofText initial)])
  | .noContent boxed => .object [("kind", .string "none"), ("wrapped_in_result", .bool boxed)]

end TypeRules
