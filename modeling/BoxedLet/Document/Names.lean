import BoxedLet.Assignment
import BoxedLet.StaticType
import BoxedLet.Symbol

/-!
# BoxedLet.Document.Names

The **names** that documents use for types, storage classes, operators and forms of target. A
second name of the same thing stands right after the first.
-/

namespace BoxedLet.Document

/-- The names of the static types. -/
def typeNames : List (String × StaticType) :=
  [("int", .int), ("uint", .uint), ("long", .long), ("ulong", .ulong), ("char", .char),
    ("uchar", .uchar), ("double", .double), ("bool", .bool), ("string", .string),
    ("dynamic", .dynamic), ("variable", .dynamic), ("null", .null), ("empty-array", .emptyArray)]

/-- The names of the storage classes. -/
def storageNames : List (String × Storage) :=
  [("stack-only", .stackOnly), ("heap-boxed", .heapBoxed), ("heap-boxed-shared", .heapBoxed)]

/-- The names of the assignment operators. -/
def operatorNames : List (String × Operator) :=
  [("assign", .assign), ("add-assign", .addAssign), ("sub-assign", .subAssign),
    ("mul-assign", .mulAssign), ("concat-assign", .concatAssign), ("increment", .increment),
    ("decrement", .decrement)]

/-- The names of the binary operators. -/
def binaryOpNames : List (String × BinaryOp) :=
  [("add", .arith .add), ("sub", .arith .sub), ("mul", .arith .mul), ("div", .arith .div),
    ("concat", .concat), ("equals", .compare .equals), ("not-equals", .compare .notEquals),
    ("less", .compare .less), ("greater", .compare .greater),
    ("less-equal", .compare .lessEqual), ("greater-equal", .compare .greaterEqual),
    ("and", .connect .and), ("or", .connect .or)]

/-- The names of the forms of target. -/
def targetNames : List (String × TargetKind) :=
  [("variable", .whole), ("variable-append", .append), ("array-index", .element),
    ("object-property", .property), ("object-property-append", .propertyAppend),
    ("property-append", .propertyAppend), ("object-property-array-index", .propertyElement),
    ("property-array-index", .propertyElement)]

end BoxedLet.Document
