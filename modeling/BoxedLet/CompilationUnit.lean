import BoxedLet.Lowering.Statement

/-!
# BoxedLet.CompilationUnit

A **compilation unit** is one function body: options, the enclosing class if it is a method, the
declared variables and the statements. Compiling it yields the headers and lines of its code, or
the error of the first assignment that cannot be lowered.
-/

namespace BoxedLet

/-- The declaration of a variable. -/
structure Declaration where
  name : String
  type : StaticType
  /-- Where it lives; by default on the heap if it is `dynamic` and in the frame otherwise. -/
  storage : Option Storage := none
  readOnly : Bool := false
  deriving Repr, DecidableEq, Inhabited

/-- The symbol that a declaration introduces. -/
def Declaration.symbol (d : Declaration) : Symbol where
  name := d.name
  type := d.type
  storage := d.storage.getD (Storage.ofType d.type)
  readOnly := d.readOnly

/-- A function body. -/
structure CompilationUnit where
  options : Options := {}
  classDef : Option ClassDef := none
  declarations : List Declaration := []
  statements : List LetStatement := []
  deriving Repr, Inhabited

/-- The code of a function body. -/
structure Compiled where
  /-- Needed headers, in the order of first use. -/
  headers : List Header
  lines : List String
  deriving Repr, DecidableEq, Inhabited

/-- The state in which the statements of a body are lowered. Of several declarations of one name
the first counts, and the implicit receiver of a class counts before all of them. -/
def Context.initial (options : Options) (classDef : Option ClassDef)
    (declarations : List Declaration) : Context :=
  let empty := Context.ofOptions options
  let ctx := match classDef with
    | some c => empty.withClass c
    | none => empty
  { ctx with table := declarations.foldl (fun t d => t.declare d.symbol) ctx.table }

/-- The code that a state has arrived at. -/
def Context.compiled (ctx : Context) : Compiled where
  headers := ctx.headers.toList
  lines := ctx.lines

/-- Compiles a function body. -/
def CompilationUnit.compile (u : CompilationUnit) : Except LowerError Compiled :=
  match (lowerStatements u.statements : Lower Unit)
    (.initial u.options u.classDef u.declarations) with
  | .ok _ ctx => .ok ctx.compiled
  | .error e _ => .error e

end BoxedLet
