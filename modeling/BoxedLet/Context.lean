import BoxedLet.Header
import BoxedLet.Instr
import BoxedLet.Listing
import BoxedLet.LowerError
import BoxedLet.Symbol

/-!
# BoxedLet.Context

The **state of lowering** a function body, and the computations that change it.

A `Lower` computation may fail with a `LowerError`; what it did to the state until then stays, so
that temporaries once handed out are never handed out again. Dropping the emitted instructions and
headers of a failed assignment is the business of `Lower.atomically` alone, which cuts both lists
back to the lengths they had before.

Computations are written for any type `ε` of things to stop with that `Exits` allows: errors are
among them, and emitting an instruction may stop a computation, too. `Lower` is the plain case, in
which errors are all there is.
-/

namespace BoxedLet

/-- The empty listing at the nesting level of the options. -/
def Options.listing (o : Options) : Listing where
  indent := o.indent
  level := o.indentLevel.toNat

/-- The line of an instruction, at the nesting level of the options. -/
def Instr.line (o : Options) (i : Instr) : String :=
  repeated o.indent o.indentLevel.toNat ++ i.render o

/-- The state shared by the assignments of one function body. -/
structure Context where
  options : Options := {}
  classDef : Option ClassDef := none
  table : SymbolTable := {}
  /-- The instructions emitted so far, oldest first. -/
  code : List Instr := []
  /-- The headers those instructions need. -/
  headers : Headers := {}
  deriving Repr, Inhabited

namespace Context

/-- The state before anything is declared. -/
def ofOptions (o : Options) : Context where
  options := o
  table := { tempPrefix := o.tempPrefix }

/-- Enters a method of the class: declares the implicit receiver, which has a value from the
start. -/
def withClass (ctx : Context) (c : ClassDef) : Context :=
  let receiver := ctx.options.implicitReceiver
  { ctx with
    classDef := some c
    table := (ctx.table.declare { name := receiver, type := .dynamic, storage := .heapBoxed })
      |>.markInitialized receiver }

/-- How much had been emitted at some moment. -/
structure Checkpoint where
  code : Nat
  headers : Nat
  deriving Repr, DecidableEq, Inhabited

/-- How much has been emitted so far. -/
def checkpoint (ctx : Context) : Checkpoint where
  code := ctx.code.length
  headers := ctx.headers.toList.length

/-- Drops what was emitted after a checkpoint. The symbol table stays as it is. -/
def rollback (ctx : Context) (mark : Checkpoint) : Context :=
  { ctx with
    code := ctx.code.take mark.code
    headers := ctx.headers.truncate mark.headers }

/-- The text of the emitted instructions, one line each, at the nesting level of the options. -/
def lines (ctx : Context) : List String :=
  (ctx.options.listing.outputAll (ctx.code.map (Instr.render ctx.options))).lines

theorem lines_eq (ctx : Context) : ctx.lines = ctx.code.map (Instr.line ctx.options) := by
  simp [lines, Options.listing, Listing.outputAll, Listing.margin, Instr.line]

theorem lines_of_code_append {ctx ctx' : Context} {more : List Instr}
    (hcode : ctx'.code = ctx.code ++ more) (hoptions : ctx'.options = ctx.options) :
    ctx'.lines = ctx.lines ++ more.map (Instr.line ctx.options) := by
  rw [lines_eq, lines_eq, hcode, hoptions, List.map_append]

end Context

/-- A computation on the state that may stop with an `ε`. -/
abbrev LowerOr (ε : Type) := EStateM ε Context

/-- A computation on the state that may fail. -/
abbrev Lower := LowerOr LowerError

/-- What computations can stop with. -/
class Exits (ε : Type) where
  /-- An assignment cannot be lowered. -/
  ofError : LowerError → ε
  /-- The instruction cannot be emitted under the options, if that can happen. -/
  refused? : Options → Instr → Option ε

/-- Errors alone: every instruction can be emitted. -/
@[default_instance]
instance : Exits LowerError where
  ofError e := e
  refused? _ _ := none

namespace Lower

variable {ε α : Type} [Exits ε]

/-- Fails in the assignment at the given position. -/
def fail (span : Span) (cause : Cause) : LowerOr ε α :=
  throw (Exits.ofError ⟨cause, span.location⟩)

/-! ### Symbols -/

/-- Changes the symbol table. -/
def modifyTable (f : SymbolTable → SymbolTable) : LowerOr ε Unit :=
  modify fun ctx => { ctx with table := f ctx.table }

/-- The symbol of a variable that is read. -/
def readSymbol (span : Span) (name : String) : LowerOr ε Symbol := do
  match (← get).table.get? name with
  | some s => pure s
  | none => fail span (.undeclaredVariable name .read)

/-- The symbol of a variable that is written, as it is after counting the write. -/
def writeSymbol (span : Span) (name : String) : LowerOr ε Symbol := do
  modifyTable (·.countWrite name)
  match (← get).table.get? name with
  | some s => pure s
  | none => fail span (.undeclaredVariable name .mutate)

/-- Allocates a temporary and returns its location. -/
def newTemporary (type : StaticType) : LowerOr ε Place := do
  let ctx ← get
  let (s, table) := ctx.table.newTemporary type
  set { ctx with table }
  pure (.temp s.name)

/-! ### Output -/

/-- Emits an instruction, unless it is refused. -/
def emit (i : Instr) : LowerOr ε Unit := fun ctx =>
  match Exits.refused? ctx.options i with
  | some e => .error e ctx
  | none => .ok () { ctx with code := ctx.code ++ [i] }

/-- Records that a header is needed. -/
def require (h : Header) : LowerOr ε Unit :=
  modify fun ctx => { ctx with headers := ctx.headers.insert h }

/-- Allocates a temporary, emits the instruction that fills it and returns its location. -/
def fillTemporary (type : StaticType) (instr : Place → Instr) : LowerOr ε Place := do
  let temp ← newTemporary type
  emit (instr temp)
  pure temp

/-- Initializes a heap box before it is rebuilt, and notes in the table that it does. Boxes in the
frame, and names that are not in the table, need no initialization. -/
def initBox (name : String) : LowerOr ε Unit := do
  match (← get).table.get? name with
  | none => pure ()
  | some s =>
    if s.isLocalOnly then pure ()
    else
      modifyTable fun t => (t.countInit name).growStack
      emit (.init (.var name) (s.variantInits == 0))

/-! ### Running -/

/-- Runs a computation; if it stops, what it emitted is dropped. -/
def atomically (x : LowerOr ε α) : LowerOr ε α := fun ctx =>
  match x ctx with
  | .ok a ctx' => .ok a ctx'
  | .error e ctx' => .error e (ctx'.rollback ctx.checkpoint)

end Lower

/-- The state that a computation leaves behind, whether or not it fails. -/
def stateOf {ε α : Type} : EStateM.Result ε Context α → Context
  | .ok _ ctx | .error _ ctx => ctx

end BoxedLet
