import BoxedLet.StaticType

/-!
# BoxedLet.Symbol

**Symbols** and the table that holds them.

The table keeps declared variables and temporaries in the order in which they were added, under
pairwise distinct names. A temporary is named by the temporary prefix and a number; numbers only go
up, and a number whose name is taken is passed over. As many candidates as there are symbols can be
taken at most, which bounds the search (`freshNumber`).
-/

namespace BoxedLet

/-- Where the value of a variable lives. -/
inductive Storage
  /-- In the frame; never shared. -/
  | stackOnly
  /-- In a heap box that others may share. -/
  | heapBoxed
  deriving Repr, DecidableEq, Inhabited

/-- The name a storage class has in documents and answers. -/
def Storage.name : Storage → String
  | stackOnly => "stack-only"
  | heapBoxed => "heap-boxed"

/-- The storage of a variable whose declaration names none. -/
def Storage.ofType : StaticType → Storage
  | .dynamic => heapBoxed
  | _ => stackOnly

/-- A variable of the function body. The two counters are 32-bit numbers. -/
structure Symbol where
  name : String
  type : StaticType
  storage : Storage
  readOnly : Bool := false
  initialized : Bool := false
  /-- The box has to be set to null on entry to the function. -/
  mustInitToNull : Bool := false
  /-- How often the symbol was the destination of an assignment. -/
  mutationCount : UInt32 := 0
  /-- How often the box has been initialized by emitted code. -/
  variantInits : UInt32 := 0
  temporary : Bool := false
  deriving Repr, DecidableEq, Inhabited

namespace Symbol

/-- Whether the symbol lives in the frame only. -/
def isLocalOnly (s : Symbol) : Bool :=
  s.storage == .stackOnly

/-- A new temporary. Boxed temporaries live on the heap and start out as null. -/
def ofTemporary (name : String) (type : StaticType) : Symbol where
  name := name
  type := type
  storage := Storage.ofType type
  initialized := true
  mustInitToNull := type == .dynamic
  mutationCount := 1
  temporary := true

end Symbol

/-- The symbols of a function body. -/
structure SymbolTable where
  /-- In the order in which they were added. -/
  symbols : List Symbol := []
  tempPrefix : String := "_"
  /-- The number of the next candidate for a temporary. -/
  nextTemp : Nat := 0
  /-- Whether the frame needs room for tracked boxes. -/
  mustGrowStack : Bool := false
  deriving Repr, DecidableEq, Inhabited

namespace SymbolTable

/-- The names in the table, in order. -/
def names (t : SymbolTable) : List String :=
  t.symbols.map Symbol.name

/-- The symbol of that name. -/
def get? (t : SymbolTable) (name : String) : Option Symbol :=
  t.symbols.find? (·.name == name)

/-- Whether the name is taken. -/
def contains (t : SymbolTable) (name : String) : Bool :=
  t.symbols.any (·.name == name)

/-- Changes the symbol of that name, if there is one. -/
def modify (t : SymbolTable) (name : String) (f : Symbol → Symbol) : SymbolTable :=
  { t with symbols := t.symbols.map fun s => if s.name == name then f s else s }

/-- Adds a symbol at the end. -/
def push (t : SymbolTable) (s : Symbol) : SymbolTable :=
  { t with symbols := t.symbols ++ [s] }

/-- Adds a symbol unless its name is taken. -/
def declare? (t : SymbolTable) (s : Symbol) : Option SymbolTable :=
  if t.contains s.name then none else some (t.push s)

/-- Adds a symbol; a symbol whose name is taken changes nothing. -/
def declare (t : SymbolTable) (s : Symbol) : SymbolTable :=
  (t.declare? s).getD t

/-- Counts a write of the variable. -/
def countWrite (t : SymbolTable) (name : String) : SymbolTable :=
  t.modify name fun s => { s with mutationCount := s.mutationCount + 1 }

/-- Records that the variable has a value. -/
def markInitialized (t : SymbolTable) (name : String) : SymbolTable :=
  t.modify name fun s => { s with initialized := true }

/-- Records that the variable has to be set to null on entry. -/
def requireNull (t : SymbolTable) (name : String) : SymbolTable :=
  t.modify name fun s => { s with mustInitToNull := true }

/-- Counts an initialization of the box, which from then on has to be set to null on entry. -/
def countInit (t : SymbolTable) (name : String) : SymbolTable :=
  t.modify name fun s => { s with mustInitToNull := true, variantInits := s.variantInits + 1 }

/-- Records that the frame needs room for tracked boxes. -/
def growStack (t : SymbolTable) : SymbolTable :=
  { t with mustGrowStack := true }

/-! ### Temporaries -/

/-- The name of the temporary with number `n`. -/
def tempName (t : SymbolTable) (n : Nat) : String :=
  t.tempPrefix ++ toString n

/-- The first number from `n` on whose name is free, after passing over at most `tries` taken
ones. -/
def freshFrom (t : SymbolTable) : (tries n : Nat) → Nat
  | 0, n => n
  | tries + 1, n => if t.contains (t.tempName n) then t.freshFrom tries (n + 1) else n

/-- The number of the next temporary. No more candidates can be taken than there are symbols. -/
def freshNumber (t : SymbolTable) : Nat :=
  t.freshFrom t.symbols.length t.nextTemp

/-- Allocates a temporary of the given type. -/
def newTemporary (t : SymbolTable) (type : StaticType) : Symbol × SymbolTable :=
  let n := t.freshNumber
  let s := Symbol.ofTemporary (t.tempName n) type
  (s, { t.push s with nextTemp := n + 1 })

/-- All temporaries, in order of allocation. -/
def temporaries (t : SymbolTable) : List Symbol :=
  t.symbols.filter Symbol.temporary

/-! ### What the operations do to the names -/

@[simp] theorem names_push (t : SymbolTable) (s : Symbol) :
    (t.push s).names = t.names ++ [s.name] := by
  simp [names, push]

theorem contains_iff_mem_names (t : SymbolTable) (name : String) :
    t.contains name = true ↔ name ∈ t.names := by
  simp [contains, names]

/-- A change that keeps the symbol's name keeps all names. -/
theorem names_modify (t : SymbolTable) (name : String) (f : Symbol → Symbol)
    (h : ∀ s, (f s).name = s.name) : (t.modify name f).names = t.names := by
  simp only [names, modify, List.map_map]
  refine List.map_congr_left fun s _ => ?_
  simp only [Function.comp_apply]
  split
  · exact h s
  · rfl

@[simp] theorem names_countWrite (t : SymbolTable) (name : String) :
    (t.countWrite name).names = t.names :=
  t.names_modify name _ fun _ => rfl

@[simp] theorem names_markInitialized (t : SymbolTable) (name : String) :
    (t.markInitialized name).names = t.names :=
  t.names_modify name _ fun _ => rfl

@[simp] theorem names_requireNull (t : SymbolTable) (name : String) :
    (t.requireNull name).names = t.names :=
  t.names_modify name _ fun _ => rfl

@[simp] theorem names_countInit (t : SymbolTable) (name : String) :
    (t.countInit name).names = t.names :=
  t.names_modify name _ fun _ => rfl

@[simp] theorem names_growStack (t : SymbolTable) : t.growStack.names = t.names := rfl

end SymbolTable

end BoxedLet
