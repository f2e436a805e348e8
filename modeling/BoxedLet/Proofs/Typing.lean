import BoxedLet.Boxing

/-!
# BoxedLet.Proofs.Typing

**Which code stands for what.** A `Typing` says which locations may be read, and at which types.
Under a typing, code stands for a native scalar (`Code.IsScalar`), for a box (`Code.IsBox`), for
a native string variable (`Code.IsBuffer`) or for the body of a string literal (`Code.IsBody`), and
an instruction is well typed when each of its operands stands for what its primitive expects. What
it expects of the location that it writes is said apart: a temporary is made for the value that is
computed into it (`Instr.Computes`), and a destination has to suit what is done to it
(`Instr.Expects`).

`Source.Fits` lists the forms in which lowering an expression can return: the three literals without
native form, a native scalar, a box that the runtime has computed and a bare variable. What a
helper of the lowering may be given and what it returns is always said through it.

Code, instructions and sources are monotone: a location that becomes known later breaks nothing.
-/

namespace BoxedLet

/-- The locations that code may read, with their types. -/
abbrev Typing := Place → StaticType → Prop

/-! ### Code -/

namespace Code

/-- The code is a location that holds a box. -/
def IsBox (Γ : Typing) : Code → Prop
  | .place p => Γ p .dynamic
  | _ => False

/-- The code is a native string variable. -/
def IsBuffer (Γ : Typing) : Code → Prop
  | .place (.var x) => Γ (.var x) .string
  | _ => False

/-- The code is the body of a string literal. -/
def IsBody : Code → Prop
  | .stringBody _ | .blank => True
  | _ => False

/-- The code stands for a native scalar: native operators over scalar variables and literals, and
runtime tests of boxes. -/
def IsScalar (Γ : Typing) : Code → Prop
  | .place p => ∃ t, Γ p t ∧ t.isNativeScalar = true
  | .truth _ | .bit _ | .zero _ | .long _ | .double _ | .char _ => True
  | .binary _ l r => l.IsScalar Γ ∧ r.IsScalar Γ
  | .not c | .cast _ _ c | .nonZero c => c.IsScalar Γ
  | .compare _ l r => l.IsBox Γ ∧ r.IsBox Γ
  | .isTrue c => c.IsBox Γ
  | .verbatim _ | .null | .stringBody _ | .blank | .coerce _ _ => False

/-- The code is the given coercion of a box. No other code contains one. -/
def IsCoercion (Γ : Typing) (kind : Coercion) : Code → Prop
  | .coerce k c => k = kind ∧ c.IsBox Γ
  | _ => False

end Code

/-! ### Instructions -/

/-- The content of a box is built from what its constructor expects. -/
def BoxContent.WellTyped (Γ : Typing) : BoxContent → Prop
  | .null | .emptyArray => True
  | .string body => body.IsBody
  | .buffer source => source.IsBuffer Γ
  | .scalar _ value => value.IsScalar Γ

/-- The key is of the kind it is passed as. -/
def Key.WellTyped (Γ : Typing) : Key → Prop
  | .long value => value.IsScalar Γ
  | .literal body => body.IsBody
  | .buffer source => source.IsBuffer Γ
  | .boxed value => value.IsBox Γ

/-- The source of a native string is of the kind it is passed as. -/
def StringSource.WellTyped (Γ : Typing) : StringSource → Prop
  | .char value => value.IsScalar Γ
  | .long value => value.IsScalar Γ ∨ value.IsCoercion Γ .long
  | .buffer source => source.IsBuffer Γ
  | .literal body => body.IsBody

namespace Instr

/-- Every operand stands for what the primitive expects. -/
def WellTyped (Γ : Typing) : Instr → Prop
  | store _ _ value => value.IsScalar Γ ∨ value.IsCoercion Γ .number ∨ value.IsCoercion Γ .boolean
  | step _ _ | init _ _ | separate _ | bump _ _ _ => True
  | build _ _ content => content.WellTyped Γ
  | copy _ source | inPlace _ _ source => source.IsBox Γ
  | writeString _ _ source => source.WellTyped Γ
  | boxed _ _ left right => left.IsBox Γ ∧ right.IsBox Γ
  | call _ _ args => ∀ arg ∈ args, arg.IsBox Γ
  | readProperty _ object _ => object.IsBox Γ
  | fetch _ array key => array.IsBox Γ ∧ key.WellTyped Γ
  | append _ value | setProperty _ _ value | appendProperty _ _ value => value.IsBox Γ
  | update _ key value => key.WellTyped Γ ∧ value.IsBox Γ
  | updateProperty _ _ key value => key.IsBox Γ ∧ value.IsBox Γ

/-- Whether the instruction only prepares a box for the next one. -/
def isPreparation : Instr → Bool
  | init _ _ | separate _ => true
  | _ => false

/-- The instructions that compute a value of the given type into a new temporary: a box through a
primitive of the runtime, a native scalar through an assignment. -/
def Computes : Instr → StaticType → Prop
  | build _ inFrame _, t => inFrame = false ∧ t = .dynamic
  | boxed .., t | call .., t | readProperty .., t | fetch .., t => t = .dynamic
  | store _ op _, t => op = .set ∧ t ∈ [.int, .char, .double, .bool]
  | _, _ => False

/-- What an instruction at the end of an assignment expects of the destination: the form of target,
and the type and the storage of the variable. -/
def Expects (kind : TargetKind) (type : StaticType) (storage : Storage) : Instr → Prop
  | store _ _ _ => kind = .whole ∧ type.isNativeScalar = true
  | step _ _ => kind = .whole ∧ (type.isIntegral = true ∨ type = .double)
  | init _ _ | separate _ => kind = .whole ∧ type = .dynamic ∧ storage = .heapBoxed
  | build _ inFrame _ | bump _ inFrame _ =>
    kind = .whole ∧ type = .dynamic ∧ inFrame = (storage == .stackOnly)
  | copy _ _ | inPlace _ _ _ => kind = .whole ∧ type = .dynamic
  | writeString _ _ _ => kind = .whole ∧ type = .string
  | append _ _ => kind = .append ∧ type = .dynamic ∧ storage = .heapBoxed
  | update _ _ _ => kind = .element ∧ type = .dynamic ∧ storage = .heapBoxed
  | setProperty _ _ _ => kind = .property ∧ type = .dynamic ∧ storage = .heapBoxed
  | appendProperty _ _ _ => kind = .propertyAppend ∧ type = .dynamic
  | updateProperty _ _ _ _ => kind = .propertyElement ∧ type = .dynamic
  | boxed .. | call .. | readProperty .. | fetch .. => False

end Instr

/-! ### Sources -/

/-- The forms of a lowered expression. -/
inductive Source.Fits (Γ : Typing) : Source → Prop
  | null : Fits Γ { type := .null, code := .null, truth := .bit false }
  | emptyArray : Fits Γ (.ofCode .emptyArray .blank)
  | string (value : String) : Fits Γ (.ofCode .string (.stringBody value))
  | scalar {t : StaticType} {code truth : Code} (ht : t ∈ [.int, .char, .double, .bool])
      (hcode : code.IsScalar Γ) (htruth : truth.IsScalar Γ) : Fits Γ { type := t, code, truth }
  | box {p : Place} (hp : Γ p .dynamic) : Fits Γ (.ofBox p)
  | var {x : String} {t : StaticType} (hx : Γ (.var x) t) : Fits Γ (.ofVar x (.place (.var x)))

/-- Native code is scalar on both of its readings. -/
theorem Source.Fits.ofScalar {Γ : Typing} {t : StaticType} {code : Code}
    (ht : t ∈ [.int, .char, .double, .bool]) (hcode : code.IsScalar Γ) :
    Source.Fits Γ (.ofCode t code) :=
  .scalar ht hcode hcode

/-! ### Knowing more locations -/

section Mono

variable {Γ Δ : Typing}

theorem Code.IsBox.mono (h : ∀ p t, Γ p t → Δ p t) {c : Code} (hc : c.IsBox Γ) : c.IsBox Δ := by
  cases c with
  | place p => exact h p _ hc
  | _ => exact hc.elim

theorem Code.IsBuffer.mono (h : ∀ p t, Γ p t → Δ p t) {c : Code} (hc : c.IsBuffer Γ) :
    c.IsBuffer Δ := by
  cases c with
  | place p =>
      cases p with
      | var x => exact h _ _ hc
      | temp n => exact hc.elim
  | _ => exact hc.elim

theorem Code.IsScalar.mono (h : ∀ p t, Γ p t → Δ p t) {c : Code} (hc : c.IsScalar Γ) :
    c.IsScalar Δ := by
  induction c with
  | place p =>
      obtain ⟨t, hp, ht⟩ := hc
      exact ⟨t, h p t hp, ht⟩
  | truth _ | bit _ | zero _ | long _ | double _ | char _ => trivial
  | binary op l r ihl ihr => exact ⟨ihl hc.1, ihr hc.2⟩
  | not c ih | cast kind grouped c ih | nonZero c ih => exact ih hc
  | compare op l r => exact ⟨Code.IsBox.mono h hc.1, Code.IsBox.mono h hc.2⟩
  | isTrue c => exact Code.IsBox.mono h hc
  | verbatim _ | null | stringBody _ | blank | coerce _ _ => exact hc.elim

theorem Code.IsCoercion.mono (h : ∀ p t, Γ p t → Δ p t) {kind : Coercion} {c : Code}
    (hc : c.IsCoercion Γ kind) : c.IsCoercion Δ kind := by
  cases c with
  | coerce k c => exact ⟨hc.1, Code.IsBox.mono h hc.2⟩
  | _ => exact hc.elim

theorem BoxContent.WellTyped.mono (h : ∀ p t, Γ p t → Δ p t) {content : BoxContent}
    (hc : content.WellTyped Γ) : content.WellTyped Δ := by
  cases content with
  | null | emptyArray => trivial
  | string body => exact hc
  | buffer source => exact Code.IsBuffer.mono h hc
  | scalar kind value => exact Code.IsScalar.mono h hc

theorem Key.WellTyped.mono (h : ∀ p t, Γ p t → Δ p t) {k : Key} (hk : k.WellTyped Γ) :
    k.WellTyped Δ := by
  cases k with
  | long value => exact Code.IsScalar.mono h hk
  | literal body => exact hk
  | buffer source => exact Code.IsBuffer.mono h hk
  | boxed value => exact Code.IsBox.mono h hk

theorem StringSource.WellTyped.mono (h : ∀ p t, Γ p t → Δ p t) {source : StringSource}
    (hs : source.WellTyped Γ) : source.WellTyped Δ := by
  cases source with
  | char value => exact Code.IsScalar.mono h hs
  | long value => exact hs.imp (Code.IsScalar.mono h) (Code.IsCoercion.mono h)
  | buffer source => exact Code.IsBuffer.mono h hs
  | literal body => exact hs

theorem Instr.WellTyped.mono (h : ∀ p t, Γ p t → Δ p t) {i : Instr} (hi : i.WellTyped Γ) :
    i.WellTyped Δ := by
  have hbox : ∀ {c : Code}, c.IsBox Γ → c.IsBox Δ := Code.IsBox.mono h
  cases i with
  | store dst op value =>
      exact hi.imp (Code.IsScalar.mono h) (Or.imp (Code.IsCoercion.mono h) (Code.IsCoercion.mono h))
  | step | init | separate | bump => trivial
  | build dst inFrame content => exact BoxContent.WellTyped.mono h hi
  | copy | inPlace | readProperty | append | setProperty | appendProperty => exact hbox hi
  | writeString dst mode source => exact StringSource.WellTyped.mono h hi
  | boxed | updateProperty => exact ⟨hbox hi.1, hbox hi.2⟩
  | call dst name args => exact fun arg harg => hbox (hi arg harg)
  | fetch dst array key => exact ⟨hbox hi.1, Key.WellTyped.mono h hi.2⟩
  | update dst key value => exact ⟨Key.WellTyped.mono h hi.1, hbox hi.2⟩

theorem Source.Fits.mono (h : ∀ p t, Γ p t → Δ p t) {s : Source} (hs : s.Fits Γ) :
    s.Fits Δ := by
  cases hs with
  | null => exact .null
  | emptyArray => exact .emptyArray
  | string value => exact .string value
  | scalar ht hcode htruth =>
      exact .scalar ht (Code.IsScalar.mono h hcode) (Code.IsScalar.mono h htruth)
  | box hp => exact .box (h _ _ hp)
  | var hx => exact .var (h _ _ hx)

end Mono

end BoxedLet
