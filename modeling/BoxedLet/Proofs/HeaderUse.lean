import BoxedLet.Proofs.Families
import BoxedLet.Proofs.Runs

/-!
# BoxedLet.Proofs.HeaderUse

**Headers are exactly what the output needs.** Lowering asks for a header when it makes the code that
needs it, which may be long before an instruction with this code is emitted: the code of a comparison
of boxes is part of a source until a strategy writes it somewhere.

So between the two a header is *due* (`Context.Owes`). `Lower.Pays` says of a computation what has to
be due when it starts and what is due when it succeeds: resolving an expression leaves the headers
that the code of its source needs, making a box of it pays them, and an assignment that succeeds owes
nothing. One that fails may owe headers, and is rolled back.
-/

namespace BoxedLet

variable {span : Span}

/-! ### Headers that are due -/

/-- The headers are those that the emitted instructions need and those that are `due`, without
repetition. -/
structure Context.Owes (due : List Header) (ctx : Context) : Prop where
  nodup : ctx.headers.toList.Nodup
  mem_iff : ∀ h, h ∈ ctx.headers.toList ↔ h ∈ due ∨ ∃ i ∈ ctx.code, h ∈ i.needs

namespace Context.Owes

variable {ctx ctx' : Context} {due due' : List Header}

theorem congr (h : ctx.Owes due) (hdue : ∀ x, x ∈ due ↔ x ∈ due') : ctx.Owes due' :=
  ⟨h.nodup, fun x => (h.mem_iff x).trans (or_congr_left (hdue x))⟩

/-- Only the two lists matter. -/
theorem of_eq (h : ctx.Owes due) (hcode : ctx'.code = ctx.code)
    (hheaders : ctx'.headers = ctx.headers) : ctx'.Owes due := by
  refine ⟨hheaders ▸ h.nodup, fun x => ?_⟩
  rw [hheaders, hcode]
  exact h.mem_iff x

/-- A header that is asked for is due. -/
theorem needing (h : ctx.Owes due) (header : Header) :
    (ctx.needing header).Owes (header :: due) := by
  refine ⟨OrderedSet.nodup_insert _ _ h.nodup, fun x => ?_⟩
  have hinsert := OrderedSet.mem_insert ctx.headers header x
  simp only [Context.needing, hinsert, h.mem_iff x, List.mem_cons]
  grind

/-- An instruction pays what it needs. -/
theorem emitting {i : Instr} (h : ctx.Owes (i.needs ++ due)) (hcode : ctx'.code = ctx.code ++ [i])
    (hheaders : ctx'.headers = ctx.headers) : ctx'.Owes due := by
  refine ⟨hheaders ▸ h.nodup, fun x => ?_⟩
  rw [hheaders, hcode, h.mem_iff x]
  simp only [List.mem_append, List.mem_singleton]
  grind

end Context.Owes

namespace Lower

variable {α β : Type} {due : List Header}

/-- Started with the headers in `due`, a computation that succeeds returns a value that satisfies
`post` and leaves the headers of `debt`. All others stay due. -/
def Pays (due : List Header) (x : Lower α) (post : α → Prop) (debt : α → List Header) : Prop :=
  ∀ others ctx a ctx', x ctx = .ok a ctx' → ctx.Owes (due ++ others) →
    post a ∧ ctx'.Owes (debt a ++ others)

namespace Pays

variable {x : Lower α} {f : α → Lower β} {post : α → Prop} {debt : α → List Header}
  {post' : β → Prop} {debt' : β → List Header}

theorem pure {a : α} (hpost : post a) (hdue : ∀ h, h ∈ due ↔ h ∈ debt a) :
    Pays due (pure a) post debt := by
  intro others ctx a' ctx' hrun howes
  cases hrun
  refine ⟨hpost, howes.congr fun h => ?_⟩
  rw [List.mem_append, List.mem_append, hdue h]

/-- What is due is what the value needs. -/
theorem keep {a : α} (hpost : post a) (hdue : due = debt a) :
    Pays due (Pure.pure a) post debt :=
  pure hpost fun _ => by rw [hdue]

theorem fail (span : Span) (cause : Cause) : Pays due (fail span cause : Lower α) post debt := by
  intro others ctx a ctx' hrun howes
  cases hrun

theorem congr {due' : List Header} (hx : Pays due x post debt) (hdue : ∀ h, h ∈ due ↔ h ∈ due') :
    Pays due' x post debt := by
  intro others ctx a ctx' hrun howes
  refine hx others ctx a ctx' hrun (howes.congr fun h => ?_)
  rw [List.mem_append, List.mem_append, hdue h]

theorem swap {others : List Header} (hx : Pays (due ++ others) x post debt) :
    Pays (others ++ due) x post debt :=
  hx.congr fun h => by rw [List.mem_append, List.mem_append, or_comm]

/-- **Sequencing.** What the first part does not ask about stays due for the second. -/
theorem bind_frame (frame : List Header) (hx : Pays due x post debt)
    (hf : ∀ a, post a → Pays (debt a ++ frame) (f a) post' debt') :
    Pays (due ++ frame) (x >>= f) post' debt' := by
  intro others ctx b ctx' hrun howes
  rw [bind_apply] at hrun
  cases hmid : x ctx with
  | error e mid =>
      rw [hmid] at hrun
      cases hrun
  | ok a mid =>
      rw [hmid] at hrun
      rw [List.append_assoc] at howes
      obtain ⟨hpost, hmids⟩ := hx (frame ++ others) ctx a mid hmid howes
      rw [← List.append_assoc] at hmids
      exact hf a hpost others mid b ctx' hrun hmids

theorem bind (hx : Pays due x post debt) (hf : ∀ a, post a → Pays (debt a) (f a) post' debt') :
    Pays due (x >>= f) post' debt' := by
  have hbind := bind_frame [] hx fun a ha => by
    rw [List.append_nil]
    exact hf a ha
  rw [List.append_nil] at hbind
  exact hbind

/-- A first part to which no header matters. -/
theorem bind_quiet (hx : Pays [] x post fun _ => [])
    (hf : ∀ a, post a → Pays due (f a) post' debt') : Pays due (x >>= f) post' debt' :=
  bind_frame due hx hf

theorem ite {p : Prop} [Decidable p] {y : Lower α} (hx : p → Pays due x post debt)
    (hy : ¬ p → Pays due y post debt) : Pays due (if p then x else y) post debt := by
  split
  · exact hx ‹_›
  · exact hy ‹_›

/-- A computation that neither emits nor asks for a header. -/
theorem of_eq (hx : ∀ ctx a ctx', x ctx = .ok a ctx' →
    post a ∧ ctx'.code = ctx.code ∧ ctx'.headers = ctx.headers) :
    Pays [] x post fun _ => [] := by
  intro others ctx a ctx' hrun howes
  obtain ⟨hpost, hcode, hheaders⟩ := hx ctx a ctx' hrun
  exact ⟨hpost, howes.of_eq hcode hheaders⟩

end Pays

/-- Nothing is asked of the value. -/
abbrev Settles (due : List Header) (x : Lower α) : Prop :=
  Pays due x (fun _ => True) fun _ => []

/-! ### Steps -/

theorem get_settles : Settles [] (get : Lower Context) :=
  .of_eq fun ctx a ctx' hrun => by
    cases hrun
    exact ⟨trivial, rfl, rfl⟩

theorem modifyTable_settles (f : SymbolTable → SymbolTable) : Settles [] (modifyTable f) :=
  .of_eq fun ctx a ctx' hrun => by
    cases hrun
    exact ⟨trivial, rfl, rfl⟩

theorem require_pays (h : Header) : Pays [] (require h) (fun _ => True) fun _ => [h] := by
  intro others ctx a ctx' hrun howes
  cases hrun
  exact ⟨trivial, howes.needing h⟩

theorem emit_settles (i : Instr) : Settles i.needs (emit i) := by
  intro others ctx a ctx' hrun howes
  cases hrun
  exact ⟨trivial, howes.emitting rfl rfl⟩

theorem emit_settles_of_eq {i : Instr} (hi : i.needs = due) : Settles due (emit i) := by
  have hemit := emit_settles i
  rw [hi] at hemit
  exact hemit

theorem fillTemporary_settles {type : StaticType} {instr : Place → Instr}
    (hinstr : ∀ p, (instr p).needs = due) : Settles due (fillTemporary type instr) := by
  intro others ctx a ctx' hrun howes
  rw [fillTemporary_apply] at hrun
  cases hrun
  refine ⟨trivial, ?_⟩
  rw [← hinstr (.temp ctx.table.nextName)] at howes
  exact howes.emitting rfl rfl

end Lower

/-! ### Sources -/

/-- What the shape of a source says about its static type. -/
def Source.Shows (s : Source) : Shape → Prop
  | .value t => s.type = t
  | .binding _ => s.type = .dynamic

/-- A source needs the same headers on both of its readings, and none at all if it is no native
scalar. -/
structure Source.Balanced (s : Source) : Prop where
  truth : s.truth.needs = s.code.needs
  code : s.type.isNativeScalar = false → s.code.needs = []

namespace Source.Balanced

theorem ofCode {t : StaticType} {c : Code} (h : t.isNativeScalar = false → c.needs = []) :
    (Source.ofCode t c).Balanced :=
  ⟨rfl, h⟩

theorem ofBox (p : Place) : (Source.ofBox p).Balanced :=
  ⟨rfl, fun _ => rfl⟩

variable {s : Source} {shape : Shape}

theorem scalarCode (hs : s.Balanced) (kind : BoxKind) :
    (s.scalarCode kind).needs = s.code.needs := by
  unfold Source.scalarCode
  split
  · exact hs.truth
  · rfl

theorem needs_of_binding (hs : s.Balanced) {t : StaticType} (hshows : s.Shows (.binding t)) :
    s.code.needs = [] := by
  have htype : s.type = .dynamic := hshows
  exact hs.code (by rw [htype]; rfl)

/-- The box of a source needs what the source needs. -/
theorem boxContent (hs : s.Balanced) (hshows : s.Shows shape) {content : BoxContent}
    (h : boxContent? shape s = some content) : content.needs = s.code.needs := by
  have hscalar : ∀ t, (BoxKind.ofType? t).map (fun kind => .scalar kind (s.scalarCode kind)) =
      some content → content.needs = s.code.needs := by
    intro t ht
    obtain ⟨kind, -, rfl⟩ := Option.map_eq_some_iff.mp ht
    exact hs.scalarCode kind
  unfold boxContent? at h
  split at h
  · cases h
    have htype : s.type = .null := hshows
    exact (hs.code (by rw [htype]; rfl)).symm
  · cases h
    rfl
  · cases h
    have htype : s.type = .emptyArray := hshows
    exact (hs.code (by rw [htype]; rfl)).symm
  · cases h
    rfl
  · exact hscalar _ h
  · exact hscalar _ h

end Source.Balanced

/-- A key needs what the index needs. -/
theorem Key.needs_of_of? {shape : Shape} {index : Source} {key : Key}
    (h : Key.of? shape index = some key) : key.needs = index.code.needs := by
  unfold Key.of? at h
  split at h
  · cases h
    rfl
  · cases h
    rfl
  · cases h
    rfl
  all_goals
    split at h
    · cases h
      rfl
    · cases h

namespace Lower

variable {s left right : Source}

theorem readSymbol_settles (name : String) : Settles [] (readSymbol span name) := by
  refine .of_eq fun ctx a ctx' hrun => ?_
  cases hget : ctx.table.get? name with
  | none =>
      rw [readSymbol_undeclared hget] at hrun
      cases hrun
  | some s =>
      rw [readSymbol_apply hget] at hrun
      cases hrun
      exact ⟨trivial, rfl, rfl⟩

theorem subtype_settles (s : Source) : Settles [] (s.subtype span) := by
  unfold Source.subtype
  split
  · exact .bind (readSymbol_settles _) fun symbol _ => .keep trivial rfl
  · exact .keep trivial rfl

theorem shape_pays (s : Source) : Pays [] (s.shape span) s.Shows fun _ => [] := by
  unfold Source.shape
  refine .ite (fun hdynamic => ?_) fun _ => .keep rfl rfl
  refine .bind (subtype_settles s) fun t _ => ?_
  exact .ite (fun _ => .fail _ _) fun _ => .keep hdynamic rfl

/-- A box pays what its source needs. -/
theorem materialize_pays (hs : s.Balanced) :
    Pays s.code.needs (materialize span s) (fun c => c.needs = []) fun _ => [] := by
  refine .bind_quiet (shape_pays s) fun shape hshows => ?_
  refine .ite (fun hbox => ?_) fun _ => ?_
  · subst hbox
    have hneeds := hs.needs_of_binding hshows
    exact .keep hneeds hneeds
  · split
    · exact .fail _ _
    · rename_i content hcontent
      have hneeds := hs.boxContent hshows hcontent
      refine .bind (fillTemporary_settles fun p => hneeds) fun p _ => ?_
      exact .keep rfl rfl

/-- A box that is computed into a new temporary. -/
theorem fillBox_pays {due : List Header} {instr : Place → Instr}
    (hinstr : ∀ p, (instr p).needs = due) :
    Pays due (fillTemporary .dynamic instr >>= fun p => pure (.ofBox p)) Source.Balanced
      fun s => s.code.needs :=
  .bind (fillTemporary_settles hinstr) fun p _ => .keep (.ofBox p) rfl

/-! ### Expressions -/

theorem nativeOperand?_pays (hs : s.Balanced) :
    Pays [] (nativeOperand? span s) (fun operand? => ∀ operand, operand? = some operand →
      operand.2.needs = s.code.needs) fun _ => [] := by
  refine .bind (subtype_settles s) fun t _ => ?_
  refine .ite (fun _ => ?_) fun _ => ?_
  · refine .keep ?_ rfl
    intro operand hoperand
    cases hoperand
    dsimp only
    split
    · exact hs.truth
    · rfl
  · exact .keep nofun rfl

theorem nativeOperands?_pays (hl : left.Balanced) (hr : right.Balanced) :
    Pays [] (nativeOperands? span left right) (fun operands? => ∀ l r, operands? = some (l, r) →
      l.2.needs = left.code.needs ∧ r.2.needs = right.code.needs) fun _ => [] := by
  refine .bind (nativeOperand?_pays hl) fun l? hl => ?_
  refine .bind (nativeOperand?_pays hr) fun r? hr => ?_
  split
  · rename_i l r
    refine .keep ?_ rfl
    intro l' r' heq
    cases heq
    exact ⟨hl l rfl, hr r rfl⟩
  · exact .keep nofun rfl

theorem condition_pays (hs : s.Balanced) :
    Pays s.code.needs (condition span s) (fun _ => True) Code.needs := by
  refine .bind_quiet (subtype_settles s) fun t _ => ?_
  refine .ite (fun _ => ?_) fun _ => .ite (fun hnull => ?_) fun _ => .ite (fun _ => ?_) fun _ => ?_
  · exact .keep trivial hs.truth.symm
  · have hneeds : s.code.needs = [] := hs.code (by rw [hnull]; rfl)
    exact .keep trivial hneeds
  · exact .bind_frame s.code.needs (require_pays .operators) fun _ _ =>
      .keep trivial rfl
  · exact .ite (fun _ => .keep trivial rfl) fun _ => .fail _ _

theorem boxedOp_pays (op : BoxedOp) (hl : left.Balanced) (hr : right.Balanced) :
    Pays (left.code.needs ++ right.code.needs) (boxedOp span op left right) Source.Balanced
      fun s => s.code.needs := by
  refine .bind_frame right.code.needs (materialize_pays hl) fun l hl => ?_
  refine .bind (materialize_pays hr) fun r hr => ?_
  refine .bind (require_pays _) fun _ _ => fillBox_pays fun p => ?_
  rw [Instr.needs, hl, hr, List.append_nil]

theorem boxedCompare_pays (op : Comparison) (hl : left.Balanced) (hr : right.Balanced) :
    Pays (left.code.needs ++ right.code.needs) (boxedCompare span op left right) Source.Balanced
      fun s => s.code.needs := by
  refine .bind_frame right.code.needs (materialize_pays hl) fun l hl => ?_
  refine .bind (materialize_pays hr) fun r hr => ?_
  refine .bind (require_pays _) fun _ _ => .pure (.ofCode nofun) fun h => ?_
  show h ∈ [.operators] ↔ h ∈ Header.operators :: (l.needs ++ r.needs)
  rw [hl, hr, List.append_nil]

theorem binary_pays (op : BinaryOp) (hl : left.Balanced) (hr : right.Balanced) :
    Pays (left.code.needs ++ right.code.needs) (binary span op left right) Source.Balanced
      fun s => s.code.needs := by
  -- a native operator, once both operands are known to be native
  have hnative : ∀ {t : StaticType} {l r : Code}, t.isNativeScalar = true →
      l.needs = left.code.needs ∧ r.needs = right.code.needs →
      Pays (left.code.needs ++ right.code.needs) (pure (.ofCode t (.binary op l r)))
        Source.Balanced fun s => s.code.needs := by
    intro t l r ht hneeds
    refine .pure (.ofCode fun hno => absurd (ht.symm.trans hno) (by decide)) fun h => ?_
    show _ ↔ h ∈ l.needs ++ r.needs
    rw [hneeds.1, hneeds.2]
  cases op with
  | connect c =>
      refine .bind_frame right.code.needs (condition_pays hl) fun l _ => ?_
      have hright : Pays (right.code.needs ++ l.needs)
          (condition span right >>= fun r => pure (.ofCode .bool (.binary (.connect c) l r)))
          Source.Balanced fun s => s.code.needs := by
        refine .bind_frame l.needs (condition_pays hr) fun r _ => .pure (.ofCode nofun) fun h => ?_
        show _ ↔ h ∈ l.needs ++ r.needs
        rw [List.mem_append, List.mem_append, or_comm]
      exact hright.swap
  | concat => exact boxedOp_pays .concat hl hr
  | arith op =>
      refine .bind_quiet (nativeOperands?_pays hl hr) fun operands? hoperands => ?_
      split
      · rename_i lt l rt r
        refine hnative ?_ (hoperands (lt, l) (rt, r) rfl)
        unfold arithType
        split <;> rfl
      · exact boxedOp_pays (.arith op) hl hr
  | compare c =>
      refine .bind_quiet (nativeOperands?_pays hl hr) fun operands? hoperands => ?_
      split
      · rename_i lt l rt r
        exact hnative rfl (hoperands (lt, l) (rt, r) rfl)
      · exact boxedCompare_pays c hl hr

theorem negate_pays (hs : s.Balanced) :
    Pays s.code.needs (negate span s) Source.Balanced fun s => s.code.needs :=
  .bind (condition_pays hs) fun _ _ => .keep (.ofCode nofun) rfl

theorem callFunction_pays (name : String) {args : List Code} (hargs : ∀ arg ∈ args, arg.needs = []) :
    Pays [] (callFunction name args) Source.Balanced fun s => s.code.needs := by
  refine .bind (require_pays .fcall) fun _ _ => fillBox_pays fun p => ?_
  rw [Instr.needs, List.flatMap_eq_nil_iff.mpr hargs]

theorem readProperty_pays (object : Source) (property : String) :
    Pays object.code.needs (readProperty span object property) Source.Balanced
      fun s => s.code.needs := by
  refine .bind_quiet (subtype_settles object) fun t _ => ?_
  refine .ite (fun _ => ?_) fun _ => .fail _ _
  exact .bind_frame object.code.needs (require_pays .object) fun _ _ => fillBox_pays fun p => rfl

theorem checkIndexable_settles (array : Source) : Settles [] (checkIndexable span array) := by
  refine .bind (subtype_settles array) fun t _ => ?_
  exact .ite (fun _ => .keep trivial rfl) fun _ => .fail _ _

theorem fetchElement_pays (array index : Source) :
    Pays (array.code.needs ++ index.code.needs) (fetchElement span array index) Source.Balanced
      fun s => s.code.needs := by
  refine .bind_quiet (shape_pays index) fun shape _ => ?_
  split
  · exact .fail _ _
  · rename_i key hkey
    have hframe := Pays.bind_frame (array.code.needs ++ index.code.needs) (require_pays .array)
      fun _ _ => @fillBox_pays _ (Instr.fetch · array.code key) fun p => ?_
    · exact hframe
    · rw [Instr.needs, Key.needs_of_of? hkey]
      rfl

theorem doubleLiteral_pays (x : Float) :
    Pays [] (doubleLiteral span x) Source.Balanced fun s => s.code.needs := by
  unfold doubleLiteral
  split
  · exact .keep (.ofCode nofun) rfl
  · exact .fail _ _

theorem bareVariable_pays (name : String) :
    Pays [] (bareVariable span name) Source.Balanced fun s => s.code.needs :=
  .bind (readSymbol_settles name) fun _ _ => .keep ⟨rfl, fun _ => rfl⟩ rfl

mutual
/-- **Resolving an expression leaves the headers that its code needs.** -/
theorem resolve_pays (e : Expr) :
    Pays [] (resolve span e) Source.Balanced fun s => s.code.needs := by
  cases e with
  | null => exact .keep ⟨rfl, fun _ => rfl⟩ rfl
  | bool b => exact .keep ⟨rfl, fun _ => rfl⟩ rfl
  | int n => exact .keep (.ofCode fun _ => rfl) rfl
  | double x => exact doubleLiteral_pays x
  | char c => exact .keep (.ofCode fun _ => rfl) rfl
  | string s => exact .keep (.ofCode fun _ => rfl) rfl
  | emptyArray => exact .keep (.ofCode fun _ => rfl) rfl
  | var name => exact bareVariable_pays name
  | binary op l r =>
      refine .bind (resolve_pays l) fun left hl => ?_
      refine .bind_frame left.code.needs (resolve_pays r) fun right hr => ?_
      exact (binary_pays op hl hr).swap
  | not e => exact .bind (resolve_pays e) fun s hs => negate_pays hs
  | property e name => exact .bind (resolve_pays e) fun object _ => readProperty_pays object name
  | index a i =>
      refine .bind (resolve_pays a) fun array _ => ?_
      refine .bind_quiet (checkIndexable_settles array) fun _ _ => ?_
      refine .bind_frame array.code.needs (resolve_pays i) fun index _ => ?_
      exact (fetchElement_pays array index).swap
  | call name args =>
      exact .bind (resolveArgs_pays args) fun args hargs => callFunction_pays name hargs

theorem resolveArgs_pays (es : List Expr) :
    Pays [] (resolveArgs span es) (fun args => ∀ arg ∈ args, arg.needs = []) fun _ => [] := by
  cases es with
  | nil => exact .keep nofun rfl
  | cons e es =>
      refine .bind (resolve_pays e) fun s hs => ?_
      refine .bind (materialize_pays hs) fun arg harg => ?_
      refine .bind (resolveArgs_pays es) fun args hargs => ?_
      exact .keep (List.forall_mem_cons.mpr ⟨harg, hargs⟩) rfl
end

/-! ### Plain targets -/

variable {dest : Symbol} {source : Source} {shape : Shape}

theorem storeNative_settles (op : Operator) (value : Code) :
    Settles value.needs (storeNative span dest op shape value) := by
  unfold storeNative
  split
  · exact emit_settles _
  · exact .fail _ _

theorem writeString_settles (op : Operator) {due : List Header} {x : Lower StringSource}
    (hx : Pays due x (fun _ => True) StringSource.needs) : Settles due (writeString dest op x) := by
  refine .bind_quiet (modifyTable_settles _) fun _ _ => ?_
  refine .bind_frame due (require_pays .string) fun _ _ => ?_
  have hemit := Pays.bind_frame [.string] hx fun source _ =>
    Pays.swap (emit_settles (.writeString (.var dest.name)
      (if op = .concatAssign then .append else .assign) source))
  exact hemit.swap

theorem initBox_settles (name : String) : Settles [] (initBox name) := by
  refine .bind get_settles fun ctx _ => ?_
  split
  · exact .keep trivial rfl
  · refine .ite (fun _ => .keep trivial rfl) fun _ => ?_
    exact .bind (modifyTable_settles _) fun _ _ => emit_settles _

theorem rebuild_settles (content : BoxContent) : Settles content.needs (rebuild dest content) :=
  .bind_quiet (initBox_settles dest.name) fun _ _ => emit_settles _

theorem boxScalar_settles (kind : BoxKind) {expr? : Option Expr} (hs : source.Balanced)
    (hshows : source.Shows shape) :
    Settles source.code.needs (boxScalar dest kind shape source expr?) := by
  refine .bind_quiet get_settles fun ctx _ => ?_
  refine .ite (fun _ => ?_) fun _ => ?_
  · refine .bind (fillTemporary_settles fun p => hs.scalarCode kind) fun temp _ => ?_
    exact rebuild_settles (.scalar kind (.place temp))
  · have hneeds : ((boxContent? shape source).getD (.scalar kind source.code)).needs =
        source.code.needs := by
      cases hcontent : boxContent? shape source with
      | none => rfl
      | some content => exact hs.boxContent hshows hcontent
    rw [← hneeds]
    exact rebuild_settles _

theorem boxSource_settles (hs : source.Balanced) (hshows : source.Shows shape) :
    Settles source.code.needs (boxSource span dest shape source) := by
  unfold boxSource
  split
  · rename_i content hcontent
    rw [← hs.boxContent hshows hcontent]
    exact rebuild_settles content
  · exact .fail _ _

theorem copyBox_settles (hneeds : source.code.needs = []) : Settles [] (copyBox dest source) := by
  refine .ite (fun _ => .keep trivial rfl) fun _ => ?_
  exact .bind (modifyTable_settles _) fun _ _ => emit_settles_of_eq hneeds

theorem updateInPlace_settles (op : Operator) :
    Settles source.code.needs (updateInPlace dest op source) := by
  refine .bind_frame source.code.needs (require_pays .operators) fun _ _ => ?_
  exact .bind_quiet (modifyTable_settles _) fun _ _ => emit_settles _

/-- A strategy pays what its source needs. -/
theorem carryOut_settles {strategy : Strategy} (op : Operator) {expr? : Option Expr}
    (hs : source.Balanced) (hshows : source.Shows shape) (hsuits : strategy.Suits shape) :
    Settles source.code.needs (carryOut span strategy dest op shape source expr?) := by
  have hcoerce : ∀ kind : Coercion, Settles source.code.needs
      (require .operators >>= fun _ => storeNative span dest op shape (.coerce kind source.code)) :=
    fun kind => .bind_frame source.code.needs (require_pays .operators) fun _ _ =>
      storeNative_settles op (.coerce kind source.code)
  cases strategy with
  | nativeZero =>
      subst hsuits
      have htype : source.type = .null := hshows
      rw [hs.code (by rw [htype]; rfl)]
      exact storeNative_settles op _
  | nativeDirect | nativeCast kind | boolTernary => exact storeNative_settles op _
  | nativeBoolean =>
      rw [← hs.truth]
      exact storeNative_settles op _
  | numberCoerce => exact hcoerce .number
  | boolCoerce => exact hcoerce .boolean
  | stringLiteral =>
      refine writeString_settles op (.pure trivial fun h => ?_)
      split
      · rename_i hnull
        rw [hs.code (by rw [hnull]; rfl)]
        rfl
      · rfl
  | stringBuffer | stringChar | stringLong =>
      exact writeString_settles op (.keep trivial rfl)
  | stringCoerceLong =>
      refine writeString_settles op ?_
      exact .bind_frame source.code.needs (require_pays .operators) fun _ _ =>
        .keep trivial rfl
  | boxValue kind => exact boxScalar_settles kind hs hshows
  | boxNull | boxBinding kind | boxString | boxStringBuffer | boxEmptyArray =>
      exact boxSource_settles hs hshows
  | boxCopy =>
      subst hsuits
      have hneeds := hs.needs_of_binding hshows
      rw [hneeds]
      exact copyBox_settles hneeds
  | boxArithmetic => exact updateInPlace_settles op

theorem assignWhole_settles (op : Operator) (hs : source.Balanced) (expr? : Option Expr) :
    Settles source.code.needs (assignWhole span dest op source expr?) := by
  refine .ite (fun _ => .fail _ _) fun _ => ?_
  split
  · exact .fail _ _
  · refine .bind_quiet (shape_pays source) fun shape hshows => ?_
    split
    · exact .fail _ _
    · rename_i strategy hselect
      exact carryOut_settles op hs hshows (Strategy.select?_suits hselect)

/-! ### Parts of a box -/

theorem checkAssign_settles (op : Operator) (source : Source) :
    Settles [] (checkAssign span dest op source) :=
  .ite (fun _ => .keep trivial rfl) fun _ => .fail _ _

theorem checkHeapBox_settles : Settles [] (checkHeapBox span dest) :=
  .ite (fun _ => .keep trivial rfl) fun _ => .fail _ _

theorem checkObject_settles : Settles [] (checkObject span dest) :=
  .ite (fun _ => .keep trivial rfl) fun _ => .fail _ _

theorem checkProperty_settles (property : String) :
    Settles [] (checkProperty span dest property) := by
  refine .bind get_settles fun ctx _ => ?_
  refine .ite (fun _ => ?_) fun _ => .keep trivial rfl
  split
  · exact .fail _ _
  · exact .ite (fun _ => .keep trivial rfl) fun _ => .fail _ _

/-- A source that has to be a box owes nothing. -/
theorem boxedSource_pays (use : ValueUse) (hs : source.Balanced) :
    Pays source.code.needs (boxedSource span source use) (fun c => c.needs = []) fun _ => [] := by
  refine .bind_quiet (shape_pays source) fun shape hshows => ?_
  refine .ite (fun hbox => ?_) fun _ => .fail _ _
  subst hbox
  have hneeds := hs.needs_of_binding hshows
  exact .keep hneeds hneeds

theorem updateKey_pays (index : Expr) :
    Pays [] (updateKey span index) (fun _ => True) Key.needs := by
  refine .bind (resolve_pays index) fun i _ => ?_
  refine .bind_quiet (shape_pays i) fun shape _ => ?_
  split
  · rename_i key hkey
    exact .keep trivial (Key.needs_of_of? hkey).symm
  · exact .fail _ _

theorem propertyKey_pays (index : Expr) :
    Pays [] (propertyKey span index) (fun c => c.needs = []) fun _ => [] := by
  refine .bind (resolve_pays index) fun i hi => ?_
  refine .bind_quiet (shape_pays i) fun shape hshows => ?_
  refine .ite (fun hbox => ?_) fun _ => .fail _ _
  subst hbox
  have hneeds := hi.needs_of_binding hshows
  exact .keep hneeds hneeds

/-- Asking for a header and emitting the instruction that needs it, which is how every part is
written. -/
theorem require_emit_settles {due : List Header} (header : Header) {i : Instr}
    (hi : i.needs = header :: due) : Settles due (require header >>= fun _ => emit i) :=
  .bind_frame due (require_pays header) fun _ _ => emit_settles_of_eq hi

theorem assignAppend_settles (op : Operator) (hs : source.Balanced) :
    Settles source.code.needs (assignAppend span dest op source) := by
  refine .bind_quiet (checkAssign_settles op source) fun _ _ => ?_
  refine .bind_quiet checkHeapBox_settles fun _ _ => ?_
  refine .bind (materialize_pays hs) fun value hvalue => ?_
  exact require_emit_settles .array (by rw [Instr.needs, hvalue])

theorem assignElement_settles (op : Operator) (index : Expr) (hs : source.Balanced) :
    Settles source.code.needs (assignElement span dest op index source) := by
  refine .bind_quiet (checkAssign_settles op source) fun _ _ => ?_
  refine .bind_quiet checkHeapBox_settles fun _ _ => ?_
  refine .bind_frame source.code.needs (updateKey_pays index) fun key _ => ?_
  have hvalue : Settles (source.code.needs ++ key.needs) (materialize span source >>= fun value =>
      require .array >>= fun _ => emit (.update (.var dest.name) key value)) := by
    refine .bind_frame key.needs (materialize_pays hs) fun value hvalue => ?_
    exact require_emit_settles .array (by rw [Instr.needs, hvalue, List.append_nil]; rfl)
  exact hvalue.swap

theorem assignProperty_settles (op : Operator) (property : String) (hs : source.Balanced) :
    Settles source.code.needs (assignProperty span dest op property source) := by
  refine .bind_quiet (checkAssign_settles op source) fun _ _ => ?_
  refine .bind_quiet checkHeapBox_settles fun _ _ => ?_
  refine .bind_quiet (checkProperty_settles property) fun _ _ => ?_
  refine .bind (materialize_pays hs) fun value hvalue => ?_
  exact require_emit_settles .object (by rw [Instr.needs, hvalue])

theorem appendProperty_settles (op : Operator) (property : String) (hs : source.Balanced) :
    Settles source.code.needs (appendProperty span dest op property source) := by
  refine .bind_quiet (checkAssign_settles op source) fun _ _ => ?_
  refine .bind_quiet checkObject_settles fun _ _ => ?_
  refine .bind (boxedSource_pays _ hs) fun value hvalue => ?_
  exact require_emit_settles .object (by rw [Instr.needs, hvalue])

theorem assignPropertyElement_settles (op : Operator) (property : String) (index : Expr)
    (hs : source.Balanced) :
    Settles source.code.needs (assignPropertyElement span dest op property index source) := by
  refine .bind_quiet (checkAssign_settles op source) fun _ _ => ?_
  refine .bind_quiet checkObject_settles fun _ _ => ?_
  refine .bind_quiet (propertyKey_pays index) fun key hkey => ?_
  refine .bind (boxedSource_pays _ hs) fun value hvalue => ?_
  exact require_emit_settles .object (by rw [Instr.needs, hkey, hvalue, List.append_nil])

/-! ### Assignments -/

theorem stepDestination_settles (direction : Step) (op : Operator) :
    Settles [] (stepDestination span dest direction op) := by
  unfold stepDestination
  dsimp only
  split
  · exact .fail _ _
  · exact emit_settles _
  · exact emit_settles _
  · exact .fail _ _
  · exact .fail _ _
  · refine .bind (require_pays .operators) fun _ _ => .ite (fun _ => emit_settles _) fun _ => ?_
    exact .bind_quiet (emit_settles (.separate (.var dest.name))) fun _ _ => emit_settles _

theorem assignStep_settles (op : Operator) : Settles [] (assignStep span dest op) := by
  refine .ite (fun _ => .fail _ _) fun _ => ?_
  split
  · exact stepDestination_settles .increment _
  · exact stepDestination_settles .decrement _
  · exact .fail _ _

theorem checkedDestination_settles (a : Assignment) : Settles [] (checkedDestination a) := by
  refine .of_eq fun ctx dest ctx' hrun => ?_
  obtain ⟨rfl, -⟩ := checkedDestination_ok_iff.mp hrun
  exact ⟨trivial, rfl, rfl⟩

theorem assignSource_settles (a : Assignment) (expr : Expr) (hs : source.Balanced) :
    Settles source.code.needs (assignSource dest a expr source) := by
  unfold assignSource
  split
  · exact assignWhole_settles _ hs _
  · exact assignAppend_settles _ hs
  · exact assignElement_settles _ _ hs
  · exact assignProperty_settles _ _ hs
  · exact appendProperty_settles _ _ hs
  · exact assignPropertyElement_settles _ _ _ hs

/-- **An assignment that succeeds owes no header.** -/
theorem assignment_settles (a : Assignment) : Settles [] (assignment a) := by
  refine .bind (checkedDestination_settles a) fun dest _ => .ite (fun _ => ?_) fun _ => ?_
  · split
    · exact .bind (modifyTable_settles _) fun _ _ => assignStep_settles _
    · exact .fail _ _
  · split
    · exact .fail _ _
    · rename_i expr _
      refine .bind (resolve_pays expr) fun source hs => ?_
      exact .bind_quiet (modifyTable_settles _) fun _ _ => assignSource_settles a expr hs

end Lower

/-! ### Runs -/

open Lexical

namespace Context

/-- **A call keeps the headers exact.** If it fails, both lists are cut back together. -/
theorem Owes.attempt {ctx : Context} (h : ctx.Owes []) (a : Assignment) :
    (ctx.attempt a).Owes [] := by
  cases hrun : lowerAssignment a ctx with
  | ok u ctx' =>
      rw [attempt_of_ok hrun]
      exact (Lower.assignment_settles a [] ctx u ctx' (lowerAssignment_ok_iff.mp hrun) h).2
  | error e ctx' =>
      rw [attempt_of_error hrun]
      obtain ⟨stopped, hstops, rfl⟩ := stops_of_error hrun
      exact h.of_eq (rollback_code hstops.code) (rollback_headers hstops.headers)

/-- The headers are exact, and the lines show it: all names in them are words, and each of them uses
the headers that its instruction needs. -/
structure Listed (ctx : Context) : Prop where
  kernelPrefix : isSpelled ctx.options.kernelPrefix = true
  indent : ctx.options.indent.toList.all isBlank = true
  named : ctx.Named (isWord · = true)
  owes : ctx.Owes []
  lines : ∀ i ∈ ctx.code, ∀ h : Header,
    h.usedIn ctx.options (i.line ctx.options) = true ↔ h ∈ i.needs

namespace Listed

variable {ctx : Context}

/-- **A call keeps the invariant.** -/
theorem attempt (h : ctx.Listed) (a : Assignment) : (ctx.attempt a).Listed := by
  obtain ⟨emitted, hadv⟩ := ctx.attempt_advances a
  have hnamed := h.named.advances hadv
  have hkernel : isSpelled (ctx.attempt a).options.kernelPrefix = true :=
    hadv.options ▸ h.kernelPrefix
  have hindent : (ctx.attempt a).options.indent.toList.all isBlank = true :=
    hadv.options ▸ h.indent
  refine ⟨hkernel, hindent, hnamed, h.owes.attempt a, fun i hi header => ?_⟩
  have hdst := hnamed.written i hi
  rw [hadv.code] at hi
  rcases List.mem_append.mp hi with hi | hi
  · rw [hadv.options]
    exact h.lines i hi header
  · exact (hadv.typed i hi).1.usedIn_line_iff (fun p t hp => hnamed.render hp) header
      (List.all_eq_true.mp hkernel) hindent hdst

/-- **A run keeps the invariant.** -/
theorem attempts (h : ctx.Listed) (calls : List Assignment) : (ctx.attempts calls).Listed :=
  attempts_induction (fun _ a h => h.attempt a) calls h

/-- The invariant holds before anything is lowered. -/
theorem initial {options : Options} {classDef : Option ClassDef} {declarations : List Declaration}
    (hkernel : isSpelled options.kernelPrefix = true)
    (htemp : isSpelled options.tempPrefix = true)
    (hreceiver : isWord options.receiverSymbol = true)
    (hindent : options.indent.toList.all isBlank = true)
    (hnames : ∀ d ∈ declarations, isWord d.name = true) :
    (Context.initial options classDef declarations).Listed := by
  have hstart := Context.initial_starts options classDef declarations
  have hnamed : (Context.initial options classDef declarations).Named (isWord · = true) :=
    .initial hreceiver (fun t ht n hn => SymbolTable.isWord_of_isTempName (ht ▸ htemp) hn) hnames
  refine ⟨hstart.options.symm ▸ hkernel, hstart.options.symm ▸ hindent, hnamed, ⟨?_, ?_⟩, ?_⟩
  · rw [hstart.headers]
    exact List.nodup_nil
  · rw [hstart.headers, hstart.code]
    simp
  · rw [hstart.code]
    simp

end Listed

end Context

end BoxedLet
