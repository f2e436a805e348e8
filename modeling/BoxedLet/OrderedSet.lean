/-!
# BoxedLet.OrderedSet

A finite **set that remembers the order** in which its members first came in.
-/

namespace BoxedLet

/-- A set listed in the order of first insertion. -/
structure OrderedSet (α : Type) where
  toList : List α := []
  deriving Repr, DecidableEq, Inhabited

namespace OrderedSet

variable {α : Type} [BEq α]

/-- Whether `a` is a member. -/
def contains (s : OrderedSet α) (a : α) : Bool :=
  s.toList.contains a

/-- Adds `a` at the end unless it is a member. -/
def insert (s : OrderedSet α) (a : α) : OrderedSet α :=
  if s.contains a then s else ⟨s.toList ++ [a]⟩

/-- Keeps the first `n` members. -/
def truncate (s : OrderedSet α) (n : Nat) : OrderedSet α :=
  ⟨s.toList.take n⟩

theorem toList_insert (s : OrderedSet α) (a : α) :
    (s.insert a).toList = if s.contains a then s.toList else s.toList ++ [a] := by
  unfold insert
  split <;> rfl

/-- Insertion only ever adds at the end. -/
theorem toList_prefix_insert (s : OrderedSet α) (a : α) : s.toList <+: (s.insert a).toList := by
  rw [toList_insert]
  split
  · exact List.prefix_refl _
  · exact List.prefix_append _ _

theorem mem_insert [LawfulBEq α] (s : OrderedSet α) (a b : α) :
    b ∈ (s.insert a).toList ↔ b ∈ s.toList ∨ b = a := by
  rw [toList_insert]
  split
  · rename_i h
    have : a ∈ s.toList := by simpa [contains] using h
    constructor
    · exact Or.inl
    · rintro (h | rfl) <;> assumption
  · simp

/-- Insertion keeps the members distinct. -/
theorem nodup_insert [LawfulBEq α] (s : OrderedSet α) (a : α) (h : s.toList.Nodup) :
    (s.insert a).toList.Nodup := by
  rw [toList_insert]
  split
  · exact h
  · rename_i hc
    have hc : a ∉ s.toList := by simpa [contains] using hc
    rw [List.nodup_append]
    refine ⟨h, by simp, fun b hb c hc' => ?_⟩
    rw [List.mem_singleton] at hc'
    rintro rfl
    exact hc (hc' ▸ hb)

end OrderedSet

end BoxedLet
