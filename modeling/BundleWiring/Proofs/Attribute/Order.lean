import BundleWiring.Proofs.Equality

/-!
# The Order of Attribute Values

Values are ordered by kind, then as the scalars that they are, then element by element. The scalars
have transitive orders of their own; lists are handled by recursion, which needs to know how two
comparisons with a middle value settle the third one. This module proves that `compare` on values
is oriented and transitive (`Std.TransOrd AttrValue`).
-/

namespace BundleWiring

open Decimal Std

/-! ### Comparisons that fit together -/

/-- `ab`, `bc` and `ac` can be the comparisons among three values: a middle value that ties with one
end may be replaced by it, and two comparisons that agree settle the third one. -/
structure Composes (ab bc ac : Ordering) : Prop where
  /-- The middle value ties with the first one. -/
  of_left_eq : ab = .eq → ac = bc
  /-- The middle value ties with the last one. -/
  of_right_eq : bc = .eq → ac = ab
  /-- Both comparisons with the middle value agree. -/
  of_eq : ab = bc → ac = ab

/-- A transitive comparison composes. -/
theorem Composes.of_transCmp {α : Type} (cmp : α → α → Ordering) [TransCmp cmp] (a b c : α) :
    Composes (cmp a b) (cmp b c) (cmp a c) where
  of_left_eq := TransCmp.congr_left
  of_right_eq h := (TransCmp.congr_right h).symm
  of_eq h := by
    cases hab : cmp a b with
    | lt => exact TransCmp.lt_trans hab (h ▸ hab)
    | eq => exact TransCmp.eq_trans hab (h ▸ hab)
    | gt => exact TransCmp.gt_trans hab (h ▸ hab)

/-- Comparisons that fit together still do so when further ones break their ties. -/
theorem Composes.then {ab bc ac ab' bc' ac' : Ordering} (h : Composes ab bc ac)
    (h' : Composes ab' bc' ac') : Composes (ab.then ab') (bc.then bc') (ac.then ac') where
  of_left_eq heq := by
    obtain ⟨hab, hab'⟩ := Ordering.then_eq_eq.mp heq
    rw [h.of_left_eq hab, h'.of_left_eq hab']
  of_right_eq heq := by
    obtain ⟨hbc, hbc'⟩ := Ordering.then_eq_eq.mp heq
    rw [h.of_right_eq hbc, h'.of_right_eq hbc']
  of_eq heq := by
    -- Of two first comparisons that differ, one ties and the other one decides.
    obtain ⟨hleft, hright, hsame⟩ := h
    have hsame' := h'.of_eq
    cases ab <;> cases bc <;> grind [Ordering.then]

/-- A comparison that only swaps with its arguments and composes is transitive. -/
theorem transCmp_of_composes {α : Type} {cmp : α → α → Ordering}
    (hswap : ∀ a b, cmp a b = (cmp b a).swap)
    (hcomp : ∀ a b c, Composes (cmp a b) (cmp b c) (cmp a c)) : TransCmp cmp where
  eq_swap {a b} := hswap a b
  isLE_trans {a b c} hab hbc := by
    rcases Ordering.isLE_iff_eq_lt_or_eq_eq.mp hab with hlt | heq
    · rcases Ordering.isLE_iff_eq_lt_or_eq_eq.mp hbc with hlt' | heq'
      · rw [(hcomp a b c).of_eq (hlt.trans hlt'.symm), hlt]
        rfl
      · rwa [(hcomp a b c).of_right_eq heq']
    · rwa [(hcomp a b c).of_left_eq heq]

/-! ### The order of values as a lexicographic one -/

namespace AttrValue

/-- The integer of a value that is one. -/
def asLong? : AttrValue → Option Int64
  | .long n => some n
  | _ => none

/-- The double of a value that is one. -/
def asDouble? : AttrValue → Option Binary64
  | .double x => some x
  | _ => none

/-- The range of a value that is one. -/
def asRange? : AttrValue → Option VersionRange
  | .range r => some r
  | _ => none

/-- The elements of a value that is a list; any other value has none. -/
def items : AttrValue → List AttrValue
  | .list items => items
  | _ => []

/-- The order of values up to the elements of lists. -/
def cmpScalar : AttrValue → AttrValue → Ordering :=
  compareLex (compareOn rank) <| compareLex (compareOn asText?) <|
    compareLex (compareOn asLong?) <| compareLex (compareOn asDouble?) <|
      compareLex (compareOn asVersion?) (compareOn asRange?)

instance : TransCmp cmpScalar :=
  inferInstanceAs (TransCmp (compareLex (compareOn rank) <| compareLex (compareOn asText?) <|
    compareLex (compareOn asLong?) <| compareLex (compareOn asDouble?) <|
      compareLex (compareOn asVersion?) (compareOn asRange?)))

/-- Values are ordered as scalars first and then by their elements. -/
theorem cmp_eq_then (a b : AttrValue) :
    cmp a b = (cmpScalar a b).then (cmpAll a.items b.items) := by
  cases a <;> cases b <;>
    simp [cmp, cmpAll, cmpScalar, compareLex, compareOn, rank, asText?, asLong?, asDouble?,
      asVersion?, asRange?, items] <;> rfl

/-- Comparisons of lists compose behind the empty list, which is less than all others. -/
theorem composesAll_nil (bs cs : List AttrValue) :
    Composes (cmpAll [] bs) (cmpAll bs cs) (cmpAll [] cs) := by
  cases bs <;> cases cs <;> constructor <;> simp [cmpAll]

/-- Exchanging the empty list and another one reverses their order. -/
theorem cmpAll_nil_swap (bs : List AttrValue) : cmpAll [] bs = (cmpAll bs []).swap := by
  cases bs <;> rfl

mutual

/-- Exchanging two values reverses their order. -/
theorem cmp_swap (a b : AttrValue) : cmp a b = (cmp b a).swap := by
  have hscalar : cmpScalar a b = (cmpScalar b a).swap := OrientedCmp.eq_swap
  rw [cmp_eq_then a, cmp_eq_then b, Ordering.swap_then, ← hscalar]
  refine congrArg (cmpScalar a b).then ?_
  cases a with
  | list as => exact cmpAll_swap as b.items
  | _ => exact cmpAll_nil_swap b.items

/-- Exchanging two lists reverses their order. -/
theorem cmpAll_swap : ∀ as bs : List AttrValue, cmpAll as bs = (cmpAll bs as).swap
  | [], bs => cmpAll_nil_swap bs
  | _ :: _, [] => rfl
  | a :: as, b :: bs => by
    rw [cmpAll, cmpAll, Ordering.swap_then, ← cmp_swap a b, ← cmpAll_swap as bs]

end

mutual

/-- The comparison of values composes, by recursion on the first value. -/
theorem composes (a b c : AttrValue) : Composes (cmp a b) (cmp b c) (cmp a c) := by
  rw [cmp_eq_then a, cmp_eq_then b, cmp_eq_then a c]
  refine (Composes.of_transCmp cmpScalar a b c).then ?_
  cases a with
  | list as => exact composesAll as b.items c.items
  | _ => exact composesAll_nil b.items c.items

/-- The comparison of lists of values composes, by recursion on the first list. -/
theorem composesAll : ∀ as bs cs : List AttrValue,
    Composes (cmpAll as bs) (cmpAll bs cs) (cmpAll as cs)
  | [], bs, cs => composesAll_nil bs cs
  | a :: as, [], cs => by cases cs <;> constructor <;> simp [cmpAll]
  | a :: as, b :: bs, [] => by constructor <;> simp [cmpAll, eq_comm]
  | a :: as, b :: bs, c :: cs => by
    rw [cmpAll, cmpAll, cmpAll]
    exact (composes a b c).then (composesAll as bs cs)

end

instance : TransOrd AttrValue :=
  transCmp_of_composes cmp_swap composes

end AttrValue

end BundleWiring
