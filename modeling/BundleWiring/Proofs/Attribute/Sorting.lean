import BundleWiring.Proofs.Attribute.Order
import BundleWiring.Proofs.StableSort

/-!
# Sorted Values

Values that tie in the order of values are one value: they are of one kind, the scalars of each kind
are told apart by their orders, doubles by every bit, and lists by their elements. So the order is a
total one, and what is sorted by it does not show the order in which it was given. This module
proves:

- `Binary64.compare_eq_compare_signed`: doubles are ordered by their signs and magnitudes;
- `AttrValue.eq_of_cmp`: values that tie are equal, and so are lists of them;
- `AttrValue.compare_totalOrder`: the order is total, decides which values are equal, tells kinds
  apart first, and sorts the same values to the same list.
-/

namespace BundleWiring

open Decimal Std

/-! ### Doubles and ranges -/

namespace Decimal.Binary64

/-- A double as an integer that grows with its place in the total order: the bits below the sign,
counted downwards from `-1` if the sign is set. -/
def signed (x : Binary64) : Int :=
  if x.isNegative then -1 - x.magnitude else x.magnitude

/-- The rank of a double is its signed magnitude, shifted by the sign bit. -/
theorem rank_eq_signed_add (x : Binary64) : (x.rank : Int) = x.signed + signBit := by
  have hbits : x.bits.toNat < 2 * signBit := x.bits.toNat_lt
  have hdiv := Nat.div_add_mod x.bits.toNat signBit
  unfold rank signed isNegative magnitude
  -- A negative double has the sign bit, and the rest of its bits is its magnitude.
  split
  next hnegative =>
    have hle : signBit ≤ x.bits.toNat := of_decide_eq_true hnegative
    have hmod : x.bits.toNat % signBit = x.bits.toNat - signBit := by
      rw [Nat.mod_eq_sub_mod hle, Nat.mod_eq_of_lt (by omega)]
    rw [hmod]
    omega
  next hpositive =>
    have hlt : x.bits.toNat < signBit := by simpa using hpositive
    rw [Nat.mod_eq_of_lt hlt]
    omega

/-- Negative doubles come before positive ones; positive ones grow with their magnitude, and
negative ones the other way round. -/
theorem compare_eq_compare_signed (x y : Binary64) : compare x y = compare x.signed y.signed := by
  have hx := x.rank_eq_signed_add
  have hy := y.rank_eq_signed_add
  show compare x.rank y.rank = compare x.signed y.signed
  cases h : compare x.signed y.signed with
  | lt =>
    rw [Int.compare_eq_lt] at h
    rw [Nat.compare_eq_lt]
    omega
  | eq =>
    rw [Int.compare_eq_eq] at h
    rw [Nat.compare_eq_eq]
    omega
  | gt =>
    rw [Int.compare_eq_gt] at h
    rw [Nat.compare_eq_gt]
    omega

/-- Doubles that tie have the same bits. -/
instance : LawfulEqOrd Binary64 where
  eq_of_compare {x y} h := by
    rw [compare_eq_compare_signed, Int.compare_eq_eq] at h
    have hx : x.bits.toNat < 2 * signBit := x.bits.toNat_lt
    have hy : y.bits.toNat < 2 * signBit := y.bits.toNat_lt
    have hrank : x.rank = y.rank := by
      have hsum : (x.rank : Int) = y.rank := by
        rw [rank_eq_signed_add, rank_eq_signed_add, h]
      exact_mod_cast hsum
    -- The places of negative doubles are below those of positive ones.
    have hbits : x.bits.toNat = y.bits.toNat := by
      unfold rank isNegative at hrank
      split at hrank <;> split at hrank <;> simp_all <;> omega
    cases x
    cases y
    rw [Binary64.mk.injEq]
    exact UInt64.toNat_inj.mp hbits

end Decimal.Binary64

/-- Ranges that tie are equal. -/
instance : LawfulEqOrd VersionRange where
  eq_of_compare {r s} h := by
    obtain ⟨hfloor, h⟩ := Ordering.then_eq_eq.mp h
    obtain ⟨hfloorIncluded, h⟩ := Ordering.then_eq_eq.mp h
    obtain ⟨hceiling, hceilingIncluded⟩ := Ordering.then_eq_eq.mp h
    cases r
    cases s
    rw [VersionRange.mk.injEq]
    exact ⟨LawfulEqOrd.eq_of_compare hfloor, LawfulEqOrd.eq_of_compare hfloorIncluded,
      LawfulEqOrd.eq_of_compare hceiling, LawfulEqOrd.eq_of_compare hceilingIncluded⟩

namespace AttrValue

/-! ### Values that tie -/

/-- Values that tie as scalars and have the same elements are equal. -/
theorem eq_of_cmpScalar {a b : AttrValue} (h : cmpScalar a b = .eq) (hitems : a.items = b.items) :
    a = b := by
  obtain ⟨hrank, h⟩ := Ordering.then_eq_eq.mp h
  obtain ⟨htext, h⟩ := Ordering.then_eq_eq.mp h
  obtain ⟨hlong, h⟩ := Ordering.then_eq_eq.mp h
  obtain ⟨hdouble, h⟩ := Ordering.then_eq_eq.mp h
  obtain ⟨hversion, hrange⟩ := Ordering.then_eq_eq.mp h
  replace hrank : a.rank = b.rank := LawfulEqOrd.eq_of_compare hrank
  replace htext : a.asText? = b.asText? := LawfulEqOrd.eq_of_compare htext
  replace hlong : a.asLong? = b.asLong? := LawfulEqOrd.eq_of_compare hlong
  replace hdouble : a.asDouble? = b.asDouble? := LawfulEqOrd.eq_of_compare hdouble
  replace hversion : a.asVersion? = b.asVersion? := LawfulEqOrd.eq_of_compare hversion
  replace hrange : a.asRange? = b.asRange? := LawfulEqOrd.eq_of_compare hrange
  -- The rank says which of the parts is the value.
  cases a <;> cases b <;>
    simp_all [rank, asText?, asLong?, asDouble?, asVersion?, asRange?, items]

/-- Only the empty list ties with the empty list. -/
theorem eq_nil_of_cmpAll {bs : List AttrValue} (h : cmpAll [] bs = .eq) : [] = bs := by
  cases bs with
  | nil => rfl
  | cons b bs => cases h

mutual

/-- Values that tie are equal. -/
theorem eq_of_cmp (a b : AttrValue) (h : cmp a b = .eq) : a = b := by
  rw [cmp_eq_then] at h
  obtain ⟨hscalar, hitems⟩ := Ordering.then_eq_eq.mp h
  refine eq_of_cmpScalar hscalar ?_
  cases a with
  | list as => exact eq_of_cmpAll as b.items hitems
  | _ => exact eq_nil_of_cmpAll hitems

/-- Lists of values that tie are equal. -/
theorem eq_of_cmpAll : ∀ as bs : List AttrValue, cmpAll as bs = .eq → as = bs
  | [], bs, h => eq_nil_of_cmpAll h
  | a :: as, [], h => nomatch h
  | a :: as, b :: bs, h => by
    rw [cmpAll] at h
    obtain ⟨hfirst, hothers⟩ := Ordering.then_eq_eq.mp h
    rw [eq_of_cmp a b hfirst, eq_of_cmpAll as bs hothers]

end

instance : LawfulEqOrd AttrValue where
  eq_of_compare {a b} h := eq_of_cmp a b h

instance : LawfulBEq AttrValue where
  eq_of_beq {a b} h := eq_of_cmp a b (beq_iff_eq.mp h)

/-! ### The order of values -/

/-- The kinds of two values decide, if they differ. -/
theorem compare_of_rank_ne {a b : AttrValue} (h : a.rank ≠ b.rank) :
    compare a b = compare a.rank b.rank := by
  cases a <;> cases b <;> first | rfl | exact absurd rfl h

/-- The order of values is a total order that decides equality: exchanging two values reverses it,
it is transitive, and the values that tie are the equal ones. Values of different kinds are ordered
by their kinds, and doubles by their signs and magnitudes. Sorting puts the values of a list in this
order, and a list that holds the same values in any other order is sorted to the same one. -/
theorem compare_totalOrder :
    (∀ a b : AttrValue, compare a b = (compare b a).swap) ∧
    (∀ a b c : AttrValue, compare a b ≠ .gt → compare b c ≠ .gt → compare a c ≠ .gt) ∧
    (∀ a b : AttrValue, (compare a b = .eq ↔ a = b) ∧ ((a == b) = true ↔ a = b)) ∧
    (∀ a b : AttrValue, a.rank ≠ b.rank → compare a b = compare a.rank b.rank) ∧
    (∀ x y : Binary64, compare (double x) (double y) = compare x.signed y.signed) ∧
    ∀ as : List AttrValue, (sort as).Perm as ∧ (sort as).Pairwise (compare · · ≠ .gt) ∧
      ∀ bs, bs.Perm as → sort bs = sort as := by
  refine ⟨fun a b => OrientedCmp.eq_swap, fun a b c hab hbc => ?_, fun a b => ⟨?_, beq_iff_eq⟩,
    fun a b => compare_of_rank_ne, Binary64.compare_eq_compare_signed, fun as => ⟨?_, ?_, ?_⟩⟩
  · have hle : (compare a c).isLE = true :=
      TransCmp.isLE_trans (Ordering.isLE_iff_ne_gt.mpr hab) (Ordering.isLE_iff_ne_gt.mpr hbc)
    exact Ordering.isLE_iff_ne_gt.mp hle
  · exact LawfulEqCmp.compare_eq_iff_eq
  · exact List.mergeSort_perm as _
  · exact (pairwise_mergeSort_isLE compare as).imp Ordering.isLE_iff_ne_gt.mp
  · exact fun bs h => mergeSort_eq_of_perm compare h

/-- An integer and two lists that hold the zeros, in ascending order. -/
def zeros : List AttrValue :=
  [long 5, list [double (.ofMagnitude true 0)], list [double (.ofMagnitude false 0)]]

/-- The zeros are told apart, an integer precedes the list of either of them, and they are sorted
alike from back to front. -/
theorem sort_reverse_zeros :
    compare (long 5) (list [double (.ofMagnitude false 0)]) ≠ .gt ∧
      compare (list [double (.ofMagnitude true 0)]) (list [double (.ofMagnitude false 0)]) ≠ .eq ∧
      compare (list []) (long 5) = compare 5 1 ∧ sort zeros.reverse = sort zeros := by
  obtain ⟨-, htrans, heq, hrank, -, hsort⟩ := compare_totalOrder
  refine ⟨htrans _ (list [double (.ofMagnitude true 0)]) _ (by decide) (by decide), ?_,
    hrank (list []) (long 5) (by decide), (hsort zeros).2.2 _ zeros.reverse_perm⟩
  rw [Ne, (heq _ _).1]
  simp only [list.injEq, List.cons.injEq, double.injEq, and_true]
  decide

end AttrValue

end BundleWiring
