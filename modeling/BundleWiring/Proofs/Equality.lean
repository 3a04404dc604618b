import BundleWiring.Resource

/-!
# Equality

Values, tables, clauses and resources are compared by what they say and not by how they came to
be; filters are compared as trees. This module proves that each of these comparisons holds of a
thing and itself, that filters that compare equal are equal (`LawfulBEq Filter`), and that equal
requirements ask for the same (`Requirement.ns_eq_of_beq`, `Requirement.filter_eq_of_beq`).
-/

namespace BundleWiring

open Decimal Std

/-! ### Values and tables -/

instance : Std.TransOrd Binary64 :=
  inferInstanceAs (Std.TransCmp (compareOn Binary64.rank))

instance : Std.TransOrd Version :=
  inferInstanceAs (Std.TransCmp (compareLex (compareOn Version.major) <|
    compareLex (compareOn Version.minor) <| compareLex (compareOn Version.micro)
      (compareOn Version.qualifier)))

/-- Versions that tie are equal. -/
instance : Std.LawfulEqOrd Version where
  eq_of_compare {v w} h := by
    obtain ⟨hmajor, h⟩ := Ordering.then_eq_eq.mp h
    obtain ⟨hminor, h⟩ := Ordering.then_eq_eq.mp h
    obtain ⟨hmicro, hqualifier⟩ := Ordering.then_eq_eq.mp h
    cases v
    cases w
    rw [Version.mk.injEq]
    exact ⟨LawfulEqOrd.eq_of_compare hmajor, LawfulEqOrd.eq_of_compare hminor,
      LawfulEqOrd.eq_of_compare hmicro, LawfulEqOrd.eq_of_compare hqualifier⟩

instance : Std.TransOrd VersionRange :=
  inferInstanceAs (Std.TransCmp (compareLex (compareOn VersionRange.floor) <|
    compareLex (compareOn VersionRange.floorIncluded) <|
      compareLex (compareOn VersionRange.ceiling) (compareOn VersionRange.ceilingIncluded)))

namespace AttrValue

mutual

/-- A value does not precede itself. -/
theorem cmp_self : ∀ v : AttrValue, cmp v v = .eq
  | .str s => compare_self (a := s)
  | .long n => compare_self (a := n)
  | .double x => compare_self (a := x)
  | .version v => compare_self (a := v)
  | .range r => compare_self (a := r)
  | .list items => by rw [cmp]; exact cmpAll_self items

/-- A list of values does not precede itself. -/
theorem cmpAll_self : ∀ items : List AttrValue, cmpAll items items = .eq
  | [] => rfl
  | item :: items => by rw [cmpAll, cmp_self item, cmpAll_self items]; rfl

end

instance : ReflBEq AttrValue where
  rfl {v} := by
    show (cmp v v == .eq) = true
    rw [cmp_self]
    rfl

end AttrValue

namespace Table

variable {α : Type}

instance [BEq α] [ReflBEq α] : ReflBEq (Table α) where
  -- Tables are compared entry by entry, and each entry is the one found under its key.
  rfl {t} := by
    refine Bool.and_eq_true_iff.mpr ⟨beq_self_eq_true _, List.all_eq_true.mpr fun e he => ?_⟩
    rw [t.get?_of_mem he]
    exact beq_self_eq_true _

end Table

/-! ### Filters -/

namespace Filter

mutual

/-- A filter is the same tree as itself. -/
theorem beq_self : ∀ f : Filter, f.beq f = true
  | .all => rfl
  | .and fs | .or fs => by rw [beq]; exact beqAll_self fs
  | .not f => by rw [beq]; exact f.beq_self
  | .comparison _ _ _ | .substring _ _ | .present _ => by simp [beq]

/-- Filters are the same trees as themselves. -/
theorem beqAll_self : ∀ fs : List Filter, beqAll fs fs = true
  | [] => rfl
  | f :: fs => by rw [beqAll, f.beq_self, beqAll_self fs]; rfl

end

mutual

/-- Filters that are the same tree are equal. -/
theorem eq_of_beq' : ∀ f g : Filter, f.beq g = true → f = g
  | .all, g, h => by cases g <;> simp_all [beq]
  | .and fs, g, h => by
    cases g <;> simp only [beq, Bool.false_eq_true] at h
    rw [eq_of_beqAll fs _ h]
  | .or fs, g, h => by
    cases g <;> simp only [beq, Bool.false_eq_true] at h
    rw [eq_of_beqAll fs _ h]
  | .not f, g, h => by
    cases g <;> simp only [beq, Bool.false_eq_true] at h
    rw [eq_of_beq' f _ h]
  | .comparison .., g, h | .substring .., g, h | .present .., g, h => by
    cases g <;> simp_all [beq]

/-- Lists of filters that are the same, tree by tree, are equal. -/
theorem eq_of_beqAll : ∀ fs gs : List Filter, beqAll fs gs = true → fs = gs
  | [], [], _ => rfl
  | [], _ :: _, h | _ :: _, [], h => by simp [beqAll] at h
  | f :: fs, g :: gs, h => by
    rw [beqAll, Bool.and_eq_true] at h
    rw [eq_of_beq' f g h.1, eq_of_beqAll fs gs h.2]

end

instance : LawfulBEq Filter where
  rfl {f} := f.beq_self
  eq_of_beq {f g} h := eq_of_beq' f g h

end Filter

/-! ### Clauses and resources -/

instance : ReflBEq Clause where
  rfl {c} := by
    show (c.ns == c.ns && c.directives == c.directives && c.attributes == c.attributes) = true
    simp

instance : ReflBEq Capability where
  rfl {c} := beq_self_eq_true c.clause

instance : ReflBEq Requirement where
  rfl {r} := by
    show (r.clause == r.clause && r.filter == r.filter) = true
    simp

namespace Requirement

variable {r r' : Requirement}

/-- Equal requirements are about one namespace. -/
theorem ns_eq_of_beq (h : (r == r') = true) : r.ns = r'.ns := by
  obtain ⟨hclause, -⟩ := Bool.and_eq_true_iff.mp h
  obtain ⟨hns, -⟩ := Bool.and_eq_true_iff.mp (Bool.and_eq_true_iff.mp hclause).1
  exact eq_of_beq hns

/-- Equal requirements have one filter. -/
theorem filter_eq_of_beq (h : (r == r') = true) : r.filter = r'.filter :=
  eq_of_beq (Bool.and_eq_true_iff.mp h).2

end Requirement

instance : ReflBEq Resource where
  rfl {r} := by
    show (r.name == r.name && r.kind == r.kind && r.version == r.version &&
      r.system == r.system && r.capabilities == r.capabilities &&
      r.requirements == r.requirements) = true
    simp

end BundleWiring
