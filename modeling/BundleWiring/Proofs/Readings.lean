import Mathlib.Data.List.Forall2

/-!
# Readings that Succeed or Fail

Texts are read piece by piece, and the first fault ends the reading. So a reading that succeeds has
succeeded in each of its steps, and a list that is read gives one result for each of its elements,
in their order. If no step depends on what the others give, the reading fails exactly if one of them
does. This module proves:

- `bind_eq_ok_iff` and `map_eq_ok_iff`: the steps of a reading that succeeds;
- `mapM_eq_ok_iff`: a list of results, element by element;
- `exists_mapM_eq_ok_iff`: when such a list is read;
- `mapM_eq_ok` and `exists_of_mem_flatten`: the members of such lists;
- `fails_bind_iff`, `fails_map_iff` and `fails_mapM_iff`: the steps of a reading that fails.
-/

namespace BundleWiring

variable {ε α β : Type} {f : α → Except ε β} {l : List α} {bs : List β}

/-- Two steps succeed if the first one does and the second one does with its result. -/
theorem bind_eq_ok_iff {x : Except ε α} {b : β} :
    x >>= f = .ok b ↔ ∃ a, x = .ok a ∧ f a = .ok b := by
  cases x <;> simp [bind, Except.bind]

/-- A mapped result is the image of a result. -/
theorem map_eq_ok_iff {x : Except ε α} {f : α → β} {b : β} :
    f <$> x = .ok b ↔ ∃ a, x = .ok a ∧ f a = b := by
  cases x <;> simp [Functor.map, Except.map]

/-- An error that is put into other words is still one. -/
theorem mapError_eq_ok_iff {ε' : Type} {x : Except ε α} {g : ε → ε'} {a : α} :
    x.mapError g = .ok a ↔ x = .ok a := by
  cases x <;> simp [Except.mapError]

/-- An optional result is read if it is there. -/
theorem elim_eq_ok_iff {x : Option α} {e : ε} {a : α} :
    x.elim (.error e : Except ε α) .ok = .ok a ↔ x = some a := by
  cases x <;> simp

/-- What may be missing is read, or has the value that stands for it. -/
theorem elim_read_eq_ok_iff {x : Option α} {g : α → Option β} {d b : β}
    (hfg : ∀ a, f a = .ok b ↔ g a = some b) :
    x.elim (.ok d) f = .ok b ↔ x.elim (some d) g = some b := by
  cases x with
  | none => rw [Option.elim_none, Option.elim_none, Except.ok.injEq, Option.some.injEq]
  | some a => exact hfg a

/-- A result that passes a test is there. With a test that can be evaluated, this finds the result
of a closed term. -/
theorem exists_of_any_toOption {x : Except ε α} (p : α → Bool) (h : x.toOption.any p = true) :
    ∃ a, x = .ok a ∧ p a = true := by
  cases x with
  | error e => cases h
  | ok a => exact ⟨a, rfl, h⟩

/-- What stands in the second of two lists that are related element by element is related to an
element of the first one. -/
theorem exists_of_mem_of_forall₂ {R : α → β → Prop} (h : List.Forall₂ R l bs) {b : β}
    (hb : b ∈ bs) : ∃ a ∈ l, R a b := by
  induction h with
  | nil => cases hb
  | @cons a b' l bs hR _ ih =>
    rcases List.mem_cons.mp hb with rfl | hb
    · exact ⟨a, List.mem_cons_self .., hR⟩
    · exact (ih hb).imp fun _ => And.imp_left (List.mem_cons_of_mem a)

/-- A list is read element by element, and the results are in the order of the elements. -/
theorem mapM_eq_ok_iff : l.mapM f = .ok bs ↔ List.Forall₂ (fun a b => f a = .ok b) l bs := by
  induction l generalizing bs with
  | nil =>
    rw [List.mapM_nil, List.forall₂_nil_left_iff]
    exact ⟨fun h => (Except.ok.inj h).symm, fun h => h ▸ rfl⟩
  | cons a l ih =>
    rw [List.mapM_cons, List.forall₂_cons_left_iff, bind_eq_ok_iff]
    constructor
    · rintro ⟨b, hb, h⟩
      obtain ⟨bs', hbs, h⟩ := bind_eq_ok_iff.mp h
      exact ⟨b, bs', hb, ih.mp hbs, (Except.ok.inj h).symm⟩
    · rintro ⟨b, bs', hb, hbs, rfl⟩
      exact ⟨b, hb, bind_eq_ok_iff.mpr ⟨bs', ih.mpr hbs, rfl⟩⟩

/-- What may be missing is read if it is there. -/
theorem elim_singleton_eq_ok_iff {x : Option α} :
    x.elim (.ok []) (fun a => ([·]) <$> f a) = .ok bs ↔
      List.Forall₂ (fun a b => f a = .ok b) x.toList bs := by
  cases x with
  | none =>
    rw [Option.elim_none, Except.ok.injEq, Option.toList_none, List.forall₂_nil_left_iff, eq_comm]
  | some a =>
    rw [Option.elim_some, map_eq_ok_iff, Option.toList_some, List.forall₂_cons_left_iff]
    simp only [List.forall₂_nil_left_iff, eq_comm, existsAndEq, true_and]

/-- Each element of a list is read, and the results are all that there is. -/
theorem mapM_eq_ok (h : l.mapM f = .ok bs) :
    (∀ a ∈ l, ∃ b, f a = .ok b) ∧ ∀ b, b ∈ bs ↔ ∃ a ∈ l, f a = .ok b := by
  induction mapM_eq_ok_iff.mp h with
  | nil => simp
  | @cons a b l bs hb hbs ih =>
    obtain ⟨hok, hmem⟩ := ih (mapM_eq_ok_iff.mpr hbs)
    exact ⟨List.forall_mem_cons.mpr ⟨⟨b, hb⟩, hok⟩, fun b' => by simp [hmem, hb, eq_comm]⟩

/-- A list is read if each of its elements is. -/
theorem exists_mapM_eq_ok_iff : (∃ bs, l.mapM f = .ok bs) ↔ ∀ a ∈ l, ∃ b, f a = .ok b := by
  refine ⟨fun ⟨bs, h⟩ => (mapM_eq_ok h).1, fun h => ?_⟩
  induction l with
  | nil => exact ⟨[], rfl⟩
  | cons a l ih =>
    obtain ⟨⟨b, hb⟩, hothers⟩ := List.forall_mem_cons.mp h
    obtain ⟨bs, hbs⟩ := ih hothers
    exact ⟨b :: bs, mapM_eq_ok_iff.mpr (.cons hb (mapM_eq_ok_iff.mp hbs))⟩

/-- What is read as a member of a list of results comes from one element. -/
theorem exists_of_mem_flatten {f : α → Except ε (List β)} {lists : List (List β)} {b : β}
    (h : l.mapM f = .ok lists) (hb : b ∈ lists.flatten) : ∃ a ∈ l, ∃ bs, f a = .ok bs ∧ b ∈ bs := by
  obtain ⟨bs, hbs, hb⟩ := List.mem_flatten.mp hb
  obtain ⟨a, ha, hread⟩ := ((mapM_eq_ok h).2 bs).mp hbs
  exact ⟨a, ha, bs, hread, hb⟩

/-- Reading with fewer checks gives the same results. -/
theorem mapM_eq_ok_of_imp {g : α → Except ε β} (hfg : ∀ a b, f a = .ok b → g a = .ok b)
    (h : l.mapM f = .ok bs) : l.mapM g = .ok bs :=
  mapM_eq_ok_iff.mpr ((mapM_eq_ok_iff.mp h).imp hfg)

/-! ### Readings that fail -/

/-- A reading ends with an error. -/
def Fails (x : Except ε α) : Prop :=
  ∃ e, x = .error e

/-- An error is a failure. -/
@[simp]
theorem fails_error (e : ε) : Fails (.error e : Except ε α) :=
  ⟨e, rfl⟩

/-- A result is no failure. -/
@[simp]
theorem not_fails_ok (a : α) : ¬ Fails (.ok a : Except ε α) :=
  nofun

/-- A reading in two steps fails if one of them does, provided that the result of the first step
does not matter to the second one. -/
theorem fails_bind_iff {x : Except ε α} {P : Prop} (h : ∀ a, Fails (f a) ↔ P) :
    Fails (x >>= f) ↔ Fails x ∨ P := by
  cases x with
  | error e => exact iff_of_true (fails_error e) (.inl (fails_error e))
  | ok a => rw [or_iff_right (not_fails_ok a)]; exact h a

/-- Mapping the result does not change whether there is one. -/
theorem fails_map_iff {x : Except ε α} {f : α → β} : Fails (f <$> x) ↔ Fails x := by
  cases x with
  | error e => exact iff_of_true (fails_error e) (fails_error e)
  | ok a => exact iff_of_false (not_fails_ok (f a)) (not_fails_ok a)

/-- What is read as an option may be missing. -/
theorem fails_elim_iff {x : Option α} {e : ε} :
    Fails (x.elim (.error e : Except ε α) .ok) ↔ x = none := by
  cases x with
  | none => exact iff_of_true (fails_error e) rfl
  | some a => exact iff_of_false (not_fails_ok a) nofun

/-- A list is not read if one of its elements is not. -/
theorem fails_mapM_iff : Fails (l.mapM f) ↔ ∃ a ∈ l, Fails (f a) := by
  induction l with
  | nil => exact iff_of_false (not_fails_ok []) (by simp)
  | cons a l ih =>
    have hothers (b : β) : Fails (l.mapM f >>= fun bs => .ok (b :: bs)) ↔ ∃ a ∈ l, Fails (f a) := by
      rw [← ih]
      exact fails_map_iff (f := (b :: ·))
    rw [List.mapM_cons, List.exists_mem_cons_iff]
    exact fails_bind_iff hothers

end BundleWiring
