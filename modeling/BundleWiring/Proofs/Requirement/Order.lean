import BundleWiring.Proofs.Equality
import BundleWiring.Proofs.Filter.Names
import BundleWiring.Proofs.Manifest.Readers
import BundleWiring.Repository

/-!
# Requirements and the Order of their Attributes

Clauses are compared without regard to the order of their directives and attributes. A requirement
has a filter besides its clause, and if it has no written filter, the filter asks for the attributes
one after the other. Filters are compared as trees, so requirements that state the same attributes
in different orders have equal clauses and different filters. This module proves:

- `Filter.ofAttributes_eq_iff_of_perm`: the filter for some attributes shows their order;
- `Requirement.exists_ofParts_of_perm`: whether parts make a requirement does not depend on the
  order;
- `Requirement.beq_iff_of_perm`: which orders make equal requirements, equal resources and resources
  that a repository takes for the same.
-/

namespace BundleWiring

/-! ### Tables with the same entries -/

namespace Table

variable {α : Type} {s t : Table α}

/-- A name has the same value wherever its entry stands. -/
theorem get?_eq_of_perm (h : s.entries.Perm t.entries) (name : String) :
    s.get? name = t.get? name := by
  refine Option.ext fun value => ?_
  rw [← mem_entries_iff, ← mem_entries_iff]
  exact h.mem_iff

/-- A name is there wherever its entry stands. -/
theorem contains_eq_of_perm (h : s.entries.Perm t.entries) (name : String) :
    s.contains name = t.contains name := by
  rw [← isSome_get?, ← isSome_get?, get?_eq_of_perm h]

/-- Tables with the same entries are the same, in whatever order the entries are. -/
theorem beq_of_perm [BEq α] [ReflBEq α] (h : s.entries.Perm t.entries) : (s == t) = true := by
  refine Bool.and_eq_true_iff.mpr ⟨by simp [h.length_eq], List.all_eq_true.mpr fun e he => ?_⟩
  rw [t.get?_of_mem (h.mem_iff.mp he)]
  exact beq_self_eq_true _

end Table

/-! ### Filters for attributes in another order -/

namespace Filter

variable {name : String} {fs : List Filter} {a b : Attributes}

/-- The members of a conjunction, or the filter itself if it is none. -/
def members : Filter → List Filter
  | .all => []
  | .and fs => fs
  | f => [f]

/-- A conjunction of filters that are no conjunctions has these filters for its members. -/
theorem members_conjunction (h : ∀ f ∈ fs, f.members = [f]) : (conjunction fs).members = fs := by
  unfold conjunction
  split
  · rfl
  · exact h _ (List.mem_singleton_self _)
  · rfl

/-- The conditions for an attribute are no conjunctions. -/
theorem members_of_mem_ofAttribute {value : AttrValue} {f : Filter}
    (hf : f ∈ ofAttribute name value) : f.members = [f] := by
  unfold ofAttribute at hf
  split at hf
  next r =>
    -- An end of a range is a comparison or the negation of one.
    rcases List.mem_cons.mp hf with rfl | hf
    · cases r.floorIncluded <;> rfl
    · obtain ⟨ceiling, -, rfl⟩ := Option.map_eq_some_iff.mp (Option.mem_toList.mp hf)
      cases r.ceilingIncluded <;> rfl
  next =>
    obtain rfl := List.mem_singleton.mp hf
    unfold ofPieces
    split <;> rfl

/-- The conditions for an attribute start with one that is about the attribute. -/
theorem exists_ofAttribute_eq_cons (name : String) (value : AttrValue) :
    ∃ f fs, ofAttribute name value = f :: fs ∧ f.names = [name] := by
  unfold ofAttribute
  split
  next r => exact ⟨_, _, rfl, by cases r.floorIncluded <;> rfl⟩
  next => exact ⟨_, _, rfl, names_ofPieces name _⟩

/-- The conditions for some attributes show the order of the attributes. -/
theorem eq_of_flatMap_ofAttribute_eq {es es' : List (String × AttrValue)} (hperm : es.Perm es')
    (hnodup : (es.map Prod.fst).Nodup)
    (h : es.flatMap (fun e => ofAttribute e.1 e.2) = es'.flatMap fun e => ofAttribute e.1 e.2) :
    es = es' := by
  induction es generalizing es' with
  | nil => exact (List.nil_perm.mp hperm).symm
  | cons e es ih =>
    obtain ⟨e', es', rfl⟩ := List.exists_cons_of_ne_nil (l := es') fun hnil => by
      rw [hnil] at hperm
      exact List.cons_ne_nil _ _ (List.perm_nil.mp hperm)
    rw [List.flatMap_cons, List.flatMap_cons] at h
    -- The first conditions are the same one, so they are about the same attribute.
    have hname : e.1 = e'.1 := by
      obtain ⟨f, fs, hf, hnames⟩ := exists_ofAttribute_eq_cons e.1 e.2
      obtain ⟨f', fs', hf', hnames'⟩ := exists_ofAttribute_eq_cons e'.1 e'.2
      rw [hf, hf', List.cons_append, List.cons_append] at h
      obtain ⟨rfl, -⟩ := List.cons.inj h
      simpa using hnames.symm.trans hnames'
    -- Its value is the same too, since no other entry has its name.
    rw [List.map_cons, List.nodup_cons] at hnodup
    obtain rfl : e = e' := by
      rcases List.mem_cons.mp (hperm.mem_iff.mpr (List.mem_cons_self ..)) with heq | hmem
      · exact heq.symm
      · exact absurd (hname ▸ List.mem_map_of_mem hmem) hnodup.1
    rw [ih hperm.cons_inv hnodup.2 (List.append_cancel_left h)]

/-- The filter for attributes in another order is another filter. -/
theorem ofAttributes_eq_iff_of_perm (h : a.entries.Perm b.entries) :
    ofAttributes a = ofAttributes b ↔ a.entries = b.entries := by
  refine ⟨fun heq => ?_, fun heq => by rw [ofAttributes, heq, ← ofAttributes]⟩
  -- The conditions can be taken out of the filter again: none of them is a conjunction itself.
  have hmembers (t : Attributes) :
      (ofAttributes t).members = t.entries.flatMap fun e => ofAttribute e.1 e.2 := by
    refine members_conjunction fun f hf => ?_
    obtain ⟨e, -, hf⟩ := List.mem_flatMap.mp hf
    exact members_of_mem_ofAttribute hf
  refine eq_of_flatMap_ofAttribute_eq h a.nodup ?_
  rw [← hmembers, ← hmembers, heq]

end Filter

/-! ### Requirements for attributes in another order -/

/-- Adding an object says whether it is new. -/
theorem Repository.fst_add (repo : Repository) (o : Installed) :
    (repo.add o).1 = !repo.holds o.resource := by
  unfold Repository.add
  split
  next h =>
    rw [h]
    rfl
  next h =>
    rw [Bool.eq_false_iff.mpr h]
    rfl

namespace Requirement

variable {ns : String} {d d' : Directives} {a a' : Attributes} {r r' : Requirement}

/-- A requirement has the parts that it is made of and the filter that they imply. -/
theorem ofParts_eq_ok_iff : ofParts ns d a = .ok r ↔
    r.ns = ns ∧ r.directives = d ∧ r.attributes = a ∧ impliedFilter d a = .ok r.filter := by
  rw [ofParts, bind_eq_ok_iff]
  constructor
  · rintro ⟨f, hf, h⟩
    obtain ⟨c, hc, rfl⟩ := map_eq_ok_iff.mp h
    obtain ⟨hns, hdirectives, hattributes⟩ := Clause.ofParts_eq_ok hc
    exact ⟨hns, hdirectives, hattributes, hf⟩
  · rintro ⟨hns, hdirectives, hattributes, hf⟩
    exact ⟨r.filter, hf, map_eq_ok_iff.mpr
      ⟨r.clause, Clause.ofParts_eq_ok_iff.mpr ⟨hns, hdirectives, hattributes⟩, rfl⟩⟩

/-- The directive `filter` is found in whatever order the directives are, and the attributes ask for
a filter whenever it is missing. -/
theorem exists_impliedFilter_of_perm (hd : d.entries.Perm d'.entries) {f : Filter}
    (h : impliedFilter d a = .ok f) : ∃ f', impliedFilter d' a' = .ok f' := by
  unfold impliedFilter at h ⊢
  rw [← Table.get?_eq_of_perm hd]
  cases hfilter : d.get? Names.filter with
  | none => exact ⟨_, rfl⟩
  | some text =>
    rw [hfilter] at h
    exact ⟨f, h⟩

/-- Parts that make a requirement make one in every order. -/
theorem exists_ofParts_of_perm (hd : d.entries.Perm d'.entries) (ha : a.entries.Perm a'.entries)
    (h : ofParts ns d a = .ok r) : ∃ r', ofParts ns d' a' = .ok r' := by
  obtain ⟨rfl, rfl, rfl, hf⟩ := ofParts_eq_ok_iff.mp h
  obtain ⟨f', hf'⟩ := exists_impliedFilter_of_perm hd hf
  have hdisjoint : ∀ name ∈ d'.names, a'.contains name = false := by
    intro name hname
    rw [← Table.contains_eq_of_perm ha]
    exact r.clause.disjoint name ((hd.map Prod.fst).mem_iff.mpr hname)
  -- The clause of the other order keeps the rules, and its filter is the one asked for there.
  let c : Clause := ⟨r.ns, d', a', r.clause.ns_proper, hdisjoint⟩
  exact ⟨⟨c, f'⟩, ofParts_eq_ok_iff.mpr ⟨rfl, rfl, rfl, hf'⟩⟩

/-- Clauses with the same entries in another order are equal. -/
theorem clause_beq_of_perm (hd : d.entries.Perm d'.entries) (ha : a.entries.Perm a'.entries)
    (h : ofParts ns d a = .ok r) (h' : ofParts ns d' a' = .ok r') :
    (r.clause == r'.clause) = true := by
  obtain ⟨rfl, rfl, rfl, -⟩ := ofParts_eq_ok_iff.mp h
  obtain ⟨hns, rfl, rfl, -⟩ := ofParts_eq_ok_iff.mp h'
  refine Bool.and_eq_true_iff.mpr ⟨Bool.and_eq_true_iff.mpr ⟨beq_iff_eq.mpr hns.symm, ?_⟩, ?_⟩
  · exact Table.beq_of_perm hd
  · exact Table.beq_of_perm ha

/-- The filters for the same entries are equal if the filter is given, or the attributes are in the
same order. -/
theorem filter_eq_iff_of_perm (hd : d.entries.Perm d'.entries) (ha : a.entries.Perm a'.entries)
    (h : ofParts ns d a = .ok r) (h' : ofParts ns d' a' = .ok r') :
    r.filter = r'.filter ↔ d.contains Names.filter = true ∨ a.entries = a'.entries := by
  obtain ⟨-, -, -, hf⟩ := ofParts_eq_ok_iff.mp h
  obtain ⟨-, -, -, hf'⟩ := ofParts_eq_ok_iff.mp h'
  rw [impliedFilter] at hf
  rw [impliedFilter, ← Table.get?_eq_of_perm hd] at hf'
  rw [← Table.isSome_get?]
  cases hfilter : d.get? Names.filter with
  -- Only a filter that is made from the attributes has an order.
  | none =>
    rw [hfilter] at hf hf'
    rw [← Except.ok.inj hf, ← Except.ok.inj hf', Filter.ofAttributes_eq_iff_of_perm ha]
    simp
  | some text =>
    rw [hfilter] at hf hf'
    exact iff_of_true (Except.ok.inj (hf.symm.trans hf')) (.inl rfl)

/-- Resources that differ in one requirement are equal if the requirement is. -/
theorem resource_beq (b : Resource) (before after : List Requirement) :
    (({ b with requirements := before ++ r :: after } : Resource) ==
      { b with requirements := before ++ r' :: after }) = (r == r') := by
  have hlist : (before ++ r :: after == before ++ r' :: after) = (r == r') := by
    induction before with
    | nil => simp
    | cons first before ih => simpa using ih
  show (b.name == b.name && b.kind == b.kind && b.version == b.version && b.system == b.system &&
    b.capabilities == b.capabilities && before ++ r :: after == before ++ r' :: after) = _
  simp [hlist]

/-- Parts make a requirement in every order or in none. Two requirements whose parts differ in their
order have equal clauses; they are equal if a written filter takes the place of the attributes or
the attributes are in the same order. And so are two resources that differ in such a requirement,
of which a repository holds both if they are not equal. -/
theorem beq_iff_of_perm (hd : d.entries.Perm d'.entries) (ha : a.entries.Perm a'.entries) :
    ((∃ r, ofParts ns d a = .ok r) ↔ ∃ r', ofParts ns d' a' = .ok r') ∧
      ∀ r r', ofParts ns d a = .ok r → ofParts ns d' a' = .ok r' →
        (r.clause == r'.clause) = true ∧
        ((r == r') = true ↔ d.contains Names.filter = true ∨ a.entries = a'.entries) ∧
        ∀ (b : Resource) (before after : List Requirement) (config : Config) (id id' : Nat),
          let first : Resource := { b with requirements := before ++ r :: after }
          let second : Resource := { b with requirements := before ++ r' :: after }
          (first == second) = (r == r') ∧
            (((Repository.empty config).add ⟨id, first⟩).2.add ⟨id', second⟩).1 = !(r == r') := by
  refine ⟨⟨fun ⟨r, hr⟩ => exists_ofParts_of_perm hd ha hr,
    fun ⟨r', hr'⟩ => exists_ofParts_of_perm hd.symm ha.symm hr'⟩, fun r r' hr hr' => ?_⟩
  have hclause := clause_beq_of_perm hd ha hr hr'
  refine ⟨hclause, ?_, fun b before after config id id' => ⟨resource_beq b before after, ?_⟩⟩
  · rw [← filter_eq_iff_of_perm hd ha hr hr', ← beq_iff_eq (a := r.filter)]
    show (r.clause == r'.clause && r.filter == r'.filter) = true ↔ _
    rw [hclause, Bool.true_and]
  -- The first object is the only one that the second can be equal to.
  · rw [Repository.fst_add, ← resource_beq b before after]
    congr 1
    exact Bool.or_false _

/-- Two attributes. -/
def inOrder : Attributes :=
  .ofList [("a", .str "1"), ("b", .str "2")]

/-- The same attributes in the other order. -/
def outOfOrder : Attributes :=
  .ofList [("b", .str "2"), ("a", .str "1")]

/-- The attributes of the two examples are the same. -/
theorem perm_outOfOrder : inOrder.entries.Perm outOfOrder.entries :=
  List.Perm.swap ..

/-- A directive with a written filter. -/
def written : Directives :=
  .ofList [(Names.filter, "(a=1)")]

/-- With a written filter, the order of the attributes makes no difference. -/
theorem beq_outOfOrder_of_written : ∃ r r', ofParts "x" written inOrder = .ok r ∧
    ofParts "x" written outOfOrder = .ok r' ∧ (r == r') = true := by
  obtain ⟨hiff, hbeq⟩ := @beq_iff_of_perm "x" written written _ _ (.refl _) perm_outOfOrder
  obtain ⟨r, hr, -⟩ := exists_of_any_toOption (x := ofParts "x" written inOrder) (fun _ => true)
    (by decide +kernel)
  obtain ⟨r', hr'⟩ := hiff.mp ⟨r, hr⟩
  exact ⟨r, r', hr, hr', (hbeq r r' hr hr').2.1.mpr (.inl rfl)⟩

/-- Without one, the requirements for the same attributes need not be equal. -/
theorem not_forall_beq_of_perm : ¬ ∀ (ns : String) (d d' : Directives) (a a' : Attributes),
    d.entries.Perm d'.entries → a.entries.Perm a'.entries → ∀ r, ofParts ns d a = .ok r →
      ∃ r', ofParts ns d' a' = .ok r' ∧ (r == r') = true := by
  intro h
  obtain ⟨r, hr, -⟩ := exists_of_any_toOption (x := ofParts "x" .empty inOrder) (fun _ => true)
    (by decide +kernel)
  obtain ⟨r', hr', heq⟩ := h "x" .empty .empty _ _ (.refl _) perm_outOfOrder r hr
  -- Their filters have the conditions in different orders.
  have hfilter : Filter.ofAttributes inOrder = Filter.ofAttributes outOfOrder := by
    obtain ⟨-, -, -, hf⟩ := ofParts_eq_ok_iff.mp hr
    obtain ⟨-, -, -, hf'⟩ := ofParts_eq_ok_iff.mp hr'
    exact (Except.ok.inj hf).trans ((filter_eq_of_beq heq).trans (Except.ok.inj hf').symm)
  rw [Filter.ofAttributes_eq_iff_of_perm perm_outOfOrder] at hfilter
  exact absurd (congrArg (List.map Prod.fst) hfilter) (by decide)

end Requirement

end BundleWiring
