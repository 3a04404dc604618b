import BundleWiring.Proofs.CapabilitySet.Consistency

/-!
# Lookup agrees with Evaluation

A set answers a filter from its indices and by narrowing down candidates; a filter can also be
evaluated on the attributes of each capability by itself. On a consistent set both give the same
capabilities in the same order. This module proves:

- `AttrValue.satisfies_eq_iff`: a value equals a text if it holds the text or, holding something
  else than texts, compares equal with it;
- `narrow_eq_scan`: narrowing down candidates keeps those that the filter accepts;
- `Consistent.find_eq_filter`: the answer of a consistent set, and `find_run` for every history.
-/

namespace BundleWiring

/-! ### Equality with a text -/

namespace AttrValue

variable {operand : String}

mutual

/-- A value compares equal with each text that it holds. -/
theorem satisfies_eq_of_mem_texts :
    ∀ v : AttrValue, operand ∈ v.texts → v.satisfies .eq operand = true
  | .str s, h => by
    obtain rfl : operand = s := by simpa [texts] using h
    simp [satisfies, Comparison.holdsText, Comparison.holds]
  | .list items, h => by
    rw [satisfies]
    exact anySatisfies_eq_of_mem_textsAll items h
  | .long _, h | .double _, h | .version _, h | .range _, h => by simp [texts] at h

/-- Some of several values compares equal with each text that they hold. -/
theorem anySatisfies_eq_of_mem_textsAll :
    ∀ items : List AttrValue, operand ∈ textsAll items → anySatisfies .eq operand items = true
  | [], h => by simp [textsAll] at h
  | item :: items, h => by
    rw [textsAll, List.mem_append] at h
    rw [anySatisfies, Bool.or_eq_true]
    exact h.imp (satisfies_eq_of_mem_texts item) (anySatisfies_eq_of_mem_textsAll items)

end

mutual

/-- A value that compares equal with a text holds it, or it holds something else than texts. -/
theorem mem_texts_or_holdsOther :
    ∀ v : AttrValue, v.satisfies .eq operand = true → operand ∈ v.texts ∨ v.holdsOther = true
  | .str s, h => by
    obtain rfl : s = operand := by
      simpa [satisfies, Comparison.holdsText, Comparison.holds] using h
    exact Or.inl (List.mem_singleton_self s)
  | .list items, h => by
    rw [satisfies] at h
    exact mem_textsAll_or_anyHoldsOther items h
  | .long _, _ | .double _, _ | .version _, _ | .range _, _ => Or.inr rfl

/-- If some of several values compares equal with a text, they hold it or hold something else than
texts. -/
theorem mem_textsAll_or_anyHoldsOther :
    ∀ items : List AttrValue, anySatisfies .eq operand items = true →
      operand ∈ textsAll items ∨ anyHoldsOther items = true
  | [], h => by simp [anySatisfies] at h
  | item :: items, h => by
    rw [anySatisfies, Bool.or_eq_true] at h
    rw [textsAll, List.mem_append, anyHoldsOther, Bool.or_eq_true]
    rcases h with hitem | hitems
    · exact (mem_texts_or_holdsOther item hitem).imp Or.inl Or.inl
    · exact (mem_textsAll_or_anyHoldsOther items hitems).imp Or.inr Or.inr

end

/-- Equality with a text can be read off the texts, except for values that are set apart. -/
theorem satisfies_eq_iff (v : AttrValue) :
    v.satisfies .eq operand = true ↔
      operand ∈ v.texts ∨ (v.holdsOther = true ∧ v.satisfies .eq operand = true) := by
  constructor
  · intro h
    exact (mem_texts_or_holdsOther v h).imp_right fun hother => ⟨hother, h⟩
  · rintro (h | ⟨-, h⟩)
    · exact satisfies_eq_of_mem_texts v h
    · exact h

end AttrValue

/-! ### Narrowing down candidates -/

namespace CapabilitySet

variable {s : CapabilitySet} {cs : List (Owned Capability)} {p : Owned Capability}

/-- The handles of some capabilities, one of which each of them belongs to. -/
theorem mem_handles {h : Handle} : h ∈ handles cs ↔ ∃ p ∈ cs, p.handle = h := by
  rw [handles, Std.ExtTreeSet.mem_ofList, List.contains_iff_mem, List.mem_map]

/-- A candidate is among the handles of other ones only if it is one of them. -/
theorem Consistent.exists_handle_eq_iff (hs : s.Consistent) (hcs : cs ⊆ s.capabilities)
    (hp : p ∈ cs) (P : Owned Capability → Prop) :
    (∃ q ∈ cs, q.handle = p.handle ∧ P q) ↔ P p := by
  constructor
  · rintro ⟨q, hq, heq, hP⟩
    exact hs.eq_of_handle_eq (hcs hq) (hcs hp) heq ▸ hP
  · intro hP
    exact ⟨p, hp, rfl, hP⟩

/-- The index of an attribute answers an equality as evaluation does. -/
theorem Consistent.lookup_eq_scan (hs : s.Consistent) {i : AttributeIndex} {name : String}
    (hi : s.indices[name]? = some i) (hcs : cs ⊆ s.capabilities) (operand : String) :
    lookup i cs name operand = scan cs (.comparison name .eq operand) := by
  refine List.filter_congr fun p hp => ?_
  -- The index lists all capabilities of the set; a candidate is told by its handle.
  have hps := hs.indexes name i hi
  have hbucket := (hps.bucket operand p.handle).trans
    (hs.exists_handle_eq_iff (List.Subset.refl _) (hcs hp) _)
  have hunindexed := (hps.unindexed p.handle).trans
    (hs.exists_handle_eq_iff (List.Subset.refl _) (hcs hp) _)
  rw [Bool.eq_iff_iff, Bool.or_eq_true, Bool.and_eq_true, Std.ExtTreeSet.contains_iff_mem,
    Std.ExtTreeSet.contains_iff_mem, hunindexed]
  rw [show p.handle ∈ i.buckets[operand]?.getD ∅ ↔ _ from hbucket]
  simp only [Filter.eq, Filter.accepts]
  cases p.item.attributes.get? name with
  | none => simp
  | some v => simpa using v.satisfies_eq_iff.symm

mutual

/-- Narrowing down some held candidates keeps those that the filter accepts. -/
theorem Consistent.narrow_eq_scan (hs : s.Consistent) :
    ∀ (f : Filter) {cs : List (Owned Capability)}, cs ⊆ s.capabilities →
      s.narrow cs f = scan cs f
  | .all, cs, _ => by simp [narrow, scan, Filter.accepts]
  | .and fs, cs, hcs => by
    rw [narrow, hs.narrowAll_eq_filter fs hcs]
    rfl
  | .or fs, cs, hcs => by
    -- What the alternatives find is united as handles, so the order of the candidates stays.
    rw [narrow]
    refine List.filter_congr fun p hp => ?_
    rw [Bool.eq_iff_iff, Std.ExtTreeSet.contains_iff_mem, hs.mem_collectAny fs hcs,
      hs.exists_handle_eq_iff hcs hp]
    rfl
  | .not f, cs, hcs => by
    rw [narrow, hs.narrow_eq_scan f hcs]
    refine List.filter_congr fun p hp => ?_
    have hmem : p.handle ∈ handles (scan cs f) ↔ f.accepts p.item.attributes = true := by
      rw [mem_handles, ← hs.exists_handle_eq_iff hcs hp fun q => f.accepts q.item.attributes]
      simp only [scan, List.mem_filter, and_assoc, and_comm]
    rw [Filter.accepts, Bool.not_inj_iff, Bool.eq_iff_iff, Std.ExtTreeSet.contains_iff_mem, hmem]
  | .comparison name op operand, cs, hcs => by
    cases op with
    | eq =>
      rw [narrow]
      split
      next i hi => exact hs.lookup_eq_scan hi hcs operand
      next => rfl
    | lte | gte | approx => rfl
  | .substring name pieces, cs, _ => rfl
  | .present name, cs, _ => rfl

/-- Narrowing down by one filter after the other keeps the candidates that all of them accept. -/
theorem Consistent.narrowAll_eq_filter (hs : s.Consistent) :
    ∀ (fs : List Filter) {cs : List (Owned Capability)}, cs ⊆ s.capabilities →
      s.narrowAll cs fs = cs.filter (Filter.acceptsAll ·.item.attributes fs)
  | [], cs, _ => by simp [narrowAll, Filter.acceptsAll]
  | f :: fs, cs, hcs => by
    rw [narrowAll]
    split
    -- Stopping early without candidates is what going on would give.
    next hempty => rw [List.isEmpty_iff.mp hempty, List.filter_nil]
    next =>
      have hsub : scan cs f ⊆ s.capabilities := fun p hp => hcs (List.mem_of_mem_filter hp)
      rw [hs.narrow_eq_scan f hcs, hs.narrowAll_eq_filter fs hsub, scan, List.filter_filter]
      exact List.filter_congr fun p _ => by rw [Filter.acceptsAll, Bool.and_comm]

/-- The collected handles are those of the candidates that one of the filters accepts. -/
theorem Consistent.mem_collectAny (hs : s.Consistent) :
    ∀ (fs : List Filter) {cs : List (Owned Capability)}, cs ⊆ s.capabilities →
      ∀ h, h ∈ s.collectAny cs fs ↔
        ∃ p ∈ cs, p.handle = h ∧ Filter.acceptsAny p.item.attributes fs = true
  | [], cs, _, h => by simp [collectAny, Filter.acceptsAny]
  | f :: fs, cs, hcs, h => by
    rw [collectAny, Std.ExtTreeSet.mem_union_iff, hs.narrow_eq_scan f hcs, mem_handles,
      hs.mem_collectAny fs hcs]
    rw [← exists_or]
    refine exists_congr fun p => ?_
    rw [scan, List.mem_filter, Filter.acceptsAny, Bool.or_eq_true, and_right_comm, and_assoc,
      ← and_or_left, ← and_or_left]

end

/-- A consistent set finds what evaluating each of its capabilities finds. -/
theorem Consistent.find_eq_filter (hs : s.Consistent) (f : Filter) (obeyMandatory : Bool) :
    s.find f obeyMandatory = s.capabilities.filter fun p =>
      f.accepts p.item.attributes && (!obeyMandatory || p.item.namedBy f) := by
  rw [find, hs.narrow_eq_scan f (List.Subset.refl _), scan, List.filter_filter]
  exact List.filter_congr fun p _ => Bool.and_comm _ _

/-- After every history, looking up a filter gives the capabilities of the set that the filter
accepts and, if that is asked for, whose mandatory attributes it names: in the order of the set,
and each handle once. -/
theorem find_run (indexed : List String) (changes : List Change) (f : Filter)
    (obeyMandatory : Bool) :
    let s := run indexed changes
    s.find f obeyMandatory = s.capabilities.filter (fun p =>
        f.accepts p.item.attributes && (!obeyMandatory || p.item.namedBy f)) ∧
      ((s.find f obeyMandatory).map Owned.handle).Nodup := by
  intro s
  have hs : s.Consistent := consistent_run indexed changes
  rw [hs.find_eq_filter]
  exact ⟨rfl, hs.nodup.sublist (List.filter_sublist.map _)⟩

end CapabilitySet

end BundleWiring
