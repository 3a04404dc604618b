import BundleWiring.Proofs.CapabilitySet.Consistency

/-!
# Capability Sets Depend on what They Hold

The indices of a set are kept up to date change by change. Since no bucket stays empty, there is
only one index that lists given capabilities, so a set depends on the indexed attributes and on the
capabilities it holds, and not on how it came to hold them. This module proves:

- `AttrValue.mem_texts_iff` and `AttrValue.holdsOther_iff`: what an index reads off a value is what
  the value holds;
- `Mirrors.unique`: only one index lists given capabilities and has no empty bucket;
- `Canonical.add` and `Canonical.remove`: a change leaves no bucket empty;
- `Canonical.eq_of_capabilities_eq`: sets that index the same attributes and hold the same
  capabilities are equal, hence `Canonical.eq_addAll` and `Canonical.remove_add`.
-/

namespace BundleWiring

/-! ### What values hold -/

namespace AttrValue

/-- A value is another one or holds it, at any depth of lists. -/
inductive Contains : AttrValue → AttrValue → Prop where
  /-- A value is itself. -/
  | refl (v : AttrValue) : Contains v v
  /-- A list holds what one of its elements holds. -/
  | item {items : List AttrValue} {item v : AttrValue} :
    item ∈ items → Contains item v → Contains (.list items) v

/-- Whether a value is neither a text nor a list. -/
def isOther : AttrValue → Bool
  | .str _ | .list _ => false
  | _ => true

/-- A list holds what its elements hold, and itself. -/
theorem contains_list_iff {items : List AttrValue} {v : AttrValue} :
    Contains (.list items) v ↔ v = .list items ∨ ∃ item ∈ items, Contains item v := by
  constructor
  · rintro (_ | ⟨hitem, hv⟩)
    · exact .inl rfl
    · exact .inr ⟨_, hitem, hv⟩
  · rintro (rfl | ⟨item, hitem, hv⟩)
    · exact .refl _
    · exact .item hitem hv

/-- A value that is no list holds only itself. -/
theorem Contains.eq_of_ne_list {v w : AttrValue} (h : Contains v w)
    (hv : ∀ items, v ≠ .list items) : w = v := by
  cases h with
  | refl => rfl
  | item => exact absurd rfl (hv _)

mutual

/-- The texts of a value are those that it holds. -/
theorem mem_texts_iff {text : String} :
    ∀ v : AttrValue, text ∈ v.texts ↔ v.Contains (.str text)
  | .str s => by
    rw [texts, List.mem_singleton]
    constructor
    · rintro rfl
      exact .refl _
    · intro h
      exact AttrValue.str.inj (h.eq_of_ne_list nofun)
  | .list items => by
    rw [texts, mem_textsAll_iff items, contains_list_iff, or_iff_right nofun]
  | .long _ | .double _ | .version _ | .range _ => by
    refine iff_of_false nofun fun h => ?_
    cases h.eq_of_ne_list nofun

/-- The texts of several values are those that one of them holds. -/
theorem mem_textsAll_iff {text : String} :
    ∀ items : List AttrValue, text ∈ textsAll items ↔ ∃ item ∈ items, item.Contains (.str text)
  | [] => by simp [textsAll]
  | item :: items => by
    rw [textsAll, List.mem_append, mem_texts_iff item, mem_textsAll_iff items,
      List.exists_mem_cons_iff]

end

mutual

/-- A value holds something else than texts if a value in it is neither a text nor a list. -/
theorem holdsOther_iff :
    ∀ v : AttrValue, v.holdsOther = true ↔ ∃ w, v.Contains w ∧ w.isOther = true
  | .str s => by
    refine iff_of_false nofun ?_
    rintro ⟨w, hw, hother⟩
    rw [hw.eq_of_ne_list nofun] at hother
    cases hother
  | .list items => by
    rw [holdsOther, anyHoldsOther_iff items]
    constructor
    · rintro ⟨item, hitem, w, hw, hother⟩
      exact ⟨w, .item hitem hw, hother⟩
    · rintro ⟨w, hw, hother⟩
      rcases contains_list_iff.mp hw with rfl | ⟨item, hitem, hw⟩
      · cases hother
      · exact ⟨item, hitem, w, hw, hother⟩
  | .long _ | .double _ | .version _ | .range _ => iff_of_true rfl ⟨_, .refl _, rfl⟩

/-- Several values hold something else than texts if one of them does. -/
theorem anyHoldsOther_iff : ∀ items : List AttrValue, anyHoldsOther items = true ↔
    ∃ item ∈ items, ∃ w, item.Contains w ∧ w.isOther = true
  | [] => by simp [anyHoldsOther]
  | item :: items => by
    rw [anyHoldsOther, Bool.or_eq_true, holdsOther_iff item, anyHoldsOther_iff items,
      List.exists_mem_cons_iff]

end

end AttrValue

/-! ### Buckets -/

namespace AttributeIndex

variable {buckets : Std.ExtTreeMap String HandleSet} {i : AttributeIndex}

/-- No bucket is empty. -/
def HasNoEmptyBucket (buckets : Std.ExtTreeMap String HandleSet) : Prop :=
  ∀ text : String, buckets[text]? ≠ some ∅

/-- An index without buckets has no empty one. -/
theorem hasNoEmptyBucket_empty : HasNoEmptyBucket ∅ := by
  intro text
  rw [Std.ExtTreeMap.getElem?_empty]
  exact nofun

/-- Putting a handle into a bucket leaves no bucket empty. -/
theorem HasNoEmptyBucket.addTo (hb : HasNoEmptyBucket buckets) (h : Handle) (t : String) :
    HasNoEmptyBucket (addTo buckets h t) := by
  intro text
  rw [AttributeIndex.addTo, Std.ExtTreeMap.getElem?_alter]
  split
  · exact fun heq => Std.ExtTreeSet.insert_ne_empty (Option.some.inj heq)
  · exact hb text

/-- Taking a handle from a bucket leaves no bucket empty, because an empty one is removed. -/
theorem HasNoEmptyBucket.removeFrom (hb : HasNoEmptyBucket buckets) (h : Handle) (t : String) :
    HasNoEmptyBucket (removeFrom buckets h t) := by
  intro text
  rw [AttributeIndex.removeFrom, Std.ExtTreeMap.getElem?_alter]
  split
  · intro heq
    have hne := (Option.filter_eq_some_iff.mp heq).2
    simp at hne
  · exact hb text

/-- Putting in a capability leaves no bucket empty. -/
theorem HasNoEmptyBucket.insert (hb : HasNoEmptyBucket i.buckets) (h : Handle)
    (value? : Option AttrValue) : HasNoEmptyBucket (value?.elim i (i.insert h)).buckets := by
  cases value? with
  | none => exact hb
  | some value => exact List.foldlRecOn value.texts _ hb fun _ hb t _ => hb.addTo h t

/-- Taking out a capability leaves no bucket empty. -/
theorem HasNoEmptyBucket.remove (hb : HasNoEmptyBucket i.buckets) (h : Handle)
    (value? : Option AttrValue) : HasNoEmptyBucket (value?.elim i (i.remove h)).buckets := by
  cases value? with
  | none => exact hb
  | some value => exact List.foldlRecOn value.texts _ hb fun _ hb t _ => hb.removeFrom h t

/-- A bucket that is not there is told from one that is, if none is empty. -/
theorem eq_of_getD_eq {bucket bucket' : Option HandleSet} (hne : bucket ≠ some ∅)
    (hne' : bucket' ≠ some ∅) (h : bucket.getD ∅ = bucket'.getD ∅) : bucket = bucket' := by
  cases bucket with
  | none =>
    cases bucket' with
    | none => rfl
    | some handles => exact absurd (congrArg some h.symm) hne'
  | some handles =>
    cases bucket' with
    | none => exact absurd (congrArg some h) hne
    | some handles' => exact congrArg some h

end AttributeIndex

/-! ### Indices of given capabilities -/

namespace CapabilitySet

open AttributeIndex

/-- An index of an attribute consists of what it says about some capabilities. -/
structure Mirrors (i : AttributeIndex) (ps : List (Owned Capability)) (name : String) : Prop where
  /-- No bucket is empty. -/
  bucket_ne_empty : ∀ text : String, i.buckets[text]? ≠ some ∅
  /-- A text lists the capabilities whose attribute is or holds it. -/
  bucket : ∀ text, Lists (i.bucket text) ps name (·.Contains (.str text))
  /-- Set apart are the capabilities whose attribute is or holds neither a text nor a list. -/
  unindexed : Lists i.unindexed ps name fun v => ∃ w, v.Contains w ∧ w.isOther = true

variable {i j : AttributeIndex} {ps : List (Owned Capability)} {name : String}

/-- An index consists of what it says about some capabilities if it lists them and has no empty
bucket. -/
theorem mirrors_iff : Mirrors i ps name ↔ HasNoEmptyBucket i.buckets ∧ Indexes i ps name := by
  have hbucket : (∀ text, Lists (i.bucket text) ps name (·.Contains (.str text))) ↔
      ∀ text, Lists (i.bucket text) ps name (text ∈ ·.texts) := by
    simp only [AttrValue.mem_texts_iff]
  have hunindexed : Lists i.unindexed ps name (fun v => ∃ w, v.Contains w ∧ w.isOther = true) ↔
      Lists i.unindexed ps name (·.holdsOther = true) := by
    simp only [AttrValue.holdsOther_iff]
  constructor
  · rintro ⟨hne, hb, hu⟩
    exact ⟨hne, hbucket.mp hb, hunindexed.mp hu⟩
  · rintro ⟨hne, hb, hu⟩
    exact ⟨hne, hbucket.mpr hb, hunindexed.mpr hu⟩

/-- There is one index that consists of what it says about given capabilities. -/
theorem Mirrors.unique (hi : Mirrors i ps name) (hj : Mirrors j ps name) : i = j := by
  have hbuckets : i.buckets = j.buckets := by
    refine Std.ExtTreeMap.ext_getElem? fun text => ?_
    refine eq_of_getD_eq (hi.bucket_ne_empty text) (hj.bucket_ne_empty text) ?_
    exact Std.ExtTreeSet.ext_mem fun h => (hi.bucket text h).trans (hj.bucket text h).symm
  have hunindexed : i.unindexed = j.unindexed :=
    Std.ExtTreeSet.ext_mem fun h => (hi.unindexed h).trans (hj.unindexed h).symm
  obtain ⟨ibuckets, iunindexed⟩ := i
  obtain ⟨jbuckets, junindexed⟩ := j
  rw [AttributeIndex.mk.injEq]
  exact ⟨hbuckets, hunindexed⟩

/-! ### Canonical sets -/

/-- The indices of a set are those of some attributes, and none of them has an empty bucket. -/
structure Tidy (indexed : List String) (s : CapabilitySet) : Prop where
  /-- There is an index for each of the attributes, and no other one. -/
  mem_indices_iff : ∀ name, name ∈ s.indices ↔ name ∈ indexed
  /-- No index has an empty bucket. -/
  hasNoEmptyBucket : ∀ (name : String) (i : AttributeIndex),
    s.indices[name]? = some i → HasNoEmptyBucket i.buckets

variable {indexed : List String} {s t : CapabilitySet} {p : Owned Capability}

/-- A change of each index by itself keeps a set tidy, if it leaves no bucket empty. -/
theorem Tidy.map (hs : s.Tidy indexed) {f : String → AttributeIndex → AttributeIndex}
    (hf : ∀ name i, HasNoEmptyBucket i.buckets → HasNoEmptyBucket (f name i).buckets) :
    Tidy indexed { capabilities := ps, indices := s.indices.map f } where
  mem_indices_iff name := Std.ExtTreeMap.mem_map.trans (hs.mem_indices_iff name)
  hasNoEmptyBucket name i hi := by
    rw [Std.ExtTreeMap.getElem?_map] at hi
    obtain ⟨i₀, hi₀, rfl⟩ := Option.map_eq_some_iff.mp hi
    exact hf name i₀ (hs.hasNoEmptyBucket name i₀ hi₀)

/-- The set without capabilities is tidy. -/
theorem tidy_empty (indexed : List String) : (empty indexed).Tidy indexed where
  mem_indices_iff name := by
    rw [empty, Std.ExtTreeMap.mem_ofList, List.contains_iff_mem, List.map_map]
    simp
  hasNoEmptyBucket name i hi := by
    rw [getElem?_indices_empty hi]
    exact hasNoEmptyBucket_empty

/-- Adding a capability keeps a set tidy. -/
theorem Tidy.add (hs : s.Tidy indexed) (p : Owned Capability) : (s.add p).Tidy indexed := by
  rw [CapabilitySet.add]
  split
  · exact hs
  · exact hs.map fun name i hi => hi.insert p.handle _

/-- Removing a capability keeps a set tidy. -/
theorem Tidy.remove (hs : s.Tidy indexed) (h : Handle) : (s.remove h).Tidy indexed := by
  rw [CapabilitySet.remove]
  split
  · exact hs
  · exact hs.map fun name i hi => hi.remove h _

/-- A set is canonical if it is consistent and tidy: then it is the only one that holds its
capabilities. -/
structure Canonical (indexed : List String) (s : CapabilitySet) : Prop where
  /-- The indices list the capabilities of the set. -/
  consistent : s.Consistent
  /-- The indices are those of the attributes and have no empty buckets. -/
  tidy : s.Tidy indexed

/-- The set without capabilities is canonical. -/
theorem canonical_empty (indexed : List String) : (empty indexed).Canonical indexed :=
  ⟨consistent_empty indexed, tidy_empty indexed⟩

/-- Adding a capability keeps a set canonical. -/
theorem Canonical.add (hs : s.Canonical indexed) (p : Owned Capability) :
    (s.add p).Canonical indexed :=
  ⟨hs.consistent.add p, hs.tidy.add p⟩

/-- Removing a capability keeps a set canonical. -/
theorem Canonical.remove (hs : s.Canonical indexed) (h : Handle) :
    (s.remove h).Canonical indexed :=
  ⟨hs.consistent.remove h, hs.tidy.remove h⟩

/-- Every change keeps a set canonical. -/
theorem Canonical.apply (hs : s.Canonical indexed) (change : Change) :
    (s.apply change).Canonical indexed := by
  cases change with
  | add p => exact hs.add p
  | remove h => exact hs.remove h

/-- Every history leads to a canonical set. -/
theorem canonical_run (indexed : List String) (changes : List Change) :
    (run indexed changes).Canonical indexed :=
  List.foldlRecOn changes CapabilitySet.apply (canonical_empty indexed)
    fun _ hs change _ => hs.apply change

/-- The indices of a canonical set are those that consist of what they say about its
capabilities. -/
theorem Canonical.getElem?_indices_eq_some_iff (hs : s.Canonical indexed) :
    s.indices[name]? = some i ↔ name ∈ indexed ∧ Mirrors i s.capabilities name := by
  have hmirrors : ∀ i, s.indices[name]? = some i → Mirrors i s.capabilities name := fun i hi =>
    mirrors_iff.mpr ⟨hs.tidy.hasNoEmptyBucket name i hi, hs.consistent.indexes name i hi⟩
  constructor
  · intro hi
    have hmem : name ∈ s.indices := by
      rw [Std.ExtTreeMap.mem_iff_isSome_getElem?, hi]
      rfl
    exact ⟨(hs.tidy.mem_indices_iff name).mp hmem, hmirrors i hi⟩
  · rintro ⟨hmem, hi⟩
    have hsome := (hs.tidy.mem_indices_iff name).mpr hmem
    rw [Std.ExtTreeMap.mem_iff_isSome_getElem?] at hsome
    obtain ⟨j, hj⟩ := Option.isSome_iff_exists.mp hsome
    -- An index is determined by what it mirrors.
    rw [hj, (hmirrors j hj).unique hi]

/-- Canonical sets that hold the same capabilities are equal. -/
theorem Canonical.eq_of_capabilities_eq (hs : s.Canonical indexed) (ht : t.Canonical indexed)
    (h : s.capabilities = t.capabilities) : s = t := by
  have hindices : s.indices = t.indices := by
    refine Std.ExtTreeMap.ext_getElem? fun name => Option.ext fun i => ?_
    rw [hs.getElem?_indices_eq_some_iff, ht.getElem?_indices_eq_some_iff, h]
  obtain ⟨scapabilities, sindices⟩ := s
  obtain ⟨tcapabilities, tindices⟩ := t
  rw [CapabilitySet.mk.injEq]
  exact ⟨h, hindices⟩

/-- Leaving out a handle that no capability has leaves out nothing. -/
theorem filter_handle_ne {h : Handle} (hnew : h ∉ ps.map Owned.handle) :
    ps.filter (·.handle != h) = ps := by
  refine List.filter_eq_self.mpr fun p hp => ?_
  have hne : p.handle ≠ h := fun heq => hnew (heq ▸ List.mem_map_of_mem hp)
  simpa using hne

/-- A new capability is removed without a trace. -/
theorem Canonical.remove_add (hs : s.Canonical indexed)
    (hnew : p.handle ∉ s.capabilities.map Owned.handle) : (s.add p).remove p.handle = s := by
  refine ((hs.add p).remove p.handle).eq_of_capabilities_eq hs ?_
  rw [capabilities_remove, capabilities_add_of_notMem hnew, List.filter_append,
    filter_handle_ne hnew]
  simp

/-- Capabilities with distinct handles are added one after the other. -/
theorem capabilities_addAll (ps : List (Owned Capability))
    (h : ((s.capabilities ++ ps).map Owned.handle).Nodup) :
    (s.addAll ps).capabilities = s.capabilities ++ ps := by
  induction ps generalizing s with
  | nil => exact (List.append_nil _).symm
  | cons p ps ih =>
    have hnew : p.handle ∉ s.capabilities.map Owned.handle := by
      rw [List.map_append, List.map_cons, List.nodup_append] at h
      exact fun hmem => h.2.2 _ hmem _ (List.mem_cons_self ..) rfl
    have hadd := capabilities_add_of_notMem hnew
    rw [← List.singleton_append, ← List.append_assoc, ← hadd] at h ⊢
    exact ih h

/-- A canonical set is the one that its capabilities are added to from the empty set on. -/
theorem Canonical.eq_addAll (hs : s.Canonical indexed) :
    s = (empty indexed).addAll s.capabilities := by
  have hall : ((empty indexed).addAll s.capabilities).Canonical indexed :=
    List.foldlRecOn s.capabilities CapabilitySet.add (canonical_empty indexed)
      fun _ ht p _ => ht.add p
  have hcapabilities : ((empty indexed).addAll s.capabilities).capabilities = s.capabilities :=
    capabilities_addAll s.capabilities hs.consistent.nodup
  exact hs.eq_of_capabilities_eq hall hcapabilities.symm

end CapabilitySet

end BundleWiring
