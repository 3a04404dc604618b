import BundleWiring.CapabilitySet.Lookup
import Mathlib.Data.List.Nodup

/-!
# The Indices of a Capability Set

A set is consistent if it holds every handle once and each of its indices lists exactly the
capabilities it holds: under a text those whose attribute holds the text, and apart from the texts
those whose attribute holds something else. This module proves:

- `mem_bucket_insert` and `mem_bucket_remove`, `mem_unindexed_insert` and
  `mem_unindexed_remove`: what one change does to one index;
- `Consistent.add` and `Consistent.remove`: a change of the set keeps it consistent;
- `consistent_run`: every history of changes leads to a consistent set.
-/

namespace BundleWiring

/-! ### Changes of one index -/

namespace AttributeIndex

/-- The handles that an index lists under a text. -/
def bucket (i : AttributeIndex) (text : String) : HandleSet :=
  i.buckets[text]?.getD ∅

variable {buckets : Std.ExtTreeMap String HandleSet} {h h' : Handle} {t text : String}

/-- A handle that is put under a text appears there and nowhere else. -/
theorem mem_addTo :
    h' ∈ (addTo buckets h t)[text]?.getD ∅ ↔
      (text = t ∧ h = h') ∨ h' ∈ buckets[text]?.getD ∅ := by
  rw [addTo, Std.ExtTreeMap.getElem?_alter]
  by_cases ht : t = text
  · subst ht
    simp [Std.ExtTreeSet.mem_insert]
  · simp [ht, Ne.symm ht]

/-- Leaving empty buckets out changes no membership. -/
theorem mem_getD_filter_isEmpty (bucket : Option HandleSet) :
    h ∈ (bucket.filter (!·.isEmpty)).getD ∅ ↔ h ∈ bucket.getD ∅ := by
  cases bucket with
  | none => rfl
  | some handles =>
    by_cases hempty : handles = ∅
    · rw [hempty, Option.filter_some_neg (by simp)]
      rfl
    · have hfalse : handles.isEmpty = false := by simpa using hempty
      rw [Option.filter_some_pos (by rw [hfalse]; rfl)]

/-- A handle that is taken from a text disappears there and nowhere else. -/
theorem mem_removeFrom :
    h' ∈ (removeFrom buckets h t)[text]?.getD ∅ ↔
      h' ∈ buckets[text]?.getD ∅ ∧ ¬(text = t ∧ h = h') := by
  rw [removeFrom, Std.ExtTreeMap.getElem?_alter]
  by_cases ht : t = text
  · subst ht
    rw [if_pos (Std.ReflCmp.compare_self), mem_getD_filter_isEmpty]
    cases buckets[t]? with
    | none => simp
    | some handles => simp [Std.ExtTreeSet.mem_erase, and_comm]
  · simp [ht, Ne.symm ht]

/-- Putting a handle under several texts is putting it under each of them. -/
theorem mem_foldl_addTo (texts : List String) :
    h' ∈ (texts.foldl (addTo · h) buckets)[text]?.getD ∅ ↔
      (text ∈ texts ∧ h = h') ∨ h' ∈ buckets[text]?.getD ∅ := by
  induction texts generalizing buckets with
  | nil => simp
  | cons t texts ih =>
    rw [List.foldl_cons, ih, mem_addTo, List.mem_cons, or_and_right, or_assoc, or_left_comm]

/-- Taking a handle from several texts is taking it from each of them. -/
theorem mem_foldl_removeFrom (texts : List String) :
    h' ∈ (texts.foldl (removeFrom · h) buckets)[text]?.getD ∅ ↔
      h' ∈ buckets[text]?.getD ∅ ∧ ¬(text ∈ texts ∧ h = h') := by
  induction texts generalizing buckets with
  | nil => simp
  | cons t texts ih =>
    rw [List.foldl_cons, ih, mem_removeFrom, List.mem_cons, or_and_right, not_or, and_assoc]

variable (i : AttributeIndex) (value? : Option AttrValue)

/-- Putting in a capability lists it under the texts of its value, if it has one. -/
theorem mem_bucket_insert :
    h' ∈ (value?.elim i (i.insert h)).bucket text ↔
      ((∃ v ∈ value?, text ∈ v.texts) ∧ h = h') ∨ h' ∈ i.bucket text := by
  cases value? with
  | none => simp
  | some value => simpa [bucket, insert] using mem_foldl_addTo value.texts

/-- Putting in a capability sets it apart if its value holds something else than texts. -/
theorem mem_unindexed_insert :
    h' ∈ (value?.elim i (i.insert h)).unindexed ↔
      ((∃ v ∈ value?, v.holdsOther = true) ∧ h = h') ∨ h' ∈ i.unindexed := by
  cases value? with
  | none => simp
  | some value =>
    by_cases hother : value.holdsOther = true
    · simp [insert, hother, Std.ExtTreeSet.mem_insert]
    · simp [insert, hother]

/-- Taking out a capability takes it from the texts of its value, if it has one. -/
theorem mem_bucket_remove :
    h' ∈ (value?.elim i (i.remove h)).bucket text ↔
      h' ∈ i.bucket text ∧ ¬((∃ v ∈ value?, text ∈ v.texts) ∧ h = h') := by
  cases value? with
  | none => simp
  | some value => simpa [bucket, remove] using mem_foldl_removeFrom value.texts

/-- Taking out a capability takes it from those set apart if it was there for its value. -/
theorem mem_unindexed_remove :
    h' ∈ (value?.elim i (i.remove h)).unindexed ↔
      h' ∈ i.unindexed ∧ ¬((∃ v ∈ value?, v.holdsOther = true) ∧ h = h') := by
  cases value? with
  | none => simp
  | some value =>
    by_cases hother : value.holdsOther = true
    · simp [remove, hother, Std.ExtTreeSet.mem_erase, and_comm]
    · simp [remove, hother]

end AttributeIndex

/-! ### Histories of a set -/

namespace CapabilitySet

/-- A change of a capability set. -/
inductive Change where
  /-- A capability is added. -/
  | add (p : Owned Capability)
  /-- The capability with a handle is removed. -/
  | remove (h : Handle)

/-- The set after a change. -/
def apply (s : CapabilitySet) : Change → CapabilitySet
  | .add p => s.add p
  | .remove h => s.remove h

/-- The set that indexes some attributes, after a history of changes from the empty set on. -/
def run (indexed : List String) (changes : List Change) : CapabilitySet :=
  changes.foldl apply (empty indexed)

/-! ### Consistency -/

/-- A set of handles consists of those of the capabilities that have a value of some kind under a
name. -/
def Lists (handles : HandleSet) (ps : List (Owned Capability)) (name : String)
    (P : AttrValue → Prop) : Prop :=
  ∀ h, h ∈ handles ↔ ∃ p ∈ ps, p.handle = h ∧ ∃ v ∈ p.item.attributes.get? name, P v

/-- An index of an attribute lists some capabilities by what their attribute holds. -/
structure Indexes (i : AttributeIndex) (ps : List (Owned Capability)) (name : String) : Prop where
  /-- A text lists the capabilities whose attribute holds it. -/
  bucket : ∀ text, Lists (i.bucket text) ps name (text ∈ ·.texts)
  /-- Set apart are the capabilities whose attribute holds something else than texts. -/
  unindexed : Lists i.unindexed ps name (·.holdsOther = true)

/-- Every handle is held once, and the indices list exactly the held capabilities. -/
structure Consistent (s : CapabilitySet) : Prop where
  /-- No two capabilities have one handle. -/
  nodup : (s.capabilities.map Owned.handle).Nodup
  /-- Each index lists the capabilities of the set. -/
  indexes : ∀ name i, s.indices[name]? = some i → Indexes i s.capabilities name

variable {s : CapabilitySet} {p q : Owned Capability} {h : Handle}

/-- A held capability is the only one with its handle. -/
theorem Consistent.eq_of_handle_eq (hs : s.Consistent) (hp : p ∈ s.capabilities)
    (hq : q ∈ s.capabilities) (heq : p.handle = q.handle) : p = q :=
  List.inj_on_of_nodup_map hs.nodup hp hq heq

/-- A set holds a handle if one of its capabilities has it. -/
theorem holds_eq_true_iff : s.holds h = true ↔ h ∈ s.capabilities.map Owned.handle := by
  simp [holds]

/-- Adding a capability that is held changes nothing. -/
theorem add_of_mem (hmem : p.handle ∈ s.capabilities.map Owned.handle) : s.add p = s := by
  rw [add, if_pos (holds_eq_true_iff.mpr hmem)]

/-- A capability with a new handle comes last. -/
theorem capabilities_add_of_notMem (hnew : p.handle ∉ s.capabilities.map Owned.handle) :
    (s.add p).capabilities = s.capabilities ++ [p] := by
  rw [add, if_neg (mt holds_eq_true_iff.mp hnew)]

/-- Removing takes the handle out and keeps the order of the others. -/
theorem capabilities_remove :
    (s.remove h).capabilities = s.capabilities.filter (·.handle != h) := by
  rw [remove]
  split
  next hnone =>
    rw [List.find?_eq_none] at hnone
    refine (List.filter_eq_self.mpr fun p hp => ?_).symm
    simpa using hnone p hp
  next => rfl

/-- At first every index is empty. -/
theorem getElem?_indices_empty {indexed : List String} {name : String} {i : AttributeIndex}
    (hi : (empty indexed).indices[name]? = some i) : i = AttributeIndex.empty := by
  rw [empty, Std.ExtTreeMap.ofList_eq_insertMany_empty,
    Std.ExtTreeMap.getElem?_insertMany_list, Std.ExtTreeMap.getElem?_empty, Option.or_none,
    List.findSomeRev?_eq_findSome?_reverse] at hi
  -- The entry that was found is one of those the table was made of, all with empty indices.
  obtain ⟨e, he, hei⟩ := List.exists_of_findSome?_eq_some hi
  rw [List.mem_reverse, List.mem_map] at he
  obtain ⟨_, -, rfl⟩ := he
  simp only at hei
  split at hei
  · exact (Option.some.inj hei).symm
  · cases hei

/-- The set without capabilities is consistent. -/
theorem consistent_empty (indexed : List String) : (empty indexed).Consistent where
  nodup := by simp [empty]
  indexes name i hi := by
    rw [getElem?_indices_empty hi]
    exact ⟨fun text h => by simp [AttributeIndex.empty, AttributeIndex.bucket, empty],
      fun h => by simp [AttributeIndex.empty, empty]⟩

/-- One more capability with a value of the kind is one more handle. -/
theorem Lists.append {handles handles' : HandleSet} {ps : List (Owned Capability)} {name : String}
    {P : AttrValue → Prop} (hl : Lists handles ps name P)
    (hmem : ∀ h, h ∈ handles' ↔
      ((∃ v ∈ p.item.attributes.get? name, P v) ∧ p.handle = h) ∨ h ∈ handles) :
    Lists handles' (ps ++ [p]) name P := by
  intro h
  rw [hmem, hl h, or_comm, and_comm]
  simp only [List.mem_append, List.mem_singleton, or_and_right, exists_or, exists_eq_left]

/-- Without a capability its handle is missing, if no other one has the handle. -/
theorem Lists.filter {handles handles' : HandleSet} {ps : List (Owned Capability)} {name : String}
    {P : AttrValue → Prop} (hl : Lists handles ps name P)
    (hinj : ∀ q ∈ ps, q.handle = p.handle → q = p)
    (hmem : ∀ h, h ∈ handles' ↔
      h ∈ handles ∧ ¬((∃ v ∈ p.item.attributes.get? name, P v) ∧ p.handle = h)) :
    Lists handles' (ps.filter (·.handle != p.handle)) name P := by
  intro h
  rw [hmem, hl h]
  constructor
  · rintro ⟨⟨q, hq, rfl, hv⟩, hnot⟩
    -- With the removed handle, the capability would be the removed one, which has no value left.
    have hne : q.handle ≠ p.handle := by
      intro heq
      exact hnot ⟨hinj q hq heq ▸ hv, heq.symm⟩
    exact ⟨q, List.mem_filter.mpr ⟨hq, by simpa using hne⟩, rfl, hv⟩
  · rintro ⟨q, hq, rfl, hv⟩
    obtain ⟨hq, hne⟩ := List.mem_filter.mp hq
    exact ⟨⟨q, hq, rfl, hv⟩, fun hp => by simp [hp.2] at hne⟩

/-- Adding a capability keeps a set consistent. -/
theorem Consistent.add (hs : s.Consistent) (p : Owned Capability) : (s.add p).Consistent := by
  by_cases hmem : p.handle ∈ s.capabilities.map Owned.handle
  · -- A handle that is held already leaves the set as it is.
    rw [add_of_mem hmem]
    exact hs
  · refine ⟨?_, fun name i hi => ?_⟩
    · rw [capabilities_add_of_notMem hmem, List.map_append, List.nodup_append]
      refine ⟨hs.nodup, by simp, fun h hh h' hh' heq => hmem ?_⟩
      obtain rfl : h' = p.handle := by simpa using hh'
      exact heq ▸ hh
    · rw [capabilities_add_of_notMem hmem]
      rw [CapabilitySet.add, if_neg (mt holds_eq_true_iff.mp hmem),
        Std.ExtTreeMap.getElem?_map] at hi
      obtain ⟨i₀, hi₀, rfl⟩ := Option.map_eq_some_iff.mp hi
      have hps := hs.indexes name i₀ hi₀
      exact ⟨fun text => (hps.bucket text).append fun h => AttributeIndex.mem_bucket_insert i₀ _,
        hps.unindexed.append fun h => AttributeIndex.mem_unindexed_insert i₀ _⟩

/-- Removing a handle keeps a set consistent. -/
theorem Consistent.remove (hs : s.Consistent) (h : Handle) : (s.remove h).Consistent := by
  refine ⟨?_, fun name i hi => ?_⟩
  · rw [capabilities_remove]
    exact hs.nodup.sublist (List.filter_sublist.map _)
  · rw [capabilities_remove]
    rw [CapabilitySet.remove] at hi
    split at hi
    next hnone =>
      rw [List.filter_eq_self.mpr fun p hp => by simpa using List.find?_eq_none.mp hnone p hp]
      exact hs.indexes name i hi
    next p hp =>
      obtain rfl : p.handle = h := by simpa using List.find?_some hp
      rw [Std.ExtTreeMap.getElem?_map] at hi
      obtain ⟨i₀, hi₀, rfl⟩ := Option.map_eq_some_iff.mp hi
      have hps := hs.indexes name i₀ hi₀
      -- No other capability loses its place in an index, because no other one has the handle.
      have hinj : ∀ q ∈ s.capabilities, q.handle = p.handle → q = p := fun q hq heq =>
        hs.eq_of_handle_eq hq (List.mem_of_find?_eq_some hp) heq
      exact ⟨fun text => (hps.bucket text).filter hinj fun h =>
          AttributeIndex.mem_bucket_remove i₀ _,
        hps.unindexed.filter hinj fun h => AttributeIndex.mem_unindexed_remove i₀ _⟩

/-- Every change keeps a set consistent. -/
theorem Consistent.apply (hs : s.Consistent) (change : Change) : (s.apply change).Consistent := by
  cases change with
  | add p => exact hs.add p
  | remove h => exact hs.remove h

/-- Every history leads to a consistent set. -/
theorem consistent_run (indexed : List String) (changes : List Change) :
    (run indexed changes).Consistent :=
  List.foldlRecOn changes CapabilitySet.apply (consistent_empty indexed)
    fun _ hs change _ => hs.apply change

end CapabilitySet

end BundleWiring
