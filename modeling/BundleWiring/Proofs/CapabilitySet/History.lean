import BundleWiring.Proofs.CapabilitySet.Canonical

/-!
# Histories of Capability Sets

An addition of a handle that is held has no effect, and neither has a removal of one that is not. Of
the other changes in a history, the last one of each handle tells whether the handle is held, and
the additions among these last ones tell the order. This module proves:

- `capabilities_apply`: one change of a set is one change of what was added last;
- `capabilities_run`: after a history a set holds what was added last;
- `run_canonical`: every history leads to the set that indexes its capabilities anew.
-/

namespace BundleWiring.CapabilitySet

variable {s : CapabilitySet}

/-- The handle that a change is about. -/
def Change.handle : Change → Handle
  | .add p => p.handle
  | .remove h => h

/-- The capability that a change adds. -/
def Change.added? : Change → Option (Owned Capability)
  | .add p => some p
  | .remove _ => none

/-- Whether the last change of a handle was an addition; of the changes, the last one is first. -/
def wasAdded (earlier : List Change) (h : Handle) : Bool :=
  (earlier.find? (·.handle == h)).any (·.added?.isSome)

/-- Whether a change has an effect after earlier ones, the last of which is first: an addition does
unless the handle was added, and a removal if it was. -/
def hasEffect (earlier : List Change) (change : Change) : Bool :=
  change.added?.isSome != wasAdded earlier change.handle

/-- The changes of a history that have an effect, the last one first. -/
def effective (changes : List Change) : List Change :=
  changes.foldl
    (fun earlier change => if hasEffect earlier change then change :: earlier else earlier) []

/-- The last change of each handle; of the changes, the last one is first. -/
def latest : List Change → List Change
  | [] => []
  | change :: earlier => change :: (latest earlier).filter (·.handle != change.handle)

/-- The capabilities whose last change is an addition, in the order of these additions. -/
def lastAdded (changes : List Change) : List (Owned Capability) :=
  ((latest changes).filterMap Change.added?).reverse

/-- The last change of a handle replaces the earlier ones. -/
theorem lastAdded_cons (change : Change) (earlier : List Change) :
    lastAdded (change :: earlier) =
      (lastAdded earlier).filter (·.handle != change.handle) ++ change.added?.toList := by
  -- The latest changes of the other handles are what they were.
  have hothers : ((latest earlier).filter (·.handle != change.handle)).filterMap Change.added? =
      ((latest earlier).filterMap Change.added?).filter (·.handle != change.handle) := by
    rw [List.filterMap_filter, List.filter_filterMap]
    refine List.filterMap_congr fun other _ => ?_
    cases other with
    | add p => simp [Change.added?, Change.handle, Option.filter]
    | remove h => simp [Change.added?]
  rw [lastAdded, lastAdded, latest, List.filterMap_cons, hothers, List.filter_reverse]
  cases change with
  | add p => exact List.reverse_cons
  | remove h => exact (List.append_nil _).symm

/-- The last change of a handle decides whether the handle was added. -/
theorem wasAdded_cons (change : Change) (earlier : List Change) (h : Handle) :
    wasAdded (change :: earlier) h =
      if change.handle = h then change.added?.isSome else wasAdded earlier h := by
  rw [wasAdded]
  split
  next heq => rw [List.find?_cons_of_pos (by simpa using heq), Option.any_some]
  next hne => rw [List.find?_cons_of_neg (by simpa using hne), wasAdded]

/-- A handle was added last if one of the capabilities added last has it. -/
theorem any_lastAdded (earlier : List Change) (h : Handle) :
    (lastAdded earlier).any (·.handle == h) = wasAdded earlier h := by
  induction earlier with
  | nil => rfl
  | cons change earlier ih =>
    rw [lastAdded_cons, wasAdded_cons, List.any_append, List.any_filter, ← ih]
    -- A change of the handle decides, and a change of another handle makes no difference.
    split
    next heq =>
      subst heq
      cases change <;> simp [Change.added?, Change.handle]
    next hne =>
      have hadded : change.added?.toList.any (·.handle == h) = false := by
        cases change with
        | add p => simpa [Change.added?, Change.handle] using hne
        | remove h' => rfl
      rw [hadded, Bool.or_false]
      refine List.any_congr rfl fun p => ?_
      by_cases heq : p.handle = h
      · simp [heq, Ne.symm hne]
      · simp [heq]

/-- A change of a set is a change of what was added last. -/
theorem capabilities_apply {earlier : List Change} (hs : s.capabilities = lastAdded earlier)
    (change : Change) : (s.apply change).capabilities =
      lastAdded (if hasEffect earlier change then change :: earlier else earlier) := by
  have hheld : change.handle ∈ s.capabilities.map Owned.handle ↔
      wasAdded earlier change.handle = true := by
    rw [← holds_eq_true_iff, holds, hs, any_lastAdded]
  -- A change without effect changes neither the set nor what was added last.
  cases change with
  | add p =>
    rw [apply, hasEffect]
    by_cases hmem : p.handle ∈ s.capabilities.map Owned.handle
    · rw [add_of_mem hmem, hheld.mp hmem, hs]
      rfl
    · rw [capabilities_add_of_notMem hmem, Bool.eq_false_iff.mpr (mt hheld.mpr hmem)]
      show _ = lastAdded (.add p :: earlier)
      rw [lastAdded_cons, ← hs, Change.handle, filter_handle_ne hmem]
      rfl
  | remove h =>
    rw [apply, hasEffect, capabilities_remove]
    by_cases hmem : h ∈ s.capabilities.map Owned.handle
    · rw [hheld.mp hmem]
      show _ = lastAdded (.remove h :: earlier)
      rw [lastAdded_cons, ← hs]
      exact (List.append_nil _).symm
    · rw [filter_handle_ne hmem, Bool.eq_false_iff.mpr (mt hheld.mpr hmem), hs]
      rfl

/-- A set holds the capabilities whose last change is an addition, in the order of these
additions. -/
theorem capabilities_run (indexed : List String) (changes : List Change) :
    (run indexed changes).capabilities = lastAdded (effective changes) := by
  have hempty : (empty indexed).capabilities = lastAdded [] := rfl
  exact List.foldl_rel (r := fun (s : CapabilitySet) earlier => s.capabilities = lastAdded earlier)
    hempty fun change _ _ _ hs => capabilities_apply hs change

/-- Every history leads to the set that indexes its capabilities anew. The set holds each handle
once, namely those whose last effective change is an addition, in the order of these additions; its
indices are those of the given attributes, and consist of what they say about the held
capabilities; so it equals, and prints as, the set that the held capabilities are added to from the
empty set on. A handle that is held is added without effect, and one that is not is added and
removed without effect. -/
theorem run_canonical (indexed : List String) (changes : List Change) :
    let s := run indexed changes
    (s.capabilities = lastAdded (effective changes) ∧
      (s.capabilities.map Owned.handle).Nodup) ∧
    (∀ name i, s.indices[name]? = some i ↔ name ∈ indexed ∧ Mirrors i s.capabilities name) ∧
    (s = (empty indexed).addAll s.capabilities ∧
      ∀ living, s.dump living = ((empty indexed).addAll s.capabilities).dump living) ∧
    ∀ p : Owned Capability,
      if s.holds p.handle then s.add p = s else (s.add p).remove p.handle = s := by
  intro s
  have hs : s.Canonical indexed := canonical_run indexed changes
  refine ⟨⟨capabilities_run indexed changes, hs.consistent.nodup⟩, fun name i => ?_,
    ⟨hs.eq_addAll, fun living => congrArg (dump · living) hs.eq_addAll⟩, fun p => ?_⟩
  · exact hs.getElem?_indices_eq_some_iff
  · split
    next hheld => exact add_of_mem (holds_eq_true_iff.mp hheld)
    next hnew => exact hs.remove_add (mt holds_eq_true_iff.mpr hnew)

/-- A capability of the namespace `x` whose attribute `n` has a value. -/
def valued (owner : Nat) (value : AttrValue) : Owned Capability where
  owner := ⟨owner, ⟨"acme", Names.bundleKind, .zero, false, [], []⟩⟩
  index := 0
  item :=
    { clause :=
        { ns := "x"
          directives := .empty
          attributes := .ofList [("n", value)]
          ns_proper := by decide
          disjoint := by simp [Table.names, Table.empty] }
      mandatory_held := by simp [mandatoryNames, Table.get?, Table.empty] }

/-- Additions of a text, of a list that holds a text twice, and of a text that is removed again,
with an addition and a removal that have no effect. -/
def valuedChanges : List Change :=
  [.add (valued 1 (.str "a")), .add (valued 2 (.list [.str "b", .long 5, .str "a", .str "b"])),
    .add (valued 3 (.str "c")), .add (valued 1 (.str "a")), .remove ⟨3, 0⟩, .remove ⟨3, 0⟩]

/-- What the indices then print: the list stands below both of its texts and among what is no text,
and the text that was removed has left no bucket. The set that is filled anew prints the same, and
nothing is left of the text when it comes and goes once more. -/
theorem dump_run_valuedChanges :
    let s := run ["n"] valuedChanges
    let printed := String.join ["n:\n",
      "  a\n", "    [acme/0.0.0] x; n=a\n", "    x; n:List<String>=\"b,5,a,b\"\n",
      "  b\n", "    x; n:List<String>=\"b,5,a,b\"\n",
      "  <unindexed>\n", "    x; n:List<String>=\"b,5,a,b\"\n"]
    s.capabilities = [valued 1 (.str "a"),
        valued 2 (.list [.str "b", .long 5, .str "a", .str "b"])] ∧
      s.dump (· == 1) = printed ∧ ((empty ["n"]).addAll s.capabilities).dump (· == 1) = printed ∧
        (s.add (valued 3 (.str "c"))).remove ⟨3, 0⟩ = s := by
  intro s printed
  obtain ⟨⟨hcapabilities, -⟩, -, ⟨-, hdump⟩, hback⟩ := run_canonical ["n"] valuedChanges
  have hprinted : s.dump (· == 1) = printed := by decide +kernel
  -- The fresh set is the same, and so it prints the same.
  refine ⟨hcapabilities, hprinted, (hdump _).symm.trans hprinted, ?_⟩
  have hnew : s.holds (valued 3 (.str "c")).handle = false := by decide +kernel
  have hrestored := hback (valued 3 (.str "c"))
  rwa [if_neg (by simpa using hnew)] at hrestored

end BundleWiring.CapabilitySet
