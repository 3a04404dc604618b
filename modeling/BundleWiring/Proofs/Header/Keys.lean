import BundleWiring.Manifest.Parts
import BundleWiring.Proofs.Manifest.Readers

/-!
# Keys of Headers

The key of a parameter is what stands before the first separator, without the blanks around it, and
an empty one is refused. So the attributes of a clause that is read have names that are not empty,
have no blanks at their ends and hold no separator. This module proves:

- `isKey_of_readParameter`: an attribute that is read is called by a key;
- `hasKeys_of_addParameter`: a parameter that is added to a clause adds nothing but a key;
- `forall_mem_clausesFrom`: what adding parameters preserves, it preserves in all clauses;
- `hasKeys_of_mem_clausesFrom`: the attributes of the clauses of a header are called by keys.
-/

namespace BundleWiring

open Text

/-! ### Texts without blanks at their ends -/

namespace Text

variable {s : List Char} {c : Char}

/-- A trimmed text is the front of the text without the blanks that it starts with. -/
theorem trim_prefix_trimStart (s : List Char) : trim s <+: trimStart s :=
  List.rdropWhile_prefix isBlank (trimStart s)

theorem mem_of_mem_trim (h : c ∈ trim s) : c ∈ s :=
  (List.dropWhile_sublist isBlank).subset ((trim_prefix_trimStart s).subset h)

/-- A trimmed text does not start with a blank. -/
theorem isBlank_of_mem_head?_trim (h : c ∈ (trim s).head?) : isBlank c = false := by
  obtain ⟨t, ht⟩ := trim_prefix_trimStart s
  have hnot := List.head?_dropWhile_not isBlank s
  rwa [← trimStart, ← ht, List.head?_append, Option.mem_def.mp h] at hnot

/-- A trimmed text does not end with a blank. -/
theorem isBlank_of_mem_getLast?_trim (h : c ∈ (trim s).getLast?) : isBlank c = false := by
  have hne : trim s ≠ [] := by
    rintro hnil
    rw [hnil] at h
    cases h
  rw [List.getLast?_eq_getLast_of_ne_nil hne] at h
  cases h
  exact Bool.eq_false_iff.mpr (List.rdropWhile_last_not isBlank (trimStart s) hne)

end Text

namespace Table

variable {α : Type}

/-- An entry adds its name to those of a table. -/
theorem mem_names_insert (t : Table α) (name other : String) (value : α) :
    other ∈ (t.insert name value).names ↔ other = name ∨ other ∈ t.names := by
  rw [names_insert]
  split
  next hmem =>
    refine (or_iff_right_of_imp ?_).symm
    rintro rfl
    exact List.contains_iff_mem.mp hmem
  next => rw [List.mem_append, List.mem_singleton, or_comm]

end Table

namespace Header

/-- Whether a text can be the key of a parameter. -/
def isKey (key : String) : Bool :=
  !key.isEmpty && trim key.toList == key.toList && key.toList.all (!isKeyEnd ·)

/-- A key is not empty, has no blanks at its ends and holds no character that ends a key. -/
theorem isKey_iff {key : String} : isKey key = true ↔
    key ≠ "" ∧ trim key.toList = key.toList ∧ ∀ c ∈ key.toList, isKeyEnd c = false := by
  simp [isKey, and_assoc]

/-- What stands before a separator is a key, if more than blanks does. -/
theorem isKey_of_trim_takeWhile {s : List Char} {key : String}
    (hkey : String.ofList (trim (s.takeWhile (!isKeyEnd ·))) = key) (hne : key.isEmpty = false) :
    isKey key = true := by
  subst hkey
  rw [isKey_iff, String.toList_ofList]
  refine ⟨by simpa using hne, trim_trim _, fun c hc => ?_⟩
  simpa using List.mem_takeWhile_imp (mem_of_mem_trim hc)

/-! ### Tables with keys -/

/-- The names of a table are keys. -/
def HasKeys {α : Type} (t : Table α) : Prop :=
  ∀ name ∈ t.names, isKey name = true

section HasKeys

variable {α : Type} {t : Table α} {entries : List (String × α)}

theorem hasKeys_empty : HasKeys (Table.empty : Table α) := by
  simp [HasKeys]

/-- A table that has keys keeps them with one more entry of this kind. -/
theorem HasKeys.insert (ht : HasKeys t) {key : String} (hkey : isKey key = true) (value : α) :
    HasKeys (t.insert key value) := by
  intro name hname
  rcases (Table.mem_names_insert t key name value).mp hname with rfl | hname
  · exact hkey
  · exact ht name hname

/-- A table that has keys keeps them with more entries of this kind. -/
theorem HasKeys.insertAll (ht : HasKeys t)
    (h : ∀ name ∈ entries.map Prod.fst, isKey name = true) : HasKeys (t.insertAll entries) := by
  induction entries generalizing t with
  | nil => exact ht
  | cons e entries ih =>
    rw [List.map_cons, List.forall_mem_cons] at h
    rw [Table.insertAll_cons]
    exact ih (ht.insert h.1 e.2) h.2

/-- A table of entries whose names are keys has keys. -/
theorem hasKeys_ofList (h : ∀ name ∈ entries.map Prod.fst, isKey name = true) :
    HasKeys (Table.ofList entries) :=
  hasKeys_empty.insertAll h

end HasKeys

/-! ### Parameters and clauses -/

/-- The key of a parameter that is an attribute. -/
def Parameter.attribute? : Parameter → Option String
  | .attribute key _ _ => some key
  | _ => none

variable {s : List Char} {p : Parameter} {stop : Stop} {c c' : HeaderClause}

/-- The parameter of a key is an attribute of this key, or none. -/
theorem mem_attribute?_readTyped {key key' : String} (h : readTyped key s = .ok (p, stop))
    (hp : key' ∈ p.attribute?) : key' = key := by
  unfold readTyped at h
  split at h
  · cases h
  next rest _ =>
    simp only at h
    -- Without a type the parameter is a directive, and no attribute at all.
    split at h
    · obtain ⟨value, -, hp'⟩ := map_eq_ok_iff.mp h
      obtain rfl : _ = p := congrArg Prod.fst hp'
      cases hp
    · obtain ⟨value, -, hp'⟩ := map_eq_ok_iff.mp h
      obtain rfl : _ = p := congrArg Prod.fst hp'
      exact (Option.some.inj hp).symm

/-- An attribute that is read has a key for its name. -/
theorem isKey_of_readParameter (h : readParameter s = .ok (p, stop)) :
    ∀ key ∈ p.attribute?, isKey key = true := by
  intro key hp
  unfold readParameter at h
  simp only at h
  -- What ends before a value is a path, and no attribute.
  split at h
  · obtain rfl : _ = p := congrArg Prod.fst (Except.ok.inj h)
    cases hp
  · obtain rfl : _ = p := congrArg Prod.fst (Except.ok.inj h)
    cases hp
  · obtain rfl : _ = p := congrArg Prod.fst (Except.ok.inj h)
    cases hp
  · split at h
    · cases h
    next hempty =>
      have hkey := isKey_of_trim_takeWhile rfl (Bool.eq_false_iff.mpr hempty)
      split at h
      · obtain ⟨value, -, hp'⟩ := map_eq_ok_iff.mp h
        obtain rfl : _ = p := congrArg Prod.fst hp'
        rwa [← Option.some.inj hp]
      · rwa [mem_attribute?_readTyped h hp]

/-- A directive is added exactly if the clause has none of its key. -/
theorem addParameter_directive_eq_ok_iff {key value : String} :
    addParameter c (.directive key value) = .ok c' ↔ key ∉ c.directives.names ∧
      { c with directives := c.directives.insert key value } = c' := by
  rw [addParameter]
  split
  next hmem => exact iff_of_false (by simp) fun h => h.1 (List.contains_iff_mem.mp hmem)
  next hnew =>
    rw [Except.ok.injEq, and_iff_right fun hmem => hnew (List.contains_iff_mem.mpr hmem)]

/-- An attribute is added, with its type, exactly if the clause has none of its key. -/
theorem addParameter_attribute_eq_ok_iff {key value : String} {type : Option String} :
    addParameter c (.attribute key type value) = .ok c' ↔ key ∉ c.attributes.names ∧
      { c with
        attributes := c.attributes.insert key value
        types := type.elim c.types (c.types.insert key) } = c' := by
  rw [addParameter]
  split
  next hmem => exact iff_of_false (by simp) fun h => h.1 (List.contains_iff_mem.mp hmem)
  next hnew =>
    rw [Except.ok.injEq, and_iff_right fun hmem => hnew (List.contains_iff_mem.mpr hmem)]

/-- A clause whose attributes have keys keeps them with one more parameter. -/
theorem hasKeys_of_addParameter (hc : HasKeys c.attributes)
    (hp : ∀ key ∈ p.attribute?, isKey key = true) (h : addParameter c p = .ok c') :
    HasKeys c'.attributes := by
  match p with
  | .path text =>
    obtain rfl := Except.ok.inj h
    exact hc
  | .directive key value =>
    obtain ⟨-, rfl⟩ := addParameter_directive_eq_ok_iff.mp h
    exact hc
  | .attribute key type value =>
    obtain ⟨-, rfl⟩ := addParameter_attribute_eq_ok_iff.mp h
    exact hc.insert (hp key rfl) value

/-! ### Clauses -/

variable {cs : List HeaderClause}

/-- The clauses from the clause `c` on, which has all its parameters up to a stop. -/
def clausesAfter (c : HeaderClause) : Stop → Except Fault (List HeaderClause)
  | .finish => .ok [c]
  | .parameter rest => clausesFrom c rest
  | .clause rest => (c :: ·) <$> clausesFrom .empty rest

/-- The clauses of a text are those behind its first parameter, which the first of them takes. -/
theorem clausesFrom_of_readParameter (h : readParameter s = .ok (p, stop)) (c : HeaderClause) :
    clausesFrom c s = addParameter c p >>= (clausesAfter · stop) := by
  rw [clausesFrom, h]
  cases stop with
  | finish => exact map_eq_pure_bind _ _
  | parameter rest => rfl
  | clause rest => rfl

/-- A text has the clauses `cs` from the clause `c` on, read from parameter to parameter. -/
inductive ReadsClauses : HeaderClause → List Char → List HeaderClause → Prop where
  /-- The last parameter ends the last clause. -/
  | finish {c c' : HeaderClause} {s : List Char} {p : Parameter} :
    readParameter s = .ok (p, .finish) → addParameter c p = .ok c' → ReadsClauses c s [c']
  /-- Before a semicolon the clause goes on with the parameter. -/
  | parameter {c c' : HeaderClause} {s rest : List Char} {p : Parameter} {cs : List HeaderClause} :
    readParameter s = .ok (p, .parameter rest) → addParameter c p = .ok c' →
      ReadsClauses c' rest cs → ReadsClauses c s cs
  /-- Behind a comma another clause starts, without parameters. -/
  | clause {c c' : HeaderClause} {s rest : List Char} {p : Parameter} {cs : List HeaderClause} :
    readParameter s = .ok (p, .clause rest) → addParameter c p = .ok c' →
      ReadsClauses .empty rest cs → ReadsClauses c s (c' :: cs)

/-- Clauses are given exactly if they are read from parameter to parameter. -/
theorem clausesFrom_eq_ok_iff : clausesFrom c s = .ok cs ↔ ReadsClauses c s cs := by
  constructor
  · intro h
    -- The induction is on the recursion of the reader, the cases of which are the constructors.
    induction c, s using clausesFrom.induct generalizing cs with
    | case1 c s fault hread =>
      rw [clausesFrom, hread] at h
      cases h
    | case2 c s p hread =>
      rw [clausesFrom_of_readParameter hread] at h
      obtain ⟨c', hadd, h⟩ := bind_eq_ok_iff.mp h
      obtain rfl : [c'] = cs := Except.ok.inj h
      exact .finish hread hadd
    | case3 c s p rest hread ih =>
      rw [clausesFrom_of_readParameter hread] at h
      obtain ⟨c', hadd, h⟩ := bind_eq_ok_iff.mp h
      exact .parameter hread hadd (ih c' h)
    | case4 c s p rest hread ih =>
      rw [clausesFrom_of_readParameter hread] at h
      obtain ⟨c', hadd, h⟩ := bind_eq_ok_iff.mp h
      obtain ⟨cs', hrest, rfl⟩ := map_eq_ok_iff.mp h
      exact .clause hread hadd (ih hrest)
  · intro h
    induction h with
    | finish hread hadd =>
      rw [clausesFrom_of_readParameter hread, hadd]
      rfl
    | parameter hread hadd _ ih =>
      rw [clausesFrom_of_readParameter hread, hadd]
      exact ih
    | clause hread hadd _ ih =>
      rw [clausesFrom_of_readParameter hread, hadd]
      exact map_eq_ok_iff.mpr ⟨_, ih, rfl⟩

/-- What holds of the clause without parameters, and still holds when a parameter that is read is
added, holds of all clauses of a text. -/
theorem forall_mem_clausesFrom {P : HeaderClause → Prop} (hempty : P .empty)
    (hadd : ∀ {c c' p s stop}, readParameter s = .ok (p, stop) → P c →
      addParameter c p = .ok c' → P c')
    (hc : P c) (h : clausesFrom c s = .ok cs) : ∀ c' ∈ cs, P c' := by
  rw [clausesFrom_eq_ok_iff] at h
  induction h with
  | finish hread hc' => exact List.forall_mem_singleton.mpr (hadd hread hc hc')
  | parameter hread hc' _ ih => exact ih (hadd hread hc hc')
  | clause hread hc' _ ih => exact List.forall_mem_cons.mpr ⟨hadd hread hc hc', ih hempty⟩

/-- The clauses of a text are called by keys, if the one that the text goes on with is. -/
theorem hasKeys_of_mem_clausesFrom (hc : HasKeys c.attributes)
    (h : clausesFrom c s = .ok cs) : ∀ c' ∈ cs, HasKeys c'.attributes :=
  forall_mem_clausesFrom (P := fun c => HasKeys c.attributes) hasKeys_empty
    (fun hread hc => hasKeys_of_addParameter hc (isKey_of_readParameter hread)) hc h

/-- A header is read from a clause without parameters on. -/
theorem read_eq_ok_iff {text : String} :
    read text = .ok cs ↔ clausesFrom .empty text.toList = .ok cs :=
  mapError_eq_ok_iff

/-- The attributes of every clause of a header have keys. -/
theorem hasKeys_of_mem_read {text : String} (h : read text = .ok cs) (hc : c ∈ cs) :
    HasKeys c.attributes :=
  hasKeys_of_mem_clausesFrom hasKeys_empty (read_eq_ok_iff.mp h) c hc

end Header

/-- The attributes of a clause of a manifest are called by keys. -/
theorem Manifest.HasClause.hasKeys {text : String} {c : HeaderClause} (hc : HasClause text c) :
    Header.HasKeys c.attributes := by
  obtain ⟨cs, hcs, hmem⟩ := hc
  unfold clausesOf at hcs
  split at hcs
  · obtain rfl : [] = cs := Except.ok.inj hcs
    cases hmem
  · exact Header.hasKeys_of_mem_read hcs hmem

end BundleWiring
