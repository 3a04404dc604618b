/-!
# Tables

A table assigns values to names and remembers the order in which the names were first inserted.
Inserting under a name that the table holds replaces the value and keeps the name in its place.
Two tables are the same if they assign the same values, in whatever order.

The view of a table is `get?`, and its order is that of `names`: `get?_insert` and `names_insert`
say what inserting does to them.
-/

namespace BundleWiring

/-- An assignment of values to distinct names, in the order of insertion. -/
structure Table (α : Type) where
  /-- The names and their values. -/
  entries : List (String × α)
  /-- No name occurs twice. -/
  nodup : (entries.map Prod.fst).Nodup

namespace Table

variable {α β : Type}

/-- The table without entries. -/
def empty : Table α :=
  ⟨[], by simp⟩

instance : Inhabited (Table α) := ⟨empty⟩

/-- The names of a table, in order. -/
def names (t : Table α) : List String :=
  t.entries.map Prod.fst

/-- The value under a name. -/
def get? (t : Table α) (name : String) : Option α :=
  t.entries.lookup name

/-- Whether a name has a value. -/
def contains (t : Table α) (name : String) : Bool :=
  t.names.contains name

/-- The entries with the value of `name` replaced. -/
def replace (entries : List (String × α)) (name : String) (value : α) : List (String × α) :=
  entries.map fun e => if e.1 = name then (name, value) else e

/-- Replacing a value keeps the names. -/
theorem map_fst_replace (entries : List (String × α)) (name : String) (value : α) :
    (replace entries name value).map Prod.fst = entries.map Prod.fst := by
  rw [replace, List.map_map]
  refine List.map_congr_left fun e _ => ?_
  by_cases h : e.1 = name <;> simp [h]

/-- The table with a value under a name, in the place of the name if it has one and at the end
otherwise. -/
def insert (t : Table α) (name : String) (value : α) : Table α :=
  if h : t.contains name then
    ⟨replace t.entries name value, by rw [map_fst_replace]; exact t.nodup⟩
  else
    ⟨t.entries ++ [(name, value)], by
      have hn : name ∉ t.entries.map Prod.fst := by simpa [contains, names] using h
      rw [List.map_append, List.nodup_append]
      refine ⟨t.nodup, by simp, fun a ha b hb => ?_⟩
      obtain rfl : b = name := by simpa using hb
      exact fun hab => hn (hab ▸ ha)⟩

/-- The table after inserting all of some entries, one after the other. -/
def insertAll (t : Table α) (entries : List (String × α)) : Table α :=
  entries.foldl (fun t e => t.insert e.1 e.2) t

/-- The table of some entries, of which the last one under a name gives its value. -/
def ofList (entries : List (String × α)) : Table α :=
  empty.insertAll entries

/-- The table without a name. -/
def erase (t : Table α) (name : String) : Table α :=
  ⟨t.entries.filter (·.1 != name), t.nodup.sublist (List.filter_sublist.map _)⟩

/-- The values of a table, in order. -/
def values (t : Table α) : List α :=
  t.entries.map Prod.snd

/-- Tables agree if they have the same number of entries and each entry of the first one belongs to
the second one. -/
instance [BEq α] : BEq (Table α) where
  beq s t := s.entries.length == t.entries.length &&
    s.entries.all fun e => t.get? e.1 == some e.2

/-! ### Values under names -/

@[simp]
theorem get?_empty (name : String) : (empty : Table α).get? name = none :=
  rfl

@[simp]
theorem names_empty : (empty : Table α).names = [] :=
  rfl

/-- A name that is there has the value that replaced its own. -/
theorem lookup_replace_self {entries : List (String × α)} {name : String} (value : α)
    (h : name ∈ entries.map Prod.fst) : (replace entries name value).lookup name = some value := by
  induction entries with
  | nil => simp at h
  | cons e entries ih =>
    obtain ⟨n, v⟩ := e
    by_cases hn : n = name
    · simp [replace, hn]
    · have hne : (name == n) = false := by simpa using Ne.symm hn
      have hmem : name ∈ entries.map Prod.fst := by simpa [Ne.symm hn] using h
      simpa [replace, hn, List.lookup_cons, hne] using ih hmem

/-- Replacing the value of a name keeps the values of other names. -/
theorem lookup_replace_of_ne {entries : List (String × α)} {name other : String} (value : α)
    (h : other ≠ name) : (replace entries name value).lookup other = entries.lookup other := by
  induction entries with
  | nil => rfl
  | cons e entries ih =>
    obtain ⟨n, v⟩ := e
    have hname : (other == name) = false := by simpa using h
    by_cases hn : n = name
    · simpa [replace, hn, List.lookup_cons, hname] using ih
    · by_cases ho : other = n
      · simp [replace, hn, ho]
      · have hne : (other == n) = false := by simpa using ho
        simpa [replace, hn, List.lookup_cons, hne] using ih

/-- A name has a value if it is there. -/
theorem isSome_lookup (entries : List (String × α)) (name : String) :
    (entries.lookup name).isSome = (entries.map Prod.fst).contains name := by
  induction entries with
  | nil => rfl
  | cons e entries ih =>
    obtain ⟨n, v⟩ := e
    rw [List.lookup_cons, List.map_cons, List.contains_cons]
    cases h : name == n <;> simp [ih]

/-- The names are those that have a value. -/
theorem isSome_get? (t : Table α) (name : String) : (t.get? name).isSome = t.contains name :=
  isSome_lookup t.entries name

/-- Among distinct names, the value beside a name is the value of the name. -/
theorem lookup_of_mem {entries : List (String × α)} (hnodup : (entries.map Prod.fst).Nodup)
    {e : String × α} (he : e ∈ entries) : entries.lookup e.1 = some e.2 := by
  induction entries with
  | nil => cases he
  | cons first entries ih =>
    rw [List.map_cons, List.nodup_cons] at hnodup
    rw [List.lookup_cons]
    rcases List.mem_cons.mp he with rfl | hmem
    · rw [beq_self_eq_true]
    · have hne : (e.1 == first.1) = false := by
        rw [beq_eq_false_iff_ne]
        exact fun heq => hnodup.1 (heq ▸ List.mem_map_of_mem hmem)
      rw [hne]
      exact ih hnodup.2 hmem

/-- An entry gives the value of its name. -/
theorem get?_of_mem (t : Table α) {e : String × α} (he : e ∈ t.entries) :
    t.get? e.1 = some e.2 :=
  lookup_of_mem t.nodup he

/-- The entries of a table are the names with their values. -/
theorem mem_entries_iff (t : Table α) {name : String} {value : α} :
    (name, value) ∈ t.entries ↔ t.get? name = some value := by
  refine ⟨t.get?_of_mem, fun h => ?_⟩
  obtain ⟨before, after, hentries, -⟩ := List.lookup_eq_some_iff.mp h
  rw [hentries]
  exact List.mem_append_right _ (List.mem_cons_self ..)

/-- Inserting decides the value of the inserted name and of no other one. -/
theorem get?_insert (t : Table α) (name other : String) (value : α) :
    (t.insert name value).get? other = if other = name then some value else t.get? other := by
  by_cases hc : t.contains name
  · have hmem : name ∈ t.entries.map Prod.fst := by simpa [contains, names] using hc
    by_cases ho : other = name
    · simpa [insert, hc, get?, ho] using lookup_replace_self value hmem
    · simpa [insert, hc, get?, ho] using lookup_replace_of_ne value ho
  · by_cases ho : other = name
    · have hnone : t.entries.lookup name = none := by
        rw [← isSome_get?, Bool.not_eq_true, Option.isSome_eq_false_iff] at hc
        exact Option.isNone_iff_eq_none.mp hc
      simp [insert, hc, get?, ho, List.lookup_append, hnone]
    · have hne : (other == name) = false := by simpa using ho
      simp [insert, hc, get?, ho, List.lookup_append, List.lookup_cons, hne]

@[simp]
theorem insertAll_nil (t : Table α) : t.insertAll [] = t :=
  rfl

@[simp]
theorem insertAll_cons (t : Table α) (e : String × α) (entries : List (String × α)) :
    t.insertAll (e :: entries) = (t.insert e.1 e.2).insertAll entries :=
  rfl

/-- Inserting some entries leaves other names alone. -/
theorem get?_insertAll_of_notMem (t : Table α) {entries : List (String × α)} {name : String}
    (h : name ∉ entries.map Prod.fst) : (t.insertAll entries).get? name = t.get? name := by
  induction entries generalizing t with
  | nil => rfl
  | cons e entries ih =>
    rw [List.map_cons, List.mem_cons, not_or] at h
    rw [insertAll_cons, ih _ h.2, get?_insert, if_neg h.1]

/-- A name keeps its place when it is inserted again, and comes last when it is new. -/
theorem names_insert (t : Table α) (name : String) (value : α) :
    (t.insert name value).names = if t.contains name then t.names else t.names ++ [name] := by
  by_cases hc : t.contains name
  · simp [insert, hc, names, map_fst_replace]
  · simp [insert, hc, names]

/-- A new name comes last, with its value. -/
theorem entries_insert_of_notMem {t : Table α} {name : String} (h : name ∉ t.names) (value : α) :
    (t.insert name value).entries = t.entries ++ [(name, value)] := by
  have hc : t.contains name = false := by simpa [contains] using h
  simp [insert, hc]

/-- Of names that are new and distinct, the first one can be inserted, and the others stay new. -/
theorem nodup_names_insert {t : Table α} {name : String} {others : List String}
    (h : (t.names ++ name :: others).Nodup) (value : α) :
    name ∉ t.names ∧ ((t.insert name value).names ++ others).Nodup := by
  have hnew : name ∉ t.names := fun hmem =>
    (List.nodup_append.mp h).2.2 name hmem name (List.mem_cons_self ..) rfl
  refine ⟨hnew, ?_⟩
  rw [names, entries_insert_of_notMem hnew, List.map_append]
  rwa [List.append_cons] at h

/-- New names come last, in the order in which they are inserted. -/
theorem entries_insertAll {t : Table α} {entries : List (String × α)}
    (h : (t.names ++ entries.map Prod.fst).Nodup) :
    (t.insertAll entries).entries = t.entries ++ entries := by
  induction entries generalizing t with
  | nil => rw [insertAll_nil, List.append_nil]
  | cons e entries ih =>
    obtain ⟨hnew, hothers⟩ := nodup_names_insert h e.2
    rw [insertAll_cons, ih hothers, entries_insert_of_notMem hnew, List.append_assoc]
    rfl

/-- Entries with distinct names stay as they are. -/
theorem entries_ofList {entries : List (String × α)} (h : (entries.map Prod.fst).Nodup) :
    (ofList entries).entries = entries :=
  entries_insertAll h

/-- Tables with the same entries are equal. -/
theorem ext_entries {s t : Table α} (h : s.entries = t.entries) : s = t := by
  cases s
  cases t
  cases h
  rfl

/-- A table is the table of its entries. -/
@[simp]
theorem ofList_entries (t : Table α) : ofList t.entries = t :=
  ext_entries (entries_ofList t.nodup)

end Table

end BundleWiring
