import BundleWiring.Manifest.Capabilities
import BundleWiring.Proofs.Attribute.Text
import BundleWiring.Proofs.Header.Parameters

/-!
# Written Clauses

A clause is written as a header of one clause: its namespace is the only path, and each attribute
and each directive is a parameter. Texts are quoted when they have to be, other values are written
with their types, and lists are quoted as a whole. Reading the header finds the same parameters in
the same order, and the types tell how to read the values. This module proves:

- `Clause.readParameter_attributeChars` and `Clause.readParameter_directiveChars`: one parameter;
- `Header.foldlM_attributes` and `Header.foldlM_directives`: parameters with distinct keys, added to
  a clause;
- `Clause.read_text`: the clause of a header that a clause is written as;
- `readCapabilities_text`: a capability is read back from its written form.
-/

namespace BundleWiring

open Text Header

/-! ### Parameters -/

/-- A text that is read back in a clause: without blanks at its ends, quotes and backslashes. -/
def IsPlainText (s : String) : Prop :=
  trim s.toList = s.toList ∧ IsQuotable s.toList

instance (s : String) : Decidable (IsPlainText s) :=
  instDecidableAnd

/-- A plain text is read back as a value, with quotes around it where it needs them. -/
theorem readValue_guardedChars {s : String} (hs : IsPlainText s) (key : String) :
    readValue key (Clause.guardedChars s.toList) = .ok (s, .finish) := by
  obtain ⟨htrim, hquotable⟩ := hs
  unfold Clause.guardedChars
  split
  next => rw [readValue_quoted hquotable, String.ofList_toList]
  -- A text that is not quoted is not empty and holds no separator.
  next hguard =>
    simp only [Bool.or_eq_true, not_or, List.any_eq_true, not_exists, not_and, beq_iff_eq] at hguard
    obtain ⟨hne, hfree⟩ := hguard
    rw [readValue_plain (by simpa using hne) htrim, String.ofList_toList]
    intro c hc
    obtain ⟨⟨hsemicolon, hcomma⟩, -⟩ := hfree c hc
    obtain ⟨hquote, hbackslash⟩ := hquotable c hc
    simp [hsemicolon, hcomma, hquote, hbackslash]

namespace AttrValue

/-- The type that a value is written with in a clause. -/
def declaredType? : AttrValue → Option String
  | .str _ => none
  | .range _ => none
  | v => some v.typeName

/-- A text is the only value that is read back without a type. -/
theorem Readable.declaredType?_eq {v : AttrValue} (h : v.Readable) :
    (∃ s, v = .str s) ∨ v.declaredType? = some v.typeName := by
  cases h with
  | str s => exact .inl ⟨s, rfl⟩
  | long | version | longs | versions | texts => exact .inr rfl

/-- A written list can stand between quotes if its elements can be elements of a list. -/
theorem isQuotable_chars_list {items : List AttrValue} (h : ∀ item ∈ items, IsElement item.chars) :
    IsQuotable (list items).chars := by
  intro c hc
  rw [chars, charsAll_eq_intercalate] at hc
  rcases mem_or_mem_of_mem_intercalate hc with hcomma | ⟨s, hs, hc⟩
  · rw [List.mem_singleton.mp hcomma]
    decide
  · obtain ⟨item, hitem, rfl⟩ := List.mem_map.mp hs
    exact ((h item hitem).2 c hc).2

/-- The types of values and of their lists can be declared. -/
theorem isTypeName_of_mem : ∀ type ∈ ["String", "Long", "Version"],
    IsTypeName type ∧ IsTypeName ("List<" ++ type ++ ">") := by
  unfold IsTypeName
  decide

end AttrValue

namespace Clause

variable {c : Clause} {name : String} {v : AttrValue}

/-- Numbers and versions need no quotes. -/
theorem readValue_of_isNumeralChar {s : List Char} (hne : s ≠ [])
    (hs : ∀ c ∈ s, isNumeralChar c = true) (key : String) :
    readValue key s = .ok (String.ofList s, .finish) :=
  readValue_plain hne (trim_eq_self fun c hc => isBlank_eq_false_of_isNumeralChar (hs c hc))
    (fun c hc => notMem_of_isNumeralChar (hs c hc)) key

/-- A written attribute is read back as a parameter with the text of its value. -/
theorem readParameter_attributeChars (hname : isKey name = true) (hv : v.Readable)
    (hstr : ∀ s, v = .str s → IsPlainText s) :
    readParameter (' ' :: attributeChars name v) =
      .ok (.attribute name v.declaredType? v.text, .finish) := by
  cases v with
  | double d | range r => cases hv
  | str s =>
    have htext : AttrValue.text (.str s) = s := String.ofList_toList
    rw [htext]
    exact readParameter_attribute hname (readValue_guardedChars (hstr s rfl) name)
  | long n =>
    refine readParameter_typed hname (AttrValue.isTypeName_of_mem "Long" (by simp)).1 ?_
    exact readValue_of_isNumeralChar (Decimal.int64Chars_ne_nil n)
      (fun c => Decimal.isNumeralChar_of_mem_int64Chars) name
  | version v =>
    refine readParameter_typed hname (AttrValue.isTypeName_of_mem "Version" (by simp)).1 ?_
    exact readValue_of_isNumeralChar (AttrValue.isElement_chars_version v).1
      (fun c => Version.isNumeralChar_of_mem_chars) name
  -- The quotes around a list are the only ones, because its elements hold none.
  | list items =>
    obtain ⟨type, htype, htypeName, hitems⟩ := hv.exists_elementType
    have hlist : IsTypeName (AttrValue.typeName (.list items)) :=
      htypeName ▸ (AttrValue.isTypeName_of_mem type htype).2
    have hquotable : IsQuotable (AttrValue.list items).chars :=
      AttrValue.isQuotable_chars_list fun item hitem => (hitems item hitem).1
    exact readParameter_typed hname hlist (readValue_quoted hquotable name)

/-- A written directive is read back. -/
theorem readParameter_directiveChars {value : String} (hname : isKey name = true)
    (hvalue : IsPlainText value) :
    readParameter (' ' :: directiveChars name value) = .ok (.directive name value, .finish) :=
  readParameter_directive hname (readValue_guardedChars hvalue name)

end Clause

/-! ### Clauses of headers -/

namespace Header

/-- Attributes with distinct keys are added to a clause in order, with the types that they have. -/
theorem foldlM_attributes {c : HeaderClause} {entries : List (String × AttrValue)}
    (h : (c.attributes.names ++ entries.map Prod.fst).Nodup) :
    (entries.map fun e =>
        Parameter.attribute e.1 e.2.declaredType? e.2.text).foldlM addParameter c =
      .ok { c with
        attributes := c.attributes.insertAll (entries.map fun e => (e.1, e.2.text))
        types := c.types.insertAll
          (entries.filterMap fun e => e.2.declaredType?.map (e.1, ·)) } := by
  induction entries generalizing c with
  | nil => rfl
  | cons e entries ih =>
    obtain ⟨hnew, hothers⟩ := Table.nodup_names_insert h e.2.text
    rw [List.map_cons, List.foldlM_cons, addParameter_attribute_eq_ok_iff.mpr ⟨hnew, rfl⟩]
    refine (ih hothers).trans ?_
    -- What is left is the type of the first attribute, if it has one.
    cases htype : e.2.declaredType? with
    | none => rw [List.filterMap_cons_none (by rw [htype]; rfl)]; rfl
    | some type => rw [List.filterMap_cons_some (by rw [htype]; rfl)]; rfl

/-- Directives with distinct keys are added to a clause in order. -/
theorem foldlM_directives {c : HeaderClause} {entries : List (String × String)}
    (h : (c.directives.names ++ entries.map Prod.fst).Nodup) :
    (entries.map fun e => Parameter.directive e.1 e.2).foldlM addParameter c =
      .ok { c with directives := c.directives.insertAll entries } := by
  induction entries generalizing c with
  | nil => rfl
  | cons e entries ih =>
    obtain ⟨hnew, hothers⟩ := Table.nodup_names_insert h e.2
    rw [List.map_cons, List.foldlM_cons, addParameter_directive_eq_ok_iff.mpr ⟨hnew, rfl⟩]
    exact ih hothers

end Header

namespace Clause

/-- A clause that its written form determines. -/
structure IsLegible (c : Clause) : Prop where
  /-- The namespace is not empty and can stand before a separator. -/
  isKey_ns : isKey c.ns = true
  /-- So can the names of attributes. -/
  hasKeys_attributes : HasKeys c.attributes
  /-- So can the names of directives. -/
  hasKeys_directives : HasKeys c.directives
  /-- The values of attributes are read back as values of their types. -/
  readable : ∀ e ∈ c.attributes.entries, e.2.Readable
  /-- The texts among them are read back from a clause. -/
  isPlainText_attributes : ∀ e ∈ c.attributes.entries, ∀ s, e.2 = .str s → IsPlainText s
  /-- So are the values of directives. -/
  isPlainText_directives : ∀ e ∈ c.directives.entries, IsPlainText e.2

/-- The clause of the header that a clause is written as. -/
def headerClause (c : Clause) : HeaderClause where
  paths := [c.ns]
  directives := c.directives
  attributes := .ofList (c.attributes.entries.map fun e => (e.1, e.2.text))
  types := .ofList (c.attributes.entries.filterMap fun e => e.2.declaredType?.map (e.1, ·))

/-- The parameters of a written clause, in order. -/
def parameters (c : Clause) : List Parameter :=
  c.attributes.entries.map (fun e => .attribute e.1 e.2.declaredType? e.2.text) ++
    c.directives.entries.map fun e => .directive e.1 e.2

/-- The parameters of a written clause make up the clause again, one after the other. -/
theorem foldlM_parameters (c : Clause) :
    (Parameter.path c.ns :: c.parameters).foldlM addParameter .empty = .ok c.headerClause := by
  have hattributes := @foldlM_attributes { HeaderClause.empty with paths := [c.ns] }
    c.attributes.entries c.attributes.nodup
  have hdirectives := @foldlM_directives { c.headerClause with directives := .empty }
    c.directives.entries c.directives.nodup
  have hall : (Parameter.path c.ns :: c.parameters).foldlM addParameter .empty =
      (c.attributes.entries.map fun e =>
          Parameter.attribute e.1 e.2.declaredType? e.2.text).foldlM addParameter
            { HeaderClause.empty with paths := [c.ns] } >>= fun c' =>
        (c.directives.entries.map fun e => Parameter.directive e.1 e.2).foldlM addParameter c' :=
    List.foldlM_append ..
  rw [hall, hattributes]
  -- The directives of the clause are added to a clause that has all attributes already.
  refine hdirectives.trans ?_
  exact congrArg (fun directives => Except.ok { c.headerClause with directives })
    (Table.ofList_entries c.directives)

/-- The header that a clause is written as has one clause, with the parameters of the clause. -/
theorem read_text {c : Clause} (h : c.IsLegible) : Header.read c.text = .ok [c.headerClause] := by
  have hparameters : List.Forall₂ (fun s p => readParameter (' ' :: s) = .ok (p, .finish))
      (c.attributes.entries.map (fun e => attributeChars e.1 e.2) ++
        c.directives.entries.map fun e => directiveChars e.1 e.2) c.parameters := by
    -- Attributes come before directives, and each of them is read on its own.
    refine List.rel_append ?_ ?_
    · rw [List.forall₂_map_left_iff, List.forall₂_map_right_iff, List.forall₂_same]
      exact fun e he => readParameter_attributeChars
        (h.hasKeys_attributes e.1 (List.mem_map_of_mem he)) (h.readable e he)
        (h.isPlainText_attributes e he)
    · rw [List.forall₂_map_left_iff, List.forall₂_map_right_iff, List.forall₂_same]
      exact fun e he => readParameter_directiveChars
        (h.hasKeys_directives e.1 (List.mem_map_of_mem he)) (h.isPlainText_directives e he)
  rw [read_eq_ok_iff, text, String.toList_ofList]
  refine (clausesFrom_parameters (readParameter_path h.isKey_ns) hparameters .empty).trans ?_
  rw [foldlM_parameters]
  rfl

end Clause

/-! ### Capabilities -/

namespace Table

variable {α β : Type}

/-- Leaving out entries leaves the other names in their order. -/
theorem map_fst_filterMap_sublist (g : α → Option β) (entries : List (String × α)) :
    ((entries.filterMap fun e => (g e.2).map (e.1, ·)).map Prod.fst).Sublist
      (entries.map Prod.fst) := by
  induction entries with
  | nil => exact .slnil
  | cons e entries ih =>
    cases hg : g e.2 with
    | none =>
      rw [List.filterMap_cons_none (by rw [hg]; rfl)]
      exact ih.cons e.1
    | some b =>
      rw [List.filterMap_cons_some (by rw [hg]; rfl)]
      exact ih.cons_cons e.1

/-- What some values of a table give, under the names of the values. -/
theorem get?_filterMap (t : Table α) (g : α → Option β) (name : String) :
    (ofList (t.entries.filterMap fun e => (g e.2).map (e.1, ·))).get? name =
      (t.get? name).bind g := by
  refine Option.ext fun b => ?_
  rw [← mem_entries_iff, entries_ofList (t.nodup.sublist (map_fst_filterMap_sublist g t.entries)),
    List.mem_filterMap, Option.bind_eq_some_iff]
  constructor
  · rintro ⟨⟨name', a⟩, he, hb⟩
    obtain ⟨b', hb', heq⟩ := Option.map_eq_some_iff.mp hb
    obtain ⟨rfl, rfl⟩ := Prod.mk.inj heq
    exact ⟨a, t.get?_of_mem he, hb'⟩
  · rintro ⟨a, ha, hb⟩
    exact ⟨(name, a), t.mem_entries_iff.mpr ha, Option.map_eq_some_iff.mpr ⟨b, hb, rfl⟩⟩

end Table

namespace Manifest

variable {c : Clause}

/-- The attributes of a written clause are read back, with their types. -/
theorem typedAttributes_headerClause (h : c.IsLegible) :
    typedAttributes c.headerClause [] = .ok c.attributes.entries := by
  have hentries : c.headerClause.attributes.entries =
      c.attributes.entries.map fun e => (e.1, e.2.text) := by
    refine Table.entries_ofList ?_
    rw [List.map_map]
    exact c.attributes.nodup
  rw [typedAttributes, hentries, List.filter_eq_self.mpr (by simp), mapM_eq_ok_iff,
    List.forall₂_map_left_iff, List.forall₂_same]
  rintro ⟨name, v⟩ he
  refine map_eq_ok_iff.mpr ⟨v, ?_, rfl⟩
  -- The type that is written with an attribute is that of its value.
  have htype : c.headerClause.types.get? name = v.declaredType? := by
    rw [Clause.headerClause, Table.get?_filterMap, c.attributes.get?_of_mem he]
    rfl
  rw [htype]
  -- A text is written without a type, and read back as it stands.
  rcases (h.readable _ he).declaredType?_eq with ⟨s, rfl⟩ | hdeclared
  · rw [AttrValue.declaredType?, Option.elim_none, AttrValue.text, AttrValue.chars,
      String.ofList_toList]
  · rw [hdeclared, Option.elim_some]
    exact AttrValue.read_text (h.readable _ he) name

/-- A written clause is read as one clause. -/
theorem clausesOf_text (h : c.IsLegible) : clausesOf c.text = .ok [c.headerClause] := by
  -- The namespace holds more than blanks, and so does the whole text.
  obtain ⟨hne, htrim, -⟩ := isKey_iff.mp h.isKey_ns
  obtain ⟨first, others, hns⟩ : ∃ first others, c.ns.toList = first :: others :=
    List.exists_cons_of_ne_nil (by simpa using hne)
  have hfirst : first ∈ c.ns.toList.head? := hns ▸ rfl
  have hmem : first ∈ trim c.text.toList := by
    refine mem_trim ?_ ((trim_eq_self_iff.mp htrim).1 first hfirst)
    rw [Clause.text, String.toList_ofList]
    exact List.mem_append_left _ (List.mem_of_mem_head? hfirst)
  rw [clausesOf, if_neg (by simpa using List.ne_nil_of_mem hmem)]
  exact Clause.read_text h

/-- A clause with one path gives what this path gives. -/
theorem forEachPath_singleton {α : Type} {c : HeaderClause} {path : String}
    {f : HeaderClause → String → Except Error α} {a : α} (hpaths : c.paths = [path])
    (h : f c path = .ok a) : forEachPath [c] f = .ok [a] := by
  have hpath : c.paths.mapM (f c) = .ok [a] := by
    rw [hpaths]
    exact mapM_eq_ok_iff.mpr (.cons h .nil)
  exact map_eq_ok_iff.mpr ⟨[[a]], mapM_eq_ok_iff.mpr (.cons hpath .nil), rfl⟩

/-- A capability is read back from its written form. -/
theorem readCapabilities_text {c : Capability} (h : c.clause.IsLegible) (hns : isWiring c = false) :
    readCapabilities c.clause.text = .ok [c] := by
  have hread : checkNamespace Names.provideCapabilityHeader c.ns = .ok () :=
    if_neg (by rw [← Bool.not_eq_true] at hns; exact hns)
  have hattributes : Table.ofList c.clause.attributes.entries = c.attributes :=
    Table.ofList_entries c.clause.attributes
  have hparts : Capability.ofParts c.ns c.directives c.attributes = .ok c :=
    Capability.ofParts_eq_ok_iff.mpr ⟨rfl, rfl, rfl⟩
  -- The header has one clause, and the namespace is its only path.
  refine bind_eq_ok_iff.mpr ⟨_, clausesOf_text h, forEachPath_singleton rfl ?_⟩
  simp only [bind_eq_ok_iff]
  refine ⟨(), hread, c.clause.attributes.entries, typedAttributes_headerClause h, ?_⟩
  rw [hattributes]
  exact hparts

/-- Texts with separators, an empty text, values with types and a mandatory attribute. -/
theorem readCapabilities_text_mixed :
    ∃ c : Capability, c.clause.text =
        "a.b; s=\"x;y=1\"; e=\"\"; n:Long=-5; v:Version=1.2.0.q; l:List<Long>=\"1,2\"; " ++
          "t:List<String>=\"c d,e;f\"; z:List<String>=\"\"; " ++
          "mandatory:=\"s,n\"; effective:=resolve" ∧
      readCapabilities c.clause.text = .ok [c] := by
  refine ⟨⟨{
    ns := "a.b"
    directives := ⟨[("mandatory", "s,n"), ("effective", "resolve")], by decide⟩
    attributes := ⟨[("s", .str "x;y=1"), ("e", .str ""), ("n", .long (-5)),
      ("v", .version ⟨1, 2, 0, "q", by decide⟩), ("l", .list [.long 1, .long 2]),
      ("t", .list [.str "c d", .str "e;f"]), ("z", .list [])], by decide⟩
    ns_proper := by decide
    disjoint := by decide }, by decide +kernel⟩, by decide +kernel,
    readCapabilities_text ?_ (by decide)⟩
  refine ⟨by decide, by unfold HasKeys; decide, by unfold HasKeys; decide, ?_, ?_, ?_⟩
  · simp only [List.forall_mem_cons]
    refine ⟨.str _, .str _, .long _, .version _, .longs [1, 2],
      @AttrValue.Readable.texts ["c d", "e;f"] ?_, .longs [], List.forall_mem_nil _⟩
    decide
  · simp only [List.forall_mem_cons]
    refine ⟨?_, ?_, ?_, ?_, ?_, ?_, ?_, List.forall_mem_nil _⟩ <;> rintro s ⟨⟩ <;> decide
  · decide

end Manifest

end BundleWiring
