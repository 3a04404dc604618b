import BundleWiring.Proofs.Attribute.Text
import BundleWiring.Proofs.Text.Joined
import Mathlib.Data.Set.List

/-!
# Values that are Read Back

A value that was read as a declared type is written with the name of its type and, without any
backslashes, with commas between the elements of a list. So numbers and versions are always read
back, and so are their lists; a list of texts is read back only if its texts are found again when
they are joined. This module proves:

- `read_of_trimText_mem` and `read_of_elementType`: what the declared types are read as;
- `readable_or_exists_of_read`: the values of declared types;
- `read_text_list_iff`: the lists of texts that are read back;
- `read_text_iff`: the values that are read back.
-/

namespace BundleWiring

namespace AttrValue

open Text

variable {name type raw : String} {v : AttrValue} {ss : List String}

/-! ### Values of declared types -/

/-- A type declares a text, an integer or a version, or a list of one of these. There may be blanks
around it, and around the type of the elements. -/
inductive IsDeclared (type : String) : Prop where
  /-- The type of a value without elements. -/
  | scalar (h : trimText type ∈ ["String", "Long", "Version"]) : IsDeclared type
  /-- The type of a list. -/
  | list {rest : List Char} {element : String} (hlist : trim type.toList = "List".toList ++ rest)
    (helement : elementType? rest = some element) (h : element ∈ ["String", "Long", "Version"]) :
    IsDeclared type

/-- A value of a type that is no list is read as one scalar. -/
theorem read_of_trimText_mem (h : trimText type ∈ ["String", "Long", "Version"])
    (name raw : String) : read name type raw = readScalar name (trimText type) raw := by
  have hlist : "List".toList.isPrefixOf (trim type.toList) = false := by
    have hall : ∀ scalar ∈ ["String", "Long", "Version"],
        "List".toList.isPrefixOf scalar.toList = false := by decide
    have htext : (trimText type).toList = trim type.toList := String.toList_ofList
    rw [← htext]
    exact hall _ h
  rw [read, hlist]
  rfl

/-- A value of a list type is cut at its commas, and each element is read as a scalar. -/
theorem read_of_elementType {rest : List Char} {element : String}
    (hlist : trim type.toList = "List".toList ++ rest) (helement : elementType? rest = some element)
    (name raw : String) : read name type raw =
      AttrValue.list <$> (delimited raw "," false).mapM (readScalar name element) := by
  have hprefix : "List".toList.isPrefixOf (trim type.toList) = true := by
    rw [hlist, List.isPrefixOf_iff_prefix]
    exact List.prefix_append _ _
  have hdrop : (trim type.toList).drop 4 = rest := by
    rw [hlist]
    rfl
  rw [read, if_pos hprefix, hdrop, helement]

/-- What is read as an integer is one, and so for texts and versions. -/
theorem eq_of_readScalar {scalar : String} (h : readScalar name scalar raw = .ok v) :
    (scalar = "String" → v = .str raw) ∧ (scalar = "Long" → ∃ n, v = .long n) ∧
      (scalar = "Version" → ∃ w, v = .version w) := by
  refine ⟨?_, ?_, ?_⟩
  · rintro rfl
    exact (Except.ok.inj h).symm
  · rintro rfl
    unfold readScalar at h
    simp only at h
    split at h
    next n hn => exact ⟨n, (Except.ok.inj h).symm⟩
    next => cases h
  · rintro rfl
    unfold readScalar at h
    simp only at h
    cases hparse : Version.parse? raw with
    | none =>
      rw [hparse] at h
      cases h
    | some w =>
      rw [hparse] at h
      exact ⟨w, (Except.ok.inj h).symm⟩

/-- A list whose elements are read as values of one kind is a list of such values. -/
theorem exists_map_eq_of_mapM {α : Type} {f : String → Except Error AttrValue}
    {g : α → AttrValue} (hfg : ∀ raw v, f raw = .ok v → ∃ a, g a = v) {raws : List String}
    {items : List AttrValue} (h : raws.mapM f = .ok items) : ∃ as : List α, as.map g = items := by
  have hall : items ∈ Set.range (List.map g) := by
    rw [Set.range_list_map]
    intro item hitem
    obtain ⟨raw, -, hread⟩ := ((mapM_eq_ok h).2 item).mp hitem
    exact hfg raw item hread
  exact hall

/-- A value of a declared type is read back, or it is a list of texts. -/
theorem readable_or_exists_of_read (htype : IsDeclared type) (h : read name type raw = .ok v) :
    v.Readable ∨ ∃ ss : List String, v = .list (ss.map .str) := by
  cases htype with
  | scalar hscalar =>
    rw [read_of_trimText_mem hscalar] at h
    obtain ⟨hstr, hlong, hversion⟩ := eq_of_readScalar h
    simp only [List.mem_cons, List.not_mem_nil, or_false] at hscalar
    left
    rcases hscalar with htype | htype | htype
    · exact hstr htype ▸ .str raw
    · obtain ⟨n, rfl⟩ := hlong htype
      exact .long n
    · obtain ⟨w, rfl⟩ := hversion htype
      exact .version w
  | @list rest element hlist helement hscalar =>
    rw [read_of_elementType hlist helement] at h
    obtain ⟨items, hitems, rfl⟩ := map_eq_ok_iff.mp h
    simp only [List.mem_cons, List.not_mem_nil, or_false] at hscalar
    -- Texts may hold what cuts a list elsewhere; integers and versions do not.
    rcases hscalar with rfl | rfl | rfl
    · right
      obtain ⟨ss, rfl⟩ := exists_map_eq_of_mapM (g := str)
        (fun raw v hread => ⟨raw, ((eq_of_readScalar hread).1 rfl).symm⟩) hitems
      exact ⟨ss, rfl⟩
    · left
      obtain ⟨ns, rfl⟩ := exists_map_eq_of_mapM (g := long)
        (fun raw v hread => ((eq_of_readScalar hread).2.1 rfl).imp fun _ => Eq.symm) hitems
      exact .longs ns
    · left
      obtain ⟨vs, rfl⟩ := exists_map_eq_of_mapM (g := version)
        (fun raw v hread => ((eq_of_readScalar hread).2.2 rfl).imp fun _ => Eq.symm) hitems
      exact .versions vs

/-! ### Lists of texts -/

/-- Lists of texts are told apart by their values. -/
theorem map_str_injective : Function.Injective (List.map AttrValue.str) :=
  List.map_injective_iff.mpr fun _ _ => AttrValue.str.inj

/-- Texts are read as they are. -/
theorem mapM_readScalar_string (name : String) (raws : List String) :
    raws.mapM (readScalar name "String") = .ok (raws.map .str) :=
  mapM_eq_ok_iff.mpr (List.forall₂_map_right_iff.mpr (List.forall₂_same.mpr fun _ _ => rfl))

/-- A list of texts has the type of such lists, also if it is empty. -/
theorem typeName_list_str (ss : List String) :
    typeName (.list (ss.map .str)) = "List<" ++ "String" ++ ">" := by
  cases ss <;> rfl

/-- A list of strings is cut as a list of lists of characters is. -/
theorem delimited_eq_iff {text : String} : delimited text "," false = ss ↔
    tokens [','].contains text.toList = ss.map String.toList := by
  show (tokens [','].contains text.toList).map String.ofList = ss ↔ _
  constructor
  · rintro rfl
    simp [List.map_map, Function.comp_def]
  · intro h
    simp [h, List.map_map, Function.comp_def]

/-- Every list of texts is read from some text. -/
theorem exists_read_list_eq (name : String) (ss : List String) :
    ∃ raw, read name "List" raw = .ok (.list (ss.map .str)) := by
  obtain ⟨s, hs⟩ : ∃ s, tokens [','].contains s = ss.map String.toList :=
    exists_tokens_eq (d := ',') (by decide) (by decide) _
  refine ⟨String.ofList s, ?_⟩
  have htokens : delimited (String.ofList s) "," false = ss :=
    delimited_eq_iff.mpr (by rw [String.toList_ofList, hs])
  have hbare : trim "List".toList = "List".toList ++ [] := rfl
  rw [read_of_elementType hbare rfl, htokens, mapM_readScalar_string]
  rfl

/-- A list of texts is read back exactly if the texts are found again when they are joined. -/
theorem read_text_list_iff :
    read name (typeName (.list (ss.map .str))) (text (.list (ss.map .str))) =
      .ok (.list (ss.map .str)) ↔ Recovered [','].contains (ss.map String.toList) := by
  have hchars : (text (.list (ss.map .str))).toList =
      [','].intercalate (ss.map String.toList) := by
    rw [text, String.toList_ofList, chars, charsAll_eq_intercalate, List.map_map]
    rfl
  rw [typeName_list_str, (read_of_mem name _ "String" (by simp)).2, mapM_readScalar_string]
  show (Except.ok (AttrValue.list _) : Except Error AttrValue) = _ ↔ _
  rw [Except.ok.injEq, AttrValue.list.injEq, map_str_injective.eq_iff, delimited_eq_iff, hchars,
    tokens_intercalate_iff (by decide) (by decide)]

/-! ### Values that are read back -/

/-- A value that was read as a declared type is read back from its text and the name of its type,
unless it is a list of texts that are not found again when they are joined with commas. Every list
of texts can be read, those that are not read back as well. -/
theorem read_text_iff (name : String) :
    (∀ type raw v, IsDeclared type → read name type raw = .ok v →
      (read name v.typeName v.text = .ok v ↔ ∀ ss : List String, v = .list (ss.map .str) →
        Recovered ",".toList.contains (ss.map String.toList))) ∧
    ∀ ss : List String, ∃ raw, read name "List" raw = .ok (.list (ss.map .str)) := by
  refine ⟨fun type raw v htype h => ?_, exists_read_list_eq name⟩
  constructor
  · rintro hread ss rfl
    exact read_text_list_iff.mp hread
  · intro hrecovered
    rcases readable_or_exists_of_read htype h with hreadable | ⟨ss, rfl⟩
    · exact read_text hreadable name
    · exact read_text_list_iff.mpr (hrecovered ss rfl)

/-- A number is read back, and so is a list with a comma between quotes. -/
theorem read_text_quoted :
    (∃ v, read "n" " Long " " +042 " = .ok v ∧ read "n" v.typeName v.text = .ok v) ∧
    ∃ v, read "n" "List" "\"x,y\",b" = .ok v ∧ read "n" v.typeName v.text = .ok v := by
  have hlong : read "n" " Long " " +042 " = .ok (.long 42) := rfl
  have hlist : read "n" "List" "\"x,y\",b" = .ok (.list (["\"x,y\"", "b"].map .str)) := rfl
  have hrecovered : Recovered ",".toList.contains (["\"x,y\"", "b"].map String.toList) := by decide
  refine ⟨⟨_, hlong, ?_⟩, ⟨_, hlist, ?_⟩⟩
  · exact ((read_text_iff "n").1 " Long " _ _ (.scalar (by decide)) hlong).mpr nofun
  · refine ((read_text_iff "n").1 "List" _ _ (.list rfl rfl (by decide)) hlist).mpr fun ss hss => ?_
    rwa [← map_str_injective (AttrValue.list.inj hss)]

/-- A text with a comma that is not between quotes becomes two texts. -/
theorem not_forall_read_text : ¬ ∀ name type raw v, IsDeclared type → read name type raw = .ok v →
    read name v.typeName v.text = .ok v := by
  intro hall
  have hread : read "n" "List" "a\\,b" = .ok (.list (["a,b"].map .str)) := rfl
  have hback := hall "n" "List" "a\\,b" _ (.list rfl rfl (by decide)) hread
  exact absurd (read_text_list_iff.mp hback) (by decide)

end AttrValue

end BundleWiring
