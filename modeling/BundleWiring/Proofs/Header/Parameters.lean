import BundleWiring.Proofs.Header.Separators

/-!
# Written Parameters

A parameter is read back from its key and its value. A value stands there as it is or in quotes; in
quotes it may hold separators and may be empty, but neither way does it hold quotes and backslashes,
which the reader does not take out again. This module proves:

- `trim_eq_self_iff`: a text has no blanks to trim if it has none at its ends;
- `readValue_quoted` and `readValue_plain`: values in quotes and without;
- `readParameter_path`, `readParameter_attribute`, `readParameter_typed` and
  `readParameter_directive`: the parameters that hold such values;
- `clausesFrom_parameters`: parameters with semicolons between them are added to a clause in order.
-/

namespace BundleWiring

open Text

/-! ### Texts without blanks at their ends -/

/-- A text is trimmed exactly if it neither starts nor ends with a blank. -/
theorem Text.trim_eq_self_iff {s : List Char} : trim s = s ↔
    (∀ c ∈ s.head?, isBlank c = false) ∧ ∀ c ∈ s.getLast?, isBlank c = false := by
  constructor
  · intro h
    rw [← h]
    exact ⟨fun c => isBlank_of_mem_head?_trim, fun c => isBlank_of_mem_getLast?_trim⟩
  · rintro ⟨hfirst, hlast⟩
    have hstart : ∀ t : List Char, (∀ c ∈ t.head?, isBlank c = false) →
        t.dropWhile isBlank = t := by
      rintro (_ | ⟨c, t⟩) ht
      · rfl
      · exact List.dropWhile_cons_of_neg (by simp [ht c rfl])
    rw [trim, trimStart, trimEnd, hstart s hfirst, hstart s.reverse, List.reverse_reverse]
    rwa [List.head?_reverse]

/-- A trimmed text does not start with blanks. -/
theorem Text.trimStart_eq_self {s : List Char} (h : trim s = s) : trimStart s = s := by
  rw [trimStart, List.dropWhile_eq_self_iff]
  intro hpos
  have hfirst := (trim_eq_self_iff.mp h).1 s[0] (by rw [List.head?_eq_getElem?]; simp [hpos])
  simp [hfirst]

/-- Nothing but blanks is trimmed. -/
theorem Text.mem_trim {s : List Char} {c : Char} (hc : c ∈ s) (hblank : isBlank c = false) :
    c ∈ trim s := by
  have hdrop : ∀ t : List Char, c ∈ t → c ∈ t.dropWhile isBlank := by
    intro t ht
    rw [← List.takeWhile_append_dropWhile (p := isBlank) (l := t), List.mem_append] at ht
    refine ht.resolve_left fun hmem => ?_
    cases hblank.symm.trans (List.mem_takeWhile_imp hmem)
  exact List.mem_reverse.mpr (hdrop _ (List.mem_reverse.mpr (hdrop s hc)))

namespace Header

variable {c : Char} {key value type : String} {s : List Char} {stop : Stop}

/-! ### Values -/

/-- A text without quotes and backslashes. -/
def IsQuotable (s : List Char) : Prop :=
  ∀ c ∈ s, c ≠ '"' ∧ c ≠ '\\'

instance (s : List Char) : Decidable (IsQuotable s) :=
  List.decidableBAll _ s

/-- Behind an opening quote, a text without quotes and backslashes is scanned to its closing quote.
-/
theorem scanValue_quotable (hs : IsQuotable s) :
    scanValue true (s ++ ['"']) = .ok (s ++ ['"'], .finish) := by
  induction s with
  | nil => rfl
  | cons c s ih =>
    obtain ⟨⟨hquote, hbackslash⟩, hs⟩ := List.forall_mem_cons.mp hs
    rw [List.cons_append, scanValue_quoted hbackslash, bne_iff_ne.mpr hquote, ih hs]
    rfl

/-- A text without separators and backslashes is scanned to its end. -/
theorem scanValue_eq_self (hs : ∀ c ∈ s, c ∉ [',', ';', '\\']) :
    scanValue false s = .ok (s, .finish) := by
  induction s with
  | nil => rfl
  | cons c s ih =>
    obtain ⟨hc, hs⟩ := List.forall_mem_cons.mp hs
    simp only [List.mem_cons, not_or] at hc
    rw [scanValue_plain hc.2.2.1 hc.2.1 hc.1, ih hs]
    rfl

/-- A trimmed text that is not empty is a value, without the quotes around it. -/
theorem finishValue_eq_ok (htrim : trim s = s) (hne : s ≠ []) :
    finishValue key s = .ok (String.ofList (stripQuotes s)) := by
  rw [finishValue, htrim]
  exact if_neg (by simpa using hne)

/-- Two quotes around a text are stripped. -/
theorem stripQuotes_quoted (s : List Char) : stripQuotes ('"' :: s ++ ['"']) = s := by
  rw [List.cons_append, stripQuotes, List.getLast?_concat, if_pos rfl, List.dropLast_concat]

/-- A text without quotes is not changed. -/
theorem stripQuotes_of_notMem (hs : '"' ∉ s) : stripQuotes s = s := by
  unfold stripQuotes
  split
  · exact absurd (List.mem_cons_self ..) hs
  · rfl

/-- A value in quotes is what stands between them. -/
theorem readValue_quoted (hs : IsQuotable s) (key : String) :
    readValue key ('"' :: s ++ ['"']) = .ok (String.ofList s, .finish) := by
  have htrim : trim ('"' :: s ++ ['"']) = '"' :: s ++ ['"'] := by
    refine trim_eq_self_iff.mpr ⟨?_, fun c hc => ?_⟩
    · rintro c ⟨⟩
      rfl
    · obtain rfl : '"' = c := Option.some.inj (List.getLast?_concat.symm.trans hc)
      rfl
  have hstart : trimStart ('"' :: s ++ ['"']) = '"' :: (s ++ ['"']) := trimStart_eq_self htrim
  refine readValue_eq_ok_iff.mpr ⟨'"' :: s ++ ['"'], ?_, ?_⟩
  · rw [scanArgument_of_trimStart hstart, if_pos rfl, scanValue_quotable hs]
    rfl
  · rw [finishValue_eq_ok htrim (List.cons_ne_nil _ _), stripQuotes_quoted]

/-- A value without quotes is what stands there, up to a separator. -/
theorem readValue_plain (hne : s ≠ []) (htrim : trim s = s)
    (hs : ∀ c ∈ s, c ∉ [',', ';', '"', '\\']) (key : String) :
    readValue key s = .ok (String.ofList s, .finish) := by
  have hquote : '"' ∉ s := fun hmem => hs '"' hmem (by decide)
  refine readValue_eq_ok_iff.mpr ⟨s, ?_, ?_⟩
  · obtain ⟨c, t, rfl⟩ := List.exists_cons_of_ne_nil hne
    have hc : c ≠ '"' := fun heq => hquote (heq ▸ List.mem_cons_self ..)
    rw [scanArgument_of_trimStart (trimStart_eq_self htrim), if_neg hc]
    exact scanValue_eq_self fun c hc hmem => hs c hc (by revert hmem; simp; tauto)
  · rw [finishValue_eq_ok htrim hne, stripQuotes_of_notMem hquote]

/-! ### Parameters -/

/-- A text that is read as a type: not empty, without blanks at its ends and without the equals sign
that ends it. -/
def IsTypeName (type : String) : Prop :=
  type.toList ≠ [] ∧ trim type.toList = type.toList ∧ '=' ∉ type.toList

/-- Behind a colon, a type and a value make an attribute of this type. -/
theorem readTyped_attribute (htype : IsTypeName type)
    (hvalue : readValue key s = .ok (value, stop)) :
    readTyped key (type.toList ++ '=' :: s) = .ok (.attribute key (some type) value, stop) := by
  obtain ⟨hne, htrim, hequals⟩ := htype
  rw [readTyped_of_notMem hequals, if_neg (by simpa using hne), htrim, String.ofList_toList]
  exact map_fst_eq_ok_iff.mpr ⟨value, hvalue, rfl⟩

/-- Behind a colon, a value without a type makes a directive. -/
theorem readTyped_directive (hvalue : readValue key s = .ok (value, stop)) :
    readTyped key ('=' :: s) = .ok (.directive key value, stop) :=
  map_fst_eq_ok_iff.mpr ⟨value, hvalue, rfl⟩

/-- A key alone is a path. -/
theorem readParameter_path (hkey : isKey key = true) :
    readParameter key.toList = .ok (.path key, .finish) := by
  obtain ⟨-, htrim, hend⟩ := isKey_iff.mp hkey
  have hpath := readParameter_append_chars hend .finish
  rwa [Stop.chars, List.append_nil, htrim, String.ofList_toList] at hpath

/-- After a blank and a key the parameter is decided by the separator behind the key. -/
theorem readParameter_key (hkey : isKey key = true) (hc : c = ':' ∨ c = '=') (s : List Char) :
    readParameter (' ' :: key.toList ++ c :: s) =
      if c = '=' then (·.map (.attribute key none) id) <$> readValue key s
      else readTyped key s := by
  obtain ⟨hne, htrim, hend⟩ := isKey_iff.mp hkey
  have hall : ∀ c ∈ ' ' :: key.toList, isKeyEnd c = false := List.forall_mem_cons.mpr ⟨rfl, hend⟩
  have hstop : isKeyEnd c = true := by rcases hc with rfl | rfl <;> rfl
  obtain ⟨htake, hdrop⟩ := span_isKeyEnd (t := c :: s) hall (by simpa using hstop)
  -- The blank in front of the key is trimmed.
  have hblank : String.ofList (trim (' ' :: key.toList)) = key := by
    have htrimmed : trim (' ' :: key.toList) = trim key.toList := rfl
    rw [htrimmed, htrim, String.ofList_toList]
  have hsemicolon : c ≠ ';' := by rcases hc with rfl | rfl <;> decide
  have hcomma : c ≠ ',' := by rcases hc with rfl | rfl <;> decide
  rw [readParameter_of_dropWhile hdrop hsemicolon hcomma, htake, hblank]
  exact if_neg (by simpa using hne)

/-- A key, an equals sign and a value make an attribute without a type. -/
theorem readParameter_attribute (hkey : isKey key = true)
    (hvalue : readValue key s = .ok (value, stop)) :
    readParameter (' ' :: key.toList ++ '=' :: s) = .ok (.attribute key none value, stop) := by
  rw [readParameter_key hkey (.inr rfl), if_pos rfl]
  exact map_fst_eq_ok_iff.mpr ⟨value, hvalue, rfl⟩

/-- A key, a colon, a type, an equals sign and a value make an attribute of this type. -/
theorem readParameter_typed (hkey : isKey key = true) (htype : IsTypeName type)
    (hvalue : readValue key s = .ok (value, stop)) :
    readParameter (' ' :: (key.toList ++ ':' :: type.toList ++ '=' :: s)) =
      .ok (.attribute key (some type) value, stop) := by
  rw [List.append_assoc]
  refine (readParameter_key hkey (.inl rfl) _).trans ?_
  rw [if_neg (by decide)]
  exact readTyped_attribute htype hvalue

/-- A key, a colon, an equals sign and a value make a directive. -/
theorem readParameter_directive (hkey : isKey key = true)
    (hvalue : readValue key s = .ok (value, stop)) :
    readParameter (' ' :: key.toList ++ ':' :: '=' :: s) = .ok (.directive key value, stop) := by
  rw [readParameter_key hkey (.inl rfl), if_neg (by decide)]
  exact readTyped_directive hvalue

/-! ### Clauses -/

/-- Parameters that are read one by one are added to a clause in order when semicolons separate
them. -/
theorem clausesFrom_parameters {first : List Char} {others : List (List Char)} {p : Parameter}
    {ps : List Parameter} (hfirst : readParameter first = .ok (p, .finish))
    (hothers : List.Forall₂ (fun s p => readParameter (' ' :: s) = .ok (p, .finish)) others ps)
    (clause : HeaderClause) :
    clausesFrom clause (first ++ others.flatMap (';' :: ' ' :: ·)) =
      (p :: ps).foldlM addParameter clause >>= fun clause => .ok [clause] := by
  induction hothers generalizing first p clause with
  | nil =>
    rw [List.flatMap_nil, List.append_nil, clausesFrom_of_readParameter hfirst, List.foldlM_cons]
    cases addParameter clause p <;> rfl
  | @cons s p' others ps hs hothers ih =>
    -- The first parameter ends where the next one starts, because a semicolon stands there.
    have hnext : first ++ (s :: others).flatMap (';' :: ' ' :: ·) =
        first ++ Stop.chars (.parameter ((' ' :: s) ++ others.flatMap (';' :: ' ' :: ·))) := rfl
    rw [hnext, clausesFrom_of_readParameter (readParameter_append hfirst _), List.foldlM_cons,
      bind_assoc]
    exact congrArg (addParameter clause p >>= ·) (funext fun clause' => ih hs clause')

end Header

end BundleWiring
