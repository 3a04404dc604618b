import BundleWiring.Proofs.Header.Keys
import BundleWiring.Proofs.Text.Delimited

/-!
# Headers in Longer Texts

A header can be cut at a separator, and each part be read on its own. Reading goes from parameter to
parameter, and a parameter ends at a separator without leaving anything open: no quote, no escape
and no key. So a text that is read as a header is read the same way in front of a separator, and
what comes behind it goes on with the last clause or with a new one. This module proves:

- `readParameter_append`: a parameter is read as before when a separator and more text come after;
- `clausesFrom_append`: so are the clauses of a text, and the rest goes on from the last of them;
- `clausesFrom_of_joins`: a text that goes on with a clause adds its parameters to the clause, or
  repeats a key of it;
- `read_append_separator`: the clauses of two headers with a comma or a semicolon between them.
-/

namespace BundleWiring.Header

open Text

/-! ### Values, character by character -/

section scanValue

variable {c : Char} {s : List Char}

/-- An escaped character belongs to the value, whatever it is. -/
theorem scanValue_escape (quoted : Bool) (c : Char) (s : List Char) :
    scanValue quoted ('\\' :: c :: s) = (·.map (['\\', c] ++ ·) id) <$> scanValue quoted s := by
  cases quoted <;> rfl

/-- In quotes every character but a backslash belongs to the value, and a quote closes them. -/
theorem scanValue_quoted (hc : c ≠ '\\') (s : List Char) :
    scanValue true (c :: s) = (·.map (c :: ·) id) <$> scanValue (c != '"') s :=
  scanValue.eq_5 c s (fun h => absurd h hc) (fun _ _ h => absurd h hc)

/-- Outside of quotes a character that neither separates nor escapes belongs to the value. -/
theorem scanValue_plain (hc : c ≠ '\\') (hsemicolon : c ≠ ';') (hcomma : c ≠ ',')
    (s : List Char) : scanValue false (c :: s) = (·.map (c :: ·) id) <$> scanValue false s :=
  scanValue.eq_8 c s (fun h => absurd h hc) (fun _ _ h => absurd h hc) hsemicolon hcomma

end scanValue

/-! ### Parameters in longer texts -/

/-- The text that a stop stands for. -/
def Stop.chars : Stop → List Char
  | .finish => []
  | .parameter rest => ';' :: rest
  | .clause rest => ',' :: rest

/-- What follows a parameter in a longer text. -/
def Stop.followedBy : Stop → Stop → Stop
  | .finish, after => after
  | .parameter rest, after => .parameter (rest ++ after.chars)
  | .clause rest, after => .clause (rest ++ after.chars)

/-- Mapping what was read leaves alone what follows it. -/
theorem map_fst_eq_ok_iff {α β : Type} {f : α → β} {x : Except Fault (α × Stop)} {b : β}
    {stop : Stop} : (·.map f id) <$> x = .ok (b, stop) ↔ ∃ a, x = .ok (a, stop) ∧ f a = b := by
  rw [map_eq_ok_iff]
  constructor
  · rintro ⟨⟨a, stop'⟩, hx, h⟩
    obtain ⟨hb, hstop⟩ := Prod.mk.inj h
    exact ⟨a, hstop ▸ hx, hb⟩
  · rintro ⟨a, hx, rfl⟩
    exact ⟨(a, stop), hx, rfl⟩

variable {s run : List Char} {stop : Stop}

/-- A value that is scanned is scanned as it is in a longer text. -/
theorem scanValue_append {quoted : Bool} (h : scanValue quoted s = .ok (run, stop)) (after : Stop) :
    scanValue quoted (s ++ after.chars) = .ok (run, stop.followedBy after) := by
  fun_induction scanValue quoted s generalizing run with
  -- The text ends, so the value goes on to the separator that the longer text has there.
  | case1 =>
    obtain ⟨rfl, rfl⟩ := Prod.mk.inj (Except.ok.inj h)
    cases after <;> rfl
  -- An open quote and a lone backslash are faults.
  | case2 | case3 => cases h
  | case4 quoted c s ih =>
    obtain ⟨run, hrun, rfl⟩ := map_fst_eq_ok_iff.mp h
    rw [List.cons_append, List.cons_append, scanValue_escape]
    exact map_fst_eq_ok_iff.mpr ⟨run, ih hrun, rfl⟩
  | case5 c s hend hescape ih =>
    obtain ⟨run, hrun, rfl⟩ := map_fst_eq_ok_iff.mp h
    rw [List.cons_append, scanValue_quoted (ne_backslash hend hescape)]
    exact map_fst_eq_ok_iff.mpr ⟨run, ih hrun, rfl⟩
  | case6 s | case7 s =>
    obtain ⟨rfl, rfl⟩ := Prod.mk.inj (Except.ok.inj h)
    rfl
  | case8 c s hend hescape hsemicolon hcomma ih =>
    obtain ⟨run, hrun, rfl⟩ := map_fst_eq_ok_iff.mp h
    rw [List.cons_append, scanValue_plain (ne_backslash hend hescape) hsemicolon hcomma]
    exact map_fst_eq_ok_iff.mpr ⟨run, ih hrun, rfl⟩

/-- Behind the blanks, a quote opens a quoted value and any other character is part of a plain one.
-/
theorem scanArgument_of_trimStart {c : Char} {t : List Char} (ht : trimStart s = c :: t) :
    scanArgument s =
      if c = '"' then (·.map ('"' :: ·) id) <$> scanValue true t else scanValue false (c :: t) := by
  unfold scanArgument
  rw [ht]
  split
  next h => cases h
  next t' h =>
    obtain ⟨rfl, rfl⟩ := List.cons.inj h
    rw [if_pos rfl]
  next hquote => rw [if_neg fun hc => hquote t (by rw [hc])]

/-- An argument that is scanned is scanned as it is in a longer text. -/
theorem scanArgument_append (h : scanArgument s = .ok (run, stop)) (after : Stop) :
    scanArgument (s ++ after.chars) = .ok (run, stop.followedBy after) := by
  cases ht : trimStart s with
  | nil =>
    unfold scanArgument at h
    rw [ht] at h
    cases h
  | cons c t =>
    -- The blanks before a value are not at the end of the text, so they are the same ones.
    have htrim : trimStart (s ++ after.chars) = c :: (t ++ after.chars) := by
      rw [trimStart] at ht
      rw [trimStart, List.dropWhile_append, ht]
      rfl
    rw [scanArgument_of_trimStart ht] at h
    rw [scanArgument_of_trimStart htrim]
    split at h
    next hquote =>
      obtain ⟨run, hrun, rfl⟩ := map_fst_eq_ok_iff.mp h
      rw [if_pos hquote]
      exact map_fst_eq_ok_iff.mpr ⟨run, scanValue_append hrun after, rfl⟩
    next hquote =>
      rw [if_neg hquote]
      exact scanValue_append h after

/-- A value is read exactly if an argument is scanned that is a value. -/
theorem readValue_eq_ok_iff {key value : String} : readValue key s = .ok (value, stop) ↔
    ∃ raw, scanArgument s = .ok (raw, stop) ∧ finishValue key raw = .ok value := by
  rw [readValue, bind_eq_ok_iff]
  constructor
  · rintro ⟨⟨raw, stop'⟩, hraw, h⟩
    obtain ⟨value', hvalue, h⟩ := map_eq_ok_iff.mp h
    obtain ⟨rfl, rfl⟩ := Prod.mk.inj h
    exact ⟨raw, hraw, hvalue⟩
  · rintro ⟨raw, hraw, hvalue⟩
    exact ⟨(raw, stop), hraw, map_eq_ok_iff.mpr ⟨value, hvalue, rfl⟩⟩

/-- A value that is read is read as it is in a longer text. -/
theorem readValue_append {key value : String} (h : readValue key s = .ok (value, stop))
    (after : Stop) : readValue key (s ++ after.chars) = .ok (value, stop.followedBy after) := by
  obtain ⟨raw, hraw, hvalue⟩ := readValue_eq_ok_iff.mp h
  exact readValue_eq_ok_iff.mpr ⟨raw, scanArgument_append hraw after, hvalue⟩

variable {p : Parameter}

/-- A run of characters stays the same in a longer text, if it ends in the shorter one or the
longer one goes on with a character that ends it. -/
theorem span_append {q : Char → Bool} {t : List Char}
    (h : s.dropWhile q ≠ [] ∨ ∀ c ∈ t.head?, q c = false) :
    (s ++ t).takeWhile q = s.takeWhile q ∧ (s ++ t).dropWhile q = s.dropWhile q ++ t := by
  induction s with
  | nil =>
    have hhead : ∀ c ∈ t.head?, q c = false := h.resolve_left fun hne => hne rfl
    cases t with
    | nil => exact ⟨rfl, rfl⟩
    | cons c t => simp [hhead c rfl]
  | cons c s ih =>
    by_cases hc : q c = true
    · simpa [hc] using ih (by simpa [hc] using h)
    · simp [hc]

/-- What stands before the equals sign is a type, or nothing. -/
theorem readTyped_of_notMem (hrun : '=' ∉ run) (key : String) (rest : List Char) :
    readTyped key (run ++ '=' :: rest) =
      if run.isEmpty then (·.map (.directive key) id) <$> readValue key rest
      else (·.map (.attribute key (some (String.ofList (trim run)))) id) <$>
        readValue key rest := by
  have hall : ∀ c ∈ run, (c != '=') = true := fun c hc => bne_iff_ne.mpr fun h => hrun (h ▸ hc)
  rw [readTyped, List.dropWhile_append_of_pos hall, List.takeWhile_append_of_pos hall]
  simp

/-- A parameter with a colon is read as it is in a longer text. -/
theorem readTyped_append {key : String} (h : readTyped key s = .ok (p, stop)) (after : Stop) :
    readTyped key (s ++ after.chars) = .ok (p, stop.followedBy after) := by
  unfold readTyped at h ⊢
  split at h
  · cases h
  next c rest hrest =>
    -- The equals sign that ends the type is in the text already.
    have hne : s.dropWhile (· != '=') ≠ [] := hrest ▸ List.cons_ne_nil c rest
    obtain ⟨htake, hdrop⟩ := span_append (t := after.chars) (.inl hne)
    rw [htake, hdrop, hrest]
    simp only [List.cons_append] at h ⊢
    split at h
    next htype =>
      obtain ⟨value, hvalue, rfl⟩ := map_fst_eq_ok_iff.mp h
      rw [if_pos htype]
      exact map_fst_eq_ok_iff.mpr ⟨value, readValue_append hvalue after, rfl⟩
    next htype =>
      obtain ⟨value, hvalue, rfl⟩ := map_fst_eq_ok_iff.mp h
      rw [if_neg htype]
      exact map_fst_eq_ok_iff.mpr ⟨value, readValue_append hvalue after, rfl⟩

/-- What follows a parameter ends a key. -/
theorem isKeyEnd_of_mem_head?_chars (after : Stop) :
    ∀ c ∈ after.chars.head?, (!isKeyEnd c) = false := by
  cases after <;> simp [Stop.chars, isKeyEnd]

/-- The key of a parameter stands before its first separator. -/
theorem readParameter_of_dropWhile {c : Char} {t : List Char}
    (ht : s.dropWhile (!isKeyEnd ·) = c :: t) (hsemicolon : c ≠ ';') (hcomma : c ≠ ',') :
    readParameter s =
      let key := String.ofList (trim (s.takeWhile (!isKeyEnd ·)))
      if key.isEmpty then .error .missingKey
      else if c = '=' then (·.map (.attribute key none) id) <$> readValue key t
      else readTyped key t := by
  unfold readParameter
  rw [ht]
  simp only

/-- A key in front of a character that ends it is cut off as a whole. -/
theorem span_isKeyEnd {t : List Char} (hrun : ∀ c ∈ run, isKeyEnd c = false)
    (ht : ∀ c ∈ t.head?, (!isKeyEnd c) = false) :
    (run ++ t).takeWhile (!isKeyEnd ·) = run ∧ (run ++ t).dropWhile (!isKeyEnd ·) = t := by
  have hall : ∀ c ∈ run, (!isKeyEnd c) = true := fun c hc => by rw [hrun c hc]; rfl
  rw [List.takeWhile_append_of_pos hall, List.dropWhile_append_of_pos hall]
  cases t with
  | nil => simp
  | cons c t =>
    have hc := ht c rfl
    rw [List.takeWhile_cons_of_neg (by simp [hc]), List.dropWhile_cons_of_neg (by simp [hc]),
      List.append_nil]
    exact ⟨rfl, rfl⟩

/-- A parameter without a value is a path. -/
theorem readParameter_append_chars (hrun : ∀ c ∈ run, isKeyEnd c = false) (stop : Stop) :
    readParameter (run ++ stop.chars) = .ok (.path (String.ofList (trim run)), stop) := by
  obtain ⟨htake, hdrop⟩ := span_isKeyEnd hrun (isKeyEnd_of_mem_head?_chars stop)
  rw [readParameter, htake, hdrop]
  cases stop <;> rfl

/-- A parameter is read as before when more text comes after a separator. -/
theorem readParameter_append (h : readParameter s = .ok (p, stop)) (after : Stop) :
    readParameter (s ++ after.chars) = .ok (p, stop.followedBy after) := by
  obtain ⟨htake, hdrop⟩ := span_append (s := s) (.inr (isKeyEnd_of_mem_head?_chars after))
  unfold readParameter at h
  simp only at h
  split at h
  -- Only a path at the end of the text stops elsewhere than before.
  next hs =>
    obtain ⟨rfl, rfl⟩ := Prod.mk.inj (Except.ok.inj h)
    unfold readParameter
    rw [htake, hdrop, hs]
    cases after <;> rfl
  next rest hs =>
    obtain ⟨rfl, rfl⟩ := Prod.mk.inj (Except.ok.inj h)
    unfold readParameter
    rw [htake, hdrop, hs]
    rfl
  next rest hs =>
    obtain ⟨rfl, rfl⟩ := Prod.mk.inj (Except.ok.inj h)
    unfold readParameter
    rw [htake, hdrop, hs]
    rfl
  next c rest hsemicolon hcomma hs =>
    rw [hs, List.cons_append] at hdrop
    rw [readParameter_of_dropWhile hdrop hsemicolon hcomma, htake]
    simp only
    split at h
    · cases h
    next hkey =>
      rw [if_neg hkey]
      split at h
      next hequals =>
        obtain ⟨value, hvalue, rfl⟩ := map_fst_eq_ok_iff.mp h
        rw [if_pos hequals]
        exact map_fst_eq_ok_iff.mpr ⟨value, readValue_append hvalue after, rfl⟩
      next hequals =>
        rw [if_neg hequals]
        exact readTyped_append h after

/-! ### Clauses in longer texts -/

variable {c d e : HeaderClause} {cs : List HeaderClause}

/-- A text that is read goes on from its last clause when more text comes after a separator. -/
theorem clausesFrom_append (h : clausesFrom c s = .ok cs) :
    ∃ before last, cs = before ++ [last] ∧ ∀ after : Stop,
      clausesFrom c (s ++ after.chars) = (before ++ ·) <$> clausesAfter last after := by
  rw [clausesFrom_eq_ok_iff] at h
  induction h with
  -- Each parameter is read as before, and the last one stops at what comes behind the text.
  | finish hread hadd =>
    refine ⟨[], _, rfl, fun after => ?_⟩
    rw [clausesFrom_of_readParameter (readParameter_append hread after), hadd]
    show clausesAfter _ after = id <$> clausesAfter _ after
    rw [id_map]
  | parameter hread hadd _ ih =>
    obtain ⟨before, last, hcs, hafter⟩ := ih
    refine ⟨before, last, hcs, fun after => ?_⟩
    rw [clausesFrom_of_readParameter (readParameter_append hread after), hadd]
    exact hafter after
  | @clause c c' s rest p cs hread hadd _ ih =>
    obtain ⟨before, last, rfl, hafter⟩ := ih
    refine ⟨c' :: before, last, rfl, fun after => ?_⟩
    rw [clausesFrom_of_readParameter (readParameter_append hread after), hadd]
    show (c' :: ·) <$> clausesFrom .empty (rest ++ after.chars) = _
    rw [hafter after, ← comp_map]
    rfl

/-! ### Joined clauses -/

section Table

variable {α : Type} {t a b : Table α} {name : String}

/-- The names of joined entries are those of both parts. -/
theorem mem_names_of_append (h : t.entries = a.entries ++ b.entries) :
    name ∈ t.names ↔ name ∈ a.names ∨ name ∈ b.names := by
  rw [Table.names, h, List.map_append, List.mem_append]
  rfl

/-- Joined entries have no name in both parts. -/
theorem notMem_names_of_append (h : t.entries = a.entries ++ b.entries) (ha : name ∈ a.names) :
    name ∉ b.names := by
  have hnodup := t.nodup
  rw [h, List.map_append, List.nodup_append] at hnodup
  exact fun hb => hnodup.2.2 name ha name hb rfl

/-- A new name comes last, also in a table that starts with the entries of another one. -/
theorem entries_insert_of_append (h : t.entries = a.entries ++ b.entries) (ha : name ∉ a.names)
    (hb : name ∉ b.names) (value : α) :
    (t.insert name value).entries = a.entries ++ (b.insert name value).entries := by
  have ht : name ∉ t.names := fun hmem => ((mem_names_of_append h).mp hmem).elim ha hb
  rw [Table.entries_insert_of_notMem ht, Table.entries_insert_of_notMem hb, h, List.append_assoc]

theorem mem_names_insert_self (t : Table α) (name : String) (value : α) :
    name ∈ (t.insert name value).names :=
  (Table.mem_names_insert t name name value).mpr (.inl rfl)

theorem mem_names_insert_of_mem (h : name ∈ t.names) (other : String) (value : α) :
    name ∈ (t.insert other value).names :=
  (Table.mem_names_insert t other name value).mpr (.inr h)

end Table

/-- A clause has the parameters of one clause and, behind them, those of another one. -/
structure Joins (c d e : HeaderClause) : Prop where
  /-- The paths are in order. -/
  paths_eq : e.paths = c.paths ++ d.paths
  /-- The directives are in order. -/
  directives_eq : e.directives.entries = c.directives.entries ++ d.directives.entries
  /-- The attributes are in order. -/
  attributes_eq : e.attributes.entries = c.attributes.entries ++ d.attributes.entries
  /-- The types are in order. -/
  types_eq : e.types.entries = c.types.entries ++ d.types.entries

/-- Two clauses have an attribute, or a directive, with the same key. -/
def Shares (c d : HeaderClause) (key : String) : Prop :=
  (key ∈ c.attributes.names ∧ key ∈ d.attributes.names) ∨
    (key ∈ c.directives.names ∧ key ∈ d.directives.names)

/-- The types of a clause are those of its attributes. -/
def TypesAttributes (c : HeaderClause) : Prop :=
  c.types.names ⊆ c.attributes.names

/-- A clause without parameters adds nothing. -/
theorem joins_empty (c : HeaderClause) : Joins c .empty c :=
  ⟨(List.append_nil _).symm, (List.append_nil _).symm, (List.append_nil _).symm,
    (List.append_nil _).symm⟩

/-- Clauses that share a key cannot be joined, because a table has a name only once. -/
theorem Joins.not_shares (hj : Joins c d e) (key : String) : ¬ Shares c d key := by
  rintro (⟨hc, hd⟩ | ⟨hc, hd⟩)
  · exact notMem_names_of_append hj.attributes_eq hc hd
  · exact notMem_names_of_append hj.directives_eq hc hd

theorem typesAttributes_empty : TypesAttributes .empty :=
  List.Subset.refl []

/-- A parameter with a type is an attribute of its key. -/
theorem typesAttributes_addParameter (hc : TypesAttributes c) (h : addParameter c p = .ok d) :
    TypesAttributes d := by
  match p with
  | .path text =>
    obtain rfl := Except.ok.inj h
    exact hc
  | .directive key value =>
    obtain ⟨-, rfl⟩ := addParameter_directive_eq_ok_iff.mp h
    exact hc
  | .attribute key none value =>
    obtain ⟨-, rfl⟩ := addParameter_attribute_eq_ok_iff.mp h
    exact fun name hname => mem_names_insert_of_mem (hc hname) key value
  | .attribute key (some type) value =>
    obtain ⟨-, rfl⟩ := addParameter_attribute_eq_ok_iff.mp h
    intro name hname
    refine (Table.mem_names_insert _ _ _ _).mpr ?_
    exact ((Table.mem_names_insert _ _ _ _).mp hname).imp_right (hc ·)

/-- A parameter of the second clause is one of the joined clause, unless the first clause has its
key. -/
theorem joins_addParameter (hj : Joins c d e) (hc : TypesAttributes c) (hd : TypesAttributes d)
    {d' : HeaderClause} (h : addParameter d p = .ok d') :
    (∃ e', addParameter e p = .ok e' ∧ Joins c d' e') ∨
      ∃ key, Shares c d' key ∧ addParameter e p = .error (.duplicate key) := by
  match p with
  | .path text =>
    obtain rfl := Except.ok.inj h
    refine .inl ⟨_, rfl, ?_, hj.directives_eq, hj.attributes_eq, hj.types_eq⟩
    rw [hj.paths_eq, List.append_assoc]
  | .directive key value =>
    obtain ⟨hnew, rfl⟩ := addParameter_directive_eq_ok_iff.mp h
    have hmem : key ∈ e.directives.names ↔ _ := mem_names_of_append hj.directives_eq
    by_cases hkey : key ∈ c.directives.names
    · refine .inr ⟨key, .inr ⟨hkey, mem_names_insert_self _ key value⟩, if_pos ?_⟩
      exact List.contains_iff_mem.mpr (hmem.mpr (.inl hkey))
    · refine .inl ⟨_, addParameter_directive_eq_ok_iff.mpr ⟨fun h => ?_, rfl⟩, hj.paths_eq, ?_,
        hj.attributes_eq, hj.types_eq⟩
      · exact (hmem.mp h).elim hkey hnew
      · exact entries_insert_of_append hj.directives_eq hkey hnew value
  | .attribute key type value =>
    obtain ⟨hnew, rfl⟩ := addParameter_attribute_eq_ok_iff.mp h
    have hmem : key ∈ e.attributes.names ↔ _ := mem_names_of_append hj.attributes_eq
    by_cases hkey : key ∈ c.attributes.names
    · refine .inr ⟨key, .inl ⟨hkey, mem_names_insert_self _ key value⟩, if_pos ?_⟩
      exact List.contains_iff_mem.mpr (hmem.mpr (.inl hkey))
    · refine .inl ⟨_, addParameter_attribute_eq_ok_iff.mpr ⟨fun h => ?_, rfl⟩, hj.paths_eq,
        hj.directives_eq, ?_, ?_⟩
      · exact (hmem.mp h).elim hkey hnew
      · exact entries_insert_of_append hj.attributes_eq hkey hnew value
      -- A key that is new as the key of an attribute has no type either.
      · cases type with
        | none => exact hj.types_eq
        | some type =>
          exact entries_insert_of_append hj.types_eq (fun h => hkey (hc h)) (fun h => hnew (hd h))
            type

/-- A key that is shared stays shared with one more parameter. -/
theorem Shares.of_addParameter {key : String} (hkey : Shares c d key)
    (h : addParameter d p = .ok e) : Shares c e key := by
  match p with
  | .path text =>
    obtain rfl := Except.ok.inj h
    exact hkey
  | .directive name value =>
    obtain ⟨-, rfl⟩ := addParameter_directive_eq_ok_iff.mp h
    exact hkey.imp_right (And.imp_right fun hmem => mem_names_insert_of_mem hmem name value)
  | .attribute name type value =>
    obtain ⟨-, rfl⟩ := addParameter_attribute_eq_ok_iff.mp h
    exact hkey.imp_left (And.imp_right fun hmem => mem_names_insert_of_mem hmem name value)

/-- The first clause of a text keeps the keys of the clause that the text goes on with. -/
theorem Shares.of_clausesFrom {key : String} {first : HeaderClause} {after : List HeaderClause}
    (hkey : Shares c d key) (h : clausesFrom d s = .ok (first :: after)) : Shares c first key := by
  rw [clausesFrom_eq_ok_iff] at h
  generalize hcs : first :: after = cs at h
  induction h with
  | finish hread hadd =>
    obtain ⟨rfl, -⟩ := List.cons.inj hcs
    exact hkey.of_addParameter hadd
  | parameter hread hadd _ ih => exact ih (hkey.of_addParameter hadd) hcs
  | clause hread hadd _ ih =>
    obtain ⟨rfl, -⟩ := List.cons.inj hcs
    exact hkey.of_addParameter hadd

/-- The clauses of a text after a clause: the first of them is joined to the clause, or repeats a
key of it. -/
theorem clausesFrom_of_joins {first : HeaderClause} {after : List HeaderClause}
    (hj : Joins c d e) (hc : TypesAttributes c) (hd : TypesAttributes d)
    (h : clausesFrom d s = .ok (first :: after)) :
    (∃ joined, Joins c first joined ∧ clausesFrom e s = .ok (joined :: after)) ∨
      ∃ key, Shares c first key ∧ clausesFrom e s = .error (.duplicate key) := by
  rw [clausesFrom_eq_ok_iff] at h
  generalize hcs : first :: after = cs at h
  -- A parameter that cannot be joined repeats a key, and the first clause keeps its keys.
  induction h generalizing e with
  | finish hread hadd =>
    obtain ⟨rfl, rfl⟩ := List.cons.inj hcs
    rw [clausesFrom_of_readParameter hread]
    rcases joins_addParameter hj hc hd hadd with ⟨e', he', hj'⟩ | ⟨key, hkey, he'⟩
    · exact .inl ⟨e', hj', by rw [he']; rfl⟩
    · exact .inr ⟨key, hkey, by rw [he']; rfl⟩
  | parameter hread hadd hrest ih =>
    subst hcs
    rw [clausesFrom_of_readParameter hread]
    rcases joins_addParameter hj hc hd hadd with ⟨e', he', hj'⟩ | ⟨key, hkey, he'⟩
    · rw [he']
      exact ih hj' (typesAttributes_addParameter hd hadd) rfl
    · exact .inr ⟨key, hkey.of_clausesFrom (clausesFrom_eq_ok_iff.mpr hrest), by rw [he']; rfl⟩
  | clause hread hadd hrest ih =>
    obtain ⟨rfl, rfl⟩ := List.cons.inj hcs
    rw [clausesFrom_of_readParameter hread]
    rcases joins_addParameter hj hc hd hadd with ⟨e', he', hj'⟩ | ⟨key, hkey, he'⟩
    · refine .inl ⟨e', hj', ?_⟩
      rw [he']
      exact map_eq_ok_iff.mpr ⟨_, clausesFrom_eq_ok_iff.mpr hrest, rfl⟩
    · exact .inr ⟨key, hkey, by rw [he']; rfl⟩

/-! ### Headers in longer texts -/

/-- Two headers with a comma between them have the clauses of both. With a semicolon between them,
the last clause of the first header and the first clause of the second one become one clause, in
which a key may not repeat. -/
theorem read_append_separator {text text' : String} {cs ds : List HeaderClause}
    (h : read text = .ok cs) (h' : read text' = .ok ds) :
    read (text ++ "," ++ text') = .ok (cs ++ ds) ∧
      ∃ before last first after, cs = before ++ [last] ∧ ds = first :: after ∧
        ((∀ key, ¬ Shares last first key) → ∃ joined, Joins last first joined ∧
          read (text ++ ";" ++ text') = .ok (before ++ joined :: after)) ∧
        ((∃ key, Shares last first key) → ∃ key, Shares last first key ∧
          read (text ++ ";" ++ text') =
            .error (.header (text ++ ";" ++ text') (.duplicate key))) := by
  rw [read_eq_ok_iff] at h h'
  obtain ⟨before, last, rfl, hafter⟩ := clausesFrom_append h
  obtain ⟨first, after, rfl⟩ : ∃ first after, ds = first :: after := by
    obtain ⟨front, back, rfl, -⟩ := clausesFrom_append h'
    exact List.exists_cons_of_ne_nil (List.append_ne_nil_of_right_ne_nil _ (List.cons_ne_nil _ _))
  have hlast : TypesAttributes last :=
    forall_mem_clausesFrom typesAttributes_empty (fun _ => typesAttributes_addParameter)
      typesAttributes_empty h last (by simp)
  -- Where the first header stops, the reader goes on with what follows the separator.
  constructor
  · rw [read_eq_ok_iff, String.toList_append, String.toList_append, List.append_assoc]
    refine (hafter (.clause text'.toList)).trans ?_
    rw [clausesAfter, h', List.append_assoc]
    rfl
  -- A semicolon leaves the last clause open, so that the second header is read into it.
  have hsemicolon : parse (text ++ ";" ++ text') =
      (before ++ ·) <$> clausesFrom last text'.toList := by
    rw [parse, String.toList_append, String.toList_append, List.append_assoc]
    exact hafter (.parameter text'.toList)
  refine ⟨before, last, first, after, rfl, rfl, fun hnone => ?_, fun ⟨key, hkey⟩ => ?_⟩
  · rcases clausesFrom_of_joins (joins_empty last) hlast typesAttributes_empty h' with
      ⟨joined, hj, hjoined⟩ | ⟨key, hkey, -⟩
    · refine ⟨joined, hj, ?_⟩
      rw [read, hsemicolon, hjoined]
      rfl
    · exact absurd hkey (hnone key)
  · rcases clausesFrom_of_joins (joins_empty last) hlast typesAttributes_empty h' with
      ⟨joined, hj, -⟩ | ⟨key', hkey', hfault⟩
    · exact absurd hkey (hj.not_shares key)
    · refine ⟨key', hkey', ?_⟩
      rw [read, hsemicolon, hfault]
      rfl

/-- A header whose names can be computed has one clause with these names. -/
theorem exists_read_singleton (text : String) (attributes directives : List String)
    (h : (read text).toOption.any (fun cs => cs.map (·.attributes.names) == [attributes] &&
      cs.map (·.directives.names) == [directives]) = true) :
    ∃ c, read text = .ok [c] ∧ c.attributes.names = attributes ∧
      c.directives.names = directives := by
  obtain ⟨cs, hcs, hnames⟩ := exists_of_any_toOption _ h
  simp only [Bool.and_eq_true, beq_iff_eq] at hnames
  obtain ⟨c, rfl, hattributes⟩ := List.map_eq_singleton_iff.mp hnames.1
  exact ⟨c, hcs, hattributes, by simpa using hnames.2⟩

/-- A quoted comma and an escaped semicolon separate nothing, wherever the text goes on; and an
attribute repeats a key of an attribute, but not one of a directive. -/
theorem read_append_separator_quoted :
    (∃ cs ds, read "a;v=\"1,2\"" = .ok cs ∧ read "b;v:=\\;" = .ok ds ∧
      read ("a;v=\"1,2\"" ++ "," ++ "b;v:=\\;") = .ok (cs ++ ds) ∧
        ∃ joined, read ("a;v=\"1,2\"" ++ ";" ++ "b;v:=\\;") = .ok [joined]) ∧
      ∃ key, read ("a;v=\"1,2\"" ++ ";" ++ "b;v=3") =
        .error (.header ("a;v=\"1,2\"" ++ ";" ++ "b;v=3") (.duplicate key)) := by
  obtain ⟨c, hc, hca, hcd⟩ := exists_read_singleton "a;v=\"1,2\"" ["v"] [] (by decide +kernel)
  obtain ⟨d, hd, hda, hdd⟩ := exists_read_singleton "b;v:=\\;" [] ["v"] (by decide +kernel)
  obtain ⟨e, he, hea, -⟩ := exists_read_singleton "b;v=3" ["v"] [] (by decide +kernel)
  constructor
  -- An attribute and a directive may have one key, so that the clauses are joined.
  · obtain ⟨hcomma, before, last, first, after, hlast, hfirst, hjoined, -⟩ :=
      read_append_separator hc hd
    obtain ⟨rfl, rfl⟩ : before = [] ∧ last = c := by
      simpa using List.append_eq_singleton_iff.mp hlast.symm
    obtain ⟨rfl, rfl⟩ := List.cons.inj hfirst
    obtain ⟨joined, -, hread⟩ := hjoined fun key => by simp [Shares, hca, hcd, hda, hdd]
    exact ⟨_, _, hc, hd, hcomma, joined, hread⟩
  -- Two attributes may not.
  · obtain ⟨-, before, last, first, after, hlast, hfirst, -, hrepeated⟩ :=
      read_append_separator hc he
    obtain ⟨rfl, rfl⟩ : before = [] ∧ last = c := by
      simpa using List.append_eq_singleton_iff.mp hlast.symm
    obtain ⟨rfl, rfl⟩ := List.cons.inj hfirst
    obtain ⟨key, -, hread⟩ := hrepeated ⟨"v", by simp [Shares, hca, hea]⟩
    exact ⟨key, hread⟩

end BundleWiring.Header
