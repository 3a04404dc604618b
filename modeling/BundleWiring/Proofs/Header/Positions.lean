import BundleWiring.Proofs.Header.Pass
import BundleWiring.Proofs.Header.Separators

/-!
# Reading Headers by Positions

A header is read from parameter to parameter, each of them from what the one before it has left of
the text. A pass by positions reads the same: what it still has to read is the text from its
position on, and what it has read of a key, a type or a value is the part of the text from its start
to its position. For each phase there is one theorem, on what the loop makes of the rest of the
parameter from that phase on, by induction on the rest of the text. This module proves:

- `yields_value`, `yields_argument`, `yields_type`, `yields_key`: from each phase on, the loop stops
  with the fault of the parameter, or adds it to the clause and goes on behind the separator;
- `loop_of_parameter`: from a parameter on, the loop reads the clauses of the rest of the text;
- `loop_initial_eq`: a pass reads what is read from parameter to parameter;
- `parse_by_positions`: it does so without leaving the text, and ends at the end of the text.
-/

namespace BundleWiring.Header

open Text

/-- Whether a phase is the next one behind a stop. -/
def Stop.LeadsTo : Stop → Phase → Prop
  | .finish, next => next = .clause ∨ next = .parameter
  | .parameter _, next => next = .parameter
  | .clause _, next => next = .clause

namespace Pass

variable {s run rest : List Char} {pos start : Nat} {ch : Char}

/-! ### The text before and behind a position -/

/-- Between a position and itself there is nothing. -/
theorem part_self (h : pos ≤ s.length) : part s pos pos = .ok [] := by
  rw [part_eq_ok (Nat.le_refl pos) h, Nat.sub_self, List.take_zero]

/-- Where nothing is left, there is no character. -/
theorem getElem?_of_drop_nil (hrest : s.drop pos = []) : s[pos]? = none := by
  rw [← List.head?_drop, hrest, List.head?_nil]

/-- The first character that is left is the one at the position. -/
theorem getElem?_of_drop_cons (hrest : s.drop pos = ch :: rest) : s[pos]? = some ch := by
  rw [← List.head?_drop, hrest, List.head?_cons]

/-- A position further, one character less is left. -/
theorem drop_succ (hrest : s.drop pos = ch :: rest) : s.drop (pos + 1) = rest := by
  rw [← List.tail_drop, hrest, List.tail_cons]

/-- The character at a position belongs to the part that ends behind it. -/
theorem part_succ (h : part s start pos = .ok run) (hrest : s.drop pos = ch :: rest) :
    part s start (pos + 1) = .ok (run ++ [ch]) := by
  have hch := getElem?_of_drop_cons hrest
  obtain ⟨hpos, -⟩ := List.getElem?_eq_some_iff.mp hch
  unfold part at h
  split at h
  next hbounds =>
    obtain rfl := Except.ok.inj h
    have hlength : pos + 1 - start = pos - start + 1 := by omega
    have hindex : start + (pos - start) = pos := by omega
    rw [part_eq_ok (by omega) hpos, hlength, List.take_add_one, List.getElem?_drop, hindex, hch]
    rfl
  next => cases h

/-! ### What the loop makes of a parameter -/

variable {cs : List HeaderClause} {c : HeaderClause} {target : Target} {key : String} {p p' : Pass}

/-- How the loop goes on behind a parameter, with some clauses. -/
inductive Resumes (s : List Char) (cs : List HeaderClause) :
    Stop → Except Halt (List HeaderClause) → Prop where
  /-- At the end of the text it ends. -/
  | finish : Resumes s cs .finish (.ok cs)
  /-- Behind a semicolon it goes on with a parameter. -/
  | parameter (target : Target) (key : String) (pos start : Nat) : pos ≤ s.length →
    Resumes s cs (.parameter (s.drop pos))
      (loop s ⟨cs, .parameter, target, key, pos, start, false, false⟩)
  /-- Behind a comma it goes on with a clause. -/
  | clause (target : Target) (key : String) (pos start : Nat) : pos ≤ s.length →
    Resumes s cs (.clause (s.drop pos))
      (loop s ⟨cs, .clause, target, key, pos, start, false, false⟩)

/-- What the loop gives when a parameter is added to a clause behind some others. -/
def Yields (s : List Char) (cs : List HeaderClause) (x : Except Fault (HeaderClause × Stop))
    (r : Except Halt (List HeaderClause)) : Prop :=
  match x with
  | .error fault => r = .error (.fault fault)
  | .ok (c, stop) => Resumes s (cs ++ [c]) stop r

/-- A clause with the value of a key, and what follows it. -/
def addValue (c : HeaderClause) (target : Target) (key : String) (x : List Char × Stop) :
    Except Fault (HeaderClause × Stop) :=
  finishValue key x.1 >>= fun value => (·, x.2) <$> addParameter c (target.parameter key value)

/-- Where there is a character, the end of the text is not seen. -/
theorem sawEnd_eq_false (hch : s[p.pos]? = some ch) : p.sawEnd s = false := by
  simp [sawEnd, hch]

/-- An iteration that has not seen the end of the text goes on. -/
theorem loop_of_step (hstep : p.step s = .ok p') (hend : p.sawEnd s = false) :
    p.loop s = p'.loop s :=
  loop_of_goesOn (iterate_eq_goesOn_iff.mpr ⟨hstep, hend⟩)

/-- An iteration that has seen the end of the text ends the loop. -/
theorem loop_of_last_step (hstep : p.step s = .ok p') (hend : p.sawEnd s = true) :
    p.loop s = p'.result :=
  loop_of_ends (iterate_eq_ends_iff.mpr (.inr ⟨p', hstep, hend, rfl⟩))

/-- The pass takes the characters between its positions for a key, unless they are blank. -/
theorem takeKey_eq {next : Phase} (hpart : part s p.start p.pos = .ok run) :
    p.takeKey s next =
      if (String.ofList (trim run)).isEmpty then .error (.fault .missingKey)
      else
        .ok { p with
          phase := next, target := .attributes, key := String.ofList (trim run), pos := p.pos + 1
          start := p.pos + 1 } := by
  rw [takeKey, trimmed, hpart]
  rfl

/-- The pass adds the characters between its positions to the last clause as a path. -/
theorem takePath_eq {next : Phase} (hpart : part s p.start p.pos = .ok run)
    (hclauses : p.clauses = cs ++ [c]) :
    p.takePath s next = .ok { p with
      clauses := cs ++ [{ c with paths := c.paths ++ [String.ofList (trim run)] }]
      phase := next, pos := p.pos + 1 } := by
  rw [takePath, trimmed, hpart, hclauses]
  simp only [List.modifyLast_concat]
  rfl

/-- The pass adds the characters between its positions to the last clause as the type of the key. -/
theorem takeType_eq (hpart : part s p.start p.pos = .ok run) (hclauses : p.clauses = cs ++ [c]) :
    p.takeType s = .ok { p with
      clauses := cs ++ [{ c with types := c.types.insert p.key (String.ofList (trim run)) }]
      phase := .argument, pos := p.pos + 1, start := p.pos + 1 } := by
  rw [takeType, trimmed, hpart, hclauses]
  simp only [List.modifyLast_concat]
  rfl

/-- The pass adds the characters between its positions to the last clause as a value of the key. -/
theorem takeValue_eq {next : Phase} (stop : Stop) (hpart : part s p.start p.pos = .ok run)
    (hclauses : p.clauses = cs ++ [c]) :
    p.takeValue s next = (addValue c p.target p.key (run, stop)).mapError .fault >>= fun x =>
      .ok { p with clauses := cs ++ [x.1], phase := next, pos := p.pos + 1 } := by
  have hempty : (String.ofList (trim run)).isEmpty = (trim run).isEmpty := by
    cases trim run <;> simp
  rw [takeValue, trimmed, hpart, addValue, finishValue]
  simp only [Functor.map, Except.map, Function.comp_apply, bind, Except.bind, hempty]
  split
  · rfl
  · rw [stripAt?_eq_some, String.toList_ofList, Option.elim_some, hclauses, List.getLast?_concat,
      Option.elim_some, List.dropLast_concat]
    dsimp only
    cases addParameter c _ <;> rfl

/-- Where a parameter stops, the loop ends or goes on behind the separator. -/
theorem resumes_of_stop {phase next : Phase} {stop : Stop} (hrest : s.drop pos = stop.chars)
    (hphase : phase ≠ .clause ∧ phase ≠ .parameter) (hnext : stop.LeadsTo next)
    (before after : List HeaderClause) :
    Resumes s after stop
      (if sawEnd s ⟨before, phase, target, key, pos, start, false, false⟩ then
        result ⟨after, next, target, key, pos + 1, start, false, false⟩
      else loop s ⟨after, next, target, key, pos + 1, start, false, false⟩) := by
  cases stop with
  | finish =>
    have hend := getElem?_of_drop_nil hrest
    rw [if_pos (sawEnd_eq_true_iff.mpr ⟨hphase, hend⟩)]
    rcases hnext with rfl | rfl <;> exact .finish
  | parameter rest =>
    have hch := getElem?_of_drop_cons hrest
    obtain rfl : next = .parameter := hnext
    rw [← drop_succ hrest, if_neg (by simp [sawEnd, hch])]
    exact .parameter target key (pos + 1) start (List.getElem?_eq_some_iff.mp hch).1
  | clause rest =>
    have hch := getElem?_of_drop_cons hrest
    obtain rfl : next = .clause := hnext
    rw [← drop_succ hrest, if_neg (by simp [sawEnd, hch])]
    exact .clause target key (pos + 1) start (List.getElem?_eq_some_iff.mp hch).1

/-- Where a value stops it is added to the clause. -/
theorem yields_takeValue (cs : List HeaderClause) (c : HeaderClause) (target : Target)
    (key : String) (stop : Stop) (hpart : part s start pos = .ok run)
    (hrest : s.drop pos = stop.chars) :
    Yields s cs (addValue c target key (run, stop))
      (loop s ⟨cs ++ [c], .value, target, key, pos, start, false, false⟩) := by
  -- The character where the value stops decides what is read next.
  obtain ⟨next, hnext, hstep⟩ : ∃ next, stop.LeadsTo next ∧
      step s ⟨cs ++ [c], .value, target, key, pos, start, false, false⟩ =
        takeValue s ⟨cs ++ [c], .value, target, key, pos, start, false, false⟩ next := by
    cases stop with
    | finish =>
      have hend := getElem?_of_drop_nil hrest
      exact ⟨.clause, .inl rfl, by simp [step, readValue, hend]⟩
    | parameter rest =>
      have hch := getElem?_of_drop_cons hrest
      exact ⟨.parameter, rfl, by simp [step, readValue, hch]⟩
    | clause rest =>
      have hch := getElem?_of_drop_cons hrest
      exact ⟨.clause, rfl, by simp [step, readValue, hch]⟩
  rw [loop_eq, hstep, takeValue_eq stop hpart rfl]
  cases h : addValue c target key (run, stop) with
  | error fault => rfl
  | ok y =>
    obtain ⟨value, -, h⟩ := bind_eq_ok_iff.mp h
    obtain ⟨c', -, rfl⟩ := map_eq_ok_iff.mp h
    exact resumes_of_stop hrest (by simp) hnext _ _

/-- Characters that are put before the rest of a run belong to the run. -/
theorem map_bind_append {β : Type} (x : Except Fault (List Char × Stop)) (before run : List Char)
    (f : List Char × Stop → Except Fault β) :
    ((·.map (before ++ ·) id) <$> x) >>= (fun y => f (run ++ y.1, y.2)) =
      x >>= fun y => f (run ++ before ++ y.1, y.2) := by
  cases x with
  | error fault => rfl
  | ok y => exact congrArg (fun s => f (s, y.2)) (List.append_assoc ..).symm

/-- A run behind which nothing more is scanned is the whole value. -/
theorem scanned_eq (stop : Stop) (run : List Char) :
    ((.ok ([], stop) : Except Fault (List Char × Stop)) >>= fun x =>
      addValue c target key (run ++ x.1, x.2)) = addValue c target key (run, stop) :=
  congrArg (fun run => addValue c target key (run, stop)) (List.append_nil run)

/-- A backslash in a value escapes the next character. -/
theorem step_backslash {quoted : Bool} (hch : s[pos]? = some '\\') :
    step s ⟨cs, .value, target, key, pos, start, quoted, false⟩ =
      .ok ⟨cs, .value, target, key, pos + 1, start, quoted, true⟩ := by
  simp [step, readValue, hch]

/-- An escaped character of a value is passed over, whatever it is. -/
theorem step_escaped (quoted : Bool) :
    step s ⟨cs, .value, target, key, pos, start, quoted, true⟩ =
      .ok ⟨cs, .value, target, key, pos + 1, start, quoted, false⟩ := by
  simp [step, readValue]

/-- A value is read up to its separator, and then added to the clause. -/
theorem yields_value (cs : List HeaderClause) (c : HeaderClause) (target : Target)
    (key : String) (quoted : Bool) (hpart : part s start pos = .ok run)
    (hrest : s.drop pos = rest) :
    Yields s cs (scanValue quoted rest >>= fun x => addValue c target key (run ++ x.1, x.2))
      (loop s ⟨cs ++ [c], .value, target, key, pos, start, quoted, false⟩) := by
  fun_induction scanValue quoted rest generalizing pos run with
  -- The value stops at the end of the text or at a separator.
  | case1 =>
    rw [scanned_eq]
    exact yields_takeValue cs c target key .finish hpart hrest
  | case2 =>
    have hend := getElem?_of_drop_nil hrest
    have hstep : step s ⟨cs ++ [c], .value, target, key, pos, start, true, false⟩ =
        .ok ⟨cs ++ [c], .value, target, key, pos + 1, start, true, false⟩ := by
      simp [step, readValue, hend]
    exact loop_of_last_step hstep (by simp [sawEnd, hend])
  | case3 quoted =>
    have hbackslash := getElem?_of_drop_cons hrest
    have hend := getElem?_of_drop_nil (drop_succ hrest)
    rw [loop_of_step (step_backslash hbackslash) (sawEnd_eq_false hbackslash),
      loop_of_last_step (step_escaped quoted) (by simp [sawEnd, hend])]
    rfl
  -- A backslash and the character behind it take an iteration each.
  | case4 quoted ch rest ih =>
    have hbackslash := getElem?_of_drop_cons hrest
    have hch := getElem?_of_drop_cons (drop_succ hrest)
    rw [loop_of_step (step_backslash hbackslash) (sawEnd_eq_false hbackslash),
      loop_of_step (step_escaped quoted) (sawEnd_eq_false hch)]
    have h := ih (part_succ (part_succ hpart hrest) (drop_succ hrest)) (drop_succ (drop_succ hrest))
    rw [List.append_assoc, ← map_bind_append] at h
    exact h
  -- Any other character is passed over; only a quote matters, and only while a quote is open.
  | case5 ch rest hlast hescape ih =>
    have hch := getElem?_of_drop_cons hrest
    have hbackslash := Text.ne_backslash hlast hescape
    have hstep : step s ⟨cs ++ [c], .value, target, key, pos, start, true, false⟩ =
        .ok ⟨cs ++ [c], .value, target, key, pos + 1, start, ch != '"', false⟩ := by
      by_cases hquote : ch = '"' <;> simp [step, readValue, hch, hbackslash, hquote]
    rw [loop_of_step hstep (sawEnd_eq_false hch)]
    have h := ih (part_succ hpart hrest) (drop_succ hrest)
    rw [← map_bind_append] at h
    exact h
  | case6 rest =>
    rw [scanned_eq]
    exact yields_takeValue cs c target key (.parameter rest) hpart hrest
  | case7 rest =>
    rw [scanned_eq]
    exact yields_takeValue cs c target key (.clause rest) hpart hrest
  | case8 ch rest hlast hescape hsemicolon hcomma ih =>
    have hch := getElem?_of_drop_cons hrest
    have hbackslash : ch ≠ '\\' := Text.ne_backslash hlast hescape
    have hsemicolon : ch ≠ ';' := hsemicolon
    have hcomma : ch ≠ ',' := hcomma
    have hstep : step s ⟨cs ++ [c], .value, target, key, pos, start, false, false⟩ =
        .ok ⟨cs ++ [c], .value, target, key, pos + 1, start, false, false⟩ := by
      simp [step, readValue, hch, hbackslash, hsemicolon, hcomma]
    rw [loop_of_step hstep (sawEnd_eq_false hch)]
    have h := ih (part_succ hpart hrest) (drop_succ hrest)
    rw [← map_bind_append] at h
    exact h

/-- Blanks before a value are trimmed with those that the value starts with. -/
theorem trim_append_of_isBlank {blanks : List Char} (h : ∀ c ∈ blanks, isBlank c = true)
    (s : List Char) : trim (blanks ++ s) = trim s := by
  rw [trim, trim, trimStart, List.dropWhile_append_of_pos h]
  rfl

/-- Blanks before a value make no difference to it. -/
theorem addValue_of_isBlank {blanks : List Char} (h : ∀ c ∈ blanks, isBlank c = true) :
    (fun x : List Char × Stop => addValue c target key (blanks ++ x.1, x.2)) =
      addValue c target key := by
  funext x
  rw [addValue, addValue, finishValue, finishValue, trim_append_of_isBlank h]

/-- The blanks before a value are skipped, and then the value is read. -/
theorem yields_argument (cs : List HeaderClause) (c : HeaderClause) (target : Target)
    (key : String) {blanks : List Char} (hpart : part s start pos = .ok blanks)
    (hblanks : ∀ c ∈ blanks, isBlank c = true) (hrest : s.drop pos = rest) :
    Yields s cs (scanArgument rest >>= addValue c target key)
      (loop s ⟨cs ++ [c], .argument, target, key, pos, start, false, false⟩) := by
  induction rest generalizing pos blanks with
  | nil =>
    have hend := getElem?_of_drop_nil hrest
    have hstep : step s ⟨cs ++ [c], .argument, target, key, pos, start, false, false⟩ =
        .ok ⟨cs ++ [c], .value, target, key, pos, start, false, false⟩ := by
      simp [step, readArgument, hend]
    exact loop_of_last_step hstep (by simp [sawEnd, hend])
  | cons ch rest ih =>
    have hch := getElem?_of_drop_cons hrest
    by_cases hblank : isBlank ch = true
    -- A blank stays behind the start, so it belongs to the value, and is trimmed with it.
    · have hquote : ch ≠ '"' := by
        rintro rfl
        exact absurd hblank (by decide)
      have hstep : step s ⟨cs ++ [c], .argument, target, key, pos, start, false, false⟩ =
          .ok ⟨cs ++ [c], .argument, target, key, pos + 1, start, false, false⟩ := by
        simp [step, readArgument, hch, hblank, hquote]
      have hskip : scanArgument (ch :: rest) = scanArgument rest := by
        rw [scanArgument, trimStart, List.dropWhile_cons_of_pos hblank]
        rfl
      rw [loop_of_step hstep (sawEnd_eq_false hch), hskip]
      have hblanks : ∀ c ∈ blanks ++ [ch], isBlank c = true :=
        List.forall_mem_append.mpr ⟨hblanks, List.forall_mem_singleton.mpr hblank⟩
      exact ih (part_succ hpart hrest) hblanks (drop_succ hrest)
    · have htrim : trimStart (ch :: rest) = ch :: rest := List.dropWhile_cons_of_neg hblank
      rw [scanArgument_of_trimStart htrim, ← addValue_of_isBlank hblanks]
      split
      next hquote =>
        have hstep : step s ⟨cs ++ [c], .argument, target, key, pos, start, false, false⟩ =
            .ok ⟨cs ++ [c], .value, target, key, pos + 1, start, true, false⟩ := by
          subst hquote
          simp [step, readArgument, hch, hblank]
        rw [loop_of_step hstep (sawEnd_eq_false hch)]
        have h := yields_value cs c target key true (part_succ hpart hrest) (drop_succ hrest)
        rw [← map_bind_append, hquote] at h
        exact h
      next hquote =>
        have hstep : step s ⟨cs ++ [c], .argument, target, key, pos, start, false, false⟩ =
            .ok ⟨cs ++ [c], .value, target, key, pos, start, false, false⟩ := by
          simp [step, readArgument, hch, hblank, hquote]
        rw [loop_of_step hstep (sawEnd_eq_false hch)]
        exact yields_value cs c target key false hpart hrest

/-- A parameter of a clause, and what follows it, are added to the clause. -/
def addTo (c : HeaderClause) (x : Parameter × Stop) : Except Fault (HeaderClause × Stop) :=
  (·, x.2) <$> addParameter c x.1

/-- A value is read into a clause by its scan, its trimming and the addition of its parameter. -/
theorem readValue_bind_addTo (c : HeaderClause) (f : String → Parameter) (key : String)
    (rest : List Char) :
    ((·.map f id) <$> Header.readValue key rest) >>= addTo c =
      scanArgument rest >>= fun x =>
        finishValue key x.1 >>= fun value => (·, x.2) <$> addParameter c (f value) := by
  rw [Header.readValue]
  cases scanArgument rest with
  | error fault => rfl
  | ok x =>
    show ((·.map f id) <$> ((·, x.2) <$> finishValue key x.1)) >>= addTo c =
      finishValue key x.1 >>= fun value => (·, x.2) <$> addParameter c (f value)
    cases finishValue key x.1 <;> rfl

/-- The start is the position only if nothing was read. -/
theorem start_eq_iff (hpart : part s start pos = .ok run) : start = pos ↔ run = [] := by
  unfold part at hpart
  split at hpart
  next hbounds =>
    obtain rfl := Except.ok.inj hpart
    rw [List.take_eq_nil_iff, List.drop_eq_nil_iff]
    omega
  next => cases hpart

/-- A type, or nothing, is read up to the equals sign. -/
theorem yields_type (cs : List HeaderClause) (c : HeaderClause) (key : String)
    (hpart : part s start pos = .ok run) (hrun : '=' ∉ run)
    (hrest : s.drop pos = rest) :
    Yields s cs (readTyped key (run ++ rest) >>= addTo c)
      (loop s ⟨cs ++ [c], .type, .attributes, key, pos, start, false, false⟩) := by
  induction rest generalizing pos run with
  | nil =>
    have hend := getElem?_of_drop_nil hrest
    have hstep : step s ⟨cs ++ [c], .type, .attributes, key, pos, start, false, false⟩ =
        .ok ⟨cs ++ [c], .type, .attributes, key, pos + 1, start, false, false⟩ := by
      simp [step, readType, hend]
    have hread : readTyped key (run ++ []) = .error .unexpectedEnd := by
      have hall : ∀ c ∈ run, (c != '=') = true := fun c hc => bne_iff_ne.mpr fun h => hrun (h ▸ hc)
      rw [List.append_nil, readTyped, List.dropWhile_eq_nil_iff.mpr hall]
    rw [loop_of_last_step hstep (by simp [sawEnd, hend]), hread]
    rfl
  | cons ch rest ih =>
    have hch := getElem?_of_drop_cons hrest
    have hpos := (List.getElem?_eq_some_iff.mp hch).1
    by_cases hequals : ch = '='
    · subst hequals
      rw [readTyped_of_notMem hrun]
      split
      next hempty =>
        have hstart : start = pos := (start_eq_iff hpart).mpr (List.isEmpty_iff.mp hempty)
        have hstep : step s ⟨cs ++ [c], .type, .attributes, key, pos, start, false, false⟩ =
            .ok ⟨cs ++ [c], .argument, .directives, key, pos + 1, pos + 1, false, false⟩ := by
          simp [step, readType, hch, hstart]
        rw [loop_of_step hstep (sawEnd_eq_false hch), readValue_bind_addTo]
        exact yields_argument cs c .directives key (part_self hpos) (by simp) (drop_succ hrest)
      next hne =>
        have hstart : start ≠ pos := fun h => hne (List.isEmpty_iff.mpr ((start_eq_iff hpart).mp h))
        have hstep : step s ⟨cs ++ [c], .type, .attributes, key, pos, start, false, false⟩ =
            takeType s ⟨cs ++ [c], .type, .attributes, key, pos, start, false, false⟩ := by
          simp [step, readType, hch, hstart]
        -- The type is in the clause before the value is, which makes no difference to the value.
        rw [loop_of_step (hstep.trans (takeType_eq hpart rfl)) (sawEnd_eq_false hch),
          readValue_bind_addTo]
        exact yields_argument cs { c with types := c.types.insert key (String.ofList (trim run)) }
          .attributes key (part_self hpos) (by simp) (drop_succ hrest)
    · have hstep : step s ⟨cs ++ [c], .type, .attributes, key, pos, start, false, false⟩ =
          .ok ⟨cs ++ [c], .type, .attributes, key, pos + 1, start, false, false⟩ := by
        simp [step, readType, hch, hequals]
      rw [loop_of_step hstep (sawEnd_eq_false hch), List.append_cons]
      exact ih (part_succ hpart hrest) (by simp [hrun, Ne.symm hequals]) (drop_succ hrest)

theorem isKeyEnd_iff : isKeyEnd ch = true ↔ ch = ':' ∨ ch = '=' ∨ ch = ',' ∨ ch = ';' := by
  simp [isKeyEnd, or_assoc]

/-- A path that ends here is added to the clause. -/
theorem yields_takePath (cs : List HeaderClause) (c : HeaderClause) (target : Target)
    (key : String) (stop : Stop) (hpart : part s start pos = .ok run)
    (hrest : s.drop pos = stop.chars) :
    Yields s cs (addTo c (.path (String.ofList (trim run)), stop))
      (loop s ⟨cs ++ [c], .key, target, key, pos, start, false, false⟩) := by
  obtain ⟨next, hnext, hstep⟩ : ∃ next, stop.LeadsTo next ∧
      step s ⟨cs ++ [c], .key, target, key, pos, start, false, false⟩ =
        takePath s ⟨cs ++ [c], .key, target, key, pos, start, false, false⟩ next := by
    cases stop with
    | finish =>
      have hend := getElem?_of_drop_nil hrest
      exact ⟨.parameter, .inr rfl, by simp [step, readKey, hend]⟩
    | parameter rest =>
      have hch := getElem?_of_drop_cons hrest
      exact ⟨.parameter, rfl, by simp [step, readKey, hch]⟩
    | clause rest =>
      have hch := getElem?_of_drop_cons hrest
      exact ⟨.clause, rfl, by simp [step, readKey, hch]⟩
  rw [loop_eq, hstep, takePath_eq hpart rfl]
  exact resumes_of_stop hrest (by simp) hnext _ _

/-- A character of a key is passed over. -/
theorem readKey_of_isKeyEnd_eq_false (hch : s[p.pos]? = some ch) (hend : isKeyEnd ch = false) :
    p.readKey s = .ok { p with pos := p.pos + 1 } := by
  unfold readKey
  rw [hch]
  split <;> simp_all [isKeyEnd]

/-- Behind a key, what follows it is read, unless the key is blank. -/
theorem yields_takeKey (cs : List HeaderClause) (c : HeaderClause) (target : Target) (key : String)
    (next : Phase) (hpart : part s start pos = .ok run) (hrun : ∀ c ∈ run, isKeyEnd c = false)
    (hrest : s.drop pos = ch :: rest) (hend : isKeyEnd ch = true) (hsemicolon : ch ≠ ';')
    (hcomma : ch ≠ ',')
    (hstep : step s ⟨cs ++ [c], .key, target, key, pos, start, false, false⟩ =
      takeKey s ⟨cs ++ [c], .key, target, key, pos, start, false, false⟩ next)
    (hread : ∀ key, Yields s cs
      ((if ch = '=' then (·.map (.attribute key none) id) <$> Header.readValue key rest
        else readTyped key rest) >>= addTo c)
      (loop s ⟨cs ++ [c], next, .attributes, key, pos + 1, pos + 1, false, false⟩)) :
    Yields s cs (readParameter (run ++ ch :: rest) >>= addTo c)
      (loop s ⟨cs ++ [c], .key, target, key, pos, start, false, false⟩) := by
  -- The reader cuts off the same key: none of its characters ends a key, and the next one does.
  obtain ⟨htake, hdrop⟩ := span_isKeyEnd (t := ch :: rest) hrun (by simpa using hend)
  have hsaw : sawEnd s ⟨cs ++ [c], .key, target, key, pos, start, false, false⟩ = false :=
    sawEnd_eq_false (getElem?_of_drop_cons hrest)
  rw [readParameter_of_dropWhile hdrop hsemicolon hcomma, htake, loop_eq, hstep, takeKey_eq hpart,
    hsaw]
  dsimp only
  split
  · rfl
  · exact hread _

/-- A key is read up to its separator, and then its value; without a separator it is a path. -/
theorem yields_key (cs : List HeaderClause) (c : HeaderClause) (target : Target) (key : String)
    (hpart : part s start pos = .ok run) (hrun : ∀ c ∈ run, isKeyEnd c = false)
    (hrest : s.drop pos = rest) :
    Yields s cs (readParameter (run ++ rest) >>= addTo c)
      (loop s ⟨cs ++ [c], .key, target, key, pos, start, false, false⟩) := by
  induction rest generalizing pos run with
  | nil =>
    rw [show ([] : List Char) = Stop.finish.chars from rfl, readParameter_append_chars hrun]
    exact yields_takePath cs c target key .finish hpart hrest
  | cons ch rest ih =>
    have hch := getElem?_of_drop_cons hrest
    have hpos := (List.getElem?_eq_some_iff.mp hch).1
    by_cases hend : isKeyEnd ch = true
    · rcases isKeyEnd_iff.mp hend with rfl | rfl | rfl | rfl
      -- Behind a colon comes a type, or nothing.
      · refine yields_takeKey cs c target key .type hpart hrun hrest hend (by decide) (by decide)
          (by simp [step, readKey, hch]) fun key => ?_
        rw [if_neg (by decide)]
        exact yields_type cs c key (part_self hpos) (by simp) (drop_succ hrest)
      -- Behind an equals sign comes a value.
      · refine yields_takeKey cs c target key .argument hpart hrun hrest hend (by decide)
          (by decide) (by simp [step, readKey, hch]) fun key => ?_
        rw [if_pos rfl, readValue_bind_addTo]
        exact yields_argument cs c .attributes key (part_self hpos) (by simp) (drop_succ hrest)
      -- A comma or a semicolon ends a path.
      · rw [show ',' :: rest = (Stop.clause rest).chars from rfl, readParameter_append_chars hrun]
        exact yields_takePath cs c target key (.clause rest) hpart hrest
      · rw [show ';' :: rest = (Stop.parameter rest).chars from rfl,
          readParameter_append_chars hrun]
        exact yields_takePath cs c target key (.parameter rest) hpart hrest
    · have hend : isKeyEnd ch = false := Bool.eq_false_iff.mpr hend
      have hstep : step s ⟨cs ++ [c], .key, target, key, pos, start, false, false⟩ =
          .ok ⟨cs ++ [c], .key, target, key, pos + 1, start, false, false⟩ :=
        readKey_of_isKeyEnd_eq_false hch hend
      rw [loop_of_step hstep (sawEnd_eq_false hch), List.append_cons]
      have hrun : ∀ c ∈ run ++ [ch], isKeyEnd c = false :=
        List.forall_mem_append.mpr ⟨hrun, List.forall_mem_singleton.mpr hend⟩
      exact ih (part_succ hpart hrest) hrun (drop_succ hrest)

/-! ### The clauses of a text -/

/-- A clause starts without parameters, where its first parameter starts. -/
theorem loop_of_clause (cs : List HeaderClause) (target : Target) (key : String)
    (pos start : Nat) :
    loop s ⟨cs, .clause, target, key, pos, start, false, false⟩ =
      loop s ⟨cs ++ [.empty], .parameter, target, key, pos, start, false, false⟩ :=
  loop_of_step rfl rfl

/-- A clause that is read belongs to those before it as well as to those behind it. -/
theorem map_append_mapError (cs : List HeaderClause) (c : HeaderClause)
    (x : Except Fault (List HeaderClause)) :
    ((cs ++ [c] ++ ·) <$> x).mapError Halt.fault =
      ((cs ++ ·) <$> ((c :: ·) <$> x)).mapError .fault := by
  cases x with
  | error fault => rfl
  | ok after => exact congrArg Except.ok (List.append_cons cs c after).symm

/-- The loop reads the clauses from a parameter on. -/
theorem loop_of_parameter (cs : List HeaderClause) (c : HeaderClause) (target : Target)
    (key : String) (start : Nat) (hpos : pos ≤ s.length) (hrest : s.drop pos = rest) :
    loop s ⟨cs ++ [c], .parameter, target, key, pos, start, false, false⟩ =
      ((cs ++ ·) <$> clausesFrom c rest).mapError .fault := by
  -- Every parameter leaves a shorter text; the clauses before it stay as they are.
  induction hn : rest.length using Nat.strongRecOn generalizing cs c target key pos start rest with
  | _ n ih =>
    subst hn
    have hstep : step s ⟨cs ++ [c], .parameter, target, key, pos, start, false, false⟩ =
        .ok ⟨cs ++ [c], .key, target, key, pos, pos, false, false⟩ := rfl
    rw [loop_of_step hstep rfl]
    have hyields := yields_key cs c target key (part_self hpos) (by simp) hrest
    generalize loop s ⟨cs ++ [c], .key, target, key, pos, pos, false, false⟩ = r at hyields ⊢
    rw [List.nil_append] at hyields
    cases hread : readParameter rest with
    | error fault =>
      rw [hread] at hyields
      rw [clausesFrom, hread]
      exact hyields
    | ok x =>
      obtain ⟨parameter, stop⟩ := x
      have hless := length_rest_readParameter hread
      rw [hread] at hyields
      replace hyields : Yields s cs (addTo c (parameter, stop)) r := hyields
      rw [clausesFrom_of_readParameter hread]
      cases hadd : addParameter c parameter with
      | error fault =>
        rw [addTo, hadd] at hyields
        exact hyields
      | ok c' =>
        rw [addTo, hadd] at hyields
        have hresumes : Resumes s (cs ++ [c']) stop r := hyields
        cases hresumes with
        | finish => rfl
        | parameter target key pos start hpos =>
          have hlt := hless.resolve_left Stop.noConfusion
          exact ih _ hlt cs c' target key start hpos rfl rfl
        | clause target key pos start hpos =>
          have hlt := hless.resolve_left Stop.noConfusion
          rw [loop_of_clause, ih _ hlt (cs ++ [c']) .empty target key start hpos rfl rfl]
          exact map_append_mapError cs c' (clausesFrom .empty (s.drop pos))

/-- One pass reads what is read from parameter to parameter. -/
theorem loop_initial_eq (s : List Char) :
    initial.loop s = (clausesFrom .empty s).mapError .fault := by
  have h := loop_of_parameter (s := s) [] .empty .attributes "" 0 (Nat.zero_le s.length) rfl
  rw [← loop_of_clause, List.drop_zero] at h
  refine h.trans ?_
  cases clausesFrom .empty s <;> rfl

end Pass

/-- A pass by positions stays in the text, comes to an end, and reads what is read from parameter to
parameter:

- in every iteration the positions are in order and in the text, there is a clause to which a
  parameter can be added, and nothing stops the iteration but a fault of the text;
- of three iterations one moves on, so there are three for each character at most, and three at the
  end of the text; without a fault the last one is at the end of the text;
- the quotes around a value are cut off inside of the value;
- the last iteration leaves what is read from parameter to parameter;
- clauses are left only at the end of the text, by an iteration that takes a path or a value, while
  no quote is open and no backslash came last. -/
theorem parse_by_positions (text : String) :
    (∀ n p, Pass.after text.toList n = some p →
      Pass.InBounds text.toList p ∧
      (∀ halt, p.step text.toList = .error halt → ∃ fault, halt = .fault fault) ∧
      n < 3 * (text.toList.length + 1) ∧
      (∀ p', Pass.after text.toList (n + 3) = some p' → p.pos < p'.pos) ∧
      ∀ r, p.iterate text.toList = .ends r →
        p.pos = text.toList.length ∨ ∃ fault, p.step text.toList = .error (.fault fault)) ∧
    (∀ value, stripAt? value = some (String.ofList (stripQuotes value.toList))) ∧
    (∃ n p, Pass.after text.toList n = some p ∧
      p.iterate text.toList = .ends ((parse text).mapError .fault)) ∧
    ∀ cs, parse text = .ok cs ↔ ∃ n p p', Pass.after text.toList n = some p ∧
      p.pos = text.toList.length ∧ p.quoted = false ∧ p.escaped = false ∧
      Pass.Completes text.toList p p' ∧ p'.clauses = cs := by
  -- The loop gives what `parse` gives, so that its iterations tell how `parse` ends.
  have hloop : Pass.initial.loop text.toList = (parse text).mapError .fault :=
    Pass.loop_initial_eq text.toList
  refine ⟨fun n p hp => ?_, stripAt?_eq_some, Pass.loop_eq_iff.mp hloop, fun cs => ?_⟩
  · have hbounds := Pass.inBounds_of_after hp
    refine ⟨hbounds, fun halt => Pass.exists_fault_of_step hbounds, Pass.lt_of_after hp,
      fun p' => Pass.pos_lt_of_after hp, fun r hends => ?_⟩
    rcases Pass.iterate_eq_ends_iff.mp hends with ⟨halt, hstep, rfl⟩ | ⟨p', -, hend, -⟩
    · obtain ⟨fault, rfl⟩ := Pass.exists_fault_of_step hbounds hstep
      exact .inr ⟨fault, hstep⟩
    · exact .inl (Pass.pos_eq_of_sawEnd hbounds hend)
  · rw [← mapError_eq_ok_iff (g := Halt.fault), ← hloop, Pass.loop_eq_iff]
    refine exists_congr fun n => exists_congr fun p => ?_
    constructor
    · rintro ⟨hp, hends⟩
      obtain ⟨hpos, p', hcompletes, hcs⟩ :=
        (Pass.iterate_eq_ends_ok_iff (Pass.inBounds_of_after hp)).mp hends
      have hclosed := hcompletes.closed (Pass.inBounds_of_after hp).closed
      exact ⟨p', hp, hpos, hclosed.1, hclosed.2, hcompletes, hcs⟩
    · rintro ⟨p', hp, hpos, -, -, hcompletes, hcs⟩
      exact ⟨hp, (Pass.iterate_eq_ends_ok_iff (Pass.inBounds_of_after hp)).mpr
        ⟨hpos, p', hcompletes, hcs⟩⟩

/-- In a quoted value a comma is passed over while the quote is open, and the pass ends behind the
value; a parameter without a key stops a pass. -/
theorem parse_by_positions_quoted :
    (∃ p p', Pass.after "a;v=\"1,2\"".toList 6 = some p ∧
      Pass.InBounds "a;v=\"1,2\"".toList p ∧
      Pass.after "a;v=\"1,2\"".toList 9 = some p' ∧ p'.quoted = true ∧ p.pos < p'.pos) ∧
    (∃ n p r, Pass.after "a;v=\"1,2\"".toList n = some p ∧
      p.iterate "a;v=\"1,2\"".toList = .ends r ∧ n < 30 ∧
      (p.pos = 9 ∨ ∃ fault, p.step "a;v=\"1,2\"".toList = .error (.fault fault))) ∧
    ∃ p halt, Pass.after "a;=1".toList 5 = some p ∧ p.step "a;=1".toList = .error halt ∧
      ∃ fault, halt = .fault fault := by
  refine ⟨?_, ?_, ?_⟩
  · obtain ⟨p, hp⟩ : ∃ p, Pass.after "a;v=\"1,2\"".toList 6 = some p :=
      Option.isSome_iff_exists.mp (by decide +kernel)
    obtain ⟨p', hp', hquoted⟩ : ∃ p, Pass.after "a;v=\"1,2\"".toList 9 = some p ∧
        p.quoted = true :=
      (Option.any_eq_true _ _).mp (by decide +kernel)
    -- Three iterations later the pass has moved on, into the quotes.
    obtain ⟨hbounds, -, -, hmoves, -⟩ := (parse_by_positions "a;v=\"1,2\"").1 6 p hp
    exact ⟨p, p', hp, hbounds, hp', hquoted, hmoves p' hp'⟩
  · obtain ⟨heach, -, ⟨n, p, hp, hends⟩, -⟩ := parse_by_positions "a;v=\"1,2\""
    obtain ⟨-, -, hlt, -, hend⟩ := heach n p hp
    exact ⟨n, p, _, hp, hends, hlt, hend _ hends⟩
  · obtain ⟨p, hp, hstops⟩ : ∃ p, Pass.after "a;=1".toList 5 = some p ∧
        (p.step "a;=1".toList).toOption.isNone = true :=
      (Option.any_eq_true _ _).mp (by decide +kernel)
    obtain ⟨-, hfault, -⟩ := (parse_by_positions "a;=1").1 5 p hp
    cases hstep : p.step "a;=1".toList with
    | error halt => exact ⟨p, halt, hp, hstep, hfault halt hstep⟩
    | ok p' =>
      rw [hstep] at hstops
      cases hstops

end BundleWiring.Header
