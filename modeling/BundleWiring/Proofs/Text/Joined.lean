import BundleWiring.Proofs.Text.Lists
import Mathlib.Algebra.Ring.Parity

/-!
# Joined Texts

Texts that are joined with delimiters are the tokens of the joined text only if nothing in them gets
in the way: a backslash is dropped, a delimiter cuts unless it stands between quotes, an open quote
hides the delimiters behind it, and an empty token at the end is left out. This module proves:

- `length_intercalate_cut_le`: tokens are no longer than the text they come from, and shorter if it
  has a backslash;
- `splitTokens_append` and `leavesWhole_of_isPrefix`: the texts that no delimiter cuts;
- `splitTokens_intercalate_iff` and `tokens_intercalate_iff`: the texts that are found again when
  they are joined (`Recovered`);
- `exists_tokens_eq`: all texts are the tokens of some text.
-/

namespace BundleWiring.Text

variable {isDelimiter : Char → Bool} {inside : Bool} {c d : Char} {s t part : List Char}
  {parts : List (List Char)}

/-! ### Joined texts -/

/-- What the first of some joined texts starts with is what the joined text starts with. -/
theorem intercalate_append_cons (s t : List Char) (parts : List (List Char)) :
    [d].intercalate ((s ++ t) :: parts) = s ++ [d].intercalate (t :: parts) := by
  cases parts with
  | nil => simp only [List.intercalate_singleton]
  | cons next parts => simp only [List.intercalate_cons_cons, List.append_assoc]

/-- An empty part at the end adds a delimiter. -/
theorem intercalate_concat_nil (hne : parts ≠ []) :
    [d].intercalate (parts ++ [[]]) = [d].intercalate parts ++ [d] := by
  induction parts with
  | nil => exact absurd rfl hne
  | cons part parts ih =>
    cases parts with
    | nil => simp [List.intercalate_cons_cons]
    | cons next parts =>
      have hnext := ih (List.cons_ne_nil next parts)
      rw [List.cons_append, List.cons_append, List.intercalate_cons_cons, ← List.cons_append, hnext,
        List.intercalate_cons_cons, List.append_assoc, List.append_assoc, List.append_assoc]

/-- The tokens of a text, also an empty one at the end. -/
def cut (isDelimiter : Char → Bool) (inside : Bool) (s : List Char) : List (List Char) :=
  (splitTokens isDelimiter inside s).1 :: (splitTokens isDelimiter inside s).2

/-- The tokens of a text, joined, are no longer than the text, and shorter if a backslash was
dropped. -/
theorem length_intercalate_cut_le (isDelimiter : Char → Bool) (d : Char) (inside : Bool)
    (s : List Char) :
    ([d].intercalate (cut isDelimiter inside s)).length ≤ s.length ∧
    ('\\' ∈ s → ([d].intercalate (cut isDelimiter inside s)).length < s.length) := by
  have hchar (c : Char) (t : List Char) (ts : List (List Char)) :
      ([d].intercalate ((c :: t) :: ts)).length = ([d].intercalate (t :: ts)).length + 1 :=
    congrArg List.length (intercalate_append_cons [c] t ts)
  unfold cut
  fun_induction splitTokens isDelimiter inside s with
  | case1 inside => simp
  | case2 inside => simp
  -- A backslash is dropped, and the character behind it is kept.
  | case3 inside c s ih =>
    simp only [Prod.map, id, hchar, List.length_cons]
    omega
  -- A delimiter is put back when the tokens are joined.
  | case4 inside c s hend hescape hdelimiter token tokens hsplit ih =>
    have hc : c ≠ '\\' := ne_backslash hend hescape
    simp only [hsplit] at ih
    simp only [List.intercalate_cons_cons, List.nil_append, List.singleton_append, List.length_cons,
      List.mem_cons, hc.symm, false_or]
    exact ⟨Nat.succ_le_succ ih.1, fun hmem => Nat.succ_lt_succ (ih.2 hmem)⟩
  | case5 inside c s hend hescape hdelimiter ih =>
    have hc : c ≠ '\\' := ne_backslash hend hescape
    simp only [Prod.map, id, hchar, List.length_cons, List.mem_cons, hc.symm, false_or]
    exact ⟨Nat.succ_le_succ ih.1, fun hmem => Nat.succ_lt_succ (ih.2 hmem)⟩

/-! ### Texts that no delimiter cuts -/

/-- Whether what follows a text is between quotes. -/
def insideAfter (inside : Bool) (s : List Char) : Bool :=
  inside != decide (Odd (s.count '"'))

@[simp]
theorem insideAfter_nil (inside : Bool) : insideAfter inside [] = inside := by
  simp [insideAfter]

theorem insideAfter_cons (inside : Bool) (c : Char) (s : List Char) :
    insideAfter inside (c :: s) = insideAfter (inside != (c == '"')) s := by
  unfold insideAfter
  by_cases hc : c = '"'
  · subst hc
    by_cases hodd : Odd (s.count '"') <;> simp [Nat.odd_add_one, hodd]
  · have hquote : (c == '"') = false := beq_eq_false_iff_ne.mpr hc
    rw [List.count_cons_of_ne hc, hquote, Bool.bne_false]

/-- The delimiters in a text are all between quotes. -/
def LeavesWhole (isDelimiter : Char → Bool) (inside : Bool) (s : List Char) : Prop :=
  ∀ pre c post, s = pre ++ c :: post → isDelimiter c = true → insideAfter inside pre = true

/-- A text is left whole if its first character is no delimiter outside of quotes and the rest is
left whole. -/
theorem leavesWhole_cons_iff : LeavesWhole isDelimiter inside (c :: s) ↔
    (!inside && isDelimiter c) = false ∧ LeavesWhole isDelimiter (inside != (c == '"')) s := by
  constructor
  · intro h
    refine ⟨?_, fun pre e post hs he => ?_⟩
    · cases hd : isDelimiter c with
      | false => exact Bool.and_false _
      -- Nothing is in front of the first character, so that only an open quote keeps it.
      | true =>
        have hinside := h [] c s rfl hd
        rw [insideAfter_nil] at hinside
        rw [hinside]
        rfl
    · rw [← insideAfter_cons]
      exact h (c :: pre) e post (congrArg (c :: ·) hs) he
  · rintro ⟨hcut, h⟩ pre e post hs he
    cases pre with
    | nil =>
      obtain ⟨rfl, -⟩ := List.cons.inj hs
      rw [he, Bool.and_true, Bool.not_eq_false'] at hcut
      rw [insideAfter_nil, hcut]
    | cons c' pre =>
      obtain ⟨rfl, hrest⟩ := List.cons.inj hs
      rw [insideAfter_cons]
      exact h pre e post hrest he

theorem leavesWhole_nil (isDelimiter : Char → Bool) (inside : Bool) :
    LeavesWhole isDelimiter inside [] := by
  intro pre c post hnil
  cases (List.append_eq_nil_iff.mp hnil.symm).2

instance decidableLeavesWhole (isDelimiter : Char → Bool) :
    ∀ inside s, Decidable (LeavesWhole isDelimiter inside s)
  | inside, [] => .isTrue (leavesWhole_nil isDelimiter inside)
  | inside, c :: s =>
    have := decidableLeavesWhole isDelimiter (inside != (c == '"')) s
    decidable_of_iff _ leavesWhole_cons_iff.symm

/-- A text without backslashes whose delimiters are between quotes is not cut. -/
theorem splitTokens_append (hbackslash : '\\' ∉ s) (hs : LeavesWhole isDelimiter inside s)
    (t : List Char) : splitTokens isDelimiter inside (s ++ t) =
      (splitTokens isDelimiter (insideAfter inside s) t).map (s ++ ·) id := by
  induction s generalizing inside with
  | nil =>
    rw [insideAfter_nil]
    rfl
  | cons c s ih =>
    obtain ⟨hc, hbackslash⟩ := not_or.mp (List.mem_cons.not.mp hbackslash)
    obtain ⟨hcut, hs⟩ := leavesWhole_cons_iff.mp hs
    rw [List.cons_append, splitTokens_of_char (Ne.symm hc) hcut, ih hbackslash hs, insideAfter_cons]
    rfl

/-- Any other text is cut at its first delimiter outside of quotes. -/
theorem leavesWhole_of_isPrefix (hbackslash : '\\' ∉ s)
    (h : s <+: (splitTokens isDelimiter inside (s ++ t)).1) : LeavesWhole isDelimiter inside s := by
  induction s generalizing inside with
  | nil => exact leavesWhole_nil isDelimiter inside
  | cons c s ih =>
    obtain ⟨hc, hbackslash⟩ := not_or.mp (List.mem_cons.not.mp hbackslash)
    cases hcut : !inside && isDelimiter c with
    | true =>
      obtain ⟨hinside, hd⟩ := Bool.and_eq_true_iff.mp hcut
      obtain rfl : inside = false := by simpa using hinside
      -- The token ends here, before the text does.
      rw [List.cons_append, splitTokens_of_isDelimiter (Ne.symm hc) hd] at h
      cases List.prefix_nil.mp h
    | false =>
      rw [List.cons_append, splitTokens_of_char (Ne.symm hc) hcut] at h
      exact leavesWhole_cons_iff.mpr ⟨hcut, ih hbackslash (List.cons_prefix_cons.mp h).2⟩

/-- A delimiter cuts off the text in front of it if the text is not cut and no quote is open. -/
theorem splitTokens_append_cons_iff (hd : d ≠ '\\') (hdelimiter : isDelimiter d = true)
    (hbackslash : '\\' ∉ s) {token : List Char} {others : List (List Char)} :
    splitTokens isDelimiter false (s ++ d :: t) = (s, token :: others) ↔
      LeavesWhole isDelimiter false s ∧ insideAfter false s = false ∧
        splitTokens isDelimiter false t = (token, others) := by
  constructor
  · intro h
    have hwhole : LeavesWhole isDelimiter false s :=
      leavesWhole_of_isPrefix hbackslash (t := d :: t) ⟨[], by rw [h, List.append_nil]⟩
    have happend := (splitTokens_append hbackslash hwhole (d :: t)).symm.trans h
    cases hinside : insideAfter false s with
    | true =>
      -- Between quotes the delimiter would be a part of the token.
      rw [hinside, splitTokens_of_char hd rfl] at happend
      have hlength := congrArg (List.length ∘ Prod.fst) happend
      simp at hlength
    | false =>
      rw [hinside, splitTokens_of_isDelimiter hd hdelimiter] at happend
      obtain ⟨htoken, hothers⟩ := List.cons.inj (congrArg Prod.snd happend)
      exact ⟨hwhole, rfl, Prod.ext htoken hothers⟩
  · rintro ⟨hwhole, hinside, ht⟩
    rw [splitTokens_append hbackslash hwhole, hinside, splitTokens_of_isDelimiter hd hdelimiter, ht,
      Prod.map, List.append_nil]
    rfl

/-- Texts without backslashes that are joined are cut where they were joined if their other
delimiters are between quotes, and if no quote is open where one of them ends and another starts. -/
theorem splitTokens_intercalate_iff (hd : d ≠ '\\') (hdelimiter : isDelimiter d = true)
    (hbackslash : ∀ s ∈ part :: parts, '\\' ∉ s) :
    splitTokens isDelimiter false ([d].intercalate (part :: parts)) = (part, parts) ↔
      (∀ s ∈ part :: parts, LeavesWhole isDelimiter false s) ∧
      ∀ s ∈ (part :: parts).dropLast, insideAfter false s = false := by
  induction parts generalizing part with
  -- The induction is on the parts: one cut separates the first of them from the others.
  | nil =>
    have hpart : '\\' ∉ part := hbackslash part (List.mem_singleton_self part)
    rw [List.intercalate_singleton, List.forall_mem_singleton]
    constructor
    · intro h
      exact ⟨leavesWhole_of_isPrefix hpart (t := []) ⟨[], by rw [List.append_nil, h]⟩, nofun⟩
    · rintro ⟨hwhole, -⟩
      have happend := splitTokens_append hpart hwhole []
      rw [List.append_nil] at happend
      rw [happend, splitTokens, Prod.map, List.append_nil]
      rfl
  | cons next parts ih =>
    obtain ⟨hpart, hothers⟩ := List.forall_mem_cons.mp hbackslash
    have hwhole := List.forall_mem_cons (p := LeavesWhole isDelimiter false) (a := part)
      (l := next :: parts)
    have hclosed := List.forall_mem_cons (p := (insideAfter false · = false)) (a := part)
      (l := (next :: parts).dropLast)
    rw [List.intercalate_cons_cons, List.append_assoc, List.singleton_append,
      List.dropLast_cons_cons, splitTokens_append_cons_iff hd hdelimiter hpart, ih hothers,
      hwhole, hclosed]
    tauto

/-! ### Lists that are found again -/

/-- Texts are found again when they are joined: none of them has a backslash, delimiters are between
quotes, quotes are closed but for the last text, and the last text is not empty. -/
structure Recovered (isDelimiter : Char → Bool) (parts : List (List Char)) : Prop where
  /-- Nothing is dropped. -/
  noBackslash : ∀ s ∈ parts, '\\' ∉ s
  /-- Nothing is cut. -/
  whole : ∀ s ∈ parts, LeavesWhole isDelimiter false s
  /-- Each text is cut off from the next one. -/
  closed : ∀ s ∈ parts.dropLast, insideAfter false s = false
  /-- The last text is not left out. -/
  last_ne : parts.getLast? ≠ some []

/-- The conditions on strings that are recovered, one by one. -/
theorem recovered_iff : Recovered isDelimiter parts ↔ (∀ s ∈ parts, '\\' ∉ s) ∧
    (∀ s ∈ parts, LeavesWhole isDelimiter false s) ∧
    (∀ s ∈ parts.dropLast, insideAfter false s = false) ∧ parts.getLast? ≠ some [] :=
  ⟨fun h => ⟨h.1, h.2, h.3, h.4⟩, fun ⟨h1, h2, h3, h4⟩ => ⟨h1, h2, h3, h4⟩⟩

instance : Decidable (Recovered isDelimiter parts) :=
  decidable_of_iff _ recovered_iff.symm

/-- Some parts are all tokens of a joined text, also at its end, if they are no shorter. -/
theorem eq_of_dropEmptyLast {all : List (List Char)} (h : dropEmptyLast all = parts)
    (hne : parts ≠ [])
    (hlength : ([d].intercalate all).length ≤ ([d].intercalate parts).length) :
    all = parts ∧ parts.getLast? ≠ some [] := by
  unfold dropEmptyLast at h
  split at h
  -- If an empty token was left out, then the joined text would have one more delimiter.
  next hlast =>
    have hall : all = parts ++ [[]] := by
      rw [← h, List.dropLast_append_getLast? [] hlast]
    rw [hall, intercalate_concat_nil hne, List.length_append, List.length_singleton] at hlength
    exact absurd hlength (by omega)
  next hlast => exact ⟨h, h ▸ hlast⟩

/-- The characters of the parts are in the joined text. -/
theorem mem_intercalate_of_mem (hs : s ∈ parts) (hc : c ∈ s) : c ∈ [d].intercalate parts := by
  induction parts with
  | nil => cases hs
  | cons part parts ih =>
    have hpart := intercalate_append_cons (d := d) part [] parts
    rw [List.append_nil] at hpart
    rw [hpart, List.mem_append]
    rcases List.mem_cons.mp hs with rfl | hs
    · exact .inl hc
    · cases parts with
      | nil => cases hs
      | cons next parts =>
        rw [List.intercalate_cons_cons]
        exact .inr (List.mem_append_right _ (ih hs))

/-- Joined texts are the tokens of the text that they are joined to if nothing in them gets in the
way. -/
theorem tokens_intercalate_iff (hd : d ≠ '\\') (hdelimiter : isDelimiter d = true) :
    tokens isDelimiter ([d].intercalate parts) = parts ↔ Recovered isDelimiter parts := by
  cases parts with
  | nil => exact iff_of_true rfl ⟨nofun, nofun, nofun, nofun⟩
  | cons part parts =>
    rw [tokens_eq_dropEmptyLast]
    constructor
    · intro h
      obtain ⟨hle, hlt⟩ := length_intercalate_cut_le isDelimiter d false
        ([d].intercalate (part :: parts))
      obtain ⟨hcut, hlast⟩ := eq_of_dropEmptyLast h (List.cons_ne_nil part parts) hle
      -- A backslash would make the tokens shorter than the text.
      have hbackslash : ∀ s ∈ part :: parts, '\\' ∉ s := fun s hs hmem =>
        absurd (hlt (mem_intercalate_of_mem hs hmem)) (by rw [cut, hcut]; exact lt_irrefl _)
      obtain ⟨hfirst, hothers⟩ := List.cons.inj hcut
      obtain ⟨hwhole, hclosed⟩ := (splitTokens_intercalate_iff hd hdelimiter hbackslash).mp
        (Prod.ext hfirst hothers)
      exact ⟨hbackslash, hwhole, hclosed, hlast⟩
    · intro h
      rw [(splitTokens_intercalate_iff hd hdelimiter h.noBackslash).mpr ⟨h.whole, h.closed⟩]
      exact if_neg h.last_ne

/-- Any texts are the tokens of some text. -/
theorem exists_tokens_eq (hd : d ≠ '\\') (hdelimiter : isDelimiter d = true)
    (parts : List (List Char)) : ∃ s, tokens isDelimiter s = parts := by
  -- With a delimiter behind the last text, an empty token is left out, and no other one is.
  refine ⟨[d].intercalate (parts.map (escapedChars isDelimiter) ++ [[]]), ?_⟩
  have hspells : List.Forall₂ (Spells isDelimiter) (parts.map (escapedChars isDelimiter) ++ [[]])
      (parts ++ [[]]) := by
    refine List.rel_append ?_ (.cons (fun s => rfl) .nil)
    exact List.forall₂_map_left_iff.mpr (List.forall₂_same.mpr fun s _ => spells_escapedChars s)
  have hdrop : dropEmptyLast (parts ++ [[]]) = parts := by
    rw [dropEmptyLast, if_pos List.getLast?_concat, List.dropLast_concat]
  obtain ⟨first, others, hcons⟩ := List.exists_cons_of_ne_nil (List.concat_ne_nil [] parts)
  rw [hcons] at hspells hdrop
  obtain ⟨raw, raws, hraw, hraws, hmap⟩ := List.forall₂_cons_right_iff.mp hspells
  rw [hmap, tokens_eq_dropEmptyLast, splitTokens_intercalate hd hdelimiter hraw hraws]
  exact hdrop

end BundleWiring.Text
