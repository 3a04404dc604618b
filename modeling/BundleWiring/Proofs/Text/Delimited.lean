import BundleWiring.Text.Delimited
import Mathlib.Data.List.Basic
import Mathlib.Data.List.Forall2

/-!
# Tokens of Written Lists

Outside of quotes the tokens of a text are found character by character, and what was found so far
has no bearing on the rest. So a text stands for a token wherever it does so at the start of a text,
and texts with a delimiter between them stand for their tokens. This module proves:

- `spells_self`: characters without a meaning stand for themselves;
- `splitTokens_intercalate`: joined texts are cut where they were joined;
- `tokens_intercalate`: the tokens of a list whose last token is not empty.
-/

namespace BundleWiring.Text

variable {isDelimiter : Char → Bool} {c d : Char} {s raw token : List Char}

/-! ### Texts, character by character -/

/-- A character is no backslash if it neither ends the text as one nor escapes what follows. -/
theorem ne_backslash (hend : c = '\\' → s = [] → False)
    (hescape : ∀ e t, c = '\\' → s = e :: t → False) : c ≠ '\\' := by
  intro hc
  cases s with
  | nil => exact hend hc rfl
  | cons e t => exact hescape e t hc rfl

/-- Outside of quotes a delimiter ends a token. -/
theorem splitTokens_of_isDelimiter (hc : c ≠ '\\') (hd : isDelimiter c = true) (s : List Char) :
    splitTokens isDelimiter false (c :: s) =
      ([], (splitTokens isDelimiter false s).1 :: (splitTokens isDelimiter false s).2) := by
  rw [splitTokens.eq_4 isDelimiter false c s (fun h => absurd h hc) fun _ _ h => absurd h hc]
  simp [hd]

/-- A character that does not cut is added to the token, and a quote leads inside or outside. -/
theorem splitTokens_of_char {inside : Bool} (hc : c ≠ '\\')
    (hd : (!inside && isDelimiter c) = false) (s : List Char) :
    splitTokens isDelimiter inside (c :: s) =
      (splitTokens isDelimiter (inside != (c == '"')) s).map (c :: ·) id := by
  rw [splitTokens.eq_4 isDelimiter inside c s (fun h => absurd h hc) fun _ _ h => absurd h hc, hd]
  rfl

/-- Outside of quotes any other character belongs to the token. -/
theorem splitTokens_of_ne_quote (hc : c ≠ '\\') (hquote : c ≠ '"') (hd : isDelimiter c = false)
    (s : List Char) : splitTokens isDelimiter false (c :: s) =
      (splitTokens isDelimiter false s).map (c :: ·) id := by
  have hcut : (!false && isDelimiter c) = false := hd
  -- No quote opens, so the rest is outside of quotes as well.
  rw [splitTokens_of_char hc hcut, beq_eq_false_iff_ne.mpr hquote]
  rfl

/-! ### Texts that stand for tokens -/

/-- A text stands for a token: wherever it is met outside of quotes, it adds the token to what comes
after it. -/
def Spells (isDelimiter : Char → Bool) (raw token : List Char) : Prop :=
  ∀ s, splitTokens isDelimiter false (raw ++ s) =
    (splitTokens isDelimiter false s).map (token ++ ·) id

/-- Characters without a meaning stand for themselves. -/
theorem spells_self (h : ∀ c ∈ s, c ≠ '\\' ∧ c ≠ '"' ∧ isDelimiter c = false) :
    Spells isDelimiter s s := by
  induction s with
  | nil => exact fun t => rfl
  | cons c s ih =>
    obtain ⟨⟨hc, hquote, hd⟩, hs⟩ := List.forall_mem_cons.mp h
    intro t
    rw [List.cons_append, splitTokens_of_ne_quote hc hquote hd, ih hs t]
    rfl

/-- A spelled token is read as one. -/
theorem Spells.splitTokens_eq (h : Spells isDelimiter raw token) :
    splitTokens isDelimiter false raw = (token, []) := by
  have hraw := h []
  rw [List.append_nil] at hraw
  rw [hraw, splitTokens, Prod.map, List.append_nil]
  rfl

/-- Texts that stand for tokens, with a delimiter between them, are cut at the delimiters. -/
theorem splitTokens_intercalate {raws tokens : List (List Char)} (hd : d ≠ '\\')
    (hdelimiter : isDelimiter d = true) (hraw : Spells isDelimiter raw token)
    (hraws : List.Forall₂ (Spells isDelimiter) raws tokens) :
    splitTokens isDelimiter false ([d].intercalate (raw :: raws)) = (token, tokens) := by
  induction hraws generalizing raw token with
  | nil =>
    rw [List.intercalate_singleton]
    exact hraw.splitTokens_eq
  | cons hsecond hothers ih =>
    rw [List.intercalate_cons_cons, List.append_assoc, hraw, List.singleton_append,
      splitTokens_of_isDelimiter hd hdelimiter, ih hsecond, Prod.map, List.append_nil]
    rfl

/-- The tokens of texts that stand for tokens. An empty last token would be left out. -/
theorem tokens_intercalate {raws ts : List (List Char)} (hd : d ≠ '\\')
    (hdelimiter : isDelimiter d = true) (h : List.Forall₂ (Spells isDelimiter) raws ts)
    (hlast : ts.getLast? ≠ some []) : tokens isDelimiter ([d].intercalate raws) = ts := by
  cases h with
  | nil => rfl
  | cons hraw hraws =>
    rw [tokens, splitTokens_intercalate hd hdelimiter hraw hraws]
    exact if_neg hlast

end BundleWiring.Text
