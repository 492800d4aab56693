import Mathlib.Data.List.Infix
import Mathlib.Tactic.Common

/-!
# The `LIKE` operator

SQLite's `LIKE` with its default rules and an escape character: `%` matches any
sequence, `_` any one character, and ASCII letters match without case.

Main results:

- Theorem `tokens_escape`: an escaped text is read as its own characters.
- Theorem `like_escape_prefix`: an escaped text followed by `%` matches what begins with
  the text, up to ASCII case.
-/

namespace Like

/-! ## Patterns -/

/-- A pattern once its escapes are resolved. -/
inductive Token where
  | char (c : Char)
  | one
  | seq
  /-- An escape character with nothing behind it matches nothing. -/
  | never
deriving DecidableEq, Repr

/-- Read a pattern. -/
def tokens (esc : Char) : List Char → List Token
  | [] => []
  | c :: rest =>
      if c = esc then
        match rest with
        | [] => [.never]
        | d :: rest => .char d :: tokens esc rest
      else if c = '%' then .seq :: tokens esc rest
      else if c = '_' then .one :: tokens esc rest
      else .char c :: tokens esc rest

/-- Two characters match when they are equal up to the case of ASCII letters. -/
def sameLetter (c d : Char) : Bool :=
  c.toLower == d.toLower

/-- Match a text against the tokens of a pattern. -/
def matchTokens : List Token → List Char → Bool
  | [], text => text.isEmpty
  | .char _ :: _, [] => false
  | .char c :: ts, d :: text => sameLetter c d && matchTokens ts text
  | .one :: _, [] => false
  | .one :: ts, _ :: text => matchTokens ts text
  | .seq :: ts, text => text.tails.any (matchTokens ts)
  | .never :: _, _ => false

/-- `text LIKE pattern ESCAPE esc`. -/
def like (text pattern : String) (esc : Char) : Bool :=
  matchTokens (tokens esc pattern.toList) text.toList

/-! ## Escaping -/

/-- A character as a pattern that matches it. -/
def escapeChar (esc c : Char) : List Char :=
  if c = esc ∨ c = '%' ∨ c = '_' then [esc, c] else [c]

/-- A character that needs no escape is read as itself. -/
theorem tokens_plain {esc c : Char} (hesc : c ≠ esc) (hseq : c ≠ '%') (hone : c ≠ '_')
    (rest : List Char) : tokens esc (c :: rest) = .char c :: tokens esc rest := by
  cases rest <;> simp [tokens, hesc, hseq, hone]

/-- An escaped text is read as its own characters. -/
theorem tokens_escape (esc : Char) (text rest : List Char) :
    tokens esc (text.flatMap (escapeChar esc) ++ rest) =
      text.map Token.char ++ tokens esc rest := by
  induction text with
  | nil => rfl
  | cons c text ih =>
      rw [List.flatMap_cons, List.append_assoc, List.map_cons, List.cons_append, ← ih]
      by_cases hc : c = esc ∨ c = '%' ∨ c = '_'
      · simp [escapeChar, hc, tokens]
      · have hplain := not_or.mp hc
        have hwild := not_or.mp hplain.2
        rw [escapeChar, if_neg hc, List.singleton_append, tokens_plain hplain.1 hwild.1 hwild.2]

/-- Characters match the texts that begin with them, up to ASCII case. -/
theorem matchTokens_chars (cs : List Char) (ts : List Token) (text : List Char) :
    matchTokens (cs.map Token.char ++ ts) text = true ↔
      (text.take cs.length).map Char.toLower = cs.map Char.toLower ∧
        matchTokens ts (text.drop cs.length) = true := by
  induction cs generalizing text with
  | nil => simp
  | cons c cs ih =>
      cases text with
      | nil => simp [matchTokens]
      | cons d text =>
          simp only [List.map_cons, List.cons_append, matchTokens, Bool.and_eq_true, ih,
            List.length_cons, List.take_succ_cons, List.drop_succ_cons, List.cons.injEq,
            sameLetter, beq_iff_eq]
          constructor
          · intro h
            exact ⟨⟨h.1.symm, h.2.1⟩, h.2.2⟩
          · intro h
            exact ⟨h.1.1.symm, h.1.2, h.2⟩

/-- Any sequence matches every text. -/
theorem matchTokens_seq (text : List Char) : matchTokens [.seq] text = true := by
  have hnil : ([] : List Char) ∈ text.tails := (List.mem_tails _ _).mpr List.nil_suffix
  simp only [matchTokens, List.any_eq_true]
  exact ⟨[], hnil, rfl⟩

/-- Characters that need no escape are read as themselves. -/
theorem flatMap_escapeChar_of_plain {esc : Char} {cs : List Char}
    (hplain : ∀ c ∈ cs, c ≠ esc ∧ c ≠ '%' ∧ c ≠ '_') : cs.flatMap (escapeChar esc) = cs := by
  induction cs with
  | nil => rfl
  | cons c cs ih =>
      have hc := hplain c List.mem_cons_self
      have hrest := ih fun d hd => hplain d (List.mem_cons_of_mem c hd)
      rw [List.flatMap_cons, hrest]
      simp [escapeChar, hc]

/-- An escaped text followed by `%` matches what begins with the text, up to ASCII
case. -/
theorem like_escape_prefix {esc : Char} (hesc : '%' ≠ esc) {pattern : String}
    {start : List Char} (hpattern : pattern.toList = start.flatMap (escapeChar esc) ++ ['%'])
    (text : String) :
    like text pattern esc = true ↔
      (text.toList.take start.length).map Char.toLower = start.map Char.toLower := by
  have htokens : tokens esc pattern.toList = start.map Token.char ++ [.seq] := by
    rw [hpattern, tokens_escape]
    simp [tokens, hesc]
  rw [like, htokens, matchTokens_chars]
  simp [matchTokens_seq]

end Like
