import Mathlib.Tactic.SplitIfs
import TemplateEngine.Toml.Reader
import TemplateEngine.Toml.Writer

/-!
# Quoting — strings and keys are read as they were written

A written string is read back whatever form it was written in, as long as no quote follows it:
`readString_writeString`.  The one delicate place is a quote in a string of several lines, because three in a
row end it; `closing?_escapeFrom` and `closing?_literal` say when what follows a quote makes it the end.  For
keys see `readName_writeKey`.
-/

namespace TemplateEngine

namespace Toml

/-! ### What follows a string -/

/-- Whether a text starts with no quote of a kind. -/
def StartsApart (q : Char) (rest : Text) : Prop := rest.head? ≠ some q

theorem spareQuotes_of_startsApart {q : Char} {rest : Text} (h : StartsApart q rest) :
    spareQuotes q rest = ([], rest) := by
  match rest, h with
  | [], _ => rfl
  | [a], h =>
    have ha : a ≠ q := by simpa [StartsApart] using h
    simp [spareQuotes, ha]
  | a :: b :: t, h =>
    have ha : a ≠ q := by simpa [StartsApart] using h
    simp [spareQuotes, ha]

theorem spareQuotes_one {q : Char} {rest : Text} (h : StartsApart q rest) :
    spareQuotes q (q :: rest) = ([q], rest) := by
  cases rest with
  | nil => simp [spareQuotes]
  | cons a t =>
    have ha : a ≠ q := by simpa [StartsApart] using h
    simp [spareQuotes, ha]

theorem spareQuotes_two (q : Char) (rest : Text) :
    spareQuotes q (q :: q :: rest) = ([q, q], rest) := by
  simp [spareQuotes]

/-- A quote that two others follow is the end of a string. -/
theorem closing?_quotes (q : Char) (rest : Text) :
    closing? q (q :: q :: rest) = some (spareQuotes q rest) := by
  simp [closing?]

theorem closing?_of_startsApart {q : Char} {t : Text} (h : StartsApart q t) : closing? q t = none := by
  match t, h with
  | [], _ => rfl
  | [_], _ => rfl
  | a :: b :: t, h =>
    have ha : a ≠ q := by simpa [StartsApart] using h
    simp [closing?, ha]

theorem closing?_of_second {q : Char} {t : Text} (h : StartsApart q t) : closing? q (q :: t) = none := by
  cases t with
  | nil => rfl
  | cons c t =>
    have hc : c ≠ q := by simpa [StartsApart] using h
    simp [closing?, hc]

/-! ### Single quotes -/

theorem readLiteral_plain {c : Char} (hc : isPlain c = true) (hq : c ≠ '\'') (lines : Bool) (t : Text) :
    readLiteral lines (c :: t) = push c (readLiteral lines t) := by
  simp [readLiteral, hc, hq]

theorem readLiteral_break (t : Text) :
    readLiteral true ('\n' :: t) = push '\n' (readLiteral true t) := by
  simp [readLiteral, startsLine, newline?]

theorem readLiteral_quote (t : Text) :
    readLiteral true ('\'' :: t) = (closing? '\'' t).or (push '\'' (readLiteral true t)) := by
  simp [readLiteral]

theorem readLiteral_line {t : Text} (ht : fitsLiteral t = true) (rest : Text) :
    readLiteral false (t ++ '\'' :: rest) = some (t, rest) := by
  induction t with
  | nil => simp [readLiteral]
  | cons c t ih =>
    simp only [fitsLiteral, List.all_cons, Bool.and_eq_true, decide_eq_true_eq, ne_eq] at ht ih
    rw [List.cons_append, readLiteral_plain ht.1.1 ht.1.2, ih (by simpa using ht.2)]
    rfl

/-- Where a single quote ends a string of several lines: two of the closing ones follow, and the text of the
string ended before them. -/
theorem closing?_literal {t : Text} {n : Nat} (ht : atMostTwo '\'' (n + 1) t = true) (hn : n < 2)
    {rest : Text} (hrest : StartsApart '\'' rest) :
    closing? '\'' (t ++ '\'' :: '\'' :: '\'' :: rest) = none ∨
      closing? '\'' (t ++ '\'' :: '\'' :: '\'' :: rest) = some ('\'' :: t, rest) := by
  match t with
  | [] => exact .inr (by rw [List.nil_append, closing?_quotes, spareQuotes_one hrest])
  | c :: t =>
    by_cases hc : c = '\''
    · subst hc
      match t with
      | [] => exact .inr (by
          rw [List.cons_append, List.nil_append, closing?_quotes, spareQuotes_two])
      | d :: t =>
        have hd : d ≠ '\'' := by
          rintro rfl
          simp only [atMostTwo, if_true, Bool.and_eq_true, decide_eq_true_eq] at ht
          omega
        exact .inl (closing?_of_second (by simpa [StartsApart] using hd))
    · exact .inl (closing?_of_startsApart (by simpa [StartsApart] using hc))

theorem readLiteral_lines {t : Text} {n : Nat} (hplain : ∀ c ∈ t, isPlain c = true ∨ c = '\n')
    (ht : atMostTwo '\'' n t = true) {rest : Text} (hrest : StartsApart '\'' rest) :
    readLiteral true (t ++ '\'' :: '\'' :: '\'' :: rest) = some (t, rest) := by
  induction t generalizing n with
  | nil =>
    rw [List.nil_append, readLiteral_quote, closing?_quotes, spareQuotes_of_startsApart hrest]
    rfl
  | cons c t ih =>
    have hmem : ∀ d ∈ t, isPlain d = true ∨ d = '\n' := fun d hd => hplain d (by simp [hd])
    by_cases hc : c = '\''
    · subst hc
      simp only [atMostTwo, if_true, Bool.and_eq_true, decide_eq_true_eq] at ht
      rw [List.cons_append, readLiteral_quote, ih hmem ht.2]
      rcases closing?_literal ht.2 ht.1 hrest with h | h
      · rw [h]
        rfl
      · rw [h]
        rfl
    · rw [atMostTwo, if_neg hc] at ht
      rcases hplain c (by simp) with h | rfl
      · rw [List.cons_append, readLiteral_plain h hc, ih hmem ht]
        rfl
      · rw [List.cons_append, readLiteral_break, ih hmem ht]
        rfl

/-! ### Double quotes -/

section Quoted

variable {lines : Bool} {t : Text} {c : Char}

attribute [local simp] readQuoted Reading.settle

theorem readQuoted_plain (hc : isPlain c = true) (hq : c ≠ '"') (hb : c ≠ '\\') :
    readQuoted lines .text (c :: t) = push c (readQuoted lines .text t) := by
  simp [hc, hq, hb]

theorem readQuoted_break : readQuoted true .text ('\n' :: t) = push '\n' (readQuoted true .text t) := by
  simp [startsLine, newline?]

theorem readQuoted_quote :
    readQuoted true .text ('"' :: t) = (closing? '"' t).or (push '"' (readQuoted true .text t)) := by
  simp

theorem readQuoted_end : readQuoted false .text ('"' :: t) = some ([], t) := by
  simp

/-- A backslash and a letter that stands for a character. -/
theorem readQuoted_escaped {d : Char} (hd : escaped? d = some c)
    (hspace : (isBlank d || d = '\n' || d = '\r') = false) :
    readQuoted lines .text ('\\' :: d :: t) = push c (readQuoted lines .text t) := by
  have hsettle : Reading.settle lines d .escape = .escape := by
    simp only [Reading.settle, hspace, Bool.and_false, Bool.false_eq_true, if_false]
  simp only [readQuoted, Reading.settle, if_true, Char.reduceEq, if_false]
  rw [show (if (lines && (isBlank d || decide (d = '\n') || decide (d = '\r'))) = true then
    Reading.joining false else Reading.escape) = .escape from hsettle]
  simp only [hd]

theorem readQuoted_digit {missing value d : Nat} (hd : digit? 16 c = some d) (hmissing : 1 < missing) :
    readQuoted lines (.code missing value) (c :: t) =
      readQuoted lines (.code (missing - 1) (16 * value + d)) t := by
  have : ¬missing ≤ 1 := by omega
  simp [hd, this]

theorem readQuoted_lastDigit {value d : Nat} {e : Char} (hd : digit? 16 c = some d)
    (he : scalar? (16 * value + d) = some e) :
    readQuoted lines (.code 1 value) (c :: t) = push e (readQuoted lines .text t) := by
  simp [hd, he]

theorem readQuoted_announce :
    readQuoted lines .text ('\\' :: 'u' :: t) = readQuoted lines (.code 4 0) t := by
  simp [escaped?, codeLength?, isBlank]

end Quoted

theorem digit?_toUpper_digitChar : ∀ d < 16, digit? 16 (Nat.digitChar d).toUpper = some d := by decide

/-- The code point of a control character, in four digits. -/
theorem readQuoted_code {c : Char} (hc : c.toNat < 256) (lines : Bool) (t : Text) :
    readQuoted lines .text (['\\', 'u', '0', '0'] ++ hexPair c.toNat ++ t) =
      push c (readQuoted lines .text t) := by
  have hzero : digit? 16 '0' = some 0 := by decide
  have hhigh := digit?_toUpper_digitChar (c.toNat / 16) (by omega)
  have hlow := digit?_toUpper_digitChar (c.toNat % 16) (by omega)
  have hscalar : scalar? (16 * (16 * (16 * (16 * 0 + 0) + 0) + c.toNat / 16) + c.toNat % 16) = some c := by
    have hvalid : c.toNat.isValidChar := c.valid
    rw [show 16 * (16 * (16 * (16 * 0 + 0) + 0) + c.toNat / 16) + c.toNat % 16 = c.toNat by omega,
      scalar?, if_pos hvalid, Char.ofNat_toNat]
  simp only [hexPair, List.map_cons, List.map_nil, List.cons_append, List.nil_append]
  rw [readQuoted_announce, readQuoted_digit hzero (by decide), readQuoted_digit hzero (by decide),
    readQuoted_digit hhigh (by decide)]
  exact readQuoted_lastDigit hlow hscalar

theorem toNat_lt_of_not_isPlain {c : Char} (h : isPlain c = false) : c.toNat < 256 := by
  simp only [isPlain, Bool.or_eq_false_iff, Bool.and_eq_false_iff, decide_eq_false_iff_not] at h
  omega

theorem readQuoted_escapeChar {c : Char} (hc : c ≠ '"') (lines : Bool) (t : Text) :
    readQuoted lines .text (escapeChar lines c ++ t) = push c (readQuoted lines .text t) := by
  unfold escapeChar
  split
  next h =>
    subst h
    cases lines with
    | true => exact readQuoted_break
    | false => exact readQuoted_escaped rfl rfl
  split
  next h => subst h; exact readQuoted_escaped rfl rfl
  next hback =>
    split
    next h => subst h; exact readQuoted_escaped rfl rfl
    split
    next h => subst h; exact readQuoted_escaped rfl rfl
    split
    next h => subst h; exact readQuoted_escaped rfl rfl
    split
    next h => subst h; exact readQuoted_escaped rfl rfl
    split
    next h => exact readQuoted_plain h hc hback
    next h => exact readQuoted_code (toNat_lt_of_not_isPlain (by simpa using h)) lines t

theorem escapeFrom_cons_of_ne {lines : Bool} {n : Nat} {c : Char} (hc : c ≠ '"') (t : Text) :
    escapeFrom lines n (c :: t) = escapeChar lines c ++ escapeFrom lines 0 t := by
  rw [escapeFrom, if_neg hc]

theorem readQuoted_line (t : Text) (n : Nat) (rest : Text) :
    readQuoted false .text (escapeFrom false n t ++ '"' :: rest) = some (t, rest) := by
  induction t generalizing n with
  | nil => exact readQuoted_end
  | cons c t ih =>
    by_cases hc : c = '"'
    · subst hc
      rw [show escapeFrom false n ('"' :: t) = '\\' :: '"' :: escapeFrom false 0 t from by simp [escapeFrom],
        List.cons_append, List.cons_append, readQuoted_escaped rfl rfl, ih]
      rfl
    · rw [escapeFrom_cons_of_ne hc, List.append_assoc, readQuoted_escapeChar hc, ih]
      rfl

/-- An escaped character starts with no quote. -/
theorem startsApart_escapeChar {lines : Bool} {c : Char} (hc : c ≠ '"') (t : Text) :
    StartsApart '"' (escapeChar lines c ++ t) := by
  unfold escapeChar StartsApart
  split_ifs <;> simp_all

/-- Where a quote ends a string of several lines. -/
theorem closing?_escapeFrom {t : Text} {n : Nat} (hn : n < 2) {rest : Text} (hrest : StartsApart '"' rest) :
    closing? '"' (escapeFrom true (n + 1) t ++ '"' :: '"' :: '"' :: rest) = none ∨
      closing? '"' (escapeFrom true (n + 1) t ++ '"' :: '"' :: '"' :: rest) = some ('"' :: t, rest) := by
  have hthird : ∀ t, escapeFrom true 2 ('"' :: t) = '\\' :: '"' :: escapeFrom true 0 t := fun t => rfl
  have hother : ∀ {n c t}, c ≠ '"' → StartsApart '"' (escapeFrom true n (c :: t) ++ '"' :: '"' :: '"' :: rest) :=
    fun hc => by
      rw [escapeFrom_cons_of_ne hc, List.append_assoc]
      exact startsApart_escapeChar hc _
  match t with
  | [] => exact .inr (by rw [escapeFrom, List.nil_append, closing?_quotes, spareQuotes_one hrest])
  | c :: t =>
    by_cases hc : c = '"'
    · subst hc
      rcases (by omega : n = 0 ∨ n = 1) with rfl | rfl
      · -- the second quote in a row is written as it is
        rw [show escapeFrom true (0 + 1) ('"' :: t) = '"' :: escapeFrom true 2 t from rfl, List.cons_append]
        match t with
        | [] => exact .inr (by rw [escapeFrom, List.nil_append, closing?_quotes, spareQuotes_two])
        | d :: t =>
          left
          by_cases hd : d = '"'
          · subst hd
            rw [hthird]
            exact closing?_of_second (by simp [StartsApart])
          · exact closing?_of_second (hother hd)
      · left
        rw [show escapeFrom true (1 + 1) ('"' :: t) = _ from hthird t]
        exact closing?_of_startsApart (by simp [StartsApart])
    · exact .inl (closing?_of_startsApart (hother hc))

theorem readQuoted_lines (t : Text) {n : Nat} (hn : n ≤ 2) {rest : Text} (hrest : StartsApart '"' rest) :
    readQuoted true .text (escapeFrom true n t ++ '"' :: '"' :: '"' :: rest) = some (t, rest) := by
  induction t generalizing n with
  | nil =>
    rw [escapeFrom, List.nil_append, readQuoted_quote, closing?_quotes, spareQuotes_of_startsApart hrest]
    rfl
  | cons c t ih =>
    by_cases hc : c = '"'
    · subst hc
      rcases (by omega : n < 2 ∨ n = 2) with hlt | rfl
      · have hne : (n != 2) = true := by simpa using Nat.ne_of_lt hlt
        rw [show escapeFrom true n ('"' :: t) = '"' :: escapeFrom true (n + 1) t from by
          simp [escapeFrom, hne], List.cons_append, readQuoted_quote, ih (by omega)]
        rcases closing?_escapeFrom (t := t) hlt hrest with h | h
        · rw [h]
          rfl
        · rw [h]
          rfl
      · rw [show escapeFrom true 2 ('"' :: t) = '\\' :: '"' :: escapeFrom true 0 t from rfl,
          List.cons_append, List.cons_append, readQuoted_escaped rfl rfl, ih (by decide)]
        rfl
    · rw [escapeFrom_cons_of_ne hc, List.append_assoc, readQuoted_escapeChar hc, ih (by decide)]
      rfl

/-! ### Strings -/

theorem opening_of_startsApart {q : Char} {t : Text} (h : StartsApart q t) : opening q t = (false, t) := by
  match t, h with
  | [], _ => rfl
  | [_], _ => rfl
  | a :: b :: t, h =>
    have ha : a ≠ q := by simpa [StartsApart] using h
    simp [opening, ha]

theorem opening_empty {q : Char} {rest : Text} (h : StartsApart q rest) :
    opening q (q :: rest) = (false, q :: rest) := by
  cases rest with
  | nil => rfl
  | cons a t =>
    have ha : a ≠ q := by simpa [StartsApart] using h
    simp [opening, ha]

/-- After three quotes, where the string starts. -/
theorem opening_lines (q : Char) (t : Text) :
    opening q (q :: q :: t) = (true, (newline? t).getD t) := by
  simp [opening]

/-- No line break is read off a text that does not start with one. -/
theorem newline?_of_head {t : Text} (hn : t.head? ≠ some '\n') (hr : t.head? ≠ some '\r') :
    newline? t = none := by
  cases t with
  | nil => rfl
  | cons c t =>
    have hn' : c ≠ '\n' := by simpa using hn
    have hr' : c ≠ '\r' := by simpa using hr
    simp [newline?, hn', hr']

/-- A text that starts neither with a line break nor with a carriage return. -/
def StartsInLine (t : Text) : Prop := t.head? ≠ some '\n' ∧ t.head? ≠ some '\r'

theorem startsInLine_of_isPlain {c : Char} (hc : isPlain c = true) (t : Text) : StartsInLine (c :: t) := by
  constructor
  · rintro h
    obtain rfl : c = '\n' := by simpa using h
    cases hc
  · rintro h
    obtain rfl : c = '\r' := by simpa using h
    cases hc

theorem startsInLine_escapeChar {c : Char} (hc : c ≠ '\n') (t : Text) :
    StartsInLine (escapeChar true c ++ t) := by
  unfold escapeChar
  rw [if_neg hc]
  split_ifs with _ _ _ _ _ hplain
  · exact ⟨by simp, by simp⟩
  · exact ⟨by simp, by simp⟩
  · exact ⟨by simp, by simp⟩
  · exact ⟨by simp, by simp⟩
  · exact ⟨by simp, by simp⟩
  · exact startsInLine_of_isPlain hplain t
  · exact ⟨by simp, by simp⟩

/-- The line break that is written after three quotes is left out again. -/
theorem opening_surround {q : Char} {t written rest : Text}
    (hwritten : '\n' ∉ t → StartsInLine (written ++ q :: q :: q :: rest)) :
    ∃ u, surround q true t written ++ rest = q :: q :: q :: u ∧
      opening q (q :: q :: u) = (true, written ++ q :: q :: q :: rest) := by
  by_cases hbreak : '\n' ∈ t
  · refine ⟨'\n' :: (written ++ q :: q :: q :: rest), by simp [surround, hbreak], ?_⟩
    rw [opening_lines]
    rfl
  · refine ⟨written ++ q :: q :: q :: rest, by simp [surround, hbreak], ?_⟩
    rw [opening_lines, newline?_of_head (hwritten hbreak).1 (hwritten hbreak).2]
    rfl

section Strings

variable {t rest : Text}

theorem readString_quotedLine (hrest : StartsApart '"' rest) :
    readString (writeQuoted false t ++ rest) = some (t, rest) := by
  have hopen : opening '"' (escapeFrom false 0 t ++ '"' :: rest) =
      (false, escapeFrom false 0 t ++ '"' :: rest) := by
    cases t with
    | nil => exact opening_empty hrest
    | cons c t =>
      by_cases hc : c = '"'
      · subst hc
        exact opening_of_startsApart (by simp [StartsApart, escapeFrom])
      · rw [escapeFrom_cons_of_ne hc, List.append_assoc]
        exact opening_of_startsApart (startsApart_escapeChar hc _)
  rw [show writeQuoted false t ++ rest = '"' :: (escapeFrom false 0 t ++ '"' :: rest) from by
    simp [writeQuoted, surround], readString, if_pos rfl, hopen]
  exact readQuoted_line t 0 rest

theorem readString_quotedLines (hrest : StartsApart '"' rest) :
    readString (writeQuoted true t ++ rest) = some (t, rest) := by
  have hhead : '\n' ∉ t → StartsInLine (escapeFrom true 0 t ++ '"' :: '"' :: '"' :: rest) := by
    intro hbreak
    cases t with
    | nil => exact startsInLine_of_isPlain rfl _
    | cons c t =>
      by_cases hc : c = '"'
      · subst hc
        exact startsInLine_of_isPlain rfl _
      · rw [escapeFrom_cons_of_ne hc, List.append_assoc]
        exact startsInLine_escapeChar (fun h => hbreak (h ▸ List.mem_cons_self)) _
  obtain ⟨u, hu, hopen⟩ := opening_surround hhead
  rw [writeQuoted, hu, readString, if_pos rfl, hopen]
  exact readQuoted_lines t (Nat.zero_le _) hrest

theorem readString_literalLine (ht : fitsLiteral t = true) (hrest : StartsApart '\'' rest) :
    readString (writeLiteral false t ++ rest) = some (t, rest) := by
  have hopen : opening '\'' (t ++ '\'' :: rest) = (false, t ++ '\'' :: rest) := by
    cases t with
    | nil => exact opening_empty hrest
    | cons c t =>
      simp only [fitsLiteral, List.all_cons, Bool.and_eq_true, decide_eq_true_eq, ne_eq] at ht
      exact opening_of_startsApart (by simpa [StartsApart] using ht.1.2)
  rw [show writeLiteral false t ++ rest = '\'' :: (t ++ '\'' :: rest) from by
    simp [writeLiteral, surround], readString, if_neg (by decide), if_pos rfl, hopen]
  exact readLiteral_line ht rest

theorem readString_literalLines (hplain : ∀ c ∈ t, isPlain c = true ∨ c = '\n')
    (ht : atMostTwo '\'' 0 t = true) (hrest : StartsApart '\'' rest) :
    readString (writeLiteral true t ++ rest) = some (t, rest) := by
  have hhead : '\n' ∉ t → StartsInLine (t ++ '\'' :: '\'' :: '\'' :: rest) := by
    intro hbreak
    cases t with
    | nil => exact startsInLine_of_isPlain rfl _
    | cons c t =>
      have hc : c ≠ '\n' := fun h => hbreak (h ▸ List.mem_cons_self)
      exact startsInLine_of_isPlain ((hplain c (by simp)).resolve_right hc) _
  obtain ⟨u, hu, hopen⟩ := opening_surround hhead
  rw [writeLiteral, hu, readString, if_neg (by decide), if_pos rfl, hopen]
  exact readLiteral_lines hplain ht hrest

/-- A string is read as it was written, in whatever form. -/
theorem readString_writeString (hquote : StartsApart '"' rest) (hsingle : StartsApart '\'' rest) :
    readString (writeString t ++ rest) = some (t, rest) := by
  unfold writeString
  split_ifs with _ hliteral _ hlines
  · exact readString_quotedLine hquote
  · exact readString_literalLine hliteral hsingle
  · exact readString_quotedLines hquote
  · rw [Bool.and_eq_true] at hlines
    exact readString_literalLines (by simpa using hlines.1) hlines.2 hsingle
  · cases decide ('\n' ∈ t) with
    | false => exact readString_quotedLine hquote
    | true => exact readString_quotedLines hquote

end Strings

/-! ### Keys -/

theorem ne_quote_of_isKeyChar {c : Char} (h : isKeyChar c = true) : c ≠ '"' ∧ c ≠ '\'' := by
  constructor <;> (rintro rfl; revert h; decide)

/-- A key without quotes ends where a character stands that it cannot be made of. -/
theorem readName_bare {t rest : Text} (hne : t ≠ []) (ht : t.all isKeyChar = true)
    (hrest : ∀ c ∈ rest.head?, isKeyChar c = false) :
    readName (t ++ rest) = some (String.ofList t, rest) := by
  have htake : rest.takeWhile isKeyChar = [] ∧ rest.dropWhile isKeyChar = rest := by
    cases rest with
    | nil => exact ⟨rfl, rfl⟩
    | cons c rest => simp [hrest c (by simp)]
  have hall : ∀ c ∈ t, isKeyChar c = true := by simpa using ht
  obtain ⟨c, u, rfl⟩ := List.exists_cons_of_ne_nil hne
  obtain ⟨hquote, hsingle⟩ := ne_quote_of_isKeyChar (hall c (by simp))
  rw [readName.eq_def, List.cons_append]
  simp only [hquote, hsingle, if_false]
  rw [← List.cons_append, List.takeWhile_append_of_pos hall, List.dropWhile_append_of_pos hall, htake.1,
    htake.2]
  simp

theorem readName_writeKey {t rest : Text} (hrest : ∀ c ∈ rest.head?, isKeyChar c = false) :
    readName (writeKey t ++ rest) = some (String.ofList t, rest) := by
  have hquoted : readName (writeQuoted false t ++ rest) = some (String.ofList t, rest) := by
    rw [show writeQuoted false t ++ rest = '"' :: (escapeFrom false 0 t ++ '"' :: rest) from by
      simp [writeQuoted, surround], readName, if_pos rfl, readQuoted_line t 0 rest]
    rfl
  unfold writeKey
  split_ifs with hbare _ hliteral
  · simp only [Bool.and_eq_true, Bool.not_eq_true', List.isEmpty_eq_false_iff] at hbare
    exact readName_bare hbare.1 hbare.2 hrest
  · exact hquoted
  · rw [show writeLiteral false t ++ rest = '\'' :: (t ++ '\'' :: rest) from by
      simp [writeLiteral, surround], readName, if_neg (by decide), if_pos rfl,
      readLiteral_line hliteral rest]
    rfl
  · exact hquoted

end Toml

end TemplateEngine
