import Mathlib.Computability.Language
import TemplateEngine.Proofs.Prefixes

/-!
# Lexemes — the lexer covers its input

The patterns of the lexical level as languages, tokens and what is skipped alike.  An input is cut into gaps and
tokens up to its end, or up to a place where nothing matches (`Tiles`); each token is the longest match of any
pattern at its place.  A pattern is known by its first character, so the longest match is found by comparing the
matches of one pattern only.

A string with a doubled quote starts with a string that ends at the first of the two.  The lexer does not go back
to it when the longer one is not closed, so at the place of an error a string can match, but only one that the
quote behind it continues.
-/

namespace TemplateEngine

open Computability

/-! ### Patterns -/

/-- The texts of one character of a class. -/
def oneOf (p : Char → Bool) : Language Char := {t | ∃ c, p c = true ∧ t = [c]}

/-- The texts between two quotes in which the quote itself is doubled. -/
def stringBetween (q : Char) : Language Char := {[q]} * (oneOf (· ≠ q) + {[q, q]})∗ * {[q]}

/-- The kinds of texts that an input is cut into. -/
inductive Lexeme where
  | blanks
  | comment
  | token (kind : TokenKind)
  deriving DecidableEq

/-- The texts of a kind. -/
def Lexeme.pattern : Lexeme → Language Char
  | .blanks => oneOf Token.isSpace * (oneOf Token.isSpace)∗
  | .comment => oneOf (· = '#') * (oneOf (· ≠ '\n'))∗
  | .token .openParen => {['(']}
  | .token .closeParen => {[')']}
  | .token .identifier => oneOf Token.isIdentifierStart * (oneOf Token.isIdentifierPart)∗
  | .token .singleQuoted => stringBetween '\''
  | .token .doubleQuoted => stringBetween '"'

/-- Whether `text`, which stands before `after`, is the longest text of a language that stands there. -/
def IsLongestIn (L : Language Char) (text after : Text) : Prop :=
  text ∈ L ∧ ∀ m ∈ L, m <+: text ++ after → m.length ≤ text.length

/-- Whether `text` is of a kind and no text of any kind that stands at its place is longer. -/
def IsLongestMatch (l : Lexeme) (text after : Text) : Prop :=
  text ∈ l.pattern ∧ ∀ l' : Lexeme, ∀ m ∈ l'.pattern, m <+: text ++ after → m.length ≤ text.length

/-- Whether no text of any kind stands where `c` does, but strings that the quote behind them continues. -/
def NothingEndsAt (c : Char) (after : Text) : Prop :=
  ∀ l : Lexeme, ∀ m ∈ l.pattern, m <+: c :: after → (c = '\'' ∨ c = '"') ∧ m ++ [c] <+: c :: after

theorem mem_singleton_language {t u : Text} : t ∈ ({u} : Language Char) ↔ t = u := Iff.rfl

theorem mem_oneOf_kstar {p : Char → Bool} {t : Text} : t ∈ (oneOf p)∗ ↔ ∀ c ∈ t, p c = true := by
  constructor
  · rintro ⟨L, rfl, hL⟩ c hc
    obtain ⟨w, hw, hcw⟩ := List.mem_flatten.1 hc
    obtain ⟨d, hd, rfl⟩ := hL w hw
    rw [List.mem_singleton.1 hcw]
    exact hd
  · intro h
    refine Language.mem_kstar.2 ⟨t.map fun c => [c], (List.flatMap_singleton' t).symm, fun y hy => ?_⟩
    obtain ⟨c, hc, rfl⟩ := List.mem_map.1 hy
    exact ⟨c, h c hc, rfl⟩

theorem mem_run {p q : Char → Bool} {t : Text} :
    t ∈ oneOf p * (oneOf q)∗ ↔ ∃ c s, t = c :: s ∧ p c = true ∧ ∀ d ∈ s, q d = true := by
  simp only [Language.mem_mul, mem_oneOf_kstar]
  constructor
  · rintro ⟨_, ⟨c, hc, rfl⟩, s, hs, rfl⟩
    exact ⟨c, s, rfl, hc, hs⟩
  · rintro ⟨c, s, rfl, hc, hs⟩
    exact ⟨[c], ⟨c, hc, rfl⟩, s, hs, rfl⟩

theorem mem_quoted_kstar {q : Char} {t : Text} :
    t ∈ (oneOf (· ≠ q) + {[q, q]})∗ ↔ ∃ s, t = escapeQuotes q s := by
  constructor
  · rintro ⟨L, rfl, hL⟩
    induction L with
    | nil => exact ⟨[], rfl⟩
    | cons w L ih =>
      obtain ⟨s, hs⟩ := ih fun y hy => hL y (List.mem_cons_of_mem w hy)
      rw [List.flatten_cons, hs]
      rcases hL w List.mem_cons_self with ⟨c, hc, rfl⟩ | hw
      · exact ⟨c :: s, by rw [escapeQuotes_cons, if_neg (by simpa using hc)]⟩
      · obtain rfl := mem_singleton_language.1 hw
        exact ⟨q :: s, by rw [escapeQuotes_cons, if_pos rfl]⟩
  · rintro ⟨s, rfl⟩
    refine Language.mem_kstar.2 ⟨s.map fun c => if c = q then [q, q] else [c], rfl, fun y hy => ?_⟩
    obtain ⟨c, -, rfl⟩ := List.mem_map.1 hy
    by_cases hc : c = q
    · rw [if_pos hc]
      exact .inr rfl
    · rw [if_neg hc]
      exact .inl ⟨c, by simpa using hc, rfl⟩

theorem mem_stringBetween {q : Char} {t : Text} :
    t ∈ stringBetween q ↔ ∃ s, t = q :: (escapeQuotes q s ++ [q]) := by
  simp only [stringBetween, Language.mem_mul, mem_quoted_kstar, mem_singleton_language]
  constructor
  · rintro ⟨_, ⟨_, rfl, _, ⟨s, rfl⟩, rfl⟩, _, rfl, rfl⟩
    exact ⟨s, rfl⟩
  · rintro ⟨s, rfl⟩
    exact ⟨[q] ++ escapeQuotes q s, ⟨[q], rfl, _, ⟨s, rfl⟩, rfl⟩, [q], rfl, rfl⟩

/-! ### The longest text of one pattern -/

theorem length_le_takeWhile {p : Char → Bool} {s t : Text} (h : s <+: t)
    (hs : ∀ d ∈ s, p d = true) : s.length ≤ (t.takeWhile p).length := by
  obtain ⟨z, rfl⟩ := h
  rw [List.takeWhile_append_of_pos hs, List.length_append]
  exact Nat.le_add_right _ _

/-- A run of a class is the longest. -/
theorem isLongestIn_run {p q : Char → Bool} {c : Char} (hc : p c = true) (t : Text) :
    IsLongestIn (oneOf p * (oneOf q)∗) (c :: t.takeWhile q) (t.dropWhile q) := by
  refine ⟨mem_run.2 ⟨c, _, rfl, hc, fun d hd => List.mem_takeWhile_imp hd⟩, fun m hm hfront => ?_⟩
  obtain ⟨d, s, rfl, -, hs⟩ := mem_run.1 hm
  rw [List.cons_append, List.takeWhile_append_dropWhile, List.cons_prefix_cons] at hfront
  exact Nat.succ_le_succ (length_le_takeWhile hfront.2 hs)

theorem isLongestIn_singleton (u after : Text) : IsLongestIn {u} u after :=
  ⟨rfl, fun _ hm _ => (mem_singleton_language.1 hm ▸ Nat.le_refl _)⟩

/-- What is written between quotes closes no string. -/
theorem closeString_escapeQuotes_append (q : Char) (s : List Char) (u : Text) :
    Token.closeString q (escapeQuotes q s ++ u) =
      (Token.closeString q u).map fun p => (escapeQuotes q s ++ p.1, p.2) := by
  induction s with
  | nil => simp
  | cons c s ih =>
    rw [escapeQuotes_cons]
    by_cases hc : c = q
    · subst hc
      simp [Token.closeString, ih, Function.comp_def]
    · rw [if_neg hc, List.append_assoc, List.singleton_append]
      cases hbehind : escapeQuotes q s ++ u with
      | nil =>
        obtain ⟨hs, rfl⟩ := List.append_eq_nil_iff.1 hbehind
        simp [Token.closeString, hc]
      | cons d t =>
        rw [Token.closeString, if_neg hc, ← hbehind, ih, Option.map_map]
        rfl

theorem exists_of_closeString {q : Char} {t a b : Text} (h : Token.closeString q t = some (a, b)) :
    ∃ s, a = escapeQuotes q s ++ [q] := by
  fun_induction Token.closeString q t generalizing a b with
  | case1 => cases h
  | case2 =>
    cases h
    exact ⟨[], rfl⟩
  | case3 => cases h
  | case4 t ih =>
    obtain ⟨p, hp, he⟩ := Option.map_eq_some_iff.1 h
    obtain ⟨s, hs⟩ := ih hp
    cases he
    exact ⟨q :: s, by rw [escapeQuotes_cons, if_pos rfl, hs]; rfl⟩
  | case5 d t hd =>
    cases h
    exact ⟨[], rfl⟩
  | case6 c d t hc ih =>
    obtain ⟨p, hp, he⟩ := Option.map_eq_some_iff.1 h
    obtain ⟨s, hs⟩ := ih hp
    cases he
    exact ⟨c :: s, by rw [escapeQuotes_cons, if_neg hc, hs]; rfl⟩

/-- A string that is closed ends at the last quote that can close it: a string that ends earlier is continued by
the quote behind it. -/
theorem isLongestIn_string {q : Char} {t a b : Text} (h : Token.closeString q t = some (a, b)) :
    IsLongestIn (stringBetween q) (q :: a) b := by
  obtain ⟨s, hs⟩ := exists_of_closeString h
  refine ⟨mem_stringBetween.2 ⟨s, hs ▸ rfl⟩, fun m hm hfront => ?_⟩
  obtain ⟨s', rfl⟩ := mem_stringBetween.1 hm
  rw [List.cons_append, Token.append_of_closeString h, List.cons_prefix_cons] at hfront
  obtain ⟨rest, rfl⟩ := hfront.2
  refine Nat.succ_le_succ ?_
  rw [List.append_assoc, closeString_escapeQuotes_append] at h
  obtain ⟨p, hp, he⟩ := Option.map_eq_some_iff.1 h
  obtain ⟨s'', hs''⟩ := exists_of_closeString hp
  cases he
  rw [hs'', List.length_append, List.length_append, List.length_append]
  omega

/-- A string that is never closed starts only with strings that the quote behind them continues. -/
theorem append_quote_prefix_of_closeString {q : Char} {t m : Text} (h : Token.closeString q t = none)
    (hm : m ∈ stringBetween q) (hfront : m <+: q :: t) : m ++ [q] <+: q :: t := by
  obtain ⟨s, rfl⟩ := mem_stringBetween.1 hm
  obtain ⟨rest, hrest⟩ := (List.cons_prefix_cons.1 hfront).2
  rw [← hrest, List.append_assoc, List.singleton_append] at h
  by_cases hhead : rest.head? = some q
  · obtain ⟨rest', rfl⟩ : ∃ rest', rest = q :: rest' := List.head?_eq_some_iff.1 hhead
    exact ⟨rest', by simp [← hrest]⟩
  · rw [Token.closeString_escapeQuotes hhead] at h
    cases h

/-! ### One pattern for a place -/

/-- The kind of the texts that start with a character. -/
def Lexeme.starting (c : Char) : Option Lexeme :=
  if Token.isSpace c then some .blanks
  else if c = '#' then some .comment
  else if c = '(' then some (.token .openParen)
  else if c = ')' then some (.token .closeParen)
  else if Token.isIdentifierStart c then some (.token .identifier)
  else if c = '\'' then some (.token .singleQuoted)
  else if c = '"' then some (.token .doubleQuoted)
  else none

theorem Lexeme.starting_of_isIdentifierStart {c : Char} (hc : Token.isIdentifierStart c = true) :
    starting c = some (.token .identifier) := by
  have hne : ∀ d, Token.isIdentifierStart d = false → c ≠ d := fun d => Token.isIdentifierStart_ne hc
  have hspace : Token.isSpace c = false := by
    simp only [Token.isSpace, Bool.or_eq_false_iff, beq_eq_false_iff_ne]
    refine ⟨⟨⟨⟨?_, ?_⟩, ?_⟩, ?_⟩, ?_⟩ <;> exact hne _ (by decide)
  simp only [starting, hspace, hne '#' (by decide), hne '(' (by decide), hne ')' (by decide), hc,
    Bool.false_eq_true, if_false, if_true]

/-- The first character of a text tells its kind. -/
theorem Lexeme.exists_of_mem_pattern {l : Lexeme} {m : Text} (hm : m ∈ l.pattern) :
    ∃ c s, m = c :: s ∧ starting c = some l := by
  cases l with
  | blanks =>
    obtain ⟨c, s, rfl, hc, -⟩ := mem_run.1 hm
    exact ⟨c, s, rfl, if_pos hc⟩
  | comment =>
    obtain ⟨c, s, rfl, hc, -⟩ := mem_run.1 hm
    obtain rfl : c = '#' := by simpa using hc
    exact ⟨'#', s, rfl, by decide⟩
  | token kind =>
    cases kind with
    | openParen => exact ⟨'(', [], hm, by decide⟩
    | closeParen => exact ⟨')', [], hm, by decide⟩
    | identifier =>
      obtain ⟨c, s, rfl, hc, -⟩ := mem_run.1 hm
      exact ⟨c, s, rfl, starting_of_isIdentifierStart hc⟩
    | singleQuoted =>
      obtain ⟨s, rfl⟩ := mem_stringBetween.1 hm
      exact ⟨'\'', _, rfl, by decide⟩
    | doubleQuoted =>
      obtain ⟨s, rfl⟩ := mem_stringBetween.1 hm
      exact ⟨'"', _, rfl, by decide⟩

theorem Lexeme.starting_of_prefix {l : Lexeme} {m t : Text} {c : Char} (hm : m ∈ l.pattern)
    (hfront : m <+: c :: t) : starting c = some l := by
  obtain ⟨d, s, rfl, hd⟩ := exists_of_mem_pattern hm
  obtain ⟨rfl, -⟩ := List.cons_prefix_cons.1 hfront
  exact hd

/-- Only texts of one kind stand at a place, so the longest of them is the longest. -/
theorem isLongestMatch_of_isLongestIn {l : Lexeme} {text after : Text}
    (h : IsLongestIn l.pattern text after) : IsLongestMatch l text after := by
  obtain ⟨c, s, rfl, hc⟩ := Lexeme.exists_of_mem_pattern h.1
  refine ⟨h.1, fun l' m hm hfront => ?_⟩
  obtain rfl : l = l' := Option.some.inj (hc.symm.trans (Lexeme.starting_of_prefix hm hfront))
  exact h.2 m hm hfront

/-- The token kind of a kind of texts, none for what is skipped. -/
def Lexeme.kind : Lexeme → Option TokenKind
  | .blanks => none
  | .comment => none
  | .token kind => some kind

/-- What the lexer finds at a quote. -/
theorem string_spec {kind : TokenKind} {l : Lexeme} {c : Char} {t : Text} (hkind : l.kind = some kind)
    (hpattern : l.pattern = stringBetween c) (hstart : Lexeme.starting c = some l) (hc : c = '\'' ∨ c = '"') :
    match (Token.closeString c t).map fun p => (⟨some kind, c :: p.1, p.2⟩ : Token.Piece) with
    | some p => ∃ l : Lexeme, l.kind = p.kind ∧ IsLongestMatch l p.text p.rest
    | none => NothingEndsAt c t := by
  cases hclose : Token.closeString c t with
  | some p => exact ⟨l, hkind, isLongestMatch_of_isLongestIn (hpattern ▸ isLongestIn_string hclose)⟩
  | none =>
    intro l' m hm hfront
    obtain rfl : l = l' := Option.some.inj (hstart.symm.trans (Lexeme.starting_of_prefix hm hfront))
    exact ⟨hc, append_quote_prefix_of_closeString hclose (hpattern ▸ hm) hfront⟩

/-- What the lexer takes is the longest match; where it takes nothing, nothing matches but a string that the quote
behind it continues. -/
theorem piece?_spec (c : Char) (t : Text) :
    match Token.piece? c t with
    | some p => ∃ l : Lexeme, l.kind = p.kind ∧ IsLongestMatch l p.text p.rest
    | none => NothingEndsAt c t := by
  unfold Token.piece?
  split_ifs with hspace hhash hopen hclose hident hsingle hdouble
  · exact ⟨.blanks, rfl, isLongestMatch_of_isLongestIn (isLongestIn_run hspace t)⟩
  · exact ⟨.comment, rfl, isLongestMatch_of_isLongestIn (isLongestIn_run (decide_eq_true hhash) t)⟩
  · subst hopen
    exact ⟨.token .openParen, rfl, isLongestMatch_of_isLongestIn (isLongestIn_singleton _ t)⟩
  · subst hclose
    exact ⟨.token .closeParen, rfl, isLongestMatch_of_isLongestIn (isLongestIn_singleton _ t)⟩
  · exact ⟨.token .identifier, rfl, isLongestMatch_of_isLongestIn (isLongestIn_run hident t)⟩
  · subst hsingle
    exact string_spec (l := .token .singleQuoted) rfl rfl (by decide) (.inl rfl)
  · subst hdouble
    exact string_spec (l := .token .doubleQuoted) rfl rfl (by decide) (.inr rfl)
  · intro l m hm hfront
    have hstart := Lexeme.starting_of_prefix hm hfront
    simp [Lexeme.starting, *] at hstart

/-! ### Gaps and tokens -/

/-- What can stand between tokens, before the text that follows: blanks, and comments that run up to a line feed
or to the end of the input. -/
inductive Skips : Text → Text → Prop
  | nil {after : Text} : Skips [] after
  | space {c : Char} {gap after : Text} (hc : Token.isSpace c = true) (h : Skips gap after) :
      Skips (c :: gap) after
  | comment {body gap after : Text} (hbody : '\n' ∉ body) (hend : ∀ c ∈ (gap ++ after).head?, c = '\n')
      (h : Skips gap after) : Skips ('#' :: body ++ gap) after

/-- An input that starts at a byte offset is cut into gaps and tokens up to a rest; every token is the longest match
at its place. -/
inductive Tiles : Nat → Text → List Token → Text → Prop
  | gap {off : Nat} {gap rest : Text} (hgap : Skips gap rest) : Tiles off (gap ++ rest) [] rest
  | token {off : Nat} {gap after rest : Text} {t : Token} {ts : List Token}
      (hgap : Skips gap (t.text ++ after)) (hoffset : t.offset = off + Text.byteLength gap)
      (hmatch : IsLongestMatch (.token t.kind) t.text after)
      (h : Tiles (t.offset + Text.byteLength t.text) after ts rest) :
      Tiles off (gap ++ (t.text ++ after)) (t :: ts) rest

theorem Tiles.refl (off : Nat) (t : Text) : Tiles off t [] t := .gap .nil

theorem Skips.append {a b after : Text} (ha : Skips a (b ++ after)) (hb : Skips b after) :
    Skips (a ++ b) after := by
  generalize hbehind : b ++ after = behind at ha
  induction ha with
  | nil => exact hb
  | space hc _ ih => exact .space hc (ih hbehind)
  | comment hbody hend _ ih =>
    subst hbehind
    rw [List.append_assoc]
    exact .comment hbody (by rwa [List.append_assoc]) (ih rfl)

/-- Skipped text before gaps and tokens belongs to the first gap. -/
theorem Tiles.skip {off : Nat} {a input rest : Text} {ts : List Token} (ha : Skips a input)
    (h : Tiles (off + Text.byteLength a) input ts rest) : Tiles off (a ++ input) ts rest := by
  cases h with
  | gap hgap =>
    rw [← List.append_assoc]
    exact .gap (ha.append hgap)
  | token hgap hoffset hmatch h =>
    rw [← List.append_assoc]
    refine .token (ha.append hgap) ?_ hmatch h
    rw [hoffset, Text.byteLength_append, Nat.add_assoc]

/-- What the lexer takes and is no token can stand in a gap. -/
theorem skips_of_piece? {c : Char} {t : Text} {p : Token.Piece} (h : Token.piece? c t = some p)
    (hkind : p.kind = none) : Skips p.text p.rest := by
  have hspaces : ∀ (s after : Text), (∀ d ∈ s, Token.isSpace d = true) → Skips s after := by
    intro s after hs
    induction s with
    | nil => exact .nil
    | cons d s ih => exact .space (hs d List.mem_cons_self) (ih fun e he => hs e (List.mem_cons_of_mem d he))
  unfold Token.piece? at h
  split_ifs at h with hspace hhash
  · obtain rfl := Option.some.inj h
    exact .space hspace (hspaces _ _ fun d hd => List.mem_takeWhile_imp hd)
  · obtain rfl := Option.some.inj h
    have hcomment : Skips ('#' :: t.takeWhile (· ≠ '\n') ++ []) (t.dropWhile (· ≠ '\n')) :=
      .comment (fun hd => by simpa using List.mem_takeWhile_imp hd)
        (fun d hd => by simpa using Token.head?_dropWhile_eq_false hd) .nil
    rwa [List.append_nil, ← hhash] at hcomment
  · obtain rfl := Option.some.inj h
    cases hkind
  · obtain rfl := Option.some.inj h
    cases hkind
  · obtain rfl := Option.some.inj h
    cases hkind
  · obtain ⟨_, -, rfl⟩ := Option.map_eq_some_iff.1 h
    cases hkind
  · obtain ⟨_, -, rfl⟩ := Option.map_eq_some_iff.1 h
    cases hkind

/-- One piece of the input is the start of a gap, or a token. -/
theorem Tiles.piece {off : Nat} {c : Char} {t rest : Text} {p : Token.Piece} {ts : List Token}
    (hp : Token.piece? c t = some p) (h : Tiles (off + Text.byteLength p.text) p.rest ts rest) :
    Tiles off (c :: t) ((p.kind.toList.map fun k => ⟨k, p.text, off⟩) ++ ts) rest := by
  rw [← Token.piece?_append hp]
  cases hkind : p.kind with
  | none => exact h.skip (skips_of_piece? hp hkind)
  | some kind =>
    have hspec := piece?_spec c t
    rw [hp] at hspec
    obtain ⟨l, hl, hmatch⟩ := hspec
    obtain rfl : l = .token kind := by
      rw [hkind] at hl
      cases l <;> simp_all [Lexeme.kind]
    exact @Tiles.token off [] p.rest rest ⟨kind, p.text, off⟩ ts .nil rfl hmatch h

/-- The lexer cuts its input into gaps and tokens up to the end, or to a place where nothing matches. -/
theorem lexFrom_tiles (off : Nat) (input : Text) :
    match lexFrom off input with
    | .ok ts => Tiles off input ts []
    | .error e => ∃ ts before c after, input = before ++ c :: after ∧ Tiles off input ts (c :: after) ∧
      e = .invalidToken (off + Text.byteLength before) (unrecognised c after) ∧ NothingEndsAt c after := by
  fun_induction lexFrom off input with
  | case1 off => exact .refl off _
  | case2 off c t h =>
    have hspec := piece?_spec c t
    rw [h] at hspec
    exact ⟨[], [], c, t, rfl, .refl off _, rfl, hspec⟩
  | case3 off c t p hp _ ih =>
    cases hrest : lexFrom (off + Text.byteLength p.text) p.rest with
    | ok ts =>
      rw [hrest] at ih
      have htiles := ih.piece hp
      show Tiles off (c :: t) _ []
      cases hkind : p.kind <;> simpa [hkind] using htiles
    | error e =>
      rw [hrest] at ih
      obtain ⟨ts, before, d, after, hbefore, htiles, he, hnone⟩ := ih
      refine ⟨_, p.text ++ before, d, after, ?_, htiles.piece hp, ?_, hnone⟩
      · rw [List.append_assoc, ← hbefore, Token.piece?_append hp]
      · rw [he, Text.byteLength_append, Nat.add_assoc]

/-! ### Offsets -/

theorem Lexeme.byteLength_pos {l : Lexeme} {m : Text} (hm : m ∈ l.pattern) : 0 < Text.byteLength m := by
  obtain ⟨c, s, rfl, -⟩ := exists_of_mem_pattern hm
  exact Nat.lt_of_lt_of_le c.utf8Size_pos (Nat.le_add_right _ _)

theorem Tiles.le_offset {off : Nat} {input rest : Text} {ts : List Token} (h : Tiles off input ts rest) :
    ∀ t ∈ ts, off ≤ t.offset := by
  induction h with
  | gap => exact fun t ht => nomatch ht
  | token _ hoffset _ _ ih =>
    intro t ht
    rcases List.mem_cons.1 ht with rfl | ht
    · omega
    · have := ih t ht
      omega

/-- Tokens stand one behind the other. -/
theorem Tiles.pairwise_offset {off : Nat} {input rest : Text} {ts : List Token}
    (h : Tiles off input ts rest) : ts.Pairwise fun t u => t.offset < u.offset := by
  induction h with
  | gap => exact .nil
  | token _ _ hmatch h ih =>
    refine .cons (fun u hu => ?_) ih
    have hle := h.le_offset u hu
    have hpos := Lexeme.byteLength_pos hmatch.1
    omega

/-- The text of a token is the slice of the input at its offset. -/
theorem Tiles.slice? {off : Nat} {input rest : Text} {ts : List Token} (h : Tiles off input ts rest)
    (before : Text) (hbefore : Text.byteLength before = off) :
    ∀ t ∈ ts, Text.slice? (before ++ input) t.offset (t.offset + Text.byteLength t.text) = some t.text := by
  induction h generalizing before with
  | gap => exact fun t ht => nomatch ht
  | @token off gap after rest t ts _ hoffset _ _ ih =>
    have hstart : Text.byteLength (before ++ gap) = t.offset := by
      rw [Text.byteLength_append, hbefore, hoffset]
    have hstop : Text.byteLength (before ++ gap ++ t.text) = t.offset + Text.byteLength t.text := by
      rw [Text.byteLength_append, hstart]
    intro u hu
    rcases List.mem_cons.1 hu with rfl | hu
    · exact Text.slice?_eq_some_iff.2 ⟨before ++ gap, after, by simp, hstart, hstop⟩
    · simpa using ih _ hstop u hu

/-- Tokens, in the order of their offsets and each a slice of the input, and gaps make up the input before `rest`. -/
structure Covers (input : Text) (ts : List Token) (rest : Text) : Prop where
  increasing : ts.Pairwise fun t u => t.offset < u.offset
  slices : ∀ t ∈ ts, Text.slice? input t.offset (t.offset + Text.byteLength t.text) = some t.text
  tiles : Tiles 0 input ts rest

theorem Tiles.covers {input rest : Text} {ts : List Token} (h : Tiles 0 input ts rest) : Covers input ts rest :=
  ⟨h.pairwise_offset, h.slice? [] rfl, h⟩

/-- **The lexer covers its input.**  Tokens that are the longest matches at their places, and gaps of blanks and
comments, make up the input: all of it, or what stands before the character at which the lexer fails.  No text of
any kind stands there, but that a quote can start strings that a quote behind them continues.  The error has the
character, or all from it on if it is a quote. -/
theorem lex_covers (input : Text) :
    match lex input with
    | .ok ts => Covers input ts []
    | .error e => ∃ ts before c after, input = before ++ c :: after ∧ Covers input ts (c :: after) ∧
      e = .invalidToken (Text.byteLength before) (if c = '\'' ∨ c = '"' then c :: after else [c]) ∧
      NothingEndsAt c after := by
  have h := lexFrom_tiles 0 input
  unfold lex
  cases hlex : lexFrom 0 input with
  | ok ts =>
    rw [hlex] at h
    exact h.covers
  | error e =>
    rw [hlex] at h
    obtain ⟨ts, before, c, after, hinput, htiles, he, hnone⟩ := h
    exact ⟨ts, before, c, after, hinput, htiles.covers, by rw [he, Nat.zero_add, unrecognised], hnone⟩

/-- A string stands at the place of the error, but the quote behind it continues it. -/
theorem lex_doubledQuote :
    lex "'a''b".toList = .error (.invalidToken 0 "'a''b".toList) ∧
    "'a'".toList ∈ (Lexeme.token .singleQuoted).pattern ∧ "'a'".toList <+: "'a''b".toList := by
  have hlex : lex "'a''b".toList = .error (.invalidToken 0 "'a''b".toList) := by cbv
  exact ⟨hlex, mem_stringBetween.2 ⟨['a'], by decide⟩, "'b".toList, by decide⟩

end TemplateEngine
