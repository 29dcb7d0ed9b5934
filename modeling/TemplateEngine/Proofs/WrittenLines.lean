import Mathlib.Data.List.TakeWhile
import TemplateEngine.Proofs.Quoting

/-!
# Written lines — lines are read as they were written

A number is read as it was written as long as it fits into 64 bits with a sign (`value_toDigits`), a list
of strings in each of its three forms (`readValue_write`).  Each line is read off the start of a text and
leaves the rest as it is, so that all lines are (`readLines_write`).
-/

namespace TemplateEngine

namespace Toml

/-! ### Numbers -/

section Digits

variable {c : Char} {n : Nat}

theorem digit?_of_isDigit (h : c.isDigit = true) : digit? 10 c = some (c.toNat - '0'.toNat) := by
  simp only [Char.isDigit, Bool.and_eq_true, decide_eq_true_eq] at h
  have hlow : '0' ≤ c := h.1
  have hhigh : c ≤ '9' := h.2
  have hbelow : c.toNat - '0'.toNat < 10 := by
    have : c.toNat ≤ '9'.toNat := hhigh
    simp only [Char.reduceToNat] at this ⊢
    omega
  simp only [digit?, hlow, hhigh, and_self, if_true]
  exact if_pos hbelow

theorem isDigit_of_isDigit (h : c.isDigit = true) : isDigit 10 c = true := by
  rw [isDigit, digit?_of_isDigit h]
  rfl

theorem mem_toDigits (h : c ∈ Nat.toDigits 10 n) : c.isDigit = true :=
  Nat.isDigit_of_mem_toDigits (by decide) (by decide) h

theorem mapM_digit? {t : Text} (h : ∀ c ∈ t, c.isDigit = true) :
    t.mapM (digit? 10) = some (t.map fun c => c.toNat - '0'.toNat) := by
  induction t with
  | nil => rfl
  | cons c t ih =>
    rw [List.mapM_cons, digit?_of_isDigit (h c (by simp)), ih fun d hd => h d (by simp [hd])]
    rfl

theorem natural?_toDigits (n : Nat) : natural? 10 (Nat.toDigits 10 n) = some n := by
  have hne : (Nat.toDigits 10 n).isEmpty = false := by simp
  have hvalue := Nat.ofDigitChars_ten_toDigits (n := n)
  rw [natural?, hne, mapM_digit? fun c => mem_toDigits]
  simpa [ofDigits, List.foldl_map, Nat.ofDigitChars_eq_foldl] using hvalue

/-- Only zero starts with a zero. -/
theorem head?_toDigits (h : 0 < n) : (Nat.toDigits 10 n).head? ≠ some '0' := by
  induction n using Nat.strongRecOn with
  | ind n ih =>
    by_cases hsmall : n < 10
    · have hdigit : ∀ d < 10, 0 < d → Nat.digitChar d ≠ '0' := by decide
      rw [Nat.toDigits_of_lt_base hsmall]
      simpa using hdigit n hsmall h
    · have hrest := ih (n / 10) (by omega) (by omega)
      obtain ⟨c, t, ht⟩ := List.exists_cons_of_ne_nil (Nat.toDigits_ne_nil (n := n / 10) (b := 10))
      rw [ht] at hrest
      rw [Nat.toDigits_of_base_le (by decide) (by omega), ht]
      exact hrest

theorem splitOn_of_notMem {t : Text} (h : c ∉ t) : Text.splitOn c t = [t] := by
  rw [Text.splitOn_eq, List.splitOn_eq_singleton h]

section Forms

variable {t : Text} (ht : ∀ c ∈ t, c.isDigit = true)
include ht

theorem notMem_digits {d : Char} (hd : d.isDigit = false) : d ∉ t :=
  fun hmem => absurd (ht d hmem) (by simp [hd])

theorem sign_digits : sign t = (none, t) := by
  cases t with
  | nil => rfl
  | cons c t =>
    have hplus : c ≠ '+' := fun h => notMem_digits ht (d := '+') rfl (by simp [h])
    have hminus : c ≠ '-' := fun h => notMem_digits ht (d := '-') rfl (by simp [h])
    simp [sign, hplus, hminus]

theorem base?_digits : base? t = none := by
  match t with
  | [] | [_] => rfl
  | z :: b :: u =>
    have hb : ∀ d, d.isDigit = false → b ≠ d := fun d hd h => notMem_digits ht hd (by simp [h])
    simp [base?, hb 'x' rfl, hb 'o' rfl, hb 'b' rfl]

/-- Digits without a zero too many are a decimal number. -/
theorem numeral?_digits (hne : t ≠ []) (hzero : t.head? = some '0' → t.length = 1) :
    numeral? t = some (.integer 10 t) := by
  have hscore : '_' ∉ t := notMem_digits ht rfl
  have hrest : t.dropWhile (isDigit 10) = [] :=
    List.dropWhile_eq_nil_iff.2 fun c hc => isDigit_of_isDigit (ht c hc)
  have hjoin : underscoresJoin 16 t = true := by rw [underscoresJoin, splitOn_of_notMem hscore]
  have hjoined : joined t = t :=
    List.filter_eq_self.2 fun c hc => decide_eq_true fun h => hscore (h ▸ hc)
  have hhead : (t.isEmpty || (t.head? = some '0' && t.length ≠ 1)) = false := by
    simpa [hne] using hzero
  rw [numeral?, sign_digits ht]
  simp only [base?_digits ht, decimal?, hrest, hhead, hjoin, hjoined]
  rfl

end Forms

theorem numeral?_toDigits (n : Nat) :
    numeral? (Nat.toDigits 10 n) = some (.integer 10 (Nat.toDigits 10 n)) := by
  refine numeral?_digits (fun c => mem_toDigits) Nat.toDigits_ne_nil fun hhead => ?_
  rcases Nat.eq_zero_or_pos n with rfl | hpos
  · rfl
  · exact absurd hhead (head?_toDigits hpos)

/-- A number that fits into 64 bits with a sign is in range. -/
theorem value_toDigits (h : n ≤ 9223372036854775807) :
    (Numeral.integer 10 (Nat.toDigits 10 n)).value = .integer n := by
  have hsigned : signed? 10 (Nat.toDigits 10 n) = some (n : Int) := by
    rw [signed?, sign_digits fun c => mem_toDigits]
    simp [natural?_toDigits, signed]
  have hrange : inRange n = true := by
    simp only [inRange, Bool.and_eq_true, decide_eq_true_eq]
    omega
  rw [Numeral.value, hsigned, Option.filter_some, if_pos hrange]

end Digits

/-! ### Values that hold no other -/

/-- What is neither a gap nor the start of a comment. -/
def IsInk (c : Char) : Prop := isBlank c = false ∧ c ≠ '\n' ∧ c ≠ '\r' ∧ c ≠ '#'

instance (c : Char) : Decidable (IsInk c) := inferInstanceAs (Decidable (_ ∧ _))

theorem IsInk.newline? {c : Char} (h : IsInk c) (t : Text) : newline? (c :: t) = none :=
  newline?_of_head (by simpa using h.2.1) (by simpa using h.2.2.1)

theorem IsInk.skipBlanks {c : Char} (h : IsInk c) (t : Text) : skipBlanks (c :: t) = c :: t := by
  simp [Toml.skipBlanks, h.1]

theorem IsInk.skipTrivia {c : Char} (h : IsInk c) (t : Text) :
    skipTrivia false (c :: t) = some (c :: t) := by
  simp [Toml.skipTrivia, startsLine, h.newline?, h.1, h.2.2.2]

/-- A string starts with a quote. -/
theorem writeString_eq_cons (t : Text) : ∃ q u, writeString t = q :: u ∧ (q = '"' ∨ q = '\'') := by
  have hquoted : ∀ lines, ∃ u, writeQuoted lines t = '"' :: u := fun lines => by
    cases lines <;> exact ⟨_, rfl⟩
  have hliteral : ∀ lines, ∃ u, writeLiteral lines t = '\'' :: u := fun lines => by
    cases lines <;> exact ⟨_, rfl⟩
  unfold writeString
  split_ifs
  · obtain ⟨u, hu⟩ := hquoted false
    exact ⟨_, u, hu, .inl rfl⟩
  · obtain ⟨u, hu⟩ := hliteral false
    exact ⟨_, u, hu, .inr rfl⟩
  · obtain ⟨u, hu⟩ := hquoted true
    exact ⟨_, u, hu, .inl rfl⟩
  · obtain ⟨u, hu⟩ := hliteral true
    exact ⟨_, u, hu, .inr rfl⟩
  · obtain ⟨u, hu⟩ := hquoted ('\n' ∈ t)
    exact ⟨_, u, hu, .inl rfl⟩

theorem isInk_quote {q : Char} (h : q = '"' ∨ q = '\'') : IsInk q := by
  rcases h with rfl | rfl <;> decide

/-- The depth matters to arrays and tables only. -/
theorem readValue_eq_readScalar {c : Char} (hbracket : c ≠ '[') (hbrace : c ≠ '\x7b') (depth : Nat)
    (t : Text) :
    readValue depth (c :: t) = readScalar (c :: t) := by
  cases depth with
  | zero => rfl
  | succ depth => rw [readValue, if_neg hbracket, if_neg hbrace]

theorem readValue_writeString (s : String) (depth : Nat) {rest : Text} (hquote : StartsApart '"' rest)
    (hsingle : StartsApart '\'' rest) :
    readValue depth (writeString s.toList ++ rest) = some (.string s, rest) := by
  have hread := readString_writeString (t := s.toList) hquote hsingle
  obtain ⟨q, u, hu, hq⟩ := writeString_eq_cons s.toList
  have hbracket : q ≠ '[' ∧ q ≠ '\x7b' := by rcases hq with rfl | rfl <;> decide
  rw [hu, List.cons_append] at hread ⊢
  rw [readValue_eq_readScalar hbracket.1 hbracket.2, readScalar, if_pos hq, hread]
  simp

theorem endsScalar_of_isDigit {c : Char} (h : c.isDigit = true) : endsScalar c = false := by
  have hnone : (" \t\r\n\"'#,=[]\x7b\x7d".toList.all fun d => !d.isDigit) = true := by decide
  rw [endsScalar, ← Bool.not_eq_true, List.contains_iff_mem]
  exact fun hmem => by simpa [h] using List.all_eq_true.mp hnone c hmem

/-- What stands in a line up to its end. -/
theorem cutScalar_line {t : Text} (h : ∀ c ∈ t, endsScalar c = false) (rest : Text) :
    cutScalar (t ++ '\n' :: rest) = (t, '\n' :: rest) := by
  have hall : ∀ c ∈ t, (!endsScalar c) = true := fun c hc => by rw [h c hc]; rfl
  have hend : (!endsScalar '\n') = false := by decide
  rw [cutScalar, List.takeWhile_append_of_pos hall, List.dropWhile_append_of_pos hall]
  simp only [List.takeWhile_cons, List.dropWhile_cons, hend]
  cases rest <;> simp

theorem ofWritten?_toDigits {n : Nat} (hn : n ≤ 9223372036854775807) :
    ofWritten? (Nat.toDigits 10 n) = some (.integer n) := by
  have hdigit : ∀ c ∈ Nat.toDigits 10 n, c.isDigit = true := fun c => mem_toDigits
  have hword : ∀ d t, d.isDigit = false → Nat.toDigits 10 n ≠ d :: t := fun d t hd h =>
    notMem_digits hdigit hd (by simp [h])
  have hfloat : isFloatWord (Nat.toDigits 10 n) = false := by
    have hinf : Nat.toDigits 10 n ≠ "inf".toList := hword 'i' _ rfl
    have hnan : Nat.toDigits 10 n ≠ "nan".toList := hword 'n' _ rfl
    rw [isFloatWord, sign_digits hdigit]
    simp only [hinf, hnan, decide_false, Bool.or_self]
  rw [ofWritten?, if_neg (show _ ≠ "true".toList from hword 't' _ rfl),
    if_neg (show _ ≠ "false".toList from hword 'f' _ rfl), hfloat, numeral?_toDigits]
  exact congrArg some (value_toDigits hn)

/-- A number ends with its line. -/
theorem readValue_toDigits {n : Nat} (hn : n ≤ 9223372036854775807) (depth : Nat) (rest : Text) :
    readValue depth (Nat.toDigits 10 n ++ '\n' :: rest) = some (.integer n, '\n' :: rest) := by
  have hcut := cutScalar_line
    (fun c (hc : c ∈ Nat.toDigits 10 n) => endsScalar_of_isDigit (mem_toDigits hc)) rest
  have hvalue := ofWritten?_toDigits hn
  obtain ⟨c, u, hu⟩ := List.exists_cons_of_ne_nil (Nat.toDigits_ne_nil (n := n) (b := 10))
  have hne : ∀ d, d.isDigit = false → c ≠ d := fun d hd h =>
    notMem_digits (fun e => mem_toDigits) hd (show d ∈ Nat.toDigits 10 n by simp [hu, h])
  have hquote : ¬(c = '"' ∨ c = '\'') := not_or.2 ⟨hne '"' rfl, hne '\'' rfl⟩
  rw [hu, List.cons_append] at hcut ⊢
  rw [hu] at hvalue
  rw [readValue_eq_readScalar (hne '[' rfl) (hne '\x7b' rfl), readScalar, if_neg hquote, hcut]
  simp [hvalue]

/-! ### Lists -/

theorem skipTrivia_break (t : Text) : skipTrivia false ('\n' :: t) = skipTrivia false t := by
  simp [skipTrivia, startsLine, newline?]

theorem skipTrivia_space (t : Text) : skipTrivia false (' ' :: t) = skipTrivia false t := by
  simp [skipTrivia, startsLine, newline?, isBlank]

section Items

variable {α : Type} {item : Text → Option (α × Text)} {close c : Char} {a : α} {t u r r' : Text}

theorem readItems_close (h : skipTrivia false t = some (close :: r)) :
    readItems item close t = some ([], r) := by
  rw [readItems, h]
  simp

theorem readItems_last (h : skipTrivia false t = some (c :: u)) (hc : c ≠ close)
    (hitem : item (c :: u) = some (a, r)) (hr : skipTrivia false r = some (close :: r')) :
    readItems item close t = some ([a], r') := by
  rw [readItems, h]
  simp [hc, hitem, hr]

theorem readItems_comma (h : skipTrivia false t = some (c :: u)) (hc : c ≠ close) (hclose : ',' ≠ close)
    (hitem : item (c :: u) = some (a, r)) (hr : skipTrivia false r = some (',' :: r'))
    (hlt : r'.length < t.length) :
    readItems item close t = (readItems item close r').map fun p => (a :: p.1, p.2) := by
  rw [readItems, h]
  simp [hc, hclose, hitem, hr, hlt]

end Items

theorem skipTrivia_writeString (s rest : Text) :
    ∃ q u, writeString s ++ rest = q :: u ∧ q ≠ ']' ∧ skipTrivia false (q :: u) = some (q :: u) := by
  obtain ⟨q, u, hu, hq⟩ := writeString_eq_cons s
  refine ⟨q, u ++ rest, by rw [hu, List.cons_append], ?_, (isInk_quote hq).skipTrivia _⟩
  rcases hq with rfl | rfl <;> decide

/-- Strings with a line each. -/
theorem readItems_lines (ss : List String) (depth : Nat) (rest : Text) :
    readItems (readValue depth) ']'
      ('\n' :: (ss.flatMap (fun s => "    ".toList ++ writeString s.toList ++ ",\n".toList) ++ ']' :: rest)) =
      some (ss.map .string, rest) := by
  induction ss with
  | nil => exact readItems_close (skipTrivia_break _)
  | cons s ss ih =>
    generalize hmore : ss.flatMap (fun s => "    ".toList ++ writeString s.toList ++ ",\n".toList) ++
      ']' :: rest = more at ih
    obtain ⟨q, u, hu, hq, hskip⟩ := skipTrivia_writeString s.toList (',' :: '\n' :: more)
    have hitem : readValue depth (q :: u) = some (.string s, ',' :: '\n' :: more) :=
      hu ▸ readValue_writeString s depth (by simp [StartsApart]) (by simp [StartsApart])
    have htext : '\n' :: ((s :: ss).flatMap (fun s => "    ".toList ++ writeString s.toList ++ ",\n".toList) ++
        ']' :: rest) = '\n' :: ' ' :: ' ' :: ' ' :: ' ' :: q :: u := by
      simp [← hu, ← hmore]
    have hlength : ('\n' :: more).length < (q :: u).length := by
      simp [← hu]
      omega
    rw [htext, readItems_comma (c := q) (u := u) _ hq (by decide) hitem rfl _, ih]
    · rfl
    · simp only [skipTrivia_break, skipTrivia_space, hskip]
    · simp only [List.length_cons] at hlength ⊢
      omega

/-- Whether a number of a datum fits into 64 bits with a sign. -/
def Datum.Fits : Datum → Prop
  | .natural n => n ≤ 9223372036854775807
  | _ => True

theorem readValue_write {x : Datum} (hx : x.Fits) (depth : Nat) (rest : Text) :
    readValue (depth + 1) (x.write ++ '\n' :: rest) = some (x.value, '\n' :: rest) := by
  match x with
  | .string s => exact readValue_writeString s _ (by simp [StartsApart]) (by simp [StartsApart])
  | .natural n => exact readValue_toDigits hx _ rest
  | .strings [] =>
    have : readItems (readValue depth) ']' (']' :: '\n' :: rest) = some ([], '\n' :: rest) :=
      readItems_close rfl
    simp [Datum.write, Datum.value, readValue, this]
  | .strings [s] =>
    obtain ⟨q, u, hu, hq, hskip⟩ := skipTrivia_writeString s.toList (']' :: '\n' :: rest)
    have hitem : readValue depth (q :: u) = some (.string s, ']' :: '\n' :: rest) :=
      hu ▸ readValue_writeString s depth (by simp [StartsApart]) (by simp [StartsApart])
    have htext : (Datum.strings [s]).write ++ '\n' :: rest = '[' :: q :: u := by
      simp [Datum.write, ← hu]
    rw [htext, readValue, if_pos rfl, readItems_last hskip hq hitem rfl]
    rfl
  | .strings (s :: s' :: ss) =>
    have htext : (Datum.strings (s :: s' :: ss)).write ++ '\n' :: rest = '[' :: '\n' ::
        ((s :: s' :: ss).flatMap (fun s => "    ".toList ++ writeString s.toList ++ ",\n".toList) ++
          ']' :: '\n' :: rest) := by
      simp [Datum.write]
    rw [htext, readValue, if_pos rfl, readItems_lines]
    rfl

/-! ### Lines -/

/-- A key starts with a quote or a character that keys are made of. -/
theorem writeKey_eq_cons (t : Text) : ∃ c u, writeKey t = c :: u ∧ IsInk c ∧ c ≠ '[' := by
  have hquoted : ∃ c u, writeQuoted false t = c :: u ∧ IsInk c ∧ c ≠ '[' := ⟨_, _, rfl, by decide, by decide⟩
  unfold writeKey
  split_ifs with hbare
  · simp only [Bool.and_eq_true, Bool.not_eq_true', List.isEmpty_eq_false_iff] at hbare
    obtain ⟨c, u, rfl⟩ := List.exists_cons_of_ne_nil hbare.1
    have hkey : isKeyChar c = true := by
      have := hbare.2
      rw [List.all_cons, Bool.and_eq_true] at this
      exact this.1
    have hne : ∀ d, isKeyChar d = false → c ≠ d := fun d hd h => by rw [h, hd] at hkey; cases hkey
    refine ⟨c, u, rfl, ⟨?_, hne _ rfl, hne _ rfl, hne _ rfl⟩, hne _ rfl⟩
    simp [isBlank, hne ' ' rfl, hne '\t' rfl]
  · exact hquoted
  · exact ⟨_, _, rfl, by decide, by decide⟩
  · exact hquoted

theorem readKey_writeKey {k : String} {rest : Text} (hrest : ∀ c ∈ rest.head?, isKeyChar c = false)
    (hdot : expect? '.' (skipBlanks rest) = none) :
    readKey (writeKey k.toList ++ rest) = some (⟨[], k⟩, skipBlanks rest) := by
  rw [readKey, readParts, readName_writeKey hrest]
  simp [hdot, maxDepth]

theorem skipBlanks_writeKey (t rest : Text) : skipBlanks (writeKey t ++ rest) = writeKey t ++ rest := by
  obtain ⟨c, u, hu, hink, -⟩ := writeKey_eq_cons t
  rw [hu, List.cons_append, hink.skipBlanks]

theorem expect?_writeKey (t rest : Text) : expect? '[' (writeKey t ++ rest) = none := by
  obtain ⟨c, u, hu, -, hne⟩ := writeKey_eq_cons t
  simp [hu, expect?, hne]

theorem endLine_of_isInk {c : Char} (hc : IsInk c) (t : Text) : endLine (c :: t) = none := by
  simp [endLine, hc.skipBlanks, hc.2.2.2, hc.newline?]

theorem endLine_break (t : Text) : endLine ('\n' :: t) = some t := rfl

/-- A value starts with a quote, a digit or a bracket. -/
theorem write_eq_cons (x : Datum) : ∃ c u, x.write = c :: u ∧ IsInk c := by
  have hstring : ∀ s : String, ∃ c u, writeString s.toList = c :: u ∧ IsInk c := fun s => by
    obtain ⟨q, u, hu, hq⟩ := writeString_eq_cons s.toList
    exact ⟨q, u, hu, isInk_quote hq⟩
  match x with
  | .string s => exact hstring s
  | .natural n =>
    obtain ⟨c, u, hu⟩ := List.exists_cons_of_ne_nil (Nat.toDigits_ne_nil (n := n) (b := 10))
    have hne : ∀ d, d.isDigit = false → c ≠ d := fun d hd h =>
      notMem_digits (fun e => mem_toDigits) hd (show d ∈ Nat.toDigits 10 n by simp [hu, h])
    refine ⟨c, u, hu, ?_, hne _ rfl, hne _ rfl, hne _ rfl⟩
    simp [isBlank, hne ' ' rfl, hne '\t' rfl]
  | .strings [] => exact ⟨_, _, rfl, by decide⟩
  | .strings [_] => exact ⟨_, _, rfl, by decide⟩
  | .strings (_ :: _ :: _) => exact ⟨_, _, rfl, by decide⟩

theorem readLine_pair (k : String) {x : Datum} (hx : x.Fits) (rest : Text) :
    readLine ((Line.pair k x).write ++ rest) = some (some (.pair ⟨[], k⟩ x.value), rest) := by
  obtain ⟨d, v, hv, hd⟩ := write_eq_cons x
  have htext : (Line.pair k x).write ++ rest =
      writeKey k.toList ++ (' ' :: '=' :: ' ' :: (x.write ++ '\n' :: rest)) := by
    simp [Line.write]
  have hkey : readKey (writeKey k.toList ++ (' ' :: '=' :: ' ' :: (x.write ++ '\n' :: rest))) =
      some (⟨[], k⟩, '=' :: ' ' :: (x.write ++ '\n' :: rest)) :=
    readKey_writeKey (by simp; decide) rfl
  have hgap : skipBlanks (' ' :: (x.write ++ '\n' :: rest)) = x.write ++ '\n' :: rest := by
    rw [hv]
    exact hd.skipBlanks _
  have hend : endLine (writeKey k.toList ++ (' ' :: '=' :: ' ' :: (x.write ++ '\n' :: rest))) = none := by
    obtain ⟨c, u, hu, hink, -⟩ := writeKey_eq_cons k.toList
    rw [hu]
    exact endLine_of_isInk hink _
  have hpair : readPair (some ∘ skipBlanks) (readValue maxDepth)
      (writeKey k.toList ++ (' ' :: '=' :: ' ' :: (x.write ++ '\n' :: rest))) =
      some ((⟨[], k⟩, x.value), '\n' :: rest) := by
    have hequals : skipBlanks ('=' :: ' ' :: (x.write ++ '\n' :: rest)) = '=' :: ' ' :: (x.write ++ '\n' :: rest) :=
      rfl
    simp only [readPair, hkey, Option.bind_eq_bind, Option.bind_some, Function.comp_apply, hequals,
      expect?_cons_self, hgap]
    rw [show maxDepth = 79 + 1 from rfl, readValue_write hx]
    rfl
  rw [htext, readLine, hend]
  simp only [skipBlanks_writeKey, readStatement, expect?_writeKey, hpair]
  rfl

/-- What stands in a line after its first bracket. -/
theorem readHeader_table (k : String) (rest : Text) :
    readHeader (writeKey k.toList ++ (']' :: rest)) = some (.table ⟨[], k⟩, rest) := by
  have hkey : readKey (writeKey k.toList ++ (']' :: rest)) = some (⟨[], k⟩, ']' :: rest) :=
    readKey_writeKey (by simp; decide) rfl
  simp [readHeader, expect?_writeKey, skipBlanks_writeKey, hkey]

theorem readHeader_element (k : String) (rest : Text) :
    readHeader ('[' :: (writeKey k.toList ++ (']' :: ']' :: rest))) = some (.element ⟨[], k⟩, rest) := by
  have hkey : readKey (writeKey k.toList ++ (']' :: ']' :: rest)) = some (⟨[], k⟩, ']' :: ']' :: rest) :=
    readKey_writeKey (by simp; decide) rfl
  simp [readHeader, skipBlanks_writeKey, hkey]

/-- A header after its empty line. -/
theorem readLine_header {s : Statement} {t rest : Text} (h : readHeader t = some (s, '\n' :: rest)) :
    readLine ('[' :: t) = some (some s, rest) := by
  have hink : IsInk '[' := by decide
  rw [readLine, endLine_of_isInk hink, hink.skipBlanks]
  simp [readStatement, h, endLine_break]

/-- Whether all numbers in a line fit into 64 bits with a sign. -/
def Line.Fits : Line → Prop
  | .pair _ datum => datum.Fits
  | _ => True

theorem readLines_step {t rest : Text} {s : Option Statement} (h : readLine t = some (s, rest))
    (hlt : rest.length < t.length) : readLines t = (readLines rest).map (s.toList ++ ·) := by
  rw [readLines, h]
  cases rest with
  | nil =>
    rw [show readLines [] = some [] by simp [readLines, readLine, endLine, skipBlanks]]
    simp
  | cons c rest => simp only [List.isEmpty_cons, Bool.false_eq_true, if_false, if_pos hlt]

/-- A line is read off the start of a text. -/
theorem readLines_line {l : Line} (hl : l.Fits) (rest : Text) :
    readLines (l.write ++ rest) = (readLines rest).map (l.statement :: ·) := by
  have hheader : ∀ {s t}, readHeader t = some (s, '\n' :: rest) → rest.length ≤ t.length →
      readLines ('\n' :: '[' :: t) = (readLines rest).map (s :: ·) := fun h hlength => by
    rw [readLines_step (s := none) (show readLine _ = some (none, '[' :: _) from rfl) (by simp),
      readLines_step (readLine_header h) (by simp; omega), Option.map_map]
    rfl
  cases l with
  | pair k x =>
    refine readLines_step (readLine_pair k hl rest) ?_
    simp [Line.write]
    omega
  | table k =>
    rw [show (Line.table k).write ++ rest = '\n' :: '[' :: (writeKey k.toList ++ (']' :: '\n' :: rest)) by
      simp [Line.write]]
    exact hheader (readHeader_table k _) (by simp; omega)
  | element k =>
    rw [show (Line.element k).write ++ rest =
        '\n' :: '[' :: '[' :: (writeKey k.toList ++ (']' :: ']' :: '\n' :: rest)) by
      simp [Line.write]]
    exact hheader (readHeader_element k _) (by simp; omega)

/-- Lines are read as they were written. -/
theorem readLines_write {ls : List Line} (h : ∀ l ∈ ls, l.Fits) :
    readLines (write ls) = some (ls.map Line.statement) := by
  induction ls with
  | nil => simp [write, readLines, readLine, endLine, skipBlanks]
  | cons l ls ih =>
    have hrest := ih fun l' hl' => h l' (by simp [hl'])
    rw [show write (l :: ls) = l.write ++ write ls from rfl, readLines_line (h l (by simp)), hrest]
    rfl

end Toml

end TemplateEngine
