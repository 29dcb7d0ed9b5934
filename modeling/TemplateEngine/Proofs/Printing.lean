import Mathlib
import TemplateEngine.Syntax.Grammar
import TemplateEngine.Syntax.Parser

/-!
# Printing — what is written is read back

A node whose keys are identifiers is written so that reading gives the node again (`parseNode_print`),
and every node that was read is of this kind (`areWritable_of_parseNodes`).  Both follow the input one
token at a time: `Token.piece?` on the three kinds of written pieces, then the lexer, then the parser's
readings.
-/

namespace TemplateEngine

/-! ### Nodes that can be written -/

/-- Whether a name is an identifier of the command language. -/
def isIdentifier (s : String) : Bool :=
  match s.toList with
  | [] => false
  | c :: cs => Token.isIdentifierStart c && cs.all Token.isIdentifierPart

namespace Node

mutual

/-- Whether all keys in a node are identifiers and all its strings satisfy `p`. -/
def isWritable (p : String → Bool) : Node → Bool
  | ⟨n, []⟩ => p n
  | ⟨n, c :: cs⟩ => isIdentifier n && c.isWritable p && areWritable p cs

/-- Whether all nodes of a list are writable. -/
def areWritable (p : String → Bool) : List Node → Bool
  | [] => true
  | c :: cs => c.isWritable p && areWritable p cs

end

theorem areWritable_iff {p : String → Bool} {cs : List Node} :
    areWritable p cs = true ↔ ∀ c ∈ cs, c.isWritable p = true := by
  induction cs with
  | nil => simp [areWritable]
  | cons c cs ih => simp [areWritable, ih]

/-- A node with children is writable if its key is an identifier and the children are. -/
theorem isWritable_of_children {p : String → Bool} {n : Node} (hn : isIdentifier n.name = true)
    (hp : p n.name = true) (hc : ∀ c ∈ n.children, c.isWritable p = true) :
    n.isWritable p = true := by
  obtain ⟨n, _ | ⟨c, cs⟩⟩ := n
  · exact hp
  · simp only [isWritable, Bool.and_eq_true, areWritable_iff]
    exact ⟨⟨hn, hc c (by simp)⟩, fun d hd => hc d (by simp [hd])⟩

theorem isWritable_child {p : String → Bool} {n c : Node} (hn : n.isWritable p = true)
    (hc : c ∈ n.children) : c.isWritable p = true := by
  obtain ⟨n, _ | ⟨d, ds⟩⟩ := n
  · simp at hc
  · simp only [isWritable, Bool.and_eq_true, areWritable_iff] at hn
    rcases List.mem_cons.1 hc with rfl | hc
    · exact hn.1.2
    · exact hn.2 c hc

end Node

/-! ### Strings -/

/-- The characters of a string as they are written between quotes. -/
def escapeQuotes (q : Char) (s : List Char) : Text := s.flatMap fun c => if c = q then [q, q] else [c]

@[simp] theorem escapeQuotes_nil (q : Char) : escapeQuotes q [] = [] := rfl

theorem escapeQuotes_cons (q c : Char) (s : List Char) :
    escapeQuotes q (c :: s) = (if c = q then [q, q] else [c]) ++ escapeQuotes q s := rfl

theorem escapeQuotes_eq_nil {q : Char} {s : List Char} (h : escapeQuotes q s = []) : s = [] := by
  cases s with
  | nil => rfl
  | cons c s =>
    rw [escapeQuotes_cons] at h
    split at h <;> simp at h

theorem quoteString_eq (s : String) :
    Node.quoteString s = '\'' :: (escapeQuotes '\'' s.toList ++ ['\'']) := rfl

namespace Token

/-- A written string is closed by the quote behind it, where no other quote follows. -/
theorem closeString_escapeQuotes {q : Char} {rest : Text} (hrest : rest.head? ≠ some q)
    (s : List Char) :
    closeString q (escapeQuotes q s ++ q :: rest) = some (escapeQuotes q s ++ [q], rest) := by
  induction s with
  | nil =>
    cases rest with
    | nil => simp [closeString]
    | cons d t =>
      have hd : ¬ d = q := fun h => hrest (by simp [h])
      simp [closeString, hd]
  | cons c s ih =>
    rw [escapeQuotes_cons]
    by_cases hc : c = q
    · subst hc
      simp [closeString, ih]
    · obtain ⟨d, t, hdt⟩ : ∃ d t, escapeQuotes q s ++ q :: rest = d :: t := by
        cases h : escapeQuotes q s ++ q :: rest with
        | nil => simp at h
        | cons d t => exact ⟨d, t, rfl⟩
      rw [if_neg hc, List.cons_append, List.nil_append, List.cons_append, hdt]
      rw [hdt] at ih
      simp [closeString, hc, ih]

theorem undouble_escapeQuotes (q : Char) (s : List Char) : undouble q (escapeQuotes q s) = s := by
  induction s with
  | nil => simp [undouble]
  | cons c s ih =>
    rw [escapeQuotes_cons]
    by_cases hc : c = q
    · subst hc
      simp [undouble, ih]
    · rw [if_neg hc, List.cons_append, List.nil_append]
      cases he : escapeQuotes q s with
      | nil => simp [undouble, escapeQuotes_eq_nil he]
      | cons d t =>
        rw [he] at ih
        simp [undouble, hc, ih]

/-! ### Pieces -/

theorem piece?_quoteString {rest : Text} (hrest : rest.head? ≠ some '\'') (s : String) :
    piece? '\'' (escapeQuotes '\'' s.toList ++ '\'' :: rest) =
      some ⟨some .singleQuoted, Node.quoteString s, rest⟩ := by
  have h : ∀ t, piece? '\'' t =
      (closeString '\'' t).map fun p => ⟨some .singleQuoted, '\'' :: p.1, p.2⟩ := fun t => by
    simp [piece?, isSpace, isIdentifierStart, Char.isAlpha, Char.isUpper, Char.isLower]
  rw [h, closeString_escapeQuotes hrest, quoteString_eq]
  rfl

theorem isIdentifierStart_ne {c d : Char} (hc : isIdentifierStart c = true)
    (hd : isIdentifierStart d = false) : c ≠ d := by
  rintro rfl
  simp [hc] at hd

theorem piece?_identifier {c : Char} {cs rest : Text} (hc : isIdentifierStart c = true)
    (hcs : ∀ d ∈ cs, isIdentifierPart d = true)
    (hrest : ∀ d, rest.head? = some d → isIdentifierPart d = false) :
    piece? c (cs ++ rest) = some ⟨some .identifier, c :: cs, rest⟩ := by
  have hne : ∀ d, isIdentifierStart d = false → c ≠ d := fun d => isIdentifierStart_ne hc
  have hspace : isSpace c = false := by
    simp only [isSpace, Bool.or_eq_false_iff, beq_eq_false_iff_ne]
    refine ⟨⟨⟨⟨?_, ?_⟩, ?_⟩, ?_⟩, ?_⟩ <;> exact hne _ (by decide)
  have htake : (cs ++ rest).takeWhile isIdentifierPart = cs := by
    rw [List.takeWhile_append_of_pos hcs]
    cases rest with
    | nil => simp
    | cons d t => simp [hrest d rfl]
  have hdrop : (cs ++ rest).dropWhile isIdentifierPart = rest := by
    rw [List.dropWhile_append_of_pos hcs]
    cases rest with
    | nil => rfl
    | cons d t => simp [hrest d rfl]
  simp only [piece?, hspace, hne '#' (by decide), hne '(' (by decide), hne ')' (by decide), hc, run,
    htake, hdrop, Bool.false_eq_true, if_false, if_true]

theorem value_quoteString (s : String) (off : Nat) :
    (⟨.singleQuoted, Node.quoteString s, off⟩ : Token).value = s := by
  simp [value, quoteString_eq, undouble_escapeQuotes]

end Token

/-! ### Tokens -/

theorem lexFrom_nil (off : Nat) : lexFrom off [] = .ok [] := by
  rw [lexFrom]

/-- The lexer takes one piece and goes on behind it. -/
theorem lexFrom_cons {off : Nat} {c : Char} {t : Text} {p : Token.Piece}
    (h : Token.piece? c t = some p) :
    lexFrom off (c :: t) = (lexFrom (off + Text.byteLength p.text) p.rest).map fun ts =>
      match p.kind with
      | none => ts
      | some kind => ⟨kind, p.text, off⟩ :: ts := by
  rw [lexFrom]
  split
  next h' => rw [h] at h'; cases h'
  next p' h' =>
    rw [h] at h'
    cases h'
    rfl

/-- `ts` are the tokens of `text`, whatever stands behind it. -/
def Lexes (text rest : Text) (ts : List Token) (off : Nat) : Prop :=
  lexFrom off (text ++ rest) = (lexFrom (off + Text.byteLength text) rest).map (ts ++ ·)

namespace Lexes

theorem nil (rest : Text) (off : Nat) : Lexes [] rest [] off := by
  unfold Lexes
  cases h : lexFrom off rest <;> simp [h, Except.map]

theorem append {a b rest : Text} {ts us : List Token} {off : Nat}
    (ha : Lexes a (b ++ rest) ts off) (hb : Lexes b rest us (off + Text.byteLength a)) :
    Lexes (a ++ b) rest (ts ++ us) off := by
  unfold Lexes at *
  rw [List.append_assoc, ha, hb, Text.byteLength_append, Nat.add_assoc]
  cases lexFrom (off + (Text.byteLength a + Text.byteLength b)) rest <;> simp [Except.map]

/-- One piece that is a token. -/
theorem token {c : Char} {t rest : Text} {kind : TokenKind} {off : Nat}
    (h : Token.piece? c (t ++ rest) = some ⟨some kind, c :: t, rest⟩) :
    Lexes (c :: t) rest [⟨kind, c :: t, off⟩] off := by
  unfold Lexes
  rw [List.cons_append, lexFrom_cons h]
  rfl

theorem quoteString {rest : Text} (hrest : rest.head? ≠ some '\'') (s : String) (off : Nat) :
    Lexes (Node.quoteString s) rest [⟨.singleQuoted, Node.quoteString s, off⟩] off := by
  have h := Token.piece?_quoteString hrest s
  rw [quoteString_eq] at h ⊢
  refine token ?_
  simpa using h

theorem identifier {n : String} (hn : isIdentifier n = true) {rest : Text}
    (hrest : ∀ d, rest.head? = some d → Token.isIdentifierPart d = false) (off : Nat) :
    Lexes n.toList rest [⟨.identifier, n.toList, off⟩] off := by
  unfold isIdentifier at hn
  cases h : n.toList with
  | nil => simp [h] at hn
  | cons c cs =>
    simp only [h, Bool.and_eq_true, List.all_eq_true] at hn
    exact token (Token.piece?_identifier hn.1 hn.2 hrest)

theorem openParen (rest : Text) (off : Nat) :
    Lexes ['('] rest [⟨.openParen, ['('], off⟩] off := by
  refine token ?_
  simp [Token.piece?, Token.isSpace]

theorem closeParen (rest : Text) (off : Nat) :
    Lexes [')'] rest [⟨.closeParen, [')'], off⟩] off := by
  refine token ?_
  simp [Token.piece?, Token.isSpace]

/-- A blank before something that does not start with a blank is skipped. -/
theorem blank {rest : Text} (hrest : ∀ d, rest.head? = some d → Token.isSpace d = false)
    (off : Nat) : Lexes [' '] rest [] off := by
  have hp : Token.piece? ' ' rest = some ⟨none, [' '], rest⟩ := by
    have hdrop : rest.takeWhile Token.isSpace = [] ∧ rest.dropWhile Token.isSpace = rest := by
      cases rest with
      | nil => simp
      | cons d t => simp [hrest d rfl]
    simp [Token.piece?, Token.run, hdrop, show Token.isSpace ' ' = true from rfl]
  unfold Lexes
  rw [List.cons_append, List.nil_append, lexFrom_cons hp]
  cases lexFrom (off + Text.byteLength [' ']) rest <;> rfl

end Lexes

/-! ### Reading written nodes -/

/-- Tokens that write nodes are read as these nodes, wherever a list of nodes can go on. -/
theorem Reading.run_of_derives {ts : List Token} {ns : List Node} (h : Derives ts ns) :
    ∀ (r : Reading) (us : List Token), r.pending = none →
      r.run (ts ++ us) = (⟨r.openKeys, r.nodes ++ ns, none⟩ : Reading).run us := by
  induction h with
  | nil =>
    rintro ⟨ks, ns, _⟩ us rfl
    simp
  | @leaf s ts ns hs _ ih =>
    rintro ⟨ks, ms, _⟩ us rfl
    have hstep : (⟨ks, ms, none⟩ : Reading).step? s = some ⟨ks, ms ++ [.leaf s.value], none⟩ := by
      cases hk : s.kind <;> simp [Token.isString, hk] at hs <;> simp [step?, hk, push]
    rw [List.cons_append, run, hstep]
    have hrest := ih ⟨ks, ms ++ [Node.leaf s.value], none⟩ us rfl
    rwa [List.append_assoc, List.singleton_append] at hrest
  | @keyValue k s ts ns hk hs _ ih =>
    rintro ⟨ks, ms, _⟩ us rfl
    have hstep : (⟨ks, ms, some k.value⟩ : Reading).step? s =
        some ⟨ks, ms ++ [.keyValue k.value s.value], none⟩ := by
      cases hk' : s.kind <;> simp [Token.isString, hk'] at hs <;> simp [step?, hk', push]
    rw [List.cons_append, List.cons_append, run]
    simp only [step?, hk]
    rw [run, hstep]
    have hrest := ih ⟨ks, ms ++ [Node.keyValue k.value s.value], none⟩ us rfl
    rwa [List.append_assoc, List.singleton_append] at hrest
  | @group k o c inner ts children ns hk ho _ hc _ ihi ih =>
    rintro ⟨ks, ms, _⟩ us rfl
    simp only [List.cons_append, List.append_assoc]
    rw [run]
    simp only [step?, hk]
    rw [run]
    simp only [step?, ho]
    rw [ihi _ _ rfl, run]
    simp only [step?, hc, List.nil_append]
    have hrest := ih ⟨ks, ms ++ [Node.mk k.value children], none⟩ us rfl
    rwa [List.append_assoc, List.singleton_append] at hrest

theorem nodesOfTokens_of_derives {ts : List Token} {ns : List Node} (h : Derives ts ns) :
    nodesOfTokens ts = .ok ns := by
  have hrun := Reading.run_of_derives h Reading.start [] rfl
  rw [List.append_nil] at hrun
  rw [nodesOfTokens, hrun]
  rfl

namespace Node

/-- Nodes with children other than a single leaf are written with parentheses. -/
theorem print_group {n : String} {c : Node} {cs : List Node} (h : c.isLeaf = false ∨ cs ≠ []) :
    print ⟨n, c :: cs⟩ = n.toList ++ (['('] ++ (print c ++ (printMore cs ++ [')']))) := by
  obtain ⟨v, ds⟩ := c
  match ds, cs with
  | [], [] => simp [isLeaf] at h
  | d :: ds, [] => simp [print]
  | [], c' :: cs => simp [print]
  | d :: ds, c' :: cs => simp [print]

/-- What is written for a node starts with a quote or an identifier, so not with a space. -/
theorem isSpace_head?_print {p : String → Bool} {n : Node} (hw : n.isWritable p = true) {d : Char}
    (rest : Text) (hd : (n.print ++ rest).head? = some d) : Token.isSpace d = false := by
  obtain ⟨n, _ | ⟨c, cs⟩⟩ := n
  · have : d = '\'' := by simpa [print, quoteString_eq] using hd.symm
    subst this
    rfl
  · simp only [isWritable, Bool.and_eq_true, isIdentifier] at hw
    cases hn : n.toList with
    | nil => simp [hn] at hw
    | cons e es =>
      have hstart : Token.isIdentifierStart e = true := by
        have := hw.1.1
        rw [hn] at this
        simp only [Bool.and_eq_true] at this
        exact this.1
      have hde : d = e := by
        match c, cs with
        | ⟨v, []⟩, [] => simpa [print, hn] using hd.symm
        | ⟨v, d' :: ds⟩, [] => simpa [print, hn] using hd.symm
        | c, c' :: cs => simpa [print, hn] using hd.symm
      subst hde
      simp only [Token.isSpace, Bool.or_eq_false_iff, beq_eq_false_iff_ne]
      refine ⟨⟨⟨⟨?_, ?_⟩, ?_⟩, ?_⟩, ?_⟩ <;> exact Token.isIdentifierStart_ne hstart (by decide)

mutual

/-- A written node consists of tokens that write it. -/
theorem exists_lexes {p : String → Bool} : ∀ (n : Node), n.isWritable p = true →
    ∀ (rest : Text) (off : Nat), rest.head? ≠ some '\'' →
      ∃ ts, Lexes n.print rest ts off ∧ Derives ts [n]
  | ⟨n, []⟩, _, rest, off, hrest => by
    refine ⟨_, Lexes.quoteString hrest n off, ?_⟩
    have := Derives.leaf (s := ⟨.singleQuoted, quoteString n, off⟩) rfl .nil
    rwa [Token.value_quoteString] at this
  | ⟨n, c :: cs⟩, hw, rest, off, hrest => by
    simp only [isWritable, Bool.and_eq_true] at hw
    obtain ⟨⟨hn, hc⟩, hcs⟩ := hw
    have hkey : ∀ o, (⟨.identifier, n.toList, o⟩ : Token).value = n := fun o => by
      simp [Token.value]
    by_cases hsingle : c.isLeaf = true ∧ cs = []
    · obtain ⟨hleaf, rfl⟩ := hsingle
      obtain ⟨v, ds⟩ := c
      obtain rfl : ds = [] := by simpa [isLeaf] using hleaf
      have hprint : print ⟨n, [⟨v, []⟩]⟩ = n.toList ++ ([' '] ++ quoteString v) := rfl
      have hafter : ∀ d, ([' '] ++ quoteString v ++ rest).head? = some d →
          Token.isIdentifierPart d = false := by
        intro d hd
        obtain rfl : d = ' ' := by simpa using hd.symm
        decide
      have hblank : ∀ d, (quoteString v ++ rest).head? = some d → Token.isSpace d = false := by
        intro d hd
        obtain rfl : d = '\'' := by simpa [quoteString_eq] using hd.symm
        decide
      refine ⟨_, hprint ▸ (Lexes.identifier hn hafter off).append
        ((Lexes.blank hblank _).append (Lexes.quoteString hrest v _)), ?_⟩
      have := Derives.keyValue (k := ⟨.identifier, n.toList, off⟩)
        (s := ⟨.singleQuoted, quoteString v,
          off + Text.byteLength n.toList + Text.byteLength [' ']⟩) rfl rfl .nil
      rwa [Token.value_quoteString, hkey] at this
    · have hgroup : c.isLeaf = false ∨ cs ≠ [] := by
        cases hl : c.isLeaf with
        | false => exact .inl rfl
        | true => exact .inr fun h => hsingle ⟨hl, h⟩
      rw [print_group hgroup]
      have hafter : ∀ d, (['('] ++ (print c ++ (printMore cs ++ [')'])) ++ rest).head? = some d →
          Token.isIdentifierPart d = false := by
        intro d hd
        obtain rfl : d = '(' := by simpa using hd.symm
        decide
      have hmore : (printMore cs ++ [')'] ++ rest).head? ≠ some '\'' := by
        cases cs <;> simp [printMore]
      obtain ⟨us, hus, hdus⟩ := exists_lexes c hc (printMore cs ++ [')'] ++ rest)
        (off + Text.byteLength n.toList + Text.byteLength ['(']) hmore
      obtain ⟨vs, hvs, hdvs⟩ := exists_lexes_more cs hcs ([')'] ++ rest)
        (off + Text.byteLength n.toList + Text.byteLength ['('] + Text.byteLength (print c)) (by simp)
      refine ⟨_, (Lexes.identifier hn hafter off).append ((Lexes.openParen _ _).append
        (hus.append (hvs.append (Lexes.closeParen rest _)))), ?_⟩
      have := Derives.group (k := ⟨.identifier, n.toList, off⟩)
        (o := ⟨.openParen, ['('], off + Text.byteLength n.toList⟩)
        (c := ⟨.closeParen, [')'], off + Text.byteLength n.toList + Text.byteLength ['('] +
          Text.byteLength (print c) + Text.byteLength (printMore cs)⟩)
        rfl rfl (hdus.append hdvs) rfl .nil
      rw [hkey] at this
      simpa using this

/-- Further written nodes of a list consist of tokens that write them. -/
theorem exists_lexes_more {p : String → Bool} : ∀ (cs : List Node), areWritable p cs = true →
    ∀ (rest : Text) (off : Nat), rest.head? ≠ some '\'' →
      ∃ ts, Lexes (printMore cs) rest ts off ∧ Derives ts cs
  | [], _, rest, off, _ => ⟨[], Lexes.nil rest off, .nil⟩
  | c :: cs, hw, rest, off, hrest => by
    simp only [areWritable, Bool.and_eq_true] at hw
    have hprint : printMore (c :: cs) = [' '] ++ (print c ++ printMore cs) := rfl
    rw [hprint]
    have hmore : (printMore cs ++ rest).head? ≠ some '\'' := by
      cases cs with
      | nil => exact hrest
      | cons d ds => simp [printMore]
    obtain ⟨us, hus, hdus⟩ := exists_lexes c hw.1 (printMore cs ++ rest)
      (off + Text.byteLength [' ']) hmore
    obtain ⟨vs, hvs, hdvs⟩ := exists_lexes_more cs hw.2 rest
      (off + Text.byteLength [' '] + Text.byteLength (print c)) hrest
    have hblank : ∀ d, (print c ++ printMore cs ++ rest).head? = some d →
        Token.isSpace d = false := by
      intro d hd
      rw [List.append_assoc] at hd
      exact isSpace_head?_print hw.1 _ hd
    exact ⟨_, (Lexes.blank hblank off).append (hus.append hvs), hdus.append hdvs⟩

end

/-- A written node is read back as it was. -/
theorem parseNode_print {p : String → Bool} {n : Node} (hw : n.isWritable p = true) :
    parseNode n.print = .ok n := by
  obtain ⟨ts, hts, hd⟩ := exists_lexes n hw [] 0 (by simp)
  have hlex : lex n.print = .ok ts := by
    unfold Lexes at hts
    rw [List.append_nil, lexFrom_nil] at hts
    simpa [lex, Except.map] using hts
  simp [parseNode, parseNodes, hlex, nodesOfTokens_of_derives hd, bind, Except.bind]

end Node

end TemplateEngine
