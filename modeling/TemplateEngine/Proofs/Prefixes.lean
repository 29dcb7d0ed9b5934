import TemplateEngine.Proofs.Reading

/-!
# Prefixes — the parser follows its grammar and stops at the first wrong token

* `Derivation.unique`: tokens are derived in at most one way.
* `nodesOfTokens_eq_ok_iff`: the nodes found are those of the derivation.
* `derives_of_run`: what the parser has read can be completed.  `not_derives_of_step?_eq_none`: what it
  does not take cannot.
* `exists_front`: an input can be cut behind any of its tokens and go on differently there, so what has
  been read can be completed to an input that is accepted (`continuesInput_of_run`).
-/

namespace TemplateEngine

/-! ### Derivations -/

/-- The ways in which the grammar derives a list of tokens. -/
inductive Derivation : List Token → Type
  | nil : Derivation []
  | leaf {s : Token} {ts : List Token} (hs : s.isString = true) (rest : Derivation ts) :
      Derivation (s :: ts)
  | keyValue {k s : Token} {ts : List Token} (hk : k.kind = .identifier) (hs : s.isString = true)
      (rest : Derivation ts) : Derivation (k :: s :: ts)
  | group {k o c : Token} {inner ts : List Token} (hk : k.kind = .identifier)
      (ho : o.kind = .openParen) (children : Derivation inner) (hc : c.kind = .closeParen)
      (rest : Derivation ts) : Derivation (k :: o :: inner ++ c :: ts)

namespace Derivation

/-- The nodes that tokens derived in this way write. -/
def nodes {ts : List Token} : Derivation ts → List Node
  | nil => []
  | leaf (s := s) _ rest => .leaf s.value :: rest.nodes
  | keyValue (k := k) (s := s) _ _ rest => .keyValue k.value s.value :: rest.nodes
  | group (k := k) _ _ children _ rest => ⟨k.value, children.nodes⟩ :: rest.nodes

theorem derives {ts : List Token} (d : Derivation ts) : Derives ts d.nodes := by
  induction d with
  | nil => exact .nil
  | leaf hs _ ih => exact .leaf hs ih
  | keyValue hk hs _ ih => exact .keyValue hk hs ih
  | group hk ho _ hc _ ihc ih => exact .group hk ho ihc hc ih

end Derivation

/-- What tokens write is what a derivation of them says. -/
theorem derives_iff_derivation {ts : List Token} {ns : List Node} :
    Derives ts ns ↔ ∃ d : Derivation ts, d.nodes = ns := by
  constructor
  · intro h
    induction h with
    | nil => exact ⟨.nil, rfl⟩
    | leaf hs _ ih =>
      obtain ⟨d, rfl⟩ := ih
      exact ⟨.leaf hs d, rfl⟩
    | keyValue hk hs _ ih =>
      obtain ⟨d, rfl⟩ := ih
      exact ⟨.keyValue hk hs d, rfl⟩
    | group hk ho _ hc _ ihi ih =>
      obtain ⟨children, rfl⟩ := ihi
      obtain ⟨rest, rfl⟩ := ih
      exact ⟨.group hk ho children hc rest, rfl⟩
  · rintro ⟨d, rfl⟩
    exact d.derives

/-- The parser finds the nodes that the tokens write. -/
theorem nodesOfTokens_eq_ok_iff {ts : List Token} {ns : List Node} :
    nodesOfTokens ts = .ok ns ↔ Derives ts ns :=
  ⟨derives_of_nodesOfTokens, nodesOfTokens_of_derives⟩

/-- The list in parentheses ends at the first parenthesis that closes none of its own. -/
theorem Derives.not_append_closeParen {ts us : List Token} {c : Token} {ns ms : List Node}
    (h : Derives ts ns) (hc : c.kind = .closeParen) : ¬ Derives (ts ++ c :: us) ms := by
  intro h'
  have hstop := Reading.run_of_derives h Reading.start (c :: us) rfl
  have hread := Reading.run_of_derives h' Reading.start [] rfl
  rw [List.append_nil, hstop] at hread
  simp [Reading.run, Reading.step?, hc, Reading.start] at hread

theorem Derives.eq_of_append_closeParen {ts ts' us us' : List Token} {c c' : Token}
    {ns ns' : List Node} (h : Derives ts ns) (h' : Derives ts' ns') (hc : c.kind = .closeParen)
    (hc' : c'.kind = .closeParen) (heq : ts ++ c :: us = ts' ++ c' :: us') : ts = ts' := by
  rcases List.append_eq_append_iff.1 heq with ⟨m, hm, hrest⟩ | ⟨m, hm, hrest⟩
  · cases m with
    | nil => simpa using hm.symm
    | cons x m =>
      obtain ⟨rfl, -⟩ := List.cons_eq_cons.1 hrest
      exact absurd (hm ▸ h') (h.not_append_closeParen hc)
  · cases m with
    | nil => simpa using hm
    | cons x m =>
      obtain ⟨rfl, -⟩ := List.cons_eq_cons.1 hrest
      exact absurd (hm ▸ h) (h'.not_append_closeParen hc')

theorem Token.isString_ne {t : Token} (h : t.isString = true) :
    t.kind ≠ .identifier ∧ t.kind ≠ .openParen := by
  constructor <;> intro hk <;> simp [isString, hk] at h

/-- Derivations of the same tokens are the same.  The tokens are kept apart here because those of a
group are no variable. -/
theorem Derivation.heq {ts us : List Token} (d : Derivation ts) (e : Derivation us) (h : ts = us) :
    HEq d e := by
  induction d generalizing us with
  | nil =>
    cases e with
    | nil => rfl
    | leaf => cases h
    | keyValue => cases h
    | group => cases h
  | leaf hs rest ih =>
    cases e with
    | nil => cases h
    | leaf hs' rest' =>
      obtain ⟨rfl, rfl⟩ := List.cons_eq_cons.1 h
      obtain rfl := eq_of_heq (ih rest' rfl)
      rfl
    | keyValue hk => exact absurd ((List.cons_eq_cons.1 h).1 ▸ hk) (Token.isString_ne hs).1
    | group hk => exact absurd ((List.cons_eq_cons.1 h).1 ▸ hk) (Token.isString_ne hs).1
  | keyValue hk hs rest ih =>
    cases e with
    | nil => cases h
    | leaf hs' => exact absurd ((List.cons_eq_cons.1 h).1 ▸ hk) (Token.isString_ne hs').1
    | keyValue hk' hs' rest' =>
      injection h with hkey h
      injection h with hstring h
      subst hkey hstring h
      obtain rfl := eq_of_heq (ih rest' rfl)
      rfl
    | group hk' ho' =>
      obtain ⟨-, h⟩ := List.cons_eq_cons.1 h
      exact absurd ((List.cons_eq_cons.1 h).1 ▸ ho') (Token.isString_ne hs).2
  | group hk ho children hc rest ihc ih =>
    cases e with
    | nil => cases h
    | leaf hs' => exact absurd ((List.cons_eq_cons.1 h).1 ▸ hk) (Token.isString_ne hs').1
    | keyValue hk' hs' =>
      obtain ⟨-, h⟩ := List.cons_eq_cons.1 h
      exact absurd ((List.cons_eq_cons.1 h).1 ▸ ho) (Token.isString_ne hs').2
    | group hk' ho' children' hc' rest' =>
      injection h with hkey h
      injection h with hopen h
      have hinner := children.derives.eq_of_append_closeParen children'.derives hc hc' h
      subst hkey hopen hinner
      injection List.append_cancel_left h with hclose hrest
      subst hclose hrest
      obtain rfl := eq_of_heq (ihc children' rfl)
      obtain rfl := eq_of_heq (ih rest' rfl)
      rfl

/-- Tokens are derived in at most one way. -/
theorem Derivation.unique {ts : List Token} (d e : Derivation ts) : d = e :=
  eq_of_heq (d.heq e rfl)

/-! ### What has been read -/

namespace Reading

theorem run_append {r r' : Reading} {ts : List Token} (h : r.run ts = .ok r') (us : List Token) :
    r.run (ts ++ us) = r'.run us := by
  induction ts generalizing r with
  | nil =>
    obtain rfl : r = r' := by simpa [run] using h
    rfl
  | cons t ts ih =>
    rw [run] at h
    rw [List.cons_append, run]
    cases hstep : r.step? t with
    | none => simp [hstep] at h
    | some r₁ =>
      rw [hstep] at h
      exact ih h

/-- A reading that fails has taken all tokens before one that it does not take. -/
theorem exists_of_run_eq_error {r : Reading} {ts : List Token} {e : SyntaxError}
    (h : r.run ts = .error e) :
    ∃ before t after r', ts = before ++ t :: after ∧ r.run before = .ok r' ∧ r'.step? t = none ∧
      e = .unexpectedToken t.offset t.text := by
  induction ts generalizing r with
  | nil => cases h
  | cons t ts ih =>
    rw [run] at h
    cases hstep : r.step? t with
    | none =>
      rw [hstep] at h
      exact ⟨[], t, ts, r, rfl, rfl, hstep, (Except.error.inj h).symm⟩
    | some r₁ =>
      rw [hstep] at h
      obtain ⟨before, u, after, r', rfl, hrun, hnone, he⟩ := ih h
      refine ⟨t :: before, u, after, r', rfl, ?_, hnone, he⟩
      rw [run, hstep]
      exact hrun

/-- The kinds of tokens that complete a reading: a value for a key that waits for one, and a
parenthesis for every open key. -/
def completion (r : Reading) : List TokenKind :=
  (if r.pending.isSome then [.singleQuoted] else []) ++ List.replicate r.openKeys.length .closeParen

/-- Closing all open keys ends the reading. -/
theorem run_closeParens (ks : List OpenKey) (ns : List Node) {us : List Token}
    (h : us.map (·.kind) = List.replicate ks.length .closeParen) :
    ∃ ms, (⟨ks, ns, none⟩ : Reading).run us = .ok ⟨[], ms, none⟩ := by
  induction ks generalizing ns us with
  | nil =>
    obtain rfl : us = [] := by simpa using h
    exact ⟨ns, rfl⟩
  | cons k ks ih =>
    cases us with
    | nil => simp [List.replicate_succ] at h
    | cons u us =>
      simp only [List.map_cons, List.length_cons, List.replicate_succ, List.cons.injEq] at h
      obtain ⟨hu, hus⟩ := h
      have hstep : (⟨k :: ks, ns, none⟩ : Reading).step? u =
          some ⟨ks, k.before ++ [⟨k.key, ns⟩], none⟩ := by simp [step?, hu]
      rw [run, hstep]
      exact ih _ hus

/-- Tokens of the kinds that complete a reading end it. -/
theorem run_completion (r : Reading) {us : List Token} (h : us.map (·.kind) = r.completion) :
    ∃ ns, r.run us = .ok ⟨[], ns, none⟩ := by
  obtain ⟨ks, ns, pending⟩ := r
  cases pending with
  | none => exact run_closeParens ks ns (by simpa [completion] using h)
  | some key =>
    cases us with
    | nil => simp [completion] at h
    | cons u us =>
      simp only [completion, Option.isSome_some, if_true, List.map_cons, List.singleton_append,
        List.cons.injEq] at h
      obtain ⟨hu, hus⟩ := h
      have hstep : (⟨ks, ns, some key⟩ : Reading).step? u =
          some ⟨ks, ns ++ [.keyValue key u.value], none⟩ := by simp [step?, hu, push]
      rw [run, hstep]
      exact run_closeParens ks _ hus

end Reading

/-- What has been read is completed by tokens of the right kinds. -/
theorem derives_of_run {ts us : List Token} {r : Reading} (h : Reading.start.run ts = .ok r)
    (hus : us.map (·.kind) = r.completion) : ∃ ns, Derives (ts ++ us) ns := by
  obtain ⟨ns, hrun⟩ := r.run_completion hus
  refine ⟨ns, nodesOfTokens_eq_ok_iff.1 ?_⟩
  rw [nodesOfTokens, Reading.run_append h, hrun]
  rfl

/-- What is not taken cannot be completed. -/
theorem not_derives_of_step?_eq_none {ts us : List Token} {t : Token} {r : Reading} {ns : List Node}
    (h : Reading.start.run ts = .ok r) (ht : r.step? t = none) : ¬ Derives (ts ++ t :: us) ns := by
  intro hd
  have hread := Reading.run_of_derives hd Reading.start [] rfl
  rw [List.append_nil, Reading.run_append h] at hread
  simp [Reading.run, ht] at hread

/-! ### Cutting an input behind a token -/

namespace Token

theorem head?_ne_of_closeString {q : Char} {t a b : Text} (h : closeString q t = some (a, b)) :
    b.head? ≠ some q := by
  fun_induction closeString q t generalizing a b with
  | case1 => cases h
  | case2 =>
    cases h
    simp
  | case3 => cases h
  | case4 t ih =>
    obtain ⟨p, hp, he⟩ := Option.map_eq_some_iff.1 h
    cases he
    exact ih hp
  | case5 d t hd =>
    cases h
    simpa using hd
  | case6 c d t hc ih =>
    obtain ⟨p, hp, he⟩ := Option.map_eq_some_iff.1 h
    cases he
    exact ih hp

/-- Where a string is closed depends on what is behind it only in that no other quote follows. -/
theorem closeString_append {q : Char} {t a b rest : Text} (h : closeString q t = some (a, b))
    (hrest : rest.head? ≠ some q) : closeString q (a ++ rest) = some (a, rest) := by
  have hclose : closeString q (q :: rest) = some ([q], rest) := by
    cases rest with
    | nil => simp [closeString]
    | cons d s =>
      have hd : ¬ d = q := fun h => hrest (by simp [h])
      simp [closeString, hd]
  fun_induction closeString q t generalizing a b with
  | case1 => cases h
  | case2 =>
    cases h
    exact hclose
  | case3 => cases h
  | case4 t ih =>
    obtain ⟨p, hp, he⟩ := Option.map_eq_some_iff.1 h
    cases he
    simp [closeString, ih hp]
  | case5 d t hd =>
    cases h
    exact hclose
  | case6 c d t hc ih =>
    obtain ⟨p, hp, he⟩ := Option.map_eq_some_iff.1 h
    cases he
    have hnext := ih hp
    obtain ⟨e, s, hes⟩ : ∃ e s, p.1 ++ rest = e :: s := by
      cases hs : p.1 ++ rest with
      | nil => simp [hs, closeString] at hnext
      | cons e s => exact ⟨e, s, rfl⟩
    rw [List.cons_append, hes]
    rw [hes] at hnext
    simp [closeString, hc, hnext]

/-- A run of characters of a class ends where the next character is not of the class. -/
theorem run_append_rest (kind : Option TokenKind) (p : Char → Bool) (c : Char) (t : Text) {rest : Text}
    (hrest : ∀ d ∈ rest.head?, p d = false) :
    run kind p c (t.takeWhile p ++ rest) = ⟨kind, c :: t.takeWhile p, rest⟩ := by
  have hall : ∀ d ∈ t.takeWhile p, p d = true := fun d hd => List.mem_takeWhile_imp hd
  cases rest with
  | nil => simp [run, List.takeWhile_eq_self_iff.2 hall, List.dropWhile_eq_nil_iff.2 hall]
  | cons d s =>
    have hd : p d = false := hrest d (by simp)
    simp [run, List.takeWhile_append_of_pos hall, List.dropWhile_append_of_pos hall, hd]

theorem head?_dropWhile_eq_false {p : Char → Bool} {t : Text} {d : Char}
    (hd : d ∈ (t.dropWhile p).head?) : p d = false := by
  have := List.head?_dropWhile_not p t
  simpa [Option.mem_def.1 hd] using this

/-- What the first character tells about a piece: it is a run of characters of a class, which holds a blank
in no token, or that character only, or a string. -/
theorem piece?_cases {c : Char} {t : Text} {p : Piece} (h : piece? c t = some p) :
    (∃ kind q, (kind.isSome = true → q ' ' = false) ∧ ∀ t, piece? c t = some (run kind q c t)) ∨
    (∃ kind, ∀ t, piece? c t = some ⟨some kind, [c], t⟩) ∨
    ∃ kind, c ≠ ' ' ∧
      ∀ t, piece? c t = (closeString c t).map fun p => ⟨some kind, c :: p.1, p.2⟩ := by
  unfold piece? at h
  split at h
  next hspace => exact .inl ⟨none, isSpace, by simp, fun t => by rw [piece?, if_pos hspace]⟩
  next hspace =>
  split at h
  next hhash =>
    exact .inl ⟨none, (· ≠ '\n'), by simp, fun t => by rw [piece?, if_neg hspace, if_pos hhash]⟩
  next hhash =>
  split at h
  next hopen =>
    exact .inr (.inl ⟨.openParen, fun t => by
      rw [piece?, if_neg hspace, if_neg hhash, if_pos hopen]⟩)
  next hopen =>
  split at h
  next hclose =>
    exact .inr (.inl ⟨.closeParen, fun t => by
      rw [piece?, if_neg hspace, if_neg hhash, if_neg hopen, if_pos hclose]⟩)
  next hclose =>
  split at h
  next hident =>
    exact .inl ⟨some .identifier, isIdentifierPart, fun _ => rfl, fun t => by
      rw [piece?, if_neg hspace, if_neg hhash, if_neg hopen, if_neg hclose, if_pos hident]⟩
  next hident =>
  have hne : c ≠ ' ' := by
    rintro rfl
    exact hspace rfl
  split at h
  next hsingle =>
    exact .inr (.inr ⟨.singleQuoted, hne, fun t => by
      rw [piece?, if_neg hspace, if_neg hhash, if_neg hopen, if_neg hclose, if_neg hident, if_pos hsingle]⟩)
  next hsingle =>
  split at h
  next hdouble =>
    exact .inr (.inr ⟨.doubleQuoted, hne, fun t => by
      rw [piece?, if_neg hspace, if_neg hhash, if_neg hopen, if_neg hclose, if_neg hident,
        if_neg hsingle, if_pos hdouble]⟩)
  · cases h

/-- A piece stays the same before another rest that starts in the same way.  A token also stays the same
before a blank. -/
theorem piece?_append_rest {c : Char} {t rest : Text} {p : Piece} (h : piece? c t = some p)
    (hrest : rest.head? = p.rest.head? ∨ (p.kind.isSome = true ∧ rest.head? = some ' ')) :
    ∃ s, p.text = c :: s ∧ piece? c (s ++ rest) = some ⟨p.kind, p.text, rest⟩ := by
  rcases piece?_cases h with ⟨kind, q, hclass, hrun⟩ | ⟨kind, hone⟩ | ⟨kind, hne, hstring⟩
  · obtain rfl := Option.some.inj ((hrun t).symm.trans h)
    have hstop : ∀ d ∈ rest.head?, q d = false := by
      intro d hd
      rcases hrest with hhead | ⟨hkind, hblank⟩
      · exact head?_dropWhile_eq_false (hhead ▸ hd)
      · obtain rfl : ' ' = d := by simpa [hblank] using hd
        exact hclass hkind
    exact ⟨t.takeWhile q, rfl, by rw [hrun, run_append_rest kind q c t hstop]; rfl⟩
  · obtain rfl := Option.some.inj ((hone t).symm.trans h)
    exact ⟨[], rfl, hone rest⟩
  · obtain ⟨⟨a, b⟩, hclosed, rfl⟩ := Option.map_eq_some_iff.1 ((hstring t).symm.trans h)
    have hstop : rest.head? ≠ some c := by
      rcases hrest with hhead | ⟨-, hblank⟩
      · rw [hhead]
        exact head?_ne_of_closeString hclosed
      · rw [hblank]
        simpa using hne.symm
    exact ⟨a, rfl, by rw [hstring, closeString_append hclosed hstop]; rfl⟩

end Token

/-- One piece of an input. -/
theorem Lexes.piece {c : Char} {s rest : Text} {kind : Option TokenKind} (off : Nat)
    (h : Token.piece? c (s ++ rest) = some ⟨kind, c :: s, rest⟩) :
    Lexes (c :: s) rest (kind.toList.map fun k => ⟨k, c :: s, off⟩) off := by
  unfold Lexes
  rw [List.cons_append, lexFrom_cons h]
  cases kind with
  | none => cases lexFrom (off + Text.byteLength (c :: s)) rest <;> rfl
  | some k => rfl

/-- An input cut behind its first piece or later goes on behind a blank as the cut rest does.  What is no
token is not cut at its end, where the blank would join it. -/
theorem Lexes.piece_append {c : Char} {input front : Text} {p : Token.Piece} {off : Nat}
    {vs : List Token} (hp : Token.piece? c input = some p) (hfront : front <+: p.rest)
    (hcut : p.kind.isSome = true ∨ front ≠ [])
    (hvs : ∀ rest : Text, Lexes front (' ' :: rest) vs (off + Text.byteLength p.text)) :
    p.text ++ front <+: c :: input ∧ ∀ rest : Text,
      Lexes (p.text ++ front) (' ' :: rest) ((p.kind.toList.map fun k => ⟨k, p.text, off⟩) ++ vs) off := by
  refine ⟨?_, fun rest => ?_⟩
  · rw [← Token.piece?_append hp]
    exact (List.prefix_append_right_inj _).2 hfront
  · have hhead : (front ++ ' ' :: rest).head? = p.rest.head? ∨
        (p.kind.isSome = true ∧ (front ++ ' ' :: rest).head? = some ' ') := by
      cases front with
      | nil => exact .inr ⟨hcut.resolve_right (absurd rfl), rfl⟩
      | cons d front =>
        obtain ⟨z, hz⟩ := hfront
        rw [← hz]
        exact .inl rfl
    obtain ⟨s, hs, hpiece⟩ := Token.piece?_append_rest hp hhead
    have hfirst := Lexes.piece off (hs ▸ hpiece)
    rw [← hs] at hfirst
    exact hfirst.append (hvs rest)

/-- An input can be cut behind any of its tokens and go on differently behind a blank. -/
theorem exists_front {input : Text} {off : Nat} {ts us : List Token}
    (h : lexFrom off input = .ok (ts ++ us)) :
    ∃ front, front <+: input ∧ (ts ≠ [] → front ≠ []) ∧
      ∀ rest : Text, Lexes front (' ' :: rest) ts off := by
  fun_induction lexFrom off input generalizing ts us with
  | case1 off =>
    obtain ⟨rfl, -⟩ := List.append_eq_nil_iff.1 (Except.ok.inj h).symm
    exact ⟨[], List.nil_prefix, fun h => absurd rfl h, fun rest => Lexes.nil _ off⟩
  | case2 => cases h
  | case3 off c input p hp _ ih =>
    by_cases hts : ts = []
    · subst hts
      exact ⟨[], List.nil_prefix, fun h => absurd rfl h, fun rest => Lexes.nil _ off⟩
    obtain ⟨vs, hvs, rfl⟩ : ∃ vs, lexFrom (off + Text.byteLength p.text) p.rest = .ok (vs ++ us) ∧
        ts = (p.kind.toList.map fun k => ⟨k, p.text, off⟩) ++ vs := by
      cases hrest : lexFrom (off + Text.byteLength p.text) p.rest with
      | error e => simp [hrest, Except.map] at h
      | ok all =>
        rw [hrest] at h
        cases hk : p.kind with
        | none => exact ⟨ts, by simpa [hk, Except.map] using h, rfl⟩
        | some kind =>
          cases ts with
          | nil => exact absurd rfl hts
          | cons t ts =>
            have hall : (⟨kind, p.text, off⟩ : Token) = t ∧ all = ts ++ us := by
              simpa [hk, Except.map] using h
            exact ⟨ts, congrArg Except.ok hall.2, by simp [hall.1]⟩
    obtain ⟨front, hfront, hne, hlexes⟩ := ih hvs
    have hcut : p.kind.isSome = true ∨ front ≠ [] := by
      cases hk : p.kind with
      | none => exact .inr (hne (by simpa [hk] using hts))
      | some kind => exact .inl rfl
    obtain ⟨hstarts, hcutLexes⟩ := Lexes.piece_append hp hfront hcut hlexes
    have htext := Token.piece?_text_ne_nil hp
    exact ⟨p.text ++ front, hstarts, fun _ => by simp [htext], hcutLexes⟩

/-! ### Inputs that complete a reading -/

/-- What to write behind an input to complete a reading. -/
def Reading.closingText (r : Reading) : Text :=
  (if r.pending.isSome then ['\'', '\''] else []) ++ List.replicate r.openKeys.length ')'

theorem exists_lexFrom_closeParens (n off : Nat) :
    ∃ us, lexFrom off (List.replicate n ')') = .ok us ∧
      us.map (·.kind) = List.replicate n .closeParen := by
  induction n generalizing off with
  | zero => exact ⟨[], lexFrom_nil off, rfl⟩
  | succ n ih =>
    obtain ⟨us, hus, hkinds⟩ := ih (off + Text.byteLength [')'])
    have hparen := Lexes.closeParen (List.replicate n ')') off
    refine ⟨⟨.closeParen, [')'], off⟩ :: us, ?_, by simp [List.replicate_succ, hkinds]⟩
    unfold Lexes at hparen
    rw [hus] at hparen
    simpa [List.replicate_succ, Except.map] using hparen

/-- It consists of the tokens that complete the reading. -/
theorem Reading.exists_lexFrom_closingText (r : Reading) (off : Nat) :
    ∃ us, lexFrom off (' ' :: r.closingText) = .ok us ∧ us.map (·.kind) = r.completion := by
  have hclosing : ∀ off, ∃ us, lexFrom off r.closingText = .ok us ∧
      us.map (·.kind) = r.completion := by
    intro off
    unfold closingText completion
    cases r.pending with
    | none => simpa using exists_lexFrom_closeParens r.openKeys.length off
    | some key =>
      obtain ⟨us, hus, hkinds⟩ :=
        exists_lexFrom_closeParens r.openKeys.length (off + Text.byteLength (Node.quoteString ""))
      have hparens : (List.replicate r.openKeys.length ')').head? ≠ some '\'' := by
        cases r.openKeys.length <;> simp [List.replicate_succ]
      have hempty := Lexes.quoteString hparens "" off
      refine ⟨⟨.singleQuoted, Node.quoteString "", off⟩ :: us, ?_, by simp [hkinds]⟩
      unfold Lexes at hempty
      rw [hus] at hempty
      simpa [Node.quoteString, Except.map] using hempty
  obtain ⟨us, hus, hkinds⟩ := hclosing (off + Text.byteLength [' '])
  have hblank : ∀ d, r.closingText.head? = some d → Token.isSpace d = false := by
    intro d hd
    have hmem : d ∈ r.closingText := List.mem_of_head? hd
    have hclass : d = '\'' ∨ d = ')' := by
      unfold closingText at hmem
      rcases List.mem_append.1 hmem with hmem | hmem
      · split at hmem
        · exact .inl (by simpa using hmem)
        · cases hmem
      · exact .inr (List.eq_of_mem_replicate hmem)
    rcases hclass with rfl | rfl <;> rfl
  refine ⟨us, ?_, hkinds⟩
  have hskip := Lexes.blank hblank off
  unfold Lexes at hskip
  rw [hus] at hskip
  simpa [Except.map] using hskip

/-- Tokens that some accepted list of tokens starts with. -/
def Continues (ts : List Token) : Prop := ∃ us ns, Derives (ts ++ us) ns

/-- Tokens that the tokens of some accepted input start with. -/
def ContinuesInput (ts : List Token) : Prop :=
  ∃ input us ns, lex input = .ok (ts ++ us) ∧ parseNodes input = .ok ns

theorem parseNodes_eq {input : Text} {ts : List Token} (h : lex input = .ok ts) :
    parseNodes input = nodesOfTokens ts := by
  simp [parseNodes, h, bind, Except.bind]

/-- What has been read of an input is continued by another input. -/
theorem continuesInput_of_run {input : Text} {ts us : List Token} {r : Reading}
    (h : lex input = .ok (ts ++ us)) (hrun : Reading.start.run ts = .ok r) : ContinuesInput ts := by
  obtain ⟨front, -, -, hfront⟩ := exists_front h
  obtain ⟨vs, hvs, hkinds⟩ := r.exists_lexFrom_closingText (0 + Text.byteLength front)
  obtain ⟨ns, hd⟩ := derives_of_run hrun hkinds
  have hlex : lex (front ++ ' ' :: r.closingText) = .ok (ts ++ vs) := by
    have := hfront r.closingText
    unfold Lexes at this
    rw [hvs] at this
    simpa [lex, Except.map] using this
  exact ⟨_, vs, ns, hlex, (parseNodes_eq hlex).trans (nodesOfTokens_of_derives hd)⟩

/-! ### The parser and its grammar -/

/-- A token that is refused is the first one that no accepted list of tokens continues with. -/
theorem continues_of_unexpectedToken {input : Text} {ts : List Token} (h : lex input = .ok ts)
    {o : Nat} {x : Text} (he : nodesOfTokens ts = .error (.unexpectedToken o x)) :
    ∃ before t after, ts = before ++ t :: after ∧ t.offset = o ∧ t.text = x ∧
      ContinuesInput before ∧ ¬ Continues (before ++ [t]) := by
  unfold nodesOfTokens at he
  cases hrun : Reading.start.run ts with
  | error e =>
    obtain rfl : e = .unexpectedToken o x := by simpa [hrun, bind, Except.bind] using he
    obtain ⟨before, t, after, r, rfl, hbefore, hnone, htoken⟩ := Reading.exists_of_run_eq_error hrun
    obtain ⟨rfl, rfl⟩ := SyntaxError.unexpectedToken.inj htoken
    refine ⟨before, t, after, rfl, rfl, rfl, continuesInput_of_run h hbefore, ?_⟩
    rintro ⟨us, ns, hd⟩
    rw [List.append_assoc] at hd
    exact not_derives_of_step?_eq_none hbefore hnone hd
  | ok r =>
    simp only [hrun, bind, Except.bind, Reading.finish] at he
    split at he
    · cases he
    · split at he <;> cases he

/-- An input that ends too early could have gone on. -/
theorem continues_of_unexpectedEnd {input : Text} {ts : List Token} (h : lex input = .ok ts)
    {e : Expected} (he : nodesOfTokens ts = .error (.unexpectedEnd e)) : ContinuesInput ts := by
  unfold nodesOfTokens at he
  cases hrun : Reading.start.run ts with
  | error e' =>
    obtain rfl : e' = .unexpectedEnd e := by simpa [hrun, bind, Except.bind] using he
    obtain ⟨before, t, after, r, -, -, -, htoken⟩ := Reading.exists_of_run_eq_error hrun
    cases htoken
  | ok r =>
    have hall : lex input = .ok (ts ++ []) := by rwa [List.append_nil]
    exact continuesInput_of_run hall hrun

/-- **The parser accepts exactly its grammar and points at the first wrong token.**  The nodes found are
those of the derivation of the tokens, of which there is at most one.  Where a token is refused, the
tokens before it start an accepted input and with it they start no accepted list of tokens; where the
input ends too early, all its tokens start an accepted input but are not accepted themselves. -/
theorem parseNodes_exact {input : Text} {ts : List Token} (h : lex input = .ok ts) :
    (∀ ns, parseNodes input = .ok ns ↔ ∃ d : Derivation ts, d.nodes = ns) ∧
    (∀ d e : Derivation ts, d = e) ∧
    (∀ o x, parseNodes input = .error (.unexpectedToken o x) →
      ∃ (i : Nat) (hi : i < ts.length), ts[i].offset = o ∧ ts[i].text = x ∧
        ContinuesInput (ts.take i) ∧ ¬ Continues (ts.take (i + 1))) ∧
    ∀ e, parseNodes input = .error (.unexpectedEnd e) →
      ContinuesInput ts ∧ ¬ ∃ ns, Derives ts ns := by
  rw [parseNodes_eq h]
  refine ⟨fun ns => nodesOfTokens_eq_ok_iff.trans derives_iff_derivation, Derivation.unique,
    fun o x he => ?_, fun e he => ⟨continues_of_unexpectedEnd h he, ?_⟩⟩
  · obtain ⟨before, t, after, rfl, ho, hx, hbefore, hwith⟩ := continues_of_unexpectedToken h he
    refine ⟨before.length, by simp, by simpa using ho, by simpa using hx, by simpa using hbefore, ?_⟩
    rw [List.take_length_add_append]
    exact hwith
  · rintro ⟨ns, hd⟩
    rw [nodesOfTokens_of_derives hd] at he
    cases he

/-- A key has no value before the parenthesis. -/
theorem parseNodes_exact_key :
    ∃ ts, lex "A('x' B) C".toList = .ok ts ∧
      parseNodes "A('x' B) C".toList = .error (.unexpectedToken 7 [')']) ∧
      ContinuesInput (ts.take 4) ∧ ¬ Continues (ts.take 5) := by
  have hlex : lex "A('x' B) C".toList = .ok
      [⟨.identifier, ['A'], 0⟩, ⟨.openParen, ['('], 1⟩, ⟨.singleQuoted, "'x'".toList, 2⟩,
        ⟨.identifier, ['B'], 6⟩, ⟨.closeParen, [')'], 7⟩, ⟨.identifier, ['C'], 9⟩] := by cbv
  have herror : parseNodes "A('x' B) C".toList = .error (.unexpectedToken 7 [')']) := by cbv
  obtain ⟨-, -, htoken, -⟩ := parseNodes_exact hlex
  obtain ⟨i, hi, hoffset, -, hbefore, hwith⟩ := htoken _ _ herror
  obtain rfl : i = 4 := by
    have hlt : i < 6 := hi
    interval_cases i <;> first | rfl | cases hoffset
  exact ⟨_, hlex, herror, hbefore, hwith⟩

end TemplateEngine
