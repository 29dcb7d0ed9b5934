import Mathlib.Data.List.TakeWhile
import TemplateEngine.Proofs.Printing

/-!
# Reading — what reading an input finds

* `derives_of_nodesOfTokens`: the nodes read are nodes that the tokens write.  Tokens read so far and
  the parser's state are related by `Reads`, which every step keeps.
* `infix_of_lexFrom`: every token is a stretch of the input.
* `isWritable_of_parseNode`: a node that was read can be written, with strings made of characters of
  the input's strings.
-/

namespace TemplateEngine

/-! ### From tokens to nodes -/

/-- `Reads ts r`: the tokens `ts` lead to the reading `r`. -/
inductive Reads : List Token → Reading → Prop
  | top {ts : List Token} {ns : List Node} : Derives ts ns → Reads ts ⟨[], ns, none⟩
  | inside {ts inner : List Token} {k o : Token} {ks : List OpenKey} {before ns : List Node} :
      Reads ts ⟨ks, before, none⟩ → k.kind = .identifier → o.kind = .openParen →
      Derives inner ns → Reads (ts ++ k :: o :: inner) ⟨⟨k.value, before⟩ :: ks, ns, none⟩
  | key {ts : List Token} {k : Token} {ks : List OpenKey} {ns : List Node} :
      Reads ts ⟨ks, ns, none⟩ → k.kind = .identifier → Reads (ts ++ [k]) ⟨ks, ns, some k.value⟩

namespace Reads

/-- Tokens that write nodes lead on in the innermost list. -/
theorem append {ts us : List Token} {ks : List OpenKey} {ns ms : List Node}
    (h : Reads ts ⟨ks, ns, none⟩) (hd : Derives us ms) : Reads (ts ++ us) ⟨ks, ns ++ ms, none⟩ := by
  generalize hr : (⟨ks, ns, none⟩ : Reading) = r at h
  cases h with
  | top hts =>
    cases hr
    exact .top (hts.append hd)
  | inside hts hk ho hin =>
    cases hr
    have := Reads.inside hts hk ho (hin.append hd)
    simpa using this
  | key => cases hr

/-- Every step of the parser keeps the relation. -/
theorem step {ts : List Token} {r r' : Reading} {t : Token} (h : Reads ts r)
    (hstep : r.step? t = some r') : Reads (ts ++ [t]) r' := by
  obtain ⟨ks, ns, pending⟩ := r
  cases pending with
  | none =>
    cases hk : t.kind with
    | singleQuoted =>
      simp only [Reading.step?, hk, Option.some.injEq] at hstep
      subst hstep
      exact h.append (.leaf (by simp [Token.isString, hk]) .nil)
    | doubleQuoted =>
      simp only [Reading.step?, hk, Option.some.injEq] at hstep
      subst hstep
      exact h.append (.leaf (by simp [Token.isString, hk]) .nil)
    | identifier =>
      simp only [Reading.step?, hk, Option.some.injEq] at hstep
      subst hstep
      exact .key h hk
    | openParen => simp [Reading.step?, hk] at hstep
    | closeParen =>
      cases h with
      | top => simp [Reading.step?, hk] at hstep
      | @inside ts inner k o ks before ns hts hkey ho hin =>
        simp only [Reading.step?, hk, Option.some.injEq] at hstep
        subst hstep
        have := hts.append (.group hkey ho hin hk .nil)
        simpa using this
  | some key =>
    generalize hr : (⟨ks, ns, some key⟩ : Reading) = r at h
    cases h with
    | top => cases hr
    | inside => cases hr
    | @key ts k ks' ns' hts hkey =>
      cases hr
      cases hk : t.kind with
      | singleQuoted =>
        simp only [Reading.step?, hk, Option.some.injEq] at hstep
        subst hstep
        have := hts.append (.keyValue hkey (by simp [Token.isString, hk] : t.isString = true) .nil)
        simpa [Reading.push] using this
      | doubleQuoted =>
        simp only [Reading.step?, hk, Option.some.injEq] at hstep
        subst hstep
        have := hts.append (.keyValue hkey (by simp [Token.isString, hk] : t.isString = true) .nil)
        simpa [Reading.push] using this
      | openParen =>
        simp only [Reading.step?, hk, Option.some.injEq] at hstep
        subst hstep
        simpa using Reads.inside hts hkey hk .nil
      | identifier => simp [Reading.step?, hk] at hstep
      | closeParen => simp [Reading.step?, hk] at hstep

theorem run {ts us : List Token} {r r' : Reading} (h : Reads ts r) (hrun : r.run us = .ok r') :
    Reads (ts ++ us) r' := by
  induction us generalizing ts r with
  | nil =>
    obtain rfl : r = r' := by simpa [Reading.run] using hrun
    simpa using h
  | cons u us ih =>
    rw [Reading.run] at hrun
    cases hstep : r.step? u with
    | none => simp [hstep] at hrun
    | some r₁ =>
      rw [hstep] at hrun
      simpa using ih (h.step hstep) hrun

end Reads

/-- The nodes read are written by the tokens. -/
theorem derives_of_nodesOfTokens {ts : List Token} {ns : List Node}
    (h : nodesOfTokens ts = .ok ns) : Derives ts ns := by
  unfold nodesOfTokens at h
  cases hrun : Reading.start.run ts with
  | error e => simp [hrun, bind, Except.bind] at h
  | ok r =>
    have hreads : Reads ts r := by simpa using (Reads.top .nil).run hrun
    simp only [hrun, bind, Except.bind, Reading.finish] at h
    cases hreads with
    | top hd =>
      obtain rfl : _ = ns := by simpa using h
      exact hd
    | inside => simp at h
    | key => simp at h

/-! ### From the input to tokens -/

/-- Every token of an input is a stretch of it. -/
theorem infix_of_lexFrom {input : Text} {off : Nat} {ts : List Token}
    (h : lexFrom off input = .ok ts) {t : Token} (ht : t ∈ ts) : t.text <:+: input := by
  fun_induction lexFrom off input generalizing ts with
  | case1 =>
    obtain rfl := Except.ok.inj h
    simp at ht
  | case2 => cases h
  | case3 off c input p hp _ ih =>
    have hinput := Token.piece?_append hp
    cases hrest : lexFrom (off + Text.byteLength p.text) p.rest with
    | error e => simp [hrest, Except.map] at h
    | ok us =>
      have hlater : t ∈ us → t.text <:+: c :: input := fun hu => by
        rw [← hinput]
        exact (ih hrest hu).trans (List.suffix_append _ _).isInfix
      simp only [hrest, Except.map, Except.ok.injEq] at h
      cases hk : p.kind with
      | none =>
        rw [hk] at h
        subst h
        exact hlater ht
      | some kind =>
        rw [hk] at h
        subst h
        rcases List.mem_cons.1 ht with rfl | ht
        · rw [← hinput]
          exact (List.prefix_append _ _).isInfix
        · exact hlater ht

/-- What each kind of token looks like. -/
def Token.WellSpelled (t : Token) : Prop :=
  match t.kind with
  | .identifier => isIdentifier t.value = true
  | .singleQuoted => t.text.head? = some '\''
  | .doubleQuoted => t.text.head? = some '"'
  | .openParen => t.text = ['(']
  | .closeParen => t.text = [')']

theorem Token.wellSpelled_of_piece? {c : Char} {t : Text} {p : Token.Piece} {kind : TokenKind}
    (h : piece? c t = some p) (hk : p.kind = some kind) (off : Nat) :
    WellSpelled ⟨kind, p.text, off⟩ := by
  unfold piece? at h
  split at h
  · cases h; simp [run] at hk
  split at h
  · cases h; simp [run] at hk
  split at h
  next hc => cases h; cases hk; simp [WellSpelled, hc]
  split at h
  next hc => cases h; cases hk; simp [WellSpelled, hc]
  split at h
  next hc =>
    cases h
    cases hk
    simp only [WellSpelled, value, run, isIdentifier, String.toList_ofList, Bool.and_eq_true,
      List.all_eq_true]
    exact ⟨hc, fun d hd => List.mem_takeWhile_imp hd⟩
  split at h
  next hc =>
    obtain ⟨s, -, rfl⟩ := Option.map_eq_some_iff.1 h
    cases hk
    simp [WellSpelled, hc]
  split at h
  next hc =>
    obtain ⟨s, -, rfl⟩ := Option.map_eq_some_iff.1 h
    cases hk
    simp [WellSpelled, hc]
  · cases h

theorem wellSpelled_of_lexFrom {input : Text} {off : Nat} {ts : List Token}
    (h : lexFrom off input = .ok ts) {t : Token} (ht : t ∈ ts) : t.WellSpelled := by
  fun_induction lexFrom off input generalizing ts with
  | case1 =>
    obtain rfl := Except.ok.inj h
    simp at ht
  | case2 => cases h
  | case3 off c input p hp _ ih =>
    cases hrest : lexFrom (off + Text.byteLength p.text) p.rest with
    | error e => simp [hrest, Except.map] at h
    | ok us =>
      simp only [hrest, Except.map, Except.ok.injEq] at h
      cases hk : p.kind with
      | none =>
        rw [hk] at h
        subst h
        exact ih hrest ht
      | some kind =>
        rw [hk] at h
        subst h
        rcases List.mem_cons.1 ht with rfl | ht
        · exact Token.wellSpelled_of_piece? hp hk off
        · exact ih hrest ht

/-! ### Values of tokens -/

theorem Token.mem_of_mem_undouble {q c : Char} {s : Text} (h : c ∈ undouble q s) : c ∈ s := by
  fun_induction undouble q s with
  | case1 d e t hq ih =>
    rcases List.mem_cons.1 h with rfl | h
    · simp [hq.1]
    · simp [ih h]
  | case2 d e t hq ih =>
    rcases List.mem_cons.1 h with rfl | h
    · simp
    · exact List.mem_cons_of_mem _ (ih h)
  | case3 => exact h

theorem Token.mem_of_mem_value {t : Token} {c : Char} (h : c ∈ t.value.toList) : c ∈ t.text := by
  have hquoted : ∀ q, c ∈ undouble q t.text.tail.dropLast → c ∈ t.text := fun q hq =>
    List.mem_of_mem_tail (List.dropLast_subset _ (Token.mem_of_mem_undouble hq))
  unfold value at h
  split at h
  · exact hquoted '\'' (by simpa using h)
  · exact hquoted '"' (by simpa using h)
  · simpa using h

/-! ### From tokens to writable nodes -/

theorem areWritable_of_derives {p : String → Bool} {ts : List Token} {ns : List Node}
    (h : Derives ts ns) (hspell : ∀ t ∈ ts, t.WellSpelled) (hp : ∀ t ∈ ts, p t.value = true) :
    Node.areWritable p ns = true := by
  have hident : ∀ {k : Token}, k.WellSpelled → k.kind = .identifier → isIdentifier k.value = true :=
    fun hk hkind => by simpa [Token.WellSpelled, hkind] using hk
  induction h with
  | nil => rfl
  | @leaf s ts ns _ _ ih =>
    simp only [List.forall_mem_cons] at hspell hp
    simp [Node.areWritable, Node.leaf, Node.isWritable, hp.1, ih hspell.2 hp.2]
  | @keyValue k s ts ns hk _ _ ih =>
    simp only [List.forall_mem_cons] at hspell hp
    simp [Node.areWritable, Node.keyValue, Node.leaf, Node.isWritable, hp.2.1,
      hident hspell.1 hk, ih hspell.2.2 hp.2.2]
  | @group k o c inner ts children ns hk _ _ _ _ ihi ih =>
    simp only [List.cons_append, List.forall_mem_cons, List.forall_mem_append] at hspell hp
    have hchildren := ihi hspell.2.2.1 hp.2.2.1
    have hrest := ih hspell.2.2.2.2 hp.2.2.2.2
    have hnode : Node.isWritable p ⟨k.value, children⟩ = true :=
      Node.isWritable_of_children (hident hspell.1 hk) hp.1 (Node.areWritable_iff.1 hchildren)
    simp [Node.areWritable, hnode, hrest]

theorem exists_lex_of_parseNode {input : Text} {n : Node} (h : parseNode input = .ok n) :
    ∃ ts, lex input = .ok ts ∧ Derives ts [n] := by
  unfold parseNode parseNodes at h
  cases hlex : lex input with
  | error e => simp [hlex, bind, Except.bind] at h
  | ok ts =>
    cases hns : nodesOfTokens ts with
    | error e => simp [hlex, hns, bind, Except.bind] at h
    | ok ns =>
      match ns, hns, h with
      | [], hns, h => simp [hlex, hns, bind, Except.bind] at h
      | [m], hns, h =>
        obtain rfl : m = n := by simpa [hlex, hns, bind, Except.bind] using h
        exact ⟨ts, rfl, derives_of_nodesOfTokens hns⟩
      | _ :: _ :: _, hns, h => simp [hlex, hns, bind, Except.bind] at h

/-- A node that was read can be written, if the values of the tokens of the input satisfy `p`. -/
theorem isWritable_of_parseNode {p : String → Bool} {input : Text} {n : Node}
    (h : parseNode input = .ok n)
    (hp : ∀ t : Token, t.WellSpelled → t.text <:+: input → p t.value = true) :
    n.isWritable p = true := by
  obtain ⟨ts, hlex, hd⟩ := exists_lex_of_parseNode h
  have := areWritable_of_derives (p := p) hd (fun t ht => wellSpelled_of_lexFrom hlex ht)
    fun t ht => hp t (wellSpelled_of_lexFrom hlex ht) (infix_of_lexFrom hlex ht)
  simpa [Node.areWritable] using this

/-- The name of a node read is the value of the first token. -/
theorem name_of_derives_singleton {t : Token} {ts : List Token} {n : Node}
    (h : Derives (t :: ts) [n]) : n.name = t.value := by
  generalize hus : t :: ts = us at h
  generalize hns : [n] = ns at h
  cases h with
  | nil => cases hus
  | leaf => cases hus; cases hns; rfl
  | keyValue => cases hus; cases hns; rfl
  | group => cases hus; cases hns; rfl

end TemplateEngine
