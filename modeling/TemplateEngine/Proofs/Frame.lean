import TemplateEngine.Proofs.Regions

/-!
# Frame — the texts between the places that change

A text is woven of stretches that stay and stretches that change, in turn (`weave`).  An edit inside a
stretch that changes leaves the others as they are, and spans inside such stretches stay inside them
(`Framed.edited`).  Two empty texts are a frame that lets everything change (`framed_of_fits`).
-/

namespace TemplateEngine

/-- A text that begins with stretches that stay, each followed by one that changes. -/
def weave : List (Text × Text) → Text → Text
  | [], last => last
  | (kept, changed) :: ps, last => kept ++ changed ++ weave ps last

/-- Where the stretches that change are, in a text that starts at an offset. -/
def openings (offset : Nat) : List (Text × Text) → List Span
  | [] => []
  | (kept, changed) :: ps =>
    ⟨offset + Text.byteLength kept, offset + Text.byteLength kept + Text.byteLength changed⟩ ::
      openings (offset + Text.byteLength kept + Text.byteLength changed) ps

theorem weave_append (l : List (Text × Text)) (kept changed : Text) (r : List (Text × Text))
    (last : Text) :
    weave (l ++ (kept, changed) :: r) last = weave l kept ++ changed ++ weave r last := by
  induction l with
  | nil => rfl
  | cons p l ih => simp [weave, ih]

theorem openings_append (offset : Nat) (l : List (Text × Text)) (kept changed : Text)
    (r : List (Text × Text)) :
    openings offset (l ++ (kept, changed) :: r) = openings offset l ++
      ⟨offset + Text.byteLength (weave l kept),
        offset + Text.byteLength (weave l kept) + Text.byteLength changed⟩ ::
      openings (offset + Text.byteLength (weave l kept) + Text.byteLength changed) r := by
  induction l generalizing offset with
  | nil => rfl
  | cons p l ih => simp [openings, weave, ih, Nat.add_assoc]

theorem openings_shift (offset n : Nat) (ps : List (Text × Text)) :
    openings (offset + n) ps = (openings offset ps).map (·.shift n) := by
  induction ps generalizing offset with
  | nil => rfl
  | cons p ps ih =>
    have hstart : offset + n + Text.byteLength p.1 = offset + Text.byteLength p.1 + n := by omega
    have hstop : offset + Text.byteLength p.1 + n + Text.byteLength p.2 =
        offset + Text.byteLength p.1 + Text.byteLength p.2 + n := by omega
    simp only [openings, List.map_cons, hstart, hstop, ih, Span.shift]

/-- A stretch that changes lies between two parts of the weaving. -/
theorem exists_of_mem_openings {ps : List (Text × Text)} {offset : Nat} {w : Span}
    (h : w ∈ openings offset ps) :
    ∃ l kept changed r, ps = l ++ (kept, changed) :: r ∧
      w = ⟨offset + Text.byteLength (weave l kept),
        offset + Text.byteLength (weave l kept) + Text.byteLength changed⟩ := by
  induction ps generalizing offset with
  | nil => cases h
  | cons p ps ih =>
    rcases List.mem_cons.1 h with rfl | h
    · exact ⟨[], p.1, p.2, ps, rfl, rfl⟩
    · obtain ⟨l, kept, changed, r, rfl, rfl⟩ := ih h
      refine ⟨p :: l, kept, changed, r, rfl, ?_⟩
      simp [weave, Nat.add_assoc]

theorem stop_le_of_mem_openings {ps : List (Text × Text)} {offset : Nat} {w : Span}
    (h : w ∈ openings offset ps) (last : Text) :
    w.stop ≤ offset + Text.byteLength (weave ps last) := by
  obtain ⟨l, kept, changed, r, rfl, rfl⟩ := exists_of_mem_openings h
  rw [weave_append, Text.byteLength_append, Text.byteLength_append]
  dsimp only
  omega

theorem le_start_of_mem_openings {ps : List (Text × Text)} {offset : Nat} {w : Span}
    (h : w ∈ openings offset ps) : offset ≤ w.start := by
  obtain ⟨l, kept, changed, r, rfl, rfl⟩ := exists_of_mem_openings h
  exact Nat.le_add_right _ _

/-! ### Framed texts -/

/-- Whether a text is woven of some texts that stay, and certain spans lie in the stretches between
these. -/
def Framed (kept : List Text) (t : Text) (inside : Span → Prop) : Prop :=
  ∃ ps last, ps.map Prod.fst ++ [last] = kept ∧ t = weave ps last ∧
    ∀ s, inside s → ∃ w ∈ openings 0 ps, s.within w = true

theorem Framed.mono {kept : List Text} {t : Text} {inside inside' : Span → Prop}
    (h : Framed kept t inside)
    (himp : ∀ s, inside' s → ∃ s₀, inside s₀ ∧ s.within s₀ = true) : Framed kept t inside' := by
  obtain ⟨ps, last, hkept, ht, hin⟩ := h
  refine ⟨ps, last, hkept, ht, fun s hs => ?_⟩
  obtain ⟨s₀, hs₀, hw⟩ := himp s hs
  obtain ⟨w, hmem, hw₀⟩ := hin s₀ hs₀
  refine ⟨w, hmem, ?_⟩
  rw [Span.within_iff] at *
  omega

/-- Between two empty texts there can be anything. -/
theorem framed_of_fits {t : Text} {inside : Span → Prop} (h : ∀ s, inside s → s.fits t = true) :
    Framed [[], []] t inside := by
  refine ⟨[([], t)], [], rfl, by simp [weave], fun s hs => ?_⟩
  refine ⟨⟨0, Text.byteLength t⟩, by simp [openings], ?_⟩
  rw [Span.within_iff]
  exact ⟨Nat.zero_le _, (Span.le_of_fits (h s hs)).2⟩

/-- Nothing comes behind the last text. -/
theorem Framed.concat {kept : List Text} {t : Text} {inside : Span → Prop} (h : Framed kept t inside) :
    Framed (kept ++ [[]]) t inside := by
  obtain ⟨ps, last, rfl, rfl, hin⟩ := h
  refine ⟨ps ++ [(last, [])], [], by simp, by simp [weave_append, weave], fun s hs => ?_⟩
  obtain ⟨w, hmem, hw⟩ := hin s hs
  refine ⟨w, ?_, hw⟩
  rw [openings_append]
  exact List.mem_append_left _ hmem

/-- The spans after an edit: those that follow it, and those in the new text. -/
def Span.AfterEdit (inside : Span → Prop) (e : Span) (n : Nat) (s' : Span) : Prop :=
  (∃ s, inside s ∧ s.start ≤ s.stop ∧ s.reanchor e n = some s') ∨
    s'.within ⟨e.start, e.start + n⟩ = true

/-- An edit inside a stretch that changes. -/
theorem Framed.edited {kept : List Text} {a m z : Text} {inside : Span → Prop}
    (h : Framed kept (a ++ m ++ z) inside) {s : Span} (hs : inside s)
    (he : (⟨Text.byteLength a, Text.byteLength (a ++ m)⟩ : Span).within s = true) (new : Text) :
    Framed kept (a ++ new ++ z) (Span.AfterEdit inside
      ⟨Text.byteLength a, Text.byteLength (a ++ m)⟩ (Text.byteLength new)) := by
  obtain ⟨ps, last, hkept, ht, hin⟩ := h
  obtain ⟨w, hmem, hw⟩ := hin s hs
  obtain ⟨l, g, o, r, rfl, rfl⟩ := exists_of_mem_openings hmem
  rw [Span.within_iff] at he hw
  simp only [Nat.zero_add] at he hw
  -- the stretch that is edited falls into what is before the edit, the edit, and what is behind it
  rw [weave_append] at ht
  obtain ⟨o₁, rfl⟩ : ∃ o₁, a = weave l g ++ o₁ := by
    refine Text.exists_append_of_byteLength_le (b := o ++ weave r last) (d := m ++ z) ?_ (by omega)
    rw [← List.append_assoc, ← ht, List.append_assoc]
  have htail : o ++ weave r last = o₁ ++ m ++ z := by
    simpa using ht.symm
  obtain ⟨o₂, rfl⟩ : ∃ o₂, o = (o₁ ++ m) ++ o₂ := by
    refine Text.exists_append_of_byteLength_le htail.symm ?_
    simp only [Text.byteLength_append] at he ⊢
    omega
  obtain rfl : z = o₂ ++ weave r last := by
    rw [List.append_assoc (o₁ ++ m)] at htail
    exact (List.append_cancel_left htail).symm
  refine ⟨l ++ (g, o₁ ++ new ++ o₂) :: r, last, by simpa using hkept, ?_, ?_⟩
  · rw [weave_append]
    simp
  let before := Text.byteLength (weave l g)
  let changed := before + Text.byteLength (o₁ ++ new ++ o₂)
  have hmiddle : (⟨before, changed⟩ : Span) ∈ openings 0 (l ++ (g, o₁ ++ new ++ o₂) :: r) := by
    rw [openings_append, Nat.zero_add]
    simp [before, changed]
  have hlengths : Text.byteLength (weave l g ++ o₁) = before + Text.byteLength o₁ ∧
      Text.byteLength (weave l g ++ o₁ ++ m) = before + Text.byteLength o₁ + Text.byteLength m ∧
      changed = before + Text.byteLength o₁ + Text.byteLength new + Text.byteLength o₂ := by
    simp [before, changed, Text.byteLength_append, Nat.add_assoc]
  obtain ⟨hstart, hstop, hchanged⟩ := hlengths
  rintro s' (⟨s₁, hs₁, hle, hs'⟩ | hs')
  · obtain ⟨w, hmem, hw⟩ := hin s₁ hs₁
    rw [Span.within_iff] at hw
    rw [openings_append, Nat.zero_add, List.mem_append, List.mem_cons] at hmem
    rcases hmem with hmem | rfl | hmem
    · -- before the edit
      have hbound := stop_le_of_mem_openings hmem g
      obtain rfl := Span.eq_of_reanchor_of_le (by dsimp only; omega) hs'
      refine ⟨w, ?_, Span.within_iff.2 hw⟩
      rw [openings_append]
      exact List.mem_append_left _ hmem
    · -- around the edit
      have hfrom := Span.start_reanchor hle hs'
      have hto := Span.stop_reanchor hle hs'
      simp only [Text.byteLength_append] at hw
      refine ⟨_, hmiddle, ?_⟩
      rw [Span.within_iff]
      dsimp only at hfrom hto ⊢
      omega
    · -- behind the edit
      have hlen : ∀ x : Text, before + Text.byteLength (o₁ ++ x ++ o₂) =
          before + Text.byteLength o₁ + Text.byteLength o₂ + Text.byteLength x := fun x => by
        simp only [Text.byteLength_append]
        omega
      have hmem' : w ∈ openings (before + Text.byteLength (o₁ ++ m ++ o₂)) r := hmem
      rw [hlen, openings_shift, List.mem_map] at hmem'
      obtain ⟨w₀, hw₀, rfl⟩ := hmem'
      have hbound := le_start_of_mem_openings hw₀
      simp only [Span.shift] at hw
      rcases Span.reanchor_of_ge hle (by dsimp only; omega) (by dsimp only; omega) hs' with
        ⟨rfl, hempty, hle'⟩ | hmoved
      · -- an empty span at the edit
        refine ⟨_, hmiddle, ?_⟩
        rw [Span.within_iff]
        dsimp only at hle' ⊢
        omega
      · refine ⟨w₀.shift (Text.byteLength new), ?_, ?_⟩
        · rw [openings_append, Nat.zero_add]
          refine List.mem_append_right _ (List.mem_cons_of_mem _ ?_)
          show _ ∈ openings (before + Text.byteLength (o₁ ++ new ++ o₂)) r
          rw [hlen, openings_shift]
          exact List.mem_map_of_mem hw₀
        · rw [Span.within_iff]
          simp only [Span.shift]
          dsimp only at hmoved
          omega
  · -- in the new text
    rw [Span.within_iff] at hs'
    refine ⟨_, hmiddle, ?_⟩
    rw [Span.within_iff]
    dsimp only at hs' ⊢
    omega

/-! ### Line breaks behind the stretches that change -/

/-- Whether a text is another one without a line break at its start, or the same. -/
def LosesBreak (g g' : Text) : Prop := g = g' ∨ g = '\n' :: g'

/-- A stretch that stays when at most a line break at its start is deleted. -/
theorem losesBreak_dropAt {drop : Nat → Bool} {leading : Prop} {g : Text} {offset : Nat}
    (h : ∀ q, offset ≤ q → q < offset + Text.byteLength g → drop q = true →
      leading ∧ q = offset ∧ g.head? = some '\n') :
    LosesBreak g (Text.dropAt drop offset g) ∧ (leading ∨ Text.dropAt drop offset g = g) := by
  cases g with
  | nil => exact ⟨.inl rfl, .inr rfl⟩
  | cons x g =>
    have hx := x.utf8Size_pos
    rw [Text.byteLength_cons] at h
    have hlater : ∀ q, offset < q → q < offset + (x.utf8Size + Text.byteLength g) → drop q = false := by
      intro q hq hlt
      by_contra hdrop
      have := (h q (Nat.le_of_lt hq) hlt (by simpa using hdrop)).2.1
      omega
    cases hdrop : drop offset with
    | true =>
      obtain ⟨hleading, -, hhead⟩ := h offset (Nat.le_refl _) (by omega) hdrop
      obtain rfl : x = '\n' := Option.some.inj hhead
      refine ⟨.inr ?_, .inl hleading⟩
      rw [Text.dropAt, if_pos hdrop, Text.dropAt_none fun q hq hlt => hlater q (by omega) (by omega)]
    | false =>
      have hsame : Text.dropAt drop offset (x :: g) = x :: g := by
        refine Text.dropAt_none fun q hq hlt => ?_
        rw [Text.byteLength_cons] at hlt
        rcases Nat.eq_or_lt_of_le hq with rfl | hq
        · exact hdrop
        · exact hlater q hq hlt
      exact ⟨.inl hsame.symm, .inr hsame⟩

/-- Characters are deleted in the stretches that change, and line breaks right behind them.  At the very
start a line break can go only if `leading` holds. -/
theorem dropAt_weave {drop : Nat → Bool} {leading : Prop} {ps : List (Text × Text)} {last : Text}
    {offset : Nat}
    (h : ∀ q, offset ≤ q → drop q = true →
      (leading ∧ q = offset ∧ (weave ps last).head? = some '\n') ∨
        ∃ w ∈ openings offset ps, w.start ≤ q ∧
          (q < w.stop ∨ (q = w.stop ∧ Text.charAt? (weave ps last) (q - offset) = some '\n'))) :
    ∃ ps' last', Text.dropAt drop offset (weave ps last) = weave ps' last' ∧
      List.Forall₂ LosesBreak (ps.map Prod.fst ++ [last]) (ps'.map Prod.fst ++ [last']) ∧
      (leading ∨ (ps'.map Prod.fst ++ [last']).head? = (ps.map Prod.fst ++ [last]).head?) := by
  induction ps generalizing offset leading with
  | nil =>
    have hgap : LosesBreak last (Text.dropAt drop offset last) ∧
        (leading ∨ Text.dropAt drop offset last = last) :=
      losesBreak_dropAt fun q hq _ hdrop => by
        rcases h q hq hdrop with hstart | ⟨w, hw, -⟩
        · exact hstart
        · cases hw
    exact ⟨[], _, rfl, .cons hgap.1 .nil, hgap.2.imp_right fun heq => congrArg some heq⟩
  | cons p ps ih =>
    obtain ⟨g, o⟩ := p
    have hgap : LosesBreak g (Text.dropAt drop offset g) ∧ (leading ∨ Text.dropAt drop offset g = g) := by
      refine losesBreak_dropAt fun q hq hlt hdrop => ?_
      rcases h q hq hdrop with ⟨hleading, hqo, hhead⟩ | ⟨w, hw, hle, -⟩
      · have hg : g ≠ [] := by
          rintro rfl
          simp at hlt
          omega
        rw [weave, List.append_assoc, List.head?_append_of_ne_nil _ hg] at hhead
        exact ⟨hleading, hqo, hhead⟩
      · have hbehind : offset + Text.byteLength g ≤ w.start := by
          rcases List.mem_cons.1 hw with rfl | hw
          · exact Nat.le_refl _
          · have := le_start_of_mem_openings hw
            omega
        omega
    have hrest : ∀ q, offset + Text.byteLength g + Text.byteLength o ≤ q → drop q = true →
        (True ∧ q = offset + Text.byteLength g + Text.byteLength o ∧ (weave ps last).head? = some '\n') ∨
          ∃ w ∈ openings (offset + Text.byteLength g + Text.byteLength o) ps, w.start ≤ q ∧
            (q < w.stop ∨ (q = w.stop ∧ Text.charAt? (weave ps last)
              (q - (offset + Text.byteLength g + Text.byteLength o)) = some '\n')) := by
      intro q hq hdrop
      have hlen := Text.byteLength_append g o
      rcases h q (by omega) hdrop with ⟨-, hqo, hhead⟩ | ⟨w, hw, hle, hin⟩
      · -- nothing comes before the rest
        obtain rfl := Text.eq_nil_of_byteLength_eq_zero (show Text.byteLength g = 0 by omega)
        obtain rfl := Text.eq_nil_of_byteLength_eq_zero (show Text.byteLength o = 0 by omega)
        exact .inl ⟨trivial, by simpa using hqo, hhead⟩
      rcases List.mem_cons.1 hw with rfl | hw
      · rcases hin with hlt | ⟨hstop, hbreak⟩
        · exact absurd hlt (by dsimp only; omega)
        · have hat : q - offset = Text.byteLength (g ++ o) := by dsimp only at hstop; omega
          rw [weave, hat, Text.charAt?_append] at hbreak
          exact .inl ⟨trivial, hstop, hbreak⟩
      · refine .inr ⟨w, hw, hle, hin.imp_right fun ⟨hstop, hbreak⟩ => ⟨hstop, ?_⟩⟩
        have hat : q - offset = Text.byteLength (g ++ o) +
            (q - (offset + Text.byteLength g + Text.byteLength o)) := by omega
        rwa [weave, hat, Text.charAt?_behind] at hbreak
    obtain ⟨ps', last', heq, hall, -⟩ := ih hrest
    refine ⟨(Text.dropAt drop offset g, Text.dropAt drop (offset + Text.byteLength g) o) :: ps', last', ?_,
      .cons hgap.1 hall, hgap.2.imp_right fun heq => congrArg some heq⟩
    rw [weave, weave, Text.dropAt_append, Text.dropAt_append, Text.byteLength_append, ← Nat.add_assoc, heq]

end TemplateEngine
