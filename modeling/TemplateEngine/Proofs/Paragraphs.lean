import TemplateEngine.Proofs.Lines

/-!
# Paragraphs — deleting one paragraph

A text is told by its paragraphs: what is before one of them ends each of its paragraphs with a line break, what
is behind it begins each with one (`Text.lines_eq_iff`).  So the paragraph that is found by looking for line
breaks around a position is the one among all paragraphs that the position is in, and deleting it with the line
break behind or before it takes one paragraph out of the list (`lines_deleteParagraph`).
-/

namespace TemplateEngine

namespace Text

/-! ### Paragraphs -/

/-- The paragraphs of a text, without the line breaks between them. -/
def lines (t : Text) : List Text := t.splitOn '\n'

theorem lines_ne_nil (t : Text) : lines t ≠ [] := by
  rw [lines, splitOn_eq]
  exact List.splitOn_ne_nil '\n' t

/-- Paragraphs, each with a line break behind it. -/
def ending (ls : List Text) : Text := ls.flatMap (· ++ ['\n'])

/-- Paragraphs, each with a line break before it. -/
def beginning (ls : List Text) : Text := ls.flatMap ('\n' :: ·)

theorem ending_concat (ls : List Text) (l : Text) : ending (ls ++ [l]) = ending ls ++ l ++ ['\n'] := by
  simp [ending]

theorem beginning_cons (l : Text) (ls : List Text) : beginning (l :: ls) = '\n' :: l ++ beginning ls := rfl

theorem intercalate_lines (A : List Text) (m : Text) (B : List Text) :
    ['\n'].intercalate (A ++ m :: B) = ending A ++ m ++ beginning B := by
  induction A with
  | nil =>
    induction B generalizing m with
    | nil => simp [ending, beginning]
    | cons n B ih =>
      have hrest := ih n
      rw [List.nil_append] at hrest
      rw [List.nil_append, List.intercalate_cons_of_ne_nil (by simp), hrest, beginning_cons]
      simp [ending]
  | cons l A ih =>
    rw [List.cons_append, List.intercalate_cons_of_ne_nil (by simp), ih]
    simp [ending]

/-- A text has these paragraphs when it is put together from them and they have no line breaks. -/
theorem lines_eq_iff {t m : Text} {A B : List Text} :
    t.lines = A ++ m :: B ↔ t = ending A ++ m ++ beginning B ∧ ∀ l ∈ A ++ m :: B, '\n' ∉ l := by
  rw [← intercalate_lines]
  constructor
  · intro h
    refine ⟨?_, fun l hl => notMem_of_mem_splitOn (h ▸ hl)⟩
    rw [← h, lines, splitOn_eq, List.intercalate_splitOn]
  · rintro ⟨rfl, hls⟩
    rw [lines, splitOn_eq]
    exact List.splitOn_intercalate '\n' hls (by simp)

/-- What ends in a line break is made of paragraphs that each end in one. -/
theorem exists_ending {b : Text} (h : b = [] ∨ ∃ b', b = b' ++ ['\n']) :
    ∃ A, b = ending A ∧ ∀ l ∈ A, '\n' ∉ l := by
  rcases h with rfl | ⟨b, rfl⟩
  · exact ⟨[], rfl, by simp⟩
  · obtain ⟨A, m, hlines⟩ := (List.eq_nil_or_concat' (lines b)).resolve_left (lines_ne_nil b)
    obtain ⟨hb, hls⟩ := lines_eq_iff.1 hlines
    refine ⟨A ++ [m], ?_, hls⟩
    rw [ending_concat, hb]
    simp [beginning]

/-- What begins with a line break is made of paragraphs that each begin with one. -/
theorem exists_beginning {z : Text} (h : z = [] ∨ ∃ z', z = '\n' :: z') :
    ∃ B, z = beginning B ∧ ∀ l ∈ B, '\n' ∉ l := by
  rcases h with rfl | ⟨z, rfl⟩
  · exact ⟨[], rfl, by simp⟩
  · obtain ⟨m, B, hlines⟩ := List.exists_cons_of_ne_nil (lines_ne_nil z)
    obtain ⟨hz, hls⟩ := lines_eq_iff.1 (show lines z = [] ++ m :: B from hlines)
    refine ⟨m :: B, ?_, hls⟩
    rw [beginning_cons, hz]
    simp [ending]

/-! ### Places -/

/-- Start and stop of paragraphs of which the first one starts at `pos`. -/
def places (pos : Nat) : List Text → List (Nat × Nat)
  | [] => []
  | l :: ls => (pos, pos + byteLength l) :: places (pos + byteLength l + 1) ls

theorem paragraphsFrom_eq (start pos : Nat) (t : Text) :
    paragraphsFrom start pos t =
      match t.lines with
      | [] => []
      | l :: ls => (start, pos + byteLength l) :: places (pos + byteLength l + 1) ls := by
  unfold lines
  induction t generalizing start pos with
  | nil => rfl
  | cons c t ih =>
    rw [paragraphsFrom, splitOn]
    split
    next hc =>
      rw [ih]
      obtain ⟨l, ls, hls⟩ := List.exists_cons_of_ne_nil (List.splitOn_ne_nil '\n' t)
      simp [splitOn_eq, hls, places]
    next hc =>
      rw [ih]
      obtain ⟨l, ls, hls⟩ := List.exists_cons_of_ne_nil (List.splitOn_ne_nil '\n' t)
      simp [splitOn_eq, hls, Nat.add_assoc]

theorem paragraphs_eq (t : Text) : t.paragraphs = places 0 t.lines := by
  rw [paragraphs, paragraphsFrom_eq]
  cases t.lines with
  | nil => rfl
  | cons l ls => rfl

theorem length_places (pos : Nat) (ls : List Text) : (places pos ls).length = ls.length := by
  induction ls generalizing pos with
  | nil => rfl
  | cons l ls ih => rw [places, List.length_cons, List.length_cons, ih]

theorem places_getElem? (pos : Nat) (A : List Text) (m : Text) (B : List Text) :
    (places pos (A ++ m :: B))[A.length]? =
      some (pos + byteLength (ending A), pos + byteLength (ending A ++ m)) := by
  induction A generalizing pos with
  | nil => simp [places, ending]
  | cons l A ih =>
    rw [List.cons_append, places, List.length_cons, List.getElem?_cons_succ, ih]
    simp [ending, Cleaner.utf8Size_newline]
    omega

/-- The paragraph around a position is what is before it back to a line break and behind it up to one. -/
theorem exists_around {t : Text} {p : Nat} (hp : t.isBoundary p = true) :
    ∃ A m B, t.lines = A ++ m :: B ∧ byteLength (ending A) ≤ p ∧ p ≤ byteLength (ending A ++ m) ∧
      t.paragraphAround? p = some (byteLength (ending A), byteLength (ending A ++ m)) := by
  obtain ⟨before, after, rfl, rfl⟩ := isBoundary_iff.1 hp
  obtain ⟨b, hb, hbreak⟩ := exists_before_lastLine before
  obtain ⟨z, hz, hbreak'⟩ := exists_behind_firstLine after
  obtain ⟨A, rfl, hA⟩ := exists_ending hbreak
  obtain ⟨B, rfl, hB⟩ := exists_beginning hbreak'
  have hlast : '\n' ∉ lastLine before := fun h => by
    simpa using List.mem_takeWhile_imp (List.mem_reverse.1 h)
  have hfirst : '\n' ∉ firstLine after := fun h => by
    simpa using List.mem_takeWhile_imp h
  have hbefore : byteLength before = byteLength (ending A) + byteLength (lastLine before) := by
    conv_lhs => rw [hb, byteLength_append]
  refine ⟨A, lastLine before ++ firstLine after, B, ?_, by omega, ?_, ?_⟩
  · refine lines_eq_iff.2 ⟨?_, ?_⟩
    · conv_lhs => rw [hb, hz]
      simp
    · simp only [List.mem_append, List.mem_cons]
      rintro l (hl | rfl | hl)
      · exact hA l hl
      · simp [hlast, hfirst]
      · exact hB l hl
  · rw [byteLength_append, byteLength_append, hbefore]
    omega
  · unfold paragraphAround?
    rw [splitAt?_eq_some_iff.2 ⟨rfl, rfl⟩]
    show some (_, _) = _
    rw [byteLength_append, byteLength_append, hbefore, Nat.add_sub_cancel, Nat.add_assoc]

end Text

/-! ### Deleting -/

namespace Document

variable {d : Document} {A B : List Text} {m : Text}

theorem edit_text {a m c : Text} (h : d.text = a ++ m ++ c) {s : Span} (hstart : Text.byteLength a = s.start)
    (hstop : Text.byteLength (a ++ m) = s.stop) : ∃ d', d.edit s [] none = .ok d' ∧ d'.text = a ++ c := by
  obtain ⟨start, stop⟩ := s
  obtain rfl : Text.byteLength a = start := hstart
  obtain rfl : Text.byteLength (a ++ m) = stop := hstop
  refine ⟨_, edit_eq h none, ?_⟩
  show a ++ [] ++ c = a ++ c
  rw [List.append_nil]

/-- Deleting a paragraph with the line break behind or before it takes it out of the list. -/
theorem lines_edit_withLineBreak (h : d.text.lines = A ++ m :: B) :
    ∃ d', d.edit (d.withLineBreak ⟨Text.byteLength (Text.ending A), Text.byteLength (Text.ending A ++ m)⟩) []
        none = .ok d' ∧
      d'.text.lines = if A ++ B = [] then [[]] else A ++ B := by
  obtain ⟨htext, hls⟩ := Text.lines_eq_iff.1 h
  have hlength : d.length = Text.byteLength (Text.ending A ++ m ++ Text.beginning B) := by rw [length, htext]
  unfold withLineBreak
  rcases B with _ | ⟨n, B⟩
  · have hend : ¬ Text.byteLength (Text.ending A ++ m) < d.length := by
      rw [hlength, Text.byteLength_append _ (Text.beginning [])]
      simp [Text.beginning]
    rw [if_neg hend]
    rcases List.eq_nil_or_concat' A with rfl | ⟨A, n, rfl⟩
    · -- the only paragraph
      obtain ⟨d', hedit, htext'⟩ := edit_text (d := d) (a := []) (m := m) (c := [])
        (by simpa [Text.ending, Text.beginning] using htext) (s := ⟨0, Text.byteLength m⟩) rfl rfl
      refine ⟨d', hedit, ?_⟩
      rw [htext']
      rfl
    · -- the last one, with the line break before it
      rw [Text.ending_concat] at htext ⊢
      rw [if_pos (by simp [Cleaner.utf8Size_newline])]
      obtain ⟨d', hedit, htext'⟩ := edit_text (d := d) (a := Text.ending A ++ n) (m := '\n' :: m) (c := [])
        (by simpa [Text.beginning] using htext)
        (s := ⟨Text.byteLength (Text.ending A ++ n ++ ['\n']) - 1,
          Text.byteLength (Text.ending A ++ n ++ ['\n'] ++ m)⟩)
        (by simp [Cleaner.utf8Size_newline]) (by simp)
      refine ⟨d', hedit, ?_⟩
      rw [if_neg (by simp), List.append_nil]
      exact Text.lines_eq_iff.2
        ⟨by simpa [Text.beginning] using htext', fun l hl => hls l (List.mem_append_left _ hl)⟩
  · -- the line break behind it
    rw [Text.beginning_cons] at htext hlength
    have hbehind : Text.byteLength (Text.ending A ++ m) < d.length := by
      rw [hlength, Text.byteLength_append]
      simp [Cleaner.utf8Size_newline]
    rw [if_pos hbehind]
    obtain ⟨d', hedit, htext'⟩ := edit_text (d := d) (a := Text.ending A) (m := m ++ ['\n'])
      (c := n ++ Text.beginning B) (by simpa using htext)
      (s := ⟨Text.byteLength (Text.ending A), Text.byteLength (Text.ending A ++ m) + 1⟩) rfl
      (by simp [Cleaner.utf8Size_newline]; omega)
    refine ⟨d', hedit, ?_⟩
    rw [if_neg (by simp)]
    exact Text.lines_eq_iff.2 ⟨by simpa using htext', fun l hl => hls l (by simp at hl ⊢; tauto)⟩

theorem paragraph_of_lines (h : d.text.lines = A ++ m :: B) :
    d.paragraphs[A.length]? =
      some ⟨Text.byteLength (Text.ending A), Text.byteLength (Text.ending A ++ m)⟩ := by
  rw [paragraphs, List.getElem?_map, Text.paragraphs_eq, h, Text.places_getElem?]
  simp

/-- The ranges of the paragraphs show the paragraphs. -/
theorem slice?_paragraphs (d : Document) :
    d.paragraphs.map (fun p => d.text.slice? p.start p.stop) = d.text.lines.map some := by
  have hlength : d.paragraphs.length = d.text.lines.length := by
    rw [paragraphs, List.length_map, Text.paragraphs_eq, Text.length_places]
  refine List.ext_getElem? fun i => ?_
  rw [List.getElem?_map, List.getElem?_map]
  cases hline : d.text.lines[i]? with
  | none =>
    rw [List.getElem?_eq_none_iff.2 (hlength ▸ List.getElem?_eq_none_iff.1 hline)]
    rfl
  | some m =>
    obtain ⟨hi, rfl⟩ := List.getElem?_eq_some_iff.1 hline
    have hlines : d.text.lines = d.text.lines.take i ++ d.text.lines[i] :: d.text.lines.drop (i + 1) := by
      rw [List.getElem_cons_drop, List.take_append_drop]
    have hplace := paragraph_of_lines hlines
    rw [List.length_take_of_le hi.le] at hplace
    rw [hplace]
    exact congrArg some (Text.slice?_eq (Text.lines_eq_iff.1 hlines).1 rfl rfl)

/-- **Deleting a paragraph.**  In every text and at every position of it between characters: exactly one of
the ranges of all paragraphs has the position in it, it is the range found around the position, and deleting
there takes this paragraph out of the list of paragraphs, where an empty one is left if there was no other.  The
ranges show the paragraphs. -/
theorem lines_deleteParagraph (d : Document) {r : TextRange} (hr : d.covers r = true)
    (hp : d.text.isBoundary r.start = true) :
    d.paragraphs.map (fun p => d.text.slice? p.start p.stop) = d.text.lines.map some ∧
    ∃ i p, d.paragraphs[i]? = some p ∧ p.start ≤ r.start ∧ r.start ≤ p.stop ∧
      (∀ (j : Nat) q, d.paragraphs[j]? = some q → q.start ≤ r.start → r.start ≤ q.stop → j = i) ∧
      d.text.paragraphAround? r.start = some (p.start, p.stop) ∧
      ∃ d', d.deleteParagraph r = .ok (.ok d') ∧
        d'.text.lines = if 1 < d.text.lines.length then d.text.lines.eraseIdx i else [[]] := by
  obtain ⟨A, m, B, hlines, hstart, hstop, haround⟩ := Text.exists_around hp
  have hi := paragraph_of_lines hlines
  have hlen : r.start ≤ d.length := Text.le_of_isBoundary hp
  refine ⟨slice?_paragraphs d, A.length, _, hi, hstart, hstop, fun j q hj hqstart hqstop => ?_, haround, ?_⟩
  · -- the position's line is the number of each paragraph it is in
    have hline := Nat.le_antisymm ((paragraph_spec hi hlen).2.1 hstop) ((paragraph_spec hi hlen).1.1 hstart)
    have hline' := Nat.le_antisymm ((paragraph_spec hj hlen).2.1 hqstop) ((paragraph_spec hj hlen).1.1 hqstart)
    exact hline'.symm.trans hline
  · obtain ⟨d', hedit, hlines'⟩ := lines_edit_withLineBreak hlines
    have hcheck : d.check r = .ok () := if_pos hr
    refine ⟨d', ?_, ?_⟩
    · unfold deleteParagraph
      rw [hcheck]
      dsimp only
      rw [haround]
      show (d.edit _ [] none >>= _) = _
      rw [hedit]
      rfl
    · rw [hlines', hlines, List.eraseIdx_append_of_length_le (Nat.le_refl _), Nat.sub_self]
      have hnone : A ++ B = [] ↔ ¬ 1 < (A ++ m :: B).length := by
        rw [← List.length_eq_zero_iff, List.length_append, List.length_append, List.length_cons]
        omega
      simp only [hnone, ite_not, List.eraseIdx_cons_zero]

/-- Paragraphs of which the last one is empty. -/
def threeParagraphs : Document := ofText "x\né\n".toList

theorem lines_deleteParagraph_threeParagraphs :
    (∃ d', threeParagraphs.deleteParagraph (.ofSpan ⟨2, 4⟩) = .ok (.ok d') ∧ d'.text.lines = [['x'], []]) ∧
      ∃ d', threeParagraphs.deleteParagraph (.ofSpan (.point 5)) = .ok (.ok d') ∧
        d'.text.lines = [['x'], ['é']] := by
  obtain ⟨-, i, p, -, -, -, honly, -, d₁, hdelete₁, hlines₁⟩ :=
    lines_deleteParagraph threeParagraphs (r := .ofSpan ⟨2, 4⟩) (by decide) (by decide)
  obtain rfl : 1 = i := honly 1 ⟨2, 4⟩ (by decide) (by decide) (by decide)
  obtain ⟨-, i, p, -, -, -, honly, -, d₂, hdelete₂, hlines₂⟩ :=
    lines_deleteParagraph threeParagraphs (r := .ofSpan (.point 5)) (by decide) (by decide)
  obtain rfl : 2 = i := honly 2 ⟨5, 5⟩ (by decide) (by decide) (by decide)
  exact ⟨⟨d₁, hdelete₁, hlines₁.trans (by decide)⟩, d₂, hdelete₂, hlines₂.trans (by decide)⟩

end Document

end TemplateEngine
