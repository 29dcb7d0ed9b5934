import TemplateEngine.Proofs.Bystanders
import TemplateEngine.Proofs.Sweep

/-!
# Marks — collecting the marks around inserted content

A command that inserted content stands between two marks, each of which is deleted alone or, where it is
alone in its paragraph, with the line break behind it.  `Command.garbage` lists these bytes as they are
in the text before anything is deleted.  For each mark one cleaner is found that deletes just them
(`openingCleaner_spec`, `closingCleaner_spec`); cleaners for different marks are disjoint, as a mark is
no line break (`Cleaner.apart`).  So the sweep takes away the garbage of all commands and nothing else.
-/

namespace TemplateEngine

/-! ### The bytes to delete -/

namespace TextRange

/-- The bytes that go with the mark at the start of a range. -/
def openingBytes (t : Text) (r : TextRange) : List Nat :=
  if t.startsParagraph r.start && t.charAt? (r.start + 1) == some '\n' then [r.start, r.start + 1]
  else [r.start]

/-- The bytes that go with the mark at the end of a range. -/
def closingBytes (t : Text) (r : TextRange) (removable : Bool) : List Nat :=
  if removable && t.startsParagraph (r.stop - 1) && t.charAt? r.stop == some '\n' then
    [r.stop - 1, r.stop]
  else [r.stop - 1]

/-- Whether a range is a content between marks. -/
structure IsEnclosed (t : Text) (r : TextRange) : Prop where
  room : r.start + 2 ≤ r.stop
  opening : t.charAt? r.start = some '<'
  closing : t.charAt? (r.stop - 1) = some '>'

end TextRange

/-- Whether a kind is that of a fragment inserted by hand. -/
def CommandKind.isManual : CommandKind → Bool
  | .insertFragment request => request.manual
  | _ => false

namespace Command

/-- The range whose marks are collected for a command. -/
def enclosed? (d : Document) (c : Command) : Option TextRange :=
  if c.kind.isInsertion && c.marked then c.range? d else none

/-- Where the marks of a command are. -/
def markBytes (d : Document) (c : Command) : List Nat :=
  match c.enclosed? d with
  | some r => [r.start, r.stop - 1]
  | none => []

/-- The bytes to delete for the marks of a command. -/
def garbage (d : Document) (c : Command) : List Nat :=
  match c.enclosed? d with
  | some r => r.openingBytes d.text ++ r.closingBytes d.text (!c.kind.isManual)
  | none => []

end Command

/-- Whether the marks of commands are where they were put: around the ranges of the commands, and each of
them the mark of one command only. -/
structure MarksIntact (d : Document) (cs : List Command) : Prop where
  distinct : (cs.map (·.bookmark)).Nodup
  enclosed : ∀ c ∈ cs, ∀ r ∈ c.enclosed? d, r.IsEnclosed d.text
  apart : (cs.flatMap (·.markBytes d)).Nodup

/-- Whether two commands, if both insert, have different bookmarks. -/
def DifferAsInserters (c c' : Command) : Prop :=
  c.kind.isInsertion = true → c'.kind.isInsertion = true → c.bookmark ≠ c'.bookmark

/-- As `MarksIntact`, where commands that do not insert may share their bookmarks. -/
structure MarksHeld (d : Document) (cs : List Command) : Prop where
  distinct : cs.Pairwise DifferAsInserters
  enclosed : ∀ c ∈ cs, ∀ r ∈ c.enclosed? d, r.IsEnclosed d.text
  apart : (cs.flatMap (·.markBytes d)).Nodup

theorem MarksIntact.held {d : Document} {cs : List Command} (h : MarksIntact d cs) : MarksHeld d cs where
  distinct := (List.pairwise_map.1 h.distinct).imp fun hne _ _ => hne
  enclosed := h.enclosed
  apart := h.apart

/-! ### The tests on paragraphs -/

/-- Whether a fault is a test of a byte next to a position that is only a part of a character. -/
def Fault.IsSplit : Fault → Prop
  | .splitCharacter _ => True
  | .brokenSpan _ => False

namespace Document

/-- The test reads a character of one byte. -/
theorem probe_spec {d : Document} {p : Nat} (hp : p + 1 ≤ d.length) (position : Nat) :
    Ends Fault.IsSplit (d.probe ⟨p, p + 1⟩ position) fun t =>
      ∃ x, t = [x] ∧ d.text.charAt? p = some x := by
  have hclamp : d.clamp ⟨p, p + 1⟩ = ⟨p, p + 1⟩ := by
    simp only [clamp, Nat.min_eq_left hp, Nat.min_eq_left (Nat.le_of_succ_le hp), Span.mk.injEq,
      true_and]
    omega
  unfold probe inside?
  rw [hclamp]
  cases hslice : d.text.slice? p (p + 1) with
  | none => simp [Span.isCollapsed, hslice, Fault.IsSplit]
  | some t =>
    obtain ⟨u, v, htext, hu, hstop⟩ := Text.slice?_eq_some_iff.1 hslice
    have hlen : Text.byteLength t = 1 := by
      rw [Text.byteLength_append] at hstop
      omega
    obtain ⟨x, rfl⟩ : ∃ x, t = [x] := by
      cases t with
      | nil => cases hlen
      | cons x t =>
        have := x.utf8Size_pos
        rw [Text.byteLength_cons] at hlen
        exact ⟨x, by rw [Text.eq_nil_of_byteLength_eq_zero (t := t) (by omega)]⟩
    have hx : d.text.charAt? p = some x := Text.charAt?_eq_some_iff.2 ⟨u, v, by simp [htext], hu⟩
    simp [Span.isCollapsed, hslice, hx]

theorem isStartOfParagraph_spec {d : Document} {r : TextRange} (hr : r.start ≤ d.length) :
    Ends Fault.IsSplit (d.isStartOfParagraph r) (· = d.text.startsParagraph r.start) := by
  unfold isStartOfParagraph
  split
  next h => simp [Text.startsParagraph, h]
  next h =>
    have hspan : r.start - 1 + 1 = r.start := by omega
    have hprobe := probe_spec (d := d) (p := r.start - 1) (by omega) r.start
    rw [hspan] at hprobe
    refine Ends.andThen hprobe ?_
    rintro t ⟨x, rfl, hx⟩
    simp [Text.startsParagraph, h, hx]

theorem isEndOfParagraph_spec (d : Document) (r : TextRange) :
    Ends Fault.IsSplit (d.isEndOfParagraph r)
      (· = (d.isEndOfDocument r || d.text.charAt? r.stop == some '\n')) := by
  unfold isEndOfParagraph isEndOfDocument
  split
  next h => simp [h]
  next h =>
    refine Ends.andThen (probe_spec (d := d) (p := r.stop) (by omega) r.stop) ?_
    rintro t ⟨x, rfl, hx⟩
    simp [h, hx]

end Document

theorem bothHold_spec {F : Fault → Prop} {a b : Except Fault Bool} {x y : Bool}
    (ha : Ends F a (· = x)) (hb : Ends F b (· = y)) : Ends F (bothHold a b) (· = (x && y)) := by
  refine Ends.andThen ha fun v hv => ?_
  subst hv
  cases v with
  | false => simp
  | true => simpa using hb

/-! ### Finding cleaners -/

namespace Text

theorem lt_of_charAt? {t : Text} {p : Nat} {x : Char} (h : t.charAt? p = some x) :
    p < byteLength t := by
  obtain ⟨u, v, rfl, rfl⟩ := charAt?_eq_some_iff.1 h
  have := x.utf8Size_pos
  rw [byteLength_append, byteLength_cons]
  omega

/-- Where a paragraph starts, the text before ends with a line break. -/
theorem eq_nil_or_getLast?_of_startsParagraph {u v : Text}
    (h : startsParagraph (u ++ v) (byteLength u) = true) : u = [] ∨ u.getLast? = some '\n' := by
  simp only [startsParagraph, Bool.or_eq_true, beq_iff_eq] at h
  rcases h with h | h
  · exact .inl (eq_nil_of_byteLength_eq_zero h)
  · obtain ⟨a, b, hab, ha⟩ := charAt?_eq_some_iff.1 h
    rcases eq_or_ne u [] with rfl | hne
    · exact .inl rfl
    have hpos : 0 < byteLength u := by
      cases u with
      | nil => exact absurd rfl hne
      | cons x u =>
        have := x.utf8Size_pos
        simp only [byteLength_cons]
        omega
    obtain ⟨m, rfl⟩ := exists_append_of_byteLength_le (hab.symm.trans rfl : a ++ '\n' :: b = u ++ v)
      (by omega)
    -- what follows the line break in `u` has no bytes
    rw [List.append_assoc] at hab
    have htail := List.append_cancel_left hab
    cases m with
    | nil =>
      rw [List.append_nil] at ha hpos
      omega
    | cons y m =>
      obtain ⟨rfl, -⟩ := List.cons.inj htail
      have hm : byteLength m = 0 := by
        simp only [byteLength_append, byteLength_cons, Cleaner.utf8Size_newline] at ha
        omega
      rw [eq_nil_of_byteLength_eq_zero hm]
      exact .inr (by simp)

end Text

namespace Cleaner

/-- What a cleaner that is found for the mark at byte `p` deletes: the mark and what `bytes` lists. -/
structure Removes (t : Text) (p : Nat) (bytes : List Nat) (c : Cleaner) : Prop where
  sits : c.Sits t
  start : c.stretch.start = p
  visible : t.charAt? p ≠ some '\n'
  deletes : ∀ q, c.deletes q = true ↔ q ∈ bytes

/-- Cleaners for different marks delete disjoint stretches. -/
theorem Removes.apart {t : Text} {p q : Nat} {bytes bytes' : List Nat} {c c' : Cleaner}
    (h : c.Removes t p bytes) (h' : c'.Removes t q bytes') (hne : p ≠ q) :
    c.stretch.stop ≤ c'.stretch.start ∨ c'.stretch.stop ≤ c.stretch.start := by
  have hkey : ∀ {p q : Nat} {bytes bytes' : List Nat} {c c' : Cleaner}, c.Removes t p bytes →
      c'.Removes t q bytes' → p < q → c.stretch.stop ≤ q := by
    intro p q bytes bytes' c c' h h' hlt
    obtain ⟨hle, hbreak⟩ := h.sits.stop_le
    rw [h.start] at hle hbreak
    by_contra hover
    -- the second byte of a stretch is a line break, so no mark
    obtain rfl : q = p + 1 := by omega
    exact h'.visible (hbreak (by omega))
  rcases Nat.lt_or_gt_of_ne hne with hlt | hlt
  · exact .inl (h'.start ▸ hkey h h' hlt)
  · exact .inr (h.start ▸ hkey h' h hlt)

/-- A mark alone. -/
theorem removes_range {t u v : Text} {x : Char} (ht : t = u ++ x :: v) (hx : x.utf8Size = 1)
    (hne : x ≠ '\n') :
    Removes t (Text.byteLength u) [Text.byteLength u]
      (.range (.ofSpan ⟨Text.byteLength u, Text.byteLength u + 1⟩)) where
  sits := .range ht hx
  start := rfl
  visible := by
    rw [ht, Text.charAt?_append]
    simpa using hne
  deletes q := by
    simp only [deletes_iff, stretch, TextRange.ofSpan, List.mem_singleton]
    omega

/-- A mark that is alone in its paragraph. -/
theorem removes_paragraph {t u v : Text} {x : Char} (ht : t = u ++ x :: '\n' :: v)
    (hx : x.utf8Size = 1) (hne : x ≠ '\n')
    (hstart : t.startsParagraph (Text.byteLength u) = true) :
    Removes t (Text.byteLength u) [Text.byteLength u, Text.byteLength u + 1]
      (.paragraph (.ofSpan (.point (Text.byteLength u + 1)))) where
  sits := .paragraph ht hx hne (Text.eq_nil_or_getLast?_of_startsParagraph (ht ▸ hstart))
  start := by simp [stretch, TextRange.ofSpan, Span.point]
  visible := by
    rw [ht, Text.charAt?_append]
    simpa using hne
  deletes q := by
    simp only [deletes_iff, stretch, TextRange.ofSpan, Span.point, List.mem_cons, List.not_mem_nil,
      or_false]
    omega

end Cleaner

/-- For the mark at the start of a range one cleaner is found. -/
theorem openingCleaner_spec {d : Document} {s : Span} (hs : (TextRange.ofSpan s).IsEnclosed d.text) :
    Ends Fault.IsSplit (openingCleaner d (.ofSpan s)) fun cs =>
      ∃ c, cs = [c] ∧ c.Removes d.text s.start ((TextRange.ofSpan s).openingBytes d.text) := by
  obtain ⟨u, v, htext, hu⟩ := Text.charAt?_eq_some_iff.1 hs.opening
  obtain ⟨start, stop⟩ := s
  obtain rfl : Text.byteLength u = start := hu
  have hmove : d.text.move? (Text.byteLength u) 1 = some (Text.byteLength u + 1) :=
    Text.move?_one htext
  have hafter : d.shift? (TextRange.ofSpan ⟨Text.byteLength u, stop⟩).collapseToStart 1 1 =
      some (.ofSpan (.point (Text.byteLength u + 1))) :=
    Document.shift?_eq hmove hmove (Nat.le_refl _)
  have hmark : d.shift? (TextRange.ofSpan ⟨Text.byteLength u, stop⟩).collapseToStart 0 1 =
      some (.ofSpan ⟨Text.byteLength u, Text.byteLength u + 1⟩) :=
    Document.shift?_eq (Text.move?_zero _ _) hmove (Nat.le_succ _)
  have hlen : Text.byteLength u + 2 ≤ d.length := by
    have hroom : Text.byteLength u + 2 ≤ stop := hs.room
    have hclosing : stop - 1 < d.length := Text.lt_of_charAt? hs.closing
    omega
  have hend : d.isEndOfDocument (.ofSpan (.point (Text.byteLength u + 1))) = false :=
    decide_eq_false (show ¬ d.length ≤ Text.byteLength u + 1 by omega)
  unfold openingCleaner
  simp only [hafter]
  refine Ends.andThen (bothHold_spec (Document.isStartOfParagraph_spec
    (show Text.byteLength u ≤ d.length by omega)) (Document.isEndOfParagraph_spec d _))
    fun alone htest => ?_
  have halone : alone = (d.text.startsParagraph (Text.byteLength u) &&
      d.text.charAt? (Text.byteLength u + 1) == some '\n') := by
    rw [htest, hend, Bool.false_or]
    rfl
  cases alone with
  | true =>
    obtain ⟨hstart, hbreak⟩ := Bool.and_eq_true_iff.1 halone.symm
    obtain ⟨w, rfl⟩ : ∃ w, v = '\n' :: w := by
      rw [show d.text = (u ++ ['<']) ++ v by simp [htext],
        show Text.byteLength u + 1 = Text.byteLength (u ++ ['<']) by simp [Char.utf8Size],
        Text.charAt?_append, beq_iff_eq] at hbreak
      exact List.head?_eq_some_iff.1 hbreak
    have hbytes : (TextRange.ofSpan ⟨Text.byteLength u, stop⟩).openingBytes d.text =
        [Text.byteLength u, Text.byteLength u + 1] := if_pos halone.symm
    rw [hbytes]
    exact ⟨_, rfl, Cleaner.removes_paragraph htext rfl (by decide) hstart⟩
  | false =>
    have hbytes : (TextRange.ofSpan ⟨Text.byteLength u, stop⟩).openingBytes d.text =
        [Text.byteLength u] := if_neg (Bool.eq_false_iff.1 halone.symm)
    rw [hbytes]
    simp only [hmark]
    exact ⟨_, rfl, Cleaner.removes_range htext rfl (by decide)⟩

/-- For the mark at the end of a range one cleaner is found. -/
theorem closingCleaner_spec {d : Document} {s : Span} (hs : (TextRange.ofSpan s).IsEnclosed d.text)
    (removable : Bool) :
    Ends Fault.IsSplit (closingCleaner d (.ofSpan s) removable) fun cs =>
      ∃ c, cs = [c] ∧
        c.Removes d.text (s.stop - 1) ((TextRange.ofSpan s).closingBytes d.text removable) := by
  obtain ⟨u, v, htext, hu⟩ := Text.charAt?_eq_some_iff.1 hs.closing
  obtain ⟨start, stop⟩ := s
  have hroom : start + 2 ≤ stop := hs.room
  obtain rfl : Text.byteLength u + 1 = stop := by
    have : Text.byteLength u = stop - 1 := hu
    omega
  have hstop : Text.byteLength (u ++ ['>']) = Text.byteLength u + 1 := by simp [Char.utf8Size]
  have hmove : d.text.move? (Text.byteLength u + 1) (-1) = some (Text.byteLength u) :=
    hstop ▸ Text.move?_neg_one htext
  have hbefore : d.shift? (TextRange.ofSpan ⟨start, Text.byteLength u + 1⟩).collapseToStop (-1) (-1) =
      some (.ofSpan (.point (Text.byteLength u))) :=
    Document.shift?_eq hmove hmove (Nat.le_refl _)
  have hmark : d.shift? (TextRange.ofSpan ⟨start, Text.byteLength u + 1⟩).collapseToStop (-1) 0 =
      some (.ofSpan ⟨Text.byteLength u, Text.byteLength u + 1⟩) :=
    Document.shift?_eq hmove (Text.move?_zero _ _) (Nat.le_succ _)
  let after := (TextRange.ofSpan ⟨start, Text.byteLength u + 1⟩).collapseToStop
  have hlen : Text.byteLength u + 1 ≤ d.length := Text.lt_of_charAt? hs.closing
  have hend : d.text.charAt? (Text.byteLength u + 1) = some '\n' → d.isEndOfDocument after = false :=
    fun h => decide_eq_false (Nat.not_le.2 (Text.lt_of_charAt? h))
  -- what happens once it is known whether the mark is alone
  let finish : Bool → Except Fault (List Cleaner) := fun alone =>
    if alone && !d.isEndOfDocument after then return [.paragraph after]
    else return ((d.shift? after (-1) 0).map Cleaner.range).toList
  suffices hfinish : ∀ alone, alone = (removable && (d.text.startsParagraph (Text.byteLength u) &&
        (d.isEndOfDocument after || d.text.charAt? (Text.byteLength u + 1) == some '\n'))) →
      Ends Fault.IsSplit (finish alone) fun cs => ∃ c, cs = [c] ∧ c.Removes d.text (Text.byteLength u)
        ((TextRange.ofSpan ⟨start, Text.byteLength u + 1⟩).closingBytes d.text removable) by
    unfold closingCleaner
    simp only [hbefore]
    cases removable with
    | false => exact hfinish false rfl
    | true =>
      exact Ends.andThen (bothHold_spec (Document.isStartOfParagraph_spec
        (r := .ofSpan (.point (Text.byteLength u))) (show Text.byteLength u ≤ d.length by omega))
        (Document.isEndOfParagraph_spec d after)) fun alone halone => hfinish alone halone
  intro alone halone
  have hgoes : (alone && !d.isEndOfDocument after) =
      (removable && d.text.startsParagraph (Text.byteLength u) &&
        d.text.charAt? (Text.byteLength u + 1) == some '\n') := by
    rw [halone]
    cases hbreak : d.text.charAt? (Text.byteLength u + 1) == some '\n' with
    | true => simp [hend (beq_iff_eq.1 hbreak)]
    | false => cases d.isEndOfDocument after <;> simp
  cases hcase : (alone && !d.isEndOfDocument after) with
  | true =>
    rw [hcase] at hgoes
    obtain ⟨hstart, hbreak⟩ := Bool.and_eq_true_iff.1 hgoes.symm
    obtain ⟨w, rfl⟩ : ∃ w, v = '\n' :: w := by
      rw [show d.text = (u ++ ['>']) ++ v by simp [htext], ← hstop, Text.charAt?_append,
        beq_iff_eq] at hbreak
      exact List.head?_eq_some_iff.1 hbreak
    have hbytes : (TextRange.ofSpan ⟨start, Text.byteLength u + 1⟩).closingBytes d.text removable =
        [Text.byteLength u, Text.byteLength u + 1] := if_pos hgoes.symm
    simp only [hbytes, finish, if_pos hcase]
    exact ⟨_, rfl, Cleaner.removes_paragraph htext rfl (by decide)
      (Bool.and_eq_true_iff.1 hstart).2⟩
  | false =>
    rw [hcase] at hgoes
    have hbytes : (TextRange.ofSpan ⟨start, Text.byteLength u + 1⟩).closingBytes d.text removable =
        [Text.byteLength u] := if_neg (Bool.eq_false_iff.1 hgoes.symm)
    simp only [hbytes, finish, if_neg (Bool.eq_false_iff.1 hcase), after, hmark]
    exact ⟨_, rfl, Cleaner.removes_range htext rfl (by decide)⟩

/-- For a content between marks two cleaners are found. -/
theorem markCleaners_spec {d : Document} {s : Span} (hs : (TextRange.ofSpan s).IsEnclosed d.text)
    (removable : Bool) :
    Ends Fault.IsSplit (markCleaners d (.ofSpan s) removable) fun cs =>
      ∃ opening closing, cs = [opening, closing] ∧
        opening.Removes d.text s.start ((TextRange.ofSpan s).openingBytes d.text) ∧
        closing.Removes d.text (s.stop - 1) ((TextRange.ofSpan s).closingBytes d.text removable) := by
  refine Ends.andThen (openingCleaner_spec hs) ?_
  rintro _ ⟨opening, rfl, hopening⟩
  refine Ends.andThen (closingCleaner_spec hs removable) ?_
  rintro _ ⟨closing, rfl, hclosing⟩
  exact ⟨opening, closing, rfl, hopening, hclosing⟩

/-! ### The commands of a list -/

theorem closingRemovable?_eq (k : CommandKind) :
    closingRemovable? k = if k.isInsertion then some (!k.isManual) else none := by
  cases k <;> rfl

namespace Command

theorem markBytes_congr {c : Command} {d d' : Document} (h : c.enclosed? d = c.enclosed? d') :
    c.markBytes d = c.markBytes d' := by
  rw [markBytes, markBytes, h]

theorem garbage_congr {c : Command} {d d' : Document} (ht : d.text = d'.text)
    (h : c.enclosed? d = c.enclosed? d') : c.garbage d = c.garbage d' := by
  rw [garbage, garbage, h, ht]

/-- What is deleted for a command is its marks and the line breaks right behind these. -/
theorem exists_of_mem_garbage {c : Command} {d : Document} {q : Nat} (h : q ∈ c.garbage d) :
    ∃ r, c.enclosed? d = some r ∧ ((q = r.start ∨ q = r.stop - 1) ∨
      (q = r.start + 1 ∨ q = r.stop) ∧ d.text.charAt? q = some '\n') := by
  unfold garbage at h
  split at h
  next r hr =>
    refine ⟨r, hr, ?_⟩
    rcases List.mem_append.1 h with h | h
    · unfold TextRange.openingBytes at h
      split at h
      next hbreak =>
        rw [Bool.and_eq_true, beq_iff_eq] at hbreak
        rcases List.mem_pair.1 h with rfl | rfl
        · exact .inl (.inl rfl)
        · exact .inr ⟨.inl rfl, hbreak.2⟩
      · exact .inl (.inl (List.mem_singleton.1 h))
    · unfold TextRange.closingBytes at h
      split at h
      next hbreak =>
        rw [Bool.and_eq_true, beq_iff_eq] at hbreak
        rcases List.mem_pair.1 h with rfl | rfl
        · exact .inl (.inr rfl)
        · exact .inr ⟨.inr rfl, hbreak.2⟩
      · exact .inl (.inr (List.mem_singleton.1 h))
  · cases h

theorem text_markDone (c : Command) (d : Document) (remove : Bool) :
    (c.markDone d remove).2.text = d.text :=
  (c.differInBookmarks_markDone d remove).text

theorem range?_eq (c : Command) (d : Document) : c.range? d = (d.span? c.bookmark).map .ofSpan := by
  rw [range?, Document.bookmarkRange?, Document.span?, Option.map_map]
  rfl

/-- Marking a command done touches no other bookmark.  One that is not there can come to be: the bookmark of the
command, if it stays, gets a name that tells the command's state. -/
theorem span?_markDone {c : Command} {d : Document} {n : String} {remove : Bool} (hne : n ≠ c.bookmark)
    (hn : remove = false → n ∈ d.names) : (c.markDone d remove).2.span? n = d.span? n := by
  cases remove with
  | true =>
    simp only [markDone, if_true]
    split
    next d' h => exact Document.span?_removeBookmark hne h
    · rfl
  | false =>
    simp only [markDone, Bool.false_eq_true, if_false]
    split
    next d' unique h =>
      rw [bookmark_recordState] at h
      exact ((Document.span?_renameBookmark h).2 n (hn rfl) hne).1
    · rfl

/-- Whether the bookmark of a command that inserts is there, if bookmarks are kept. -/
def FoundIfKept (policy : Policy) (d : Document) (c : Command) : Prop :=
  policy.debug = true → c.kind.isInsertion = true → c.bookmark ∈ d.names

/-- A command whose marks are collected leaves the other ones that insert where they are. -/
theorem enclosed?_markDone {policy : Policy} {c c' : Command} {d : Document} (hc : c.kind.isInsertion = true)
    (hdiffer : DifferAsInserters c c') (hfound : c'.FoundIfKept policy d) :
    c'.enclosed? (c.unmark.markDone d (!policy.debug)).2 = c'.enclosed? d ∧
      c'.FoundIfKept policy (c.unmark.markDone d (!policy.debug)).2 := by
  have hspan : c'.kind.isInsertion = true →
      (c.unmark.markDone d (!policy.debug)).2.span? c'.bookmark = d.span? c'.bookmark := fun hc' =>
    span?_markDone (c := c.unmark) (hdiffer hc hc').symm fun hkept => hfound (by simpa using hkept) hc'
  refine ⟨?_, fun hdebug hc' => ?_⟩
  · unfold enclosed?
    split
    next hmarks => rw [c'.range?_eq, c'.range?_eq, hspan (Bool.and_eq_true_iff.1 hmarks).1]
    · rfl
  · rw [← Document.isSome_span?_iff, hspan hc', Document.isSome_span?_iff]
    exact hfound hdebug hc'

end Command

/-- What is found for a list of commands: a cleaner for each of their marks, which delete together the
garbage of the commands. -/
structure Collected (d : Document) (cs : List Command) (found : List Cleaner) : Prop where
  removes : ∀ c ∈ found, ∃ p bytes, c.Removes d.text p bytes
  starts : found.map (·.stretch.start) = cs.flatMap (·.markBytes d)
  bytes : ∀ q, deletedBy found q = true ↔ q ∈ cs.flatMap (·.garbage d)

namespace Collected

theorem nil (d : Document) : Collected d [] [] := ⟨by simp, rfl, by simp [deletedBy]⟩

theorem append {d : Document} {cs cs' : List Command} {found found' : List Cleaner}
    (h : Collected d cs found) (h' : Collected d cs' found') :
    Collected d (cs ++ cs') (found ++ found') where
  removes c hc := (List.mem_append.1 hc).elim (h.removes c) (h'.removes c)
  starts := by rw [List.map_append, List.flatMap_append, h.starts, h'.starts]
  bytes q := by
    rw [List.flatMap_append, List.mem_append, ← h.bytes, ← h'.bytes]
    simp [deletedBy]

/-- A command without marks. -/
theorem skip {d : Document} {c : Command} (h : c.enclosed? d = none) : Collected d [c] [] :=
  ⟨by simp, by simp [Command.markBytes, h], by simp [deletedBy, Command.garbage, h]⟩

theorem congr {d d' : Document} {cs : List Command} {found : List Cleaner} (h : Collected d cs found)
    (ht : d.text = d'.text) (henclosed : ∀ c ∈ cs, c.enclosed? d = c.enclosed? d') :
    Collected d' cs found where
  removes := ht ▸ h.removes
  starts := by
    rw [h.starts]
    exact List.flatMap_congr fun c hc => Command.markBytes_congr (henclosed c hc)
  bytes q := by
    rw [h.bytes, List.flatMap_congr fun c hc => Command.garbage_congr ht (henclosed c hc)]

theorem sits {d d' : Document} {cs : List Command} {found : List Cleaner} (h : Collected d cs found)
    (ht : d'.text = d.text) : ∀ c ∈ found, c.Sits d'.text := fun c hc => by
  obtain ⟨_, _, hremoves⟩ := h.removes c hc
  exact ht ▸ hremoves.sits

/-- Marks at different places have disjoint cleaners. -/
theorem pairwise {d : Document} {cs : List Command} {found : List Cleaner}
    (h : Collected d cs found) (hdistinct : (cs.flatMap (·.markBytes d)).Nodup) :
    found.Pairwise fun c c' =>
      c.stretch.stop ≤ c'.stretch.start ∨ c'.stretch.stop ≤ c.stretch.start := by
  rw [← h.starts, List.Nodup, List.pairwise_map] at hdistinct
  refine hdistinct.imp_of_mem fun {c c'} hc hc' hne => ?_
  obtain ⟨p, bytes, hp⟩ := h.removes c hc
  obtain ⟨q, bytes', hq⟩ := h.removes c' hc'
  exact hp.apart hq (by rwa [hp.start, hq.start] at hne)

end Collected

/-- The step for one command: its marks are found, and the others that insert keep their bookmarks. -/
theorem collectFrom_spec {policy : Policy} {d : Document} (hd : d.WellFormed) {c : Command}
    (hc : ∀ r ∈ c.enclosed? d, r.IsEnclosed d.text) (acc : List Cleaner) :
    Ends Fault.IsSplit (collectFrom policy c (d, acc)) fun p =>
      p.2.1.WellFormed ∧ p.2.1.text = d.text ∧
      (∀ c', DifferAsInserters c c' → c'.FoundIfKept policy d →
        c'.enclosed? p.2.1 = c'.enclosed? d ∧ c'.FoundIfKept policy p.2.1) ∧
      ∃ found, p.2.2 = acc ++ found ∧ Collected d [c] found := by
  unfold collectFrom
  rw [closingRemovable?_eq]
  cases hkind : c.kind.isInsertion with
  | false =>
    refine ⟨hd, rfl, fun _ _ hfound => ⟨rfl, hfound⟩, [], by simp, .skip ?_⟩
    simp [Command.enclosed?, hkind]
  | true =>
    have hfinish : ∀ found, Collected d [c] found →
        ((c.unmark.markDone d (!policy.debug)).2.WellFormed ∧
          (c.unmark.markDone d (!policy.debug)).2.text = d.text ∧
          (∀ c', DifferAsInserters c c' → c'.FoundIfKept policy d →
            c'.enclosed? (c.unmark.markDone d (!policy.debug)).2 = c'.enclosed? d ∧
              c'.FoundIfKept policy (c.unmark.markDone d (!policy.debug)).2) ∧
          ∃ found', acc ++ found = acc ++ found' ∧ Collected d [c] found') := fun found hfound =>
      ⟨Command.wellFormed_markDone hd _, Command.text_markDone _ _ _,
        fun _ hdiffer => Command.enclosed?_markDone hkind hdiffer, found, rfl, hfound⟩
    simp only [if_true]
    split
    next range hmarked hrange =>
      have henclosed : c.enclosed? d = some range := by
        simp [Command.enclosed?, hkind, hmarked, hrange]
      obtain ⟨b, -, rfl⟩ := Option.map_eq_some_iff.1 hrange
      refine Ends.andThen (markCleaners_spec (hc _ henclosed) _) ?_
      rintro _ ⟨opening, closing, rfl, hopening, hclosing⟩
      refine hfinish _ ⟨?_, ?_, fun q => ?_⟩
      · simp only [List.mem_cons, List.not_mem_nil, or_false]
        rintro c' (rfl | rfl)
        · exact ⟨_, _, hopening⟩
        · exact ⟨_, _, hclosing⟩
      · simp [Command.markBytes, henclosed, hopening.start, hclosing.start, TextRange.ofSpan]
      · simp [deletedBy, Command.garbage, henclosed, hopening.deletes, hclosing.deletes]
    next hnone =>
      refine hfinish [] (.skip ?_)
      unfold Command.enclosed?
      split
      next h =>
        rw [Bool.and_eq_true] at h
        cases hrange : c.range? d with
        | none => rfl
        | some range => exact absurd hrange (hnone range h.2)
      · rfl

/-- Collecting finds the marks of all commands and leaves the text as it is. -/
theorem collect_spec {policy : Policy} {cs : List Command} {d : Document} (hd : d.WellFormed)
    (hfound : ∀ c ∈ cs, c.FoundIfKept policy d) (hdistinct : cs.Pairwise DifferAsInserters)
    (hcs : ∀ c ∈ cs, ∀ r ∈ c.enclosed? d, r.IsEnclosed d.text) :
    Ends Fault.IsSplit (collect policy cs d) fun p =>
      p.2.1.WellFormed ∧ p.2.1.text = d.text ∧ Collected d cs p.2.2 := by
  suffices key : ∀ acc, Ends Fault.IsSplit (visit (collectFrom policy) cs (d, acc)) fun p =>
      p.2.1.WellFormed ∧ p.2.1.text = d.text ∧
        ∃ found, p.2.2 = acc ++ found ∧ Collected d cs found by
    refine (key []).mono ?_
    rintro ⟨cs', d', _⟩ ⟨hd', ht, found, rfl, hcollected⟩
    exact ⟨hd', ht, hcollected⟩
  induction cs generalizing d with
  | nil => exact fun acc => ⟨hd, rfl, [], by simp, .nil d⟩
  | cons c cs ih =>
    intro acc
    rw [List.pairwise_cons] at hdistinct
    refine Ends.andThen (collectFrom_spec hd (hcs c (by simp)) acc) ?_
    rintro ⟨c', d₁, _⟩ ⟨hd₁, ht₁, hothers, found, rfl, hcollected⟩
    have hkept : ∀ c' ∈ cs, c'.enclosed? d₁ = c'.enclosed? d ∧ c'.FoundIfKept policy d₁ := fun c' hc' =>
      hothers c' (hdistinct.1 c' hc') (hfound c' (by simp [hc']))
    have hrest := ih hd₁ (fun c' hc' => (hkept c' hc').2) hdistinct.2 (fun c' hc' => by
      rw [(hkept c' hc').1, ht₁]
      exact hcs c' (by simp [hc']))
    refine Ends.andThen (hrest (acc ++ found)) ?_
    rintro ⟨cs', d', _⟩ ⟨hd', ht', found', rfl, hcollected'⟩
    exact ⟨hd', ht'.trans ht₁, found ++ found', by simp,
      hcollected.append (hcollected'.congr ht₁ fun c' hc' => (hkept c' hc').1)⟩

/-- Collecting in a document with intact marks. -/
theorem MarksHeld.collect {policy : Policy} {cs : List Command} {d : Document} (h : MarksHeld d cs)
    (hdebug : policy.debug = false) (hd : d.WellFormed) :
    Ends Fault.IsSplit (TemplateEngine.collect policy cs d) fun p =>
      p.2.1.WellFormed ∧ p.2.1.text = d.text ∧ Collected d cs p.2.2 :=
  collect_spec hd (fun _ _ hkept => absurd hkept (by simp [hdebug])) h.distinct h.enclosed

/-- Collecting the marks deletes their garbage, unless a test of a byte next to a mark faults. -/
theorem collectGarbage_spec {policy : Policy} (hdebug : policy.debug = false) {cs : List Command}
    {d : Document} (hd : d.WellFormed) (hmarks : MarksHeld d cs) :
    Ends Fault.IsSplit (collectGarbage policy cs d) fun p =>
      p.2.WellFormed ∧ p.2.text = d.text.without (cs.flatMap (·.garbage d)) := by
  refine Ends.andThen (hmarks.collect hdebug hd) ?_
  rintro ⟨cs', d₁, found⟩ ⟨hd₁, ht₁, hfound⟩
  obtain ⟨d', hsweep, hd', ht'⟩ := sweep_spec hd₁ (hfound.sits ht₁) (hfound.pairwise hmarks.apart)
  simp only [hsweep]
  refine ⟨hd', ht'.trans ?_⟩
  rw [ht₁]
  refine Text.dropAt_congr fun q _ _ => ?_
  rw [Bool.eq_iff_iff, hfound.bytes]
  simp

/-- Removing the marks deletes the marks and, for each that is alone in its paragraph, the line break
behind it, and nothing else. -/
theorem text_collectGarbage {policy : Policy} (hdebug : policy.debug = false) {cs cs' : List Command}
    {d d' : Document} (hd : d.WellFormed) (hmarks : MarksIntact d cs)
    (hrun : collectGarbage policy cs d = .ok (cs', d')) :
    d'.text = d.text.without (cs.flatMap (·.garbage d)) :=
  ((collectGarbage_spec hdebug hd hmarks.held).of_eq_ok hrun).2

/-- A content that came with another one. -/
def nestedContents : Document :=
  { Document.ofText "<\n<x>\n>\nz".toList with
    bookmarks := [⟨"outer", ⟨0, 7⟩⟩, ⟨"inner", ⟨2, 5⟩⟩] }

/-- The commands that inserted them. -/
def contentCommands : List Command :=
  ["outer", "inner"].map fun name => ⟨name, .leaf "DOC", .insertContent, false, false, true⟩

theorem text_collectGarbage_nested :
    ∃ cs' d', collectGarbage ⟨true, false⟩ contentCommands nestedContents = .ok (cs', d') ∧
      contentCommands.flatMap (·.garbage nestedContents) = [0, 1, 6, 7, 2, 4] ∧
      d'.text = "x\nz".toList := by
  obtain ⟨⟨cs', d'⟩, hrun⟩ :
      ∃ p, collectGarbage ⟨true, false⟩ contentCommands nestedContents = .ok p := by
    cases h : collectGarbage ⟨true, false⟩ contentCommands nestedContents with
    | ok p => exact ⟨p, rfl⟩
    | error f =>
      have hok : (collectGarbage ⟨true, false⟩ contentCommands nestedContents).isOk = true := by cbv
      rw [h] at hok
      cases hok
  have hgarbage : contentCommands.flatMap (·.garbage nestedContents) = [0, 1, 6, 7, 2, 4] := by
    decide
  refine ⟨cs', d', hrun, hgarbage, ?_⟩
  have henclosed : ∀ c ∈ contentCommands, ∀ r ∈ c.enclosed? nestedContents,
      r.IsEnclosed nestedContents.text := by
    simp only [contentCommands, List.map_cons, List.map_nil, List.mem_cons, List.not_mem_nil, or_false]
    rintro c (rfl | rfl) r hr
    · obtain rfl : TextRange.ofSpan ⟨0, 7⟩ = r := Option.some.inj hr
      exact ⟨by decide, by decide, by decide⟩
    · obtain rfl : TextRange.ofSpan ⟨2, 5⟩ = r := Option.some.inj hr
      exact ⟨by decide, by decide, by decide⟩
  have hwell : nestedContents.WellFormed :=
    ⟨by decide, by decide, by decide, by decide, by simp [nestedContents, Document.ofText]⟩
  rw [text_collectGarbage rfl hwell ⟨by decide, henclosed, by decide⟩ hrun, hgarbage]
  decide

end TemplateEngine
