import TemplateEngine.Proofs.Anchoring

/-!
# Lines — paragraphs by their numbers

A position is in the line whose number is that of the line breaks before it (`Text.lineAt`).  So the element
tree can be told by lines: a span touches the paragraphs from the line of its start to the line of its stop
(`elementsWithin_eq`), and the fields of a paragraph are those that start and stop in its line
(`exists_childElements`).  An edit moves the lines behind it by the line breaks that it adds.
-/

namespace TemplateEngine

namespace Text

/-- How many line breaks a text has. -/
def breaks (t : Text) : Nat := t.count '\n'

/-- The number of the line that a position is in. -/
def lineAt : Text → Nat → Nat
  | [], _ => 0
  | c :: t, p => if p < c.utf8Size then 0 else breaks [c] + lineAt t (p - c.utf8Size)

theorem breaks_append (a b : Text) : breaks (a ++ b) = breaks a + breaks b := List.count_append

theorem breaks_cons (c : Char) (t : Text) : breaks (c :: t) = breaks [c] + breaks t := breaks_append [c] t

theorem breaks_singleton (c : Char) : breaks [c] = if c = '\n' then 1 else 0 := by
  simp [breaks, List.count_singleton]

@[simp] theorem lineAt_zero (t : Text) : lineAt t 0 = 0 := by
  cases t with
  | nil => rfl
  | cons c t => exact if_pos c.utf8Size_pos

theorem lineAt_cons_add (c : Char) (t : Text) (n : Nat) :
    lineAt (c :: t) (c.utf8Size + n) = breaks [c] + lineAt t n := by
  rw [lineAt, if_neg (by omega), Nat.add_sub_cancel_left]

theorem lineAt_append_add (a b : Text) (n : Nat) : lineAt (a ++ b) (byteLength a + n) = breaks a + lineAt b n := by
  induction a with
  | nil => simp [breaks]
  | cons c a ih =>
    rw [List.cons_append, byteLength_cons, Nat.add_assoc, lineAt_cons_add, ih, breaks_cons c a, Nat.add_assoc]

theorem lineAt_append (a b : Text) : lineAt (a ++ b) (byteLength a) = breaks a := by
  simpa using lineAt_append_add a b 0

theorem lineAt_append_of_le {a : Text} (b : Text) {p : Nat} (hp : p ≤ byteLength a) :
    lineAt (a ++ b) p = lineAt a p := by
  induction a generalizing p with
  | nil =>
    obtain rfl : p = 0 := Nat.le_zero.1 hp
    rw [lineAt_zero, lineAt_zero]
  | cons c a ih =>
    rw [byteLength_cons] at hp
    rw [List.cons_append, lineAt, lineAt]
    split
    · rfl
    · rw [ih (by omega)]

theorem lineAt_mono (t : Text) {p q : Nat} (h : p ≤ q) : lineAt t p ≤ lineAt t q := by
  induction t generalizing p q with
  | nil => exact Nat.le_refl _
  | cons c t ih =>
    rw [lineAt, lineAt]
    split_ifs with hp hq hq
    · exact Nat.le_refl _
    · exact Nat.zero_le _
    · omega
    · exact Nat.add_le_add_left (ih (by omega)) _

theorem lineAt_le_breaks (t : Text) (p : Nat) : lineAt t p ≤ breaks t := by
  induction t generalizing p with
  | nil => exact Nat.zero_le _
  | cons c t ih =>
    rw [lineAt, breaks_cons c t]
    split
    · exact Nat.zero_le _
    · exact Nat.add_le_add_left (ih _) _

theorem lt_of_lineAt_lt {t : Text} {p q : Nat} (h : lineAt t p < lineAt t q) : p < q := by
  by_contra hle
  exact absurd (lineAt_mono t (Nat.le_of_not_lt hle)) (Nat.not_le_of_lt h)

/-- From one end of a stretch to the other it is as many lines as the stretch has line breaks. -/
theorem lineAt_of_slice? {t w : Text} {p q : Nat} (h : t.slice? p q = some w) :
    lineAt t q = lineAt t p + breaks w := by
  obtain ⟨a, c, rfl, rfl, rfl⟩ := slice?_eq_some_iff.1 h
  rw [lineAt_append, List.append_assoc, lineAt_append, breaks_append]

/-! ### Edits -/

/-- An edit keeps the lines before it. -/
theorem lineAt_before {a : Text} (m z new : Text) {p : Nat} (hp : p ≤ byteLength a) :
    lineAt (a ++ new ++ z) p = lineAt (a ++ m ++ z) p := by
  rw [List.append_assoc, List.append_assoc, lineAt_append_of_le _ hp, lineAt_append_of_le _ hp]

/-- Behind an edit a line has another number by the line breaks that came and went. -/
theorem lineAt_moved {a m : Text} (z new : Text) {p : Nat} (hp : byteLength (a ++ m) ≤ p) :
    lineAt (a ++ new ++ z) ((a.stretch m).moved (byteLength new) p) + breaks m =
      lineAt (a ++ m ++ z) p + breaks new := by
  obtain ⟨n, rfl⟩ := Nat.exists_eq_add_of_le hp
  have hmoved : (a.stretch m).moved (byteLength new) (byteLength (a ++ m) + n) = byteLength (a ++ new) + n := by
    unfold Span.moved
    rw [byteLength_append a new]
    dsimp only
    omega
  rw [hmoved, lineAt_append_add, lineAt_append_add, breaks_append, breaks_append]
  omega

/-! ### Paragraphs -/

/-- Where the paragraph of a number starts and stops, for a text that begins at `pos` inside a paragraph: told
by the lines of the positions of the text. -/
theorem paragraphsFrom_spec (t : Text) {start pos i : Nat} {p : Nat × Nat} (hstart : start ≤ pos)
    (h : (paragraphsFrom start pos t)[i]? = some p) :
    start ≤ p.1 ∧ (i = 0 → p.1 = start) ∧
      ∀ x ≤ byteLength t, (p.1 ≤ pos + x ↔ i ≤ lineAt t x) ∧ (pos + x ≤ p.2 ↔ lineAt t x ≤ i) := by
  induction t generalizing start pos i with
  | nil =>
    obtain ⟨rfl, rfl⟩ : i = 0 ∧ p = (start, pos) := by
      cases i with
      | zero => exact ⟨rfl, (Option.some.inj h).symm⟩
      | succ i => cases h
    refine ⟨Nat.le_refl _, fun _ => rfl, fun x hx => ?_⟩
    obtain rfl : x = 0 := Nat.le_zero.1 hx
    simp [hstart]
  | cons c t ih =>
    rw [paragraphsFrom] at h
    split at h
    next hc =>
      subst hc
      have hsize : Char.utf8Size '\n' = 1 := by decide
      have hone : breaks ['\n'] = 1 := by decide
      cases i with
      | zero =>
        obtain rfl := Option.some.inj h
        refine ⟨Nat.le_refl _, fun _ => rfl, fun x hx => ?_⟩
        rw [lineAt, hsize, hone]
        dsimp only
        split_ifs <;> omega
      | succ i =>
        obtain ⟨hle, -, hlines⟩ := ih (Nat.le_refl _) h
        refine ⟨by omega, fun h => by omega, fun x hx => ?_⟩
        rw [byteLength_cons, hsize] at hx
        rw [lineAt, hsize, hone]
        have hzero := hlines 0 (Nat.zero_le _)
        have hrest := hlines (x - 1) (by omega)
        rw [lineAt_zero] at hzero
        split_ifs <;> omega
    next hc =>
      have hnone : breaks [c] = 0 := by rw [breaks_singleton, if_neg hc]
      obtain ⟨hle, hfirst, hlines⟩ := ih (by omega) h
      refine ⟨hle, hfirst, fun x hx => ?_⟩
      rw [byteLength_cons] at hx
      rw [lineAt, hnone]
      have hzero := hlines 0 (Nat.zero_le _)
      have hrest := hlines (x - c.utf8Size) (by omega)
      rw [lineAt_zero] at hzero
      split_ifs <;> omega

theorem length_paragraphsFrom (t : Text) (start pos : Nat) :
    (paragraphsFrom start pos t).length = breaks t + 1 := by
  induction t generalizing start pos with
  | nil => rfl
  | cons c t ih =>
    rw [paragraphsFrom, breaks_cons, breaks_singleton]
    split
    · rw [List.length_cons, ih, Nat.add_comm 1]
    · rw [ih, Nat.zero_add]

end Text

/-- The numbers from one to another one among all numbers. -/
theorem filter_range_eq {n lo hi : Nat} (hle : lo ≤ hi) (hlt : hi < n) :
    (List.range n).filter (fun i => decide (lo ≤ i) && decide (i ≤ hi)) = List.range' lo (hi + 1 - lo) := by
  refine List.Perm.eq_of_pairwise (fun _ _ _ _ hab hba => absurd hba (Nat.lt_asymm hab))
    (List.pairwise_lt_range.filter _) List.pairwise_lt_range' ?_
  rw [List.perm_ext_iff_of_nodup (List.nodup_range.filter _) (List.nodup_range' 1)]
  intro i
  rw [List.mem_filter, List.mem_range, List.mem_range'_1, Bool.and_eq_true, decide_eq_true_eq, decide_eq_true_eq]
  omega

namespace Document

variable {d : Document}

/-- The line in which a span starts. -/
def lineOf (d : Document) (s : Span) : Nat := d.text.lineAt s.start

theorem paragraph_spec {i : Nat} {p : Span} (h : d.paragraphs[i]? = some p) {x : Nat} (hx : x ≤ d.length) :
    (p.start ≤ x ↔ i ≤ d.text.lineAt x) ∧ (x ≤ p.stop ↔ d.text.lineAt x ≤ i) := by
  rw [paragraphs, List.getElem?_map, Option.map_eq_some_iff] at h
  obtain ⟨q, hq, rfl⟩ := h
  simpa using (Text.paragraphsFrom_spec d.text (Nat.le_refl 0) hq).2.2 x hx

theorem length_paragraphs (d : Document) : d.paragraphs.length = d.text.breaks + 1 := by
  rw [paragraphs, List.length_map, Text.paragraphs, Text.length_paragraphsFrom]

/-- A span touches the paragraphs from the line of its start to the line of its stop. -/
theorem elementsWithin_eq {s : Span} (hs : s.fits d.text = true) :
    d.elementsWithin s =
      (List.range' (d.lineOf s) (d.text.lineAt s.stop + 1 - d.lineOf s)).map Element.paragraph := by
  obtain ⟨hle, hlen⟩ := Span.le_of_fits hs
  have htouched : d.paragraphs.zipIdx.filter (fun p => p.1.start ≤ s.stop && s.start ≤ p.1.stop) =
      d.paragraphs.zipIdx.filter fun p => decide (d.lineOf s ≤ p.2) && decide (p.2 ≤ d.text.lineAt s.stop) := by
    refine List.filter_congr fun p hp => ?_
    have hget : d.paragraphs[p.2]? = some p.1 := List.mem_zipIdx_iff_getElem?.1 hp
    have hstop := (paragraph_spec hget hlen).1
    have hstart := (paragraph_spec hget (Nat.le_trans hle hlen)).2
    rw [Bool.eq_iff_iff, Bool.and_eq_true, Bool.and_eq_true, decide_eq_true_eq, decide_eq_true_eq,
      decide_eq_true_eq, decide_eq_true_eq, hstop, hstart]
    exact and_comm
  have hnumbers : ∀ f : Nat → Bool,
      (d.paragraphs.zipIdx.filter fun p => f p.2).map Prod.snd = (List.range d.paragraphs.length).filter f := by
    intro f
    have hsnd : d.paragraphs.zipIdx.map Prod.snd = List.range d.paragraphs.length := by
      rw [List.zipIdx_map_snd, List.range_eq_range']
    rw [← hsnd, List.filter_map]
    rfl
  have hlast : d.text.lineAt s.stop < d.paragraphs.length := by
    rw [length_paragraphs]
    exact Nat.lt_succ_of_le (Text.lineAt_le_breaks _ _)
  have hle' : d.lineOf s ≤ d.text.lineAt s.stop := Text.lineAt_mono _ hle
  unfold elementsWithin
  rw [htouched, ← filter_range_eq hle' hlast, ← hnumbers, List.map_map]
  rfl

/-- Whether a field starts and stops in a line. -/
def InLine (d : Document) (i : Nat) (s : Span) : Prop := d.lineOf s = i ∧ d.text.lineAt s.stop = i

/-- The fields of a paragraph are those that start and stop in its line. -/
theorem exists_childElements (hd : d.WellFormed) (i : Nat) :
    ∃ fs : List Field, d.childElements (.paragraph i) = fs.map (fun f => .field f.id) ∧
      ∀ f, f ∈ fs ↔ f ∈ d.fields ∧ d.InLine i f.span := by
  have hlines : ∀ f ∈ d.fields, f.span.start ≤ f.span.stop ∧ f.span.stop ≤ d.length :=
    fun f hf => Span.le_of_fits (hd.fields f hf)
  unfold childElements
  dsimp only
  cases hp : d.paragraphs[i]? with
  | none =>
    refine ⟨[], rfl, fun f => ⟨fun h => absurd h List.not_mem_nil, fun ⟨_, hline⟩ => ?_⟩⟩
    have hlen := List.getElem?_eq_none_iff.1 hp
    rw [length_paragraphs] at hlen
    have := Text.lineAt_le_breaks d.text f.span.start
    have hstart : d.text.lineAt f.span.start = i := hline.1
    omega
  | some p =>
    refine ⟨byStart (d.fields.filter fun f => f.span.within p), rfl, fun f => ?_⟩
    rw [byStart, List.mem_mergeSort, List.mem_filter]
    refine and_congr_right fun hf => ?_
    obtain ⟨hle, hlen⟩ := hlines f hf
    rw [Span.within_iff, (paragraph_spec hp (Nat.le_trans hle hlen)).1, (paragraph_spec hp hlen).2]
    have := Text.lineAt_mono d.text hle
    unfold InLine lineOf
    omega

end Document

end TemplateEngine
