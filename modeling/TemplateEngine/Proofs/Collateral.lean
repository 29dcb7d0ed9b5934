import TemplateEngine.Proofs.Marks
import TemplateEngine.Proofs.Tracking

/-!
# Collateral — bookmarks around the marks that are removed

Clearing a mark loses no bookmark: what lay inside is put back, empty, in its place (`span?_clearRange`).
Deleting a mark together with its line break loses the bookmarks between these two.  As the deletions are made
from the end of the text backwards, each bookmark is carried through them one by one (`span?_sweep`), and in
the end it stands where its text went, or it is gone because all of its text went and it began in a
deleted paragraph (`span?_collectGarbage`).
-/

namespace TemplateEngine

open Document

/-! ### Bookmarks that are put back -/

theorem mem_bookmarksWithin_iff {d : Document} (hd : d.names.Nodup) {s : Span} {n : String} :
    n ∈ d.bookmarksWithin s ↔ ∃ t, d.span? n = some t ∧ t.within s = true := by
  unfold bookmarksWithin
  rw [List.mem_map]
  constructor
  · rintro ⟨b, hb, rfl⟩
    obtain ⟨hmem, hwithin⟩ := List.mem_filter.1 hb
    exact ⟨b.span, span?_of_mem hd hmem, hwithin⟩
  · rintro ⟨t, ht, hwithin⟩
    obtain ⟨b, hb, rfl⟩ := Option.map_eq_some_iff.1 ht
    exact ⟨b, List.mem_filter.2 ⟨List.mem_of_find?_eq_some hb, hwithin⟩, by simpa using List.find?_some hb⟩

theorem span?_restoreBookmark {d : Document} {place : Span} (hplace : place.fits d.text = true)
    (name n : String) :
    (restoreBookmark (.ofSpan place) d name).span? n =
      if n = name then (d.span? n).or (some place) else d.span? n := by
  have hle := Span.le_of_fits hplace
  unfold restoreBookmark
  by_cases hfound : name ∈ d.names
  · rw [if_pos (isSome_bookmark?_iff.2 hfound)]
    split
    next heq =>
      obtain ⟨s, hs⟩ := Option.isSome_iff_exists.1 (isSome_span?_iff.2 (heq ▸ hfound))
      rw [hs]
      rfl
    · rfl
  · have hinsert : d.insertBookmark name (.ofSpan place) = .ok (d.holding name place, name) := by
      unfold insertBookmark
      rw [check_of_le hle.1 hle.2]
      show Except.ok (d.addBookmark name place) = _
      unfold addBookmark
      rw [uniqueName_of_notMem hfound]
      rfl
    rw [if_neg fun h => hfound (isSome_bookmark?_iff.1 h), hinsert]
    show ((d.bookmarks ++ [Bookmark.mk name place]).find? _).map _ = _
    rw [List.find?_append]
    split
    next heq =>
      subst heq
      cases h : d.bookmarks.find? fun b => b.name = n <;> simp [span?, bookmark?, h]
    next hne =>
      cases h : d.bookmarks.find? fun b => b.name = n <;> simp [span?, bookmark?, h, Ne.symm hne]

theorem span?_restoreBookmarks {d : Document} {place : Span} (hplace : place.fits d.text = true)
    (names : List String) (n : String) :
    (names.foldl (restoreBookmark (.ofSpan place)) d).span? n =
      (d.span? n).or (if n ∈ names then some place else none) := by
  induction names generalizing d with
  | nil => simp
  | cons name names ih =>
    have hplace' : place.fits (restoreBookmark (.ofSpan place) d name).text = true := by
      rwa [text_restoreBookmark]
    rw [List.foldl_cons, ih hplace', span?_restoreBookmark hplace]
    by_cases hname : n = name
    · cases d.span? n <;> simp [hname]
    · simp [hname]

/-! ### One deletion -/

namespace Span

/-- Where a position goes with a deletion. -/
def shrink (e : Span) (p : Nat) : Nat := min p e.start + (p - e.stop)

variable {s e : Span}

/-- What is lost with a deleted text lies in it and not in front of it. -/
theorem reanchor_zero_eq_none_iff (hs : s.start ≤ s.stop) (he : e.start < e.stop) :
    s.reanchor e 0 = none ↔
      (e.start ≤ s.start ∧ s.start < e.stop) ∧ s.stop ≤ e.stop ∧
        (s.start = s.stop → s.start ≠ e.start) := by
  unfold reanchor
  dsimp only
  split_ifs <;> simp only [false_iff, true_iff] <;> omega

theorem eq_of_reanchor_zero {s' : Span} (hs : s.start ≤ s.stop) (he : e.start < e.stop)
    (h : s.reanchor e 0 = some s') : s' = ⟨e.shrink s.start, e.shrink s.stop⟩ := by
  obtain ⟨a, b⟩ := s
  unfold shrink
  unfold reanchor moved point at h
  dsimp only at h hs ⊢
  split_ifs at h <;> obtain rfl := Option.some.inj h <;> simp only [Span.mk.injEq] <;> omega

theorem within_of_reanchor_eq_none (h : s.reanchor e 0 = none) : s.within e = true := by
  unfold reanchor at h
  dsimp only at h
  split_ifs at h <;> simp only [within, Bool.and_eq_true, decide_eq_true_eq] <;> omega

end Span

theorem span?_deleted {d : Document} (hd : d.WellFormed) {u m v : Text} (htext : d.text = u ++ m ++ v)
    (n : String) :
    (d.deleted u m v).span? n = (d.span? n).bind (·.reanchor (u.stretch m) 0) :=
  span?_edited hd htext (by simp)

/-- Clearing a range loses no bookmark: those that the deletion would drop are empty in its place. -/
theorem span?_clearRange {d d' : Document} (hd : d.WellFormed) {u m v : Text}
    (htext : d.text = u ++ m ++ v)
    (h : clearRange d (.ofSpan ⟨Text.byteLength u, Text.byteLength (u ++ m)⟩) = .ok (.ok d')) (n : String) :
    d'.span? n = (d.span? n).map fun s =>
      (s.reanchor (u.stretch m) 0).getD (.point (Text.byteLength u)) := by
  obtain rfl := Except.ok.inj (Except.ok.inj ((clearRange_eq htext).symm.trans h))
  have hplace : (Span.point (Text.byteLength u)).fits (d.deleted u m v).text = true := by
    show Span.fits _ (u ++ [] ++ v) = true
    rw [List.append_nil]
    exact Span.fits_point.trans (Text.isBoundary_cut u v)
  rw [span?_restoreBookmarks hplace, span?_deleted hd htext]
  simp only [mem_bookmarksWithin_iff hd.names]
  cases hs : d.span? n with
  | none => simp
  | some s =>
    cases hre : s.reanchor (u.stretch m) 0 with
    | some s' => simp [hre]
    | none =>
      have hwithin : s.within ⟨Text.byteLength u, Text.byteLength (u ++ m)⟩ = true :=
        Span.within_of_reanchor_eq_none hre
      simp only [Option.bind_some, hre, Option.none_or, Option.map_some, Option.getD_none]
      exact if_pos ⟨s, rfl, hwithin⟩

namespace Cleaner

/-- Where a bookmark goes with a deletion, if it is not lost. -/
def carry (c : Cleaner) (s : Span) : Option Span :=
  match c with
  | .range _ => some ((s.reanchor c.stretch 0).getD (.point c.stretch.start))
  | .paragraph _ => s.reanchor c.stretch 0

end Cleaner

theorem span?_applyCleaner {d d' : Document} (hd : d.WellFormed) {c : Cleaner} (hc : c.Sits d.text)
    (h : applyCleaner d c = .ok d') (n : String) : d'.span? n = (d.span? n).bind c.carry := by
  generalize htext : d.text = t at hc
  cases hc with
  | @range u v x ht hx =>
    have hcut : d.text = u ++ [x] ++ v := by simp [htext, ht]
    have hstop : Text.byteLength (u ++ [x]) = Text.byteLength u + 1 := by simp [hx]
    have hclear := clearRange_eq hcut
    have hspan := span?_clearRange hd hcut hclear n
    rw [hstop] at hclear hspan
    unfold applyCleaner at h
    simp only [hclear] at h
    obtain rfl := Except.ok.inj h
    rw [hspan, Text.stretch, hstop]
    cases d.span? n <;> rfl
  | @paragraph u v x ht hx hne hstart =>
    have hcut : d.text = u ++ [x, '\n'] ++ v := by simp [htext, ht]
    have hstretch : (Cleaner.paragraph (.ofSpan (.point (Text.byteLength u + 1)))).stretch =
        u.stretch [x, '\n'] := by
      simp [Cleaner.stretch, TextRange.ofSpan, Span.point, Text.stretch, hx, Cleaner.utf8Size_newline]
    have hdelete := deleteParagraph_eq (htext.trans ht) hx hne hstart
    unfold applyCleaner at h
    simp only [hdelete] at h
    obtain rfl := Except.ok.inj h
    rw [span?_deleted hd hcut, ← hstretch]
    rfl

/-! ### All deletions -/

/-- Where a bookmark goes with some deletions, if none of them loses it. -/
def carryAll (cs : List Cleaner) (s : Option Span) : Option Span := cs.foldl (fun s c => s.bind c.carry) s

theorem carryAll_none (cs : List Cleaner) : carryAll cs none = none := by
  induction cs with
  | nil => rfl
  | cons c cs ih => exact ih

/-- Removing marks carries every bookmark through the deletions. -/
theorem span?_sweep {d : Document} (hd : d.WellFormed) {cs : List Cleaner} (hsits : ∀ c ∈ cs, c.Sits d.text)
    (hdisjoint : cs.Pairwise fun c c' =>
      c.stretch.stop ≤ c'.stretch.start ∨ c'.stretch.stop ≤ c.stretch.start) (n : String) :
    ∃ d', sweep d cs = .ok d' ∧ d'.span? n = carryAll (backwards cs) (d.span? n) := by
  let J : List Cleaner → Document → Prop := fun cs' d' =>
    carryAll cs' (d'.span? n) = carryAll (backwards cs) (d.span? n)
  have hstep : ∀ c cs' d₁ d₂, d₁.WellFormed → c.Sits d₁.text → applyCleaner d₁ c = .ok d₂ →
      J (c :: cs') d₁ → J cs' d₂ := by
    intro c cs' d₁ d₂ hd₁ hc happly hJ
    show carryAll cs' (d₂.span? n) = _
    rw [span?_applyCleaner hd₁ hc happly n]
    exact hJ
  obtain ⟨d', hsweep, -, -, hJ⟩ := sweep_rule hstep hd hsits hdisjoint rfl
  exact ⟨d'.unlock, hsweep, hJ⟩

/-! ### Where spans go -/

/-- How many of the positions before `p` are kept. -/
def landing (drop : Nat → Bool) (p : Nat) : Nat := (List.range p).countP fun q => !drop q

theorem landing_succ (drop : Nat → Bool) (p : Nat) :
    landing drop (p + 1) = landing drop p + if drop p then 0 else 1 := by
  unfold landing
  rw [List.range_succ, List.countP_append]
  cases h : drop p <;> simp [h]

namespace Cleaner

/-- Whether a deletion takes a bookmark away: the bookmark lies between a mark and the end of its line
break, and not in front of the mark. -/
def Takes (c : Cleaner) (s : Span) : Prop :=
  c.stretch.stop = c.stretch.start + 2 ∧ c.deletes s.start = true ∧ s.stop ≤ c.stretch.stop ∧
    (s.start = s.stop → s.start ≠ c.stretch.start)

theorem takes_iff {c : Cleaner} {s : Span} (hs : s.start ≤ s.stop)
    (hpos : c.stretch.start < c.stretch.stop) :
    c.Takes s ↔ c.stretch.stop = c.stretch.start + 2 ∧ s.reanchor c.stretch 0 = none := by
  rw [Takes, deletes_iff, Span.reanchor_zero_eq_none_iff hs hpos]

theorem carry_of_takes {t : Text} {c : Cleaner} (hc : c.Sits t) {s : Span} (hs : s.start ≤ s.stop)
    (h : c.Takes s) : c.carry s = none := by
  obtain ⟨htwo, hlost⟩ := (takes_iff hs hc.target_start.2).1 h
  cases hc with
  | range =>
    simp only [stretch, TextRange.ofSpan] at htwo
    omega
  | paragraph => exact hlost

theorem carry_of_not_takes {t : Text} {c : Cleaner} (hc : c.Sits t) {s : Span} (hs : s.start ≤ s.stop)
    (h : ¬ c.Takes s) : c.carry s = some ⟨c.stretch.shrink s.start, c.stretch.shrink s.stop⟩ := by
  have hpos := hc.target_start.2
  rw [takes_iff hs hpos, not_and] at h
  cases hre : s.reanchor c.stretch 0 with
  | some s' =>
    rw [← Span.eq_of_reanchor_zero hs hpos hre]
    cases hc with
    | range =>
      unfold carry
      simp only [hre, Option.getD_some]
    | paragraph => exact hre
  | none =>
    cases hc with
    | @range u v x ht hx =>
      -- the mark is one byte, and its two ends are where it was
      obtain ⟨hstart, hstop, -⟩ := (Span.reanchor_zero_eq_none_iff hs hpos).1 hre
      unfold carry
      simp only [hre, Option.getD_none]
      unfold Span.shrink Span.point
      simp only [stretch, TextRange.ofSpan] at hstart hstop ⊢
      simp only [Option.some.injEq, Span.mk.injEq]
      omega
    | @paragraph u v x ht hx hne hat =>
      refine absurd hre (h ?_)
      simp only [stretch, TextRange.ofSpan, Span.point]
      omega

end Cleaner

theorem deletedBy_cons (c : Cleaner) (cs : List Cleaner) (p : Nat) :
    deletedBy (c :: cs) p = (c.deletes p || deletedBy cs p) := rfl

theorem deletedBy_of_le {cs : List Cleaner} {p : Nat} (h : ∀ c ∈ cs, c.stretch.stop ≤ p) :
    deletedBy cs p = false := by
  unfold deletedBy
  rw [List.any_eq_false]
  intro c hc
  have := h c hc
  rw [Cleaner.deletes_iff]
  omega

section Sorted

variable {c : Cleaner} {cs : List Cleaner}

/-- The last deletion moves the positions for the others. -/
theorem landing_cons (hpos : c.stretch.start < c.stretch.stop)
    (hbefore : ∀ c' ∈ cs, c'.stretch.stop ≤ c.stretch.start) (p : Nat) :
    landing (deletedBy (c :: cs)) p = landing (deletedBy cs) (c.stretch.shrink p) := by
  induction p with
  | zero => simp [Span.shrink, landing]
  | succ p ih =>
    rw [landing_succ, ih, deletedBy_cons]
    rcases Nat.lt_or_ge p c.stretch.start with hlt | hge
    · -- in front of the deletion
      have hc : c.deletes p = false := by
        rw [Bool.eq_false_iff, ne_eq, Cleaner.deletes_iff]
        omega
      have hp : c.stretch.shrink p = p := by
        unfold Span.shrink
        omega
      have hp' : c.stretch.shrink (p + 1) = p + 1 := by
        unfold Span.shrink
        omega
      rw [hc, hp, hp', landing_succ, Bool.false_or]
    · have hcs : ∀ q, c.stretch.start ≤ q → deletedBy cs q = false := fun q hq =>
        deletedBy_of_le fun c' hc' => (hbefore c' hc').trans hq
      rcases Nat.lt_or_ge p c.stretch.stop with hlt | hge'
      · -- in it
        have hc : c.deletes p = true := Cleaner.deletes_iff.2 ⟨hge, hlt⟩
        have hp : c.stretch.shrink (p + 1) = c.stretch.shrink p := by
          unfold Span.shrink
          omega
        rw [hc, hp]
        rfl
      · -- behind it
        have hc : c.deletes p = false := by
          rw [Bool.eq_false_iff, ne_eq, Cleaner.deletes_iff]
          omega
        have hp : c.stretch.shrink (p + 1) = c.stretch.shrink p + 1 := by
          unfold Span.shrink
          omega
        have hkept : c.stretch.start ≤ c.stretch.shrink p := by
          unfold Span.shrink
          omega
        rw [hc, hp, landing_succ, hcs p hge, hcs _ hkept]
        rfl

/-- Whether deletions take a bookmark away: all of its text goes, and the deletion it begins in takes a
line break, in front of which it does not lie. -/
def Lost (cs : List Cleaner) (s : Span) : Prop :=
  (∀ q, s.start ≤ q → q < s.stop → deletedBy cs q = true) ∧
    ∃ c ∈ cs, c.stretch.stop = c.stretch.start + 2 ∧ c.deletes s.start = true ∧
      (s.start = s.stop → s.start ≠ c.stretch.start)

theorem lost_of_takes {s : Span} (h : c.Takes s) : Lost (c :: cs) s := by
  obtain ⟨htwo, hstart, hstop, hpoint⟩ := h
  refine ⟨fun q hle hlt => ?_, c, by simp, htwo, hstart, hpoint⟩
  rw [Cleaner.deletes_iff] at hstart
  rw [deletedBy_cons, Cleaner.deletes_iff.2 (by omega), Bool.true_or]

/-- What the last deletion does not take, the others take or not. -/
theorem lost_cons_iff (hpos : c.stretch.start < c.stretch.stop)
    (hbefore : ∀ c' ∈ cs, c'.stretch.stop ≤ c.stretch.start) {s : Span} (hs : s.start ≤ s.stop)
    (h : ¬ c.Takes s) : Lost (c :: cs) s ↔ Lost cs ⟨c.stretch.shrink s.start, c.stretch.shrink s.stop⟩ := by
  have hbehind : ∀ q, c.stretch.start ≤ q → deletedBy cs q = false := fun q hq =>
    deletedBy_of_le fun c' hc' => (hbefore c' hc').trans hq
  have hfront : ∀ q, q < c.stretch.start → deletedBy (c :: cs) q = deletedBy cs q := fun q hq => by
    have hc : c.deletes q = false := by
      rw [Bool.eq_false_iff, ne_eq, Cleaner.deletes_iff]
      omega
    rw [deletedBy_cons, hc, Bool.false_or]
  have hkept : ∀ q, c.stretch.stop ≤ q → deletedBy (c :: cs) q = false := fun q hq => by
    have hc : c.deletes q = false := by
      rw [Bool.eq_false_iff, ne_eq, Cleaner.deletes_iff]
      omega
    rw [deletedBy_cons, hc, hbehind q (by omega), Bool.false_or]
  unfold Span.shrink
  constructor
  · rintro ⟨hall, c', hc', htwo, hstart, hpoint⟩
    have hend : s.stop ≤ c.stretch.stop := by
      by_contra hover
      have hlast := hall (max s.start c.stretch.stop) (by omega)
      rw [Cleaner.deletes_iff] at hstart
      rcases List.mem_cons.1 hc' with rfl | hc'
      · rw [hkept _ (by omega)] at hlast
        exact absurd (hlast (by omega)) (by simp)
      · have := hbefore c' hc'
        rw [hkept _ (by omega)] at hlast
        exact absurd (hlast (by omega)) (by simp)
    rcases List.mem_cons.1 hc' with rfl | hc'
    · exact absurd ⟨htwo, hstart, hend, hpoint⟩ h
    · have hle := hbefore c' hc'
      have hstart' := Cleaner.deletes_iff.1 hstart
      have hmin : min s.start c.stretch.start + (s.start - c.stretch.stop) = s.start := by omega
      refine ⟨fun q hq hlt => ?_, c', hc', htwo, ?_, ?_⟩
      · dsimp only at hq hlt
        rw [← hfront q (by omega)]
        exact hall q (by omega) (by omega)
      · show c'.deletes (min s.start c.stretch.start + (s.start - c.stretch.stop)) = true
        rwa [hmin]
      · dsimp only
        rw [hmin]
        intro heq
        exact hpoint (by omega)
  · rintro ⟨hall, c', hc', htwo, hstart, hpoint⟩
    have hle := hbefore c' hc'
    dsimp only at hall hstart hpoint
    have hstart' := Cleaner.deletes_iff.1 hstart
    have hmin : min s.start c.stretch.start + (s.start - c.stretch.stop) = s.start := by omega
    rw [hmin] at hall hstart hpoint
    have hend : s.stop ≤ c.stretch.stop := by
      by_contra hover
      have hlast := hall c.stretch.start (by omega) (by omega)
      rw [hbehind _ (Nat.le_refl _)] at hlast
      cases hlast
    refine ⟨fun q hq hlt => ?_, c', List.mem_cons_of_mem _ hc', htwo, hstart, fun heq => ?_⟩
    · rcases Nat.lt_or_ge q c.stretch.start with hq' | hq'
      · rw [hfront q hq']
        exact hall q hq (by omega)
      · rw [deletedBy_cons, Cleaner.deletes_iff.2 ⟨hq', by omega⟩, Bool.true_or]
    · exact hpoint (by omega)

/-- Deletions made from the end backwards take a bookmark away or leave it where its text goes. -/
theorem carryAll_spec {t : Text} (hsits : ∀ c ∈ cs, c.Sits t)
    (hsorted : cs.Pairwise fun c c' => c'.stretch.stop ≤ c.stretch.start) {s : Span}
    (hs : s.start ≤ s.stop) :
    (Lost cs s → carryAll cs (some s) = none) ∧
      (¬ Lost cs s → carryAll cs (some s) =
        some ⟨landing (deletedBy cs) s.start, landing (deletedBy cs) s.stop⟩) := by
  induction cs generalizing s with
  | nil =>
    refine ⟨fun h => ?_, fun _ => ?_⟩
    · obtain ⟨-, c, hc, -⟩ := h
      simp at hc
    · have hall : ∀ p, landing (deletedBy []) p = p := fun p => by simp [landing, deletedBy]
      simp [carryAll, hall]
  | cons c cs ih =>
    obtain ⟨hbefore, hsorted⟩ := List.pairwise_cons.1 hsorted
    have hc := hsits c (by simp)
    have hpos := hc.target_start.2
    have hcons : carryAll (c :: cs) (some s) = carryAll cs (c.carry s) := rfl
    by_cases htakes : c.Takes s
    · rw [hcons, Cleaner.carry_of_takes hc hs htakes, carryAll_none]
      exact ⟨fun _ => rfl, fun h => absurd (lost_of_takes htakes) h⟩
    · rw [hcons, Cleaner.carry_of_not_takes hc hs htakes, lost_cons_iff hpos hbefore hs htakes,
        landing_cons hpos hbefore, landing_cons hpos hbefore]
      refine ih (fun c' hc' => hsits c' (by simp [hc'])) hsorted ?_
      unfold Span.shrink
      dsimp only
      omega

end Sorted

/-! ### Collecting the marks -/

namespace Span

/-- Where a span goes when the bytes `ps` are deleted. -/
def landed (ps : List Nat) (s : Span) : Span :=
  ⟨landing (fun p => ps.contains p) s.start, landing (fun p => ps.contains p) s.stop⟩

/-- Whether all bytes of a span are among `ps` and a line break among them is the first or, if the span is
not empty, the second one. -/
def SweptAway (t : Text) (ps : List Nat) (s : Span) : Prop :=
  (∀ q, q < s.stop → s.start ≤ q → q ∈ ps) ∧
    ((s.start ∈ ps ∧ t.charAt? s.start = some '\n') ∨
      (s.start < s.stop ∧ s.start + 1 ∈ ps ∧ t.charAt? (s.start + 1) = some '\n'))

instance (t : Text) (ps : List Nat) (s : Span) : Decidable (s.SweptAway t ps) :=
  inferInstanceAs (Decidable (_ ∧ _))

end Span

/-- What cleaners that were found for commands take away, said of their garbage. -/
theorem Collected.lost_iff {d : Document} {cs : List Command} {found : List Cleaner}
    (h : Collected d cs found) {s : Span} (hs : s.start ≤ s.stop) :
    Lost found s ↔ s.SweptAway d.text (cs.flatMap (·.garbage d)) := by
  have hall : (∀ q, s.start ≤ q → q < s.stop → deletedBy found q = true) ↔
      ∀ q, q < s.stop → s.start ≤ q → q ∈ cs.flatMap (·.garbage d) :=
    forall_congr' fun q => ⟨fun hq hlt hle => (h.bytes q).1 (hq hle hlt),
      fun hq hle hlt => (h.bytes q).2 (hq hlt hle)⟩
  -- a line break is deleted only with the mark in front of it
  have hbreak : ∀ q, (q ∈ cs.flatMap (·.garbage d) ∧ d.text.charAt? q = some '\n') ↔
      ∃ c ∈ found, c.stretch.stop = c.stretch.start + 2 ∧ q = c.stretch.start + 1 := by
    intro q
    rw [← h.bytes, deletedBy, List.any_eq_true]
    constructor
    · rintro ⟨⟨c, hc, hdeletes⟩, hchar⟩
      obtain ⟨p, bytes, hremoves⟩ := h.removes c hc
      have hlong := hremoves.sits.stop_le.1
      rw [Cleaner.deletes_iff] at hdeletes
      have hne : q ≠ c.stretch.start := fun heq =>
        hremoves.visible (by rw [← hremoves.start, ← heq]; exact hchar)
      exact ⟨c, hc, by omega, by omega⟩
    · rintro ⟨c, hc, htwo, rfl⟩
      obtain ⟨p, bytes, hremoves⟩ := h.removes c hc
      exact ⟨⟨c, hc, Cleaner.deletes_iff.2 (by omega)⟩, hremoves.sits.stop_le.2 htwo⟩
  rw [Lost, Span.SweptAway, hall, hbreak, hbreak]
  refine and_congr_right fun _ => ⟨?_, ?_⟩
  · rintro ⟨c, hc, htwo, hstart, hpoint⟩
    rw [Cleaner.deletes_iff] at hstart
    rcases Nat.eq_or_lt_of_le hstart.1 with heq | hlt
    · exact .inr ⟨by omega, c, hc, htwo, by omega⟩
    · exact .inl ⟨c, hc, htwo, by omega⟩
  · rintro (⟨c, hc, htwo, heq⟩ | ⟨hlt, c, hc, htwo, heq⟩)
    · exact ⟨c, hc, htwo, Cleaner.deletes_iff.2 (by omega), by omega⟩
    · exact ⟨c, hc, htwo, Cleaner.deletes_iff.2 (by omega), by omega⟩

/-- Finding the marks leaves the bookmarks of the other commands as they are. -/
theorem span?_collect {policy : Policy} (hdebug : policy.debug = false) {cs : List Command} {d : Document}
    {n : String} (hn : n ∉ inserterNames cs) :
    Ends (fun _ => True) (collect policy cs d) fun p => p.2.1.span? n = d.span? n := by
  let I : List Command → List Command → Document × List Cleaner → Prop := fun _ after s =>
    n ∉ inserterNames after ∧ s.1.span? n = d.span? n
  refine (Ends.visit (I := I) ⟨hn, rfl⟩ fun before c after s hI => ?_).mono fun p hp => hp.2
  obtain ⟨hn, hspan⟩ := hI
  rw [mem_inserterNames] at hn
  have hafter : n ∉ inserterNames after := fun h => by
    obtain ⟨c', hc', hkind, hb⟩ := mem_inserterNames.1 h
    exact hn ⟨c', by simp [hc'], hkind, hb⟩
  unfold collectFrom
  rw [closingRemovable?_eq]
  split
  next => exact ⟨hafter, hspan⟩
  next removable hkind =>
    have hne : n ≠ c.bookmark := fun heq => by
      refine hn ⟨c, by simp, ?_, heq.symm⟩
      by_contra hno
      rw [if_neg hno] at hkind
      cases hkind
    have hmarked : (c.unmark.markDone s.1 true).2.span? n = s.1.span? n := by
      simp only [Command.markDone, if_true]
      split
      next d' hremove => exact span?_removeBookmark hne hremove
      · rfl
    simp only [hdebug, Bool.not_false]
    split
    · refine Ends.bind (Ends.of_forall fun found _ => ?_)
      exact ⟨hafter, hmarked.trans hspan⟩
    · exact ⟨hafter, hmarked.trans hspan⟩

/-- **Bookmarks around removed marks.**  A bookmark of no inserting command stands in the end where its
text went, unless all of its text goes and it begins with a line break that is deleted or with the mark in
front of one: then it is lost. -/
theorem span?_collectGarbage {policy : Policy} (hdebug : policy.debug = false) {cs cs' : List Command}
    {d d' : Document} (hd : d.WellFormed) (hmarks : MarksHeld d cs)
    (hrun : collectGarbage policy cs d = .ok (cs', d')) {n : String} (hn : n ∉ inserterNames cs) :
    d'.span? n = (d.span? n).bind fun s =>
      if s.SweptAway d.text (cs.flatMap (·.garbage d)) then none
      else some (s.landed (cs.flatMap (·.garbage d))) := by
  have hends : Ends (fun _ => True) (collectGarbage policy cs d) fun p =>
      p.2.span? n = (d.span? n).bind fun s =>
        if s.SweptAway d.text (cs.flatMap (·.garbage d)) then none
        else some (s.landed (cs.flatMap (·.garbage d))) := by
    refine Ends.andThen (((hmarks.collect hdebug hd).allow fun _ _ => trivial).and (span?_collect hdebug hn)) ?_
    rintro ⟨cs₁, d₁, found⟩ ⟨⟨hd₁, ht₁, hfound⟩, hspan⟩
    have hsits : ∀ c ∈ found, c.Sits d.text := hfound.sits rfl
    have hdisjoint := hfound.pairwise hmarks.apart
    obtain ⟨d₂, hsweep, hspan₂⟩ := span?_sweep hd₁ (ht₁ ▸ hsits) hdisjoint n
    simp only [hsweep]
    show d₂.span? n = _
    rw [hspan₂, hspan]
    cases hs : d.span? n with
    | none => exact carryAll_none _
    | some s =>
      have hle := (Span.le_of_fits (fits_of_span? hd hs)).1
      have hperm : (backwards found).Perm found := List.mergeSort_perm _ _
      obtain ⟨hlost, hkept⟩ := carryAll_spec (fun c hc => hsits c (hperm.mem_iff.1 hc))
        (pairwise_backwards hsits hdisjoint) hle
      have hbytes : deletedBy (backwards found) =
          fun p => (cs.flatMap (·.garbage d)).contains p := by
        rw [deletedBy_congr hperm]
        funext p
        rw [Bool.eq_iff_iff, hfound.bytes]
        simp
      have hiff : Lost (backwards found) s ↔ s.SweptAway d.text (cs.flatMap (·.garbage d)) := by
        rw [← hfound.lost_iff hle, Lost, Lost, deletedBy_congr hperm]
        simp only [hperm.mem_iff]
      rw [Option.bind_some]
      split
      next h => exact hlost (hiff.2 h)
      next h =>
        rw [hkept (mt hiff.1 h), hbytes]
        rfl
  exact hends.of_eq_ok hrun

/-- Contents with bookmarks behind a mark, on a mark and around a content. -/
def bookmarkedContents : Document :=
  { nestedContents with
    bookmarks := nestedContents.bookmarks ++ [⟨"note", ⟨1, 1⟩⟩, ⟨"mark", ⟨2, 3⟩⟩, ⟨"all", ⟨1, 5⟩⟩] }

theorem span?_collectGarbage_bookmarkedContents :
    ∃ cs' d', collectGarbage ⟨true, false⟩ contentCommands bookmarkedContents = .ok (cs', d') ∧
      ["note", "mark", "all"].map d'.span? = [none, some ⟨0, 0⟩, some ⟨0, 1⟩] := by
  have hok : (collectGarbage ⟨true, false⟩ contentCommands bookmarkedContents).isOk = true := by cbv
  cases hrun : collectGarbage ⟨true, false⟩ contentCommands bookmarkedContents with
  | error f =>
    rw [hrun] at hok
    cases hok
  | ok p =>
    have henclosed : ∀ c ∈ contentCommands, ∀ r ∈ c.enclosed? bookmarkedContents,
        r.IsEnclosed bookmarkedContents.text := by
      simp only [contentCommands, List.map_cons, List.map_nil, List.mem_cons, List.not_mem_nil,
        or_false]
      rintro c (rfl | rfl) r hr
      · obtain rfl : TextRange.ofSpan ⟨0, 7⟩ = r := Option.some.inj hr
        exact ⟨by decide, by decide, by decide⟩
      · obtain rfl : TextRange.ofSpan ⟨2, 5⟩ = r := Option.some.inj hr
        exact ⟨by decide, by decide, by decide⟩
    have hwell : bookmarkedContents.WellFormed :=
      ⟨by decide, by decide, by decide, by decide,
        by simp [bookmarkedContents, nestedContents, Document.ofText]⟩
    have hheld : MarksHeld bookmarkedContents contentCommands :=
      (⟨by decide, henclosed, by decide⟩ : MarksIntact _ _).held
    have hspan : ∀ n ∉ inserterNames contentCommands, p.2.span? n = _ := fun n hn =>
      span?_collectGarbage rfl hwell hheld hrun hn
    refine ⟨p.1, p.2, rfl, ?_⟩
    simp only [List.map_cons, List.map_nil]
    rw [hspan "note" (by decide), hspan "mark" (by decide), hspan "all" (by decide)]
    decide

/-- Surroundings with a fragment that begins with an empty paragraph, in which a bookmark stands. -/
def noting : Services where
  locations := fun id => [id]
  load := fun _ => .ok { Document.ofText "\nX".toList with bookmarks := [⟨"note", ⟨0, 0⟩⟩] }
  value := fun column => .ok column
  transform := fun name _ => .error (.unknown name)
  policy := ⟨true, false⟩

/-- A document with a place for the fragment. -/
def onePlaceForNote : Document :=
  { Document.ofText ['?'] with bookmarks := [⟨"DOC(CMD 'insertFrag' FRAG_ID 'f')", ⟨0, 1⟩⟩] }

/-- Where a bookmark stands before and after the marks are removed, when the commands of a document are
executed. -/
def spansAroundCollection (s : Services) (d : Document) (n : String) :
    Except Fault (Option Span × Option Span) := do
  let (_, cs, r) ← expand s (Command.ofDocument d) (Model.fresh d [] false).enter.startRun
  let (cs, r) ← lockedPhase (visitPending (updateFields s.policy)) cs r
  let (cs, r) ← lockedPhase (visitPending (fillIn s)) cs r
  let (_, d) ← collectGarbage s.policy cs r.document
  return (r.document.span? n, d.span? n)

/-- A bookmark that is lost with the paragraph of a mark. -/
theorem spansAroundCollection_noting :
    spansAroundCollection noting onePlaceForNote "note" = .ok (some ⟨1, 1⟩, none) := by
  cbv

end TemplateEngine
