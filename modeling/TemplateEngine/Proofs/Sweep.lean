import TemplateEngine.Process.Cleanup
import TemplateEngine.Proofs.Edits
import TemplateEngine.Proofs.Settled

/-!
# Sweep — removing marks deletes the marks and nothing else

The deletions are found in one text and made in another that shrinks under them.  A cleaner `Sits` in
the text it was found in: what it deletes is its `stretch`, a mark or a mark alone in its paragraph with
the line break behind it.  As the deletions are made from the end of the text backwards and the
stretches are disjoint, the text up to the end of each stretch is still the old one when its turn comes
(`Cleaner.Sits.transfer`), so every deletion takes away exactly its stretch (`foldlM_applyCleaner`).
-/

namespace TemplateEngine

/-! ### Deleting characters at positions -/

namespace Text

/-- The character that starts at byte `p`. -/
def charAt? (t : Text) (p : Nat) : Option Char := (t.splitAt? p).bind fun s => s.2.head?

/-- Whether a paragraph starts at byte `p`. -/
def startsParagraph (t : Text) (p : Nat) : Bool := p == 0 || t.charAt? (p - 1) == some '\n'

/-- The part of a text from byte `p` on without the characters that start where `drop` says. -/
def dropAt (drop : Nat → Bool) : Nat → Text → Text
  | _, [] => []
  | p, c :: t =>
    if drop p then dropAt drop (p + c.utf8Size) t else c :: dropAt drop (p + c.utf8Size) t

/-- The text without the characters that start at the bytes `ps`. -/
def without (t : Text) (ps : List Nat) : Text := dropAt (fun p => ps.contains p) 0 t

theorem charAt?_eq_some_iff {t : Text} {p : Nat} {x : Char} :
    t.charAt? p = some x ↔ ∃ u v, t = u ++ x :: v ∧ byteLength u = p := by
  unfold charAt?
  constructor
  · intro h
    obtain ⟨⟨u, w⟩, hsplit, hw⟩ := Option.bind_eq_some_iff.1 h
    obtain ⟨rfl, rfl⟩ := splitAt?_eq_some_iff.1 hsplit
    cases w with
    | nil => cases hw
    | cons y v =>
      obtain rfl := Option.some.inj hw
      exact ⟨u, v, rfl, rfl⟩
  · rintro ⟨u, v, rfl, rfl⟩
    rw [splitAt?_eq_some_iff.2 ⟨rfl, rfl⟩]
    rfl

theorem charAt?_append (u v : Text) : charAt? (u ++ v) (byteLength u) = v.head? := by
  unfold charAt?
  rw [splitAt?_eq_some_iff.2 ⟨rfl, rfl⟩]
  rfl

theorem dropAt_append (drop : Nat → Bool) (p : Nat) (a b : Text) :
    dropAt drop p (a ++ b) = dropAt drop p a ++ dropAt drop (p + byteLength a) b := by
  induction a generalizing p with
  | nil => rfl
  | cons c a ih =>
    simp only [List.cons_append, dropAt, byteLength_cons, ih, Nat.add_assoc]
    split <;> rfl

/-- Only the positions of the text matter. -/
theorem dropAt_congr {drop drop' : Nat → Bool} {p : Nat} {t : Text}
    (h : ∀ q, p ≤ q → q < p + byteLength t → drop q = drop' q) :
    dropAt drop p t = dropAt drop' p t := by
  induction t generalizing p with
  | nil => rfl
  | cons c t ih =>
    have hc := c.utf8Size_pos
    rw [byteLength_cons] at h
    simp only [dropAt]
    rw [h p (Nat.le_refl p) (by omega), ih fun q hq hlt => h q (by omega) (by omega)]

theorem dropAt_none {drop : Nat → Bool} {p : Nat} {t : Text}
    (h : ∀ q, p ≤ q → q < p + byteLength t → drop q = false) : dropAt drop p t = t := by
  induction t generalizing p with
  | nil => rfl
  | cons c t ih =>
    have hc := c.utf8Size_pos
    rw [byteLength_cons] at h
    simp only [dropAt]
    rw [h p (Nat.le_refl p) (by omega), ih fun q hq hlt => h q (by omega) (by omega)]
    rfl

theorem dropAt_all {drop : Nat → Bool} {p : Nat} {t : Text}
    (h : ∀ q, p ≤ q → q < p + byteLength t → drop q = true) : dropAt drop p t = [] := by
  induction t generalizing p with
  | nil => rfl
  | cons c t ih =>
    have hc := c.utf8Size_pos
    rw [byteLength_cons] at h
    simp only [dropAt]
    rw [h p (Nat.le_refl p) (by omega), ih fun q hq hlt => h q (by omega) (by omega)]
    rfl

end Text

/-! ### Stretches -/

namespace Cleaner

/-- What a cleaner for a mark deletes. -/
def stretch : Cleaner → Span
  | .range r => r.toSpan
  | .paragraph r => ⟨r.start - 1, r.start + 1⟩

/-- Whether a position is deleted. -/
def deletes (c : Cleaner) (p : Nat) : Bool := c.stretch.start ≤ p && p < c.stretch.stop

theorem deletes_iff {c : Cleaner} {p : Nat} :
    c.deletes p = true ↔ c.stretch.start ≤ p ∧ p < c.stretch.stop := by
  simp [deletes]

/-- How a cleaner sits in the text it was found in. -/
inductive Sits (t : Text) : Cleaner → Prop
  /-- On a character of one byte. -/
  | range {u v : Text} {x : Char} : t = u ++ x :: v → x.utf8Size = 1 →
      Sits t (.range (.ofSpan ⟨Text.byteLength u, Text.byteLength u + 1⟩))
  /-- Behind a character of one byte that is alone in its paragraph. -/
  | paragraph {u v : Text} {x : Char} : t = u ++ x :: '\n' :: v → x.utf8Size = 1 → x ≠ '\n' →
      (u = [] ∨ u.getLast? = some '\n') →
      Sits t (.paragraph (.ofSpan (.point (Text.byteLength u + 1))))

theorem utf8Size_newline : Char.utf8Size '\n' = 1 := rfl

/-- The text falls into what is before the stretch, the stretch, and what is behind it. -/
theorem Sits.exists_cut {t : Text} {c : Cleaner} (h : c.Sits t) :
    ∃ u m v, t = u ++ m ++ v ∧ Text.byteLength u = c.stretch.start ∧
      Text.byteLength (u ++ m) = c.stretch.stop := by
  cases h with
  | @range u v x ht hx => exact ⟨u, [x], v, by simp [ht], rfl, by simp [stretch, TextRange.ofSpan, hx]⟩
  | @paragraph u v x ht hx _ _ =>
    exact ⟨u, [x, '\n'], v, by simp [ht], by simp [stretch, TextRange.ofSpan, Span.point],
      by simp [stretch, TextRange.ofSpan, Span.point, hx, utf8Size_newline]⟩

/-- The key by which cleaners are sorted is the last position that they delete. -/
theorem Sits.target_start {t : Text} {c : Cleaner} (h : c.Sits t) :
    c.target.start + 1 = c.stretch.stop ∧ c.stretch.start < c.stretch.stop := by
  cases h with
  | range => exact ⟨rfl, Nat.lt_succ_self _⟩
  | paragraph => exact ⟨rfl, by simp only [stretch, TextRange.ofSpan, Span.point]; omega⟩

/-- A stretch has one byte, or two of which the second one is a line break. -/
theorem Sits.stop_le {t : Text} {c : Cleaner} (h : c.Sits t) :
    c.stretch.stop ≤ c.stretch.start + 2 ∧
      (c.stretch.stop = c.stretch.start + 2 → t.charAt? (c.stretch.start + 1) = some '\n') := by
  cases h with
  | range =>
    simp only [stretch, TextRange.ofSpan]
    omega
  | @paragraph u v x ht hx _ _ =>
    simp only [stretch, TextRange.ofSpan, Span.point, Nat.add_sub_cancel, Nat.le_refl, true_and]
    intro
    exact Text.charAt?_eq_some_iff.2 ⟨u ++ [x], v, by simp [ht], by simp [hx]⟩

/-- A cleaner sits in every text with the same beginning. -/
theorem Sits.transfer {w z z' : Text} {c : Cleaner} (h : c.Sits (w ++ z))
    (hle : c.stretch.stop ≤ Text.byteLength w) : c.Sits (w ++ z') := by
  cases h with
  | @range u v x ht hx =>
    have ht' : w ++ z = (u ++ [x]) ++ v := by simp [ht]
    obtain ⟨m, rfl⟩ := Text.exists_append_of_byteLength_le ht'.symm
      (by simpa [stretch, TextRange.ofSpan, hx] using hle)
    exact .range (v := m ++ z') (by simp) hx
  | @paragraph u v x ht hx hne hstart =>
    have ht' : w ++ z = (u ++ [x, '\n']) ++ v := by simp [ht]
    have hbytes : Text.byteLength (u ++ [x, '\n']) = Text.byteLength u + 2 := by
      simp [hx, utf8Size_newline]
    obtain ⟨m, rfl⟩ := Text.exists_append_of_byteLength_le ht'.symm (hbytes ▸ hle)
    exact .paragraph (v := m ++ z') (by simp) hx hne hstart

end Cleaner

/-! ### One deletion -/

theorem text_restoreBookmark (place : TextRange) (d : Document) (name : String) :
    (restoreBookmark place d name).text = d.text := by
  unfold restoreBookmark
  split
  · rfl
  split
  next d' _ h =>
    rw [show d' = (d.addBookmark name place.toSpan).1 by
      rw [Document.addBookmark_of_insertBookmark h]]
    rfl
  · rfl

theorem wellFormed_restoreBookmark {place : TextRange} {d : Document} (hd : d.WellFormed)
    (hplace : place.toSpan.fits d.text = true) (name : String) :
    (restoreBookmark place d name).WellFormed := by
  unfold restoreBookmark
  split
  · exact hd
  split
  next d' _ h =>
    rw [show d' = (d.addBookmark name place.toSpan).1 by
      rw [Document.addBookmark_of_insertBookmark h]]
    exact Document.wellFormed_addBookmark hd name hplace
  · exact hd

/-- The document without a part of its text and what is lost with it. -/
def Document.deleted (d : Document) (u m v : Text) : Document :=
  d.replaced (Document.replacementOf u m v [] none) (u ++ [] ++ v)

/-- The document with one more bookmark. -/
def Document.holding (d : Document) (name : String) (s : Span) : Document :=
  { d with bookmarks := d.bookmarks ++ [⟨name, s⟩] }

/-- Deleting a text on behalf of a bookmark, which goes too, changes the other bookmarks only with the
text. -/
theorem removeBookmark_holding {d : Document} {name : String} (hname : name ∉ d.names) (s : Span)
    (u m v : Text) :
    ((d.holding name s).replaced (Document.replacementOf u m v [] (some (.bookmark name)))
      (u ++ [] ++ v)).removeBookmark name = .ok (d.deleted u m v) := by
  let e := Document.replacementOf u m v [] (some (.bookmark name))
  have hfresh : ∀ b ∈ d.bookmarks, b.name ≠ name := fun b hb heq =>
    hname (heq ▸ (List.mem_map_of_mem hb : b.name ∈ d.names))
  have hothers : d.bookmarks.filterMap e.bookmark? = (d.deleted u m v).bookmarks := by
    refine List.filterMap_congr fun b hb => ?_
    have howner : e.owner ≠ some (.bookmark b.name) := fun h =>
      hfresh b hb (Owner.bookmark.inj (Option.some.inj h)).symm
    unfold Replacement.bookmark?
    rw [if_neg howner, if_neg (by simp [Document.replacementOf])]
    rfl
  have howned : e.bookmark? ⟨name, s⟩ = some ⟨name, e.newSpan⟩ := if_pos rfl
  have hbookmarks : ((d.holding name s).replaced e (u ++ [] ++ v)).bookmarks =
      (d.deleted u m v).bookmarks ++ [⟨name, e.newSpan⟩] := by
    show (d.bookmarks ++ [Bookmark.mk name s]).filterMap e.bookmark? = _
    rw [List.filterMap_append, hothers, List.filterMap_cons, howned, List.filterMap_nil]
  have hkept : ∀ b ∈ (d.deleted u m v).bookmarks, b.name ≠ name := by
    intro b hb
    obtain ⟨b₀, hb₀, hbb⟩ := List.mem_filterMap.1 hb
    rw [Document.name_of_bookmark? hbb]
    exact hfresh b₀ hb₀
  have hfound : (((d.holding name s).replaced e (u ++ [] ++ v)).bookmark? name).isSome = true := by
    rw [Document.isSome_bookmark?_iff, Document.names, hbookmarks]
    simp
  have hfields : d.fields.filterMap e.field? = (d.deleted u m v).fields :=
    List.filterMap_congr fun f _ => by
      unfold Replacement.field?
      rw [if_neg (by simp [e, Document.replacementOf]), if_neg (by simp [Document.replacementOf])]
      rfl
  have hfilter : ((d.deleted u m v).bookmarks ++ [Bookmark.mk name e.newSpan]).filter (·.name ≠ name) =
      (d.deleted u m v).bookmarks := by
    rw [List.filter_append, List.filter_eq_self.2 fun b hb => by simpa using hkept b hb]
    simp
  unfold Document.removeBookmark
  rw [if_pos hfound, hbookmarks, hfilter]
  show Except.ok { d.deleted u m v with fields := d.fields.filterMap e.field? } = _
  rw [hfields]

theorem bookmarksWithin_holding {d : Document} {name : String} (hname : name ∉ d.names) (s : Span) :
    ((d.holding name s).bookmarksWithin s).filter (· ≠ name) = d.bookmarksWithin s := by
  have hkept : ∀ n ∈ d.bookmarksWithin s, n ≠ name := fun n hn heq =>
    hname (heq ▸ mem_bookmarksWithin hn)
  have hall : (d.holding name s).bookmarksWithin s = d.bookmarksWithin s ++ [name] := by
    unfold Document.bookmarksWithin Document.holding
    rw [List.filter_append, List.map_append]
    simp [Span.within]
  rw [hall, List.filter_append, List.filter_eq_self.2 fun n hn => by simpa using hkept n hn]
  simp

/-- Clearing a range that fits deletes its text and puts the bookmarks back that were inside it. -/
theorem clearRange_eq {d : Document} {u m v : Text} (htext : d.text = u ++ m ++ v) :
    clearRange d (.ofSpan ⟨Text.byteLength u, Text.byteLength (u ++ m)⟩) =
      .ok (.ok ((d.bookmarksWithin ⟨Text.byteLength u, Text.byteLength (u ++ m)⟩).foldl
        (restoreBookmark (.ofSpan (.point (Text.byteLength u)))) (d.deleted u m v))) := by
  let span : Span := ⟨Text.byteLength u, Text.byteLength (u ++ m)⟩
  have hspan : span.fits d.text = true := htext ▸ Span.fits_cut u m v
  have hle := Span.le_of_fits hspan
  let killer := d.uniqueName killerName none
  have hfresh : killer ∉ d.names := Document.uniqueName_notMem d killerName
  let d₁ := d.holding killer span
  have hinsert : d.insertBookmark killerName (.ofSpan span) = .ok (d₁, killer) := by
    unfold Document.insertBookmark
    rw [Document.check_of_le hle.1 hle.2]
    rfl
  have hkiller : d₁.bookmark? killer = some ⟨killer, span⟩ :=
    Document.bookmark?_addBookmark d killerName span
  let d₂ := d₁.replaced (Document.replacementOf u m v [] (some (.bookmark killer))) (u ++ [] ++ v)
  have hset : d₁.setBookmarkText killer [] = .ok (.ok d₂) := by
    unfold Document.setBookmarkText
    rw [hkiller]
    show (d₁.edit span [] (some (.bookmark killer)) >>= _) = _
    rw [Document.edit_eq (d := d₁) htext]
    rfl
  have hplace : d₂.bookmarkRange? killer = some (.ofSpan (.point (Text.byteLength u))) := by
    have hnew := Document.newSpan_replacementOf u m v [] (some (.bookmark killer))
    rw [List.append_nil] at hnew
    rw [Document.bookmarkRange?, Document.bookmark?_replaced_owner hkiller rfl, Span.point, ← hnew]
    rfl
  unfold clearRange
  rw [hinsert]
  show (d₁.setBookmarkText killer [] >>= _) = _
  rw [hset]
  dsimp only [bind, Except.bind]
  rw [removeBookmark_holding hfresh span u m v]
  dsimp only
  rw [hplace]
  show Except.ok (Except.ok (((d₁.bookmarksWithin span).filter (· ≠ killer)).foldl _ _)) = _
  rw [bookmarksWithin_holding hfresh span]

/-- Clearing a range that fits deletes its text. -/
theorem clearRange_spec {d : Document} (hd : d.WellFormed) {u m v : Text}
    (htext : d.text = u ++ m ++ v) :
    ∃ d', clearRange d (.ofSpan ⟨Text.byteLength u, Text.byteLength (u ++ m)⟩) = .ok (.ok d') ∧
      d'.WellFormed ∧ d'.text = u ++ v := by
  refine ⟨_, clearRange_eq htext, ?_⟩
  have hwell : (d.deleted u m v).WellFormed := Document.wellFormed_replaced hd htext [] none
  have hcut : (d.deleted u m v).text = u ++ v := by
    show u ++ [] ++ v = u ++ v
    simp
  let I : Document → Prop := fun d' => d'.WellFormed ∧ d'.text = u ++ v
  refine Document.foldl_invariant (I := I) ?_ _ ⟨hwell, hcut⟩
  rintro d' name ⟨hd', ht⟩
  refine ⟨wellFormed_restoreBookmark hd' ?_ name, (text_restoreBookmark _ d' name).trans ht⟩
  rw [ht]
  exact Span.fits_point.trans (Text.isBoundary_cut u v)

/-- The paragraph in which a character is alone. -/
theorem Text.paragraphAround?_alone {u v : Text} {x : Char} (hx : x.utf8Size = 1) (hne : x ≠ '\n')
    (hstart : u = [] ∨ u.getLast? = some '\n') :
    Text.paragraphAround? (u ++ x :: '\n' :: v) (Text.byteLength u + 1) =
      some (Text.byteLength u, Text.byteLength u + 1) := by
  have hlast : Text.lastLine (u ++ [x]) = [x] := by
    unfold Text.lastLine
    rw [List.reverse_append, List.reverse_singleton, List.singleton_append,
      List.takeWhile_cons_of_pos (by simpa using hne)]
    have hrest : u.reverse.takeWhile (· ≠ '\n') = [] := by
      rcases hstart with rfl | hstart
      · rfl
      · obtain ⟨u', rfl⟩ := List.getLast?_eq_some_iff.1 hstart
        simp
    rw [hrest]
    rfl
  have hsplit : Text.splitAt? (u ++ x :: '\n' :: v) (Text.byteLength u + 1) = some (u ++ [x], '\n' :: v) :=
    Text.splitAt?_eq_some_iff.2 ⟨by simp, by simp [hx]⟩
  unfold Text.paragraphAround?
  rw [hsplit]
  show some (_ - Text.byteLength (Text.lastLine (u ++ [x])), _) = _
  rw [hlast]
  simp [hx, Text.firstLine]

/-- Deleting the paragraph in which a character is alone deletes it with the line break behind. -/
theorem deleteParagraph_eq {d : Document} {u v : Text} {x : Char}
    (htext : d.text = u ++ x :: '\n' :: v) (hx : x.utf8Size = 1) (hne : x ≠ '\n')
    (hstart : u = [] ∨ u.getLast? = some '\n') :
    d.deleteParagraph (.ofSpan (.point (Text.byteLength u + 1))) =
      .ok (.ok (d.deleted u [x, '\n'] v)) := by
  have hlen : Text.byteLength u + 2 ≤ d.length := by
    rw [Document.length, htext]
    simp only [Text.byteLength_append, Text.byteLength_cons, hx, Cleaner.utf8Size_newline]
    omega
  have hcheck := Document.check_of_le (d := d) (s := .point (Text.byteLength u + 1)) (Nat.le_refl _)
    (by simp only [Span.point]; omega)
  have hpar : d.text.paragraphAround? (Text.byteLength u + 1) =
      some (Text.byteLength u, Text.byteLength u + 1) := by
    rw [htext]
    exact Text.paragraphAround?_alone hx hne hstart
  have hcut : d.text = u ++ [x, '\n'] ++ v := by simp [htext]
  have hspan : d.withLineBreak ⟨Text.byteLength u, Text.byteLength u + 1⟩ =
      ⟨Text.byteLength u, Text.byteLength (u ++ [x, '\n'])⟩ := by
    unfold Document.withLineBreak
    rw [if_pos (by simp only; omega)]
    simp [hx, Cleaner.utf8Size_newline]
  unfold Document.deleteParagraph
  rw [hcheck]
  dsimp only [TextRange.ofSpan, Span.point]
  rw [hpar]
  show (d.edit (d.withLineBreak ⟨Text.byteLength u, Text.byteLength u + 1⟩) [] none >>= _) = _
  rw [hspan, Document.edit_eq hcut]
  rfl

theorem deleteParagraph_spec {d : Document} (hd : d.WellFormed) {u v : Text} {x : Char}
    (htext : d.text = u ++ x :: '\n' :: v) (hx : x.utf8Size = 1) (hne : x ≠ '\n')
    (hstart : u = [] ∨ u.getLast? = some '\n') :
    ∃ d', d.deleteParagraph (.ofSpan (.point (Text.byteLength u + 1))) = .ok (.ok d') ∧
      d'.WellFormed ∧ d'.text = u ++ v := by
  have hcut : d.text = u ++ [x, '\n'] ++ v := by simp [htext]
  refine ⟨_, deleteParagraph_eq htext hx hne hstart, Document.wellFormed_replaced hd hcut [] none, ?_⟩
  show u ++ [] ++ v = u ++ v
  simp

/-- A deletion takes away its stretch, whatever stands behind it. -/
theorem applyCleaner_spec {d : Document} (hd : d.WellFormed) {c : Cleaner} (hc : c.Sits d.text) :
    ∃ d' u m v, applyCleaner d c = .ok d' ∧ d'.WellFormed ∧ d.text = u ++ m ++ v ∧
      d'.text = u ++ v ∧ Text.byteLength u = c.stretch.start ∧
      Text.byteLength (u ++ m) = c.stretch.stop := by
  generalize htext : d.text = t at hc
  cases hc with
  | @range u v x ht hx =>
    have hcut : d.text = u ++ [x] ++ v := by simp [htext, ht]
    have hstop : Text.byteLength (u ++ [x]) = Text.byteLength u + 1 := by simp [hx]
    obtain ⟨d', hclear, hd', ht'⟩ := clearRange_spec hd hcut
    rw [hstop] at hclear
    refine ⟨d', u, [x], v, ?_, hd', htext ▸ hcut, ht', rfl, hstop⟩
    unfold applyCleaner
    simp only [hclear]
    rfl
  | @paragraph u v x ht hx hne hstart =>
    obtain ⟨d', hdelete, hd', ht'⟩ := deleteParagraph_spec hd (htext.trans ht) hx hne hstart
    refine ⟨d', u, [x, '\n'], v, ?_, hd', by simp [ht], ht', ?_, ?_⟩
    · unfold applyCleaner
      simp only [hdelete]
      rfl
    · simp [Cleaner.stretch, TextRange.ofSpan, Span.point]
    · simp [Cleaner.stretch, TextRange.ofSpan, Span.point, hx, Cleaner.utf8Size_newline]

/-! ### All deletions -/

/-- Whether one of some cleaners deletes a position. -/
def deletedBy (cs : List Cleaner) (p : Nat) : Bool := cs.any (·.deletes p)

/-- Deletions made from the end backwards.  `w` is the part of the text that no deletion has reached
yet; behind it stood `z` when the cleaners were found, and stands `z'` now.  `J` is what else the deletions
keep true of the cleaners to come and the document. -/
theorem foldlM_applyCleaner {J : List Cleaner → Document → Prop}
    (hstep : ∀ c cs d d', d.WellFormed → c.Sits d.text → applyCleaner d c = .ok d' → J (c :: cs) d →
      J cs d')
    {cs : List Cleaner} {d : Document} {w z z' : Text} (hd : d.WellFormed)
    (htext : d.text = w ++ z') (hsits : ∀ c ∈ cs, c.Sits (w ++ z))
    (hle : ∀ c ∈ cs, c.stretch.stop ≤ Text.byteLength w)
    (hsorted : cs.Pairwise fun c c' => c'.stretch.stop ≤ c.stretch.start) (hJ : J cs d) :
    ∃ d', cs.foldlM applyCleaner d = .ok d' ∧ d'.WellFormed ∧
      d'.text = Text.dropAt (deletedBy cs) 0 w ++ z' ∧ J [] d' := by
  induction cs generalizing d w z z' with
  | nil =>
    have hnone : Text.dropAt (deletedBy []) 0 w = w := Text.dropAt_none fun _ _ _ => rfl
    exact ⟨d, rfl, hd, by rw [hnone]; exact htext, hJ⟩
  | cons c cs ih =>
    obtain ⟨hbefore, hsorted⟩ := List.pairwise_cons.1 hsorted
    have hc : c.Sits d.text := htext ▸ (hsits c (by simp)).transfer (hle c (by simp))
    obtain ⟨d₁, u, m, v, happly, hd₁, hcut, htext₁, hu, hm⟩ := applyCleaner_spec hd hc
    -- the stretch lies in `w`, so what is behind it begins in `w` too
    obtain ⟨w₂, rfl⟩ : ∃ w₂, w = (u ++ m) ++ w₂ :=
      Text.exists_append_of_byteLength_le (hcut.symm.trans htext) (hm ▸ hle c (by simp))
    obtain rfl : v = w₂ ++ z' := by
      rw [htext, List.append_assoc (u ++ m)] at hcut
      exact (List.append_cancel_left hcut).symm
    obtain ⟨d', hrun, hd', htext', hJ'⟩ := ih (z := m ++ (w₂ ++ z)) hd₁ htext₁
      (fun c' hc' => by simpa using hsits c' (by simp [hc']))
      (fun c' hc' => hu ▸ hbefore c' hc') hsorted (hstep c cs d d₁ hd hc happly hJ)
    refine ⟨d', by rw [List.foldlM_cons, happly]; exact hrun, hd', ?_, hJ'⟩
    have hfirst : Text.dropAt (deletedBy (c :: cs)) 0 u = Text.dropAt (deletedBy cs) 0 u :=
      Text.dropAt_congr fun q _ hq => by
        have : c.deletes q = false := by
          rw [Bool.eq_false_iff, ne_eq, Cleaner.deletes_iff]
          omega
        simp [deletedBy, this]
    have hmiddle : Text.dropAt (deletedBy (c :: cs)) (Text.byteLength u) m = [] :=
      Text.dropAt_all fun q hq hlt => by
        rw [Text.byteLength_append] at hm
        have : c.deletes q = true := Cleaner.deletes_iff.2 (by omega)
        simp [deletedBy, this]
    have hlast : Text.dropAt (deletedBy (c :: cs)) (Text.byteLength (u ++ m)) w₂ = w₂ :=
      Text.dropAt_none fun q hq _ => by
        have hc : c.deletes q = false := by
          rw [Bool.eq_false_iff, ne_eq, Cleaner.deletes_iff]
          omega
        have hcs : cs.any (·.deletes q) = false := by
          rw [List.any_eq_false]
          intro c' hc'
          have := hbefore c' hc'
          have hpos := (hsits c (by simp)).target_start.2
          rw [Cleaner.deletes_iff]
          omega
        simp [deletedBy, hc, hcs]
    rw [htext', Text.dropAt_append, Text.dropAt_append, hfirst, Nat.zero_add, Nat.zero_add, hmiddle,
      hlast]
    simp

theorem deletedBy_congr {cs cs' : List Cleaner} (h : cs.Perm cs') : deletedBy cs = deletedBy cs' := by
  funext p
  exact h.any_eq

/-- Of cleaners whose stretches are disjoint each comes behind those whose stretches are behind it. -/
theorem pairwise_backwards {t : Text} {cs : List Cleaner} (hsits : ∀ c ∈ cs, c.Sits t)
    (hdisjoint : cs.Pairwise fun c c' =>
      c.stretch.stop ≤ c'.stretch.start ∨ c'.stretch.stop ≤ c.stretch.start) :
    (backwards cs).Pairwise fun c c' => c'.stretch.stop ≤ c.stretch.start := by
  have hperm : (backwards cs).Perm cs := List.mergeSort_perm _ _
  have hsorted : (backwards cs).Pairwise fun c c' =>
      decide (c'.target.start ≤ c.target.start) = true :=
    List.pairwise_mergeSort (by simp only [decide_eq_true_eq]; omega)
      (by simp only [Bool.or_eq_true, decide_eq_true_eq]; omega) cs
  have hapart := (hperm.pairwise_iff fun {_ _} h => h.symm).2 hdisjoint
  refine (hsorted.and hapart).imp_of_mem fun {c c'} hc hc' h => ?_
  obtain ⟨hkey, -⟩ := (hsits c (hperm.mem_iff.1 hc)).target_start
  obtain ⟨hkey', hpos'⟩ := (hsits c' (hperm.mem_iff.1 hc')).target_start
  obtain ⟨hle, hbefore | hbehind⟩ := h
  · -- a stretch that ends before another starts has the smaller key
    have := of_decide_eq_true hle
    omega
  · exact hbehind

/-- Removing marks, for cleaners whose stretches are disjoint, with what else each deletion keeps. -/
theorem sweep_rule {J : List Cleaner → Document → Prop}
    (hstep : ∀ c cs d d', d.WellFormed → c.Sits d.text → applyCleaner d c = .ok d' → J (c :: cs) d →
      J cs d')
    {d : Document} (hd : d.WellFormed) {cs : List Cleaner} (hsits : ∀ c ∈ cs, c.Sits d.text)
    (hdisjoint : cs.Pairwise fun c c' =>
      c.stretch.stop ≤ c'.stretch.start ∨ c'.stretch.stop ≤ c.stretch.start)
    (hJ : J (backwards cs) d.lock) :
    ∃ d', sweep d cs = .ok d'.unlock ∧ d'.WellFormed ∧
      d'.text = Text.dropAt (deletedBy cs) 0 d.text ∧ J [] d' := by
  have hperm : (backwards cs).Perm cs := List.mergeSort_perm _ _
  have hlock : d.lock.WellFormed := hd.sameParts (.lock _)
  have hsits' : ∀ c ∈ backwards cs, c.Sits (d.text ++ []) := fun c hc => by
    rw [List.append_nil]
    exact hsits c (hperm.mem_iff.1 hc)
  have hwhole : d.lock.text = d.text ++ [] := (List.append_nil d.text).symm
  obtain ⟨d', hrun, hd', htext, hJ'⟩ := foldlM_applyCleaner hstep hlock hwhole hsits'
    (fun c hc => by
      obtain ⟨u, m, v, hcut, -, hstop⟩ := (hsits c (hperm.mem_iff.1 hc)).exists_cut
      rw [hcut, ← hstop, Text.byteLength_append (u ++ m)]
      omega)
    (pairwise_backwards hsits hdisjoint) hJ
  refine ⟨d', ?_, hd', ?_, hJ'⟩
  · unfold sweep
    rw [hrun]
    rfl
  · rw [htext, deletedBy_congr hperm, List.append_nil]

/-- Removing marks, for cleaners whose stretches are disjoint. -/
theorem sweep_spec {d : Document} (hd : d.WellFormed) {cs : List Cleaner}
    (hsits : ∀ c ∈ cs, c.Sits d.text)
    (hdisjoint : cs.Pairwise fun c c' =>
      c.stretch.stop ≤ c'.stretch.start ∨ c'.stretch.stop ≤ c.stretch.start) :
    ∃ d', sweep d cs = .ok d' ∧ d'.WellFormed ∧ d'.text = Text.dropAt (deletedBy cs) 0 d.text := by
  obtain ⟨d', hsweep, hd', htext, -⟩ := sweep_rule (J := fun _ _ => True) (fun _ _ _ _ _ _ _ _ => trivial)
    hd hsits hdisjoint trivial
  exact ⟨d'.unlock, hsweep, ⟨hd'.names, hd'.bookmarks, hd'.fields, hd'.annotations, hd'.cursor⟩, htext⟩

end TemplateEngine
