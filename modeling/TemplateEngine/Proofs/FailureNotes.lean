import TemplateEngine.Proofs.Failures
import TemplateEngine.Proofs.Intact
import TemplateEngine.Proofs.Notes

/-!
# FailureNotes — the notes on commands that failed stay on their failure texts

Up to the removal of the marks every note covers a failure text, whatever the commands are: a failure text that
no span cuts moves with its note or goes with it (`keptByOperating_noted`).  Where the commands of a document and
those of each content are apart, no note lies on a mark of a command (`Annotated`), so removing the marks moves
each note with its failure text as well (`notesRead_executeTemplate`).  Where commands are nested, two commands
of the list can come to share a bookmark, and then marks are removed whose place a failure text took
(`notedTexts_nestedBefore`).
-/

namespace TemplateEngine

open Document

/-! ### Any documents -/

/-- Whether every note covers exactly a failure text. -/
def Document.NotesRead (d : Document) : Prop :=
  ∀ y ∈ d.annotations, d.text.slice? y.span.start y.span.stop = some failureText

/-- The contents that a run can load have no notes. -/
def Services.LoadsPlain (s : Services) : Prop := ∀ l content, s.load l = .ok content → content.annotations = []

namespace Document

variable {d content : Document}

theorem beside_nil (d : Document) (x : String) : d.Beside [] x := ⟨by simp, by simp⟩

theorem Noted.markDone (h : d.Noted []) (hd : d.WellFormed) (c : Command) (remove : Bool) :
    (c.markDone d remove).2.Noted [] := by
  unfold Command.markDone
  cases remove with
  | true =>
    simp only [if_true]
    split
    next h' => exact h.removed h'
    · exact h
  | false =>
    simp only [Bool.false_eq_true, if_false]
    split
    next h' => exact h.renamed hd h' (by simp)
    · exact h

theorem Noted.insertBetweenMarks (h : d.Noted []) (hd : d.WellFormed) (hcontent : content.WellFormed)
    (hplain : content.annotations = []) (c : Command) :
    Ends (fun _ => False) (c.insertBetweenMarks d content) fun p => p.2.1.Noted [] := by
  by_cases hmem : c.bookmark ∈ d.names
  · obtain ⟨s, hs⟩ := Option.isSome_iff_exists.1 (isSome_span?_iff.2 hmem)
    obtain ⟨a, m, z, htext, rfl, hinsert⟩ := insertBetweenMarks_eq hd hs content
    rw [hinsert]
    exact (h.withContent hd (beside_nil d _) hcontent hplain htext hs (by simp)).mono (List.nil_subset _)
  · rw [Command.insertBetweenMarks_of_notMem hmem]
    exact h

end Document

/-- Whatever the commands are, no operation but the removal of marks cuts a failure text with a note. -/
theorem keptByOperating_noted :
    KeptByOperating (fun content => content.WellFormed ∧ content.annotations = [])
      fun d => d.WellFormed ∧ d.Noted [] where
  wellFormed := And.left
  sameParts h hsame := ⟨h.1.sameParts hsame, h.2.sameParts hsame⟩
  setCursor h hfits := ⟨Run.wellFormed_setCursor h.1 hfits, h.2.setCursor _⟩
  setText h c t :=
    ((keptByOperating_wellFormed.setText h.1 c t).and (h.2.setBookmarkText h.1 (beside_nil _ _) t)).mono
      fun _ ha d' hd' => ⟨ha.1 d' hd', ha.2 d' hd'⟩
  markFailure h _ reason :=
    (safe_markFailure h.1 _ reason).and (h.2.markFailure h.1 (beside_nil _ _) reason)
  markDone h c remove := ⟨Command.wellFormed_markDone h.1 remove, h.2.markDone h.1 c remove⟩
  insertBetweenMarks h hcontent c :=
    (safe_insertBetweenMarks h.1 hcontent.1 c).and (h.2.insertBetweenMarks h.1 hcontent.1 hcontent.2 c)
  replacePlaceholder h id t :=
    ((keptByOperating_wellFormed.replacePlaceholder h.1 id t).and
      (h.2.replacePlaceholder h.1 (fun _ hn => by cases hn) id t)).mono
        fun _ ha d' hd' => ⟨ha.1 d' hd', ha.2 d' hd'⟩
  refreshElement h e :=
    ((keptByOperating_wellFormed.refreshElement h.1 e).and
      (h.2.refreshElement h.1 (fun _ hn => by cases hn) e)).mono
        fun _ ho d' hd' => ⟨ho.1 d' hd', ho.2 d' hd'⟩

/-! ### One command of a list -/

theorem markedNames_cons_congr {c c' : Command} (hb : c'.bookmark = c.bookmark) (hm : c'.marked = c.marked)
    (cs : List Command) : markedNames (c' :: cs) = markedNames (c :: cs) := by
  rw [markedNames_cons, markedNames_cons, hb, hm]

/-- Filling in the placeholders of a content. -/
theorem keptByFilling_noted {kept : List Text} {marked names : List String} {ids : List Nat}
    (hmarked : marked ⊆ names) :
    KeptByFilling ids fun d => (d.Layout kept marked ids ∧ d.FillsBeside names ids) ∧ d.Noted marked where
  wellFormed h := h.1.1.consistent.toWellFormed
  setCursor h hfits := ⟨(keptByFilling_layout hmarked).setCursor h.1 hfits, h.2.setCursor _⟩
  replacePlaceholder h hid t ht :=
    (((keptByFilling_layout hmarked).replacePlaceholder h.1 hid t ht).and
      (h.2.replacePlaceholder h.1.1.consistent.toWellFormed h.1.1.fieldsClear _ t)).mono fun _ ha d' hd' =>
        ⟨ha.1 d' hd', ha.2 d' hd'⟩

section Annotated

variable {kept : List Text} {expanding : Prop} {s : Services} {c c' : Command}
  {cs cs' : List Command} {d d' : Document} {r : Run}

/-- The commands of a list in a document whose notes lie on failure texts and on no marks. -/
structure Annotated (kept : List Text) (expanding : Prop) (cs : List Command) (d : Document) : Prop where
  tracked : Tracked kept expanding cs d
  noted : d.Noted (markedNames cs)

namespace Annotated

theorem wellFormed (h : Annotated kept expanding cs d) : d.WellFormed :=
  h.tracked.layout.consistent.toWellFormed

theorem perm (h : Annotated kept expanding cs d) (hp : cs.Perm cs') : Annotated kept expanding cs' d where
  tracked := h.tracked.perm hp
  noted := h.noted.mono fun n hn => by
    obtain ⟨c, hc, hm⟩ := mem_markedNames.1 hn
    exact mem_markedNames.2 ⟨c, hp.mem_iff.2 hc, hm⟩

/-- The document changes in its flags, styles or metadata only. -/
theorem sameParts (h : Annotated kept expanding cs d) (hsame : SameParts d d') :
    Annotated kept expanding cs d' :=
  ⟨h.tracked.sameParts hsame, h.noted.sameParts hsame⟩

/-- What is noted about a command may change, but not its bookmark, its kind and its marks. -/
theorem withCommand (h : Annotated kept expanding (c :: cs) d) (hb : c'.bookmark = c.bookmark)
    (hk : c'.kind = c.kind) (hm : c'.marked = c.marked) (hnamed : c'.IsNamed) :
    Annotated kept expanding (c' :: cs) d where
  tracked := h.tracked.withCommand hb hk hm hnamed
  noted := markedNames_cons_congr hb hm cs ▸ h.noted

theorem notMem_markedNames (h : Annotated kept expanding (c :: cs) d) (hm : c.marked = false) :
    c.bookmark ∉ markedNames (c :: cs) := by
  rw [Tracked.markedNames_eq hm]
  exact h.tracked.notMem_markedNames

theorem beside (h : Annotated kept expanding (c :: cs) d) (hm : c.marked = false) :
    d.Beside (markedNames (c :: cs)) c.bookmark :=
  h.tracked.layout.beside (h.tracked.named c (by simp)).isCommandName (h.notMem_markedNames hm)

/-- The text of a command without marks is replaced. -/
theorem setText (h : Annotated kept expanding (c :: cs) d) (hm : c.marked = false) (t : Text) :
    Ends (fun _ => False) (c.setText d t) fun attempt => ∀ d', attempt = .ok d' →
      Annotated kept expanding (c :: cs) d' :=
  ((h.tracked.setText hm t).and (h.noted.setBookmarkText h.wellFormed (h.beside hm) t)).mono
    fun _ hp d' hd' => ⟨hp.1 d' hd', hp.2 d' hd'⟩

theorem fail (h : Annotated kept expanding (c :: cs) r.document) (hm : c.marked = false) (reason : String) :
    Ends (fun _ => False) (r.fail c reason) fun p => Annotated kept expanding (p.1 :: cs) p.2.document := by
  have hlist : markedNames (c.setFailed true :: cs) = markedNames (c :: cs) := by
    apply markedNames_cons_congr <;> rfl
  have hnoted : Ends (fun _ => False) (r.fail c reason) fun p =>
      p.2.document.Noted (markedNames (p.1 :: cs)) := by
    refine Ends.andThen (h.noted.markFailure h.wellFormed (h.beside hm) reason) fun d' hd' => ?_
    show d'.Noted (markedNames (c.setFailed true :: cs))
    rwa [hlist]
  exact ((h.tracked.fail hm reason).and hnoted).mono fun _ hp => ⟨hp.1, hp.2⟩

/-- The bookmark of the first command goes. -/
theorem removed (h : Annotated kept expanding (c :: cs) d) (hk : c.kind.isInsertion = false)
    (hremove : d.removeBookmark c.bookmark = .ok d') : Annotated kept expanding (c :: cs) d' :=
  ⟨h.tracked.removed hk hremove, h.noted.removed hremove⟩

/-- The bookmark of the first command gets a name that tells the command's state. -/
theorem renamed {unique : String} (h : Annotated kept expanding (c :: cs) d) (hdone : c.done = true)
    (hk : c.kind.isInsertion = true → expanding)
    (hrename : d.renameBookmark c.bookmark (toString c.recordState.config) = .ok (d', unique)) :
    Annotated kept expanding ({ c.recordState with bookmark := unique } :: cs) d' where
  tracked := h.tracked.renamed hdone hk hrename
  noted := h.noted.renamed h.wellFormed hrename fun _ hn =>
    (h.tracked.mem_markedNames_renamed hdone hk hrename hn).1

/-- The first command is done.  A command that inserts keeps its bookmark. -/
theorem markDone (h : Annotated kept expanding (c :: cs) d) (remove : Bool)
    (hremove : remove = true → c.kind.isInsertion = false) (hk : c.kind.isInsertion = true → expanding) :
    Annotated kept expanding ((c.markDone d remove).1 :: cs) (c.markDone d remove).2 := by
  have hdone : Annotated kept expanding ({ c with done := true } :: cs) d :=
    h.withCommand rfl rfl rfl ((h.tracked.named c (by simp)).of_eq rfl rfl rfl)
  unfold Command.markDone
  cases remove with
  | true =>
    simp only [if_true]
    split
    next d' hd' => exact hdone.removed (hremove rfl) hd'
    · exact hdone
  | false =>
    simp only [Bool.false_eq_true, if_false]
    split
    next d' unique hd' =>
      rw [Command.bookmark_recordState] at hd'
      exact hdone.renamed rfl hk hd'
    · exact hdone.withCommand (Command.bookmark_recordState _) (Command.kind_recordState _)
        (Command.marked_recordState _) (hdone.tracked.named _ (by simp)).recordState

/-- A command that inserts nothing is done. -/
theorem finish (h : Annotated kept expanding (c :: cs) r.document) (hk : c.kind.isInsertion = false)
    (remove : Bool) :
    Annotated kept expanding ((r.finish c remove).1 :: cs) (r.finish c remove).2.document :=
  h.markDone remove (fun _ => hk) fun hk' => by
    rw [hk] at hk'
    cases hk'

/-- A command that inserts is done and keeps its bookmark. -/
theorem finishInsertion (h : Annotated kept True (c :: cs) r.document) :
    Annotated kept True ((r.finish c false).1 :: cs) (r.finish c false).2.document :=
  h.markDone false (fun h => by cases h) fun _ => trivial

/-! ### Contents -/

/-- A content without notes is put between marks in the place of a command. -/
theorem insertBetweenMarks {content : Document} (h : Annotated kept True (c :: cs) d)
    (hk : c.kind.isInsertion = true) (hm : c.marked = false) (hcontent : content.WellFormed)
    (hapart : content.CommandsApart) (hplain : content.annotations = []) :
    ∃ d', c.insertBetweenMarks d content = .ok ({ c with marked := true }, d', none) ∧
      Annotated kept True ({ c with marked := true } :: cs) d' ∧
      Tracked.Fillable kept ({ c with marked := true } :: cs) { c with marked := true } d' := by
  obtain ⟨a, m, z, htext, hspan, hinsert, -, -, -⟩ := h.tracked.exists_withContent hk hm hcontent hapart
  obtain ⟨d', hinsert', htracked, hfill⟩ := h.tracked.insertBetweenMarks hk hm hcontent hapart
  obtain rfl : d.withContent a m z c.bookmark content = d' := by
    rw [hinsert] at hinsert'
    simpa using hinsert'
  refine ⟨_, hinsert, ⟨htracked, ?_⟩, hfill⟩
  have hlist : markedNames ({ c with marked := true } :: cs) = c.bookmark :: markedNames (c :: cs) := by
    rw [markedNames_cons, Tracked.markedNames_eq hm]
    rfl
  rw [hlist]
  refine h.noted.withContent h.wellFormed (h.beside hm) hcontent hplain htext hspan fun n hn => ?_
  obtain ⟨-, -, -, hkept⟩ := h.tracked.layout.withText (h.tracked.named c (by simp)).isCommandName
    (h.notMem_markedNames hm) htext hspan content.text
  obtain ⟨x, hx, hxk, rfl⟩ := mem_inserterNames.1 (h.tracked.markedNames_subset hn)
  exact hkept _ (h.tracked.named x hx).isCommandName (h.tracked.found trivial x hx hxk)

/-- Filling in the placeholders of a content. -/
theorem fillPlaceholders (h : Annotated kept True (c :: cs) r.document)
    (hfill : Tracked.Fillable kept (c :: cs) c r.document) (policy : Policy) (jumpMark : Option String)
    (arguments : List String) :
    Ends (fun _ => False) (fillPlaceholders policy jumpMark c arguments r) fun r' =>
      Annotated kept True (c :: cs) r'.document := by
  cases hrange : c.range? r.document with
  | none =>
    unfold TemplateEngine.fillPlaceholders
    rw [hrange]
    exact h
  | some range =>
    obtain ⟨b, hb, rfl⟩ := Option.map_eq_some_iff.1 hrange
    have hspan : r.document.span? c.bookmark = some b.span := by rw [span?, hb]; rfl
    have hnoted : Ends (fun _ => False) (TemplateEngine.fillPlaceholders policy jumpMark c arguments r) fun r' =>
        (r'.document.Layout kept (markedNames (c :: cs)) (r.document.placeholdersWithin b.span) ∧
          r'.document.FillsBeside (inserterNames (c :: cs)) (r.document.placeholdersWithin b.span)) ∧
        r'.document.Noted (markedNames (c :: cs)) := by
      refine KeptByFilling.fillPlaceholders (I := fun d => (d.Layout _ _ _ ∧ d.FillsBeside _ _) ∧ d.Noted _)
        ⟨hfill b.span hspan, h.noted⟩ (fun range' hrange' => ?_) policy jumpMark arguments
      obtain rfl := Option.some.inj (hrange.symm.trans hrange')
      exact keptByFilling_noted h.tracked.markedNames_subset
    exact ((h.tracked.fillPlaceholders hfill policy jumpMark arguments).and hnoted).mono
      fun _ hp => ⟨hp.1, hp.2.2⟩

theorem refresh (h : Annotated kept True cs d) : Annotated kept True (Command.refresh d cs).1 d where
  tracked := h.tracked.refresh
  noted := h.noted.mono fun n hn => by
    obtain ⟨c, hc, hm, rfl⟩ := mem_markedNames.1 hn
    rcases Command.mem_refresh_iff.1 hc with ⟨hc, -⟩ | ⟨n, -, -, hn⟩
    · exact mem_markedNames.2 ⟨c, hc, hm, rfl⟩
    · rw [Command.marked_of_ofBookmark? hn] at hm
      cases hm

end Annotated

/-! ### Runs -/

/-- A run keeps the notes on failure texts and off the marks. -/
theorem keptByRunning_annotated (hs : s.LoadsApart) (hplain : s.LoadsPlain) :
    KeptByRunning s (kept ≠ [[], []]) (Annotated kept) where
  perm := Annotated.perm
  leave h := ⟨h.tracked.weaken fun _ => trivial, h.noted⟩
  named h := h.tracked.named
  wellFormed := Annotated.wellFormed
  unmarked h := h.tracked.unmarked
  sameParts := Annotated.sameParts
  setFailed {_ c _ _} h := h.withCommand rfl rfl rfl ((h.tracked.named c (by simp)).of_eq rfl rfl rfl)
  setText := Annotated.setText
  fail := Annotated.fail
  finish := Annotated.finish
  finishInsertion := Annotated.finishInsertion
  insert := by
    intro c cs d l content h hk hm hload
    obtain ⟨d', hinsert, hd', hfill⟩ := h.insertBetweenMarks hk hm (hs l content hload).1
      (hs l content hload).2 (hplain l content hload)
    rw [hinsert]
    refine ⟨hd', .inl rfl, ?_⟩
    rintro r jumpMark arguments rfl
    exact hd'.fillPlaceholders hfill _ _ _
  refresh := Annotated.refresh
  refreshElement h e :=
    ((h.tracked.refreshElement e).and (h.noted.refreshElement h.wellFormed h.tracked.layout.fieldsClear e)).mono
      fun _ ho d' hd' => ⟨ho.1 d' hd', ho.2 d' hd'⟩

end Annotated

/-! ### Removing the marks -/

/-- A failure text lies apart from what is deleted for a mark that is no part of it. -/
theorem Cleaner.Sits.apart {t : Text} {c : Cleaner} (h : c.Sits t) {x : Span}
    (hreads : t.slice? x.start x.stop = some failureText)
    (hmark : c.stretch.start < x.start ∨ x.stop ≤ c.stretch.start) : c.stretch.Apart x := by
  refine hmark.imp_left fun hbefore => ?_
  obtain ⟨hle, hbreak⟩ := h.stop_le
  by_contra hover
  -- the second byte of a stretch is a line break, with which no failure text begins
  obtain ⟨u, v, rfl, hstart, -⟩ := Text.slice?_eq_some_iff.1 hreads
  have hchar := hbreak (by omega)
  have hfirst : c.stretch.start + 1 = Text.byteLength u := by omega
  have hhead : (failureText ++ v).head? = some '<' := rfl
  rw [hfirst, List.append_assoc, Text.charAt?_append, hhead] at hchar
  exact absurd hchar (by decide)

theorem annotations_restoreBookmark (place : TextRange) (d : Document) (name : String) :
    (restoreBookmark place d name).annotations = d.annotations := by
  unfold restoreBookmark
  split
  · rfl
  · split
    next h =>
      have hadd := addBookmark_of_insertBookmark h
      rw [addBookmark, Prod.mk.injEq] at hadd
      rw [← hadd.1]
    · rfl

/-- A deletion leaves of the notes what re-anchoring leaves. -/
theorem annotations_applyCleaner {d d' : Document} {c : Cleaner} (hc : c.Sits d.text)
    (h : applyCleaner d c = .ok d') :
    ∃ u m v, d.text = u ++ m ++ v ∧ u.stretch m = c.stretch ∧ d'.text = u ++ [] ++ v ∧
      d'.annotations = (d.deleted u m v).annotations := by
  generalize htext : d.text = t at hc
  cases hc with
  | @range u v x ht hx =>
    have hcut : d.text = u ++ [x] ++ v := by simp [htext, ht]
    have hstop : Text.byteLength (u ++ [x]) = Text.byteLength u + 1 := by simp [hx]
    have hclear := clearRange_eq hcut
    rw [hstop] at hclear
    unfold applyCleaner at h
    simp only [hclear] at h
    obtain rfl := Except.ok.inj h
    let I : Document → Prop := fun d' =>
      d'.text = u ++ [] ++ v ∧ d'.annotations = (d.deleted u [x] v).annotations
    refine ⟨u, [x], v, htext ▸ hcut, by rw [Text.stretch, hstop]; rfl, ?_⟩
    refine foldl_invariant (I := I) (fun d' name hd' => ?_) _ ⟨rfl, rfl⟩
    refine ⟨(text_restoreBookmark _ d' name).trans hd'.1, ?_⟩
    exact (annotations_restoreBookmark _ d' name).trans hd'.2
  | @paragraph u v x ht hx hne hstart =>
    have hcut : d.text = u ++ [x, '\n'] ++ v := by simp [htext, ht]
    have hdelete := deleteParagraph_eq (htext.trans ht) hx hne hstart
    unfold applyCleaner at h
    simp only [hdelete] at h
    obtain rfl := Except.ok.inj h
    refine ⟨u, [x, '\n'], v, htext ▸ hcut, ?_, rfl, rfl⟩
    simp [Cleaner.stretch, TextRange.ofSpan, Span.point, Text.stretch, hx, Cleaner.utf8Size_newline]

/-- Deletions apart from all notes, made from the end backwards, move each note with its failure text. -/
theorem notesRead_sweep {d : Document} (hd : d.WellFormed) (hreads : d.NotesRead) {cs : List Cleaner}
    (hsits : ∀ c ∈ cs, c.Sits d.text)
    (hdisjoint : cs.Pairwise fun c c' =>
      c.stretch.stop ≤ c'.stretch.start ∨ c'.stretch.stop ≤ c.stretch.start)
    (hapart : ∀ c ∈ cs, ∀ y ∈ d.annotations, c.stretch.Apart y.span) :
    ∃ d', sweep d cs = .ok d' ∧ d'.NotesRead := by
  let J : List Cleaner → Document → Prop := fun cs d =>
    d.NotesRead ∧ (∀ c ∈ cs, ∀ y ∈ d.annotations, c.stretch.Apart y.span) ∧
      cs.Pairwise fun c c' => c'.stretch.stop ≤ c.stretch.start
  have hstep : ∀ c cs d d', d.WellFormed → c.Sits d.text → applyCleaner d c = .ok d' → J (c :: cs) d →
      J cs d' := by
    rintro c cs d d' hd hc happly ⟨hreads, hapart, hsorted⟩
    obtain ⟨u, m, v, htext, hstretch, htext', hannotations⟩ := annotations_applyCleaner hc happly
    obtain ⟨hbefore, hsorted⟩ := List.pairwise_cons.1 hsorted
    have hfrom : ∀ y' ∈ d'.annotations, ∃ y ∈ d.annotations, c.stretch.Apart y.span ∧
        y.span.reanchor (u.stretch m) (Text.byteLength []) = some y'.span := fun y' hy' => by
      rw [hannotations] at hy'
      obtain ⟨y, hy, hfollow⟩ := exists_of_mem_annotations_edited hd htext hy'
      exact ⟨y, hy, hapart c (by simp) y hy, hfollow⟩
    refine ⟨fun y' hy' => ?_, fun c' hc' y' hy' => ?_, hsorted⟩
    · obtain ⟨y, hy, hbeside, hfollow⟩ := hfrom y' hy'
      rw [htext', Span.slice?_of_apart (htext ▸ hd.annotations y hy) hfollow (hstretch ▸ hbeside), ← htext]
      exact hreads y hy
    · -- what is deleted later lies in front of this deletion
      obtain ⟨y, hy, hbeside, hfollow⟩ := hfrom y' hy'
      have hyle := (Span.le_of_fits (hd.annotations y hy)).1
      have hlast := hbefore c' hc'
      have hapart' := hapart c' (by simp [hc']) y hy
      have he := Text.stretch_le u m
      rw [hstretch] at hfollow he
      rcases hbeside with hbehind | hfront
      · have hmoved := Span.reanchor_of_ge hyle he hbehind hfollow
        unfold Span.Apart at hapart' ⊢
        rcases hmoved with ⟨heq, -, -⟩ | ⟨hstart, -⟩
        · rwa [heq]
        · omega
      · rwa [Span.eq_of_reanchor_of_le hfront hfollow]
  have hperm : (backwards cs).Perm cs := List.mergeSort_perm _ _
  obtain ⟨d', hsweep, -, -, hreads', -⟩ := sweep_rule hstep hd hsits hdisjoint
    ⟨hreads, fun c hc => hapart c (hperm.mem_iff.1 hc), pairwise_backwards hsits hdisjoint⟩
  exact ⟨d'.unlock, hsweep, hreads'⟩

theorem annotations_collect (policy : Policy) (cs : List Command) (d : Document) :
    Ends (fun _ => True) (collect policy cs d) fun p => p.2.1.annotations = d.annotations := by
  refine Ends.visit (I := fun _ _ (s : Document × List Cleaner) => s.1.annotations = d.annotations) rfl
    fun _ c _ s hs => ?_
  unfold collectFrom
  split
  · exact hs
  next removable _ =>
    have hdone := (c.unmark.differInBookmarks_markDone s.1 (!policy.debug)).annotations.trans hs
    split
    next c' d' heq =>
      rw [heq] at hdone
      dsimp only
      split
      next range _ _ => exact Ends.bind (Ends.of_forall fun _ _ => hdone)
      · exact hdone

/-- Whether no mark of a command is a part of a text with a note. -/
def MarksOffNotes (d : Document) (cs : List Command) : Prop :=
  ∀ c ∈ cs, ∀ q ∈ c.markBytes d, ∀ y ∈ d.annotations, q < y.span.start ∨ y.span.stop ≤ q

/-- Removing marks that are no parts of failure texts. -/
theorem notesRead_collectGarbage {policy : Policy} (hdebug : policy.debug = false) {cs : List Command}
    {d : Document} (hd : d.WellFormed) (hmarks : MarksHeld d cs) (hoff : MarksOffNotes d cs)
    (hreads : d.NotesRead) :
    Ends Fault.IsSplit (collectGarbage policy cs d) fun p => p.2.NotesRead := by
  refine Ends.andThen ((hmarks.collect hdebug hd).and
    (annotations_collect policy cs d)) ?_
  rintro ⟨cs', d₁, found⟩ ⟨⟨hd₁, ht₁, hfound⟩, hannotations⟩
  have hsits : ∀ c ∈ found, c.Sits d₁.text := hfound.sits ht₁
  have hreads₁ : d₁.NotesRead := by
    unfold NotesRead
    rwa [hannotations, ht₁]
  obtain ⟨d', hsweep, hreads'⟩ := notesRead_sweep hd₁ hreads₁ hsits (hfound.pairwise hmarks.apart)
    fun c hc y hy => by
      have hstart : c.stretch.start ∈ cs.flatMap (·.markBytes d) :=
        hfound.starts ▸ List.mem_map_of_mem hc
      obtain ⟨c', hc', hq⟩ := List.mem_flatMap.1 hstart
      exact (hsits c hc).apart (hreads₁ y hy) (hoff c' hc' _ hq y (hannotations ▸ hy))
  simp only [hsweep]
  exact hreads'

/-! ### Executing a template -/

/-- The marks of commands whose notes avoid them are no parts of failure texts. -/
theorem Annotated.marksOffNotes {kept : List Text} {expanding : Prop} {cs : List Command} {d : Document}
    (h : Annotated kept expanding cs d) : MarksOffNotes d cs := by
  intro c hc q hq y hy
  obtain ⟨r, hr, hcases⟩ := mem_markBytes.1 hq
  have hroom := (h.tracked.isEnclosed hc hr).room
  obtain ⟨-, hm, span, hspan, rfl⟩ := exists_of_enclosed? hr
  have havoids := h.noted.marks y hy c.bookmark (mem_markedNames.2 ⟨c, hc, hm, rfl⟩) span hspan
  unfold Span.Avoids Span.Apart Span.Between at havoids
  dsimp only [TextRange.ofSpan] at hcases hroom
  omega

/-- Whether, when the marks are removed, each command has its own ones where they were put, and none of them
is a part of a failure text with a note. -/
def Model.KeepsMarks (m : Model) (s : Services) : Prop :=
  Ends (fun _ => True) (m.runUntilCleanup s) fun p =>
    MarksHeld p.2.2.document p.2.1 ∧ MarksOffNotes p.2.2.document p.2.1

section Executing

variable {s : Services} {d : Document}

/-- So it is where commands are apart. -/
theorem keepsMarks_of_commandsApart (hs : s.LoadsApart) (hplain : s.LoadsPlain) (hd : d.Consistent)
    (hapart : d.CommandsApart) (hnone : d.annotations = []) (locations : List String) (mustProcess : Bool) :
    (Model.fresh d locations mustProcess).KeepsMarks s := by
  obtain ⟨htracked, hidle⟩ := expanding_fresh hd hapart locations mustProcess
  have hstart : Annotated [[], []] True (Model.fresh d locations mustProcess).commands
      (Model.fresh d locations mustProcess).document := ⟨htracked, .of_annotations_eq_nil hnone⟩
  have hrun := (keptByRunning_annotated hs hplain).runUntilCleanup hstart hidle
  exact (hrun.allow fun _ => False.elim).mono fun p hp => ⟨hp.tracked.marksHeld, hp.marksOffNotes⟩

/-- **Notes stay on failure texts.**  Where neither the document nor the contents bring notes, every note covers
exactly a failure text until the marks are removed, whatever the commands are.  So it is in the end too if
each command has its own marks by then, as it has where the commands of the document and those of each
content are apart. -/
theorem notesRead_executeTemplate (hs : s.LoadsWellFormed) (hplain : s.LoadsPlain)
    (hdebug : s.policy.debug = false) (hd : d.Consistent) (hnone : d.annotations = [])
    (locations : List String) (mustProcess : Bool) :
    (Ends (fun _ => False) ((Model.fresh d locations mustProcess).runUntilCleanup s) fun p =>
      p.2.2.document.NotesRead) ∧
    ((Model.fresh d locations mustProcess).KeepsMarks s →
      Ends Fault.IsSplit ((Model.fresh d locations mustProcess).executeTemplate s) fun o =>
        o.model.document.NotesRead) ∧
    (s.LoadsApart → d.CommandsApart → (Model.fresh d locations mustProcess).KeepsMarks s) := by
  have hrun := keptByOperating_noted.runUntilCleanup (s := s) (m := Model.fresh d locations mustProcess)
    (fun l content hl => ⟨hs l content hl, hplain l content hl⟩)
    ⟨hd.toWellFormed, .of_annotations_eq_nil hnone⟩
  refine ⟨hrun.mono fun p hp => hp.2.reads, fun hkeeps => ?_, fun hsapart hapart =>
    keepsMarks_of_commandsApart hsapart hplain hd hapart hnone locations mustProcess⟩
  obtain ⟨p, hp, hwell, hnoted⟩ := hrun.exists_ok
  obtain ⟨hmarks, hoff⟩ := hkeeps.of_eq_ok hp
  rw [executeTemplate_eq, hp]
  show Ends _ ((Model.fresh d locations mustProcess).cleanUp s p) _
  exact Ends.andThen (notesRead_collectGarbage hdebug hwell hmarks hoff hnoted.reads) fun q hq => hq

end Executing

/-! ### What notes cover -/

/-- The texts that the notes cover when a template is executed, or the fault. -/
def notedTexts (s : Services) (d : Document) : Except Fault (List (Option String)) :=
  ((Model.fresh d [] false).executeTemplate s).map fun o =>
    o.model.document.annotations.map fun y =>
      (o.model.document.text.slice? y.span.start y.span.stop).map String.ofList

/-- Surroundings whose fragments all have a place in a paragraph of its own for a fragment `missing`. -/
def lacking : Services where
  locations := fun id => if id = "missing" then [] else [id]
  load := fun _ => .ok { Document.ofText "\n?\n".toList with
    bookmarks := [⟨"DOC(CMD 'insertFrag' FRAG_ID 'missing')", ⟨1, 2⟩⟩] }
  value := fun column => .ok column
  transform := fun name _ => .error (.unknown name)
  policy := ⟨true, false⟩

/-- A document with places for a fragment and for a value. -/
def twoPlaces : Document :=
  { Document.ofText "a?b?".toList with
    bookmarks := [⟨"DOC(CMD 'insertFrag' FRAG_ID 'f')", ⟨1, 2⟩⟩,
      ⟨"DOC(CMD 'insertValue' DB_SPALTE 'x')", ⟨3, 4⟩⟩] }

/-- The marks of the fragment are removed around a failure text. -/
theorem notesRead_executeTemplate_lacking :
    lacking.LoadsWellFormed ∧ lacking.LoadsPlain ∧ lacking.policy.debug = false ∧ twoPlaces.Consistent ∧
      twoPlaces.annotations = [] ∧ notedTexts lacking twoPlaces = .ok [some "<ERROR:  >"] ∧
      Ends Fault.IsSplit ((Model.fresh twoPlaces [] false).executeTemplate lacking) fun o =>
        o.model.document.NotesRead := by
  have hwell : lacking.LoadsWellFormed := fun l content h => by
    obtain rfl := Except.ok.inj h
    exact ⟨by decide, by decide, by decide, by decide, by decide⟩
  have hplain : lacking.LoadsPlain := fun l content h => by
    obtain rfl := Except.ok.inj h
    rfl
  have happart : lacking.LoadsApart := fun l content h => ⟨hwell l content h, by
    obtain rfl := Except.ok.inj h
    exact List.pairwise_singleton _ _⟩
  have hd : twoPlaces.Consistent :=
    ⟨⟨by decide, by decide, by decide, by decide, by decide⟩, by decide, by decide⟩
  have hapart : twoPlaces.CommandsApart :=
    List.pairwise_pair.2 fun _ _ => .inl (by decide)
  obtain ⟨-, hend, hkeeps⟩ := notesRead_executeTemplate hwell hplain rfl hd rfl [] false
  exact ⟨hwell, hplain, rfl, hd, rfl, by cbv, hend (hkeeps happart hapart)⟩

/-- As `renewing`, but `owner` asks for a fragment that is not there. -/
def renewingWithout : Services where
  locations := fun id => if id = "missing" then [] else [id]
  load := fun l =>
    if l = "parent" then .ok { Document.ofText "??".toList with
      bookmarks := [⟨"DOC(CMD 'insertFrag' FRAG_ID 'owner')", ⟨0, 2⟩⟩,
        ⟨"DOC(CMD 'insertFrag' FRAG_ID 'child')", ⟨0, 1⟩⟩] }
    else if l = "owner" then .ok { Document.ofText "!?".toList with
      bookmarks := [⟨"DOC(CMD 'insertFrag' FRAG_ID 'child' STATE(DONE 'true'))", ⟨0, 2⟩⟩,
        ⟨"DOC(CMD 'insertFrag' FRAG_ID 'missing')", ⟨0, 1⟩⟩] }
    else .ok (Document.ofText ['C'])
  value := fun column => .ok column
  transform := fun name _ => .error (.unknown name)
  policy := ⟨true, false⟩

/-- Two commands that are nested come to share a bookmark, and what is removed for the first of them is the
`<` of a failure text. -/
theorem notedTexts_nestedBefore :
    notedTexts renewingWithout (nestedBefore "tail".toList) = .ok [some "ERROR:  >"] := by
  cbv

end TemplateEngine
