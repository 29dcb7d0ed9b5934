import TemplateEngine.Proofs.Marks
import TemplateEngine.Proofs.SafeExpansion
import TemplateEngine.Proofs.Settled

/-!
# Faults — where processing can go wrong

Removing marks from a well-formed document leaves a well-formed one or faults, whatever the marks are
(`wellFormed_collectGarbage`), and of the phases of processing only executing a template can fault
(`wellFormed_process_of`).  Where commands share a bookmark, removing marks does fault.
-/

namespace TemplateEngine

/-! ### Removing marks, whatever they are -/

/-- An edit of a stretch of the text that does not fault is between characters. -/
theorem fits_of_edit_eq_ok {d d' : Document} {span : Span} {new : Text} {owner : Option Owner}
    (hle : span.start ≤ span.stop) (hlen : span.stop ≤ d.length)
    (h : d.edit span new owner = .ok d') : span.fits d.text = true := by
  unfold Document.edit at h
  split at h
  · cases h
  next t hreplace =>
    unfold Text.replace? at hreplace
    obtain ⟨before, hbefore, hreplace⟩ := Option.bind_eq_some_iff.1 hreplace
    obtain ⟨after, hafter, -⟩ := Option.bind_eq_some_iff.1 hreplace
    have hstart : d.text.isBoundary span.start = true := by
      unfold Text.before? at hbefore
      split at hbefore
      next hbehind =>
        have : d.text.byteLength < span.start := hbehind.2
        unfold Document.length at hlen
        omega
      next =>
        obtain ⟨p, hp, -⟩ := Option.map_eq_some_iff.1 hbefore
        exact Option.isSome_iff_exists.2 ⟨p, hp⟩
    have hstop : d.text.isBoundary span.stop = true := by
      unfold Text.after? at hafter
      split at hafter
      next hend =>
        rw [Nat.le_antisymm hlen hend]
        exact Text.isBoundary_byteLength _
      next =>
        obtain ⟨p, hp, -⟩ := Option.map_eq_some_iff.1 hafter
        exact Option.isSome_iff_exists.2 ⟨p, hp⟩
    simp only [Span.fits, hle, hstart, hstop, decide_true, Bool.and_self]

theorem wellFormed_edit_of_le {d : Document} (hd : d.WellFormed) {span : Span}
    (hle : span.start ≤ span.stop) (hlen : span.stop ≤ d.length) (new : Text) (owner : Option Owner) :
    Ends (fun _ => True) (d.edit span new owner) Document.WellFormed :=
  Ends.of_forall fun _ h =>
    (Document.wellFormed_edit hd (fits_of_edit_eq_ok hle hlen h) new owner).of_eq_ok h

theorem of_check_eq_ok {d : Document} {r : TextRange} (h : d.check r = .ok ()) :
    r = .ofSpan r.toSpan ∧ r.start ≤ r.stop ∧ r.stop ≤ d.length := by
  unfold Document.check at h
  split at h
  next hcovers =>
    simp only [Document.covers, Bool.and_eq_true, beq_iff_eq, decide_eq_true_eq] at hcovers
    refine ⟨?_, hcovers.1.2, hcovers.2⟩
    rw [TextRange.ofSpan, ← hcovers.1.1]
  · cases h

theorem wellFormed_clearRange {d : Document} (hd : d.WellFormed) (r : TextRange) :
    Ends (fun _ => True) (clearRange d r) Document.StaysWellFormed := by
  cases hcheck : d.check r with
  | error e =>
    unfold clearRange Document.insertBookmark
    rw [hcheck]
    trivial
  | ok =>
    obtain ⟨hr, hle, hlen⟩ := of_check_eq_ok hcheck
    cases hfits : r.toSpan.fits d.text with
    | true =>
      obtain ⟨u, m, v, htext, hu, hm⟩ := Span.fits_iff.1 hfits
      obtain ⟨d', hclear, hd', -⟩ := clearRange_spec hd htext
      have hrange : r = .ofSpan ⟨Text.byteLength u, Text.byteLength (u ++ m)⟩ := by
        rw [hu, hm]
        exact hr
      rw [hrange, hclear]
      exact hd'
    | false =>
      -- the text cannot be cut there
      have hkiller := Document.bookmark?_addBookmark d killerName r.toSpan
      unfold clearRange Document.insertBookmark
      rw [hcheck]
      show Ends _ (((d.addBookmark killerName r.toSpan).1.setBookmarkText
        (d.addBookmark killerName r.toSpan).2 []) >>= _) _
      unfold Document.setBookmarkText
      rw [hkiller]
      show Ends _ (((d.addBookmark killerName r.toSpan).1.edit r.toSpan [] _ >>= _) >>= _) _
      cases hedit : (d.addBookmark killerName r.toSpan).1.edit r.toSpan []
          (some (.bookmark (d.addBookmark killerName r.toSpan).2)) with
      | error f => trivial
      | ok d' =>
        have : r.toSpan.fits d.text = true :=
          fits_of_edit_eq_ok (d := (d.addBookmark killerName r.toSpan).1) hle hlen hedit
        rw [hfits] at this
        cases this

theorem wellFormed_deleteParagraph {d : Document} (hd : d.WellFormed) (r : TextRange) :
    Ends (fun _ => True) (d.deleteParagraph r) Document.StaysWellFormed := by
  unfold Document.deleteParagraph
  split
  · trivial
  split
  · trivial
  next start stop hpar =>
    unfold Text.paragraphAround? at hpar
    obtain ⟨⟨before, after⟩, hsplit, hpar⟩ := Option.bind_eq_some_iff.1 hpar
    obtain ⟨htext, hbefore⟩ := Text.splitAt?_eq_some_iff.1 hsplit
    obtain ⟨rfl, rfl⟩ := Prod.mk.inj (Option.some.inj hpar)
    have hlen : r.start + Text.byteLength (Text.firstLine after) ≤ d.length := by
      have hline : Text.byteLength (Text.firstLine after) ≤ Text.byteLength after := by
        conv_rhs => rw [← List.takeWhile_append_dropWhile (p := (· ≠ '\n')) (l := after)]
        rw [Text.byteLength_append]
        exact Nat.le_add_right _ _
      rw [Document.length, htext, Text.byteLength_append, hbefore]
      omega
    refine Ends.andThen (wellFormed_edit_of_le hd ?_ ?_ _ _) fun d' hd' => hd'
    · unfold Document.withLineBreak
      split_ifs <;> dsimp only <;> omega
    · unfold Document.withLineBreak
      split_ifs <;> dsimp only at * <;> omega

theorem wellFormed_applyCleaner {d : Document} (hd : d.WellFormed) (c : Cleaner) :
    Ends (fun _ => True) (applyCleaner d c) Document.WellFormed := by
  unfold applyCleaner
  cases c with
  | range r =>
    refine Ends.andThen (wellFormed_clearRange hd r) fun attempt hattempt => ?_
    cases attempt with
    | error e => exact hd
    | ok d' => exact hattempt
  | paragraph r =>
    refine Ends.andThen (wellFormed_deleteParagraph hd r) fun attempt hattempt => ?_
    cases attempt with
    | error e => exact hd
    | ok d' => exact hattempt

theorem wellFormed_collectGarbage (policy : Policy) (cs : List Command) {d : Document}
    (hd : d.WellFormed) :
    Ends (fun _ => True) (collectGarbage policy cs d) fun p => p.2.WellFormed := by
  have hcollect : Ends (fun _ => True) (collect policy cs d) fun p => p.2.1.WellFormed := by
    refine Ends.visit (I := fun _ _ (s : Document × List Cleaner) => s.1.WellFormed) hd fun _ c _ s hs => ?_
    unfold collectFrom
    split
    · exact hs
    next removable _ =>
      have hdone := Command.wellFormed_markDone (c := c.unmark) hs (!policy.debug)
      split
      next c' d' heq =>
        rw [heq] at hdone
        dsimp only
        split
        · exact Ends.afterAny fun _ => hdone
        · exact hdone
  refine Ends.andThen hcollect fun p hp => ?_
  have hsweep : Ends (fun _ => True) (sweep p.2.1 p.2.2) Document.WellFormed := by
    have hlock : p.2.1.lock.WellFormed := hp.sameParts (.lock _)
    refine Ends.andThen (Ends.foldlM (I := Document.WellFormed) hlock fun c _ d hd =>
      wellFormed_applyCleaner hd c) fun d' hd' => ?_
    exact hd'.sameParts (.unlock _)
  exact Ends.andThen hsweep fun d' hd' => hd'

/-! ### Processing -/

section Processing

variable {s : Services}

theorem safe_scanSettings {m : Model} (hm : m.document.WellFormed) :
    Ends (fun _ => False) m.scanSettings fun m' => m'.document.WellFormed :=
  (scanned_scanSettings m).mono fun _ hm' =>
    (Document.wellFormed_filterBookmarks hm _).sameParts hm'.heeds.parts

theorem document_conclude (m : Model) : m.conclude.document = m.document := by
  unfold Model.conclude
  split <;> rfl

/-- Processing a well-formed document ends in a well-formed one or faults while its template is executed. -/
theorem wellFormed_process_of {F : Fault → Prop} {m : Model} (hm : m.document.WellFormed)
    (h : ∀ m', m.scanSettings = .ok m' → m'.document.WellFormed →
      Ends F (m'.executeTemplate s) fun o => o.model.document.WellFormed) :
    Ends F (m.process s) fun o => o.model.document.WellFormed := by
  obtain ⟨m', hscan, hm'⟩ := (safe_scanSettings hm).exists_ok
  unfold Model.process
  rw [hscan]
  show Ends F (if m'.isTemplate || m'.mustProcess then _ else _) _
  split
  · refine Ends.andThen (h m' hscan hm') fun executed hexec => ?_
    split
    · exact hexec
    · refine Ends.andThen ((safe_scanSettings hexec).allow fun _ => False.elim) fun m'' hm'' => ?_
      show m''.conclude.document.WellFormed
      rwa [document_conclude]
  · show m'.conclude.document.WellFormed
    rwa [document_conclude]

end Processing

/-! ### Commands that share a bookmark

The fragment `parent` takes the place of a command and brings a command of the same name, which the run
takes for the one that is gone; it is executed before `owner`, the command around it.  When `owner` is
executed the marks go, and the bookmark that `owner` brings gets the name of the command that had them. -/

/-- Surroundings with fragments that bring a command of the same name again. -/
def renewing : Services where
  locations := fun id => [id]
  load := fun l =>
    if l = "root" then .ok { Document.ofText "??".toList with
      bookmarks := [⟨"DOC(CMD 'insertFrag' FRAG_ID 'parent')", ⟨0, 2⟩⟩,
        ⟨"DOC(CMD 'insertFrag' FRAG_ID 'child')", ⟨0, 1⟩⟩] }
    else if l = "parent" then .ok { Document.ofText "??".toList with
      bookmarks := [⟨"DOC(CMD 'insertFrag' FRAG_ID 'owner')", ⟨0, 2⟩⟩,
        ⟨"DOC(CMD 'insertFrag' FRAG_ID 'child')", ⟨0, 1⟩⟩] }
    else if l = "owner" then .ok { Document.ofText "!?".toList with
      bookmarks := [⟨"DOC(CMD 'insertFrag' FRAG_ID 'child' STATE(DONE 'true'))", ⟨0, 2⟩⟩,
        ⟨"DOC(CMD 'insertFrag' FRAG_ID 'inner')", ⟨1, 2⟩⟩] }
    else .ok (Document.ofText ['I'])
  value := fun column => .ok column
  transform := fun name _ => .error (.unknown name)
  policy := ⟨true, false⟩

/-- A document with a command inside another one, followed by a text. -/
def nestedBefore (behind : Text) : Document :=
  { Document.ofText ('?' :: '?' :: behind) with
    bookmarks := [⟨"DOC(CMD 'insertFrag' FRAG_ID 'parent')", ⟨0, 2⟩⟩,
      ⟨"DOC(CMD 'insertFrag' FRAG_ID 'child')", ⟨0, 1⟩⟩] }

/-- The text after processing, or the fault. -/
def processedText (s : Services) (d : Document) : Except Fault String :=
  ((Model.fresh d [] false).process s).map fun o => String.ofList o.model.document.text

theorem process_nestedBefore_faults :
    processedText renewing (nestedBefore "étail".toList) = .error (.brokenSpan ⟨5, 6⟩) := by
  cbv

/-- The text behind a command, of which a character is lost. -/
theorem processedText_root :
    processedText renewing { Document.ofText "?tail".toList with
      bookmarks := [⟨"DOC(CMD 'insertFrag' FRAG_ID 'root')", ⟨0, 1⟩⟩] } = .ok "Iail" := by
  cbv

/-- Where the marks of commands are taken to be after expansion, and the text. -/
def marksAfterExpansion (s : Services) (d : Document) : Except Fault (List (List Nat) × String) :=
  (expand s (Command.ofDocument d) (Model.fresh d [] false).enter.startRun).map fun p =>
    (p.2.1.map (·.markBytes p.2.2.document), String.ofList p.2.2.document.text)

theorem marksAfterExpansion_nestedBefore :
    marksAfterExpansion renewing (nestedBefore "tail".toList) =
      .ok ([[0, 7], [1, 6], [2, 5], [3, 5]], "<<!<I>>>tail") := by
  cbv

/-- The stretches to delete that are found after expansion. -/
def stretchesAfterExpansion (s : Services) (d : Document) : Except Fault (List Span) := do
  let (_, cs, r) ← expand s (Command.ofDocument d) (Model.fresh d [] false).enter.startRun
  let (_, _, cleaners) ← collect s.policy cs r.document
  return cleaners.map (·.stretch)

theorem stretchesAfterExpansion_nestedBefore :
    stretchesAfterExpansion renewing (nestedBefore "tail".toList) =
      .ok [⟨0, 1⟩, ⟨7, 8⟩, ⟨1, 2⟩, ⟨6, 7⟩, ⟨2, 3⟩, ⟨5, 6⟩, ⟨3, 4⟩, ⟨5, 6⟩] ∧
    processedText renewing (nestedBefore "tail".toList) = .ok "Iail" :=
  ⟨by cbv, by cbv⟩

end TemplateEngine
