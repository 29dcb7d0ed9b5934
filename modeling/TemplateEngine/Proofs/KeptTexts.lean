import TemplateEngine.Proofs.Failures
import TemplateEngine.Proofs.Intact

/-!
# KeptTexts — the texts between the commands of a document

Until the marks are removed every edit of a run lies in the place of a command, whatever the contents are and
however their commands lie, so the texts between the commands of the document stay as they are
(`keptByRunning_keepsTexts`).  Removing the marks takes line breaks right behind commands with them and nothing else
of these texts, if each command has its own marks by then (`texts_executeTemplate`).
-/

namespace TemplateEngine

open Document

variable {kept : List Text} {ids : List Nat} {s : Services} {c : Command} {cs : List Command}
  {d d' content : Document} {r : Run}

/-! ### Documents -/

namespace Document

/-- Whether a document without values is woven of some texts that stay, with the commands and the fields that are
about to be filled in, which `ids` lists, between these. -/
structure Woven (kept : List Text) (ids : List Nat) (d : Document) : Prop where
  consistent : d.Consistent
  values : d.values = .empty
  framed : Framed kept d.text (d.Pinned ids)

namespace Woven

/-- Fewer bookmarks and fields. -/
theorem narrowed {ids' : List Nat} (h : d.Woven kept ids) (hd' : d'.Consistent) (htext : d'.text = d.text)
    (hvalues : d'.values = d.values) (hfields : d'.fields ⊆ d.fields) (hids : ids' ⊆ ids)
    (hspan : ∀ n s, d'.span? n = some s → d.span? n = some s) : d'.Woven kept ids' where
  consistent := hd'
  values := hvalues.trans h.values
  framed := framed_transport h.framed id htext hfields hids hspan fun _ _ => id

/-- The document changes in what is no text, bookmark or field. -/
theorem sameLayout (h : d.Woven kept ids) (hd' : d'.Consistent) (htext : d'.text = d.text)
    (hvalues : d'.values = d.values) (hfields : d'.fields = d.fields)
    (hbookmarks : d'.bookmarks = d.bookmarks) : d'.Woven kept ids := by
  have hspan : ∀ n, d'.span? n = d.span? n := fun n => by rw [span?, span?, bookmark?, bookmark?, hbookmarks]
  exact h.narrowed hd' htext hvalues (hfields ▸ fun _ h => h) (fun _ h => h) fun n s hs => hspan n ▸ hs

theorem sameParts (h : d.Woven kept ids) (hsame : SameParts d d') : d'.Woven kept ids :=
  h.sameLayout (h.consistent.sameParts hsame) hsame.text hsame.values hsame.fields hsame.bookmarks

/-- An edit in the place of a command or of a field that is filled in. -/
theorem edited {a m z : Text} (h : d.Woven kept ids) (htext : d.text = a ++ m ++ z) {t : Span}
    (ht : d.Pinned ids t) (hwithin : (a.stretch m).within t = true) (new : Text) (owner : Option Owner) :
    (d.replaced (replacementOf a m z new owner) (a ++ new ++ z)).Woven kept ids where
  consistent := consistent_replaced h.consistent htext new owner
  values := h.values
  framed := framed_edited h.consistent.toWellFormed h.framed htext ht hwithin new owner

/-! #### Commands -/

/-- The text of a command is replaced. -/
theorem setText (h : d.Woven kept []) (hc : c.IsNamed) (t : Text) :
    Ends (fun _ => False) (c.setText d t) fun attempt => ∀ d', attempt = .ok d' → d'.Woven kept [] := by
  by_cases hmem : c.bookmark ∈ d.names
  · obtain ⟨span, hspan⟩ := Option.isSome_iff_exists.1 (isSome_span?_iff.2 hmem)
    obtain ⟨a, m, z, htext, rfl, hset⟩ := setBookmarkText_eq h.consistent.toWellFormed hspan t
    rw [Command.setText, hset]
    rintro d' ⟨⟩
    exact h.edited htext (.inl ⟨c.bookmark, hc.isCommandName, hspan⟩) (Span.within_refl _) t _
  · rw [Command.setText_of_notMem hmem]
    rintro d' ⟨⟩

theorem markFailure (h : d.Woven kept []) (hc : c.IsNamed) (reason : String) :
    Ends (fun _ => False) (markFailure d c reason) (Woven kept []) := by
  refine Ends.andThen (h.setText hc failureText) fun attempt hattempt => ?_
  cases attempt with
  | error e => exact h
  | ok d₁ =>
    have hd₁ := hattempt d₁ rfl
    have hwell := hd₁.consistent.toWellFormed
    dsimp only
    split
    · exact hd₁
    next range hrange =>
      cases hnote : d₁.insertAnnotation range (failureNote c reason) with
      | error e => exact hd₁
      | ok d₂ =>
        obtain rfl := addAnnotation_of_insertAnnotation hnote
        exact hd₁.sameLayout ⟨wellFormed_annotated hwell _ (Run.fits_range? hwell hrange), hd₁.consistent.ids,
          hd₁.consistent.fresh⟩ rfl rfl rfl rfl

/-- A command is marked done: its bookmark goes or gets the name of another command. -/
theorem markDone (h : d.Woven kept []) (hc : c.IsNamed) (remove : Bool) :
    (c.markDone d remove).2.Woven kept [] := by
  have hsame := c.differInBookmarks_markDone d remove
  have hrenamed : ∃ origin : String → String,
      (∀ n t, (c.markDone d remove).2.span? n = some t → d.span? (origin n) = some t) ∧
        ∀ n, IsCommandName n → IsCommandName (origin n) := by
    unfold Command.markDone
    dsimp only
    split
    · split
      next hremove => exact ⟨id, fun _ _ => span?_of_span?_removeBookmark hremove, fun _ => id⟩
      · exact ⟨id, fun _ _ => id, fun _ => id⟩
    · split
      next hrename =>
        rw [Command.bookmark_recordState] at hrename
        exact ⟨_, fun _ _ => span?_originOf h.consistent.names hrename, fun _ => hc.isCommandName.originOf _⟩
      · exact ⟨id, fun _ _ => id, fun _ => id⟩
  obtain ⟨origin, hspan, hname⟩ := hrenamed
  exact ⟨consistent_markDone h.consistent remove, hsame.values.trans h.values,
    framed_transport h.framed origin hsame.text (hsame.fields ▸ fun _ h => h) (fun _ h => h) hspan
      fun n _ => hname n⟩

/-! #### Contents -/

/-- A content is put between marks in the place of a command, unless the command has no bookmark. -/
theorem insertBetweenMarks (h : d.Woven kept []) (hc : c.IsNamed) (hcontent : content.WellFormed) :
    Ends (fun _ => False) (c.insertBetweenMarks d content) fun p => p.2.1.Woven kept [] ∧
      ((p.1 = c ∧ p.2.2 ≠ none) ∨ (p.1 = { c with marked := true } ∧ p.2.2 = none)) := by
  by_cases hmem : c.bookmark ∈ d.names
  · obtain ⟨span, hspan⟩ := Option.isSome_iff_exists.1 (isSome_span?_iff.2 hmem)
    have hwell := h.consistent.toWellFormed
    obtain ⟨a, m, z, htext, rfl, hinsert⟩ := insertBetweenMarks_eq hwell hspan content
    rw [hinsert]
    refine ⟨?_, .inr ⟨rfl, rfl⟩⟩
    have hname := hc.isCommandName
    -- the marks, the content's text between them, and what comes with it
    have hmarks := h.edited htext (.inl ⟨c.bookmark, hname, hspan⟩) (Span.within_refl _) Command.marks
      (some (.bookmark c.bookmark))
    have hbetween : ((a ++ ['<']).stretch []).within (a.stretch Command.marks) = true :=
      Span.within_iff.2 ⟨Nat.le_of_lt (between_marks a).1, Nat.le_of_lt (between_marks a).2⟩
    have hput := hmarks.edited (text_withMarks d a m z _) (.inl ⟨c.bookmark, hname, span?_edited_owner hspan⟩)
      hbetween content.text none
    have hplace : ((a ++ ['<']).stretch content.text).within
        ⟨Text.byteLength a, Text.byteLength a + 2 + Text.byteLength content.text⟩ = true := by
      rw [Text.stretch_eq, byteLength_mark, Span.within_iff]
      dsimp only
      omega
    exact ⟨consistent_adopt hput.consistent hcontent rfl, (values_adopt _ content _).trans hput.values,
      framed_adopt hput.framed hcontent rfl
        (.inl ⟨c.bookmark, hname, span?_withText hwell htext hspan content.text⟩) hplace⟩
  · rw [Command.insertBetweenMarks_of_notMem hmem]
    exact ⟨h, .inl ⟨rfl, by simp⟩⟩

/-- A field is filled in. -/
theorem replacePlaceholder (h : d.Woven kept ids) {i : Nat} (hi : i ∈ ids) (t : Text) :
    Ends (fun _ => False) (d.replacePlaceholder i t) fun attempt => ∀ d', attempt = .ok d' →
      d'.Woven kept ids := by
  unfold Document.replacePlaceholder
  split
  · rintro d' ⟨⟩
  next f hf =>
    obtain ⟨a, m, z, htext, hstart, hstop⟩ := Span.fits_iff.1 (fits_of_field? h.consistent.toWellFormed hf)
    have hspan : f.span = a.stretch m := by rw [Text.stretch, hstart, hstop]
    have hfid : f.id = i := by simpa using List.find?_some hf
    have hpinned : d.Pinned ids f.span := .inr ⟨f, List.mem_of_find?_eq_some hf, hfid ▸ hi, rfl⟩
    rw [hspan, edit_eq htext]
    rintro d' ⟨⟩
    have hedited := h.edited htext hpinned (hspan ▸ Span.within_refl _) t none
    exact hedited.narrowed (consistent_withoutField hedited.consistent i) rfl rfl
      (fun g hg => (List.mem_filter.1 hg).1) (fun _ h => h) fun _ _ h => h

end Woven

/-- Filling in the placeholders in the place of a command. -/
theorem keptByFilling_woven (kept : List Text) (ids : List Nat) : KeptByFilling ids (Woven kept ids) where
  wellFormed h := h.consistent.toWellFormed
  setCursor h hfits := h.sameLayout (consistent_setCursor h.consistent hfits) rfl rfl rfl rfl
  replacePlaceholder h hid t _ := h.replacePlaceholder hid t

theorem Woven.fillPlaceholders (h : r.document.Woven kept []) (hc : c.IsNamed) (policy : Policy)
    (jumpMark : Option String) (arguments : List String) :
    Ends (fun _ => False) (fillPlaceholders policy jumpMark c arguments r) fun r' =>
      r'.document.Woven kept [] := by
  cases hrange : c.range? r.document with
  | none =>
    unfold TemplateEngine.fillPlaceholders
    rw [hrange]
    exact h
  | some range =>
    obtain ⟨b, hb, rfl⟩ := Option.map_eq_some_iff.1 hrange
    have hspan : r.document.span? c.bookmark = some b.span := by rw [span?, hb]; rfl
    have hstart : r.document.Woven kept (r.document.placeholdersWithin b.span) :=
      ⟨h.consistent, h.values, framed_placeholdersWithin h.consistent h.framed
        (.inl ⟨c.bookmark, hc.isCommandName, hspan⟩)⟩
    refine (KeptByFilling.fillPlaceholders hstart ?_ policy jumpMark arguments).mono fun r' hr' => ?_
    · intro range' hrange'
      obtain rfl := Option.some.inj (hrange.symm.trans hrange')
      exact keptByFilling_woven kept _
    · exact hr'.narrowed hr'.consistent rfl rfl (fun _ h => h) (List.nil_subset _) fun _ _ h => h

end Document

/-! ### Lists of commands -/

/-- The commands of a list in a document in which some texts stay.  Those with marks insert. -/
structure KeepsTexts (kept : List Text) (cs : List Command) (d : Document) : Prop where
  woven : d.Woven kept []
  named : ∀ c ∈ cs, c.IsNamed
  inserts : ∀ c ∈ cs, c.marked = true → c.kind.isInsertion = true

namespace KeepsTexts

/-- The first command and the document change. -/
theorem step {c' : Command} (h : KeepsTexts kept (c :: cs) d) (hd' : d'.Woven kept []) (hnamed : c'.IsNamed)
    (hinserts : c'.marked = true → c'.kind.isInsertion = true) : KeepsTexts kept (c' :: cs) d' where
  woven := hd'
  named x hx := by
    rcases List.mem_cons.1 hx with rfl | hx
    · exact hnamed
    · exact h.named x (by simp [hx])
  inserts x hx := by
    rcases List.mem_cons.1 hx with rfl | hx
    · exact hinserts
    · exact h.inserts x (by simp [hx])

/-- The document changes, and of the first command no more than flags. -/
theorem stepFlags {c' : Command} (h : KeepsTexts kept (c :: cs) d) (hd' : d'.Woven kept [])
    (hb : c'.bookmark = c.bookmark) (hk : c'.kind = c.kind) (hconfig : c'.config = c.config)
    (hm : c'.marked = c.marked) : KeepsTexts kept (c' :: cs) d' :=
  h.step hd' ((h.named c (by simp)).of_eq hb hk hconfig) fun hmarked => by
    rw [hk]
    exact h.inserts c (by simp) (hm ▸ hmarked)

theorem finish (h : KeepsTexts kept (c :: cs) r.document) (remove : Bool) :
    KeepsTexts kept ((r.finish c remove).1 :: cs) (r.finish c remove).2.document := by
  have hc := h.named c (by simp)
  refine h.step (h.woven.markDone hc remove) (hc.markDone r.document remove) fun hm => ?_
  show (c.markDone r.document remove).1.kind.isInsertion = true
  rw [Command.kind_markDone]
  exact h.inserts c (by simp) ((Command.marked_markDone c r.document remove).symm.trans hm)

/-- A content is put between marks in the place of the first command, and its placeholders are filled in. -/
theorem insert (h : KeepsTexts kept (c :: cs) d) (hk : c.kind.isInsertion = true) (hm : c.marked = false)
    (hcontent : content.WellFormed) (policy : Policy) :
    Ends (fun _ => False) (c.insertBetweenMarks d content) fun p =>
      KeepsTexts kept (p.1 :: cs) p.2.1 ∧ (p.2.2 = none ∨ p.1.marked = false) ∧
      ∀ (r : Run) jumpMark arguments, r.document = p.2.1 → Ends (fun _ => False)
        (fillPlaceholders policy jumpMark p.1 arguments r) fun r' => KeepsTexts kept (p.1 :: cs) r'.document := by
  have hc := h.named c (by simp)
  refine (h.woven.insertBetweenMarks hc hcontent).mono ?_
  rintro ⟨c', d', refusal⟩ ⟨hd', hcases⟩
  have hsame : c'.IsNamed ∧ (c'.marked = true → c'.kind.isInsertion = true) := by
    rcases hcases with ⟨rfl, -⟩ | ⟨rfl, -⟩
    · exact ⟨hc, fun _ => hk⟩
    · exact ⟨hc.of_eq rfl rfl rfl, fun _ => hk⟩
  refine ⟨h.step hd' hsame.1 hsame.2, ?_, ?_⟩
  · rcases hcases with ⟨rfl, -⟩ | ⟨-, hnone⟩
    · exact .inr hm
    · exact .inl hnone
  · rintro r jumpMark arguments rfl
    exact (hd'.fillPlaceholders hsame.1 policy jumpMark arguments).mono fun r' hr' => h.step hr' hsame.1 hsame.2

theorem refresh (h : KeepsTexts kept cs d) : KeepsTexts kept (Command.refresh d cs).1 d where
  woven := h.woven
  named := Command.forall_mem_refresh h.named fun n _ c hn => Command.isNamed_of_ofBookmark? hn
  inserts := Command.forall_mem_refresh h.inserts fun n _ c hn hm => by
    rw [Command.marked_of_ofBookmark? hn] at hm
    cases hm

end KeepsTexts

/-- A run keeps the texts between the commands, whatever contents are loaded. -/
theorem keptByRunning_keepsTexts (hs : s.LoadsWellFormed) :
    KeptByRunning s True fun _ => KeepsTexts kept where
  perm h hp := ⟨h.woven, fun c hc => h.named c (hp.mem_iff.2 hc), fun c hc => h.inserts c (hp.mem_iff.2 hc)⟩
  leave h := h
  named h := h.named
  wellFormed h := h.woven.consistent.toWellFormed
  unmarked {_ c _ _} h hk := by
    by_contra hm
    have hinserts := h.inserts c (by simp) (by simpa using hm)
    rw [hk] at hinserts
    cases hinserts
  sameParts h hsame := ⟨h.woven.sameParts hsame, h.named, h.inserts⟩
  setFailed h := h.stepFlags h.woven rfl rfl rfl rfl
  setText {_ c _ _} h _ t := (h.woven.setText (h.named c (by simp)) t).mono fun _ hattempt d' hd' =>
    ⟨hattempt d' hd', h.named, h.inserts⟩
  fail {_ c _ _} h _ reason := Ends.andThen (h.woven.markFailure (h.named c (by simp)) reason) fun d' hd' =>
    h.stepFlags hd' rfl rfl rfl rfl
  finish h _ remove := h.finish remove
  finishInsertion h := h.finish false
  insert {_ _ _ l content} h hk hm hload := h.insert hk hm (hs l content hload) s.policy
  refresh := KeepsTexts.refresh
  refreshElement h e :=
    ((wellFormed_refreshElement h.woven.consistent.toWellFormed e).and
      (refreshElement_of_values_empty h.woven.values e)).mono fun _ ho d' hd' => absurd hd' (ho.2 d')

/-! ### Executing a template -/

/-- Whether a text is woven of some texts that stay, of which each but the first can have lost a line break at its
start. -/
def KeptUpToBreaks (kept : List Text) (t : Text) : Prop :=
  ∃ ps last, t = weave ps last ∧ List.Forall₂ LosesBreak kept (ps.map Prod.fst ++ [last]) ∧
    (ps.map Prod.fst ++ [last]).head? = kept.head?

/-- **The texts between the commands stay.**  Where no computed field has a value, they stay as they are until the
marks are removed, whatever the contents and their commands are, and up to line breaks right behind commands in the
end, if each command has its own marks by then.  So it has where the commands of the document and those of each
content are apart. -/
theorem texts_executeTemplate (hs : s.LoadsWellFormed) (hdebug : s.policy.debug = false) (hd : d.Consistent)
    (hvalues : d.values = .empty) {ps : List (Text × Text)} {last : Text} (htext : d.text = weave ps last)
    (hplaces : ∀ b ∈ d.bookmarks, IsCommandName b.name → ∃ w ∈ openings 0 ps, b.span.within w = true)
    (locations : List String) (mustProcess : Bool) :
    (Ends (fun _ => False) ((Model.fresh d locations mustProcess).runUntilCleanup s) fun p =>
      ∃ qs, p.2.2.document.text = weave qs last ∧ qs.map Prod.fst = ps.map Prod.fst) ∧
    ((Model.fresh d locations mustProcess).HoldsMarks s →
      Ends Fault.IsSplit ((Model.fresh d locations mustProcess).executeTemplate s) fun o =>
        KeptUpToBreaks (ps.map Prod.fst ++ [last]) o.model.document.text) ∧
    (s.LoadsApart → d.CommandsApart → (Model.fresh d locations mustProcess).HoldsMarks s) := by
  let m := Model.fresh d locations mustProcess
  have hframed : Framed (ps.map Prod.fst ++ [last]) d.text (d.Pinned []) := by
    refine ⟨ps, last, rfl, htext, ?_⟩
    rintro t (⟨n, hn, ht⟩ | ⟨f, -, hid, -⟩)
    · obtain ⟨b, hb, rfl⟩ := Option.map_eq_some_iff.1 ht
      have hname : b.name = n := by simpa using List.find?_some hb
      exact hplaces b (List.mem_of_find?_eq_some hb) (hname ▸ hn)
    · cases hid
  have hstart : KeepsTexts (ps.map Prod.fst ++ [last]) [] d := ⟨⟨hd, hvalues, hframed⟩, by simp, by simp⟩
  have hidle : ∀ c ∈ m.commands, c.IdleIfMarked := KeptByRunning.idleIfMarked_refresh (by simp)
  have hrun : Ends (fun _ => False) (m.runUntilCleanup s) fun p =>
      KeepsTexts (ps.map Prod.fst ++ [last]) p.2.1 p.2.2.document :=
    (keptByRunning_keepsTexts hs).runUntilCleanup hstart.refresh hidle
  refine ⟨hrun.mono fun p hp => ?_, fun hholds => ?_, fun hsapart hapart =>
    holdsMarks_of_expanding hsapart (expanding_fresh hd hapart locations mustProcess)⟩
  · obtain ⟨qs, last', hkept, htext', -⟩ := hp.woven.framed
    obtain ⟨hfirst, hlast⟩ := List.append_inj' hkept rfl
    obtain rfl : last' = last := by simpa using hlast
    exact ⟨qs, htext', hfirst⟩
  · obtain ⟨p, hp, hkeeps⟩ := hrun.exists_ok
    have hmarks : MarksHeld p.2.2.document p.2.1 := hholds.of_eq_ok hp
    have hwell := hkeeps.woven.consistent.toWellFormed
    rw [executeTemplate_eq, hp]
    show Ends _ (m.cleanUp s p) _
    refine Ends.andThen (collectGarbage_spec hdebug hwell hmarks) fun q hq => ?_
    obtain ⟨qs, last', htext', hrest⟩ := hmarks.without_garbage hkeeps.named hkeeps.woven.framed
    exact ⟨qs, last', hq.2.trans htext', hrest⟩

/-- Surroundings whose fragments are all a line with its break. -/
def lineFragments : Services := { echo with load := fun _ => .ok (Document.ofText "X\n".toList) }

/-- A document with a place for a fragment on a line of its own. -/
def onOwnLine : Document :=
  { Document.ofText "A\n?\nB".toList with
    bookmarks := [⟨"DOC(CMD 'insertFrag' FRAG_ID 'f')", ⟨2, 3⟩⟩] }

theorem loadsApart_lineFragments : lineFragments.LoadsApart := fun l content h => by
  obtain rfl := Except.ok.inj h
  exact ⟨⟨by decide, by decide, by decide, by decide, by decide⟩, .nil⟩

theorem consistent_onOwnLine : onOwnLine.Consistent :=
  ⟨⟨by decide, by decide, by decide, by decide, by decide⟩, by decide, by decide⟩

/-- The line break behind the command goes with the mark that comes to stand on a line of its own. -/
theorem texts_executeTemplate_onOwnLine :
    lineFragments.LoadsWellFormed ∧ lineFragments.policy.debug = false ∧ onOwnLine.Consistent ∧
      onOwnLine.values = .empty ∧ onOwnLine.text = weave [("A\n".toList, ['?'])] "\nB".toList ∧
      Ends Fault.IsSplit ((Model.fresh onOwnLine [] false).executeTemplate lineFragments) (fun o =>
        KeptUpToBreaks ["A\n".toList, "\nB".toList] o.model.document.text) ∧
      ((Model.fresh onOwnLine [] false).executeTemplate lineFragments).map (fun o =>
        String.ofList o.model.document.text) = .ok "A\nX\nB" := by
  have hwell : lineFragments.LoadsWellFormed := fun l content h => (loadsApart_lineFragments l content h).1
  have hplaces : ∀ b ∈ onOwnLine.bookmarks, IsCommandName b.name →
      ∃ w ∈ openings 0 [("A\n".toList, ['?'])], b.span.within w = true := by
    intro b hb _
    obtain rfl := List.mem_singleton.1 hb
    exact ⟨⟨2, 3⟩, by decide, by decide⟩
  have htext : onOwnLine.text = weave [("A\n".toList, ['?'])] "\nB".toList := rfl
  obtain ⟨-, hend, hholds⟩ := texts_executeTemplate hwell rfl consistent_onOwnLine rfl htext hplaces [] false
  exact ⟨hwell, rfl, consistent_onOwnLine, rfl, htext,
    hend (hholds loadsApart_lineFragments (List.pairwise_singleton _ _)), by cbv⟩

end TemplateEngine
