import TemplateEngine.Proofs.Faults
import TemplateEngine.Proofs.Order
import TemplateEngine.Proofs.Phases

/-!
# Intact — what a run leaves as it is

Where the commands of the document and those of each content are apart, a run does not fault before the
marks are collected, and the marks of all commands are where they were put until then
(`tracked_runUntilCleanup`, `Tracked.marksHeld`).  So processing can fault only in the test of a byte next to
a mark (`wellFormed_process`).  What is deleted for marks that are held is in the places of the commands, up to
line breaks right behind these (`MarksHeld.without_garbage`).
-/

namespace TemplateEngine

open Document

section Intact

variable {kept : List Text} {expanding : Prop} {s : Services} {c : Command} {cs : List Command}
  {d : Document}

/-! ### Marks of tracked commands -/

/-- The range whose marks are collected is that of a command with marks. -/
theorem exists_of_enclosed? {r : TextRange} (h : c.enclosed? d = some r) :
    c.kind.isInsertion = true ∧ c.marked = true ∧ ∃ span, d.span? c.bookmark = some span ∧
      r = .ofSpan span := by
  unfold Command.enclosed? at h
  split at h
  next hc =>
    obtain ⟨b, hb, rfl⟩ := Option.map_eq_some_iff.1 h
    rw [Bool.and_eq_true] at hc
    exact ⟨hc.1, hc.2, b.span, congrArg (Option.map _) hb, rfl⟩
  · cases h

theorem mem_markBytes {q : Nat} : q ∈ c.markBytes d ↔
    ∃ r, c.enclosed? d = some r ∧ (q = r.start ∨ q = r.stop - 1) := by
  unfold Command.markBytes
  cases c.enclosed? d <;> simp

namespace Tracked

theorem isEnclosed (h : Tracked kept expanding cs d) (hc : c ∈ cs) {r : TextRange}
    (hr : c.enclosed? d = some r) : r.IsEnclosed d.text := by
  obtain ⟨-, hm, span, hspan, rfl⟩ := exists_of_enclosed? hr
  exact h.layout.enclosed c.bookmark (mem_markedNames.2 ⟨c, hc, hm, rfl⟩) span hspan

/-- Tracked commands have their marks, each its own ones. -/
theorem marksHeld (h : Tracked kept expanding cs d) : MarksHeld d cs where
  distinct := h.distinct
  enclosed c hc r hr := h.isEnclosed hc hr
  apart := by
    refine List.nodup_flatMap.2 ⟨fun c hc => ?_,
      h.distinct.imp_of_mem fun {c c'} hc hc' hdiffer q hq hq' => ?_⟩
    · unfold Command.markBytes
      split
      next r hr =>
        have hroom := (h.isEnclosed hc hr).room
        simp only [List.nodup_cons, List.mem_singleton, List.not_mem_nil, not_false_eq_true,
          List.nodup_nil, and_true]
        omega
      · exact .nil
    · obtain ⟨r, hr, hqr⟩ := mem_markBytes.1 hq
      obtain ⟨r', hr', hqr'⟩ := mem_markBytes.1 hq'
      have hroom := (h.isEnclosed hc hr).room
      have hroom' := (h.isEnclosed hc' hr').room
      obtain ⟨hk, -, span, hspan, rfl⟩ := exists_of_enclosed? hr
      obtain ⟨hk', -, span', hspan', rfl⟩ := exists_of_enclosed? hr'
      have hplaced := h.layout.commands c.bookmark c'.bookmark (h.named c hc).isCommandName
        (h.named c' hc').isCommandName (hdiffer hk hk') span span' hspan hspan'
      simp only [TextRange.ofSpan] at hqr hqr' hroom hroom'
      unfold Document.Placed Span.Apart Span.Between at hplaced
      omega

end Tracked

/-! ### What is deleted for the marks -/

namespace MarksHeld

/-- A byte that is deleted is a mark or a line break in the range of a command, or the line break right
behind it. -/
theorem char_of_mem_garbage (h : MarksHeld d cs) (hc : c ∈ cs) {q : Nat} (hq : q ∈ c.garbage d) :
    ∃ span, d.span? c.bookmark = some span ∧ span.start ≤ q ∧
      ((q < span.stop ∧ ∃ x ∈ ['<', '>', '\n'], d.text.charAt? q = some x) ∨
        (q = span.stop ∧ d.text.charAt? q = some '\n')) := by
  obtain ⟨r, hr, hcases⟩ := Command.exists_of_mem_garbage hq
  have henclosed := h.enclosed c hc r hr
  obtain ⟨-, -, span, hspan, rfl⟩ := exists_of_enclosed? hr
  have hroom : span.start + 2 ≤ span.stop := henclosed.room
  rcases hcases with (rfl | rfl) | ⟨rfl | rfl, hbreak⟩
  · exact ⟨span, hspan, Nat.le_refl _, .inl ⟨show span.start < span.stop by omega, '<', by simp, henclosed.opening⟩⟩
  · exact ⟨span, hspan, show span.start ≤ span.stop - 1 by omega,
      .inl ⟨show span.stop - 1 < span.stop by omega, '>', by simp, henclosed.closing⟩⟩
  · exact ⟨span, hspan, Nat.le_succ _, .inl ⟨hroom, '\n', by simp, hbreak⟩⟩
  · exact ⟨span, hspan, show span.start ≤ span.stop by omega, .inr ⟨rfl, hbreak⟩⟩

/-- The texts between the commands stay when the marks go, up to line breaks right behind commands. -/
theorem without_garbage (h : MarksHeld d cs) (hnamed : ∀ c ∈ cs, c.IsNamed)
    (hframed : Framed kept d.text (d.Pinned [])) :
    ∃ ps last, d.text.without (cs.flatMap (·.garbage d)) = weave ps last ∧
      List.Forall₂ LosesBreak kept (ps.map Prod.fst ++ [last]) ∧
      (ps.map Prod.fst ++ [last]).head? = kept.head? := by
  obtain ⟨ps, last, rfl, htext, hin⟩ := hframed
  have hdrop : ∀ q, 0 ≤ q → (cs.flatMap (·.garbage d)).contains q = true →
      (False ∧ q = 0 ∧ (weave ps last).head? = some '\n') ∨
        ∃ w ∈ openings 0 ps, w.start ≤ q ∧
          (q < w.stop ∨ (q = w.stop ∧ Text.charAt? (weave ps last) (q - 0) = some '\n')) := by
    intro q _ hq
    obtain ⟨c, hc, hqc⟩ := List.mem_flatMap.1 (by simpa using hq)
    obtain ⟨span, hspan, hle, hcases⟩ := h.char_of_mem_garbage hc hqc
    obtain ⟨w, hw, hwithin⟩ := hin span (.inl ⟨c.bookmark, (hnamed c hc).isCommandName, hspan⟩)
    rw [Span.within_iff] at hwithin
    rw [← htext, Nat.sub_zero]
    refine .inr ⟨w, hw, by omega, ?_⟩
    rcases hcases with ⟨hlt, -⟩ | ⟨heq, hbreak⟩
    · exact .inl (by omega)
    · rcases Nat.lt_or_ge q w.stop with hlt | hge
      · exact .inl hlt
      · exact .inr ⟨by omega, hbreak⟩
  obtain ⟨ps', last', heq, hall, hhead⟩ := dropAt_weave hdrop
  refine ⟨ps', last', ?_, hall, hhead.resolve_left id⟩
  rw [← heq, ← htext]
  rfl

end MarksHeld

/-! ### Runs -/

/-- A template run up to the removal of the marks. -/
def Model.runUntilCleanup (m : Model) (s : Services) :
    Except Fault (Fixpoint × List Command × Run) := do
  let (fixpoint, cs, r) ← expand s m.enter.commands m.enter.startRun
  let (cs, r) ← lockedPhase (visitPending (updateFields s.policy)) cs r
  let (cs, r) ← lockedPhase (visitPending (fillIn s)) cs r
  return (fixpoint, cs, r)

/-- The rest of a template run. -/
def Model.cleanUp (m : Model) (s : Services) (p : Fixpoint × List Command × Run) :
    Except Fault (Outcome Fixpoint) := do
  let (cs, document) ← collectGarbage s.policy p.2.1 p.2.2.document
  let m' := { m.enter with
    document
    commands := (Command.refresh document cs).1
    settings := settleForm p.2.2.settings
    overrides := p.2.2.overrides }
  return {
    model := m'.leave m.document.modified
    messages := p.2.2.messages
    result := if p.2.2.failures = 0 then .ok p.1 else .error (.commandsFailed p.2.2.failures) }

theorem executeTemplate_eq (m : Model) (s : Services) :
    m.executeTemplate s = m.runUntilCleanup s >>= m.cleanUp s := by
  unfold Model.executeTemplate Model.runUntilCleanup Model.cleanUp completeRun
  simp only [bind_assoc, pure_bind]

/-- The commands of a document in which they are apart. -/
theorem expanding_ofDocument (hd : d.Consistent) (hapart : d.CommandsApart)
    (hframed : Framed kept d.text (d.Pinned [])) (hstill : kept = [[], []] ∨ d.values = .empty) :
    Expanding kept (Command.ofDocument d) d :=
  Expanding.refresh ⟨.nil hd hapart hframed hstill, by simp⟩

/-- What a run keeps until the marks are removed. -/
theorem KeptByRunning.runUntilCleanup {after : Prop} {I : Prop → List Command → Document → Prop}
    (h : KeptByRunning s after I) {m : Model} (hI : I True m.commands m.document)
    (hidle : ∀ c ∈ m.commands, c.IdleIfMarked) :
    Ends (fun _ => False) (m.runUntilCleanup s) fun p => I after p.2.1 p.2.2.document := by
  have hstart : I True m.commands m.enter.startRun.document :=
    h.sameParts hI ⟨rfl, rfl, rfl, rfl, rfl, rfl, rfl⟩
  refine Ends.andThen (h.expandFrom 0 maxRounds hstart hidle) fun p hp => ?_
  refine Ends.andThen (h.lockedPhase (fun _ _ _ => h.updateFields) (h.leave hp)) fun q hq => ?_
  exact Ends.andThen (h.lockedPhase (fun _ _ _ => h.fillIn) hq) fun o ho => ho

/-- What the operations keep, a template run does up to the removal of the marks. -/
theorem KeptByOperating.runUntilCleanup {P I : Document → Prop} (h : KeptByOperating P I)
    (hs : ∀ l content, s.load l = .ok content → P content) {m : Model} (hm : I m.document) :
    Ends (fun _ => False) (m.runUntilCleanup s) fun p => I p.2.2.document := by
  have hstart : I m.enter.startRun.document := h.sameParts hm ⟨rfl, rfl, rfl, rfl, rfl, rfl, rfl⟩
  refine Ends.andThen (h.expandFrom hs hstart 0 maxRounds) fun p hp => ?_
  refine Ends.andThen (h.lockedPhase (fun _ _ hr => h.updateFields hr _) hp) fun q hq => ?_
  exact Ends.andThen (h.lockedPhase (fun _ _ hr => h.fillIn hr) hq) fun o ho => ho

/-- No run faults before the marks are removed, and then they are where they were put.  If some text has to
stay, no command that inserts is lost. -/
theorem tracked_runUntilCleanup (hs : s.LoadsApart) {m : Model}
    (h : Expanding kept m.commands m.document) :
    Ends (fun _ => False) (m.runUntilCleanup s) fun p =>
      Tracked kept (kept ≠ [[], []]) p.2.1 p.2.2.document :=
  (keptByRunning_tracked hs).runUntilCleanup h.1 h.2

/-! ### Faults -/

/-- Whether, when the marks are removed, each command has its own ones where they were put. -/
def Model.HoldsMarks (m : Model) (s : Services) : Prop :=
  Ends (fun _ => True) (m.runUntilCleanup s) fun p => MarksHeld p.2.2.document p.2.1

theorem holdsMarks_of_expanding (hs : s.LoadsApart) {m : Model} (h : Expanding kept m.commands m.document) :
    m.HoldsMarks s :=
  ((tracked_runUntilCleanup hs h).allow fun _ => False.elim).mono fun _ hp => hp.marksHeld

/-- A new model of a document in which commands are apart is ready to be expanded. -/
theorem expanding_fresh (hd : d.Consistent) (hapart : d.CommandsApart) (locations : List String)
    (mustProcess : Bool) : Expanding [[], []] (Model.fresh d locations mustProcess).commands
      (Model.fresh d locations mustProcess).document :=
  expanding_ofDocument hd hapart (framed_pinned hd.toWellFormed []) (.inl rfl)

/-- A template run faults, if at all, while the marks are removed. -/
theorem wellFormed_executeTemplate_of {F : Fault → Prop} (hs : s.LoadsWellFormed) {m : Model}
    (hm : m.document.WellFormed)
    (h : ∀ p f, m.runUntilCleanup s = .ok p → p.2.2.document.WellFormed →
      collectGarbage s.policy p.2.1 p.2.2.document = .error f → F f) :
    Ends F (m.executeTemplate s) fun o => o.model.document.WellFormed := by
  obtain ⟨p, hp, hwell⟩ := (keptByOperating_wellFormed.runUntilCleanup hs hm).exists_ok
  rw [executeTemplate_eq, hp]
  show Ends F (m.cleanUp s p) _
  have hends := wellFormed_collectGarbage s.policy p.2.1 hwell
  unfold Model.cleanUp
  cases hcollect : collectGarbage s.policy p.2.1 p.2.2.document with
  | error f => exact h p f hp hwell hcollect
  | ok q =>
    have hq : q.2.WellFormed := hends.of_eq_ok hcollect
    exact ⟨hq.names, hq.bookmarks, hq.fields, hq.annotations, hq.cursor⟩

/-- Whether a fault is that of removing the marks at the end of the run over the document as it is scanned. -/
def Model.FaultsInCleanup (m : Model) (s : Services) (f : Fault) : Prop :=
  ∃ m' p, m.scanSettings = .ok m' ∧ m'.runUntilCleanup s = .ok p ∧
    collectGarbage s.policy p.2.1 p.2.2.document = .error f

/-- **Processing keeps documents well-formed and has one way to fault.**  Whatever the commands are, processing ends
in a well-formed document or faults while the marks are removed, and there only in a test of a byte next to a mark,
if each command has its own marks by then.  So it has where the commands of the document and those of each content
are apart. -/
theorem wellFormed_process (hs : s.LoadsWellFormed) (hdebug : s.policy.debug = false) (hd : d.WellFormed)
    (locations : List String) (mustProcess : Bool) :
    Ends ((Model.fresh d locations mustProcess).FaultsInCleanup s)
      ((Model.fresh d locations mustProcess).process s) (fun o => o.model.document.WellFormed) ∧
    (Ends (fun _ => True) (Model.fresh d locations mustProcess).scanSettings (·.HoldsMarks s) →
      Ends Fault.IsSplit ((Model.fresh d locations mustProcess).process s) fun o =>
        o.model.document.WellFormed) ∧
    (s.LoadsApart → d.Consistent → d.CommandsApart →
      Ends (fun _ => True) (Model.fresh d locations mustProcess).scanSettings (·.HoldsMarks s)) := by
  refine ⟨?_, fun hholds => ?_, fun hsapart hd hapart => ?_⟩
  · refine wellFormed_process_of hd fun m' hscan hm' => ?_
    exact wellFormed_executeTemplate_of hs hm' fun p f hp _ hf => ⟨m', p, hscan, hp, hf⟩
  · refine wellFormed_process_of hd fun m' hscan hm' => ?_
    refine wellFormed_executeTemplate_of hs hm' fun p f hp hwell hf => ?_
    have hholds' : m'.HoldsMarks s := hholds.of_eq_ok hscan
    have hsplit := collectGarbage_spec hdebug hwell (hholds'.of_eq_ok hp)
    rw [hf] at hsplit
    exact hsplit
  · have hscan := expanding_scanSettings (expanding_fresh hd hapart locations mustProcess)
    exact (hscan.allow fun _ => False.elim).mono fun m' hm' => holdsMarks_of_expanding hsapart hm'

/-- A document with a place for a fragment in front of a letter of two bytes. -/
def inFrontOfAccent : Document :=
  { Document.ofText "?é".toList with bookmarks := [⟨"DOC(CMD 'insertFrag' FRAG_ID 'X')", ⟨0, 1⟩⟩] }

/-- As `inFrontOfAccent`, but with the place behind the letter. -/
def behindAccent : Document :=
  { Document.ofText "é?".toList with bookmarks := [⟨"DOC(CMD 'insertFrag' FRAG_ID 'X')", ⟨2, 3⟩⟩] }

/-- Behind a letter of two bytes the test whether a paragraph starts there faults. -/
theorem wellFormed_process_inFrontOfAccent :
    echo.LoadsWellFormed ∧ echo.policy.debug = false ∧ inFrontOfAccent.WellFormed ∧
      Ends Fault.IsSplit ((Model.fresh inFrontOfAccent [] false).process echo)
        (fun o => o.model.document.WellFormed) ∧
      processedText echo inFrontOfAccent = .ok "Xé" ∧
      processedText echo behindAccent = .error (.splitCharacter 2) := by
  have hwell : echo.LoadsWellFormed := fun l content h => by
    obtain rfl := Except.ok.inj h
    exact ⟨.nil, by simp [Document.ofText], by simp [Document.ofText], by simp [Document.ofText],
      by simp [Document.ofText]⟩
  have happart : echo.LoadsApart := fun l content h => ⟨hwell l content h, by
    obtain rfl := Except.ok.inj h
    exact .nil⟩
  have hd : inFrontOfAccent.Consistent :=
    ⟨⟨by decide, by decide, by decide, by decide, by decide⟩, by decide, by decide⟩
  obtain ⟨-, hend, hholds⟩ := wellFormed_process hwell rfl hd.toWellFormed [] false
  exact ⟨hwell, rfl, hd.toWellFormed, hend (hholds happart hd (List.pairwise_singleton _ _)), by cbv, by cbv⟩

end Intact

end TemplateEngine
