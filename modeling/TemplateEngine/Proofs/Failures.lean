import TemplateEngine.Proofs.Faults
import TemplateEngine.Proofs.Order
import TemplateEngine.Proofs.Reload
import TemplateEngine.Proofs.Tracking

/-!
# Failures — what a counted failure leaves behind

A step counts at most one failure.  Then it shows a message, or it marks the place of its command, or the
command has no bookmark any more and nothing but the count changes (`Verdict`).  A template run counts
exactly the failures of its steps (`executeTemplate_log`).  Commands that lie apart keep their bookmarks
until it is their turn, so every failure among them is shown (`visible_visitPending`).
-/

namespace TemplateEngine

open Document

/-! ### Verdicts -/

/-- What a step says about a failure of its command. -/
inductive Verdict where
  /-- No failure is counted. -/
  | passed
  /-- A failure is counted and a message tells of it. -/
  | announced
  /-- A failure is counted and marked in the place of the command. -/
  | marked
  /-- A failure is counted of a command that has no bookmark any more. -/
  | unseen
  deriving DecidableEq

/-- How many failures some steps counted. -/
def failureCount (vs : List Verdict) : Nat := vs.countP (· ≠ .passed)

/-- Whether a bookmark covers the text for a failure and nothing else, under a note that names a command. -/
def Document.ShowsFailure (d : Document) (c : Command) (bookmark : String) : Prop :=
  ∃ a z reason, d.text = a ++ failureText ++ z ∧
    d.span? bookmark = some (Text.stretch a failureText) ∧
    ⟨failureNote c reason, Text.stretch a failureText⟩ ∈ d.annotations

/-- When a step of the command `c` has a verdict. -/
def Verdict.Holds (c : Command) (r : Run) (p : Command × Run) : Verdict → Prop
  | .passed => p.2.failures = r.failures
  | .announced => p.2.failures = r.failures + 1 ∧ ∃ request id e, c.kind = .insertFragment request ∧
      request.manual = true ∧ p.2.messages = r.messages ++ [manualMessage request id e]
  | .marked => p.2.failures = r.failures + 1 ∧ c.bookmark ∈ r.document.names ∧
      p.2.document.ShowsFailure c p.1.bookmark
  | .unseen => p.2.failures = r.failures + 1 ∧ c.bookmark ∉ r.document.names ∧
      p.1.bookmark = c.bookmark ∧ SameParts r.document p.2.document ∧ p.2.messages = r.messages

/-- How a step ends that accounts for its failures. -/
def Accounts (c : Command) (r : Run) (p : Command × Run) : Prop := ∃ v : Verdict, v.Holds c r p

/-! ### Places of commands -/

theorem Command.setText_of_notMem {c : Command} {d : Document} (h : c.bookmark ∉ d.names) (t : Text) :
    c.setText d t = .ok (.error (.bookmarkNotFound c.bookmark)) := by
  have hnone : d.bookmark? c.bookmark = none := by
    rw [← Option.not_isSome_iff_eq_none, isSome_bookmark?_iff]
    exact h
  rw [Command.setText, setBookmarkText, hnone]

theorem Command.setText_of_mem {c : Command} {d : Document} (hd : d.WellFormed)
    (h : c.bookmark ∈ d.names) (t : Text) : ∃ d', c.setText d t = .ok (.ok d') := by
  obtain ⟨s, hs⟩ := Option.isSome_iff_exists.1 (isSome_span?_iff.2 h)
  obtain ⟨a, m, z, -, -, hset⟩ := setBookmarkText_eq hd hs t
  exact ⟨_, hset⟩

/-- Without a bookmark a command is not marked done in the document. -/
theorem Command.markDone_of_notMem {c : Command} {d : Document} (h : c.bookmark ∉ d.names) :
    (c.markDone d false).1.bookmark = c.bookmark ∧ (c.markDone d false).2 = d := by
  have hbookmark : (recordState { c with done := true }).bookmark = c.bookmark :=
    bookmark_recordState { c with done := true }
  have hnone : ¬ (d.bookmark? c.bookmark).isSome = true := by rwa [isSome_bookmark?_iff]
  unfold markDone
  simp only [Bool.false_eq_true, if_false, hbookmark, renameBookmark, if_neg hnone, and_self]

/-- A command that fails is marked where its bookmark is. -/
theorem markFailure_of_mem {c : Command} {d : Document} (hd : d.WellFormed) (h : c.bookmark ∈ d.names)
    (reason : String) :
    ∃ d', markFailure d c reason = .ok d' ∧ d'.ShowsFailure c c.bookmark := by
  obtain ⟨s, hs⟩ := Option.isSome_iff_exists.1 (isSome_span?_iff.2 h)
  obtain ⟨a, m, z, htext, rfl, hset⟩ := setBookmarkText_eq hd hs failureText
  let d₁ := d.replaced (replacementOf a m z failureText (some (.bookmark c.bookmark)))
    (a ++ failureText ++ z)
  have hspan : d₁.span? c.bookmark = some (Text.stretch a failureText) := span?_edited_owner hs
  have hcheck : d₁.check (.ofSpan (Text.stretch a failureText)) = .ok () := by
    refine check_of_le (Text.stretch_le _ _) ?_
    show _ ≤ Text.byteLength (a ++ failureText ++ z)
    rw [Text.byteLength_append (a ++ failureText)]
    exact Nat.le_add_right _ _
  have hnote : d₁.insertAnnotation (.ofSpan (Text.stretch a failureText)) (failureNote c reason) =
      .ok (d₁.addAnnotation (failureNote c reason) (Text.stretch a failureText)) := by
    unfold insertAnnotation
    rw [hcheck]
    rfl
  refine ⟨d₁.addAnnotation (failureNote c reason) (Text.stretch a failureText), ?_, ?_⟩
  · unfold markFailure Command.setText
    rw [hset]
    dsimp only [bind, Except.bind]
    rw [Command.range?_eq, hspan]
    dsimp only [Option.map]
    rw [hnote]
    rfl
  · exact ⟨a, z, reason, rfl, hspan, List.mem_append_right _ (List.mem_singleton.2 rfl)⟩

theorem markFailure_of_notMem {c : Command} {d : Document} (h : c.bookmark ∉ d.names) (reason : String) :
    markFailure d c reason = .ok d := by
  unfold markFailure
  rw [Command.setText_of_notMem h]
  rfl

/-- A content is put between marks unless the command has no bookmark. -/
theorem Command.insertBetweenMarks_of_notMem {c : Command} {d : Document} (h : c.bookmark ∉ d.names)
    (content : Document) :
    c.insertBetweenMarks d content = .ok (c, d, some (.bookmarkNotFound c.bookmark)) := by
  unfold insertBetweenMarks
  rw [setText_of_notMem h]
  rfl

/-! ### Steps -/

section Steps

variable {s : Services} {c : Command} {r r₁ : Run} {p : Command × Run}

/-- A part of a step after which nothing is counted and the places of commands are the same. -/
structure Run.Prepares (r r₁ : Run) : Prop where
  parts : SameParts r.document r₁.document
  failures : r₁.failures = r.failures
  messages : r₁.messages = r.messages

theorem Run.Prepares.refl (r : Run) : r.Prepares r := ⟨.refl _, rfl, rfl⟩

/-- A command that fails at the end of its step. -/
theorem Run.Prepares.fail (h : r.Prepares r₁) (hr : r₁.document.WellFormed) (reason : String) :
    Ends (fun _ => False) (r₁.fail c reason) (Accounts c r) := by
  have hcount : r₁.failures + 1 = r.failures + 1 := congrArg Nat.succ h.failures
  unfold Run.fail
  by_cases hmem : c.bookmark ∈ r.document.names
  · obtain ⟨d', hmark, hshow⟩ := markFailure_of_mem hr (h.parts.names ▸ hmem) reason
    rw [hmark]
    exact ⟨.marked, hcount, hmem, hshow⟩
  · rw [markFailure_of_notMem (h.parts.names ▸ hmem)]
    exact ⟨.unseen, hcount, hmem, rfl, h.parts, h.messages⟩

/-- A command that is done, after whatever its step said before. -/
theorem Accounts.finish (h : Accounts c r p) : Accounts c r (p.2.finish p.1 false) := by
  obtain ⟨v, hv⟩ := h
  refine ⟨v, ?_⟩
  cases v with
  | passed => exact hv
  | announced => exact hv
  | marked =>
    obtain ⟨hcount, hmem, a, z, reason, htext, hspan, hnote⟩ := hv
    have hfound : (p.2.document.bookmark? p.1.bookmark).isSome = true := by
      rw [isSome_bookmark?_iff, ← isSome_span?_iff, hspan]
      rfl
    obtain ⟨d', name, hrename, hdone, -⟩ := Command.markDone_eq hfound
    have hown := (span?_renameBookmark hrename).1
    have hrest : d'.text = p.2.document.text ∧ d'.annotations = p.2.document.annotations := by
      unfold renameBookmark at hrename
      rw [if_pos hfound] at hrename
      cases hrename
      exact ⟨rfl, rfl⟩
    unfold Run.finish
    rw [hdone]
    exact ⟨hcount, hmem, a, z, reason, hrest.1.trans htext, hown.trans hspan, hrest.2 ▸ hnote⟩
  | unseen =>
    obtain ⟨hcount, hmem, hbookmark, hparts, hmessages⟩ := hv
    have hgone : p.1.bookmark ∉ p.2.document.names := by rwa [hbookmark, hparts.names]
    obtain ⟨hb, hd⟩ := Command.markDone_of_notMem hgone
    refine ⟨hcount, hmem, hb.trans hbookmark, ?_, hmessages⟩
    show SameParts r.document (p.1.markDone p.2.document false).2
    rwa [hd]

theorem accounts_of_failures (h : p.2.failures = r.failures) : Accounts c r p := ⟨.passed, h⟩

theorem accounts_executeOverride (hr : r.document.WellFormed) (policy : Policy) :
    Ends (fun _ => False) (executeOverride policy c r) (Accounts c r) := by
  unfold executeOverride
  split
  · split
    · exact accounts_of_failures rfl
    · exact (Run.Prepares.refl r).fail hr _
  · exact accounts_of_failures rfl

theorem accounts_failFragment (h : r.Prepares r₁) (hr : r₁.document.WellFormed)
    {request : FragmentRequest} (hkind : c.kind = .insertFragment request) (id : String)
    (e : InsertionError) :
    Ends (fun _ => False) (failFragment request id e c r₁) (Accounts c r) := by
  unfold failFragment
  split
  next hmanual =>
    refine ⟨.announced, congrArg Nat.succ h.failures, request, id, e, hkind, hmanual, ?_⟩
    exact congrArg (· ++ [_]) h.messages
  · exact h.fail hr _

/-- A fragment takes the place of a command whose bookmark is there. -/
theorem placeFragment_of_mem (hr : r.document.WellFormed) (hmem : c.bookmark ∈ r.document.names)
    {content : Document} (hcontent : content.WellFormed) (request : FragmentRequest) :
    ∃ c' r', placeFragment request content c r = .ok (c', r', none) ∧ r'.failures = r.failures ∧
      r'.document.WellFormed := by
  have hsafe := keptByOperating_wellFormed.placeFragment (c := c) hr request hcontent
  have hplace : ∃ c' d, placeFragment request content c r =
      .ok (c', { r with document := d }, none) := by
    unfold placeFragment
    split
    · obtain ⟨d', hset⟩ := Command.setText_of_mem (d := r.document.importStyles content request.styles)
        (hr.sameParts (.importStyles _ _ _)) hmem []
      dsimp only
      rw [hset]
      exact ⟨c, d', rfl⟩
    · obtain ⟨span, hspan⟩ := Option.isSome_iff_exists.1 (isSome_span?_iff.2 hmem)
      obtain ⟨a, m, z, -, -, hinsert⟩ := insertBetweenMarks_eq hr hspan content
      rw [hinsert]
      exact ⟨_, _, rfl⟩
  obtain ⟨c', d, hplace⟩ := hplace
  rw [hplace] at hsafe
  exact ⟨c', _, hplace, rfl, hsafe⟩

theorem placeFragment_of_notMem (hr : r.document.WellFormed) (hmem : c.bookmark ∉ r.document.names)
    (content : Document) (request : FragmentRequest) :
    ∃ r₁ refusal, placeFragment request content c r = .ok (c, r₁, some refusal) ∧ r.Prepares r₁ ∧
      r₁.document.WellFormed := by
  unfold placeFragment
  split
  · dsimp only
    rw [Command.setText_of_notMem (d := r.document.importStyles content request.styles) hmem]
    exact ⟨_, _, rfl, ⟨⟨rfl, rfl, rfl, rfl, rfl, rfl, rfl⟩, rfl, rfl⟩,
      hr.names, hr.bookmarks, hr.fields, hr.annotations, hr.cursor⟩
  · rw [Command.insertBetweenMarks_of_notMem hmem]
    exact ⟨_, _, rfl, .refl r, hr⟩

theorem accounts_insertFragment (hs : s.LoadsWellFormed) (hr : r.document.WellFormed)
    (jumpMark : Option String) {request : FragmentRequest} (hkind : c.kind = .insertFragment request) :
    Ends (fun _ => False) (insertFragment s jumpMark request c r) (Accounts c r) := by
  unfold insertFragment
  dsimp only
  split
  · refine Ends.andThen ((keptByOperating_wellFormed.write hr c []).and (r.keeps_write c [])) fun r' hr' => ?_
    exact accounts_of_failures hr'.2.failures
  split
  · exact accounts_failFragment (.refl r) hr hkind _ _
  next content hload =>
    by_cases hmem : c.bookmark ∈ r.document.names
    · obtain ⟨c', r', hplace, hfailures, hr'⟩ :=
        placeFragment_of_mem hr hmem (wellFormed_of_loadFragment hs hload) request
      rw [hplace]
      show Ends _ (if request.stylesOnly then .ok (r'.finish c' false) else
        fillPlaceholders s.policy jumpMark c' request.arguments r' >>= fun r => .ok (r.finish c' false)) _
      split
      · exact accounts_of_failures hfailures
      · refine Ends.andThen ((keptByOperating_wellFormed.fillPlaceholders hr' s.policy jumpMark c' request.arguments).and
          (keeps_fillPlaceholders s.policy jumpMark c' request.arguments r')) fun r'' hr'' => ?_
        exact accounts_of_failures (hr''.2.failures.trans hfailures)
    · obtain ⟨r₁, refusal, hplace, hprepares, hr₁⟩ := placeFragment_of_notMem hr hmem content request
      rw [hplace]
      exact accounts_failFragment hprepares hr₁ hkind _ _

theorem accounts_insertContent (hr : r.document.WellFormed) :
    Ends (fun _ => False) (insertContent s c r) (Accounts c r) := by
  unfold insertContent
  split
  · exact accounts_of_failures rfl
  next location contents _ =>
    have hused : r.Prepares { r with contents } := ⟨.refl _, rfl, rfl⟩
    have hplace : Ends (fun _ => False) (placeContent s location c { r with contents })
        (Accounts c r) := by
      unfold placeContent
      split
      · exact hused.fail hr _
      next content hload =>
        by_cases hmem : c.bookmark ∈ r.document.names
        · obtain ⟨span, hspan⟩ := Option.isSome_iff_exists.1 (isSome_span?_iff.2 hmem)
          obtain ⟨a, m, z, htext, -, hinsert⟩ := insertBetweenMarks_eq hr hspan content
          rw [hinsert]
          exact accounts_of_failures rfl
        · rw [Command.insertBetweenMarks_of_notMem hmem]
          exact hused.fail hr _
    exact Ends.andThen hplace fun p hp => hp.finish

theorem accounts_executeInsert (hs : s.LoadsWellFormed) (hr : r.document.WellFormed)
    (jumpMark : Option String) :
    Ends (fun _ => False) (executeInsert s jumpMark c r) (Accounts c r) := by
  unfold executeInsert
  split
  next request hkind => exact accounts_insertFragment hs hr jumpMark hkind
  · exact accounts_insertContent hr
  · exact accounts_of_failures rfl

theorem accounts_takeForm (hr : r.document.WellFormed) (policy : Policy) :
    Ends (fun _ => False) (takeForm policy c r) (Accounts c r) := by
  unfold takeForm
  refine Ends.andThen (safe_commandBody hr) fun body _ => ?_
  split
  · exact (Run.Prepares.refl r).fail hr _
  next nodes _ =>
    have hform : r.Prepares (r.describeForm nodes) ∧ (r.describeForm nodes).document.WellFormed := by
      unfold Run.describeForm
      split
      · exact ⟨.refl r, hr⟩
      · exact ⟨⟨⟨rfl, rfl, rfl, rfl, rfl, rfl, rfl⟩, rfl, rfl⟩,
          hr.names, hr.bookmarks, hr.fields, hr.annotations, hr.cursor⟩
    dsimp only
    by_cases hmem : c.bookmark ∈ (r.describeForm nodes).document.names
    · obtain ⟨d', hset⟩ := Command.setText_of_mem hform.2 hmem []
      rw [hset]
      exact accounts_of_failures hform.1.failures
    · rw [Command.setText_of_notMem hmem]
      exact hform.1.fail hform.2 _

theorem accounts_fillIn (hr : r.document.WellFormed) :
    Ends (fun _ => False) (fillIn s c r) (Accounts c r) := by
  unfold fillIn
  split
  · exact accounts_takeForm hr s.policy
  · exact (Run.Prepares.refl r).fail hr _
  next request _ =>
    unfold insertValue
    split
    · exact (Run.Prepares.refl r).fail hr _
    · refine Ends.andThen ((keptByOperating_wellFormed.write hr c _).and (r.keeps_write c _)) fun r' hr' => ?_
      exact accounts_of_failures hr'.2.failures
  · exact accounts_of_failures rfl

end Steps

/-! ### Runs -/

/-- A part of a run with the verdicts of its steps.  Between them nothing is counted. -/
inductive Log : Run → List Verdict → Run → Prop
  | between {r r' : Run} (h : r'.failures = r.failures) : Log r [] r'
  | step {c : Command} {r : Run} {p : Command × Run} {v : Verdict} (h : v.Holds c r p) : Log r [v] p.2
  | append {r r' r'' : Run} {vs ws : List Verdict} (h : Log r vs r') (h' : Log r' ws r'') :
      Log r (vs ++ ws) r''

theorem Verdict.Holds.failures {c : Command} {r : Run} {p : Command × Run} {v : Verdict}
    (h : v.Holds c r p) : p.2.failures = r.failures + failureCount [v] := by
  cases v with
  | passed => exact h
  | announced => exact h.1
  | marked => exact h.1
  | unseen => exact h.1

/-- A run counts the failures that its log tells of. -/
theorem Log.failures {r r' : Run} {vs : List Verdict} (h : Log r vs r') :
    r'.failures = r.failures + failureCount vs := by
  induction h with
  | between h => exact h
  | step h => exact h.failures
  | append _ _ ih ih' =>
    rw [ih', ih, failureCount, failureCount, failureCount, List.countP_append, Nat.add_assoc]

section Runs

variable {s : Services} {step : Command → Run → Except Fault (Command × Run)} {cs : List Command}
  {r : Run}

/-- A run has a log. -/
def Logged {α : Type} (run : α → Run) (r : Run) (a : α) : Prop := ∃ vs, Log r vs (run a)

theorem Logged.refl (r : Run) : Logged id r r := ⟨[], .between rfl⟩

theorem Logged.andThen {α β : Type} {run : α → Run} {run' : β → Run} {a : α} {b : β} {r : Run}
    (h : Logged run r a) (h' : Logged run' (run a) b) : Logged run' r b := by
  obtain ⟨vs, hvs⟩ := h
  obtain ⟨ws, hws⟩ := h'
  exact ⟨vs ++ ws, hvs.append hws⟩

end Runs

theorem passes_executeOverride {c : Command} {r : Run} {names : List String}
    (hr : r.document.Consistent) (ha : r.document.Arranged (c.bookmark :: names)) (policy : Policy) :
    Ends (fun _ => False) (executeOverride policy c r) (PassesBy names r) := by
  have hc := (List.nodup_cons.1 ha.distinct).1
  unfold executeOverride
  split
  · split
    next overrides _ =>
      exact passes_finish (p := (c, { r with overrides })) (stays_of_eq hr hc rfl rfl) ha _
    · exact (stays_fail hr ha _).mono fun p hp => hp.passesBy
  · exact (stays_of_eq (p := (c, r)) hr hc rfl rfl).passesBy

/-- Where the pending commands of a list lie apart, each failure is shown. -/
theorem visible_visitPending {step : Command → Run → Except Fault (Command × Run)}
    (hstep : ∀ {c r names}, r.document.Consistent → r.document.Arranged (c.bookmark :: names) →
      Ends (fun _ => False) (step c r) (PassesBy names r))
    (haccounts : ∀ {c r}, r.document.WellFormed → Ends (fun _ => False) (step c r) (Accounts c r))
    {cs : List Command} {r : Run} (hr : r.document.Consistent)
    (ha : r.document.Arranged (pendingNames cs)) :
    Ends (fun _ => False) (visitPending step cs r) fun p => ∃ vs, Log r vs p.2 ∧ .unseen ∉ vs := by
  induction cs generalizing r with
  | nil => exact ⟨[], .between rfl, List.not_mem_nil⟩
  | cons c cs ih =>
    cases hc : c.isPending with
    | false =>
      rw [visitPending_skip hc]
      refine Ends.andThen (ih hr (by simpa [pendingNames, hc] using ha)) fun p hp => hp
    | true =>
      rw [pendingNames_cons hc] at ha
      rw [visitPending_cons hc]
      refine Ends.andThen ((hstep hr ha).and (haccounts hr.toWellFormed)) fun q hq => ?_
      obtain ⟨⟨hq, hspares⟩, v, hv⟩ := hq
      have hseen : v ≠ .unseen := by
        rintro rfl
        exact hv.2.1 (isSome_span?_iff.1 (ha.found c.bookmark (by simp)))
      refine Ends.andThen (ih hq ((ha.sublist (List.sublist_cons_self _ _)).spares hspares)) ?_
      rintro p ⟨vs, hlog, hvs⟩
      exact ⟨[v] ++ vs, (Log.step hv).append hlog, by simp [hseen.symm, hvs]⟩

/-- The overrides and the phases that put texts in the places of commands. -/
theorem visible_phases {s : Services} (hs : s.LoadsWellFormed) {cs : List Command} {r : Run}
    (hr : r.document.Consistent) (ha : r.document.Arranged (pendingNames cs)) :
    (Ends (fun _ => False) (executeOverrides s cs r) fun p => ∃ vs, Log r vs p.2 ∧ .unseen ∉ vs) ∧
    ∀ phase : TextPhase, Ends (fun _ => False) (phase.run s cs r) fun p =>
      ∃ vs, Log r vs p.2 ∧ .unseen ∉ vs := by
  refine ⟨visible_visitPending (fun hr ha => passes_executeOverride hr ha s.policy)
    (fun hr => accounts_executeOverride hr s.policy) hr ha, fun phase => ?_⟩
  rw [phase.run_eq]
  refine visible_visitPending (fun hr ha => phase.passes_step hs cs hr ha) (fun hr => ?_) hr ha
  cases phase with
  | insertions => exact accounts_executeInsert hs hr _
  | values => exact accounts_fillIn hr

end TemplateEngine
