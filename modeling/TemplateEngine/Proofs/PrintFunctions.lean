import TemplateEngine.Proofs.Declarations
import TemplateEngine.Proofs.Faults

/-!
# PrintFunctions — which commands for print functions a run leaves

Both scans of a run consume the commands for print functions in the list.  A command is known by the name
of its bookmark, and a consumed one stays in the list as done.  When a content brings a bookmark with that
name again, the refreshed list takes it for the one that is done, and the second scan passes over it.

* `Attends`: between two steps every command whose bookmark declares a print function is pending, unless
  its name is a known one; `Attends.pass` is the step lemma, `attended_executeTemplate` the run.
* `process_consumesPrintFunctions`: what a run leaves was consumed by its first scan and brought again.
* `pendingAfter_printedTwice`: a document of which such a command is left.
-/

namespace TemplateEngine

/-- Whether a name says that a print function is still to be entered. -/
def DeclaresPrintFunction (n : String) : Prop := ∃ function, IsPendingName n (.setPrintFunction function)

/-- Whether the name is one that a content brings for one of its bookmarks. -/
def Services.Brings (s : Services) (n : String) : Prop :=
  ∃ l content, s.load l = .ok content ∧ ∃ m ∈ content.names, Variant m n

section Steps

variable {s : Services} {known : List String} {c c' : Command} {cs before after : List Command}
  {d d' : Document} {r : Run}

/-- The bookmarks that declare print functions were brought by contents, and the commands of such bookmarks
are still to be executed unless their names are known ones. -/
structure Attends (s : Services) (known : List String) (cs : List Command) (d : Document) : Prop where
  distinct : d.names.Nodup
  isCommand : ∀ c ∈ cs, c.config.IsCommand
  pending : ∀ c ∈ cs, ∀ function, IsPendingName c.bookmark (.setPrintFunction function) →
    c.bookmark ∈ known ∨ c.kind = .setPrintFunction function ∧ c.isPending = true
  brought : ∀ n ∈ d.names, DeclaresPrintFunction n → s.Brings n

/-- What a step does that executes a command for something else than a print function. -/
structure ServesElse (s : Services) (c : Command) (d : Document) (c' : Command) (d' : Document) :
    Prop where
  kind : ∀ function, c.kind ≠ .setPrintFunction function
  isCommand : c'.config.IsCommand
  bookmark : c'.bookmark = c.bookmark ∨ ∀ kind, ¬ IsPendingName c'.bookmark kind
  distinct : d'.names.Nodup
  names : ∀ n ∈ d'.names, n ∈ d.names ∨ s.Brings n ∨ ∀ kind, ¬ IsPendingName n kind

/-- Whether a step of a phase executes commands only for something else than print functions. -/
def LeavesPrintFunctions {σ : Type} (s : Services) (doc : σ → Document)
    (step : Command → σ → Except Fault (Command × σ)) : Prop :=
  ∀ c r, c.config.IsCommand → (doc r).names.Nodup → Ends (fun _ => True) (step c r) fun p =>
    ServesElse s c (doc r) p.1 (doc p.2) ∨ p.1 = c ∧ doc p.2 = doc r

namespace Attends

/-- Names that go and flags that change make no difference. -/
theorem mono (h : Attends s known cs d) (hd' : d'.names.Nodup) (hd : d'.names ⊆ d.names) :
    Attends s known cs d' :=
  ⟨hd', h.isCommand, h.pending, fun n hn => h.brought n (hd hn)⟩

/-- One step. -/
theorem pass (h : Attends s known (before ++ c :: after) d) (hp : ServesElse s c d c' d') :
    Attends s known (before ++ c' :: after) d' where
  distinct := hp.distinct
  isCommand := forall_mem_replace h.isCommand hp.isCommand
  pending := forall_mem_replace h.pending fun function hname => by
    rcases hp.bookmark with hb | hdone
    · rw [hb] at hname ⊢
      refine (h.pending c (by simp) function hname).imp_right fun hkind => ?_
      exact absurd hkind.1 (hp.kind function)
    · exact absurd hname (hdone _)
  brought := fun n hn ⟨function, hname⟩ => by
    rcases hp.names n hn with hold | hbrought | hdone
    · exact h.brought n hold ⟨function, hname⟩
    · exact hbrought
    · exact absurd hname (hdone _)

/-- The new bookmarks get pending commands. -/
theorem refresh (h : Attends s known cs d) : Attends s known (Command.refresh d cs).1 d where
  distinct := h.distinct
  isCommand := Command.forall_mem_refresh h.isCommand fun _ _ _ hc => isCommand_of_ofBookmark? hc
  pending := Command.forall_mem_refresh h.pending fun n _ c hc function hname => by
    obtain ⟨c', hc', hpending, hkind⟩ := hname
    rw [Command.bookmark_of_ofBookmark? hc, hc] at hc'
    obtain rfl := Option.some.inj hc'
    exact .inr ⟨hkind, hpending⟩
  brought := h.brought

/-- A whole phase. -/
theorem visit {σ : Type} {doc : σ → Document} {step : Command → σ → Except Fault (Command × σ)}
    (hstep : LeavesPrintFunctions s doc step) {r : σ} (h : Attends s known cs (doc r)) :
    Ends (fun _ => True) (visit step cs r) fun p => Attends s known p.1 (doc p.2) := by
  refine Ends.visitAll (I := fun cs r => Attends s known cs (doc r)) h fun before c after r hI => ?_
  refine (hstep c r (hI.isCommand c (by simp)) hI.distinct).mono fun p hp => ?_
  rcases hp with hp | ⟨hc, hd⟩
  · exact hI.pass hp
  · rwa [hc, hd]

theorem visitPending {σ : Type} {doc : σ → Document} {step : Command → σ → Except Fault (Command × σ)}
    (hstep : LeavesPrintFunctions s doc step) {r : σ} (h : Attends s known cs (doc r)) :
    Ends (fun _ => True) (visitPending step cs r) fun p => Attends s known p.1 (doc p.2) := by
  refine visit (fun c r hc hr => ?_) h
  split
  · exact hstep c r hc hr
  · exact .inr ⟨rfl, rfl⟩

theorem lockedPhase {step : Command → Run → Except Fault (Command × Run)}
    (hstep : LeavesPrintFunctions s Run.document step) (h : Attends s known cs r.document) :
    Ends (fun _ => True) (lockedPhase (TemplateEngine.visitPending step) cs r) fun p =>
      Attends s known p.1 p.2.document := by
  let locked : Run := { r with document := r.document.lock }
  have hlock : Attends s known cs locked.document := h.mono h.distinct (List.Subset.refl _)
  exact Ends.andThen (hlock.visitPending hstep) fun p hp => hp.mono hp.distinct (List.Subset.refl _)

end Attends

/-! ### Expansion -/

theorem Executes.servesElse {own : CommandKind → Bool} {p : Command × Run} (h : Executes s own c r p)
    (hown : ∀ function, own (.setPrintFunction function) = false) :
    ServesElse s c r.document p.1 p.2.document ∨ p.1 = c ∧ p.2.document = r.document := by
  rcases h with ⟨hkind, hexec⟩ | ⟨-, rfl⟩
  · refine .inl ⟨fun function hc => ?_, hexec.isCommand, hexec.bookmark, hexec.distinct, fun n hn => ?_⟩
    · rw [hc, hown] at hkind
      cases hkind
    · rcases hexec.names n hn with ⟨hold, -⟩ | ⟨l, content, -, hload, hm⟩ | hdone
      · exact .inl hold
      · exact .inr (.inl ⟨l, content, hload, hm⟩)
      · exact .inr (.inr hdone)
  · exact .inr ⟨rfl, rfl⟩

theorem leaves_executeOverride (s : Services) :
    LeavesPrintFunctions s Run.document (executeOverride s.policy) := fun _ _ hc hr =>
  (executeOverride_spec s hc hr).mono fun _ hp => hp.servesElse fun _ => rfl

theorem leaves_executeInsert (s : Services) (jumpMark : Option String) :
    LeavesPrintFunctions s Run.document (executeInsert s jumpMark) := fun _ _ hc hr =>
  (executeInsert_spec jumpMark hc hr).mono fun _ hp => hp.servesElse fun _ => rfl

theorem attends_expandOnce (h : Attends s known cs r.document) :
    Ends (fun _ => True) (expandOnce s cs r) fun p => Attends s known p.1 p.2.1.document := by
  refine Ends.andThen (h.visitPending (leaves_executeOverride s)) fun p hp => ?_
  refine Ends.andThen (hp.visitPending (leaves_executeInsert s _)) fun q hq => ?_
  exact hq.refresh

theorem attends_expandFrom (done left : Nat) (h : Attends s known cs r.document) :
    Ends (fun _ => True) (expandFrom s done left cs r) fun p =>
      Attends s known p.2.1 p.2.2.document := by
  induction left generalizing done cs r with
  | zero => exact h
  | succ left ih =>
    refine Ends.andThen (attends_expandOnce h) fun p hp => ?_
    obtain ⟨cs', r', changed⟩ := p
    cases changed with
    | false => exact hp
    | true => exact ih (done + 1) hp

/-! ### The phases after expansion -/

theorem Executed.servesElse {own : CommandKind → Bool} (h : Executed c d c' d') (hkind : own c.kind = true)
    (hown : ∀ function, own (.setPrintFunction function) = false) : ServesElse s c d c' d' where
  kind := fun function hc => by
    rw [hc, hown] at hkind
    cases hkind
  isCommand := h.isCommand
  bookmark := h.bookmark
  distinct := h.distinct
  names := fun n hn => (h.names n hn).imp And.left .inr

theorem Passes.servesElse {own : CommandKind → Bool} (h : Passes own c d c' d')
    (hown : ∀ function, own (.setPrintFunction function) = false) :
    ServesElse s c d c' d' ∨ c' = c ∧ d' = d := by
  rcases h with ⟨hkind, hexec⟩ | ⟨hc, hd, -⟩
  · exact .inl (hexec.servesElse hkind hown)
  · exact .inr ⟨hc, hd⟩

theorem leaves_updateFields (s : Services) :
    LeavesPrintFunctions s Run.document (updateFields s.policy) := fun _ _ hc hr =>
  (passes_updateFields s.policy hc hr).mono fun _ hp => hp.2.servesElse fun _ => rfl

theorem leaves_fillIn (s : Services) : LeavesPrintFunctions s Run.document (fillIn s) := by
  intro c r hc hr
  refine (fillIn_spec s c r).mono fun p hp => ?_
  split at hp
  next hkind =>
    rcases hp with ⟨-, hfailed, hnames⟩ | ⟨-, hexec⟩
    · refine .inl ⟨fun function h => ?_, by rw [hfailed]; exact hc, .inl (by rw [hfailed]; rfl),
        hr.sublist hnames, fun n hn => .inl (hnames.subset hn)⟩
      rw [h] at hkind
      cases hkind
    · exact .inl ((hexec hc hr).servesElse hkind fun _ => rfl)
  · exact .inr (by simp [hp])

theorem leaves_collectFrom (s : Services) :
    LeavesPrintFunctions s Prod.fst (collectFrom s.policy) := fun _ _ hc hr =>
  (passes_collectFrom s.policy hc hr).mono fun _ hp => hp.servesElse fun _ => rfl

theorem attends_collectGarbage (h : Attends s known cs d) :
    Ends (fun _ => True) (collectGarbage s.policy cs d) fun p => Attends s known p.1 p.2 := by
  have hcollect : Ends (fun _ => True) (collect s.policy cs d) fun p => Attends s known p.1 p.2.1 :=
    Attends.visit (leaves_collectFrom s) h
  refine Ends.andThen hcollect fun p hp => ?_
  exact Ends.andThen (reduces_sweep hp.distinct p.2.2) fun d hd => hp.mono hd.1 hd.2

/-- Every bookmark that declares a print function was brought by a content, and it has a pending command
in the list unless its name is a known one. -/
def Attended (s : Services) (known : List String) (cs : List Command) (d : Document) : Prop :=
  ∀ n ∈ d.names, ∀ function, IsPendingName n (.setPrintFunction function) → s.Brings n ∧
    (n ∈ known ∨ ∃ c ∈ cs, c.bookmark = n ∧ c.kind = .setPrintFunction function ∧ c.isPending = true)

/-- A refreshed list has a command for every bookmark. -/
theorem Attends.attended_refresh (h : Attends s known cs d) :
    Attended s known (Command.refresh d cs).1 d := by
  intro n hn function hname
  refine ⟨h.brought n hn ⟨function, hname⟩, ?_⟩
  obtain ⟨c₀, hc₀, -, -⟩ := id hname
  obtain ⟨c, hc, rfl⟩ : ∃ c ∈ (Command.refresh d cs).1, c.bookmark = n :=
    Command.exists_mem_refresh hn hc₀
  exact (h.refresh.pending c hc function hname).imp_right fun hkind => ⟨c, hc, rfl, hkind⟩

theorem attended_completeRun (h : Attends s known cs r.document) :
    Ends (fun _ => True) (completeRun s cs r) fun p => Attended s known p.1 p.2.document := by
  unfold completeRun
  refine Ends.andThen (h.lockedPhase (leaves_updateFields s)) fun p hp => ?_
  refine Ends.andThen (hp.lockedPhase (leaves_fillIn s)) fun q hq => ?_
  refine Ends.andThen (attends_collectGarbage hq) fun o ho => ?_
  have hrefresh := ho.attended_refresh
  exact hrefresh

theorem attended_executeTemplate {m : Model} (h : Attends s known m.commands m.document) :
    Ends (fun _ => True) (m.executeTemplate s) fun o =>
      Attended s known o.model.commands o.model.document := by
  have hstart : Attends s known m.enter.commands m.enter.startRun.document :=
    h.mono h.distinct (List.Subset.refl _)
  unfold Model.executeTemplate
  refine Ends.andThen (attends_expandFrom 0 maxRounds hstart) fun p hp => ?_
  exact Ends.andThen (attended_completeRun hp) fun q hq => hq

/-! ### Scans -/

section Scans

variable {m m' : Model} {locations : List String} {mustProcess : Bool}

/-- The first scan leaves no bookmark of the document that declares a print function. -/
theorem not_declares_of_scanned (h : (Model.fresh d locations mustProcess).Scanned m) {n : String}
    (hn : n ∈ m.document.names) : ¬ DeclaresPrintFunction n := by
  rintro ⟨function, c, hc, hpending, hkind⟩
  have hconsumed := h.isConsumed_of_mem_ofDocument rfl (Command.mem_ofDocument_iff.2 ⟨n, hn, hc⟩)
  simp [Command.isConsumed, hpending, hkind, CommandKind.isConsumed] at hconsumed

/-- After the first scan only the names of the document are known. -/
theorem attends_of_scanned (hd : d.names.Nodup)
    (h : (Model.fresh d locations mustProcess).Scanned m) : Attends s d.names m.commands m.document := by
  have hread : ∀ c ∈ m.commands, ∃ c₀ ∈ Command.ofDocument d, c = c₀.scanned d.hasLocation := by
    intro c hc
    rw [h.heeds.commands] at hc
    obtain ⟨c₀, hc₀, rfl⟩ := List.mem_map.1 hc
    exact ⟨c₀, hc₀, rfl⟩
  refine ⟨h.names ▸ hd.filter _, fun c hc => ?_, fun c hc function _ => .inl ?_, fun n hn hname => ?_⟩
  · obtain ⟨c₀, hc₀, rfl⟩ := hread c hc
    rw [Command.config_scanned]
    exact (isFaithful_of_mem_ofDocument hc₀).isCommand
  · obtain ⟨c₀, hc₀, rfl⟩ := hread c hc
    rw [Command.bookmark_scanned]
    exact Command.bookmark_mem_of_mem_refresh hc₀
  · exact absurd hname (not_declares_of_scanned h hn)

/-- The second scan consumes what has a pending command. -/
theorem Attended.of_scanned (h : Attended s known m.commands m.document) (hm : m.Scanned m') {n : String}
    (hn : n ∈ m'.document.names) (hname : DeclaresPrintFunction n) : n ∈ known ∧ s.Brings n := by
  obtain ⟨function, hname⟩ := hname
  have hold : n ∈ m.document.names := by
    rw [hm.names] at hn
    exact (List.mem_filter.1 hn).1
  obtain ⟨hbrought, hknown | ⟨c, hc, rfl, hkind, hpending⟩⟩ := h n hold function hname
  · exact ⟨hknown, hbrought⟩
  · have hconsumed := hm.isConsumed_of_bookmark_mem hc hn
    simp [Command.isConsumed, hpending, hkind, CommandKind.isConsumed] at hconsumed

end Scans

end Steps

/-! ### The whole run -/

/-- After a successful run the commands for print functions are consumed.  One is left only if the template
was executed, the document had a bookmark of that name itself, and a content brings one. -/
theorem process_consumesPrintFunctions {d : Document} (hd : (d.bookmarks.map (·.name)).Nodup)
    (s : Services) (locations : List String) (mustProcess : Bool) {o : Outcome Report} {report : Report}
    (hrun : (Model.fresh d locations mustProcess).process s = .ok o) (hok : o.result = .ok report) :
    ∀ b ∈ o.model.document.bookmarks, ∀ c function, Command.ofBookmark? b.name = some c →
      c.isPending = true → c.kind = .setPrintFunction function →
      report.fixpoint.isSome = true ∧ b.name ∈ d.bookmarks.map (·.name) ∧ s.Brings b.name := by
  suffices hends : Ends (fun _ => True) ((Model.fresh d locations mustProcess).process s) fun o =>
      ∀ report, o.result = .ok report → ∀ n ∈ o.model.document.names, DeclaresPrintFunction n →
        report.fixpoint.isSome = true ∧ n ∈ d.names ∧ s.Brings n by
    intro b hb c function hc hpending hkind
    exact hends.of_eq_ok hrun report hok b.name (List.mem_map_of_mem hb)
      ⟨function, c, hc, hpending, hkind⟩
  unfold Model.process
  refine Ends.andThen ((scanned_scanSettings _).allow fun _ => False.elim) fun m hm => ?_
  split
  · refine Ends.andThen (attended_executeTemplate (attends_of_scanned hd hm)) fun executed hexec => ?_
    split
    · rintro report ⟨⟩
    · refine Ends.andThen ((scanned_scanSettings _).allow fun _ => False.elim) fun m' hm' => ?_
      rintro report ⟨⟩ n hn hname
      rw [document_conclude] at hn
      exact ⟨rfl, hexec.of_scanned hm' hn hname⟩
  · rintro report ⟨⟩ n hn hname
    rw [document_conclude] at hn
    exact absurd hname (not_declares_of_scanned hm hn)

/-- A fragment that declares a print function; the names of kinds are read without regard to case. -/
def declaring : Document :=
  { Document.ofText "x".toList with
    bookmarks := [⟨"DOC(CMD 'setprintfunction' FUNCTION 'F')", ⟨0, 1⟩⟩] }

/-- Surroundings with that fragment only. -/
def printing : Services := { closingOnly with load := fun _ => .ok declaring }

/-- A document that inserts the fragment. -/
def printed : Document :=
  { Document.ofText "?".toList with bookmarks := [⟨"DOC(CMD 'insertFrag' FRAG_ID 'f')", ⟨0, 1⟩⟩] }

/-- A document that declares the print function itself and inserts the fragment. -/
def printedTwice : Document :=
  { Document.ofText "?".toList with
    bookmarks :=
      [⟨"DOC(CMD 'setprintfunction' FUNCTION 'F')", ⟨0, 0⟩⟩,
       ⟨"DOC(CMD 'insertFrag' FRAG_ID 'f')", ⟨0, 1⟩⟩] }

theorem process_consumesPrintFunctions_printed :
    ∃ o report, (Model.fresh printed [] false).process printing = .ok o ∧ o.result = .ok report ∧
      ∀ b ∈ o.model.document.bookmarks, ∀ c function, Command.ofBookmark? b.name = some c →
        c.isPending = true → c.kind ≠ .setPrintFunction function := by
  obtain ⟨o, report, hrun, hok, -⟩ := exists_of_succeeds
    (x := (Model.fresh printed [] false).process printing) (by cbv)
  refine ⟨o, report, hrun, hok, ?_⟩
  intro b hb c function hc hpending hkind
  obtain ⟨-, hmem, -⟩ := process_consumesPrintFunctions (by decide) printing [] false hrun hok b hb c
    function hc hpending hkind
  have hname : b.name = "DOC(CMD 'insertFrag' FRAG_ID 'f')" := List.mem_singleton.1 hmem
  have hread : (Command.ofBookmark? "DOC(CMD 'insertFrag' FRAG_ID 'f')").map (·.kind) =
      some (.insertFragment ⟨"f", [], false, []⟩) := by cbv
  rw [← hname, hc, Option.map_some, hkind] at hread
  cases hread

/-! ### A command that is left -/

/-- The commands that are still to be executed after processing, if it succeeds. -/
def pendingAfter (s : Services) (d : Document) :
    Except Fault (Except ProcessError (List (String × CommandKind))) :=
  ((Model.fresh d [] false).process s).map fun o => o.result.map fun _ =>
    ((Command.ofDocument o.model.document).filter (·.isPending)).map fun c => (c.bookmark, c.kind)

theorem pendingAfter_printedTwice :
    (printedTwice.bookmarks.map (·.name)).Nodup ∧
      pendingAfter printing printedTwice =
        .ok (.ok [("DOC(CMD 'setprintfunction' FUNCTION 'F')", .setPrintFunction "F")]) :=
  ⟨by decide, by cbv⟩

end TemplateEngine
