import TemplateEngine.Proofs.Cleaning
import TemplateEngine.Proofs.Convergence
import TemplateEngine.Proofs.Order

/-!
# DebugMode — what the bookmarks of done commands change

An override is the one command that is finished before contents are inserted.  Where none is pending, in
the document or in a content, expansion is the same in both modes (`NoOverrides.expandFrom_inMode`), and
the runs come to the removal of the marks alike (`NoOverrides.runUntilCleanup_inMode`).  If each command
that inserts has a bookmark of its own then, they end alike (`process_inMode`).  Where a content brings an
override under the name of one that was entered before, the modes part (`process_overridingAgain`).
-/

namespace TemplateEngine

/-! ### Templates in which nothing is overridden -/

/-- Whether the document has no command for an override that is still to be entered. -/
def Document.overridesNothing (d : Document) : Bool :=
  d.names.all fun n => !(Command.ofBookmark? n).any fun c => c.isPending && c.kind.isOverride

/-- Whether no content that can be loaded has a command for an override. -/
def Services.LoadsNoOverrides (s : Services) : Prop :=
  ∀ l content, s.load l = .ok content → content.overridesNothing = true

theorem Document.isOverride_eq_false {d : Document} (hd : d.overridesNothing = true) {n : String}
    (hn : n ∈ d.names) {kind : CommandKind} (hkind : IsPendingName n kind) : kind.isOverride = false := by
  obtain ⟨c, hc, hpending, rfl⟩ := hkind
  have := List.all_eq_true.1 hd n hn
  simpa [hc, hpending] using this

/-- A state of a run in which nothing is overridden. -/
structure NoOverrides (cs : List Command) (d : Document) : Prop where
  distinct : d.names.Nodup
  named : ∀ c ∈ cs, c.IsNamed
  read : ∀ c ∈ cs, c.isPending = true → Command.ofBookmark? c.bookmark = some c
  listed : ∀ c ∈ cs, c.isPending = true → c.kind.isOverride = false
  names : ∀ n ∈ d.names, ∀ kind, IsPendingName n kind → kind.isOverride = false

namespace NoOverrides

variable {s : Services} {c c' : Command} {before after cs : List Command} {d d' : Document} {r : Run}

theorem isAsNamed (h : NoOverrides cs d) (hc : c ∈ cs) : c.IsAsNamed :=
  (h.named c hc).isAsNamed (h.read c hc)

/-- A command is executed, and no name of a pending override comes in. -/
theorem replace (h : NoOverrides (before ++ c :: after) d) (hc' : c'.IsNamed)
    (hidle : c'.isPending = false) (hd' : d'.names.Nodup)
    (hnames : ∀ n ∈ d'.names, n ∈ d.names ∨ ∀ kind, IsPendingName n kind → kind.isOverride = false) :
    NoOverrides (before ++ c' :: after) d' := by
  have hnot : c'.isPending ≠ true := by simp [hidle]
  exact ⟨hd', forall_mem_replace h.named hc', forall_mem_replace h.read fun hp => absurd hp hnot,
    forall_mem_replace h.listed fun hp => absurd hp hnot,
    fun n hn => (hnames n hn).elim (h.names n) id⟩

/-- One insertion. -/
theorem insert (hs : s.LoadsNoOverrides) (h : NoOverrides (before ++ c :: after) r.document)
    {p : Command × Run} (hp : Executes s CommandKind.isInsertion c r p) (hnamed : p.1.IsNamed) :
    NoOverrides (before ++ p.1 :: after) p.2.document := by
  rcases hp with ⟨-, hexec⟩ | ⟨-, rfl⟩
  · refine h.replace hnamed hexec.idle hexec.distinct fun n hn => ?_
    rcases hexec.names n hn with ⟨hold, -⟩ | ⟨l, content, -, hload, m, hm, hvariant⟩ | hnone
    · exact .inl hold
    · refine .inr fun kind hkind => ?_
      obtain ⟨x, hx, hpending, rfl⟩ := hkind
      rw [hvariant.ofBookmark?] at hx
      obtain ⟨y, hy, rfl⟩ := Option.map_eq_some_iff.1 hx
      exact Document.isOverride_eq_false (hs l content hload) hm ⟨y, hy, hpending, rfl⟩
    · exact .inr fun kind hkind => absurd hkind (hnone kind)
  · exact h

theorem refresh (h : NoOverrides cs d) : NoOverrides (Command.refresh d cs).1 d where
  distinct := h.distinct
  named := Command.forall_mem_refresh h.named fun n _ c hc => Command.isNamed_of_ofBookmark? hc
  read := Command.forall_mem_refresh h.read fun n _ c hc _ => by
    rw [Command.bookmark_of_ofBookmark? hc, hc]
  listed := Command.forall_mem_refresh h.listed fun n hn c hc hpending =>
    h.names n hn c.kind ⟨c, hc, hpending, rfl⟩
  names := h.names

/-- Scanning the settings. -/
theorem scanSettings {m : Model} (h : NoOverrides m.commands m.document) :
    Ends (fun _ => False) m.scanSettings fun m' => NoOverrides m'.commands m'.document := by
  refine scanSettings_rule (fun cs d d' hsame h => ?_) (fun before c after d _ h => ?_) h
  · exact ⟨hsame.names ▸ h.distinct, h.named, h.read, h.listed, hsame.names ▸ h.names⟩
  · have hnames := names_markDone_remove c d
    refine h.replace ((h.named c (by simp)).markDone d true) ?_ (h.distinct.sublist hnames)
      fun n hn => .inl (hnames.subset hn)
    simp [Command.isPending, done_markDone]

/-- There are no overrides to enter. -/
theorem executeOverrides_eq (h : NoOverrides cs r.document) : executeOverrides s cs r = .ok (cs, r) := by
  refine visitPending_eq_self fun c hc hpending => ?_
  have hkind := h.listed c hc hpending
  unfold executeOverride
  split
  next hoverride => simp [hoverride, CommandKind.isOverride] at hkind
  · rfl

theorem expandOnce (hs : s.LoadsNoOverrides) (h : NoOverrides cs r.document) :
    Ends (fun _ => True) (expandOnce s cs r) fun p => NoOverrides p.1 p.2.1.document := by
  have hvisit : Ends (fun _ => True) (executeInserts s cs r) fun p => NoOverrides p.1 p.2.document := by
    refine Ends.visitPendingAll (I := fun cs (r : Run) => NoOverrides cs r.document) h
      fun before c after r _ hI => ?_
    have hc := hI.named c (by simp)
    exact ((executeInsert_spec _ hc.isCommand hI.distinct).and (isNamed_executeInsert hc _)).mono
      fun p hp => hI.insert hs hp.1 hp.2
  unfold TemplateEngine.expandOnce
  rw [h.executeOverrides_eq]
  refine Ends.andThen (P := fun p => p = (cs, r)) rfl ?_
  rintro _ rfl
  exact Ends.andThen hvisit fun p hp => hp.refresh

/-- A round is the same in both modes. -/
theorem expandOnce_inMode (h : NoOverrides cs r.document) (b : Bool) :
    TemplateEngine.expandOnce (s.inMode b) cs r = TemplateEngine.expandOnce s cs r := by
  unfold TemplateEngine.expandOnce
  rw [h.executeOverrides_eq, h.executeOverrides_eq]
  rfl

/-- All rounds are the same in both modes. -/
theorem expandFrom_inMode (hs : s.LoadsNoOverrides) (b : Bool) (done left : Nat)
    (h : NoOverrides cs r.document) :
    expandFrom (s.inMode b) done left cs r = expandFrom s done left cs r ∧
      Ends (fun _ => True) (expandFrom s done left cs r) fun p => NoOverrides p.2.1 p.2.2.document := by
  induction left generalizing done cs r with
  | zero => exact ⟨rfl, h⟩
  | succ left ih =>
    have honce := h.expandOnce hs
    unfold expandFrom
    rw [h.expandOnce_inMode b]
    cases hrun : TemplateEngine.expandOnce s cs r with
    | error f => exact ⟨rfl, trivial⟩
    | ok p =>
      obtain ⟨cs', r', changed⟩ := p
      have hp : NoOverrides cs' r'.document := honce.of_eq_ok hrun
      cases changed with
      | false => exact ⟨rfl, hp⟩
      | true => exact ih (done + 1) hp

theorem fresh {d : Document} (hd : d.names.Nodup) (hno : d.overridesNothing = true) :
    NoOverrides (Command.ofDocument d) d :=
  have hnone : NoOverrides [] d :=
    ⟨hd, by simp, by simp, by simp, fun _ hn _ => Document.isOverride_eq_false hno hn⟩
  hnone.refresh

/-- Runs up to the removal of the marks, in any two modes. -/
theorem runUntilCleanup_inMode (hs : s.LoadsNoOverrides) {m : Model}
    (h : NoOverrides m.commands m.document) (b b' : Bool) :
    Parallel (fun p q => p.1 = q.1 ∧ ListAlike p.2 q.2) (m.runUntilCleanup (s.inMode b))
      (m.runUntilCleanup (s.inMode b')) := by
  have hstart : NoOverrides m.commands m.enter.startRun.document :=
    ⟨h.distinct, h.named, h.read, h.listed, h.names⟩
  obtain ⟨hmode, hends⟩ := hstart.expandFrom_inMode hs b 0 maxRounds
  have hmode' := (hstart.expandFrom_inMode hs b' 0 maxRounds).1
  have hexpand : Parallel (fun p q => p.1 = q.1 ∧ ListAlike p.2 q.2)
      (expand (s.inMode b) m.commands m.enter.startRun)
      (expand (s.inMode b') m.commands m.enter.startRun) := by
    refine Parallel.of_eq (hmode.trans hmode'.symm) fun p hp => ⟨rfl, ?_, ?_⟩
    · have hp := hends.of_eq_ok (hmode.symm.trans hp)
      exact List.forall₂_same.2 fun c hc => .refl (hp.isAsNamed hc)
    · have hp := hends.of_eq_ok (hmode.symm.trans hp)
      exact ⟨.refl hp.distinct, rfl⟩
  refine hexpand.andThen ?_
  rintro ⟨fixpoint, cs, r⟩ ⟨_, cs', r'⟩ ⟨rfl, hcs, hr⟩
  refine (parallel_lockedPhase (fun hr => parallel_visitPending
    (fun hr hc hpending => parallel_updateFields hr hc hpending _ _) hcs hr) hr).andThen fun p q hpq => ?_
  refine (parallel_lockedPhase (fun hr => parallel_visitPending
    (fun hr hc hpending => parallel_fillIn hr hc hpending b b') hpq.1 hr) hpq.2).andThen fun p q hpq => ?_
  exact ⟨rfl, hpq⟩

end NoOverrides

/-! ### Processing in both modes -/

/-- Executing a template in any two modes. -/
theorem NoOverrides.executeTemplate_inMode {s : Services} (hs : s.LoadsNoOverrides) {m : Model}
    (h : NoOverrides m.commands m.document) {b : Bool}
    (hown : Ends (fun _ => True) (m.runUntilCleanup (s.inMode b)) fun p =>
      HasOwnBookmarks p.2.1 p.2.2.document) (b' : Bool) :
    Parallel (fun o o' => o.model.document.SameText o'.model.document ∧ o.messages = o'.messages ∧
        o.result = o'.result)
      (m.executeTemplate (s.inMode b)) (m.executeTemplate (s.inMode b')) := by
  rw [executeTemplate_eq, executeTemplate_eq]
  refine ((h.runUntilCleanup_inMode hs b b').and fun _ => hown.of_eq_ok).andThen ?_
  rintro ⟨fixpoint, p⟩ ⟨_, q⟩ ⟨⟨rfl, hpq⟩, hp⟩
  refine (parallel_collectGarbage hpq hp _ _).andThen fun o o' ho => ?_
  have hrest := hpq.2.rest
  exact ⟨ho, (congrArg (·.messages) hrest).symm, by rw [congrArg (·.failures) hrest]⟩

theorem text_scanSettings (m : Model) :
    Ends (fun _ => False) m.scanSettings fun m' => m'.document.text = m.document.text :=
  (scanned_scanSettings m).mono fun _ hm => hm.heeds.parts.text

/-- Whether, in processing a model, each command that inserts has a bookmark of its own when the marks are
removed. -/
def Model.KeepsInserters (m : Model) (s : Services) : Prop :=
  Ends (fun _ => True) (m.scanSettings >>= fun m => m.runUntilCleanup s) fun p =>
    HasOwnBookmarks p.2.1 p.2.2.document

/-- So it is where commands are apart and no computed field has a value. -/
theorem keepsInserters_of_commandsApart {s : Services} (hs : s.LoadsApart) {d : Document}
    (hd : d.Consistent) (hapart : d.CommandsApart) (hvalues : d.values = .empty) (locations : List String)
    (mustProcess : Bool) : (Model.fresh d locations mustProcess).KeepsInserters s := by
  have hexpanding := expanding_ofDocument hd hapart (Document.framed_pinned hd.toWellFormed []).concat (.inr hvalues)
  refine Ends.andThen ((expanding_scanSettings hexpanding).allow fun _ => False.elim) fun m hm => ?_
  refine ((tracked_runUntilCleanup hs hm).allow fun _ => False.elim).mono fun p hp => ?_
  exact ⟨hp.distinct, hp.found (by decide)⟩

/-- **Debug mode only keeps bookmarks.**  Where nothing is overridden and each command that inserts has a
bookmark of its own when the marks are removed, processing in debug mode and not in debug mode ends with
the same text, messages and number of failed commands, or in the same fault. -/
theorem process_inMode {s : Services} (hs : s.LoadsNoOverrides) {d : Document} (hd : d.names.Nodup)
    (hno : d.overridesNothing = true) {locations : List String} {mustProcess b : Bool}
    (hkeeps : (Model.fresh d locations mustProcess).KeepsInserters (s.inMode b)) (b' : Bool) :
    Parallel (fun o o' => o.model.document.text = o'.model.document.text ∧ o.messages = o'.messages ∧
        o.result.map (·.fixpoint) = o'.result.map (·.fixpoint))
      ((Model.fresh d locations mustProcess).process (s.inMode b))
      ((Model.fresh d locations mustProcess).process (s.inMode b')) := by
  let R : Model → Model → Prop := fun m m' => m = m' ∧ NoOverrides m.commands m.document ∧
    Ends (fun _ => True) (m.runUntilCleanup (s.inMode b)) fun p => HasOwnBookmarks p.2.1 p.2.2.document
  have hscan : Parallel R (Model.fresh d locations mustProcess).scanSettings
      (Model.fresh d locations mustProcess).scanSettings := by
    refine Parallel.of_eq rfl fun m hm => ⟨rfl, ?_, ?_⟩
    · exact (NoOverrides.scanSettings (NoOverrides.fresh hd hno)).of_eq_ok hm
    · unfold Model.KeepsInserters at hkeeps
      rw [hm] at hkeeps
      exact hkeeps
  unfold Model.process
  refine hscan.andThen ?_
  rintro m _ ⟨rfl, hm, hown⟩
  split
  · refine (hm.executeTemplate_inMode hs hown b').andThen ?_
    rintro ⟨m₁, messages, result⟩ ⟨m₁', _, _⟩ ⟨htext, rfl, rfl⟩
    cases result with
    | error e => exact ⟨htext, rfl, rfl⟩
    | ok fixpoint =>
      obtain ⟨m₂, hm₂, ht⟩ := (text_scanSettings m₁).exists_ok
      obtain ⟨m₂', hm₂', ht'⟩ := (text_scanSettings m₁').exists_ok
      dsimp only
      rw [hm₂, hm₂']
      refine ⟨?_, rfl, rfl⟩
      show m₂.conclude.document.text = m₂'.conclude.document.text
      rw [document_conclude, document_conclude, ht, ht']
      exact htext
  · exact ⟨rfl, rfl, rfl⟩

/-- A document with a place for a fragment and a command to update the fields. -/
def updatingBehind : Document :=
  { Document.ofText "?!".toList with
    bookmarks := [⟨"DOC(CMD 'insertFrag' FRAG_ID 'f')", ⟨0, 1⟩⟩, ⟨"DOC(CMD 'updateFields')", ⟨1, 2⟩⟩] }

theorem keepsInserters_updatingBehind :
    (Model.fresh updatingBehind [] false).KeepsInserters (echo.inMode false) := by
  have hown : (((Model.fresh updatingBehind [] false).scanSettings >>= fun m =>
      m.runUntilCleanup (echo.inMode false)).map fun p =>
        decide (HasOwnBookmarks p.2.1 p.2.2.document)) = .ok true := by cbv
  refine Ends.of_forall fun p hp => ?_
  rw [hp] at hown
  exact of_decide_eq_true (Except.ok.inj hown)

theorem length_names_updatingBehind (b : Bool) :
    ((Model.fresh updatingBehind [] false).process (echo.inMode b)).map
      (·.model.document.names.length) = .ok (if b then 2 else 0) := by
  cases b <;> cbv

/-- Only in debug mode bookmarks are left of the commands. -/
theorem process_inMode_updatingBehind :
    ∃ o o', (Model.fresh updatingBehind [] false).process (echo.inMode false) = .ok o ∧
      (Model.fresh updatingBehind [] false).process (echo.inMode true) = .ok o' ∧
      (o.model.document.text = o'.model.document.text ∧ o.messages = o'.messages ∧
        o.result.map (·.fixpoint) = o'.result.map (·.fixpoint)) ∧
      o.model.document.names.length < o'.model.document.names.length := by
  have hloads : echo.LoadsNoOverrides := fun l content h => by
    obtain rfl := Except.ok.inj h
    rfl
  have hparallel := process_inMode hloads (by decide) (by cbv) keepsInserters_updatingBehind true
  have hplain := length_names_updatingBehind false
  have hdebug := length_names_updatingBehind true
  cases ho : (Model.fresh updatingBehind [] false).process (echo.inMode false) with
  | error f =>
    rw [ho] at hplain
    cases hplain
  | ok o =>
    cases ho' : (Model.fresh updatingBehind [] false).process (echo.inMode true) with
    | error f =>
      rw [ho'] at hdebug
      cases hdebug
    | ok o' =>
      rw [ho, ho'] at hparallel
      rw [ho] at hplain
      rw [ho'] at hdebug
      have hnone : o.model.document.names.length = 0 := Except.ok.inj hplain
      have htwo : o'.model.document.names.length = 2 := Except.ok.inj hdebug
      exact ⟨o, o', rfl, rfl, hparallel, by omega⟩

/-! ### An override that comes again -/

/-- A command that enters an override for a fragment with itself. -/
def selfOverride : String := "DOC(CMD 'overrideFrag' FRAG_ID 'a' NEW_FRAG_ID 'a')"

/-- Surroundings with a fragment that brings the command. -/
def overridingAgain : Services where
  locations := fun id => [id]
  load := fun _ => .ok { Document.ofText "!x".toList with bookmarks := [⟨selfOverride, ⟨0, 1⟩⟩] }
  value := fun column => .ok column
  transform := fun name _ => .error (.unknown name)
  policy := ⟨true, false⟩

/-- A document with the command and a place for the fragment. -/
def overridingOnce : Document :=
  { Document.ofText "!?".toList with
    bookmarks := [⟨selfOverride, ⟨0, 1⟩⟩, ⟨"DOC(CMD 'insertFrag' FRAG_ID 'f')", ⟨1, 2⟩⟩] }

/-- The command that comes with the fragment is taken for the one that is gone, unless in debug mode, where
that one has another name by then. -/
theorem process_overridingAgain :
    ((Model.fresh overridingOnce [] true).process (overridingAgain.inMode false)).map (fun o =>
      (o.result.map fun _ => (), String.ofList o.model.document.text)) = .ok (.ok (), "!!x") ∧
    ((Model.fresh overridingOnce [] true).process (overridingAgain.inMode true)).map (fun o =>
      (o.result.map fun _ => (), String.ofList o.model.document.text)) =
        .ok (.error (.commandsFailed 1), "!<ERROR:  >x") :=
  ⟨by cbv, by cbv⟩

end TemplateEngine
