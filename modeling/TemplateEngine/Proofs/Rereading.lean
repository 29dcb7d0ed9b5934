import TemplateEngine.Proofs.Listing
import TemplateEngine.Proofs.Sparing

/-!
# Rereading — the print functions of a run and of its document

A run keeps its print functions in its settings and in the document.  Executing commands changes neither
(`keepsListing_executeInsert`, `keepsListing_completeRun`), and a scan that adds one writes all of them down
(`lists_scanCommand`).  So after every run the document lists the print functions of the settings
(`listed_process`), and reading the document again gives them back as far as they can be listed
(`reread_printFunctions`).
-/

namespace TemplateEngine

/-! ### Settings -/

section Steps

variable {s : Services}

theorem settings_write (r : Run) (c : Command) (t : Text) :
    Ends (fun _ => True) (r.write c t) fun r' => r'.settings = r.settings := by
  refine Ends.afterAny fun a => ?_
  cases a <;> rfl

theorem settings_fail (r : Run) (c : Command) (reason : String) :
    Ends (fun _ => True) (r.fail c reason) fun p => p.2.settings = r.settings :=
  Ends.afterAny fun _ => rfl

theorem settings_offerCursor (r : Run) (id : Nat) : (r.offerCursor id).settings = r.settings := by
  unfold Run.offerCursor Run.placeCursor
  split_ifs
  · rfl
  · split <;> rfl

theorem settings_settleCursor (r : Run) (jumpMark : Option String) (ids : List Nat) :
    (settleCursor r jumpMark ids).settings = r.settings := by
  unfold settleCursor
  split
  · exact settings_offerCursor r _
  · split <;> rfl

theorem settings_fillPlaceholder (r : Run) (id : Nat) (argument : String) :
    Ends (fun _ => True) (fillPlaceholder r id argument) fun r' => r'.settings = r.settings := by
  unfold fillPlaceholder
  split
  · exact settings_offerCursor r id
  · refine Ends.afterAny fun a => ?_
    cases a <;> rfl

theorem settings_fillEach (r : Run) (ids : List Nat) (arguments : List String) :
    Ends (fun _ => True) (fillEach r ids arguments) fun r' => r'.settings = r.settings := by
  induction ids generalizing r arguments with
  | nil => exact rfl
  | cons id ids ih =>
    cases arguments with
    | nil => exact rfl
    | cons argument arguments =>
      refine Ends.andThen (settings_fillPlaceholder r id argument) fun r' hr' => ?_
      exact (ih r' arguments).mono fun r'' hr'' => hr''.trans hr'

theorem settings_fillPlaceholders (policy : Policy) (jumpMark : Option String) (c : Command)
    (arguments : List String) (r : Run) :
    Ends (fun _ => True) (fillPlaceholders policy jumpMark c arguments r) fun r' => r'.settings = r.settings := by
  unfold fillPlaceholders
  split
  · exact rfl
  · refine Ends.andThen (settings_fillEach r _ arguments) fun r' hr' => ?_
    dsimp only
    split <;> exact (settings_settleCursor r' jumpMark _).trans hr'

theorem settings_placeFragment (request : FragmentRequest) (content : Document) (c : Command) (r : Run) :
    Ends (fun _ => True) (placeFragment request content c r) fun p => p.2.1.settings = r.settings := by
  unfold placeFragment
  split
  · refine Ends.afterAny fun a => ?_
    cases a <;> rfl
  · exact Ends.afterAny fun _ => rfl

theorem settings_failFragment (request : FragmentRequest) (id : String) (e : InsertionError) (c : Command)
    (r : Run) :
    Ends (fun _ => True) (failFragment request id e c r) fun p => p.2.settings = r.settings := by
  unfold failFragment
  split
  · exact rfl
  · exact settings_fail r c e.message

theorem settings_insertFragment (jumpMark : Option String) (request : FragmentRequest) (c : Command) (r : Run) :
    Ends (fun _ => True) (insertFragment s jumpMark request c r) fun p => p.2.settings = r.settings := by
  unfold insertFragment
  dsimp only
  split
  · exact Ends.andThen (settings_write r c []) fun r' hr' => hr'
  split
  · exact settings_failFragment request _ _ c r
  next content _ =>
    refine Ends.andThen (settings_placeFragment request content c r) fun p hp => ?_
    obtain ⟨c', r', refusal⟩ := p
    cases refusal with
    | some refusal => exact (settings_failFragment request _ _ c' r').mono fun q hq => hq.trans hp
    | none =>
      dsimp only
      split
      · exact hp
      · refine Ends.andThen (settings_fillPlaceholders s.policy jumpMark c' request.arguments r') fun r'' hr'' => ?_
        exact hr''.trans hp

theorem settings_insertContent (c : Command) (r : Run) :
    Ends (fun _ => True) (insertContent s c r) fun p => p.2.settings = r.settings := by
  unfold insertContent
  split
  · exact rfl
  next location contents _ =>
    have hplace : Ends (fun _ => True) (placeContent s location c { r with contents }) fun p =>
        p.2.settings = r.settings := by
      unfold placeContent
      split
      · exact settings_fail { r with contents } c _
      · refine Ends.afterAny fun p => ?_
        obtain ⟨c', d', refusal⟩ := p
        cases refusal with
        | some e => exact settings_fail { r with document := d', contents } c' _
        | none => exact rfl
    exact Ends.andThen hplace fun p hp => hp

/-- Insertions leave the settings alone. -/
theorem settings_executeInsert (jumpMark : Option String) (c : Command) (r : Run) :
    Ends (fun _ => True) (executeInsert s jumpMark c r) fun p => p.2.settings = r.settings := by
  unfold executeInsert
  split
  · exact settings_insertFragment jumpMark _ c r
  · exact settings_insertContent c r
  · exact rfl

theorem settings_executeOverride (policy : Policy) (c : Command) (r : Run) :
    Ends (fun _ => True) (executeOverride policy c r) fun p => p.2.settings = r.settings := by
  unfold executeOverride
  split
  · split
    · exact rfl
    · exact settings_fail r c _
  · exact rfl

theorem settings_updateFields (policy : Policy) (c : Command) (r : Run) :
    Ends (fun _ => True) (updateFields policy c r) fun p => p.2.settings = r.settings := by
  unfold updateFields
  split
  · dsimp only
    split
    · exact rfl
    · exact Ends.afterAny fun _ => rfl
  · exact rfl

/-- A form is described in the settings, which keep their print functions. -/
theorem printFunctions_fillIn (c : Command) (r : Run) :
    Ends (fun _ => True) (fillIn s c r) fun p => p.2.settings.printFunctions = r.settings.printFunctions := by
  have hfail : ∀ r' : Run, r'.settings.printFunctions = r.settings.printFunctions → ∀ reason,
      Ends (fun _ => True) (r'.fail c reason) fun p => p.2.settings.printFunctions = r.settings.printFunctions :=
    fun r' hr' reason => (settings_fail r' c reason).mono fun p hp => by rw [hp, hr']
  unfold fillIn
  split
  · unfold takeForm
    refine Ends.afterAny fun body => ?_
    split
    · exact hfail r rfl _
    next nodes _ =>
      have hdescribe : (r.describeForm nodes).settings.printFunctions = r.settings.printFunctions := by
        unfold Run.describeForm
        split <;> rfl
      refine Ends.afterAny fun a => ?_
      cases a with
      | error e => exact hfail _ hdescribe _
      | ok d => exact hdescribe
  · exact hfail r rfl _
  · unfold insertValue
    split
    · exact hfail r rfl _
    · exact Ends.andThen (settings_write r c _) fun r' hr' => congrArg Settings.printFunctions hr'
  · exact rfl

end Steps

/-! ### A whole run -/

section Processing

variable {s : Services} {cs : List Command} {r r' r'' : Run}

/-- Whether a run goes on with the print functions it had, in its settings and in the document. -/
structure Run.KeepsListing (r r' : Run) : Prop where
  settings : r'.settings.printFunctions = r.settings.printFunctions
  document : r'.document.persistentData? printFunctionsKey = r.document.persistentData? printFunctionsKey

namespace Run.KeepsListing

theorem refl (r : Run) : r.KeepsListing r := ⟨rfl, rfl⟩

theorem trans (h : r.KeepsListing r') (h' : r'.KeepsListing r'') : r.KeepsListing r'' :=
  ⟨h'.settings.trans h.settings, h'.document.trans h.document⟩

theorem lists (h : r.KeepsListing r') (hr : r.document.Lists r.settings.printFunctions) :
    r'.document.Lists r'.settings.printFunctions := by
  rw [h.settings]
  exact hr.congr h.document

/-- A phase keeps what its steps keep. -/
theorem visitPending {step : Command → Run → Except Fault (Command × Run)}
    (h : ∀ c r, Ends (fun _ => True) (step c r) fun p => r.KeepsListing p.2) (cs : List Command) (r : Run) :
    Ends (fun _ => True) (visitPending step cs r) fun p => r.KeepsListing p.2 :=
  Ends.visitPendingAll (I := fun _ r' => r.KeepsListing r') (refl r) fun _ c _ r' _ hr' =>
    (h c r').mono fun _ hp => hr'.trans hp

end Run.KeepsListing

theorem keepsListing_executeOverride (policy : Policy) (c : Command) (r : Run) :
    Ends (fun _ => True) (executeOverride policy c r) fun p => r.KeepsListing p.2 :=
  ((settings_executeOverride policy c r).and (aside_executeOverride policy c r)).mono fun _ hp =>
    ⟨congrArg Settings.printFunctions hp.1, congrArg (·.get? printFunctionsKey) hp.2.metadata⟩

theorem keepsListing_executeInsert (jumpMark : Option String) (c : Command) (r : Run) :
    Ends (fun _ => True) (executeInsert s jumpMark c r) fun p => r.KeepsListing p.2 :=
  ((settings_executeInsert jumpMark c r).and (spares_executeInsert s jumpMark c r)).mono fun _ hp =>
    ⟨congrArg Settings.printFunctions hp.1, hp.2.metadata _ List.not_mem_nil⟩

theorem keepsListing_expandFrom (done left : Nat) (cs : List Command) (r : Run) :
    Ends (fun _ => True) (expandFrom s done left cs r) fun p => r.KeepsListing p.2.2 := by
  induction left generalizing done cs r with
  | zero => exact .refl r
  | succ left ih =>
    have honce : Ends (fun _ => True) (expandOnce s cs r) fun p => r.KeepsListing p.2.1 := by
      refine Ends.andThen (Run.KeepsListing.visitPending (keepsListing_executeOverride s.policy) cs r) fun p hp => ?_
      refine Ends.andThen (Run.KeepsListing.visitPending (keepsListing_executeInsert _) p.1 p.2) fun q hq => ?_
      exact hp.trans hq
    refine Ends.andThen honce fun p hp => ?_
    obtain ⟨cs', r', changed⟩ := p
    cases changed with
    | true => exact (ih (done + 1) cs' r').mono fun q hq => hp.trans hq
    | false => exact hp

theorem printFunctions_lockedPhase {step : Command → Run → Except Fault (Command × Run)}
    (h : ∀ c r, Ends (fun _ => True) (step c r) fun p =>
      p.2.settings.printFunctions = r.settings.printFunctions) (cs : List Command) (r : Run) :
    Ends (fun _ => True) (lockedPhase (visitPending step) cs r) fun p =>
      p.2.settings.printFunctions = r.settings.printFunctions := by
  have hvisit : Ends (fun _ => True) (visitPending step cs { r with document := r.document.lock }) fun p =>
      p.2.settings.printFunctions = r.settings.printFunctions :=
    Ends.visitPendingAll (I := fun _ (r' : Run) => r'.settings.printFunctions = r.settings.printFunctions) rfl
      fun _ c _ r' _ hr' => (h c r').mono fun _ hp => hp.trans hr'
  exact Ends.andThen hvisit fun _ hp => hp

theorem keepsListing_completeRun (cs : List Command) (r : Run) :
    Ends (fun _ => True) (completeRun s cs r) fun p => r.KeepsListing p.2 := by
  have hsettings : Ends (fun _ => True) (completeRun s cs r) fun p =>
      p.2.settings.printFunctions = r.settings.printFunctions := by
    refine Ends.andThen (printFunctions_lockedPhase (fun c r => (settings_updateFields s.policy c r).mono fun _ hp =>
      congrArg Settings.printFunctions hp) cs r) fun p hp => ?_
    refine Ends.andThen (printFunctions_lockedPhase printFunctions_fillIn p.1 p.2) fun q hq => ?_
    exact Ends.afterAny fun _ => hq.trans hp
  exact (hsettings.and (spares_completeRun s cs r)).mono fun _ hp => ⟨hp.1, hp.2.metadata _ (by decide)⟩

/-- Whether the document of a model lists the print functions of its settings. -/
def Model.Listed (m : Model) : Prop := m.document.Lists m.settings.printFunctions

theorem listed_executeTemplate {m : Model} (h : m.Listed) :
    Ends (fun _ => True) (m.executeTemplate s) fun o => o.model.Listed := by
  refine Ends.andThen (keepsListing_expandFrom 0 maxRounds m.enter.commands m.enter.startRun) fun p hp => ?_
  refine Ends.andThen (keepsListing_completeRun p.2.1 p.2.2) fun q hq => ?_
  have hlists := (hp.trans hq).lists h
  show Document.Lists _ (settleForm q.2.settings).printFunctions
  have hsettled : (settleForm q.2.settings).printFunctions = q.2.settings.printFunctions := by
    unfold settleForm
    split <;> rfl
  rw [hsettled]
  exact hlists

theorem lists_scanCommand (hasLocation : Bool) (c : Command) {t : Scan}
    (h : t.document.Lists t.settings.printFunctions) :
    Ends (fun _ => True) (scanCommand hasLocation c t) fun p =>
      p.2.document.Lists p.2.settings.printFunctions := by
  have hconsume : ∀ t : Scan, t.document.Lists t.settings.printFunctions →
      (t.consume c).2.document.Lists (t.consume c).2.settings.printFunctions := fun t ht =>
    ht.congr (congrArg (·.get? printFunctionsKey) (aside_markDone c t.document true).metadata)
  unfold scanCommand
  split
  · dsimp only
    split
    · exact h
    · exact hconsume { t with settings := t.settings.declareType _ } h
  next function _ => exact hconsume ⟨_, _⟩ (Document.lists_addPrintFunction h function)
  · exact h

theorem listed_scanSettings {m : Model} (h : m.Listed) : Ends (fun _ => True) m.scanSettings Model.Listed := by
  have hvisit : Ends (fun _ => True)
      (visitPending (scanCommand m.enter.document.hasLocation) m.enter.commands ⟨m.enter.document, m.settings⟩)
      fun p => p.2.document.Lists p.2.settings.printFunctions :=
    Ends.visitPendingAll (I := fun _ (t : Scan) => t.document.Lists t.settings.printFunctions) h
      fun _ c _ _ _ ht => lists_scanCommand _ c ht
  exact Ends.andThen hvisit fun _ hp => hp

theorem Model.Listed.conclude {m : Model} (h : m.Listed) : m.conclude.Listed := by
  unfold Model.conclude
  split <;> exact h

theorem listed_process {m : Model} (h : m.Listed) :
    Ends (fun _ => True) (m.process s) fun o => o.model.Listed := by
  unfold Model.process
  refine Ends.andThen (listed_scanSettings h) fun m' hm' => ?_
  split
  · refine Ends.andThen (listed_executeTemplate hm') fun executed hexec => ?_
    split
    · exact hexec
    · exact Ends.andThen (listed_scanSettings hexec) fun m'' hm'' => hm''.conclude
  · exact hm'.conclude

/-- **Print functions after a reload.**  Of every document that a run on a document with nothing known about it
leaves, whether the run succeeds or not, the print functions read are what is read from the names in the settings
of the run, each as a list with commas.  So they are these names exactly if each name that was not read from the
document at the start can be listed. -/
theorem reread_printFunctions {d : Document} {locations : List String} {mustProcess : Bool} {o : Outcome Report}
    (hrun : (Model.fresh d locations mustProcess).process s = .ok o) :
    (∀ x, x ∈ (Settings.ofDocument o.model.document).printFunctions.names ↔
      ∃ n ∈ o.model.settings.printFunctions.names, x ∈ listedIn n) ∧
    ((Settings.ofDocument o.model.document).printFunctions = o.model.settings.printFunctions ↔
      ∀ n ∈ o.model.settings.printFunctions.names, n ∉ (Settings.ofDocument d).printFunctions.names →
        IsListable n) := by
  have hstart : (Model.fresh d locations mustProcess).Listed := Document.lists_ofDocument d
  have hlisted : o.model.Listed := (listed_process hstart).of_eq_ok hrun
  refine ⟨fun x => hlisted.mem_iff, hlisted.eq_iff.trans ?_⟩
  refine ⟨fun hall n hn _ => hall n hn, fun hnew n hn => ?_⟩
  by_cases hread : n ∈ (Settings.ofDocument d).printFunctions.names
  · exact Document.isListable_of_mem_ofDocument hread
  · exact hnew n hn hread

end Processing

/-- A document that lists print functions and inserts a fragment that declares one more. -/
def printedListed : Document :=
  { printed with metadata := .ofList [(printFunctionsKey, "Letter, Fax,")] }

theorem reread_printFunctions_printedListed :
    ∃ o, (Model.fresh printedListed [] false).process printing = .ok o ∧
      o.model.settings.printFunctions.names = ["F", "Fax", "Letter"] ∧
      (Settings.ofDocument o.model.document).printFunctions = o.model.settings.printFunctions := by
  have hkept : ((Model.fresh printedListed [] false).process printing).map
      (·.model.settings.printFunctions.names) = .ok ["F", "Fax", "Letter"] := by cbv
  cases hrun : (Model.fresh printedListed [] false).process printing with
  | error f =>
    rw [hrun] at hkept
    cases hkept
  | ok o =>
    rw [hrun] at hkept
    have hnames : o.model.settings.printFunctions.names = ["F", "Fax", "Letter"] := Except.ok.inj hkept
    have hread : (Settings.ofDocument printedListed).printFunctions.names = ["Fax", "Letter"] := by cbv
    refine ⟨o, rfl, hnames, (reread_printFunctions hrun).2.2 fun n hn hnew => ?_⟩
    rw [hnames] at hn
    rw [hread] at hnew
    obtain rfl : n = "F" := by simp_all
    have hblank : ∀ c ∈ some 'F', isBlank c = false := fun c hc => by
      obtain rfl := Option.some.inj hc
      rfl
    exact ⟨by decide, by decide, hblank, hblank⟩

/-- A document that declares one print function, with a comma in its name. -/
def letterAndFax : Document :=
  { Document.ofText "x".toList with
    bookmarks := [⟨"DOC(CMD 'setprintfunction' FUNCTION 'Letter,Fax')", ⟨0, 0⟩⟩] }

/-- It is read back as two. -/
theorem reread_printFunctions_letterAndFax :
    ((Model.fresh letterAndFax [] false).process printing).map (fun o => (o.result.isOk,
      o.model.settings.printFunctions.names, (Settings.ofDocument o.model.document).printFunctions.names)) =
        .ok (true, ["Letter,Fax"], ["Fax", "Letter"]) := by
  cbv

end TemplateEngine
