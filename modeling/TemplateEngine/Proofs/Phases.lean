import TemplateEngine.Proofs.Tracking

/-!
# Phases — what the phases of a run keep of its commands

What each step on one command of the list keeps, a round of expansion does, and so do all rounds and the phases
behind them (`KeptByRunning`).  The commands of the list stay tracked in that way (`keptByRunning_tracked`):
behind expansion they can be lost with computed fields, unless some text has to stay.
-/

namespace TemplateEngine

open Document

section Phases

variable {kept : List Text} {expanding : Prop} {s : Services} {c : Command} {cs : List Command} {r : Run}

/-- The contents that a run can load are well-formed and have their commands apart. -/
def Services.LoadsApart (s : Services) : Prop :=
  ∀ l content, s.load l = .ok content → content.WellFormed ∧ content.CommandsApart

/-- Whether a command has no marks while it is still to be executed. -/
def Command.IdleIfMarked (c : Command) : Prop := c.marked = true → c.isPending = false

theorem unmarked_of_isPending (h : c.IdleIfMarked) (hpending : c.isPending = true) : c.marked = false := by
  by_contra hm
  rw [h (by simpa using hm)] at hpending
  cases hpending

/-! ### Inserting -/

/-- What inserting keeps true of a command that inserts and of the document: each of its steps does, on a
command without marks. -/
structure KeptByInserting (s : Services) (I : Command → Document → Prop) : Prop where
  setFailed : ∀ {c d}, I c d → I (c.setFailed true) d
  importStyles : ∀ {c d}, I c d → ∀ content styles, I c (d.importStyles content styles)
  setText : ∀ {c d}, I c d → c.marked = false → ∀ t,
    Ends (fun _ => False) (c.setText d t) fun attempt => ∀ d', attempt = .ok d' → I c d'
  fail : ∀ {c} {r : Run}, I c r.document → c.marked = false → ∀ reason,
    Ends (fun _ => False) (r.fail c reason) fun p => I p.1 p.2.document
  finish : ∀ {c} {r : Run}, I c r.document → I (r.finish c false).1 (r.finish c false).2.document
  insert : ∀ {c d l content}, I c d → c.kind.isInsertion = true → c.marked = false →
    s.load l = .ok content → Ends (fun _ => False) (c.insertBetweenMarks d content) fun p =>
      I p.1 p.2.1 ∧ (p.2.2 = none ∨ p.1.marked = false) ∧
      ∀ (r : Run) jumpMark arguments, r.document = p.2.1 → Ends (fun _ => False)
        (fillPlaceholders s.policy jumpMark p.1 arguments r) fun r' => I p.1 r'.document

namespace KeptByInserting

variable {I : Command → Document → Prop}

theorem failFragment (h : KeptByInserting s I) (hI : I c r.document) (hm : c.marked = false)
    (request : FragmentRequest) (id : String) (e : InsertionError) :
    Ends (fun _ => False) (failFragment request id e c r) fun p => I p.1 p.2.document := by
  unfold TemplateEngine.failFragment
  split
  · exact h.setFailed hI
  · exact h.fail hI hm _

theorem insertFragment (h : KeptByInserting s I) (hI : I c r.document)
    (hk : c.kind.isInsertion = true) (hm : c.marked = false) (jumpMark : Option String)
    (request : FragmentRequest) :
    Ends (fun _ => False) (insertFragment s jumpMark request c r) fun p => I p.1 p.2.document := by
  unfold TemplateEngine.insertFragment
  dsimp only
  split
  · have hwrite : Ends (fun _ => False) (r.write c []) fun r' => I c r'.document := by
      refine Ends.andThen (h.setText hI hm []) fun attempt hattempt => ?_
      cases attempt with
      | error e => exact hI
      | ok d' => exact hattempt d' rfl
    exact Ends.andThen hwrite fun r' hr' => h.finish hr'
  split
  · exact h.failFragment hI hm request _ _
  next content hload =>
    obtain ⟨l, -, hl⟩ := exists_of_loadFragment hload
    unfold placeFragment
    split
    next hstyles =>
      have himport := h.importStyles hI content request.styles
      obtain ⟨attempt, hattempt, hset⟩ := (h.setText himport hm []).exists_ok
      dsimp only
      rw [hattempt]
      cases attempt with
      | error e =>
        exact h.failFragment
          (r := { r with document := r.document.importStyles content request.styles }) himport hm request _ _
      | ok d' => exact h.finish (r := { r with document := d' }) (hset d' rfl)
    next hstyles =>
      obtain ⟨⟨c', d', refusal⟩, hinsert, hI', hrefused, hfill⟩ := (h.insert hI hk hm hl).exists_ok
      rw [hinsert]
      cases refusal with
      | none =>
        show Ends _ (fillPlaceholders s.policy jumpMark c' request.arguments { r with document := d' } >>= _) _
        exact Ends.andThen (hfill _ _ _ rfl) fun r' hr' => h.finish hr'
      | some e =>
        exact h.failFragment (r := { r with document := d' }) hI' (hrefused.resolve_left (by simp)) request _ _

theorem insertContent (h : KeptByInserting s I) (hI : I c r.document)
    (hk : c.kind.isInsertion = true) (hm : c.marked = false) :
    Ends (fun _ => False) (insertContent s c r) fun p => I p.1 p.2.document := by
  unfold TemplateEngine.insertContent
  split
  · exact h.finish hI
  next location contents _ =>
    have hplace : Ends (fun _ => False) (placeContent s location c { r with contents }) fun p =>
        I p.1 p.2.document := by
      unfold placeContent
      split
      · exact h.fail (r := { r with contents }) hI hm _
      next content hload =>
        refine Ends.andThen (h.insert hI hk hm hload) ?_
        rintro ⟨c', d', refusal⟩ ⟨hI', hrefused, -⟩
        cases refusal with
        | none => exact hI'
        | some e =>
          exact h.fail (r := { r with document := d', contents }) hI' (hrefused.resolve_left (by simp)) _
    exact Ends.andThen hplace fun p hp => h.finish hp

theorem executeInsert (h : KeptByInserting s I) (hI : I c r.document) (hm : c.marked = false)
    (jumpMark : Option String) :
    Ends (fun _ => False) (executeInsert s jumpMark c r) fun p => I p.1 p.2.document := by
  unfold TemplateEngine.executeInsert
  split
  next request hkind => exact h.insertFragment hI (by rw [hkind]; rfl) hm jumpMark request
  next hkind => exact h.insertContent hI (by rw [hkind]; rfl) hm
  · exact hI

end KeptByInserting

/-! ### Running -/

/-- What a run keeps true of the commands of a list and of the document: each of its steps does, on the
command in front of the others.  `I` is told whether the document is being expanded; `after` is what is left
of that when it was. -/
structure KeptByRunning (s : Services) (after : Prop) (I : Prop → List Command → Document → Prop) : Prop where
  perm : ∀ {e cs cs' d}, I e cs d → cs.Perm cs' → I e cs' d
  leave : ∀ {cs d}, I True cs d → I after cs d
  named : ∀ {e cs d}, I e cs d → ∀ c ∈ cs, c.IsNamed
  wellFormed : ∀ {e cs d}, I e cs d → d.WellFormed
  unmarked : ∀ {e c cs d}, I e (c :: cs) d → c.kind.isInsertion = false → c.marked = false
  sameParts : ∀ {e cs d d'}, I e cs d → SameParts d d' → I e cs d'
  setFailed : ∀ {e c cs d}, I e (c :: cs) d → I e (c.setFailed true :: cs) d
  setText : ∀ {e c cs d}, I e (c :: cs) d → c.marked = false → ∀ t,
    Ends (fun _ => False) (c.setText d t) fun attempt => ∀ d', attempt = .ok d' → I e (c :: cs) d'
  fail : ∀ {e c cs} {r : Run}, I e (c :: cs) r.document → c.marked = false → ∀ reason,
    Ends (fun _ => False) (r.fail c reason) fun p => I e (p.1 :: cs) p.2.document
  finish : ∀ {e c cs} {r : Run}, I e (c :: cs) r.document → c.kind.isInsertion = false → ∀ remove,
    I e ((r.finish c remove).1 :: cs) (r.finish c remove).2.document
  finishInsertion : ∀ {c cs} {r : Run}, I True (c :: cs) r.document →
    I True ((r.finish c false).1 :: cs) (r.finish c false).2.document
  insert : ∀ {c cs d l content}, I True (c :: cs) d → c.kind.isInsertion = true → c.marked = false →
    s.load l = .ok content → Ends (fun _ => False) (c.insertBetweenMarks d content) fun p =>
      I True (p.1 :: cs) p.2.1 ∧ (p.2.2 = none ∨ p.1.marked = false) ∧
      ∀ (r : Run) jumpMark arguments, r.document = p.2.1 → Ends (fun _ => False)
        (fillPlaceholders s.policy jumpMark p.1 arguments r) fun r' => I True (p.1 :: cs) r'.document
  refresh : ∀ {cs d}, I True cs d → I True (Command.refresh d cs).1 d
  refreshElement : ∀ {cs d}, I after cs d → ∀ e,
    Ends (fun _ => False) (d.refreshElement e) fun o => ∀ d', o = some (.ok d') → I after cs d'

theorem Executes.idleIfMarked {own : CommandKind → Bool} {p : Command × Run} (h : Executes s own c r p)
    (hc : c.IdleIfMarked) : p.1.IdleIfMarked := by
  rcases h with ⟨-, hexec⟩ | ⟨-, rfl⟩
  · exact fun _ => hexec.idle
  · exact hc

namespace KeptByRunning

variable {after e : Prop} {I : Prop → List Command → Document → Prop}

/-- The rule for phases: `Q` is what the steps keep of each command beside. -/
theorem visitPending (h : KeptByRunning s after I) {step : Command → Run → Except Fault (Command × Run)}
    {Q : Command → Prop}
    (hstep : ∀ c cs r, c.isPending = true → Q c → I e (c :: cs) r.document →
      Ends (fun _ => False) (step c r) fun p => I e (p.1 :: cs) p.2.document ∧ Q p.1)
    (hI : I e cs r.document) (hQ : ∀ c ∈ cs, Q c) :
    Ends (fun _ => False) (visitPending step cs r) fun p => I e p.1 p.2.document ∧ ∀ c ∈ p.1, Q c := by
  refine Ends.visitPendingAll (I := fun cs (r : Run) => I e cs r.document ∧ ∀ c ∈ cs, Q c) ⟨hI, hQ⟩ ?_
  rintro before c after r hpending ⟨hI, hQ⟩
  refine (hstep c (before ++ after) r hpending (hQ c (by simp)) (h.perm hI List.perm_middle)).mono ?_
  exact fun p hp => ⟨h.perm hp.1 List.perm_middle.symm, forall_mem_replace hQ hp.2⟩

/-! #### Expansion -/

theorem inserting (h : KeptByRunning s after I) (cs : List Command) :
    KeptByInserting s fun c d => I True (c :: cs) d where
  setFailed := h.setFailed
  importStyles hI _ _ := h.sameParts hI (.importStyles _ _ _)
  setText := h.setText
  fail := h.fail
  finish := h.finishInsertion
  insert := h.insert

/-- Executing a command that inserts. -/
theorem executeInsert (h : KeptByRunning s after I) (jumpMark : Option String) (hpending : c.isPending = true)
    (hc : c.IdleIfMarked) (hI : I True (c :: cs) r.document) :
    Ends (fun _ => False) (executeInsert s jumpMark c r) fun p =>
      I True (p.1 :: cs) p.2.document ∧ p.1.IdleIfMarked := by
  have hkeep := (h.inserting cs).executeInsert hI (unmarked_of_isPending hc hpending) jumpMark
  have hexec := executeInsert_spec (s := s) jumpMark (h.named hI c (by simp)).isCommand (h.wellFormed hI).names
  exact (hkeep.and hexec).mono fun p hp => ⟨hp.1, hp.2.idleIfMarked hc⟩

theorem executeOverride (h : KeptByRunning s after I) (hc : c.IdleIfMarked)
    (hI : I True (c :: cs) r.document) :
    Ends (fun _ => False) (executeOverride s.policy c r) fun p =>
      I True (p.1 :: cs) p.2.document ∧ p.1.IdleIfMarked := by
  have hkeep : Ends (fun _ => False) (TemplateEngine.executeOverride s.policy c r) fun p =>
      I True (p.1 :: cs) p.2.document := by
    unfold TemplateEngine.executeOverride
    split
    next id newId hkind =>
      have hk : c.kind.isInsertion = false := by rw [hkind]; rfl
      split
      next overrides _ => exact h.finish (r := { r with overrides }) hI hk _
      · exact h.fail hI (h.unmarked hI hk) _
    · exact hI
  have hexec := executeOverride_spec s (h.named hI c (by simp)).isCommand (h.wellFormed hI).names
  exact (hkeep.and hexec).mono fun p hp => ⟨hp.1, hp.2.idleIfMarked hc⟩

theorem idleIfMarked_refresh {d : Document} (hc : ∀ c ∈ cs, c.IdleIfMarked) :
    ∀ c ∈ (Command.refresh d cs).1, c.IdleIfMarked := by
  refine Command.forall_mem_refresh hc fun n _ c hn hm => ?_
  rw [Command.marked_of_ofBookmark? hn] at hm
  cases hm

theorem expandOnce (h : KeptByRunning s after I) (hI : I True cs r.document)
    (hidle : ∀ c ∈ cs, c.IdleIfMarked) :
    Ends (fun _ => False) (expandOnce s cs r) fun p =>
      I True p.1 p.2.1.document ∧ ∀ c ∈ p.1, c.IdleIfMarked := by
  refine Ends.andThen (h.visitPending (fun _ _ _ _ hc hI => h.executeOverride hc hI) hI hidle) fun p hp => ?_
  refine Ends.andThen (h.visitPending (fun _ _ _ hpending hc hI => h.executeInsert _ hpending hc hI)
    hp.1 hp.2) fun q hq => ?_
  exact ⟨h.refresh hq.1, idleIfMarked_refresh hq.2⟩

/-- All rounds of expansion. -/
theorem expandFrom (h : KeptByRunning s after I) (done left : Nat) (hI : I True cs r.document)
    (hidle : ∀ c ∈ cs, c.IdleIfMarked) :
    Ends (fun _ => False) (expandFrom s done left cs r) fun p => I True p.2.1 p.2.2.document := by
  induction left generalizing done cs r with
  | zero => exact hI
  | succ left ih =>
    refine Ends.andThen (h.expandOnce hI hidle) fun p hp => ?_
    dsimp only
    split
    · exact ih (done + 1) hp.1 hp.2
    · exact hp.1

/-! #### After expansion -/

/-- A phase whose steps need nothing of a command, while views of the document wait. -/
theorem lockedPhase (h : KeptByRunning s after I) {step : Command → Run → Except Fault (Command × Run)}
    (hstep : ∀ c cs r, I e (c :: cs) r.document →
      Ends (fun _ => False) (step c r) fun p => I e (p.1 :: cs) p.2.document) (hI : I e cs r.document) :
    Ends (fun _ => False) (lockedPhase (TemplateEngine.visitPending step) cs r) fun p =>
      I e p.1 p.2.document := by
  have hlock : I e cs { r with document := r.document.lock }.document := h.sameParts hI (.lock _)
  refine Ends.andThen (h.visitPending (Q := fun _ => True)
    (fun c cs r _ _ hI => (hstep c cs r hI).mono fun _ hp => ⟨hp, trivial⟩) hlock fun _ _ => trivial) fun p hp => ?_
  exact h.sameParts hp.1 (.unlock _)

theorem updateFields (h : KeptByRunning s after I) (hI : I after (c :: cs) r.document) :
    Ends (fun _ => False) (updateFields s.policy c r) fun p => I after (p.1 :: cs) p.2.document := by
  unfold TemplateEngine.updateFields
  split
  next hkind =>
    have hk : c.kind.isInsertion = false := by rw [hkind]; rfl
    dsimp only
    split
    · exact h.finish hI hk _
    · refine Ends.andThen (Ends.refreshElements (I := fun d => I after (c :: cs) d)
        (fun d e hd => h.refreshElement hd e) hI _) fun d hd => ?_
      exact h.finish (r := { r with document := d }) hd hk _
  · exact hI

theorem takeForm (h : KeptByRunning s after I) (hI : I e (c :: cs) r.document)
    (hk : c.kind.isInsertion = false) :
    Ends (fun _ => False) (takeForm s.policy c r) fun p => I e (p.1 :: cs) p.2.document := by
  have hm := h.unmarked hI hk
  unfold TemplateEngine.takeForm
  refine Ends.andThen (safe_commandBody (h.wellFormed hI)) fun body _ => ?_
  split
  · exact h.fail hI hm _
  next nodes _ =>
    have hform : I e (c :: cs) (r.describeForm nodes).document := by
      unfold Run.describeForm
      split
      · exact hI
      · exact h.sameParts hI (.setPersistentData _ _ _)
    refine Ends.andThen (h.setText hform hm []) fun attempt hattempt => ?_
    cases attempt with
    | error e => exact h.fail hform hm _
    | ok d' => exact h.finish (r := { r.describeForm nodes with document := d' }) (hattempt d' rfl) hk _

theorem fillIn (h : KeptByRunning s after I) (hI : I e (c :: cs) r.document) :
    Ends (fun _ => False) (fillIn s c r) fun p => I e (p.1 :: cs) p.2.document := by
  unfold TemplateEngine.fillIn
  split
  next hkind => exact h.takeForm hI (by rw [hkind]; rfl)
  next defect hkind => exact h.fail hI (h.unmarked hI (by rw [hkind]; rfl)) _
  next request hkind =>
    have hk : c.kind.isInsertion = false := by rw [hkind]; rfl
    unfold insertValue
    split
    · exact h.fail hI (h.unmarked hI hk) _
    next value _ =>
      have hwrite : Ends (fun _ => False) (r.write c (separated request.separators value)) fun r' =>
          I e (c :: cs) r'.document := by
        refine Ends.andThen (h.setText hI (h.unmarked hI hk) _) fun attempt hattempt => ?_
        cases attempt with
        | error e => exact hI
        | ok d' => exact hattempt d' rfl
      exact Ends.andThen hwrite fun r' hr' => h.finish hr' hk _
  · exact hI

end KeptByRunning

/-! ### Tracked commands -/

/-- Showing the value of a computed field, which is clear of all marks. -/
theorem Document.Layout.refreshElement {marked : List String} {d : Document} (h : d.Layout kept marked [])
    (e : Element) :
    Ends (fun _ => False) (d.refreshElement e) fun o => ∀ d', o = some (.ok d') →
      d'.Layout kept marked [] := by
  have hd := h.consistent.toWellFormed
  cases e with
  | paragraph index => simp [Document.refreshElement]
  | field id =>
    unfold Document.refreshElement
    dsimp only
    split
    · simp
    next f hf =>
    split
    · simp
    next source _ =>
    split
    · simp
    next value hvalue =>
      obtain ⟨a, m, z, htext, hstart, hstop⟩ := Span.fits_iff.1 (fits_of_field? hd hf)
      have hspan : f.span = a.stretch m := by rw [Text.stretch, hstart, hstop]
      rw [hspan, edit_eq htext]
      rintro d' ⟨⟩
      have hwell := wellFormed_replaced hd htext value.toList (some (.field id))
      refine h.edited htext trivial (fun y hy r hr => ?_) ?_
      · exact hspan ▸ h.fields y hy r hr f (List.mem_of_find?_eq_some hf)
      · -- without values no computed field is shown anew
        rcases h.still with rfl | hempty
        · exact framed_pinned hwell []
        · rw [hempty, Dictionary.get?_empty] at hvalue
          cases hvalue

/-- Without values no computed field is shown anew. -/
theorem refreshElement_of_values_empty {d : Document} (hvalues : d.values = .empty) (e : Element) :
    Ends (fun _ => True) (d.refreshElement e) fun o => ∀ d', o ≠ some (.ok d') := by
  cases e with
  | paragraph index => simp [refreshElement]
  | field id =>
    unfold refreshElement
    dsimp only
    rw [hvalues]
    split
    · simp
    split
    · simp
    · simp [Dictionary.get?_empty]

/-- Showing the value of a computed field.  If some text has to stay, there are no values. -/
theorem Tracked.refreshElement {d : Document} (h : Tracked kept (kept ≠ [[], []]) cs d) (e : Element) :
    Ends (fun _ => False) (d.refreshElement e) fun o => ∀ d', o = some (.ok d') →
      Tracked kept (kept ≠ [[], []]) cs d' := by
  have hquiet : Ends (fun _ => True) (d.refreshElement e) fun o =>
      kept ≠ [[], []] → ∀ d', o ≠ some (.ok d') :=
    Ends.of_forall fun o ho hkept =>
      (refreshElement_of_values_empty (h.layout.still.resolve_left hkept) e).of_eq_ok ho
  refine ((h.layout.refreshElement e).and hquiet).mono fun o ho d' hd' => ?_
  exact { h with
    layout := ho.1 d' hd'
    found := fun hkept _ _ _ => absurd hd' (ho.2 hkept d') }

/-- A run keeps its commands tracked.  Behind expansion commands can be lost with computed fields, unless
some text has to stay. -/
theorem keptByRunning_tracked (hs : s.LoadsApart) : KeptByRunning s (kept ≠ [[], []]) (Tracked kept) where
  perm := Tracked.perm
  leave h := h.weaken fun _ => trivial
  named := Tracked.named
  wellFormed h := h.layout.consistent.toWellFormed
  unmarked := Tracked.unmarked
  sameParts := Tracked.sameParts
  setFailed {_ c _ _} h := h.withCommand rfl rfl rfl ((h.named c (by simp)).of_eq rfl rfl rfl)
  setText := Tracked.setText
  fail := Tracked.fail
  finish := Tracked.finish
  finishInsertion := Tracked.finishInsertion
  insert := by
    intro c cs d l content h hk hm hload
    obtain ⟨d', hinsert, hd', hfill⟩ := h.insertBetweenMarks hk hm (hs l content hload).1 (hs l content hload).2
    rw [hinsert]
    refine ⟨hd', .inl rfl, ?_⟩
    rintro r jumpMark arguments rfl
    exact hd'.fillPlaceholders hfill _ _ _
  refresh := Tracked.refresh
  refreshElement := Tracked.refreshElement

/-- A state between two rounds of expansion. -/
def Expanding (kept : List Text) (cs : List Command) (d : Document) : Prop :=
  Tracked kept True cs d ∧ ∀ c ∈ cs, c.IdleIfMarked

theorem Expanding.refresh {d : Document} (h : Expanding kept cs d) :
    Expanding kept (Command.refresh d cs).1 d :=
  ⟨h.1.refresh, KeptByRunning.idleIfMarked_refresh h.2⟩

/-! ### Settings -/

/-- The rule for scanning the settings: commands that insert nothing are done and their bookmarks go, and
else only metadata and flags change. -/
theorem scanSettings_rule {I : List Command → Document → Prop}
    (hparts : ∀ cs d d', SameParts d d' → I cs d → I cs d')
    (hconsume : ∀ before c after d, c.kind.isInsertion = false → I (before ++ c :: after) d →
      I (before ++ (c.markDone d true).1 :: after) (c.markDone d true).2)
    {m : Model} (h : I m.commands m.document) :
    Ends (fun _ => False) m.scanSettings fun m' => I m'.commands m'.document := by
  have hstart : I m.commands m.enter.document :=
    hparts m.commands m.document m.enter.document ⟨rfl, rfl, rfl, rfl, rfl, rfl, rfl⟩ h
  unfold Model.scanSettings
  refine Ends.andThen (Ends.visitPendingAll (I := fun cs (s : Scan) => I cs s.document)
    (s := ⟨m.enter.document, m.settings⟩) hstart fun before c after s _ hI => ?_)
    fun p hp => hparts p.1 p.2.document _ ⟨rfl, rfl, rfl, rfl, rfl, rfl, rfl⟩ hp
  have hdone : ∀ s' : Scan, SameParts s.document s'.document → c.kind.isInsertion = false →
      I (before ++ (s'.consume c).1 :: after) (s'.consume c).2.document := fun s' hsame hk =>
    hconsume before c after s'.document hk (hparts _ _ _ hsame hI)
  unfold scanCommand
  split
  next t hkind =>
    dsimp only
    split
    · exact hI
    · exact hdone _ (.refl _) (by rw [hkind]; rfl)
  next function hkind =>
    exact hdone ⟨_, _⟩ (sameParts_addPrintFunction _ _ _) (by rw [hkind]; rfl)
  · exact hI

/-- Scanning the settings takes bookmarks of commands away that do not insert. -/
theorem expanding_scanSettings {m : Model} (h : Expanding kept m.commands m.document) :
    Ends (fun _ => False) m.scanSettings fun m' => Expanding kept m'.commands m'.document := by
  refine scanSettings_rule (fun cs d d' hsame h => ⟨h.1.sameParts hsame, h.2⟩)
    (fun before c after d hk h => ⟨?_, fun x hx => ?_⟩) h
  · exact ((h.1.perm List.perm_middle).markDone true (fun _ => hk) fun _ => trivial).perm
      List.perm_middle.symm
  · rcases List.mem_cons.1 (List.perm_middle.mem_iff.1 hx) with rfl | hx
    · intro _
      simp [Command.isPending, done_markDone]
    · exact h.2 x (by simp only [List.mem_append, List.mem_cons] at hx ⊢; tauto)

end Phases

end TemplateEngine
