import Mathlib
import TemplateEngine.Proofs.Expanding
import TemplateEngine.Proofs.Insertion

/-!
# Order — outputs come out in the order of the commands

Two phases put texts in the places of commands: one inserts fragments and contents, one fills in values
(`TextPhase`).  A step keeps the bookmarks of all other pending commands where they are among each other
(`passes_step`) and its own among them (`stays_step`); a whole visit keeps the bystanders of the commands
visited (`passes_visitPending`).  So a command whose bookmark ends before that of a later one still does
after the phase.  The exception are two empty bookmarks at one place: the text of the first command
comes behind the bookmark of the second one there.
-/

namespace TemplateEngine

open Document

/-! ### Steps -/

section Steps

variable {s : Services} {c : Command} {r : Run} {names : List String}

/-- How a step ends that keeps the bystanders of its command. -/
def PassesBy (names : List String) (r : Run) (p : Command × Run) : Prop :=
  p.2.document.Consistent ∧ Spares r.document p.2.document names

/-- How a step ends that keeps the bookmark of its command too. -/
def Stays (names : List String) (c : Command) (r : Run) (p : Command × Run) : Prop :=
  p.2.document.Consistent ∧ Overwrites names r.document c.bookmark p.2.document p.1.bookmark

theorem Stays.passesBy {p : Command × Run} (h : Stays names c r p) : PassesBy names r p :=
  ⟨h.1, h.2.spares⟩

/-- A step that leaves the document as it is. -/
theorem stays_of_eq (hr : r.document.Consistent) (hc : c.bookmark ∉ names) {p : Command × Run}
    (hd : p.2.document = r.document) (hb : p.1.bookmark = c.bookmark) : Stays names c r p := by
  unfold Stays
  rw [hd, hb]
  exact ⟨hr, overwrites_of_spares hc (.refl _ _)⟩

/-- A command that stayed is marked done and keeps its bookmark under a new name. -/
theorem Stays.finish {p : Command × Run} (h : Stays names c r p)
    (ha : r.document.Arranged (c.bookmark :: names)) : Stays names c r (p.2.finish p.1 false) := by
  obtain ⟨c', r'⟩ := p
  obtain ⟨hcons, hover⟩ := h
  refine ⟨consistent_markDone hcons false, ?_⟩
  have ha' := hover.arranged ha
  have hbookmark := Command.bookmark_recordState { c' with done := true }
  unfold Run.finish Command.markDone
  simp only [Bool.false_eq_true, if_false]
  split
  next d' unique hren =>
    rw [hbookmark] at hren
    obtain ⟨hown, hothers⟩ := span?_renameBookmark hren
    have hother : ∀ y ∈ names, d'.span? y = r'.document.span? y ∧ y ≠ unique := fun y hy =>
      hothers y (isSome_span?_iff.1 (ha'.found y (by simp [hy])))
        fun heq => (List.nodup_cons.1 ha'.distinct).1 (heq ▸ hy)
    exact hover.andRenames hown (fun y hy => (hother y hy).1)
      fun hmem => (hother unique hmem).2 rfl
  · rw [hbookmark]
    exact hover

theorem passes_finish {p : Command × Run} (h : Stays names c r p)
    (ha : r.document.Arranged (c.bookmark :: names)) (remove : Bool) :
    PassesBy names r (p.2.finish p.1 remove) := by
  cases remove with
  | false => exact (h.finish ha).passesBy
  | true =>
    obtain ⟨c', r'⟩ := p
    obtain ⟨hcons, hover⟩ := h
    refine ⟨consistent_markDone hcons true, ?_⟩
    unfold Run.finish Command.markDone
    simp only [if_true]
    split
    next d' hremove =>
      refine hover.spares.trans (spares_of_span?_eq fun y hy => ?_)
      have hne : y ≠ c'.bookmark := fun heq => hover.other (heq ▸ hy)
      exact span?_removeBookmark hne hremove
    · exact hover.spares

/-- The text of a command is replaced. -/
theorem write_spec (hr : r.document.Consistent) (ha : r.document.Arranged (c.bookmark :: names))
    (t : Text) : Ends (fun _ => False) (r.write c t) fun r' => Stays names c r (c, r') := by
  obtain ⟨d', hset, hd', hover⟩ := overwrites_setBookmarkText hr ha t
  unfold Run.write Command.setText
  rw [hset]
  exact ⟨hd', hover⟩

theorem stays_fail (hr : r.document.Consistent) (ha : r.document.Arranged (c.bookmark :: names))
    (reason : String) : Ends (fun _ => False) (r.fail c reason) (Stays names c r) := by
  obtain ⟨d', hset, hd', hover⟩ := overwrites_setBookmarkText hr ha failureText
  have hmark : Ends (fun _ => False) (markFailure r.document c reason) fun d =>
      d.Consistent ∧ Overwrites names r.document c.bookmark d c.bookmark := by
    unfold markFailure Command.setText
    rw [hset]
    dsimp only [bind, Except.bind]
    split
    · exact ⟨hd', hover⟩
    next range hrange =>
      cases hnote : d'.insertAnnotation range (failureNote c reason) with
      | error e => exact ⟨hd', hover⟩
      | ok d'' =>
        obtain rfl := addAnnotation_of_insertAnnotation hnote
        exact ⟨⟨wellFormed_annotated hd'.toWellFormed _
          (Run.fits_range? hd'.toWellFormed hrange), hd'.ids, hd'.fresh⟩,
          hover.andSpares (spares_of_span?_eq fun _ _ => rfl)⟩
  exact Ends.andThen hmark fun d hd => hd

theorem stays_failFragment (hr : r.document.Consistent)
    (ha : r.document.Arranged (c.bookmark :: names)) (request : FragmentRequest) (id : String)
    (e : InsertionError) :
    Ends (fun _ => False) (failFragment request id e c r) (Stays names c r) := by
  unfold failFragment
  split
  · exact stays_of_eq hr (List.nodup_cons.1 ha.distinct).1 rfl rfl
  · exact stays_fail hr ha _

/-- A content is put between marks: it is not refused, and its placeholders can be filled in. -/
theorem insertBetweenMarks_accepts (hr : r.document.Consistent)
    (ha : r.document.Arranged (c.bookmark :: names)) {content : Document}
    (hcontent : content.WellFormed) :
    ∃ d', c.insertBetweenMarks r.document content = .ok ({ c with marked := true }, d', none) ∧
      d'.Consistent ∧ Overwrites names r.document c.bookmark d' c.bookmark ∧
      d'.FieldsYield c.bookmark := by
  obtain ⟨span, hspan⟩ := Option.isSome_iff_exists.1 (ha.found c.bookmark (by simp))
  obtain ⟨a, m, z, htext, rfl, hinsert⟩ := insertBetweenMarks_eq hr.toWellFormed hspan content
  exact ⟨_, hinsert, withContent_spec hr hcontent htext hspan ha⟩

theorem stays_insertFragment (hs : s.LoadsWellFormed) (hr : r.document.Consistent)
    (ha : r.document.Arranged (c.bookmark :: names)) (jumpMark : Option String)
    (request : FragmentRequest) :
    Ends (fun _ => False) (insertFragment s jumpMark request c r) (Stays names c r) := by
  unfold insertFragment
  dsimp only
  split
  · exact Ends.andThen (write_spec hr ha []) fun r' hr' => hr'.finish ha
  split
  · exact stays_failFragment hr ha request _ _
  next content hload =>
    have hcontent := wellFormed_of_loadFragment hs hload
    unfold placeFragment
    split
    next hstyles =>
      -- importing styles touches no bookmark
      let d := r.document.importStyles content request.styles
      have hd : d.Consistent := ⟨⟨hr.names, hr.bookmarks, hr.fields, hr.annotations, hr.cursor⟩,
        hr.ids, hr.fresh⟩
      have had : d.Arranged (c.bookmark :: names) := ha.spares (spares_of_span?_eq fun _ _ => rfl)
      obtain ⟨d', hset, hd', hover⟩ := overwrites_setBookmarkText hd had []
      have hstays : Stays names c r (c, { r with document := d' }) :=
        ⟨hd', hover.of_span?_eq fun _ _ => rfl⟩
      unfold Command.setText
      show Ends _ ((d.setBookmarkText c.bookmark [] >>= _) >>= _) _
      rw [hset]
      exact hstays.finish ha
    next hstyles =>
      obtain ⟨d', hinsert, hd', hover, hyield⟩ := insertBetweenMarks_accepts hr ha hcontent
      rw [hinsert]
      show Ends _ (fillPlaceholders s.policy jumpMark { c with marked := true } request.arguments
        { r with document := d' } >>= _) _
      have ha' := hover.arranged ha
      refine Ends.andThen (spares_fillPlaceholders (r := { r with document := d' })
        (c := { c with marked := true }) hd' ha' hyield _ _ _) fun r' hr' => ?_
      have hstays : Stays names c r ({ c with marked := true }, r') :=
        ⟨hr'.1, hover.andSpares hr'.2⟩
      exact hstays.finish ha

theorem stays_insertContent (hs : s.LoadsWellFormed) (hr : r.document.Consistent)
    (ha : r.document.Arranged (c.bookmark :: names)) :
    Ends (fun _ => False) (insertContent s c r) (Stays names c r) := by
  unfold insertContent
  split
  · exact (stays_of_eq (p := (c, r)) hr (List.nodup_cons.1 ha.distinct).1 rfl rfl).finish ha
  next location contents _ =>
    have hplace : Ends (fun _ => False) (placeContent s location c { r with contents })
        (Stays names c r) := by
      unfold placeContent
      split
      · exact stays_fail (r := { r with contents }) hr ha _
      next content hload =>
        obtain ⟨d', hinsert, hd', hover, -⟩ := insertBetweenMarks_accepts hr ha (hs location content hload)
        rw [hinsert]
        exact ⟨hd', hover⟩
    exact Ends.andThen hplace fun p hp => hp.finish ha

theorem stays_executeInsert (hs : s.LoadsWellFormed) (hr : r.document.Consistent)
    (ha : r.document.Arranged (c.bookmark :: names)) (jumpMark : Option String) :
    Ends (fun _ => False) (executeInsert s jumpMark c r) (Stays names c r) := by
  unfold executeInsert
  split
  · exact stays_insertFragment hs hr ha jumpMark _
  · exact stays_insertContent hs hr ha
  · exact stays_of_eq hr (List.nodup_cons.1 ha.distinct).1 rfl rfl

theorem stays_insertValue (hr : r.document.Consistent)
    (ha : r.document.Arranged (c.bookmark :: names)) (request : ValueRequest) :
    Ends (fun _ => False) (insertValue s request c r) (Stays names c r) := by
  unfold insertValue
  split
  · exact stays_fail hr ha _
  · exact Ends.andThen (write_spec hr ha _) fun r' hr' => hr'.finish ha

theorem passes_takeForm (hr : r.document.Consistent)
    (ha : r.document.Arranged (c.bookmark :: names)) (policy : Policy) :
    Ends (fun _ => False) (takeForm policy c r) (PassesBy names r) := by
  unfold takeForm
  refine Ends.andThen (safe_commandBody hr.toWellFormed) fun body _ => ?_
  split
  · exact (stays_fail hr ha _).mono fun p hp => hp.passesBy
  next nodes _ =>
    have hform : (r.describeForm nodes).document.Consistent ∧
        ∀ n, (r.describeForm nodes).document.span? n = r.document.span? n := by
      unfold Run.describeForm
      split
      · exact ⟨hr, fun _ => rfl⟩
      · exact ⟨⟨⟨hr.names, hr.bookmarks, hr.fields, hr.annotations, hr.cursor⟩, hr.ids, hr.fresh⟩,
          fun _ => rfl⟩
    have ha' := ha.spares (spares_of_span?_eq fun n _ => hform.2 n)
    obtain ⟨d', hset, hd', hover⟩ := overwrites_setBookmarkText hform.1 ha' []
    have hstays : Stays names c r (c, { r.describeForm nodes with document := d' }) :=
      ⟨hd', hover.of_span?_eq fun n _ => hform.2 n⟩
    unfold Command.setText
    dsimp only
    rw [hset]
    exact passes_finish hstays ha _

theorem passes_fillIn (hr : r.document.Consistent) (ha : r.document.Arranged (c.bookmark :: names)) :
    Ends (fun _ => False) (fillIn s c r) (PassesBy names r) := by
  unfold fillIn
  split
  · exact passes_takeForm hr ha s.policy
  · exact (stays_fail hr ha _).mono fun p hp => hp.passesBy
  · exact (stays_insertValue hr ha _).mono fun p hp => hp.passesBy
  · exact ⟨hr, .refl _ _⟩

end Steps

/-! ### Visits -/

/-- The bookmarks of the pending commands of a list. -/
def pendingNames (cs : List Command) : List String := (cs.filter (·.isPending)).map (·.bookmark)

theorem pendingNames_append (cs cs' : List Command) :
    pendingNames (cs ++ cs') = pendingNames cs ++ pendingNames cs' := by
  simp [pendingNames]

theorem pendingNames_cons {c : Command} (hc : c.isPending = true) (cs : List Command) :
    pendingNames (c :: cs) = c.bookmark :: pendingNames cs := by
  simp [pendingNames, hc]

section Visits

variable {step : Command → Run → Except Fault (Command × Run)} {c : Command}

theorem visitPending_skip (hc : c.isPending = false) (cs : List Command) (r : Run) :
    visitPending step (c :: cs) r =
      visitPending step cs r >>= fun p => .ok (c :: p.1, p.2) := by
  show (if c.isPending then step c r else .ok (c, r)) >>= _ = _
  rw [if_neg (Bool.eq_false_iff.1 hc)]
  rfl

theorem visitPending_cons (hc : c.isPending = true) (cs : List Command) (r : Run) :
    visitPending step (c :: cs) r =
      step c r >>= fun q => visitPending step cs q.2 >>= fun p => .ok (q.1 :: p.1, p.2) := by
  show (if c.isPending then step c r else .ok (c, r)) >>= _ = _
  rw [if_pos hc]
  rfl

theorem visitPending_append {cs ds cs' : List Command} {r r' : Run}
    (h : visitPending step cs r = .ok (cs', r')) :
    visitPending step (cs ++ ds) r =
      visitPending step ds r' >>= fun p => .ok (cs' ++ p.1, p.2) := by
  unfold visitPending at h ⊢
  rw [visit_append, h]
  rfl

/-- Visiting commands keeps the bystanders of those that are pending. -/
theorem passes_visitPending
    (hstep : ∀ {c r names}, r.document.Consistent → r.document.Arranged (c.bookmark :: names) →
      Ends (fun _ => False) (step c r) (PassesBy names r))
    {cs : List Command} {r : Run} {names : List String} (hr : r.document.Consistent)
    (ha : r.document.Arranged (pendingNames cs ++ names)) :
    Ends (fun _ => False) (visitPending step cs r) fun p =>
      p.2.document.Consistent ∧ Spares r.document p.2.document names ∧ p.1.length = cs.length := by
  induction cs generalizing r with
  | nil => exact ⟨hr, .refl _ _, rfl⟩
  | cons c cs ih =>
    cases hc : c.isPending with
    | false =>
      have ha' : r.document.Arranged (pendingNames cs ++ names) := by
        simpa [pendingNames, hc] using ha
      rw [visitPending_skip hc]
      refine Ends.andThen (ih hr ha') fun p hp => ?_
      exact ⟨hp.1, hp.2.1, congrArg Nat.succ hp.2.2⟩
    | true =>
      rw [pendingNames_cons hc, List.cons_append] at ha
      rw [visitPending_cons hc]
      refine Ends.andThen (hstep hr ha) fun q hq => ?_
      have ha' := (ha.sublist (List.sublist_cons_self _ _)).spares hq.2
      refine Ends.andThen (ih hq.1 ha') fun p hp => ?_
      exact ⟨hp.1, (hq.2.mono (List.subset_append_right _ _)).trans hp.2.1,
        congrArg Nat.succ hp.2.2⟩

end Visits

/-! ### The order of outputs -/

/-- The phases that put texts in the places of commands. -/
inductive TextPhase where
  /-- Inserting fragments and contents. -/
  | insertions
  /-- Filling in values. -/
  | values
  deriving DecidableEq, Repr

namespace TextPhase

/-- The step of a phase for one of the commands of a list. -/
def step (s : Services) (cs : List Command) : TextPhase → Command → Run → Except Fault (Command × Run)
  | .insertions => executeInsert s (Command.firstJumpMark? cs)
  | .values => fillIn s

/-- A phase. -/
def run (s : Services) (cs : List Command) : TextPhase → Run → Except Fault (List Command × Run)
  | .insertions => executeInserts s cs
  | .values => visitPending (fillIn s) cs

/-- Whether a phase puts a text in the place of a command of that kind. -/
def serves : TextPhase → CommandKind → Bool
  | .insertions, k => k.isInsertion
  | .values, .insertValue _ => true
  | .values, _ => false

theorem run_eq (s : Services) (cs : List Command) (phase : TextPhase) (r : Run) :
    phase.run s cs r = visitPending (phase.step s cs) cs r := by
  cases phase <;> rfl

theorem passes_step {s : Services} (hs : s.LoadsWellFormed) (cs : List Command) (phase : TextPhase)
    {c : Command} {r : Run} {names : List String} (hr : r.document.Consistent)
    (ha : r.document.Arranged (c.bookmark :: names)) :
    Ends (fun _ => False) (phase.step s cs c r) (PassesBy names r) := by
  cases phase with
  | insertions => exact (stays_executeInsert hs hr ha _).mono fun p hp => hp.passesBy
  | values => exact passes_fillIn hr ha

theorem stays_step {s : Services} (hs : s.LoadsWellFormed) (cs : List Command) {phase : TextPhase}
    {c : Command} (hc : phase.serves c.kind = true) {r : Run} {names : List String}
    (hr : r.document.Consistent) (ha : r.document.Arranged (c.bookmark :: names)) :
    Ends (fun _ => False) (phase.step s cs c r) (Stays names c r) := by
  cases phase with
  | insertions => exact stays_executeInsert hs hr ha _
  | values =>
    unfold serves at hc
    split at hc
    · contradiction
    next request _ hkind =>
      show Ends _ (fillIn s c r) _
      unfold fillIn
      rw [hkind]
      exact stays_insertValue hr ha request
    · cases hc

end TextPhase

/-- Of two commands served by a phase the bookmark of the first one still ends before that of the second
one when the phase is over, unless both were empty and at one place when the first one was executed. -/
theorem before_textPhase {s : Services} (hs : s.LoadsWellFormed) (phase : TextPhase)
    {before between after cs : List Command} {c₁ c₂ : Command} {r : Run}
    (hcs : cs = before ++ c₁ :: (between ++ c₂ :: after)) (hr : r.document.Consistent)
    (ha : r.document.Arranged (pendingNames cs)) (hp₁ : c₁.isPending = true)
    (hp₂ : c₂.isPending = true) (hk₁ : phase.serves c₁.kind = true)
    (hk₂ : phase.serves c₂.kind = true) (horder : r.document.Before c₁.bookmark c₂.bookmark) :
    ∃ before' between' after' c₁' c₂' r₁ r',
      visitPending (phase.step s cs) before r = .ok (before', r₁) ∧
      phase.run s cs r = .ok (before' ++ c₁' :: (between' ++ c₂' :: after'), r') ∧
      between'.length = between.length ∧
      (r'.document.Before c₁'.bookmark c₂'.bookmark ∨
        r₁.document.Coincide c₁.bookmark c₂.bookmark) := by
  have hpass : ∀ {c r names}, r.document.Consistent → r.document.Arranged (c.bookmark :: names) →
      Ends (fun _ => False) (phase.step s cs c r) (PassesBy names r) :=
    fun hr ha => phase.passes_step hs cs hr ha
  have hnames : pendingNames cs = pendingNames before ++
      c₁.bookmark :: (pendingNames between ++ c₂.bookmark :: pendingNames after) := by
    rw [hcs, pendingNames_append, pendingNames_cons hp₁, pendingNames_append, pendingNames_cons hp₂]
  rw [hnames] at ha
  -- the commands before the first one
  obtain ⟨⟨before', r₁⟩, hbefore, hr₁, hspares₁, -⟩ := (passes_visitPending hpass hr ha).exists_ok
  have ha₁ := (ha.sublist (List.sublist_append_right _ _)).spares hspares₁
  have horder₁ := hspares₁.order c₁.bookmark (by simp) c₂.bookmark (by simp) horder
  -- the first one
  obtain ⟨⟨c₁', r₂⟩, hstep₁, hr₂, hover₁⟩ :=
    (TextPhase.stays_step hs cs hk₁ hr₁ ha₁).exists_ok
  have ha₂ := hover₁.arranged ha₁
  have horder₂ := hover₁.behind c₂.bookmark (by simp) horder₁
  -- the commands between
  have ha₂' : r₂.document.Arranged
      (pendingNames between ++ c₂.bookmark :: c₁'.bookmark :: pendingNames after) :=
    ha₂.perm (by
      have hmiddle : (c₁'.bookmark ::
          (pendingNames between ++ c₂.bookmark :: pendingNames after)).Perm
          (pendingNames between ++ c₁'.bookmark :: c₂.bookmark :: pendingNames after) :=
        List.perm_middle.symm
      exact hmiddle.trans (List.Perm.append_left _ (List.Perm.swap _ _ _)))
  obtain ⟨⟨between', r₃⟩, hbetween, hr₃, hspares₃, hlength⟩ :=
    (passes_visitPending hpass hr₂ ha₂').exists_ok
  have ha₃ := (ha₂'.sublist (List.sublist_append_right _ _)).spares hspares₃
  -- the second one
  obtain ⟨⟨c₂', r₄⟩, hstep₂, hr₄, hover₂⟩ :=
    (TextPhase.stays_step hs cs hk₂ hr₃ ha₃).exists_ok
  have ha₄ := hover₂.arranged ha₃
  -- the commands behind it
  have ha₄' : r₄.document.Arranged (pendingNames after ++ [c₁'.bookmark, c₂'.bookmark]) :=
    ha₄.perm (by
      have hback : ([c₁'.bookmark, c₂'.bookmark] ++ pendingNames after).Perm
          (pendingNames after ++ [c₁'.bookmark, c₂'.bookmark]) := List.perm_append_comm
      exact (List.Perm.swap _ _ _).trans hback)
  obtain ⟨⟨after', r₅⟩, hafter, -, hspares₅, -⟩ := (passes_visitPending hpass hr₄ ha₄').exists_ok
  refine ⟨before', between', after', c₁', c₂', r₁, r₅, hbefore, ?_, hlength, ?_⟩
  · rw [TextPhase.run_eq]
    generalize phase.step s cs = step at hbefore hstep₁ hbetween hstep₂ hafter
    rw [hcs, visitPending_append hbefore, visitPending_cons hp₁, hstep₁]
    show ((visitPending step (between ++ c₂ :: after) r₂ >>= _) >>= _) = _
    rw [visitPending_append hbetween, visitPending_cons hp₂, hstep₂]
    show ((((visitPending step after r₄ >>= _) >>= _) >>= _) >>= _) = _
    rw [hafter]
    rfl
  · refine horder₂.imp (fun h => ?_) id
    have h₃ := hspares₃.order c₁'.bookmark (by simp) c₂.bookmark (by simp) h
    have h₄ := hover₂.before c₁'.bookmark (by simp) h₃
    exact hspares₅.order c₁'.bookmark (by simp) c₂'.bookmark (by simp) h₄

/-! ### Outputs at given places -/

instance (d : Document) (m n : String) : Decidable (d.Before m n) :=
  match hm : d.span? m, hn : d.span? n with
  | some s, some t =>
    decidable_of_iff (s.stop ≤ t.start) ⟨fun h => ⟨s, t, hm, hn, h⟩, by
      rintro ⟨s', t', hs', ht', h⟩
      rw [hm] at hs'
      rw [hn] at ht'
      cases hs'
      cases ht'
      exact h⟩
  | none, _ => .isFalse fun ⟨_, _, hs, _⟩ => by rw [hm] at hs; cases hs
  | some _, none => .isFalse fun ⟨_, _, _, ht, _⟩ => by rw [hn] at ht; cases ht

/-- Surroundings in which a fragment is the text of its name. -/
def echo : Services where
  locations := fun id => [id]
  load := fun l => .ok (Document.ofText l.toList)
  value := fun column => .ok column
  transform := fun name _ => .error (.unknown name)
  policy := ⟨true, false⟩

/-- A command for a fragment, under a bookmark of the fragment's name. -/
def insertion (id : String) (arguments : List String) : Command :=
  ⟨id, .leaf "DOC", .insertFragment ⟨id, arguments, false, []⟩, false, false, false⟩

/-- Four places for fragments, which touch each other. -/
def touching : Document :=
  { Document.ofText "abc".toList with
    bookmarks := [⟨"A", ⟨0, 1⟩⟩, ⟨"B", ⟨1, 2⟩⟩, ⟨"C", ⟨2, 2⟩⟩, ⟨"D", ⟨2, 3⟩⟩] }

theorem before_textPhase_touching :
    ∃ before' between' after' c₁' c₂' r₁ r',
      visitPending (TextPhase.insertions.step echo (["A", "B", "D", "C"].map (insertion · [])))
        [insertion "A" []] (Model.ofDocument touching).startRun = .ok (before', r₁) ∧
      TextPhase.insertions.run echo (["A", "B", "D", "C"].map (insertion · []))
        (Model.ofDocument touching).startRun =
          .ok (before' ++ c₁' :: (between' ++ c₂' :: after'), r') ∧
      between'.length = [insertion "D" []].length ∧
      (r'.document.Before c₁'.bookmark c₂'.bookmark ∨ r₁.document.Coincide "B" "C") := by
  have hwell : touching.WellFormed :=
    ⟨by decide, by decide, by decide, by decide, by simp [touching, Document.ofText]⟩
  have hloads : echo.LoadsWellFormed := fun l content h => by
    obtain rfl := Except.ok.inj h
    exact Document.wellFormed_ofText _
  have hcs : ["A", "B", "D", "C"].map (insertion · []) = [insertion "A" []] ++
      insertion "B" [] :: ([insertion "D" []] ++ insertion "C" [] :: []) := rfl
  exact before_textPhase hloads .insertions hcs ⟨hwell, by decide, by decide⟩
    ⟨by decide, by decide, by decide⟩ rfl rfl rfl rfl (by decide)

/-- How many commands failed in a phase, and where the commands are after it. -/
def placesAfter : Except Fault (List Command × Run) → Option (Nat × List (Option Span))
  | .ok (cs, r) => some (r.failures, cs.map fun c => r.document.span? c.bookmark)
  | .error _ => none

/-- Two fragments asked for at one place. -/
def onePlace : Document :=
  { Document.ofText "x".toList with
    bookmarks := [⟨"DOC(CMD 'insertFrag' FRAG_ID 'A')", ⟨0, 0⟩⟩,
      ⟨"DOC(CMD 'insertFrag' FRAG_ID 'B')", ⟨0, 0⟩⟩] }

/-- Surroundings with a fragment that is no well-formed content: counted from where it is inserted, its
placeholder starts again at the first position and lies around the marks. -/
def overreaching : Services :=
  { echo with
    load := fun _ => .ok { Document.ofText "C".toList with
      fields := [⟨0, .placeholder "name", ⟨18446744073709551615, 2⟩⟩]
      nextFieldId := 1 } }

/-- Of two fragments at one place the first one comes out last; a fragment that is no well-formed content
can take the bookmark of its command away. -/
theorem placesAfter_onePlace :
    (Command.ofDocument onePlace).map (fun c => (c.isPending, onePlace.span? c.bookmark)) =
        [(true, some ⟨0, 0⟩), (true, some ⟨0, 0⟩)] ∧
      placesAfter (executeInserts echo (Command.ofDocument onePlace)
        (Model.ofDocument onePlace).startRun) = some (0, [some ⟨3, 6⟩, some ⟨0, 3⟩]) ∧
      placesAfter (executeInserts overreaching [insertion "B" ["y"], insertion "D" []]
        (Model.ofDocument { Document.ofText ['x'] with
          bookmarks := [⟨"B", ⟨0, 0⟩⟩, ⟨"D", ⟨1, 1⟩⟩] }).startRun) =
        some (0, [none, some ⟨2, 5⟩]) :=
  ⟨by cbv, by cbv, by cbv⟩

end TemplateEngine
