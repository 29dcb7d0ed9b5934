import TemplateEngine.Process.Pipeline
import TemplateEngine.Proofs.Edits
import TemplateEngine.Proofs.Expanding

/-!
# SafeExpansion — phases that cannot fault

On a well-formed document every edit of expansion, of updating fields and of filling in values replaces
a span that fits, so none of these phases can fault, whatever the commands are, as long as the contents
loaded are well-formed too.  Only removing marks tests for ends of paragraphs, which can fault.

The argument is one of operations: what each operation that a command performs on a document keeps true of it,
the phases do (`KeptByOperating`), and being well-formed is kept in that way (`keptByOperating_wellFormed`).
-/

namespace TemplateEngine

/-- Ends without a fault in a well-formed document. -/
abbrev Safe {α : Type} (document : α → Document) (x : Except Fault α) : Prop :=
  Ends (fun _ => False) x fun a => (document a).WellFormed

/-- The contents that a run can load are well-formed. -/
def Services.LoadsWellFormed (s : Services) : Prop :=
  ∀ l content, s.load l = .ok content → content.WellFormed

theorem wellFormed_of_loadFragment {s : Services} (hs : s.LoadsWellFormed) {requested id : String}
    {content : Document} (h : loadFragment s requested id = .ok content) : content.WellFormed := by
  obtain ⟨l, -, hl⟩ := exists_of_loadFragment h
  exact hs l content hl

namespace Run

theorem fits_range? {d : Document} (hd : d.WellFormed) {c : Command} {range : TextRange}
    (h : c.range? d = some range) : range.toSpan.fits d.text = true := by
  obtain ⟨b, hb, rfl⟩ := Option.map_eq_some_iff.1 h
  exact Document.fits_of_bookmark? hd hb

theorem wellFormed_setCursor {d : Document} (hd : d.WellFormed) {range : TextRange}
    (h : range.toSpan.fits d.text = true) : (d.setCursor range).WellFormed :=
  ⟨hd.names, hd.bookmarks, hd.fields, hd.annotations, fun s hs => by
    obtain rfl := Option.some.inj (Option.mem_def.1 hs)
    exact h⟩

end Run

/-! ### Filling in placeholders -/

/-- What filling in fields keeps true of a document: each replacement of one of the fields by some text and
each move of the cursor does. -/
structure KeptByFilling (ids : List Nat) (I : Document → Prop) : Prop where
  wellFormed : ∀ {d}, I d → d.WellFormed
  setCursor : ∀ {d} {range : TextRange}, I d → range.toSpan.fits d.text = true → I (d.setCursor range)
  replacePlaceholder : ∀ {d id}, I d → id ∈ ids → ∀ t, t ≠ [] →
    Ends (fun _ => False) (d.replacePlaceholder id t) fun a => ∀ d', a = .ok d' → I d'

namespace KeptByFilling

variable {all : List Nat} {I : Document → Prop} {r : Run}

/-- The cursor is put on a field. -/
theorem setCursor_field (h : KeptByFilling all I) {d : Document} (hd : I d) {id : Nat} {range : TextRange}
    (hrange : d.fieldRange? id = some range) : I (d.setCursor range) := by
  obtain ⟨f, hf, rfl⟩ := Option.map_eq_some_iff.1 hrange
  exact h.setCursor hd (Document.fits_of_field? (h.wellFormed hd) hf)

/-- The cursor is put on the jump mark. -/
theorem setCursor_jumpMark (h : KeptByFilling all I) {d : Document} (hd : I d) {jumpMark : Option String}
    {range : TextRange} (hrange : jumpMark.bind d.bookmarkRange? = some range) : I (d.setCursor range) := by
  obtain ⟨name, -, hname⟩ := Option.bind_eq_some_iff.1 hrange
  obtain ⟨b, hb, rfl⟩ := Option.map_eq_some_iff.1 hname
  exact h.setCursor hd (Document.fits_of_bookmark? (h.wellFormed hd) hb)

theorem offerCursor (h : KeptByFilling all I) (hr : I r.document) (id : Nat) :
    I (r.offerCursor id).document := by
  unfold Run.offerCursor
  split
  · exact hr
  unfold Run.placeCursor
  split
  · exact hr
  next range hrange => exact h.setCursor_field hr hrange

theorem fillPlaceholder (h : KeptByFilling all I) (hr : I r.document) {id : Nat} (hid : id ∈ all)
    (argument : String) :
    Ends (fun _ => False) (fillPlaceholder r id argument) fun r' => I r'.document := by
  unfold TemplateEngine.fillPlaceholder
  split
  · exact h.offerCursor hr id
  next hargument =>
    have hsome : argument.toList ≠ [] := by simpa using hargument
    refine Ends.andThen (h.replacePlaceholder hr hid _ hsome) fun a ha => ?_
    cases a with
    | error e => exact hr
    | ok d => exact ha d rfl

theorem fillEach (h : KeptByFilling all I) (hr : I r.document) {ids : List Nat} (hids : ids ⊆ all)
    (arguments : List String) :
    Ends (fun _ => False) (fillEach r ids arguments) fun r' => I r'.document := by
  induction ids generalizing r arguments with
  | nil => exact hr
  | cons id ids ih =>
    cases arguments with
    | nil => exact hr
    | cons argument arguments =>
      refine Ends.andThen (h.fillPlaceholder hr (hids (by simp)) argument) fun r' hr' => ?_
      exact ih hr' (fun i hi => hids (by simp [hi])) arguments

theorem settleCursor (h : KeptByFilling all I) (hr : I r.document) (jumpMark : Option String)
    (ids : List Nat) : I (settleCursor r jumpMark ids).document := by
  unfold TemplateEngine.settleCursor
  split
  · exact h.offerCursor hr _
  · split
    next range hrange => exact h.setCursor_jumpMark hr hrange
    · exact hr

theorem fillPlaceholders {c : Command} (hr : I r.document)
    (h : ∀ range, c.range? r.document = some range →
      KeptByFilling (r.document.placeholdersWithin range.toSpan) I)
    (policy : Policy) (jumpMark : Option String) (arguments : List String) :
    Ends (fun _ => False) (fillPlaceholders policy jumpMark c arguments r) fun r' => I r'.document := by
  unfold TemplateEngine.fillPlaceholders
  split
  · exact hr
  next range hrange =>
    refine Ends.andThen ((h range hrange).fillEach hr (fun _ h => h) arguments) fun r' hr' => ?_
    dsimp only
    split
    · exact (h range hrange).settleCursor hr' _ _
    · exact (h range hrange).settleCursor hr' _ _

end KeptByFilling

/-! ### Reading -/

/-- The text of a span that fits can be read. -/
theorem exists_inside? {d : Document} {span : Span} (h : span.fits d.text = true) :
    ∃ t, d.inside? span = some t := by
  obtain ⟨a, m, b, htext, ha, hm⟩ := Span.fits_iff.1 h
  have hle := Span.le_of_fits h
  have hclamp : d.clamp span = span := by
    simp only [Document.clamp, Document.length, Nat.min_eq_left (Nat.le_trans hle.1 hle.2),
      Nat.min_eq_left hle.2, Nat.max_eq_right hle.1]
  unfold Document.inside?
  simp only [hclamp]
  split
  · exact ⟨[], rfl⟩
  · exact ⟨m, Text.slice?_eq_some_iff.2 ⟨a, b, htext, ha, hm⟩⟩

theorem safe_commandBody {c : Command} {d : Document} (hd : d.WellFormed) :
    Ends (fun _ => False) (commandBody d c) fun _ => True := by
  unfold commandBody
  split
  · trivial
  next range hrange =>
    obtain ⟨t, ht⟩ := exists_inside? (Run.fits_range? hd hrange)
    unfold Document.slice
    rw [ht]
    trivial

/-! ### Operations -/

/-- What the operations that commands perform, those that remove marks apart, keep true of a document, where
the contents that are put into it are like `content`. -/
structure KeptByOperating (content I : Document → Prop) : Prop where
  wellFormed : ∀ {d}, I d → d.WellFormed
  sameParts : ∀ {d d'}, I d → SameParts d d' → I d'
  setCursor : ∀ {d} {range : TextRange}, I d → range.toSpan.fits d.text = true → I (d.setCursor range)
  setText : ∀ {d}, I d → ∀ (c : Command) t,
    Ends (fun _ => False) (c.setText d t) fun attempt => ∀ d', attempt = .ok d' → I d'
  markFailure : ∀ {d}, I d → ∀ c reason, Ends (fun _ => False) (markFailure d c reason) I
  markDone : ∀ {d}, I d → ∀ (c : Command) remove, I (c.markDone d remove).2
  insertBetweenMarks : ∀ {d d'}, I d → content d' → ∀ c : Command,
    Ends (fun _ => False) (c.insertBetweenMarks d d') fun p => I p.2.1
  replacePlaceholder : ∀ {d}, I d → ∀ id t,
    Ends (fun _ => False) (d.replacePlaceholder id t) fun attempt => ∀ d', attempt = .ok d' → I d'
  refreshElement : ∀ {d}, I d → ∀ e,
    Ends (fun _ => False) (d.refreshElement e) fun o => ∀ d', o = some (.ok d') → I d'

namespace KeptByOperating

variable {P I : Document → Prop} {s : Services} {c : Command} {cs : List Command} {r : Run}

theorem write (h : KeptByOperating P I) (hr : I r.document) (c : Command) (t : Text) :
    Ends (fun _ => False) (r.write c t) fun r' => I r'.document := by
  refine Ends.andThen (h.setText hr c t) fun attempt hattempt => ?_
  cases attempt with
  | error e => exact hr
  | ok d => exact hattempt d rfl

theorem fail (h : KeptByOperating P I) (hr : I r.document) (c : Command) (reason : String) :
    Ends (fun _ => False) (r.fail c reason) fun p => I p.2.document :=
  Ends.andThen (h.markFailure hr c reason) fun _ hd => hd

theorem finish (h : KeptByOperating P I) (hr : I r.document) (c : Command) (remove : Bool) :
    I (r.finish c remove).2.document :=
  h.markDone hr c remove

theorem fillPlaceholders (h : KeptByOperating P I) (hr : I r.document) (policy : Policy)
    (jumpMark : Option String) (c : Command) (arguments : List String) :
    Ends (fun _ => False) (fillPlaceholders policy jumpMark c arguments r) fun r' => I r'.document :=
  KeptByFilling.fillPlaceholders hr
    (fun _ _ => ⟨h.wellFormed, h.setCursor, fun hd _ t _ => h.replacePlaceholder hd _ t⟩)
    policy jumpMark arguments

theorem visitPending {step : Command → Run → Except Fault (Command × Run)}
    (hstep : ∀ c r, I r.document → Ends (fun _ => False) (step c r) fun p => I p.2.document)
    (hr : I r.document) : Ends (fun _ => False) (visitPending step cs r) fun p => I p.2.document :=
  Ends.visitPending (I := fun _ _ (r : Run) => I r.document) hr (fun _ _ _ _ _ h => h)
    fun _ c _ r _ h => hstep c r h

/-! #### Expansion -/

theorem executeOverride (h : KeptByOperating P I) (hr : I r.document) (policy : Policy) :
    Ends (fun _ => False) (executeOverride policy c r) fun p => I p.2.document := by
  unfold TemplateEngine.executeOverride
  split
  · split
    · exact h.finish hr c _
    · exact h.fail hr c _
  · exact hr

theorem failFragment (h : KeptByOperating P I) (hr : I r.document) (request : FragmentRequest) (id : String)
    (e : InsertionError) : Ends (fun _ => False) (failFragment request id e c r) fun p => I p.2.document := by
  unfold TemplateEngine.failFragment
  split
  · exact hr
  · exact h.fail hr c _

theorem placeFragment (h : KeptByOperating P I) (hr : I r.document) (request : FragmentRequest)
    {content : Document} (hcontent : P content) :
    Ends (fun _ => False) (placeFragment request content c r) fun p => I p.2.1.document := by
  unfold TemplateEngine.placeFragment
  split
  · have hstyles : I (r.document.importStyles content request.styles) :=
      h.sameParts hr (.importStyles _ _ _)
    refine Ends.andThen (h.setText hstyles c []) fun attempt hattempt => ?_
    cases attempt with
    | error e => exact hstyles
    | ok d => exact hattempt d rfl
  · exact Ends.andThen (h.insertBetweenMarks hr hcontent c) fun p hp => hp

theorem insertFragment (h : KeptByOperating P I) (hs : ∀ l content, s.load l = .ok content → P content)
    (hr : I r.document) (jumpMark : Option String) (request : FragmentRequest) :
    Ends (fun _ => False) (insertFragment s jumpMark request c r) fun p => I p.2.document := by
  unfold TemplateEngine.insertFragment
  dsimp only
  split
  · exact Ends.andThen (h.write hr c []) fun r' hr' => h.finish hr' c false
  split
  · exact h.failFragment hr request _ _
  next content hload =>
    obtain ⟨l, -, hl⟩ := exists_of_loadFragment hload
    refine Ends.andThen (h.placeFragment hr request (hs l content hl)) fun p hp => ?_
    obtain ⟨c', r', refusal⟩ := p
    cases refusal with
    | some refusal => exact h.failFragment hp request _ _
    | none =>
      dsimp only
      split
      · exact h.finish hp c' false
      · exact Ends.andThen (h.fillPlaceholders hp s.policy jumpMark c' request.arguments)
          fun r'' hr'' => h.finish hr'' c' false

theorem insertContent (h : KeptByOperating P I) (hs : ∀ l content, s.load l = .ok content → P content)
    (hr : I r.document) : Ends (fun _ => False) (insertContent s c r) fun p => I p.2.document := by
  unfold TemplateEngine.insertContent
  split
  · exact h.finish hr c false
  next location contents _ =>
    have hplace : Ends (fun _ => False) (placeContent s location c { r with contents })
        fun p => I p.2.document := by
      unfold placeContent
      split
      · exact h.fail (r := { r with contents }) hr c _
      next content hload =>
        refine Ends.andThen (h.insertBetweenMarks hr (hs location content hload) c) fun p hp => ?_
        obtain ⟨c', d', refusal⟩ := p
        cases refusal with
        | none => exact hp
        | some e => exact h.fail (r := { r with document := d', contents }) hp c' _
    exact Ends.andThen hplace fun p hp => h.finish hp p.1 false

theorem executeInsert (h : KeptByOperating P I) (hs : ∀ l content, s.load l = .ok content → P content)
    (hr : I r.document) (jumpMark : Option String) :
    Ends (fun _ => False) (executeInsert s jumpMark c r) fun p => I p.2.document := by
  unfold TemplateEngine.executeInsert
  split
  · exact h.insertFragment hs hr jumpMark _
  · exact h.insertContent hs hr
  · exact hr

/-- A round of expansion. -/
theorem expandOnce (h : KeptByOperating P I) (hs : ∀ l content, s.load l = .ok content → P content)
    (hr : I r.document) : Ends (fun _ => False) (expandOnce s cs r) fun p => I p.2.1.document := by
  refine Ends.andThen (visitPending (fun c r hr => h.executeOverride hr s.policy) hr) fun p hp => ?_
  exact Ends.andThen (visitPending (fun c r hr => h.executeInsert hs hr _) hp) fun q hq => hq

/-- All rounds of expansion. -/
theorem expandFrom (h : KeptByOperating P I) (hs : ∀ l content, s.load l = .ok content → P content)
    (hr : I r.document) (done left : Nat) :
    Ends (fun _ => False) (expandFrom s done left cs r) fun p => I p.2.2.document := by
  induction left generalizing done cs r with
  | zero => exact hr
  | succ left ih =>
    refine Ends.andThen (h.expandOnce hs hr) fun p hp => ?_
    obtain ⟨cs', r', changed⟩ := p
    cases changed with
    | false => exact hp
    | true => exact ih hp (done + 1)

/-! #### Updating fields and filling in values -/

theorem updateFields (h : KeptByOperating P I) (hr : I r.document) (policy : Policy) :
    Ends (fun _ => False) (updateFields policy c r) fun p => I p.2.document := by
  unfold TemplateEngine.updateFields
  split
  · dsimp only
    split
    · exact h.finish hr c _
    · exact Ends.andThen (Ends.refreshElements (fun d e hd => h.refreshElement hd e) hr _) fun d hd =>
        h.finish (r := { r with document := d }) hd c _
  · exact hr

theorem takeForm (h : KeptByOperating P I) (hr : I r.document) (policy : Policy) :
    Ends (fun _ => False) (takeForm policy c r) fun p => I p.2.document := by
  unfold TemplateEngine.takeForm
  refine Ends.andThen (safe_commandBody (h.wellFormed hr)) fun body _ => ?_
  split
  · exact h.fail hr c _
  next nodes _ =>
    have hform : I (r.describeForm nodes).document := by
      unfold Run.describeForm
      split
      · exact hr
      · exact h.sameParts hr (.setPersistentData _ _ _)
    refine Ends.andThen (h.setText hform c []) fun attempt hattempt => ?_
    cases attempt with
    | error e => exact h.fail hform c _
    | ok d => exact h.finish (r := { r.describeForm nodes with document := d }) (hattempt d rfl) c _

theorem fillIn (h : KeptByOperating P I) (hr : I r.document) :
    Ends (fun _ => False) (fillIn s c r) fun p => I p.2.document := by
  unfold TemplateEngine.fillIn
  split
  · exact h.takeForm hr s.policy
  · exact h.fail hr c _
  · unfold insertValue
    split
    · exact h.fail hr c _
    · exact Ends.andThen (h.write hr c _) fun r' hr' => h.finish hr' c false
  · exact hr

/-- A phase while views of the document wait. -/
theorem lockedPhase (h : KeptByOperating P I) {step : Command → Run → Except Fault (Command × Run)}
    (hstep : ∀ c r, I r.document → Ends (fun _ => False) (step c r) fun p => I p.2.document)
    (hr : I r.document) :
    Ends (fun _ => False) (lockedPhase (TemplateEngine.visitPending step) cs r) fun p => I p.2.document := by
  have hlock : I { r with document := r.document.lock }.document := h.sameParts hr (.lock _)
  refine Ends.andThen (visitPending hstep hlock) fun p hp => ?_
  exact h.sameParts hp (.unlock _)

end KeptByOperating

/-! ### Well-formed documents -/

theorem safe_markFailure {d : Document} (hd : d.WellFormed) (c : Command) (reason : String) :
    Safe id (markFailure d c reason) := by
  refine Ends.andThen (Document.wellFormed_setBookmarkText hd c.bookmark failureText) fun a ha => ?_
  cases a with
  | error e => exact hd
  | ok d' =>
    have hd' : d'.WellFormed := ha
    dsimp only
    split
    · exact hd'
    next range hrange =>
      cases hnote : d'.insertAnnotation range (failureNote c reason) with
      | error e => exact hd'
      | ok d'' =>
        obtain rfl := Document.addAnnotation_of_insertAnnotation hnote
        exact Document.wellFormed_annotated hd' _ (Run.fits_range? hd' hrange)

theorem safe_insertBetweenMarks {d content : Document} (hd : d.WellFormed)
    (hcontent : content.WellFormed) (c : Command) :
    Safe (·.2.1) (c.insertBetweenMarks d content) := by
  unfold Command.insertBetweenMarks
  refine Ends.andThen (Document.wellFormed_setBookmarkText hd c.bookmark Command.marks)
    fun a ha => ?_
  cases a with
  | error e => exact hd
  | ok d' =>
    have hd' : d'.WellFormed := ha
    dsimp only
    split
    · exact hd'
    next range hrange =>
      split
      · exact hd'
      next between hbetween =>
        have hrange' := Run.fits_range? hd' hrange
        have hcollapsed : range.collapseToStart.toSpan.fits d'.text = true := by
          simp only [Span.fits, Bool.and_eq_true, decide_eq_true_eq] at hrange' ⊢
          exact ⟨⟨Nat.le_refl _, hrange'.1.2⟩, hrange'.1.2⟩
        have hbetween' := Document.fits_shift? hcollapsed hbetween
        simp only [Span.fits, Bool.and_eq_true] at hbetween'
        refine Ends.andThen (Document.wellFormed_insertContent hd' hcontent hbetween'.1.2)
          fun a ha => ?_
        cases a with
        | error e => exact hd'
        | ok d'' => exact ha

/-- The operations keep a document well-formed, as long as the contents are. -/
theorem keptByOperating_wellFormed : KeptByOperating Document.WellFormed Document.WellFormed where
  wellFormed := id
  sameParts := Document.WellFormed.sameParts
  setCursor hd hfits := Run.wellFormed_setCursor hd hfits
  setText hd c t := (Document.wellFormed_setBookmarkText hd c.bookmark t).mono fun
    | .ok _, ha, _, rfl => ha
  markFailure := safe_markFailure
  markDone hd _ := Command.wellFormed_markDone hd
  insertBetweenMarks := safe_insertBetweenMarks
  replacePlaceholder hd id t := (Document.wellFormed_replacePlaceholder hd id t).mono fun
    | .ok _, ha, _, rfl => ha
  refreshElement hd e := (Document.wellFormed_refreshElement hd e).mono fun _ ho _ hd' => ho _ hd'

end TemplateEngine
