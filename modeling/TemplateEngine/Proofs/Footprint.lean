import TemplateEngine.Proofs.Convergence
import TemplateEngine.Proofs.Reopening
import TemplateEngine.Proofs.Sparing

/-!
# Footprint — what processing may touch

Whatever a run executes is stated by a bookmark: of the document, or of a content that was inserted.  `Traced`
follows this through the rounds of an expansion, together with what came in beside the text, so that each added
style can be traced to a fragment that a bookmark asks for its styles (`process_footprint`).  A document whose
commands are not executed loses the bookmarks that a scan takes away, and nothing else in it changes.
-/

namespace TemplateEngine

section Provenance

variable (s : Services) (d : Document) (locations : List String)

/-- What a run may execute: a command that a bookmark of the document holds, or a bookmark of a content that such
a command may load. -/
inductive Stated : CommandKind → Prop
  | opened {n : String} {kind : CommandKind} : n ∈ d.names → IsPendingName n kind → Stated kind
  | inserted {kind kind' : CommandKind} {l n : String} {content : Document} :
      Stated kind → CanLoad s d locations kind l → s.load l = .ok content → n ∈ content.names →
        IsPendingName n kind' → Stated kind'

/-- The styles that a run may add: those of a content that it may load for a fragment which a bookmark asks for
its styles, in the families asked for. -/
def MayAddStyle (f : StyleFamily) (n : String) : Prop :=
  ∃ request l content, Stated s d locations (.insertFragment request) ∧ request.stylesOnly = true ∧
    f ∈ request.styles ∧ CanLoad s d locations (.insertFragment request) l ∧ s.load l = .ok content ∧
    n ∈ (content.styles.get f).names

/-- Between two steps of an expansion that started with the document `entry`: everything still to be executed is
stated, and beside the text only styles came in. -/
structure Traced (entry : Document) (cs : List Command) (r : Run) : Prop where
  distinct : r.document.names.Nodup
  isCommand : ∀ c ∈ cs, c.config.IsCommand
  sound : Sound s d locations r
  stated : ∀ c ∈ cs, c.isPending = true → Stated s d locations c.kind
  named : ∀ n ∈ r.document.names, ∀ kind, IsPendingName n kind → Stated s d locations kind
  spares : Spares [] (MayAddStyle s d locations) entry r.document

end Provenance

section Expansion

variable {s : Services} {d : Document} {locations : List String} {entry : Document} {cs : List Command}
  {c c' : Command} {r r' : Run}

theorem Stated.declares {id newId : String} (h : Stated s d locations (.overrideFragment id newId)) :
    Declares s d id newId := by
  cases h with
  | opened hn hname =>
    obtain ⟨c, hc, -, hkind⟩ := hname
    exact ⟨_, .inl hn, c, hc, hkind⟩
  | inserted _ _ hload hn hname =>
    obtain ⟨c, hc, -, hkind⟩ := hname
    exact ⟨_, .inr ⟨_, _, hload, hn⟩, c, hc, hkind⟩

/-- A name that comes in says what the bookmark of the content said. -/
theorem Stated.imports {kind kind' : CommandKind} {n : String} (h : Stated s d locations kind)
    (hsound : Sound s d locations r) (hn : Imports s r kind n) (hname : IsPendingName n kind') :
    Stated s d locations kind' := by
  obtain ⟨l, content, hl, hload, m, hm, hvariant⟩ := hn
  obtain ⟨p, hp, hpending, hkind⟩ := hname
  rw [hvariant.ofBookmark?] at hp
  obtain ⟨q, hq, rfl⟩ := Option.map_eq_some_iff.1 hp
  exact .inserted h (hsound.canLoad hl) hload hm ⟨q, hq, hpending, hkind⟩

theorem mayAddStyle_of_importsStyle (hsound : Sound s d locations r) {kind : CommandKind}
    (hkind : Stated s d locations kind) {f : StyleFamily} {n : String} (h : ImportsStyle s r kind f n) :
    MayAddStyle s d locations f n := by
  obtain ⟨request, l, content, rfl, hstyles, hf, hl, hload, hn⟩ := h
  exact ⟨request, l, content, hkind, hstyles, hf, hsound.canLoad hl, hload, hn⟩

namespace Traced

/-- A step that executes its command. -/
theorem expanded {before after : List Command} (h : Traced s d locations entry (before ++ c :: after) r)
    (hc : c.isPending = true) (hstep : Expanded s c r c' r')
    (hspares : Spares [] (ImportsStyle s r c.kind) r.document r'.document) :
    Traced s d locations entry (before ++ c' :: after) r' where
  distinct := hstep.distinct
  isCommand := forall_mem_replace h.isCommand hstep.isCommand
  sound := h.sound.expanded hstep fun id newId hkind => (hkind ▸ h.stated c (by simp) hc).declares
  stated := forall_mem_replace h.stated fun hpending => by
    rw [hstep.idle] at hpending
    cases hpending
  named := fun n hn kind hname => by
    rcases hstep.names n hn with ⟨hold, -⟩ | himport | hdone
    · exact h.named n hold kind hname
    · exact (h.stated c (by simp) hc).imports h.sound himport hname
    · exact absurd hname (hdone kind)
  spares := h.spares.trans (hspares.mono (List.Subset.refl _) fun f n hadded =>
    mayAddStyle_of_importsStyle h.sound (h.stated c (by simp) hc) hadded)

/-- Visiting all commands of the list once. -/
theorem visitPending {own : CommandKind → Bool} {step : Command → Run → Except Fault (Command × Run)}
    (hstep : ∀ c r, c.config.IsCommand → r.document.names.Nodup → Ends (fun _ => True) (step c r)
      fun p => Executes s own c r p ∧ Spares [] (ImportsStyle s r c.kind) r.document p.2.document)
    (h : Traced s d locations entry cs r) :
    Ends (fun _ => True) (TemplateEngine.visitPending step cs r) fun p =>
      Traced s d locations entry p.1 p.2 := by
  refine Ends.visitPendingAll (I := Traced s d locations entry) h fun before c after r hc hI => ?_
  refine (hstep c r (hI.isCommand c (by simp)) hI.distinct).mono fun p hp => ?_
  obtain ⟨⟨-, hexec⟩ | ⟨-, rfl⟩, hspares⟩ := hp
  · exact hI.expanded hc hexec hspares
  · exact hI

/-- The commands that a refresh finds are stated like the names that they come from. -/
theorem refresh (h : Traced s d locations entry cs r) :
    Traced s d locations entry (Command.refresh r.document cs).1 r where
  distinct := h.distinct
  isCommand := fun c hc => by
    rcases Command.mem_refresh_iff.1 hc with ⟨hc, -⟩ | ⟨n, -, -, hn⟩
    · exact h.isCommand c hc
    · exact isCommand_of_ofBookmark? hn
  sound := h.sound
  stated := fun c hc hpending => by
    rcases Command.mem_refresh_iff.1 hc with ⟨hc, -⟩ | ⟨n, hn, -, hname⟩
    · exact h.stated c hc hpending
    · exact h.named n hn c.kind ⟨c, hname, hpending, rfl⟩
  named := h.named
  spares := h.spares

theorem expandOnce (h : Traced s d locations entry cs r) :
    Ends (fun _ => True) (expandOnce s cs r) fun p => Traced s d locations entry p.1 p.2.1 := by
  have hoverrides := h.visitPending fun c r hc hr => (executeOverride_spec s hc hr).and
    ((aside_executeOverride s.policy c r).mono fun p hp => hp.spares)
  refine Ends.andThen hoverrides fun p hp => ?_
  have hinserts := hp.visitPending fun c r hc hr => (executeInsert_spec (Command.firstJumpMark? p.1) hc hr).and
    (spares_executeInsert s (Command.firstJumpMark? p.1) c r)
  exact Ends.andThen hinserts fun q hq => hq.refresh

theorem expandFrom (done left : Nat) (h : Traced s d locations entry cs r) :
    Ends (fun _ => True) (expandFrom s done left cs r) fun p => Traced s d locations entry p.2.1 p.2.2 := by
  induction left generalizing done cs r with
  | zero => exact h
  | succ left ih =>
    refine Ends.andThen h.expandOnce fun p hp => ?_
    obtain ⟨cs', r', changed⟩ := p
    cases changed with
    | true => exact ih (done + 1) hp
    | false => exact hp

end Traced

end Expansion

/-! ### Executing a template -/

section Processing

variable {s : Services} {d : Document} {locations : List String} {mustProcess : Bool} {m m' : Model}

/-- A scanned model of a document with nothing known about it starts an expansion in which everything is stated
by the document. -/
theorem traced_startRun (hd : d.names.Nodup) (h : (Model.fresh d locations mustProcess).Scanned m)
    (h' : (Model.fresh d locations mustProcess).ScannedAside m) :
    Traced s d locations m.document m.enter.commands m.enter.startRun := by
  have hnames : m.document.names.Sublist d.names := h.names ▸ List.filter_sublist
  have hcommands : ∀ c ∈ m.commands, ∃ c₀ ∈ Command.ofDocument d, c = c₀.scanned d.hasLocation := by
    intro c hc
    rw [h.heeds.commands] at hc
    obtain ⟨c₀, hc₀, rfl⟩ := List.mem_map.1 hc
    exact ⟨c₀, hc₀, rfl⟩
  exact
    { distinct := hd.sublist hnames
      isCommand := fun c hc => by
        obtain ⟨c₀, hc₀, rfl⟩ := hcommands c hc
        rw [Command.config_scanned]
        exact (isFaithful_of_mem_ofDocument hc₀).isCommand
      sound :=
        { overrides := fun id newId hget => by
            rw [show m.enter.startRun.overrides = .empty from h'.overrides] at hget
            cases hget
          contents := fun l hl => by
            rw [show m.enter.startRun.contents = locations from h'.contentLocations] at hl
            exact hl }
      stated := fun c hc hpending => by
        obtain ⟨c₀, hc₀, rfl⟩ := hcommands c hc
        obtain ⟨n, hn, hname⟩ := Command.mem_ofDocument_iff.1 hc₀
        unfold Command.scanned at hpending ⊢
        split at hpending
        · simp [Command.isPending] at hpending
        next hstays =>
          rw [if_neg hstays]
          exact .opened hn ⟨c₀, hname, hpending, rfl⟩
      named := fun n hn kind hname => .opened (hnames.subset hn) hname
      spares := SameAside.spares ⟨rfl, rfl, rfl, rfl, rfl⟩ }

theorem spares_executeTemplate (h : Traced s d locations m.document m.enter.commands m.enter.startRun) :
    Ends (fun _ => True) (m.executeTemplate s) fun o =>
      Spares [formDescriptionKey] (MayAddStyle s d locations) m.document o.model.document ∧
        o.model.document.modified = m.document.modified := by
  refine Ends.andThen (h.expandFrom 0 maxRounds) fun p hp => ?_
  refine Ends.andThen (spares_completeRun s p.2.1 p.2.2) fun q hq => ?_
  have hspares := (hp.spares.mono (by simp) fun _ _ hadded => hadded).trans
    (hq.mono (List.Subset.refl _) fun _ _ hadded => hadded.elim)
  exact ⟨⟨hspares.location, hspares.values, hspares.locks, hspares.metadata, hspares.kept, hspares.added⟩, rfl⟩

/-- The bookmarks that a scan of a document leaves: all but those of pending commands that it takes away. -/
theorem bookmarks_scanned (h : (Model.fresh d locations mustProcess).Scanned m) :
    m.document.bookmarks =
      d.bookmarks.filter fun b => !(Command.ofBookmark? b.name).any (·.isConsumed d.hasLocation) := by
  have hconsumed : ∀ n ∈ d.names, n ∈ Command.consumed d.hasLocation (Command.ofDocument d) ↔
      (Command.ofBookmark? n).any (·.isConsumed d.hasLocation) = true := fun n hn => by
    rw [Command.mem_consumed_iff, Option.any_eq_true]
    constructor
    · rintro ⟨c, hc, hcons, rfl⟩
      obtain ⟨n', -, hname⟩ := Command.mem_ofDocument_iff.1 hc
      obtain rfl := Command.bookmark_of_ofBookmark? hname
      exact ⟨c, hname, hcons⟩
    · rintro ⟨c, hname, hcons⟩
      exact ⟨c, Command.mem_ofDocument_iff.2 ⟨n, hn, hname⟩, hcons, Command.bookmark_of_ofBookmark? hname⟩
  have hbookmarks : m.document.bookmarks =
      d.bookmarks.filter (·.name ∉ Command.consumed d.hasLocation (Command.ofDocument d)) :=
    h.heeds.parts.bookmarks
  rw [hbookmarks]
  refine List.filter_congr fun b hb => ?_
  simp only [hconsumed b.name (List.mem_map_of_mem hb), decide_not, Bool.decide_eq_true]

/-- A run that executes the template. -/
theorem spares_process (hd : d.names.Nodup) (hscan : (Model.fresh d locations mustProcess).scanSettings = .ok m)
    (hexecutes : (m.isTemplate || m.mustProcess) = true) :
    Ends (fun _ => True) ((Model.fresh d locations mustProcess).process s) fun o =>
      Spares [printFunctionsKey, formDescriptionKey] (MayAddStyle s d locations) d o.model.document ∧
        o.model.document.modified = d.modified := by
  have hm := (scanned_scanSettings (Model.fresh d locations mustProcess)).of_eq_ok hscan
  have haside := (scannedAside_scanSettings (Model.fresh d locations mustProcess)).of_eq_ok hscan
  have hlisted : ∀ {d₁ d₂ : Document}, Spares [printFunctionsKey] noStyle d₁ d₂ →
      Spares [printFunctionsKey, formDescriptionKey] (MayAddStyle s d locations) d₁ d₂ :=
    fun h => h.mono (by simp) fun _ _ hadded => hadded.elim
  unfold Model.process
  rw [hscan]
  refine Ends.bind ?_
  simp only [Ends.ok_iff, hexecutes, if_true]
  refine Ends.andThen (spares_executeTemplate (traced_startRun hd hm haside)) fun executed hexec => ?_
  have hspares := (hlisted haside.document).trans (hexec.1.mono (by simp) fun _ _ hadded => hadded)
  have hmodified := hexec.2.trans haside.modified
  split
  · exact ⟨hspares, hmodified⟩
  · refine Ends.andThen (scannedAside_scanSettings executed.model) fun m' hm' => ?_
    show Spares _ _ d m'.conclude.document ∧ m'.conclude.document.modified = d.modified
    rw [document_conclude]
    exact ⟨hspares.trans (hlisted hm'.document), hm'.modified.trans hmodified⟩

/-- **What processing may touch.**  Whether it succeeds or not, a run on a document with nothing known about it
keeps the location, the variables, the modified flag, the locks, the metadata of all keys but two and all
styles, and adds only styles that a bookmark asks for.  If no commands are executed, the document is otherwise
the same but for the bookmarks of pending commands that declare its type or a print function. -/
theorem process_footprint {o : Outcome Report} (hd : (d.bookmarks.map (·.name)).Nodup)
    (hrun : (Model.fresh d locations mustProcess).process s = .ok o) :
    Spares [printFunctionsKey, formDescriptionKey] (MayAddStyle s d locations) d o.model.document ∧
    o.model.document.modified = d.modified ∧
    ∀ report, o.result = .ok report → report.fixpoint = none →
      SameParts
        { d with bookmarks :=
            d.bookmarks.filter fun b => !(Command.ofBookmark? b.name).any (·.isConsumed d.hasLocation) }
        o.model.document ∧
      o.model.document.styles = d.styles ∧
      o.model.document.persistentData? formDescriptionKey = d.persistentData? formDescriptionKey := by
  obtain ⟨m, hscan, hm⟩ := (scanned_scanSettings (Model.fresh d locations mustProcess)).exists_ok
  have haside : (Model.fresh d locations mustProcess).ScannedAside m :=
    (scannedAside_scanSettings _).of_eq_ok hscan
  cases hexecutes : m.isTemplate || m.mustProcess with
  | false =>
    rw [process_of_idle hscan hexecutes] at hrun
    obtain rfl := Except.ok.inj hrun
    rw [document_conclude]
    refine ⟨?_, haside.modified, fun report _ _ => ⟨?_, haside.document.styles_eq fun _ _ => id, ?_⟩⟩
    · exact haside.document.mono (by simp) fun _ _ hadded => hadded.elim
    · have hparts := hm.heeds.parts
      exact ⟨hparts.text, bookmarks_scanned hm, hparts.fields, hparts.annotations, hparts.cursor, hparts.values,
        hparts.nextFieldId⟩
    · exact haside.document.metadata _ (by decide)
  | true =>
    obtain ⟨hspares, hmodified⟩ := (spares_process hd hscan hexecutes).of_eq_ok hrun
    refine ⟨hspares, hmodified, fun report hok hnone => ?_⟩
    have hsome := (fixpoint_process hscan hexecutes).of_eq_ok hrun report hok
    rw [hnone] at hsome
    cases hsome

end Processing

/-- A letter that asks for the text styles of a fragment. -/
def unstyled : Document :=
  { Document.ofText "Dear ?".toList with
    bookmarks := [⟨"DOC(CMD 'insertFrag' FRAG_ID 'house' STYLES('textstyles'))", ⟨5, 6⟩⟩]
    metadata := .ofList [("Author", "me")] }

/-- Surroundings with one fragment, which has styles of two families. -/
def houseStyles : Services where
  locations := fun id => [id]
  load := fun _ => .ok
    { Document.ofText "Style".toList with styles := ⟨.ofList ["Salutation"], .ofList ["A4"], .empty⟩ }
  value := fun _ => .error .noRowSelected
  transform := fun name _ => .error (.unknown name)
  policy := ⟨true, false⟩

/-- A form that declares its type. -/
def declaredForm : Document :=
  { Document.ofText "Dear ?".toList with
    bookmarks := [⟨"DOC(CMD 'setType' TYPE 'formDocument')", ⟨0, 0⟩⟩, ⟨"name", ⟨5, 6⟩⟩] }

theorem process_footprint_styles :
    (∃ o, (Model.fresh unstyled [] false).process houseStyles = .ok o ∧
      o.model.document.styles = ⟨.ofList ["Salutation"], .empty, .empty⟩ ∧
      MayAddStyle houseStyles unstyled [] .text "Salutation" ∧
      o.model.document.persistentData? "Author" = some "me" ∧ o.model.document.modified = false) ∧
    ∃ o report, (Model.fresh declaredForm [] false).process houseStyles = .ok o ∧
      o.result = .ok report ∧ report.fixpoint = none ∧
      o.model.document.bookmarks = [⟨"name", ⟨5, 6⟩⟩] := by
  constructor
  · have hstyles : ((Model.fresh unstyled [] false).process houseStyles).map (·.model.document.styles) =
        .ok ⟨.ofList ["Salutation"], .empty, .empty⟩ := by cbv
    cases hrun : (Model.fresh unstyled [] false).process houseStyles with
    | error f =>
      rw [hrun] at hstyles
      cases hstyles
    | ok o =>
      rw [hrun] at hstyles
      have hstyles' : o.model.document.styles = _ := Except.ok.inj hstyles
      obtain ⟨hspares, hmodified, -⟩ := process_footprint (by decide) hrun
      have hnew : "Salutation" ∈ (o.model.document.styles.get .text).names := by
        rw [hstyles']
        exact List.mem_singleton_self _
      have hadded := (hspares.added .text "Salutation" hnew).resolve_left List.not_mem_nil
      exact ⟨o, rfl, hstyles', hadded, (hspares.metadata "Author" (by decide)).trans (by cbv), hmodified⟩
  · obtain ⟨o, report, hrun, hok, hnone⟩ := exists_of_leavesAlone
      (x := (Model.fresh declaredForm [] false).process houseStyles) (by cbv)
    obtain ⟨-, -, hsame⟩ := process_footprint (by decide) hrun
    exact ⟨o, report, hrun, hok, hnone, (hsame report hok hnone).1.bookmarks.trans (by cbv)⟩

end TemplateEngine
