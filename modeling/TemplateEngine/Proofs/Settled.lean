import Mathlib
import TemplateEngine.Proofs.Declarations
import TemplateEngine.Proofs.Expanding

/-!
# Settled — a successful run leaves no text command unexecuted

Commands are known by their bookmark's name only, while bookmarks come, go and get other names.

* `Command.IsFaithful c`: what is noted about `c` agrees with what its name says, as far as the name
  says that the command is still to be executed.  Expansion keeps this for every command.
* `Followed own settled before after d`: between two steps of a phase for the kinds `own`, every name
  of `d` that says so has a command in the list; the phases for the kinds `settled` are over.
* After expansion the list was just refreshed (`followed_of_refresh`).  Each later phase settles its own
  kinds (`Followed.visit`, `Followed.next`), and removing marks and scanning settings add no names.
-/

namespace TemplateEngine

/-! ### Kinds by their phase -/

namespace CommandKind

/-- Commands executed while fields are updated. -/
def isFieldUpdate : CommandKind → Bool
  | .updateFields => true
  | _ => false

/-- Commands executed while values are filled in. -/
def isFilledIn : CommandKind → Bool
  | .insertValue _ | .form | .invalid _ => true
  | _ => false

/-- Commands that no round of expansion executes. -/
def isLate (k : CommandKind) : Bool := k.isFieldUpdate || k.isFilledIn

/-- Commands that put a text in their place. -/
def isTextual (k : CommandKind) : Bool := k.isLate || k.isInsertion

end CommandKind

/-! ### Faithful commands -/

/-- What is noted about a command agrees with what its bookmark's name says, as far as the name says
that it is still to be executed. -/
structure Command.IsFaithful (c : Command) : Prop where
  isCommand : c.config.IsCommand
  pending : ∀ kind, IsPendingName c.bookmark kind →
    c.kind = kind ∧ (kind.isLate = true → c.isPending = true)

namespace Command

theorem isFaithful_of_ofBookmark? {name : String} {c : Command} (h : ofBookmark? name = some c) :
    c.IsFaithful where
  isCommand := isCommand_of_ofBookmark? h
  pending := by
    rintro kind ⟨c', hc', hpending, rfl⟩
    rw [bookmark_of_ofBookmark? h, h] at hc'
    obtain rfl := Option.some.inj hc'
    exact ⟨rfl, fun _ => hpending⟩

/-- What is noted about commands that expansion executes may change. -/
theorem IsFaithful.of_eq {c c' : Command} (hc : c.IsFaithful) (hkind : c.kind.isLate = false)
    (hb : c'.bookmark = c.bookmark) (hk : c'.kind = c.kind) (hconfig : c'.config.IsCommand) :
    c'.IsFaithful where
  isCommand := hconfig
  pending := fun kind hname => by
    obtain ⟨rfl, -⟩ := hc.pending kind (hb ▸ hname)
    exact ⟨hk, fun h => by rw [hkind] at h; cases h⟩

end Command

/-! ### Expansion keeps commands faithful -/

section Expansion

variable {c : Command} {r : Run}

/-- What a step of expansion leaves: a faithful command and distinct names. -/
def Tidy (p : Command × Run) : Prop := p.1.IsFaithful ∧ p.2.document.names.Nodup

theorem Executes.tidy {s : Services} {own : CommandKind → Bool} {p : Command × Run}
    (h : Executes s own c r p) (hown : ∀ k, own k = true → k.isLate = false) (hc : c.IsFaithful)
    (hr : r.document.names.Nodup) : Tidy p := by
  rcases h with ⟨hkind, hexec⟩ | ⟨-, rfl⟩
  · refine ⟨?_, hexec.distinct⟩
    rcases hexec.bookmark with hb | hgone
    · exact hc.of_eq (hown _ hkind) hb hexec.kind hexec.isCommand
    · exact ⟨hexec.isCommand, fun kind h => absurd h (hgone kind)⟩
  · exact ⟨hc, hr⟩

/-- A state of expansion in which all commands are faithful and the names are distinct. -/
def TidyList (cs : List Command) (r : Run) : Prop :=
  (∀ c ∈ cs, c.IsFaithful) ∧ r.document.names.Nodup

theorem tidyList_visitPending {step : Command → Run → Except Fault (Command × Run)}
    (hstep : ∀ c r, c.IsFaithful → r.document.names.Nodup →
      Ends (fun _ => True) (step c r) Tidy)
    {cs : List Command} (h : TidyList cs r) :
    Ends (fun _ => True) (visitPending step cs r) fun p => TidyList p.1 p.2 := by
  refine Ends.visitPendingAll h fun before c after r _ hI => ?_
  exact (hstep c r (hI.1 c (by simp)) hI.2).mono fun p hp => ⟨forall_mem_replace hI.1 hp.1, hp.2⟩

theorem tidyList_refresh {cs : List Command} (h : TidyList cs r) :
    TidyList (Command.refresh r.document cs).1 r :=
  ⟨Command.forall_mem_refresh h.1 fun _ _ _ hc => Command.isFaithful_of_ofBookmark? hc, h.2⟩

end Expansion

/-! ### Phases after expansion -/

/-- Between two steps of a phase for the kinds `own`, after the phases for the kinds `settled`: a name
of the document that says that its command is still to be executed has the command in the list, and one
of an own kind has it among the commands still to come. -/
structure Followed (own settled : CommandKind → Bool) (before after : List Command) (d : Document) :
    Prop where
  distinct : d.names.Nodup
  isCommand : ∀ c ∈ before ++ after, c.config.IsCommand
  listed : ∀ n ∈ d.names, ∀ kind, IsPendingName n kind → settled kind = false ∧
    ∃ c, c.bookmark = n ∧ c.kind = kind ∧ (kind.isLate = true → c.isPending = true) ∧
      (c ∈ after ∨ c ∈ before ∧ own kind = false)

/-- What a phase for the kinds `own` does with a command: it executes it, or it passes over it, which
it may do with a command of an own kind only if that was to be executed before and has been. -/
def Passes (own : CommandKind → Bool) (c : Command) (d : Document) (c' : Command) (d' : Document) :
    Prop :=
  (own c.kind = true ∧ Executed c d c' d') ∨
    (c' = c ∧ d' = d ∧ (own c.kind = true → c.kind.isLate = true ∧ c.isPending = false))

namespace Followed

variable {own settled : CommandKind → Bool} {before after cs : List Command} {d d' : Document}
  {c c' : Command}

/-- One step of a phase. -/
theorem pass (h : Followed own settled before (c :: after) d) (hp : Passes own c d c' d') :
    Followed own settled (before ++ [c']) after d' := by
  have hcommands : c'.config.IsCommand → ∀ x ∈ (before ++ [c']) ++ after, x.config.IsCommand := by
    intro hc' x hx
    simp only [List.mem_append, List.mem_cons, List.not_mem_nil, or_false] at hx
    rcases hx with (hx | rfl) | hx
    · exact h.isCommand x (by simp [hx])
    · exact hc'
    · exact h.isCommand x (by simp [hx])
  rcases hp with ⟨-, hexec⟩ | ⟨rfl, rfl, hown⟩
  · refine ⟨hexec.distinct, hcommands hexec.isCommand, fun n hn kind hname => ?_⟩
    rcases hexec.names n hn with ⟨hold, hne⟩ | hdone
    · obtain ⟨hsettled, w, hw, hkind, hpending, hplace⟩ := h.listed n hold kind hname
      refine ⟨hsettled, w, hw, hkind, hpending, ?_⟩
      rcases hplace with hplace | ⟨hplace, hnot⟩
      · rcases List.mem_cons.1 hplace with rfl | hplace
        · exact absurd hw.symm hne
        · exact .inl hplace
      · exact .inr ⟨List.mem_append_left _ hplace, hnot⟩
    · exact absurd hname (hdone kind)
  · refine ⟨h.distinct, hcommands (h.isCommand c' (by simp)), fun n hn kind hname => ?_⟩
    obtain ⟨hsettled, w, hw, hkind, hpending, hplace⟩ := h.listed n hn kind hname
    refine ⟨hsettled, w, hw, hkind, hpending, ?_⟩
    rcases hplace with hplace | ⟨hplace, hnot⟩
    · rcases List.mem_cons.1 hplace with rfl | hplace
      · refine .inr ⟨by simp, ?_⟩
        rw [Bool.eq_false_iff]
        intro ho
        obtain ⟨hlate, hidle⟩ := hown (hkind ▸ ho)
        rw [hpending (hkind ▸ hlate)] at hidle
        cases hidle
      · exact .inl hplace
    · exact .inr ⟨List.mem_append_left _ hplace, hnot⟩

/-- A whole phase, for as long as its state is `good`. -/
theorem visit {σ : Type} (doc : σ → Document) (good : σ → Prop)
    {step : Command → σ → Except Fault (Command × σ)}
    (hgood : ∀ c s, Ends (fun _ => True) (step c s) fun p => good p.2 → good s)
    (hstep : ∀ c s, c.config.IsCommand → (doc s).names.Nodup → Ends (fun _ => True) (step c s)
      fun p => good p.2 → Passes own c (doc s) p.1 (doc p.2))
    {s : σ} (h : good s → Followed own settled [] cs (doc s)) :
    Ends (fun _ => True) (visit step cs s) fun p =>
      good p.2 → Followed own settled p.1 [] (doc p.2) := by
  refine Ends.visit (I := fun before after s => good s → Followed own settled before after (doc s))
    h fun before c after s hI => ?_
  by_cases hs : good s
  · exact (hstep c s ((hI hs).isCommand c (by simp)) (hI hs).distinct).mono fun p hp hgood =>
      (hI hs).pass (hp hgood)
  · exact (hgood c s).mono fun p hp hgood => absurd (hp hgood) hs

/-- After a phase its own kinds are settled. -/
theorem next {o : CommandKind → Bool} (h : Followed own settled cs [] d) :
    Followed o (fun k => settled k || own k) [] cs d where
  distinct := h.distinct
  isCommand := by simpa using h.isCommand
  listed := fun n hn kind hname => by
    obtain ⟨hsettled, w, hw, hkind, hpending, hplace⟩ := h.listed n hn kind hname
    rcases hplace with hplace | ⟨hplace, hnot⟩
    · simp at hplace
    · exact ⟨by simp [hsettled, hnot], w, hw, hkind, hpending, .inl hplace⟩

/-- Names that go make no difference. -/
theorem mono (h : Followed own settled before after d) (hd : d'.names.Sublist d.names) :
    Followed own settled before after d' :=
  ⟨h.distinct.sublist hd, h.isCommand, fun n hn => h.listed n (hd.subset hn)⟩

end Followed

/-- A list that was just refreshed follows its document. -/
theorem followed_of_refresh {own : CommandKind → Bool} {cs : List Command} {d : Document}
    (hcs : ∀ c ∈ (Command.refresh d cs).1, c.IsFaithful) (hd : d.names.Nodup) :
    Followed own (fun _ => false) [] (Command.refresh d cs).1 d where
  distinct := hd
  isCommand := fun c hc => (hcs c hc).isCommand
  listed := fun n hn kind hname => by
    obtain ⟨p, hp, -, -⟩ := id hname
    obtain ⟨c, hc, rfl⟩ : ∃ c ∈ (Command.refresh d cs).1, c.bookmark = n :=
      Command.exists_mem_refresh hn hp
    obtain ⟨hkind, hpending⟩ := (hcs c hc).pending kind hname
    exact ⟨rfl, c, rfl, hkind, hpending, .inl hc⟩

/-! ### Expansion -/

theorem followed_expandOnce (own : CommandKind → Bool) (s : Services) {cs : List Command} {r : Run}
    (h : TidyList cs r) :
    Ends (fun _ => True) (expandOnce s cs r) fun p =>
      TidyList p.1 p.2.1 ∧ Followed own (fun _ => false) [] p.1 p.2.1.document := by
  have hoverride : ∀ k : CommandKind, k.isOverride = true → k.isLate = false := by
    rintro (_ | _) <;> simp [CommandKind.isOverride, CommandKind.isLate, CommandKind.isFieldUpdate,
      CommandKind.isFilledIn]
  have hinsertion : ∀ k : CommandKind, k.isInsertion = true → k.isLate = false := by
    rintro (_ | _) <;> simp [CommandKind.isInsertion, CommandKind.isLate, CommandKind.isFieldUpdate,
      CommandKind.isFilledIn]
  refine Ends.andThen (tidyList_visitPending (fun c r hc hr =>
    (executeOverride_spec s hc.isCommand hr).mono fun p hp => hp.tidy hoverride hc hr) h)
    fun p hp => ?_
  refine Ends.andThen (tidyList_visitPending (fun c r hc hr =>
    (executeInsert_spec _ hc.isCommand hr).mono fun p hp => hp.tidy hinsertion hc hr) hp)
    fun q hq => ?_
  have hrefresh := tidyList_refresh hq
  exact ⟨hrefresh, followed_of_refresh hrefresh.1 hrefresh.2⟩

theorem followed_expandFrom (own : CommandKind → Bool) (s : Services) (done left : Nat)
    {cs : List Command} {r : Run} (h : TidyList cs r)
    (hstart : left = 0 → Followed own (fun _ => false) [] cs r.document) :
    Ends (fun _ => True) (expandFrom s done left cs r) fun p =>
      Followed own (fun _ => false) [] p.2.1 p.2.2.document := by
  induction left generalizing done cs r with
  | zero => exact hstart rfl
  | succ left ih =>
    refine Ends.andThen (followed_expandOnce own s h) fun p hp => ?_
    obtain ⟨cs', r', changed⟩ := p
    cases changed with
    | false => exact hp.2
    | true => exact ih (done + 1) hp.1 fun _ => hp.2

/-! ### Updating fields and filling in values -/

/-- A command that is finished on a document with fewer names is executed. -/
theorem executed_finish {c : Command} {r r' : Run} (hc : c.config.IsCommand)
    (hr : r.document.names.Nodup) (h : r'.document.names.Sublist r.document.names) (remove : Bool) :
    Executed c r.document (r'.finish c remove).1 (r'.finish c remove).2.document := by
  have hexec := Command.executed_markDone hc (hr.sublist h) remove
  exact ⟨hexec.kind, hexec.isCommand, hexec.bookmark, hexec.distinct, fun n hn =>
    (hexec.names n hn).imp (fun hold => ⟨h.subset hold.1, hold.2⟩) id⟩

theorem passes_updateFields (policy : Policy) {c : Command} {r : Run} (hc : c.config.IsCommand)
    (hr : r.document.names.Nodup) :
    Ends (fun _ => True) (updateFields policy c r) fun p =>
      p.2.failures = r.failures ∧
        Passes CommandKind.isFieldUpdate c r.document p.1 p.2.document := by
  unfold updateFields
  split
  next hkind =>
    have hown : c.kind.isFieldUpdate = true := by rw [hkind]; rfl
    dsimp only
    split
    · exact ⟨rfl, .inl ⟨hown, executed_finish hc hr (List.Sublist.refl _) _⟩⟩
    next range _ =>
      have hupdate := Ends.refreshElements (I := fun d => d.names.Sublist r.document.names)
        (fun d e hd => (Document.narrows_refreshElement d e).mono fun o ho d' hd' =>
          (show d'.names.Sublist d.names from ho _ hd').trans hd)
        (List.Sublist.refl _) (r.document.elementsWithin range.toSpan)
      refine Ends.andThen hupdate fun d hd => ?_
      let updated : Run := { r with document := d }
      have hfinish : Executed c r.document (updated.finish c (!policy.debug)).1
          (updated.finish c (!policy.debug)).2.document := executed_finish hc hr hd _
      exact ⟨rfl, .inl ⟨hown, hfinish⟩⟩
  next hkind =>
    refine ⟨rfl, .inr ⟨rfl, rfl, fun h => absurd h ?_⟩⟩
    cases hk : c.kind <;> simp_all [CommandKind.isFieldUpdate]

/-- Executing a command of one of these kinds, or failing it. -/
def Fills (c : Command) (r : Run) (p : Command × Run) : Prop :=
  p.2.failures = r.failures + 1 ∧ p.1 = c.setFailed true ∧
    p.2.document.names.Sublist r.document.names ∨
  p.2.failures = r.failures ∧
    (c.config.IsCommand → r.document.names.Nodup → Executed c r.document p.1 p.2.document)

theorem fills_finish {c : Command} {r r' : Run} (h : r.Keeps r') (remove : Bool) :
    Fills c r (r'.finish c remove) :=
  .inr ⟨h.failures, fun hc hr => executed_finish hc hr h.names remove⟩

theorem fills_fail {c : Command} {r r' : Run} (h : r.Keeps r') (reason : String) :
    Ends (fun _ => True) (r'.fail c reason) (Fills c r) := by
  refine (r'.fail_spec c reason).mono ?_
  rintro p ⟨d, hd, rfl⟩
  exact .inl ⟨congrArg (· + 1) h.failures, rfl, hd.trans h.names⟩

theorem keeps_describeForm (r : Run) (nodes : List Node) : r.Keeps (r.describeForm nodes) := by
  unfold Run.describeForm
  split
  · exact .refl r
  · exact ⟨List.Sublist.refl _, rfl, rfl, rfl⟩

theorem fills_takeForm (policy : Policy) (c : Command) (r : Run) :
    Ends (fun _ => True) (takeForm policy c r) (Fills c r) := by
  unfold takeForm
  refine Ends.afterAny fun body => ?_
  split
  · exact fills_fail (.refl r) _
  next nodes _ =>
    have hform := keeps_describeForm r nodes
    refine Ends.andThen (Document.narrows_setBookmarkText (r.describeForm nodes).document
      c.bookmark []) fun a ha => ?_
    cases a with
    | error e => exact fills_fail hform _
    | ok d =>
      have hkeeps : r.Keeps { r.describeForm nodes with document := d } :=
        hform.trans (.document ha)
      exact fills_finish hkeeps _

theorem fills_insertValue (s : Services) (request : ValueRequest) (c : Command) (r : Run) :
    Ends (fun _ => True) (insertValue s request c r) (Fills c r) := by
  unfold insertValue
  split
  · exact fills_fail (.refl r) _
  · refine Ends.andThen (r.keeps_write c _) fun r' hr' => ?_
    exact fills_finish hr' false

theorem fillIn_spec (s : Services) (c : Command) (r : Run) :
    Ends (fun _ => True) (fillIn s c r) fun p =>
      if c.kind.isFilledIn then Fills c r p else p = (c, r) := by
  unfold fillIn
  split
  next hkind => simpa [hkind, CommandKind.isFilledIn] using fills_takeForm s.policy c r
  next hkind => simpa [hkind, CommandKind.isFilledIn] using fills_fail (.refl r) _
  next hkind => simpa [hkind, CommandKind.isFilledIn] using fills_insertValue s _ c r
  next h₁ h₂ h₃ =>
    have hno : c.kind.isFilledIn = false := by
      cases hk : c.kind <;> simp_all [CommandKind.isFilledIn]
    simp [hno]

/-! ### Removing marks -/

theorem passes_collectFrom (policy : Policy) {c : Command} {s : Document × List Cleaner}
    (hc : c.config.IsCommand) (hd : s.1.names.Nodup) :
    Ends (fun _ => True) (collectFrom policy c s) fun p =>
      Passes CommandKind.isInsertion c s.1 p.1 p.2.1 := by
  unfold collectFrom
  split
  next hkind =>
    refine .inr ⟨rfl, rfl, fun h => ?_⟩
    cases hk : c.kind <;> simp_all [CommandKind.isInsertion, closingRemovable?]
  next removable hremovable =>
    have hown : c.kind.isInsertion = true := by
      cases hk : c.kind <;> simp_all [CommandKind.isInsertion, closingRemovable?]
    have hexec : ∀ found : List Cleaner, Passes CommandKind.isInsertion c s.1
        (c.unmark.markDone s.1 (!policy.debug)).1
        ((c.unmark.markDone s.1 (!policy.debug)).2, s.2 ++ found).1 := fun _ => by
      have h := Command.executed_markDone (c := c.unmark) hc hd (!policy.debug)
      exact .inl ⟨hown, h.kind, h.isCommand, h.bookmark, h.distinct, h.names⟩
    dsimp only
    split
    · exact Ends.afterAny fun found => hexec found
    · exact hexec []

theorem names_insertBookmark {d d' : Document} {name unique : String} {r : TextRange}
    (h : d.insertBookmark name r = .ok (d', unique)) :
    unique = d.uniqueName name none ∧ d'.names = d.names ++ [unique] := by
  have hadd := Document.addBookmark_of_insertBookmark h
  obtain rfl : unique = d.uniqueName name none := (congrArg Prod.snd hadd).symm
  refine ⟨rfl, ?_⟩
  rw [← Document.names_addBookmark d name r.toSpan, hadd]

/-- Putting bookmarks back adds no names but theirs. -/
theorem subset_restoreBookmark {place : TextRange} {names : List String} {name : String}
    (hname : name ∈ names) {d : Document} (hd : d.names.Nodup ∧ d.names ⊆ names) :
    (restoreBookmark place d name).names.Nodup ∧ (restoreBookmark place d name).names ⊆ names := by
  unfold restoreBookmark
  split
  · exact hd
  next hnew =>
    have hnot : name ∉ d.names := fun h => hnew (Document.isSome_bookmark?_iff.2 h)
    split
    next d' unique hinsert =>
      obtain ⟨rfl, hnames⟩ := names_insertBookmark hinsert
      rw [Document.uniqueName_of_notMem hnot] at hnames
      rw [hnames, List.nodup_append]
      refine ⟨⟨hd.1, by simp, fun a ha b hb => ?_⟩, ?_⟩
      · rw [List.mem_singleton.1 hb]
        rintro rfl
        exact hnot ha
      · exact List.append_subset.2 ⟨hd.2, by simpa using hname⟩
    · exact hd

theorem mem_bookmarksWithin {d : Document} {s : Span} {n : String} (h : n ∈ d.bookmarksWithin s) :
    n ∈ d.names := by
  obtain ⟨b, hb, rfl⟩ := List.mem_map.1 h
  exact List.mem_map_of_mem (List.mem_filter.1 hb).1

/-- Names stay distinct, and no new ones come. -/
def Reduces (d d' : Document) : Prop := d'.names.Nodup ∧ d'.names ⊆ d.names

theorem reduces_clearRange {d : Document} (hd : d.names.Nodup) (r : TextRange) :
    Ends (fun _ => True) (clearRange d r) fun a => ∀ d', a = .ok d' → Reduces d d' := by
  unfold clearRange
  split
  · simp
  next d₁ killer hinsert =>
    obtain ⟨hkiller, hnames⟩ := names_insertBookmark hinsert
    have hfresh : killer ∉ d.names := hkiller ▸ Document.uniqueName_notMem d killerName
    have hd₁ : d₁.names.Nodup := by
      rw [hnames, List.nodup_append]
      refine ⟨hd, by simp, fun a ha b hb => ?_⟩
      rw [List.mem_singleton.1 hb]
      rintro rfl
      exact hfresh ha
    have hold : ∀ n ∈ d₁.names, n ≠ killer → n ∈ d.names := by
      intro n hn hne
      rw [hnames, List.mem_append, List.mem_singleton] at hn
      exact hn.resolve_right hne
    refine Ends.andThen (Document.narrows_setBookmarkText d₁ killer []) fun a ha => ?_
    cases a with
    | error e => simp
    | ok d₂ =>
      have hd₂ : d₂.names.Sublist d₁.names := ha
      dsimp only
      split
      · simp
      next cleared hremove =>
        have hcleared : Reduces d cleared := by
          rw [Reduces, Document.names_removeBookmark hremove]
          refine ⟨(hd₁.sublist hd₂).filter _, fun n hn => ?_⟩
          obtain ⟨hn, hne⟩ := List.mem_filter.1 hn
          exact hold n (hd₂.subset hn) (by simpa using hne)
        split
        · simpa using hcleared
        next place _ =>
          rintro d' ⟨⟩
          have hinside : ∀ n ∈ (d₁.bookmarksWithin r.toSpan).filter (· ≠ killer), n ∈ d.names := by
            intro n hn
            obtain ⟨hn, hne⟩ := List.mem_filter.1 hn
            exact hold n (mem_bookmarksWithin hn) (by simpa using hne)
          generalize (d₁.bookmarksWithin r.toSpan).filter (· ≠ killer) = inside at hinside
          clear hremove
          induction inside generalizing cleared with
          | nil => exact hcleared
          | cons n ns ih =>
            simp only [List.forall_mem_cons] at hinside
            exact ih _ (subset_restoreBookmark hinside.1 hcleared) hinside.2

theorem reduces_applyCleaner {d : Document} (hd : d.names.Nodup) (c : Cleaner) :
    Ends (fun _ => True) (applyCleaner d c) (Reduces d) := by
  have hsame : Reduces d d := ⟨hd, List.Subset.refl _⟩
  unfold applyCleaner
  cases c with
  | range r =>
    refine Ends.andThen (reduces_clearRange hd r) fun a ha => ?_
    cases a with
    | error e => exact hsame
    | ok d' => exact ha d' rfl
  | paragraph r =>
    refine Ends.andThen (Document.narrows_deleteParagraph d r) fun a ha => ?_
    cases a with
    | error e => exact hsame
    | ok d' => exact ⟨hd.sublist ha, List.Sublist.subset ha⟩

theorem reduces_sweep {d : Document} (hd : d.names.Nodup) (cleaners : List Cleaner) :
    Ends (fun _ => True) (sweep d cleaners) (Reduces d) := by
  refine Ends.andThen (P := Reduces d) ?_ fun d' hd' => hd'
  refine Ends.foldlM ⟨hd, List.Subset.refl _⟩ fun c _ d' hd' => ?_
  exact (reduces_applyCleaner hd'.1 c).mono fun d'' h => ⟨h.1, List.Subset.trans h.2 hd'.2⟩

/-! ### The whole run -/

/-- The document has no command of the given kinds that is still to be executed. -/
def Settled (kinds : CommandKind → Bool) (d : Document) : Prop :=
  ∀ n ∈ d.names, ∀ kind, IsPendingName n kind → kinds kind = false

theorem Settled.mono {kinds : CommandKind → Bool} {d d' : Document} (h : Settled kinds d)
    (hd : d'.names ⊆ d.names) : Settled kinds d' :=
  fun n hn => h n (hd hn)

/-- A phase that visits the pending commands, for kinds that stay pending until it. -/
theorem followed_lockedPhase {own settled : CommandKind → Bool}
    (good : Run → Prop) {step : Command → Run → Except Fault (Command × Run)}
    (hlate : ∀ k, own k = true → k.isLate = true)
    (hgood : ∀ c r, Ends (fun _ => True) (step c r) fun p => good p.2 → good r)
    (hstep : ∀ c r, c.config.IsCommand → r.document.names.Nodup → Ends (fun _ => True) (step c r)
      fun p => good p.2 → Passes own c r.document p.1 p.2.document)
    (hunlock : ∀ r : Run, good { r with document := r.document.unlock } → good r)
    {cs : List Command} {r : Run} (h : Followed own settled [] cs r.document) :
    Ends (fun _ => True) (lockedPhase (visitPending step) cs r) fun p =>
      good p.2 → Followed own settled p.1 [] p.2.document := by
  have hvisit : Ends (fun _ => True) (visitPending step cs { r with document := r.document.lock })
      fun p => good p.2 → Followed own settled p.1 [] p.2.document :=
    Followed.visit Run.document good ?_ ?_ fun _ => ⟨h.distinct, h.isCommand, h.listed⟩
  · refine Ends.andThen hvisit fun p hp => ?_
    exact fun hg => ⟨(hp (hunlock p.2 hg)).distinct, (hp (hunlock p.2 hg)).isCommand,
      (hp (hunlock p.2 hg)).listed⟩
  · intro c s
    split
    · exact hgood c s
    · exact id
  · intro c s hc hs
    split
    · exact hstep c s hc hs
    next hidle =>
      exact fun _ => .inr ⟨rfl, rfl, fun ho => ⟨hlate _ ho, by simpa using hidle⟩⟩

theorem followed_updatePhase {settled : CommandKind → Bool} (policy : Policy) {cs : List Command}
    {r : Run} (h : Followed CommandKind.isFieldUpdate settled [] cs r.document) :
    Ends (fun _ => True) (lockedPhase (visitPending (updateFields policy)) cs r) fun p =>
      Followed CommandKind.isFieldUpdate settled p.1 [] p.2.document := by
  have hphase := followed_lockedPhase (fun _ => True)
    (fun k hk => by simp [CommandKind.isLate, hk]) (fun c r => Ends.of_forall fun _ _ _ => trivial)
    (fun c r hc hr => (passes_updateFields policy hc hr).mono fun p hp _ => hp.2)
    (fun _ _ => trivial) h
  exact hphase.mono fun p hp => hp trivial

theorem followed_fillPhase {settled : CommandKind → Bool} (s : Services) {cs : List Command}
    {r : Run} (h : Followed CommandKind.isFilledIn settled [] cs r.document) :
    Ends (fun _ => True) (lockedPhase (visitPending (fillIn s)) cs r) fun p =>
      p.2.failures = 0 → Followed CommandKind.isFilledIn settled p.1 [] p.2.document := by
  refine followed_lockedPhase (fun r => r.failures = 0)
    (fun k hk => by simp [CommandKind.isLate, hk]) (fun c r => ?_) (fun c r hc hr => ?_)
    (fun _ h => h) h
  · refine (fillIn_spec s c r).mono fun p hp hzero => ?_
    split at hp
    · rcases hp with ⟨hfail, -⟩ | ⟨hsame, -⟩ <;> omega
    · subst hp
      exact hzero
  · refine (fillIn_spec s c r).mono fun p hp hzero => ?_
    split at hp
    next hown =>
      rcases hp with ⟨hfail, -⟩ | ⟨-, hexec⟩
      · omega
      · exact .inl ⟨hown, hexec hc hr⟩
    next hown =>
      obtain rfl := hp
      exact .inr ⟨rfl, rfl, fun ho => absurd ho hown⟩

theorem followed_collect {settled : CommandKind → Bool} (policy : Policy) {cs : List Command}
    {d : Document} (h : Followed CommandKind.isInsertion settled [] cs d) :
    Ends (fun _ => True) (collect policy cs d) fun p =>
      Followed CommandKind.isInsertion settled p.1 [] p.2.1 := by
  have hvisit : Ends (fun _ => True) (collect policy cs d) fun p =>
      True → Followed CommandKind.isInsertion settled p.1 [] p.2.1 := Followed.visit Prod.fst (fun _ => True)
    (fun c s => Ends.of_forall fun _ _ _ => trivial)
    (fun c s hc hs => (passes_collectFrom policy hc hs).mono fun p hp _ => hp)
    fun _ => h
  exact hvisit.mono fun p hp => hp trivial

theorem settled_completeRun (s : Services) {cs : List Command} {r : Run}
    (h : Followed CommandKind.isFieldUpdate (fun _ => false) [] cs r.document) :
    Ends (fun _ => True) (completeRun s cs r) fun p =>
      p.2.failures = 0 → p.2.document.names.Nodup ∧
        Settled CommandKind.isTextual p.2.document := by
  unfold completeRun
  refine Ends.andThen (followed_updatePhase s.policy h) fun p hp => ?_
  refine Ends.andThen (followed_fillPhase s hp.next) fun q hq => ?_
  by_cases hzero : q.2.failures = 0
  · refine Ends.andThen (P := fun p => p.2.names.Nodup ∧ Settled CommandKind.isTextual p.2) ?_
      fun p hp _ => hp
    refine Ends.andThen (followed_collect s.policy (hq hzero).next) fun p hp => ?_
    refine Ends.andThen (reduces_sweep hp.distinct p.2.2) fun d hd => ?_
    refine ⟨hd.1, Settled.mono (fun n hn kind hname => ?_) hd.2⟩
    have := ((hp.next (o := fun _ => false)).listed n hn kind hname).1
    simpa [CommandKind.isTextual, CommandKind.isLate, Bool.or_assoc] using this
  · exact Ends.afterAny fun p hfail => absurd hfail hzero

/-! ### Scanning settings -/

theorem Command.IsFaithful.scanned {c : Command} (hc : c.IsFaithful) (hasLocation : Bool) :
    (c.scanned hasLocation).IsFaithful := by
  unfold Command.scanned
  split
  next hconsumed =>
    have hkind : c.kind.isLate = false := by
      cases hk : c.kind <;> simp_all [Command.isConsumed, CommandKind.isConsumed, CommandKind.isLate,
        CommandKind.isFieldUpdate, CommandKind.isFilledIn]
    exact hc.of_eq hkind rfl rfl hc.isCommand
  · exact hc

theorem scanSettings_spec (m : Model) :
    Ends (fun _ => True) m.scanSettings fun m' =>
      m'.document.names.Sublist m.document.names ∧
        (m.document.names.Nodup → (∀ c ∈ m.commands, c.IsFaithful) →
          ∀ c ∈ m'.commands, c.IsFaithful) := by
  refine ((scanned_scanSettings m).allow fun _ => False.elim).mono fun m' hm => ⟨?_, fun _ hall c hc => ?_⟩
  · rw [hm.names]
    exact List.filter_sublist
  · rw [hm.heeds.commands] at hc
    obtain ⟨c₀, hc₀, rfl⟩ := List.mem_map.1 hc
    exact (hall c₀ hc₀).scanned _

/-! ### Processing -/

/-- The model of a document that nothing was done with yet. -/
def Model.fresh (d : Document) (locations : List String) (mustProcess : Bool) : Model :=
  { Model.ofDocument d with contentLocations := locations, mustProcess }

theorem isFaithful_of_mem_ofDocument {d : Document} {c : Command} (h : c ∈ Command.ofDocument d) :
    c.IsFaithful := by
  obtain ⟨n, -, hn⟩ := Command.mem_ofDocument_iff.1 h
  exact Command.isFaithful_of_ofBookmark? hn

theorem settled_executeTemplate (s : Services) {m : Model} (hd : m.document.names.Nodup)
    (hm : ∀ c ∈ m.commands, c.IsFaithful) :
    Ends (fun _ => True) (m.executeTemplate s) fun o =>
      ∀ fixpoint, o.result = .ok fixpoint → Settled CommandKind.isTextual o.model.document := by
  unfold Model.executeTemplate
  refine Ends.andThen (followed_expandFrom CommandKind.isFieldUpdate s 0 maxRounds ⟨hm, hd⟩
    fun h => absurd h (by decide)) fun p hp => ?_
  refine Ends.andThen (settled_completeRun s hp) fun q hq => ?_
  intro fixpoint hresult
  have hzero : q.2.failures = 0 := by
    by_contra hne
    simp [hne] at hresult
  exact (hq hzero).2

/-- After a successful run that executed the template no bookmark holds a command for text that is
still to be executed, so that the document, opened again, has none. -/
theorem process_settles {d : Document} (hd : (d.bookmarks.map (·.name)).Nodup) (s : Services)
    (locations : List String) (mustProcess : Bool) {o : Outcome Report} {report : Report}
    (hrun : (Model.fresh d locations mustProcess).process s = .ok o)
    (hok : o.result = .ok report) (hexecuted : report.fixpoint.isSome = true) :
    (∀ b ∈ o.model.document.bookmarks, ∀ c, Command.ofBookmark? b.name = some c →
      c.isPending = true → c.kind.isTextual = false) ∧
    ∀ c ∈ Command.ofDocument o.model.document, c.isPending = true → c.kind.isTextual = false := by
  have hsettled : Settled CommandKind.isTextual o.model.document := by
    suffices hends : Ends (fun _ => True) ((Model.fresh d locations mustProcess).process s) fun o =>
        ∀ report, o.result = .ok report → report.fixpoint.isSome = true →
          Settled CommandKind.isTextual o.model.document from
      hends.of_eq_ok hrun report hok hexecuted
    unfold Model.process
    refine Ends.andThen (scanSettings_spec _) fun m hm => ?_
    have hm' := hm.2 hd fun c hc => isFaithful_of_mem_ofDocument hc
    split
    · refine Ends.andThen (settled_executeTemplate s (hd.sublist hm.1) hm') fun executed hexec => ?_
      split
      · rintro report ⟨⟩
      next fixpoint hfix =>
        refine Ends.andThen (scanSettings_spec _) fun m'' hm'' => ?_
        intro report _ _
        have hconclude : m''.conclude.document = m''.document := by
          unfold Model.conclude
          split <;> rfl
        rw [hconclude]
        exact (hexec fixpoint hfix).mono hm''.1.subset
    · rintro report ⟨⟩ hnone
      cases hnone
  have hnames : ∀ n ∈ o.model.document.names, ∀ c, Command.ofBookmark? n = some c →
      c.isPending = true → c.kind.isTextual = false :=
    fun n hn c hc hpending => hsettled n hn c.kind ⟨c, hc, hpending, rfl⟩
  refine ⟨fun b hb c hc => hnames b.name (List.mem_map_of_mem hb) c hc, fun c hc => ?_⟩
  obtain ⟨n, hn, hc⟩ := Command.mem_ofDocument_iff.1 hc
  exact hnames n hn c hc

/-- A run that succeeds and executes the template. -/
def succeeds : Except Fault (Outcome Report) → Bool
  | .ok ⟨_, _, .ok report⟩ => report.fixpoint.isSome
  | _ => false

theorem exists_of_succeeds {x : Except Fault (Outcome Report)} (h : succeeds x = true) :
    ∃ o report, x = .ok o ∧ o.result = .ok report ∧ report.fixpoint.isSome = true := by
  match x, h with
  | .ok ⟨m, ms, .ok report⟩, h => exact ⟨_, report, rfl, rfl, h⟩

/-- A letter with a fragment to insert, whose name is taken by its own content, and a value. -/
def letter : Document :=
  { Document.ofText "Dear ?,\n?".toList with
    bookmarks :=
      [⟨"DOC(CMD 'insertValue' DB_SPALTE 'Name')", ⟨5, 6⟩⟩,
       ⟨"DOC(CMD 'insertFrag' FRAG_ID 'closing')", ⟨8, 9⟩⟩] }

/-- Surroundings with one fragment. -/
def closingOnly : Services where
  locations := fun id => [id]
  load := fun _ => .ok
    { Document.ofText "Yours, ?".toList with
      bookmarks := [⟨"DOC(CMD 'insertValue' DB_SPALTE 'Name')", ⟨7, 8⟩⟩] }
  value := fun column => .ok column
  transform := fun name _ => .error (.unknown name)
  policy := ⟨true, false⟩

theorem process_settles_letter :
    ∃ o report, (Model.fresh letter [] false).process closingOnly = .ok o ∧
      o.result = .ok report ∧ report.fixpoint.isSome = true ∧
      ∀ c ∈ Command.ofDocument o.model.document, c.isPending = true → c.kind.isTextual = false := by
  obtain ⟨o, report, hrun, hok, hexecuted⟩ := exists_of_succeeds
    (x := (Model.fresh letter [] false).process closingOnly) (by cbv)
  exact ⟨o, report, hrun, hok, hexecuted,
    (process_settles (by decide) closingOnly [] false hrun hok hexecuted).2⟩

end TemplateEngine
