import TemplateEngine.Proofs.DebugMode
import TemplateEngine.Proofs.Phases
import TemplateEngine.Proofs.Spacing
import TemplateEngine.Proofs.Synchrony

/-!
# DocumentOrder — whether commands stay in document order

A refresh puts new commands in order and moves none that it knew (`Command.isSynchronised_refresh`), so the
list is in document order as long as edits do not change the order of the commands.  While a template is
expanded they do not if commands do not touch each other, in the document and in the contents, and nothing
is overridden: after each round the list is in order (`inOrder_expandFrom`).  Commands that touch can change
their order, and the list keeps the old one (`not_inOrder_pushedBack`).  It also takes a command that comes
in under the name of one that is gone for that one, be it lost inside another command
(`not_inOrder_coveredOver`) or an override that is done (`not_inOrder_overridingFirst`).
-/

namespace TemplateEngine

open Document

/-! ### One command among others -/

/-- A command in its place in the list, in a document whose commands are lined up. -/
structure Aligned (before : List Command) (c : Command) (after : List Command) (d : Document) : Prop where
  tracked : Tracked [[], []] True (c :: (before ++ after)) d
  lined : d.Lined ((before ++ c :: after).map (·.bookmark))

namespace Aligned

variable {before after : List Command} {c c' : Command} {d d' : Document} {r : Run}

theorem map_bookmark_middle (h : c'.bookmark = c.bookmark) :
    (before ++ c' :: after).map (·.bookmark) = (before ++ c :: after).map (·.bookmark) := by
  simp [h]

theorem isCommandName (h : Aligned before c after d) : IsCommandName c.bookmark :=
  (h.tracked.named c (by simp)).isCommandName

theorem notMem_markedNames (h : Aligned before c after d) (hm : c.marked = false) :
    c.bookmark ∉ markedNames (c :: (before ++ after)) := by
  rw [Tracked.markedNames_eq hm]
  exact h.tracked.notMem_markedNames

/-- What is noted about a command may change, but not its bookmark, its kind and its marks. -/
theorem withCommand (h : Aligned before c after d) (hb : c'.bookmark = c.bookmark)
    (hk : c'.kind = c.kind) (hm : c'.marked = c.marked) (hnamed : c'.IsNamed) :
    Aligned before c' after d where
  tracked := h.tracked.withCommand hb hk hm hnamed
  lined := map_bookmark_middle hb ▸ h.lined

theorem sameParts (h : Aligned before c after d) (hsame : SameParts d d') :
    Aligned before c after d' :=
  ⟨h.tracked.sameParts hsame, h.lined.sameBookmarks hsame.bookmarks⟩

/-- The text of a command without marks is replaced. -/
theorem setText (h : Aligned before c after d) (hm : c.marked = false) (t : Text) :
    Ends (fun _ => False) (c.setText d t) fun attempt => ∀ d', attempt = .ok d' →
      Aligned before c after d' :=
  ((h.tracked.setText hm t).and (h.lined.setBookmarkText h.tracked.layout h.isCommandName
    (h.notMem_markedNames hm) t)).mono fun _ hp d' hd' => ⟨hp.1 d' hd', hp.2 d' hd'⟩

theorem fail (h : Aligned before c after r.document) (hm : c.marked = false) (reason : String) :
    Ends (fun _ => False) (r.fail c reason) fun p => Aligned before p.1 after p.2.document := by
  have hmark : Ends (fun _ => False) (markFailure r.document c reason)
      (Lined ((before ++ c :: after).map (·.bookmark))) := by
    refine Ends.andThen (h.lined.setBookmarkText h.tracked.layout h.isCommandName
      (h.notMem_markedNames hm) failureText) fun attempt hattempt => ?_
    cases attempt with
    | error e => exact h.lined
    | ok d' =>
      have hd' := hattempt d' rfl
      dsimp only
      split
      · exact hd'
      next range _ =>
        cases hnote : d'.insertAnnotation range (failureNote c reason) with
        | error e => exact hd'
        | ok d'' =>
          obtain rfl := addAnnotation_of_insertAnnotation hnote
          exact hd'.sameBookmarks rfl
  have hlined : Ends (fun _ => False) (r.fail c reason) fun p =>
      p.2.document.Lined ((before ++ p.1 :: after).map (·.bookmark)) := by
    refine Ends.andThen hmark fun d' hd' => ?_
    show d'.Lined ((before ++ c.setFailed true :: after).map (·.bookmark))
    have hb : (c.setFailed true).bookmark = c.bookmark := rfl
    exact map_bookmark_middle hb ▸ hd'
  exact ((h.tracked.fail hm reason).and hlined).mono fun _ hp => ⟨hp.1, hp.2⟩

/-- A command that inserts is done and keeps its bookmark. -/
theorem finishInsertion (h : Aligned before c after r.document) :
    Aligned before (r.finish c false).1 after (r.finish c false).2.document := by
  refine ⟨h.tracked.finishInsertion, ?_⟩
  have hlined := h.lined
  have hdone : Command.IsNamed { c with done := true } :=
    (h.tracked.named c (by simp)).of_eq rfl rfl rfl
  rw [List.map_append, List.map_cons] at hlined ⊢
  unfold Run.finish Command.markDone
  simp only [Bool.false_eq_true, if_false]
  split
  next d' unique hrename =>
    rw [Command.bookmark_recordState] at hrename
    exact hlined.renamed h.tracked.layout.consistent.toWellFormed hrename
      (hdone.recorded rfl (variant_renameBookmark hrename)).isCommandName
  · rw [Command.bookmark_recordState]
    exact hlined

/-! ### Contents -/

/-- Whether the placeholders in the bookmark of a command can be filled in beside all commands of the
list. -/
def Fillable (before : List Command) (c : Command) (after : List Command) (d : Document) : Prop :=
  ∀ span, d.span? c.bookmark = some span →
    d.Layout [[], []] (markedNames (c :: (before ++ after))) (d.placeholdersWithin span) ∧
      d.FillsBeside ((before ++ c :: after).map (·.bookmark)) (d.placeholdersWithin span)

/-- A content is put between marks in the place of a command. -/
theorem insertBetweenMarks {content : Document} (h : Aligned before c after d)
    (hk : c.kind.isInsertion = true) (hm : c.marked = false) (hcontent : content.WellFormed)
    (hspaced : content.CommandsSpaced) :
    ∃ d', c.insertBetweenMarks d content = .ok ({ c with marked := true }, d', none) ∧
      Aligned before { c with marked := true } after d' ∧
      Fillable before { c with marked := true } after d' := by
  have hb : ({ c with marked := true } : Command).bookmark = c.bookmark := rfl
  obtain ⟨a, m, z, htext, hspan, hinsert, -, -, hfill⟩ :=
    h.tracked.exists_withContent hk hm hcontent hspaced.apart
  obtain ⟨d', hinsert', htracked, -⟩ := h.tracked.insertBetweenMarks hk hm hcontent hspaced.apart
  obtain rfl : d.withContent a m z c.bookmark content = d' := by
    rw [hinsert] at hinsert'
    simpa using hinsert'
  have hlined := h.lined.withContent h.tracked.layout h.isCommandName (h.notMem_markedNames hm) hcontent
    hspaced htext hspan
  refine ⟨_, hinsert, ⟨htracked, map_bookmark_middle hb ▸ hlined⟩, hfill _ fun n hn => ?_⟩
  rw [map_bookmark_middle hb] at hn
  exact ⟨h.lined.named n hn, h.lined.found n hn⟩

theorem markedNames_subset :
    markedNames (c :: (before ++ after)) ⊆ (before ++ c :: after).map (·.bookmark) := by
  intro n hn
  obtain ⟨x, hx, -, rfl⟩ := mem_markedNames.1 hn
  exact List.mem_map_of_mem (List.perm_middle.mem_iff.2 hx)

/-- Filling in the placeholders of a content keeps the commands of the list in order. -/
theorem fillPlaceholders (h : Aligned before c after r.document)
    (hfill : Fillable before c after r.document) (policy : Policy) (jumpMark : Option String)
    (arguments : List String) :
    Ends (fun _ => False) (fillPlaceholders policy jumpMark c arguments r) fun r' =>
      Aligned before c after r'.document := by
  cases hrange : c.range? r.document with
  | none =>
    unfold TemplateEngine.fillPlaceholders
    rw [hrange]
    exact h
  | some range =>
    obtain ⟨b, hb, rfl⟩ := Option.map_eq_some_iff.1 hrange
    have hspan : r.document.span? c.bookmark = some b.span := by rw [span?, hb]; rfl
    let ids := r.document.placeholdersWithin b.span
    let I : Document → Prop := fun d =>
      (d.Layout [[], []] (markedNames (c :: (before ++ after))) ids ∧
        d.FillsBeside ((before ++ c :: after).map (·.bookmark)) ids) ∧
      d.Lined ((before ++ c :: after).map (·.bookmark))
    have hstart : I r.document := ⟨hfill b.span hspan, h.lined⟩
    refine (KeptByFilling.fillPlaceholders hstart ?_ policy jumpMark arguments).mono ?_
    · intro range' hrange'
      obtain rfl := Option.some.inj (hrange.symm.trans hrange')
      exact keptByFilling_lined markedNames_subset
    · rintro r' ⟨⟨hlayout, -⟩, hlined⟩
      refine ⟨{ h.tracked with layout := ?_, found := fun _ x hx _ => ?_ }, hlined⟩
      · exact hlayout.narrowed hlayout.consistent rfl rfl (fun _ h => h) (List.nil_subset _)
          fun _ _ h => h
      · exact hlined.found _ (List.mem_map_of_mem (List.perm_middle.mem_iff.2 hx))

end Aligned

/-! ### Executing one command -/

/-- The contents that a run can load are well-formed, and their commands do not touch. -/
def Services.LoadsSpaced (s : Services) : Prop :=
  ∀ l content, s.load l = .ok content → content.WellFormed ∧ content.CommandsSpaced

theorem keptByInserting_aligned {s : Services} (hs : s.LoadsSpaced) (before after : List Command) :
    KeptByInserting s fun c d => Aligned before c after d where
  setFailed {c _} h := h.withCommand rfl rfl rfl ((h.tracked.named c (by simp)).of_eq rfl rfl rfl)
  importStyles h _ _ := h.sameParts (.importStyles _ _ _)
  setText h hm t := h.setText hm t
  fail h hm reason := h.fail hm reason
  finish h := h.finishInsertion
  insert := by
    intro c d l content h hk hm hload
    obtain ⟨hcontent, hspaced⟩ := hs l content hload
    obtain ⟨d', hinsert, hd', hfill⟩ := h.insertBetweenMarks hk hm hcontent hspaced
    rw [hinsert]
    refine ⟨hd', .inl rfl, ?_⟩
    rintro r jumpMark arguments rfl
    exact hd'.fillPlaceholders hfill _ _ _

/-- The first jump mark of a list in order is in front of all others or level with them. -/
theorem Command.InOrder.firstJumpMark? {d : Document} {cs : List Command} {c : Command}
    (h : InOrder d cs) (hfound : ∀ c ∈ cs, c.bookmark ∈ d.names) (hc : c ∈ cs)
    (hkind : c.kind = .setJumpMark) :
    ∃ n s t, Command.firstJumpMark? cs = some n ∧ d.span? n = some s ∧
      d.span? c.bookmark = some t ∧ s.notAfter t = true := by
  let isMark : Command → Bool := fun c => c.kind == .setJumpMark
  have hmark : isMark c = true := by simp [isMark, hkind]
  obtain ⟨b, hb⟩ : ∃ b, cs.find? isMark = some b :=
    Option.isSome_iff_exists.1 (List.find?_isSome.2 ⟨c, hc, hmark⟩)
  obtain ⟨-, before, after, rfl, hbefore⟩ := List.find?_eq_some_iff_append.1 hb
  obtain ⟨s, hs⟩ := Option.isSome_iff_exists.1 (isSome_span?_iff.2 (hfound b (by simp)))
  obtain ⟨t, ht⟩ := Option.isSome_iff_exists.1 (isSome_span?_iff.2 (hfound c hc))
  have hfirst : Command.firstJumpMark? (before ++ b :: after) = some b.bookmark := congrArg (Option.map _) hb
  refine ⟨b.bookmark, s, t, hfirst, hs, ht, ?_⟩
  rcases List.mem_append.1 hc with hc | hc
  · have hnot := hbefore c hc
    simp [hmark] at hnot
  rcases List.mem_cons.1 hc with rfl | hc
  · obtain rfl := Option.some.inj (hs.symm.trans ht)
    simp [Span.notAfter]
  · have hpairs := (List.pairwise_cons.1 (List.pairwise_append.1 h).2.1).1 c hc
    by_contra hafter
    exact Bool.eq_false_iff.1 hpairs (comesBefore_iff.2 ⟨t, s, ht, hs, by simpa using hafter⟩)

/-! ### Rounds of expansion -/

/-- A state between two rounds of expansion in which the commands of the list are lined up and nothing is
overridden.  What does not insert is as its bookmark tells. -/
structure Orderly (cs : List Command) (d : Document) : Prop where
  expanding : Expanding [[], []] cs d
  lined : d.Lined (cs.map (·.bookmark))
  noOverrides : NoOverrides cs d
  read : ∀ c ∈ cs, c.kind.isInsertion = false → Command.ofBookmark? c.bookmark = some c

namespace Orderly

variable {s : Services} {cs : List Command} {d : Document} {r : Run}

theorem wellFormed (h : Orderly cs d) : d.WellFormed := h.expanding.1.layout.consistent.toWellFormed

theorem inOrder (h : Orderly cs d) : Command.InOrder d cs := by
  refine (List.pairwise_map.1 h.lined.ordered).imp fun {b c} hahead => ?_
  rw [← Bool.not_eq_true, Command.comesBefore_iff]
  rintro ⟨t, s, ht, hs, hafter⟩
  have hlt := (hahead s t hs ht).start_lt (le_of_span? h.wellFormed hs)
  simp [Span.notAfter, hlt] at hafter

/-- Commands in document order that are spaced are lined up. -/
theorem lined_of_inOrder (hspaced : d.Spaced) (hd : d.WellFormed) (hnamed : ∀ c ∈ cs, c.IsNamed)
    (hfound : ∀ c ∈ cs, c.bookmark ∈ d.names) (hnodup : (cs.map (·.bookmark)).Nodup)
    (hord : Command.InOrder d cs) : d.Lined (cs.map (·.bookmark)) := by
  refine ⟨fun n hn => ?_, fun n hn => ?_, hspaced, List.pairwise_map.2 ?_⟩
  · obtain ⟨c, hc, rfl⟩ := List.mem_map.1 hn
    exact (hnamed c hc).isCommandName
  · obtain ⟨c, hc, rfl⟩ := List.mem_map.1 hn
    exact hfound c hc
  · refine List.Pairwise.imp_of_mem (fun {b c} hb hc hbc => ?_)
      (hord.and (List.pairwise_map.1 hnodup))
    obtain ⟨hbefore, hne⟩ := hbc
    intro s t hs ht
    refine (hspaced _ _ (hnamed b hb).isCommandName (hnamed c hc).isCommandName hne s t hs ht).resolve_right
      fun hahead => ?_
    have hlt := hahead.start_lt (le_of_span? hd ht)
    refine Bool.eq_false_iff.1 hbefore (Command.comesBefore_iff.2 ⟨t, s, ht, hs, ?_⟩)
    simp [Span.notAfter]
    omega

theorem refresh (h : Orderly cs d) : Orderly (Command.refresh d cs).1 d := by
  have hexpanding := h.expanding.refresh
  have hkept : Command.surviving d cs = cs := List.filter_eq_self.2 fun c hc =>
    isSome_bookmark?_iff.2 (h.lined.found _ (List.mem_map_of_mem hc))
  have hord : Command.InOrder d (Command.refresh d cs).1 := by
    refine Command.InOrder.discover ?_ _
    rw [hkept]
    exact h.inOrder
  refine ⟨hexpanding, lined_of_inOrder h.lined.spaced h.wellFormed hexpanding.1.named
    (fun c hc => Command.bookmark_mem_of_mem_refresh hc) ?_ hord, h.noOverrides.refresh,
    fun c hc hkind => ?_⟩
  · exact Command.nodup_refresh h.wellFormed.names (h.lined.nodup h.wellFormed)
  · rcases Command.mem_refresh_iff.1 hc with ⟨hc, -⟩ | ⟨n, -, -, hn⟩
    · exact h.read c hc hkind
    · rwa [Command.bookmark_of_ofBookmark? hn]

/-- The start, before any command is listed. -/
theorem nil (hd : d.Consistent) (hspaced : d.CommandsSpaced) (hno : d.overridesNothing = true) :
    Orderly [] d :=
  ⟨⟨.nil hd hspaced.apart (framed_pinned hd.toWellFormed []) (.inl rfl), by simp⟩,
    ⟨by simp, by simp, hspaced.spaced, .nil⟩,
    ⟨hd.names, by simp, by simp, by simp, fun _ hn _ => isOverride_eq_false hno hn⟩, by simp⟩

/-- One insertion. -/
theorem insert (hs : s.LoadsSpaced) (hloads : s.LoadsNoOverrides) {before after : List Command}
    {c : Command} (hpending : c.isPending = true) (h : Orderly (before ++ c :: after) r.document)
    (jumpMark : Option String) :
    Ends (fun _ => False) (executeInsert s jumpMark c r) fun p =>
      Orderly (before ++ p.1 :: after) p.2.document := by
  have hc : c.IdleIfMarked := h.expanding.2 c (by simp)
  have hnamed : c.IsNamed := h.expanding.1.named c (by simp)
  have haligned : Aligned before c after r.document :=
    ⟨h.expanding.1.perm List.perm_middle, h.lined⟩
  have hkeep := (keptByInserting_aligned hs before after).executeInsert haligned
    (unmarked_of_isPending hc hpending) jumpMark
  have hspec := (executeInsert_spec (s := s) jumpMark hnamed.isCommand h.wellFormed.names).and
    (isNamed_executeInsert hnamed jumpMark)
  refine (hkeep.and hspec).mono ?_
  rintro p ⟨hp, hexec, hpnamed⟩
  refine ⟨⟨hp.tracked.perm List.perm_middle.symm, fun x hx => ?_⟩, hp.lined,
    h.noOverrides.insert hloads hexec hpnamed, fun x hx hkind => ?_⟩
  · rcases List.mem_cons.1 (List.perm_middle.mem_iff.1 hx) with rfl | hx
    · exact hexec.idleIfMarked hc
    · exact h.expanding.2 x (List.perm_middle.mem_iff.2 (List.mem_cons_of_mem _ hx))
  · rcases List.mem_cons.1 (List.perm_middle.mem_iff.1 hx) with rfl | hx
    · rcases hexec with ⟨hown, hexpanded⟩ | ⟨hown, rfl⟩
      · rw [hexpanded.kind, hown] at hkind
        cases hkind
      · exact h.read c (by simp) hown
    · exact h.read x (List.perm_middle.mem_iff.2 (List.mem_cons_of_mem _ hx)) hkind

end Orderly

/-- The same right after a refresh: the list has all commands of the document. -/
structure Refreshed (cs : List Command) (d : Document) : Prop extends Orderly cs d where
  bookmarks : ∀ n, n ∈ cs.map (·.bookmark) ↔ n ∈ d.names ∧ IsCommandName n

namespace Refreshed

variable {s : Services} {cs : List Command} {d d' : Document} {r : Run}

theorem of_orderly (h : Orderly cs d) : Refreshed (Command.refresh d cs).1 d where
  toOrderly := h.refresh
  bookmarks n := by
    refine ⟨fun hn => ⟨h.refresh.lined.found n hn, h.refresh.lined.named n hn⟩, ?_⟩
    rintro ⟨hn, hname⟩
    obtain ⟨c, hc⟩ := Option.isSome_iff_exists.1 hname
    obtain ⟨x, hx, rfl⟩ := Command.exists_mem_refresh hn hc
    exact List.mem_map_of_mem hx

/-- The document changes in its flags, styles or metadata only. -/
theorem sameParts (h : Refreshed cs d) (hsame : SameParts d d') : Refreshed cs d' where
  expanding := ⟨h.expanding.1.sameParts hsame, h.expanding.2⟩
  lined := h.lined.sameBookmarks hsame.bookmarks
  noOverrides := ⟨hsame.names ▸ h.noOverrides.distinct, h.noOverrides.named, h.noOverrides.read,
    h.noOverrides.listed, hsame.names ▸ h.noOverrides.names⟩
  read := h.read
  bookmarks := hsame.names ▸ h.bookmarks

/-- One round. -/
theorem expandOnce (hs : s.LoadsSpaced) (hloads : s.LoadsNoOverrides) (h : Refreshed cs r.document) :
    Ends (fun _ => False) (expandOnce s cs r) fun p => Refreshed p.1 p.2.1.document := by
  have hvisit : Ends (fun _ => False) (executeInserts s cs r) fun p => Orderly p.1 p.2.document :=
    Ends.visitPendingAll (I := fun cs (r : Run) => Orderly cs r.document) h.toOrderly
      fun before c after r hpending hI => hI.insert hs hloads hpending _
  unfold TemplateEngine.expandOnce
  rw [h.noOverrides.executeOverrides_eq]
  refine Ends.andThen (P := fun p => p = (cs, r)) rfl ?_
  rintro _ rfl
  exact Ends.andThen hvisit fun p hp => of_orderly hp

/-- All rounds. -/
theorem expandFrom (hs : s.LoadsSpaced) (hloads : s.LoadsNoOverrides) (done left : Nat)
    (h : Refreshed cs r.document) :
    Ends (fun _ => False) (expandFrom s done left cs r) fun p => Refreshed p.2.1 p.2.2.document := by
  induction left generalizing done cs r with
  | zero => exact h
  | succ left ih =>
    refine Ends.andThen (h.expandOnce hs hloads) fun p hp => ?_
    dsimp only
    split
    · exact ih (done + 1) hp
    · exact hp

/-- The first jump mark of the list is the first one in the text. -/
theorem firstJumpMark? (h : Refreshed cs d) {n : String} (hn : n ∈ d.names) {c : Command}
    (hc : Command.ofBookmark? n = some c) (hkind : c.kind = .setJumpMark) :
    ∃ first s t, Command.firstJumpMark? cs = some first ∧ d.span? first = some s ∧
      d.span? n = some t ∧ s.notAfter t = true := by
  obtain ⟨x, hx, rfl⟩ := List.mem_map.1 ((h.bookmarks n).2 ⟨hn, Option.isSome_iff_exists.2 ⟨c, hc⟩⟩)
  obtain ⟨c', hc', hinserts⟩ := (h.expanding.1.named x hx).name
  obtain rfl := Option.some.inj (hc.symm.trans hc')
  rw [hkind] at hinserts
  obtain rfl := Option.some.inj (hc.symm.trans (h.read x hx hinserts.symm))
  exact h.inOrder.firstJumpMark? (fun x hx => h.lined.found _ (List.mem_map_of_mem hx)) hx hkind

end Refreshed

/-- **Where commands do not touch, the list stays in document order while a template is expanded.**  After
any number of rounds the list has the commands of the document, none of them comes before an earlier one,
and the first jump mark is the first one in the text. -/
theorem inOrder_expandFrom {s : Services} (hs : s.LoadsSpaced) (hloads : s.LoadsNoOverrides)
    {d : Document} (hd : d.Consistent) (hspaced : d.CommandsSpaced) (hno : d.overridesNothing = true)
    (locations : List String) (mustProcess : Bool) (rounds : Nat) :
    ∃ fixpoint cs r, expandFrom s 0 rounds (Model.fresh d locations mustProcess).commands
        (Model.fresh d locations mustProcess).enter.startRun = .ok (fixpoint, cs, r) ∧
      (∀ n, n ∈ cs.map (·.bookmark) ↔ n ∈ r.document.names ∧ IsCommandName n) ∧
      Command.InOrder r.document cs ∧
      ∀ n ∈ r.document.names, ∀ c, Command.ofBookmark? n = some c → c.kind = .setJumpMark →
        ∃ first s t, Command.firstJumpMark? cs = some first ∧ r.document.span? first = some s ∧
          r.document.span? n = some t ∧ s.notAfter t = true := by
  have hfresh : Refreshed (Command.ofDocument d) d := .of_orderly (.nil hd hspaced hno)
  have hstart : Refreshed (Model.fresh d locations mustProcess).commands
      (Model.fresh d locations mustProcess).enter.startRun.document :=
    hfresh.sameParts ⟨rfl, rfl, rfl, rfl, rfl, rfl, rfl⟩
  obtain ⟨⟨fixpoint, cs, r⟩, hrun, hend⟩ := (hstart.expandFrom hs hloads 0 rounds).exists_ok
  exact ⟨fixpoint, cs, r, hrun, hend.bookmarks, hend.inOrder, fun n hn c hc hkind =>
    hend.firstJumpMark? hn hc hkind⟩

/-- A place for nested fragments with a jump mark behind it. -/
def markBehind : Document :=
  { Document.ofText "? !".toList with
    bookmarks := [⟨"DOC(CMD 'setJumpMark')", ⟨2, 3⟩⟩,
      ⟨"DOC(CMD 'insertFrag' FRAG_ID 'outer')", ⟨0, 1⟩⟩] }

theorem loadsSpaced_nestedFragments : nestedFragments.LoadsSpaced := by
  intro l content hload
  refine ⟨wellFormed_nestedFragments l content hload, ?_⟩
  unfold nestedFragments at hload
  dsimp only at hload
  split at hload
  · obtain rfl := Except.ok.inj hload
    exact List.pairwise_singleton _ _
  · obtain rfl := Except.ok.inj hload
    exact .nil

theorem loadsNoOverrides_nestedFragments : nestedFragments.LoadsNoOverrides := by
  intro l content hload
  unfold nestedFragments at hload
  dsimp only at hload
  split at hload <;> obtain rfl := Except.ok.inj hload <;> cbv

theorem length_expandFrom_markBehind :
    (expandFrom nestedFragments 0 1 (Model.fresh markBehind [] false).commands
      (Model.fresh markBehind [] false).enter.startRun).map (·.2.1.length) = .ok 3 := by
  cbv

/-- After a round the inner place is listed, too. -/
theorem inOrder_expandFrom_markBehind :
    ∃ fixpoint cs r, expandFrom nestedFragments 0 1 (Model.fresh markBehind [] false).commands
        (Model.fresh markBehind [] false).enter.startRun = .ok (fixpoint, cs, r) ∧
      Command.InOrder r.document cs ∧ cs.length = 3 := by
  have hwell : markBehind.WellFormed := ⟨by decide, by decide, by decide, by decide, by decide⟩
  have hspaced : markBehind.CommandsSpaced :=
    List.pairwise_pair.2 fun _ _ => .inr (by decide)
  obtain ⟨fixpoint, cs, r, hrun, -, hord, -⟩ := inOrder_expandFrom loadsSpaced_nestedFragments
    loadsNoOverrides_nestedFragments ⟨hwell, by decide, by decide⟩ hspaced (by decide +kernel) [] false 1
  have hlength := length_expandFrom_markBehind
  rw [hrun] at hlength
  exact ⟨fixpoint, cs, r, hrun, hord, Except.ok.inj hlength⟩

/-! ### How the order is lost -/

/-- Whether a run ends with a list that is not in document order. -/
def LosesOrder (s : Services) (d : Document) : Prop :=
  ∃ o, (Model.fresh d [] false).executeTemplate s = .ok o ∧
    ¬ Command.InOrder o.model.document o.model.commands

/-- Where the commands of the list are at the end of a run. -/
def rangesAfter (s : Services) (d : Document) : Except Fault (List (Option TextRange)) :=
  ((Model.fresh d [] false).executeTemplate s).map fun o =>
    o.model.commands.map fun c => c.range? o.model.document

theorem losesOrder_of_rangesAfter {s : Services} {d : Document} {ranges : List (Option TextRange)}
    (hranges : rangesAfter s d = .ok ranges)
    (hbad : ¬ ranges.Pairwise fun earlier later =>
      (TextRange.relation? later earlier).precedes = false) : LosesOrder s d := by
  unfold rangesAfter at hranges
  cases ho : (Model.fresh d [] false).executeTemplate s with
  | error f =>
    rw [ho] at hranges
    cases hranges
  | ok o =>
    rw [ho] at hranges
    obtain rfl := Except.ok.inj hranges
    exact ⟨o, ho, fun hord => hbad (List.pairwise_map.2 hord)⟩

/-- Whether of any two bookmarks that do not lie apart one is inside the other. -/
def DisjointOrNested (d : Document) : Prop :=
  d.bookmarks.Pairwise fun b c =>
    b.span.Apart c.span ∨ b.span.within c.span = true ∨ c.span.within b.span = true

instance (d : Document) : Decidable (DisjointOrNested d) :=
  inferInstanceAs (Decidable (List.Pairwise _ _))

/-- A jump mark with a place for a value at its start. -/
def pushedBack : Document :=
  { Document.ofText "ab".toList with
    bookmarks := [⟨"DOC(CMD 'setJumpMark')", ⟨0, 2⟩⟩,
      ⟨"DOC(CMD 'insertValue' DB_SPALTE 'x')", ⟨0, 0⟩⟩] }

theorem rangesAfter_pushedBack :
    rangesAfter echo pushedBack = .ok [some (.ofSpan ⟨1, 3⟩), some (.ofSpan ⟨0, 1⟩)] := by
  cbv

/-- A value that touches the start of a jump mark pushes the jump mark back, although it was inside. -/
theorem not_inOrder_pushedBack :
    pushedBack.WellFormed ∧ DisjointOrNested pushedBack ∧
    (∀ l content, echo.load l = .ok content → content.WellFormed ∧ DisjointOrNested content) ∧
    LosesOrder echo pushedBack := by
  refine ⟨⟨by decide, by decide, by decide, by decide, by decide⟩, by decide, fun l content hload => ?_,
    losesOrder_of_rangesAfter rangesAfter_pushedBack (by decide)⟩
  obtain rfl := Except.ok.inj hload
  exact ⟨wellFormed_ofText _, List.Pairwise.nil⟩

/-- A provider whose fragments all have the same content. -/
def bringing (content : Document) : Services := { echo with load := fun _ => .ok content }

theorem loadsSpaced_bringing {content : Document} (hcontent : content.WellFormed)
    (hspaced : content.CommandsSpaced) : (bringing content).LoadsSpaced := by
  intro l content' hload
  obtain rfl := Except.ok.inj hload
  exact ⟨hcontent, hspaced⟩

/-- A jump mark and a value inside the place of a fragment. -/
def coveredOver : Document :=
  { Document.ofText "abcdefg".toList with
    bookmarks := [⟨"DOC(CMD 'insertFrag' FRAG_ID 'f')", ⟨0, 7⟩⟩,
      ⟨"DOC(CMD 'setJumpMark')", ⟨1, 2⟩⟩,
      ⟨"DOC(CMD 'insertValue' DB_SPALTE 'x')", ⟨4, 5⟩⟩] }

/-- The same two the other way round. -/
def exchanged : Document :=
  { Document.ofText "uvwxyz".toList with
    bookmarks := [⟨"DOC(CMD 'insertValue' DB_SPALTE 'x')", ⟨1, 2⟩⟩,
      ⟨"DOC(CMD 'setJumpMark')", ⟨4, 5⟩⟩] }

theorem rangesAfter_coveredOver :
    rangesAfter (bringing exchanged) coveredOver =
      .ok [some (.ofSpan ⟨4, 5⟩), some (.ofSpan ⟨1, 2⟩)] := by
  cbv

/-- Commands that a fragment covers are lost.  Where it brings the same names in another order, the list
has them in the order of those lost. -/
theorem not_inOrder_coveredOver :
    (coveredOver.bookmarks.Pairwise fun b c => b.span.Ahead c.span ∨ c.span.Ahead b.span) ∧
    coveredOver.overridesNothing = true ∧ (bringing exchanged).LoadsSpaced ∧
    LosesOrder (bringing exchanged) coveredOver := by
  refine ⟨by decide, by decide +kernel, loadsSpaced_bringing ?_ ?_,
    losesOrder_of_rangesAfter rangesAfter_coveredOver (by decide)⟩
  · exact ⟨by decide, by decide, by decide, by decide, by decide⟩
  · exact List.pairwise_pair.2 fun _ _ => .inl (by decide)

/-- An override and a jump mark in front of a fragment. -/
def overridingFirst : Document :=
  { Document.ofText "abcdefg".toList with
    bookmarks := [⟨"DOC(CMD 'overrideFrag' FRAG_ID 'a' NEW_FRAG_ID 'b')", ⟨0, 1⟩⟩,
      ⟨"DOC(CMD 'setJumpMark')", ⟨2, 3⟩⟩, ⟨"DOC(CMD 'insertFrag' FRAG_ID 'f')", ⟨4, 5⟩⟩] }

/-- The same override. -/
def overridingSo : Document :=
  { Document.ofText "uvwxyz".toList with
    bookmarks := [⟨"DOC(CMD 'overrideFrag' FRAG_ID 'a' NEW_FRAG_ID 'b')", ⟨1, 2⟩⟩] }

theorem rangesAfter_overridingFirst :
    rangesAfter (bringing overridingSo) overridingFirst =
      .ok [some (.ofSpan ⟨5, 6⟩), some (.ofSpan ⟨2, 3⟩)] := by
  cbv

/-- An override is gone when it is done.  Where a fragment brings it in again, the list has it where the
first one was. -/
theorem not_inOrder_overridingFirst :
    overridingFirst.CommandsSpaced ∧ (bringing overridingSo).LoadsSpaced ∧
    LosesOrder (bringing overridingSo) overridingFirst := by
  refine ⟨?_, loadsSpaced_bringing ?_ (List.pairwise_singleton _ _),
    losesOrder_of_rangesAfter rangesAfter_overridingFirst (by decide)⟩
  · have hspans : overridingFirst.bookmarks.Pairwise fun b c => b.span.stop < c.span.start := by decide
    exact hspans.imp fun h _ _ => .inl h
  · exact ⟨by decide, by decide, by decide, by decide, by decide⟩

end TemplateEngine
