import TemplateEngine.Proofs.KeptTexts
import TemplateEngine.Proofs.Sightings

/-!
# Collisions — every mark is removed once

Two deletions collide where they would reach for the same bytes or the same paragraph.  Those for different marks
do not: a mark that goes with its paragraph is alone there, so the paragraph holds no other mark
(`Cleaner.Sits.not_collides`).  Together they delete marks and line breaks only.  In debug mode the bookmarks stay
and are renamed, which puts no mark in the place of another one as long as no bookmark is missing
(`cleansOnce_collect`).
-/

namespace TemplateEngine

open Document

variable {s : Services} {cs : List Command} {d : Document}

/-! ### Two deletions -/

namespace Cleaner

/-- Whether two deletions overlap, are for the same paragraph, or one is inside the paragraph of the other. -/
def Collides (t : Text) : Cleaner → Cleaner → Prop
  | .range r, .range r' => r.start < r'.stop ∧ r'.start < r.stop
  | .paragraph r, .paragraph r' => t.paragraphAround? r.start = t.paragraphAround? r'.start
  | .range r, .paragraph r' | .paragraph r', .range r =>
    ∃ start stop, t.paragraphAround? r'.start = some (start, stop) ∧ start ≤ r.start ∧ r.stop ≤ stop

/-- The paragraph that goes is all of the stretch but the line break. -/
theorem Sits.paragraphAround? {t : Text} {r : TextRange} (h : (Cleaner.paragraph r).Sits t) :
    t.paragraphAround? r.start =
      some ((Cleaner.paragraph r).stretch.start, (Cleaner.paragraph r).stretch.start + 1) := by
  cases h with
  | paragraph ht hx hne hstart =>
    rw [ht]
    exact Text.paragraphAround?_alone hx hne hstart

/-- Where the stretches of a range and of a paragraph are disjoint, the range is outside the paragraph. -/
theorem Sits.range_outside {t : Text} {r r' : TextRange} (h : (Cleaner.range r).Sits t)
    (h' : (Cleaner.paragraph r').Sits t)
    (hdisjoint : r.stop ≤ (Cleaner.paragraph r').stretch.start ∨
      (Cleaner.paragraph r').stretch.stop ≤ r.start) :
    ¬ Collides t (.range r) (.paragraph r') := by
  rintro ⟨start, stop, hplace, hstart, hstop⟩
  obtain ⟨rfl, rfl⟩ := Prod.mk.inj (Option.some.inj (h'.paragraphAround?.symm.trans hplace))
  have hone : r.start < r.stop := h.target_start.2
  have htwo := h'.target_start
  rcases hdisjoint with hbefore | hbehind <;> omega

/-- Deletions of disjoint stretches do not collide. -/
theorem Sits.not_collides {t : Text} {c c' : Cleaner} (h : c.Sits t) (h' : c'.Sits t)
    (hdisjoint : c.stretch.stop ≤ c'.stretch.start ∨ c'.stretch.stop ≤ c.stretch.start) :
    ¬ c.Collides t c' := by
  match c, c', h, h', hdisjoint with
  | .range r, .range r', _, _, hdisjoint =>
    rintro ⟨hbefore, hbehind⟩
    have : r.stop ≤ r'.start ∨ r'.stop ≤ r.start := hdisjoint
    omega
  | .range _, .paragraph _, h, h', hdisjoint => exact h.range_outside h' hdisjoint
  | .paragraph _, .range _, h, h', hdisjoint => exact h'.range_outside h hdisjoint.symm
  | .paragraph r, .paragraph r', h, h', hdisjoint =>
    intro (hsame : t.paragraphAround? r.start = t.paragraphAround? r'.start)
    rw [h.paragraphAround?, h'.paragraphAround?] at hsame
    have hstart := congrArg Prod.fst (Option.some.inj hsame)
    have hpos := h.target_start.2
    have hpos' := h'.target_start.2
    dsimp only at hstart
    omega

end Cleaner

/-! ### All deletions -/

/-- Whether some deletions remove the marks of commands, each of them once, and nothing else but line breaks. -/
structure CleansOnce (d : Document) (cs : List Command) (found : List Cleaner) : Prop where
  apart : found.Pairwise fun c c' => ¬ c.Collides d.text c'
  deletes : ∀ q, deletedBy found q = true →
    q ∈ cs.flatMap (·.markBytes d) ∨ d.text.charAt? q = some '\n'

/-- What is found for marks that are held. -/
theorem Collected.cleansOnce {found : List Cleaner} (h : Collected d cs found) (hmarks : MarksHeld d cs) :
    CleansOnce d cs found where
  apart := by
    refine (h.pairwise hmarks.apart).imp_of_mem fun hc hc' hdisjoint => ?_
    exact (h.sits rfl _ hc).not_collides (h.sits rfl _ hc') hdisjoint
  deletes q hq := by
    obtain ⟨c, hc, hqc⟩ := List.mem_flatMap.1 ((h.bytes q).1 hq)
    obtain ⟨r, hr, hmark | ⟨-, hbreak⟩⟩ := Command.exists_of_mem_garbage hqc
    · exact .inl (List.mem_flatMap.2 ⟨c, hc, mem_markBytes.2 ⟨r, hr, hmark⟩⟩)
    · exact .inr hbreak

/-! ### Runs -/

/-- Whether, when the marks are removed, each command has its own ones where they were put, and its bookmark if
bookmarks are kept. -/
def Model.HoldsPlaces (m : Model) (s : Services) : Prop :=
  Ends (fun _ => True) (m.runUntilCleanup s) fun p => MarksHeld p.2.2.document p.2.1 ∧
    ∀ c ∈ p.2.1, c.FoundIfKept s.policy p.2.2.document

/-- So it is where commands are apart and, if bookmarks are kept, no computed field has a value. -/
theorem holdsPlaces_of_commandsApart (hs : s.LoadsApart) (hd : d.Consistent) (hapart : d.CommandsApart)
    (hvalues : s.policy.debug = true → d.values = .empty) (locations : List String) (mustProcess : Bool) :
    (Model.fresh d locations mustProcess).HoldsPlaces s := by
  cases hdebug : s.policy.debug with
  | false =>
    have hrun := tracked_runUntilCleanup hs (expanding_fresh hd hapart locations mustProcess)
    refine (hrun.allow fun _ => False.elim).mono fun p hp => ⟨hp.marksHeld, fun _ _ hkept => ?_⟩
    rw [hdebug] at hkept
    cases hkept
  | true =>
    -- with a text to stay no command is lost
    have hexpanding := expanding_ofDocument hd hapart (framed_pinned hd.toWellFormed []).concat
      (.inr (hvalues hdebug))
    have hrun := tracked_runUntilCleanup (m := Model.fresh d locations mustProcess) hs hexpanding
    refine (hrun.allow fun _ => False.elim).mono fun p hp => ⟨hp.marksHeld, fun c hc _ hk => ?_⟩
    exact hp.found (by decide) c hc hk

/-- **Every mark is removed once.**  In either mode, no two deletions that are found for the marks of a run
collide, and they are all made and delete marks and line breaks only, if each command has its own marks by then and, in
debug mode, its bookmark.  So it has where the commands of the document and those of each content are apart, in
debug mode if no computed field has a value: one that has can swallow a command whose name another one gets then. -/
theorem cleansOnce_collect (hs : s.LoadsWellFormed) (hd : d.WellFormed) (locations : List String)
    (mustProcess : Bool) :
    ((Model.fresh d locations mustProcess).HoldsPlaces s →
      Ends (fun _ => False) ((Model.fresh d locations mustProcess).runUntilCleanup s) fun p =>
        Ends Fault.IsSplit (collect s.policy p.2.1 p.2.2.document) fun q =>
          CleansOnce p.2.2.document p.2.1 q.2.2 ∧ ∃ d', sweep q.2.1 q.2.2 = .ok d' ∧
            d'.text = Text.dropAt (deletedBy q.2.2) 0 p.2.2.document.text) ∧
    (s.LoadsApart → d.Consistent → d.CommandsApart → (s.policy.debug = true → d.values = .empty) →
      (Model.fresh d locations mustProcess).HoldsPlaces s) := by
  refine ⟨fun hholds => ?_, fun hsapart hd hapart hvalues =>
    holdsPlaces_of_commandsApart hsapart hd hapart hvalues locations mustProcess⟩
  obtain ⟨p, hp, hwell⟩ := (keptByOperating_wellFormed.runUntilCleanup hs
    (m := Model.fresh d locations mustProcess) hd).exists_ok
  have hmarks : MarksHeld p.2.2.document p.2.1 ∧ ∀ c ∈ p.2.1, c.FoundIfKept s.policy p.2.2.document :=
    hholds.of_eq_ok hp
  rw [hp]
  refine (collect_spec hwell hmarks.2 hmarks.1.distinct hmarks.1.enclosed).mono ?_
  rintro ⟨cs, d₁, found⟩ ⟨hd₁, htext, hfound⟩
  obtain ⟨d', hsweep, -, htext'⟩ := sweep_spec hd₁ (hfound.sits htext) (hfound.pairwise hmarks.1.apart)
  exact ⟨hfound.cleansOnce hmarks.1, d', hsweep, htext ▸ htext'⟩

/-- In debug mode, the mark behind a line with its break goes with its paragraph, and the one before the line
goes alone. -/
theorem cleansOnce_collect_onOwnLine :
    (lineFragments.inMode true).LoadsWellFormed ∧ onOwnLine.WellFormed ∧
      (lineFragments.inMode true).policy.debug = true ∧
      (Ends (fun _ => False) ((Model.fresh onOwnLine [] false).runUntilCleanup (lineFragments.inMode true))
        fun p => Ends Fault.IsSplit (collect (lineFragments.inMode true).policy p.2.1 p.2.2.document) fun q =>
          CleansOnce p.2.2.document p.2.1 q.2.2 ∧ ∃ d', sweep q.2.1 q.2.2 = .ok d' ∧
            d'.text = Text.dropAt (deletedBy q.2.2) 0 p.2.2.document.text) ∧
      ((Model.fresh onOwnLine [] false).runUntilCleanup (lineFragments.inMode true) >>= fun p =>
        collect (lineFragments.inMode true).policy p.2.1 p.2.2.document).map (·.2.2) =
          .ok [.range (.ofSpan ⟨2, 3⟩), .paragraph (.ofSpan (.point 6))] := by
  have happart : (lineFragments.inMode true).LoadsApart := loadsApart_lineFragments
  have hwell : (lineFragments.inMode true).LoadsWellFormed := fun l content h => (happart l content h).1
  have hd := consistent_onOwnLine
  obtain ⟨hends, hholds⟩ := cleansOnce_collect hwell hd.toWellFormed [] false
  exact ⟨hwell, hd.toWellFormed, rfl,
    hends (hholds happart hd (List.pairwise_singleton _ _) fun _ => rfl), by cbv⟩

/-- The marks of the inner fragment are found again for the command that the value swallowed. -/
example : ((Model.fresh placeInField [] false).runUntilCleanup holder >>= fun p =>
    collect holder.policy p.2.1 p.2.2.document).map (fun q => q.2.2.map (·.stretch)) =
      .ok [⟨0, 1⟩, ⟨5, 6⟩, ⟨1, 2⟩, ⟨4, 5⟩, ⟨1, 2⟩, ⟨4, 5⟩] := by cbv

end TemplateEngine
