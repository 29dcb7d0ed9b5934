import TemplateEngine.Proofs.Failures
import TemplateEngine.Proofs.Sparing

/-!
# Shared — what a failed command leaves of what commands share

Commands share the settings, the overrides and what a document has beside its text.  A command that fails
leaves all that as it was if it has its bookmark (`Withdrawn`, `withdrawn_of_execution`).  Without one, text can
no longer be written, and two kinds of commands notice that late: a fragment asked for its styles has brought
them in by then, and a form has put the description into the metadata (`writtenAhead`).
-/

namespace TemplateEngine

open Document

/-- The ways in which a command that can fail is executed. -/
inductive Execution (s : Services) (c : Command) (r : Run) (p : Command × Run) : Prop where
  | override (h : executeOverride s.policy c r = .ok p)
  | insertion (jumpMark : Option String) (h : executeInsert s jumpMark c r = .ok p)
  | value (h : fillIn s c r = .ok p)

/-- The document with what a command writes beside the text before it looks for its bookmark. -/
def writtenAhead (s : Services) (c : Command) (r : Run) : Document :=
  match c.kind with
  | .insertFragment request =>
    match request.stylesOnly, loadFragment s request.id (r.overrides.get request.id) with
    | true, .ok content => r.document.importStyles content request.styles
    | _, _ => r.document
  | .form => (r.describeForm []).document
  | _ => r.document

/-- How a command that fails leaves what commands share. -/
structure Withdrawn (s : Services) (c : Command) (r r' : Run) : Prop where
  settings : r'.settings = r.settings
  overrides : r'.overrides = r.overrides
  found : c.bookmark ∈ r.document.names → SameAside r.document r'.document
  gone : c.bookmark ∉ r.document.names → SameAside (writtenAhead s c r) r'.document

namespace Withdrawn

variable {s : Services} {c : Command} {r r₁ r₂ : Run}

/-- A command that writes nothing ahead, or has not yet. -/
theorem of_unwritten (h : writtenAhead s c r = r.document) (hsettings : r₁.settings = r.settings)
    (hoverrides : r₁.overrides = r.overrides) (haside : SameAside r.document r₁.document) :
    Withdrawn s c r r₁ :=
  ⟨hsettings, hoverrides, fun _ => haside, fun _ => h ▸ haside⟩

/-- What follows touches nothing that is shared. -/
theorem trans (h : Withdrawn s c r r₁) (hsettings : r₂.settings = r₁.settings)
    (hoverrides : r₂.overrides = r₁.overrides) (haside : SameAside r₁.document r₂.document) :
    Withdrawn s c r r₂ where
  settings := hsettings.trans h.settings
  overrides := hoverrides.trans h.overrides
  found hfound := (h.found hfound).trans haside
  gone hgone := (h.gone hgone).trans haside

theorem fail (h : Withdrawn s c r r₁) (c' : Command) (reason : String) :
    Ends (fun _ => True) (r₁.fail c' reason) fun p => Withdrawn s c r p.2 :=
  Ends.andThen (aside_markFailure r₁.document c' reason) fun _ hd => h.trans rfl rfl hd

theorem failFragment (h : Withdrawn s c r r₁) (request : FragmentRequest) (id : String) (e : InsertionError)
    (c' : Command) :
    Ends (fun _ => True) (failFragment request id e c' r₁) fun p => Withdrawn s c r p.2 := by
  unfold TemplateEngine.failFragment
  split
  · exact h.trans rfl rfl (.refl _)
  · exact h.fail c' e.message

theorem finish {p : Command × Run} (h : Withdrawn s c r p.2) (remove : Bool) :
    Withdrawn s c r (p.2.finish p.1 remove).2 :=
  h.trans rfl rfl (aside_markDone p.1 p.2.document remove)

end Withdrawn

/-- How a step ends: it counts no failure, or its command leaves what commands share. -/
def Withdraws (s : Services) (c : Command) (r : Run) (p : Command × Run) : Prop :=
  p.2.failures = r.failures ∨ Withdrawn s c r p.2

section Steps

variable {s : Services} {c : Command} {r : Run}

/-- A text is refused for the one reason that the bookmark is not there. -/
theorem notMem_of_setText {d : Document} {t : Text} {e : Refusal} (h : c.setText d t = .ok (.error e)) :
    c.bookmark ∉ d.names := by
  unfold Command.setText setBookmarkText at h
  split at h
  next hnone => rwa [← isSome_bookmark?_iff, Option.not_isSome_iff_eq_none]
  next b _ =>
    cases hedit : d.edit b.span t (some (.bookmark c.bookmark)) with
    | error f =>
      rw [hedit] at h
      cases h
    | ok d' =>
      rw [hedit] at h
      cases h

theorem writtenAhead_of_fragment {request : FragmentRequest} (hkind : c.kind = .insertFragment request) :
    writtenAhead s c r =
      match request.stylesOnly, loadFragment s request.id (r.overrides.get request.id) with
      | true, .ok content => r.document.importStyles content request.styles
      | _, _ => r.document := by
  unfold writtenAhead
  rw [hkind]

theorem withdraws_executeOverride (policy : Policy) :
    Ends (fun _ => True) (executeOverride policy c r) (Withdraws s c r) := by
  unfold executeOverride
  split
  next id newId hkind =>
    split
    · exact .inl rfl
    · have hnothing : writtenAhead s c r = r.document := by rw [writtenAhead, hkind]
      have hstart : Withdrawn s c r r := .of_unwritten hnothing rfl rfl (.refl _)
      exact (hstart.fail c _).mono fun p hp => .inr hp
  · exact .inl rfl

/-- A loaded fragment is refused with its styles brought in if the bookmark is gone, or with nothing written
beside the text. -/
theorem withdraws_placeFragment {request : FragmentRequest} {content : Document}
    (hkind : c.kind = .insertFragment request)
    (hload : loadFragment s request.id (r.overrides.get request.id) = .ok content) :
    Ends (fun _ => True) (placeFragment request content c r) fun p =>
      p.2.1.failures = r.failures ∧ (p.2.2.isSome → Withdrawn s c r p.2.1) := by
  unfold placeFragment
  split
  next hstyles =>
    have hahead : writtenAhead s c r = r.document.importStyles content request.styles := by
      rw [writtenAhead_of_fragment hkind, hload, hstyles]
    dsimp only
    cases hset : c.setText (r.document.importStyles content request.styles) [] with
    | error f => trivial
    | ok a =>
      cases a with
      | ok d => exact ⟨rfl, fun h => by cases h⟩
      | error e =>
        have hgone : c.bookmark ∉ r.document.names :=
          notMem_of_setText (d := r.document.importStyles content request.styles) hset
        exact ⟨rfl, fun _ => ⟨rfl, rfl, fun h => absurd h hgone, fun _ => hahead ▸ .refl _⟩⟩
  next hstyles =>
    have hnothing : writtenAhead s c r = r.document := by
      rw [writtenAhead_of_fragment hkind, Bool.eq_false_iff.2 hstyles]
    exact Ends.andThen (aside_insertBetweenMarks c r.document content) fun p hp =>
      ⟨rfl, fun _ => .of_unwritten hnothing rfl rfl hp⟩

theorem withdraws_insertFragment (jumpMark : Option String) {request : FragmentRequest}
    (hkind : c.kind = .insertFragment request) :
    Ends (fun _ => True) (insertFragment s jumpMark request c r) (Withdraws s c r) := by
  unfold insertFragment
  dsimp only
  split
  · exact Ends.andThen (r.keeps_write c []) fun r' hr' => .inl hr'.failures
  split
  next e hload =>
    have hnothing : writtenAhead s c r = r.document := by
      rw [writtenAhead_of_fragment hkind, hload]
      cases request.stylesOnly <;> rfl
    have hstart : Withdrawn s c r r := .of_unwritten hnothing rfl rfl (.refl _)
    exact (hstart.failFragment request _ e c).mono fun p hp => .inr hp
  next content hload =>
    refine Ends.andThen (withdraws_placeFragment hkind hload) fun p hp => ?_
    obtain ⟨c', r', refusal⟩ := p
    cases refusal with
    | some refusal => exact ((hp.2 rfl).failFragment request _ _ c').mono fun p hp => .inr hp
    | none =>
      dsimp only
      split
      · exact .inl hp.1
      · refine Ends.andThen (keeps_fillPlaceholders s.policy jumpMark c' request.arguments r') fun r'' hr'' => ?_
        exact .inl (hr''.failures.trans hp.1)

theorem withdraws_insertContent (hkind : c.kind = .insertContent) :
    Ends (fun _ => True) (insertContent s c r) (Withdraws s c r) := by
  have hnothing : writtenAhead s c r = r.document := by rw [writtenAhead, hkind]
  unfold insertContent
  split
  · exact .inl rfl
  next location contents _ =>
    have hstart : Withdrawn s c r { r with contents } := .of_unwritten hnothing rfl rfl (.refl _)
    have hplace : Ends (fun _ => True) (placeContent s location c { r with contents }) (Withdraws s c r) := by
      unfold placeContent
      split
      · exact (hstart.fail c _).mono fun p hp => .inr hp
      next content _ =>
        refine Ends.andThen (aside_insertBetweenMarks c r.document content) fun p hp => ?_
        obtain ⟨c', d', refusal⟩ := p
        cases refusal with
        | none => exact .inl rfl
        | some e =>
          have hplaced : Withdrawn s c r { r with document := d', contents } := hstart.trans rfl rfl hp
          exact (hplaced.fail c' _).mono fun p hp => .inr hp
    exact Ends.andThen hplace fun p hp => hp.imp id fun h => h.finish false

theorem withdraws_executeInsert (jumpMark : Option String) :
    Ends (fun _ => True) (executeInsert s jumpMark c r) (Withdraws s c r) := by
  unfold executeInsert
  split
  next hkind => exact withdraws_insertFragment jumpMark hkind
  next hkind => exact withdraws_insertContent hkind
  · exact .inl rfl

/-- Without nodes a form description stays as it is, but it is kept in the document. -/
theorem settings_describeForm_nil (r : Run) : (r.describeForm []).settings = r.settings := by
  unfold Run.describeForm
  split
  · rfl
  · show r.settings.mergeForm [] = r.settings
    rw [Settings.mergeForm, FormDescription.merge, List.append_nil]

theorem parseNodes_nil : parseNodes [] = .ok [] := by cbv

theorem names_describeForm (r : Run) (nodes : List Node) :
    (r.describeForm nodes).document.names = r.document.names := by
  unfold Run.describeForm
  split <;> rfl

theorem withdraws_takeForm (hkind : c.kind = .form) (policy : Policy) :
    Ends (fun _ => True) (takeForm policy c r) (Withdraws s c r) := by
  have hahead : writtenAhead s c r = (r.describeForm []).document := by rw [writtenAhead, hkind]
  -- a command without a bookmark has no text, which is read as a form without nodes
  have hbody : c.bookmark ∉ r.document.names → commandBody r.document c = .ok [] := fun hgone => by
    have hnone : c.range? r.document = none := by
      rw [← isSome_bookmark?_iff, Option.not_isSome_iff_eq_none] at hgone
      rw [Command.range?, bookmarkRange?, hgone]
      rfl
    rw [commandBody, hnone]
  unfold takeForm
  cases hread : commandBody r.document c with
  | error f => trivial
  | ok body =>
    dsimp only [bind, Except.bind]
    cases hparse : parseNodes body with
    | error e =>
      have hfound : c.bookmark ∈ r.document.names := by
        by_contra hgone
        cases (hbody hgone).symm.trans hread
        cases parseNodes_nil.symm.trans hparse
      have hstart : Withdrawn s c r r := ⟨rfl, rfl, fun _ => .refl _, fun h => absurd hfound h⟩
      exact (hstart.fail c _).mono fun p hp => .inr hp
    | ok nodes =>
      dsimp only
      cases hset : c.setText (r.describeForm nodes).document [] with
      | error f => trivial
      | ok a =>
        cases a with
        | ok d =>
          refine .inl ?_
          show (r.describeForm nodes).failures = r.failures
          unfold Run.describeForm
          split <;> rfl
        | error e =>
          have hgone : c.bookmark ∉ r.document.names :=
            names_describeForm r nodes ▸ notMem_of_setText hset
          obtain rfl : nodes = [] := by
            cases (hbody hgone).symm.trans hread
            exact (Except.ok.inj (parseNodes_nil.symm.trans hparse)).symm
          have hoverrides : (r.describeForm []).overrides = r.overrides := by
            unfold Run.describeForm
            split <;> rfl
          have hdescribed : Withdrawn s c r (r.describeForm []) :=
            ⟨settings_describeForm_nil r, hoverrides, fun h => absurd h hgone, fun _ => hahead ▸ .refl _⟩
          exact (hdescribed.fail c _).mono fun p hp => .inr hp

theorem withdraws_fillIn : Ends (fun _ => True) (fillIn s c r) (Withdraws s c r) := by
  unfold fillIn
  split
  next hkind => exact withdraws_takeForm hkind s.policy
  next hkind =>
    have hstart : Withdrawn s c r r :=
      .of_unwritten (by rw [writtenAhead, hkind]) rfl rfl (.refl _)
    exact (hstart.fail c _).mono fun p hp => .inr hp
  next hkind =>
    have hstart : Withdrawn s c r r :=
      .of_unwritten (by rw [writtenAhead, hkind]) rfl rfl (.refl _)
    unfold insertValue
    split
    · exact (hstart.fail c _).mono fun p hp => .inr hp
    · exact Ends.andThen (r.keeps_write c _) fun r' hr' => .inl hr'.failures
  · exact .inl rfl

end Steps

/-- **A failed command withdraws.**  When a command ends as a counted failure, the settings, with the form
description, and the overrides are as they were, and so is everything beside the text if the command has its
bookmark.  If the bookmark is gone, nothing but what the command writes ahead is new. -/
theorem withdrawn_of_execution {s : Services} {c : Command} {r : Run} {p : Command × Run}
    (h : Execution s c r p) (hcount : p.2.failures = r.failures + 1) : Withdrawn s c r p.2 := by
  have hends : Withdraws s c r p := by
    cases h with
    | override h => exact (withdraws_executeOverride s.policy).of_eq_ok h
    | insertion jumpMark h => exact (withdraws_executeInsert jumpMark).of_eq_ok h
    | value h => exact withdraws_fillIn.of_eq_ok h
  refine hends.resolve_left fun hsame => ?_
  omega

/-- Surroundings with a text in a row and two fragments, one of them with a style. -/
def supplies : Services where
  locations := fun id => [id]
  load := fun l =>
    if l = "plain" then .ok (Document.ofText ['P'])
    else .ok { Document.ofText ['S'] with styles := ⟨.ofList ["Emphasis"], .empty, .empty⟩ }
  value := fun column => .ok column
  transform := fun name _ => .error (.unknown name)
  policy := ⟨true, false⟩

/-- A command that asks for the styles of a fragment. -/
def restyling : Command :=
  ⟨"restyle", .leaf "DOC", .insertFragment ⟨"styled", [], true, [.text]⟩, false, false, false⟩

theorem withdrawn_of_execution_restyling :
    ∃ p, Execution supplies restyling (Model.fresh (.ofText ['?']) [] false).startRun p ∧
      p.2.failures = (Model.fresh (.ofText ['?']) [] false).startRun.failures + 1 ∧
      Withdrawn supplies restyling (Model.fresh (.ofText ['?']) [] false).startRun p.2 := by
  have hcount : (executeInsert supplies none restyling (Model.fresh (.ofText ['?']) [] false).startRun).map
      (·.2.failures) = .ok 1 := by cbv
  cases hstep : executeInsert supplies none restyling (Model.fresh (.ofText ['?']) [] false).startRun with
  | error f =>
    rw [hstep] at hcount
    cases hcount
  | ok p =>
    rw [hstep] at hcount
    have hexecution : Execution supplies restyling _ p := .insertion none hstep
    exact ⟨p, hexecution, Except.ok.inj hcount, withdrawn_of_execution hexecution (Except.ok.inj hcount)⟩

/-- What is before and after the second of two commands when a step is made with one after the other: whether
the second one failed, how often commands had failed before and after it, and what `view` shows of the
documents. -/
def aroundSecond {α : Type} (step : Command → Run → Except Fault (Command × Run)) (d : Document)
    (view : Document → α) : Option (Bool × (Nat × Nat) × α × α) :=
  match Command.ofDocument d with
  | [first, second] =>
    match step first (Model.fresh d [] false).enter.startRun with
    | .error _ => none
    | .ok (_, r) =>
      match step second r with
      | .error _ => none
      | .ok (c, r') => some (c.failed, (r.failures, r'.failures), view r.document, view r'.document)
  | _ => none

/-- A command that asks for styles inside another insertion. -/
def restyledInside : Document :=
  { Document.ofText ['?', '?'] with
    bookmarks := [⟨"DOC(CMD 'insertFrag' FRAG_ID 'plain')", ⟨0, 2⟩⟩,
      ⟨"DOC(CMD 'insertFrag' FRAG_ID 'styled' STYLES('all'))", ⟨0, 1⟩⟩] }

/-- A form inside a place for a value. -/
def formInside : Document :=
  { Document.ofText ['?', '?'] with
    bookmarks := [⟨"DOC(CMD 'insertValue' DB_SPALTE 'X')", ⟨0, 2⟩⟩, ⟨"DOC(CMD 'form')", ⟨0, 1⟩⟩] }

/-- A command whose bookmark went with the text around it fails and is counted, yet styles or a form
description are new in the document. -/
theorem aroundSecond_inside :
    aroundSecond (executeInsert supplies none) restyledInside (·.styles.text.names) =
        some (true, (0, 1), [], ["Emphasis"]) ∧
      aroundSecond (fillIn supplies) formInside (·.persistentData? formDescriptionKey) =
        some (true, (0, 1), none, some "") :=
  ⟨by cbv, by cbv⟩

end TemplateEngine
