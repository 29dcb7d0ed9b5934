import TemplateEngine.Proofs.Declarations
import TemplateEngine.Proofs.Faults

/-!
# Reopening — whether a document that is no template stays one

A document is executed or not by its type, which its metadata keeps or its commands declare, and by
whether it was opened from a location.  A scan takes the commands that declare a type away but writes no
metadata, so of the type that decided against an execution there can be nothing left when the document is
opened again.

* `process_reopened`: a document that was not executed is not executed when it is opened again exactly if
  it has a location or its metadata keeps its type.
* `processTwice_declaredTemplate`: a document of which neither holds, and whose text changes.
-/

namespace TemplateEngine

/-! ### Runs that do not execute -/

section Idle

variable {m m' : Model} {s : Services}

/-- A run that executes nothing ends with the scanned model. -/
theorem process_of_idle (hscan : m.scanSettings = .ok m')
    (hidle : (m'.isTemplate || m'.mustProcess) = false) :
    m.process s = .ok ⟨m'.conclude, [], .ok ⟨none, m'.settings.isFormDocument⟩⟩ := by
  simp only [Model.process, hscan, bind, Except.bind, hidle]
  rfl

/-- A run that executes the template says so, if it succeeds. -/
theorem fixpoint_process (hscan : m.scanSettings = .ok m')
    (hexecutes : (m'.isTemplate || m'.mustProcess) = true) :
    Ends (fun _ => True) (m.process s) fun o =>
      ∀ report, o.result = .ok report → report.fixpoint.isSome = true := by
  unfold Model.process
  rw [hscan]
  refine Ends.bind ?_
  simp only [Ends.ok_iff, hexecutes, if_true]
  refine Ends.afterAny fun executed => ?_
  split
  · rintro report ⟨⟩
  next fixpoint _ =>
    refine Ends.afterAny fun m'' => ?_
    rintro report ⟨⟩
    rfl

/-- Whether a run succeeds and leaves the commands alone, ending with a model. -/
def EndsIdle (x : Except Fault (Outcome Report)) (m : Model) : Prop :=
  ∃ o report, x = .ok o ∧ o.result = .ok report ∧ report.fixpoint = none ∧ o.model = m

/-- The settings that a scan finds decide whether the commands are left alone. -/
theorem endsIdle_process_iff (hm : m.mustProcess = false) {m'' : Model} :
    EndsIdle (m.process s) m'' ↔
      ∃ m', m.scanSettings = .ok m' ∧ m.Scanned m' ∧ m'.isTemplate = false ∧ m'' = m'.conclude := by
  obtain ⟨m', hscan, hm'⟩ := (scanned_scanSettings m).exists_ok
  have hmust : m'.mustProcess = false := hm'.mustProcess.trans hm
  constructor
  · rintro ⟨o, report, hrun, hok, hnone, rfl⟩
    have hidle : (m'.isTemplate || m'.mustProcess) = false := by
      by_contra hexecutes
      have := (fixpoint_process hscan (Bool.eq_true_of_not_eq_false hexecutes)).of_eq_ok hrun report hok
      simp [hnone] at this
    rw [process_of_idle hscan hidle] at hrun
    obtain rfl := Except.ok.inj hrun
    exact ⟨m', hscan, hm', by simpa [hmust] using hidle, rfl⟩
  · rintro ⟨m₁, hscan₁, -, hidle, rfl⟩
    obtain rfl := Except.ok.inj (hscan.symm.trans hscan₁)
    exact ⟨_, _, process_of_idle hscan (by simp [hidle, hmust]), rfl, rfl, rfl⟩

end Idle

/-! ### Types that are declared again -/

section Types

variable {d : Document} {m m' : Model}

/-- Of the commands that declare a type a scan leaves only those of templates that were opened from a
location to be edited. -/
theorem declaredType?_scanned (h : m.Scanned m') (hm : m.commands = Command.ofDocument m.document) :
    Command.declaredType? (Command.ofDocument m'.document) = none ∨
      m.document.hasLocation = true ∧
        Command.declaredType? (Command.ofDocument m'.document) = some .templateTemplate := by
  cases ht : Command.declaredType? (Command.ofDocument m'.document) with
  | none => exact .inl rfl
  | some t =>
    right
    obtain ⟨c, hc, hct⟩ := List.exists_of_findSome?_eq_some ht
    have hstays := h.isConsumed_of_mem_ofDocument hm hc
    split at hct
    next hpending =>
      cases hkind : c.kind <;> simp_all [CommandKind.declaredType?, Command.isConsumed,
        CommandKind.isConsumed]
    · cases hct

theorem isTemplate_eq_false_iff {settings : Settings} {hasLocation : Bool} :
    settings.isTemplate hasLocation = false ↔ settings.type? = some .templateTemplate ∨
      settings.type? = some .formDocument ∨ settings.type? = none ∧ hasLocation = true := by
  unfold Settings.isTemplate
  cases settings.type? with
  | none => simp
  | some t => cases t <;> simp

/-- Settings that decide against an execution do so again with the commands that are left exactly if the
document has a location or keeps its type. -/
theorem isTemplate_again_iff {settings settings' : Settings} {hasLocation : Bool}
    {kept declared left : Option DocumentType} (ht : settings.type? = kept.or declared)
    (ht' : settings'.type? = kept.or left)
    (hleft : left = none ∨ hasLocation = true ∧ left = some .templateTemplate)
    (hidle : settings.isTemplate hasLocation = false) :
    settings'.isTemplate hasLocation = false ↔ hasLocation = true ∨ kept.isSome = true := by
  rw [isTemplate_eq_false_iff] at hidle ⊢
  rw [ht] at hidle
  rw [ht']
  cases kept with
  | some t => simpa using hidle
  | none =>
    rcases hleft with rfl | ⟨hlocation, rfl⟩
    · simp
    · simp [hlocation]

theorem type?_ofDocument_congr {d' : Document}
    (h : d'.persistentData? documentTypeKey = d.persistentData? documentTypeKey) :
    (Settings.ofDocument d').type? = (Settings.ofDocument d).type? :=
  congrArg (·.bind DocumentType.ofName?) h

/-- The types that decide about a document with nothing known about it. -/
theorem Model.Scanned.type?_fresh {locations : List String} {mustProcess : Bool}
    (h : (Model.fresh d locations mustProcess).Scanned m') :
    m'.settings.type? =
      (Settings.ofDocument d).type?.or (Command.declaredType? (Command.ofDocument d)) :=
  h.heeds.type?

/-- Whether a document with nothing known about it is executed once it was scanned as another one. -/
theorem isTemplate_rescanned_iff {locations again : List String} {mustProcess : Bool}
    (h : (Model.fresh d locations mustProcess).Scanned m)
    (h' : (Model.fresh m.document again mustProcess).Scanned m') (hidle : m.isTemplate = false) :
    m'.isTemplate = false ↔ d.hasLocation = true ∨ (Settings.ofDocument d).type?.isSome = true := by
  have hlocation : m.document.hasLocation = d.hasLocation := h.hasLocation
  have hlocation' : m'.document.hasLocation = d.hasLocation := h'.hasLocation.trans hlocation
  have htype' := h'.type?_fresh
  rw [type?_ofDocument_congr h.heeds.keptType] at htype'
  unfold Model.isTemplate at hidle ⊢
  rw [hlocation] at hidle
  rw [hlocation']
  exact isTemplate_again_iff h.type?_fresh htype' (declaredType?_scanned h rfl) hidle

end Types

/-- A document that was not executed is not executed when it is opened again, and its text stays, exactly
if it was opened from a location or its metadata keeps its type. -/
theorem process_reopened {d : Document} {s : Services} {locations : List String} {o : Outcome Report}
    {report : Report} (hrun : (Model.fresh d locations false).process s = .ok o)
    (hok : o.result = .ok report) (hidle : report.fixpoint = none) (again : List String) :
    (∃ o' report', (Model.fresh o.model.document again false).process s = .ok o' ∧
      o'.result = .ok report' ∧ report'.fixpoint = none ∧
      o'.model.document.text = o.model.document.text) ↔
    d.hasLocation = true ∨ (Settings.ofDocument d).type?.isSome = true := by
  have hfirst : EndsIdle ((Model.fresh d locations false).process s) o.model :=
    ⟨o, report, hrun, hok, hidle, rfl⟩
  obtain ⟨m, -, hm, htemplate, hmodel⟩ := (endsIdle_process_iff rfl).1 hfirst
  have hdocument : o.model.document = m.document := by rw [hmodel, document_conclude]
  obtain ⟨m', hscan', hm'⟩ := (scanned_scanSettings (Model.fresh m.document again false)).exists_ok
  rw [hdocument, ← isTemplate_rescanned_iff hm hm' htemplate]
  constructor
  · rintro ⟨o', report', hrun', hok', hidle', -⟩
    have hagain : EndsIdle ((Model.fresh m.document again false).process s) o'.model :=
      ⟨o', report', hrun', hok', hidle', rfl⟩
    obtain ⟨m'', hscan'', -, htemplate', -⟩ := (endsIdle_process_iff rfl).1 hagain
    obtain rfl := Except.ok.inj (hscan'.symm.trans hscan'')
    exact htemplate'
  · intro htemplate'
    obtain ⟨o', report', hrun', hok', hidle', ho'⟩ :=
      (endsIdle_process_iff (s := s) rfl).2 ⟨m', hscan', hm', htemplate', rfl⟩
    refine ⟨o', report', hrun', hok', hidle', ?_⟩
    rw [ho', document_conclude]
    exact hm'.heeds.parts.text

/-- A letter of a type that its metadata keeps. -/
def keptForm : Document :=
  (Document.ofText "Dear ?".toList |>.addBookmark "DOC(CMD 'insertValue' DB_SPALTE 'Name')" ⟨5, 6⟩).1
    |>.setPersistentData documentTypeKey "formDocument"

/-- A run that succeeds and executes nothing. -/
def leavesAlone : Except Fault (Outcome Report) → Bool
  | .ok ⟨_, _, .ok report⟩ => report.fixpoint.isNone
  | _ => false

theorem exists_of_leavesAlone {x : Except Fault (Outcome Report)} (h : leavesAlone x = true) :
    ∃ o report, x = .ok o ∧ o.result = .ok report ∧ report.fixpoint = none := by
  match x, h with
  | .ok ⟨m, ms, .ok report⟩, h => exact ⟨_, report, rfl, rfl, Option.isNone_iff_eq_none.1 h⟩

theorem process_reopened_keptForm :
    ∃ o o' report', (Model.fresh keptForm [] false).process closingOnly = .ok o ∧
      (Model.fresh o.model.document [] false).process closingOnly = .ok o' ∧
      o'.result = .ok report' ∧ report'.fixpoint = none ∧
      o'.model.document.text = o.model.document.text := by
  obtain ⟨o, report, hrun, hok, hidle⟩ := exists_of_leavesAlone
    (x := (Model.fresh keptForm [] false).process closingOnly) (by cbv)
  obtain ⟨o', report', hagain⟩ := (process_reopened hrun hok hidle []).2 (.inr (by cbv))
  exact ⟨o, o', report', hrun, hagain⟩

/-! ### A type that is lost -/

/-- How processing a document ends that is opened afresh each time: whether and how the template was
executed, and the text. -/
def processTwice (s : Services) (d : Document) :
    Except Fault (List (Except ProcessError (Option Fixpoint) × String)) := do
  let o ← (Model.fresh d [] false).process s
  let o' ← (Model.fresh o.model.document [] false).process s
  return [o, o'].map fun o => (o.result.map (·.fixpoint), String.ofList o.model.document.text)

/-- A letter of a type that only a command declares. -/
def declaredTemplate : Document :=
  { Document.ofText "Dear ?".toList with
    bookmarks :=
      [⟨"DOC(CMD 'setType' TYPE 'templateTemplate')", ⟨0, 0⟩⟩,
       ⟨"DOC(CMD 'insertValue' DB_SPALTE 'Name')", ⟨5, 6⟩⟩] }

theorem processTwice_declaredTemplate :
    processTwice closingOnly declaredTemplate =
      .ok [(.ok none, "Dear ?"), (.ok (some (.converged 1)), "Dear Name")] := by
  cbv

end TemplateEngine
