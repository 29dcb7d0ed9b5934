import TemplateEngine.Process.Pipeline
import TemplateEngine.Proofs.Edits
import TemplateEngine.Proofs.Inserters

/-!
# Parallel — two runs side by side

In debug mode a command that is done keeps its bookmark, under a name that says so.  Two runs of a phase,
one in each mode, go side by side (`Parallel`): their documents differ in the bookmarks of finished
commands only (`Document.Alike`).  A step looks at the bookmark of its own command, which is pending, and
else at text and fields, so the phases after expansion keep the runs alike (`parallel_visitPending`,
`parallel_updateFields`, `parallel_fillIn`).
-/

namespace TemplateEngine

/-! ### Two computations side by side -/

/-- Whether two computations end with results that `R` relates, or fail in the same way. -/
def Parallel {ε α β : Type} (R : α → β → Prop) : Except ε α → Except ε β → Prop
  | .ok a, .ok b => R a b
  | .error e, .error e' => e = e'
  | _, _ => False

namespace Parallel

variable {ε α β γ δ : Type} {R : α → β → Prop} {x : Except ε α} {y : Except ε β}

theorem mono {Q : α → β → Prop} (h : Parallel R x y) (hQ : ∀ a b, R a b → Q a b) : Parallel Q x y := by
  match x, y, h with
  | .ok a, .ok b, h => exact hQ a b h
  | .error _, .error _, h => exact h

theorem andThen {Q : γ → δ → Prop} {f : α → Except ε γ} {g : β → Except ε δ} (h : Parallel R x y)
    (hfg : ∀ a b, R a b → Parallel Q (f a) (g b)) : Parallel Q (x >>= f) (y >>= g) := by
  match x, y, h with
  | .ok a, .ok b, h => exact hfg a b h
  | .error _, .error _, h => exact h

theorem of_eq {R : α → α → Prop} {x y : Except ε α} (h : x = y) (hR : ∀ a, x = .ok a → R a a) :
    Parallel R x y := by
  subst h
  cases x with
  | ok a => exact hR a rfl
  | error e => exact rfl

theorem and {P : α → Prop} (h : Parallel R x y) (hP : ∀ a, x = .ok a → P a) :
    Parallel (fun a b => R a b ∧ P a) x y := by
  match x, y, h with
  | .ok a, .ok b, h => exact ⟨h, hP a rfl⟩
  | .error _, .error _, h => exact h

theorem of_map_eq {f : α → γ} {g : β → γ} (h : x.map f = y.map g) :
    Parallel (fun a b => f a = g b) x y := by
  match x, y, h with
  | .ok _, .ok _, h => exact Except.ok.inj h
  | .error _, .error _, h => exact Except.error.inj h

/-- Two folds over one list. -/
theorem foldlM {bs : List γ} {f : α → γ → Except ε α} {g : β → γ → Except ε β} {a : α} {b : β}
    (h : ∀ a b c, R a b → Parallel R (f a c) (g b c)) (hab : R a b) :
    Parallel R (bs.foldlM f a) (bs.foldlM g b) := by
  induction bs generalizing a b with
  | nil => exact hab
  | cons c bs ih =>
    rw [List.foldlM_cons, List.foldlM_cons]
    exact (h a b c hab).andThen fun _ _ => ih

end Parallel

/-! ### Documents -/

/-- Whether a name holds a command that is done or failed and inserts nothing. -/
def isFinishedName (n : String) : Bool :=
  (Command.ofBookmark? n).any fun c => !c.isPending && !c.kind.isInsertion

namespace Document

/-- The document without the bookmarks of finished commands. -/
def unfinished (d : Document) : Document :=
  { d with bookmarks := d.bookmarks.filter fun b => !isFinishedName b.name }

/-- The document without the bookmark of a name. -/
def less (d : Document) (name : String) : Document :=
  { d with bookmarks := d.bookmarks.filter fun b => b.name ≠ name }

theorem unfinished_less (d : Document) (name : String) :
    (d.less name).unfinished = d.unfinished.less name := by
  unfold less unfinished
  simp only [List.filter_filter, Bool.and_comm]

theorem less_of_notMem {d : Document} {name : String} (h : name ∉ d.names) : d.less name = d := by
  have hall : (d.bookmarks.filter fun b => b.name ≠ name) = d.bookmarks := List.filter_eq_self.2
    fun b hb => decide_eq_true fun heq => h (heq ▸ List.mem_map_of_mem hb)
  unfold less
  rw [hall]

/-- Whether two documents differ in the bookmarks of finished commands only. -/
structure Alike (d d' : Document) : Prop where
  unfinished : d.unfinished = d'.unfinished
  names : d.names.Nodup
  names' : d'.names.Nodup

theorem Alike.refl {d : Document} (hd : d.names.Nodup) : d.Alike d := ⟨rfl, hd, hd⟩

/-- Re-anchoring keeps the names. -/
theorem filter_filterMap_bookmark? (e : Replacement) (p : String → Bool) (bs : List Bookmark) :
    (bs.filterMap e.bookmark?).filter (fun b => p b.name) =
      (bs.filter fun b => p b.name).filterMap e.bookmark? := by
  induction bs with
  | nil => rfl
  | cons b bs ih =>
    rw [List.filterMap_cons, List.filter_cons]
    cases hb : e.bookmark? b with
    | none => cases hp : p b.name <;> simp [hb, ih]
    | some b' =>
      have hname := name_of_bookmark? hb
      cases hp : p b.name <;> simp [hb, hname, hp, ih]

namespace Alike

variable {d d' : Document}

theorem text (h : d.Alike d') : d.text = d'.text :=
  congrArg (·.text) h.unfinished

theorem fields (h : d.Alike d') : d.fields = d'.fields :=
  congrArg (·.fields) h.unfinished

theorem values (h : d.Alike d') : d.values = d'.values :=
  congrArg (·.values) h.unfinished

theorem bookmark? (h : d.Alike d') {n : String} (hn : isFinishedName n = false) :
    d.bookmark? n = d'.bookmark? n := by
  have hkept : ∀ d : Document, d.unfinished.bookmark? n = d.bookmark? n := fun d => by
    simp only [Document.unfinished, Document.bookmark?, List.find?_filter]
    congr 1
    funext b
    by_cases hb : b.name = n <;> simp [hb, hn]
  rw [← hkept d, ← hkept d', h.unfinished]

/-- A change that leaves the bookmarks alone. -/
theorem map (h : d.Alike d') (f : Document → Document) (hf : ∀ d, (f d).unfinished = f d.unfinished)
    (hnames : ∀ d, (f d).bookmarks = d.bookmarks) : (f d).Alike (f d') where
  unfinished := by rw [hf, hf, h.unfinished]
  names := by
    rw [Document.names, hnames]
    exact h.names
  names' := by
    rw [Document.names, hnames]
    exact h.names'

theorem replaced (h : d.Alike d') (e : Replacement) (text : Text) :
    (d.replaced e text).Alike (d'.replaced e text) where
  unfinished := by
    have hcomm : ∀ d : Document, (d.replaced e text).unfinished = d.unfinished.replaced e text := fun d =>
      congrArg (fun bs => { d.replaced e text with bookmarks := bs })
        (filter_filterMap_bookmark? e (fun n => !isFinishedName n) d.bookmarks)
    rw [hcomm, hcomm, h.unfinished]
  names := h.names.sublist (map_name_filterMap_sublist e _)
  names' := h.names'.sublist (map_name_filterMap_sublist e _)

theorem edit (h : d.Alike d') (s : Span) (new : Text) (owner : Option Owner) :
    Parallel Alike (d.edit s new owner) (d'.edit s new owner) := by
  unfold Document.edit
  rw [h.text]
  split
  · rfl
  · exact h.replaced _ _

theorem setBookmarkText (h : d.Alike d') {n : String} (hn : isFinishedName n = false) (t : Text) :
    Parallel (Parallel Alike) (d.setBookmarkText n t) (d'.setBookmarkText n t) := by
  unfold Document.setBookmarkText
  rw [h.bookmark? hn]
  split
  · rfl
  · exact (h.edit _ _ _).andThen fun _ _ hd => hd

theorem insertAnnotation (h : d.Alike d') (r : TextRange) (text : String) :
    Parallel Alike (d.insertAnnotation r text) (d'.insertAnnotation r text) := by
  have hcheck : d.check r = d'.check r := by
    unfold check covers Document.length
    rw [h.text]
  unfold Document.insertAnnotation
  rw [hcheck]
  refine (Parallel.of_eq (R := fun _ _ => True) rfl fun _ _ => trivial).andThen fun _ _ _ => ?_
  exact h.map (fun d => d.addAnnotation text r.toSpan) (fun _ => rfl) fun _ => rfl

theorem refreshOne (h : d.Alike d') (e : Element) : Parallel Alike (refreshOne d e) (refreshOne d' e) := by
  have hrefresh : Parallel (fun o o' => (o = o' ∧ ∀ x, o ≠ some (.ok x)) ∨
      ∃ x x', o = some (.ok x) ∧ o' = some (.ok x') ∧ x.Alike x') (d.refreshElement e)
      (d'.refreshElement e) := by
    cases e with
    | paragraph index => exact .inl ⟨rfl, fun _ => nofun⟩
    | field id =>
      have hfield : d.field? id = d'.field? id := by
        unfold Document.field?
        rw [h.fields]
      unfold Document.refreshElement
      dsimp only
      rw [hfield, h.values]
      split
      · exact .inl ⟨rfl, fun _ => nofun⟩
      split
      · exact .inl ⟨rfl, fun _ => nofun⟩
      split
      · exact .inl ⟨rfl, fun _ => nofun⟩
      · exact (h.edit _ _ _).andThen fun x x' hx => .inr ⟨x, x', rfl, rfl, hx⟩
  refine hrefresh.andThen fun o o' ho => ?_
  rcases ho with ⟨rfl, hno⟩ | ⟨x, x', rfl, rfl, hx⟩
  · match o, hno with
    | none, _ => exact h
    | some (.error _), _ => exact h
    | some (.ok x), hno => exact absurd rfl (hno x)
  · exact hx

theorem refreshWithChildren (h : d.Alike d') (e : Element) :
    Parallel Alike (refreshWithChildren d e) (refreshWithChildren d' e) := by
  have hchildren : d.childElements e = d'.childElements e := by
    unfold childElements paragraphs
    rw [h.text, h.fields]
  unfold TemplateEngine.refreshWithChildren
  rw [hchildren]
  exact (Parallel.foldlM (fun _ _ e' hd => hd.refreshOne e') h).andThen fun _ _ hd => hd.refreshOne e

end Alike

end Document

/-! ### Commands and runs -/

/-- Whether a command, as long as it is pending, is what the name of its bookmark says, and has no name of
a finished command if it inserts. -/
structure Command.IsAsNamed (c : Command) : Prop where
  pending : c.isPending = true → Command.ofBookmark? c.bookmark = some c
  inserts : c.kind.isInsertion = true → isFinishedName c.bookmark = false

/-- Whether a command is the same in both runs, or one that is done or failed and inserts nothing. -/
structure Command.Alike (c c' : Command) : Prop where
  named : c.IsAsNamed
  kind : c'.kind = c.kind
  pending : c'.isPending = c.isPending
  same : c.isPending = true ∨ c.kind.isInsertion = true → c' = c

/-- Whether two runs differ in the bookmarks of finished commands only. -/
structure Run.Alike (r r' : Run) : Prop where
  document : r.document.Alike r'.document
  rest : r' = { r with document := r'.document }

/-- Whether a command was executed alike in two runs. -/
def StepAlike (p q : Command × Run) : Prop := p.1.Alike q.1 ∧ p.2.Alike q.2

/-- The services in debug mode, or not. -/
def Services.inMode (s : Services) (debug : Bool) : Services :=
  { s with policy := { s.policy with debug } }

section Steps

variable {c : Command} {r r' : Run} {d d' : Document}

theorem Command.IsAsNamed.isFinishedName_eq (hc : c.IsAsNamed) (hpending : c.isPending = true) :
    isFinishedName c.bookmark = false := by
  simp [isFinishedName, hc.pending hpending, hpending]

theorem Command.IsNamed.isAsNamed (hc : c.IsNamed)
    (hpending : c.isPending = true → Command.ofBookmark? c.bookmark = some c) : c.IsAsNamed where
  pending := hpending
  inserts hkind := by
    obtain ⟨c₀, hc₀, hk⟩ := hc.name
    simp [isFinishedName, hc₀, hk, hkind]

theorem Command.Alike.refl (hc : c.IsAsNamed) : c.Alike c := ⟨hc, rfl, rfl, fun _ => rfl⟩

theorem Run.Alike.withDocument (h : r.Alike r') (hd : d.Alike d') :
    Run.Alike { r with document := d } { r' with document := d' } :=
  ⟨hd, by rw [h.rest]⟩

/-- Putting another name on a bookmark that is not shown any more, or taking it away, is the same. -/
theorem filter_renameFirst {p : String → Bool} {name new : String} (hnew : p new = false)
    {bs : List Bookmark} (hbs : (bs.map (·.name)).Nodup) :
    (Document.renameFirst name new bs).filter (fun b => p b.name) =
      (bs.filter fun b => b.name ≠ name).filter fun b => p b.name := by
  induction bs with
  | nil => rfl
  | cons b bs ih =>
    rw [List.map_cons, List.nodup_cons] at hbs
    unfold Document.renameFirst
    split
    next hb =>
      have hrest : (bs.filter fun b => b.name ≠ name) = bs := List.filter_eq_self.2 fun b' hb' =>
        decide_eq_true fun heq => hbs.1 (hb ▸ heq ▸ List.mem_map_of_mem hb')
      rw [List.filter_cons_of_neg (by simp [hnew]), List.filter_cons_of_neg (by simp [hb]), hrest]
    next hb =>
      have hkept : ((b :: bs).filter fun b => b.name ≠ name) = b :: bs.filter fun b => b.name ≠ name :=
        List.filter_cons_of_pos (decide_eq_true hb)
      rw [hkept, List.filter_cons, List.filter_cons, ih hbs.2]

/-- The name of a command that is done and inserts nothing. -/
theorem isFinishedName_recorded (hc : c.IsNamed) (hkind : c.kind.isInsertion = false) {name : String}
    (hname : Variant (toString (Command.recordState { c with done := true }).config) name) :
    isFinishedName name = true := by
  have hdone : Command.IsNamed { c with done := true } := hc.of_eq rfl rfl rfl
  have hinserts : (CommandKind.ofNode (Command.recordState { c with done := true }).config).isInsertion =
      false := by
    rw [hdone.recordState.config, Command.kind_recordState]
    exact hkind
  have hread := Command.ofBookmark?_recorded hdone.isCommand rfl hname
  simp [isFinishedName, hread, Command.ofNode, Command.isPending, hinserts,
    Command.stateFlag_recordState hdone.isCommand]

/-- Marking a command done, with or without its bookmark, shows the same of the document. -/
theorem unfinished_markDone (hd : d.names.Nodup) (hc : c.IsNamed) (hkind : c.kind.isInsertion = false)
    (remove : Bool) : (c.markDone d remove).2.unfinished = d.unfinished.less c.bookmark := by
  have hrecorded := Command.bookmark_recordState { c with done := true }
  by_cases hmem : c.bookmark ∈ d.names
  · have hfound := Document.isSome_bookmark?_iff.2 hmem
    cases remove with
    | true =>
      simp only [Command.markDone, if_true, Document.removeBookmark, if_pos hfound]
      exact Document.unfinished_less d c.bookmark
    | false =>
      simp only [Command.markDone, Bool.false_eq_true, if_false, hrecorded, Document.renameBookmark,
        if_pos hfound]
      have hhidden := congrArg (!·)
        (isFinishedName_recorded hc hkind (Document.variant_uniqueName d _ (some c.bookmark)))
      rw [← Document.unfinished_less]
      exact congrArg (fun bs => { d with bookmarks := bs })
        (filter_renameFirst (p := fun n => !isFinishedName n) hhidden hd)
  · -- there is no bookmark, so nothing happens
    have hmissing : ¬ (d.bookmark? c.bookmark).isSome = true := mt Document.isSome_bookmark?_iff.1 hmem
    rw [← Document.unfinished_less, Document.less_of_notMem hmem]
    cases remove with
    | true => simp only [Command.markDone, if_true, Document.removeBookmark, if_neg hmissing]
    | false =>
      simp only [Command.markDone, Bool.false_eq_true, if_false, hrecorded, Document.renameBookmark,
        if_neg hmissing]

/-- A command is finished in any two modes. -/
theorem Run.Alike.finish (h : r.Alike r') (hc : c.IsAsNamed) (hpending : c.isPending = true)
    (hkind : c.kind.isInsertion = false) (remove remove' : Bool) :
    StepAlike (r.finish c remove) (r'.finish c remove') := by
  have hnamed := Command.isNamed_of_ofBookmark? (hc.pending hpending)
  have hexec := Command.executed_markDone hnamed.isCommand h.document.names remove
  have hexec' := Command.executed_markDone hnamed.isCommand h.document.names' remove'
  have hidle : (c.markDone r.document remove).1.isPending = false := by
    simp [Command.isPending, done_markDone]
  have hidle' : (c.markDone r'.document remove').1.isPending = false := by
    simp [Command.isPending, done_markDone]
  have hnot : (r.finish c remove).1.isPending ≠ true := by
    rw [show (r.finish c remove).1.isPending = false from hidle]
    exact Bool.false_ne_true
  have hnothing : (r.finish c remove).1.kind.isInsertion ≠ true := by
    rw [show (r.finish c remove).1.kind = c.kind from hexec.kind, hkind]
    exact Bool.false_ne_true
  refine ⟨⟨⟨fun hp => absurd hp hnot, fun hk => absurd hk hnothing⟩, hexec'.kind.trans hexec.kind.symm,
    hidle'.trans hidle.symm, ?_⟩, ?_⟩
  · rintro (hp | hk)
    · exact absurd hp hnot
    · exact absurd hk hnothing
  · have hdocument : (c.markDone r.document remove).2.Alike (c.markDone r'.document remove').2 := by
      refine ⟨?_, hexec.distinct, hexec'.distinct⟩
      rw [unfinished_markDone h.document.names hnamed hkind,
        unfinished_markDone h.document.names' hnamed hkind, h.document.unfinished]
    exact h.withDocument hdocument

theorem parallel_setText (h : d.Alike d') (hc : c.IsAsNamed) (hpending : c.isPending = true) (t : Text) :
    Parallel (Parallel Document.Alike) (c.setText d t) (c.setText d' t) :=
  h.setBookmarkText (hc.isFinishedName_eq hpending) t

theorem range?_eq (h : d.Alike d') (hc : c.IsAsNamed) (hpending : c.isPending = true) :
    c.range? d = c.range? d' := by
  unfold Command.range? Document.bookmarkRange?
  rw [h.bookmark? (hc.isFinishedName_eq hpending)]

theorem parallel_markFailure (h : d.Alike d') (hc : c.IsAsNamed) (hpending : c.isPending = true)
    (reason : String) :
    Parallel Document.Alike (markFailure d c reason) (markFailure d' c reason) := by
  refine (parallel_setText h hc hpending failureText).andThen fun a b hab => ?_
  match a, b, hab with
  | .error _, .error _, _ => exact h
  | .ok d₁, .ok d₁', hd₁ =>
    dsimp only
    rw [range?_eq hd₁ hc hpending]
    split
    · exact hd₁
    next range _ =>
      match d₁.insertAnnotation range (failureNote c reason),
        d₁'.insertAnnotation range (failureNote c reason), hd₁.insertAnnotation range _ with
      | .error _, .error _, _ => exact hd₁
      | .ok _, .ok _, hd₂ => exact hd₂

theorem Run.Alike.fail (h : r.Alike r') (hc : c.IsAsNamed) (hpending : c.isPending = true)
    (reason : String) :
    Parallel StepAlike (r.fail c reason) (r'.fail c reason) := by
  refine (parallel_markFailure h.document hc hpending reason).andThen fun d d' hd => ?_
  have hidle : (c.setFailed true).isPending = false := by simp [Command.isPending, Command.setFailed]
  refine ⟨.refl ⟨fun hp => ?_, fun _ => hc.isFinishedName_eq hpending⟩, hd, ?_⟩
  · rw [hidle] at hp
    cases hp
  · rw [h.rest]
    rfl

theorem Run.Alike.write (h : r.Alike r') (hc : c.IsAsNamed) (hpending : c.isPending = true) (t : Text) :
    Parallel Run.Alike (r.write c t) (r'.write c t) := by
  refine (parallel_setText h.document hc hpending t).andThen fun a b hab => ?_
  match a, b, hab with
  | .error _, .error _, _ => exact h
  | .ok _, .ok _, hd => exact h.withDocument hd

/-! ### Phases -/

variable {s : Services}

theorem stepAlike_pass (h : r.Alike r') (hc : c.IsAsNamed) : StepAlike (c, r) (c, r') := ⟨.refl hc, h⟩

/-- Updating fields, in any two modes. -/
theorem parallel_updateFields (h : r.Alike r') (hc : c.IsAsNamed) (hpending : c.isPending = true)
    (policy policy' : Policy) :
    Parallel StepAlike (updateFields policy c r) (updateFields policy' c r') := by
  unfold updateFields
  split
  next hkind =>
    have hfinish : ∀ {d d' : Document}, d.Alike d' → StepAlike
        (Run.finish { r with document := d } c (!policy.debug))
        (Run.finish { r' with document := d' } c (!policy'.debug)) := fun hd =>
      (h.withDocument hd).finish hc hpending (by rw [hkind]; rfl) _ _
    dsimp only
    rw [range?_eq h.document hc hpending]
    split
    · exact hfinish h.document
    next range _ =>
      have helements : r.document.elementsWithin range.toSpan =
          r'.document.elementsWithin range.toSpan := by
        unfold Document.elementsWithin Document.paragraphs
        rw [h.document.text]
      rw [helements]
      exact (Parallel.foldlM (fun _ _ e hd => hd.refreshWithChildren e) h.document).andThen
        fun _ _ hd => hfinish hd
  · exact stepAlike_pass h hc

theorem commandBody_eq (h : d.Alike d') (hc : c.IsAsNamed) (hpending : c.isPending = true) :
    commandBody d c = commandBody d' c := by
  have hslice : ∀ s, d.slice s = d'.slice s := fun s => by
    unfold Document.slice Document.inside? Document.clamp Document.length
    rw [h.text]
  unfold commandBody
  rw [range?_eq h hc hpending]
  split
  · rfl
  · exact hslice _

theorem Run.Alike.describeForm (h : r.Alike r') (nodes : List Node) :
    (r.describeForm nodes).Alike (r'.describeForm nodes) := by
  have hsettings : r'.settings = r.settings := congrArg (·.settings) h.rest
  unfold Run.describeForm
  rw [hsettings]
  split
  · exact h
  · exact ⟨h.document.map ((r.settings.mergeForm nodes).form.persist ·) (fun _ => rfl) fun _ => rfl,
      by rw [h.rest]⟩

/-- Taking a form description, in any two modes. -/
theorem parallel_takeForm (h : r.Alike r') (hc : c.IsAsNamed) (hpending : c.isPending = true)
    (hkind : c.kind.isInsertion = false) (policy policy' : Policy) :
    Parallel StepAlike (takeForm policy c r) (takeForm policy' c r') := by
  unfold takeForm
  rw [commandBody_eq h.document hc hpending]
  refine (Parallel.of_eq (R := fun a b => a = b) rfl fun _ _ => rfl).andThen ?_
  rintro body _ rfl
  split
  · exact h.fail hc hpending _
  next nodes _ =>
    have hdescribed := h.describeForm nodes
    dsimp only
    refine (parallel_setText hdescribed.document hc hpending []).andThen fun a b hab => ?_
    match a, b, hab with
    | .error e, .error _, rfl => exact hdescribed.fail hc hpending _
    | .ok d₁, .ok d₁', hd₁ => exact (hdescribed.withDocument hd₁).finish hc hpending hkind _ _

/-- Filling in, in any two modes. -/
theorem parallel_fillIn (h : r.Alike r') (hc : c.IsAsNamed) (hpending : c.isPending = true) (b b' : Bool) :
    Parallel StepAlike (fillIn (s.inMode b) c r) (fillIn (s.inMode b') c r') := by
  unfold fillIn
  split
  next hkind => exact parallel_takeForm h hc hpending (by rw [hkind]; rfl) _ _
  next defect _ => exact h.fail hc hpending _
  next request hkind =>
    have hfetch : fetchValue (s.inMode b) request = fetchValue (s.inMode b') request := rfl
    unfold insertValue
    rw [hfetch]
    split
    · exact h.fail hc hpending _
    · refine (h.write hc hpending _).andThen fun r₁ r₁' hr₁ => ?_
      exact hr₁.finish hc hpending (by rw [hkind]; rfl) _ _
  · exact stepAlike_pass h hc

/-- Whether a phase was executed alike in two runs. -/
def ListAlike (p q : List Command × Run) : Prop :=
  List.Forall₂ Command.Alike p.1 q.1 ∧ p.2.Alike q.2

/-- Visiting the pending commands of two lists. -/
theorem parallel_visitPending {step step' : Command → Run → Except Fault (Command × Run)}
    (hstep : ∀ {c r r'}, Run.Alike r r' → c.IsAsNamed → c.isPending = true →
      Parallel StepAlike (step c r) (step' c r'))
    {cs cs' : List Command} (hcs : List.Forall₂ Command.Alike cs cs') (h : r.Alike r') :
    Parallel ListAlike (visitPending step cs r) (visitPending step' cs' r') := by
  induction hcs generalizing r r' with
  | nil => exact ⟨.nil, h⟩
  | @cons c c' cs cs' hc _ ih =>
    have hone : Parallel StepAlike (if c.isPending then step c r else .ok (c, r))
        (if c'.isPending then step' c' r' else .ok (c', r')) := by
      rw [hc.pending]
      split
      next hpending =>
        rw [hc.same (.inl hpending)]
        exact hstep h hc.named hpending
      · exact ⟨hc, h⟩
    refine hone.andThen fun p q hpq => ?_
    refine (ih hpq.2).andThen fun p' q' hpq' => ?_
    exact ⟨.cons hpq.1 hpq'.1, hpq'.2⟩

theorem parallel_lockedPhase {phase phase' : List Command → Run → Except Fault (List Command × Run)}
    {cs cs' : List Command}
    (hphase : ∀ {r r'}, Run.Alike r r' → Parallel ListAlike (phase cs r) (phase' cs' r'))
    (h : r.Alike r') : Parallel ListAlike (lockedPhase phase cs r) (lockedPhase phase' cs' r') := by
  have hlock := h.withDocument (h.document.map Document.lock (fun _ => rfl) fun _ => rfl)
  refine (hphase hlock).andThen fun p q hpq => ?_
  exact ⟨hpq.1, hpq.2.withDocument (hpq.2.document.map Document.unlock (fun _ => rfl) fun _ => rfl)⟩

end Steps

end TemplateEngine
