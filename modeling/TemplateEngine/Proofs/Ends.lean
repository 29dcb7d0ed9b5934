import TemplateEngine.Process.Fields

/-!
# Ends — a small logic for runs that can fault

`Ends F x Q` says how a computation ends: in a fault that `F` admits or in a result with the property
`Q`.  With `F` admitting everything this is partial correctness, with `F` admitting nothing total
correctness.  The rules follow the two ways in which phases are put together: one step after another,
and one step for each command of a list.
-/

namespace TemplateEngine

/-- `x` ends in a fault that `F` admits or in a result with the property `Q`. -/
def Ends {α : Type} (F : Fault → Prop) (x : Except Fault α) (Q : α → Prop) : Prop :=
  match x with
  | .ok a => Q a
  | .error f => F f

/-- What holds of all commands of a list still does when one of them is replaced. -/
theorem forall_mem_replace {P : Command → Prop} {before after : List Command} {c c' : Command}
    (h : ∀ x ∈ before ++ c :: after, P x) (hc : P c') : ∀ x ∈ before ++ c' :: after, P x := by
  simp only [List.mem_append, List.mem_cons] at h ⊢
  rintro x (hx | rfl | hx)
  · exact h x (.inl hx)
  · exact hc
  · exact h x (.inr (.inr hx))

namespace Ends

variable {α β σ : Type} {F : Fault → Prop}

@[simp] theorem ok_iff {a : α} {Q : α → Prop} : Ends F (.ok a) Q ↔ Q a := Iff.rfl

@[simp] theorem error_iff {f : Fault} {Q : α → Prop} :
    Ends F (.error f : Except Fault α) Q ↔ F f := Iff.rfl

@[simp] theorem pure_iff {a : α} {Q : α → Prop} :
    Ends F (pure a : Except Fault α) Q ↔ Q a := Iff.rfl

theorem mono {x : Except Fault α} {Q Q' : α → Prop} (h : Ends F x Q) (hQ : ∀ a, Q a → Q' a) :
    Ends F x Q' := by
  cases x with
  | error f => exact h
  | ok a => exact hQ a h

/-- More faults can be admitted. -/
theorem allow {x : Except Fault α} {G : Fault → Prop} {Q : α → Prop} (h : Ends F x Q)
    (hF : ∀ f, F f → G f) : Ends G x Q := by
  cases x with
  | error f => exact hF f h
  | ok a => exact h

theorem and {x : Except Fault α} {G : Fault → Prop} {Q R : α → Prop} (h : Ends F x Q)
    (h' : Ends G x R) : Ends F x fun a => Q a ∧ R a := by
  cases x with
  | error f => exact h
  | ok a => exact ⟨h, h'⟩

theorem bind {x : Except Fault α} {f : α → Except Fault β} {Q : β → Prop}
    (h : Ends F x fun a => Ends F (f a) Q) : Ends F (x >>= f) Q := by
  cases x with
  | error f => exact h
  | ok a => exact h

/-- One step after another, with what holds in between. -/
theorem andThen {x : Except Fault α} {f : α → Except Fault β} {P : α → Prop} {Q : β → Prop}
    (h : Ends F x P) (hf : ∀ a, P a → Ends F (f a) Q) : Ends F (x >>= f) Q :=
  (h.mono hf).bind

theorem of_eq_ok {x : Except Fault α} {Q : α → Prop} {a : α} (h : Ends F x Q) (hx : x = .ok a) :
    Q a := by
  subst hx
  exact h

/-- Where no fault is admitted there is a result. -/
theorem exists_ok {x : Except Fault α} {Q : α → Prop} (h : Ends (fun _ => False) x Q) :
    ∃ a, x = .ok a ∧ Q a := by
  cases x with
  | error f => exact h.elim
  | ok a => exact ⟨a, rfl, h⟩

theorem of_forall {x : Except Fault α} {Q : α → Prop} (h : ∀ a, x = .ok a → Q a) :
    Ends (fun _ => True) x Q := by
  cases x with
  | error f => trivial
  | ok a => exact h a rfl

/-- The rule for a step of which nothing needs to be known. -/
theorem afterAny {x : Except Fault α} {f : α → Except Fault β} {Q : β → Prop}
    (h : ∀ a, Ends (fun _ => True) (f a) Q) : Ends (fun _ => True) (x >>= f) Q :=
  andThen (P := fun _ => True) (of_forall fun _ _ => trivial) fun a _ => h a

/-- A fold keeps what each of its steps keeps. -/
theorem foldlM {step : σ → β → Except Fault σ} {I : σ → Prop} {bs : List β} {s : σ} (hs : I s)
    (h : ∀ b ∈ bs, ∀ s, I s → Ends F (step s b) I) : Ends F (bs.foldlM step s) I := by
  induction bs generalizing s with
  | nil => exact hs
  | cons b bs ih =>
    rw [List.foldlM_cons]
    refine andThen (h b (by simp) s hs) fun s' hs' => ?_
    exact ih hs' fun b' hb' => h b' (by simp [hb'])

/-- The rule for visiting a list: `I` relates the commands visited, as they are after their step, the
commands still to come, and the state between two steps. -/
theorem visit {step : Command → σ → Except Fault (Command × σ)}
    {I : List Command → List Command → σ → Prop} {cs : List Command} {s : σ} (hs : I [] cs s)
    (h : ∀ before c after s, I before (c :: after) s →
      Ends F (step c s) fun p => I (before ++ [p.1]) after p.2) :
    Ends F (visit step cs s) fun p => I p.1 [] p.2 := by
  suffices key : ∀ before, I before cs s →
      Ends F (TemplateEngine.visit step cs s) fun p => I (before ++ p.1) [] p.2 from key [] hs
  clear hs
  induction cs generalizing s with
  | nil =>
    intro before hs
    simpa [TemplateEngine.visit] using hs
  | cons c cs ih =>
    intro before hs
    refine andThen (h before c cs s hs) fun p hp => ?_
    refine andThen (ih _ hp) fun q hq => ?_
    simpa using hq

/-- The rule for visiting the pending commands of a list. -/
theorem visitPending {step : Command → σ → Except Fault (Command × σ)}
    {I : List Command → List Command → σ → Prop} {cs : List Command} {s : σ} (hs : I [] cs s)
    (hskip : ∀ before c after s, c.isPending = false → I before (c :: after) s →
      I (before ++ [c]) after s)
    (h : ∀ before c after s, c.isPending = true → I before (c :: after) s →
      Ends F (step c s) fun p => I (before ++ [p.1]) after p.2) :
    Ends F (visitPending step cs s) fun p => I p.1 [] p.2 := by
  refine visit hs fun before c after s hI => ?_
  cases hc : c.isPending with
  | false => exact hskip before c after s hc hI
  | true => exact h before c after s hc hI

/-- The rule for what holds of the whole list, of the commands visited and of those still to come alike. -/
theorem visitAll {step : Command → σ → Except Fault (Command × σ)} {I : List Command → σ → Prop}
    {cs : List Command} {s : σ} (hs : I cs s)
    (h : ∀ before c after s, I (before ++ c :: after) s →
      Ends F (step c s) fun p => I (before ++ p.1 :: after) p.2) :
    Ends F (TemplateEngine.visit step cs s) fun p => I p.1 p.2 := by
  have hvisit : Ends F (TemplateEngine.visit step cs s) fun p => I (p.1 ++ []) p.2 :=
    visit (I := fun before after s => I (before ++ after) s) hs fun before c after s hI =>
      (h before c after s hI).mono fun p hp => by rwa [List.append_assoc]
  simpa using hvisit

/-- The same for the pending commands of a list. -/
theorem visitPendingAll {step : Command → σ → Except Fault (Command × σ)} {I : List Command → σ → Prop}
    {cs : List Command} {s : σ} (hs : I cs s)
    (h : ∀ before c after s, c.isPending = true → I (before ++ c :: after) s →
      Ends F (step c s) fun p => I (before ++ p.1 :: after) p.2) :
    Ends F (TemplateEngine.visitPending step cs s) fun p => I p.1 p.2 := by
  refine visitAll hs fun before c after s hI => ?_
  cases hc : c.isPending with
  | false => exact hI
  | true => exact h before c after s hc hI

theorem refreshOne {I : Document → Prop} {d : Document} {e : Element} (hd : I d)
    (h : Ends F (d.refreshElement e) fun o => ∀ d', o = some (.ok d') → I d') :
    Ends F (TemplateEngine.refreshOne d e) I := by
  refine andThen h fun o ho => ?_
  match o with
  | none => exact hd
  | some (.error _) => exact hd
  | some (.ok d') => exact ho d' rfl

/-- The rule for updating fields: what refreshing one element keeps, refreshing many with their children
does. -/
theorem refreshElements {I : Document → Prop}
    (h : ∀ d e, I d → Ends F (d.refreshElement e) fun o => ∀ d', o = some (.ok d') → I d')
    {d : Document} (hd : I d) (es : List Element) : Ends F (es.foldlM refreshWithChildren d) I := by
  refine foldlM hd fun e _ d hd => ?_
  exact andThen (foldlM hd fun e' _ d hd => refreshOne hd (h d e' hd)) fun d' hd' => refreshOne hd' (h d' e hd')

end Ends

end TemplateEngine
