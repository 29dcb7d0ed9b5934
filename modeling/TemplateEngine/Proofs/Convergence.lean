import TemplateEngine.Proofs.SafeExpansion
import TemplateEngine.Proofs.Settled

/-!
# Convergence — acyclic inclusion ends

The locations are ranked so that what the commands of a content may load ranks below the content.  A
round executes all overrides and insertions of the list, so what is still to be executed after it came
in with contents loaded in it (`Round.refresh`).  Hence, if the commands of a round load only what ranks
below `k`, those of the next round load only what ranks below `k - 1`; when nothing is left to load, one
round more finds the list as it was (`expandOnce_of_idle`).
-/

namespace TemplateEngine

/-! ### What commands may load -/

section Ranks

variable (s : Services) (d : Document) (locations : List String)

/-- Some bookmark of the document or of a content that can be loaded says that the fragment `newId`
stands in for `id`. -/
def Declares (id newId : String) : Prop :=
  ∃ n, (n ∈ d.names ∨ ∃ l content, s.load l = .ok content ∧ n ∈ content.names) ∧
    ∃ c, Command.ofBookmark? n = some c ∧ c.kind = .overrideFragment id newId

/-- The locations that a command may load in a run that starts with the document and the content
locations. -/
inductive CanLoad : CommandKind → String → Prop
  | fragment {request : FragmentRequest} {l : String} :
      l ∈ s.locations request.id → CanLoad (.insertFragment request) l
  | override {request : FragmentRequest} {newId l : String} :
      Declares s d request.id newId → l ∈ s.locations newId → CanLoad (.insertFragment request) l
  | content {l : String} : l ∈ locations → CanLoad .insertContent l

/-- Whatever the commands of a content may load ranks below it. -/
def Acyclic (rank : String → Nat) : Prop :=
  ∀ l content, s.load l = .ok content → ∀ n ∈ content.names, ∀ c, Command.ofBookmark? n = some c →
    ∀ l', CanLoad s d locations c.kind l' → rank l' < rank l

variable (rank : String → Nat)

/-- A kind of command that loads only what ranks below `k`, and whose override is declared. -/
structure Ranked (k : Nat) (kind : CommandKind) : Prop where
  declared : ∀ id newId, kind = .overrideFragment id newId → Declares s d id newId
  below : ∀ l, CanLoad s d locations kind l → rank l < k

/-- The overrides entered are declared, and the contents still to be used are among those given. -/
structure Sound (r : Run) : Prop where
  overrides : ∀ id newId, r.overrides.table.get? id = some newId → Declares s d id newId
  contents : ∀ l ∈ r.contents, l ∈ locations

end Ranks

/-- Commands that rounds of expansion execute. -/
def CommandKind.isExpanding (k : CommandKind) : Bool := k.isOverride || k.isInsertion

section Rounds

variable {s : Services} {d : Document} {locations : List String} {rank : String → Nat}
  {k : Nat} {own settled : CommandKind → Bool} {before after cs : List Command} {c c' : Command} {r r' : Run}

theorem Ranked.mono {k' : Nat} {kind : CommandKind} (h : Ranked s d locations rank k kind)
    (hk : k ≤ k') : Ranked s d locations rank k' kind :=
  ⟨h.declared, fun l hl => Nat.lt_of_lt_of_le (h.below l hl) hk⟩

/-- Commands of other kinds load nothing and declare nothing. -/
theorem ranked_of_not_expanding {kind : CommandKind} (h : kind.isExpanding = false) :
    Ranked s d locations rank k kind where
  declared := by
    rintro id newId rfl
    cases h
  below := by
    rintro l (_ | _ | _) <;> cases h

/-! ### Steps of a round -/

theorem get?_of_set {o o' : Overrides} {id newId i v : String} (h : o.set id newId = .ok o')
    (hi : o'.table.get? i = some v) : o.table.get? i = some v ∨ i = id ∧ v = newId := by
  unfold Overrides.set at h
  split at h
  · cases h
  split at h
  · cases h
  split at h
  · cases h
    exact .inl hi
  · cases h
    rw [Dictionary.get?_insert] at hi
    split at hi
    next heq => exact .inr ⟨heq.symm, (Option.some.inj hi).symm⟩
    · exact .inl hi

/-- A step keeps what is known about overrides and contents. -/
theorem Sound.expanded (h : Sound s d locations r) (hstep : Expanded s c r c' r')
    (hc : ∀ id newId, c.kind = .overrideFragment id newId → Declares s d id newId) :
    Sound s d locations r' where
  overrides := fun id newId hget => by
    rcases hstep.overrides with heq | ⟨i, v, hkind, hset⟩
    · exact h.overrides id newId (heq ▸ hget)
    · rcases get?_of_set hset hget with hold | ⟨rfl, rfl⟩
      · exact h.overrides id newId hold
      · exact hc _ _ hkind
  contents := fun l hl => h.contents l (hstep.contents.subset hl)

/-- What a step loads, its command may load. -/
theorem Sound.canLoad (h : Sound s d locations r) {kind : CommandKind} {l : String}
    (hl : Loads s r kind l) : CanLoad s d locations kind l := by
  cases kind with
  | insertFragment request =>
    have hl' : l ∈ s.locations (r.overrides.get request.id) := hl
    unfold Overrides.get at hl'
    cases hget : r.overrides.table.get? request.id with
    | none =>
      rw [hget] at hl'
      exact .fragment hl'
    | some newId =>
      rw [hget] at hl'
      exact .override (h.overrides _ _ hget) hl'
  | insertContent => exact .content (h.contents l hl)
  | _ => exact hl.elim

/-- What a name that comes in says, if it is still to be executed, loads only what ranks below the
content that it came in with. -/
theorem ranked_of_imports (hacyclic : Acyclic s d locations rank) (h : Sound s d locations r)
    (hc : Ranked s d locations rank k c.kind) {n : String} (hn : Imports s r c.kind n)
    {kind : CommandKind} (hname : IsPendingName n kind) :
    ∃ j, j < k ∧ Ranked s d locations rank j kind := by
  obtain ⟨l, content, hl, hload, m, hm, hvariant⟩ := hn
  obtain ⟨p, hp, -, rfl⟩ := hname
  rw [hvariant.ofBookmark?] at hp
  obtain ⟨q, hq, rfl⟩ := Option.map_eq_some_iff.1 hp
  refine ⟨rank l, hc.below l (h.canLoad hl), ?_, ?_⟩
  · exact fun id newId hkind => ⟨m, .inr ⟨l, content, hload, hm⟩, q, hq, hkind⟩
  · exact hacyclic l content hload m hm q hq

variable (s d locations rank k) in
/-- Between two steps of a round in which the kinds `own` are executed, after the kinds `settled`: a
pending command of the list is ranked below `k`, a pending name without a command in the list below
some smaller number. -/
structure Round (own settled : CommandKind → Bool) (before after : List Command) (r : Run) : Prop where
  distinct : r.document.names.Nodup
  isCommand : ∀ c ∈ before ++ after, c.config.IsCommand
  sound : Sound s d locations r
  ranked : ∀ c ∈ before ++ after, c.isPending = true → Ranked s d locations rank k c.kind
  executed : ∀ c ∈ before, own c.kind = true → c.isPending = false
  settled : ∀ c ∈ before ++ after, settled c.kind = true → c.isPending = false
  listed : ∀ n ∈ r.document.names, ∀ kind, IsPendingName n kind →
    (∃ c ∈ before ++ after, c.bookmark = n) ∨ ∃ j, j < k ∧ Ranked s d locations rank j kind

namespace Round

/-- A step that executes its command. -/
theorem expanded (hacyclic : Acyclic s d locations rank)
    (h : Round s d locations rank k own settled before (c :: after) r) (hc : c.isPending = true)
    (hstep : Expanded s c r c' r') : Round s d locations rank k own settled (before ++ [c']) after r' := by
  have hranked := h.ranked c (by simp) hc
  have hmem : ∀ x, x ∈ (before ++ [c']) ++ after ↔ x = c' ∨ x ∈ before ∨ x ∈ after := by
    intro x
    simp only [List.mem_append, List.mem_cons, List.not_mem_nil, or_false]
    tauto
  have hold : ∀ {x}, x ∈ before ∨ x ∈ after → x ∈ before ++ c :: after := by
    intro x hx
    simp only [List.mem_append, List.mem_cons]
    tauto
  refine ⟨hstep.distinct, fun x hx => ?_, h.sound.expanded hstep hranked.declared,
    fun x hx hp => ?_, fun x hx hown => ?_, fun x hx hs => ?_, fun n hn kind hname => ?_⟩
  · rcases (hmem x).1 hx with rfl | hx
    · exact hstep.isCommand
    · exact h.isCommand x (hold hx)
  · rcases (hmem x).1 hx with rfl | hx
    · rw [hstep.idle] at hp
      cases hp
    · exact h.ranked x (hold hx) hp
  · rcases List.mem_append.1 hx with hx | hx
    · exact h.executed x hx hown
    · rw [List.mem_singleton.1 hx]
      exact hstep.idle
  · rcases (hmem x).1 hx with rfl | hx
    · exact hstep.idle
    · exact h.settled x (hold hx) hs
  · rcases hstep.names n hn with ⟨hn', hb⟩ | himport | hdone
    · refine (h.listed n hn' kind hname).imp_left ?_
      rintro ⟨x, hx, rfl⟩
      simp only [List.mem_append, List.mem_cons] at hx
      rcases hx with hx | rfl | hx
      · exact ⟨x, (hmem x).2 (.inr (.inl hx)), rfl⟩
      · exact ⟨c', (hmem c').2 (.inl rfl), hb rfl⟩
      · exact ⟨x, (hmem x).2 (.inr (.inr hx)), rfl⟩
    · exact .inr (ranked_of_imports hacyclic h.sound hranked himport hname)
    · exact absurd hname (hdone kind)

/-- A command that is passed over. -/
theorem skip (h : Round s d locations rank k own settled before (c :: after) r)
    (hc : own c.kind = true → c.isPending = false) :
    Round s d locations rank k own settled (before ++ [c]) after r := by
  have hlist : (before ++ [c]) ++ after = before ++ c :: after := by simp
  refine ⟨h.distinct, hlist ▸ h.isCommand, h.sound, hlist ▸ h.ranked, fun x hx hown => ?_,
    hlist ▸ h.settled, hlist ▸ h.listed⟩
  rcases List.mem_append.1 hx with hx | hx
  · exact h.executed x hx hown
  · rw [List.mem_singleton.1 hx] at hown ⊢
    exact hc hown

/-- Visiting all commands of the list once. -/
theorem visitPending (hacyclic : Acyclic s d locations rank)
    {step : Command → Run → Except Fault (Command × Run)}
    (hstep : ∀ c r, c.config.IsCommand → r.document.names.Nodup →
      Ends (fun _ => True) (step c r) (Executes s own c r))
    (h : Round s d locations rank k own settled [] cs r) :
    Ends (fun _ => True) (TemplateEngine.visitPending step cs r) fun p =>
      Round s d locations rank k own settled p.1 [] p.2 := by
  refine Ends.visitPending (I := fun before after r => Round s d locations rank k own settled before after r)
    h (fun before c after r hidle hI => hI.skip fun _ => hidle) fun before c after r hc hI => ?_
  refine (hstep c r (hI.isCommand c (by simp)) hI.distinct).mono fun p hp => ?_
  rcases hp with ⟨-, hexec⟩ | ⟨hown, rfl⟩
  · exact hI.expanded hacyclic hc hexec
  · exact hI.skip fun h => by rw [hown] at h; cases h

/-- The same state at the start of the next pass. -/
theorem next {o : CommandKind → Bool} (h : Round s d locations rank k own settled cs [] r) :
    Round s d locations rank k o (fun k => settled k || own k) [] cs r where
  distinct := h.distinct
  isCommand := by simpa using h.isCommand
  sound := h.sound
  ranked := by simpa using h.ranked
  executed := by simp
  settled := fun x hx hs => by
    rcases Bool.or_eq_true_iff.1 hs with hs | hs
    · exact h.settled x (by simpa using hx) hs
    · exact h.executed x (by simpa using hx) hs
  listed := by simpa using h.listed

end Round

/-! ### Whole rounds -/

variable (s d locations rank) in
/-- The state before a round: the list was just refreshed, and its pending commands are ranked below
`k`. -/
structure Ready (k : Nat) (cs : List Command) (r : Run) : Prop where
  distinct : r.document.names.Nodup
  isCommand : ∀ c ∈ cs, c.config.IsCommand
  sound : Sound s d locations r
  ranked : ∀ c ∈ cs, c.isPending = true → Ranked s d locations rank k c.kind
  bookmarks : ∀ c ∈ cs, c.bookmark ∈ r.document.names
  listed : ∀ n ∈ r.document.names, ∀ c, Command.ofBookmark? n = some c → ∃ x ∈ cs, x.bookmark = n

/-- No override and no insertion of a list is still to be executed. -/
def Idle (cs : List Command) : Prop := ∀ c ∈ cs, c.kind.isExpanding = true → c.isPending = false

theorem Ready.round (h : Ready s d locations rank k cs r) :
    Round s d locations rank k own (fun _ => false) [] cs r where
  distinct := h.distinct
  isCommand := h.isCommand
  sound := h.sound
  ranked := h.ranked
  executed := by simp
  settled := by simp
  listed := fun n hn kind ⟨c, hc, _⟩ => .inl (h.listed n hn c hc)

/-- What a refresh finds after a round: commands that were executed, and commands of names that came in
with contents. -/
theorem Round.refresh (h : Round s d locations rank k own settled [] cs r)
    (hall : ∀ k, settled k = k.isExpanding) :
    (∀ c ∈ (Command.refresh r.document cs).1, c.config.IsCommand) ∧
      ∀ c ∈ (Command.refresh r.document cs).1, c.isPending = true →
        (c ∈ cs ∧ c.kind.isExpanding = false ∧ Ranked s d locations rank k c.kind) ∨
          ∃ j, j < k ∧ Ranked s d locations rank j c.kind := by
  refine ⟨fun c hc => ?_, fun c hc hpending => ?_⟩
  · rcases Command.mem_refresh_iff.1 hc with ⟨hc, -⟩ | ⟨n, -, -, hn⟩
    · exact h.isCommand c hc
    · exact isCommand_of_ofBookmark? hn
  · rcases Command.mem_refresh_iff.1 hc with ⟨hc, -⟩ | ⟨n, hn, hnew, hname⟩
    · refine .inl ⟨hc, ?_, h.ranked c hc hpending⟩
      rw [Bool.eq_false_iff]
      intro hexp
      rw [h.settled c hc (by rw [hall]; exact hexp)] at hpending
      cases hpending
    · rcases h.listed n hn c.kind ⟨c, hname, hpending, rfl⟩ with ⟨x, hx, hb⟩ | hranked
      · exact absurd hb (hnew x hx)
      · exact .inr hranked

/-- One round: afterwards the pending commands load only what ranks lower, and if the list did not
change, nothing is left to execute. -/
theorem Ready.expandOnce (hacyclic : Acyclic s d locations rank)
    (h : Ready s d locations rank k cs r) :
    Ends (fun _ => True) (expandOnce s cs r) fun p =>
      Ready s d locations rank (k - 1) p.1 p.2.1 ∧ (k = 0 → Idle p.1) ∧
        (p.2.2 = false → Idle p.1) := by
  refine Ends.andThen (h.round.visitPending hacyclic fun c r hc hr => executeOverride_spec s hc hr)
    fun p hp => ?_
  refine Ends.andThen (hp.next.visitPending hacyclic fun c r hc hr => executeInsert_spec _ hc hr)
    fun q hq => ?_
  have hround := hq.next (o := fun _ => false)
  have hsettled : ∀ k : CommandKind,
      (false || k.isOverride || k.isInsertion) = k.isExpanding := fun k => by
    rw [Bool.false_or, CommandKind.isExpanding]
  obtain ⟨hcommand, hpending⟩ := hround.refresh hsettled
  refine ⟨⟨hround.distinct, hcommand, hround.sound, fun c hc hp => ?_,
    fun c hc => Command.bookmark_mem_of_mem_refresh hc,
    fun n hn c hc => Command.exists_mem_refresh hn hc⟩, ?_, ?_⟩
  · rcases hpending c hc hp with ⟨-, hexp, hranked⟩ | ⟨j, hj, hranked⟩
    · exact ranked_of_not_expanding hexp
    · exact hranked.mono (by omega)
  · rintro rfl c hc hexp
    rw [Bool.eq_false_iff]
    intro hp
    rcases hpending c hc hp with ⟨-, hexp', -⟩ | ⟨j, hj, -⟩
    · rw [hexp] at hexp'
      cases hexp'
    · omega
  · intro hsame c hc hexp
    have heq := Command.refresh_eq_of_unchanged hsame
    refine hround.settled c ?_ (by rw [hsettled]; exact hexp)
    have hc' : c ∈ (Command.refresh q.2.document q.1).1 := hc
    rw [heq] at hc'
    exact hc'

/-! ### The last round -/

/-- Visiting leaves everything as it is where no step does anything. -/
theorem visitPending_eq_self {σ : Type} {step : Command → σ → Except Fault (Command × σ)} {s : σ}
    (h : ∀ c ∈ cs, c.isPending = true → step c s = .ok (c, s)) :
    visitPending step cs s = .ok (cs, s) := by
  induction cs with
  | nil => rfl
  | cons c cs ih =>
    have hc : (if c.isPending then step c s else .ok (c, s)) = .ok (c, s) := by
      split
      next hp => exact h c (by simp) hp
      · rfl
    have hcs : visit (fun c s => if c.isPending then step c s else .ok (c, s)) cs s = .ok (cs, s) :=
      ih fun c hc => h c (by simp [hc])
    unfold visitPending visit
    rw [hc]
    show (visit _ cs s >>= _) = _
    rw [hcs]
    rfl

/-- A list that agrees with its document is left as it is by a refresh. -/
theorem refresh_eq_self {d : Document} (hb : ∀ c ∈ cs, c.bookmark ∈ d.names)
    (hlisted : ∀ n ∈ d.names, ∀ c, Command.ofBookmark? n = some c → ∃ x ∈ cs, x.bookmark = n) :
    Command.refresh d cs = (cs, false) := by
  have hkept : Command.surviving d cs = cs :=
    List.filter_eq_self.2 fun c hc => Document.isSome_bookmark?_iff.2 (hb c hc)
  have hnew : (Command.unknownNames d cs).filterMap Command.ofBookmark? = [] := by
    rw [List.filterMap_eq_nil_iff]
    intro n hn
    obtain ⟨hn, hunknown⟩ := Command.mem_unknownNames.1 hn
    cases hc : Command.ofBookmark? n with
    | none => rfl
    | some c =>
      obtain ⟨x, hx, hxn⟩ := hlisted n hn c hc
      exact absurd hxn (hunknown x hx)
  simp [Command.refresh, hkept, Command.discover, hnew]

/-- With nothing left to execute a round finds the list as it was. -/
theorem expandOnce_of_idle (hidle : Idle cs) (hb : ∀ c ∈ cs, c.bookmark ∈ r.document.names)
    (hlisted : ∀ n ∈ r.document.names, ∀ c, Command.ofBookmark? n = some c →
      ∃ x ∈ cs, x.bookmark = n) :
    expandOnce s cs r = .ok (cs, r, false) := by
  have hoverrides : executeOverrides s cs r = .ok (cs, r) :=
    visitPending_eq_self fun c hc hp => by
      have hexp : c.kind.isExpanding = false := by
        rw [Bool.eq_false_iff]
        intro h
        rw [hidle c hc h] at hp
        cases hp
      unfold executeOverride
      split
      next hkind =>
        rw [hkind] at hexp
        cases hexp
      · rfl
  have hinserts : executeInserts s cs r = .ok (cs, r) :=
    visitPending_eq_self fun c hc hp => by
      have hexp : c.kind.isExpanding = false := by
        rw [Bool.eq_false_iff]
        intro h
        rw [hidle c hc h] at hp
        cases hp
      unfold executeInsert
      split
      next hkind =>
        rw [hkind] at hexp
        cases hexp
      next hkind =>
        rw [hkind] at hexp
        cases hexp
      · rfl
  unfold expandOnce
  rw [hoverrides]
  show (executeInserts s cs r >>= _) = _
  rw [hinserts]
  show Except.ok ((Command.refresh r.document cs).1, r, (Command.refresh r.document cs).2) = _
  rw [refresh_eq_self hb hlisted]

/-- The rounds end within two after the one in which nothing is left to load. -/
theorem Ready.expandFrom (hacyclic : Acyclic s d locations rank) (done : Nat) {left : Nat}
    (h : Ready s d locations rank k cs r) (hleft : k + 2 ≤ left) :
    Ends (fun _ => True) (expandFrom s done left cs r) fun p =>
      (∃ n, n ≤ done + k + 2 ∧ p.1 = .converged n) ∧ Idle p.2.1 := by
  induction k generalizing done left cs r with
  | zero =>
    obtain ⟨left, rfl⟩ : ∃ m, left = m + 2 := ⟨left - 2, by omega⟩
    refine Ends.andThen (h.expandOnce hacyclic) fun p hp => ?_
    obtain ⟨cs', r', changed⟩ := p
    obtain ⟨hready, hidle, -⟩ := hp
    cases changed with
    | false => exact ⟨⟨done + 1, by omega, rfl⟩, hidle rfl⟩
    | true =>
      show Ends _ (TemplateEngine.expandFrom s (done + 1) (left + 1) cs' r') _
      unfold TemplateEngine.expandFrom
      rw [expandOnce_of_idle (hidle rfl) hready.bookmarks hready.listed]
      exact ⟨⟨done + 2, by omega, rfl⟩, hidle rfl⟩
  | succ k ih =>
    obtain ⟨left, rfl⟩ : ∃ m, left = m + 1 := ⟨left - 1, by omega⟩
    refine Ends.andThen (h.expandOnce hacyclic) fun p hp => ?_
    obtain ⟨cs', r', changed⟩ := p
    obtain ⟨hready, -, hidle⟩ := hp
    cases changed with
    | false => exact ⟨⟨done + 1, by omega, rfl⟩, hidle rfl⟩
    | true =>
      refine (ih (done + 1) hready (by omega)).mono fun p hp => ?_
      obtain ⟨⟨n, hn, heq⟩, hp⟩ := hp
      exact ⟨⟨n, by omega, heq⟩, hp⟩

end Rounds

/-! ### Expanding a document -/

/-- Two fragments, the outer one asking for the inner one. -/
def nestedFragments : Services where
  locations := fun id => [id]
  load := fun l =>
    if l = "outer" then
      .ok { Document.ofText "(?)".toList with
        bookmarks := [⟨"DOC(CMD 'insertFrag' FRAG_ID 'inner')", ⟨1, 2⟩⟩] }
    else .ok (Document.ofText "inside".toList)
  value := fun _ => .error .noRowSelected
  transform := fun name _ => .error (.unknown name)
  policy := ⟨true, false⟩

theorem wellFormed_nestedFragments : nestedFragments.LoadsWellFormed := by
  intro l content hload
  unfold nestedFragments at hload
  dsimp only at hload
  split at hload
  · obtain rfl := Except.ok.inj hload
    exact ⟨by decide, by decide, by decide, by decide, by decide⟩
  · obtain rfl := Except.ok.inj hload
    exact Document.wellFormed_ofText _

end TemplateEngine
