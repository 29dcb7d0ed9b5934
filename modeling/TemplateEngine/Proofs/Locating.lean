import Mathlib
import TemplateEngine.CommandLine
import TemplateEngine.FileTree
import TemplateEngine.Proofs.Stored

/-!
# Locating — which file a configured location leads to

A configuration is kept with its locations expanded, and a content is looked for at what its location stands for.
So a configured location is expanded twice: what the first expansion leaves behind, a dollar sign that was written
twice or one that came out of a variable, the second one reads as a variable.  The file opened is the one that the
written location stands for if its expansion fails, or leaves neither a dollar sign nor a tilde at the start.
-/

namespace TemplateEngine

namespace Location

variable {env env' : Environment} {t r : Text} {l : String}

/-! ### One expansion -/

theorem mapM_congr {α β : Type} {f g : α → Option β} {xs : List α} (h : ∀ x ∈ xs, f x = g x) :
    xs.mapM f = xs.mapM g := by
  induction xs with
  | nil => rfl
  | cons x xs ih =>
    rw [List.mapM_cons, List.mapM_cons, h x List.mem_cons_self, ih fun y hy => h y (List.mem_cons_of_mem x hy)]

/-- What a location stands for depends on its variables and on the home directory only. -/
theorem resolve_congr (hhome : env.home? = env'.home?)
    (hnames : ∀ name ∈ names l, env.value? name = env'.value? name) : resolve env l = resolve env' l := by
  have hpieces : ∀ p ∈ pieces l.toList, p.value? env = p.value? env' := by
    intro p hp
    cases p with
    | literal => rfl
    | reference name fallback =>
      have hmem : String.ofList name ∈ names l := List.mem_filterMap.2 ⟨_, hp, rfl⟩
      rw [Piece.value?, hnames _ hmem, Piece.value?]
  have htilde : replaceTilde env = replaceTilde env' := by
    funext t
    rw [replaceTilde.eq_def, replaceTilde.eq_def, hhome]
  rw [resolve, resolve, expand?, expand?, replaceVariables?, replaceVariables?, mapM_congr hpieces, htilde]

/-- A text without a dollar sign has no variables. -/
theorem pieces_of_notMem (h : '$' ∉ t) : pieces t = t.map .literal := by
  unfold pieces
  induction t with
  | nil => rfl
  | cons c t ih =>
    have hc : ¬c = '$' := fun hc => h (hc ▸ List.mem_cons_self)
    rw [piecesFrom, if_neg hc, ih fun ht => h (List.mem_cons_of_mem c ht), List.map_cons]

theorem replaceVariables?_of_notMem (h : '$' ∉ t) : replaceVariables? env t = some t := by
  have hliterals : (t.map Piece.literal).mapM (Piece.value? env) = some (t.map fun c => [c]) := by
    rw [List.mapM_map]
    exact List.mapM_pure
  rw [replaceVariables?, pieces_of_notMem h, hliterals, Option.map_some]
  exact congrArg some (List.flatMap_singleton' t)

/-- A location stands for itself if it has no dollar sign and no tilde at its start. -/
theorem resolve_of_notMem (hdollar : '$' ∉ l.toList) (htilde : l.toList.head? ≠ some '~') :
    resolve env l = l := by
  rw [resolve, expand?, replaceVariables?_of_notMem hdollar, Option.map_some, if_neg htilde]
  exact String.ofList_toList

theorem resolve_of_expand?_eq_none (h : expand? env l.toList = none) : resolve env l = l := by
  rw [resolve, h]

theorem resolve_of_expand?_eq_some (h : expand? env l.toList = some r) : resolve env l = String.ofList r := by
  rw [resolve, h]

end Location

/-! ### Environments -/

/-- All that locations can refer to, by the values of variables. -/
def Environment.ofValues (values : String → Option String) : Environment :=
  ⟨values, (values "HOME").filter (· ≠ "")⟩

namespace Shell

variable {m : Type → Type} [Monad m] {shell : Shell m} {values : String → Option String}

/-- Whether the variables have these values, at any time. -/
def HasValues (shell : Shell m) (values : String → Option String) : Prop :=
  ∀ name, shell.valueOf name = pure (values name)

/-- A name is found beside its value. -/
theorem find?_map_of_mem {α : Type} (f : String → α) {names : List String} {name : String} (h : name ∈ names) :
    (names.map fun n => (n, f n)).find? (·.1 = name) = some (name, f name) := by
  have hsome : (names.find? (· = name)).isSome = true := List.find?_isSome.2 ⟨name, h, by simp⟩
  obtain ⟨y, hy⟩ := Option.isSome_iff_exists.1 hsome
  obtain rfl : y = name := by simpa using List.find?_some hy
  exact (List.find?_map ..).trans (congrArg (Option.map _) hy)

/-- The variables of some locations are enough to resolve these. -/
theorem HasValues.environment [LawfulMonad m] (h : shell.HasValues values) (locations : List String) :
    ∃ env, shell.environment locations = pure env ∧
      ∀ l ∈ locations, Location.resolve env l = Location.resolve (.ofValues values) l := by
  let known := (locations.flatMap Location.names).map fun name => (name, values name)
  refine ⟨⟨fun name => (known.find? (·.1 = name)).bind (·.2), (values "HOME").filter (· ≠ "")⟩, ?_, ?_⟩
  · have hread : (locations.flatMap Location.names).mapM (fun name => do
        return (name, ← shell.valueOf name)) = (pure known : m _) := by
      simp only [h _, pure_bind]
      exact List.mapM_pure
    rw [Shell.environment, hread, h "HOME", pure_bind, pure_bind]
  · intro l hl
    refine Location.resolve_congr rfl fun name hname => ?_
    have hmem : name ∈ locations.flatMap Location.names := List.mem_flatMap.2 ⟨l, hl, hname⟩
    have hfind : known.find? (·.1 = name) = some (name, values name) := find?_map_of_mem values hmem
    simp [hfind, Environment.ofValues]

/-- The content at a location, which is resolved with the shell's variables. -/
def loadContent (shell : Shell m) (location : String) : m (Except LoadError Document) := do
  let env ← shell.environment [location]
  return contentOfRead env location (← shell.read (Location.resolve env location))

theorem contentOfRead_congr {env env' : Environment} {l : String}
    (h : Location.resolve env l = Location.resolve env' l) : contentOfRead env l = contentOfRead env' l := by
  funext r
  unfold contentOfRead
  rw [h]

/-- A content is in the file that its location stands for. -/
theorem HasValues.loadContent [LawfulMonad m] (h : shell.HasValues values) (l : String) :
    shell.loadContent l = contentOfRead (.ofValues values) l <$>
      shell.read (Location.resolve (.ofValues values) l) := by
  obtain ⟨env, henv, hresolve⟩ := h.environment [l]
  have hl := hresolve l List.mem_cons_self
  rw [Shell.loadContent, henv, pure_bind, hl, contentOfRead_congr hl, map_eq_pure_bind]

end Shell

/-! ### Configured locations -/

namespace Config

variable {m : Type → Type} [Monad m] [LawfulMonad m] {shell : Shell m} {values : String → Option String}

theorem expand_congr {env env' : Environment} {c : Config}
    (h : ∀ l ∈ c.allLocations, Location.resolve env l = Location.resolve env' l) : c.expand env = c.expand env' := by
  have hfragments : ∀ e ∈ c.fragments.entries, (e.1, e.2.map (Location.resolve env)) =
      (e.1, e.2.map (Location.resolve env')) := fun e he => by
    rw [List.map_congr_left fun l hl => h l (List.mem_append_left _ (List.mem_flatMap.2 ⟨e, he, hl⟩))]
  rw [expand, expand, List.map_congr_left hfragments,
    List.map_congr_left fun l hl => h l (List.mem_append_right _ hl)]

/-- A configuration is loaded with all its locations expanded. -/
theorem load_eq (h : shell.HasValues values) (path : String) :
    load shell path = (fun r => (ofRead path r).map (Option.map (expand (.ofValues values)))) <$>
      shell.read path := by
  rw [load, map_eq_pure_bind]
  refine bind_congr fun r => ?_
  cases ofRead path r with
  | error e => rfl
  | ok found =>
    cases found with
    | none => rfl
    | some c =>
      obtain ⟨env, henv, hresolve⟩ := h.environment c.allLocations
      show shell.environment c.allLocations >>= _ = _
      rw [henv, pure_bind, expand_congr hresolve]
      rfl

theorem get?_fragments_expand (env : Environment) (c : Config) (id : String) :
    (c.expand env).fragments.get? id = (c.fragments.get? id).map (List.map (Location.resolve env)) := by
  have hnames : ((c.fragments.entries.map fun e => (e.1, e.2.map (Location.resolve env))).map (·.1)).Nodup := by
    rw [List.map_map]
    exact Dictionary.nodup_names c.fragments
  ext ls
  rw [Dictionary.get?_eq_some_iff, Option.map_eq_some_iff, expand, Dictionary.mem_entries_ofList hnames,
    List.mem_map]
  constructor
  · rintro ⟨⟨_, ms⟩, he, heq⟩
    obtain ⟨rfl, rfl⟩ := Prod.mk.inj heq
    exact ⟨ms, Dictionary.get?_eq_some_iff.2 he, rfl⟩
  · rintro ⟨ms, hms, rfl⟩
    exact ⟨(id, ms), Dictionary.get?_eq_some_iff.1 hms, rfl⟩

theorem fragmentLocations_expand (env : Environment) (c : Config) (id : String) :
    (c.expand env).fragmentLocations id = (c.fragmentLocations id).map (Location.resolve env) := by
  rw [fragmentLocations, get?_fragments_expand, fragmentLocations]
  cases c.fragments.get? id <;> rfl

end Config

/-! ### Contents of a run -/

namespace CommandLine

/-- The parts of a step that succeeds after another. -/
theorem exists_of_bind_eq_ok {ε σ α β : Type} {x : ExceptT ε (StateM σ) α} {f : α → ExceptT ε (StateM σ) β}
    {s s' : σ} {b : β} (h : (x >>= f).run.run s = (.ok b, s')) :
    ∃ a s₁, x.run.run s = (.ok a, s₁) ∧ (f a).run.run s₁ = (.ok b, s') := by
  rw [ExceptT.run_bind] at h
  change (match (x.run.run s) with | (r, s₁) => (match r with
    | .ok a => (f a).run
    | .error e => pure (Except.error e) : StateM σ (Except ε β)).run s₁) = _ at h
  rcases hx : x.run.run s with ⟨r, s₁⟩
  rw [hx] at h
  cases r with
  | ok a => exact ⟨a, s₁, rfl, h⟩
  | error e => cases congrArg Prod.fst h

variable {values : Dictionary String} {tree tree' : FileTree} {args : List String} {job : Job}

theorem hasValues_shell : (FileTree.shell values).HasValues values.get? := fun _ => rfl

theorem run_orFail {ε α : Type} {f : ε → Failure} {act : StateM FileTree (Except ε α)} {r : Except ε α}
    (hact : act.run tree = (r, tree)) {a : α} (h : (orFail f act).run.run tree = (.ok a, tree')) :
    r = .ok a ∧ tree = tree' := by
  have hrun : (orFail f act).run.run tree = (r.mapError f, tree) := by
    show (Except.mapError f <$> act).run tree = _
    rw [StateT.run_map, hact]
    rfl
  rw [hrun] at h
  obtain ⟨hr, rfl⟩ := Prod.mk.inj h
  cases r with
  | ok b => exact ⟨congrArg Except.ok (Except.ok.inj hr), rfl⟩
  | error e => cases hr

theorem run_liftM {α : Type} {act : StateM FileTree α} {b : α} (hact : act.run tree = (b, tree)) {a : α}
    (h : (liftM act : ExceptT Failure (StateM FileTree) α).run.run tree = (.ok a, tree')) :
    b = a ∧ tree = tree' := by
  have hrun : (liftM act : ExceptT Failure (StateM FileTree) α).run.run tree = (.ok b, tree) := by
    show (Except.ok <$> act).run tree = _
    rw [StateT.run_map, hact]
    rfl
  rw [hrun] at h
  obtain ⟨hr, rfl⟩ := Prod.mk.inj h
  exact ⟨Except.ok.inj hr, rfl⟩

theorem run_pure {α : Type} {a b : α}
    (h : (pure a : ExceptT Failure (StateM FileTree) α).run.run tree = (.ok b, tree')) : a = b ∧ tree = tree' := by
  obtain ⟨hb, rfl⟩ := Prod.mk.inj h
  exact ⟨Except.ok.inj hb, rfl⟩

/-- Reading locations leaves all files as they are. -/
theorem run_readAll (env : Environment) (ls : List String) :
    ((FileTree.shell values).readAll env ls).run tree =
      (ls.map fun l => (l, tree.read (Location.resolve env l)), tree) := by
  induction ls with
  | nil => rfl
  | cons l ls ih =>
    rw [Shell.readAll, List.mapM_cons]
    show (((FileTree.shell values).readAll env ls >>= fun rs => pure (_ :: rs)) : StateM FileTree _).run tree = _
    rw [StateT.run_bind, ih]
    rfl

/-- The contents that a run has at hand are those found at their locations when it starts. -/
theorem load_of_prepare (h : (prepare (FileTree.shell values) args).run.run tree = (.ok job, tree')) :
    tree' = tree ∧ ∃ options found, Options.parse args = .ok options ∧
      ((Config.load (FileTree.shell values) (Config.userPath (.ofValues values.get?))).run tree).1 = .ok found ∧
      job.services.locations = (found.getD .empty).fragmentLocations ∧
      job.model.contentLocations = (found.getD .empty).contentLocations ++ options.contentLocations ∧
      ∀ l ∈ (found.getD .empty).allLocations ++ options.contentLocations,
        job.services.load l = (((FileTree.shell values).loadContent l).run tree).1 := by
  have hload : ∀ path, (Config.load (FileTree.shell values) path).run tree =
      (((Config.load (FileTree.shell values) path).run tree).1, tree) := fun path => by
    rw [Config.load_eq hasValues_shell]
    rfl
  unfold prepare at h
  obtain ⟨options, s₁, hoptions, h₁⟩ := exists_of_bind_eq_ok h
  obtain ⟨hparse, rfl⟩ := run_orFail (r := Options.parse args) rfl hoptions
  obtain ⟨home, s₂, hhome, h₂⟩ := exists_of_bind_eq_ok h₁
  obtain ⟨rfl, rfl⟩ := run_liftM rfl hhome
  obtain ⟨found, s₃, hfound, h₃⟩ := exists_of_bind_eq_ok h₂
  obtain ⟨hconfig, rfl⟩ := run_orFail (hload _) hfound
  obtain ⟨document, s₄, hdocument, h₄⟩ := exists_of_bind_eq_ok h₃
  obtain ⟨-, rfl⟩ := run_orFail rfl hdocument
  obtain ⟨row, s₅, hrow, h₅⟩ := exists_of_bind_eq_ok h₄
  obtain rfl : tree = s₅ := by
    cases hdata : options.data with
    | none =>
      rw [hdata] at hrow
      exact congrArg Prod.snd hrow
    | some path =>
      rw [hdata, Option.mapM_some, map_eq_pure_bind] at hrow
      obtain ⟨_, _, hread, hpure⟩ := exists_of_bind_eq_ok hrow
      obtain ⟨-, rfl⟩ := run_orFail rfl hread
      exact congrArg Prod.snd hpure
  obtain ⟨env, s₆, henv, h₆⟩ := exists_of_bind_eq_ok h₅
  have hvalues : (FileTree.shell values).HasValues values.get? := hasValues_shell
  obtain ⟨env', henv', hresolve⟩ := hvalues.environment
    ((found.getD .empty).allLocations ++ options.contentLocations)
  rw [henv'] at henv
  have hpure : (pure env' : StateM FileTree Environment).run tree = (env', tree) := rfl
  obtain ⟨rfl, rfl⟩ := run_liftM hpure henv
  obtain ⟨contents, s₇, hcontents, h₇⟩ := exists_of_bind_eq_ok h₆
  obtain ⟨rfl, rfl⟩ := run_liftM (run_readAll _ _) hcontents
  obtain ⟨rfl, rfl⟩ := run_pure h₇
  refine ⟨rfl, options, found, hparse, hconfig, rfl, rfl, fun l hl => ?_⟩
  have hfind := Shell.find?_map_of_mem (fun l => tree.read (Location.resolve env' l)) hl
  have hl' := hresolve l hl
  rw [hasValues_shell.loadContent]
  simp only [services, hfind, Option.map_some, Option.getD_some, Shell.contentOfRead_congr hl', hl']
  rfl

end CommandLine

/-- **A configured location is expanded twice.**  A configuration is loaded with every location, of fragments and of
contents alike, replaced by what it stands for, and the content at such a location is in the file that this again
stands for.  It is the file that the written location stands for if its expansion fails, or leaves neither a dollar
sign nor a tilde at the start. -/
theorem loadContent_configured {m : Type → Type} [Monad m] [LawfulMonad m] {shell : Shell m}
    {values : String → Option String} (h : shell.HasValues values) :
    (∀ path, Config.load shell path =
      (fun r => (Config.ofRead path r).map (Option.map (Config.expand (.ofValues values)))) <$> shell.read path) ∧
    (∀ (c : Config) id, (c.expand (.ofValues values)).fragmentLocations id =
      (c.fragmentLocations id).map (Location.resolve (.ofValues values))) ∧
    (∀ c : Config, (c.expand (.ofValues values)).contentLocations =
      c.contentLocations.map (Location.resolve (.ofValues values))) ∧
    ∀ l,
      (let stored := Location.resolve (.ofValues values) l
      shell.loadContent stored = contentOfRead (.ofValues values) stored <$>
        shell.read (Location.resolve (.ofValues values) stored)) ∧
      (Location.expand? (.ofValues values) l.toList = none →
        Location.resolve (.ofValues values) (Location.resolve (.ofValues values) l) = l) ∧
      ∀ r, Location.expand? (.ofValues values) l.toList = some r → '$' ∉ r → r.head? ≠ some '~' →
        Location.resolve (.ofValues values) (Location.resolve (.ofValues values) l) = String.ofList r := by
  refine ⟨Config.load_eq h, Config.fragmentLocations_expand _, fun _ => rfl, fun l =>
    ⟨h.loadContent _, fun hfails => ?_, fun r hr hdollar htilde => ?_⟩⟩
  · rw [Location.resolve_of_expand?_eq_none hfails, Location.resolve_of_expand?_eq_none hfails]
  · rw [Location.resolve_of_expand?_eq_some hr]
    exact Location.resolve_of_notMem (by rwa [String.toList_ofList]) (by rwa [String.toList_ofList])

section Dollar

/-- A configuration that names one content with a dollar sign written twice, and one with a variable. -/
def dollarConfig : Text := "content_locations = ['$$A/x', '$A/x']".toList

/-- The file of that configuration and those of the contents. -/
def dollarFiles : FileTree where
  directories := [["$A"], ["d"]]
  files := [(["c"], some dollarConfig), (["$A", "x"], some "text = 'dollar'".toList),
    (["d", "x"], some "text = 'variable'".toList)]

/-- The one variable there. -/
def dollarValues : Dictionary String := .ofList [("A", "d")]

/-- What locations refer to there. -/
def dollarEnvironment : Environment := .ofValues dollarValues.get?

theorem load_dollarFiles :
    ((Config.load (FileTree.shell dollarValues) "c").run dollarFiles).1 =
      .ok (some ⟨⟨false, false⟩, .empty, ["$A/x", "d/x"]⟩) := by
  have hread : dollarFiles.read "c" = .ok dollarConfig := by cbv
  have hparse : Config.parse dollarConfig = some ⟨⟨false, false⟩, .empty, ["$$A/x", "$A/x"]⟩ := by cbv
  rw [Config.load_eq CommandLine.hasValues_shell]
  show (Config.ofRead _ (dollarFiles.read "c")).map _ = _
  rw [hread, Config.ofRead, hparse]
  cbv

/-- A location that stands for the second content leads to it. -/
theorem run_loadContent_dollarFiles {l : String} (h : Location.resolve dollarEnvironment l = "d/x") :
    (((FileTree.shell dollarValues).loadContent l).run dollarFiles).1 =
      .ok (Document.ofText "variable".toList) := by
  have hread : dollarFiles.read "d/x" = .ok "text = 'variable'".toList := by cbv
  rw [CommandLine.hasValues_shell.loadContent]
  show contentOfRead dollarEnvironment _ (dollarFiles.read (Location.resolve dollarEnvironment l)) = _
  rw [h, hread, contentOfRead, h]
  cbv

/-- The location with a variable leads to the file that it stands for. -/
theorem loadContent_configured_variable :
    (FileTree.shell dollarValues).HasValues dollarValues.get? ∧
    Location.expand? dollarEnvironment "$A/x".toList = some "d/x".toList ∧
    Location.resolve dollarEnvironment (Location.resolve dollarEnvironment "$A/x") = "d/x" ∧
    (((FileTree.shell dollarValues).loadContent (Location.resolve dollarEnvironment "$A/x")).run dollarFiles).1 =
      .ok (Document.ofText "variable".toList) := by
  have hvalues : (FileTree.shell dollarValues).HasValues dollarValues.get? := fun _ => rfl
  have hexpand : Location.expand? dollarEnvironment "$A/x".toList = some "d/x".toList := by cbv
  obtain ⟨-, -, -, hopened⟩ := loadContent_configured hvalues
  obtain ⟨-, -, hplain⟩ := hopened "$A/x"
  have htwice := hplain _ hexpand (by decide) (by decide)
  exact ⟨hvalues, hexpand, htwice, run_loadContent_dollarFiles htwice⟩

/-- The location with a doubled dollar sign leads there too, and not to the file that it stands for. -/
theorem loadContent_doubledDollar :
    Location.resolve dollarEnvironment "$$A/x" = "$A/x" ∧
    ((Config.load (FileTree.shell dollarValues) "c").run dollarFiles).1 =
      .ok (some ⟨⟨false, false⟩, .empty, ["$A/x", "d/x"]⟩) ∧
    dollarFiles.read "$A/x" = .ok "text = 'dollar'".toList ∧
    (((FileTree.shell dollarValues).loadContent "$A/x").run dollarFiles).1 =
      .ok (Document.ofText "variable".toList) :=
  ⟨by cbv, load_dollarFiles, by cbv, run_loadContent_dollarFiles (by cbv)⟩

end Dollar

end TemplateEngine
