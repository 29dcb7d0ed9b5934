import TemplateEngine.Proofs.Tracking

/-!
# Synchrony — a refreshed list and its document

That a range comes before another one is a strict order: the earlier start counts, and of two ranges with
one start the later stop (`comesBefore_iff`).  So a command put before the first one it comes before stands
right if the others did (`InOrder.insertInOrder`), and a refresh brings the list of commands into step with
the document (`isSynchronised_refresh`): it holds the commands of the document's bookmarks, each once and
in document order, those it knew before as they were.
-/

namespace TemplateEngine

theorem drop_length_takeWhile {α : Type} (p : α → Bool) (l : List α) :
    l.drop (l.takeWhile p).length = l.dropWhile p := by
  induction l with
  | nil => rfl
  | cons x l ih =>
    rw [List.takeWhile_cons, List.dropWhile_cons]
    split
    · rw [List.length_cons, List.drop_succ_cons, ih]
    · rfl

/-- Where an element is put behind the first ones of a list that stay in front of it. -/
theorem exists_insert_takeWhile {α : Type} (stays : α → Bool) (x : α) (l : List α) :
    ∃ earlier later, l = earlier ++ later ∧
      l.takeWhile stays ++ x :: l.drop (l.takeWhile stays).length = earlier ++ x :: later ∧
      (∀ y ∈ earlier, stays y = true) ∧ ∀ first ∈ later.head?, stays first = false := by
  refine ⟨l.takeWhile stays, l.dropWhile stays, List.takeWhile_append_dropWhile.symm,
    by rw [drop_length_takeWhile], fun y hy => List.mem_takeWhile_imp hy, fun first hfirst => ?_⟩
  have hnot := List.head?_dropWhile_not stays l
  rw [Option.mem_def.1 hfirst] at hnot
  simpa using hnot

namespace Command

variable {d : Document} {c : Command} {cs : List Command}

/-! ### The commands there can be -/

/-- The commands that come of reading names of bookmarks and of what is done to a command. -/
inductive Arises : Command → Prop where
  | read {name : String} {c : Command} : ofBookmark? name = some c → Arises c
  | setFailed {c : Command} (b : Bool) : Arises c → Arises (c.setFailed b)
  | unmark {c : Command} : Arises c → Arises c.unmark
  | insertBetweenMarks {c c' : Command} {d content d' : Document} {e : Option Refusal} :
      Arises c → c.insertBetweenMarks d content = .ok (c', d', e) → Arises c'
  | markDone {c : Command} (d : Document) (remove : Bool) : Arises c → Arises (c.markDone d remove).1

theorem Arises.isNamed (h : c.Arises) : c.IsNamed := by
  induction h with
  | read h => exact isNamed_of_ofBookmark? h
  | setFailed b _ ih => exact ih.of_eq rfl rfl rfl
  | unmark _ ih => exact ih.of_eq rfl rfl rfl
  | @insertBetweenMarks c c' d content d' e _ h ih =>
    have hends := isNamed_insertBetweenMarks ih d content
    rw [h] at hends
    exact hends
  | markDone d remove _ ih => exact ih.markDone d remove

/-- The bookmark of a command is named as one. -/
theorem Arises.isCommandName (h : c.Arises) : IsCommandName c.bookmark := h.isNamed.isCommandName

/-! ### The order of commands -/

theorem precedes_relation (s t : Span) :
    ((TextRange.ofSpan s).relation (.ofSpan t)).precedes = !t.notAfter s := by
  have hrel : (TextRange.ofSpan s).relation (.ofSpan t) =
      .ordered (compare s.start t.start) (compare s.stop t.stop) := rfl
  rw [hrel, Bool.eq_iff_iff, Bool.not_eq_true', ← Bool.not_eq_true, Span.notAfter]
  rcases lt_trichotomy s.start t.start with h | h | h <;>
    rcases lt_trichotomy s.stop t.stop with h' | h' | h' <;>
    simp [compare_lt_iff_lt.2, compare_gt_iff_gt.2, h, h', Relation.precedes, Relation.isBefore,
      Relation.encloses] <;> omega

theorem range?_eq_map (c : Command) (d : Document) :
    c.range? d = (d.span? c.bookmark).map .ofSpan := by
  rw [range?, Document.bookmarkRange?, Document.span?, Option.map_map]
  rfl

/-- One command comes before another one exactly if both have bookmarks and the other's is not in front
or level. -/
theorem comesBefore_iff {b : Command} : comesBefore d (c.range? d) b = true ↔
    ∃ s t, d.span? c.bookmark = some s ∧ d.span? b.bookmark = some t ∧ t.notAfter s = false := by
  rw [comesBefore, range?_eq_map, range?_eq_map]
  cases hs : d.span? c.bookmark with
  | none => simp [TextRange.relation?, Relation.precedes, Relation.isBefore, Relation.encloses]
  | some s =>
    cases ht : d.span? b.bookmark with
    | none => simp [TextRange.relation?, Relation.precedes, Relation.isBefore, Relation.encloses]
    | some t => simp [TextRange.relation?, precedes_relation]

theorem comesBefore_trans {a b : Command} (hab : comesBefore d (a.range? d) b = true)
    (hbc : comesBefore d (b.range? d) c = true) : comesBefore d (a.range? d) c = true := by
  obtain ⟨s, t, hs, ht, hst⟩ := comesBefore_iff.1 hab
  obtain ⟨t', u, ht', hu, htu⟩ := comesBefore_iff.1 hbc
  obtain rfl : t = t' := Option.some.inj (ht.symm.trans ht')
  refine comesBefore_iff.2 ⟨s, u, hs, hu, ?_⟩
  simp only [Span.notAfter, Bool.or_eq_false_iff, Bool.and_eq_false_iff, decide_eq_false_iff_not,
    beq_eq_false_iff_ne] at hst htu ⊢
  omega

theorem comesBefore_asymm {b : Command} (h : comesBefore d (b.range? d) c = true) :
    comesBefore d (c.range? d) b = false := by
  rw [← Bool.not_eq_true]
  intro h'
  obtain ⟨s, t, hs, ht, hst⟩ := comesBefore_iff.1 h
  obtain ⟨t', s', ht', hs', hts⟩ := comesBefore_iff.1 h'
  obtain rfl : s = s' := Option.some.inj (hs.symm.trans hs')
  obtain rfl : t = t' := Option.some.inj (ht.symm.trans ht')
  simp only [Span.notAfter, Bool.or_eq_false_iff, Bool.and_eq_false_iff, decide_eq_false_iff_not,
    beq_eq_false_iff_ne] at hst hts
  omega

/-- Whether no command of a list comes before an earlier one of the list. -/
def InOrder (d : Document) (cs : List Command) : Prop :=
  cs.Pairwise fun earlier later => comesBefore d (later.range? d) earlier = false

/-- Where a command is put: behind those it does not come before, in front of the first one it does. -/
theorem exists_insertInOrder (d : Document) (c : Command) (cs : List Command) :
    ∃ earlier later, cs = earlier ++ later ∧ insertInOrder d c cs = earlier ++ c :: later ∧
      (∀ x ∈ earlier, comesBefore d (c.range? d) x = false) ∧
      ∀ first ∈ later.head?, comesBefore d (c.range? d) first = true := by
  obtain ⟨earlier, later, hcs, hinsert, hstays, hfirst⟩ :=
    exists_insert_takeWhile (fun other => !comesBefore d (c.range? d) other) c cs
  exact ⟨earlier, later, hcs, hinsert, fun x hx => by simpa using hstays x hx,
    fun first hhead => by simpa using hfirst first hhead⟩

/-- A command put before the first one it comes before stands right. -/
theorem InOrder.insertInOrder (h : InOrder d cs) (c : Command) :
    InOrder d (insertInOrder d c cs) := by
  obtain ⟨earlier, later, rfl, hinsert, hstays, hfirst⟩ := exists_insertInOrder d c cs
  obtain ⟨hearlier, hlater, hacross⟩ := List.pairwise_append.1 h
  -- of the commands behind `c`, the first one comes after it and the others not before that one
  have hbehind : ∀ x ∈ later, comesBefore d (x.range? d) c = false := by
    cases later with
    | nil => simp
    | cons first rest =>
      have hfirst : comesBefore d (c.range? d) first = true := hfirst first rfl
      intro x hx
      rcases List.mem_cons.1 hx with rfl | hx
      · exact comesBefore_asymm hfirst
      · rw [← Bool.not_eq_true]
        intro hxc
        exact Bool.eq_false_iff.1 ((List.pairwise_cons.1 hlater).1 x hx)
          (comesBefore_trans hxc hfirst)
  rw [InOrder, hinsert]
  refine List.pairwise_append.2 ⟨hearlier, List.pairwise_cons.2 ⟨hbehind, hlater⟩, fun x hx y hy => ?_⟩
  rcases List.mem_cons.1 hy with rfl | hy
  · exact hstays x hx
  · exact hacross x hx y hy

theorem InOrder.discover (h : InOrder d cs) (names : List String) : InOrder d (discover d names cs) :=
  Document.foldl_invariant (fun _ c hcs => hcs.insertInOrder c) _ h

/-! ### What a refresh keeps and finds -/

theorem sublist_insertInOrder : cs.Sublist (insertInOrder d c cs) := by
  obtain ⟨earlier, later, rfl, hinsert, -, -⟩ := exists_insertInOrder d c cs
  rw [hinsert]
  exact (List.sublist_cons_self c later).append_left earlier

theorem sublist_discover (names : List String) : cs.Sublist (discover d names cs) :=
  Document.foldl_invariant (I := fun cs' => cs.Sublist cs')
    (fun _ _ h => h.trans sublist_insertInOrder) _ (.refl cs)

/-- The names of the commands found are those of the names looked at that are names of commands. -/
theorem map_bookmark_filterMap (names : List String) :
    (names.filterMap ofBookmark?).map (·.bookmark) =
      names.filter fun n => (ofBookmark? n).isSome := by
  induction names with
  | nil => rfl
  | cons n ns ih =>
    cases h : ofBookmark? n with
    | none => simp [h, ih]
    | some c => simp [h, ih, bookmark_of_ofBookmark? h]

theorem nodup_refresh (hd : d.names.Nodup) (hcs : (cs.map (·.bookmark)).Nodup) :
    ((refresh d cs).1.map (·.bookmark)).Nodup := by
  let kept := surviving d cs
  have hperm : ((discover d (unknownNames d kept) kept).map (·.bookmark)).Perm
      (((unknownNames d kept).filterMap ofBookmark? ++ kept).map (·.bookmark)) :=
    (perm_discover _).map _
  show ((discover d (unknownNames d kept) kept).map (·.bookmark)).Nodup
  rw [hperm.nodup_iff, List.map_append, map_bookmark_filterMap, List.nodup_append]
  have hsorted : d.bookmarkNames.Nodup :=
    ((List.mergeSort_perm d.bookmarks _).map Bookmark.name).nodup_iff.2 hd
  refine ⟨(hsorted.filter _).filter _, hcs.sublist (List.filter_sublist.map _), ?_⟩
  rintro n hn m hm rfl
  obtain ⟨c, hc, hcn⟩ := List.mem_map.1 hm
  exact (mem_unknownNames.1 (List.mem_of_mem_filter hn)).2 c hc hcn

theorem mem_map_refresh_iff (harises : ∀ c ∈ cs, c.Arises) {n : String} :
    n ∈ (refresh d cs).1.map (·.bookmark) ↔ n ∈ d.names ∧ IsCommandName n := by
  constructor
  · intro hn
    obtain ⟨c, hc, rfl⟩ := List.mem_map.1 hn
    refine ⟨bookmark_mem_of_mem_refresh hc, ?_⟩
    rcases mem_refresh_iff.1 hc with ⟨hc, -⟩ | ⟨m, -, -, hm⟩
    · exact (harises c hc).isCommandName
    · exact (Arises.read hm).isCommandName
  · rintro ⟨hn, hname⟩
    obtain ⟨c, hc⟩ := Option.isSome_iff_exists.1 hname
    obtain ⟨x, hx, rfl⟩ := exists_mem_refresh hn hc
    exact List.mem_map_of_mem hx

/-- A list that has the commands of the document is left as it is. -/
theorem refresh_eq_self (h : ∀ n, n ∈ cs.map (·.bookmark) ↔ n ∈ d.names ∧ IsCommandName n) :
    refresh d cs = (cs, false) := by
  have hkept : surviving d cs = cs := List.filter_eq_self.2 fun c hc =>
    Document.isSome_bookmark?_iff.2 ((h _).1 (List.mem_map_of_mem hc)).1
  have hfound : (unknownNames d cs).filterMap ofBookmark? = [] := by
    refine List.filterMap_eq_nil_iff.2 fun n hn => Option.not_isSome_iff_eq_none.1 fun hname => ?_
    obtain ⟨hn, hunknown⟩ := mem_unknownNames.1 hn
    obtain ⟨c, hc, hcn⟩ := List.mem_map.1 ((h n).2 ⟨hn, hname⟩)
    exact hunknown c hc hcn
  have hlength : ((surviving d cs).length != cs.length ||
      !((unknownNames d (surviving d cs)).filterMap ofBookmark?).isEmpty) = false := by
    rw [hkept, hfound]
    simp
  exact Prod.ext (refresh_eq_of_unchanged hlength) hlength

/-- A refresh tells whether the list is another one. -/
theorem refresh_snd_iff : (refresh d cs).2 = true ↔ (refresh d cs).1 ≠ cs := by
  rw [← not_iff_not, Bool.not_eq_true, not_not]
  refine ⟨refresh_eq_of_unchanged, fun h => ?_⟩
  let kept := surviving d cs
  let found := (unknownNames d kept).filterMap ofBookmark?
  have hperm : (found ++ kept).Perm cs := (perm_discover _).symm.trans (.of_eq h)
  -- a command found would be one of the list already, whose name is known
  have hfound : found = [] := by
    refine List.eq_nil_iff_forall_not_mem.2 fun c hc => ?_
    obtain ⟨n, hn, hcn⟩ := List.mem_filterMap.1 hc
    obtain ⟨hn, hunknown⟩ := mem_unknownNames.1 hn
    have hc : c ∈ kept := mem_surviving.2 ⟨hperm.subset (List.mem_append_left _ hc), by
      rwa [bookmark_of_ofBookmark? hcn]⟩
    exact hunknown c hc (bookmark_of_ofBookmark? hcn)
  have hlength := hperm.length_eq
  rw [hfound, List.nil_append] at hlength
  show (kept.length != cs.length || !found.isEmpty) = false
  rw [hlength, hfound]
  simp

/-! ### Synchrony -/

/-- How a list of commands and the word whether it changed stand to the document and to the list before. -/
structure IsSynchronised (d : Document) (before after : List Command) (changed : Bool) : Prop where
  /-- Each command has a bookmark of its own. -/
  nodup : (after.map (·.bookmark)).Nodup
  /-- The bookmarks are those of the document that are named as commands. -/
  bookmarks : ∀ n, n ∈ after.map (·.bookmark) ↔ n ∈ d.names ∧ IsCommandName n
  inOrder : InOrder d after
  /-- The commands that are still there are listed as they were and in the order they had. -/
  kept : (surviving d before).Sublist after
  /-- The other commands are as their bookmarks' names tell. -/
  found : ∀ c ∈ after, c ∉ surviving d before → ofBookmark? c.bookmark = some c
  changed_iff : changed = true ↔ after ≠ before
  /-- There is nothing left to do. -/
  settled : refresh d after = (after, false)

/-- A refresh brings a list of commands into step with the document. -/
theorem isSynchronised_refresh (hd : d.names.Nodup) (hcs : (cs.map (·.bookmark)).Nodup)
    (harises : ∀ c ∈ cs, c.Arises) (hord : InOrder d (surviving d cs)) :
    IsSynchronised d cs (refresh d cs).1 (refresh d cs).2 where
  nodup := nodup_refresh hd hcs
  bookmarks _ := mem_map_refresh_iff harises
  inOrder := hord.discover _
  kept := sublist_discover _
  found := by
    intro c hc hnew
    rcases mem_refresh_iff.1 hc with hold | ⟨n, -, -, hn⟩
    · exact absurd (mem_surviving.2 hold) hnew
    · rwa [bookmark_of_ofBookmark? hn]
  changed_iff := refresh_snd_iff
  settled := refresh_eq_self fun _ => mem_map_refresh_iff harises

/-- A document with a command inside another one. -/
def nestedCommands : Document :=
  { Document.ofText "0123456789".toList with
    bookmarks := [⟨"DOC(CMD 'form')", ⟨2, 3⟩⟩, ⟨"DOC(CMD 'updateFields')", ⟨1, 6⟩⟩,
      ⟨"unrelated", ⟨0, 10⟩⟩] }

/-- Two failed commands, one of which the document no longer has. -/
def twoFailed : List Command :=
  (["DOC(CMD 'insertContent')", "DOC(CMD 'form')"].filterMap ofBookmark?).map (·.setFailed true)

theorem arises_twoFailed : ∀ c ∈ twoFailed, c.Arises := by
  intro c hc
  obtain ⟨c₀, hc₀, rfl⟩ := List.mem_map.1 hc
  obtain ⟨n, -, hn⟩ := List.mem_filterMap.1 hc₀
  exact (Arises.read hn).setFailed true

theorem inOrder_twoFailed : InOrder nestedCommands (surviving nestedCommands twoFailed) := by
  have hkept : (surviving nestedCommands twoFailed).length = 1 := by cbv
  obtain ⟨c, hc⟩ := List.length_eq_one_iff.1 hkept
  rw [hc]
  exact List.pairwise_singleton _ _

/-- The new command is put around the one that was known, which is still failed. -/
theorem isSynchronised_refresh_nestedCommands :
    IsSynchronised nestedCommands twoFailed (refresh nestedCommands twoFailed).1
      (refresh nestedCommands twoFailed).2 ∧
    (refresh nestedCommands twoFailed).1.map (·.bookmark) =
      ["DOC(CMD 'updateFields')", "DOC(CMD 'form')"] := by
  have hnames : twoFailed.map (·.bookmark) = ["DOC(CMD 'insertContent')", "DOC(CMD 'form')"] := by cbv
  have hnodup : (twoFailed.map (·.bookmark)).Nodup := by
    rw [hnames]
    decide
  exact ⟨isSynchronised_refresh (by decide) hnodup arises_twoFailed inOrder_twoFailed, by cbv⟩

end Command

end TemplateEngine
