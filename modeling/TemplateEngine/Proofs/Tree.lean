import TemplateEngine.Command.Tree
import TemplateEngine.Proofs.Bookmarks

/-!
# Tree — what a refreshed list of commands holds

* `mem_refresh_iff`: a refreshed list holds the commands whose bookmarks are there and the commands of
  the bookmarks that none of these has.
* `exists_mem_refresh`: every bookmark that holds a command has one in the list.
* `refresh_eq_of_unchanged`: a refresh that tells no difference leaves the list as it is.
-/

namespace TemplateEngine

namespace Command

variable {d : Document} {c : Command} {cs : List Command}

theorem perm_insertInOrder : (insertInOrder d c cs).Perm (c :: cs) := by
  let earlier := cs.takeWhile fun other => !comesBefore d (c.range? d) other
  have hcs : earlier ++ cs.drop earlier.length = cs := by
    have hprefix : earlier <+: cs := List.takeWhile_prefix _
    rw [List.prefix_iff_eq_append] at hprefix
    exact hprefix
  show (earlier ++ c :: cs.drop earlier.length).Perm (c :: cs)
  conv_rhs => rw [← hcs]
  exact List.perm_middle

/-- The commands found are put among those there are. -/
theorem perm_discover (names : List String) :
    (discover d names cs).Perm (names.filterMap ofBookmark? ++ cs) := by
  have hfold : ∀ (ds cs : List Command),
      (ds.foldl (fun cs c => insertInOrder d c cs) cs).Perm (ds ++ cs) := by
    intro ds
    induction ds with
    | nil => exact fun cs => .refl cs
    | cons c ds ih =>
      intro cs
      exact (ih _).trans ((perm_insertInOrder.append_left ds).trans List.perm_middle)
  exact hfold _ cs

theorem mem_discover {names : List String} {x : Command} :
    x ∈ discover d names cs ↔ x ∈ cs ∨ ∃ n ∈ names, ofBookmark? n = some x := by
  rw [(perm_discover names).mem_iff, List.mem_append, List.mem_filterMap, or_comm]

theorem mem_bookmarkNames {n : String} : n ∈ d.bookmarkNames ↔ n ∈ d.names := by
  simp [Document.bookmarkNames, Document.sortedBookmarks, Document.names]

theorem mem_surviving {x : Command} : x ∈ surviving d cs ↔ x ∈ cs ∧ x.bookmark ∈ d.names := by
  rw [surviving, List.mem_filter, Document.isSome_bookmark?_iff]

theorem mem_unknownNames {n : String} :
    n ∈ unknownNames d cs ↔ n ∈ d.names ∧ ∀ c ∈ cs, c.bookmark ≠ n := by
  simp [unknownNames, mem_bookmarkNames]

/-- What a refreshed list holds. -/
theorem mem_refresh_iff {x : Command} :
    x ∈ (refresh d cs).1 ↔ (x ∈ cs ∧ x.bookmark ∈ d.names) ∨
      ∃ n ∈ d.names, (∀ c ∈ cs, c.bookmark ≠ n) ∧ ofBookmark? n = some x := by
  show x ∈ discover d (unknownNames d (surviving d cs)) (surviving d cs) ↔ _
  rw [mem_discover, mem_surviving]
  refine or_congr_right (exists_congr fun n => ?_)
  rw [mem_unknownNames, and_assoc]
  refine and_congr_right fun hn => and_congr_left fun _ => forall_congr' fun c => ?_
  rw [mem_surviving]
  constructor
  · rintro h hc rfl
    exact h ⟨hc, hn⟩ rfl
  · rintro h ⟨hc, -⟩
    exact h hc

/-- What holds of the commands of a list and of those of all bookmarks holds of a refreshed list. -/
theorem forall_mem_refresh {P : Command → Prop} (hold : ∀ c ∈ cs, P c)
    (hnew : ∀ n ∈ d.names, ∀ c, ofBookmark? n = some c → P c) : ∀ c ∈ (refresh d cs).1, P c := by
  intro c hc
  rcases mem_refresh_iff.1 hc with ⟨hc, -⟩ | ⟨n, hn, -, hname⟩
  · exact hold c hc
  · exact hnew n hn c hname

/-- Every bookmark that holds a command has one in a refreshed list. -/
theorem exists_mem_refresh {n : String} (hn : n ∈ d.names) (hc : ofBookmark? n = some c) :
    ∃ x ∈ (refresh d cs).1, x.bookmark = n := by
  by_cases hknown : ∃ x ∈ cs, x.bookmark = n
  · obtain ⟨x, hx, rfl⟩ := hknown
    exact ⟨x, mem_refresh_iff.2 (.inl ⟨hx, hn⟩), rfl⟩
  · refine ⟨c, mem_refresh_iff.2 (.inr ⟨n, hn, fun x hx hb => hknown ⟨x, hx, hb⟩, hc⟩), ?_⟩
    exact bookmark_of_ofBookmark? hc

/-- All commands of a refreshed list have bookmarks. -/
theorem bookmark_mem_of_mem_refresh {x : Command} (hx : x ∈ (refresh d cs).1) :
    x.bookmark ∈ d.names := by
  rcases mem_refresh_iff.1 hx with ⟨-, h⟩ | ⟨n, hn, -, h⟩
  · exact h
  · rwa [bookmark_of_ofBookmark? h]

/-- A refresh that tells no difference leaves the list as it is. -/
theorem refresh_eq_of_unchanged (h : (refresh d cs).2 = false) : (refresh d cs).1 = cs := by
  have h' : ((surviving d cs).length != cs.length ||
      !((unknownNames d (surviving d cs)).filterMap ofBookmark?).isEmpty) = false := h
  simp only [Bool.or_eq_false_iff, bne_eq_false_iff_eq, Bool.not_eq_false', List.isEmpty_iff] at h'
  have hkept : surviving d cs = cs := List.filter_sublist.eq_of_length h'.1
  show ((unknownNames d (surviving d cs)).filterMap ofBookmark?).foldl _ (surviving d cs) = cs
  rw [h'.2, List.foldl_nil, hkept]

/-- The commands of a document are those that its bookmarks hold. -/
theorem mem_ofDocument_iff {x : Command} :
    x ∈ ofDocument d ↔ ∃ n ∈ d.names, ofBookmark? n = some x := by
  rw [ofDocument, mem_refresh_iff]
  simp

end Command

end TemplateEngine
