/-!
# Text — characters addressed by byte offsets

A running text is a list of characters.  Positions in it are byte offsets of its UTF-8 form, so a
position can lie inside a character or past the end.  `splitAt?` answers exactly at character
boundaries inside the text; slices and replacements are built from it.

Paragraphs are the stretches between line breaks.
-/

namespace TemplateEngine

/-- A running text; positions in it count the bytes of its UTF-8 form. -/
abbrev Text := List Char

namespace Text

/-! ### Length -/

/-- Number of bytes of the UTF-8 form. -/
def byteLength : Text → Nat
  | [] => 0
  | c :: t => c.utf8Size + byteLength t

@[simp] theorem byteLength_nil : byteLength [] = 0 := rfl

@[simp] theorem byteLength_cons (c : Char) (t : Text) :
    byteLength (c :: t) = c.utf8Size + byteLength t := rfl

@[simp] theorem byteLength_append (a b : Text) :
    byteLength (a ++ b) = byteLength a + byteLength b := by
  induction a with
  | nil => simp
  | cons c t ih => simp [ih, Nat.add_assoc]

/-! ### Cutting at a position -/

/-- The parts before and after byte offset `n`, where `n` is a character boundary of the text. -/
def splitAt? : Text → Nat → Option (Text × Text)
  | t, 0 => some ([], t)
  | [], _ + 1 => none
  | c :: t, n + 1 =>
    if c.utf8Size ≤ n + 1 then (splitAt? t (n + 1 - c.utf8Size)).map fun p => (c :: p.1, p.2)
    else none

@[simp] theorem splitAt?_zero (t : Text) : splitAt? t 0 = some ([], t) := by
  cases t <;> rfl

theorem splitAt?_cons (c : Char) (t : Text) {n : Nat} (h : 0 < n) :
    splitAt? (c :: t) n =
      if c.utf8Size ≤ n then (splitAt? t (n - c.utf8Size)).map fun p => (c :: p.1, p.2) else none := by
  cases n with
  | zero => omega
  | succ n => rfl

/-- A cut exists exactly where the text falls into two parts of which the first has that length. -/
theorem splitAt?_eq_some_iff {t : Text} {n : Nat} {a b : Text} :
    splitAt? t n = some (a, b) ↔ t = a ++ b ∧ byteLength a = n := by
  induction t generalizing n a b with
  | nil =>
    cases n with
    | zero => cases a <;> simp [splitAt?, eq_comm]
    | succ n =>
      cases a with
      | nil => simp [splitAt?]
      | cons c a => simp [splitAt?]
  | cons c t ih =>
    have hc := c.utf8Size_pos
    cases n with
    | zero =>
      cases a with
      | nil => simp [splitAt?, eq_comm]
      | cons d a =>
        have hd := d.utf8Size_pos
        simp only [splitAt?_zero, Option.some.injEq, Prod.mk.injEq, List.nil_eq, reduceCtorEq,
          false_and, List.cons_append, List.cons.injEq, byteLength_cons, false_iff, not_and]
        omega
    | succ n =>
      rw [splitAt?_cons c t (Nat.succ_pos n)]
      cases a with
      | nil =>
        constructor
        · intro h
          split at h
          · cases hs : splitAt? t (n + 1 - c.utf8Size) with
            | none => simp [hs] at h
            | some p => simp [hs] at h
          · simp at h
        · rintro ⟨-, h⟩
          simp at h
      | cons d a =>
        constructor
        · intro h
          split at h
          · rename_i hle
            cases hs : splitAt? t (n + 1 - c.utf8Size) with
            | none => simp [hs] at h
            | some p =>
              obtain ⟨p1, p2⟩ := p
              simp only [hs, Option.map_some, Option.some.injEq, Prod.mk.injEq,
                List.cons.injEq] at h
              obtain ⟨⟨rfl, rfl⟩, rfl⟩ := h
              have := ih.1 hs
              exact ⟨by simp [this.1], by simp [this.2]; omega⟩
          · simp at h
        · rintro ⟨h1, h2⟩
          simp only [List.cons_append, List.cons.injEq] at h1
          obtain ⟨rfl, h1⟩ := h1
          simp only [byteLength_cons] at h2
          have hle : c.utf8Size ≤ n + 1 := by omega
          have := ih.2 ⟨h1, (by omega : byteLength a = n + 1 - c.utf8Size)⟩
          simp [hle, this]

/-- Whether `n` is a position between characters, the text's two ends included. -/
def isBoundary (t : Text) (n : Nat) : Bool := (splitAt? t n).isSome

/-- The positions between characters are those that cut the text into two parts. -/
theorem isBoundary_iff {t : Text} {n : Nat} :
    isBoundary t n = true ↔ ∃ a b, t = a ++ b ∧ byteLength a = n := by
  unfold isBoundary
  rw [Option.isSome_iff_exists]
  constructor
  · rintro ⟨⟨a, b⟩, h⟩
    exact ⟨a, b, splitAt?_eq_some_iff.1 h⟩
  · rintro ⟨a, b, h⟩
    exact ⟨(a, b), splitAt?_eq_some_iff.2 h⟩

/-- The characters of bytes `start` to `stop`, where both are boundaries in this order. -/
def slice? (t : Text) (start stop : Nat) : Option Text := do
  let (before, _) ← splitAt? t stop
  let (_, inside) ← splitAt? before start
  return inside

/-- A slice is the middle of a text cut into three parts. -/
theorem slice?_eq_some_iff {t m : Text} {start stop : Nat} :
    slice? t start stop = some m ↔
      ∃ a c, t = a ++ m ++ c ∧ byteLength a = start ∧ byteLength (a ++ m) = stop := by
  unfold slice?
  constructor
  · intro h
    obtain ⟨⟨before, c⟩, h1, h⟩ := Option.bind_eq_some_iff.1 h
    obtain ⟨⟨a, inside⟩, h2, h⟩ := Option.bind_eq_some_iff.1 h
    obtain rfl : inside = m := Option.some.inj h
    obtain ⟨rfl, hb⟩ := splitAt?_eq_some_iff.1 h1
    obtain ⟨rfl, ha⟩ := splitAt?_eq_some_iff.1 h2
    exact ⟨a, c, rfl, ha, hb⟩
  · rintro ⟨a, c, rfl, ha, hb⟩
    rw [splitAt?_eq_some_iff.2 ⟨rfl, hb⟩]
    show (splitAt? (a ++ m) start).bind _ = _
    rw [splitAt?_eq_some_iff.2 ⟨rfl, ha⟩]
    rfl

/-- Long texts are kept in pieces of at most this many bytes. -/
def pieceLength : Nat := 1024

/-- The text before position `n`, where `n` is a boundary.  A position behind the last of several
pieces counts as the end of the text. -/
def before? (t : Text) (n : Nat) : Option Text :=
  if pieceLength < byteLength t ∧ byteLength t < n then some t else (splitAt? t n).map (·.1)

/-- The text from position `n` on, where `n` is a boundary or behind the text. -/
def after? (t : Text) (n : Nat) : Option Text :=
  if byteLength t ≤ n then some [] else (splitAt? t n).map (·.2)

/-- A text cut at the length of its first part. -/
@[simp] theorem before?_append (a b : Text) : before? (a ++ b) (byteLength a) = some a := by
  have : ¬(pieceLength < byteLength (a ++ b) ∧ byteLength (a ++ b) < byteLength a) := by
    rw [byteLength_append]
    omega
  rw [before?, if_neg this, splitAt?_eq_some_iff.2 ⟨rfl, rfl⟩]
  rfl

@[simp] theorem after?_append (a b : Text) : after? (a ++ b) (byteLength a) = some b := by
  unfold after?
  split
  next h =>
    rw [byteLength_append] at h
    cases b with
    | nil => rfl
    | cons c b =>
      have := c.utf8Size_pos
      rw [byteLength_cons] at h
      omega
  next => rw [splitAt?_eq_some_iff.2 ⟨rfl, rfl⟩]; rfl

/-- The text before `start`, a new text, and the text from `stop` on.  Where `stop` comes before
`start`, what is between them stays on both sides. -/
def replace? (t : Text) (start stop : Nat) (new : Text) : Option Text := do
  let before ← before? t start
  let after ← after? t stop
  return before ++ new ++ after

/-- A replacement keeps the two outer parts of a text cut into three. -/
theorem replace?_append (a m c new : Text) :
    replace? (a ++ m ++ c) (byteLength a) (byteLength (a ++ m)) new = some (a ++ new ++ c) := by
  have h : before? (a ++ m ++ c) (byteLength a) = some a := by
    rw [List.append_assoc]
    exact before?_append a (m ++ c)
  rw [replace?, h, after?_append]
  rfl

/-! ### Splitting at a character -/

/-- The stretches between the occurrences of `sep`. -/
def splitOn (sep : Char) : Text → List Text
  | [] => [[]]
  | c :: t =>
    if c = sep then [] :: splitOn sep t
    else
      match splitOn sep t with
      | [] => [[c]]
      | l :: ls => (c :: l) :: ls

/-- Splitting as the library does it. -/
theorem splitOn_eq (sep : Char) (t : Text) : splitOn sep t = List.splitOn sep t := by
  induction t with
  | nil => rfl
  | cons c t ih =>
    obtain ⟨l, ls, hls⟩ := List.exists_cons_of_ne_nil (List.splitOn_ne_nil sep t)
    rw [splitOn, ih, List.splitOn_cons_eq_if_modifyHead, hls]
    simp

theorem notMem_of_mem_splitOn {sep : Char} {t l : Text} (h : l ∈ splitOn sep t) : sep ∉ l := by
  induction t generalizing l with
  | nil =>
    obtain rfl : l = [] := by simpa [splitOn] using h
    exact List.not_mem_nil
  | cons c t ih =>
    rw [splitOn] at h
    split at h
    next hc =>
      rcases List.mem_cons.1 h with rfl | h
      · exact List.not_mem_nil
      · exact ih h
    next hc =>
      split at h
      next heq =>
        obtain rfl : l = [c] := by simpa using h
        simpa using Ne.symm hc
      next l' ls heq =>
        rcases List.mem_cons.1 h with rfl | h
        · have hnot : sep ∉ l' := ih (by simp [heq])
          simp [hnot, Ne.symm hc]
        · exact ih (by simp [heq, h])

/-! ### Stepping over characters -/

/-- The position `n` characters after `pos`. -/
def advance? (t : Text) : Nat → Nat → Option Nat
  | pos, 0 => some pos
  | pos, n + 1 =>
    match splitAt? t pos with
    | some (_, c :: _) => advance? t (pos + c.utf8Size) n
    | _ => none

/-- The position `n` characters before `pos`. -/
def retreat? (t : Text) : Nat → Nat → Option Nat
  | pos, 0 => some pos
  | pos, n + 1 =>
    match splitAt? t pos with
    | some (before, _) =>
      match before.getLast? with
      | some c => retreat? t (pos - c.utf8Size) n
      | none => none
    | none => none

/-- The position `delta` characters away from `pos`. -/
def move? (t : Text) (pos : Nat) : Int → Option Nat
  | .ofNat n => advance? t pos n
  | .negSucc n => retreat? t pos (n + 1)

/-! ### Paragraphs -/

/-- The part of a text after its last line break. -/
def lastLine (t : Text) : Text := (t.reverse.takeWhile (· ≠ '\n')).reverse

/-- The part of a text before its first line break. -/
def firstLine (t : Text) : Text := t.takeWhile (· ≠ '\n')

/-- Start and stop of the paragraph around position `pos`. -/
def paragraphAround? (t : Text) (pos : Nat) : Option (Nat × Nat) := do
  let (before, after) ← splitAt? t pos
  return (pos - byteLength (lastLine before), pos + byteLength (firstLine after))

/-- Start and stop of every paragraph of a text that begins at `pos` inside a paragraph that began
at `start`. -/
def paragraphsFrom (start pos : Nat) : Text → List (Nat × Nat)
  | [] => [(start, pos)]
  | c :: t =>
    if c = '\n' then (start, pos) :: paragraphsFrom (pos + 1) (pos + 1) t
    else paragraphsFrom start (pos + c.utf8Size) t

/-- Start and stop of every paragraph, in order. -/
def paragraphs (t : Text) : List (Nat × Nat) := paragraphsFrom 0 0 t

end Text

end TemplateEngine
