import RegisterMachine.Text.Blank

/-!
# Lines and words

A text is cut at the characters that satisfy a test. Cutting at line feeds
gives the lines, and there is always at least one; cutting at blanks and
dropping the empty pieces gives the words.

The two laws that the rest of the library leans on are `split_append_cons`,
by which a cut never reaches over a separator, and `length_split`, by which
the pieces are one more than the separators.
-/

namespace RegisterMachine.Text

variable (p : Char → Bool)

/-- Puts a character in front of the first piece. -/
def consFirst (c : Char) : List (List Char) → List (List Char)
  | [] => [[c]]
  | w :: ws => (c :: w) :: ws

/-- **The pieces between the separators**, in order, empty pieces
included. -/
def split (s : List Char) : List (List Char) :=
  s.foldr (fun c ws => if p c then [] :: ws else consFirst c ws) [[]]

@[simp] theorem split_nil : split p [] = [[]] := rfl

theorem split_cons (c : Char) (s : List Char) :
    split p (c :: s)
      = if p c then [] :: split p s else consFirst c (split p s) := rfl

theorem split_ne_nil (s : List Char) : split p s ≠ [] := by
  cases s with
  | nil => simp
  | cons c s =>
    rw [split_cons]
    split
    · simp
    · unfold consFirst
      split <;> simp

@[simp] theorem consFirst_append (c : Char) {ws : List (List Char)}
    (h : ws ≠ []) (vs : List (List Char)) :
    consFirst c (ws ++ vs) = consFirst c ws ++ vs := by
  cases ws with
  | nil => exact absurd rfl h
  | cons w ws => rfl

/-- **A cut does not reach over a separator**: the pieces of a text with a
separator in it are those on its left, then those on its right. -/
theorem split_append_cons (s t : List Char) {c : Char} (h : p c = true) :
    split p (s ++ c :: t) = split p s ++ split p t := by
  induction s with
  | nil => simp [split_cons, h]
  | cons d s ih =>
    rw [List.cons_append, split_cons, split_cons, ih]
    split
    · rfl
    · rw [consFirst_append d (split_ne_nil p s)]

theorem length_consFirst (c : Char) {ws : List (List Char)} (h : ws ≠ []) :
    (consFirst c ws).length = ws.length := by
  cases ws with
  | nil => exact absurd rfl h
  | cons w ws => rfl

/-- **There is one piece more than there are separators.** -/
theorem length_split (s : List Char) :
    (split p s).length = s.countP p + 1 := by
  induction s with
  | nil => rfl
  | cons c s ih =>
    rw [split_cons]
    split
    · next h => rw [List.length_cons, ih, List.countP_cons_of_pos h]
    · next h =>
      rw [length_consFirst c (split_ne_nil p s), ih,
        List.countP_cons_of_neg h]

/-- **The lines of a text**: its pieces between line feeds. -/
def lines (s : List Char) : List (List Char) :=
  split (· == '\n') s

/-- **The words of a text**: its pieces between blanks that are not
empty. -/
def words (s : List Char) : List (List Char) :=
  (split isBlank s).filter fun w => !w.isEmpty

/-- The text without the blanks at its end. -/
def trimEnd (s : List Char) : List Char :=
  (s.reverse.dropWhile isBlank).reverse

@[simp] theorem lines_nil : lines [] = [[]] := rfl

/-- The lines of two texts joined by a line feed are the lines of the one,
then those of the other. -/
theorem lines_append_newline (s t : List Char) :
    lines (s ++ '\n' :: t) = lines s ++ lines t :=
  split_append_cons _ s t rfl

@[simp] theorem words_nil : words [] = [] := rfl

/-- Words do not reach over a blank. -/
theorem words_append_blank (s t : List Char) {c : Char}
    (h : isBlank c = true) : words (s ++ c :: t) = words s ++ words t := by
  rw [words, split_append_cons isBlank s t h, List.filter_append]
  rfl

end RegisterMachine.Text
