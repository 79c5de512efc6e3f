import Mathlib.Data.List.Basic
import Mathlib.Data.List.DropRight
import Mathlib.Data.List.TakeWhile
import RegisterMachine.Text.Split

/-!
# Lines and words, read from the front

The lines and words of a text are defined by cutting it all at once. A reader
goes from the front, and this module says what it meets: joined by line feeds
the lines are the text again and none of them holds a line feed
(`Text.intercalate_lines`); and the first word of a text is what stands behind
its leading blanks up to the next blank, with the other words behind it
(`Text.words_eq_cons`). A text without such a word is all blank, and it has
no words. From behind, a text is what is left of it once it is trimmed and then
blanks (`Text.isTrimmed_iff`), and trimming it keeps its words.
-/

namespace RegisterMachine.Text

variable {p : Char → Bool} {s t : List Char}

/-! ## Pieces -/

/-- Characters of a kind in front of one that is not are taken off, and no
others. -/
theorem takeWhile_dropWhile_append
    (hs : ∀ c ∈ s, p c = true) (ht : ∀ c ∈ t.head?, p c = false) :
    (s ++ t).takeWhile p = s ∧ (s ++ t).dropWhile p = t := by
  rw [List.takeWhile_append_of_pos hs, List.dropWhile_append_of_pos hs]
  cases t with
  | nil => exact ⟨List.append_nil s, rfl⟩
  | cons c t =>
    have hc : ¬p c = true := Bool.eq_false_iff.mp (ht c rfl)
    rw [List.takeWhile_cons_of_neg hc, List.dropWhile_cons_of_neg hc]
    exact ⟨List.append_nil s, rfl⟩

/-- **No piece holds a separator.** -/
theorem not_of_mem_split {w : List Char} (hw : w ∈ split p s) {c : Char}
    (hc : c ∈ w) : p c = false := by
  induction s generalizing w with
  | nil =>
    rw [split_nil, List.mem_singleton] at hw
    subst hw
    cases hc
  | cons d s ih =>
    rw [split_cons] at hw
    split at hw
    · rcases List.mem_cons.mp hw with rfl | hw
      · cases hc
      · exact ih hw hc
    · next hd =>
      obtain ⟨v, vs, hv⟩ := List.exists_cons_of_ne_nil (split_ne_nil p s)
      rw [hv] at hw ih
      rcases List.mem_cons.mp hw with rfl | hw
      · rcases List.mem_cons.mp hc with rfl | hc
        · exact (Bool.not_eq_true _).mp hd
        · exact ih (List.mem_cons_self ..) hc
      · exact ih (List.mem_cons_of_mem v hw) hc

/-- A text without a separator is one piece. -/
theorem split_eq_singleton (h : ∀ c ∈ s, p c = false) : split p s = [s] := by
  induction s with
  | nil => rfl
  | cons c s ih =>
    rw [split_cons, h c (List.mem_cons_self ..),
      ih fun d hd => h d (List.mem_cons_of_mem c hd)]
    rfl

/-- Joined by the one separator, the pieces are the text. -/
theorem intercalate_split (c : Char) (s : List Char) :
    [c].intercalate (split (· == c) s) = s := by
  induction s with
  | nil => rfl
  | cons d s ih =>
    obtain ⟨v, vs, hv⟩ :=
      List.exists_cons_of_ne_nil (split_ne_nil (· == c) s)
    rw [split_cons]
    rw [hv] at ih ⊢
    split
    · next hd =>
      obtain rfl : d = c := eq_of_beq hd
      rw [List.intercalate_cons_cons, ih]
      rfl
    · cases vs with
      | nil =>
        rw [List.intercalate_singleton] at ih
        rw [consFirst, List.intercalate_singleton, ih]
      | cons v' vs =>
        rw [List.intercalate_cons_cons] at ih
        rw [consFirst, List.intercalate_cons_cons, ← ih]
        rfl

/-- **The lines are the text, cut at its line feeds.** -/
theorem intercalate_lines (s : List Char) :
    ['\n'].intercalate (lines s) = s := intercalate_split '\n' s

/-- **No line holds a line feed.** -/
theorem newline_notMem_of_mem_lines {l : List Char} (h : l ∈ lines s) :
    '\n' ∉ l := fun hn => by
  have := not_of_mem_split h hn
  simp at this

/-- A text without a line feed is one line. -/
theorem lines_eq_singleton (h : '\n' ∉ s) : lines s = [s] := by
  refine split_eq_singleton fun c hc => ?_
  rw [beq_eq_false_iff_ne]
  rintro rfl
  exact h hc

/-- **Lines joined by line feeds come back**, if none of them holds one. -/
theorem lines_intercalate {ls : List (List Char)} (hne : ls ≠ [])
    (h : ∀ l ∈ ls, '\n' ∉ l) : lines (['\n'].intercalate ls) = ls := by
  induction ls with
  | nil => exact absurd rfl hne
  | cons l ls ih =>
    obtain ⟨hl, hls⟩ := List.forall_mem_cons.mp h
    cases ls with
    | nil => rw [List.intercalate_singleton, lines_eq_singleton hl]
    | cons l' ls =>
      rw [List.intercalate_cons_cons, List.append_assoc]
      show lines (l ++ '\n' :: ['\n'].intercalate (l' :: ls)) = _
      rw [lines_append_newline, lines_eq_singleton hl,
        ih (List.cons_ne_nil _ _) hls]
      rfl

/-- **Lines that each end in a line feed come back**, with an empty one behind
the last. -/
theorem lines_flatMap_newline {ls : List (List Char)}
    (h : ∀ l ∈ ls, '\n' ∉ l) : lines (ls.flatMap (· ++ ['\n'])) = ls ++ [[]] := by
  induction ls with
  | nil => rfl
  | cons l ls ih =>
    obtain ⟨hl, hls⟩ := List.forall_mem_cons.mp h
    rw [List.flatMap_cons, List.append_assoc]
    show lines (l ++ '\n' :: ls.flatMap (· ++ ['\n'])) = _
    rw [lines_append_newline, lines_eq_singleton hl, ih hls]
    rfl

/-- There is one line more than there are line feeds. -/
theorem length_lines (s : List Char) : (lines s).length = s.count '\n' + 1 :=
  length_split _ s

/-! ## Words -/

/-- **The first word**: what stands behind the leading blanks, up to the next
blank. A text that is all blank has an empty one. -/
def firstWord (s : List Char) : List Char :=
  (s.dropWhile isBlank).takeWhile fun c => !isBlank c

/-- What follows the first word. -/
def afterWord (s : List Char) : List Char :=
  (s.dropWhile isBlank).dropWhile fun c => !isBlank c

/-- **The second word** is the first of what follows the first. -/
def secondWord (s : List Char) : List Char := firstWord (afterWord s)

theorem isBlank_eq_false_of_all (h : (s.all fun c => !isBlank c) = true) :
    ∀ c ∈ s, isBlank c = false := by
  intro c hc
  simpa using List.all_eq_true.mp h c hc

/-- A text with no blank in it is one word. -/
theorem words_eq_singleton (hne : s ≠ []) (h : ∀ c ∈ s, isBlank c = false) :
    words s = [s] := by
  rw [words, split_eq_singleton h]
  simp [hne]

/-- Blanks in front are no part of any word. -/
theorem words_blanks_append (hs : ∀ c ∈ s, isBlank c = true) :
    words (s ++ t) = words t := by
  induction s with
  | nil => rfl
  | cons c s ih =>
    have hc := hs c (List.mem_cons_self ..)
    rw [List.cons_append, ← List.nil_append (c :: (s ++ t)),
      words_append_blank [] (s ++ t) hc, words_nil, List.nil_append,
      ih fun d hd => hs d (List.mem_cons_of_mem c hd)]

/-- A word in front of a blank or of the end is a word. -/
theorem words_word_append (hne : s ≠ []) (hs : ∀ c ∈ s, isBlank c = false)
    (ht : ∀ c ∈ t.head?, isBlank c = true) :
    words (s ++ t) = s :: words t := by
  cases t with
  | nil =>
    rw [List.append_nil, words_eq_singleton hne hs]
    rfl
  | cons c t =>
    have hc : isBlank c = true := ht c rfl
    have hskip : words (c :: t) = words t := by
      have hblank : ∀ d ∈ [c], isBlank d = true := by
        rintro d hd
        rwa [List.mem_singleton.mp hd]
      exact words_blanks_append (t := t) hblank
    rw [words_append_blank s t hc, words_eq_singleton hne hs, hskip]
    rfl

/-- A text without its leading blanks has the same words. -/
theorem words_dropWhile (s : List Char) :
    words (s.dropWhile isBlank) = words s := by
  conv_rhs => rw [← List.takeWhile_append_dropWhile (p := isBlank) (l := s)]
  exact (words_blanks_append fun c hc => List.mem_takeWhile_imp hc).symm

/-- **A text is blanks, its first word, and what follows it.** -/
theorem words_eq_words_firstWord_append (s : List Char) :
    words s = words (firstWord s ++ afterWord s) := by
  rw [firstWord, afterWord, List.takeWhile_append_dropWhile, words_dropWhile]

/-- **The words are the first word and the words of what follows it.** -/
theorem words_eq_cons (h : firstWord s ≠ []) :
    words s = firstWord s :: words (afterWord s) := by
  rw [words_eq_words_firstWord_append]
  refine words_word_append h (fun c hc => ?_) (fun c hc => ?_)
  · simpa using List.mem_takeWhile_imp hc
  · have hhead := List.head?_dropWhile_not (fun c => !isBlank c)
      (s.dropWhile isBlank)
    unfold afterWord at hc
    rw [Option.mem_def.mp hc] at hhead
    simpa using hhead

/-- A text has no first word exactly if it is all blank. -/
theorem firstWord_eq_nil_iff : firstWord s = [] ↔ ∀ c ∈ s, isBlank c = true := by
  rw [firstWord, List.takeWhile_eq_nil_iff]
  constructor
  · intro h
    rw [← List.dropWhile_eq_nil_iff]
    by_contra hne
    have hlen : 0 < (s.dropWhile isBlank).length := List.length_pos_iff.mpr hne
    have hhead := List.head_dropWhile_not isBlank hne
    have hblank := h hlen
    rw [List.head_eq_getElem] at hhead
    simp [hhead] at hblank
  · intro h hlen
    rw [List.dropWhile_eq_nil_iff.mpr h] at hlen
    cases hlen

/-- **A text with no first word has no words.** -/
theorem words_eq_nil (h : firstWord s = []) : words s = [] := by
  have hs := words_blanks_append (t := []) (firstWord_eq_nil_iff.mp h)
  rwa [List.append_nil] at hs

/-- The second of the words is the second word, if that is not empty. -/
theorem head?_words_afterWord (s : List Char) :
    (words (afterWord s)).head?
      = if secondWord s = [] then none else some (secondWord s) := by
  split
  · next h => rw [words_eq_nil h]; rfl
  · next h => rw [words_eq_cons h]; rfl

/-! ## Blanks at the end -/

/-- Blanks at the end are no part of any word. -/
theorem words_append_blanks (ht : ∀ c ∈ t, isBlank c = true) :
    words (s ++ t) = words s := by
  cases t with
  | nil => rw [List.append_nil]
  | cons c t =>
    obtain ⟨hc, ht⟩ := List.forall_mem_cons.mp ht
    rw [words_append_blank s t hc,
      words_eq_nil (firstWord_eq_nil_iff.mpr ht), List.append_nil]

/-- **A text is what is left of it without the blanks at its end**, and those
blanks. -/
theorem trimEnd_append (s : List Char) :
    trimEnd s ++ s.rtakeWhile isBlank = s := by
  unfold trimEnd List.rtakeWhile
  rw [← List.reverse_append, List.takeWhile_append_dropWhile,
    List.reverse_reverse]

theorem isBlank_of_mem_rtakeWhile {c : Char} (h : c ∈ s.rtakeWhile isBlank) :
    isBlank c = true := List.mem_rtakeWhile_imp h

theorem isBlank_getLast_trimEnd {c : Char} (h : c ∈ (trimEnd s).getLast?) :
    isBlank c = false := by
  obtain ⟨hne, hc⟩ := List.mem_getLast?_eq_getLast h
  have hlast := List.rdropWhile_last_not isBlank s hne
  rw [hc]
  exact (Bool.not_eq_true _).mp hlast

/-- **What is left of a text without the blanks at its end**: the text is that
and then blanks, and it ends in no blank itself. -/
structure IsTrimmed (s t : List Char) : Prop where
  exists_blanks : ∃ blanks, t ++ blanks = s ∧ ∀ c ∈ blanks, isBlank c = true
  not_blank_of_getLast : ∀ c ∈ t.getLast?, isBlank c = false

/-- **Nothing else than the trimmed text is left.** -/
theorem isTrimmed_iff : IsTrimmed s t ↔ t = trimEnd s := by
  constructor
  · rintro ⟨⟨blanks, rfl, hblanks⟩, hlast⟩
    have hblanks : ∀ c ∈ blanks.reverse, isBlank c = true := fun c hc =>
      hblanks c (List.mem_reverse.mp hc)
    have hdrop : t.reverse.dropWhile isBlank = t.reverse := by
      rw [List.dropWhile_eq_self_iff]
      intro hlen
      have hhead : t.reverse[0] ∈ t.getLast? := by
        rw [← List.head?_reverse, List.head?_eq_getElem?]
        exact List.getElem?_eq_getElem hlen
      rw [hlast _ hhead]
      exact Bool.false_ne_true
    rw [trimEnd, List.reverse_append, List.dropWhile_append_of_pos hblanks,
      hdrop, List.reverse_reverse]
  · rintro rfl
    exact ⟨⟨s.rtakeWhile isBlank, trimEnd_append s,
      fun c => isBlank_of_mem_rtakeWhile⟩, fun c => isBlank_getLast_trimEnd⟩

/-- **Trimming keeps the words.** -/
theorem words_trimEnd (s : List Char) : words (trimEnd s) = words s := by
  conv_rhs => rw [← trimEnd_append s]
  exact (words_append_blanks fun c hc => isBlank_of_mem_rtakeWhile hc).symm

end RegisterMachine.Text
