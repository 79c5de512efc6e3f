import Mathlib.Logic.Relation
import RegisterMachine.Proofs.Program.Lines

/-!
# What of a text its program depends on

A line is read by its first two words. Where blanks stand between words and
around them, how many and which, is not seen, and neither is what stands
behind the second word; and as an error quotes a word, it is not seen there
either. So two texts whose lines agree in their first two words are read alike
(`Line.ReadsAlike`), as a program or as an error.

`Line.Retouched` are the single changes of a line that keep those words: a
blank more at an end of a word or of the line, and more words behind the
second. Whatever can be reached by such changes, made or taken back, is read
alike, and a text whose lines end in a carriage return as well is a case of
it. Nor does it matter whether a line is trimmed before it is cut into words.
`Program.parse_by_first_words` puts these together.
-/

namespace RegisterMachine

namespace Text

variable {s t : List Char} {c : Char}

/-- **No word reaches over a place beside a blank**, or over an end. -/
theorem words_append (h : (∀ c ∈ s.getLast?, isBlank c = true)
      ∨ ∀ c ∈ t.head?, isBlank c = true) :
    words (s ++ t) = words s ++ words t := by
  rcases h with hs | ht
  · rcases s.eq_nil_or_concat' with rfl | ⟨s, d, rfl⟩
    · rfl
    · have hd : isBlank d = true := hs d List.getLast?_concat
      rw [List.append_assoc, List.singleton_append, words_append_blank s t hd,
        words_append_blank s [] hd, words_nil, List.append_nil]
  · cases t with
    | nil => rw [words_nil, List.append_nil, List.append_nil]
    | cons d t =>
      have hd : isBlank d = true := ht d rfl
      rw [words_append_blank s t hd]
      exact congrArg (words s ++ ·) (words_append_blank [] t hd).symm

/-- The text without the blanks at either end. -/
def trim (s : List Char) : List Char := trimEnd (s.dropWhile isBlank)

/-- Trimming at both ends keeps the words. -/
theorem words_trim (s : List Char) : words (trim s) = words s := by
  unfold trim
  rw [words_trimEnd, words_dropWhile]

/-! ## Carriage returns -/

/-- **A text with a carriage return in front of every line feed.** -/
def withReturns (s : List Char) : List Char :=
  s.flatMap fun c => if c = '\n' then ['\r', '\n'] else [c]

theorem lines_cons_of_ne (hc : c ≠ '\n') (s : List Char) :
    lines (c :: s) = consFirst c (lines s) := by
  unfold lines
  rw [split_cons, if_neg (by simpa using hc)]

/-- What holds of pieces one by one, and is kept by a character in front,
holds when one is put in front of the first. -/
theorem forall₂_consFirst {R : List Char → List Char → Prop}
    (hR : ∀ l l', R l l' → R (c :: l) (c :: l')) {ls ls' : List (List Char)}
    (hne : ls ≠ []) (h : List.Forall₂ R ls ls') :
    List.Forall₂ R (consFirst c ls) (consFirst c ls') := by
  cases h with
  | nil => exact absurd rfl hne
  | cons hl hls => exact .cons (hR _ _ hl) hls

/-- **The lines of that text** are those of the first, all but the last with a
carriage return at their end. -/
theorem forall₂_lines_withReturns (s : List Char) :
    List.Forall₂ (fun l l' => l' = l ∨ l' = l ++ ['\r']) (lines s)
      (lines (withReturns s)) := by
  induction s with
  | nil => exact .cons (.inl rfl) .nil
  | cons c s ih =>
    by_cases hc : c = '\n'
    · subst hc
      show List.Forall₂ _ ([] :: lines s) (['\r'] :: lines (withReturns s))
      exact .cons (.inr rfl) ih
    · have hreturns : withReturns (c :: s) = c :: withReturns s := by
        unfold withReturns
        rw [List.flatMap_cons, if_neg hc]
        rfl
      rw [hreturns, lines_cons_of_ne hc, lines_cons_of_ne hc]
      refine forall₂_consFirst (fun l l' h => ?_) (split_ne_nil _ s) ih
      rcases h with rfl | rfl
      · exact .inl rfl
      · exact .inr rfl

end Text

/-! ## One line -/

theorem Instruction.parseWords_take_two (k : ℕ) (ws : List (List Char)) :
    parseWords k (ws.take 2) = parseWords k ws := by
  match ws with
  | [] | [_] | _ :: _ :: _ => rfl

/-- **A line may be trimmed first**, and skipped if nothing is left of it. -/
theorem Instruction.parseWords_trim (k : ℕ) (l : List Char) :
    parseWords k (Text.words l)
      = if Text.trim l = [] then .ok none
        else parseWords k (Text.words (Text.trim l)) := by
  rw [← Text.words_trim l]
  split
  · next hnil =>
    rw [hnil]
    rfl
  · rfl

namespace Line

variable {k : ℕ} {l l' : List Char}

/-- **Two lines with the same first two words**, or with equally few. -/
def ReadsAlike (l l' : List Char) : Prop :=
  (Text.words l).take 2 = (Text.words l').take 2

instance (l l' : List Char) : Decidable (ReadsAlike l l') :=
  inferInstanceAs (Decidable (_ = _))

/-- **A change of a line that its reading does not see.** -/
inductive Retouched : List Char → List Char → Prop where
  /-- A blank is put beside another, or at an end of the line. -/
  | blank (s t : List Char) {c : Char} (hc : Text.isBlank c = true)
      (hgap : (∀ d ∈ s.getLast?, Text.isBlank d = true)
        ∨ ∀ d ∈ t.head?, Text.isBlank d = true) :
      Retouched (s ++ t) (s ++ c :: t)
  /-- Anything is put behind the second word and a blank. -/
  | more (s t : List Char) {c : Char} (hc : Text.isBlank c = true)
      (hs : 2 ≤ (Text.words s).length) : Retouched s (s ++ c :: t)

theorem Retouched.readsAlike (h : Retouched l l') : ReadsAlike l l' := by
  cases h with
  | blank s t hc hgap =>
    unfold ReadsAlike
    rw [Text.words_append hgap, Text.words_append_blank s t hc]
  | more s t hc hs =>
    unfold ReadsAlike
    rw [Text.words_append_blank l t hc, List.take_append_of_le_length hs]

/-- **Changes made or taken back, in any number**, are not seen either. -/
theorem readsAlike_of_eqvGen (h : Relation.EqvGen Retouched l l') :
    ReadsAlike l l' := by
  induction h with
  | rel _ _ h => exact h.readsAlike
  | refl => rfl
  | symm _ _ _ ih => exact ih.symm
  | trans _ _ _ _ _ ih ih' => exact ih.trans ih'

/-- A carriage return at the end of a line is a blank at its end. -/
theorem eqvGen_of_return (h : l' = l ∨ l' = l ++ ['\r']) :
    Relation.EqvGen Retouched l l' := by
  rcases h with rfl | rfl
  · exact .refl _
  · have hreturn : Retouched (l ++ []) (l ++ ['\r']) :=
      .blank l [] rfl (.inr fun d hd => by cases hd)
    rw [List.append_nil] at hreturn
    exact .rel _ _ hreturn

theorem parseWords_congr (h : ReadsAlike l l') :
    Instruction.parseWords k (Text.words l)
      = Instruction.parseWords k (Text.words l') := by
  rw [← Instruction.parseWords_take_two, h, Instruction.parseWords_take_two]

end Line

/-! ## All lines -/

namespace Program

open Line

/-- **Lines that read alike give the same**, instructions or error. -/
theorem parseLines_congr {ls ls' : List (List Char)}
    (h : List.Forall₂ ReadsAlike ls ls') (k : ℕ) :
    parseLines k ls = parseLines k ls' := by
  induction h generalizing k with
  | nil => rfl
  | cons hl _ ih => rw [parseLines, parseLines, parseWords_congr hl, ih]

/-- **A text is read by the first two words of each line.** Two texts of
equally many lines that agree in those are read alike, with the same program
or the same error. So it is the same text to the reader whatever blanks are
put beside others or at the ends of lines, or taken from there, whatever
stands behind the second word, and whether or not there is a carriage return
in front of each line feed. And a line that is trimmed before it is looked at,
and skipped if nothing is left, is read as it is without. -/
theorem parse_by_first_words (a b : String) :
    (List.Forall₂ ReadsAlike (Text.lines a.toList) (Text.lines b.toList) →
        parse a = parse b)
      ∧ (List.Forall₂ (Relation.EqvGen Retouched) (Text.lines a.toList)
          (Text.lines b.toList) → parse a = parse b)
      ∧ parse (String.ofList (Text.withReturns a.toList)) = parse a
      ∧ ∀ k l, Instruction.parseWords k (Text.words l)
          = if Text.trim l = [] then .ok none
            else Instruction.parseWords k (Text.words (Text.trim l)) := by
  have hreads : ∀ a b : String,
      List.Forall₂ ReadsAlike (Text.lines a.toList) (Text.lines b.toList) →
        parse a = parse b := by
    intro a b h
    unfold parse
    rw [parseLines_congr h]
  have hretouched : ∀ a b : String,
      List.Forall₂ (Relation.EqvGen Retouched) (Text.lines a.toList)
        (Text.lines b.toList) → parse a = parse b := fun a b h =>
    hreads a b (h.imp fun _ _ => readsAlike_of_eqvGen)
  refine ⟨hreads a b, hretouched a b, (hretouched _ _ ?_).symm,
    Instruction.parseWords_trim⟩
  rw [String.toList_ofList]
  exact (Text.forall₂_lines_withReturns a.toList).imp fun _ _ =>
    eqvGen_of_return

/-- **A wrong line among blanks**, wide ones too, with a word too many above
it: it is the third line in either text, and its word is quoted without the
carriage return behind it. -/
theorem halt_among_blanks :
    List.Forall₂ ReadsAlike
        (Text.lines "\u3000loadi\t5 six \r\n \nhalt\r\n".toList)
        (Text.lines "loadi 5\n\nhalt\n".toList)
      ∧ List.Forall₂ (Relation.EqvGen Retouched)
        (Text.lines "hold\n".toList) (Text.lines "hold\r\n".toList)
      ∧ parse "\u3000loadi\t5 six \r\n \nhalt\r\n"
        = .error (.unknownOpcode 2 "halt")
      ∧ parse "hold\n" = parse "hold\r\n" := by
  have halike : List.Forall₂ ReadsAlike
      (Text.lines "\u3000loadi\t5 six \r\n \nhalt\r\n".toList)
      (Text.lines "loadi 5\n\nhalt\n".toList) := by decide +kernel
  have hplain : parse "loadi 5\n\nhalt\n"
      = .error (.unknownOpcode 2 "halt") := by decide +kernel
  have hretouched : List.Forall₂ (Relation.EqvGen Retouched)
      (Text.lines "hold\n".toList) (Text.lines "hold\r\n".toList) :=
    .cons (eqvGen_of_return (.inr rfl)) (.cons (.refl _) .nil)
  exact ⟨halike, hretouched,
    ((parse_by_first_words _ _).1 halike).trans hplain,
    (parse_by_first_words _ _).2.1 hretouched⟩

end Program

end RegisterMachine
