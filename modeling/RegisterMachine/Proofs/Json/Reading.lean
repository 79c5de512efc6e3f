import RegisterMachine.Json.Value
import RegisterMachine.Proofs.Json.Grammar

/-!
# What a reader finds

A reader that succeeds gives a value and leaves a rest (`Json.Finds`). Readers
are put together from smaller ones, and so is what they find: this module says
what the smallest readers find in front of them, and how finding goes through a
sequence of readers.

Where a number ends is for the text behind it to say, so a typed value is read
from its text only in front of a text that no number goes on in
(`Json.Reads`). What stands behind a value in an array or an object is such a
text (`Json.PartsText.endsNumber`). A quoted text needs no such care: however
its characters are written, it ends at its own quotation mark
(`Json.stringBody_writesBody`).
-/

namespace RegisterMachine.Json

variable {α β ι : Type} {s t u v : List Char} {a : α} {b : β}

/-- **A reader finds a value**, and leaves a rest. -/
def Finds (result : Except Problem (Read α s)) (value : α) (rest : List Char) :
    Prop :=
  ∃ h, result = .ok ⟨value, rest, h⟩

theorem ok_bind {ε : Type} (a : α) (f : α → Except ε β) :
    (Except.ok a >>= f) = f a := rfl

namespace Finds

theorem ok (r : Read α s) : Finds (.ok r) r.value r.rest := ⟨r.shorter, rfl⟩

/-- A reader finds one value and leaves one rest. -/
theorem unique {result : Except Problem (Read α s)} {a' : α} {t' : List Char}
    (h : Finds result a t) (h' : Finds result a' t') : a = a' ∧ t = t' := by
  obtain ⟨hlt, rfl⟩ := h
  obtain ⟨hlt', heq⟩ := h'
  cases heq
  exact ⟨rfl, rfl⟩

theorem bind {x : Except Problem (Read α s)}
    {f : Read α s → Except Problem (Read β u)} (hx : Finds x a t)
    (hf : ∀ h, Finds (f ⟨a, t, h⟩) b v) : Finds (x >>= f) b v := by
  obtain ⟨h, rfl⟩ := hx
  exact hf h

theorem map {x : Except Problem (Read α s)} {f : Read α s → Read β u}
    (hx : Finds x a t)
    (hf : ∀ h, (f ⟨a, t, h⟩).value = b ∧ (f ⟨a, t, h⟩).rest = v) :
    Finds (x.map f) b v := by
  obtain ⟨h, rfl⟩ := hx
  obtain ⟨rfl, rfl⟩ := hf h
  exact ok _

end Finds

/-! ## Single characters and words -/

/-- Blanks in front are skipped. -/
theorem skipSpace_append {b : List Char} (hb : IsSpaces b) (s : List Char) :
    skipSpace (b ++ s) = skipSpace s :=
  List.dropWhile_append_of_pos hb

theorem skipSpace_cons {c : Char} (h : isSpace c = false) :
    skipSpace (c :: s) = c :: s :=
  List.dropWhile_cons_of_neg (Bool.eq_false_iff.mp h)

theorem next_of_skipSpace_nil (h : skipSpace s = []) :
    next s = .error .truncated := by
  unfold next
  split
  · rfl
  · next hcons =>
    rw [h] at hcons
    cases hcons

theorem next_of_skipSpace_cons {c : Char} (h : skipSpace s = c :: t) :
    Finds (next s) c t := by
  unfold next
  split
  · next hnil =>
    rw [h] at hnil
    cases hnil
  · next hcons =>
    rw [h] at hcons
    cases hcons
    exact .ok _

/-- **The next character stands behind the blanks.** -/
theorem next_spaces {b : List Char} (hb : IsSpaces b) {c : Char}
    (h : isSpace c = false) : Finds (next (b ++ c :: s)) c s :=
  next_of_skipSpace_cons ((skipSpace_append hb _).trans (skipSpace_cons h))

theorem next_cons {c : Char} (h : isSpace c = false) :
    Finds (next (c :: s)) c s := next_spaces isSpaces_nil h

theorem expect_spaces {b : List Char} (hb : IsSpaces b) {c : Char}
    (h : isSpace c = false) : Finds (expect c (b ++ c :: s)) () s := by
  refine (next_spaces hb h).bind fun hlt => ?_
  rw [if_pos rfl]
  exact .ok _

theorem expect_cons {c : Char} (h : isSpace c = false) :
    Finds (expect c (c :: s)) () s := expect_spaces isSpaces_nil h

/-- A keyword is read letter by letter. -/
theorem keyword_append (w s : List Char) :
    ∃ h, keyword w (w ++ s) = .ok ⟨s, h⟩ := by
  induction w with
  | nil => exact ⟨Nat.le_refl _, rfl⟩
  | cons c w ih =>
    obtain ⟨h, hw⟩ := ih
    refine ⟨Nat.le_succ_of_le h, ?_⟩
    show (if c = c then (keyword w (w ++ s)).map _ else _) = _
    rw [if_pos rfl, hw]
    rfl

/-! ## Texts -/

/-- What stands behind a backslash is one character of the text. -/
theorem stringBody_backslash {c : Char} {w : List Char}
    (hc : Finds (escapeSequence s) c t) (hw : Finds (stringBody t) w u) :
    Finds (stringBody ('\\' :: s)) (c :: w) u := by
  rw [stringBody]
  refine hc.bind fun _ => hw.bind fun _ => ?_
  exact .ok _

/-- A letter behind a backslash stands for a character of its own. -/
theorem escapeSequence_letter {c d : Char} (h : escapedChar? d = some c) :
    Finds (escapeSequence (d :: s)) c s := by
  unfold escapedChar? at h
  split at h <;> cases h <;> exact .ok _

/-- Four hexadecimal digits are read as their number. -/
theorem hexUnit_digits {i j k l : Char}
    (hdigits : [i, j, k, l].all (isDigitOf 16) = true) :
    Finds (hexUnit (i :: j :: k :: l :: s)) (ofDigits 16 [i, j, k, l]) s := by
  unfold hexUnit
  dsimp only
  rw [if_pos hdigits]
  exact .ok _

theorem exactly_cons (c : Char) (s : List Char) :
    Finds (exactly c (c :: s)) () s := by
  unfold exactly
  dsimp only
  rw [if_pos rfl]
  exact .ok _

/-- The number of a character is not that of a surrogate. -/
theorem unicodeEscape_digits {c i j k l : Char}
    (hdigits : [i, j, k, l].all (isDigitOf 16) = true)
    (hvalue : ofDigits 16 [i, j, k, l] = c.toNat) :
    Finds (unicodeEscape (i :: j :: k :: l :: s)) c s := by
  have hvalid : c.toNat < 0xD800 ∨ 0xDFFF < c.toNat ∧ c.toNat < 0x110000 :=
    c.valid
  refine (hexUnit_digits hdigits).bind fun hlt => ?_
  dsimp only
  rw [hvalue, if_neg (by omega), if_pos (by omega), Char.ofNat_toNat]
  exact .ok _

/-- A leading surrogate is read together with the trailing one. -/
theorem unicodeEscape_surrogates {c i j k l i' j' k' l' : Char} {n n' : ℕ}
    (hdigits : [i, j, k, l].all (isDigitOf 16) = true)
    (hdigits' : [i', j', k', l'].all (isDigitOf 16) = true)
    (hleading : ofDigits 16 [i, j, k, l] = 0xD800 + n) (hn : n < 0x400)
    (htrailing : ofDigits 16 [i', j', k', l'] = 0xDC00 + n') (hn' : n' < 0x400)
    (hvalue : c.toNat = 0x10000 + 0x400 * n + n') :
    Finds (unicodeEscape
      (i :: j :: k :: l :: '\\' :: 'u' :: i' :: j' :: k' :: l' :: s)) c s := by
  have hcode : (ofDigits 16 [i, j, k, l] - 0xD800) * 0x400
      + (ofDigits 16 [i', j', k', l'] - 0xDC00) + 0x10000 = c.toNat := by
    omega
  refine (hexUnit_digits hdigits).bind fun _ => ?_
  dsimp only
  rw [if_neg (by omega), if_neg (by omega)]
  refine (exactly_cons '\\' _).bind fun _ => (exactly_cons 'u' _).bind fun _ =>
    (hexUnit_digits hdigits').bind fun _ => ?_
  dsimp only
  rw [if_neg (by omega), hcode, Char.ofNat_toNat]
  exact .ok _

/-- **A character is read however it is written.** -/
theorem stringBody_writesChar {c : Char} {text w : List Char}
    (hc : WritesChar c text) (hw : Finds (stringBody s) w t) :
    Finds (stringBody (text ++ s)) (c :: w) t := by
  cases hc with
  | plain hquote hbackslash hcontrol =>
    rw [List.singleton_append, stringBody]
    · rw [if_neg hcontrol]
      exact hw.map fun _ => ⟨rfl, rfl⟩
    · exact hquote
    · exact hbackslash
  | letter h =>
    refine stringBody_backslash (t := s) ?_ hw
    exact escapeSequence_letter h
  | number hdigits hvalue =>
    refine stringBody_backslash (t := s) ?_ hw
    exact (unicodeEscape_digits hdigits hvalue).map fun _ => ⟨rfl, rfl⟩
  | surrogates hdigits hdigits' hleading hn htrailing hn' hvalue =>
    refine stringBody_backslash (t := s) ?_ hw
    exact (unicodeEscape_surrogates hdigits hdigits' hleading hn htrailing hn'
      hvalue).map fun _ => ⟨rfl, rfl⟩

/-- **A text is read up to its quotation mark**, however it is written. -/
theorem stringBody_writesBody {w body : List Char} (h : WritesBody w body)
    (s : List Char) : Finds (stringBody (body ++ s)) w s := by
  induction h with
  | nil =>
    rw [List.singleton_append, stringBody]
    exact .ok _
  | cons hc _ ih =>
    rw [List.append_assoc]
    exact stringBody_writesChar hc ih

/-- **A name is read**, however it is written. -/
theorem name_writesBody {w : String} {body : List Char}
    (h : WritesBody w.toList body) (s : List Char) :
    Finds (name ('"' :: (body ++ s))) w s := by
  refine (expect_cons rfl).bind fun _ => ?_
  exact (stringBody_writesBody h s).map fun _ => ⟨String.ofList_toList, rfl⟩

/-! ## Values in front of other text -/

/-- **A text that no number goes on in.** -/
def EndsNumber (s : List Char) : Prop :=
  ∀ c ∈ s.head?, c.isDigit = false ∧ c ≠ '.' ∧ c ≠ 'e' ∧ c ≠ 'E'

theorem endsNumber_nil : EndsNumber [] := fun _ h => by cases h

/-- A number ends at a comma, a bracket and the like. -/
theorem endsNumber_cons {c : Char}
    (h : c.isDigit = false ∧ c ≠ '.' ∧ c ≠ 'e' ∧ c ≠ 'E') :
    EndsNumber (c :: s) := by
  intro d hd
  cases hd
  exact h

/-- Blanks and what ends a number end a number. -/
theorem endsNumber_spaces {b : List Char} (hb : IsSpaces b)
    (hs : EndsNumber s) : EndsNumber (b ++ s) := by
  cases b with
  | nil => exact hs
  | cons c b =>
    have hc := hb c (List.mem_cons_self ..)
    unfold isSpace at hc
    simp only [Bool.or_eq_true, beq_iff_eq] at hc
    refine endsNumber_cons ?_
    rcases hc with ((rfl | rfl) | rfl) | rfl <;> decide

/-- **A number ends in front of what follows a part.** -/
theorem PartsText.endsNumber {closing : Char} {writes : ι → List Char → Prop}
    {items : List ι}
    (hclosing : closing.isDigit = false ∧ closing ≠ '.' ∧ closing ≠ 'e'
      ∧ closing ≠ 'E')
    (h : PartsText closing writes false items t) (s : List Char) :
    EndsNumber (t ++ s) := by
  cases h with
  | close hb =>
    rw [List.append_assoc]
    exact endsNumber_spaces hb (endsNumber_cons hclosing)
  | part ha =>
    rw [List.append_assoc]
    exact endsNumber_spaces ha (endsNumber_cons (by decide))

/-- **A text reads as a value**, whatever follows that ends a number. -/
def Reads (reader : Reader α) (text : List Char) (value : α) : Prop :=
  ∀ s, EndsNumber s → Finds (reader (text ++ s)) value s

end RegisterMachine.Json
