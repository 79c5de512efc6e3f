import RegisterMachine.Json.Basic

/-!
# Reading JSON from left to right

A reader takes the text in front of it and either leaves a strictly shorter
rest or names the problem it met. It never looks further than it has to, so
the leftmost problem is the one reported, and there are three kinds: the text
*ends* too early, it is *malformed*, or it is well formed so far and holds
something *unexpected*, such as a text where a number is wanted.

That the rest is shorter is part of what a reader returns; the loops over
arrays and objects end because of it.
-/

namespace RegisterMachine.Json

/-- **What can be wrong with a text.** -/
inductive Problem where
  /-- It ends too early. -/
  | truncated
  /-- It is not JSON, or a number in it is out of range. -/
  | malformed
  /-- It is JSON so far, and not what was asked for. -/
  | unexpected
  deriving DecidableEq, Repr

/-- **What a reader leaves**: a value, and a rest shorter than the text it
began with. -/
structure Read (α : Type) (s : List Char) where
  /-- The value that was read. -/
  value : α
  /-- The text behind it. -/
  rest : List Char
  /-- Something was read. -/
  shorter : rest.length < s.length

/-- **A reader of values.** -/
abbrev Reader (α : Type) : Type :=
  (s : List Char) → Except Problem (Read α s)

/-- Where nothing was read, as much is left. -/
theorem length_le_self (s : List Char) : s.length ≤ s.length := Nat.le_refl _

namespace Read

variable {α β : Type} {s t : List Char}

theorem le (r : Read α s) : r.rest.length ≤ s.length := Nat.le_of_lt r.shorter

/-- The same result for a text at least as long. -/
def widen (r : Read α t) (h : t.length ≤ s.length) : Read α s :=
  ⟨r.value, r.rest, Nat.lt_of_lt_of_le r.shorter h⟩

/-- The same rest with another value. -/
def map (f : α → β) (r : Read α s) : Read β s :=
  ⟨f r.value, r.rest, r.shorter⟩

/-- The value and the rest alone. -/
def toPair (r : Read α s) : α × List Char := (r.value, r.rest)

end Read

/-! ## Blanks and single characters -/

/-- The four characters that may stand between the parts of a value. -/
def isSpace (c : Char) : Bool :=
  c == ' ' || c == '\n' || c == '\t' || c == '\r'

/-- The text behind its leading blanks. -/
def skipSpace (s : List Char) : List Char := s.dropWhile isSpace

theorem length_skipSpace_le (s : List Char) :
    (skipSpace s).length ≤ s.length :=
  (List.dropWhile_suffix isSpace).length_le

/-- **The next character that is no blank.** -/
def next : Reader Char := fun s =>
  match h : skipSpace s with
  | [] => .error .truncated
  | c :: t => .ok ⟨c, t, by
      have := length_skipSpace_le s
      rw [h, List.length_cons] at this
      omega⟩

/-- **One given character**, blanks in front of it skipped. -/
def expect (c : Char) : Reader Unit := fun s => do
  let r ← next s
  if r.value = c then .ok (r.map fun _ => ()) else .error .malformed

/-- **The rest of a keyword**, letter by letter. -/
def keyword : (w s : List Char) →
    Except Problem { r : List Char // r.length ≤ s.length }
  | [], s => .ok ⟨s, Nat.le_refl _⟩
  | _ :: _, [] => .error .truncated
  | c :: w, d :: s =>
    if c = d then
      (keyword w s).map fun r => ⟨r.1, Nat.le_succ_of_le r.2⟩
    else .error .malformed

/-! ## Texts in quotation marks -/

/-- The number of bytes a text takes in UTF-8. -/
def byteCount (s : List Char) : Nat :=
  s.foldl (fun n c => n + c.utf8Size) 0

/-- **Four hexadecimal digits.** They are taken as four bytes: a text with
fewer bytes left has ended, whatever they are. -/
def hexUnit : Reader Nat := fun s =>
  match s with
  | a :: b :: c :: d :: t =>
    if [a, b, c, d].all (isDigitOf 16) then
      .ok ⟨ofDigits 16 [a, b, c, d], t, by
        simp only [List.length_cons]
        omega⟩
    else .error .malformed
  | t => .error (if byteCount t < 4 then .truncated else .malformed)

/-- The character that a single letter behind a backslash stands for. -/
def escapedChar? : Char → Option Char
  | '"' => some '"'
  | '\\' => some '\\'
  | '/' => some '/'
  | 'b' => some '\x08'
  | 'f' => some '\x0c'
  | 'n' => some '\n'
  | 'r' => some '\r'
  | 't' => some '\t'
  | _ => none

/-- One given character with nothing skipped in front of it. -/
def exactly (c : Char) : Reader Unit := fun s =>
  match s with
  | [] => .error .truncated
  | d :: t =>
    if c = d then .ok ⟨(), t, Nat.lt_succ_self _⟩ else .error .malformed

/-- **The character of an escape by code unit.** A leading surrogate needs a
trailing one in an escape of its own right behind it. -/
def unicodeEscape : Reader Char := fun s => do
  let first ← hexUnit s
  let n := first.value
  if 0xDC00 ≤ n ∧ n ≤ 0xDFFF then .error .malformed
  else if n < 0xD800 ∨ 0xDBFF < n then
    .ok (first.map fun _ => Char.ofNat n)
  else do
    let a ← exactly '\\' first.rest
    let b ← exactly 'u' a.rest
    let second ← hexUnit b.rest
    let m := second.value
    if m < 0xDC00 ∨ 0xDFFF < m then .error .malformed
    else .ok ⟨Char.ofNat ((n - 0xD800) * 0x400 + (m - 0xDC00) + 0x10000),
      second.rest, by
        have := first.shorter
        have := a.shorter
        have := b.shorter
        have := second.shorter
        omega⟩

/-- **What stands behind a backslash.** -/
def escapeSequence : Reader Char := fun s =>
  match s with
  | [] => .error .truncated
  | 'u' :: t => (unicodeEscape t).map (·.widen (Nat.le_succ _))
  | c :: t =>
    match escapedChar? c with
    | some d => .ok ⟨d, t, Nat.lt_succ_self _⟩
    | none => .error .malformed

/-- **A text up to its closing quotation mark.** -/
def stringBody (s : List Char) : Except Problem (Read (List Char) s) :=
  match s with
  | [] => .error .truncated
  | '"' :: t => .ok ⟨[], t, Nat.lt_succ_self _⟩
  | '\\' :: t => do
    let c ← escapeSequence t
    let r ← stringBody c.rest
    .ok ⟨c.value :: r.value, r.rest, by
      have := c.shorter
      have := r.shorter
      simp only [List.length_cons]
      omega⟩
  | c :: t =>
    if c.toNat < 32 then .error .malformed
    else (stringBody t).map fun r =>
      ⟨c :: r.value, r.rest, Nat.lt_succ_of_lt r.shorter⟩
termination_by s.length
decreasing_by
  · have := c.shorter
    simp only [List.length_cons]
    omega
  · simp

/-- Reads a whole text: one value, with nothing but blanks around it. -/
def decode {α : Type} (reader : Reader α) (text : String) :
    Except Problem α := do
  let r ← reader text.toList
  if skipSpace r.rest = [] then .ok r.value else .error .malformed

end RegisterMachine.Json
