import RegisterMachine.Json.Number

/-!
# Skipping a value

A field that nobody asked for is passed over. Its text still has to be JSON,
but its numbers have no range and its texts need not pair their surrogates;
and brackets may be nested as deep as the text goes, so the open ones are
kept in a list. A number that the text ends in the middle of is malformed
here.
-/

namespace RegisterMachine.Json

/-- **A bracket that is still open.** -/
inductive Bracket where
  /-- Of an array. -/
  | array
  /-- Of an object. -/
  | object
  deriving DecidableEq, Repr

namespace Bracket

/-- The bracket that closes it. -/
def closing : Bracket → Char
  | .array => ']'
  | .object => '\x7d'

end Bracket

/-- **A text up to its closing quotation mark, passed over.** -/
def skipString (s : List Char) : Except Problem (Read Unit s) :=
  match s with
  | [] => .error .truncated
  | '"' :: t => .ok ⟨(), t, Nat.lt_succ_self _⟩
  | '\\' :: 'u' :: t => do
    let u ← hexUnit t
    let r ← skipString u.rest
    .ok (r.widen (by
      have := u.shorter
      simp only [List.length_cons]
      omega))
  | '\\' :: c :: t =>
    if (escapedChar? c).isSome then
      (skipString t).map (·.widen (by simp only [List.length_cons]; omega))
    else .error .malformed
  | '\\' :: [] => .error .truncated
  | c :: t =>
    if c.toNat < 32 then .error .malformed
    else (skipString t).map (·.widen (Nat.le_succ _))
termination_by s.length
decreasing_by
  · have := u.shorter
    simp only [List.length_cons]
    omega
  · simp only [List.length_cons]
    omega
  · simp

/-- **A value without parts, passed over**, given its first character. -/
def skipScalar (c : Char) (s : List Char) :
    Except Problem { r : List Char // r.length ≤ s.length } :=
  let strict (r : Read Unit s) : { r : List Char // r.length ≤ s.length } :=
    ⟨r.rest, r.le⟩
  match c with
  | 'n' => keyword "ull".toList s
  | 't' => keyword "rue".toList s
  | 'f' => keyword "alse".toList s
  | '"' => (skipString s).map strict
  | '-' => (numberText .malformed true s).map fun r =>
      strict (r.map fun _ => ())
  | _ =>
    if c.isDigit then
      (numberText .malformed false (c :: s)).map fun r =>
        ⟨r.rest, Nat.le_of_lt_succ r.shorter⟩
    else .error .malformed

/-- A key and the colon behind it, passed over. -/
def skipKey : Reader Unit := fun s => do
  let q ← expect '"' s
  let k ← skipString q.rest
  let c ← expect ':' k.rest
  .ok ⟨(), c.rest, by
    have := q.shorter
    have := k.shorter
    have := c.shorter
    omega⟩

mutual

/-- **A value, passed over**, with the brackets open around it; then whatever
closes them. -/
def skipIn (brackets : List Bracket) (s : List Char) :
    Except Problem (Read Unit s) := do
  let c ← next s
  if c.value = '[' then
    let d ← next c.rest
    if d.value = ']' then
      (skipBehind brackets d.rest).map fun r => ⟨(), r.1, by
        have := c.shorter
        have := d.shorter
        have := r.2
        omega⟩
    else
      (skipIn (.array :: brackets) c.rest).map
        (·.widen c.le)
  else if c.value = '\x7b' then
    let d ← next c.rest
    if d.value = '\x7d' then
      (skipBehind brackets d.rest).map fun r => ⟨(), r.1, by
        have := c.shorter
        have := d.shorter
        have := r.2
        omega⟩
    else
      let k ← skipKey c.rest
      (skipIn (.object :: brackets) k.rest).map (·.widen (by
        have := c.shorter
        have := k.shorter
        omega))
  else
    let t ← skipScalar c.value c.rest
    (skipBehind brackets t.1).map fun r => ⟨(), r.1, by
      have := c.shorter
      have := t.2
      have := r.2
      omega⟩
termination_by s.length
decreasing_by
  · have := c.shorter
    have := d.shorter
    omega
  · exact c.shorter
  · have := c.shorter
    have := d.shorter
    omega
  · have := c.shorter
    have := k.shorter
    omega
  · have := c.shorter
    have := t.2
    omega

/-- **What stands behind a value**: nothing more if no bracket is open, or a
comma and the next value, or the closing bracket. -/
def skipBehind (brackets : List Bracket) (s : List Char) :
    Except Problem { r : List Char // r.length ≤ s.length } :=
  match brackets with
  | [] => .ok ⟨s, length_le_self s⟩
  | b :: bs => do
    let c ← next s
    if c.value = ',' then
      match b with
      | .array =>
        (skipIn (b :: bs) c.rest).map fun r => ⟨r.rest, by
          have := c.shorter
          have := r.shorter
          omega⟩
      | .object => do
        let k ← skipKey c.rest
        (skipIn (b :: bs) k.rest).map fun r => ⟨r.rest, by
          have := c.shorter
          have := k.shorter
          have := r.shorter
          omega⟩
    else if c.value = b.closing then
      (skipBehind bs c.rest).map fun r =>
        ⟨r.1, Nat.le_trans r.2 c.le⟩
    else .error .malformed
termination_by s.length
decreasing_by
  · exact c.shorter
  · have := c.shorter
    have := k.shorter
    omega
  · exact c.shorter

end

/-- **Passes over a value.** -/
def skipValue : Reader Unit := skipIn []

end RegisterMachine.Json
