import RegisterMachine.Json.Number

/-!
# Readers of typed values

A reader asks for a value of one kind. When it finds another kind it first
reads as much of it as decides that it is JSON at all: a keyword, a number or
a text is read to its end, and its own problem counts; an opening bracket is
enough. Then the value is unexpected.

Arrays and objects are read part by part. `elementStep` and `keyStep` say
what comes next, `elements` reads an array of one kind of value, and
`members` an object whose keys decide what is read behind them.
-/

namespace RegisterMachine.Json

-- powers are those of the core library, whatever else is in scope
attribute [local instance (high)] instPowNat

/-- The problem of a step that came to nothing: its own, or that the value is
of another kind. -/
def otherwise {α : Type} : Except Problem α → Problem
  | .error e => e
  | .ok _ => .unexpected

/-- **The problem with a value of another kind** than was asked for, from its
first character and the rest. -/
def mismatch (c : Char) (s : List Char) : Problem :=
  match c with
  | 'n' => otherwise (keyword "ull".toList s)
  | 't' => otherwise (keyword "rue".toList s)
  | 'f' => otherwise (keyword "alse".toList s)
  | '"' => otherwise (stringBody s)
  | '-' => otherwise (unsignedNumber true s)
  | '[' => .unexpected
  | '\x7b' => .unexpected
  | _ =>
    if c.isDigit then otherwise (unsignedNumber false (c :: s))
    else .malformed

/-- **A number.** -/
def number : Reader Number := fun s => do
  let c ← next s
  if c.value = '-' then
    (unsignedNumber true c.rest).map (·.widen c.le)
  else if c.value.isDigit then
    (unsignedNumber false (c.value :: c.rest)).map
      (·.widen (by have := c.shorter; simp only [List.length_cons]; omega))
  else .error (mismatch c.value c.rest)

/-- **An integer between two bounds**, both included. -/
def integer (least greatest : Int) : Reader Int := fun s => do
  let r ← number s
  match r.value.toInt? with
  | some n =>
    if least ≤ n ∧ n ≤ greatest then .ok (r.map fun _ => n)
    else .error .unexpected
  | none => .error .unexpected

/-- **An unsigned word.** -/
def word : Reader UInt64 := fun s =>
  (integer 0 (2 ^ (64 : Nat) - 1) s).map
    (Read.map fun n => UInt64.ofNat n.toNat)

/-- **A signed word.** -/
def signedWord : Reader Int64 := fun s =>
  (integer (-2 ^ (63 : Nat)) (2 ^ (63 : Nat) - 1) s).map (Read.map Int64.ofInt)

/-- `null` or a value. -/
def optional {α : Type} (reader : Reader α) : Reader (Option α) := fun s => do
  let c ← next s
  if c.value = 'n' then
    (keyword "ull".toList c.rest).map fun r =>
      ⟨none, r.1, Nat.lt_of_le_of_lt r.2 c.shorter⟩
  else (reader s).map (Read.map some)

/-- `null` alone. -/
def nothing : Reader Unit := fun s => do
  let c ← next s
  if c.value = 'n' then
    (keyword "ull".toList c.rest).map fun r =>
      ⟨(), r.1, Nat.lt_of_le_of_lt r.2 c.shorter⟩
  else .error (mismatch c.value c.rest)

/-- **A name**: a text where nothing but a text can stand, so that anything
else is malformed. -/
def name : Reader String := fun s => do
  let q ← expect '"' s
  (stringBody q.rest).map fun r =>
    (r.widen q.le).map String.ofList

/-! ## Arrays -/

/-- **What comes next in an array**: its end, or an element. -/
inductive ElementStep (s : List Char) where
  /-- The array is closed, and this follows. -/
  | close (rest : List Char) (shorter : rest.length < s.length)
  /-- An element begins here. -/
  | item (rest : List Char) (le : rest.length ≤ s.length)

/-- **Looks for the next element of an array**; every element but the first
has a comma in front of it, and the last has none behind it. -/
def elementStep (first : Bool) (s : List Char) :
    Except Problem (ElementStep s) := do
  let c ← next s
  if c.value = ']' then .ok (.close c.rest c.shorter)
  else if first then .ok (.item s (length_le_self s))
  else if c.value = ',' then
    let d ← next c.rest
    if d.value = ']' then .error .malformed
    else .ok (.item c.rest c.le)
  else .error .malformed

/-- The elements of an array behind its opening bracket. -/
def elementsFrom {α : Type} (reader : Reader α) (first : Bool)
    (s : List Char) : Except Problem (Read (List α) s) := do
  match ← elementStep first s with
  | .close rest h => .ok ⟨[], rest, h⟩
  | .item t h =>
    let a ← reader t
    let r ← elementsFrom reader false a.rest
    .ok ⟨a.value :: r.value, r.rest, by
      have := a.shorter
      have := r.shorter
      omega⟩
termination_by s.length
decreasing_by
  have := a.shorter
  omega

/-- **An array of values of one kind.** -/
def elements {α : Type} (reader : Reader α) : Reader (List α) := fun s => do
  let c ← next s
  if c.value = '[' then
    (elementsFrom reader true c.rest).map (·.widen c.le)
  else .error (mismatch c.value c.rest)

/-! ## Objects -/

/-- **What comes next in an object**: its end, or a key and the text behind
it. -/
inductive KeyStep (s : List Char) where
  /-- The object is closed, and this follows. -/
  | close (rest : List Char) (shorter : rest.length < s.length)
  /-- A key, and what follows it. -/
  | key (name : String) (rest : List Char) (shorter : rest.length < s.length)

/-- A key behind its opening quotation mark. -/
def keyBody (s : List Char) (c : Read Char s) : Except Problem (KeyStep s) :=
  (stringBody c.rest).map fun r =>
    .key (String.ofList r.value) r.rest (Nat.lt_trans r.shorter c.shorter)

/-- **Looks for the next key of an object**; every key but the first has a
comma in front of it, and the last field has none behind it. -/
def keyStep (first : Bool) (s : List Char) : Except Problem (KeyStep s) := do
  let c ← next s
  if c.value = '\x7d' then .ok (.close c.rest c.shorter)
  else if first then
    if c.value = '"' then keyBody s c else .error .malformed
  else if c.value = ',' then
    let d ← next c.rest
    if d.value = '"' then
      keyBody s ⟨d.value, d.rest, Nat.lt_trans d.shorter c.shorter⟩
    else .error .malformed
  else .error .malformed

/-- The fields of an object behind its opening bracket. -/
def membersFrom {σ : Type} (field : σ → String → Except Problem (Reader σ))
    (first : Bool) (state : σ) (s : List Char) :
    Except Problem (Read σ s) := do
  match ← keyStep first s with
  | .close rest h => .ok ⟨state, rest, h⟩
  | .key name t h =>
    let reader ← field state name
    let c ← expect ':' t
    let v ← reader c.rest
    let r ← membersFrom field false v.value v.rest
    .ok ⟨r.value, r.rest, by
      have := c.shorter
      have := v.shorter
      have := r.shorter
      omega⟩
termination_by s.length
decreasing_by
  have := c.shorter
  have := v.shorter
  omega

/-- **A record**, written as an object or as the array of its fields in order.
The fields of an object are collected in a state: `field` says for a key how
the value behind it changes the state, or refuses the key before the value is
looked at. -/
def record {σ α : Type} (inOrder : Reader α) (start : σ)
    (field : σ → String → Except Problem (Reader σ))
    (finish : σ → Except Problem α) : Reader α := fun s => do
  let c ← next s
  if c.value = '[' then
    (inOrder c.rest).map (·.widen c.le)
  else if c.value = '\x7b' then
    let r ← membersFrom field true start c.rest
    let a ← finish r.value
    .ok ((r.widen c.le).map fun _ => a)
  else .error (mismatch c.value c.rest)

end RegisterMachine.Json
