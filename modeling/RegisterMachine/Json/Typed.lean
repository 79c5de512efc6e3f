import RegisterMachine.Json.Basic

/-!
# Typed values in JSON values

What a type makes of a JSON value, layout and digits set aside: an integer in
range is a word, an array of values of one kind is a list, and a record is made
from the fields of an object, taken in one after the other.

Not every value that a reader takes is covered. A record may also be written as
the array of its fields, and fields of other names may be passed over; what a
type makes of those is left open here.
-/

namespace RegisterMachine.Json

-- powers are those of the core library, whatever else is in scope
attribute [local instance (high)] instPowNat

variable {σ α : Type}

/-- **An unsigned word** is an integer in its range. -/
def toWord? : Json → Option UInt64
  | .int n =>
    if 0 ≤ n ∧ n < 2 ^ (64 : Nat) then some (UInt64.ofNat n.toNat) else none
  | _ => none

/-- **A signed word** is an integer in its range. -/
def toSignedWord? : Json → Option Int64
  | .int n =>
    if -2 ^ (63 : Nat) ≤ n ∧ n < 2 ^ (63 : Nat) then some (Int64.ofInt n)
    else none
  | _ => none

/-- **A double** is a real number, or an integer in the range of one of the
words, rounded. -/
def toBinary64? : Json → Option Binary64
  | .real x => some x
  | .int n =>
    if -2 ^ (63 : Nat) ≤ n ∧ n < 2 ^ (64 : Nat) then some (.ofInt n) else none
  | _ => none

/-- `null` or a value. -/
def toOptional? (value? : Json → Option α) : Json → Option (Option α)
  | .null => some none
  | value => (value? value).map some

/-- **An array of values of one kind.** -/
def toList? (item? : Json → Option α) : Json → Option (List α)
  | .array items => items.mapM item?
  | _ => none

theorem toList?_array (item? : Json → Option α) (items : List Json) :
    toList? item? (.array items) = items.mapM item? := rfl

/-- The fields of an object, taken in one after the other. -/
def putFields? (put? : σ → String → Json → Option σ) :
    σ → List (String × Json) → Option σ
  | state, [] => some state
  | state, (name, value) :: fields =>
    (put? state name value).bind fun next => putFields? put? next fields

theorem putFields?_cons (put? : σ → String → Json → Option σ) (state : σ)
    (f : String × Json) (fields : List (String × Json)) :
    putFields? put? state (f :: fields)
      = (put? state f.1 f.2).bind fun next => putFields? put? next fields :=
  rfl

/-- **A record from the fields of an object.** `put?` says how a field changes
what was found so far, and `finish?` what is made of all that was found. -/
def toRecord? (start : σ) (put? : σ → String → Json → Option σ)
    (finish? : σ → Option α) : Json → Option α
  | .object fields => (putFields? put? start fields).bind finish?
  | _ => none

theorem toRecord?_object (start : σ) (put? : σ → String → Json → Option σ)
    (finish? : σ → Option α) (fields : List (String × Json)) :
    toRecord? start put? finish? (.object fields)
      = (putFields? put? start fields).bind finish? := rfl

end RegisterMachine.Json
