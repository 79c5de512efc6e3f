import RegisterMachine.Json.Number
import RegisterMachine.Proofs.Decimal.Whole
import RegisterMachine.Proofs.Numeral.Grammar

/-!
# The grammar of JSON

The same value can be written in many ways: blanks may stand between any two of
its parts, a text may be spelled with escapes, a power of ten with or without a
plus. `Json.Spells` relates a value to its texts, one way of putting a text
together a constructor, and `Json.IsDocument` allows blanks around the whole.
Nothing is read in it and nothing is printed, so that a writer can be held to it
as well as a reader.

An integer is written in digits alone, and a real number always with a fraction
or a power of ten. What number the digits of a real number stand for is no
matter of the grammar: `means` relates them, and whoever reads or writes says
how.
-/

namespace RegisterMachine.Json

/-! ## Induction over a value -/

/-- **Induction over a value**, with the claim for every part of it. -/
@[elab_as_elim]
theorem induction {P : Json → Prop} (null : P .null)
    (bool : ∀ b, P (.bool b)) (int : ∀ n, P (.int n))
    (real : ∀ x, P (.real x)) (text : ∀ w, P (.text w))
    (array : ∀ items, (∀ j ∈ items, P j) → P (.array items))
    (object : ∀ fields, (∀ f ∈ fields, P f.2) → P (.object fields))
    (j : Json) : P j :=
  match j with
  | .null => null
  | .bool b => bool b
  | .int n => int n
  | .real x => real x
  | .text w => text w
  | .array items => array items fun j _ =>
      induction null bool int real text array object j
  | .object fields => object fields fun f _ =>
      induction null bool int real text array object f.2
termination_by sizeOf j
decreasing_by
  · next h =>
    have := List.sizeOf_lt_of_mem h
    simp only [Json.array.sizeOf_spec]
    omega
  · next h =>
    have := List.sizeOf_lt_of_mem h
    have : sizeOf f = 1 + sizeOf f.1 + sizeOf f.2 := rfl
    simp only [Json.object.sizeOf_spec]
    omega

/-! ## Blanks and texts -/

/-- Blanks and nothing else. -/
def IsSpaces (b : List Char) : Prop := ∀ c ∈ b, isSpace c = true

instance : DecidablePred IsSpaces :=
  List.decidableBAll fun c => isSpace c = true

theorem isSpaces_nil : IsSpaces [] := fun _ h => by cases h

theorem IsSpaces.append {a b : List Char} (ha : IsSpaces a) (hb : IsSpaces b) :
    IsSpaces (a ++ b) := fun c hc => (List.mem_append.mp hc).elim (ha c) (hb c)

/-- **The ways to write a character** in a quoted text: as it is, by a letter
behind a backslash, by its number in four hexadecimal digits, or by the numbers
of two surrogates if four digits are too few. -/
inductive WritesChar : Char → List Char → Prop where
  /-- As it is; not the quotation mark, the backslash or a control
  character. -/
  | plain {c : Char} (hquote : c ≠ '"') (hbackslash : c ≠ '\\')
      (hcontrol : ¬c.toNat < 32) : WritesChar c [c]
  /-- By a letter. -/
  | letter {c d : Char} (h : escapedChar? d = some c) : WritesChar c ['\\', d]
  /-- By its number. -/
  | number {c i j k l : Char}
      (hdigits : [i, j, k, l].all (isDigitOf 16) = true)
      (hvalue : ofDigits 16 [i, j, k, l] = c.toNat) :
      WritesChar c ['\\', 'u', i, j, k, l]
  /-- By a leading and a trailing surrogate. -/
  | surrogates {c i j k l i' j' k' l' : Char} {n n' : ℕ}
      (hdigits : [i, j, k, l].all (isDigitOf 16) = true)
      (hdigits' : [i', j', k', l'].all (isDigitOf 16) = true)
      (hleading : ofDigits 16 [i, j, k, l] = 0xD800 + n) (hn : n < 0x400)
      (htrailing : ofDigits 16 [i', j', k', l'] = 0xDC00 + n') (hn' : n' < 0x400)
      (hvalue : c.toNat = 0x10000 + 0x400 * n + n') :
      WritesChar c ['\\', 'u', i, j, k, l, '\\', 'u', i', j', k', l']

/-- **A quoted text as it may be written**, behind its first quotation mark. -/
inductive WritesBody : List Char → List Char → Prop where
  | nil : WritesBody [] ['"']
  | cons {c : Char} {w text body : List Char} (hc : WritesChar c text)
      (hw : WritesBody w body) : WritesBody (c :: w) (text ++ body)

/-! ## Numbers -/

namespace NumberText

/-- A fraction behind its point; nothing if there is none. -/
def fractionText : List Char → List Char
  | [] => []
  | fraction => '.' :: fraction

/-- **The decimal that the parts spell**, without the sign. -/
def decimal (t : NumberText) : Decimal :=
  ⟨ofDigits 10 (t.whole ++ t.fraction), t.power.getD 0 - t.fraction.length⟩

/-- **Parts that show a real number**: there is a fraction or a power of
ten. -/
def IsReal (t : NumberText) : Prop := t.fraction ≠ [] ∨ t.power ≠ none

end NumberText

open NumberText

/-- **A power of ten as it may be written**, with or without a sign; nothing if
there is none. -/
inductive WritesPower : Option ℤ → List Char → Prop where
  | absent : WritesPower none []
  | present {e : ℤ} {t : List Char} (ht : Numeral.Power t e) (hne : t ≠ []) :
      WritesPower (some e) t

/-- **A number as it may be written without its sign**, from its parts. -/
inductive WritesUnsigned : NumberText → List Char → Prop where
  | mk {negative : Bool} {whole fraction text : List Char} {power : Option ℤ}
      (hwhole : IsWhole whole) (hfraction : ∀ c ∈ fraction, c.isDigit = true)
      (hpower : WritesPower power text) :
      WritesUnsigned ⟨negative, whole, fraction, power⟩
        (whole ++ (fractionText fraction ++ text))

/-- **A number as it may be written**, with its sign. -/
inductive WritesNumber (n : NumberText) : List Char → Prop where
  | mk {t : List Char} (ht : WritesUnsigned n t) :
      WritesNumber n (Numeral.signed n.negative t)

/-- **The parts of an integer**: its digits alone. -/
def intParts (z : ℤ) : NumberText :=
  ⟨decide (z < 0), decimalDigits z.natAbs, [], none⟩

/-! ## Values -/

/-- What stands in front of a part: a comma, unless it is the first. -/
def separator (first : Bool) : List Char := if first then [] else [',']

/-- **Parts between commas**, up to a closing bracket, with blanks around
them. -/
inductive PartsText {ι : Type} (closing : Char)
    (writes : ι → List Char → Prop) :
    Bool → List ι → List Char → Prop where
  | close {first : Bool} {b : List Char} (hb : IsSpaces b) :
      PartsText closing writes first [] (b ++ [closing])
  | part {first : Bool} {a b text t : List Char} {i : ι} {items : List ι}
      (ha : IsSpaces a) (hb : IsSpaces b) (hi : writes i text)
      (ht : PartsText closing writes false items t) :
      PartsText closing writes first (i :: items)
        (a ++ (separator first ++ (b ++ (text ++ t))))

/-- **A field as it may be written**: its name, a colon and the text of its
value, with blanks around the colon. -/
inductive WritesField (name : String) (value : List Char) :
    List Char → Prop where
  | mk {body b c : List Char} (hname : WritesBody name.toList body)
      (hb : IsSpaces b) (hc : IsSpaces c) :
      WritesField name value ('"' :: (body ++ (b ++ ':' :: (c ++ value))))

/-- **A value and a text that it can be written as**, where `means` says what
the parts of a real number stand for. -/
inductive Spells (means : NumberText → Binary64 → Prop) :
    Json → List Char → Prop where
  | null : Spells means .null "null".toList
  | bool (b : Bool) :
      Spells means (.bool b) (if b then "true" else "false").toList
  | int {z : ℤ} {t : List Char} (ht : WritesNumber (intParts z) t) :
      Spells means (.int z) t
  | real {x : Binary64} {n : NumberText} {t : List Char} (hmeans : means n x)
      (hreal : n.IsReal) (ht : WritesNumber n t) : Spells means (.real x) t
  | text {w : String} {body : List Char} (hw : WritesBody w.toList body) :
      Spells means (.text w) ('"' :: body)
  | array {items : List (Json × List Char)} {t : List Char}
      (hitems : ∀ e ∈ items, Spells means e.1 e.2)
      (ht : PartsText ']' (fun e text => text = e.2) true items t) :
      Spells means (.array (items.map Prod.fst)) ('[' :: t)
  | object {fields : List ((String × Json) × List Char)} {t : List Char}
      (hfields : ∀ e ∈ fields, Spells means e.1.2 e.2)
      (ht : PartsText '\x7d' (fun e => WritesField e.1.1 e.2) true fields t) :
      Spells means (.object (fields.map Prod.fst)) ('\x7b' :: t)

/-- **A text that holds one value**, with nothing but blanks around it. -/
inductive IsDocument (means : NumberText → Binary64 → Prop) (j : Json) :
    List Char → Prop where
  | mk {a t b : List Char} (ha : IsSpaces a) (ht : Spells means j t)
      (hb : IsSpaces b) : IsDocument means j (a ++ (t ++ b))

/-! ## Arrays and objects -/

section Parts

variable {ι κ : Type} {closing : Char} {writes : ι → List Char → Prop}
  {first : Bool} {items : List ι} {t : List Char}

/-- Parts may be put in the place of others that have the same texts. -/
theorem PartsText.map {writes' : κ → List Char → Prop} (g : ι → κ)
    (hg : ∀ i ∈ items, ∀ text, writes i text → writes' (g i) text)
    (ht : PartsText closing writes first items t) :
    PartsText closing writes' first (items.map g) t := by
  induction ht with
  | close hb => exact .close hb
  | part ha hb hi _ ih =>
    obtain ⟨hhead, htail⟩ := List.forall_mem_cons.mp hg
    exact .part ha hb (hhead _ hi) (ih htail)

/-- Parts can be listed together with the texts inside theirs. -/
theorem PartsText.exists_texts {P : ι → List Char → Prop}
    {wraps : ι → List Char → List Char → Prop}
    (ht : PartsText closing (fun i text => ∃ u, P i u ∧ wraps i u text) first
      items t) :
    ∃ pairs : List (ι × List Char), pairs.map Prod.fst = items
      ∧ (∀ e ∈ pairs, P e.1 e.2)
      ∧ PartsText closing (fun e => wraps e.1 e.2) first pairs t := by
  induction ht with
  | close hb => exact ⟨[], rfl, (fun _ h => by cases h), .close hb⟩
  | @part _ _ _ _ _ i _ ha hb hi _ ih =>
    obtain ⟨u, hu, hwraps⟩ := hi
    obtain ⟨pairs, rfl, hpairs, hparts⟩ := ih
    exact ⟨(i, u) :: pairs, rfl, List.forall_mem_cons.mpr ⟨hu, hpairs⟩,
      .part ha hb hwraps hparts⟩

end Parts

/-- **A field and a text that it can be written as.** -/
def SpellsField (means : NumberText → Binary64 → Prop) (f : String × Json)
    (text : List Char) : Prop :=
  ∃ value, Spells means f.2 value ∧ WritesField f.1 value text

/-- **The texts of an array**, part by part. -/
theorem spells_array_iff {means : NumberText → Binary64 → Prop}
    {items : List Json} {text : List Char} :
    Spells means (.array items) text
      ↔ ∃ t, text = '[' :: t
        ∧ PartsText ']' (Spells means) true items t := by
  constructor
  · rintro (_ | _ | _ | _ | _ | ⟨hitems, ht⟩ | _)
    refine ⟨_, rfl, ht.map _ fun e he text htext => ?_⟩
    exact htext ▸ hitems e he
  · rintro ⟨t, rfl, ht⟩
    have hself : PartsText ']' (fun j text => ∃ u, Spells means j u
        ∧ text = u) true items t := by
      rw [← List.map_id items]
      exact ht.map id fun j _ text htext => ⟨text, htext, rfl⟩
    obtain ⟨pairs, rfl, hpairs, hparts⟩ := hself.exists_texts
    exact .array hpairs hparts

/-- **The texts of an object**, field by field. -/
theorem spells_object_iff {means : NumberText → Binary64 → Prop}
    {fields : List (String × Json)} {text : List Char} :
    Spells means (.object fields) text
      ↔ ∃ t, text = '\x7b' :: t
        ∧ PartsText '\x7d' (SpellsField means) true fields t := by
  constructor
  · rintro (_ | _ | _ | _ | _ | _ | ⟨hfields, ht⟩)
    exact ⟨_, rfl, ht.map _ fun e he text htext =>
      ⟨e.2, hfields e he, htext⟩⟩
  · rintro ⟨t, rfl, ht⟩
    obtain ⟨pairs, rfl, hpairs, hparts⟩ := PartsText.exists_texts ht
    exact .object hpairs hparts

/-! ## First characters -/

/-- **The kinds of values** that a first character tells apart. -/
inductive Kind where
  /-- Nothing. -/
  | null
  /-- A truth value. -/
  | truth
  /-- A number. -/
  | number
  /-- A text. -/
  | text
  /-- An array. -/
  | array
  /-- An object. -/
  | object
  deriving DecidableEq

/-- The kind that a first character announces, if it is one. -/
def Kind.ofChar? (c : Char) : Option Kind :=
  if c.isDigit ∨ c = '-' then some .number
  else match c with
    | 'n' => some .null
    | 't' | 'f' => some .truth
    | '"' => some .text
    | '[' => some .array
    | '\x7b' => some .object
    | _ => none

/-- The kind of a value. -/
def kind : Json → Kind
  | .null => .null
  | .bool _ => .truth
  | .int _ => .number
  | .real _ => .number
  | .text _ => .text
  | .array _ => .array
  | .object _ => .object

/-- A number without its sign begins with a digit. -/
theorem WritesUnsigned.exists_eq_cons {n : NumberText} {t : List Char}
    (h : WritesUnsigned n t) : ∃ c u, t = c :: u ∧ c.isDigit = true := by
  cases h with
  | @mk negative whole fraction text power hwhole hfraction hpower =>
    obtain ⟨c, u, rfl⟩ := List.exists_cons_of_ne_nil hwhole.ne_nil
    exact ⟨c, _, rfl, hwhole.isDigit c (List.mem_cons_self ..)⟩

/-- A number begins with a digit or a minus. -/
theorem WritesNumber.exists_eq_cons {n : NumberText} {t : List Char}
    (h : WritesNumber n t) :
    ∃ c u, t = c :: u ∧ Kind.ofChar? c = some .number := by
  cases h with
  | mk ht =>
    obtain ⟨c, u, rfl, hc⟩ := ht.exists_eq_cons
    unfold Numeral.signed
    split
    · exact ⟨'-', _, rfl, if_pos (.inr rfl)⟩
    · exact ⟨c, u, rfl, if_pos (.inl hc)⟩

/-- **The first character of a text tells the kind of its value.** -/
theorem Spells.exists_eq_cons {means : NumberText → Binary64 → Prop} {j : Json}
    {t : List Char} (h : Spells means j t) :
    ∃ c u, t = c :: u ∧ Kind.ofChar? c = some j.kind := by
  cases h with
  | null => exact ⟨'n', _, rfl, rfl⟩
  | bool b => cases b <;> exact ⟨_, _, rfl, rfl⟩
  | int ht => exact ht.exists_eq_cons
  | real _ _ ht => exact ht.exists_eq_cons
  | text _ => exact ⟨'"', _, rfl, rfl⟩
  | array _ _ => exact ⟨'[', _, rfl, rfl⟩
  | object _ _ => exact ⟨'\x7b', _, rfl, rfl⟩

/-! ## The real numbers in a value -/

mutual

/-- **The value with something else in the place of every real number.** -/
def mapReal (f : Binary64 → Json) : Json → Json
  | .real x => f x
  | .array items => .array (mapRealItems f items)
  | .object fields => .object (mapRealFields f fields)
  | j => j

/-- The items of an array, with something else for their real numbers. -/
def mapRealItems (f : Binary64 → Json) : List Json → List Json
  | [] => []
  | j :: js => mapReal f j :: mapRealItems f js

/-- The fields of an object, with something else for their real numbers. -/
def mapRealFields (f : Binary64 → Json) :
    List (String × Json) → List (String × Json)
  | [] => []
  | (k, j) :: fs => (k, mapReal f j) :: mapRealFields f fs

end

variable {means means' : NumberText → Binary64 → Prop} {f : Binary64 → Json}

theorem mapRealItems_eq_map (items : List Json) :
    mapRealItems f items = items.map (mapReal f) := by
  induction items with
  | nil => rfl
  | cons j js ih => rw [mapRealItems, ih, List.map_cons]

theorem mapRealFields_eq_map (fields : List (String × Json)) :
    mapRealFields f fields = fields.map fun e => (e.1, mapReal f e.2) := by
  induction fields with
  | nil => rfl
  | cons e es ih => rw [mapRealFields, ih, List.map_cons]

theorem mapReal_array (items : List Json) :
    mapReal f (.array items) = .array (items.map (mapReal f)) := by
  rw [mapReal, mapRealItems_eq_map]

theorem mapReal_object (fields : List (String × Json)) :
    mapReal f (.object fields)
      = .object (fields.map fun e => (e.1, mapReal f e.2)) := by
  rw [mapReal, mapRealFields_eq_map]

/-- **The value with `null` for every number that is not finite.** -/
def settle (j : Json) : Json :=
  j.mapReal fun x => if x.isFinite then .real x else .null

theorem settle_array (items : List Json) :
    settle (.array items) = .array (items.map settle) := mapReal_array items

theorem settle_object (fields : List (String × Json)) :
    settle (.object fields) = .object (fields.map fun e => (e.1, settle e.2)) :=
  mapReal_object fields

/-- **Another reading of the numbers.** If the parts of every real number in a
value stand for another one as well, then its texts are texts of the value with
those numbers. -/
theorem Spells.mapReal {j : Json} {t : List Char} {g : Binary64 → Binary64}
    (hg : ∀ n x, means n x → means' n (g x)) (h : Spells means j t) :
    Spells means' (j.mapReal fun x => .real (g x)) t := by
  induction h with
  | null => exact .null
  | bool b => exact .bool b
  | int ht => exact .int ht
  | real hmeans hreal ht => exact .real (hg _ _ hmeans) hreal ht
  | text hw => exact .text hw
  | @array items t _ ht ih =>
    have hfst : (items.map Prod.fst).map (Json.mapReal fun x => .real (g x))
        = (items.map fun e =>
          (e.1.mapReal fun x => .real (g x), e.2)).map Prod.fst := by
      rw [List.map_map, List.map_map]
      rfl
    rw [mapReal_array, hfst]
    exact .array (List.forall_mem_map.mpr ih) (ht.map _ fun _ _ _ h => h)
  | @object fields t _ ht ih =>
    have hfst : (fields.map Prod.fst).map
          (fun e => (e.1, e.2.mapReal fun x => .real (g x)))
        = (fields.map fun e =>
          ((e.1.1, e.1.2.mapReal fun x => .real (g x)), e.2)).map
            Prod.fst := by
      rw [List.map_map, List.map_map]
      rfl
    rw [mapReal_object, hfst]
    exact .object (List.forall_mem_map.mpr ih) (ht.map _ fun _ _ _ h => h)

theorem IsDocument.mapReal {j : Json} {t : List Char} {g : Binary64 → Binary64}
    (hg : ∀ n x, means n x → means' n (g x)) (h : IsDocument means j t) :
    IsDocument means' (j.mapReal fun x => .real (g x)) t := by
  cases h with
  | mk ha ht hb => exact .mk ha (ht.mapReal hg) hb

end RegisterMachine.Json
