import RegisterMachine.Proofs.Json.NumberText

/-!
# A text is that of one value

The same value has many texts, and no text has two values: if the parts of a real
number stand for one number only, then what the grammar derives from a text is
unique, and so is the place where it ends (`Json.determines_spells`).

The first character of a text tells what kind of value it is the text of, so
values of two kinds never meet. Within a kind the argument goes by the parts: a
text ends at its quotation mark, a number where no number goes on, and an array
or an object where its bracket is closed; each of its parts in turn ends in
front of a blank, a comma or the bracket. It is therefore made for a value with
any text behind it that ends a number.
-/

namespace RegisterMachine.Json

variable {means : NumberText → Binary64 → Prop} {s t u v : List Char}

/-! ## Characters behind blanks -/

/-- A character behind blanks is the first that is no blank. -/
theorem spaces_unique {b b' : List Char} {c c' : Char} (hb : IsSpaces b)
    (hb' : IsSpaces b') (hc : isSpace c = false) (hc' : isSpace c' = false)
    (h : b ++ c :: s = b' ++ c' :: t) : c = c' ∧ s = t := by
  have hfinds := next_spaces (s := s) hb hc
  rw [h] at hfinds
  exact hfinds.unique (next_spaces hb' hc')

/-- What announces a value is no blank. -/
theorem isSpace_of_ofChar? {c : Char} {k : Kind}
    (h : Kind.ofChar? c = some k) : isSpace c = false := by
  by_contra hspace
  rw [Bool.not_eq_false] at hspace
  unfold isSpace at hspace
  simp only [Bool.or_eq_true, beq_iff_eq] at hspace
  rcases hspace with ((rfl | rfl) | rfl) | rfl <;> cases h

/-- What announces no value does not announce one. -/
theorem ne_of_ofChar? {c d : Char} {k : Kind} (h : Kind.ofChar? c = some k)
    (hd : Kind.ofChar? d = none) : c ≠ d := by
  rintro rfl
  rw [hd] at h
  cases h

/-! ## Parts between brackets -/

section Parts

variable {ι : Type} {closing : Char} {writes : ι → List Char → Prop}
  {first : Bool} {items items' : List ι}

/-- **The text of a part determines the part**, and where it ends. -/
def Determines (writes : ι → List Char → Prop) (i : ι) : Prop :=
  ∀ ⦃i' u v s t⦄, writes i u → writes i' v → EndsNumber s → EndsNumber t →
    u ++ s = v ++ t → i = i' ∧ s = t

/-- **A bracket that parts can stand in**: a number ends in front of it, and no
part begins with it. -/
structure Closes (closing : Char) (writes : ι → List Char → Prop) : Prop where
  isSpace_eq : isSpace closing = false
  ne_comma : closing ≠ ','
  ends : closing.isDigit = false ∧ closing ≠ '.' ∧ closing ≠ 'e'
    ∧ closing ≠ 'E'
  begins : ∀ i u, writes i u →
    ∃ c v, u = c :: v ∧ isSpace c = false ∧ c ≠ closing

/-- A part with its comma is found behind blanks. -/
theorem separator_unique {a a' b b' : List Char} {c c' : Char}
    (ha : IsSpaces a) (ha' : IsSpaces a') (hb : IsSpaces b)
    (hb' : IsSpaces b') (hc : isSpace c = false) (hc' : isSpace c' = false)
    (h : a ++ (separator first ++ (b ++ c :: s))
      = a' ++ (separator first ++ (b' ++ c' :: t))) : c :: s = c' :: t := by
  suffices hsame : c = c' ∧ s = t by rw [hsame.1, hsame.2]
  cases first with
  | true =>
    refine spaces_unique (ha.append hb) (ha'.append hb') hc hc' ?_
    rwa [List.append_assoc, List.append_assoc]
  | false =>
    have hspace : isSpace ',' = false := rfl
    have hcomma := spaces_unique ha ha' hspace hspace h
    exact spaces_unique hb hb' hc hc' hcomma.2

/-- A part is not taken for the bracket. -/
theorem separator_ne_closing {a b b' : List Char} {c : Char}
    (hclosing : Closes closing writes) (ha : IsSpaces a) (hb : IsSpaces b)
    (hb' : IsSpaces b') (hc : isSpace c = false) (hne : c ≠ closing) :
    a ++ (separator first ++ (b ++ c :: s)) ≠ b' ++ closing :: t := by
  intro h
  cases first with
  | true =>
    refine hne (spaces_unique (s := s) (t := t) (ha.append hb) hb' hc
      hclosing.isSpace_eq ?_).1
    rwa [List.append_assoc]
  | false =>
    exact hclosing.ne_comma
      (spaces_unique (c := ',') ha hb' rfl hclosing.isSpace_eq h).1.symm

/-- **Parts between commas, up to a closing bracket.** -/
theorem PartsText.unique (hclosing : Closes closing writes)
    (hitems : ∀ i ∈ items, Determines writes i)
    (h : PartsText closing writes first items u)
    (h' : PartsText closing writes first items' v)
    (heq : u ++ s = v ++ t) : items = items' ∧ s = t := by
  induction h generalizing items' v with
  | @close first b hb =>
    cases h' with
    | close hb' =>
      rw [List.append_assoc, List.append_assoc] at heq
      exact ⟨rfl, (spaces_unique hb hb' hclosing.isSpace_eq hclosing.isSpace_eq
        heq).2⟩
    | part ha' hb' hi' ht' =>
      obtain ⟨c, w, rfl, hc, hne⟩ := hclosing.begins _ _ hi'
      simp only [List.append_assoc, List.cons_append] at heq
      exact absurd heq.symm (separator_ne_closing hclosing ha' hb' hb hc hne)
  | @part first a b text u i items ha hb hi ht ih =>
    obtain ⟨hhead, htail⟩ := List.forall_mem_cons.mp hitems
    obtain ⟨c, w, rfl, hc, hne⟩ := hclosing.begins _ _ hi
    cases h' with
    | close hb' =>
      simp only [List.append_assoc, List.cons_append] at heq
      exact absurd heq (separator_ne_closing hclosing ha hb hb' hc hne)
    | part ha' hb' hi' ht' =>
      obtain ⟨c', w', rfl, hc', -⟩ := hclosing.begins _ _ hi'
      simp only [List.append_assoc, List.cons_append] at heq
      have hsame := separator_unique ha ha' hb hb' hc hc' heq
      obtain ⟨rfl, hrest⟩ := hhead hi hi' (ht.endsNumber hclosing.ends s)
        (ht'.endsNumber hclosing.ends t) hsame
      obtain ⟨rfl, hst⟩ := ih htail ht' hrest
      exact ⟨rfl, hst⟩

end Parts

/-! ## Values -/

/-- No value begins like the end of an array. -/
theorem closes_array : Closes ']' (Spells means) where
  isSpace_eq := rfl
  ne_comma := by decide
  ends := by decide
  begins _ _ h := by
    obtain ⟨c, v, rfl, hc⟩ := h.exists_eq_cons
    exact ⟨c, v, rfl, isSpace_of_ofChar? hc, ne_of_ofChar? hc rfl⟩

/-- No field begins like the end of an object. -/
theorem closes_object : Closes '\x7d' (SpellsField means) where
  isSpace_eq := rfl
  ne_comma := by decide
  ends := by decide
  begins _ _ h := by
    obtain ⟨_, -, ⟨_, _, _⟩⟩ := h
    exact ⟨'"', _, rfl, rfl, by decide⟩

theorem kind_eq_of_spells {j j' : Json} (h : Spells means j u)
    (h' : Spells means j' v) (heq : u ++ s = v ++ t) : j.kind = j'.kind := by
  obtain ⟨c, u, rfl, hc⟩ := h.exists_eq_cons
  obtain ⟨c', v, rfl, hc'⟩ := h'.exists_eq_cons
  rw [(List.cons.inj heq).1, hc'] at hc
  exact (Option.some.inj hc).symm

/-- The text of a field determines its name and its value. -/
theorem determines_field {f : String × Json}
    (hf : Determines (Spells means) f.2) :
    Determines (SpellsField means) f := by
  intro f' u v s t h h' hs ht heq
  obtain ⟨value, hvalue, ⟨hname, hb, hc⟩⟩ := h
  obtain ⟨value', hvalue', ⟨hname', hb', hc'⟩⟩ := h'
  rename_i body b c body' b' c'
  simp only [List.cons_append, List.append_assoc] at heq
  have hkey := name_writesBody hname (b ++ ':' :: (c ++ (value ++ s)))
  rw [heq] at hkey
  obtain ⟨hnames, hcolon⟩ := hkey.unique (name_writesBody hname' _)
  have hbehind := (spaces_unique hb hb' rfl rfl hcolon).2
  obtain ⟨d, value, rfl, hd⟩ := hvalue.exists_eq_cons
  obtain ⟨d', value', rfl, hd'⟩ := hvalue'.exists_eq_cons
  obtain ⟨rfl, htail⟩ := spaces_unique hc hc' (isSpace_of_ofChar? hd)
    (isSpace_of_ofChar? hd') hbehind
  obtain ⟨hvalues, hst⟩ := hf hvalue hvalue' hs ht (congrArg (d :: ·) htail)
  exact ⟨Prod.ext hnames hvalues, hst⟩

/-- Numbers with the same parts are the same number. -/
theorem number_unique (hmeans : ∀ n x y, means n x → means n y → x = y)
    {j j' : Json} (hkind : j.kind = .number) (h : Spells means j u)
    (h' : Spells means j' v) (hs : EndsNumber s) (ht : EndsNumber t)
    (heq : u ++ s = v ++ t) : j = j' ∧ s = t := by
  have hkind' := (kind_eq_of_spells h h' heq).symm.trans hkind
  cases h with
  | @int z _ hz =>
    cases h' with
    | @int z' _ hz' =>
      obtain ⟨hparts, hst⟩ := hz.unique hz' hs ht heq
      exact ⟨by rw [intParts_injective hparts], hst⟩
    | @real y n _ hy hreal hn =>
      obtain ⟨rfl, -⟩ := hz.unique hn hs ht heq
      exact absurd hreal (not_isReal_intParts z)
    | _ => cases hkind'
  | @real x n _ hx hreal hn =>
    cases h' with
    | @int z _ hz =>
      obtain ⟨rfl, -⟩ := hn.unique hz hs ht heq
      exact absurd hreal (not_isReal_intParts z)
    | @real y n' _ hy _ hn' =>
      obtain ⟨rfl, hst⟩ := hn.unique hn' hs ht heq
      exact ⟨by rw [hmeans n x y hx hy], hst⟩
    | _ => cases hkind'
  | _ => cases hkind

theorem determines_null : Determines (Spells means) .null := by
  intro j' u v s t h h' _ _ heq
  have hkind := kind_eq_of_spells h h' heq
  cases h
  cases h' with
  | null => exact ⟨rfl, List.append_cancel_left heq⟩
  | _ => cases hkind

theorem determines_bool (b : Bool) : Determines (Spells means) (.bool b) := by
  intro j' u v s t h h' _ _ heq
  have hkind := kind_eq_of_spells h h' heq
  cases h
  cases h' with
  | bool b' =>
    cases b <;> cases b'
    · exact ⟨rfl, List.append_cancel_left heq⟩
    · cases (List.cons.inj heq).1
    · cases (List.cons.inj heq).1
    · exact ⟨rfl, List.append_cancel_left heq⟩
  | _ => cases hkind

theorem determines_text (w : String) : Determines (Spells means) (.text w) := by
  intro j' u v s t h h' _ _ heq
  have hkind := kind_eq_of_spells h h' heq
  cases h with
  | @text _ body hw =>
    cases h' with
    | @text w' body' hw' =>
      have hfinds := name_writesBody hw s
      rw [← List.cons_append, heq] at hfinds
      obtain ⟨rfl, hst⟩ := hfinds.unique (name_writesBody hw' t)
      exact ⟨rfl, hst⟩
    | _ => cases hkind

theorem determines_array {items : List Json}
    (hitems : ∀ i ∈ items, Determines (Spells means) i) :
    Determines (Spells means) (.array items) := by
  intro j' u v s t h h' _ _ heq
  have hkind := kind_eq_of_spells h h' heq
  cases j' with
  | array items' =>
    obtain ⟨u, rfl, hu⟩ := spells_array_iff.mp h
    obtain ⟨v, rfl, hv⟩ := spells_array_iff.mp h'
    obtain ⟨rfl, hst⟩ := hu.unique closes_array hitems hv (List.cons.inj heq).2
    exact ⟨rfl, hst⟩
  | _ => cases hkind

theorem determines_object {fields : List (String × Json)}
    (hfields : ∀ f ∈ fields, Determines (Spells means) f.2) :
    Determines (Spells means) (.object fields) := by
  intro j' u v s t h h' _ _ heq
  have hkind := kind_eq_of_spells h h' heq
  cases j' with
  | object fields' =>
    obtain ⟨u, rfl, hu⟩ := spells_object_iff.mp h
    obtain ⟨v, rfl, hv⟩ := spells_object_iff.mp h'
    obtain ⟨rfl, hst⟩ := hu.unique closes_object
      (fun f hf => determines_field (hfields f hf)) hv (List.cons.inj heq).2
    exact ⟨rfl, hst⟩
  | _ => cases hkind

/-- **A text in front of which no number goes on is the text of one value
only**, if the parts of a number stand for one number. -/
theorem determines_spells (hmeans : ∀ n x y, means n x → means n y → x = y)
    (j : Json) : Determines (Spells means) j := by
  induction j using Json.induction with
  | null => exact determines_null
  | bool b => exact determines_bool b
  | int n =>
    exact fun j' u v s t h h' hs ht heq =>
      number_unique hmeans rfl h h' hs ht heq
  | real x =>
    exact fun j' u v s t h h' hs ht heq =>
      number_unique hmeans rfl h h' hs ht heq
  | text w => exact determines_text w
  | array items ih => exact determines_array ih
  | object fields ih => exact determines_object ih

/-- **A document holds one value.** -/
theorem IsDocument.unique (hmeans : ∀ n x y, means n x → means n y → x = y)
    {j j' : Json} (h : IsDocument means j t) (h' : IsDocument means j' t) :
    j = j' := by
  generalize ht : t = t' at h'
  obtain ⟨ha, hu, hb⟩ := h
  obtain ⟨ha', hu', hb'⟩ := h'
  rename_i a u b a' u' b'
  obtain ⟨c, u, rfl, hc⟩ := hu.exists_eq_cons
  obtain ⟨c', u', rfl, hc'⟩ := hu'.exists_eq_cons
  obtain ⟨rfl, htail⟩ := spaces_unique ha ha' (isSpace_of_ofChar? hc)
    (isSpace_of_ofChar? hc') ht
  have hends : ∀ {b : List Char}, IsSpaces b → EndsNumber b := fun hb => by
    have h := endsNumber_spaces hb endsNumber_nil
    rwa [List.append_nil] at h
  exact (determines_spells hmeans j hu hu' (hends hb) (hends hb')
    (congrArg (c :: ·) htail)).1

end RegisterMachine.Json
