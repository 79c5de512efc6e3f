import RegisterMachine.Proofs.Json.Library

/-!
# The two layouts keep to the grammar

Both layouts of a value, the compact one and the one with one item a line, are
texts of it as the grammar has them, so each of them is a writer in the sense of
`Json.IsWriter` (`Json.isWriter_compact`, `Json.isWriter_pretty`). They differ in
the blanks around the parts alone, and what is said of parts between commas is
said for blanks of any kind (`Json.partsText_intercalate`).
-/

namespace RegisterMachine.Json

variable {means : NumberText → Binary64 → Prop} {a b c : List Char}

/-! ## Texts -/

/-- **A character is written in one of these ways.** -/
theorem writesChar_escape (c : Char) : WritesChar c (escape c) := by
  have hnat : ∀ d : Char, c.toNat = d.toNat → c = d := fun d h =>
    Char.toNat_inj.mp h
  have hcontrol : ∀ n < 32,
      ['0', '0', hexDigit (n / 16), hexDigit (n % 16)].all (isDigitOf 16) = true
        ∧ ofDigits 16 ['0', '0', hexDigit (n / 16), hexDigit (n % 16)] = n := by
    decide
  unfold escape
  split
  · next h => exact .letter (by rw [h]; rfl)
  split
  · next h => exact .letter (by rw [h]; rfl)
  split
  · next h => exact .letter (by rw [h]; rfl)
  split
  · next h => exact .letter (by rw [h]; rfl)
  split
  · next h => exact .letter (by rw [h]; rfl)
  split
  · next h => exact .letter (by rw [hnat '\x08' h]; rfl)
  split
  · next h => exact .letter (by rw [hnat '\x0c' h]; rfl)
  split
  · next h => exact .number (hcontrol _ h).1 (hcontrol _ h).2
  · next hquote hbackslash _ _ _ _ _ hcontrol =>
    exact .plain hquote hbackslash hcontrol

theorem writesBody_escape (w : List Char) :
    WritesBody w (w.flatMap escape ++ ['"']) := by
  induction w with
  | nil => exact .nil
  | cons c w ih =>
    rw [List.flatMap_cons, List.append_assoc]
    exact .cons (writesChar_escape c) ih

/-! ## Arrays and objects -/

section Parts

variable {ι : Type} {closing : Char} {writes : ι → List Char → Prop}
  {items : List ι} {text : ι → List Char}

/-- The parts behind the first, each behind a comma and blanks. -/
theorem partsText_flatMap (ha : IsSpaces a) (hb : IsSpaces b)
    (h : ∀ i ∈ items, writes i (text i)) :
    PartsText closing writes false items
      (items.flatMap (fun i => ',' :: (a ++ text i)) ++ (b ++ [closing])) := by
  induction items with
  | nil => exact .close hb
  | cons i items ih =>
    obtain ⟨hi, hitems⟩ := List.forall_mem_cons.mp h
    simp only [List.flatMap_cons, List.cons_append, List.append_assoc]
    exact .part (a := []) (b := a) isSpaces_nil ha hi (ih hitems)

theorem intercalate_cons (sep p : List Char) (ps : List (List Char)) :
    sep.intercalate (p :: ps) = p ++ ps.flatMap (sep ++ ·) := by
  induction ps generalizing p with
  | nil => simp
  | cons q ps ih => rw [List.intercalate_cons_cons, ih]; simp

/-- **Parts between commas**, with the same blanks in front of each. -/
theorem partsText_intercalate (ha : IsSpaces a) (hb : IsSpaces b)
    (h : ∀ i ∈ items, writes i (text i)) :
    PartsText closing writes true items
      (a ++ ((',' :: a).intercalate (items.map text) ++ (b ++ [closing]))) := by
  cases items with
  | nil =>
    rw [← List.append_assoc, ← List.append_assoc]
    refine .close fun c hc => ?_
    simp only [List.map_nil, List.intercalate_nil, List.append_nil,
      List.mem_append] at hc
    exact hc.elim (ha c) (hb c)
  | cons i items =>
    obtain ⟨hi, hitems⟩ := List.forall_mem_cons.mp h
    rw [List.map_cons, intercalate_cons, List.flatMap_map, List.append_assoc]
    exact .part (b := []) ha isSpaces_nil hi (partsText_flatMap ha hb hitems)

end Parts

/-- An array is written with its items between commas. -/
theorem spells_array {items : List Json} {text : Json → List Char}
    (ha : IsSpaces a) (hb : IsSpaces b)
    (h : ∀ j ∈ items, Spells means j.settle (text j)) :
    Spells means (settle (.array items))
      ('[' :: (a ++ ((',' :: a).intercalate (items.map text)
        ++ (b ++ [']'])))) := by
  rw [settle_array]
  refine spells_array_iff.mpr ⟨_, rfl, ?_⟩
  refine PartsText.map _ (fun j hj t ht => ?_)
    (partsText_intercalate ha hb fun j _ => (rfl : text j = text j))
  exact ht ▸ h j hj

/-- An object is written with its fields between commas. -/
theorem spells_object {fields : List (String × Json)}
    {text : Json → List Char} (ha : IsSpaces a) (hb : IsSpaces b)
    (hc : IsSpaces c) (h : ∀ f ∈ fields, Spells means f.2.settle (text f.2)) :
    Spells means (settle (.object fields))
      ('\x7b' :: (a ++ ((',' :: a).intercalate
        (fields.map fun f => quote f.1 ++ ':' :: (c ++ text f.2))
          ++ (b ++ ['\x7d'])))) := by
  rw [settle_object]
  refine spells_object_iff.mpr ⟨_, rfl, ?_⟩
  refine PartsText.map _ (fun f hf t ht => ?_)
    (partsText_intercalate ha hb fun f _ =>
      (rfl : (quote f.1 ++ ':' :: (c ++ text f.2))
        = quote f.1 ++ ':' :: (c ++ text f.2)))
  have hfield : WritesField f.1 (text f.2)
      ('"' :: (f.1.toList.flatMap escape ++ ['"']
        ++ ([] ++ ':' :: (c ++ text f.2)))) :=
    .mk (writesBody_escape f.1.toList) isSpaces_nil hc
  refine ⟨text f.2, h f hf, ?_⟩
  rw [← ht]
  exact hfield

/-! ## The layouts -/

/-- **A value without parts is written as the grammar has it.** -/
theorem spells_scalarText (j : Json) (harray : ∀ items, j ≠ .array items)
    (hobject : ∀ fields, j ≠ .object fields) :
    Spells (Written realParts) j.settle (scalarText j) := by
  cases j with
  | null => exact .null
  | bool b => exact .bool b
  | int z => exact .int (writesNumber_intText z)
  | real x =>
    by_cases hx : x.isFinite = true
    · have hsettle : settle (.real x) = .real x := if_pos hx
      rw [hsettle]
      exact .real ⟨hx, rfl⟩ (isReal_realParts x) (writesNumber_realText hx)
    · have hsettle : settle (.real x) = .null := if_neg hx
      have htext : scalarText (.real x) = "null".toList := if_neg hx
      rw [hsettle, htext]
      exact .null
  | text w => exact .text (writesBody_escape w.toList)
  | array items => exact absurd rfl (harray items)
  | object fields => exact absurd rfl (hobject fields)

theorem renderItems_eq_map (items : List Json) :
    renderItems items = items.map render := by
  induction items with
  | nil => rfl
  | cons j js ih => rw [renderItems, ih, List.map_cons]

theorem renderFields_eq_map (fields : List (String × Json)) :
    renderFields fields
      = fields.map fun f => quote f.1 ++ ':' :: ([] ++ render f.2) := by
  induction fields with
  | nil => rfl
  | cons f fs ih => rw [renderFields, ih, List.map_cons]; rfl

/-- **The compact layout** is one that the grammar has. -/
theorem spells_render (j : Json) :
    Spells (Written realParts) j.settle (render j) := by
  induction j using Json.induction with
  | array items ih =>
    rw [render, renderItems_eq_map]
    exact spells_array isSpaces_nil isSpaces_nil ih
  | object fields ih =>
    rw [render, renderFields_eq_map]
    exact spells_object isSpaces_nil isSpaces_nil isSpaces_nil ih
  | _ => exact spells_scalarText _ nofun nofun

theorem isSpaces_newline (depth : ℕ) : IsSpaces (newline depth) := by
  intro c hc
  rcases List.mem_cons.mp hc with rfl | hc
  · rfl
  · rw [List.eq_of_mem_replicate hc]
    rfl

theorem spreadItems_eq_map (depth : ℕ) (items : List Json) :
    spreadItems depth items = items.map (renderSpread depth) := by
  induction items with
  | nil => rfl
  | cons j js ih => rw [spreadItems, ih, List.map_cons]

theorem spreadFields_eq_map (depth : ℕ) (fields : List (String × Json)) :
    spreadFields depth fields = fields.map fun f =>
      quote f.1 ++ ':' :: ([' '] ++ renderSpread depth f.2) := by
  induction fields with
  | nil => rfl
  | cons f fs ih => rw [spreadFields, ih, List.map_cons]; rfl

/-- Parts are spread out with line breaks for blanks, unless there are none. -/
theorem spread_eq (depth : ℕ) (opening closing : Char)
    (parts : List (List Char)) :
    ∃ a b, IsSpaces a ∧ IsSpaces b ∧ spread depth opening closing parts
      = opening :: (a ++ ((',' :: a).intercalate parts ++ (b ++ [closing]))) := by
  cases parts with
  | nil => exact ⟨[], [], isSpaces_nil, isSpaces_nil, rfl⟩
  | cons p ps =>
    refine ⟨_, _, isSpaces_newline (depth + 1), isSpaces_newline depth, ?_⟩
    unfold spread
    simp only [List.cons_append, List.append_assoc]

/-- **The layout with one item a line** is one that the grammar has. -/
theorem spells_renderSpread (depth : ℕ) (j : Json) :
    Spells (Written realParts) j.settle (renderSpread depth j) := by
  induction j using Json.induction generalizing depth with
  | array items ih =>
    obtain ⟨a, b, ha, hb, hspread⟩ := spread_eq depth '[' ']'
      (spreadItems (depth + 1) items)
    rw [renderSpread, hspread, spreadItems_eq_map]
    exact spells_array ha hb fun j hj => ih j hj (depth + 1)
  | object fields ih =>
    obtain ⟨a, b, ha, hb, hspread⟩ := spread_eq depth '\x7b' '\x7d'
      (spreadFields (depth + 1) fields)
    rw [renderSpread, hspread, spreadFields_eq_map]
    exact spells_object ha hb (by decide) fun f hf => ih f hf (depth + 1)
  | _ => exact spells_scalarText _ nofun nofun

/-! ## Writers -/

/-- A layout that the grammar has makes a writer. -/
theorem isWriter_of_spells {layout : Json → List Char}
    (h : ∀ j, Spells (Written realParts) j.settle (layout j)) :
    IsWriter realParts fun j => String.ofList (layout j) where
  rounds x hfin := by
    have hsign : (realParts x).negative = x.negative :=
      negative_decimalParts _ _
    rw [hsign, toBinary64_realParts _ hfin,
      Binary64.ofMagnitude_negative_magnitude]
  writes j := by
    have htext := IsDocument.mk isSpaces_nil (h j) isSpaces_nil
    rw [List.append_nil] at htext
    rwa [String.toList_ofList]

theorem isWriter_compact : IsWriter realParts compact :=
  isWriter_of_spells spells_render

theorem isWriter_pretty : IsWriter realParts pretty :=
  isWriter_of_spells (spells_renderSpread 0)

end RegisterMachine.Json
