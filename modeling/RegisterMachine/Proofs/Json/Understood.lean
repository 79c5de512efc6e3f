import RegisterMachine.Json.Typed
import RegisterMachine.Proofs.Json.Library

/-!
# Readers that understand a type

A reader understands a type if it reads every text of every value that the type
can be made from (`Json.Understands`). Readers of words and names do, and so does
a reader that is put together from such: of an array, if it understands the items
(`Json.Understands.elements`), and of a record, if it understands the fields
(`Json.understands_record`). On a whole text a reader that understands a type is
a reader of the type as a library has it (`Json.Understands.isReader`).

What carries the blanks is that a reader begins by looking for the next character
that is no blank, so blanks in front of a value do not reach it
(`Json.SkipsSpaces`).
-/

namespace RegisterMachine.Json

variable {α β σ : Type} {means : NumberText → Binary64 → Prop}
  {s t u v : List Char}

/-! ## Readers that skip blanks -/

/-- **A reader that does not see blanks** in front of what it reads. -/
def SkipsSpaces (reader : Reader α) : Prop :=
  ∀ b s, IsSpaces b →
    (reader (b ++ s)).map Read.toPair = (reader s).map Read.toPair

/-- What is found in one text is found in another that gives the same. -/
theorem Finds.of_map_toPair {x : Except Problem (Read α s)}
    {y : Except Problem (Read α t)} {a : α}
    (hxy : x.map Read.toPair = y.map Read.toPair) (hy : Finds y a u) :
    Finds x a u := by
  obtain ⟨h, rfl⟩ := hy
  cases x with
  | error e => cases hxy
  | ok r =>
    obtain ⟨rfl, rfl⟩ := Prod.mk.inj (Except.ok.inj hxy)
    exact .ok r

/-- Steps that do not look at the text they came from can follow. -/
theorem map_toPair_bind {x : Except Problem (Read α s)}
    {y : Except Problem (Read α t)} {f : Read α s → Except Problem (Read β s)}
    {g : Read α t → Except Problem (Read β t)}
    (hxy : x.map Read.toPair = y.map Read.toPair)
    (hfg : ∀ a r h h', (f ⟨a, r, h⟩).map Read.toPair
      = (g ⟨a, r, h'⟩).map Read.toPair) :
    (x >>= f).map Read.toPair = (y >>= g).map Read.toPair := by
  cases x with
  | error e =>
    cases y with
    | error e' => cases hxy; rfl
    | ok r' => cases hxy
  | ok r =>
    cases y with
    | error e' => cases hxy
    | ok r' =>
      obtain ⟨a, rest, h⟩ := r
      obtain ⟨a', rest', h'⟩ := r'
      obtain ⟨rfl, rfl⟩ := Prod.mk.inj (Except.ok.inj hxy)
      exact hfg a rest h h'

/-- A result for a text is the same for a longer one. -/
theorem map_toPair_widen (x : Except Problem (Read α u))
    (hs : u.length ≤ s.length) (ht : u.length ≤ t.length) :
    (x.map (·.widen hs)).map Read.toPair
      = (x.map (·.widen ht)).map Read.toPair := by
  cases x <;> rfl

theorem SkipsSpaces.map {reader : Reader α} (h : SkipsSpaces reader)
    (f : α → β) : SkipsSpaces fun s => (reader s).map (Read.map f) := by
  intro b s hb
  have hmap : ∀ s : List Char, ((reader s).map (Read.map f)).map Read.toPair
      = ((reader s).map Read.toPair).map (Prod.map f id) := fun s => by
    cases reader s <;> rfl
  rw [hmap, hmap, h b s hb]

theorem skipsSpaces_next : SkipsSpaces next := by
  intro b s hb
  have hskip := skipSpace_append hb s
  cases hs : skipSpace s with
  | nil =>
    rw [next_of_skipSpace_nil hs, next_of_skipSpace_nil (hskip.trans hs)]
    rfl
  | cons c t =>
    obtain ⟨_, hnext⟩ := next_of_skipSpace_cons hs
    obtain ⟨_, hnext'⟩ := next_of_skipSpace_cons (hskip.trans hs)
    rw [hnext, hnext']
    rfl

theorem skipsSpaces_expect (c : Char) : SkipsSpaces (expect c) := by
  intro b s hb
  refine map_toPair_bind (skipsSpaces_next b s hb) fun d r h h' => ?_
  dsimp only
  split <;> rfl

theorem skipsSpaces_number : SkipsSpaces number := by
  intro b s hb
  refine map_toPair_bind (skipsSpaces_next b s hb) fun c r h h' => ?_
  dsimp only
  split
  · exact map_toPair_widen ..
  · split
    · exact map_toPair_widen ..
    · rfl

theorem skipsSpaces_integer (least greatest : Int) :
    SkipsSpaces (integer least greatest) := by
  intro b s hb
  refine map_toPair_bind (skipsSpaces_number b s hb) fun n r h h' => ?_
  dsimp only
  cases n.toInt? with
  | none => rfl
  | some n =>
    dsimp only
    split <;> rfl

theorem skipsSpaces_elements (reader : Reader α) :
    SkipsSpaces (elements reader) := by
  intro b s hb
  refine map_toPair_bind (skipsSpaces_next b s hb) fun c r h h' => ?_
  dsimp only
  split
  · exact map_toPair_widen ..
  · rfl

/-! ## Understanding -/

/-- **A reader that understands a type**: it skips blanks, and it reads every
text of a value as what the type makes of the value. -/
structure Understands (means : NumberText → Binary64 → Prop)
    (reader : Reader α) (fromJson? : Json → Option α) : Prop where
  skips : SkipsSpaces reader
  reads : ∀ ⦃j t a⦄, Spells means j t → fromJson? j = some a →
    Reads reader t a

namespace Understands

variable {reader : Reader α} {fromJson? : Json → Option α} {j : Json} {a : α}

/-- **A text is read behind blanks.** -/
theorem finds (h : Understands means reader fromJson?)
    (ht : Spells means j t) (ha : fromJson? j = some a) {b : List Char}
    (hb : IsSpaces b) (hs : EndsNumber s) : Finds (reader (b ++ (t ++ s))) a s :=
  (h.reads ht ha s hs).of_map_toPair (h.skips b _ hb)

/-- Understanding is kept when the value is put to use. -/
theorem map (h : Understands means reader fromJson?) (g : α → β) :
    Understands means (fun s => (reader s).map (Read.map g))
      fun j => (fromJson? j).map g where
  skips := h.skips.map g
  reads j t b ht hb := by
    obtain ⟨a, ha, rfl⟩ := Option.map_eq_some_iff.mp hb
    exact fun s hs => (h.reads ht ha s hs).map fun _ => ⟨rfl, rfl⟩

/-- **A whole text is read**, with blanks around the value. -/
theorem isReader (h : Understands means reader fromJson?) :
    IsReader means fromJson? (decode reader) := by
  intro j text a hdocument ha
  generalize htext : text.toList = l at hdocument
  obtain ⟨hfront, ht, hback⟩ := hdocument
  rename_i b
  have hend : skipSpace b = [] := by
    rw [← List.append_nil b, skipSpace_append hback]
    rfl
  have hends : EndsNumber b := by
    rw [← List.append_nil b]
    exact endsNumber_spaces hback endsNumber_nil
  obtain ⟨_, hread⟩ := h.finds ht ha hfront hends
  unfold decode
  rw [htext, hread, ok_bind]
  exact if_pos hend

end Understands

/-! ## Optional values -/

theorem skipsSpaces_optional {reader : Reader α} (h : SkipsSpaces reader) :
    SkipsSpaces (optional reader) := by
  intro b s hb
  refine map_toPair_bind (skipsSpaces_next b s hb) fun c r h' h'' => ?_
  dsimp only
  split
  · cases keyword "ull".toList r <;> rfl
  · exact h.map some b s hb

/-- `null` reads as no value. -/
theorem reads_optional_null (reader : Reader α) :
    Reads (optional reader) "null".toList none := by
  intro s _
  have hnull : "null".toList = 'n' :: "ull".toList := by decide
  obtain ⟨_, hkeyword⟩ := keyword_append "ull".toList s
  rw [hnull, List.cons_append]
  refine Finds.bind (next_cons (c := 'n') rfl) fun _ => ?_
  rw [if_pos rfl]
  dsimp only
  rw [hkeyword]
  exact .ok _

/-- A text that cannot be taken for `null` reads as a value. -/
theorem reads_optional_some {reader : Reader α} {a : α} {c : Char}
    (hspace : isSpace c = false) (hc : c ≠ 'n') (h : Reads reader (c :: t) a) :
    Reads (optional reader) (c :: t) (some a) := by
  intro s hs
  refine Finds.bind (next_cons (s := t ++ s) hspace) fun _ => ?_
  rw [if_neg hc]
  exact (h s hs).map fun _ => ⟨rfl, rfl⟩

/-- **A value or `null` is understood if the value is.** -/
theorem Understands.optional {reader : Reader α} {fromJson? : Json → Option α}
    (h : Understands means reader fromJson?) :
    Understands means (optional reader) (toOptional? fromJson?) where
  skips := skipsSpaces_optional h.skips
  reads j t a ht ha := by
    by_cases hnull : j = .null
    · subst hnull
      cases ha
      cases ht
      exact reads_optional_null reader
    · have hsome : (fromJson? j).map some = some a := by
        cases j with
        | null => exact absurd rfl hnull
        | _ => exact ha
      have hkind : j.kind ≠ .null := by
        cases j with
        | null => exact absurd rfl hnull
        | _ => nofun
      obtain ⟨b, hb, rfl⟩ := Option.map_eq_some_iff.mp hsome
      obtain ⟨c, u, rfl, hc⟩ := ht.exists_eq_cons
      refine reads_optional_some (isSpace_of_ofChar? hc) ?_ (h.reads ht hb)
      rintro rfl
      exact hkind (Option.some.inj hc).symm

/-! ## Arrays -/

theorem elementStep_close (first : Bool) {b : List Char} (hb : IsSpaces b)
    (s : List Char) : ∃ h, elementStep first (b ++ ']' :: s) = .ok (.close s h) := by
  obtain ⟨h, hnext⟩ := next_spaces (s := s) hb (c := ']') rfl
  refine ⟨h, ?_⟩
  unfold elementStep
  rw [hnext]
  rfl

/-- **An item is found behind its comma**, or without one if it is the first,
and perhaps with blanks in front of it. -/
theorem elementStep_item (first : Bool) {a b : List Char} (ha : IsSpaces a)
    (hb : IsSpaces b) {c : Char} (hspace : isSpace c = false) (hc : c ≠ ']')
    (s : List Char) :
    ∃ u h, elementStep first (a ++ (separator first ++ (b ++ c :: s)))
        = .ok (.item u h)
      ∧ ∃ d, IsSpaces d ∧ u = d ++ c :: s := by
  cases first with
  | true =>
    have hassoc : a ++ b ++ c :: s = a ++ (b ++ c :: s) := List.append_assoc ..
    have hfinds := next_spaces (s := s) (ha.append hb) hspace
    rw [hassoc] at hfinds
    obtain ⟨hlt, hnext⟩ := hfinds
    refine ⟨_, Nat.le_refl _, ?_, a ++ b, ha.append hb, hassoc.symm⟩
    show elementStep true (a ++ (b ++ c :: s)) = _
    unfold elementStep
    rw [hnext, ok_bind]
    exact if_neg hc
  | false =>
    obtain ⟨hlt, hcomma⟩ := next_spaces (s := b ++ c :: s) ha (c := ',') rfl
    obtain ⟨_, hnext⟩ := next_spaces (s := s) hb hspace
    refine ⟨b ++ c :: s, Nat.le_of_lt hlt, ?_, b, hb, rfl⟩
    show elementStep false (a ++ ',' :: (b ++ c :: s)) = _
    unfold elementStep
    rw [hcomma, ok_bind]
    dsimp only
    rw [if_neg (by decide), if_neg (by decide), if_pos rfl, hnext, ok_bind]
    exact if_neg hc

/-- **The items of an array are read one after the other.** -/
theorem elementsFrom_partsText {reader : Reader α}
    {fromJson? : Json → Option α} (h : Understands means reader fromJson?)
    {first : Bool} {items : List Json} {values : List α}
    (ht : PartsText ']' (Spells means) first items t)
    (hvalues : items.mapM fromJson? = some values) (s : List Char) :
    Finds (elementsFrom reader first (t ++ s)) values s := by
  induction ht generalizing values with
  | @close first b hb =>
    obtain rfl : [] = values := Option.some.inj hvalues
    obtain ⟨_, hstep⟩ := elementStep_close first hb s
    rw [List.append_assoc, List.singleton_append, elementsFrom, hstep]
    exact .ok _
  | @part first a b text t j items ha hb hj ht ih =>
    rw [List.mapM_cons] at hvalues
    obtain ⟨value, hvalue, hrest⟩ := Option.bind_eq_some_iff.mp hvalues
    obtain ⟨values, hitems, heq⟩ := Option.bind_eq_some_iff.mp hrest
    cases heq
    obtain ⟨c, w, rfl, hc⟩ := hj.exists_eq_cons
    obtain ⟨u, _, hstep, d, hd, rfl⟩ := elementStep_item first ha hb
      (isSpace_of_ofChar? hc) (ne_of_ofChar? hc rfl) (w ++ (t ++ s))
    have hitem := h.finds hj hvalue hd
      (ht.endsNumber (by decide) s)
    have htext : a ++ (separator first ++ (b ++ (c :: w ++ t))) ++ s
        = a ++ (separator first ++ (b ++ c :: (w ++ (t ++ s)))) := by
      simp only [List.append_assoc, List.cons_append]
    rw [htext, elementsFrom, hstep]
    refine Finds.bind hitem fun _ => (ih hitems).bind fun _ => ?_
    exact .ok _

/-- **An array is understood if its items are.** -/
theorem Understands.elements {reader : Reader α}
    {fromJson? : Json → Option α} (h : Understands means reader fromJson?) :
    Understands means (elements reader) (toList? fromJson?) where
  skips := skipsSpaces_elements reader
  reads j t values ht hvalues := by
    intro s _
    cases j with
    | array items =>
      obtain ⟨t, rfl, hitems⟩ := spells_array_iff.mp ht
      refine Finds.bind (next_cons (c := '[') rfl) fun _ => ?_
      rw [if_pos rfl]
      exact (elementsFrom_partsText h hitems hvalues s).map fun _ => ⟨rfl, rfl⟩
    | _ => cases hvalues

/-! ## Objects -/

theorem membersFrom_spaces_close
    (field : σ → String → Except Problem (Reader σ)) (first : Bool) (state : σ)
    {b : List Char} (hb : IsSpaces b) (s : List Char) :
    Finds (membersFrom field first state (b ++ '\x7d' :: s)) state s := by
  obtain ⟨h, hnext⟩ := next_spaces (s := s) hb (c := '\x7d') rfl
  rw [membersFrom, keyStep, hnext]
  exact .ok _

theorem keyBody_writesBody {k : String} {body : List Char} {r : Read Char t}
    (hk : WritesBody k.toList body) (h : r.rest = body ++ s) :
    ∃ h, keyBody t r = .ok (.key k s h) := by
  obtain ⟨c, rest, hrest⟩ := r
  obtain rfl : rest = _ := h
  obtain ⟨hlt, hbody⟩ := stringBody_writesBody hk s
  have hname : String.ofList k.toList = k := String.ofList_toList
  refine ⟨Nat.lt_trans hlt hrest, ?_⟩
  unfold keyBody
  rw [hbody]
  show Except.ok (KeyStep.key (String.ofList k.toList) s _) = _
  simp only [hname]

/-- **A key is found behind its comma**, or without one if it is the first, with
blanks around and however it is written. -/
theorem keyStep_writesBody (first : Bool) {a b body : List Char}
    (ha : IsSpaces a) (hb : IsSpaces b) {k : String}
    (hk : WritesBody k.toList body) (s : List Char) :
    ∃ h, keyStep first (a ++ (separator first ++ (b ++ '"' :: (body ++ s))))
      = .ok (.key k s h) := by
  cases first with
  | true =>
    have hfinds : Finds (next (a ++ (b ++ '"' :: (body ++ s)))) '"'
        (body ++ s) := by
      rw [← List.append_assoc]
      exact next_spaces (ha.append hb) rfl
    obtain ⟨hlt, hnext⟩ := hfinds
    show ∃ h, keyStep true (a ++ (b ++ '"' :: (body ++ s))) = _
    unfold keyStep
    rw [hnext]
    exact keyBody_writesBody hk rfl
  | false =>
    obtain ⟨hlt, hcomma⟩ := next_spaces (s := b ++ '"' :: (body ++ s)) ha
      (c := ',') rfl
    obtain ⟨hlt', hnext⟩ := next_spaces (s := body ++ s) hb (c := '"') rfl
    obtain ⟨h, hbody⟩ := keyBody_writesBody (s := s)
      (r := ⟨'"', body ++ s, Nat.lt_trans hlt' hlt⟩) hk rfl
    refine ⟨h, ?_⟩
    show keyStep false (a ++ ',' :: (b ++ '"' :: (body ++ s))) = _
    unfold keyStep
    rw [hcomma, ok_bind]
    dsimp only
    rw [if_neg (by decide), if_neg (by decide), if_pos rfl, hnext]
    exact hbody

/-- **A field and the fields behind it**, from its key, its value and the
rest. -/
theorem membersFrom_of_keyStep
    {field : σ → String → Except Problem (Reader σ)} {first : Bool}
    {state state' final : σ} {k : String} {reader : Reader σ} {b : List Char}
    (hkey : ∃ h, keyStep first s = .ok (.key k (b ++ ':' :: t) h))
    (hb : IsSpaces b) (hfield : field state k = .ok reader)
    (hv : Finds (reader t) state' u)
    (hfinal : Finds (membersFrom field false state' u) final v) :
    Finds (membersFrom field first state s) final v := by
  obtain ⟨h, hstep⟩ := hkey
  rw [membersFrom, hstep]
  show Finds (field state k >>= _) final v
  rw [hfield, ok_bind]
  refine (expect_spaces hb rfl).bind fun _ => ?_
  refine hv.bind fun _ => hfinal.bind fun _ => ?_
  exact .ok _

/-- A field whose value is not read is the end of it. -/
theorem membersFrom_of_error {field : σ → String → Except Problem (Reader σ)}
    {first : Bool} {state : σ} {k : String} {reader : Reader σ} {b : List Char}
    {problem : Problem}
    (hkey : ∃ h, keyStep first s = .ok (.key k (b ++ ':' :: t) h))
    (hb : IsSpaces b) (hfield : field state k = .ok reader)
    (hv : reader t = .error problem) :
    membersFrom field first state s = .error problem := by
  obtain ⟨h, hstep⟩ := hkey
  obtain ⟨_, hcolon⟩ := expect_spaces (s := t) hb (c := ':') rfl
  rw [membersFrom, hstep]
  show (field state k >>= _) = _
  rw [hfield, ok_bind, hcolon, ok_bind]
  dsimp only
  rw [hv]
  rfl

/-- **A reader of fields that understands what each puts in.** -/
def UnderstandsFields (means : NumberText → Binary64 → Prop)
    (field : σ → String → Except Problem (Reader σ))
    (put? : σ → String → Json → Option σ) : Prop :=
  ∀ ⦃state name value next⦄, put? state name value = some next →
    ∃ reader fromJson?, field state name = .ok reader
      ∧ Understands means reader fromJson? ∧ fromJson? value = some next

/-- **The fields of an object are read one after the other.** -/
theorem membersFrom_partsText
    {field : σ → String → Except Problem (Reader σ)}
    {put? : σ → String → Json → Option σ}
    (hfield : UnderstandsFields means field put?) {first : Bool}
    {fields : List (String × Json)} {state final : σ}
    (ht : PartsText '\x7d' (SpellsField means) first fields t)
    (hfinal : putFields? put? state fields = some final) (s : List Char) :
    Finds (membersFrom field first state (t ++ s)) final s := by
  induction ht generalizing state with
  | close hb =>
    cases hfinal
    rw [List.append_assoc]
    exact membersFrom_spaces_close field _ _ hb s
  | @part first a b text t f fields ha hb hf ht ih =>
    obtain ⟨value, hvalue, ⟨hname, hc, hd⟩⟩ := hf
    rename_i body c d
    obtain ⟨next, hput, hrest⟩ := Option.bind_eq_some_iff.mp hfinal
    obtain ⟨reader, fromJson?, hreader, hunderstands, hnext⟩ := hfield hput
    have hfinds := hunderstands.finds hvalue hnext hd
      (ht.endsNumber (by decide) s)
    have htext : a ++ (separator first ++ (b
          ++ ('"' :: (body ++ (c ++ ':' :: (d ++ value))) ++ t))) ++ s
        = a ++ (separator first ++ (b ++ '"' :: (body
          ++ (c ++ ':' :: (d ++ (value ++ (t ++ s))))))) := by
      simp only [List.append_assoc, List.cons_append]
    rw [htext]
    exact membersFrom_of_keyStep (keyStep_writesBody first ha hb hname _) hc
      hreader hfinds (ih hrest)

/-- **A record is understood if its fields are.** -/
theorem understands_record {inOrder : Reader α} {start : σ}
    {field : σ → String → Except Problem (Reader σ)}
    {finish : σ → Except Problem α} {put? : σ → String → Json → Option σ}
    {finish? : σ → Option α} (hfield : UnderstandsFields means field put?)
    (hfinish : ∀ ⦃state a⦄, finish? state = some a → finish state = .ok a) :
    Understands means (record inOrder start field finish)
      (toRecord? start put? finish?) where
  skips := by
    intro b s hb
    refine map_toPair_bind (skipsSpaces_next b s hb) fun c r h h' => ?_
    dsimp only
    split
    · exact map_toPair_widen ..
    · split
      · cases membersFrom field true start r with
        | error e => rfl
        | ok r =>
          simp only [ok_bind]
          cases finish r.value <;> rfl
      · rfl
  reads j t a ht ha := by
    intro s _
    cases j with
    | object fields =>
      have hbracket : ('\x7b' : Char) ≠ '[' := by decide
      obtain ⟨t, rfl, hfields⟩ := spells_object_iff.mp ht
      obtain ⟨final, hfinal, hfinish?⟩ := Option.bind_eq_some_iff.mp ha
      refine Finds.bind (next_cons (c := '\x7b') rfl) fun _ => ?_
      rw [if_neg hbracket, if_pos rfl]
      refine (membersFrom_partsText hfield hfields hfinal s).bind fun _ => ?_
      dsimp only
      rw [hfinish hfinish?, ok_bind]
      exact .ok _
    | _ => cases ha

end RegisterMachine.Json
