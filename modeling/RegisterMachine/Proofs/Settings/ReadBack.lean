import Mathlib.Data.List.Perm.Basic
import RegisterMachine.Proofs.Json.Written
import RegisterMachine.Proofs.Registers.ReadBack
import RegisterMachine.Settings.Json

/-!
# Settings that are read from JSON

Settings are made from the words in an object by name, so the order of the fields
does not count, and a field that is left out has its standard value. Fields of
different names are put in at different places, and so any order leads to the same
fields (`Settings.foldl_put_perm`). What was read is then held to the two rules,
that of the registers first.

`words_come_back_from_json` says this for every text of an object that holds some
of the three fields, and beside it that settings and register files come back
from their own text, whatever writes the texts and reads them. A word has one
spelling there, its digits: zero with a minus in front is no word, and it is
refused (`minus_zero_refused`).
-/

namespace RegisterMachine

namespace Settings

open Json

variable {means : NumberText → Binary64 → Prop}

/-! ## Fields by name -/

/-- **The fields that were found**, with their words. -/
def Fields.entries (f : Fields) : List (Key × UInt64) :=
  Key.all.filterMap fun k =>
    (f.get? k).map fun n => (k, n)

/-- A field with its word, as a field of an object. -/
def entryJson (e : Key × UInt64) : String × Json :=
  (e.1.name, .int e.2.toNat)

/-- A field has its name to itself. -/
theorem ofName?_name (k : Key) : Key.ofName? k.name = some k := by
  cases k <;> decide

/-- A field that is not there yet is vacant. -/
theorem vacant?_name {f : Fields} {k : Key} (h : f.get? k = none) :
    vacant? f k.name = some k := by
  unfold vacant?
  rw [ofName?_name, Option.filter_some_pos (by rw [h]; rfl)]

/-- **A word is put into its field.** -/
theorem put?_name {f : Fields} {e : Key × UInt64} (h : f.get? e.1 = none) :
    put? f (entryJson e).1 (entryJson e).2 = some (f.put e) := by
  unfold put? entryJson
  rw [vacant?_name h, Option.bind_some, toWord?_toNat]
  rfl

theorem get?_put (f : Fields) (e : Key × UInt64) (k : Key) :
    (f.put e).get? k = if k = e.1 then some e.2 else f.get? k := by
  obtain ⟨k', n⟩ := e
  cases k <;> cases k' <;> rfl

theorem mem_entries_iff (f : Fields) (e : Key × UInt64) :
    e ∈ f.entries ↔ f.get? e.1 = some e.2 := by
  obtain ⟨k, n⟩ := e
  unfold Fields.entries
  rw [List.mem_filterMap]
  constructor
  · rintro ⟨k', -, h⟩
    obtain ⟨n', hn, heq⟩ := Option.map_eq_some_iff.mp h
    cases heq
    exact hn
  · intro h
    exact ⟨k, by cases k <;> decide, by rw [h]; rfl⟩

/-- No field is found twice. -/
theorem nodup_entries (f : Fields) : (f.entries.map Prod.fst).Nodup := by
  have hfound : f.entries.map Prod.fst
      = Key.all.filter
        fun k => (f.get? k).isSome := by
    obtain ⟨_ | _, _ | _, _ | _⟩ := f <;> rfl
  rw [hfound]
  exact List.Nodup.filter _ (by decide)

/-- **Words of different fields may be put in in either order.** -/
theorem put_comm (f : Fields) {e e' : Key × UInt64} (h : e.1 ≠ e'.1) :
    (f.put e).put e' = (f.put e').put e := by
  obtain ⟨k, n⟩ := e
  obtain ⟨k', n'⟩ := e'
  cases k <;> cases k' <;> first | rfl | exact absurd rfl h

/-- **In whatever order the fields come, they are the same fields.** -/
theorem foldl_put_perm (f : Fields) {es : List (Key × UInt64)}
    (h : es.Perm f.entries) : es.foldl Fields.put Fields.none = f := by
  have hentries : f.entries.foldl Fields.put Fields.none = f := by
    obtain ⟨_ | _, _ | _, _ | _⟩ := f <;> rfl
  rw [← hentries]
  refine h.foldl_eq' (fun e he e' he' g => ?_) _
  by_cases hkey : e.1 = e'.1
  · -- a field has one word
    have hget := (mem_entries_iff f e).mp (h.mem_iff.mp he)
    have hget' := (mem_entries_iff f e').mp (h.mem_iff.mp he')
    rw [hkey, hget'] at hget
    rw [Prod.ext hkey (Option.some.inj hget).symm]
  · exact put_comm g hkey

/-- **Words of fields that are not there yet are put in one after the
other.** -/
theorem putFields?_entries {es : List (Key × UInt64)} {f : Fields}
    (hnodup : (es.map Prod.fst).Nodup) (hnew : ∀ e ∈ es, f.get? e.1 = none) :
    putFields? put? f (es.map entryJson) = some (es.foldl Fields.put f) := by
  induction es generalizing f with
  | nil => rfl
  | cons e es ih =>
    obtain ⟨he, hes⟩ := List.forall_mem_cons.mp hnew
    rw [List.map_cons, List.nodup_cons] at hnodup
    rw [List.map_cons, putFields?_cons, put?_name he, Option.bind_some,
      List.foldl_cons]
    refine ih hnodup.2 fun e' he' => ?_
    have hne : e'.1 ≠ e.1 := fun heq =>
      hnodup.1 (heq ▸ List.mem_map_of_mem he')
    rw [get?_put, if_neg hne]
    exact hes e' he'

/-- **Settings are made from an object of some of their fields**, in any
order. -/
theorem fromJson?_entries {f : Fields} {es : List (Key × UInt64)}
    (hes : es.Perm f.entries) :
    fromJson? (.object (es.map entryJson)) = some f.settings := by
  have hnodup : (es.map Prod.fst).Nodup :=
    (hes.map Prod.fst).nodup_iff.mpr (nodup_entries f)
  have hput := putFields?_entries (f := .none) hnodup
    fun e _ => by cases e.1 <;> rfl
  rw [foldl_put_perm f hes] at hput
  unfold fromJson?
  rw [toRecord?_object, hput]
  rfl

/-- **Settings are made from their own JSON value.** -/
theorem fromJson?_toJson (s : Settings) : fromJson? s.toJson = some s := by
  obtain ⟨delay, registerCount, resetSpan⟩ := s
  have hentries : [(Key.delay, delay), (.registerCount, registerCount),
      (.resetSpan, resetSpan)].Perm
        (⟨some delay, some registerCount, some resetSpan⟩ : Fields).entries :=
    .refl _
  have hread := fromJson?_entries hentries
  rwa [List.map_cons, List.map_cons, List.map_cons, List.map_nil] at hread

/-- The fields are understood. -/
theorem understandsFields : UnderstandsFields means field put? := by
  intro f name value next h
  obtain ⟨k, hk, h⟩ := Option.bind_eq_some_iff.mp h
  refine ⟨_, _, ?_, understands_word.map fun n => f.put (k, n), h⟩
  unfold field
  rw [hk]

/-- **The reader of settings understands them.** -/
theorem understands_reader : Understands means reader fromJson? :=
  understands_record understandsFields fun _ _ h => by cases h; rfl

/-! ## The rules -/

/-- **Settings held to the rules.** -/
def checked (s : Settings) : Except ReadError Settings :=
  if s.registerCount = 0 then .error (.refused .noRegisters)
  else if s.registerCount < s.resetSpan then
    .error (.refused (.resetSpanTooLarge s.resetSpan s.registerCount))
  else .ok s

/-- **What is read is held to the rules**, whatever reads it. -/
theorem parseWith_of_read {read : String → Except Problem Settings}
    {text : String} {s : Settings} (h : read text = .ok s) :
    parseWith read text = s.checked := by
  unfold parseWith checked refusal?
  rw [h]
  dsimp only
  by_cases hzero : s.registerCount = 0
  · rw [if_pos hzero, if_pos hzero]
  · by_cases hlt : s.registerCount < s.resetSpan
    · rw [if_neg hzero, if_neg hzero, if_pos hlt, if_pos hlt]
    · rw [if_neg hzero, if_neg hzero, if_neg hlt, if_neg hlt]

theorem checked_eq_ok_iff (s : Settings) :
    s.checked = .ok s ↔ 1 ≤ s.registerCount ∧ s.resetSpan ≤ s.registerCount := by
  have hpos : 1 ≤ s.registerCount ↔ s.registerCount ≠ 0 := by
    rw [UInt64.le_iff_toNat_le, Ne, ← UInt64.toNat_inj]
    show 1 ≤ _ ↔ ¬_ = 0
    omega
  rw [hpos, ← refusal?_eq_none_iff]
  unfold checked refusal?
  split
  · exact iff_of_false (fun h => by cases h) fun h => by cases h
  · split
    · exact iff_of_false (fun h => by cases h) fun h => by cases h
    · exact iff_of_true rfl rfl

/-- **A real number is taken for no word**, not even a whole one. -/
theorem parse_of_real {k : Key} {body t : List Char} {text : String}
    {n : NumberText} {x : Binary64} (hname : WritesBody k.name.toList body)
    (ht : WritesNumber n t) (hx : n.number = .ok (.real x))
    (htext : text.toList = '\x7b' :: '"' :: (body ++ ':' :: (t ++ ['\x7d']))) :
    parse text = .error (.text .unexpected) := by
  have hvacant : vacant? .none k.name = some k :=
    vacant?_name (by cases k <;> rfl)
  have hfield : field .none k.name
      = .ok fun s => (word s).map (Read.map fun n => Fields.none.put (k, n)) := by
    unfold field
    rw [hvacant]
  have hword : (word (t ++ ['\x7d'])).map
      (Read.map fun n => Fields.none.put (k, n)) = .error .unexpected := by
    unfold word
    rw [integer_of_real ht hx (endsNumber_cons (by decide))]
    rfl
  have hkey := keyStep_writesBody true isSpaces_nil isSpaces_nil hname
    (':' :: (t ++ ['\x7d']))
  have hmembers : membersFrom field true .none
      ('"' :: (body ++ ':' :: (t ++ ['\x7d']))) = .error .unexpected :=
    membersFrom_of_error (b := []) hkey isSpaces_nil hfield hword
  obtain ⟨_, hnext⟩ := next_cons (c := '\x7b')
    (s := '"' :: (body ++ ':' :: (t ++ ['\x7d']))) rfl
  have hbracket : ('\x7b' : Char) ≠ '[' := by decide
  have hread : reader text.toList = .error .unexpected := by
    rw [htext]
    unfold reader record
    rw [hnext, ok_bind]
    dsimp only
    rw [if_neg hbracket, if_pos rfl, hmembers]
    rfl
  unfold parse parseWith decode
  rw [hread]
  rfl

/-! ## Any reader and any writer -/

variable {digits : Binary64 → NumberText} {write : Json → String}
  {read : String → Except Problem Settings}

/-- **Settings are read back from their own text**, and held to the rules. -/
theorem parseWith_write (hwrite : IsWriter digits write)
    (hread : IsReader (Written digits) fromJson? read) (s : Settings) :
    parseWith read (write s.toJson) = s.checked :=
  parseWith_of_read (hread _ _ _ (hwrite.writes s.toJson) s.fromJson?_toJson)

/-- **Settings are read from any text of some of their fields.** -/
theorem parseWith_of_isDocument {f : Fields} {es : List (Key × UInt64)}
    {text : String} (hread : IsReader means fromJson? read)
    (hes : es.Perm f.entries)
    (htext : IsDocument means (.object (es.map entryJson)) text.toList) :
    parseWith read text = f.settings.checked :=
  parseWith_of_read (hread _ _ _ htext (fromJson?_entries hes))

end Settings

open Settings

/-- **Words come back from JSON**, whatever writes the texts and reads them.
Settings that are read from their own text are accepted exactly if there is a
register and the reset span is within the registers; without a register they are
refused for that, and otherwise with the two numbers. A text of an object that
holds some of the three fields, each once, in any order, with blanks anywhere and
its names spelled in any way, is read as the settings of those words with `100`,
`256` and `100` for the fields left out. And every register file is read from its
text as it was. -/
theorem words_come_back_from_json {digits : Binary64 → Json.NumberText}
    {write : Json → String}
    {readSettings : String → Except Json.Problem Settings}
    {readRegisters : String → Except Json.Problem Registers}
    (hwrite : Json.IsWriter digits write)
    (hsettings : Json.IsReader (Json.Written digits) Settings.fromJson?
      readSettings)
    (hregisters : Json.IsReader (Json.Written digits) Registers.fromJson?
      readRegisters) :
    (∀ s : Settings,
        (parseWith readSettings (write s.toJson) = .ok s
            ↔ 1 ≤ s.registerCount ∧ s.resetSpan ≤ s.registerCount)
          ∧ parseWith readSettings (write s.toJson)
            = if s.registerCount = 0 then .error (.refused .noRegisters)
              else if s.registerCount < s.resetSpan then
                .error (.refused
                  (.resetSpanTooLarge s.resetSpan s.registerCount))
              else .ok s)
      ∧ (∀ (f : Fields) (es : List (Key × UInt64)) (text : String),
          es.Perm f.entries →
          Json.IsDocument (Json.Written digits) (.object (es.map entryJson))
            text.toList →
            parseWith readSettings text
              = parseWith readSettings (write
                (⟨f.delay.getD 100, f.registerCount.getD 256,
                  f.resetSpan.getD 100⟩ : Settings).toJson))
      ∧ ∀ r : Registers, readRegisters (write r.toJson) = .ok r := by
  refine ⟨fun s => ⟨?_, parseWith_write hwrite hsettings s⟩,
    fun f es text hes htext => ?_, fun r => ?_⟩
  · rw [parseWith_write hwrite hsettings]
    exact s.checked_eq_ok_iff
  · rw [parseWith_of_isDocument hsettings hes htext,
      parseWith_write hwrite hsettings]
    rfl
  · have htext := hwrite.writes r.toJson
    rw [r.settle_toJson] at htext
    exact hregisters _ _ _ htext r.fromJson?_toJson

/-- **Few registers and the standard reset span** do not go together. Here the
one field is written with an escape, and with a blank of every kind. -/
theorem fifty_registers_refused :
    Json.IsWriter Json.realParts Json.compact
      ∧ Json.IsReader (Json.Written Json.realParts) Settings.fromJson?
        (Json.decode Settings.reader)
      ∧ Json.IsReader (Json.Written Json.realParts) Registers.fromJson?
        (Json.decode Registers.reader)
      ∧ [(Key.registerCount, (50 : UInt64))].Perm
        (⟨none, some 50, none⟩ : Fields).entries
      ∧ Json.IsDocument (Json.Written Json.realParts)
        (.object ([(Key.registerCount, (50 : UInt64))].map entryJson))
        " \x7b\t\"\\u0072egister_count\" :\r50\n\x7d".toList
      ∧ parse " \x7b\t\"\\u0072egister_count\" :\r50\n\x7d"
        = .error (.refused (.resetSpanTooLarge 100 50)) := by
  have hletter : Json.WritesChar 'r' "\\u0072".toList := .number rfl rfl
  have hname : Json.WritesBody "register_count".toList
      "\\u0072egister_count\"".toList :=
    .cons hletter (Json.writesBody_escape "egister_count".toList)
  have hvalue : Json.Spells (Json.Written Json.realParts)
      (.int (50 : UInt64).toNat) "50".toList :=
    .int (Json.writesNumber_intText 50)
  have hfield : Json.SpellsField (Json.Written Json.realParts)
      ("register_count", .int (50 : UInt64).toNat)
      "\"\\u0072egister_count\" :\r50".toList :=
    ⟨_, hvalue, .mk (b := [' ']) (c := ['\r']) hname (by decide) (by decide)⟩
  have hobject : Json.Spells (Json.Written Json.realParts)
      (.object ([(Key.registerCount, (50 : UInt64))].map entryJson))
      "\x7b\t\"\\u0072egister_count\" :\r50\n\x7d".toList :=
    Json.spells_object_iff.mpr ⟨_, rfl, .part (a := ['\t']) (b := [])
      (by decide) (by decide) hfield
      (.close (b := ['\n']) (by decide))⟩
  have htext : Json.IsDocument (Json.Written Json.realParts)
      (.object ([(Key.registerCount, (50 : UInt64))].map entryJson))
      " \x7b\t\"\\u0072egister_count\" :\r50\n\x7d".toList :=
    .mk (a := [' ']) (b := []) (by decide) hobject (by decide)
  have hwrite := Json.isWriter_compact
  have hsettings : Json.IsReader (Json.Written Json.realParts)
      Settings.fromJson? _ := Settings.understands_reader.isReader
  have hregisters : Json.IsReader (Json.Written Json.realParts)
      Registers.fromJson? _ := Registers.understands_reader.isReader
  obtain ⟨hown, hread, -⟩ :=
    words_come_back_from_json hwrite hsettings hregisters
  refine ⟨hwrite, hsettings, hregisters, .refl _, htext, ?_⟩
  refine (hread ⟨none, some 50, none⟩ [(.registerCount, 50)] _ (.refl _)
    htext).trans ?_
  rw [(hown _).2]
  decide

/-- **Zero with a minus in front is no word.** It is read as a real number, and
no field takes one; the settings that have the word zero there are accepted. -/
theorem minus_zero_refused :
    parse "\x7b\"delay_ms\":-0\x7d" = .error (.text .unexpected)
      ∧ parse (⟨0, 256, 100⟩ : Settings).toJson.compact
        = .ok ⟨0, 256, 100⟩ := by
  constructor
  · have hscale : Json.scale (.ofInt 0) 0 = .ok (.zero false) := by
      rw [Json.scale_of_nonneg _ le_rfl (by decide)]
      rfl
    have hnumber : (⟨true, ['0'], [], none⟩ : Json.NumberText).number
        = .ok (.real (.zero true)) := by
      show Json.NumberText.real ⟨true, ['0'], [], none⟩ = _
      unfold Json.NumberText.real
      show Json.scale (.ofInt 0) 0 >>= _ = _
      rw [hscale]
      rfl
    have htext : Json.WritesNumber ⟨true, ['0'], [], none⟩ "-0".toList :=
      .mk (.mk (isWhole_decimalDigits 0) (List.forall_mem_nil _) .absent)
    exact parse_of_real (k := .delay) (Json.writesBody_escape "delay_ms".toList)
      htext hnumber (by decide)
  · exact parseWith_write Json.isWriter_compact
      Settings.understands_reader.isReader ⟨0, 256, 100⟩

end RegisterMachine
