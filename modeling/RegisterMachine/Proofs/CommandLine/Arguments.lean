import RegisterMachine.Proofs.CommandLine.BadLine

/-!
# What is asked of a reader of arguments

Arguments are read by a library, and what is asked of it here is that it takes a
command line that spells a command for that command
(`CommandLine.IsArgumentReader`). A command is spelled by its name, and behind it,
in any order, the program file and the options: each in full or by its letter, its
value apart or, in full, behind an equals sign (`CommandLine.Spells`). What the
library makes of any other command line is left to it, letters that share a dash
among them.

So what is said of commands is said of command lines, whatever reads them: a
command line that spells a command has its report
(`CommandLine.reportOn_of_spells`), and a bad line of its program is shown
(`CommandLine.bad_line_of_spells`). `CommandLine.parse?` is such a reader
(`CommandLine.isArgumentReader_parse?`), and so no command line spells two
commands (`CommandLine.Spells.unique`).
-/

namespace RegisterMachine.CommandLine

/-! ## Command lines -/

/-- **A text that is taken for no option**: there is something to it, and it does
not begin with a dash. -/
def IsPlainText (text : String) : Prop :=
  ∃ c cs, text.toList = c :: cs ∧ c ≠ '-'

/-- **How a part of a command line is written.** -/
inductive Writes : Item → List String → Prop where
  | long {s : Switch} (hs : s.takesValue = false) :
      Writes (.switch s) ["--" ++ s.long]
  | letter {s : Switch} {c : Char} (hs : s.takesValue = false)
      (hc : s.letter? = some c) : Writes (.switch s) [String.ofList ['-', c]]
  | longApart {s : Switch} {text : String} (hs : s.takesValue = true)
      (htext : IsPlainText text) :
      Writes (.value s text) ["--" ++ s.long, text]
  | longEquals {s : Switch} {text : String} (hs : s.takesValue = true)
      (htext : text ≠ "") :
      Writes (.value s text) ["--" ++ s.long ++ "=" ++ text]
  | letterApart {s : Switch} {text : String} {c : Char}
      (hs : s.takesValue = true) (hc : s.letter? = some c)
      (htext : IsPlainText text) :
      Writes (.value s text) [String.ofList ['-', c], text]
  | operand {text : String} (htext : IsPlainText text) :
      Writes (.operand text) [text]

/-- A part with one of the options that are allowed, or with none. -/
def Item.IsAmong (allowed : List Switch) : Item → Prop
  | .switch s => s ∈ allowed
  | .value s _ => s ∈ allowed
  | _ => True

/-- **A command line that spells a command**: nothing at all, or a verb and parts
in any order, from which the command is found. -/
inductive Spells : Command → List String → Prop where
  | nothing : Spells .welcome []
  | verb {v : Verb} {items : List Item} {texts : List (List String)}
      {f : Found} {command : Command} (hwrites : List.Forall₂ Writes items texts)
      (hamong : ∀ i ∈ items, i.IsAmong v.allowed)
      (hfound : items.foldlM (Found.take v.hasProgram) .nothing = .ok f)
      (hcommand : v.command f = .ok command) :
      Spells command (v.name :: texts.flatten)

/-- **A reader of arguments**: a command line that spells a command is taken for
it. -/
def IsArgumentReader (read : List String → Option Command) : Prop :=
  ∀ command args, Spells command args → read args = some command

variable {read : List String → Option Command} {s : Switch} {i : Item}
  {v : Verb} {allowed : List Switch} {args : List String} {text : String}
  {command : Command} {files : Files}

/-! ## Any reader -/

/-- **A command line that spells a command has its report**, whatever reads its
arguments. -/
theorem reportOn_of_spells (hread : IsArgumentReader read)
    (h : Spells command args) (files : Files) :
    reportOn read files args = command.report files := by
  unfold reportOn
  rw [hread command args h]

/-- **A bad line is shown whoever reads the arguments.** If a command line spells
a command that reads a file and the text in it is refused, the report has nothing
but the complaint: message, index, and the line without the blanks at its end. -/
theorem bad_line_of_spells {path source : String} {e : ParseError}
    (hread : IsArgumentReader read) (h : Spells command args)
    (hreads : command.Reads path) (hfile : files path = .ok source)
    (hparse : Program.parse source = .error e) :
    ∃ l, (Text.lines source.toList)[e.line]? = some l
      ∧ (reportOn read files args).PointsAt path e (Text.trimEnd l) := by
  obtain ⟨l, hl, -⟩ := Program.exists_fault_of_parse hparse
  rw [reportOn_of_spells hread h]
  exact ⟨l, hl, hreads.pointsAt hfile hparse hl⟩

/-! ## Options by their names -/

/-- **An element that alone passes a test** is the one that is found. -/
theorem find?_eq_some_of_unique {α : Type} {l : List α} {a : α}
    {p : α → Bool} (ha : a ∈ l) (hp : p a = true)
    (hunique : ∀ b, p b = true → b = a) : l.find? p = some a := by
  cases h : l.find? p with
  | none => exact absurd hp (List.find?_eq_none.mp h a ha)
  | some b => rw [hunique b (List.find?_some h)]

theorem Switch.long_injective {s t : Switch} (h : s.long = t.long) : s = t := by
  revert h
  cases s <;> cases t <;> decide

theorem Switch.letter?_injective {s t : Switch} {c : Char}
    (hs : s.letter? = some c) (ht : t.letter? = some c) : s = t := by
  have h : s.letter? = t.letter? ∧ s.letter? ≠ none := by
    rw [hs, ht]
    exact ⟨rfl, nofun⟩
  revert h
  cases s <;> cases t <;> decide

theorem find?_long (hs : s ∈ allowed) :
    (allowed.find? fun t => t.long == s.long) = some s :=
  find?_eq_some_of_unique hs (beq_self_eq_true _)
    fun _ ht => Switch.long_injective (eq_of_beq ht)

theorem find?_letter (hs : s ∈ allowed) {c : Char} (hc : s.letter? = some c) :
    (allowed.find? fun t => t.letter? == some c) = some s :=
  find?_eq_some_of_unique hs (by rw [hc]; exact beq_self_eq_true _)
    fun _ ht => Switch.letter?_injective (eq_of_beq ht) hc

/-! ## The parts are found again -/

/-- The name of an option ends in front of an equals sign. -/
theorem takeWhile_long (s : Switch) (cs : List Char)
    (hcs : ∀ c ∈ cs.head?, c = '=') :
    (s.long.toList ++ cs).takeWhile (· != '=') = s.long.toList
      ∧ (s.long.toList ++ cs).dropWhile (· != '=') = cs := by
  have hname : s.long.toList.all (· != '=') = true := by cases s <;> decide
  refine Text.takeWhile_dropWhile_append (List.all_eq_true.mp hname) fun c hc => ?_
  rw [hcs c hc]
  rfl

theorem spelled_long (hs : s ∈ allowed) :
    spelled allowed s.long.toList
      = if s.takesValue then ([], some s) else ([.switch s], none) := by
  obtain ⟨htake, hdrop⟩ := takeWhile_long s [] nofun
  rw [List.append_nil] at htake hdrop
  unfold spelled
  dsimp only
  rw [htake, hdrop, String.ofList_toList, find?_long hs]

theorem spelled_longEquals (hs : s ∈ allowed) (hvalue : s.takesValue = true)
    (text : String) :
    spelled allowed (s.long.toList ++ '=' :: text.toList)
      = ([.value s text], none) := by
  obtain ⟨htake, hdrop⟩ := takeWhile_long s ('=' :: text.toList)
    fun c hc => (Option.some.inj hc).symm
  unfold spelled
  dsimp only
  rw [htake, hdrop, String.ofList_toList, find?_long hs]
  dsimp only
  rw [if_pos hvalue, String.ofList_toList]

theorem letters_letter (hs : s ∈ allowed) {c : Char}
    (hc : s.letter? = some c) :
    letters allowed [c]
      = if s.takesValue then ([], some s) else ([.switch s], none) := by
  unfold letters
  rw [find?_letter hs hc]
  rfl

theorem isDashed_of_isPlainText (h : IsPlainText text) :
    isDashed text = false := by
  obtain ⟨c, cs, htext, hc⟩ := h
  unfold isDashed
  rw [htext]
  split
  · next heq => exact absurd (List.cons.inj heq).1 hc
  · rfl

theorem ne_dashes_of_isPlainText (h : IsPlainText text) : text ≠ "--" := by
  rintro rfl
  exact Bool.noConfusion (isDashed_of_isPlainText h)

theorem classify_of_isPlainText (h : IsPlainText text) :
    classify allowed text = ([.operand text], none) := by
  obtain ⟨c, cs, htext, hc⟩ := h
  unfold classify
  rw [htext]
  split
  · next heq => exact absurd (List.cons.inj heq).1 hc
  · next heq => exact absurd (List.cons.inj heq).1 hc
  · rfl

/-- A value that stands apart is found behind its option. -/
theorem scan_apart (h : IsPlainText text) (args : List String) :
    scan allowed (some s) (text :: args)
      = .value s text :: scan allowed none args := by
  rw [scan, if_neg (ne_true_of_eq_false (isDashed_of_isPlainText h))]

theorem scan_operand (h : IsPlainText text) (args : List String) :
    scan allowed none (text :: args)
      = .operand text :: scan allowed none args := by
  rw [scan, if_neg (ne_dashes_of_isPlainText h), classify_of_isPlainText h]
  rfl

/-- **An option in full** is found behind its dashes. -/
theorem scan_long (s : Switch) (cs : List Char) (args : List String) :
    scan allowed none (("--" ++ s.long ++ String.ofList cs) :: args)
      = (spelled allowed (s.long.toList ++ cs)).1
        ++ scan allowed (spelled allowed (s.long.toList ++ cs)).2 args := by
  have hcs : (String.ofList cs).toList = cs := String.toList_ofList
  have htext : ("--" ++ s.long ++ String.ofList cs).toList
      = '-' :: '-' :: (s.long.toList ++ cs) := by
    rw [String.toList_append, String.toList_append, hcs, List.append_assoc]
    rfl
  have hlong : s.long.toList ++ cs ≠ [] := by
    cases s <;> exact List.cons_ne_nil _ _
  have hne : "--" ++ s.long ++ String.ofList cs ≠ "--" := fun h =>
    hlong (List.cons.inj (List.cons.inj
      (htext.symm.trans (congrArg String.toList h))).2).2
  have hclassify : classify allowed ("--" ++ s.long ++ String.ofList cs)
      = spelled allowed (s.long.toList ++ cs) := by
    unfold classify
    rw [htext]
    rfl
  rw [scan, if_neg hne, hclassify]

/-- **An option by its letter** is found behind its dash. -/
theorem scan_letter {c : Char} (hc : s.letter? = some c) (args : List String) :
    scan allowed none (String.ofList ['-', c] :: args)
      = (letters allowed [c]).1 ++ scan allowed (letters allowed [c]).2 args := by
  have hdash : c ≠ '-' := by
    rintro rfl
    revert hc
    cases s <;> decide
  have hne : String.ofList ['-', c] ≠ "--" := by
    intro h
    have hlist := congrArg String.toList h
    rw [String.toList_ofList] at hlist
    exact hdash (List.cons.inj (List.cons.inj hlist).2).1
  have hclassify : classify allowed (String.ofList ['-', c])
      = letters allowed [c] := by
    unfold classify
    rw [String.toList_ofList]
    split
    · next heq => exact absurd (List.cons.inj (List.cons.inj heq).2).1 hdash
    · next heq =>
      obtain ⟨rfl, rfl⟩ := List.cons.inj (List.cons.inj heq).2
      rfl
    · next hone => exact absurd rfl (hone c [])
  rw [scan, if_neg hne, hclassify]

/-- **A part in front of others is found in front of them.** -/
theorem scan_append {texts : List String} (h : Writes i texts)
    (hi : i.IsAmong allowed) (args : List String) :
    scan allowed none (texts ++ args) = i :: scan allowed none args := by
  have hfull : ∀ s : Switch,
      "--" ++ s.long = "--" ++ s.long ++ String.ofList [] :=
    fun s => String.append_empty.symm
  cases h with
  | @long s hs =>
    rw [List.singleton_append, hfull, scan_long, List.append_nil,
      spelled_long hi, hs]
    rfl
  | letter hs hc =>
    rw [List.singleton_append, scan_letter hc, letters_letter hi hc, hs]
    rfl
  | @longApart s text hs htext =>
    rw [List.cons_append, List.singleton_append, hfull, scan_long,
      List.append_nil, spelled_long hi, hs]
    exact scan_apart htext args
  | @longEquals s text hs htext =>
    have hequals : "--" ++ s.long ++ "=" ++ text
        = "--" ++ s.long ++ String.ofList ('=' :: text.toList) := by
      rw [String.ofList_cons, String.ofList_toList, String.append_assoc]
      rfl
    rw [List.singleton_append, hequals, scan_long, spelled_longEquals hi hs]
    rfl
  | letterApart hs hc htext =>
    rw [List.cons_append, List.singleton_append, scan_letter hc,
      letters_letter hi hc, hs]
    exact scan_apart htext args
  | operand htext => exact scan_operand htext args

/-- **Parts are found as they are written**, in their order. -/
theorem scan_flatten {items : List Item} {texts : List (List String)}
    (h : List.Forall₂ Writes items texts)
    (hamong : ∀ i ∈ items, i.IsAmong allowed) :
    scan allowed none texts.flatten = items := by
  induction h with
  | nil => rfl
  | cons hi _ ih =>
    obtain ⟨hfirst, hothers⟩ := List.forall_mem_cons.mp hamong
    rw [List.flatten_cons, scan_append hi hfirst, ih hothers]

/-- **The arguments are read as is asked of a reader.** -/
theorem isArgumentReader_parse? : IsArgumentReader parse? := by
  intro command args h
  cases h with
  | nothing => rfl
  | @verb v items texts f _ hwrites hamong hfound hcommand =>
    have hcollect : collect v.hasProgram v.allowed texts.flatten = .ok f := by
      unfold collect
      rw [scan_flatten hwrites hamong, hfound]
    have hnamed : named v.name texts.flatten = .ok command := by
      have hhelp : v.name ≠ "help" := by cases v <;> decide
      have hverb : Verb.ofName? v.name = some v := by cases v <;> rfl
      unfold named
      rw [if_neg hhelp, hverb]
      dsimp only
      rw [hcollect]
      exact hcommand
    have hdashes : v.name ≠ "--" := by cases v <;> decide
    have hdashed : isDashed v.name = false := by cases v <;> rfl
    unfold parse? leading
    rw [if_neg hdashes, if_neg (ne_true_of_eq_false hdashed), hnamed]

/-- **No command line spells two commands.** -/
theorem Spells.unique {command' : Command} (h : Spells command args)
    (h' : Spells command' args) : command = command' :=
  Option.some.inj ((isArgumentReader_parse? command args h).symm.trans
    (isArgumentReader_parse? command' args h'))

end RegisterMachine.CommandLine
