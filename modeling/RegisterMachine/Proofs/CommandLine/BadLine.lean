import RegisterMachine.CommandLine.Report
import RegisterMachine.Proofs.Program.Lines
import RegisterMachine.Session

/-!
# One bad line, whoever shows it

A text that is no program is refused in two places: a page loads it into a
session, a command reads it from a file. The page has the message of the error
and, by a call of its own, the index of the bad line. A command prints the
message, the index and the line itself, which it takes from the text once more:
the error names the line but does not carry it.

So there are two counts to compare, one made while the text was read
(`Program.parseLines`) and one made when the line is looked up again
(`Program.excerpt?`). Both count every line, blank ones too, and what the error
quotes is found on the line that is looked up (`Program.exists_fault_of_parse`,
`Line.Fault.quotes`). Blanks at the end of the line, a carriage return among
them, are not shown and are part of no word.
-/

namespace RegisterMachine

/-! ## What an error quotes -/

/-- **The word that an error quotes**, among the words of a line: the first of
them if that is no mnemonic, the second if that is no numeral. An error about a
missing operand quotes nothing, and there is no second word. -/
def ParseError.Quotes (words : List (List Char)) : ParseError → Prop
  | .unknownOpcode _ mnemonic => words[0]? = some mnemonic.toList
  | .invalidOperand _ token => words[1]? = token.map String.toList

namespace Line

variable {k : ℕ} {l : List Char} {e : ParseError}

/-- The second of the words of a line with an opcode. -/
theorem getElem?_one_words (h : IsBadOperand l) :
    (Text.words l)[1]?
      = if Text.secondWord l = [] then none else some (Text.secondWord l) := by
  obtain ⟨op, hop, -⟩ := h
  have hne : Text.firstWord l ≠ [] := hop ▸ mnemonic_toList_ne_nil op
  rw [Text.words_eq_cons hne, List.getElem?_cons_succ,
    ← List.head?_eq_getElem?, Text.head?_words_afterWord]

/-- **A fault quotes its line.** -/
theorem Fault.quotes (h : Fault k l e) : e.Quotes (Text.words l) := by
  cases h with
  | unknownOpcode h =>
    show (Text.words l)[0]? = some (String.ofList (Text.firstWord l)).toList
    rw [Text.words_eq_cons h.1, String.toList_ofList]
    rfl
  | missingOperand h hnone =>
    show (Text.words l)[1]? = none
    rw [getElem?_one_words h, if_pos hnone]
  | invalidOperand h hsome =>
    show (Text.words l)[1]?
      = some (String.ofList (Text.secondWord l)).toList
    rw [getElem?_one_words h, if_neg hsome, String.toList_ofList]

end Line

namespace Program

variable {source : String} {e : ParseError}

/-- **The line that an error names has the fault.** -/
theorem exists_fault_of_parse (h : parse source = .error e) :
    ∃ l, (Text.lines source.toList)[e.line]? = some l
      ∧ Line.Fault e.line l e := by
  rw [parse_eq_error_iff, parseLines_eq_error_iff, firstFault_zero_iff] at h
  obtain ⟨l, hl, hfault, -⟩ := h
  exact ⟨l, hl, hfault⟩

end Program

/-! ## The page -/

namespace Session

variable {source : String} {e : ParseError} {p : Program}

/-- **A text that is no program leaves a session as it is.** -/
theorem perform_loadSource_of_error (h : Program.parse source = .error e)
    (s : Session) : s.perform (.loadSource source) = (.refused e, s) := by
  unfold perform loadSource Machine.loadSource
  dsimp only
  rw [h]

theorem perform_loadSource_of_ok (h : Program.parse source = .ok p)
    (s : Session) :
    s.perform (.loadSource source)
      = (.loaded p.size, { s with machine := s.machine.load p }) := by
  unfold perform loadSource Machine.loadSource
  dsimp only
  rw [h]

theorem errorLine_of_error (h : Program.parse source = .error e) :
    errorLine source = min (e.line : ℤ) 2147483647 := by
  unfold errorLine
  rw [h]
  rfl

theorem errorLine_of_ok (h : Program.parse source = .ok p) :
    errorLine source = -1 := by
  unfold errorLine
  rw [h]

end Session

/-! ## The commands -/

namespace CommandLine

variable {files : Files} {path source : String} {e : ParseError}

/-- **The commands that read a program** from a file. -/
inductive Command.Reads (path : String) : Command → Prop where
  | check : Reads path (.check path)
  | list : Reads path (.list path)
  | run (o : RunOptions) (h : o.program = path) : Reads path (.run o)
  | debug (o : MachineOptions) : Reads path (.debug path o)

/-- **A report that points at a bad line**: nothing is printed, the exit code
is one, and the complaint has the message of the error, the index of the line
and, in a line of its own, the excerpt with its number. -/
structure Report.PointsAt (r : Report) (path : String) (e : ParseError)
    (excerpt : List Char) : Prop where
  exitCode_eq : r.exitCode = 1
  out_eq : r.out = ""
  err_eq : r.err
    = "❌ Parse error in " ++ path ++ ": " ++ e.message ++ " (line index "
        ++ toString e.line ++ ")\n"
        ++ ("   " ++ toString (e.line + 1) ++ " | " ++ String.ofList excerpt
          ++ "\n")

/-- **A command without its program does nothing but complain.** -/
theorem Command.Reads.report_eq {command : Command} {complaint : String}
    (h : command.Reads path) (hread : readProgram files path = .error complaint) :
    command.report files = .failure "" complaint := by
  cases h with
  | check =>
    unfold Command.report
    dsimp only
    rw [hread]
  | list =>
    unfold Command.report
    dsimp only
    rw [hread]
  | run o h =>
    subst h
    unfold Command.report prepare
    dsimp only
    rw [hread]
  | debug o =>
    unfold Command.report prepareDebugger
    dsimp only
    rw [hread]

/-- The complaint about a line that is looked up. -/
theorem parseComplaint_of_getElem? {l : List Char}
    (hl : (Text.lines source.toList)[e.line]? = some l) :
    parseComplaint path source e
      = "❌ Parse error in " ++ path ++ ": " ++ e.message ++ " (line index "
          ++ toString e.line ++ ")\n"
          ++ ("   " ++ toString (e.line + 1) ++ " | "
            ++ String.ofList (Text.trimEnd l) ++ "\n") := by
  unfold parseComplaint Program.excerpt?
  rw [hl]
  rfl

/-- **Every command that reads the text points at the line.** -/
theorem Command.Reads.pointsAt {command : Command} {l : List Char}
    (h : command.Reads path) (hfile : files path = .ok source)
    (hparse : Program.parse source = .error e)
    (hl : (Text.lines source.toList)[e.line]? = some l) :
    (command.report files).PointsAt path e (Text.trimEnd l) := by
  have hread : readProgram files path
      = .error (parseComplaint path source e) := by
    unfold readProgram
    rw [hfile]
    dsimp only
    rw [hparse]
  rw [h.report_eq hread]
  exact ⟨rfl, rfl, parseComplaint_of_getElem? hl⟩

/-- **A bad line is the same line wherever it is shown.** When a text is
refused, the message begins with the number of the line; a session reports that
message and stays as it is, and the index it gives is that of the error, as far
as it fits. There is one line of the text with that index, and it has on it
what the error quotes; every command that reads the text prints message, index
and that line without the blanks at its end, and fails. When a text is a
program, a session loads it and reports its size, and there is no bad
line. -/
theorem bad_line_shown_everywhere (source : String) :
    (∀ e, Program.parse source = .error e →
      e.message = "line " ++ toString (e.line + 1) ++ ": " ++ e.reason
        ∧ (∀ s : Session,
            (s.perform (.loadSource source)).1.failure? = some e.message
              ∧ (s.perform (.loadSource source)).2 = s)
        ∧ Session.errorLine source = min (e.line : ℤ) 2147483647
        ∧ ∃ l excerpt, (Text.lines source.toList)[e.line]? = some l
          ∧ Text.IsTrimmed l excerpt
          ∧ e.Quotes (Text.words excerpt)
          ∧ ∀ (files : Files) (path : String) (command : Command),
              files path = .ok source → command.Reads path →
                (command.report files).PointsAt path e excerpt)
      ∧ ∀ p, Program.parse source = .ok p →
          Session.errorLine source = -1
            ∧ ∀ s : Session,
              s.perform (.loadSource source)
                = (.loaded p.size, { s with machine := s.machine.load p }) := by
  refine ⟨fun e h => ?_, fun p h => ?_⟩
  · obtain ⟨l, hl, hfault⟩ := Program.exists_fault_of_parse h
    refine ⟨rfl, fun s => ?_, Session.errorLine_of_error h, l,
      Text.trimEnd l, hl, Text.isTrimmed_iff.mpr rfl, ?_,
      fun files path command hfile hreads => hreads.pointsAt hfile h hl⟩
    · rw [Session.perform_loadSource_of_error h]
      exact ⟨rfl, rfl⟩
    · rw [Text.words_trimEnd]
      exact hfault.quotes
  · exact ⟨Session.errorLine_of_ok h, Session.perform_loadSource_of_ok h⟩

/-- A carriage return, a blank line and blanks on both sides of the bad line:
it is the third of the text, and what is shown of it ends with its last word. -/
theorem halt_on_third_line :
    Program.parse "loadi 1\r\n\n  halt 2 \r\nhold"
        = .error (.unknownOpcode 2 "halt")
      ∧ (Session.new.perform
          (.loadSource "loadi 1\r\n\n  halt 2 \r\nhold")).1.failure?
        = some "line 3: unknown opcode `halt`"
      ∧ Session.errorLine "loadi 1\r\n\n  halt 2 \r\nhold" = 2
      ∧ ((Command.check "a.ram").report
          fun _ => .ok "loadi 1\r\n\n  halt 2 \r\nhold").err
        = "❌ Parse error in a.ram: line 3: unknown opcode `halt`"
            ++ " (line index 2)\n   3 |   halt 2\n"
      ∧ Session.errorLine "hold" = -1 := by
  have hparse : Program.parse "loadi 1\r\n\n  halt 2 \r\nhold"
      = .error (.unknownOpcode 2 "halt") := by decide +kernel
  have hgood : Program.parse "hold" = .ok ⟨#[⟨.hold, none⟩]⟩ := by
    decide +kernel
  obtain ⟨-, hsession, hindex, l, excerpt, hl, htrim, -, hshown⟩ :=
    (bad_line_shown_everywhere _).1 _ hparse
  obtain rfl : "  halt 2 \r".toList = l := by
    refine Option.some.inj (Eq.trans ?_ hl)
    decide +kernel
  obtain rfl := Text.isTrimmed_iff.mp htrim
  refine ⟨hparse, (hsession .new).1.trans ?_, hindex.trans ?_,
    (hshown (fun _ => .ok _) "a.ram" _ rfl .check).err_eq.trans ?_,
    ((bad_line_shown_everywhere _).2 _ hgood).1⟩
  · decide +kernel
  · rfl
  · decide +kernel

end CommandLine

end RegisterMachine
