import RegisterMachine.Proofs.Program.Lines

/-!
# Texts one below the other

A line is read by itself, and of what stands above it only the number of lines
is known. So a text below another is read as it would be alone, with its lines
counted from further on (`Program.parseLines_append`), and counting from
further on moves an error and does nothing else (`Program.parseLines_add`).

A program is made of the lines that hold an instruction, an error names a line
among all lines. Blank lines are counted by the one and not by the other: put
into a text they change no index of an instruction, and they move an error
below them by their number. `Program.parse_below` has both laws.
-/

namespace RegisterMachine

/-! ## Counting from further on -/

theorem Instruction.parseWords_add (k n : ℕ) (ws : List (List Char)) :
    parseWords (k + n) ws = (parseWords k ws).mapError (·.shift n) := by
  unfold parseWords
  split
  · rfl
  · split
    · rfl
    · dsimp only
      split <;> rfl

namespace Program

-- what is said of the characters of a line is tested on that line
attribute [local instance (high)] List.decidableBAll

variable {k : ℕ} {ls ls' : List (List Char)} {is : List Instruction}
  {e : ParseError}

/-- **Counting lines from further on moves an error**, and does nothing
else. -/
theorem parseLines_add (k n : ℕ) (ls : List (List Char)) :
    parseLines (k + n) ls = (parseLines k ls).mapError (·.shift n) := by
  induction ls generalizing k with
  | nil => rfl
  | cons l ls ih =>
    have hwords := Instruction.parseWords_add k n (Text.words l)
    cases hparse : Instruction.parseWords k (Text.words l) with
    | error e =>
      rw [hparse] at hwords
      rw [parseLines_cons_of_error hparse, parseLines_cons_of_error hwords]
      rfl
    | ok o =>
      rw [hparse] at hwords
      rw [parseLines_cons_of_ok hparse, parseLines_cons_of_ok hwords,
        Nat.add_right_comm, ih]
      cases parseLines (k + 1) ls <;> rfl

/-- **Lines below others are read after them**, and counted on. -/
theorem parseLines_append (k : ℕ) (ls ls' : List (List Char)) :
    parseLines k (ls ++ ls') = match parseLines k ls with
      | .error e => .error e
      | .ok is => (parseLines (k + ls.length) ls').map (is ++ ·) := by
  induction ls generalizing k with
  | nil =>
    show parseLines k ls' = (parseLines k ls').map ([] ++ ·)
    cases parseLines k ls' <;> rfl
  | cons l ls ih =>
    rw [List.cons_append]
    cases hparse : Instruction.parseWords k (Text.words l) with
    | error e =>
      rw [parseLines_cons_of_error hparse, parseLines_cons_of_error hparse]
    | ok o =>
      rw [parseLines_cons_of_ok hparse, parseLines_cons_of_ok hparse, ih,
        List.length_cons, Nat.add_assoc, Nat.add_comm 1]
      cases parseLines (k + 1) ls with
      | error e => rfl
      | ok is =>
        show ((parseLines _ ls').map _).map _ = (parseLines _ ls').map _
        cases parseLines (k + (ls.length + 1)) ls' with
        | error e => rfl
        | ok is' => exact congrArg _ (List.append_assoc _ _ _).symm

/-- Blank lines give no instruction. -/
theorem parseLines_of_blank
    (h : ∀ l ∈ ls, ∀ c ∈ l, Text.isBlank c = true) :
    parseLines k ls = .ok [] := by
  rw [parseLines_eq_ok_iff]
  have hwords : ∀ l ∈ ls, Instruction.parseWords 0 (Text.words l) = .ok none :=
    fun l hl => Line.parseWords_eq_none_iff.mpr (h l hl)
  refine ⟨fun l hl => Line.not_isWrong_of_parseWords (hwords l hl), ?_⟩
  have hnil : codeLines ls = [] := by
    unfold codeLines
    rw [List.filter_eq_nil_iff]
    intro l hl
    rw [List.all_eq_true.mpr (h l hl)]
    exact Bool.false_ne_true
  rw [hnil]
  exact .nil

/-- An error is about one of the lines that were read. -/
theorem line_of_parseLines (h : parseLines k ls = .error e) :
    k ≤ e.line ∧ e.line < k + ls.length := by
  obtain ⟨j, l, hl, hfault, -⟩ := (parseLines_eq_error_iff k ls e).mp h
  obtain ⟨hj, -⟩ := List.getElem?_eq_some_iff.mp hl
  rw [hfault.line_eq]
  omega

/-- **Blank lines among others** change no instruction, and they move the
errors below them. -/
theorem parseLines_insert {blanks : List (List Char)}
    (h : ∀ l ∈ blanks, ∀ c ∈ l, Text.isBlank c = true) (k : ℕ) :
    parseLines 0 (ls.take k ++ (blanks ++ ls.drop k))
      = (parseLines 0 ls).mapError fun e =>
        if e.line < k then e else e.shift blanks.length := by
  have hsplit := parseLines_append 0 (ls.take k) (ls.drop k)
  rw [List.take_append_drop] at hsplit
  rw [parseLines_append, hsplit]
  cases habove : parseLines 0 (ls.take k) with
  | error e =>
    obtain ⟨-, hline⟩ := line_of_parseLines habove
    rw [List.length_take] at hline
    exact congrArg Except.error (if_pos (by omega)).symm
  | ok is =>
    show (parseLines _ (blanks ++ ls.drop k)).map _
      = ((parseLines _ (ls.drop k)).map _).mapError _
    rw [parseLines_append, parseLines_of_blank h]
    dsimp only
    rw [parseLines_add]
    cases hbelow : parseLines (0 + (ls.take k).length) (ls.drop k) with
    | error e =>
      obtain ⟨hle, hlt⟩ := line_of_parseLines hbelow
      rw [List.length_take, List.length_drop] at hlt
      rw [List.length_take] at hle
      exact congrArg Except.error (if_neg (by omega)).symm
    | ok is' => rfl

/-! ## Texts -/

/-- **A text with lines put into it**, in front of the line with an index; at
its end, if there is no such line. -/
def insertLines (source : String) (k : ℕ) (ls : List (List Char)) : String :=
  String.ofList (['\n'].intercalate
    ((Text.lines source.toList).take k
      ++ (ls ++ (Text.lines source.toList).drop k)))

theorem lines_insertLines (source : String) (k : ℕ)
    (h : ∀ l ∈ ls, '\n' ∉ l) :
    Text.lines (insertLines source k ls).toList
      = (Text.lines source.toList).take k
        ++ (ls ++ (Text.lines source.toList).drop k) := by
  unfold insertLines
  rw [String.toList_ofList, Text.lines_intercalate]
  · intro hnil
    have hlength := congrArg List.length hnil
    have hlines := Text.length_lines source.toList
    simp only [List.length_append, List.length_take, List.length_drop,
      List.length_nil] at hlength
    omega
  · intro l hl
    rcases List.mem_append.mp hl with hl | hl
    · exact Text.newline_notMem_of_mem_lines (List.mem_of_mem_take hl)
    · rcases List.mem_append.mp hl with hl | hl
      · exact h l hl
      · exact Text.newline_notMem_of_mem_lines (List.mem_of_mem_drop hl)

/-- Lists of instructions one after the other are programs so. -/
theorem ofList_append (is is' : List Instruction) :
    ofList (is ++ is') = ofList is ++ ofList is' :=
  congrArg Program.mk (List.append_toArray is is').symm

/-- The lines of a text below another. -/
theorem lines_below (a b : String) :
    Text.lines (a ++ "\n" ++ b).toList
      = Text.lines a.toList ++ Text.lines b.toList := by
  rw [String.toList_append, String.toList_append, List.append_assoc]
  exact Text.lines_append_newline _ _

/-- **A text below another is read as alone.** It is refused as the upper text
is; if that is a program it is refused as the lower text is, that many lines
further down as there are above it; and otherwise it is the one program and
then the other. Blank lines put anywhere into a text leave its program as it
is, and an error on the lines below them is moved by their number. -/
theorem parse_below (a b : String) :
    (parse (a ++ "\n" ++ b) = match parse a, parse b with
        | .error e, _ => .error e
        | .ok _, .error e => .error (e.shift (a.toList.count '\n' + 1))
        | .ok p, .ok q => .ok (p ++ q))
      ∧ ∀ k blanks,
          (∀ l ∈ blanks, '\n' ∉ l ∧ ∀ c ∈ l, Text.isBlank c = true) →
            parse (insertLines a k blanks) = match parse a with
              | .error e =>
                .error (if e.line < k then e else e.shift blanks.length)
              | .ok p => .ok p := by
  constructor
  · unfold parse
    rw [lines_below, parseLines_append, parseLines_add, Text.length_lines]
    cases parseLines 0 (Text.lines a.toList) with
    | error e => rfl
    | ok is =>
      cases parseLines 0 (Text.lines b.toList) with
      | error e => rfl
      | ok is' => exact congrArg Except.ok (ofList_append is is')
  · intro k blanks h
    unfold parse
    rw [lines_insertLines a k fun l hl => (h l hl).1,
      parseLines_insert fun l hl => (h l hl).2]
    cases parseLines 0 (Text.lines a.toList) <;> rfl

/-- **A wrong line below a program and below blank lines**: it is the third
line, and the fourth once two blank ones are put above it. -/
theorem halt_below_blank_lines :
    (∀ l ∈ [[], [' ', '\t']], '\n' ∉ l ∧ ∀ c ∈ l, Text.isBlank c = true)
      ∧ parse ("jmp 2\nhold" ++ "\n" ++ "halt")
        = .error (.unknownOpcode 2 "halt")
      ∧ parse (insertLines "jmp 2\nhalt" 1 [[], [' ', '\t']])
        = .error (.unknownOpcode 3 "halt") := by
  have hblank : ∀ l ∈ [[], [' ', '\t']],
      '\n' ∉ l ∧ ∀ c ∈ l, Text.isBlank c = true := by decide
  have hupper : parse "jmp 2\nhold"
      = .ok (ofList [⟨.jmp, some (.ofInt 2)⟩, ⟨.hold, none⟩]) := by
    decide +kernel
  have hlower : parse "halt" = .error (.unknownOpcode 0 "halt") := by
    decide +kernel
  have hwhole : parse "jmp 2\nhalt" = .error (.unknownOpcode 1 "halt") := by
    decide +kernel
  refine ⟨hblank, ?_, ?_⟩
  · rw [(parse_below _ _).1, hupper, hlower]
    rfl
  · rw [(parse_below _ "").2 1 _ hblank, hwhole]
    rfl

end Program

end RegisterMachine
