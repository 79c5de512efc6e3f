import Mathlib.Algebra.BigOperators.Intervals
import RegisterMachine.Proofs.Machine.Block
import RegisterMachine.Proofs.Machine.Literal
import RegisterMachine.Proofs.Program.Joined

/-!
# A program that adds the numbers up to a number

The demonstration program counts down from a literal in register one and adds
what it counts to register two; register three holds the one that it counts
with. Its third line is the literal, and this module follows the program for
whatever literal is put there.

It is two rows of instructions, each worked out on the four registers that it
uses (`Registers.executeAll?_setUp`, `Registers.executeAll?_round`), then a
jump back while the count is positive, and a `hold`. One round takes seven
ticks (`Machine.goesOn_round`), and by induction on what is left to count the
rounds add all of it (`Machine.goesOn_rounds`). The sum is one of words and
wraps around; the count is a double as well as a word, and that is where
`2 ^ 53` comes from. `Machine.sums_up_to` is the whole way from the text to
the `hold`.
-/

namespace RegisterMachine

namespace Registers

/-- **A file of four registers and some more.** -/
def ofFour (a b c d : Int64) (rest : List Int64) : Registers :=
  ⟨(a :: b :: c :: d :: rest).toArray⟩

theorem exists_eq_ofFour {r : Registers} (h : 4 ≤ r.size) :
    ∃ a b c d rest, r = ofFour a b c d rest := by
  obtain ⟨⟨cells⟩⟩ := r
  match cells, h with
  | a :: b :: c :: d :: rest, _ => exact ⟨a, b, c, d, rest, rfl⟩

/-- The registers behind the four are those of any file with the same rest. -/
theorem read_ofFour_of_le {j : ℕ} (hj : 4 ≤ j)
    (a b c d a' b' c' d' : Int64) (rest : List Int64) :
    (ofFour a b c d rest).read j = (ofFour a' b' c' d' rest).read j := by
  obtain ⟨j, rfl⟩ := Nat.exists_eq_add_of_le' hj
  unfold ofFour read
  rw [List.getElem?_toArray, List.getElem?_toArray]
  rfl

end Registers

namespace Program

/-- **The demonstration program**, with the literal five. -/
def sumDemo : String :=
  "loadi 1\nstore 3\nloadi 5\nstore 1\nloadi 0\nstore 2\nload 2\nadd 1\n" ++
    "store 2\nload 1\nsub 3\nstore 1\njgt 6\nhold\n"

/-- **A text with the line of an index replaced** by another line. -/
def replaceLine (source : String) (k : ℕ) (line : String) : String :=
  String.ofList
    (['\n'].intercalate ((Text.lines source.toList).set k line.toList))

/-- The demonstration program is its own third line replaced. -/
example : replaceLine sumDemo 2 "loadi 5" = sumDemo := by decide +kernel

/-- The instructions in front of the loop. -/
def setUp (n : ℕ) : List (Opcode × Int64) :=
  [(.loadi, 1), (.store, 3), (.loadi, .ofNat n), (.store, 1), (.loadi, 0),
    (.store, 2)]

/-- The instructions of the loop, up to its jump. -/
def round : List (Opcode × Int64) :=
  [(.load, 2), (.add, 1), (.store, 2), (.load, 1), (.sub, 3), (.store, 1)]

/-- **The program that the text stands for**, with a literal. -/
def summing (n : ℕ) : Program :=
  .ofList ((setUp n ++ round).map (fun e => .ofInt e.1 e.2)
    ++ [.ofInt .jgt 6, ⟨.hold, none⟩])

theorem lines_replaceLine (source : String) (k : ℕ) {line : String}
    (h : '\n' ∉ line.toList) :
    Text.lines (replaceLine source k line).toList
      = (Text.lines source.toList).set k line.toList := by
  unfold replaceLine
  rw [String.toList_ofList, Text.lines_intercalate]
  · rw [← List.length_pos_iff, List.length_set, Text.length_lines]
    exact Nat.succ_pos _
  · intro l hl
    rcases List.mem_or_eq_of_mem_set hl with hl | rfl
    · exact Text.newline_notMem_of_mem_lines hl
    · exact h

/-- **The lines above the literal and below it**, and what they are read
as. -/
theorem exists_lines_sumDemo :
    ∃ above line below,
      Text.lines sumDemo.toList = above ++ line :: below
        ∧ above.length = 2
        ∧ parseLines 0 above
          = .ok (((setUp 0).take 2).map fun e => .ofInt e.1 e.2)
        ∧ parseLines 3 below
          = .ok ((((setUp 0).drop 3 ++ round).map fun e => .ofInt e.1 e.2)
            ++ [.ofInt .jgt 6, ⟨.hold, none⟩]) :=
  ⟨["loadi 1", "store 3"].map String.toList, "loadi 5".toList,
    ["store 1", "loadi 0", "store 2", "load 2", "add 1", "store 2", "load 1",
      "sub 3", "store 1", "jgt 6", "hold", ""].map String.toList,
    by decide +kernel, rfl, by decide +kernel, by decide +kernel⟩

/-- **The text is read as the program**, whatever the literal. -/
theorem parse_sumDemo {n : ℕ} (hn : n ≤ 2 ^ 53) :
    parse (replaceLine sumDemo 2 ("loadi " ++ toString n))
      = .ok (summing n) := by
  have hword : (Int64.ofNat n).toInt = n := Int64.toInt_ofNat_of_lt (by omega)
  have hnewline : '\n' ∉ ("loadi " ++ toString n).toList :=
    (Instruction.isNarrow_mnemonic_append .loadi
      (Text.isNarrow_toString_int n)).newline_notMem
  have hliteral : Instruction.parseWords 2
        (Text.words ("loadi " ++ toString n).toList)
      = .ok (some (.ofInt .loadi (.ofNat n))) := by
    show _ = Except.ok (some (Instruction.mk .loadi
      (some (.ofInt (Int64.ofNat n).toInt))))
    rw [hword]
    exact Instruction.parseWords_mnemonic_toString 2 .loadi n
  obtain ⟨above, line, below, hlines, hlength, habove, hbelow⟩ :=
    exists_lines_sumDemo
  have hset : (above ++ line :: below).set 2 ("loadi " ++ toString n).toList
      = above ++ ("loadi " ++ toString n).toList :: below := by
    rw [List.set_append_right 2 _ hlength.le, hlength]
    rfl
  rw [parse_eq_ok_iff, lines_replaceLine _ _ hnewline, hlines, hset,
    parseLines_append, habove]
  dsimp only
  rw [hlength, parseLines_cons_of_ok hliteral, hbelow]
  rfl

theorem hasAt_setUp (n : ℕ) :
    (summing n).HasAt 0 ((setUp n).map fun e => .ofInt e.1 e.2) := ⟨_, rfl⟩

theorem hasAt_round (n : ℕ) :
    (summing n).HasAt 6 (round.map fun e => .ofInt e.1 e.2) := ⟨_, rfl⟩

theorem isRow_setUp {n : ℕ} (hn : n ≤ 2 ^ 53) : IsRow (setUp n) := by
  have hword : (Int64.ofNat n).toInt = n := Int64.toInt_ofNat_of_lt (by omega)
  have hliteral : (Int64.ofNat n).toInt.natAbs ≤ 2 ^ 53 := by
    rwa [hword, Int.natAbs_natCast]
  unfold IsRow setUp
  simp only [List.forall_mem_cons]
  exact ⟨by decide, by decide, ⟨by decide, rfl, hliteral⟩, by decide,
    by decide, by decide, by decide⟩

end Program

/-! ## The two rows of instructions -/

namespace Registers

variable (a b c d : Int64) (rest : List Int64)

theorem executeAll?_setUp (n : ℕ) :
    (ofFour a b c d rest).executeAll? (Program.setUp n)
      = some (ofFour 0 (.ofNat n) 0 1 rest) := by
  have hone : (ofFour a b c d rest).execute? 0 .loadi 1
      = some (ofFour 1 b c d rest, 1) := rfl
  have hstep : (ofFour 1 b c d rest).execute? 0 .store 3
      = some (ofFour 1 b c 1 rest, 1) := rfl
  have hliteral : (ofFour 1 b c 1 rest).execute? 0 .loadi (.ofNat n)
      = some (ofFour (.ofNat n) b c 1 rest, 1) := rfl
  have hcount : (ofFour (.ofNat n) b c 1 rest).execute? 0 .store 1
      = some (ofFour (.ofNat n) (.ofNat n) c 1 rest, 1) := rfl
  have hzero : (ofFour (.ofNat n) (.ofNat n) c 1 rest).execute? 0 .loadi 0
      = some (ofFour 0 (.ofNat n) c 1 rest, 1) := rfl
  have hsum : (ofFour 0 (.ofNat n) c 1 rest).execute? 0 .store 2
      = some (ofFour 0 (.ofNat n) 0 1 rest, 1) := rfl
  rw [Program.setUp, executeAll?_cons hone, executeAll?_cons hstep,
    executeAll?_cons hliteral, executeAll?_cons hcount,
    executeAll?_cons hzero, executeAll?_cons hsum]
  rfl

/-- **One round** adds the count to the sum and takes one from it. -/
theorem executeAll?_round :
    (ofFour a b c d rest).executeAll? Program.round
      = some (ofFour (b - d) (b - d) (c + b) d rest) := by
  have hload : (ofFour a b c d rest).execute? 0 .load 2
      = some (ofFour c b c d rest, 1) := rfl
  have hadd : (ofFour c b c d rest).execute? 0 .add 1
      = some (ofFour (c + b) b c d rest, 1) := rfl
  have hsum : (ofFour (c + b) b c d rest).execute? 0 .store 2
      = some (ofFour (c + b) b (c + b) d rest, 1) := rfl
  have hcount : (ofFour (c + b) b (c + b) d rest).execute? 0 .load 1
      = some (ofFour b b (c + b) d rest, 1) := rfl
  have hless : (ofFour b b (c + b) d rest).execute? 0 .sub 3
      = some (ofFour (b - d) b (c + b) d rest, 1) := rfl
  have hstore : (ofFour (b - d) b (c + b) d rest).execute? 0 .store 1
      = some (ofFour (b - d) (b - d) (c + b) d rest, 1) := rfl
  rw [Program.round, executeAll?_cons hload, executeAll?_cons hadd,
    executeAll?_cons hsum, executeAll?_cons hcount, executeAll?_cons hless,
    executeAll?_cons hstore]
  rfl

end Registers

/-! ## The run -/

namespace Machine

open Program Registers

variable (m : Machine) (n : ℕ) (rest : List Int64)

/-- **One round takes seven ticks**, and the jump at its end goes back while
there is something left to count. -/
theorem goesOn_round {k : ℕ} (hk : k < 2 ^ 63) (a s : Int64) (cycles : ℕ) :
    GoesOn
      (m.poised (summing n) 6 (ofFour a (.ofNat (k + 1)) s 1 rest) cycles) 7
      (m.poised (summing n) (if 0 < k then 6 else 13)
        (ofFour (.ofNat k) (.ofNat k) (s + .ofNat (k + 1)) 1 rest)
        (cycles + 7)) := by
  have hless : Int64.ofNat (k + 1) - 1 = .ofNat k := by
    rw [Int64.ofNat_add]
    exact Int64.add_sub_cancel _ _
  have hround := executeAll?_round a (.ofNat (k + 1)) s 1 rest
  rw [hless] at hround
  have hrow := goesOn_block (m := m) (hasAt_round n) (by decide) hround cycles
  have hpositive : (0 : Int64) < .ofNat k ↔ 0 < k := by
    rw [Int64.lt_iff_toInt_lt, Int64.toInt_ofNat_of_lt hk]
    exact Int.natCast_pos
  have hjump :
      (ofFour (.ofNat k) (.ofNat k) (s + .ofNat (k + 1)) 1 rest).execute?
          12 .jgt 6
        = some (ofFour (.ofNat k) (.ofNat k) (s + .ofNat (k + 1)) 1 rest,
            if 0 < k then 6 else 13) := by
    show some (_, if decide ((0 : Int64) < .ofNat k) = true then 6 else 13) = _
    simp only [decide_eq_true_eq, hpositive]
  exact hrow.trans (goesOn_instruction (i := .ofInt .jgt 6) rfl (by decide)
    (Instruction.integerOperand?_ofInt .jgt (by decide)) hjump (cycles + 6))

/-- **The rounds add what is left to count.** -/
theorem goesOn_rounds {k : ℕ} (hk : k < 2 ^ 63) (a s : Int64) (cycles : ℕ) :
    GoesOn
      (m.poised (summing n) 6 (ofFour a (.ofNat (k + 1)) s 1 rest) cycles)
      (7 * (k + 1))
      (m.poised (summing n) 13
        (ofFour 0 0 (s + .ofNat ((k + 1 + 1) * (k + 1) / 2)) 1 rest)
        (cycles + 7 * (k + 1))) := by
  induction k generalizing a s cycles with
  | zero =>
    -- nothing is left to count after this round, and it does not go back
    exact m.goesOn_round n rest hk a s cycles
  | succ k ih =>
    have hfirst := m.goesOn_round n rest hk a s cycles
    rw [if_pos (Nat.succ_pos k)] at hfirst
    have hothers := ih (by omega) (.ofNat (k + 1)) (s + .ofNat (k + 1 + 1))
      (cycles + 7)
    have hsum : s + .ofNat (k + 1 + 1) + .ofNat ((k + 1 + 1) * (k + 1) / 2)
        = s + .ofNat ((k + 1 + 1 + 1) * (k + 1 + 1) / 2) := by
      have htriangle : (k + 1 + 1 + 1) * (k + 1 + 1) / 2
          = (k + 1 + 1) * (k + 1) / 2 + (k + 1 + 1) :=
        Nat.triangle_succ (k + 1 + 1)
      rw [htriangle, Nat.add_comm _ (k + 1 + 1), Int64.ofNat_add (k + 1 + 1),
        Int64.add_assoc]
    have hcycles : cycles + 7 + 7 * (k + 1) = cycles + 7 * (k + 1 + 1) := by
      ring
    rw [hsum, hcycles] at hothers
    exact (hfirst.trans hothers).congr (by ring) rfl

/-- **From the first instruction to the `hold`.** -/
theorem goesOn_summing {k : ℕ} (hk : k + 1 ≤ 2 ^ 53) (a b c d : Int64) :
    GoesOn (m.poised (summing (k + 1)) 0 (ofFour a b c d rest) 0)
      (7 * (k + 1) + 6)
      (m.poised (summing (k + 1)) 13
        (ofFour 0 0 (.ofNat ((k + 1 + 1) * (k + 1) / 2)) 1 rest)
        (7 * (k + 1) + 6)) := by
  have hsetUp := goesOn_block (m := m) (hasAt_setUp (k + 1)) (isRow_setUp hk)
    (executeAll?_setUp a b c d rest (k + 1)) 0
  have hrounds := m.goesOn_rounds (k + 1) rest (k := k) (by omega) 0 0 6
  rw [Int64.zero_add] at hrounds
  have hticks : 6 + 7 * (k + 1) = 7 * (k + 1) + 6 := Nat.add_comm _ _
  exact hticks ▸ hsetUp.trans hrounds

/-- **The program adds the numbers up to its literal.** Let the literal be
between one and `2 ^ 53`, and let the machine have four registers at least. It
loads the text, and with any limit that is large enough it holds after seven
ticks a number and seven more. The sum is in register two, as the word that it
wraps around to; the accumulator and the count are zero, register three holds
one, and every register behind them has kept its value. -/
theorem sums_up_to {n : ℕ} (hone : 1 ≤ n) (hn : n ≤ 2 ^ 53)
    (hm : 4 ≤ m.registers.size) {limit : ℕ} (hlimit : 7 * n + 7 ≤ limit) :
    ∃ loaded after,
      m.loadSource (replaceLine sumDemo 2 ("loadi " ++ toString n))
          = (.ok 14, loaded)
        ∧ loaded.run limit = (⟨.halted, 7 * n + 7⟩, after)
        ∧ after.cycles.toNat = 7 * n + 6
        ∧ after.counter = 13
        ∧ after.acc = 0
        ∧ after.registers.read 1 = 0
        ∧ (after.registers.read 2).toInt
          = ((n * (n + 1) / 2 : ℕ) : ℤ).bmod (2 ^ 64)
        ∧ after.registers.read 3 = 1
        ∧ after.registers.size = m.registers.size
        ∧ ∀ j, 4 ≤ j → after.registers.read j = m.registers.read j := by
  obtain ⟨k, rfl⟩ := Nat.exists_eq_add_of_le' hone
  obtain ⟨limit, rfl⟩ := Nat.exists_eq_add_of_le' (by omega : 1 ≤ limit)
  obtain ⟨a, b, c, d, rest, hr⟩ := exists_eq_ofFour hm
  have hload : m.loadSource
        (replaceLine sumDemo 2 ("loadi " ++ toString (k + 1)))
      = (.ok 14, m.load (summing (k + 1))) := by
    unfold loadSource
    rw [parse_sumDemo hn]
    rfl
  have hgoes := m.goesOn_summing rest hn a b c d
  have hhold : (m.poised (summing (k + 1)) 13
        (ofFour 0 0 (.ofNat ((k + 1 + 1) * (k + 1) / 2)) 1 rest)
        (7 * (k + 1) + 6)).step.1 = .halted := rfl
  -- the outcome that was last recorded survives loading, but not a tick
  have hpoised : (m.load (summing (k + 1))).run (limit + 1)
      = (m.poised (summing (k + 1)) 0 (ofFour a b c d rest) 0).run
          (limit + 1) := by
    rw [← hr]
    exact (run_succ_with_lastStatus _ .continued limit).symm
  have hrun := hpoised.trans
    (hgoes.run_of_stops (by rw [hhold]; decide) hlimit)
  refine ⟨_, _, hload, hrun, ?_, rfl, rfl, rfl, ?_, rfl, ?_, ?_⟩
  · exact UInt64.toNat_ofNat_of_lt' (show 7 * (k + 1) + 6 < 2 ^ 64 by omega)
  · rw [Nat.mul_comm (k + 1)]
    exact Int64.toInt_ofNat'
  · rw [hr]
    rfl
  · intro j hj
    rw [hr]
    exact read_ofFour_of_le hj ..

/-- **The last literal that is used as it is written.** The sum is
`2 ^ 105 + 2 ^ 52` and wraps around; only the second part of it is left. -/
theorem last_literal_sums_up :
    ∃ loaded after,
      (new .standard).loadSource
          (replaceLine sumDemo 2 ("loadi " ++ toString (2 ^ 53)))
          = (.ok 14, loaded)
        ∧ loaded.run (2 ^ 60) = (⟨.halted, 7 * 2 ^ 53 + 7⟩, after)
        ∧ (after.registers.read 2).toInt = 2 ^ 52 := by
  have hsize : 4 ≤ (new .standard).registers.size := by
    unfold new
    rw [size_zero]
    decide
  obtain ⟨loaded, after, hload, hrun, -, -, -, -, hsum, -⟩ :=
    sums_up_to (new .standard) (n := 2 ^ 53) (by decide) le_rfl hsize
      (show 7 * 2 ^ 53 + 7 ≤ 2 ^ 60 by decide)
  refine ⟨loaded, after, hload, hrun, hsum.trans ?_⟩
  decide

end Machine

end RegisterMachine
