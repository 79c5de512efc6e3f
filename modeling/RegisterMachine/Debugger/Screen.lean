import RegisterMachine.Debugger.Basic
import RegisterMachine.Screen.Panel

/-!
# The debugger on a screen

The screen is two columns. On the left, three fifths wide, the program with
the current instruction marked, then the state of the machine, then the
notice; on the right the registers from the scroll position on, and the keys.
The lower panels have a height of their own, and the program and the
registers take what is left.
-/

namespace RegisterMachine.Debugger

open Screen

/-- A line of the listing; the current one is marked, bold and yellow. -/
def listingLine (e : ListingEntry) : Line :=
  let style := if e.isCurrent then ⟨.yellow, true⟩ else Style.plain
  .uniform style
    ((if e.isCurrent then "▶ " else "  ") ++ Text.index e.index ++ ": "
      ++ e.text)

/-- **The program around the counter**, in a panel with so many lines. -/
def programPanel (d : Debugger) (lines : Nat) : Panel where
  title := " Program "
  border := .of .cyan
  background := .plain
  lines := (d.listing lines).map listingLine

/-- The colour of an outcome. -/
def statusColour : Status → Colour
  | .continued => .green
  | .halted => .gray
  | .noInstruction => .red
  | .invalidOperand => .red

/-- **The state of the machine.** -/
def machinePanel (d : Debugger) : Panel where
  title := " Machine "
  border := .of .green
  background := .plain
  lines :=
    let m := d.machine
    let label := cells .plain
    [⟨label "ACC: "
        ++ cells (.of .white) (Text.padLeft 20 ' ' (toString m.acc))
        ++ label "   PC: " ++ cells (.of .yellow) (toString m.counter),
      .plain⟩,
     ⟨label "Last status: "
        ++ cells (.of (statusColour m.lastStatus)) m.lastStatus.text,
      .plain⟩,
     ⟨label "Cycles: " ++ cells (.of .cyan) (toString m.cycles)
        ++ label "   Delay: "
        ++ cells (.of .cyan) (toString m.delay ++ " ms") ++ label "   "
        ++ (if m.running then cells (.of .green) "RUNNING"
            else cells (.of .darkGray) "IDLE"),
      .plain⟩]

/-- **The notice.** -/
def noticePanel (d : Debugger) : Panel where
  title := " Status "
  border := .of .white
  background := .of .white
  lines := [.uniform (.of .white) d.notice.text]

/-- A register: its name, and its value in a colour that shows whether it is
zero. -/
def registerLine (e : Nat × Int64) : Line :=
  let name := if e.1 = 0 then "ACC" else "R" ++ Text.index e.1
  let colour : Colour :=
    if e.1 = 0 then .yellow else if e.2 ≠ 0 then .white else .darkGray
  .uniform (.of colour) (Text.padLeft 4 ' ' name ++ ": " ++ toString e.2)

/-- **The registers from the scroll position on**, so many of them. -/
def registersPanel (d : Debugger) (lines : Nat) : Panel where
  title := " Registers "
  border := .of .magenta
  background := .plain
  lines :=
    ((d.machine.registers.entries.drop d.scroll).take lines).map registerLine

/-- The keys. -/
def helpPanel : Panel where
  title := " Help "
  border := .of .darkGray
  background := .of .darkGray
  lines :=
    [.uniform (.of .darkGray) "s: Step  r: Run  p: Pause  x: Reset",
     .uniform (.of .darkGray) "+/-: Faster/slower  ↑↓: Scroll  q: Quit"]

/-- The left column. -/
def leftColumn (paint : Painter) (d : Debugger) (width height : Nat) :
    List Row :=
  paint (d.programPanel (height - 11)) width (height - 9)
    ++ paint d.machinePanel width 6 ++ paint d.noticePanel width 3

/-- The right column. -/
def rightColumn (paint : Painter) (d : Debugger) (width height : Nat) :
    List Row :=
  paint (d.registersPanel (height - 7)) width (height - 5)
    ++ paint helpPanel width 5

/-- **The debugger on a screen** whose width is a multiple of five and whose
height is at least nineteen, however panels are painted. -/
def paintWith (paint : Painter) (d : Debugger) (width height : Nat) :
    List Row :=
  let left := width * 3 / 5
  beside (d.leftColumn paint left height)
    (d.rightColumn paint (width - left) height)

/-- **Draws the debugger** on such a screen. -/
def draw (d : Debugger) (width height : Nat) : List Row :=
  d.paintWith Panel.draw width height

end RegisterMachine.Debugger
