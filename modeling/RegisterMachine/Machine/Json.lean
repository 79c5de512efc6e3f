import RegisterMachine.Machine.Basic
import RegisterMachine.Program.Json
import RegisterMachine.Registers.Json
import RegisterMachine.Settings.Json

/-!
# The state of a machine as JSON

The whole state is written, each part in its own format: registers, program,
counter, settings, the run flag, the code of the last outcome, and the number
of cycles.
-/

namespace RegisterMachine.Machine

/-- **The state of a machine as JSON.** -/
def toJson (m : Machine) : Json :=
  .object
    [("registers", m.registers.toJson),
     ("program", m.program.toJson),
     ("pc", .int m.counter),
     ("config", m.settings.toJson),
     ("running", .bool m.running),
     ("last_status", m.lastStatus.toJson),
     ("cycles", .int m.cycles.toNat)]

end RegisterMachine.Machine
