import RegisterMachine.CommandLine.Report

/-!
# The program

Reads the files that a command names, prints its report, and waits between
the polls of a paced run. Everything that decides anything is elsewhere.
-/

namespace RegisterMachine.CommandLine

/-- The text of a file, or why there is none. -/
def readText (path : String) : IO (Except ReadFailure String) := do
  try
    return textOfBytes (← IO.FS.readBinFile path)
  catch e =>
    match e with
    | .noFileOrDirectory .. => return .error .notFound
    | .inappropriateType .. => return .error .isDirectory
    | e => return .error (.other (toString e))

/-- The files that a command may read, read. -/
def readFiles (paths : List String) : IO Files := do
  let mut texts : List (String × Except ReadFailure String) := []
  for path in paths do
    texts := (path, ← readText path) :: texts
  let found := texts
  return fun path => (found.lookup path).getD (.error .notFound)

/-- The clock, in nanoseconds. -/
def clock : IO Instant := do
  return Int.ofNat (← IO.monoNanosNow)

/-- Polls a paced run until it is over, sleeping until the next tick is
due. -/
partial def pace (tracing : Bool) (limit : Nat) (r : Paced) : IO Paced := do
  if r.finished limit then return r
  let wait := r.ticker.remaining (← clock)
  IO.sleep (UInt32.ofNat (min ((wait + 999999) / 1000000) (2 ^ 32 - 1)))
  pace tracing limit (r.poll tracing limit (← clock))

/-- The report of a command. A paced run takes its time. -/
def perform (files : Files) : Command → IO Report
  | .run o => do
    match prepare files o with
    | .error report => return report
    | .ok (announced, m) =>
      if o.realtime then
        let r ← pace o.trace o.maxTicks.toNat (.start m (← clock))
        return runReport o announced r.finish
      else return runReport o announced (drive o m)
  | command => return command.report files

/-- Prints a report. -/
def Report.print (r : Report) : IO UInt32 := do
  IO.print r.out
  IO.eprint r.err
  return r.exitCode

end RegisterMachine.CommandLine

open RegisterMachine.CommandLine in
/-- Performs the command of the command line. -/
def main (args : List String) : IO UInt32 := do
  match parse? args with
  | none => usageReport.print
  | some command =>
    let report ← perform (← readFiles command.paths) command
    report.print
