import Clearing.Simulation

/-!
The command line: prints the report on the scenarios.
-/

namespace Clearing

/-- A fault in words. -/
def Simulation.Fault.message : Simulation.Fault → String
  | setup cause => cause.message
  | call cause => cause.message

/-- What ended a run early, in words. -/
def Simulation.failureMessage : Failure Simulation.Fault → String
  | .refused fault => fault.message
  | .stopped stop => stop.message

end Clearing

/-- Prints the report, or why there is none. -/
def main : IO UInt32 := do
  match Clearing.Simulation.report with
  | .ok lines =>
    for line in lines do IO.println line
    return 0
  | .error failure =>
    IO.eprintln s!"Error: {Clearing.Simulation.failureMessage failure}"
    return 1
