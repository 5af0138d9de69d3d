import RiscvSoc.Json.Printer
import RiscvSoc.Machine.Run

namespace RiscvSoc

def StopReason.name : StopReason → String
  | .halted => "Halted"
  | .timedOut => "TimedOut"
  | .quitRequested => "QuitRequested"

namespace Report

def text (r : Report) : String :=
  let steps := Json.prettyObject 2 [("steps", toString r.outcome.steps)]
  Json.prettyObject 0
    [("outcome", Json.prettyObject 1 [(r.outcome.reason.name, steps)]),
      ("stats", Json.prettyObject 1 (r.stats.named.map fun (name, n) => (name, toString n)))]

end Report

end RiscvSoc
