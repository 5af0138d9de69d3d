import Mathlib.Logic.Basic
import RiscvSoc.Machine
import RiscvSoc.Proofs.Soc.RetiredEdge

namespace RiscvSoc

namespace Machine

end Machine

end RiscvSoc
