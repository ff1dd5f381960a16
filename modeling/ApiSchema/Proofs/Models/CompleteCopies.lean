import ApiSchema.Proofs.Models.DistinctNames
import ApiSchema.Proofs.Models.Sources

/-!
# Copies of models

A model that spreads another one gets copies of all properties of that one and of its bases. A model
that is like another one gets copies of the own properties of that one and takes over its base,
unless it extends another model; then what it is like adds only its own properties. Copies are made
of what is there when the model is read, so all this is said of models that were complete by then.
-/

namespace ApiSchema.Checking

open TypeTable Option List

variable {env : Environment} {s : State} {t : TypeId} {m y : ModelType} {r : Reading}

section

variable (h : Orderly env s) (hm : s.types.model? t = some m) (htaken : r.Taken s m)
  (hsettled : r.Settled) (hy : s.types.model? r.source = some y)

include h hm htaken hsettled hy

end

end ApiSchema.Checking
