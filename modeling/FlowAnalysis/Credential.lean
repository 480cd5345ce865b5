import FlowAnalysis.Dependency.Closure

/-!
# Credentials

A bubble needs its own credentials and those of every bubble it depends on.
-/

namespace FlowAnalysis

namespace Bubble

/-- The names whose credentials a bubble needs: its own and those it depends on. -/
def involved (b : Bubble) (registry : Registry) : List String :=
  b.bubbleName :: b.dependencies.getD (b.flatDependencies registry)

/-- The credentials that a bubble needs, in ascending order and each once. -/
def credentials (b : Bubble) (registry : Registry) : List String :=
  let needed := (b.involved registry).flatMap fun n =>
    ((registry.get? n).map (·.credentials)).getD []
  (needed.mergeSort (· ≤ ·)).eraseReps

end Bubble

/-- The credentials that bubbles need, by id; bubbles that need none are left out. -/
def requiredCredentials (registry : Registry) (bubbles : ById Bubble) : ById (List String) :=
  (bubbles.map fun b => b.credentials registry).filter fun _ names => !names.isEmpty

end FlowAnalysis
