/-!
# Metrics

How often a program uses each of the counted constructs.
-/

namespace Census

/-- The census of a program. -/
structure Metrics where
  /-- Declared variables, lists and loop variables included. -/
  declarations : Nat := 0
  whileLoops : Nat := 0
  conditionals : Nat := 0
  /-- Loops of both other kinds. -/
  forLoops : Nat := 0
  /-- Applied operators, those before an operand included. -/
  operators : Nat := 0
deriving DecidableEq, Repr

namespace Metrics

/-- The counts in the order in which they are reported. -/
def counts (metrics : Metrics) : List Nat :=
  [metrics.declarations, metrics.whileLoops, metrics.conditionals, metrics.forLoops,
    metrics.operators]

/-- The one-line report. -/
def report (metrics : Metrics) : String :=
  "\x7bVAR:" ++ toString metrics.declarations ++ ", WHILE:" ++ toString metrics.whileLoops
    ++ ", IF:" ++ toString metrics.conditionals ++ ", FOR:" ++ toString metrics.forLoops
    ++ ", OP:" ++ toString metrics.operators ++ "\x7d"

end Metrics

end Census
