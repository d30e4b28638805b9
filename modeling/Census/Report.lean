import Census.Check.Program
import Census.Parse.Reading
import Census.Token.Lexer
import Census.Tree.Outline

/-!
# Reports on programs

What is written about a program, and where it is written to.

- `Sink`: a place that takes a limited number of bytes.
- `analyzeInto`: checks a tree and writes its report into a sink.
- `Stage`, `checkSource`, `outlineSource`: a source text taken through the stages of processing.
-/

namespace Census

/-- The bytes of a text. -/
def textBytes (text : String) : List UInt8 := text.toUTF8.data.toList

/-- A place to write bytes to. -/
structure Sink where
  /-- How many more bytes it takes; no number means as many as come. -/
  room : Option Nat := none
  /-- The bytes it took. -/
  held : List UInt8 := []
deriving DecidableEq, Repr

namespace Sink

/-- How many of the next `size` bytes are taken. -/
def capacity (sink : Sink) (size : Nat) : Nat :=
  match sink.room with
  | some room => min room size
  | none => size

/-- Writes once: takes as many of the bytes as there is room for and answers the others. Nothing is
answered when there are bytes and no room. -/
def take? (sink : Sink) (bytes : List UInt8) : Option (Sink × List UInt8) :=
  let taken := sink.capacity bytes.length
  if taken = 0 && !bytes.isEmpty then none
  else
    some (⟨sink.room.map (· - taken), sink.held ++ bytes.take taken⟩, bytes.drop taken)

/-- Writes until nothing is left or nothing more is taken, at most `fuel` times; the flag tells
whether all was written. -/
def takeAll (sink : Sink) (bytes : List UInt8) : (fuel : Nat) → Sink × Bool
  | 0 => (sink, bytes.isEmpty)
  | fuel + 1 =>
    if bytes.isEmpty then (sink, true)
    else
      match sink.take? bytes with
      | none => (sink, false)
      | some (fuller, others) => fuller.takeAll others fuel

/-- Writes a text, all of it if there is room. Every write takes a byte or fails, so there are no
more writes than bytes. -/
def write (sink : Sink) (text : String) : Sink × Bool :=
  let bytes := textBytes text
  sink.takeAll bytes bytes.length

/-- Writes texts one after the other, up to the first one that there is no room for. -/
def writeEach (sink : Sink) : (texts : List String) → Sink × Bool
  | [] => (sink, true)
  | text :: others =>
    match sink.write text with
    | (fuller, true) => fuller.writeEach others
    | (fuller, false) => (fuller, false)

end Sink

namespace Metrics

/-- The line reported on a program. -/
def reportLine (metrics : Metrics) : String := metrics.report ++ "\n"

/-- The pieces in which the line is written to a sink. -/
def reportPieces (metrics : Metrics) : List String :=
  ["\x7bVAR:", toString metrics.declarations, ", WHILE:", toString metrics.whileLoops, ", IF:",
    toString metrics.conditionals, ", FOR:", toString metrics.forLoops, ", OP:",
    toString metrics.operators, "\x7d", "\n"]

end Metrics

/-- Checks a program on its own and writes the report line, piece by piece. A rejected program
writes nothing. -/
def analyzeInto (tree : Node) (sink : Sink) : Except Diagnostic Metrics × Sink :=
  match analyze tree with
  | .error diagnostic => (.error diagnostic, sink)
  | .ok metrics =>
    match sink.writeEach metrics.reportPieces with
    | (fuller, true) => (.ok metrics, fuller)
    | (fuller, false) => (.error (.transfer "sink full"), fuller)

/-- The stages a source text is taken through. -/
inductive Stage where
  | lexical
  | grammatical
  | semantic
deriving DecidableEq, Repr

/-- What is told when a stage ends in a diagnostic. -/
def Stage.failure : Stage → String
  | lexical => "Lexical analysis failed"
  | grammatical => "Parsing failed"
  | semantic => "Semantic analysis failed"

/-- Where processing stopped and why. -/
structure Rejection where
  stage : Stage
  cause : Diagnostic
deriving DecidableEq, Repr

/-- Names the stage in which a result was found. -/
def Stage.mark {α : Type} (stage : Stage) (result : Except Diagnostic α) : Except Rejection α :=
  result.mapError fun cause => ⟨stage, cause⟩

/-- The tree of a source text. -/
def treeOfSource (source : String) : Except Rejection Node := do
  let tokens ← Stage.lexical.mark (tokenize source)
  Stage.grammatical.mark (parse tokens)

/-- The metrics of a source text. -/
def checkSource (source : String) : Except Rejection Metrics := do
  let tree ← treeOfSource source
  Stage.semantic.mark (analyze tree)

/-- Takes a source text through all stages and writes the report line. A rejected text writes
nothing. The flag tells whether all of the line was written. -/
def reportSource (source : String) (sink : Sink) : Except Rejection Metrics × Sink × Bool :=
  match checkSource source with
  | .error rejection => (.error rejection, sink, true)
  | .ok metrics => (.ok metrics, sink.writeEach metrics.reportPieces)

/-- The outline of a source text. -/
def outlineSource (source : String) : Except Rejection String := do
  return (← treeOfSource source).outline

end Census
