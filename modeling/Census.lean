import Census.Interchange
import Census.Main
import Census.Proofs.Check.Ceilings
import Census.Proofs.Check.Exchange
import Census.Proofs.Check.Findings
import Census.Proofs.Check.Labels
import Census.Proofs.Check.Leftovers
import Census.Proofs.Check.Operands
import Census.Proofs.Check.Readings
import Census.Proofs.Check.Redundancy
import Census.Proofs.Check.Refinement
import Census.Proofs.Check.Relabeling
import Census.Proofs.Check.Sessions
import Census.Proofs.Check.Tours
import Census.Proofs.CommandLine.InitProject
import Census.Proofs.CommandLine.NewProject
import Census.Proofs.Parse.Bare
import Census.Proofs.Parse.Concatenation
import Census.Proofs.Parse.Recursion
import Census.Proofs.Parse.Viability
import Census.Proofs.Project.Checks
import Census.Proofs.Project.Manifests
import Census.Proofs.Project.Search
import Census.Proofs.Report.Sinks
import Census.Proofs.Source.Hulls
import Census.Proofs.Source.Layout
import Census.Proofs.Token.LineBreaks
import Census.Proofs.Token.Writing
import Census.Proofs.Tree.Outlines
