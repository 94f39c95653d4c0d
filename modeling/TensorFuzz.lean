import TensorFuzz.Random.Scripted
import TensorFuzz.Constant.Eval
import TensorFuzz.Check.Typing
import TensorFuzz.Module.Generate
import TensorFuzz.Layout
import TensorFuzz.Profile.Embedded
import TensorFuzz.Manifest
import TensorFuzz.CommandLine.Run
import TensorFuzz.Main
import TensorFuzz.Proofs.Engine.Run
import TensorFuzz.Proofs.Constant.Reading
import TensorFuzz.Proofs.Check.Cutting
import TensorFuzz.Proofs.Check.Grammar
import TensorFuzz.Proofs.Check.Reading
import TensorFuzz.Proofs.Engine.Drawn
import TensorFuzz.Proofs.Expr.Checking
import TensorFuzz.Proofs.Expr.Generation
import TensorFuzz.Proofs.Expr.Soundness
import TensorFuzz.Proofs.Module.Soundness
import TensorFuzz.Proofs.Module.Tidy
import TensorFuzz.Proofs.Check.Derivation
import TensorFuzz.Proofs.Check.Rules
import TensorFuzz.Proofs.Check.Completeness
import TensorFuzz.Proofs.Check.Acceptance
import TensorFuzz.Proofs.Expr.Drawn
import TensorFuzz.Proofs.Expr.Occurrences
import TensorFuzz.Proofs.Stmt.Shadowing
import TensorFuzz.Proofs.Stmt.Budget
import TensorFuzz.Proofs.Module.Contents
import TensorFuzz.Proofs.Module.Sizes
import TensorFuzz.Proofs.Engine.Ending
import TensorFuzz.Proofs.Expr.Ending
import TensorFuzz.Proofs.Stmt.Ending
import TensorFuzz.Proofs.Module.Ending
import TensorFuzz.Proofs.Stmt.Frames
import TensorFuzz.Proofs.Module.Frames
import TensorFuzz.Proofs.Constant.Agreement
import TensorFuzz.Proofs.Module.Headings
import TensorFuzz.Proofs.Module.Declared
import TensorFuzz.Proofs.Check.Offsets
import TensorFuzz.Proofs.Stmt.Exact
import TensorFuzz.Proofs.Check.Errors
import TensorFuzz.Proofs.Check.Safety
import TensorFuzz.Proofs.Text.Runs
import TensorFuzz.Proofs.Text.Clear
import TensorFuzz.Proofs.Expr.Clear
import TensorFuzz.Proofs.Stmt.Clear
import TensorFuzz.Proofs.Module.Items
import TensorFuzz.Proofs.Module.Outline
import TensorFuzz.Proofs.Expr.Plain
import TensorFuzz.Proofs.Stmt.Plain
import TensorFuzz.Proofs.Module.Plain
import TensorFuzz.Proofs.Text.Brackets
import TensorFuzz.Proofs.Text.Flat
import TensorFuzz.Proofs.Expr.Flat
import TensorFuzz.Proofs.Stmt.Flat
import TensorFuzz.Proofs.Module.Brackets
import TensorFuzz.Proofs.Text.Respaced
import TensorFuzz.Proofs.Check.Spacing
import TensorFuzz.Proofs.Layout.Gaps
import TensorFuzz.Proofs.Layout.Literals
import TensorFuzz.Proofs.Json.Spelled
import TensorFuzz.Proofs.Json.Scalars
import TensorFuzz.Proofs.Json.Reading
import TensorFuzz.Proofs.Json.Writing
import TensorFuzz.Proofs.Toml.Bounded
import TensorFuzz.Proofs.Profile.Fits
import TensorFuzz.Proofs.Manifest.RoundTrip
import TensorFuzz.Proofs.FileTree.Written
import TensorFuzz.Proofs.CommandLine.Arguments
import TensorFuzz.Proofs.CommandLine.Settled
import TensorFuzz.Proofs.CommandLine.Run
import TensorFuzz.Proofs.Scope.Lexical
import TensorFuzz.Proofs.Stmt.Labels
import TensorFuzz.Proofs.Expr.Combinations
import TensorFuzz.Proofs.Stmt.Nesting
import TensorFuzz.Proofs.Module.Nesting
import TensorFuzz.Proofs.Name.Unique
import TensorFuzz.Proofs.Layout.Lines
import TensorFuzz.Proofs.Ty.Reading
import TensorFuzz.Proofs.Expr.Spent
import TensorFuzz.Proofs.Constant.Searching
import TensorFuzz.Proofs.Constant.Unambiguous
import TensorFuzz.Proofs.Constant.Magnitudes
import TensorFuzz.Proofs.Name.Identifiers
import TensorFuzz.Proofs.Check.Stability
