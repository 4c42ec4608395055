import StrictScheme.Arity
import StrictScheme.Atom
import StrictScheme.Builtin
import StrictScheme.Comment
import StrictScheme.Error
import StrictScheme.Eval
import StrictScheme.Inspect
import StrictScheme.Main
import StrictScheme.Number
import StrictScheme.Operation
import StrictScheme.Primitive
import StrictScheme.Proofs.Atom
import StrictScheme.Proofs.Decimal
import StrictScheme.Proofs.Eval.Arity
import StrictScheme.Proofs.Eval.Confined
import StrictScheme.Proofs.Eval.Correspondence
import StrictScheme.Proofs.Eval.Depth
import StrictScheme.Proofs.Eval.Discipline
import StrictScheme.Proofs.Eval.Failure
import StrictScheme.Proofs.Eval.Forms
import StrictScheme.Proofs.Eval.Height
import StrictScheme.Proofs.Eval.Local
import StrictScheme.Proofs.Eval.Meaning
import StrictScheme.Proofs.Eval.Names
import StrictScheme.Proofs.Eval.Printed
import StrictScheme.Proofs.Eval.Renaming
import StrictScheme.Proofs.Eval.Shift
import StrictScheme.Proofs.Eval.Substitution
import StrictScheme.Proofs.Eval.Transport
import StrictScheme.Proofs.Lockstep
import StrictScheme.Proofs.Primitive.Division
import StrictScheme.Proofs.Primitive.Fold
import StrictScheme.Proofs.Primitive.Meaning
import StrictScheme.Proofs.Primitive.Unordered
import StrictScheme.Proofs.Reader.Balance
import StrictScheme.Proofs.Reader.Blanking
import StrictScheme.Proofs.Reader.Comment
import StrictScheme.Proofs.Reader.Extension
import StrictScheme.Proofs.Reader.Layout
import StrictScheme.Proofs.Reader.Location
import StrictScheme.Proofs.Reader.Offence
import StrictScheme.Proofs.Reader.Parse
import StrictScheme.Proofs.Reader.Place
import StrictScheme.Proofs.Reader.Split
import StrictScheme.Proofs.Repl.Lines
import StrictScheme.Proofs.Repl.Transcript
import StrictScheme.Proofs.Repl.TypedLine
import StrictScheme.Proofs.Session.Clear
import StrictScheme.Proofs.Session.Garbage
import StrictScheme.Proofs.Session.Holdings
import StrictScheme.Proofs.Session.Idempotent
import StrictScheme.Proofs.Session.Isolation
import StrictScheme.Proofs.Session.Listing
import StrictScheme.Proofs.Session.Lockstep
import StrictScheme.Proofs.Session.Mirror
import StrictScheme.Proofs.Session.Provenance
import StrictScheme.Proofs.Session.Release
import StrictScheme.Proofs.Session.Sound
import StrictScheme.Proofs.Session.Source
import StrictScheme.Proofs.Session.Twins
import StrictScheme.Proofs.Session.Unobservable
import StrictScheme.Proofs.Session.WellFormed
import StrictScheme.Proofs.Store.Chain
import StrictScheme.Proofs.Store.Divide
import StrictScheme.Proofs.Store.Keep
import StrictScheme.Proofs.Store.Laws
import StrictScheme.Proofs.Store.Marking
import StrictScheme.Proofs.Store.Reach
import StrictScheme.Proofs.Store.Registry
import StrictScheme.Proofs.Store.Release
import StrictScheme.Proofs.Store.Renew
import StrictScheme.Proofs.Store.Settle
import StrictScheme.Proofs.Table
import StrictScheme.Proofs.Text.Excerpt
import StrictScheme.Reader
import StrictScheme.Repl
import StrictScheme.Repl.Loop
import StrictScheme.SExpr.Basic
import StrictScheme.Session.Basic
import StrictScheme.Session.Perform
import StrictScheme.Session.Step
import StrictScheme.Store.Basic
import StrictScheme.Store.Listing
import StrictScheme.Store.Reclaim
import StrictScheme.Store.Registry
import StrictScheme.Store.Release
import StrictScheme.Table
import StrictScheme.Text.Blank
import StrictScheme.Text.Bytes
import StrictScheme.Text.Excerpt
import StrictScheme.Text.Grapheme
import StrictScheme.Text.GraphemeBreak
import StrictScheme.Text.Quoted
import StrictScheme.Text.Ranges
import StrictScheme.Text.TypedLine
import StrictScheme.Token
import StrictScheme.Value
