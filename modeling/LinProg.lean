import LinProg.Main
import LinProg.Statement.Position
import LinProg.Proofs.Text.Run
import LinProg.Proofs.Text.Position
import LinProg.Proofs.Text.Lines
import LinProg.Proofs.Text.LinesOf
import LinProg.Proofs.Text.ByteOrder
import LinProg.Proofs.Binary64.Exact
import LinProg.Proofs.Binary64.Product
import LinProg.Proofs.Binary64.Nearest
import LinProg.Proofs.Decimal.Magnitude
import LinProg.Proofs.Decimal.ReadBack
import LinProg.Proofs.Decimal.Layout
import LinProg.Proofs.Decimal.Nearest
import LinProg.Proofs.Decimal.Number
import LinProg.Proofs.Expression.Grammar
import LinProg.Proofs.Expression.Term
import LinProg.Proofs.Expression.Reading
import LinProg.Proofs.Expression.Unique
import LinProg.Proofs.Expression.Position
import LinProg.Proofs.Expression.Sum
import LinProg.Proofs.Expression.Source
import LinProg.Proofs.Expression.Total
import LinProg.Proofs.Statement.ZeroFree
import LinProg.Proofs.Statement.Relation
import LinProg.Proofs.Statement.Restriction
import LinProg.Proofs.Statement.Failure
import LinProg.Proofs.Statement.Direction
import LinProg.Proofs.Session.Sections
import LinProg.Proofs.Session.Invariant
import LinProg.Proofs.Session.Compile
import LinProg.Proofs.Session.Stream
import LinProg.Proofs.Session.Problem
import LinProg.Proofs.Session.Failure
import LinProg.Proofs.Session.Listener
import LinProg.Proofs.Session.Fault
import LinProg.Proofs.Session.Direction
import LinProg.Proofs.Command.Path
import LinProg.Proofs.Command.Delivery
import LinProg.Proofs.Problem.Source
import LinProg.Proofs.Problem.RoundTrip
import LinProg.Proofs.Model.Layout
import LinProg.Proofs.Model.Fields
import LinProg.Proofs.Model.Specification
import LinProg.Proofs.Model.Meaning
import LinProg.Proofs.Model.Text
import LinProg.Proofs.Model.ReadBack
import LinProg.Proofs.Json.Reader
import LinProg.Proofs.Json.Escape
import LinProg.Proofs.Json.Number
import LinProg.Proofs.Json.RoundTrip
import LinProg.Proofs.Model.Record
import LinProg.Proofs.Statement.SignRestriction
import LinProg.Proofs.Statement.Objective
import LinProg.Proofs.Expression.WellFormed
import LinProg.Proofs.Session.Warning
import LinProg.Proofs.Session.WellFormed
import LinProg.Proofs.Model.Order
import LinProg.Proofs.Session.Order
import LinProg.Proofs.Statement.Padding
import LinProg.Proofs.Session.Padding
import LinProg.Proofs.Command.Log
import LinProg.Proofs.Command.Interference
import LinProg.Proofs.Statement.LeftOver
import LinProg.Proofs.Statement.Locality
import LinProg.Proofs.Statement.Cursor
import LinProg.Proofs.Binary64.Integer
import LinProg.Proofs.Expression.Integer
