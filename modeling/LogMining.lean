import LogMining.Analyze
import LogMining.Command
import LogMining.Console
import LogMining.Console.Alphanumeric
import LogMining.Console.Case
import LogMining.Console.Case.Table
import LogMining.Console.CharacterName
import LogMining.Console.Control
import LogMining.Console.Decimal
import LogMining.Console.Display
import LogMining.Console.Emoji
import LogMining.Console.Emoji.Table
import LogMining.Console.Literal.Basic
import LogMining.Console.Literal.Item
import LogMining.Console.Literal.Level
import LogMining.Console.Literal.Number
import LogMining.Console.Literal.Quoted
import LogMining.Console.Literal.Word
import LogMining.Console.Markup.Colour
import LogMining.Console.Markup.Piece
import LogMining.Console.Markup.Plain
import LogMining.Console.Markup.Style
import LogMining.Console.Width
import LogMining.Console.Width.Table
import LogMining.Fault
import LogMining.Line.Dates
import LogMining.Main
import LogMining.Progress
import LogMining.Refine.Affixes
import LogMining.Refine.Collapse
import LogMining.Refine.Factor
import LogMining.Refine.Pass
import LogMining.Refine.Sweep
import LogMining.Render.Branches
import LogMining.Render.Dump
import LogMining.Render.Outline
import LogMining.Reporter
import LogMining.Sample
import LogMining.Session
import LogMining.Shape.Basic
import LogMining.Shape.Date
import LogMining.Shape.Match
import LogMining.Shape.Value
import LogMining.Step
import LogMining.Terminal
import LogMining.Text.Blank
import LogMining.Text.Cut
import LogMining.Text.Lines
import LogMining.Text.Pieces
import LogMining.Text.Range
import LogMining.Text.Scan
import LogMining.Text.Utf8
import LogMining.Text.Words
import LogMining.Token.Basic
import LogMining.Token.Merge
import LogMining.Token.Pending
import LogMining.Token.Source
import LogMining.Tree.Basic
import LogMining.Tree.Growth
import LogMining.Tree.Walk
import LogMining.Proofs.Slots.Basic
import LogMining.Proofs.Slots.Held
import LogMining.Proofs.Slots.Read
import LogMining.Proofs.Slots.Change
import LogMining.Proofs.Growth.Place
import LogMining.Proofs.Growth.Line
import LogMining.Proofs.Refine.Affixes
import LogMining.Proofs.Refine.Collapse
import LogMining.Proofs.Refine.Merge
import LogMining.Proofs.Refine.Split
import LogMining.Proofs.Refine.Sweep
import LogMining.Proofs.Slots.Linked
import LogMining.Proofs.Session.Calls
import LogMining.Proofs.Reading.Path
import LogMining.Proofs.Refine.Parts
import LogMining.Proofs.Reading.Words
import LogMining.Proofs.Reading.Refined
import LogMining.Proofs.Growth.Enter
import LogMining.Proofs.Accounts.Tally
import LogMining.Proofs.Accounts.Route
import LogMining.Proofs.Accounts.Balance
import LogMining.Proofs.Growth.Members
import LogMining.Proofs.Order.Alike
import LogMining.Proofs.Order.Ambiguity
import LogMining.Proofs.Order.Sorting
import LogMining.Proofs.Order.Permute
import LogMining.Proofs.Order.Exchange
import LogMining.Proofs.Order.Trees
import LogMining.Proofs.Sharing.Traced
import LogMining.Proofs.Sharing.Stable
import LogMining.Proofs.Sharing.Coherent
import LogMining.Proofs.Sharing.Again
import LogMining.Proofs.Sharing.Shares
import LogMining.Proofs.Refine.Ends
import LogMining.Proofs.Growth.Values
import LogMining.Proofs.Token.Intact
import LogMining.Proofs.Refine.Pieces
import LogMining.Proofs.Refine.Intact
import LogMining.Proofs.Session.Intact
import LogMining.Proofs.Text.Words
import LogMining.Proofs.Text.Utf8
import LogMining.Proofs.Shape.Scan
import LogMining.Proofs.Shape.Masked
import LogMining.Proofs.Token.OfWord
import LogMining.Proofs.Token.Feed
import LogMining.Proofs.Growth.Ahead
import LogMining.Proofs.Refine.Blind
import LogMining.Proofs.Session.Tokens
import LogMining.Proofs.Session.Alone
import LogMining.Proofs.Session.Refused
import LogMining.Proofs.Analyze.Exit
import LogMining.Proofs.Refine.Meets
import LogMining.Proofs.Refine.Remainder
import LogMining.Proofs.Session.Parts
import LogMining.Proofs.Slots.Renumber
import LogMining.Proofs.Reading.Rows
import LogMining.Proofs.Reading.Row
import LogMining.Proofs.Reading.Dump
import LogMining.Proofs.Session.Dump
import LogMining.Proofs.Text.Lines
import LogMining.Proofs.Refine.Longest
import LogMining.Proofs.Slots.Nested
import LogMining.Proofs.Refine.Divide
import LogMining.Proofs.Progress.Totals
import LogMining.Proofs.Session.Reported
import LogMining.Proofs.Refine.Delimited
import LogMining.Proofs.Refine.Reorder
import LogMining.Proofs.Refine.Recorded
import LogMining.Proofs.Refine.Books
import LogMining.Proofs.Refine.Course
import LogMining.Proofs.Session.Books
import LogMining.Proofs.Refine.Complete
import LogMining.Proofs.Session.Complete
import LogMining.Proofs.Token.Expansion
import LogMining.Proofs.Reading.Preorder
import LogMining.Proofs.Shape.Date
import LogMining.Proofs.Shape.ScanDate
import LogMining.Proofs.Line.Segments
import LogMining.Proofs.Refine.Duplicates
import LogMining.Proofs.Shape.Value
import LogMining.Proofs.Token.Canonical
import LogMining.Proofs.Growth.Lines
import LogMining.Proofs.Progress.Reports
import LogMining.Proofs.Refine.Pass
import LogMining.Proofs.Refine.Relink
import LogMining.Proofs.Slots.Whole
import LogMining.Proofs.Token.Overflow
import LogMining.Proofs.Progress.Runs
import LogMining.Proofs.Progress.Reporter
