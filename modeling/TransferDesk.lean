import TransferDesk.Text.Blank
import TransferDesk.Text.Integer
import TransferDesk.Text.Utf8
import TransferDesk.Decimal.Basic
import TransferDesk.Decimal.Arithmetic
import TransferDesk.Decimal.Units
import TransferDesk.Decimal.Printer
import TransferDesk.Decimal.Reader
import TransferDesk.Keyed
import TransferDesk.Money
import TransferDesk.Account
import TransferDesk.Fault
import TransferDesk.Transfer
import TransferDesk.Ledger
import TransferDesk.Scope
import TransferDesk.Scope.Program
import TransferDesk.Turnstile
import TransferDesk.Bank
import TransferDesk.Request
import TransferDesk.Response
import TransferDesk.Desk
import TransferDesk.Stream
import TransferDesk.Frame
import TransferDesk.FrameBuffer
import TransferDesk.FrameBuffer.Backlog
import TransferDesk.Session
import TransferDesk.Session.Worker
import TransferDesk.Settings
import TransferDesk.Roster
import TransferDesk.Server.Lifecycle
import TransferDesk.Server
import TransferDesk.Sheet.Record
import TransferDesk.Sheet.Row
import TransferDesk.Sheet.Column
import TransferDesk.Sheet.Loader
import TransferDesk.Sheet.Location
import TransferDesk.CommandLine
import TransferDesk.Main
import TransferDesk.Proofs.Decimal.Value
import TransferDesk.Proofs.Decimal.Sum
import TransferDesk.Proofs.Ledger.Building
import TransferDesk.Proofs.Scope.Shown
import TransferDesk.Proofs.Scope.Balances
import TransferDesk.Proofs.Visit
import TransferDesk.Proofs.Replay
import TransferDesk.Proofs.Decimal.Direction
import TransferDesk.Proofs.Desk.Effects
import TransferDesk.Proofs.Overdraft
import TransferDesk.Proofs.Conservation
import TransferDesk.Proofs.Exactness
import TransferDesk.Proofs.Settlement
import TransferDesk.Proofs.Framing.Reference
import TransferDesk.Proofs.Framing.Delivery
import TransferDesk.Proofs.Framing.Complete
import TransferDesk.Proofs.Desk.Errands
import TransferDesk.Proofs.Callers.Interleaving
import TransferDesk.Proofs.Callers.Serial
import TransferDesk.Proofs.Session.Moves
import TransferDesk.Proofs.Session.Exchanges
import TransferDesk.Proofs.Session.Deliveries
import TransferDesk.Proofs.Session.Shutdown
import TransferDesk.Proofs.Scope.Endings
import TransferDesk.Proofs.Scope.OneByOne
import TransferDesk.Proofs.Scope.Programs
import TransferDesk.Proofs.Session.Conversation
import TransferDesk.Proofs.Session.Framings
import TransferDesk.Proofs.Desk.Omissions
import TransferDesk.Proofs.Text.Utf8
import TransferDesk.Proofs.Framing.Polling
import TransferDesk.Proofs.Framing.Bounds
import TransferDesk.Proofs.Text.Numerals
import TransferDesk.Proofs.Session.Lines
import TransferDesk.Proofs.Session.Exits
import TransferDesk.Proofs.Text.Tokens
import TransferDesk.Proofs.Text.Trimming
import TransferDesk.Proofs.Decimal.Plain
import TransferDesk.Proofs.Decimal.Printed
import TransferDesk.Proofs.Decimal.Notation
import TransferDesk.Proofs.Request.Grammar
import TransferDesk.Proofs.Request.Wire
import TransferDesk.Proofs.Decimal.Cents
import TransferDesk.Proofs.Decimal.Limits
import TransferDesk.Proofs.Decimal.Canonical
import TransferDesk.Proofs.Amount
import TransferDesk.Proofs.Scope.Acceptance
import TransferDesk.Proofs.Decimal.Reading
import TransferDesk.Proofs.Decimal.Shown
import TransferDesk.Proofs.Response
import TransferDesk.Proofs.Decimal.Written
import TransferDesk.Proofs.Request.Amount
import TransferDesk.Proofs.Desk.Inquiries
import TransferDesk.Proofs.Bookkeeping
import TransferDesk.Proofs.Ledger.Attained
import TransferDesk.Proofs.Ledger.Payment
import TransferDesk.Proofs.Ledger.Posting
import TransferDesk.Proofs.Ledger.Accepting
import TransferDesk.Proofs.Ledger.Founding
import TransferDesk.Proofs.Scope.Precedence
import TransferDesk.Proofs.Commuting
import TransferDesk.Proofs.Ledger.Writing
import TransferDesk.Proofs.Scope.Reordering
import TransferDesk.Proofs.Desk.Withdrawals
import TransferDesk.Proofs.Callers.Competing
import TransferDesk.Proofs.Turnstile
import TransferDesk.Proofs.Server.Lifecycle
import TransferDesk.Proofs.Runs
import TransferDesk.Proofs.Sheet.Conversion
import TransferDesk.Proofs.Sheet.Cells
import TransferDesk.Proofs.Sheet.Accounts
import TransferDesk.Proofs.Sheet.Places
import TransferDesk.Proofs.Sheet.Loading
import TransferDesk.Proofs.Sheet.Written
import TransferDesk.Proofs.Sheet.Lines
import TransferDesk.Proofs.Sheet.RoundTrip
import TransferDesk.Proofs.Ledger.Places
import TransferDesk.Proofs.Server.Reception
