import ReferralForest.AccountId
import ReferralForest.Amount
import ReferralForest.Binary.Format
import ReferralForest.Binary.Stored
import ReferralForest.Binary.Word
import ReferralForest.Cascade.Activity
import ReferralForest.Cascade.Basic
import ReferralForest.Config.Basic
import ReferralForest.Config.LogFormat
import ReferralForest.Document.Basic
import ReferralForest.Document.Form
import ReferralForest.Document.Forms
import ReferralForest.Document.Parser
import ReferralForest.Document.Printer
import ReferralForest.Document.Token
import ReferralForest.Error
import ReferralForest.Forest.Downgrades
import ReferralForest.Forest.Fees
import ReferralForest.Forest.Membership
import ReferralForest.Forest.Parameters
import ReferralForest.Forest.Query
import ReferralForest.Forest.Snapshot
import ReferralForest.Forest.Stake
import ReferralForest.Forest.Visit
import ReferralForest.Fraction
import ReferralForest.Genesis
import ReferralForest.Host
import ReferralForest.Main
import ReferralForest.Notice
import ReferralForest.Params
import ReferralForest.Program.Basic
import ReferralForest.Program.Dialogue
import ReferralForest.Program.Records
import ReferralForest.Proofs.Binary.Layout
import ReferralForest.Proofs.Binary.RoundTrip
import ReferralForest.Proofs.Cascade.Blaming
import ReferralForest.Proofs.Cascade.Buffering
import ReferralForest.Proofs.Cascade.Chronicle
import ReferralForest.Proofs.Cascade.Closure
import ReferralForest.Proofs.Cascade.Courses
import ReferralForest.Proofs.Cascade.Dispatch
import ReferralForest.Proofs.Cascade.Failing
import ReferralForest.Proofs.Cascade.Loading
import ReferralForest.Proofs.Cascade.Locality
import ReferralForest.Proofs.Cascade.Messages
import ReferralForest.Proofs.Cascade.Orderly
import ReferralForest.Proofs.Cascade.Resting
import ReferralForest.Proofs.Cascade.Rising
import ReferralForest.Proofs.Cascade.Settling
import ReferralForest.Proofs.Cascade.Spread
import ReferralForest.Proofs.Cascade.Succeeding
import ReferralForest.Proofs.Cascade.Walk
import ReferralForest.Proofs.Cascade.Writes
import ReferralForest.Proofs.Forest.Activity
import ReferralForest.Proofs.Forest.Announcements
import ReferralForest.Proofs.Forest.Attaining
import ReferralForest.Proofs.Forest.Chronicle
import ReferralForest.Proofs.Forest.Commuting
import ReferralForest.Proofs.Forest.Compare
import ReferralForest.Proofs.Forest.Confinement
import ReferralForest.Proofs.Forest.Declaring
import ReferralForest.Proofs.Forest.Delegations
import ReferralForest.Proofs.Forest.Deposits
import ReferralForest.Proofs.Forest.Draining
import ReferralForest.Proofs.Forest.Ending
import ReferralForest.Proofs.Forest.Export
import ReferralForest.Proofs.Forest.Grace
import ReferralForest.Proofs.Forest.History
import ReferralForest.Proofs.Forest.Import
import ReferralForest.Proofs.Forest.Inert
import ReferralForest.Proofs.Forest.Kinship
import ReferralForest.Proofs.Forest.Lineage
import ReferralForest.Proofs.Forest.Listing
import ReferralForest.Proofs.Forest.Metering
import ReferralForest.Proofs.Forest.Moves
import ReferralForest.Proofs.Forest.Operations
import ReferralForest.Proofs.Forest.Orderly
import ReferralForest.Proofs.Forest.Paying
import ReferralForest.Proofs.Forest.Queue
import ReferralForest.Proofs.Forest.Raising
import ReferralForest.Proofs.Forest.Ranges
import ReferralForest.Proofs.Forest.Rebuilding
import ReferralForest.Proofs.Forest.Recount
import ReferralForest.Proofs.Forest.Regular
import ReferralForest.Proofs.Forest.Restoring
import ReferralForest.Proofs.Forest.Scheduled
import ReferralForest.Proofs.Forest.Settled
import ReferralForest.Proofs.Forest.Sharing
import ReferralForest.Proofs.Forest.Stakes
import ReferralForest.Proofs.Forest.Tiers
import ReferralForest.Proofs.Forest.Toggling
import ReferralForest.Proofs.Forest.Visiting
import ReferralForest.Proofs.Fraction.Adding
import ReferralForest.Proofs.Fraction.Origins
import ReferralForest.Proofs.Fraction.Rational
import ReferralForest.Proofs.Fraction.Shares
import ReferralForest.Proofs.Fraction.Words
import ReferralForest.Proofs.Ledger.Basic
import ReferralForest.Proofs.Ledger.Commit
import ReferralForest.Proofs.Ledger.Draft
import ReferralForest.Proofs.Ledger.Reading
import ReferralForest.Proofs.Ledger.Telling
import ReferralForest.Proofs.Ledger.Unheard
import ReferralForest.Proofs.Program.Admitted
import ReferralForest.Proofs.Program.Orderly
import ReferralForest.Proofs.Program.Run
import ReferralForest.Proofs.SortedMap.Totals
import ReferralForest.Proofs.Status.Requirements
import ReferralForest.Proofs.Store.Families
import ReferralForest.Proofs.Store.Keys
import ReferralForest.Proofs.Store.Levels
import ReferralForest.Proofs.Store.Scanning
import ReferralForest.Proofs.Store.View
import ReferralForest.Proofs.Tool.Atomic
import ReferralForest.Proofs.Tool.Contents
import ReferralForest.Proofs.Tool.Registering
import ReferralForest.Record
import ReferralForest.Requirement
import ReferralForest.SortedMap
import ReferralForest.Status
import ReferralForest.Store.Archive
import ReferralForest.Store.Basic
import ReferralForest.Store.Changes
import ReferralForest.Store.KeyRange
import ReferralForest.Store.Slot
import ReferralForest.Text.Decimal
import ReferralForest.Text.Escaped
import ReferralForest.Text.Hex
import ReferralForest.Text.Quoted
import ReferralForest.Text.Scanner
import ReferralForest.Text.Utf8
import ReferralForest.Timestamp
import ReferralForest.Toml.Basic
import ReferralForest.Toml.Parser
import ReferralForest.Toml.Printer
import ReferralForest.Toml.Scalar
import ReferralForest.Tool.Action
import ReferralForest.Tool.Arguments
import ReferralForest.Tool.CommandLine
import ReferralForest.Tool.Disk
