import KeyedTables.Output.Basic
import KeyedTables.Output.SettingsText
import KeyedTables.Proofs.Key.Bytes
import KeyedTables.Proofs.Key.Order
import KeyedTables.Proofs.Table.Schema
import KeyedTables.Proofs.Key.Encoding
import KeyedTables.Proofs.Store.Calls
import KeyedTables.Proofs.Store.MapStore
import KeyedTables.Proofs.Store.Rows
import KeyedTables.Proofs.Store.Simulation
import KeyedTables.Proofs.Session.Steady
import KeyedTables.Proofs.Session.Wait
import KeyedTables.Proofs.Session.Batch
import KeyedTables.Proofs.Session.Verdict
import KeyedTables.Proofs.Session.Isolation
import KeyedTables.Proofs.Store.Reachable
import KeyedTables.Proofs.Store.Pages
import KeyedTables.Proofs.Transfer.Reading
import KeyedTables.Proofs.Transfer.Writing
import KeyedTables.Proofs.Transfer.Filling
import KeyedTables.Proofs.Lookup.Matching
import KeyedTables.Proofs.Lookup.Found
import KeyedTables.Proofs.Lookup.Mixing
import KeyedTables.Proofs.Store.Upserts
import KeyedTables.Proofs.Lookup.ByKey
import KeyedTables.Proofs.Session.Accepted
import KeyedTables.Proofs.Output.ReadBack
import KeyedTables.Proofs.Session.Traffic
import KeyedTables.Proofs.Transfer.RoundTrip
import KeyedTables.Proofs.Lookup.Readable
import KeyedTables.Proofs.Output.Presence
import KeyedTables.Proofs.Session.Sharing
import KeyedTables.Proofs.Session.Course
import KeyedTables.Proofs.Session.Sending
import KeyedTables.Proofs.Session.Timeouts
import KeyedTables.Proofs.Session.Schedule
import KeyedTables.Proofs.Session.Overlap
import KeyedTables.Proofs.Transfer.TwoPaths
import KeyedTables.Proofs.Output.Plans
import KeyedTables.Proofs.Decimal.Literal
import KeyedTables.Proofs.Decimal.Rescaling
import KeyedTables.Proofs.Number.Digits
import KeyedTables.Proofs.Transfer.PlannedFields
import KeyedTables.Proofs.Output.SettingsText
import KeyedTables.Proofs.Decimal.NormalForm
import KeyedTables.Proofs.Store.Paging
import KeyedTables.Proofs.Store.Commuting
import KeyedTables.Proofs.Store.Replay
import KeyedTables.Proofs.Transfer.Restricting
import KeyedTables.Proofs.Session.Account
import KeyedTables.Proofs.Lookup.Planned
import KeyedTables.Proofs.Output.Counting
import KeyedTables.Proofs.Transfer.KnownSchemas
import KeyedTables.Proofs.Table.Checking
import KeyedTables.Proofs.Row.Editing
