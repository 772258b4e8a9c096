import LineExchange.Bench
import LineExchange.Conformance
import LineExchange.Gate.Contest
import LineExchange.Proofs.Header.WireForm
import LineExchange.Walk.Exchange
import LineExchange.Walk.Gate
import LineExchange.Walk.Header
import LineExchange.Proofs.Header.RoundTrip
import LineExchange.Proofs.Header.Survival
import LineExchange.Proofs.Memory.Lawful
import LineExchange.Gate.Race
import LineExchange.Proofs.Gate.Enter
import LineExchange.Proofs.Gate.Exclusion
import LineExchange.Proofs.Layout.Parts
import LineExchange.Proofs.Exchange.Section
import LineExchange.Proofs.Exchange.Visits
import LineExchange.Proofs.Exchange.AlwaysExit
import LineExchange.Proofs.Layout.Views
import LineExchange.Proofs.Nic.React
import LineExchange.Proofs.Link.Ideal
import LineExchange.Proofs.Nic.Carries
import LineExchange.Proofs.Link.Tracks
import LineExchange.Proofs.Link.Call
import LineExchange.Proofs.Link.Receive
import LineExchange.Proofs.Link.Refines
import LineExchange.Station
import LineExchange.Proofs.Isolation.Confined
import LineExchange.Proofs.Isolation.Windows
import LineExchange.Proofs.Isolation.Cores
import LineExchange.Proofs.Meets
import LineExchange.Proofs.Parity.Calls
import LineExchange.Proofs.Parity.Operations
import LineExchange.Proofs.Parity.InStep
import LineExchange.Header.Fenced
import LineExchange.Fenced
import LineExchange.Proofs.Bounds.Stays
import LineExchange.Proofs.Layout.AddressMap
import LineExchange.Proofs.Parity.Alternation
import LineExchange.Proofs.Region.Receive
import LineExchange.Proofs.Region.Transmit
import LineExchange.Proofs.Header.Exact
import LineExchange.Proofs.Exchange.Accepts
import LineExchange.Proofs.Failure.Atomic
import LineExchange.Proofs.Header.Selected
import LineExchange.Proofs.Header.Canonical
import LineExchange.Proofs.Exchange.Drain
import LineExchange.Proofs.Region.BringUp
import LineExchange.Proofs.Nic.History
import LineExchange.Proofs.Nic.Receive
import LineExchange.Proofs.Nic.BringUp
import LineExchange.Proofs.Gate.Tries
import LineExchange.Proofs.Gate.Guards
import LineExchange.Proofs.Ownership.Runs
import LineExchange.Proofs.Sequence.Overflow
import LineExchange.Proofs.Gate.Snapshots
import LineExchange.Proofs.Exchange.Statistics
import LineExchange.Proofs.Exchange.Reconcile
import LineExchange.Proofs.Exchange.Served
import LineExchange.Proofs.Nic.Ledger
import LineExchange.Proofs.Nic.Conserved
import LineExchange.Proofs.Header.BitLoop
import LineExchange.Proofs.Transaction.Contents
import LineExchange.Proofs.Memory.Account
import LineExchange.Proofs.Failure.Busy
import LineExchange.Proofs.Failure.Retry
