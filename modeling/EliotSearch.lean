import EliotSearch.Control.DispatchLog
import EliotSearch.Control.PublishedView
import EliotSearch.Control.Readback
import EliotSearch.Control.Supersession
import EliotSearch.Control.Attempts
import EliotSearch.Control.Ceilings
import EliotSearch.Control.PageFormats
import EliotSearch.Control.SourceEntries
import EliotSearch.Control.Settlement
import EliotSearch.Session.Boundary
import EliotSearch.Session.Calm
import EliotSearch.Session.Flushed
import EliotSearch.Session.Slot
import EliotSearch.Session.Lifetime
import EliotSearch.Session.Endings
import EliotSearch.Library.Hex
import EliotSearch.Library.Patterns
import EliotSearch.Library.Utf8
import EliotSearch.Query.Values
import EliotSearch.Query.Objects
import EliotSearch.Query.Identifiers
import EliotSearch.Query.Literal
import EliotSearch.Query.Accounts
import EliotSearch.Query.RawExact
import EliotSearch.Query.OneShot
import EliotSearch.Preparation.Lines
import EliotSearch.Preparation.Units
import EliotSearch.Preparation.Artifacts
import EliotSearch.Preparation.RoundTrip
import EliotSearch.Query.DecodedExact
import EliotSearch.Query.Expansion
import EliotSearch.Preparation.Layout
import EliotSearch.Preparation.Acceptance
import EliotSearch.Preparation.Scanners
import EliotSearch.Query.WindowPages
import EliotSearch.Client.Session
import EliotSearch.Client.Traffic
import EliotSearch.Client.Cli
import EliotSearch.Client.Refusals
import EliotSearch.Commands.Arguments
import EliotSearch.Commands.Bootstrap
import EliotSearch.Commands.Forwarding
import EliotSearch.Commands.PreparedSource
import EliotSearch.Commands.Responses
import EliotSearch.Commands.Accepted
import EliotSearch.Commands.Emitted
import EliotSearch.Library.Crash
import EliotSearch.Roots.ControlFile
import EliotSearch.Roots.PlainRoot
import EliotSearch.Roots.Recovery
import EliotSearch.Query.Scanner
import EliotSearch.Session.Reassembly
import EliotSearch.Query.Fitting
import EliotSearch.Query.VerifiedQuery
import EliotSearch.Control.Admissions
import EliotSearch.Corpus.Readiness
import EliotSearch.Control.Cleanup
import EliotSearch.Control.SavedPages
import EliotSearch.Corpus.Batches
import EliotSearch.Corpus.Canary
import EliotSearch.Corpus.Splitting
import EliotSearch.Corpus.Hydration
import EliotSearch.Corpus.Visiting
import EliotSearch.Roots.Changes
import EliotSearch.Roots.Removals
import EliotSearch.Retention.Publication
import EliotSearch.Retention.StoredObjects
import EliotSearch.Retention.Scanning
import EliotSearch.Retention.Retaining
import EliotSearch.Retention.Indexing
import EliotSearch.Corpus.Collections
