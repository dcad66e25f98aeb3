import EliotSearch.Library.Json
import EliotSearch.Library.Results

/-!
# Session frames

The operations a client sends, the replies a session gives, the checks made on
both and their length-prefixed frames.  The payloads of a session (queries,
result items, expansions) are carried and not inspected here: their checks and
the JSON texts of the frames are fields of a `Wire`.
-/

namespace EliotSearch.Session

open EliotSearch.Library
open EliotSearch.Library.Json
open EliotSearch.Library.Results
open EliotSearch.Library.Words

def maxFrameBytes : Nat := 8 * 1024 * 1024

def framePrefixBytes : Nat := 4

def maxQueryBytes : Nat := 4096

def maxItems : Nat := 64

def maxRemainingMs : UInt64 := 120000

def maxClientFrameBytes : Nat := 6 * maxQueryBytes + 4096

def maxWindowTtlMs : UInt64 := 120000

def sessionWindowId : UInt64 := 1

def maxExpansionBytes : UInt64 := 65536

/-- Content-free failures for the selected local wire. -/
inductive ProtocolError where
  | invalidFrame
  | frameTooLarge
  | invalidMessage
  | invalidCorrelation
  | resourceExhausted
  | serialization
  deriving DecidableEq, Repr

/-- Stable content-free diagnostic. -/
def ProtocolError.code : ProtocolError → Bytes
  | .invalidFrame => ascii "QUERY_FRAME_INVALID"
  | .frameTooLarge => ascii "QUERY_FRAME_TOO_LARGE"
  | .invalidMessage => ascii "QUERY_MESSAGE_INVALID"
  | .invalidCorrelation => ascii "QUERY_RESPONSE_MISMATCH"
  | .resourceExhausted => ascii "QUERY_ALLOCATION_FAILED"
  | .serialization => ascii "QUERY_SERIALIZATION_FAILED"

/-! ## Client frames -/

/-- One session data/control frame; request identities are scoped to this owned
child. -/
inductive SessionClientFrame (Query : Type) where
  | openWindow (requestId remainingMs : UInt64) (query : Query) (pageSize : UInt8)
      (ttlMs : UInt64)
  | continuePage (requestId remainingMs windowId : UInt64) (pageSize : UInt8)
  | expand (requestId remainingMs windowId : UInt64) (itemIndex : UInt8)
      (beforeBytes afterBytes : UInt64)
  | cancel (requestId : UInt64)
  | close (requestId : UInt64)
  deriving DecidableEq

namespace SessionClientFrame

variable {Query : Type}

/-- Correlation identity, with Cancel referring to the active request. -/
def requestId : SessionClientFrame Query → UInt64
  | openWindow requestId .. => requestId
  | continuePage requestId .. => requestId
  | expand requestId .. => requestId
  | cancel requestId => requestId
  | close requestId => requestId

def isCancel : SessionClientFrame Query → Bool
  | cancel _ => true
  | _ => false

def isClose : SessionClientFrame Query → Bool
  | close _ => true
  | _ => false

def isOpen : SessionClientFrame Query → Bool
  | openWindow .. => true
  | _ => false

/-- Whether it asks for data and is not a control. -/
def isData (message : SessionClientFrame Query) : Bool := !message.isCancel && !message.isClose

end SessionClientFrame

def validatePageSize (size : UInt8) : Except ProtocolError Unit :=
  refuse (size = 0 ∨ size.toNat > maxItems) .invalidMessage

def validateWindowId (id : UInt64) : Except ProtocolError Unit :=
  refuse (id ≠ sessionWindowId) .invalidMessage

def validateRemaining (ms : UInt64) : Except ProtocolError Unit :=
  refuse (ms = 0 ∨ ms > maxRemainingMs) .invalidMessage

/-- Checks closed operation bounds. -/
def SessionClientFrame.validate {Query : Type}
    (validateQuery : Query → Except ProtocolError Unit) (message : SessionClientFrame Query) :
    Except ProtocolError Unit := do
  refuse (message.requestId = 0) .invalidCorrelation
  match message with
  | .openWindow _ remainingMs query pageSize ttlMs => do
      validateQuery query
      validatePageSize pageSize
      refuse (ttlMs = 0 ∨ ttlMs > maxWindowTtlMs) .invalidMessage
      validateRemaining remainingMs
  | .continuePage _ remainingMs windowId pageSize => do
      validateWindowId windowId
      validatePageSize pageSize
      validateRemaining remainingMs
  | .expand _ remainingMs windowId itemIndex beforeBytes afterBytes => do
      validateWindowId windowId
      refuse (itemIndex.toNat ≥ maxItems ∨
        beforeBytes.toNat + afterBytes.toNat > maxExpansionBytes.toNat) .invalidMessage
      validateRemaining remainingMs
  | .cancel _ => return ()
  | .close _ => return ()

/-! ## Replies -/

/-- A validated content-free failure code: 1..=64 uppercase ASCII letters,
digits and underscores. -/
structure FailureCode where
  text : Bytes
  valid : text ≠ [] ∧ text.length ≤ 64 ∧
    ∀ byte ∈ text, (65 ≤ byte ∧ byte ≤ 90) ∨ (48 ≤ byte ∧ byte ≤ 57) ∨ byte = 95
  deriving DecidableEq

def FailureCode.new (text : Bytes) : Except ProtocolError FailureCode :=
  if valid : text ≠ [] ∧ text.length ≤ 64 ∧
      ∀ byte ∈ text, (65 ≤ byte ∧ byte ≤ 90) ∨ (48 ≤ byte ∧ byte ≤ 57) ∨ byte = 95 then
    .ok ⟨text, valid⟩
  else .error .invalidMessage

/-- Why a page or a query stopped. -/
inductive StopReason where
  | complete
  | outputLimit
  deriving DecidableEq, Repr

/-- A stable index into the original bounded vector. -/
structure WindowEntry (Item : Type) where
  itemIndex : UInt8
  item : Item
  deriving DecidableEq

/-- Original query facts retained independently from page size. -/
structure WindowSummary where
  generation : UInt64
  retainedItems : UInt8
  foundMatches : Option UInt64
  scanComplete : Option Bool
  completeNegative : Option Bool
  resultStop : StopReason
  deriving DecidableEq

/-- One whole-item page prepared against the current committed cursor. -/
structure WindowPage (Item : Type) where
  windowId : UInt64
  summary : WindowSummary
  startIndex : UInt8
  nextIndex : UInt8
  items : List (WindowEntry Item)
  hasMore : Bool
  pageStop : StopReason
  deriving DecidableEq

/-- A whole session operation outcome. -/
inductive SessionOutcome (Item Expansion : Type) where
  | page (page : WindowPage Item)
  | expanded (expansion : Expansion)
  | closed
  | expired
  | cancelled
  | failed (code : FailureCode)
  deriving DecidableEq

def SessionOutcome.isExpired {Item Expansion : Type} : SessionOutcome Item Expansion → Bool
  | .expired => true
  | _ => false

/-- Whether it carries neither a page nor an expansion. -/
def SessionOutcome.isBare {Item Expansion : Type} : SessionOutcome Item Expansion → Bool
  | .page _ => false
  | .expanded _ => false
  | _ => true

/-- Whether it reports a failure before any output. -/
def SessionOutcome.isFailure {Item Expansion : Type} : SessionOutcome Item Expansion → Bool
  | .cancelled => true
  | .failed _ => true
  | _ => false

/-- One correlated session reply; expiry may be unsolicited with request identity
zero. -/
structure SessionReply (Item Expansion : Type) where
  requestId : UInt64
  outcome : SessionOutcome Item Expansion
  deriving DecidableEq

/-! ## The wire -/

/-- The payloads of a session, the checks made on them and the JSON texts of
its frames.  The text of a reply without payload fits in a frame. -/
structure Wire where
  Query : Type
  Item : Type
  Expansion : Type
  validateQuery : Query → Except ProtocolError Unit
  validateItem : UInt64 → Item → Except ProtocolError Unit
  /-- The rank of a ranked item; other items have none. -/
  searchRank : Item → Option UInt8
  validateExpansion : Expansion → Except ProtocolError Unit
  parseFrame : Bytes → Option (SessionClientFrame Query)
  printReply : SessionReply Item Expansion → Bytes
  printBare : ∀ reply : SessionReply Item Expansion, reply.outcome.isBare = true →
    framePrefixBytes + (printReply reply).length ≤ maxFrameBytes

namespace Wire

variable (wire : Wire)

abbrev Frame : Type := SessionClientFrame wire.Query

abbrev Reply : Type := SessionReply wire.Item wire.Expansion

abbrev Outcome : Type := SessionOutcome wire.Item wire.Expansion

/-- Checks one entry of a page at its position. -/
def validateEntry (page : WindowPage wire.Item) (position : Nat)
    (entry : WindowEntry wire.Item) : Except ProtocolError Unit := do
  refuse (entry.itemIndex.toNat ≠ page.startIndex.toNat + position) .invalidMessage
  wire.validateItem page.summary.generation entry.item
  refuse ((wire.searchRank entry.item).isSome ≠ page.summary.foundMatches.isNone) .invalidMessage
  refuse (∃ rank ∈ wire.searchRank entry.item, rank.toNat ≠ entry.itemIndex.toNat + 1)
    .invalidMessage

/-- Checks entries in order, the first at the given position. -/
def validateEntries (page : WindowPage wire.Item) :
    Nat → List (WindowEntry wire.Item) → Except ProtocolError Unit
  | _, [] => return ()
  | position, entry :: entries => do
      wire.validateEntry page position entry
      validateEntries page (position + 1) entries

/-- The facts about found matches agree with each other. -/
def FactsAgree (summary : WindowSummary) : Prop :=
  (summary.foundMatches.isSome = summary.scanComplete.isSome ∧
    summary.foundMatches.isSome = summary.completeNegative.isSome) ∧
    ∀ negative ∈ summary.completeNegative,
      negative = decide (summary.scanComplete = some true ∧ summary.foundMatches = some 0)

instance (summary : WindowSummary) : Decidable (FactsAgree summary) :=
  inferInstanceAs (Decidable ((_ ∧ _) ∧ _))

/-- Checks original facts, contiguous indexes and item coordinate bindings. -/
def validatePage (page : WindowPage wire.Item) : Except ProtocolError Unit := do
  validateWindowId page.windowId
  let summary := page.summary
  refuse (summary.generation = 0 ∨ summary.retainedItems.toNat > maxItems ∨
    page.startIndex > page.nextIndex ∨ page.nextIndex > summary.retainedItems ∨
    page.nextIndex.toNat - page.startIndex.toNat ≠ page.items.length ∨
    page.hasMore ≠ decide (page.nextIndex < summary.retainedItems) ∨
    (page.items = [] ∧ page.hasMore = true) ∨ ¬ FactsAgree summary) .invalidMessage
  wire.validateEntries page 0 page.items

/-- Checks correlation and complete payload bounds before exposure. -/
def validateReply (reply : wire.Reply) : Except ProtocolError Unit := do
  refuse (reply.requestId = 0 ∧ reply.outcome.isExpired = false) .invalidCorrelation
  match reply.outcome with
  | .page page => wire.validatePage page
  | .expanded expansion => wire.validateExpansion expansion
  | .closed => return ()
  | .expired => return ()
  | .cancelled => return ()
  | .failed _ => return ()

end Wire

end EliotSearch.Session
