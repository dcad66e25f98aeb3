import EliotSearch.Session.Frames

/-!
# The texts of session frames

The compact JSON that a frame or a reply is written as, given the texts of its
payload, and the bound on a reply that carries none.
-/

namespace EliotSearch.Session

open EliotSearch.Library
open EliotSearch.Library.Json
open EliotSearch.Library.Words

namespace Texts

/-- One member of an object. -/
def member (name : String) (text : Bytes) : Bytes := Format.label name ++ text

def separated : List Bytes → Bytes
  | [] => []
  | [text] => text
  | text :: texts => text ++ ascii "," ++ separated texts

def object (members : List Bytes) : Bytes := ascii "\x7b" ++ separated members ++ ascii "\x7d"

def array (values : List Bytes) : Bytes := ascii "[" ++ separated values ++ ascii "]"

def word8 (value : UInt8) : Bytes := Format.u8.print value

def word64 (value : UInt64) : Bytes := Format.u64.print value

def nullable {α : Type} (text : α → Bytes) (value : Option α) : Bytes :=
  value.elim (ascii "null") text

/-! ## Frames -/

def frame {Query : Type} (query : Query → Bytes) : SessionClientFrame Query → Bytes
  | .openWindow requestId remainingMs original pageSize ttlMs =>
      object [member "type" (Format.quoted "open"), member "request_id" (word64 requestId),
        member "remaining_ms" (word64 remainingMs), member "query" (query original),
        member "page_size" (word8 pageSize), member "ttl_ms" (word64 ttlMs)]
  | .continuePage requestId remainingMs windowId pageSize =>
      object [member "type" (Format.quoted "continue"), member "request_id" (word64 requestId),
        member "remaining_ms" (word64 remainingMs), member "window_id" (word64 windowId),
        member "page_size" (word8 pageSize)]
  | .expand requestId remainingMs windowId itemIndex beforeBytes afterBytes =>
      object [member "type" (Format.quoted "expand"), member "request_id" (word64 requestId),
        member "remaining_ms" (word64 remainingMs), member "window_id" (word64 windowId),
        member "item_index" (word8 itemIndex), member "before_bytes" (word64 beforeBytes),
        member "after_bytes" (word64 afterBytes)]
  | .cancel requestId =>
      object [member "type" (Format.quoted "cancel"), member "request_id" (word64 requestId)]
  | .close requestId =>
      object [member "type" (Format.quoted "close"), member "request_id" (word64 requestId)]

/-! ## Replies -/

def stopReason : StopReason → Bytes
  | .complete => Format.quoted "complete"
  | .outputLimit => Format.quoted "output_limit"

def summary (summary : WindowSummary) : Bytes :=
  object [member "generation" (word64 summary.generation),
    member "retained_items" (word8 summary.retainedItems),
    member "found_matches" (nullable word64 summary.foundMatches),
    member "scan_complete" (nullable Format.bool.print summary.scanComplete),
    member "complete_negative" (nullable Format.bool.print summary.completeNegative),
    member "result_stop" (stopReason summary.resultStop)]

def entry {Item : Type} (item : Item → Bytes) (entry : WindowEntry Item) : Bytes :=
  object [member "item_index" (word8 entry.itemIndex), member "item" (item entry.item)]

def page {Item : Type} (item : Item → Bytes) (page : WindowPage Item) : Bytes :=
  object [member "window_id" (word64 page.windowId), member "summary" (summary page.summary),
    member "start_index" (word8 page.startIndex), member "next_index" (word8 page.nextIndex),
    member "items" (array (page.items.map (entry item))),
    member "has_more" (Format.bool.print page.hasMore),
    member "page_stop" (stopReason page.pageStop)]

def outcome {Item Expansion : Type} (item : Item → Bytes) (expansion : Expansion → Bytes) :
    SessionOutcome Item Expansion → Bytes
  | .page found => object [member "status" (Format.quoted "page"), member "page" (page item found)]
  | .expanded found =>
      object [member "status" (Format.quoted "expanded"), member "expansion" (expansion found)]
  | .closed => object [member "status" (Format.quoted "closed")]
  | .expired => object [member "status" (Format.quoted "expired")]
  | .cancelled => object [member "status" (Format.quoted "cancelled")]
  | .failed code =>
      object [member "status" (Format.quoted "failed"),
        member "code" (ascii "\"" ++ code.text ++ ascii "\"")]

def reply {Item Expansion : Type} (item : Item → Bytes) (expansion : Expansion → Bytes)
    (reply : SessionReply Item Expansion) : Bytes :=
  object [member "request_id" (word64 reply.requestId),
    member "outcome" (outcome item expansion reply.outcome)]

/-! ## Lengths -/

theorem object_length (members : List Bytes) :
    (object members).length = (separated members).length + 2 := by
  have hopen : (ascii "\x7b").length = 1 := rfl
  have hclose : (ascii "\x7d").length = 1 := rfl
  rw [object, List.length_append, List.length_append, hopen, hclose]
  omega

theorem separated_pair_length (first second : Bytes) :
    (separated [first, second]).length = first.length + second.length + 1 := by
  have hcomma : (ascii ",").length = 1 := rfl
  have htext : separated [first, second] = first ++ ascii "," ++ second := rfl
  rw [htext, List.length_append, List.length_append, hcomma]
  omega

theorem member_length (name : String) (text : Bytes) :
    (member name text).length = (Format.label name).length + text.length :=
  List.length_append

/-- A reply without payload is short. -/
theorem reply_bare_length {Item Expansion : Type} (item : Item → Bytes)
    (expansion : Expansion → Bytes) {answer : SessionReply Item Expansion}
    (hbare : answer.outcome.isBare = true) : (reply item expansion answer).length ≤ 256 := by
  have hid : (word64 answer.requestId).length ≤ 20 := Format.u64.print_length_le _
  have hidLabel : (Format.label "request_id").length = 13 := rfl
  have houtcomeLabel : (Format.label "outcome").length = 10 := rfl
  have houtcome : (outcome item expansion answer.outcome).length ≤ 128 := by
    cases hresult : answer.outcome with
    | page found => rw [hresult] at hbare; cases hbare
    | expanded found => rw [hresult] at hbare; cases hbare
    | closed => exact of_decide_eq_true rfl
    | expired => exact of_decide_eq_true rfl
    | cancelled => exact of_decide_eq_true rfl
    | failed code =>
        have hcode := code.valid.2.1
        have hstatus : (Format.label "status").length + (Format.quoted "failed").length = 17 :=
          rfl
        have hcodeLabel : (Format.label "code").length = 7 := rfl
        have hquote : (ascii "\"").length = 1 := rfl
        rw [outcome, object_length, separated_pair_length, member_length, member_length, hstatus,
          hcodeLabel, List.length_append, List.length_append, hquote]
        omega
  rw [reply, object_length, separated_pair_length, member_length, member_length, hidLabel,
    houtcomeLabel]
  omega

end Texts

/-- A wire whose payloads are written as fixed texts and whose parser knows the
given frames. -/
def Wire.sample (frames : List (SessionClientFrame Unit)) (query item expansion : Bytes) :
    Wire where
  Query := Unit
  Item := Unit
  Expansion := Unit
  validateQuery _ := .ok ()
  validateItem _ _ := .ok ()
  searchRank _ := none
  validateExpansion _ := .ok ()
  parseFrame bytes := frames.find? fun message => Texts.frame (fun _ => query) message == bytes
  printReply := Texts.reply (fun _ => item) fun _ => expansion
  printBare answer hbare := by
    have hlength := Texts.reply_bare_length (fun _ => item) (fun _ => expansion) hbare
    simp only [framePrefixBytes, maxFrameBytes]
    omega

namespace Sample

/-- A literal query over every source. -/
def query : Bytes :=
  Texts.object [Texts.member "mode" (Format.quoted "raw"),
    Texts.member "request" (Texts.object [Texts.member "literal" (Format.quoted "x"),
      Texts.member "source_ids" (ascii "null"), Texts.member "limit" (Texts.word8 8)])]

/-- A wire on which the client sends the given frames and no payload is sent. -/
def wireOf (frames : List (SessionClientFrame Unit)) : Wire := Wire.sample frames query [] []

instance (frames : List (SessionClientFrame Unit)) : DecidableEq (wireOf frames).Query :=
  inferInstanceAs (DecidableEq Unit)

/-- The bytes of a client frame. -/
def bytes (message : SessionClientFrame Unit) : Bytes :=
  let text := Texts.frame (fun _ => query) message
  le32 (UInt32.ofNat text.length) ++ text

end Sample

end EliotSearch.Session
