import OctoForge.Coop.Pool
import OctoForge.Telegram.Bridge

/-!
# Flushes of a draft

One draft of the bridge with those who flush it: the forwarder, which takes the events
in, and the timers, which deliver what is pending when no event comes.  A request lands
in the chat at one moment and its answer arrives at a later one; in between the others
go on.  A request may also fail, and then it may have landed all the same.

Events of other exchanges have drafts of their own, and what else is posted to the chat
is none of ours.  A task that runs out of its `await`s has ended only after one more
step here, which adds interleavings and takes none away.

`wrote`, `flushing`, `sealedFrom`, `restored`, `finished` and `slips` are read by
nothing: they say which messages were written, and when what was written before is
relied on wrongly.
-/

namespace OctoForge
namespace Telegram

open Coop

/-- How the requests fare: answered, not carried out, or carried out with the answer
lost. -/
inductive Network where
  | answers
  | refuses
  | loses
  deriving DecidableEq, Repr

inductive FlushError where
  /-- `TelegramApiError` and `httpx.HTTPError`. -/
  | api
  /-- `CancelledError`. -/
  | cancelled
  deriving DecidableEq, Repr

/-- The task of a `_flush_after`. -/
structure Timer where
  wakeAt : Nat
  begun : Bool := false
  cancelled : Bool := false
  ended : Bool := false
  deriving DecidableEq, Repr

/-- The row of the draft store. -/
structure PersistedDraft where
  messageId : Nat
  sealedChunks : Nat
  deriving DecidableEq, Repr

inductive Slip where
  /-- A flush begins while another one waits for the chat. -/
  | overlapped
  /-- A flush begins under a status line that is not the one of the sealed chunks. -/
  | shifted
  /-- A draft restored with sealed chunks has more than one chunk. -/
  | displaced
  /-- A request landed, and whoever made it was not told. -/
  | unanswered
  deriving DecidableEq, Repr

structure Screen where
  draft : Draft := {}
  /-- The texts of the chat; a message is known by its place. -/
  messages : List Text := []
  timers : List Timer := []
  now : Nat := 0
  network : Network := .answers
  remembered : Option PersistedDraft := none
  /-- There is a draft store, and it works. -/
  storeWorks : Bool := true
  /-- A forwarder is at work. -/
  listening : Bool := false
  /-- The draft has had its terminal. -/
  popped : Bool := false
  /-- The messages the bridge has written, by their first write. -/
  wrote : List Nat := []
  /-- The coroutine whose flush is under way. -/
  flushing : Option Nat := none
  /-- The draft as it was composed when a chunk was last sealed. -/
  sealedFrom : Option Draft := none
  /-- The sealed chunks the draft was restored with. -/
  restored : Nat := 0
  /-- What a successful terminal flush composed, and the texts written by then. -/
  finished : List (Text × List Text) := []
  slips : List Slip := []
  deriving DecidableEq, Repr

/-- The draft of `_draft_of`, or that of `_restore_drafts`. -/
def Draft.restore : Option PersistedDraft → Draft
  | none => {}
  | some row => { messageId := some row.messageId, sealedChunks := row.sealedChunks }

namespace Screen

def start (messages : List Text) (remembered : Option PersistedDraft) : Screen :=
  { draft := Draft.restore remembered, messages, remembered
    restored := (Draft.restore remembered).sealedChunks }

def onDraft (f : Draft → Draft) (s : Screen) : Screen := { s with draft := f s.draft }

def onTimer (k : Nat) (f : Timer → Timer) (s : Screen) : Screen :=
  { s with timers := s.timers.modify k f }

def slip (what : Slip) (s : Screen) : Screen := { s with slips := s.slips ++ [what] }

/-- The texts of the messages the bridge has written. -/
def texts (s : Screen) : List Text := s.wrote.map fun id => s.messages.getD id []

/-! ## Requests -/

/-- `send_rich_message` in the chat. -/
def sendRichMessage (markdown : Text) (s : Screen) : Option (Nat × Screen) :=
  let id := s.messages.length
  some (id, { s with messages := s.messages ++ [markdown], wrote := s.wrote ++ [id] })

/-- `edit_message_rich` in the chat. -/
def editMessageRich (id : Nat) (markdown : Text) (s : Screen) : Option (Unit × Screen) :=
  if id < s.messages.length then
    let wrote := if id ∈ s.wrote then s.wrote else s.wrote ++ [id]
    some ((), { s with messages := s.messages.set id markdown, wrote })
  else none

/-- A request lands, or it does not. -/
def land {α : Type} (request : Screen → Option (α × Screen)) (s : Screen) :
    Except FlushError α × Screen :=
  match request s, s.network with
  | some (value, s'), .answers => (.ok value, s')
  | some (_, s'), .loses => (.error .api, s'.slip .unanswered)
  | _, _ => (.error .api, s)

end Screen

/-- Who flushes: a coroutine, and the timer it stands for unless it is the forwarder. -/
structure Flusher where
  me : Nat
  timer : Option Nat := none

namespace Screen

def isCancelled (who : Flusher) (s : Screen) : Bool :=
  who.timer.any fun k => s.timers[k]?.any fun timer => timer.cancelled

/-- The answer arrives, unless the task has been cancelled while it waited. -/
def answered (who : Flusher) (f : Draft → Draft) (s : Screen) : Except FlushError Unit × Screen :=
  if s.isCancelled who then (.error .cancelled, s.slip .unanswered) else (.ok (), s.onDraft f)

/-- The row that `_remember_draft` leaves. -/
def noted (s : Screen) : Option PersistedDraft :=
  match s.draft.messageId with
  | some id =>
      if s.storeWorks then some { messageId := id, sealedChunks := s.draft.sealedChunks }
      else s.remembered
  | none => s.remembered

/-- `_remember_draft`, and with it the send is done. -/
def remember (who : Flusher) (markdown : Text) (s : Screen) : Except FlushError Unit × Screen :=
  let s := { s with remembered := s.noted }
  if s.isCancelled who then (.error .cancelled, s)
  else (.ok (), s.onDraft fun d => { d with deliveredText := markdown })

/-! ## Flushes -/

/-- What a flush that begins now relies on wrongly. -/
def slipsNow (s : Screen) : List Slip :=
  (if s.flushing.isSome then [.overlapped] else []) ++
  (if s.sealedFrom.any fun d => statusBlock d.status ≠ statusBlock s.draft.status then [.shifted]
    else []) ++
  (if s.restored ≠ 0 ∧ 1 < (splitMarkdown maxRichMessageLength s.draft.compose).length then
    [.displaced] else [])

/-- The beginning of `_flush_draft`: the draft as it is composed, if there is anything
to flush. -/
def beginFlush (me : Nat) (s : Screen) : Option Draft × Screen :=
  if s.draft.compose = [] then (none, s)
  else (some s.draft, { s with flushing := some me, slips := s.slips ++ s.slipsNow })

def endFlush (s : Screen) : Screen := { s with flushing := none }

def finish (text : Text) (s : Screen) : Screen :=
  { s with finished := s.finished ++ [(text, s.texts)] }

/-- The flush of what was composed as `d` has succeeded. -/
def succeed (terminal : Bool) (d : Draft) (s : Screen) : Screen :=
  if terminal then (s.finish d.compose).endFlush else s.endFlush

/-- The head is sealed and the answer goes on in a fresh message. -/
def sealHead (d : Draft) (s : Screen) : Screen :=
  { s with
    draft := { s.draft with
      messageId := none, deliveredText := [], sealedChunks := s.draft.sealedChunks + 1 }
    sealedFrom := some d }

variable (editThrottle : Nat)

/-- `_flush_when_due`, up to the flush. -/
def flushWhenDue (me : Nat) (s : Screen) : Option Draft × Screen :=
  match s.draft.pendingSince with
  | none => (none, s)
  | some since =>
      if since + editThrottle ≤ s.now then
        beginFlush me (s.onDraft fun d => { d with pendingSince := none })
      else if s.draft.flushTimer.any fun k => s.timers[k]?.any fun timer => !timer.ended then
        (none, s)
      else
        (none, { s with
          draft := { s.draft with flushTimer := some s.timers.length }
          timers := s.timers ++ [{ wakeAt := since + editThrottle }] })

/-- `_flush_throttled`, up to the flush. -/
def flushThrottled (me : Nat) (s : Screen) : Option Draft × Screen :=
  flushWhenDue editThrottle me
    (s.onDraft fun d => { d with pendingSince := some (d.pendingSince.getD s.now) })

/-- `_cancel_flush_timer`. -/
def cancelFlushTimer (s : Screen) : Screen :=
  match s.draft.flushTimer with
  | none => s
  | some k =>
      (s.onTimer k fun timer => { timer with cancelled := true }).onDraft fun d =>
        { d with flushTimer := none }

end Screen

/-- How the forwarder goes on after an event. -/
inductive Next where
  | nothing
  | flush (d : Draft)
  | terminal (d : Option Draft)

namespace Screen

variable (editThrottle : Nat)

/-- `_render` and `_render_terminal`, up to the flush. -/
def take (me : Nat) (payload : Payload) (s : Screen) : Next × Screen :=
  let (d, sequel) := render s.draft payload
  let s := { s with draft := d }
  match sequel with
  | .nothing => (.nothing, s)
  | .flushThrottled =>
      match s.flushThrottled editThrottle me with
      | (some d, s) => (.flush d, s)
      | (none, s) => (.nothing, s)
  | .flushTerminal =>
      let s := (s.onDraft fun d => { d with pendingSince := none }).cancelFlushTimer
      match s.beginFlush me with
      | (some d, s) => (.terminal d, s)
      | (none, s) => (.terminal none, s.finish [])

/-- The draft is dropped and forgotten. -/
def pop (s : Screen) : Screen :=
  { s with popped := true, listening := false, remembered := if s.storeWorks then none else s.remembered }

/-- The runner stands down: the forwarder ends and the timer with it. -/
def standDown (s : Screen) : Screen := { s.cancelFlushTimer with listening := false }

/-- The timer wakes, because its time has come or because it was cancelled. -/
def wake (me k : Nat) (s : Screen) : Option Draft × Screen :=
  if s.timers[k]?.any fun timer => timer.cancelled then (none, s)
  else s.flushWhenDue editThrottle me

end Screen

/-! ## Coroutines -/

abbrev Drawing := Co Screen FlushError

/-- `_deliver`. -/
def deliver (who : Flusher) (markdown : Text) : Drawing Unit := do
  match ← Co.read fun s : Screen => s.draft.messageId with
  | none =>
      let id ← Co.attempt (Screen.land (Screen.sendRichMessage markdown))
      Co.attempt (Screen.answered who fun d => { d with messageId := some id })
      Co.attempt (Screen.remember who markdown)
  | some id =>
      Co.attempt (Screen.land (Screen.editMessageRich id markdown))
      Co.attempt (Screen.answered who fun d => { d with deliveredText := markdown })

/-- The loop of `_flush_draft`.  Each round seals a chunk, so there are no more rounds
than chunks. -/
def sealHeads (who : Flusher) (d : Draft) (chunks : List Text) : Nat → Drawing Unit
  | 0 => pure ()
  | rounds + 1 => do
      let now ← Co.read fun s : Screen => s.draft
      if now.sealedChunks < chunks.length - 1 then
        let chunk := chunks.getD now.sealedChunks []
        if chunk ≠ now.deliveredText then deliver who chunk
        Co.modify (Screen.sealHead d)
        sealHeads who d chunks rounds
      else pure ()

/-- `_flush_draft`, from the chunks on. -/
def push (who : Flusher) (d : Draft) : Drawing Unit := do
  let chunks := splitMarkdown maxRichMessageLength d.compose
  sealHeads who d chunks chunks.length
  let delivered ← Co.read fun s : Screen => s.draft.deliveredText
  if chunks.getLastD [] ≠ delivered then deliver who (chunks.getLastD [])

/-- `_flush_draft`, once it has begun. -/
def flushDraft (who : Flusher) (terminal : Bool) (d : Draft) : Drawing Unit := do
  Co.tryCatch (push who d) fun error => do
    Co.modify Screen.endFlush
    Co.throw error
  Co.modify (Screen.succeed terminal d)

/-- `_flush_terminal_with_retry`. -/
def flushTerminalWithRetry (me : Nat) (d : Draft) : Drawing Unit :=
  Co.tryCatch (flushDraft { me } true d) fun _ => do
    match ← Co.atomic (Screen.beginFlush me) with
    | some d => Co.tryCatch (flushDraft { me } true d) fun _ => pure ()
    | none => pure ()

variable (editThrottle : Nat)

/-- The loop of `_forward`, for the events of one draft. -/
def forwardAll (me : Nat) : List Payload → Drawing Unit
  | [] => Co.modify Screen.standDown
  | payload :: rest => do
      match ← Co.atomic (Screen.take editThrottle me payload) with
      | .nothing => forwardAll me rest
      | .flush d =>
          Co.tryCatch (flushDraft { me } false d) fun _ => pure ()
          forwardAll me rest
      | .terminal (some d) =>
          flushTerminalWithRetry me d
          Co.modify Screen.pop
      | .terminal none => Co.modify Screen.pop

/-- `_forward`.  There is one at a time. -/
def forward (me : Nat) (payloads : List Payload) : Drawing Unit := do
  Co.blockUntil (fun s : Screen => !s.listening && !s.popped)
    fun s => ((), { s with listening := true })
  forwardAll editThrottle me payloads

/-- `_flush_after`. -/
def flushAfter (me k : Nat) : Drawing Unit := do
  Co.blockUntil (fun s : Screen => s.timers[k]?.any fun timer => !timer.begun)
    fun s => ((), s.onTimer k fun timer => { timer with begun := true })
  let due ← Co.blockUntil
    (fun s : Screen => s.timers[k]?.any fun timer => timer.cancelled || timer.wakeAt ≤ s.now)
    (Screen.wake editThrottle me k)
  match due with
  | some d => Co.tryCatch (flushDraft { me, timer := some k } false d) fun _ => pure ()
  | none => pure ()
  Co.modify (Screen.onTimer k fun timer => { timer with ended := true })

/-! ## The system -/

inductive DraftCall where
  | forward (payloads : List Payload)
  | flushAfter (k : Nat)

inductive DraftEvent where
  | tick (elapsed : Nat)
  | network (network : Network)
  | store (works : Bool)
  /-- Somebody else posts to the chat. -/
  | post (text : Text)

def Screen.happen (s : Screen) : DraftEvent → Screen
  | .tick elapsed => { s with now := s.now + elapsed }
  | .network network => { s with network }
  | .store works => { s with storeWorks := works }
  | .post text => { s with messages := s.messages ++ [text] }

/-- One draft with its forwarders and timers. -/
def drawing : System Screen FlushError where
  Call := DraftCall
  body
    | .forward payloads, me => forward editThrottle me payloads
    | .flushAfter k, me => flushAfter editThrottle me k
  Event := DraftEvent
  event event s := some (s.happen event)
  crash _ := none

end Telegram
end OctoForge
