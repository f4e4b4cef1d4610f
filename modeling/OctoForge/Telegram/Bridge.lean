import OctoForge.Agent.Loop
import Mathlib.Data.List.DropRight

/-!
# Drafts of the Telegram bridge

The bridge keeps one draft for each exchange.  Text deltas grow its buffer, what
the agent does goes to the status line above the text, and a terminal ends the
draft.  The visible message is composed anew whenever it is written, and cut into
chunks where it is longer than a message may be.

Texts are lists of characters here.  What the reply threading and the typing
indicator need is left out: neither has a part in the text.
-/

namespace OctoForge
namespace Telegram

open Dialog (ExchangeId)
open Conversation (TaskId TaskStatus)

abbrev Text := List Char

/-- What a subscriber of a runner is sent: the events of the loop, and two markers
of the actor. -/
inductive Payload where
  | loop (event : Agent.LoopEvent)
  | processStarted (processId : TaskId) (title : String) (sourceClientMessageId : Option String)
  | processCompleted (processId : TaskId) (title : String) (status : TaskStatus)
  deriving DecidableEq, Repr

/-! ## The words -/

def toolLineTemplate (name : String) : Text := "⚙️ ".toList ++ name.toList

def toolFailLineTemplate (name error : String) : Text :=
  "⚠️ ".toList ++ name.toList ++ ": ".toList ++ error.toList

def cancelledLine : Text := "🛑 Отменено".toList

def failedLineTemplate (error : String) : Text := "❌ Ошибка: ".toList ++ error.toList

/-- The format `.0f`, which rounds a half to the even neighbour. -/
def formatWhole (q : Rat) : Text :=
  let below := q.floor
  let rounded :=
    if q - below < 1 / 2 then below
    else if 1 / 2 < q - below then below + 1
    else if below % 2 = 0 then below else below + 1
  (toString rounded).toList

def retryLineTemplate (reason : String) (attempt : Nat) (delay : Rat) : Text :=
  "🔁 Провайдер недоступен (".toList ++ reason.toList ++ "), повтор ".toList ++
    (toString attempt).toList ++ " через ".toList ++ formatWhole delay ++ " сек".toList

def thinkingLabel : Text := "💭 думаю".toList

/-- `TOOL_GROUPS`. -/
def toolGroups : List (String × String) :=
  [("recall", "🧠 вспоминаю"), ("memory_store", "🧠 запоминаю"), ("memory_delete", "🧠 забываю"),
    ("history_search", "💬 читаю историю"), ("web_search", "🔎 ищу"),
    ("http_request", "🌐 запрашиваю"), ("external_call", "🔌 вызываю"),
    ("endpoint_get", "🔌 вызываю"), ("image_look", "🖼 смотрю"), ("cron_pause", "⏰ планирую"),
    ("cron_resume", "⏰ планирую"), ("data_put", "📊 записываю"), ("data_query", "📊 выбираю"),
    ("data_forget", "📊 стираю"), ("instruction_save", "📚 сохраняю"),
    ("instruction_delete", "📚 удаляю"), ("task_create", "🗂 запускаю"),
    ("task_delete", "🗂 отменяю"), ("task_list", "🗂 сверяюсь"), ("ask_user", "❓ спрашиваю")]

/-- `_tool_group`. -/
def toolGroup (name : String) : Text :=
  match toolGroups.lookup name with
  | some label => label.toList
  | none => toolLineTemplate name

/-- `_notice_line`. -/
def noticeLine : Agent.LoopEvent → Option Text
  | .toolCallFailed call error => some (toolFailLineTemplate call.name error)
  | .retryScheduled attempt delaySeconds reason =>
      some (retryLineTemplate reason attempt delaySeconds)
  | _ => none

def statusSeparator : Text := "  ".toList

def maxPlainDots : Nat := 3

/-- `_progress_dots`. -/
def progressDots (count : Nat) : Text :=
  if count ≤ maxPlainDots then List.replicate count '·'
  else "··".toList ++ (toString count).toList

/-! ## Drafts -/

/-- `_StatusEntry`. -/
structure StatusEntry where
  label : Text
  count : Nat := 1
  counted : Bool := true
  deriving DecidableEq, Repr

/-- `_Draft`. -/
structure Draft where
  messageId : Option Nat := none
  buffer : Text := []
  deliveredText : Text := []
  sealedChunks : Nat := 0
  pendingSince : Option Nat := none
  flushTimer : Option Nat := none
  /-- The newest entry first. -/
  status : List StatusEntry := []
  deriving DecidableEq, Repr

/-- `rstrip("\n")`. -/
def rstripNewlines (text : Text) : Text := text.rdropWhile (· = '\n')

/-- `strip("\n")`. -/
def stripNewlines (text : Text) : Text := rstripNewlines (text.dropWhile (· = '\n'))

def StatusEntry.render (entry : StatusEntry) : Text :=
  if entry.counted then entry.label ++ [' '] ++ progressDots entry.count else entry.label

/-- The block of the status line. -/
def statusBlock (status : List StatusEntry) : List Text :=
  if status = [] then []
  else ["```\n".toList ++ statusSeparator.intercalate (status.map StatusEntry.render) ++
    "\n```".toList]

namespace Draft

/-- `_count_status`. -/
def countStatus (label : Text) (d : Draft) : Draft :=
  match d.status with
  | head :: rest =>
      if head.counted ∧ head.label = label then
        { d with status := { head with count := head.count + 1 } :: rest }
      else { d with status := { label } :: head :: rest }
  | [] => { d with status := [{ label }] }

def notice (line : Text) (d : Draft) : Draft :=
  { d with status := { label := line, counted := false } :: d.status }

/-- `_append_line`. -/
def appendLine (line : Text) (d : Draft) : Draft :=
  let buffer := if d.buffer ≠ [] ∧ d.buffer.getLast? ≠ some '\n' then d.buffer ++ ['\n'] else d.buffer
  { d with buffer := buffer ++ line ++ ['\n'] }

/-- `_compose`. -/
def compose (d : Draft) : Text :=
  let text := rstripNewlines d.buffer
  ['\n'].intercalate (statusBlock d.status ++ if text = [] then [] else [text])

end Draft

/-- How the bridge goes on once the draft has taken the event. -/
inductive Sequel where
  | nothing
  | flushThrottled
  | flushTerminal
  deriving DecidableEq, Repr

/-- `_render` and the first half of `_render_terminal`: what an event makes of the
draft. -/
def render (d : Draft) : Payload → Draft × Sequel
  | .processStarted .. | .processCompleted .. => (d, .nothing)
  | .loop .reasoningDelta => (d.countStatus thinkingLabel, .flushThrottled)
  | .loop (.textDelta text) => ({ d with buffer := d.buffer ++ text.toList }, .flushThrottled)
  | .loop (.finished ..) => (d, .flushTerminal)
  | .loop .cancelled => (d.appendLine cancelledLine, .flushTerminal)
  | .loop (.failed error) => (d.appendLine (failedLineTemplate error), .flushTerminal)
  | .loop (.toolCallRequested call) => (d.countStatus (toolGroup call.name), .flushThrottled)
  | .loop event =>
      match noticeLine event with
      | some line => (d.notice line, .flushThrottled)
      | none => (d, .nothing)

/-! ## Chunks -/

def maxRichMessageLength : Nat := 32768

/-- Where `splitlines` ends a line. -/
def isLineBreak (c : Char) : Bool :=
  c ∈ ['\n', '\r', '\x0b', '\x0c', '\x1c', '\x1d', '\x1e', '\u0085', '\u2028', '\u2029']

/-- `splitlines(keepends=True)`. -/
def splitLines : Text → List Text
  | [] => []
  | '\r' :: '\n' :: rest => ['\r', '\n'] :: splitLines rest
  | c :: rest =>
      if isLineBreak c then [c] :: splitLines rest
      else
        match splitLines rest with
        | [] => [[c]]
        | line :: lines => (c :: line) :: lines

/-- `chunks` and `current`. -/
structure Splitting where
  chunks : List Text := []
  current : Text := []
  deriving DecidableEq, Repr

namespace Splitting

def cut (sp : Splitting) : Splitting :=
  if sp.current = [] then sp else { chunks := sp.chunks ++ [sp.current], current := [] }

/-- A single line past the limit is cut hard; what is left of it fits.  Each round
takes `limit` characters off, so the length of the line bounds the rounds. -/
def cutHard (limit : Nat) : Nat → Splitting → Text → Splitting × Text
  | 0, sp, rest => (sp, rest)
  | rounds + 1, sp, rest =>
      if limit < rest.length then
        let sp := sp.cut
        cutHard limit rounds { sp with chunks := sp.chunks ++ [rest.take limit] } (rest.drop limit)
      else (sp, rest)

/-- What fits goes to the chunk that has been begun. -/
def join (limit : Nat) (sp : Splitting) (rest : Text) : Splitting :=
  if limit < sp.current.length + rest.length then
    { chunks := sp.chunks ++ [sp.current], current := rest }
  else { sp with current := sp.current ++ rest }

/-- The body of the loop over the lines. -/
def addLine (limit : Nat) (sp : Splitting) (line : Text) : Splitting :=
  let (sp, rest) := cutHard limit line.length sp line
  sp.join limit rest

end Splitting

/-- The chunks before they are trimmed. -/
def rawChunks (limit : Nat) (text : Text) : List Text :=
  ((splitLines text).foldl (Splitting.addLine limit) {}).cut.chunks

/-- `_split_markdown`. -/
def splitMarkdown (limit : Nat) (text : Text) : List Text :=
  if text.length ≤ limit then [text]
  else
    match ((rawChunks limit text).map stripNewlines).filter (· ≠ []) with
    | [] => [text.take limit]
    | trimmed => trimmed

end Telegram
end OctoForge
