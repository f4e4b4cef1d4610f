import OctoForge.Coop.Pool

/-!
# The message log of a dialog

The rows of one dialog, written by any number of sessions at once.  A statement of
the store sees what has been committed and what its own session has written.  An
INSERT first evaluates its seq and then enters the unique indexes: it waits there
for a session that has not ended and has entered the same value, and it fails when
the value is taken.  On PostgreSQL a failed statement aborts the transaction of the
session, on SQLite the transaction stays usable.

A call of the repository runs inside a unit of work or on a session of its own.  What
the calls of a unit are may depend on how the earlier ones ended, so a unit is a
tree.  The calls of other repositories only matter through what they write; rows of
other dialogs are among that.

`call` in a row and `returned` in the store are read by nothing: the call that wrote
the row, and the calls that returned and whose session was committed.
-/

namespace OctoForge
namespace Messages

open Coop

variable {Message : Type}

/-- The sessions are numbered, and so are the calls made in each. -/
structure CallId where
  session : Nat
  index : Nat
  deriving DecidableEq, Repr

structure Row (Message : Type) where
  seq : Nat
  message : Message
  clientMessageId : Option String := none
  call : CallId
  deriving DecidableEq, Repr

/-- An INSERT, before its seq has been evaluated. -/
structure Insert (Message : Type) where
  message : Message
  clientMessageId : Option String := none

inductive Dialect where
  | sqlite
  | postgresql
  deriving DecidableEq, Repr

inductive StoreError where
  /-- `IntegrityError`. -/
  | integrity
  /-- A statement in a transaction that has been aborted. -/
  | aborted
  /-- What other repositories raise. -/
  | notFound
  /-- `AssertionError`. -/
  | unreachable
  deriving DecidableEq, Repr

structure Session (Message : Type) where
  owner : Nat
  isOpen : Bool := true
  /-- `info["uow_has_writes"]`. -/
  wrote : Bool := false
  aborted : Bool := false
  rows : List (Row Message) := []
  writes : List String := []
  deriving DecidableEq, Repr

/-- What a call contributes when it has returned: messages to the log, or a write of
another repository. -/
inductive Result (Message : Type) where
  | appended (call : CallId) (messages : List Message)
  | wrote (write : String)
  deriving DecidableEq, Repr

structure Store (Message : Type) where
  rows : List (Row Message) := []
  written : List String := []
  sessions : List (Session Message) := []
  returned : List (Result Message) := []

def MESSAGE_SEQ_RETRY_ATTEMPTS : Nat := 5

/-! ## The store -/

def Row.clashes (a b : Row Message) : Bool :=
  a.seq = b.seq || (a.clientMessageId.isSome && a.clientMessageId = b.clientMessageId)

namespace Store

def session (tx : Nat) (s : Store Message) : Session Message :=
  s.sessions.getD tx { owner := 0, isOpen := false }

def setSession (tx : Nat) (x : Session Message) (s : Store Message) : Store Message :=
  { s with sessions := s.sessions.set tx x }

/-- The rows a statement of the session sees. -/
def visible (tx : Nat) (s : Store Message) : List (Row Message) :=
  s.rows ++ (s.session tx).rows

/-- `coalesce(max(seq), 0) + 1`. -/
def nextSeq (tx : Nat) (s : Store Message) : Nat :=
  ((s.visible tx).map (·.seq)).foldr max 0 + 1

/-- No other session has entered a value of the row and not ended. -/
def mayEnter (tx : Nat) (row : Row Message) (s : Store Message) : Bool :=
  s.sessions.zipIdx.all fun (x, other) => other = tx || x.rows.all fun held => !held.clashes row

/-- The row enters the table. -/
def enter (dialect : Dialect) (tx : Nat) (row : Row Message) (s : Store Message) :
    Except StoreError Unit × Store Message :=
  let x := s.session tx
  if x.aborted then (.error .aborted, s)
  else if (s.visible tx).any fun held => held.clashes row then
    (.error .integrity, s.setSession tx { x with aborted := dialect = .postgresql })
  else (.ok (), s.setSession tx { x with rows := x.rows ++ [row] })

/-- A write of another repository. -/
def write (tx : Nat) (w : String) (s : Store Message) : Except StoreError Unit × Store Message :=
  let x := s.session tx
  if x.aborted then (.error .aborted, s)
  else (.ok (), s.setSession tx { x with writes := x.writes ++ [w], wrote := true })

/-- A session begins. -/
def begin (owner : Nat) (s : Store Message) : Nat × Store Message :=
  (s.sessions.length, { s with sessions := s.sessions ++ [{ owner }] })

/-- `session.rollback()`. -/
def rollback (tx : Nat) (s : Store Message) : Store Message :=
  s.setSession tx { s.session tx with aborted := false, rows := [], writes := [] }

/-- A session ends without a commit. -/
def close (tx : Nat) (s : Store Message) : Store Message :=
  s.setSession tx { s.session tx with isOpen := false, rows := [], writes := [] }

/-- `session.commit()`, and the session ends.  The commit of an aborted transaction is
a rollback. -/
def commit (tx : Nat) (results : List (Result Message)) (s : Store Message) : Store Message :=
  let x := s.session tx
  if x.aborted then s.close tx
  else
    { s with
      rows := s.rows ++ x.rows
      written := s.written ++ x.writes
      returned := s.returned ++ results }.close tx

end Store

/-! ## The repository -/

abbrev Work (Message α : Type) := Co (Store Message) StoreError α

variable (dialect : Dialect)

/-- `session.execute(insert(MessageRow))`. -/
def execute (tx index : Nat) (statement : Insert Message) : Work Message Unit := do
  let seq ← Co.read (Store.nextSeq tx)
  let row : Row Message :=
    { seq, message := statement.message, clientMessageId := statement.clientMessageId,
      call := { session := tx, index } }
  Co.attemptWhen (Store.mayEnter tx row) (Store.enter dialect tx row)

def executeAll (tx index : Nat) (statements : List (Insert Message)) : Work Message Unit :=
  Co.forEach statements (execute dialect tx index)

/-- `session.begin_nested()`: back to the savepoint when the body fails. -/
def beginNested (tx : Nat) (body : Work Message Unit) : Work Message Unit := do
  let savepoint ← Co.read (Store.session tx)
  Co.tryCatch body fun error => do
    Co.modify (Store.setSession tx savepoint)
    Co.throw error

/-- `_insert_attempt` without a unit of work, on a session of its own. -/
def insertAlone (me : Nat) (statements : List (Insert Message)) : Work Message Unit := do
  let tx ← Co.atomic (Store.begin me)
  Co.tryCatch (executeAll dialect tx 0 statements) fun error => do
    Co.modify (Store.close tx)
    Co.throw error
  Co.modify (Store.commit tx
    [.appended { session := tx, index := 0 } (statements.map (·.message))])

/-- The body of `_insert_attempt` in a unit of work. -/
def insertUnder (tx index : Nat) (statements : List (Insert Message)) : Work Message Unit := do
  if dialect ≠ .sqlite then
    let wrote ← Co.read fun s : Store Message => (s.session tx).wrote
    if wrote then beginNested tx (executeAll dialect tx index statements)
    else
      Co.tryCatch (executeAll dialect tx index statements) fun error => do
        if error = .integrity then Co.modify (Store.rollback tx)
        Co.throw error
  else executeAll dialect tx index statements

/-- `_insert_attempt` in a unit of work: the session is told of the writes when its body
has returned. -/
def insertWithin (tx index : Nat) (statements : List (Insert Message)) : Work Message Unit := do
  insertUnder dialect tx index statements
  Co.modify fun s : Store Message => s.setSession tx { s.session tx with wrote := true }

/-- The loop of `append` and `append_pair`. -/
def retry (attempt : Work Message Unit) (after : Work Message Unit) : Nat → Work Message Unit
  | 0 => after
  | left + 1 =>
      Co.tryCatch attempt fun error =>
        if error = .integrity ∧ left ≠ 0 then retry attempt after left else Co.throw error

/-- The session of a call: that of its unit of work, or a new one of the coroutine's. -/
inductive Place where
  | alone (me : Nat)
  | within (tx index : Nat)

/-- `_insert_attempt`. -/
def insertAttempt (place : Place) (statements : List (Insert Message)) : Work Message Unit :=
  match place with
  | .alone me => insertAlone dialect me statements
  | .within tx index => insertWithin dialect tx index statements

def append (place : Place) (message : Message) (clientMessageId : Option String) :
    Work Message Unit :=
  retry (insertAttempt dialect place [{ message, clientMessageId }]) (Co.throw .unreachable)
    MESSAGE_SEQ_RETRY_ATTEMPTS

def appendPair (place : Place) (first second : Message) : Work Message Unit :=
  retry (insertAttempt dialect place [{ message := first }, { message := second }]) (pure ())
    MESSAGE_SEQ_RETRY_ATTEMPTS

/-! ## Units of work -/

/-- A call made in a unit of work. -/
inductive Op (Message : Type) where
  | append (message : Message) (clientMessageId : Option String)
  | appendPair (first second : Message)
  /-- Another repository writes. -/
  | write (w : String)
  /-- Another repository raises, having written nothing. -/
  | miss

def Op.body (tx index : Nat) : Op Message → Work Message Unit
  | .append message key => Messages.append dialect (.within tx index) message key
  | .appendPair first second => Messages.appendPair dialect (.within tx index) first second
  | .write w => Co.attempt (Store.write tx w)
  | .miss => Co.throw .notFound

def Op.result (call : CallId) : Op Message → List (Result Message)
  | .append message _ => [.appended call [message]]
  | .appendPair first second => [.appended call [first, second]]
  | .write w => [.wrote w]
  | .miss => []

/-- The block of a unit of work: its calls, each chosen by how the one before ended. -/
inductive Script (Message : Type) where
  | finish
  | raise (error : StoreError)
  | call (op : Op Message) (next : Except StoreError Unit → Script Message)

/-- Run the block; return the results of the calls that returned. -/
def Script.run (tx : Nat) :
    Nat → List (Result Message) → Script Message → Work Message (List (Result Message))
  | _, results, .finish => pure results
  | _, _, .raise error => Co.throw error
  | index, results, .call op next => do
      let outcome ← Co.tryCatch
        (do op.body dialect tx index; pure (.ok ()) : Work Message (Except StoreError Unit))
        fun error => pure (.error error)
      match outcome with
      | .ok () =>
          (next (.ok ())).run tx (index + 1) (results ++ op.result { session := tx, index })
      | .error error => (next (.error error)).run tx (index + 1) results

/-- `async with self._uow()`. -/
def unitOfWork (me : Nat) (script : Script Message) : Work Message Unit := do
  let tx ← Co.atomic (Store.begin me)
  let results ← Co.tryCatch (script.run dialect tx 0 []) fun error => do
    Co.modify (Store.close tx)
    Co.throw error
  Co.modify (Store.commit tx results)

inductive Call (Message : Type) where
  | append (message : Message) (clientMessageId : Option String)
  | appendPair (first second : Message)
  | unitOfWork (script : Script Message)

def callBody (me : Nat) : Call Message → Work Message Unit
  | .append message key => append dialect (.alone me) message key
  | .appendPair first second => appendPair dialect (.alone me) first second
  | .unitOfWork script => unitOfWork dialect me script

/-- The writers of one dialog. -/
def writers (Message : Type) (dialect : Dialect) : System (Store Message) StoreError where
  Call := Call Message
  body call me := callBody dialect me call
  Event := Empty
  event := nofun
  crash _ := none

end Messages
end OctoForge
