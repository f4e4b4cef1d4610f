import OctoForge.Coop.Machine
import OctoForge.Sequence.Recency
import OctoForge.Text

/-!
# The embedding cache

`CachingEmbeddingClient` keeps the vectors of the last few texts and a future for each text that
is being embedded.  A call of `embed` suspends in three places: while the backend computes what
nobody else computes, while it waits for the future of somebody else, and while the backend
computes a text that fell out of the cache before the call came to it.

The backend is not part of the program: what it answers, and when, is a move, and so is the
cancellation of a call.
-/

namespace OctoForge
namespace Llm

variable {V ε : Type}

/-- What a call of `embed` can raise. -/
inductive EmbedFault (ε : Type) where
  | backend (error : ε)
  | cancelled
  | valueError
  deriving DecidableEq

/-- An `asyncio.Future` of a vector. -/
inductive Settled (V ε : Type) where
  | pending
  | result (vector : V)
  | exception (fault : EmbedFault ε)
  deriving DecidableEq

/-- `set_result` and `set_exception`, unless the future is done. -/
def Settled.set (settled : Settled V ε) : Settled V ε → Settled V ε
  | .pending => settled
  | done => done

/-- A future and the text it was created for. -/
structure VectorFuture (V ε : Type) where
  text : Text
  settled : Settled V ε
  deriving DecidableEq

/-- Where a call of `embed` is.  `got` are the vectors of the first of its texts. -/
inductive EmbedPhase (V ε : Type) where
  /-- In `_compute`, at `await self._inner.embed(texts)`. -/
  | computing (futures : List (Text × Nat))
  /-- In `_resolve`, at `await pending`. -/
  | waiting (got : List V) (future : Nat) (rest : List Text)
  /-- In `_resolve`, at `await self._inner.embed((text,))`. -/
  | fetching (got : List V) (text : Text) (rest : List Text)
  | returned (vectors : List V)
  | raised (fault : EmbedFault ε)
  deriving DecidableEq

/-- A call of `embed`. -/
structure EmbedCall (V ε : Type) where
  texts : List Text
  phase : EmbedPhase V ε
  deriving DecidableEq

/-- `CachingEmbeddingClient`, with the futures it has created and the calls that were made.
`uses` is kept for the statements: the texts whose entry was written or read, in order. -/
structure CachingEmbeddingClient (V ε : Type) where
  maxEntries : Nat
  cache : List (Text × V) := []
  inFlight : List (Text × Nat) := []
  futures : List (VectorFuture V ε) := []
  calls : List (EmbedCall V ε) := []
  uses : List Text := []
  deriving DecidableEq

namespace CachingEmbeddingClient

/-- `_remember`. -/
def remember (c : CachingEmbeddingClient V ε) (text : Text) (vector : V) :
    CachingEmbeddingClient V ε :=
  { c with
    cache := Dict.trim c.maxEntries (Dict.moveToEnd text (Dict.put text vector c.cache))
    uses := c.uses ++ [text] }

/-- A future is settled, unless it is done. -/
def settle (c : CachingEmbeddingClient V ε) (future : Nat) (settled : Settled V ε) :
    CachingEmbeddingClient V ε :=
  { c with
    futures := c.futures.modify future fun f => { f with settled := settled.set f.settled } }

/-- What is known of a future; one that nobody created is never done. -/
def settledOf (c : CachingEmbeddingClient V ε) (future : Nat) : Settled V ε :=
  match c.futures[future]? with
  | some f => f.settled
  | none => .pending

/-- `_in_flight.pop(text, None)`. -/
def popInFlight (c : CachingEmbeddingClient V ε) (text : Text) : CachingEmbeddingClient V ε :=
  { c with inFlight := Dict.del text c.inFlight }

/-- The texts of `dict.fromkeys(texts)` that are neither cached nor in flight. -/
def missing (c : CachingEmbeddingClient V ε) (texts : List Text) : List Text :=
  ((Dict.ofPairs (texts.map fun text => (text, ()))).map (·.1)).filter fun text =>
    (Dict.get c.cache text).isNone && (Dict.get c.inFlight text).isNone

/-- The loop over `_resolve` up to the first suspension. -/
def resolve (got : List V) : List Text → CachingEmbeddingClient V ε →
    CachingEmbeddingClient V ε × EmbedPhase V ε
  | [], c => (c, .returned got)
  | text :: rest, c =>
      match Dict.get c.cache text with
      | some vector =>
          resolve (got ++ [vector]) rest
            { c with cache := Dict.moveToEnd text c.cache, uses := c.uses ++ [text] }
      | none =>
          match Dict.get c.inFlight text with
          | none => (c, .fetching got text rest)
          | some future =>
              match c.settledOf future with
              | .result vector => resolve (got ++ [vector]) rest c
              | .exception fault => (c, .raised fault)
              | .pending => (c, .waiting got future rest)

/-- The futures that `_compute` creates for the texts. -/
def createFutures (c : CachingEmbeddingClient V ε) (texts : List Text) : List (Text × Nat) :=
  texts.zipIdx c.futures.length

/-- `_compute` up to the call of the backend. -/
def register (c : CachingEmbeddingClient V ε) (texts : List Text) : CachingEmbeddingClient V ε :=
  { c with
    futures := c.futures ++ texts.map fun text => ⟨text, .pending⟩
    inFlight := Dict.update c.inFlight (c.createFutures texts) }

/-- The loop of `_compute` over `zip(texts, vectors, strict=True)`, and whether the two were of
one length. -/
def publish : List (Text × Nat) → List V → CachingEmbeddingClient V ε →
    CachingEmbeddingClient V ε × Bool
  | [], [], c => (c, true)
  | (text, future) :: rest, vector :: vectors, c =>
      publish rest vectors (((c.remember text vector).popInFlight text).settle future
        (.result vector))
  | _, _, c => (c, false)

/-- The handler of `_compute`. -/
def reject (futures : List (Text × Nat)) (fault : EmbedFault ε)
    (c : CachingEmbeddingClient V ε) : CachingEmbeddingClient V ε :=
  futures.foldl (fun c entry => (c.popInFlight entry.1).settle entry.2 (.exception fault)) c

/-- The call goes on from here: it ends or is suspended again. -/
def put (index : Nat) (texts : List Text)
    (next : CachingEmbeddingClient V ε × EmbedPhase V ε) : CachingEmbeddingClient V ε :=
  { next.1 with calls := next.1.calls.set index ⟨texts, next.2⟩ }

/-- `embed` up to its first suspension. -/
def begin (texts : List Text) (c : CachingEmbeddingClient V ε) :
    CachingEmbeddingClient V ε × EmbedPhase V ε :=
  if texts = [] then (c, .returned [])
  else if c.missing texts = [] then resolve [] texts c
  else (c.register (c.missing texts), .computing (c.createFutures (c.missing texts)))

/-- What can happen between two suspensions. -/
inductive Move (V ε : Type) where
  | embed (texts : List Text)
  /-- The backend answers a call that waits for it. -/
  | reply (call : Nat) (vectors : List V)
  /-- The backend raises, or the call is cancelled while it waits for the backend. -/
  | fail (call : Nat) (fault : EmbedFault ε)
  /-- The future that a call waits for is done. -/
  | wake (call : Nat)
  /-- A call that waits for a future is cancelled, and with it the future if it is pending. -/
  | cancel (call : Nat)
  deriving DecidableEq

/-- The backend has answered a call. -/
def onReply (c : CachingEmbeddingClient V ε) (index : Nat) (call : EmbedCall V ε)
    (vectors : List V) : Option (CachingEmbeddingClient V ε) :=
  match call.phase with
  | .computing futures =>
      let published := publish futures vectors c
      some (put index call.texts
        (if published.2 then resolve [] call.texts published.1
        else (published.1, .raised .valueError)))
  | .fetching got text rest =>
      match vectors with
      | [vector] =>
          some (put index call.texts (resolve (got ++ [vector]) rest (c.remember text vector)))
      | _ => some (put index call.texts (c, .raised .valueError))
  | _ => none

/-- The backend has raised at a call. -/
def onFail (c : CachingEmbeddingClient V ε) (index : Nat) (call : EmbedCall V ε)
    (fault : EmbedFault ε) : Option (CachingEmbeddingClient V ε) :=
  match call.phase with
  | .computing futures => some (put index call.texts (reject futures fault c, .raised fault))
  | .fetching _ _ _ => some (put index call.texts (c, .raised fault))
  | _ => none

/-- A call that waits for a future goes on if the future is done. -/
def onWake (c : CachingEmbeddingClient V ε) (index : Nat) (call : EmbedCall V ε) :
    Option (CachingEmbeddingClient V ε) :=
  match call.phase with
  | .waiting got future rest =>
      match c.settledOf future with
      | .result vector => some (put index call.texts (resolve (got ++ [vector]) rest c))
      | .exception fault => some (put index call.texts (c, .raised fault))
      | .pending => none
  | _ => none

/-- `task.cancel()` at `await pending`: the future is cancelled, or if it is done the call is. -/
def onCancel (c : CachingEmbeddingClient V ε) (index : Nat) (call : EmbedCall V ε) :
    Option (CachingEmbeddingClient V ε) :=
  match call.phase with
  | .waiting _ future _ =>
      match c.settledOf future with
      | .pending => some (c.settle future (.exception .cancelled))
      | _ => some (put index call.texts (c, .raised .cancelled))
  | _ => none

/-- The client after a move, if the move is possible. -/
def step (c : CachingEmbeddingClient V ε) : Move V ε → Option (CachingEmbeddingClient V ε)
  | .embed texts =>
      let begun := begin texts c
      some { begun.1 with calls := begun.1.calls ++ [⟨texts, begun.2⟩] }
  | .reply index vectors => c.calls[index]?.bind fun call => c.onReply index call vectors
  | .fail index fault => c.calls[index]?.bind fun call => c.onFail index call fault
  | .wake index => c.calls[index]?.bind fun call => c.onWake index call
  | .cancel index => c.calls[index]?.bind fun call => c.onCancel index call

/-- The client over any order of steps. -/
def machine : Coop.Machine (CachingEmbeddingClient V ε) (Move V ε) := ⟨step⟩

/-- A client that has not been used. -/
def new (maxEntries : Nat) : CachingEmbeddingClient V ε := { maxEntries }

end CachingEmbeddingClient
end Llm
end OctoForge
