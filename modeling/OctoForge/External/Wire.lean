import OctoForge.External.Request
import OctoForge.External.Truncation

/-!
# Reading a body off the wire

A body comes in chunks that the transport cuts as it likes.  They are taken until there are as many
bytes as the limit, and what is over it is cut off.  A body that is cut and one that ends right at
the limit are the same to the loop.
-/

namespace OctoForge
namespace External

open Collections (ParsedBody)

abbrev Bytes := List UInt8

/-- The loop of `read_capped_text`: the chunks that are taken, and `truncated`. -/
def takeChunks (limit : Nat) : (size : Nat) → List Bytes → List Bytes × Bool
  | _, [] => ([], false)
  | size, chunk :: rest =>
      -- also when the chunk ends right at the limit
      if limit ≤ size + chunk.length then ([chunk], true)
      else
        let (taken, truncated) := takeChunks limit (size + chunk.length) rest
        (chunk :: taken, truncated)

/-- `read_capped_text`; `decode` is `bytes.decode` with the charset of the response. -/
def readCappedText (decode : Bytes → Text) (limit : Nat) (chunks : List Bytes) : Text × Bool :=
  let (taken, truncated) := takeChunks limit 0 chunks
  (decode (taken.flatten.take limit), truncated)

/-- The response of `_request_once`. -/
def responseOf (decode : Bytes → Text) (limit status : Nat) (contentType : Text)
    (chunks : List Bytes) : Response where
  status := status
  raw := (readCappedText decode limit chunks).1
  contentType := contentType
  truncated := (readCappedText decode limit chunks).2

/-- What is read of a body depends on the body alone, and whatever is made of it tells of bytes
that are missing, and of nothing else. -/
structure TellsOfBytes (decode : Bytes → Text) (limit : Nat) (chunks : List Bytes) : Prop where
  bytes : (readCappedText decode limit chunks).1 = decode (chunks.flatten.take limit)
  flag : (readCappedText decode limit chunks).2 = true ↔ limit < chunks.flatten.length
  inline : ∀ (e : Executor) status contentType resolved,
    let page := pageOf (responseOf decode limit status contentType chunks) resolved
    page.scrubbed.length ≤ e.truncateChars → ¬Marks.source.suffix <:+ page.scrubbed →
      (Marks.source.suffix <:+ e.truncated .source page ↔ limit < chunks.flatten.length)
  stored : ∀ (e : Executor) status contentType resolved spec context (found : ParsedBody),
    let page := pageOf (responseOf decode limit status contentType chunks) resolved
    found.recordTruncated = false →
      ((e.spilledCollection spec context page found).truncated = true ↔
        limit < chunks.flatten.length)

section Wire

variable {decode : Bytes → Text} {limit size : Nat} {chunks : List Bytes}

/-- The loop stops when the limit is reached, wherever the chunks end. -/
theorem takeChunks_spec (chunks : List Bytes) (hSize : size < limit) :
    (takeChunks limit size chunks).1.flatten.take (limit - size) =
        chunks.flatten.take (limit - size) ∧
      ((takeChunks limit size chunks).2 = true ↔ limit ≤ size + chunks.flatten.length) := by
  induction chunks generalizing size with
  | nil =>
      refine ⟨rfl, iff_of_false Bool.false_ne_true ?_⟩
      rw [List.flatten_nil, List.length_nil]
      omega
  | cons chunk rest ih =>
      rw [takeChunks, List.flatten_cons, List.length_append]
      split
      · -- The chunk reaches the limit, and no later one is looked at.
        rename_i hFull
        refine ⟨?_, iff_of_true rfl (by omega)⟩
        rw [List.flatten_singleton, List.take_append_of_le_length (by omega)]
      · rename_i hRoom
        have hRest : size + chunk.length < limit := by omega
        obtain ⟨hBytes, hFlag⟩ := ih hRest
        have hLeft : limit - size - chunk.length = limit - (size + chunk.length) := by omega
        dsimp only
        refine ⟨?_, hFlag.trans (by rw [Nat.add_assoc])⟩
        rw [List.flatten_cons, List.take_append, List.take_append, hLeft, hBytes]

theorem readCappedText_eq (hLimit : 0 < limit) (decode : Bytes → Text) (chunks : List Bytes) :
    readCappedText decode limit chunks =
      (decode (chunks.flatten.take limit), decide (limit ≤ chunks.flatten.length)) := by
  obtain ⟨hBytes, hFlag⟩ := takeChunks_spec chunks hLimit
  rw [Nat.sub_zero] at hBytes
  rw [Nat.zero_add] at hFlag
  refine Prod.ext (congrArg decode hBytes) ?_
  rw [Bool.eq_iff_iff, decide_eq_true_iff]
  exact hFlag

/-- The suffix of a short body tells that the body was cut on the wire. -/
theorem suffix_truncated_iff {e : Executor} {page : Page}
    (hShort : page.scrubbed.length ≤ e.truncateChars) (hPlain : ¬Marks.source.suffix <:+ page.scrubbed) :
    Marks.source.suffix <:+ e.truncated .source page ↔ page.wireTruncated = true := by
  cases hWire : page.wireTruncated with
  | false =>
      rw [truncated_of_whole hWire hShort]
      exact iff_of_false hPlain Bool.false_ne_true
  | true =>
      have hNot : Marks.source.suffix.isSuffixOf page.scrubbed = false := by
        rw [Bool.eq_false_iff, Ne, List.isSuffixOf_iff_suffix]
        exact hPlain
      rw [Executor.truncated, truncate_of_le hShort, hWire, hNot]
      exact iff_of_true (List.suffix_append _ _) rfl

/-- The flag is right, and what is derived from it, for all bodies but those that end at the limit. -/
theorem tellsOfBytes_iff {decode : Bytes → Text} {limit : Nat} {chunks : List Bytes}
    (hLimit : 0 < limit) :
    TellsOfBytes decode limit chunks ↔ chunks.flatten.length ≠ limit := by
  have hRead := readCappedText_eq hLimit decode chunks
  constructor
  · intro hTells hSame
    have hFlag := hTells.flag
    rw [hRead, hSame] at hFlag
    exact Nat.lt_irrefl limit (hFlag.mp (decide_eq_true (Nat.le_refl limit)))
  · intro hOther
    have hFlag : (readCappedText decode limit chunks).2 = true ↔ limit < chunks.flatten.length := by
      rw [hRead, decide_eq_true_iff]
      omega
    refine ⟨by rw [hRead], hFlag, ?_, ?_⟩
    · intro e status contentType resolved page hShort hPlain
      exact (suffix_truncated_iff hShort hPlain).trans hFlag
    · intro e status contentType resolved spec context found page hWhole
      have hMark : (e.spilledCollection spec context page found).truncated =
          (page.wireTruncated || found.recordTruncated) := rfl
      rw [hMark, hWhole, Bool.or_false]
      exact hFlag

/-- A text in ASCII. -/
def ascii (bytes : Bytes) : Text := bytes.map fun byte => Char.ofNat byte.toNat

theorem tellsOfBytes_two_chunks :
    TellsOfBytes ascii 3 [[104, 101], [121, 33]] ↔ [104, 101, 121, 33].length ≠ 3 :=
  tellsOfBytes_iff (by decide)

/-- A body of three bytes is read whole and reported as cut. -/
theorem whole_body_reported : ¬TellsOfBytes ascii 3 [[104, 101], [121]] := fun hTells =>
  absurd (hTells.flag.mp (by decide)) (by decide)

end Wire

end External
end OctoForge
