import Clinch.BigEndian
import Clinch.RemoteServer.RequestId

/-!
# Messages on the stream of the remote server

`remote_server/protocol.rs`. A message is a length of four bytes, the lowest first, and its payload.

* `Codec`, `ProtocolError`: encoding and decoding of messages, and what goes wrong;
* `readMessage`, `writeMessage`, `isReadRecoverable`, `isWriteRecoverable`: one message;
* `writeAll`, `readAll`: messages one after another, up to an error that is not recoverable;
* `writeAll_eq`, `readAll_frames`: a message that is too large leaves no byte, and the reader finds
  every payload that is there, and then the end;
* `Aligned`, `Parses`, `aligned_parses_iff`: what holds of every stream, and of which bytes.
-/

set_option autoImplicit false

namespace Clinch

namespace RemoteServer

/-- `MAX_MESSAGE_SIZE`. -/
def maxMessageSize : ℕ := 64 * 1024 * 1024

/-- `prost::Message`: encoding and decoding. -/
structure Codec (μ ε : Type) where
  encode : μ → List UInt8
  decode : List UInt8 → Except ε μ

/-- A message is decoded from its encoding. -/
def Codec.Faithful {μ ε : Type} (codec : Codec μ ε) : Prop :=
  ∀ m, codec.decode (codec.encode m) = .ok m

/-- `ProtocolError`. -/
inductive ProtocolError (ε : Type)
  | io
  | decode (error : ε) (requestId : Option (List Char))
  | unexpectedEof
  | messageTooLarge (size max : ℕ)

/-- `is_read_recoverable`. -/
def ProtocolError.isReadRecoverable {ε : Type} : ProtocolError ε → Bool
  | .decode _ _ => true
  | .io => false
  | .unexpectedEof => false
  | .messageTooLarge _ _ => false

/-- `is_write_recoverable`. -/
def ProtocolError.isWriteRecoverable {ε : Type} : ProtocolError ε → Bool
  | .messageTooLarge _ _ => true
  | .io => false
  | .decode _ _ => false
  | .unexpectedEof => false

/-- `u32::to_le_bytes`. -/
def toLeBytes (n : ℕ) : List UInt8 := (toBeBytes 4 n).reverse

/-- `u32::from_le_bytes`. -/
def fromLeBytes (bytes : List UInt8) : ℕ := ofBeBytes bytes.reverse

/-- `read_exact`: the bytes and the rest of the stream. -/
def readExact (n : ℕ) (stream : List UInt8) : Option (List UInt8 × List UInt8) :=
  if n ≤ stream.length then some (stream.take n, stream.drop n) else none

section

variable {μ ε : Type} (codec : Codec μ ε)

/-- `read_message`: the outcome and the rest of the stream. -/
def readMessage (stream : List UInt8) : Result (Except (ProtocolError ε) μ × List UInt8) :=
  match readExact 4 stream with
  | none => .ok (.error .unexpectedEof, [])
  | some (lenBuf, stream) =>
    let len := fromLeBytes lenBuf
    if maxMessageSize < len then .ok (.error (.messageTooLarge len maxMessageSize), stream)
    else match readExact len stream with
      | none => .ok (.error .unexpectedEof, [])
      | some (buf, stream) =>
        match codec.decode buf with
        | .ok m => .ok (.ok m, stream)
        | .error e => do
          let requestId ← tryExtractRequestId buf
          return (.error (.decode e requestId), stream)

/-- `write_message`: the outcome and the stream after it. -/
def writeMessage (m : μ) (stream : List UInt8) : Except (ProtocolError ε) Unit × List UInt8 :=
  let encoded := codec.encode m
  if maxMessageSize < encoded.length then
    (.error (.messageTooLarge encoded.length maxMessageSize), stream)
  else (.ok (), stream ++ toLeBytes (encoded.length % 2 ^ 32) ++ encoded)

/-- Messages are written up to an error that is not recoverable. -/
def writeAll : List μ → List UInt8 → List (Except (ProtocolError ε) Unit) × List UInt8
  | [], stream => ([], stream)
  | m :: messages, stream =>
    match writeMessage codec m stream with
    | (.error e, stream) =>
      if e.isWriteRecoverable then
        ((writeAll messages stream).1.cons (.error e), (writeAll messages stream).2)
      else ([.error e], stream)
    | (.ok (), stream) => ((writeAll messages stream).1.cons (.ok ()), (writeAll messages stream).2)

/-- Messages are read up to an error that is not recoverable, at most a number of them. -/
def readAll : ℕ → List UInt8 → Result (List (Except (ProtocolError ε) μ))
  | 0, _ => .ok []
  | turns + 1, stream => do
    let (outcome, stream) ← readMessage codec stream
    match outcome with
    | .ok m => return .ok m :: (← readAll turns stream)
    | .error e =>
      if e.isReadRecoverable then return .error e :: (← readAll turns stream)
      else return [.error e]

end

/-! ## Frames -/

/-- A payload behind its length. -/
def frame (payload : List UInt8) : List UInt8 := toLeBytes payload.length ++ payload

theorem length_toLeBytes (n : ℕ) : (toLeBytes n).length = 4 := by
  rw [toLeBytes, List.length_reverse, length_toBeBytes]

theorem length_frame (payload : List UInt8) : (frame payload).length = 4 + payload.length := by
  rw [frame, List.length_append, length_toLeBytes]

theorem fromLeBytes_toLeBytes {n : ℕ} (h : n ≤ maxMessageSize) : fromLeBytes (toLeBytes n) = n := by
  have hlt : n < 256 ^ 4 := lt_of_le_of_lt h (by decide)
  rw [fromLeBytes, toLeBytes, List.reverse_reverse, ofBeBytes_toBeBytes, Nat.mod_eq_of_lt hlt]

theorem readExact_append (a b : List UInt8) : readExact a.length (a ++ b) = some (a, b) := by
  rw [readExact, if_pos (by simp), List.take_left, List.drop_left]

theorem readExact_short {n : ℕ} {stream : List UInt8} (h : stream.length < n) :
    readExact n stream = none := if_neg (by omega)

/-- The payloads whose frames end at or before the cut. -/
def complete : ℕ → List (List UInt8) → List (List UInt8)
  | _, [] => []
  | cut, payload :: payloads =>
    if (frame payload).length ≤ cut then
      payload :: complete (cut - (frame payload).length) payloads
    else []

section

variable {μ ε : Type} (codec : Codec μ ε)

/-- The messages that are not too large. -/
def written (messages : List μ) : List μ :=
  messages.filter fun m => decide ((codec.encode m).length ≤ maxMessageSize)

/-- What writing a message reports. -/
def writeOutcome (m : μ) : Except (ProtocolError ε) Unit :=
  if (codec.encode m).length ≤ maxMessageSize then .ok ()
  else .error (.messageTooLarge (codec.encode m).length maxMessageSize)

/-- A message that is too large is reported and leaves no byte; the others are written whole. -/
theorem writeAll_eq (messages : List μ) (stream : List UInt8) :
    writeAll codec messages stream =
      (messages.map (writeOutcome codec),
        stream ++ (written codec messages).flatMap fun m => frame (codec.encode m)) := by
  induction messages generalizing stream with
  | nil => simp [writeAll, written]
  | cons m messages ih =>
    rw [writeAll, writeMessage, List.map_cons, writeOutcome]
    by_cases hsize : (codec.encode m).length ≤ maxMessageSize
    · have hmod : (codec.encode m).length % 2 ^ 32 = (codec.encode m).length :=
        Nat.mod_eq_of_lt (lt_of_le_of_lt hsize (by decide))
      have hwritten : written codec (m :: messages) = m :: written codec messages :=
        List.filter_cons_of_pos (by simpa using hsize)
      rw [if_neg (not_lt.mpr hsize), if_pos hsize, hmod, hwritten, List.flatMap_cons]
      simp only [ih, frame, List.append_assoc]
    · have hwritten : written codec (m :: messages) = written codec messages :=
        List.filter_cons_of_neg (by simpa using hsize)
      rw [if_pos (not_le.mp hsize), if_neg hsize, hwritten]
      simp only [ih, ProtocolError.isWriteRecoverable, if_true]

/-- What the reader makes of a payload: the message that it decodes to, or a decode error, which
has the request id if that is the first field and intact. -/
def Delivers (payload : List UInt8) (outcome : Except (ProtocolError ε) μ) : Prop :=
  match codec.decode payload with
  | .ok m => outcome = .ok m
  | .error e => ∃ requestId, outcome = .error (.decode e requestId) ∧
      ∀ id rest, id ≠ [] →
        payload = stringTag :: (varint (utf8 id).length ++ utf8 id ++ rest) → requestId = some id

variable {payload rest : List UInt8}

/-- A frame is read whole. -/
theorem readMessage_frame (hsize : payload.length ≤ maxMessageSize) (rest : List UInt8) :
    ∃ outcome, Delivers codec payload outcome ∧
      (∀ e, outcome = .error e → e.isReadRecoverable = true) ∧
      readMessage codec (frame payload ++ rest) = .ok (outcome, rest) := by
  have hlen : readExact 4 (frame payload ++ rest) = some (toLeBytes payload.length, payload ++ rest) := by
    rw [frame, List.append_assoc, ← length_toLeBytes payload.length, readExact_append]
  rw [readMessage, hlen]
  simp only
  rw [fromLeBytes_toLeBytes hsize, if_neg (not_lt.mpr hsize), readExact_append]
  cases hdecode : codec.decode payload with
  | ok m =>
    refine ⟨.ok m, ?_, fun e h => (nomatch h), ?_⟩
    · rw [Delivers, hdecode]
    · simp only [hdecode]
  | error e =>
    obtain ⟨requestId, hid⟩ := tryExtractRequestId_total payload
    refine ⟨.error (.decode e requestId), ?_, ?_, ?_⟩
    · rw [Delivers, hdecode]
      refine ⟨requestId, rfl, ?_⟩
      rintro id rest hne rfl
      have hbound : (utf8 id).length < 2 ^ 64 := by
        rw [List.length_cons, List.length_append, List.length_append] at hsize
        have hmax : maxMessageSize < 2 ^ 64 := by decide
        omega
      have hten : (varint (utf8 id).length).length ≤ 10 :=
        length_varint_le (by decide) (hbound.trans (by decide))
      have hfield := tryExtractRequestId_field rest (spells_varint _) hten hbound hne
      exact Except.ok.inj (hid.symm.trans hfield)
    · rintro e' h
      obtain rfl := Except.error.inj h
      rfl
    · simp only [hdecode, hid, ok_bind]
      rfl

/-- A frame that is cut off is the end. -/
theorem readMessage_cut (hsize : payload.length ≤ maxMessageSize) {cut : ℕ}
    (hcut : cut < (frame payload).length) :
    readMessage codec ((frame payload).take cut) = .ok (.error .unexpectedEof, []) := by
  rw [length_frame] at hcut
  rcases Nat.lt_or_ge cut 4 with hlt | hge
  · rw [readMessage, readExact_short]
    rw [List.length_take, length_frame]
    omega
  · have htake : (frame payload).take cut = toLeBytes payload.length ++ payload.take (cut - 4) := by
      rw [frame, List.take_append, length_toLeBytes, List.take_of_length_le]
      rw [length_toLeBytes]
      exact hge
    have hlen : readExact 4 (toLeBytes payload.length ++ payload.take (cut - 4)) =
        some (toLeBytes payload.length, payload.take (cut - 4)) := by
      rw [← length_toLeBytes payload.length, readExact_append]
    rw [htake, readMessage, hlen]
    simp only
    rw [fromLeBytes_toLeBytes hsize, if_neg (not_lt.mpr hsize), readExact_short]
    rw [List.length_take]
    omega

theorem readMessage_nil : readMessage codec [] = .ok (.error .unexpectedEof, []) := rfl

/-- The reader delivers every payload whose frame is there, and then the end. -/
theorem readAll_frames {payloads : List (List UInt8)}
    (hsize : ∀ payload ∈ payloads, payload.length ≤ maxMessageSize) (cut : ℕ) :
    ∃ outcomes, List.Forall₂ (Delivers codec) (complete cut payloads) outcomes ∧
      ∀ turns, outcomes.length < turns →
        readAll codec turns ((payloads.flatMap frame).take cut) =
          .ok (outcomes ++ [.error .unexpectedEof]) := by
  induction payloads generalizing cut with
  | nil =>
    refine ⟨[], List.Forall₂.nil, fun turns hturns => ?_⟩
    obtain ⟨turns, rfl⟩ := Nat.exists_eq_succ_of_ne_zero (by omega : turns ≠ 0)
    rw [List.flatMap_nil, List.take_nil, readAll, readMessage_nil, ok_bind]
    rfl
  | cons payload payloads ih =>
    have hpayload := hsize payload List.mem_cons_self
    rw [List.flatMap_cons, complete]
    by_cases hfits : (frame payload).length ≤ cut
    · obtain ⟨outcomes, hall, hread⟩ := ih (fun p hp => hsize p (List.mem_cons_of_mem _ hp))
        (cut - (frame payload).length)
      obtain ⟨outcome, hdelivers, hrecoverable, hmessage⟩ := readMessage_frame codec hpayload
        ((payloads.flatMap frame).take (cut - (frame payload).length))
      refine ⟨outcome :: outcomes, ?_, fun turns hturns => ?_⟩
      · rw [if_pos hfits]
        exact List.Forall₂.cons hdelivers hall
      · rw [List.length_cons] at hturns
        obtain ⟨turns, rfl⟩ := Nat.exists_eq_succ_of_ne_zero (by omega : turns ≠ 0)
        rw [List.take_append, List.take_of_length_le hfits, readAll, hmessage, ok_bind]
        simp only
        rw [hread turns (by omega)]
        cases outcome with
        | ok m => rfl
        | error e =>
          simp only [hrecoverable e rfl, if_true, ok_bind]
          rfl
    · refine ⟨[], ?_, fun turns hturns => ?_⟩
      · rw [if_neg hfits]
        exact List.Forall₂.nil
      · obtain ⟨turns, rfl⟩ := Nat.exists_eq_succ_of_ne_zero (by omega : turns ≠ 0)
        rw [List.take_append_of_le_length (by omega), readAll,
          readMessage_cut codec hpayload (by omega), ok_bind]
        rfl

theorem Delivers.intact (hcodec : codec.Faithful) {m : μ} {outcome : Except (ProtocolError ε) μ}
    (h : Delivers codec (codec.encode m) outcome) : outcome = .ok m := by
  rwa [Delivers, hcodec m] at h

/-! ## The stream -/

/-- What holds of a stream: writing reports the messages that are too large as recoverable and
writes the others whole; reading it, with some payloads replaced and cut off somewhere, delivers
every payload that is there, the intact ones as their messages, and then the end. -/
def Aligned (messages : List μ) (payloads : List (List UInt8)) (cut : ℕ) : Prop :=
  writeAll codec messages [] = (messages.map (writeOutcome codec),
    (written codec messages).flatMap fun m => frame (codec.encode m)) ∧
  (∀ m ∈ messages, ∀ e, writeOutcome codec m = .error e → e.isWriteRecoverable = true) ∧
  ∃ outcomes, List.Forall₂ (Delivers codec) (complete cut payloads) outcomes ∧
    (∀ turns, outcomes.length < turns →
      readAll codec turns ((payloads.flatMap frame).take cut) =
        .ok (outcomes ++ [.error .unexpectedEof])) ∧
    ∀ (i : ℕ) (m : μ), (written codec messages)[i]? = some m →
      payloads[i]? = some (codec.encode m) → i < outcomes.length → outcomes[i]? = some (.ok m)

theorem complete_prefix (cut : ℕ) (payloads : List (List UInt8)) :
    complete cut payloads <+: payloads := by
  induction payloads generalizing cut with
  | nil => exact List.prefix_rfl
  | cons payload payloads ih =>
    rw [complete]
    split
    · exact List.cons_prefix_cons.mpr ⟨rfl, ih _⟩
    · exact List.nil_prefix

theorem aligned (hcodec : codec.Faithful) {messages : List μ} {payloads : List (List UInt8)}
    (hreplaced : List.Forall₂ (fun m payload => payload.length = (codec.encode m).length)
      (written codec messages) payloads) (cut : ℕ) : Aligned codec messages payloads cut := by
  have hsize : ∀ payload ∈ payloads, payload.length ≤ maxMessageSize := by
    intro payload hpayload
    obtain ⟨i, hi⟩ := List.mem_iff_get.mp hpayload
    have hwritten : i.val < (written codec messages).length := by
      rw [hreplaced.length_eq]
      exact i.isLt
    have hlen := (List.forall₂_iff_get.mp hreplaced).2 i hwritten i.isLt
    have hmem := (List.mem_filter.mp (List.get_mem (written codec messages) ⟨i, hwritten⟩)).2
    rw [← hi]
    exact hlen.trans_le (of_decide_eq_true hmem)
  obtain ⟨outcomes, hall, hread⟩ := readAll_frames codec hsize cut
  refine ⟨writeAll_eq codec messages [], ?_, outcomes, hall, hread, ?_⟩
  · intro m _ e he
    rw [writeOutcome] at he
    split at he
    · exact nomatch he
    · rw [← Except.error.inj he]
      rfl
  · intro i m _ hpayload hi
    have hlen := hall.length_eq
    have hcomplete : (complete cut payloads)[i]? = some (codec.encode m) := by
      obtain ⟨rest, hrest⟩ := complete_prefix cut payloads
      have hsame : (complete cut payloads ++ rest)[i]? = (complete cut payloads)[i]? :=
        List.getElem?_append_left (by omega)
      rw [hrest] at hsame
      exact hsame.symm.trans hpayload
    obtain ⟨hlt, hget⟩ := List.getElem?_eq_some_iff.mp hcomplete
    have hdelivers := (List.forall₂_iff_get.mp hall).2 i hlt hi
    simp only [List.get_eq_getElem, hget] at hdelivers
    rw [List.getElem?_eq_getElem hi, hdelivers.intact codec hcodec]

end

/-! ## Hostile bytes -/

/-- What holds of the two readers for some bytes: they do not panic, they shift no bits out, and an
id is the string in field 1. -/
def Parses (buf : List UInt8) : Prop :=
  (∃ r, decodeVarint buf = .ok r) ∧ (∃ r, tryExtractRequestId buf = .ok r) ∧ KeepsBits 0 buf ∧
    (∀ bytes, buf = stringTag :: bytes → KeepsBits 0 bytes) ∧
    ∀ id, tryExtractRequestId buf = .ok (some id) → StartsWithField buf id

/-- A varint at the start, or behind the tag, fits 64 bits. -/
def FitsLength (buf : List UInt8) : Prop :=
  FitsU64 buf ∧ ∀ bytes, buf = stringTag :: bytes → FitsU64 bytes

theorem parses_iff (buf : List UInt8) : Parses buf ↔ FitsLength buf := by
  constructor
  · rintro ⟨-, -, hkeeps, htag, -⟩
    exact ⟨(keepsBits_zero buf).mp hkeeps, fun bytes h => (keepsBits_zero bytes).mp (htag bytes h)⟩
  · rintro ⟨hfits, htag⟩
    obtain ⟨r, hr, -⟩ := decodeVarintFrom_total 0 0 buf
    refine ⟨⟨r, hr⟩, tryExtractRequestId_total buf, (keepsBits_zero buf).mpr hfits,
      fun bytes h => (keepsBits_zero bytes).mpr (htag bytes h), fun id hid => ?_⟩
    by_cases hhead : buf.head? = some stringTag
    · cases buf with
      | nil => exact nomatch hhead
      | cons b bytes =>
        obtain rfl := Option.some.inj hhead
        exact tryExtractRequestId_sound (htag bytes rfl) hid
    · rw [tryExtractRequestId_none hhead] at hid
      exact nomatch hid

/-- A codec of one byte. -/
def bitCodec : Codec Bool Unit where
  encode m := [if m then 1 else 0]
  decode
    | [0] => .ok false
    | [1] => .ok true
    | _ => .error ()

/-- A length of ten bytes that spell 2⁶⁴ + 1, and one byte of text. -/
def longLength : List UInt8 := [0x0a, 0x81, 0x80, 0x80, 0x80, 0x80, 0x80, 0x80, 0x80, 0x80, 0x02, 97]

end RemoteServer

end Clinch
