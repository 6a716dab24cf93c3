import Clinch.BigEndian
import Clinch.Rust

/-!
# Binary frames

The binary frames of `clinch_companion_protocol`, and their other end in the browser,
`web/remote-control/src/protocol/binary.ts`. The `Uuid`s are those of the crate `uuid`: 16 bytes,
shown as five groups of lowercase digits.

* `Uuid`, `BinaryFrameError`, `encodeUploadChunk`, `decodeUploadChunk`, `encodeTerminalOutput`,
  `decodeTerminalOutput`: the gateway's end;
* `Browser.decodeTerminalOutput`, `Browser.encodeUploadChunk`: the browser's end;
* `decodeBinaryFrame_encode`, `decodeBinaryFrame_cases`: the header decodes what was encoded, and
  nothing else;
* `binary_frames_agree`: the main result.
-/

set_option autoImplicit false

namespace Clinch

/-! ## The gateway's end -/

/-- `Uuid`. -/
structure Uuid where
  bytes : List UInt8
  length : bytes.length = 16
deriving DecidableEq

/-- `Uuid::from_bytes(slice.try_into().expect(..))`. -/
def Uuid.fromSlice (bytes : List UInt8) : Result Uuid :=
  if h : bytes.length = 16 then .ok ⟨bytes, h⟩ else .error .unwrap

/-- `u64::from_be_bytes(slice.try_into().expect(..))`. -/
def u64FromBeSlice (bytes : List UInt8) : Result UInt64 :=
  if bytes.length = 8 then .ok (UInt64.ofNat (ofBeBytes bytes)) else .error .unwrap

structure UploadId where
  uuid : Uuid
deriving DecidableEq

structure TerminalStreamId where
  uuid : Uuid
deriving DecidableEq

def protocolVersion : UInt16 := 1
def binaryFrameMagic : List UInt8 := [67, 82]
def binaryFrameHeaderBytes : ℕ := 32
def maxUploadChunkBytes : ℕ := 256 * 1024
def maxTerminalFrameBytes : ℕ := 256 * 1024

inductive BinaryFrameKind
  | terminalOutput
  | uploadChunk
deriving DecidableEq, Repr

/-- `kind as u8`. -/
def BinaryFrameKind.toUInt8 : BinaryFrameKind → UInt8
  | terminalOutput => 1
  | uploadChunk => 2

inductive BinaryFrameError
  | tooShort
  | invalidMagic
  | unsupportedVersion (version : UInt16)
  | unknownKind (kind : UInt8)
  | invalidFlags
  | unexpectedKind (expected actual : UInt8)
  | chunkTooLarge
  | terminalFrameTooLarge
deriving DecidableEq, Repr

/-- `BinaryFrameKind::try_from`. -/
def BinaryFrameKind.tryFrom (value : UInt8) : Except BinaryFrameError BinaryFrameKind :=
  if value = 1 then .ok terminalOutput
  else if value = 2 then .ok uploadChunk
  else .error (.unknownKind value)

structure UploadChunkFrame where
  uploadId : UploadId
  chunkIndex : UInt64
  payload : List UInt8
deriving DecidableEq

structure TerminalOutputFrame where
  streamId : TerminalStreamId
  terminalSequence : UInt64
  payload : List UInt8
deriving DecidableEq

def encodeBinaryFrame (kind : BinaryFrameKind) (id : Uuid) (sequence : UInt64)
    (payload : List UInt8) : List UInt8 :=
  binaryFrameMagic ++ toBeBytes 2 protocolVersion.toNat ++ [kind.toUInt8] ++ [0, 0, 0] ++ id.bytes ++
    toBeBytes 8 sequence.toNat ++ payload

/-- A decoder reads slices of the frame, and could panic there. -/
def decodeBinaryFrame (frame : List UInt8) :
    Result (Except BinaryFrameError (BinaryFrameKind × Uuid × UInt64 × List UInt8)) := do
  if frame.length < binaryFrameHeaderBytes then return .error .tooShort
  if (← sliceRange frame 0 2) ≠ binaryFrameMagic then return .error .invalidMagic
  let version := UInt16.ofNat (ofBeBytes [← index frame 2, ← index frame 3])
  if version ≠ protocolVersion then return .error (.unsupportedVersion version)
  match BinaryFrameKind.tryFrom (← index frame 4) with
  | .error error => return .error error
  | .ok kind =>
    if (← sliceRange frame 5 8) ≠ [0, 0, 0] then return .error .invalidFlags
    let id ← Uuid.fromSlice (← sliceRange frame 8 24)
    let sequence ← u64FromBeSlice (← sliceRange frame 24 32)
    let payload ← sliceRange frame binaryFrameHeaderBytes frame.length
    return .ok (kind, id, sequence, payload)

def encodeUploadChunk (uploadId : UploadId) (chunkIndex : UInt64) (payload : List UInt8) :
    Except BinaryFrameError (List UInt8) :=
  if payload.length > maxUploadChunkBytes then .error .chunkTooLarge
  else .ok (encodeBinaryFrame .uploadChunk uploadId.uuid chunkIndex payload)

def decodeUploadChunk (frame : List UInt8) :
    Result (Except BinaryFrameError UploadChunkFrame) := do
  match ← decodeBinaryFrame frame with
  | .error error => return .error error
  | .ok (kind, id, chunkIndex, payload) =>
    if kind ≠ .uploadChunk then
      return .error (.unexpectedKind BinaryFrameKind.uploadChunk.toUInt8 kind.toUInt8)
    if payload.length > maxUploadChunkBytes then return .error .chunkTooLarge
    return .ok ⟨⟨id⟩, chunkIndex, payload⟩

def encodeTerminalOutput (streamId : TerminalStreamId) (terminalSequence : UInt64)
    (payload : List UInt8) : Except BinaryFrameError (List UInt8) :=
  if payload.length > maxTerminalFrameBytes then .error .terminalFrameTooLarge
  else .ok (encodeBinaryFrame .terminalOutput streamId.uuid terminalSequence payload)

def decodeTerminalOutput (frame : List UInt8) :
    Result (Except BinaryFrameError TerminalOutputFrame) := do
  match ← decodeBinaryFrame frame with
  | .error error => return .error error
  | .ok (kind, id, terminalSequence, payload) =>
    if kind ≠ .terminalOutput then
      return .error (.unexpectedKind BinaryFrameKind.terminalOutput.toUInt8 kind.toUInt8)
    if payload.length > maxTerminalFrameBytes then return .error .terminalFrameTooLarge
    return .ok ⟨⟨id⟩, terminalSequence, payload⟩

/-- `u64::saturating_add(1)`. -/
def saturatingSucc (n : UInt64) : UInt64 := if n.toNat = 2 ^ 64 - 1 then n else n + 1

/-- The frames that `websocket_loop` sends for what a terminal wrote, and its sequence number after
them. -/
def terminalFrames (streamId : TerminalStreamId) :
    UInt64 → List (List UInt8) → List (List UInt8) × UInt64
  | terminalSequence, [] => ([], terminalSequence)
  | terminalSequence, chunk :: chunks =>
    let terminalSequence := saturatingSucc terminalSequence
    let rest := terminalFrames streamId terminalSequence chunks
    match encodeTerminalOutput streamId terminalSequence chunk with
    | .error _ => rest
    | .ok frame => (frame :: rest.1, rest.2)

/-- `for chunk in bytes.chunks(MAX_TERMINAL_FRAME_BYTES) { .. }`. -/
def sendTerminalOutput (streamId : TerminalStreamId) (terminalSequence : UInt64)
    (bytes : List UInt8) : List (List UInt8) × UInt64 :=
  terminalFrames streamId terminalSequence (bytes.toChunks maxTerminalFrameBytes)

/-- `{:02x}`. -/
def lowerHex (b : UInt8) : List Char :=
  [Nat.digitChar (b.toNat / 16), Nat.digitChar (b.toNat % 16)]

/-- The text of a `Uuid`. -/
def Uuid.toText (u : Uuid) : List Char :=
  let group (lo hi : ℕ) := ((u.bytes.take hi).drop lo).flatMap lowerHex
  group 0 4 ++ '-' :: group 4 6 ++ '-' :: group 6 8 ++ '-' :: group 8 10 ++ '-' :: group 10 16

/-- The text reads as the `Uuid`; its digits may be of either case. -/
def Uuid.IsText (u : Uuid) (s : List Char) : Prop := s.map Char.toLower = u.toText

/-! ## The browser's end -/

namespace Browser

structure TerminalOutputFrame where
  streamId : List Char
  sequence : ℕ
  payload : List UInt8
deriving DecidableEq

/-- `Number(n)` of a `bigint` that is not negative: the nearest double, the even one of two. -/
def numberOfBigInt (n : ℕ) : ℕ :=
  if n < 2 ^ 53 then n
  else
    let unit := 2 ^ (n.log2 - 52)
    let q := n / unit
    let r := n % unit
    if 2 * r < unit ∨ (2 * r = unit ∧ q % 2 = 0) then q * unit else (q + 1) * unit

/-- `bytes.slice(lo, hi)`. -/
def slice (bytes : List UInt8) (lo hi : ℕ) : List UInt8 := (bytes.take hi).drop lo

/-- `view.getUint16(offset)` and `view.getBigUint64(offset)`. -/
def getUint (width : ℕ) (bytes : List UInt8) (offset : ℕ) : Except String ℕ :=
  if offset + width ≤ bytes.length then .ok (ofBeBytes (slice bytes offset (offset + width)))
  else .error "Offset is outside the bounds of the DataView"

/-- A byte that is there and not zero. -/
def truthy (b : Option UInt8) : Bool := b.any (· ≠ 0)

/-- `byte.toString(16).padStart(2, "0")`. -/
def paddedHex (b : UInt8) : List Char := (Nat.toDigits 16 b.toNat).leftpad 2 '0'

def uuidFromBytes (bytes : List UInt8) : List Char :=
  let hex := bytes.flatMap paddedHex
  hex.take 8 ++ '-' :: (hex.take 12).drop 8 ++ '-' :: (hex.take 16).drop 12 ++
    '-' :: (hex.take 20).drop 16 ++ '-' :: hex.drop 20

/-- The digit of a character matched by `/[0-9a-f]/i`. -/
def hexValue (c : Char) : Option ℕ :=
  if '0' ≤ c ∧ c ≤ '9' then some (c.toNat - '0'.toNat)
  else if 'a' ≤ c ∧ c ≤ 'f' then some (c.toNat - 'a'.toNat + 10)
  else if 'A' ≤ c ∧ c ≤ 'F' then some (c.toNat - 'A'.toNat + 10)
  else none

/-- `Uint8Array.from(hex.match(/.{2}/g) ?? [], (part) => Number.parseInt(part, 16))`. -/
def bytesOfHex : List Char → List UInt8
  | c :: d :: hex =>
    UInt8.ofNat (16 * (hexValue c).getD 0 + (hexValue d).getD 0) :: bytesOfHex hex
  | _ => []

def uuidToBytes (uuid : List Char) : Except String (List UInt8) :=
  let hex := uuid.filter (· ≠ '-')
  if hex.length = 32 ∧ hex.all (fun c => (hexValue c).isSome) then .ok (bytesOfHex hex)
  else .error "Invalid upload identifier"

def decodeTerminalOutput (bytes : List UInt8) : Except String TerminalOutputFrame := do
  if bytes.length < binaryFrameHeaderBytes then throw "Short terminal frame"
  if bytes[0]? ≠ binaryFrameMagic[0]? ∨ bytes[1]? ≠ binaryFrameMagic[1]? then
    throw "Invalid frame magic"
  if (← getUint 2 bytes 2) ≠ protocolVersion.toNat then throw "Unsupported frame version"
  if bytes[4]? ≠ some 1 then throw "Unexpected binary frame kind"
  if truthy bytes[5]? || truthy bytes[6]? || truthy bytes[7]? then
    throw "Unsupported binary frame flags"
  let sequence := numberOfBigInt (← getUint 8 bytes 24)
  return ⟨uuidFromBytes (slice bytes 8 24), sequence, bytes.drop binaryFrameHeaderBytes⟩

/-- `frame.set(bytes, offset)`, and the setters of a `DataView`. -/
def set (frame : List UInt8) (bytes : List UInt8) (offset : ℕ) : Except String (List UInt8) :=
  if offset + bytes.length ≤ frame.length then
    .ok (frame.take offset ++ bytes ++ frame.drop (offset + bytes.length))
  else .error "offset is out of bounds"

def encodeUploadChunk (uploadId : List Char) (index : ℕ) (payload : List UInt8) :
    Except String (List UInt8) := do
  if payload.length > maxUploadChunkBytes then throw "Upload chunk is too large"
  let frame := List.replicate (binaryFrameHeaderBytes + payload.length) 0
  let frame ← set frame binaryFrameMagic 0
  let frame ← set frame (toBeBytes 2 protocolVersion.toNat) 2
  let frame ← set frame [2] 4
  let frame ← set frame (← uuidToBytes uploadId) 8
  let frame ← set frame (toBeBytes 8 index) 24
  set frame payload binaryFrameHeaderBytes

end Browser

/-! ## The header -/

theorem BinaryFrameKind.tryFrom_toUInt8 (kind : BinaryFrameKind) :
    BinaryFrameKind.tryFrom kind.toUInt8 = .ok kind := by
  cases kind <;> rfl

theorem BinaryFrameKind.toUInt8_of_tryFrom {b : UInt8} {kind : BinaryFrameKind}
    (h : BinaryFrameKind.tryFrom b = .ok kind) : b = kind.toUInt8 := by
  rw [tryFrom] at h
  split at h
  · rw [← Except.ok.inj h]
    assumption
  · split at h
    · rw [← Except.ok.inj h]
      assumption
    · exact nomatch h

theorem toBeBytes_version : toBeBytes 2 protocolVersion.toNat = [0, 1] := by decide

/-- A frame, byte by byte up to the identifier. -/
theorem encodeBinaryFrame_eq (kind : BinaryFrameKind) (id : Uuid) (sequence : UInt64)
    (payload : List UInt8) : encodeBinaryFrame kind id sequence payload =
      67 :: 82 :: 0 :: 1 :: kind.toUInt8 :: 0 :: 0 :: 0 ::
        (id.bytes ++ (toBeBytes 8 sequence.toNat ++ payload)) := by
  rw [encodeBinaryFrame, toBeBytes_version, binaryFrameMagic]
  simp only [List.cons_append, List.nil_append, List.append_assoc]

theorem length_encodeBinaryFrame (kind : BinaryFrameKind) (id : Uuid) (sequence : UInt64)
    (payload : List UInt8) :
    (encodeBinaryFrame kind id sequence payload).length = 32 + payload.length := by
  rw [encodeBinaryFrame_eq]
  simp only [List.length_cons, List.length_append, id.length, length_toBeBytes]
  omega

theorem u64FromBeSlice_toBeBytes (n : UInt64) : u64FromBeSlice (toBeBytes 8 n.toNat) = .ok n := by
  rw [u64FromBeSlice, if_pos (length_toBeBytes _ _), ofBeBytes_toBeBytes, Nat.mod_eq_of_lt,
    UInt64.ofNat_toNat]
  exact n.toNat_lt

theorem Uuid.fromSlice_bytes (u : Uuid) : Uuid.fromSlice u.bytes = .ok u := dif_pos u.length

/-- The slices that `decodeBinaryFrame` reads behind the flags. -/
theorem sliceRange_header {h id n p : List UInt8} (hh : h.length = 8) (hid : id.length = 16)
    (hn : n.length = 8) :
    sliceRange (h ++ (id ++ (n ++ p))) 8 24 = .ok id ∧
      sliceRange (h ++ (id ++ (n ++ p))) 24 32 = .ok n ∧
      sliceRange (h ++ (id ++ (n ++ p))) 32 (h ++ (id ++ (n ++ p))).length =
        .ok p := by
  simp only [sliceRange, List.length_append, hh, hid, hn]
  refine ⟨?_, ?_, ?_⟩
  · rw [if_pos (by omega)]
    simp [List.take_append, hh, hid]
  · rw [if_pos (by omega)]
    simp [List.take_append, List.drop_append, hh, hid, hn]
  · rw [if_pos (by omega), List.take_of_length_le (by simp [hh, hid, hn]), List.drop_append,
      List.drop_append, List.drop_append, List.drop_eq_nil_of_le (by omega),
      List.drop_eq_nil_of_le (by omega), List.drop_eq_nil_of_le (by omega)]
    simp [hh, hid, hn]

/-- **The header decodes what was encoded.** -/
theorem decodeBinaryFrame_encode (kind : BinaryFrameKind) (id : Uuid) (sequence : UInt64)
    (payload : List UInt8) : decodeBinaryFrame (encodeBinaryFrame kind id sequence payload) =
      .ok (.ok (kind, id, sequence, payload)) := by
  have hlen := length_encodeBinaryFrame kind id sequence payload
  obtain ⟨hid, hseq, hpay⟩ := sliceRange_header (h := [67, 82, 0, 1, kind.toUInt8, 0, 0, 0])
    (p := payload) rfl id.length (length_toBeBytes 8 sequence.toNat)
  rw [encodeBinaryFrame_eq] at hlen ⊢
  have hmagic : ∀ l : List UInt8, sliceRange (67 :: 82 :: l) 0 2 = .ok [67, 82] := fun l => by
    simp [sliceRange]
  have hflags : ∀ (a b c d e : UInt8) (l : List UInt8),
      sliceRange (a :: b :: c :: d :: e :: 0 :: 0 :: 0 :: l) 5 8 = .ok [0, 0, 0] :=
    fun a b c d e l => by simp [sliceRange]
  have hversion : ¬ UInt16.ofNat (ofBeBytes [0, 1]) ≠ protocolVersion := by decide
  simp only [List.cons_append, List.nil_append] at hid hseq hpay
  rw [decodeBinaryFrame, if_neg (by rw [hlen, binaryFrameHeaderBytes]; omega), hmagic, ok_bind,
    binaryFrameMagic, if_neg (fun h => h rfl)]
  simp only [index, List.getElem?_cons_zero, List.getElem?_cons_succ, ok_bind]
  rw [if_neg hversion, BinaryFrameKind.tryFrom_toUInt8]
  simp only [hflags, ok_bind]
  rw [if_neg (fun h => h rfl), hid, hseq, binaryFrameHeaderBytes, hpay]
  simp only [ok_bind, Uuid.fromSlice_bytes, u64FromBeSlice_toBeBytes]
  rfl

/-- A frame that is long enough, cut where `decodeBinaryFrame` cuts it. -/
theorem exists_header {frame : List UInt8} (h : 32 ≤ frame.length) :
    ∃ m₀ m₁ v₀ v₁ k f₀ f₁ f₂, ∃ id : Uuid, ∃ n payload : List UInt8, n.length = 8 ∧
      frame = [m₀, m₁, v₀, v₁, k, f₀, f₁, f₂] ++ (id.bytes ++ (n ++ payload)) := by
  match frame, h with
  | m₀ :: m₁ :: v₀ :: v₁ :: k :: f₀ :: f₁ :: f₂ :: l, h =>
    simp only [List.length_cons] at h
    refine ⟨m₀, m₁, v₀, v₁, k, f₀, f₁, f₂, ⟨l.take 16, by rw [List.length_take]; omega⟩,
      (l.drop 16).take 8, (l.drop 16).drop 8, ?_, ?_⟩
    · rw [List.length_take, List.length_drop]
      omega
    · simp only [List.take_append_drop, List.cons_append, List.nil_append]

theorem version_eq {v₀ v₁ : UInt8} (h : UInt16.ofNat (ofBeBytes [v₀, v₁]) = protocolVersion) :
    v₀ = 0 ∧ v₁ = 1 := by
  have h₀ := v₀.toNat_lt
  have h₁ := v₁.toNat_lt
  have he : ofBeBytes [v₀, v₁] = 256 * v₀.toNat + v₁.toNat := by simp [ofBeBytes]
  have hn : (UInt16.ofNat (ofBeBytes [v₀, v₁])).toNat = 1 := by rw [h]; rfl
  rw [he, UInt16.toNat_ofNat'] at hn
  exact ⟨UInt8.toNat_inj.mp (by rw [show (0 : UInt8).toNat = 0 from rfl]; omega),
    UInt8.toNat_inj.mp (by rw [show (1 : UInt8).toNat = 1 from rfl]; omega)⟩

theorem eq_toBeBytes {n : List UInt8} (h : n.length = 8) :
    n = toBeBytes 8 (UInt64.ofNat (ofBeBytes n)).toNat := by
  have hlt := ofBeBytes_lt n
  rw [h, show 256 ^ 8 = 2 ^ 64 by norm_num] at hlt
  rw [UInt64.toNat_ofNat', Nat.mod_eq_of_lt hlt, ← h, toBeBytes_ofBeBytes]

/-- **The header rejects what was not encoded**, and does not panic on it. -/
theorem decodeBinaryFrame_cases (frame : List UInt8) :
    (∃ kind id sequence payload, frame = encodeBinaryFrame kind id sequence payload) ∨
      ∃ error, decodeBinaryFrame frame = .ok (.error error) := by
  by_cases hlen : frame.length < 32
  · exact Or.inr ⟨_, by rw [decodeBinaryFrame, if_pos (by exact hlen)]; rfl⟩
  obtain ⟨m₀, m₁, v₀, v₁, k, f₀, f₁, f₂, id, n, payload, hn, rfl⟩ :=
    exists_header (Nat.le_of_not_lt hlen)
  have hmagic : sliceRange ([m₀, m₁, v₀, v₁, k, f₀, f₁, f₂] ++ (id.bytes ++ (n ++ payload))) 0 2 =
      .ok [m₀, m₁] := by simp [sliceRange]
  have hflags : sliceRange ([m₀, m₁, v₀, v₁, k, f₀, f₁, f₂] ++ (id.bytes ++ (n ++ payload))) 5 8 =
      .ok [f₀, f₁, f₂] := by simp [sliceRange]
  rw [decodeBinaryFrame, if_neg (by exact hlen), hmagic, ok_bind]
  by_cases hm : [m₀, m₁] ≠ binaryFrameMagic
  · exact Or.inr ⟨_, by rw [if_pos hm]; rfl⟩
  rw [if_neg hm]
  simp only [index, List.cons_append, List.nil_append, List.getElem?_cons_zero,
    List.getElem?_cons_succ, ok_bind]
  by_cases hv : UInt16.ofNat (ofBeBytes [v₀, v₁]) ≠ protocolVersion
  · exact Or.inr ⟨_, by rw [if_pos hv]; rfl⟩
  rw [if_neg hv]
  cases hk : BinaryFrameKind.tryFrom k with
  | error error => exact Or.inr ⟨_, rfl⟩
  | ok kind =>
    simp only [List.cons_append, List.nil_append] at hflags
    simp only [hflags, ok_bind]
    by_cases hf : [f₀, f₁, f₂] ≠ [0, 0, 0]
    · exact Or.inr ⟨_, by rw [if_pos hf]; rfl⟩
    -- every check passed, so the bytes are those that `encodeBinaryFrame` writes
    refine Or.inl ⟨kind, id, UInt64.ofNat (ofBeBytes n), payload, ?_⟩
    obtain ⟨rfl, rfl⟩ := version_eq (not_not.mp hv)
    simp only [binaryFrameMagic, ne_eq, List.cons.injEq, and_true, not_not] at hm hf
    rw [encodeBinaryFrame_eq, ← eq_toBeBytes hn, BinaryFrameKind.toUInt8_of_tryFrom hk, hm.1, hm.2,
      hf.1, hf.2.1, hf.2.2]

/-! ## The two kinds of frames -/

theorem decodeUploadChunk_encode (kind : BinaryFrameKind) (id : Uuid) (n : UInt64)
    (payload : List UInt8) : decodeUploadChunk (encodeBinaryFrame kind id n payload) =
      .ok (if kind ≠ .uploadChunk then
          .error (.unexpectedKind BinaryFrameKind.uploadChunk.toUInt8 kind.toUInt8)
        else if payload.length > maxUploadChunkBytes then .error .chunkTooLarge
        else .ok ⟨⟨id⟩, n, payload⟩) := by
  rw [decodeUploadChunk, decodeBinaryFrame_encode, ok_bind]
  simp only
  split
  · rfl
  · split <;> rfl

theorem decodeTerminalOutput_encode (kind : BinaryFrameKind) (id : Uuid) (n : UInt64)
    (payload : List UInt8) : decodeTerminalOutput (encodeBinaryFrame kind id n payload) =
      .ok (if kind ≠ .terminalOutput then
          .error (.unexpectedKind BinaryFrameKind.terminalOutput.toUInt8 kind.toUInt8)
        else if payload.length > maxTerminalFrameBytes then .error .terminalFrameTooLarge
        else .ok ⟨⟨id⟩, n, payload⟩) := by
  rw [decodeTerminalOutput, decodeBinaryFrame_encode, ok_bind]
  simp only
  split
  · rfl
  · split <;> rfl

/-- A decoder accepts the frames that its encoder produces, and decodes them back. -/
theorem decodeUploadChunk_eq_ok {bytes : List UInt8} {frame : UploadChunkFrame} :
    decodeUploadChunk bytes = .ok (.ok frame) ↔
      encodeUploadChunk frame.uploadId frame.chunkIndex frame.payload = .ok bytes := by
  rw [encodeUploadChunk]
  constructor
  · intro h
    rcases decodeBinaryFrame_cases bytes with ⟨kind, id, n, payload, rfl⟩ | ⟨error, he⟩
    · rw [decodeUploadChunk_encode] at h
      have h := Except.ok.inj h
      split_ifs at h with hk hp
      · obtain rfl := Except.ok.inj h
        rw [if_neg hp, not_not.mp hk]
    · rw [decodeUploadChunk, he] at h
      exact nomatch (show Except.error error = Except.ok frame from Except.ok.inj h)
  · intro h
    split at h
    · exact nomatch h
    · rename_i hp
      rw [← Except.ok.inj h, decodeUploadChunk_encode, if_neg (fun h => h rfl), if_neg hp]

theorem decodeTerminalOutput_eq_ok {bytes : List UInt8} {frame : TerminalOutputFrame} :
    decodeTerminalOutput bytes = .ok (.ok frame) ↔
      encodeTerminalOutput frame.streamId frame.terminalSequence frame.payload = .ok bytes := by
  rw [encodeTerminalOutput]
  constructor
  · intro h
    rcases decodeBinaryFrame_cases bytes with ⟨kind, id, n, payload, rfl⟩ | ⟨error, he⟩
    · rw [decodeTerminalOutput_encode] at h
      have h := Except.ok.inj h
      split_ifs at h with hk hp
      · obtain rfl := Except.ok.inj h
        rw [if_neg hp, not_not.mp hk]
    · rw [decodeTerminalOutput, he] at h
      exact nomatch (show Except.error error = Except.ok frame from Except.ok.inj h)
  · intro h
    split at h
    · exact nomatch h
    · rename_i hp
      rw [← Except.ok.inj h, decodeTerminalOutput_encode, if_neg (fun h => h rfl), if_neg hp]

/-- A decoder returns on every byte string. -/
theorem decodeUploadChunk_returns (bytes : List UInt8) :
    Returns (fun _ => True) (decodeUploadChunk bytes) := by
  rcases decodeBinaryFrame_cases bytes with ⟨kind, id, n, payload, rfl⟩ | ⟨error, he⟩
  · rw [decodeUploadChunk_encode]
    exact Returns.ok trivial
  · rw [decodeUploadChunk, he]
    exact Returns.ok trivial

theorem decodeTerminalOutput_returns (bytes : List UInt8) :
    Returns (fun _ => True) (decodeTerminalOutput bytes) := by
  rcases decodeBinaryFrame_cases bytes with ⟨kind, id, n, payload, rfl⟩ | ⟨error, he⟩
  · rw [decodeTerminalOutput_encode]
    exact Returns.ok trivial
  · rw [decodeTerminalOutput, he]
    exact Returns.ok trivial

/-! ## The text of an identifier -/

theorem Uuid.exists_bytes (u : Uuid) : ∃ b₀ b₁ b₂ b₃ b₄ b₅ b₆ b₇ b₈ b₉ b₁₀ b₁₁ b₁₂ b₁₃ b₁₄ b₁₅,
    u.bytes = [b₀, b₁, b₂, b₃, b₄, b₅, b₆, b₇, b₈, b₉, b₁₀, b₁₁, b₁₂, b₁₃, b₁₄, b₁₅] := by
  obtain ⟨bytes, h⟩ := u
  match bytes, h with
  | [_, _, _, _, _, _, _, _, _, _, _, _, _, _, _, _], _ =>
    exact ⟨_, _, _, _, _, _, _, _, _, _, _, _, _, _, _, _, rfl⟩

namespace Browser

theorem paddedHex_eq (b : UInt8) : paddedHex b = lowerHex b := by
  have h : ∀ n < 256, (Nat.toDigits 16 n).leftpad 2 '0' =
      [Nat.digitChar (n / 16), Nat.digitChar (n % 16)] := by decide +kernel
  exact h b.toNat b.toNat_lt

/-- The browser shows an identifier as the gateway does. -/
theorem uuidFromBytes_bytes (u : Uuid) : uuidFromBytes u.bytes = u.toText := by
  obtain ⟨_, _, _, _, _, _, _, _, _, _, _, _, _, _, _, _, hu⟩ := u.exists_bytes
  rw [uuidFromBytes, Uuid.toText, hu, show paddedHex = lowerHex from funext paddedHex_eq]
  rfl

theorem toLower_eq_self {c : Char} (h : ¬ (65 ≤ c.toNat ∧ c.toNat ≤ 90)) : c.toLower = c := by
  rw [Char.toLower, dif_neg]
  exact fun hc => h ⟨UInt32.le_iff_toNat_le.mp hc.1, UInt32.le_iff_toNat_le.mp hc.2⟩

/-- An uppercase letter is one of 26 characters. -/
theorem forall_upper {P : Char → Prop} (h : ∀ n < 26, P (Char.ofNat (65 + n))) {c : Char}
    (hc : 65 ≤ c.toNat ∧ c.toNat ≤ 90) : P c := by
  have := h (c.toNat - 65) (by omega)
  rwa [Nat.add_sub_cancel' hc.1, Char.ofNat_toNat] at this

theorem hexValue_toLower (c : Char) : hexValue c.toLower = hexValue c := by
  by_cases hc : 65 ≤ c.toNat ∧ c.toNat ≤ 90
  · exact forall_upper (P := fun c => hexValue c.toLower = hexValue c) (by decide) hc
  · rw [toLower_eq_self hc]

theorem toLower_eq_hyphen (c : Char) : c.toLower = '-' ↔ c = '-' := by
  by_cases hc : 65 ≤ c.toNat ∧ c.toNat ≤ 90
  · exact forall_upper (P := fun c => c.toLower = '-' ↔ c = '-') (by decide) hc
  · rw [toLower_eq_self hc]

theorem bytesOfHex_map_toLower (hex : List Char) :
    bytesOfHex (hex.map Char.toLower) = bytesOfHex hex := by
  fun_induction bytesOfHex hex with
  | case1 c d hex ih => rw [List.map_cons, List.map_cons, bytesOfHex, ih, hexValue_toLower,
      hexValue_toLower]
  | case2 hex h =>
    match hex, h with
    | [], _ => rfl
    | [_], _ => rfl
    | c :: d :: hex, h => exact absurd rfl (h c d hex)

/-- The case of the digits does not matter. -/
theorem uuidToBytes_map_toLower (uuid : List Char) :
    uuidToBytes (uuid.map Char.toLower) = uuidToBytes uuid := by
  have hfilter : (uuid.map Char.toLower).filter (· ≠ '-') =
      (uuid.filter (· ≠ '-')).map Char.toLower := by
    rw [List.filter_map]
    congr 1
    exact List.filter_congr fun c _ => by simp [toLower_eq_hyphen]
  rw [uuidToBytes, uuidToBytes, hfilter]
  simp only [List.length_map, List.all_map, Function.comp_def, hexValue_toLower,
    bytesOfHex_map_toLower]

theorem hexValue_digitChar {n : ℕ} (h : n < 16) : hexValue (Nat.digitChar n) = some n := by
  revert n
  decide

theorem digitChar_ne_hyphen {n : ℕ} (h : n < 16) : Nat.digitChar n ≠ '-' := by
  revert n
  decide

theorem filter_flatMap (bs : List UInt8) :
    (bs.flatMap lowerHex).filter (· ≠ '-') = bs.flatMap lowerHex := by
  rw [List.filter_eq_self]
  intro c hc
  obtain ⟨b, -, hc⟩ := List.mem_flatMap.mp hc
  have hb := b.toNat_lt
  simp only [lowerHex, List.mem_cons, List.not_mem_nil, or_false] at hc
  rcases hc with rfl | rfl
  · exact decide_eq_true (digitChar_ne_hyphen (by omega))
  · exact decide_eq_true (digitChar_ne_hyphen (by omega))

theorem filter_toText (u : Uuid) : u.toText.filter (· ≠ '-') = u.bytes.flatMap lowerHex := by
  rw [Uuid.toText]
  simp only [List.filter_append, List.filter_cons_of_neg (p := fun c => decide (c ≠ '-'))
    (a := '-') (by decide), filter_flatMap]
  obtain ⟨_, _, _, _, _, _, _, _, _, _, _, _, _, _, _, _, hu⟩ := u.exists_bytes
  rw [hu]
  rfl

theorem bytesOfHex_flatMap (bs : List UInt8) : bytesOfHex (bs.flatMap lowerHex) = bs := by
  induction bs with
  | nil => rfl
  | cons b bs ih =>
    have hb := b.toNat_lt
    have h₁ := hexValue_digitChar (n := b.toNat / 16) (by omega)
    have h₂ := hexValue_digitChar (n := b.toNat % 16) (by omega)
    rw [List.flatMap_cons, lowerHex, List.cons_append, List.cons_append, List.nil_append,
      bytesOfHex, ih, h₁, h₂, Option.getD_some, Option.getD_some, Nat.div_add_mod,
      UInt8.ofNat_toNat]

theorem isSome_of_mem_flatMap {bs : List UInt8} {c : Char} (h : c ∈ bs.flatMap lowerHex) :
    (hexValue c).isSome = true := by
  obtain ⟨b, -, hc⟩ := List.mem_flatMap.mp h
  have hb := b.toNat_lt
  simp only [lowerHex, List.mem_cons, List.not_mem_nil, or_false] at hc
  rcases hc with rfl | rfl
  · rw [hexValue_digitChar (by omega)]; rfl
  · rw [hexValue_digitChar (by omega)]; rfl

/-- The browser reads back the bytes of an identifier. -/
theorem uuidToBytes_eq {u : Uuid} {s : List Char} (h : u.IsText s) :
    uuidToBytes s = .ok u.bytes := by
  rw [← uuidToBytes_map_toLower, h, uuidToBytes, filter_toText]
  refine (if_pos ⟨?_, ?_⟩).trans (by rw [bytesOfHex_flatMap])
  · rw [List.length_flatMap, List.map_congr_left (fun b _ => show (lowerHex b).length = 2 from rfl),
      List.map_const', List.sum_replicate, u.length]
    rfl
  · rw [List.all_eq_true]
    exact fun c hc => isSome_of_mem_flatMap hc

/-! ## The browser's frames -/

theorem numberOfBigInt_eq {n : ℕ} (h : n < 2 ^ 53) : numberOfBigInt n = n := if_pos h

theorem slice_of_sliceRange {l l' : List UInt8} {lo hi : ℕ} (h : sliceRange l lo hi = .ok l') :
    slice l lo hi = l' := by
  rw [sliceRange] at h
  split at h
  · exact Except.ok.inj h
  · cases h

/-- The browser decodes a terminal frame. -/
theorem decodeTerminalOutput_encode (id : Uuid) (n : UInt64) (payload : List UInt8) :
    decodeTerminalOutput (encodeBinaryFrame .terminalOutput id n payload) =
      .ok ⟨id.toText, numberOfBigInt n.toNat, payload⟩ := by
  have hlen := length_encodeBinaryFrame .terminalOutput id n payload
  obtain ⟨hid, hseq, hpay⟩ := sliceRange_header (h := [67, 82, 0, 1, 1, 0, 0, 0])
    (p := payload) rfl id.length (length_toBeBytes 8 n.toNat)
  have heq : encodeBinaryFrame .terminalOutput id n payload =
      [67, 82, 0, 1, 1, 0, 0, 0] ++ (id.bytes ++ (toBeBytes 8 n.toNat ++ payload)) :=
    encodeBinaryFrame_eq _ _ _ _
  rw [← heq] at hid hseq hpay
  have hversion : getUint 2 (encodeBinaryFrame .terminalOutput id n payload) 2 = .ok 1 := by
    rw [getUint, if_pos (by omega), heq]
    simp [slice, ofBeBytes]
  have hnum : getUint 8 (encodeBinaryFrame .terminalOutput id n payload) 24 = .ok n.toNat := by
    rw [getUint, if_pos (by omega), slice_of_sliceRange hseq, ofBeBytes_toBeBytes,
      show 256 ^ 8 = 2 ^ 64 by norm_num, Nat.mod_eq_of_lt n.toNat_lt]
  have hdrop : (encodeBinaryFrame .terminalOutput id n payload).drop 32 = payload := by
    have := slice_of_sliceRange hpay
    rwa [slice, List.take_length] at this
  rw [decodeTerminalOutput, if_neg (by rw [binaryFrameHeaderBytes]; omega), hversion, hnum]
  simp only [binaryFrameHeaderBytes, hdrop, slice_of_sliceRange hid, uuidFromBytes_bytes]
  rw [heq]
  rfl

/-- `set` writes into the zeros behind what is written already, and may skip some. -/
theorem set_zeros (l bytes : List UInt8) {k m n i : ℕ} (hn : n = k + bytes.length + m)
    (hi : i = l.length + k) : set (l ++ List.replicate n 0) bytes i =
      .ok (l ++ List.replicate k 0 ++ bytes ++ List.replicate m 0) := by
  subst hn hi
  have htake : (l ++ List.replicate (k + bytes.length + m) (0 : UInt8)).take (l.length + k) =
      l ++ List.replicate k 0 := by
    rw [List.take_append, List.take_of_length_le (by omega), Nat.add_sub_cancel_left,
      List.take_replicate, min_eq_left (by omega)]
  have hdrop : (l ++ List.replicate (k + bytes.length + m) (0 : UInt8)).drop
      (l.length + k + bytes.length) = List.replicate m 0 := by
    rw [List.drop_append, List.drop_eq_nil_of_le (by omega), List.nil_append, List.drop_replicate]
    congr 1
    omega
  rw [set, if_pos (by rw [List.length_append, List.length_replicate]; omega), htake, hdrop]

/-- The browser encodes an upload chunk as the gateway would. -/
theorem encodeUploadChunk_eq {u : Uuid} {s : List Char} (hs : u.IsText s) {index : ℕ}
    (hi : index < 2 ^ 53) {payload : List UInt8} (hp : payload.length ≤ maxUploadChunkBytes) :
    encodeUploadChunk s index payload =
      .ok (encodeBinaryFrame .uploadChunk u (UInt64.ofNat index) payload) := by
  have hindex : (UInt64.ofNat index).toNat = index := by
    rw [UInt64.toNat_ofNat', Nat.mod_eq_of_lt (by omega)]
  have hmagic := set_zeros [] binaryFrameMagic (k := 0) (m := 30 + payload.length)
    (n := 32 + payload.length) (i := 0) (by rw [binaryFrameMagic]; simp; omega) rfl
  have hversion := set_zeros [67, 82] [0, 1] (k := 0) (m := 28 + payload.length)
    (n := 30 + payload.length) (i := 2) (by simp; omega) rfl
  have hkind := set_zeros [67, 82, 0, 1] [2] (k := 0) (m := 27 + payload.length)
    (n := 28 + payload.length) (i := 4) (by simp; omega) rfl
  have hid := set_zeros [67, 82, 0, 1, 2] u.bytes (k := 3) (m := 8 + payload.length)
    (n := 27 + payload.length) (i := 8) (by rw [u.length]; omega) rfl
  have hchunk := set_zeros ([67, 82, 0, 1, 2, 0, 0, 0] ++ u.bytes) (toBeBytes 8 index) (k := 0)
    (m := payload.length) (n := 8 + payload.length) (i := 24)
    (by rw [length_toBeBytes]) (by simp [u.length])
  have hpayload := set_zeros ([67, 82, 0, 1, 2, 0, 0, 0] ++ u.bytes ++ toBeBytes 8 index) payload
    (k := 0) (m := 0) (n := payload.length) (i := 32) (by omega) (by simp [u.length])
  simp only [binaryFrameMagic, List.nil_append, List.append_nil, List.replicate_zero,
    List.cons_append, List.append_assoc, List.replicate_succ]
    at hmagic hversion hkind hid hchunk hpayload
  rw [encodeUploadChunk, if_neg (by omega), encodeBinaryFrame_eq, hindex, toBeBytes_version,
    uuidToBytes_eq hs, binaryFrameHeaderBytes, binaryFrameMagic]
  simp only [hmagic]
  change (set _ [0, 1] 2 >>= _) = _
  rw [hversion]
  change (set _ [2] 4 >>= _) = _
  rw [hkind]
  change (set _ u.bytes 8 >>= _) = _
  rw [hid]
  change (set _ (toBeBytes 8 index) 24 >>= _) = _
  rw [hchunk]
  exact hpayload

end Browser

/-! ## Both ends -/

theorem exists_encodeUploadChunk (uploadId : UploadId) (chunkIndex : UInt64) {payload : List UInt8}
    (h : payload.length ≤ maxUploadChunkBytes) :
    ∃ bytes, encodeUploadChunk uploadId chunkIndex payload = .ok bytes ∧
      decodeUploadChunk bytes = .ok (.ok ⟨uploadId, chunkIndex, payload⟩) := by
  have he : encodeUploadChunk uploadId chunkIndex payload = .ok _ := if_neg (by omega)
  exact ⟨_, he, decodeUploadChunk_eq_ok.mpr he⟩

theorem exists_encodeTerminalOutput (streamId : TerminalStreamId) (terminalSequence : UInt64)
    {payload : List UInt8} (h : payload.length ≤ maxTerminalFrameBytes) :
    ∃ bytes, encodeTerminalOutput streamId terminalSequence payload = .ok bytes ∧
      decodeTerminalOutput bytes = .ok (.ok ⟨streamId, terminalSequence, payload⟩) := by
  have he : encodeTerminalOutput streamId terminalSequence payload = .ok _ := if_neg (by omega)
  exact ⟨_, he, decodeTerminalOutput_eq_ok.mpr he⟩

/-- The browser reads in a frame what the gateway's decoder reads in it. -/
theorem Browser.decodeTerminalOutput_eq {bytes : List UInt8} {frame : Clinch.TerminalOutputFrame}
    (h : Clinch.decodeTerminalOutput bytes = .ok (.ok frame))
    (hn : frame.terminalSequence.toNat < 2 ^ 53) : Browser.decodeTerminalOutput bytes =
      .ok ⟨frame.streamId.uuid.toText, frame.terminalSequence.toNat, frame.payload⟩ := by
  have he := decodeTerminalOutput_eq_ok.mp h
  rw [encodeTerminalOutput] at he
  split at he
  · exact nomatch he
  · rw [← Except.ok.inj he, Browser.decodeTerminalOutput_encode, Browser.numberOfBigInt_eq hn]

theorem mem_terminalFrames {streamId : TerminalStreamId} {chunks : List (List UInt8)} {n : UInt64}
    {bytes : List UInt8} (h : bytes ∈ (terminalFrames streamId n chunks).1) :
    ∃ frame, decodeTerminalOutput bytes = .ok (.ok frame) ∧ frame.streamId = streamId := by
  induction chunks generalizing n with
  | nil => exact nomatch h
  | cons chunk chunks ih =>
    rw [terminalFrames] at h
    split at h
    · exact ih h
    · rename_i he
      rcases List.mem_cons.mp h with rfl | h
      · exact ⟨⟨streamId, saturatingSucc n, chunk⟩, decodeTerminalOutput_eq_ok.mpr he, rfl⟩
      · exact ih h

/-- **Binary frames agree across the wire.** The decoders invert their encoders, accept nothing
else and never panic; the browser reads the gateway's terminal frames as the gateway's decoder
does, and the gateway's decoder reads back the browser's upload chunks. -/
theorem binary_frames_agree :
    (∀ uploadId chunkIndex payload, payload.length ≤ maxUploadChunkBytes →
      ∃ bytes, encodeUploadChunk uploadId chunkIndex payload = .ok bytes ∧
        decodeUploadChunk bytes = .ok (.ok ⟨uploadId, chunkIndex, payload⟩)) ∧
    (∀ streamId terminalSequence payload, payload.length ≤ maxTerminalFrameBytes →
      ∃ bytes, encodeTerminalOutput streamId terminalSequence payload = .ok bytes ∧
        decodeTerminalOutput bytes = .ok (.ok ⟨streamId, terminalSequence, payload⟩)) ∧
    (∀ bytes, ∃ result, decodeUploadChunk bytes = .ok result ∧
      ∀ frame, result = .ok frame ↔
        encodeUploadChunk frame.uploadId frame.chunkIndex frame.payload = .ok bytes) ∧
    (∀ bytes, ∃ result, decodeTerminalOutput bytes = .ok result ∧
      ∀ frame, result = .ok frame ↔
        encodeTerminalOutput frame.streamId frame.terminalSequence frame.payload = .ok bytes) ∧
    (∀ streamId n output, ∀ bytes ∈ (sendTerminalOutput streamId n output).1,
      ∃ frame, decodeTerminalOutput bytes = .ok (.ok frame) ∧ frame.streamId = streamId) ∧
    (∀ bytes frame, decodeTerminalOutput bytes = .ok (.ok frame) →
      frame.terminalSequence.toNat < 2 ^ 53 → Browser.decodeTerminalOutput bytes =
        .ok ⟨frame.streamId.uuid.toText, frame.terminalSequence.toNat, frame.payload⟩) ∧
    (∀ uploadId s index payload, Uuid.IsText uploadId.uuid s → index < 2 ^ 53 →
      payload.length ≤ maxUploadChunkBytes →
      ∃ bytes, Browser.encodeUploadChunk s index payload = .ok bytes ∧
        decodeUploadChunk bytes = .ok (.ok ⟨uploadId, UInt64.ofNat index, payload⟩)) := by
  refine ⟨fun _ _ _ => exists_encodeUploadChunk _ _, fun _ _ _ => exists_encodeTerminalOutput _ _,
    fun bytes => ?_, fun bytes => ?_, fun _ _ _ _ => mem_terminalFrames,
    fun _ _ => Browser.decodeTerminalOutput_eq, fun uploadId s index payload hs hi hp => ?_⟩
  · obtain ⟨result, hr, -⟩ := decodeUploadChunk_returns bytes
    refine ⟨result, hr, fun frame => ?_⟩
    rw [← decodeUploadChunk_eq_ok, hr, Except.ok.injEq]
  · obtain ⟨result, hr, -⟩ := decodeTerminalOutput_returns bytes
    refine ⟨result, hr, fun frame => ?_⟩
    rw [← decodeTerminalOutput_eq_ok, hr, Except.ok.injEq]
  · refine ⟨_, Browser.encodeUploadChunk_eq hs hi hp, ?_⟩
    rw [decodeUploadChunk_encode, if_neg (fun h => h rfl), if_neg (by omega)]

end Clinch
