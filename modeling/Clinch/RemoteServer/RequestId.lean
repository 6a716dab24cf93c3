import Clinch.Rust
import Clinch.Utf8
import Clinch.Varint

/-!
# Request ids of corrupt messages

`remote_server/protocol.rs`. When a message does not decode, its request id is read from the raw
bytes: field 1 of the message is a string, that is a tag, the length as a varint and the text.

* `decodeVarint`, `fromUtf8`, `tryExtractRequestId`: the reader, with the shifts and slices that
  could panic;
* `KeepsBits`, `FitsU64`: no turn of the loop shifts bits out of the number, and which bytes these
  are;
* `decodeVarint_spells`, `decodeVarint_varint`: what is read then, and that every length is read;
* `StartsWithField`, `tryExtractRequestId_sound`, `tryExtractRequestId_field`: the same for ids.
-/

set_option autoImplicit false

namespace Clinch

namespace RemoteServer

/-- `<<` of a `u64`: a shift by all bits panics, and bits that are shifted out are lost. -/
def shiftLeftU64 (a amount : ℕ) : Result ℕ :=
  if amount < 64 then .ok ((a <<< amount) % 2 ^ 64) else .error .overflow

/-- The loop of `decode_varint` from the byte at `i` on. -/
def decodeVarintFrom : ℕ → ℕ → List UInt8 → Result (Option (ℕ × ℕ))
  | _, _, [] => .ok none
  | i, result, byte :: bytes =>
    if 10 ≤ i then .ok none
    else do
      let group ← shiftLeftU64 (byte.toNat &&& 0x7f) (i * 7)
      let result := result ||| group
      if byte.toNat &&& 0x80 = 0 then return some (result, i + 1)
      else decodeVarintFrom (i + 1) result bytes

/-- `decode_varint`: the number and the bytes that it took. -/
def decodeVarint (buf : List UInt8) : Result (Option (ℕ × ℕ)) := decodeVarintFrom 0 0 buf

/-- `std::str::from_utf8`. -/
def fromUtf8 (bytes : List UInt8) : Option (List Char) :=
  if utf8 (utf8Chars bytes) = bytes then some (utf8Chars bytes) else none

/-- The tag of field 1, a string. -/
def stringTag : UInt8 := 0x0a

/-- `try_extract_request_id`. -/
def tryExtractRequestId (buf : List UInt8) : Result (Option (List Char)) :=
  if buf.head? ≠ some stringTag then .ok none
  else do
    let buf ← sliceRange buf 1 buf.length
    match ← decodeVarint buf with
    | none => return none
    | some (len, consumed) =>
      let buf ← sliceRange buf consumed buf.length
      if buf.length < len then return none
      else
        let bytes ← sliceRange buf 0 len
        match fromUtf8 bytes with
        | none => return none
        | some s => if s = [] then return none else return some s

theorem fromUtf8_eq_some {bytes : List UInt8} {s : List Char} :
    fromUtf8 bytes = some s ↔ bytes = utf8 s := by
  rw [fromUtf8]
  constructor
  · intro h
    split at h
    · rename_i hvalid
      rw [← Option.some.inj h, hvalid]
    · exact nomatch h
  · rintro rfl
    rw [utf8Chars_utf8, if_pos rfl]

/-! ## The groups of a varint -/

theorem and_low (b : UInt8) : b.toNat &&& 0x7f = b.toNat % 128 :=
  Nat.and_two_pow_sub_one_eq_mod b.toNat 7

theorem and_high (b : UInt8) : b.toNat &&& 0x80 = 0 ↔ ¬ Continues b := by
  have hb := b.toNat_lt
  have hand : b.toNat &&& 0x80 = (b.toNat.testBit 7).toNat * 2 ^ 7 := Nat.and_two_pow b.toNat 7
  rw [hand, Nat.testBit_eq_decide_div_mod_eq, Continues]
  by_cases hhigh : b.toNat / 2 ^ 7 % 2 = 1
  · simp only [hhigh, decide_true, Bool.toNat_true]
    omega
  · simp only [hhigh, decide_false, Bool.toNat_false]
    omega

/-- The bits that a byte adds to the number. -/
def group (i : ℕ) (b : UInt8) : ℕ := ((b.toNat % 128) <<< (i * 7)) % 2 ^ 64

/-- One turn of the loop. -/
theorem decodeVarintFrom_cons {i : ℕ} (hi : i < 10) (result : ℕ) (b : UInt8) (bytes : List UInt8) :
    decodeVarintFrom i result (b :: bytes) =
      if Continues b then decodeVarintFrom (i + 1) (result ||| group i b) bytes
      else .ok (some (result ||| group i b, i + 1)) := by
  rw [decodeVarintFrom, if_neg (by omega), and_low, shiftLeftU64, if_pos (by omega), ok_bind]
  by_cases hb : Continues b
  · rw [if_pos hb, if_neg (mt (and_high b).mp (not_not_intro hb)), group]
  · rw [if_neg hb, if_pos ((and_high b).mpr hb), group]
    rfl

theorem decodeVarintFrom_ten {i : ℕ} (hi : 10 ≤ i) (result : ℕ) (bytes : List UInt8) :
    decodeVarintFrom i result bytes = .ok none := by
  cases bytes with
  | nil => rfl
  | cons b bytes => rw [decodeVarintFrom, if_pos hi]

/-- A group above the bits that are there, none of which is lost. -/
theorem or_group {result i : ℕ} {b : UInt8} (hresult : result < 2 ^ (i * 7))
    (hkeeps : b.toNat % 128 * 2 ^ (i * 7) < 2 ^ 64) :
    result ||| group i b = result + 2 ^ (i * 7) * (b.toNat % 128) := by
  rw [group, Nat.shiftLeft_eq, Nat.mod_eq_of_lt hkeeps, ← Nat.shiftLeft_eq, Nat.or_comm,
    ← Nat.shiftLeft_add_eq_or_of_lt hresult, Nat.shiftLeft_eq]
  ring

theorem pow_succ_group (i : ℕ) : 2 ^ ((i + 1) * 7) = 2 ^ (i * 7) * 128 := by
  rw [Nat.succ_mul, pow_add]
  norm_num

theorem or_group_lt {result i : ℕ} {b : UInt8} (hresult : result < 2 ^ (i * 7))
    (hkeeps : b.toNat % 128 * 2 ^ (i * 7) < 2 ^ 64) :
    result ||| group i b < 2 ^ ((i + 1) * 7) := by
  have hlow : b.toNat % 128 ≤ 127 := by omega
  rw [or_group hresult hkeeps, pow_succ_group]
  have hmul := Nat.mul_le_mul_left (2 ^ (i * 7)) hlow
  omega

/-- At no turn of the loop bits are shifted out. -/
def KeepsBits : ℕ → List UInt8 → Prop
  | _, [] => True
  | i, byte :: bytes => i < 10 →
    byte.toNat % 128 * 2 ^ (i * 7) < 2 ^ 64 ∧ (Continues byte → KeepsBits (i + 1) bytes)

/-- Behind nine bytes that continue, a tenth one has at most one bit. -/
def FitsU64 (bytes : List UInt8) : Prop :=
  ∀ b, bytes[9]? = some b → (∀ c ∈ bytes.take 9, Continues c) → b.toNat % 128 ≤ 1

theorem keepsBits_ten (bytes : List UInt8) : KeepsBits 10 bytes := by
  cases bytes with
  | nil => trivial
  | cons b bytes => exact fun h => absurd h (lt_irrefl 10)

/-- Only the tenth byte has bits to lose. -/
theorem keepsBits_iff {i : ℕ} (hi : i ≤ 9) (bytes : List UInt8) :
    KeepsBits i bytes ↔ ∀ b, bytes[9 - i]? = some b → (∀ c ∈ bytes.take (9 - i), Continues c) →
      b.toNat % 128 ≤ 1 := by
  induction bytes generalizing i with
  | nil => exact iff_of_true trivial fun b h => (nomatch h)
  | cons b bytes ih =>
    rcases Nat.lt_or_ge i 9 with hlt | hge
    · have hnine : 9 - i = 9 - (i + 1) + 1 := by omega
      have hkeeps : b.toNat % 128 * 2 ^ (i * 7) < 2 ^ 64 := by
        have hlow : b.toNat % 128 ≤ 127 := by omega
        have hpow : 2 ^ (i * 7) ≤ 2 ^ 56 := Nat.pow_le_pow_right (by decide) (by omega)
        calc b.toNat % 128 * 2 ^ (i * 7) ≤ 127 * 2 ^ 56 := Nat.mul_le_mul hlow hpow
          _ < 2 ^ 64 := by decide
      rw [hnine, KeepsBits, List.getElem?_cons_succ, List.take_succ_cons]
      simp only [List.forall_mem_cons]
      constructor
      · intro h b' hb' hcont
        exact (ih hlt).mp ((h (by omega)).2 hcont.1) b' hb' hcont.2
      · intro h _
        exact ⟨hkeeps, fun hb => (ih hlt).mpr fun b' hb' hcont => h b' hb' ⟨hb, hcont⟩⟩
    · obtain rfl : i = 9 := by omega
      rw [KeepsBits]
      constructor
      · intro h b' hb' _
        have hb : b = b' := by simpa using hb'
        have hlt := (h (by decide)).1
        rw [← hb]
        omega
      · intro h _
        have hone := h b rfl fun c hc => (nomatch hc)
        exact ⟨by omega, fun _ => keepsBits_ten bytes⟩

theorem keepsBits_zero (bytes : List UInt8) : KeepsBits 0 bytes ↔ FitsU64 bytes :=
  keepsBits_iff (Nat.zero_le 9) bytes

/-! ## Reading a varint -/

/-- The loop does not panic, and takes no more bytes than there are. -/
theorem decodeVarintFrom_total (i result : ℕ) (bytes : List UInt8) :
    ∃ r, decodeVarintFrom i result bytes = .ok r ∧
      ∀ n consumed, r = some (n, consumed) → i < consumed ∧ consumed ≤ i + bytes.length := by
  induction bytes generalizing i result with
  | nil => exact ⟨none, rfl, fun _ _ h => (nomatch h)⟩
  | cons b bytes ih =>
    rcases Nat.lt_or_ge i 10 with hlt | hge
    · rw [decodeVarintFrom_cons hlt]
      split
      · obtain ⟨r, hr, hconsumed⟩ := ih (i + 1) (result ||| group i b)
        refine ⟨r, hr, fun n consumed heq => ?_⟩
        have hbounds := hconsumed n consumed heq
        rw [List.length_cons]
        omega
      · refine ⟨_, rfl, fun n consumed heq => ?_⟩
        obtain ⟨-, rfl⟩ := Prod.mk.inj (Option.some.inj heq)
        rw [List.length_cons]
        omega
    · exact ⟨none, decodeVarintFrom_ten hge result _, fun _ _ h => (nomatch h)⟩

/-- What is read is spelled by the bytes that were taken, when no bits are lost. -/
theorem decodeVarintFrom_spells {i result n consumed : ℕ} {bytes : List UInt8}
    (hresult : result < 2 ^ (i * 7)) (hkeeps : KeepsBits i bytes)
    (h : decodeVarintFrom i result bytes = .ok (some (n, consumed))) :
    ∃ m, SpellsVarint (bytes.take (consumed - i)) m ∧ n = result + 2 ^ (i * 7) * m := by
  induction bytes generalizing i result with
  | nil => exact nomatch h
  | cons b bytes ih =>
    rcases Nat.lt_or_ge i 10 with hlt | hge
    · rw [decodeVarintFrom_cons hlt] at h
      obtain ⟨hgroup, hrest⟩ := hkeeps hlt
      have hor := or_group hresult hgroup
      split at h
      · rename_i hb
        obtain ⟨r, hr, hconsumed⟩ := decodeVarintFrom_total (i + 1) (result ||| group i b) bytes
        obtain ⟨hgt, -⟩ := hconsumed n consumed (Except.ok.inj (hr.symm.trans h))
        obtain ⟨m, hm, hn⟩ := ih (or_group_lt hresult hgroup) (hrest hb) h
        have htake : consumed - i = consumed - (i + 1) + 1 := by omega
        refine ⟨b.toNat % 128 + 128 * m, ?_, ?_⟩
        · rw [htake, List.take_succ_cons]
          exact spells_cons hb hm
        · rw [hn, hor, pow_succ_group]
          ring
      · rename_i hb
        obtain ⟨rfl, rfl⟩ := Prod.mk.inj (Option.some.inj (Except.ok.inj h))
        refine ⟨b.toNat % 128, ?_, hor⟩
        have hlow : b.toNat % 128 = b.toNat := Nat.mod_eq_of_lt (not_le.mp hb)
        rw [Nat.add_sub_cancel_left, List.take_succ_cons, List.take_zero, hlow]
        exact spells_singleton.mpr ⟨hb, rfl⟩
    · rw [decodeVarintFrom_ten hge] at h
      exact nomatch h

/-- A number that is spelled with at most ten bytes and fits is read. -/
theorem decodeVarintFrom_of_spells {i result m : ℕ} {spelled rest : List UInt8}
    (hresult : result < 2 ^ (i * 7)) (hspells : SpellsVarint spelled m)
    (hlen : i + spelled.length ≤ 10) (hm : m * 2 ^ (i * 7) < 2 ^ 64) :
    decodeVarintFrom i result (spelled ++ rest) =
      .ok (some (result + 2 ^ (i * 7) * m, i + spelled.length)) := by
  obtain ⟨front, last, rfl, hfront, hlast, hvalue⟩ := hspells
  induction front generalizing i result m with
  | nil =>
    have hlow : last.toNat % 128 = last.toNat := Nat.mod_eq_of_lt (not_le.mp hlast)
    have hmlast : m = last.toNat % 128 := by
      rw [← hvalue]
      simp [varintValue]
    rw [hmlast] at hm
    change i + 1 ≤ 10 at hlen
    rw [List.nil_append, List.singleton_append, decodeVarintFrom_cons (by omega), if_neg hlast,
      or_group hresult hm, hmlast]
    rfl
  | cons b front ih =>
    have hb := hfront b List.mem_cons_self
    have hmb : m = b.toNat % 128 + 128 * varintValue (front ++ [last]) := by
      rw [← hvalue]
      rfl
    have hsum : m * 2 ^ (i * 7) =
        b.toNat % 128 * 2 ^ (i * 7) + varintValue (front ++ [last]) * 2 ^ ((i + 1) * 7) := by
      rw [hmb, pow_succ_group]
      ring
    have hgroup : b.toNat % 128 * 2 ^ (i * 7) < 2 ^ 64 := by omega
    rw [List.cons_append, List.length_cons] at hlen
    rw [List.cons_append, List.cons_append, decodeVarintFrom_cons (by omega), if_pos hb,
      ih (or_group_lt hresult hgroup) (by omega) (by omega)
        (fun c hc => hfront c (List.mem_cons_of_mem _ hc)) rfl, or_group hresult hgroup, hmb,
      pow_succ_group, List.length_cons]
    refine congrArg (fun p => Except.ok (some p)) (Prod.ext ?_ ?_)
    · simp only
      ring
    · simp only
      omega

/-! ## Reading a request id -/

/-- The bytes begin with a string in field 1: the tag, its length and its text. -/
def StartsWithField (buf : List UInt8) (id : List Char) : Prop :=
  ∃ length rest, SpellsVarint length (utf8 id).length ∧
    buf = stringTag :: (length ++ utf8 id ++ rest)

/-- Behind the tag the length is read first. -/
theorem tryExtractRequestId_tag (bytes : List UInt8) :
    sliceRange (stringTag :: bytes) 1 (stringTag :: bytes).length = .ok bytes := by
  rw [sliceRange, if_pos (by simp), List.take_length]
  rfl

/-- What is done behind the length. -/
theorem tryExtractRequestId_eq {bytes : List UInt8} {n consumed : ℕ}
    (h : decodeVarint bytes = .ok (some (n, consumed))) (hconsumed : consumed ≤ bytes.length) :
    tryExtractRequestId (stringTag :: bytes) =
      if bytes.length - consumed < n then .ok none
      else match fromUtf8 ((bytes.drop consumed).take n) with
        | none => .ok none
        | some s => if s = [] then .ok none else .ok (some s) := by
  have hrest : sliceRange bytes consumed bytes.length = .ok (bytes.drop consumed) := by
    rw [sliceRange, if_pos ⟨hconsumed, le_rfl⟩, List.take_length]
  rw [tryExtractRequestId, if_neg (by simp), tryExtractRequestId_tag, ok_bind, h, ok_bind]
  simp only
  rw [hrest, ok_bind, List.length_drop]
  split
  · rfl
  · rename_i hlen
    rw [sliceRange, if_pos ⟨Nat.zero_le _, by rw [List.length_drop]; omega⟩, ok_bind,
      List.drop_zero]
    cases fromUtf8 ((bytes.drop consumed).take n) with
    | none => rfl
    | some s =>
      simp only
      split <;> rfl

theorem tryExtractRequestId_none {buf : List UInt8} (h : buf.head? ≠ some stringTag) :
    tryExtractRequestId buf = .ok none := if_pos h

/-- An id is read behind the tag and a length, or none is; nothing panics. -/
theorem tryExtractRequestId_cases (buf : List UInt8) :
    tryExtractRequestId buf = .ok none ∨
      ∃ bytes n consumed s, buf = stringTag :: bytes ∧
        decodeVarint bytes = .ok (some (n, consumed)) ∧ consumed ≤ bytes.length ∧
        n ≤ bytes.length - consumed ∧ (bytes.drop consumed).take n = utf8 s ∧
        tryExtractRequestId buf = .ok (some s) := by
  by_cases htag : buf.head? = some stringTag
  · obtain ⟨bytes, rfl⟩ : ∃ bytes, buf = stringTag :: bytes := by
      cases buf with
      | nil => exact nomatch htag
      | cons b bytes => exact ⟨bytes, by rw [Option.some.inj htag]⟩
    obtain ⟨r, hr, hconsumed⟩ := decodeVarintFrom_total 0 0 bytes
    cases r with
    | none =>
      left
      rw [tryExtractRequestId, if_neg (by simp), tryExtractRequestId_tag, ok_bind, decodeVarint, hr]
      rfl
    | some p =>
      obtain ⟨n, consumed⟩ := p
      obtain ⟨-, hle⟩ := hconsumed n consumed rfl
      rw [Nat.zero_add] at hle
      have heq := tryExtractRequestId_eq hr hle
      split at heq
      · exact Or.inl heq
      · rename_i hlen
        split at heq
        · exact Or.inl heq
        · rename_i s hutf8
          split at heq
          · exact Or.inl heq
          · exact Or.inr ⟨bytes, n, consumed, s, rfl, hr, hle, not_lt.mp hlen,
              fromUtf8_eq_some.mp hutf8, heq⟩
  · exact Or.inl (tryExtractRequestId_none htag)

theorem tryExtractRequestId_total (buf : List UInt8) :
    ∃ r, tryExtractRequestId buf = .ok r := by
  rcases tryExtractRequestId_cases buf with h | ⟨-, -, -, s, -, -, -, -, -, h⟩
  · exact ⟨none, h⟩
  · exact ⟨some s, h⟩

/-- An id that is read is a string in field 1, when its length keeps its bits. -/
theorem tryExtractRequestId_sound {bytes : List UInt8} {id : List Char} (hfits : FitsU64 bytes)
    (h : tryExtractRequestId (stringTag :: bytes) = .ok (some id)) :
    StartsWithField (stringTag :: bytes) id := by
  rcases tryExtractRequestId_cases (stringTag :: bytes) with hnone |
    ⟨bytes', n, consumed, s, hbuf, hvarint, hconsumed, hlen, htext, hsome⟩
  · rw [hnone] at h
    exact nomatch h
  · obtain rfl : bytes = bytes' := (List.cons.inj hbuf).2
    obtain rfl : s = id := Option.some.inj (Except.ok.inj (hsome.symm.trans h))
    obtain ⟨m, hspells, hm⟩ := decodeVarintFrom_spells (by decide) ((keepsBits_zero bytes).mpr hfits)
      hvarint
    rw [Nat.zero_mul, pow_zero, Nat.one_mul, Nat.zero_add] at hm
    rw [Nat.sub_zero] at hspells
    have hn : (utf8 s).length = n := by
      rw [← htext, List.length_take, List.length_drop]
      omega
    refine ⟨bytes.take consumed, (bytes.drop consumed).drop n, ?_, ?_⟩
    · rw [hn, hm]
      exact hspells
    · rw [← htext, List.append_assoc, List.take_append_drop, List.take_append_drop]

/-- An intact id is read. -/
theorem tryExtractRequestId_field {length : List UInt8} {id : List Char} (rest : List UInt8)
    (hspells : SpellsVarint length (utf8 id).length) (hlen : length.length ≤ 10)
    (hfits : (utf8 id).length < 2 ^ 64) (hne : id ≠ []) :
    tryExtractRequestId (stringTag :: (length ++ utf8 id ++ rest)) = .ok (some id) := by
  have hvarint : decodeVarint (length ++ utf8 id ++ rest) =
      .ok (some ((utf8 id).length, length.length)) := by
    rw [List.append_assoc, decodeVarint, decodeVarintFrom_of_spells (by decide) hspells (by omega)
      (by rwa [Nat.zero_mul, pow_zero, Nat.mul_one])]
    simp
  have htext : ((length ++ utf8 id ++ rest).drop length.length).take (utf8 id).length = utf8 id := by
    rw [List.append_assoc, List.drop_left, List.take_left]
  rw [tryExtractRequestId_eq hvarint (by simp), htext, fromUtf8_eq_some.mpr rfl]
  simp only [List.length_append]
  rw [if_neg (by omega), if_neg hne]

end RemoteServer

end Clinch
