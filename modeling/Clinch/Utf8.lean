import Mathlib

/-!
# UTF-8

* `utf8`, `utf8Chars`: the bytes of a text, and `chars` of a UTF-8 string;
* **`utf8Chars_utf8`**: the text is read back from its bytes.
-/

set_option autoImplicit false

namespace Clinch

/-- The bytes of a text. -/
def utf8 (text : List Char) : List UInt8 := text.flatMap String.utf8EncodeChar

/-- The characters of a UTF-8 string. -/
def utf8Chars : List UInt8 → List Char
  | [] => []
  | a :: rest =>
    if a.toNat < 0x80 then Char.ofNat a.toNat :: utf8Chars rest
    else match rest with
      | [] => [Char.ofNat a.toNat]
      | b :: rest =>
        if a.toNat < 0xe0 then Char.ofNat (a.toNat % 0x20 * 0x40 + b.toNat % 0x40) :: utf8Chars rest
        else match rest with
          | [] => [Char.ofNat a.toNat]
          | c :: rest =>
            if a.toNat < 0xf0 then
              Char.ofNat ((a.toNat % 0x10 * 0x40 + b.toNat % 0x40) * 0x40 + c.toNat % 0x40) ::
                utf8Chars rest
            else match rest with
              | [] => [Char.ofNat a.toNat]
              | d :: rest =>
                Char.ofNat (((a.toNat % 0x08 * 0x40 + b.toNat % 0x40) * 0x40 + c.toNat % 0x40)
                  * 0x40 + d.toNat % 0x40) :: utf8Chars rest

theorem utf8Chars_one {a : UInt8} (h : a.toNat < 0x80) (rest : List UInt8) :
    utf8Chars (a :: rest) = Char.ofNat a.toNat :: utf8Chars rest := by
  rw [utf8Chars.eq_def]
  exact if_pos h

theorem utf8Chars_two {a : UInt8} (h : 0x80 ≤ a.toNat) (h' : a.toNat < 0xe0) (b : UInt8)
    (rest : List UInt8) :
    utf8Chars (a :: b :: rest) =
      Char.ofNat (a.toNat % 0x20 * 0x40 + b.toNat % 0x40) :: utf8Chars rest := by
  rw [utf8Chars.eq_def]
  exact (if_neg (not_lt.mpr h)).trans (if_pos h')

theorem utf8Chars_three {a : UInt8} (h : 0xe0 ≤ a.toNat) (h' : a.toNat < 0xf0) (b c : UInt8)
    (rest : List UInt8) :
    utf8Chars (a :: b :: c :: rest) =
      Char.ofNat ((a.toNat % 0x10 * 0x40 + b.toNat % 0x40) * 0x40 + c.toNat % 0x40) ::
        utf8Chars rest := by
  rw [utf8Chars.eq_def]
  exact (if_neg (by omega)).trans ((if_neg (by omega)).trans (if_pos h'))

theorem utf8Chars_four {a : UInt8} (h : 0xf0 ≤ a.toNat) (b c d : UInt8) (rest : List UInt8) :
    utf8Chars (a :: b :: c :: d :: rest) =
      Char.ofNat (((a.toNat % 0x08 * 0x40 + b.toNat % 0x40) * 0x40 + c.toNat % 0x40) * 0x40 +
        d.toNat % 0x40) :: utf8Chars rest := by
  rw [utf8Chars.eq_def]
  exact (if_neg (by omega)).trans ((if_neg (by omega)).trans (if_neg (by omega)))

theorem toNat_byte {n : ℕ} (h : n < 256) : (UInt8.ofNat n).toNat = n :=
  UInt8.toNat_ofNat_of_lt' h

/-- A character is read back from its bytes. -/
theorem utf8Chars_encode (c : Char) (rest : List UInt8) :
    utf8Chars (String.utf8EncodeChar c ++ rest) = c :: utf8Chars rest := by
  have hc : c.val.toNat < 0x110000 := by
    rcases c.valid with h | h <;> omega
  have hof : ∀ {n : ℕ} {cs : List Char}, n = c.val.toNat → Char.ofNat n :: cs = c :: cs := by
    rintro n cs rfl
    exact congrArg (· :: cs) (Char.ofNat_toNat c)
  unfold String.utf8EncodeChar
  dsimp only
  generalize c.val.toNat = v at hc hof ⊢
  split
  · have ha : (UInt8.ofNat v).toNat = v := toNat_byte (by omega)
    rw [List.cons_append, List.nil_append, utf8Chars_one (by omega), ha]
    exact hof rfl
  split
  · have ha : (UInt8.ofNat (v / 64 % 0x20 + 0xc0)).toNat = v / 64 % 0x20 + 0xc0 :=
      toNat_byte (by omega)
    have hb : (UInt8.ofNat (v % 0x40 + 0x80)).toNat = v % 0x40 + 0x80 :=
      toNat_byte (by omega)
    simp only [List.cons_append, List.nil_append]
    rw [utf8Chars_two (by omega) (by omega), ha, hb]
    exact hof (by omega)
  split
  · have ha : (UInt8.ofNat (v / 4096 % 0x10 + 0xe0)).toNat = v / 4096 % 0x10 + 0xe0 :=
      toNat_byte (by omega)
    have hb : (UInt8.ofNat (v / 64 % 0x40 + 0x80)).toNat = v / 64 % 0x40 + 0x80 :=
      toNat_byte (by omega)
    have hd : (UInt8.ofNat (v % 0x40 + 0x80)).toNat = v % 0x40 + 0x80 :=
      toNat_byte (by omega)
    simp only [List.cons_append, List.nil_append]
    rw [utf8Chars_three (by omega) (by omega), ha, hb, hd]
    exact hof (by omega)
  · have ha : (UInt8.ofNat (v / 262144 % 0x08 + 0xf0)).toNat = v / 262144 % 0x08 + 0xf0 :=
      toNat_byte (by omega)
    have hb : (UInt8.ofNat (v / 4096 % 0x40 + 0x80)).toNat = v / 4096 % 0x40 + 0x80 :=
      toNat_byte (by omega)
    have hd : (UInt8.ofNat (v / 64 % 0x40 + 0x80)).toNat = v / 64 % 0x40 + 0x80 :=
      toNat_byte (by omega)
    have he : (UInt8.ofNat (v % 0x40 + 0x80)).toNat = v % 0x40 + 0x80 :=
      toNat_byte (by omega)
    simp only [List.cons_append, List.nil_append]
    rw [utf8Chars_four (by omega), ha, hb, hd, he]
    exact hof (by omega)

/-- **The text is read back from its bytes.** -/
theorem utf8Chars_utf8 (text : List Char) : utf8Chars (utf8 text) = text := by
  induction text with
  | nil => rfl
  | cons c text ih =>
    rw [utf8, List.flatMap_cons, utf8Chars_encode]
    exact congrArg (c :: ·) ih

theorem utf8_ne_nil {text : List Char} (h : text ≠ []) : utf8 text ≠ [] := by
  intro he
  apply h
  rw [← utf8Chars_utf8 text, he]
  rfl

theorem utf8_injective : Function.Injective utf8 :=
  Function.LeftInverse.injective utf8Chars_utf8

end Clinch
