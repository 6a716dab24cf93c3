import Mathlib

/-!
# Base-128 varints

A varint has seven bits of a number in each byte, the lowest first, and every byte but the last has
its high bit set. A number can be spelled with more bytes than it needs.

* `Continues`, `varintValue`, `SpellsVarint`: what bytes spell;
* `varint`, `spells_varint`, `length_varint_le`: the shortest spelling;
* `spells_cons`: the first byte of a spelling;
* `spells_unique`: where a spelling ends.
-/

set_option autoImplicit false

namespace Clinch

/-- The high bit is set. -/
def Continues (b : UInt8) : Prop := 128 ≤ b.toNat

instance (b : UInt8) : Decidable (Continues b) := inferInstanceAs (Decidable (_ ≤ _))

/-- The number in the low bits of bytes. -/
def varintValue : List UInt8 → ℕ
  | [] => 0
  | b :: bytes => b.toNat % 128 + 128 * varintValue bytes

/-- The bytes spell a number. -/
def SpellsVarint (bytes : List UInt8) (n : ℕ) : Prop :=
  ∃ front last, bytes = front ++ [last] ∧ (∀ b ∈ front, Continues b) ∧ ¬ Continues last ∧
    varintValue bytes = n

/-- The shortest spelling. -/
def varint (n : ℕ) : List UInt8 :=
  if n < 128 then [UInt8.ofNat n] else UInt8.ofNat (n % 128 + 128) :: varint (n / 128)

theorem spells_singleton {b : UInt8} {n : ℕ} :
    SpellsVarint [b] n ↔ ¬ Continues b ∧ b.toNat = n := by
  constructor
  · rintro ⟨front, last, heq, -, hlast, hvalue⟩
    obtain ⟨rfl, rfl⟩ : front = [] ∧ last = b := by
      cases front with
      | nil => exact ⟨rfl, (List.singleton_inj.mp heq).symm⟩
      | cons c front => simp at heq
    have hlt : last.toNat < 128 := not_le.mp hlast
    exact ⟨hlast, by simpa [varintValue, Nat.mod_eq_of_lt hlt] using hvalue⟩
  · rintro ⟨hlast, rfl⟩
    have hlt : b.toNat < 128 := not_le.mp hlast
    exact ⟨[], b, rfl, fun _ h => (nomatch h), hlast, by
      simp [varintValue, Nat.mod_eq_of_lt hlt]⟩

theorem spells_cons {b : UInt8} {bytes : List UInt8} {n : ℕ} (hb : Continues b)
    (h : SpellsVarint bytes n) : SpellsVarint (b :: bytes) (b.toNat % 128 + 128 * n) := by
  obtain ⟨front, last, rfl, hfront, hlast, hvalue⟩ := h
  refine ⟨b :: front, last, rfl, ?_, hlast, ?_⟩
  · intro c hc
    rcases List.mem_cons.mp hc with rfl | hc
    · exact hb
    · exact hfront c hc
  · rw [varintValue, hvalue]

/-- No spelling begins another one. -/
theorem spells_unique {a b x y : List UInt8} {m n : ℕ} (ha : SpellsVarint a m)
    (hb : SpellsVarint b n) (h : a ++ x = b ++ y) : a = b := by
  obtain ⟨front, last, rfl, hfront, hlast, -⟩ := ha
  obtain ⟨front', last', rfl, hfront', hlast', -⟩ := hb
  induction front generalizing front' with
  | nil =>
    cases front' with
    | nil => exact congrArg (· :: []) (List.cons.inj h).1
    | cons c front' =>
      have hc : last = c := (List.cons.inj h).1
      exact absurd (hc ▸ hfront' c List.mem_cons_self) hlast
  | cons c front ih =>
    cases front' with
    | nil =>
      have hc : c = last' := (List.cons.inj h).1
      exact absurd (hc ▸ hfront c List.mem_cons_self) hlast'
    | cons c' front' =>
      obtain ⟨hc, hrest⟩ := List.cons.inj h
      have htail : front ++ [last] = front' ++ [last'] :=
        ih (fun b hb => hfront b (List.mem_cons_of_mem _ hb)) front' hrest
          fun b hb => hfront' b (List.mem_cons_of_mem _ hb)
      rw [List.cons_append, List.cons_append, hc, htail]

/-- The shortest spelling spells the number. -/
theorem spells_varint (n : ℕ) : SpellsVarint (varint n) n := by
  induction n using Nat.strongRecOn with
  | ind n ih =>
    rw [varint]
    split
    · rename_i hlt
      have hbyte : (UInt8.ofNat n).toNat = n := UInt8.toNat_ofNat_of_lt' (show n < 256 by omega)
      exact spells_singleton.mpr ⟨by rw [Continues, hbyte]; omega, hbyte⟩
    · rename_i hge
      have hbyte : (UInt8.ofNat (n % 128 + 128)).toNat = n % 128 + 128 :=
        UInt8.toNat_ofNat_of_lt' (show n % 128 + 128 < 256 by omega)
      have hrest := spells_cons (b := UInt8.ofNat (n % 128 + 128)) (by rw [Continues, hbyte]; omega)
        (ih (n / 128) (by omega))
      rw [hbyte] at hrest
      have hn : (n % 128 + 128) % 128 + 128 * (n / 128) = n := by omega
      rwa [hn] at hrest

/-- A number of `7 * k` bits takes at most `k` bytes. -/
theorem length_varint_le {k n : ℕ} (hk : 0 < k) (h : n < 128 ^ k) : (varint n).length ≤ k := by
  induction k generalizing n with
  | zero => exact absurd hk (lt_irrefl 0)
  | succ k ih =>
    rw [varint]
    split
    · exact hk
    · rename_i hge
      have hdiv : n / 128 < 128 ^ k := Nat.div_lt_of_lt_mul (by rwa [← pow_succ'])
      have hk' : 0 < k := by
        rcases Nat.eq_zero_or_pos k with rfl | hpos
        · rw [pow_zero] at hdiv
          omega
        · exact hpos
      exact Nat.succ_le_succ (ih hk' hdiv)

end Clinch
