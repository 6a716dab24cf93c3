import Mathlib

/-!
# Rust idioms

What the modelled crates take from the language and from `arrayvec`: a computation either returns
or panics, and a fixed-capacity vector panics when it is pushed past its capacity.

* `Panic`, `Result`, `Safe`, `Returns`;
* `foldlM_ok`: what every turn of a loop keeps holds after the loop; `mapM_eq_ok`: what a `map` that
  returned has returned;
* `arrayPush`, `arrayExtend`, `arrayCollect`: an `ArrayVec<_, CAP>` is the list of its elements;
* `checkedSub`, `checkedAdd`: the arithmetic of an unsigned integer type;
* `debugAssert`, `unwrap`, `index`, `sliceRange`.
-/

set_option autoImplicit false

namespace Clinch

/-- Why a call did not return. -/
inductive Panic
  /-- An `ArrayVec` was pushed past its capacity. -/
  | capacity
  /-- An integer operation overflowed. -/
  | overflow
  /-- `unwrap` or `expect` of `None`. -/
  | unwrap
  /-- An index or a slice range out of bounds. -/
  | bounds
  /-- An explicit `panic!`, or a failed `debug_assert!`. -/
  | assert
deriving DecidableEq, Repr

/-- A call returns a value or panics. -/
abbrev Result (α : Type) := Except Panic α

instance {α : Type} [DecidableEq α] : DecidableEq (Result α)
  | .ok a, .ok b => if h : a = b then isTrue (by rw [h]) else isFalse fun e => h (Except.ok.inj e)
  | .error a, .error b =>
    if h : a = b then isTrue (by rw [h]) else isFalse fun e => h (Except.error.inj e)
  | .ok _, .error _ => isFalse fun e => nomatch e
  | .error _, .ok _ => isFalse fun e => nomatch e

variable {α β : Type}

theorem ok_bind (a : α) (f : α → Result β) : ((Except.ok a : Result α) >>= f) = f a := rfl

theorem error_bind (p : Panic) (f : α → Result β) :
    ((Except.error p : Result α) >>= f) = Except.error p := rfl

/-- A computation that returned came from a first step that returned. -/
theorem bind_eq_ok {x : Result α} {f : α → Result β} {b : β} (h : (x >>= f) = .ok b) :
    ∃ a, x = .ok a ∧ f a = .ok b := by
  cases x with
  | error p => exact nomatch h
  | ok a => exact ⟨a, rfl, h⟩

theorem bind_eq_error {x : Result α} {f : α → Result β} {p : Panic} (h : (x >>= f) = .error p) :
    x = .error p ∨ ∃ a, x = .ok a ∧ f a = .error p := by
  cases x with
  | error q => exact Or.inl (by rw [error_bind] at h; rw [Except.error.inj h])
  | ok a => exact Or.inr ⟨a, rfl, h⟩

/-- What every turn of a loop keeps, as a property of the elements done so far, holds after the loop
if it returned. -/
theorem foldlM_ok {σ : Type} {f : σ → α → Result σ} {P : List α → σ → Prop} {l : List α} {s s' : σ}
    (hstep : ∀ done a s s', P done s → f s a = .ok s' → P (done ++ [a]) s') (h : P [] s)
    (hok : l.foldlM f s = .ok s') : P l s' := by
  suffices hrun : ∀ (done rest : List α) (s : σ), P done s → rest.foldlM f s = .ok s' →
      P (done ++ rest) s' from hrun [] l s h hok
  intro done rest
  induction rest generalizing done with
  | nil =>
    intro s h hok
    rw [List.append_nil]
    exact Except.ok.inj hok ▸ h
  | cons a rest ih =>
    intro s h hok
    rw [List.foldlM_cons] at hok
    obtain ⟨s₁, ha, hok⟩ := bind_eq_ok hok
    rw [List.append_cons]
    exact ih (done ++ [a]) s₁ (hstep done a s s₁ h ha) hok

theorem mapM_eq_ok {f : α → Result β} {l : List α} {l' : List β} :
    l.mapM f = .ok l' ↔ List.Forall₂ (fun a b => f a = .ok b) l l' := by
  induction l generalizing l' with
  | nil =>
    rw [List.mapM_nil, List.forall₂_nil_left_iff]
    exact ⟨fun h => (Except.ok.inj h).symm, fun h => by rw [h]; rfl⟩
  | cons a l ih =>
    rw [List.mapM_cons, List.forall₂_cons_left_iff]
    constructor
    · intro h
      obtain ⟨b, hb, h⟩ := bind_eq_ok h
      obtain ⟨bs, hbs, h⟩ := bind_eq_ok h
      exact ⟨b, bs, hb, ih.mp hbs, (Except.ok.inj h).symm⟩
    · rintro ⟨b, bs, hb, hbs, rfl⟩
      rw [hb, ok_bind, ih.mpr hbs]
      rfl

/-- What the call returns satisfies `Q`, and it exceeds a capacity only if `C`. -/
def Safe (C : Prop) (Q : α → Prop) : Result α → Prop
  | .ok a => Q a
  | .error p => p = .capacity → C

namespace Safe

variable {C : Prop} {Q : α → Prop} {R : β → Prop}

theorem ok {a : α} (h : Q a) : Safe C Q (.ok a) := h

theorem bind {x : Result α} {f : α → Result β} (hx : Safe C Q x)
    (hf : ∀ a, Q a → Safe C R (f a)) : Safe C R (x >>= f) := by
  cases x with
  | error p => exact hx
  | ok a => exact hf a hx

theorem mono {Q' : α → Prop} {x : Result α} (hx : Safe C Q x) (h : ∀ a, Q a → Q' a) :
    Safe C Q' x := by
  cases x with
  | error p => exact hx
  | ok a => exact h a hx

theorem foldlM {f : α → β → Result α} (hf : ∀ a b, Q a → Safe C Q (f a b)) (l : List β) {a : α}
    (h : Q a) : Safe C Q (l.foldlM f a) := by
  induction l generalizing a with
  | nil => exact h
  | cons b l ih =>
    rw [List.foldlM_cons]
    exact (hf a b h).bind fun a' ha' => ih ha'

/-- Nothing is known about what the call returns. -/
theorem any (x : Result α) : Safe True (fun _ => True) x := by
  cases x with
  | error p => exact fun _ => trivial
  | ok a => exact trivial

theorem ne_capacity {x : Result α} (hx : Safe C Q x) (hC : ¬ C) : x ≠ .error .capacity := by
  rintro rfl
  exact hC (hx rfl)

theorem of_eq_ok {x : Result α} {a : α} (hx : Safe C Q x) (e : x = .ok a) : Q a := by
  rw [e] at hx
  exact hx

end Safe

/-- The call returns, and what it returns satisfies `Q`. -/
def Returns (Q : α → Prop) (r : Result α) : Prop := ∃ a, r = .ok a ∧ Q a

namespace Returns

variable {Q : α → Prop} {R : β → Prop}

theorem ok {a : α} (h : Q a) : Returns Q (.ok a) := ⟨a, rfl, h⟩

theorem bind {x : Result α} {f : α → Result β} (hx : Returns Q x)
    (hf : ∀ a, Q a → Returns R (f a)) : Returns R (x >>= f) := by
  obtain ⟨a, rfl, ha⟩ := hx
  exact hf a ha

theorem mono {Q' : α → Prop} {x : Result α} (hx : Returns Q x) (h : ∀ a, Q a → Q' a) :
    Returns Q' x := by
  obtain ⟨a, rfl, ha⟩ := hx
  exact ok (h a ha)

theorem of_eq_ok {x : Result α} {a : α} (hx : Returns Q x) (e : x = .ok a) : Q a := by
  obtain ⟨a', e', ha⟩ := hx
  rw [e] at e'
  exact Except.ok.inj e' ▸ ha

end Returns

/-! ## `ArrayVec` -/

/-- `ArrayVec::push`. -/
def arrayPush (cap : ℕ) (l : List α) (x : α) : Result (List α) :=
  if l.length < cap then .ok (l ++ [x]) else .error .capacity

/-- `ArrayVec::extend`. -/
def arrayExtend (cap : ℕ) (l xs : List α) : Result (List α) :=
  if l.length + xs.length ≤ cap then .ok (l ++ xs) else .error .capacity

/-- `Iterator::collect` into an `ArrayVec`. -/
def arrayCollect (cap : ℕ) (xs : List α) : Result (List α) :=
  if xs.length ≤ cap then .ok xs else .error .capacity

theorem arrayPush_ok {cap : ℕ} {l : List α} {x : α} (h : l.length < cap) :
    arrayPush cap l x = .ok (l ++ [x]) := if_pos h

theorem arrayExtend_ok {cap : ℕ} {l xs : List α} (h : l.length + xs.length ≤ cap) :
    arrayExtend cap l xs = .ok (l ++ xs) := if_pos h

theorem arrayCollect_ok {cap : ℕ} {xs : List α} (h : xs.length ≤ cap) :
    arrayCollect cap xs = .ok xs := if_pos h

/-! ## Integers, `Option` and indexing -/

/-- Subtraction of an unsigned integer type. -/
def checkedSub (a b : ℕ) : Result ℕ := if b ≤ a then .ok (a - b) else .error .overflow

/-- Addition of an unsigned integer type with largest value `max`. -/
def checkedAdd (max a b : ℕ) : Result ℕ := if a + b ≤ max then .ok (a + b) else .error .overflow

/-- `u8::MAX`. -/
def u8Max : ℕ := 255

theorem checkedSub_ok {a b : ℕ} (h : b ≤ a) : checkedSub a b = .ok (a - b) := if_pos h

theorem checkedAdd_ok {max a b : ℕ} (h : a + b ≤ max) : checkedAdd max a b = .ok (a + b) := if_pos h

/-- `Option::unwrap`. -/
def unwrap : Option α → Result α
  | some a => .ok a
  | none => .error .unwrap

/-- `slice[i]`. -/
def index (l : List α) (i : ℕ) : Result α :=
  match l[i]? with
  | some a => .ok a
  | none => .error .bounds

/-- The range check of `&slice[lo..hi]`. -/
def sliceRange (l : List α) (lo hi : ℕ) : Result (List α) :=
  if lo ≤ hi ∧ hi ≤ l.length then .ok ((l.take hi).drop lo) else .error .bounds

@[simp] theorem unwrap_some (a : α) : unwrap (some a) = .ok a := rfl

variable {C : Prop}

/-- `debug_assert!`. -/
def debugAssert (b : Bool) : Result Unit := if b then .ok () else .error .assert

theorem safe_debugAssert (b : Bool) : Safe C (fun _ => b = true) (debugAssert b) := by
  rw [debugAssert]
  split
  · assumption
  · exact fun h => nomatch h

theorem debugAssert_ok {b : Bool} (h : b = true) : debugAssert b = .ok () := if_pos h

theorem safe_unwrap (o : Option α) : Safe C (fun a => o = some a) (unwrap o) := by
  cases o with
  | none => exact fun h => nomatch h
  | some a => exact rfl

theorem safe_index (l : List α) (i : ℕ) : Safe C (fun a => l[i]? = some a) (index l i) := by
  rw [index]
  split
  · assumption
  · exact fun h => by cases h

theorem safe_sliceRange (l : List α) (lo hi : ℕ) :
    Safe C (fun r => r = (l.take hi).drop lo ∧ lo ≤ hi ∧ hi ≤ l.length) (sliceRange l lo hi) := by
  rw [sliceRange]
  split
  · exact ⟨rfl, by assumption⟩
  · exact fun h => nomatch h

theorem safe_checkedSub (a b : ℕ) : Safe C (fun c => c = a - b) (checkedSub a b) := by
  rw [checkedSub]
  split
  · rfl
  · exact fun h => nomatch h

theorem sliceRange_left (l l' : List α) : sliceRange (l ++ l') 0 l.length = .ok l := by
  rw [sliceRange, if_pos (by simp), List.take_left, List.drop_zero]

theorem sliceRange_right (l l' : List α) :
    sliceRange (l ++ l') l.length (l ++ l').length = .ok l' := by
  rw [sliceRange, if_pos (by simp), List.take_length, List.drop_left]

theorem index_ok {l : List α} {i : ℕ} {a : α} (h : l[i]? = some a) : index l i = .ok a := by
  rw [index, h]

end Clinch
