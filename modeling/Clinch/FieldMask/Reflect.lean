import Mathlib

/-!
# Reflected messages

What the field masks need of message reflection: a message has a descriptor, the descriptor finds
fields by name, and a field has a value, which is the default one where it is not set. Setting a field
makes it present and clears the other members of its oneof; a value that is changed in place is set.

* `Value`, `Reflect`, `Reflect.Lawful`: the interface and its documented behaviour;
* `view_set_self`, `view_set_sibling`, `view_set_other`: what a set field changes;
* `set_get`, `set_set`, `set_comm`: fields are set again, and in either order.
-/

set_option autoImplicit false

namespace Clinch.FieldMask

/-- The value of a field: `other` are numbers, bytes, enumerations and maps. -/
inductive Value (Message Scalar : Type)
  | string (value : String)
  | message (value : Message)
  | list (values : List (Value Message Scalar))
  | other (value : Scalar)

namespace Value

variable {Message Scalar : Type}

def asMessage : Value Message Scalar → Option Message
  | .message value => some value
  | _ => none

/-- The messages of a value, and whether it is a list of them. -/
def messages : Value Message Scalar → Option (Bool × List Message)
  | .message value => some (false, [value])
  | .list values => (values.mapM asMessage).map (Prod.mk true)
  | _ => none

theorem asMessage_eq_some {v : Value Message Scalar} {m : Message} :
    v.asMessage = some m ↔ v = .message m := by
  cases v <;> simp [asMessage]

theorem mapM_asMessage {values : List (Value Message Scalar)} {ms : List Message} :
    values.mapM asMessage = some ms ↔ values = ms.map .message := by
  induction values generalizing ms with
  | nil => cases ms <;> simp
  | cons v values ih =>
    rw [List.mapM_cons, Option.bind_eq_bind, Option.bind_eq_some_iff]
    constructor
    · rintro ⟨m, hm, hrest⟩
      rw [Option.bind_eq_bind, Option.bind_eq_some_iff] at hrest
      obtain ⟨ms', hms', heq⟩ := hrest
      obtain rfl := Option.some.inj heq
      rw [List.map_cons, asMessage_eq_some.1 hm, ih.1 hms']
    · intro heq
      cases ms with
      | nil => cases heq
      | cons m ms =>
        obtain ⟨hv, hvalues⟩ := List.cons.inj heq
        refine ⟨m, asMessage_eq_some.2 hv, ?_⟩
        rw [ih.2 hvalues]
        rfl

theorem messages_eq_some {v : Value Message Scalar} {repeated : Bool} {ms : List Message} :
    v.messages = some (repeated, ms) ↔
      (repeated = false ∧ ∃ m, ms = [m] ∧ v = .message m) ∨
        (repeated = true ∧ v = .list (ms.map .message)) := by
  cases v with
  | message m =>
    simp only [messages, Option.some.injEq, Prod.mk.injEq, reduceCtorEq, and_false, or_false]
    constructor
    · rintro ⟨rfl, rfl⟩
      exact ⟨rfl, m, rfl, rfl⟩
    · rintro ⟨rfl, m', rfl, hm⟩
      exact ⟨rfl, by rw [Value.message.inj hm]⟩
  | list values =>
    simp only [messages, Option.map_eq_some_iff, Prod.mk.injEq, reduceCtorEq, and_false,
      exists_false, false_or, Value.list.injEq, mapM_asMessage]
    constructor
    · rintro ⟨ms', hvalues, rfl, rfl⟩
      exact ⟨rfl, hvalues⟩
    · rintro ⟨rfl, hvalues⟩
      exact ⟨ms, hvalues, rfl, rfl⟩
  | string _ => simp [messages]
  | other _ => simp [messages]

/-- A value is given by its messages. -/
theorem messages_inj {v w : Value Message Scalar} {x : Bool × List Message}
    (hv : v.messages = some x) (hw : w.messages = some x) : v = w := by
  obtain ⟨repeated, ms⟩ := x
  obtain ⟨hr, m, hm, hv⟩ | ⟨hr, hv⟩ := messages_eq_some.1 hv
  · obtain ⟨-, m', hm', hw⟩ | ⟨hr', -⟩ := messages_eq_some.1 hw
    · rw [hm] at hm'
      rw [hv, hw, (List.cons.inj hm').1]
    · exact absurd (hr.symm.trans hr') Bool.false_ne_true
  · obtain ⟨hr', -⟩ | ⟨-, hw⟩ := messages_eq_some.1 hw
    · exact absurd (hr'.symm.trans hr) Bool.false_ne_true
    · rw [hv, hw]

/-- As many other messages are a value of the same kind. -/
theorem exists_messages {v : Value Message Scalar} {repeated : Bool} {ms ms' : List Message}
    (hv : v.messages = some (repeated, ms)) (hlen : ms'.length = ms.length) :
    ∃ w : Value Message Scalar, w.messages = some (repeated, ms') := by
  obtain ⟨rfl, m, rfl, -⟩ | ⟨rfl, -⟩ := messages_eq_some.1 hv
  · obtain ⟨m', rfl⟩ := List.length_eq_one_iff.1 hlen
    exact ⟨.message m', rfl⟩
  · exact ⟨.list (ms'.map .message), messages_eq_some.2 (.inr ⟨rfl, rfl⟩)⟩

end Value

/-- Reflection of messages. -/
structure Reflect where
  Message : Type
  MessageDescriptor : Type
  FieldDescriptor : Type
  OneofDescriptor : Type
  Scalar : Type
  SetFieldError : Type
  descriptor : Message → MessageDescriptor
  getFieldByName : MessageDescriptor → String → Option FieldDescriptor
  fullName : FieldDescriptor → String
  supportsPresence : FieldDescriptor → Bool
  containingOneof : FieldDescriptor → Option OneofDescriptor
  defaultValue : FieldDescriptor → Value Message Scalar
  isDefaultForField : FieldDescriptor → Value Message Scalar → Bool
  isValidForField : FieldDescriptor → Value Message Scalar → Bool
  getField : Message → FieldDescriptor → Value Message Scalar
  hasField : Message → FieldDescriptor → Bool
  trySetField : Message → FieldDescriptor → Value Message Scalar → Except SetFieldError Message
  /-- The message after a value is written through `get_field_mut`. -/
  setField : Message → FieldDescriptor → Value Message Scalar → Message

namespace Reflect

variable (R : Reflect)

/-- The field is one of the message. -/
def HasDesc (m : R.Message) (f : R.FieldDescriptor) : Prop :=
  ∃ name, R.getFieldByName (R.descriptor m) name = some f

/-- Two members of one oneof. -/
def Siblings (f g : R.FieldDescriptor) : Prop :=
  f ≠ g ∧ ∃ oneof, R.containingOneof f = some oneof ∧ R.containingOneof g = some oneof

/-- The value of a field with its presence. -/
def view (m : R.Message) (f : R.FieldDescriptor) : Value R.Message R.Scalar × Bool :=
  (R.getField m f, R.hasField m f)

/-- **Reflection behaves as documented.** -/
structure Lawful : Prop where
  name_unique : ∀ {desc name name' f}, R.getFieldByName desc name = some f →
    R.getFieldByName desc name' = some f → name = name'
  oneof_presence : ∀ {f oneof}, R.containingOneof f = some oneof → R.supportsPresence f = true
  /-- An unset field has the default value. -/
  getField_unset : ∀ {m f}, R.HasDesc m f → R.hasField m f = false →
    R.getField m f = R.defaultValue f
  /-- A field without presence is set when it does not have the default value. -/
  hasField_implicit : ∀ {m f}, R.HasDesc m f → R.supportsPresence f = false →
    R.hasField m f = !R.isDefaultForField f (R.getField m f)
  /-- At most one member of a oneof is set. -/
  oneof_unique : ∀ {m f g}, R.HasDesc m f → R.HasDesc m g → R.Siblings f g →
    R.hasField m f = true → R.hasField m g = false
  valid_getField : ∀ {m f}, R.HasDesc m f → R.isValidForField f (R.getField m f) = true
  /-- The messages in the values of a field are of one type. -/
  valid_type : ∀ {f v w r r' ms ms'}, R.isValidForField f v = true → R.isValidForField f w = true →
    v.messages = some (r, ms) → w.messages = some (r', ms') →
      ∀ a ∈ ms, ∀ b ∈ ms', R.descriptor a = R.descriptor b
  /-- Messages may be replaced by messages of their type. -/
  valid_replace : ∀ {f v w r ms ms'}, R.isValidForField f v = true → v.messages = some (r, ms) →
    w.messages = some (r, ms') → ms'.map R.descriptor = ms.map R.descriptor →
      R.isValidForField f w = true
  trySetField_valid : ∀ {m f v}, R.HasDesc m f → R.isValidForField f v = true →
    R.trySetField m f v = .ok (R.setField m f v)
  descriptor_setField : ∀ {m f v}, R.HasDesc m f → R.isValidForField f v = true →
    R.descriptor (R.setField m f v) = R.descriptor m
  /-- A set field has its value, and is present if it can be. -/
  view_set_self : ∀ {m f v}, R.HasDesc m f → R.isValidForField f v = true →
    R.view (R.setField m f v) f = (v, R.supportsPresence f || !R.isDefaultForField f v)
  /-- Setting a member of a oneof clears the others. -/
  hasField_sibling : ∀ {m f g v}, R.HasDesc m f → R.HasDesc m g → R.isValidForField f v = true →
    R.Siblings f g → R.hasField (R.setField m f v) g = false
  view_set_other : ∀ {m f g v}, R.HasDesc m f → R.HasDesc m g → R.isValidForField f v = true →
    f ≠ g → ¬ R.Siblings f g → R.view (R.setField m f v) g = R.view m g
  /-- A message is what its fields are. -/
  ext : ∀ {m m'}, R.descriptor m = R.descriptor m' →
    (∀ f, R.HasDesc m f → R.view m f = R.view m' f) → m = m'

namespace Lawful

variable {R} {m : R.Message} {f g : R.FieldDescriptor} {v w : Value R.Message R.Scalar}

theorem hasDesc_set (hR : R.Lawful) (hf : R.HasDesc m f) (hv : R.isValidForField f v = true) :
    R.HasDesc (R.setField m f v) g ↔ R.HasDesc m g := by
  rw [HasDesc, HasDesc, hR.descriptor_setField hf hv]

theorem getField_set (hR : R.Lawful) (hf : R.HasDesc m f) (hv : R.isValidForField f v = true) :
    R.getField (R.setField m f v) f = v := congrArg Prod.fst (hR.view_set_self hf hv)

theorem hasField_set (hR : R.Lawful) (hf : R.HasDesc m f) (hv : R.isValidForField f v = true)
    (hp : R.supportsPresence f = true) : R.hasField (R.setField m f v) f = true := by
  have hview := congrArg Prod.snd (hR.view_set_self hf hv)
  rwa [hp, Bool.true_or] at hview

theorem view_sibling (hR : R.Lawful) (hf : R.HasDesc m f) (hg : R.HasDesc m g)
    (hv : R.isValidForField f v = true) (h : R.Siblings f g) :
    R.view (R.setField m f v) g = (R.defaultValue g, false) := by
  have hunset := hR.hasField_sibling hf hg hv h
  rw [view, hunset, hR.getField_unset ((hR.hasDesc_set hf hv).2 hg) hunset]

theorem siblings_symm (h : R.Siblings f g) : R.Siblings g f :=
  ⟨h.1.symm, h.2.choose, h.2.choose_spec.2, h.2.choose_spec.1⟩

/-- A field that is there is set to its own value. -/
theorem set_get (hR : R.Lawful) (hf : R.HasDesc m f)
    (hset : R.supportsPresence f = true → R.hasField m f = true) :
    R.setField m f (R.getField m f) = m := by
  have hv := hR.valid_getField hf
  refine hR.ext (hR.descriptor_setField hf hv) fun g hg => ?_
  have hg := (hR.hasDesc_set hf hv).1 hg
  by_cases hfg : f = g
  · subst hfg
    rw [hR.view_set_self hf hv, view]
    cases hp : R.supportsPresence f with
    | true => rw [hset hp, Bool.true_or]
    | false => rw [hR.hasField_implicit hf hp, Bool.false_or]
  · by_cases hsib : R.Siblings f g
    · have hpresent := hset (hR.oneof_presence hsib.2.choose_spec.1)
      have hunset := hR.oneof_unique hf hg hsib hpresent
      rw [hR.view_sibling hf hg hv hsib, view, hunset, hR.getField_unset hg hunset]
    · exact hR.view_set_other hf hg hv hfg hsib

theorem set_set (hR : R.Lawful) (hf : R.HasDesc m f) (hv : R.isValidForField f v = true)
    (hw : R.isValidForField f w = true) :
    R.setField (R.setField m f v) f w = R.setField m f w := by
  have hf' := (hR.hasDesc_set (g := f) hf hv).2 hf
  refine hR.ext ?_ fun g hg => ?_
  · rw [hR.descriptor_setField hf' hw, hR.descriptor_setField hf hv, hR.descriptor_setField hf hw]
  have hg' := (hR.hasDesc_set hf' hw).1 hg
  have hg := (hR.hasDesc_set hf hv).1 hg'
  by_cases hfg : f = g
  · subst hfg
    rw [hR.view_set_self hf' hw, hR.view_set_self hf hw]
  · by_cases hsib : R.Siblings f g
    · rw [hR.view_sibling hf' hg' hw hsib, hR.view_sibling hf hg hw hsib]
    · rw [hR.view_set_other hf' hg' hw hfg hsib, hR.view_set_other hf hg hv hfg hsib,
        hR.view_set_other hf hg hw hfg hsib]

/-- Fields that are not of one oneof are set in either order. -/
theorem set_comm (hR : R.Lawful) (hf : R.HasDesc m f) (hg : R.HasDesc m g)
    (hv : R.isValidForField f v = true) (hw : R.isValidForField g w = true) (hfg : f ≠ g)
    (hsib : ¬ R.Siblings f g) :
    R.setField (R.setField m f v) g w = R.setField (R.setField m g w) f v := by
  have hgf : ¬ R.Siblings g f := fun h => hsib (siblings_symm h)
  have hg' := (hR.hasDesc_set (g := g) hf hv).2 hg
  have hf' := (hR.hasDesc_set (g := f) hg hw).2 hf
  refine hR.ext ?_ fun k hk => ?_
  · rw [hR.descriptor_setField hg' hw, hR.descriptor_setField hf hv, hR.descriptor_setField hf' hv,
      hR.descriptor_setField hg hw]
  have hkf := (hR.hasDesc_set hg' hw).1 hk
  have hk := (hR.hasDesc_set hf hv).1 hkf
  have hkg := (hR.hasDesc_set (g := k) hg hw).2 hk
  by_cases hfk : f = k
  · subst hfk
    rw [hR.view_set_other hg' hkf hw hfg.symm hgf, hR.view_set_self hf hv, hR.view_set_self hf' hv]
  · by_cases hgk : g = k
    · subst hgk
      rw [hR.view_set_self hg' hw, hR.view_set_other hf' hkg hv hfg hsib, hR.view_set_self hg hw]
    · by_cases hfs : R.Siblings f k
      · have hgs : ¬ R.Siblings g k := by
          rintro ⟨-, oneof, hgo, hko⟩
          obtain ⟨-, oneof', hfo, hko'⟩ := hfs
          rw [hko] at hko'
          obtain rfl := Option.some.inj hko'
          exact hsib ⟨hfg, _, hfo, hgo⟩
        rw [hR.view_set_other hg' hkf hw hgk hgs, hR.view_sibling hf hk hv hfs,
          hR.view_sibling hf' hkg hv hfs]
      · by_cases hgs : R.Siblings g k
        · rw [hR.view_sibling hg' hkf hw hgs, hR.view_set_other hf' hkg hv hfk hfs,
            hR.view_sibling hg hk hw hgs]
        · rw [hR.view_set_other hg' hkf hw hgk hgs, hR.view_set_other hf hk hv hfk hfs,
            hR.view_set_other hf' hkg hv hfk hfs, hR.view_set_other hg hk hw hgk hgs]

end Lawful

end Reflect

end Clinch.FieldMask
