import Clinch.FieldMask.Reflect

/-!
# Applying a field mask

Each path of a mask is followed into the target and the source together. Its last field is copied or
appended to, an unknown field ends the path without an effect, and a field on the way is made present
and its messages are changed in place, one by one where it is repeated.

* `applyPath`, `applyAll`, `FieldMaskOperation.apply`: the operation;
* `applyNested_ok_iff`: what is done to the messages of a field;
* `applyPath_cons`: what a path does to a message.
-/

set_option autoImplicit false

namespace Clinch.FieldMask

variable {R : Reflect}

inductive FieldMaskError (SetFieldError DecodeError : Type)
  | decode (error : DecodeError)
  | invalidPath (text : String)
  | unsupportedAppend (field : String)
  | setField (error : SetFieldError)

inductive OperationType
  | update
  | append
deriving DecidableEq

/-- An operation on messages fails with an error of the mask. -/
abbrev MaskResult (R : Reflect) (DecodeError α : Type) :=
  Except (FieldMaskError R.SetFieldError DecodeError) α

section ApplyPath

variable {DecodeError : Type}

/-- Applies the patch to each pair of elements. -/
def applyElements (fieldName : String)
    (step : R.Message → R.Message → MaskResult R DecodeError R.Message) :
    List (Value R.Message R.Scalar) → List (Value R.Message R.Scalar) →
      MaskResult R DecodeError (List (Value R.Message R.Scalar))
  | .message target :: targets, .message patch :: patches =>
    match step target patch with
    | .error error => .error error
    | .ok target =>
      match applyElements fieldName step targets patches with
      | .error error => .error error
      | .ok targets => .ok (.message target :: targets)
  | _ :: _, _ :: _ => .error (.invalidPath s!"Field {fieldName} list elements are not messages")
  | targets, _ => .ok targets

/-- What is done to the value of a field on the way. -/
def applyNested (path fieldName : String)
    (step : R.Message → R.Message → MaskResult R DecodeError R.Message) :
    Value R.Message R.Scalar → Value R.Message R.Scalar →
      MaskResult R DecodeError (Value R.Message R.Scalar)
  | .list targetList, .list patchList =>
    if targetList.length ≠ patchList.length then
      .error (.invalidPath (s!"Field {fieldName} lists have different lengths: " ++
        s!"target has {targetList.length}, patch has {patchList.length}"))
    else
      match applyElements fieldName step targetList patchList with
      | .error error => .error error
      | .ok targetList => .ok (.list targetList)
  | .message target, .message patch =>
    match step target patch with
    | .error error => .error error
    | .ok target => .ok (.message target)
  | _, _ => .error (.invalidPath path)

def updatedFieldValue (operation : OperationType) (target patch : R.Message)
    (fieldDesc : R.FieldDescriptor) :
    MaskResult R DecodeError (Value R.Message R.Scalar) :=
  match operation with
  | .update => .ok (R.getField patch fieldDesc)
  | .append =>
    match R.getField target fieldDesc, R.getField patch fieldDesc with
    | .string value, .string patchValue => .ok (.string (value ++ patchValue))
    | _, _ => .error (.unsupportedAppend (R.fullName fieldDesc))

variable (DecodeError) in
def applyPath (operation : OperationType) : List String → R.Message → R.Message →
    MaskResult R DecodeError R.Message
  | [], target, _ => .ok target
  | fieldName :: rest, target, patch =>
    match R.getFieldByName (R.descriptor target) fieldName with
    | none => .ok target
    | some fieldDesc =>
      if rest = [] then
        match updatedFieldValue operation target patch fieldDesc with
        | .error error => .error error
        | .ok value =>
          match R.trySetField target fieldDesc value with
          | .error error => .error (.setField error)
          | .ok target => .ok target
      else
        match applyNested (".".intercalate (fieldName :: rest)) fieldName (applyPath operation rest)
          (R.getField target fieldDesc) (R.getField patch fieldDesc) with
        | .error error => .error error
        | .ok value => .ok (R.setField target fieldDesc value)

variable (DecodeError) in
/-- The loop over the paths of a mask. -/
def applyAll (operation : OperationType) : List (List String) → R.Message → R.Message →
    MaskResult R DecodeError R.Message
  | [], target, _ => .ok target
  | path :: paths, target, patch =>
    match applyPath DecodeError operation path target patch with
    | .error error => .error error
    | .ok target => applyAll operation paths target patch

end ApplyPath

/-- A generated message type of a descriptor. -/
structure Generated (R : Reflect) where
  T : Type
  DecodeError : Type
  messageDescriptor : R.MessageDescriptor
  /-- `DynamicMessage::transcode_from`, into a new message of the descriptor. -/
  transcodeFrom : T → Except DecodeError R.Message
  transcodeTo : R.Message → Except DecodeError T

/-- What is read back from a message is the message. -/
structure Generated.Lawful {R : Reflect} (G : Generated R) : Prop where
  descriptor : ∀ {x m}, G.transcodeFrom x = .ok m → R.descriptor m = G.messageDescriptor
  roundTrip : ∀ {x m}, G.transcodeTo m = .ok x → G.transcodeFrom x = .ok m

structure FieldMaskOperation (G : Generated R) where
  paths : List String
  destination : G.T
  source : G.T
  op : OperationType

def FieldMaskOperation.update (G : Generated R) (destination source : G.T) (mask : List String) :
    FieldMaskOperation G := ⟨mask, destination, source, .update⟩

def FieldMaskOperation.append (G : Generated R) (destination source : G.T) (mask : List String) :
    FieldMaskOperation G := ⟨mask, destination, source, .append⟩

/-- `path.split('.')`. -/
def splitPath (path : String) : List String := (path.toList.splitOn '.').map String.ofList

/-- The segments of the paths of a mask. -/
def segments (mask : List String) : List (List String) := mask.map splitPath

def FieldMaskOperation.apply {G : Generated R} (operation : FieldMaskOperation G) :
    MaskResult R G.DecodeError G.T :=
  match G.transcodeFrom operation.destination with
  | .error error => .error (.decode error)
  | .ok dynTarget =>
    match G.transcodeFrom operation.source with
    | .error error => .error (.decode error)
    | .ok dynPatch =>
      match applyAll G.DecodeError operation.op (segments operation.paths) dynTarget dynPatch with
      | .error error => .error error
      | .ok dynTarget =>
        match G.transcodeTo dynTarget with
        | .error error => .error (.decode error)
        | .ok message => .ok message

/-! ## What is done to the messages of a field -/

section Nested

variable {DecodeError : Type} {fieldName path : String}
  {step : R.Message → R.Message → MaskResult R DecodeError R.Message}

/-- The messages of a field are changed one by one. -/
structure Steps
    (step : R.Message → R.Message → MaskResult R DecodeError R.Message)
    (targets patches results : List R.Message) : Prop where
  patches_length : patches.length = targets.length
  results_length : results.length = targets.length
  step : ∀ (i : ℕ) (target patch result : R.Message), targets[i]? = some target →
    patches[i]? = some patch → results[i]? = some result → step target patch = .ok result

theorem steps_cons {target patch result : R.Message} {targets patches results : List R.Message} :
    Steps step (target :: targets) (patch :: patches) (result :: results) ↔
      step target patch = .ok result ∧ Steps step targets patches results := by
  constructor
  · rintro ⟨hp, hr, hstep⟩
    exact ⟨hstep 0 _ _ _ rfl rfl rfl, Nat.succ.inj hp, Nat.succ.inj hr,
      fun i t p r ht hp hr => hstep (i + 1) t p r ht hp hr⟩
  · rintro ⟨hfirst, hp, hr, hstep⟩
    refine ⟨congrArg Nat.succ hp, congrArg Nat.succ hr, fun i t p r ht hp hr => ?_⟩
    cases i with
    | zero => rwa [← Option.some.inj ht, ← Option.some.inj hp, ← Option.some.inj hr]
    | succ i => exact hstep i t p r ht hp hr

theorem applyElements_ok_iff {vs ws vs' : List (Value R.Message R.Scalar)}
    (hlen : vs.length = ws.length) :
    applyElements fieldName step vs ws = .ok vs' ↔
      ∃ targets patches results, vs = targets.map .message ∧ ws = patches.map .message ∧
        vs' = results.map .message ∧ Steps step targets patches results := by
  induction vs generalizing ws vs' with
  | nil =>
    obtain rfl := List.length_eq_zero_iff.1 hlen.symm
    constructor
    · intro h
      obtain rfl := Except.ok.inj h
      exact ⟨[], [], [], rfl, rfl, rfl, rfl, rfl, fun _ _ _ _ h => by cases h⟩
    · rintro ⟨targets, patches, results, hv, -, rfl, hsteps⟩
      obtain rfl := List.map_eq_nil_iff.1 hv.symm
      obtain rfl := List.length_eq_zero_iff.1 hsteps.results_length
      rfl
  | cons v vs ih =>
    cases ws with
    | nil => cases hlen
    | cons w ws =>
      have hlength : vs.length = ws.length := Nat.succ.inj hlen
      constructor
      · intro h
        unfold applyElements at h
        split at h
        · rename_i target targets patch patches hv hw
          obtain ⟨rfl, rfl⟩ := List.cons.inj hv
          obtain ⟨rfl, rfl⟩ := List.cons.inj hw
          cases hstep : step target patch with
          | error error =>
            rw [hstep] at h
            cases h
          | ok result =>
            rw [hstep] at h
            cases hrest : applyElements fieldName step vs ws with
            | error error =>
              rw [hrest] at h
              cases h
            | ok rest =>
              rw [hrest] at h
              obtain rfl := Except.ok.inj h
              obtain ⟨targets, patches, results, rfl, rfl, rfl, hsteps⟩ := (ih hlength).1 hrest
              exact ⟨target :: targets, patch :: patches, result :: results, rfl, rfl, rfl,
                steps_cons.2 ⟨hstep, hsteps⟩⟩
        · cases h
        · rename_i hcons
          exact absurd rfl (hcons v vs w ws · rfl)
      · rintro ⟨targets, patches, results, hv, hw, rfl, hsteps⟩
        cases targets with
        | nil => cases hv
        | cons target targets =>
          cases patches with
          | nil => cases hw
          | cons patch patches =>
            cases results with
            | nil => cases hsteps.results_length
            | cons result results =>
              obtain ⟨rfl, rfl⟩ := List.cons.inj hv
              obtain ⟨rfl, rfl⟩ := List.cons.inj hw
              obtain ⟨hstep, hsteps⟩ := steps_cons.1 hsteps
              rw [applyElements, hstep]
              dsimp only
              rw [(ih hlength).2 ⟨targets, patches, results, rfl, rfl, rfl, hsteps⟩]
              rfl

/-- The messages of a value are changed by those of another. -/
def Nested
    (step : R.Message → R.Message → MaskResult R DecodeError R.Message)
    (v w v' : Value R.Message R.Scalar) : Prop :=
  ∃ repeated targets patches results, v.messages = some (repeated, targets) ∧
    w.messages = some (repeated, patches) ∧ v'.messages = some (repeated, results) ∧
    Steps step targets patches results

/-- **A field on the way holds messages in both, as many, and each is changed by its own.** -/
theorem applyNested_ok_iff {v w v' : Value R.Message R.Scalar} :
    applyNested path fieldName step v w = .ok v' ↔ Nested step v w v' := by
  constructor
  · intro h
    unfold applyNested at h
    split at h
    · rename_i vs ws
      split_ifs at h with hlen
      cases helements : applyElements fieldName step vs ws with
      | error error =>
        rw [helements] at h
        cases h
      | ok vs' =>
        rw [helements] at h
        obtain rfl := Except.ok.inj h
        obtain ⟨targets, patches, results, rfl, rfl, rfl, hsteps⟩ :=
          (applyElements_ok_iff (not_not.1 hlen)).1 helements
        exact ⟨true, targets, patches, results, Value.messages_eq_some.2 (.inr ⟨rfl, rfl⟩),
          Value.messages_eq_some.2 (.inr ⟨rfl, rfl⟩), Value.messages_eq_some.2 (.inr ⟨rfl, rfl⟩),
          hsteps⟩
    · rename_i target patch
      cases hstep : step target patch with
      | error error =>
        rw [hstep] at h
        cases h
      | ok result =>
        rw [hstep] at h
        obtain rfl := Except.ok.inj h
        exact ⟨false, [target], [patch], [result], rfl, rfl, rfl,
          steps_cons.2 ⟨hstep, rfl, rfl, fun _ _ _ _ h => by cases h⟩⟩
    · cases h
  · rintro ⟨repeated, targets, patches, results, hv, hw, hv', hsteps⟩
    cases repeated with
    | true =>
      obtain ⟨⟨⟩, -⟩ | ⟨-, rfl⟩ := Value.messages_eq_some.1 hv
      obtain ⟨⟨⟩, -⟩ | ⟨-, rfl⟩ := Value.messages_eq_some.1 hw
      obtain ⟨⟨⟩, -⟩ | ⟨-, rfl⟩ := Value.messages_eq_some.1 hv'
      have hlen : (targets.map Value.message : List (Value R.Message R.Scalar)).length =
          (patches.map Value.message : List (Value R.Message R.Scalar)).length := by
        rw [List.length_map, List.length_map, hsteps.patches_length]
      rw [applyNested, if_neg (not_not.2 hlen), (applyElements_ok_iff hlen).2
        ⟨targets, patches, results, rfl, rfl, rfl, hsteps⟩]
    | false =>
      obtain ⟨-, target, rfl, rfl⟩ | ⟨⟨⟩, -⟩ := Value.messages_eq_some.1 hv
      obtain ⟨-, patch, rfl, rfl⟩ | ⟨⟨⟩, -⟩ := Value.messages_eq_some.1 hw
      obtain ⟨-, result, rfl, rfl⟩ | ⟨⟨⟩, -⟩ := Value.messages_eq_some.1 hv'
      rw [applyNested, (steps_cons.1 hsteps).1]

end Nested

/-! ## What a path does to a message -/

section Path

variable {DecodeError : Type} {target patch result : R.Message} {name : String} {rest : List String}

/-- What an update of a field sets it to. -/
inductive Sets (DecodeError : Type) (rest : List String) (target patch : R.Message)
    (f : R.FieldDescriptor) : Value R.Message R.Scalar → Prop
  | leaf (hrest : rest = []) : Sets DecodeError rest target patch f (R.getField patch f)
  | nested {v : Value R.Message R.Scalar} (hrest : rest ≠ [])
      (hv : Nested (applyPath DecodeError .update rest) (R.getField target f) (R.getField patch f) v) :
      Sets DecodeError rest target patch f v

/-- A path leaves the message as it is, or sets the field it starts with. -/
theorem applyPath_cons (hR : R.Lawful) (hdesc : R.descriptor target = R.descriptor patch) :
    applyPath DecodeError .update (name :: rest) target patch = .ok result ↔
      (R.getFieldByName (R.descriptor target) name = none ∧ result = target) ∨
        ∃ f v, R.getFieldByName (R.descriptor target) name = some f ∧
          Sets DecodeError rest target patch f v ∧ result = R.setField target f v := by
  rw [applyPath]
  cases hname : R.getFieldByName (R.descriptor target) name with
  | none => simp [eq_comm]
  | some f =>
    simp only [reduceCtorEq, false_and, false_or, Option.some.injEq]
    by_cases hrest : rest = []
    · have hvalid := hR.valid_getField ⟨name, hdesc ▸ hname⟩
      rw [if_pos hrest]
      simp only [updatedFieldValue, hR.trySetField_valid ⟨name, hname⟩ hvalid, Except.ok.injEq]
      constructor
      · rintro rfl
        exact ⟨f, _, rfl, .leaf hrest, rfl⟩
      · rintro ⟨_, v, rfl, hsets, rfl⟩
        cases hsets with
        | leaf => rfl
        | nested hne => exact absurd hrest hne
    · rw [if_neg hrest]
      constructor
      · intro h
        split at h
        · cases h
        · rename_i v hv
          obtain rfl := Except.ok.inj h
          exact ⟨f, v, rfl, .nested hrest (applyNested_ok_iff.1 hv), rfl⟩
      · rintro ⟨_, v, rfl, hsets, rfl⟩
        cases hsets with
        | leaf hnil => exact absurd hnil hrest
        | nested _ hv => rw [applyNested_ok_iff.2 hv]

end Path

end Clinch.FieldMask
