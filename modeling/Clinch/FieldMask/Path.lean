import Clinch.FieldMask.Apply

/-!
# Paths of a field mask

What the paths of a mask are to do, and the condition under which they do it.

* `Agree`, `Kept`: two messages agree at a path; a path is as it was;
* `Clean`: the source has each field with presence that a path names, and a oneof member on the way is
  set in the source or alone;
* `applyPath_agree`, `applyPath_again`: one path is applied;
* `Clean.applyPath`: the condition is kept by the paths;
* `applyPath_below`: nothing is changed below a path that was applied;
* `applyPath_comm`: paths that do not overlap are applied in either order;
* `applyPath_kept`: what a path does not name is kept.
-/

set_option autoImplicit false

namespace Clinch.FieldMask

variable {R : Reflect} {D : Type}

/-! ## Messages in values -/

/-- Two values have messages, as many, and these are related. -/
def Zip (rel : R.Message → R.Message → Prop) (v w : Value R.Message R.Scalar) : Prop :=
  ∃ repeated as bs, v.messages = some (repeated, as) ∧ w.messages = some (repeated, bs) ∧
    bs.length = as.length ∧
    ∀ (i : ℕ) (a b : R.Message), as[i]? = some a → bs[i]? = some b → rel a b

def Zip₃ (rel : R.Message → R.Message → R.Message → Prop) (u v w : Value R.Message R.Scalar) :
    Prop :=
  ∃ repeated as bs cs, u.messages = some (repeated, as) ∧ v.messages = some (repeated, bs) ∧
    w.messages = some (repeated, cs) ∧ bs.length = as.length ∧ cs.length = as.length ∧
    ∀ (i : ℕ) (a b c : R.Message), as[i]? = some a → bs[i]? = some b → cs[i]? = some c → rel a b c

/-- What holds of the messages of a value. -/
def ForMessages (prop : R.Message → Prop) (v : Value R.Message R.Scalar) : Prop :=
  ∀ repeated as, v.messages = some (repeated, as) → ∀ a ∈ as, prop a

/-- What holds of the messages of two values that have as many. -/
def ForPairs (rel : R.Message → R.Message → Prop) (v w : Value R.Message R.Scalar) : Prop :=
  ∀ repeated as bs, v.messages = some (repeated, as) → w.messages = some (repeated, bs) →
    bs.length = as.length →
    ∀ (i : ℕ) (a b : R.Message), as[i]? = some a → bs[i]? = some b → rel a b

theorem Zip.get {rel : R.Message → R.Message → Prop} {v w : Value R.Message R.Scalar}
    (h : Zip rel v w) {r r' : Bool} {as bs : List R.Message} (has : v.messages = some (r, as))
    (hbs : w.messages = some (r', bs)) {i : ℕ} {a b : R.Message} (ha : as[i]? = some a)
    (hb : bs[i]? = some b) : rel a b := by
  obtain ⟨_, as', bs', has', hbs', -, hrel⟩ := h
  obtain ⟨-, rfl⟩ := Prod.mk.inj (Option.some.inj (has'.symm.trans has))
  obtain ⟨-, rfl⟩ := Prod.mk.inj (Option.some.inj (hbs'.symm.trans hbs))
  exact hrel i a b ha hb

theorem Zip₃.get {rel : R.Message → R.Message → R.Message → Prop}
    {u v w : Value R.Message R.Scalar} (h : Zip₃ rel u v w) {r r' r'' : Bool}
    {as bs cs : List R.Message} (has : u.messages = some (r, as)) (hbs : v.messages = some (r', bs))
    (hcs : w.messages = some (r'', cs)) {i : ℕ} {a b c : R.Message} (ha : as[i]? = some a)
    (hb : bs[i]? = some b) (hc : cs[i]? = some c) : rel a b c := by
  obtain ⟨_, as', bs', cs', has', hbs', hcs', -, -, hrel⟩ := h
  obtain ⟨-, rfl⟩ := Prod.mk.inj (Option.some.inj (has'.symm.trans has))
  obtain ⟨-, rfl⟩ := Prod.mk.inj (Option.some.inj (hbs'.symm.trans hbs))
  obtain ⟨-, rfl⟩ := Prod.mk.inj (Option.some.inj (hcs'.symm.trans hcs))
  exact hrel i a b c ha hb hc

/-- Messages at one place of equal values are equal. -/
theorem get_eq {v w : Value R.Message R.Scalar} (h : v = w) {r r' : Bool} {as bs : List R.Message}
    (has : v.messages = some (r, as)) (hbs : w.messages = some (r', bs)) {i : ℕ} {a b : R.Message}
    (ha : as[i]? = some a) (hb : bs[i]? = some b) : a = b := by
  subst h
  obtain ⟨-, rfl⟩ := Prod.mk.inj (Option.some.inj (has.symm.trans hbs))
  exact Option.some.inj (ha.symm.trans hb)

/-! ## Agreement, and the condition -/

/-- Two messages agree at a path, in the value and the presence of what it names. -/
def Agree : List String → R.Message → R.Message → Prop
  | [], _, _ => True
  | name :: rest, a, b => ∀ f, R.getFieldByName (R.descriptor a) name = some f →
    if rest = [] then R.view a f = R.view b f
    else R.getField a f = R.getField b f ∨ Zip (Agree rest) (R.getField a f) (R.getField b f)

/-- What the paths that start with a field name behind it. -/
def tails (name : String) (paths : List (List String)) : List (List String) :=
  paths.filterMap fun path =>
    match path with
    | [] => none
    | first :: rest => if first = name then some rest else none

/-- The field is one that a path starts with. -/
def Mentioned (paths : List (List String)) (m : R.Message) (f : R.FieldDescriptor) : Prop :=
  ∃ name rest, name :: rest ∈ paths ∧ R.getFieldByName (R.descriptor m) name = some f

/-- A path is as it was in the destination, unless it is that of a oneof member in whose stead the
source has one that is named. -/
def Kept : List String → List (List String) → R.Message → R.Message → R.Message → Prop
  | [], _, _, _, _ => True
  | name :: rest, paths, result, destination, source =>
    ∀ f, R.getFieldByName (R.descriptor destination) name = some f →
      (∃ g, R.Siblings f g ∧ Mentioned paths destination g ∧ R.hasField source g = true) ∨
      if rest = [] then R.view result f = R.view destination f
      else R.getField result f = R.getField destination f ∨
        Zip₃ (Kept rest (tails name paths)) (R.getField result f) (R.getField destination f)
          (R.getField source f)

/-- The source has each field with presence along the path. -/
def InSource : List String → R.Message → Prop
  | [], _ => True
  | name :: rest, source => ∀ f, R.getFieldByName (R.descriptor source) name = some f →
    (R.supportsPresence f = true → R.hasField source f = true) ∧
      (rest ≠ [] → ForMessages (InSource rest) (R.getField source f))

/-- **The path copies only what is there**: the source has the field it names, if that has presence;
a oneof member on the way is set in the source, or none of the others is set in the destination or
named; and below a field that is named itself the source has all. -/
def Clean : List String → List (List String) → R.Message → R.Message → Prop
  | [], _, _, _ => True
  | name :: rest, paths, destination, source =>
    ∀ f, R.getFieldByName (R.descriptor destination) name = some f →
      if rest = [] then R.supportsPresence f = true → R.hasField source f = true
      else
        (R.hasField source f = true ∨
          ∀ g, R.HasDesc destination g → R.Siblings f g →
            R.hasField destination g = false ∧ ¬ Mentioned paths destination g) ∧
        ([name] ∈ paths → InSource (name :: rest) source) ∧
        ForPairs (Clean rest (tails name paths)) (R.getField destination f) (R.getField source f)

theorem mem_tails {name : String} {rest : List String} {paths : List (List String)} :
    rest ∈ tails name paths ↔ name :: rest ∈ paths := by
  rw [tails, List.mem_filterMap]
  constructor
  · rintro ⟨path, hpath, h⟩
    cases path with
    | nil => cases h
    | cons first rest' =>
      dsimp only at h
      split_ifs at h with hfirst
      obtain rfl := Option.some.inj h
      exact hfirst ▸ hpath
  · exact fun h => ⟨name :: rest, h, if_pos rfl⟩

/-! ## One path -/

section One

variable {target patch result : R.Message} {path : List String}

theorem hasDesc_of_name {m : R.Message} {name : String} {f : R.FieldDescriptor}
    (h : R.getFieldByName (R.descriptor m) name = some f) : R.HasDesc m f := ⟨name, h⟩

theorem hasDesc_congr {m m' : R.Message} {f : R.FieldDescriptor}
    (h : R.descriptor m = R.descriptor m') : R.HasDesc m f ↔ R.HasDesc m' f := by
  rw [Reflect.HasDesc, Reflect.HasDesc, h]

/-- The messages a step is applied to are of one type. -/
theorem pair_type (hR : R.Lawful) {f : R.FieldDescriptor} (ht : R.HasDesc target f)
    (hp : R.HasDesc patch f) {r : Bool} {as bs : List R.Message}
    (has : (R.getField target f).messages = some (r, as))
    (hbs : (R.getField patch f).messages = some (r, bs)) {i : ℕ} {a b : R.Message}
    (ha : as[i]? = some a) (hb : bs[i]? = some b) : R.descriptor a = R.descriptor b :=
  hR.valid_type (hR.valid_getField ht) (hR.valid_getField hp) has hbs a (List.mem_of_getElem? ha) b
    (List.mem_of_getElem? hb)

theorem Steps.exists_patch
    {step : R.Message → R.Message → MaskResult R D R.Message} {as bs cs : List R.Message}
    (h : Steps step as bs cs) {i : ℕ} {c : R.Message} (hc : cs[i]? = some c) :
    ∃ a b, as[i]? = some a ∧ bs[i]? = some b ∧ step a b = .ok c := by
  have hi : i < cs.length := (List.getElem?_eq_some_iff.1 hc).1
  have ha := List.getElem?_eq_getElem (l := as) (i := i) (by rw [← h.results_length]; exact hi)
  have hb := List.getElem?_eq_getElem (l := bs) (i := i)
    (by rw [h.patches_length, ← h.results_length]; exact hi)
  exact ⟨_, _, ha, hb, h.step i _ _ c ha hb hc⟩

/-- Changed messages of the types they had are a value of the field. -/
theorem Nested.valid (hR : R.Lawful) {f : R.FieldDescriptor}
    {step : R.Message → R.Message → MaskResult R D R.Message} {v : Value R.Message R.Scalar}
    (ht : R.HasDesc target f) (hp : R.HasDesc patch f)
    (hstep : ∀ {a b c}, R.descriptor a = R.descriptor b → step a b = .ok c →
      R.descriptor c = R.descriptor a)
    (h : Nested step (R.getField target f) (R.getField patch f) v) :
    R.isValidForField f v = true := by
  obtain ⟨r, as, bs, cs, has, hbs, hcs, hsteps⟩ := h
  refine hR.valid_replace (hR.valid_getField ht) has hcs ?_
  apply List.ext_getElem?
  intro i
  rw [List.getElem?_map, List.getElem?_map]
  cases hc : cs[i]? with
  | none =>
    have hi := List.getElem?_eq_none_iff.1 hc
    rw [hsteps.results_length] at hi
    rw [List.getElem?_eq_none hi]
  | some c =>
    obtain ⟨a, b, ha, hb, hok⟩ := hsteps.exists_patch hc
    rw [ha, Option.map_some, Option.map_some, hstep (pair_type hR ht hp has hbs ha hb) hok]

theorem Steps.exists_result
    {step : R.Message → R.Message → MaskResult R D R.Message} {as bs cs : List R.Message}
    (h : Steps step as bs cs) {i : ℕ} {b : R.Message} (hb : bs[i]? = some b) :
    ∃ a c, as[i]? = some a ∧ cs[i]? = some c ∧ step a b = .ok c := by
  have hi : i < bs.length := (List.getElem?_eq_some_iff.1 hb).1
  rw [h.patches_length] at hi
  have ha := List.getElem?_eq_getElem hi
  have hc := List.getElem?_eq_getElem (l := cs) (i := i) (by rw [h.results_length]; exact hi)
  exact ⟨_, _, ha, hc, h.step i _ b _ ha hb hc⟩

theorem applyPath_descriptor (hR : R.Lawful) (hdesc : R.descriptor target = R.descriptor patch)
    (h : applyPath D .update path target patch = .ok result) :
    R.descriptor result = R.descriptor target := by
  induction path generalizing target patch result with
  | nil => rw [Except.ok.inj h]
  | cons name rest ih =>
    obtain ⟨-, rfl⟩ | ⟨f, v, hname, hsets, rfl⟩ := (applyPath_cons hR hdesc).1 h
    · rfl
    · have hf := hasDesc_of_name hname
      have hfp := (hasDesc_congr hdesc).1 hf
      refine hR.descriptor_setField hf ?_
      cases hsets with
      | leaf => exact hR.valid_getField hfp
      | nested _ hv => exact hv.valid hR hf hfp ih

/-- What is set is a value of the field. -/
theorem Sets.valid (hR : R.Lawful) {f : R.FieldDescriptor} {rest : List String}
    {v : Value R.Message R.Scalar} (ht : R.HasDesc target f) (hp : R.HasDesc patch f)
    (h : Sets D rest target patch f v) : R.isValidForField f v = true := by
  cases h with
  | leaf => exact hR.valid_getField hp
  | nested _ hv => exact hv.valid hR ht hp (applyPath_descriptor hR)

/-- **A path that copies only what is there agrees with the source.** -/
theorem applyPath_agree (hR : R.Lawful) {paths : List (List String)}
    (hdesc : R.descriptor target = R.descriptor patch) (hclean : Clean path paths target patch)
    (h : applyPath D .update path target patch = .ok result) : Agree path result patch := by
  induction path generalizing target patch result paths with
  | nil => trivial
  | cons name rest ih =>
    intro f hname
    rw [applyPath_descriptor hR hdesc h] at hname
    obtain ⟨hnone, -⟩ | ⟨f', v, hname', hsets, rfl⟩ := (applyPath_cons hR hdesc).1 h
    · rw [hnone] at hname
      cases hname
    obtain rfl := Option.some.inj (hname'.symm.trans hname)
    have hf := hasDesc_of_name hname
    have hfp := (hasDesc_congr hdesc).1 hf
    have hv := hsets.valid hR hf hfp
    have hcleanF := hclean _ hname
    cases hsets with
    | leaf hrest =>
      rw [if_pos hrest] at hcleanF ⊢
      rw [hR.view_set_self hf hv, Reflect.view]
      cases hp : R.supportsPresence f' with
      | true => rw [hcleanF hp, Bool.true_or]
      | false => rw [hR.hasField_implicit hfp hp, Bool.false_or]
    | nested hrest hnested =>
      rw [if_neg hrest] at hcleanF ⊢
      rw [hR.getField_set hf hv]
      obtain ⟨r, as, bs, cs, has, hbs, hcs, hsteps⟩ := hnested
      refine .inr ⟨r, cs, bs, hcs, hbs, hsteps.patches_length.trans hsteps.results_length.symm, ?_⟩
      intro i c b hc hb
      obtain ⟨a, b', ha, hb', hstep⟩ := hsteps.exists_patch hc
      obtain rfl := Option.some.inj (hb'.symm.trans hb)
      exact ih (pair_type hR hf hfp has hbs ha hb)
        (hcleanF.2.2 r as bs has hbs hsteps.patches_length i a _ ha hb) hstep

/-- **A path that was applied changes nothing when it is applied again.** -/
theorem applyPath_again (hR : R.Lawful) (hdesc : R.descriptor target = R.descriptor patch)
    (h : applyPath D .update path target patch = .ok result) :
    applyPath D .update path result patch = .ok result := by
  induction path generalizing target patch result with
  | nil => rfl
  | cons name rest ih =>
    have hdesc' := applyPath_descriptor hR hdesc h
    rw [applyPath_cons hR (hdesc'.trans hdesc), hdesc']
    obtain ⟨hnone, rfl⟩ | ⟨f, v, hname, hsets, rfl⟩ := (applyPath_cons hR hdesc).1 h
    · exact .inl ⟨hnone, rfl⟩
    · have hf := hasDesc_of_name hname
      have hfp := (hasDesc_congr hdesc).1 hf
      have hv := hsets.valid hR hf hfp
      refine .inr ⟨f, v, hname, ?_, (hR.set_set hf hv hv).symm⟩
      cases hsets with
      | leaf hrest => exact .leaf hrest
      | nested hrest hnested =>
        refine .nested hrest ?_
        rw [hR.getField_set hf hv]
        obtain ⟨r, as, bs, cs, has, hbs, hcs, hsteps⟩ := hnested
        refine ⟨r, cs, bs, cs, hcs, hbs, hcs,
          hsteps.patches_length.trans hsteps.results_length.symm, rfl, ?_⟩
        intro i c b c' hc hb hc'
        obtain rfl := Option.some.inj (hc.symm.trans hc')
        obtain ⟨a, b', ha, hb', hstep⟩ := hsteps.exists_patch hc
        obtain rfl := Option.some.inj (hb'.symm.trans hb)
        exact ih (pair_type hR hf hfp has hbs ha hb) hstep
/-- A path whose fields are all in the source changes nothing in it. -/
theorem applyPath_self (hR : R.Lawful) {other : R.Message} (hin : InSource path patch)
    (hdesc : R.descriptor other = R.descriptor patch)
    (h : applyPath D .update path other patch = .ok result) :
    applyPath D .update path patch patch = .ok patch := by
  induction path generalizing other patch result with
  | nil => rfl
  | cons name rest ih =>
    rw [applyPath_cons hR rfl, ← hdesc]
    obtain ⟨hnone, -⟩ | ⟨f, v, hname, hsets, -⟩ := (applyPath_cons hR hdesc).1 h
    · exact .inl ⟨hnone, rfl⟩
    · have hf := hasDesc_of_name hname
      have hfp := (hasDesc_congr hdesc).1 hf
      obtain ⟨hset, hbelow⟩ := hin f (hdesc ▸ hname)
      refine .inr ⟨f, R.getField patch f, hname, ?_, (hR.set_get hfp hset).symm⟩
      cases hsets with
      | leaf hrest => exact .leaf hrest
      | nested hrest hnested =>
        obtain ⟨r, as, bs, cs, has, hbs, -, hsteps⟩ := hnested
        refine .nested hrest ⟨r, bs, bs, bs, hbs, hbs, hbs, rfl, rfl, fun i b b' b'' hb hb' hb'' => ?_⟩
        obtain rfl := Option.some.inj (hb.symm.trans hb')
        obtain rfl := Option.some.inj (hb.symm.trans hb'')
        obtain ⟨a, c, ha, -, hstep⟩ := hsteps.exists_result hb
        exact ih (hbelow hrest r bs hbs b (List.mem_of_getElem? hb))
          (pair_type hR hf hfp has hbs ha hb) hstep

end One

/-! ## The condition -/

section Condition

variable {target patch result : R.Message} {paths : List (List String)}

theorem InSource.clean (hR : R.Lawful) {path : List String} {source : R.Message} (h : InSource path source)
    (paths : List (List String)) : Clean path paths source source := by
  induction path generalizing source paths with
  | nil => trivial
  | cons name rest ih =>
    intro f hname
    obtain ⟨hset, hbelow⟩ := h f hname
    split_ifs with hrest
    · exact hset
    · refine ⟨?_, fun _ => h, ?_⟩
      · by_cases hf : R.hasField source f = true
        · exact .inl hf
        · exact .inr fun g _ hsib => absurd (hset (hR.oneof_presence hsib.2.choose_spec.1)) hf
      · intro r as bs has hbs _ i a b ha hb
        obtain ⟨-, rfl⟩ := Prod.mk.inj (Option.some.inj (has.symm.trans hbs))
        obtain rfl := Option.some.inj (ha.symm.trans hb)
        exact ih (hbelow hrest r as has a (List.mem_of_getElem? ha)) _

/-- The condition holds of the messages below a field. -/
theorem clean_tails (hclean : ∀ path ∈ paths, Clean path paths target patch) {name : String}
    {f : R.FieldDescriptor} (hname : R.getFieldByName (R.descriptor target) name = some f) {r : Bool}
    {as bs : List R.Message} (has : (R.getField target f).messages = some (r, as))
    (hbs : (R.getField patch f).messages = some (r, bs)) (hlen : bs.length = as.length) {i : ℕ}
    {a b : R.Message} (ha : as[i]? = some a) (hb : bs[i]? = some b) :
    ∀ rest ∈ tails name paths, Clean rest (tails name paths) a b := by
  intro rest hrest
  have h := hclean _ (mem_tails.1 hrest) f hname
  split_ifs at h with hnil
  · subst hnil
    trivial
  · exact h.2.2 r as bs has hbs hlen i a b ha hb

/-- A member of a oneof that is named, or on the way while another is named, is in the source. -/
theorem Clean.hasField (hR : R.Lawful) {name : String} {rest : List String}
    {f g : R.FieldDescriptor} (h : Clean (name :: rest) paths target patch)
    (hname : R.getFieldByName (R.descriptor target) name = some f) (hg : R.HasDesc target g)
    (hsib : R.Siblings f g)
    (hother : R.hasField target g = true ∨ Mentioned paths target g) :
    R.hasField patch f = true := by
  have h := h f hname
  split_ifs at h with hrest
  · exact h (hR.oneof_presence hsib.2.choose_spec.1)
  · obtain hset | halone := h.1
    · exact hset
    · obtain ⟨hunset, hnot⟩ := halone g hg hsib
      obtain hset | hmentioned := hother
      · exact absurd (hset.symm.trans hunset) Bool.false_ne_true.symm
      · exact absurd hmentioned hnot

/-- The paths name at most one member of a oneof. -/
theorem not_siblings (hR : R.Lawful) (hdesc : R.descriptor target = R.descriptor patch)
    (hclean : ∀ path ∈ paths, Clean path paths target patch) {f g : R.FieldDescriptor}
    (hf : Mentioned paths target f) (hg : Mentioned paths target g) : ¬ R.Siblings f g := by
  intro hsib
  obtain ⟨name, rest, hmem, hname⟩ := hf
  obtain ⟨name', rest', hmem', hname'⟩ := hg
  have hsetF := (hclean _ hmem).hasField hR hname (hasDesc_of_name hname') hsib
    (.inr ⟨name', rest', hmem', hname'⟩)
  have hsetG := (hclean _ hmem').hasField hR hname' (hasDesc_of_name hname)
    (Reflect.Lawful.siblings_symm hsib) (.inr ⟨name, rest, hmem, hname⟩)
  have hunset := hR.oneof_unique ((hasDesc_congr hdesc).1 (hasDesc_of_name hname))
    ((hasDesc_congr hdesc).1 (hasDesc_of_name hname')) hsib hsetF
  rw [hsetG] at hunset
  cases hunset

theorem mentioned_congr {m m' : R.Message} {f : R.FieldDescriptor}
    (h : R.descriptor m = R.descriptor m') : Mentioned paths m f ↔ Mentioned paths m' f := by
  rw [Mentioned, Mentioned, h]

/-- **The condition is kept by the paths it holds of.** -/
theorem Clean.applyPath (hR : R.Lawful) {path path' : List String}
    (hdesc : R.descriptor target = R.descriptor patch)
    (hclean : ∀ path ∈ paths, Clean path paths target patch) (hpath : path ∈ paths)
    (hpath' : path' ∈ paths) (h : applyPath D .update path target patch = .ok result) :
    Clean path' paths result patch := by
  induction path generalizing path' target patch result paths with
  | nil =>
    obtain rfl := Except.ok.inj h
    exact hclean path' hpath'
  | cons name rest ih =>
    have hresult := applyPath_descriptor hR hdesc h
    obtain ⟨-, rfl⟩ | ⟨f, v, hname, hsets, rfl⟩ := (applyPath_cons hR hdesc).1 h
    · exact hclean path' hpath'
    cases path' with
    | nil => trivial
    | cons name' rest' =>
      intro f' hname'
      rw [hresult] at hname'
      have hf := hasDesc_of_name hname
      have hfp := (hasDesc_congr hdesc).1 hf
      have hf' := hasDesc_of_name hname'
      have hv := hsets.valid hR hf hfp
      have hmentioned : Mentioned paths target f := ⟨name, rest, hpath, hname⟩
      have hclean' := hclean _ hpath' f' hname'
      split_ifs at hclean' ⊢ with hrest'
      · exact hclean'
      obtain ⟨honeof, hbelow, hpairs⟩ := hclean'
      refine ⟨honeof.imp id fun halone g hg hsib => ?_, hbelow, ?_⟩
      · have hg := (hasDesc_congr hresult).1 hg
        obtain ⟨hunset, hnot⟩ := halone g hg hsib
        refine ⟨?_, fun h => hnot ((mentioned_congr hresult).1 h)⟩
        by_cases hfg : R.Siblings f g
        · exact hR.hasField_sibling hf hg hv hfg
        · have hne : f ≠ g := fun heq => hnot (heq ▸ hmentioned)
          rw [← hunset]
          exact congrArg Prod.snd (hR.view_set_other hf hg hv hne hfg)
      · by_cases hff : f = f'
        · subst hff
          obtain rfl := hR.name_unique hname hname'
          rw [hR.getField_set hf hv]
          intro r cs' bs' hcs' hbs' _ i c b hc hb
          cases hsets with
          | leaf hrest =>
            -- what was copied is judged against the source itself
            subst hrest
            have hin := (hbelow hpath f (hdesc ▸ hname)).2 hrest'
            obtain ⟨-, rfl⟩ := Prod.mk.inj (Option.some.inj (hcs'.symm.trans hbs'))
            obtain rfl := Option.some.inj (hc.symm.trans hb)
            exact (hin r cs' hcs' c (List.mem_of_getElem? hc)).clean hR _
          | nested hrest hnested =>
            obtain ⟨r, as, bs, cs, has, hbs, hcs, hsteps⟩ := hnested
            obtain ⟨rfl, rfl⟩ := Prod.mk.inj (Option.some.inj (hcs'.symm.trans hcs))
            obtain ⟨-, rfl⟩ := Prod.mk.inj (Option.some.inj (hbs'.symm.trans hbs))
            obtain ⟨a, b', ha, hb', hstep⟩ := hsteps.exists_patch hc
            obtain rfl := Option.some.inj (hb'.symm.trans hb)
            exact ih (pair_type hR hf hfp has hbs ha hb)
              (clean_tails hclean hname has hbs hsteps.patches_length ha hb)
              (mem_tails.2 hpath) (mem_tails.2 hpath') hstep
        · have hnot := not_siblings hR hdesc hclean hmentioned ⟨name', rest', hpath', hname'⟩
          rw [show R.getField (R.setField target f v) f' = R.getField target f' from
            congrArg Prod.fst (hR.view_set_other hf hf' hv hff hnot)]
          exact hpairs

/-- **Below a path that was applied, nothing is left to change.** -/
theorem applyPath_below (hR : R.Lawful) {path below : List String} {other result' : R.Message}
    (hdesc : R.descriptor target = R.descriptor patch) (hne : path ≠ []) (hstart : path <+: below)
    (hpath : path ∈ paths) (hclean : Clean below paths target patch)
    (hfixed : applyPath D .update path target patch = .ok target)
    (hdesc' : R.descriptor other = R.descriptor patch)
    (hother : applyPath D .update below other patch = .ok result') :
    applyPath D .update below target patch = .ok target := by
  induction path generalizing below target patch other result' paths with
  | nil => exact absurd rfl hne
  | cons name rest ih =>
    obtain ⟨tail, rfl⟩ := hstart
    rw [List.cons_append] at hclean hother ⊢
    rw [applyPath_cons hR hdesc]
    obtain ⟨hnone, -⟩ | ⟨f, v, hname, hsets, heq⟩ := (applyPath_cons hR hdesc).1 hfixed
    · exact .inl ⟨hnone, rfl⟩
    have hf := hasDesc_of_name hname
    have hfp := (hasDesc_congr hdesc).1 hf
    have hv := hsets.valid hR hf hfp
    have hget : R.getField target f = v := by
      rw [heq, hR.getField_set hf hv]
    refine .inr ⟨f, v, hname, ?_, heq⟩
    obtain ⟨hnone, -⟩ | ⟨f', v', hname', hsets', -⟩ := (applyPath_cons hR hdesc').1 hother
    · rw [hdesc', ← hdesc, hname] at hnone
      cases hnone
    rw [hdesc', ← hdesc, hname] at hname'
    obtain rfl := Option.some.inj hname'
    have hfo := (hasDesc_congr (hdesc'.trans hdesc.symm)).2 hf
    have hcleanF := hclean f hname
    cases hsets with
    | leaf hrest =>
      subst hrest
      cases hsets' with
      | leaf hnil => exact .leaf hnil
      | nested hbelow hnested =>
        rw [if_neg hbelow] at hcleanF
        have hin := (hcleanF.2.1 hpath f (hdesc ▸ hname)).2 hbelow
        obtain ⟨r, as, bs, cs, has, hbs, -, hsteps⟩ := hnested
        refine .nested hbelow ⟨r, bs, bs, bs, by rw [hget, hbs], hbs, hbs, rfl, rfl, ?_⟩
        intro i b b' b'' hb hb' hb''
        obtain rfl := Option.some.inj (hb.symm.trans hb')
        obtain rfl := Option.some.inj (hb.symm.trans hb'')
        obtain ⟨a, c, ha, -, hstep⟩ := hsteps.exists_result hb
        exact applyPath_self hR (hin r bs hbs b (List.mem_of_getElem? hb))
          (pair_type hR hfo hfp has hbs ha hb) hstep
    | nested hrest hnested =>
      have hbelow : rest ++ tail ≠ [] := fun h => hrest (List.append_eq_nil_iff.1 h).1
      rw [if_neg hbelow] at hcleanF
      cases hsets' with
      | leaf hnil => exact absurd hnil hbelow
      | nested _ hnested' =>
        obtain ⟨r, as, bs, cs, has, hbs, hcs, hsteps⟩ := hnested
        obtain ⟨r', as', bs', cs', has', hbs', -, hsteps'⟩ := hnested'
        obtain ⟨rfl, rfl⟩ := Prod.mk.inj (Option.some.inj (hbs'.symm.trans hbs))
        have hsame : as = cs := by
          rw [hget] at has
          exact (Prod.mk.inj (Option.some.inj (has.symm.trans hcs))).2
        subst hsame
        refine .nested hbelow ⟨_, as, _, as, has, hbs, hcs, hsteps.patches_length, rfl, ?_⟩
        intro i a b a' ha hb ha'
        obtain rfl := Option.some.inj (ha.symm.trans ha')
        obtain ⟨o, c, ho, -, hstep'⟩ := hsteps'.exists_result hb
        exact ih (pair_type hR hf hfp has hbs ha hb) hrest (List.prefix_append rest tail)
          (mem_tails.2 hpath) (hcleanF.2.2 _ _ _ has hbs hsteps.patches_length i a b ha hb)
          (hsteps.step i a b a ha hb ha) (pair_type hR hfo hfp has' hbs' ho hb) hstep'

theorem Sets.congr {target' : R.Message} {f : R.FieldDescriptor} {rest : List String}
    {v : Value R.Message R.Scalar} (h : Sets D rest target patch f v)
    (hget : R.getField target' f = R.getField target f) : Sets D rest target' patch f v := by
  cases h with
  | leaf hrest => exact .leaf hrest
  | nested hrest hv => exact .nested hrest (hget ▸ hv)

/-- Two steps that commute on each pair of messages commute on all of them. -/
theorem Steps.swap {step step' : R.Message → R.Message → MaskResult R D R.Message}
    {as bs cs ds : List R.Message} (h : Steps step as bs cs) (h' : Steps step' cs bs ds)
    (hcomm : ∀ (i : ℕ) (a b c d : R.Message), as[i]? = some a → bs[i]? = some b →
      step a b = .ok c → step' c b = .ok d → ∃ e, step' a b = .ok e ∧ step e b = .ok d) :
    ∃ es, Steps step' as bs es ∧ Steps step es bs ds := by
  induction as generalizing bs cs ds with
  | nil =>
    obtain rfl := List.length_eq_zero_iff.1 h.patches_length
    obtain rfl := List.length_eq_zero_iff.1 h.results_length
    obtain rfl := List.length_eq_zero_iff.1 h'.results_length
    exact ⟨[], h', h⟩
  | cons a as ih =>
    obtain ⟨b, bs, rfl⟩ := List.exists_cons_of_length_eq_add_one h.patches_length
    obtain ⟨c, cs, rfl⟩ := List.exists_cons_of_length_eq_add_one h.results_length
    obtain ⟨d, ds, rfl⟩ := List.exists_cons_of_length_eq_add_one h'.results_length
    obtain ⟨hstep, hrest⟩ := steps_cons.1 h
    obtain ⟨hstep', hrest'⟩ := steps_cons.1 h'
    obtain ⟨e, he, hd⟩ := hcomm 0 a b c d rfl rfl hstep hstep'
    obtain ⟨es, hes, hds⟩ := ih hrest hrest' fun i => hcomm (i + 1)
    exact ⟨e :: es, steps_cons.2 ⟨he, hes⟩, steps_cons.2 ⟨hd, hds⟩⟩

theorem Nested.swap {step step' : R.Message → R.Message → MaskResult R D R.Message}
    {u w v v' : Value R.Message R.Scalar} (h : Nested step u w v) (h' : Nested step' v w v')
    (hcomm : ∀ r as bs, u.messages = some (r, as) → w.messages = some (r, bs) →
      bs.length = as.length → ∀ (i : ℕ) (a b c d : R.Message), as[i]? = some a → bs[i]? = some b →
        step a b = .ok c → step' c b = .ok d → ∃ e, step' a b = .ok e ∧ step e b = .ok d) :
    ∃ v₃, Nested step' u w v₃ ∧ Nested step v₃ w v' := by
  obtain ⟨r, as, bs, cs, has, hbs, hcs, hsteps⟩ := h
  obtain ⟨r', cs', bs', ds, hcs', hbs', hds, hsteps'⟩ := h'
  obtain ⟨rfl, rfl⟩ := Prod.mk.inj (Option.some.inj (hcs'.symm.trans hcs))
  obtain ⟨-, rfl⟩ := Prod.mk.inj (Option.some.inj (hbs'.symm.trans hbs))
  obtain ⟨es, hes, hds'⟩ := hsteps.swap hsteps' (hcomm _ _ _ has hbs hsteps.patches_length)
  obtain ⟨v₃, hv₃⟩ := Value.exists_messages has hes.results_length
  exact ⟨v₃, ⟨_, _, _, _, has, hbs, hv₃, hes⟩, ⟨_, _, _, _, hv₃, hbs, hds, hds'⟩⟩

/-- **Paths that do not overlap are applied in either order.** -/
theorem applyPath_comm (hR : R.Lawful) {path path' : List String} {first second : R.Message}
    (hdesc : R.descriptor target = R.descriptor patch)
    (hclean : ∀ path ∈ paths, Clean path paths target patch) (hpath : path ∈ paths)
    (hpath' : path' ∈ paths) (hover : ¬ path <+: path') (hover' : ¬ path' <+: path)
    (hfirst : applyPath D .update path target patch = .ok first)
    (hsecond : applyPath D .update path' first patch = .ok second) :
    ∃ other, applyPath D .update path' target patch = .ok other ∧
      applyPath D .update path other patch = .ok second := by
  induction path generalizing path' target patch first second paths with
  | nil => exact absurd List.nil_prefix hover
  | cons name rest ih =>
    cases path' with
    | nil => exact absurd List.nil_prefix hover'
    | cons name' rest' =>
      have hdesc₁ := applyPath_descriptor hR hdesc hfirst
      have hdesc₂ := applyPath_descriptor hR (hdesc₁.trans hdesc) hsecond
      obtain ⟨hnone, rfl⟩ | ⟨f, v, hname, hsets, rfl⟩ := (applyPath_cons hR hdesc).1 hfirst
      · exact ⟨second, hsecond, (applyPath_cons hR (hdesc₂.trans hdesc)).2
          (.inl ⟨by rw [hdesc₂, hnone], rfl⟩)⟩
      obtain ⟨hnone, rfl⟩ | ⟨f', v', hname', hsets', rfl⟩ :=
        (applyPath_cons hR (hdesc₁.trans hdesc)).1 hsecond
      · exact ⟨target, (applyPath_cons hR hdesc).2 (.inl ⟨by rw [← hdesc₁, hnone], rfl⟩), hfirst⟩
      rw [hdesc₁] at hname'
      have hf := hasDesc_of_name hname
      have hfp := (hasDesc_congr hdesc).1 hf
      have hf' := hasDesc_of_name hname'
      have hv := hsets.valid hR hf hfp
      have hv' := hsets'.valid hR ((hasDesc_congr hdesc₁).2 hf') ((hasDesc_congr hdesc).1 hf')
      by_cases hff : f = f'
      · subst hff
        obtain rfl := hR.name_unique hname hname'
        have hover : ¬ rest <+: rest' := fun h => hover (List.prefix_cons_inj name |>.2 h)
        have hover' : ¬ rest' <+: rest := fun h => hover' (List.prefix_cons_inj name |>.2 h)
        cases hsets with
        | leaf hrest => exact absurd (hrest ▸ List.nil_prefix) hover
        | nested hrest hnested =>
          cases hsets' with
          | leaf hrest' => exact absurd (hrest' ▸ List.nil_prefix) hover'
          | nested hrest' hnested' =>
            rw [hR.getField_set hf hv] at hnested'
            obtain ⟨v₃, hfirst₃, hsecond₃⟩ := hnested.swap hnested'
              fun r as bs has hbs hlen i a b c d ha hb hstep hstep' =>
                ih (pair_type hR hf hfp has hbs ha hb)
                  (clean_tails hclean hname has hbs hlen ha hb) (mem_tails.2 hpath)
                  (mem_tails.2 hpath') hover hover' hstep hstep'
            have hv₃ := hfirst₃.valid hR hf hfp (applyPath_descriptor hR)
            have hdesc₃ := hR.descriptor_setField hf hv₃
            refine ⟨R.setField target f v₃,
              (applyPath_cons hR hdesc).2 (.inr ⟨f, v₃, hname, .nested hrest' hfirst₃, rfl⟩),
              (applyPath_cons hR (hdesc₃.trans hdesc)).2 (.inr ⟨f, v', by rw [hdesc₃, hname],
                .nested hrest ?_, ?_⟩)⟩
            · rw [hR.getField_set hf hv₃]
              exact hsecond₃
            · rw [hR.set_set hf hv hv', hR.set_set hf hv₃ hv']
      · have hmentioned : Mentioned paths target f := ⟨name, rest, hpath, hname⟩
        have hmentioned' : Mentioned paths target f' := ⟨name', rest', hpath', hname'⟩
        have hnot := not_siblings hR hdesc hclean hmentioned hmentioned'
        have hnot' := not_siblings hR hdesc hclean hmentioned' hmentioned
        have hdesc₃ := hR.descriptor_setField hf' hv'
        refine ⟨R.setField target f' v', (applyPath_cons hR hdesc).2 (.inr ⟨f', v', hname',
          hsets'.congr (congrArg Prod.fst (hR.view_set_other hf hf' hv hff hnot)).symm, rfl⟩),
          (applyPath_cons hR (hdesc₃.trans hdesc)).2 (.inr ⟨f, v, by rw [hdesc₃, hname],
          hsets.congr (congrArg Prod.fst (hR.view_set_other hf' hf hv' (Ne.symm hff) hnot')),
          hR.set_comm hf hf' hv hv' hff hnot⟩)⟩

/-! ## What is kept -/

theorem Kept.refl (path : List String) (paths : List (List String)) (m source : R.Message) :
    Kept path paths m m source := by
  cases path with
  | nil => trivial
  | cons name rest =>
    intro f _
    right
    split_ifs
    · rfl
    · exact .inl rfl

/-- What a path keeps behind what others kept is kept. -/
theorem Kept.trans (hR : R.Lawful) {path : List String} {destination : R.Message}
    (hdesc : R.descriptor target = R.descriptor destination)
    (hsource : R.descriptor target = R.descriptor patch)
    (h : Kept path paths result target patch) (h' : Kept path paths target destination patch) :
    Kept path paths result destination patch := by
  induction path generalizing result target destination patch paths with
  | nil => trivial
  | cons name rest ih =>
    intro f hname
    have hname' := hname
    rw [← hdesc] at hname'
    obtain hdisplaced | h' := h' f hname
    · exact .inl hdisplaced
    obtain ⟨g, hsib, hmentioned, hset⟩ | h := h f hname'
    · exact .inl ⟨g, hsib, (mentioned_congr hdesc).1 hmentioned, hset⟩
    right
    split_ifs at h h' ⊢ with hrest
    · exact h.trans h'
    obtain heq | hzip := h
    · rw [heq]
      exact h'
    obtain heq | hzip' := h'
    · rw [← heq]
      exact .inr hzip
    obtain ⟨r, as, bs, cs, has, hbs, hcs, hblen, hclen, hrel⟩ := hzip
    obtain ⟨r', bs', ds, cs', hbs', hds, hcs', hdlen, hclen', hrel'⟩ := hzip'
    obtain ⟨rfl, rfl⟩ := Prod.mk.inj (Option.some.inj (hbs'.symm.trans hbs))
    obtain ⟨-, rfl⟩ := Prod.mk.inj (Option.some.inj (hcs'.symm.trans hcs))
    refine .inr ⟨_, as, ds, _, has, hds, hcs, hdlen.trans hblen, hclen, fun i a d c ha hd hc => ?_⟩
    have hb := List.getElem?_eq_getElem (l := bs') (i := i)
      (by rw [hblen]; exact (List.getElem?_eq_some_iff.1 ha).1)
    have ht := hasDesc_of_name hname'
    have hddesc := hasDesc_of_name hname
    have hs := (hasDesc_congr hsource).1 ht
    exact ih (pair_type hR ht hddesc hbs hds hb hd) (pair_type hR ht hs hbs hcs hb hc)
      (hrel i a _ c ha hb hc) (hrel' i _ d c hb hd hc)

/-- **A path keeps what it does not overlap with.** -/
theorem applyPath_kept (hR : R.Lawful) {path kept : List String}
    (hdesc : R.descriptor target = R.descriptor patch)
    (hclean : ∀ path ∈ paths, Clean path paths target patch) (hpath : path ∈ paths)
    (hover : ¬ path <+: kept) (hover' : ¬ kept <+: path)
    (h : applyPath D .update path target patch = .ok result) :
    Kept kept paths result target patch := by
  induction path generalizing kept target patch result paths with
  | nil => exact absurd List.nil_prefix hover
  | cons name rest ih =>
    cases kept with
    | nil => exact absurd List.nil_prefix hover'
    | cons name' rest' =>
      obtain ⟨-, rfl⟩ | ⟨f, v, hname, hsets, rfl⟩ := (applyPath_cons hR hdesc).1 h
      · exact .refl _ _ _ _
      intro g hg
      have hf := hasDesc_of_name hname
      have hfp := (hasDesc_congr hdesc).1 hf
      have hv := hsets.valid hR hf hfp
      have hgdesc := hasDesc_of_name hg
      by_cases hfg : f = g
      · subst hfg
        obtain rfl := hR.name_unique hname hg
        have hover : ¬ rest <+: rest' := fun h => hover (List.prefix_cons_inj name |>.2 h)
        have hover' : ¬ rest' <+: rest := fun h => hover' (List.prefix_cons_inj name |>.2 h)
        have hrest' : rest' ≠ [] := by
          rintro rfl
          exact hover' List.nil_prefix
        cases hsets with
        | leaf hrest => exact absurd (hrest ▸ List.nil_prefix) hover
        | nested hrest hnested =>
          rw [hR.getField_set hf hv]
          obtain ⟨r, as, bs, cs, has, hbs, hcs, hsteps⟩ := hnested
          right
          rw [if_neg hrest']
          refine .inr ⟨r, cs, as, bs, hcs, has, hbs, hsteps.results_length.symm,
            hsteps.patches_length.trans hsteps.results_length.symm, fun i c a b hc ha hb => ?_⟩
          exact ih (pair_type hR hf hfp has hbs ha hb)
            (clean_tails hclean hname has hbs hsteps.patches_length ha hb) (mem_tails.2 hpath) hover
            hover' (hsteps.step i a b c ha hb hc)
      · by_cases hview : R.view (R.setField target f v) g = R.view target g
        · right
          split_ifs
          · exact hview
          · exact .inl (congrArg Prod.fst hview)
        · have hsib : R.Siblings f g := by
            by_contra hnot
            exact hview (hR.view_set_other hf hgdesc hv hfg hnot)
          have hset : R.hasField target g = true := by
            by_contra hunset
            rw [Bool.not_eq_true] at hunset
            rw [hR.view_sibling hf hgdesc hv hsib, Reflect.view, hunset,
              hR.getField_unset hgdesc hunset] at hview
            exact hview rfl
          exact .inl ⟨f, Reflect.Lawful.siblings_symm hsib, ⟨name, rest, hpath, hname⟩,
            (hclean _ hpath).hasField hR hname hgdesc hsib (.inl hset)⟩

end Condition

end Clinch.FieldMask
