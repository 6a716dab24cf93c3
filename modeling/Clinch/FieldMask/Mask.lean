import Clinch.FieldMask.Path

/-!
# A field mask touches only what it names

The paths of a mask are applied one after the other. What one path has copied stays as it is under the
others, in any order, and what no path names stays as it was, where no path sets a field that the
source does not have.

* `Touches`: what an update promises;
* `applyAll_fixed`, `applyAll_kept`, `applyAll_perm`: the run over the paths;
* `clean_of_touches`: the condition is needed;
* `docReflect`: documents, with a title, and a text and a body that exclude each other;
* **`update_touches`**: an update keeps its promise where the paths copy only what is there;
* `text_unset`: an unset oneof member is set, and the one in its stead is lost.
-/

set_option autoImplicit false

namespace Clinch.FieldMask

variable {R : Reflect} {D : Type}

/-- Neither path is at, above or below the other. -/
def Apart (path path' : List String) : Prop := ¬ path <+: path' ∧ ¬ path' <+: path

instance : Std.Symm Apart := ⟨fun _ _ h => ⟨h.2, h.1⟩⟩

/-- **The result agrees with the source on what is named and with the destination on the rest; it is
left as it is by the same update, and is that of the paths in any order if none overlap.** -/
def Touches (G : Generated R) (destination source : G.T) (mask : List String) : Prop :=
  ∀ result, (FieldMaskOperation.update G destination source mask).apply = .ok result →
    ∃ d s r, G.transcodeFrom destination = .ok d ∧ G.transcodeFrom source = .ok s ∧
      G.transcodeFrom result = .ok r ∧
      (∀ path ∈ segments mask, Agree path r s) ∧
      (∀ path, (∀ named ∈ segments mask, Apart named path) →
        Kept path (segments mask) r d s) ∧
      (FieldMaskOperation.update G result source mask).apply = .ok result ∧
      ((segments mask).Pairwise Apart → ∀ mask', mask.Perm mask' →
        (FieldMaskOperation.update G destination source mask').apply = .ok result)

/-- Each path of the mask copies only what is there. -/
def CleanMask (G : Generated R) (destination source : G.T) (mask : List String) : Prop :=
  ∀ d s, G.transcodeFrom destination = .ok d → G.transcodeFrom source = .ok s →
    ∀ path ∈ segments mask, Clean path (segments mask) d s

/-! ## The run over the paths -/

section Run

variable {target patch result : R.Message} {paths todo : List (List String)}

theorem applyAll_cons {path : List String} :
    applyAll D .update (path :: todo) target patch = .ok result ↔
      ∃ next, applyPath D .update path target patch = .ok next ∧
        applyAll D .update todo next patch = .ok result := by
  rw [applyAll]
  cases applyPath D .update path target patch with
  | error error => simp
  | ok next => simp

/-- The condition is kept over a run. -/
theorem applyAll_clean (hR : R.Lawful) (hdesc : R.descriptor target = R.descriptor patch)
    (htodo : ∀ path ∈ todo, path ∈ paths) (hclean : ∀ path ∈ paths, Clean path paths target patch)
    (h : applyAll D .update todo target patch = .ok result) :
    R.descriptor result = R.descriptor target ∧ ∀ path ∈ paths, Clean path paths result patch := by
  induction todo generalizing target with
  | nil =>
    obtain rfl := Except.ok.inj h
    exact ⟨rfl, hclean⟩
  | cons path todo ih =>
    obtain ⟨next, hnext, hrest⟩ := applyAll_cons.1 h
    obtain ⟨hpath, htodo⟩ := List.forall_mem_cons.1 htodo
    have hdesc' := applyPath_descriptor hR hdesc hnext
    obtain ⟨hresult, hcleanR⟩ := ih (hdesc'.trans hdesc) htodo
      (fun path' hpath' => Clean.applyPath hR hdesc hclean hpath hpath' hnext) hrest
    exact ⟨hresult.trans hdesc', hcleanR⟩

/-- A path that changes nothing goes on to change nothing behind another. -/
theorem applyPath_fixed (hR : R.Lawful) {path path' : List String} {next : R.Message}
    (hdesc : R.descriptor target = R.descriptor patch)
    (hclean : ∀ path ∈ paths, Clean path paths target patch) (hpath : path ∈ paths)
    (hpath' : path' ∈ paths) (hfixed : applyPath D .update path target patch = .ok target)
    (h : applyPath D .update path' target patch = .ok next) :
    applyPath D .update path next patch = .ok next := by
  by_cases hnil : path = []
  · rw [hnil]
    rfl
  by_cases hnil' : path' = []
  · rw [hnil'] at h
    obtain rfl := Except.ok.inj h
    exact hfixed
  by_cases hbelow : path <+: path'
  · have hsame := applyPath_below hR hdesc hnil hbelow hpath (hclean path' hpath') hfixed hdesc h
    obtain rfl := Except.ok.inj (hsame.symm.trans h)
    exact hfixed
  by_cases habove : path' <+: path
  · exact applyPath_below hR ((applyPath_descriptor hR hdesc h).trans hdesc) hnil' habove hpath'
      (Clean.applyPath hR hdesc hclean hpath' hpath h) (applyPath_again hR hdesc h) hdesc hfixed
  · obtain ⟨other, hother, hnext⟩ :=
      applyPath_comm hR hdesc hclean hpath hpath' hbelow habove hfixed h
    obtain rfl := Except.ok.inj (h.symm.trans hother)
    exact hnext

/-- **No path of a run changes its result.** -/
theorem applyAll_fixed (hR : R.Lawful) {path : List String}
    (hdesc : R.descriptor target = R.descriptor patch) (htodo : ∀ path ∈ todo, path ∈ paths)
    (hclean : ∀ path ∈ paths, Clean path paths target patch) (hpath : path ∈ paths)
    (hdone : path ∈ todo ∨ applyPath D .update path target patch = .ok target)
    (h : applyAll D .update todo target patch = .ok result) :
    applyPath D .update path result patch = .ok result := by
  induction todo generalizing target with
  | nil =>
    obtain rfl := Except.ok.inj h
    exact hdone.resolve_left List.not_mem_nil
  | cons first todo ih =>
    obtain ⟨next, hnext, hrest⟩ := applyAll_cons.1 h
    obtain ⟨hfirst, htodo⟩ := List.forall_mem_cons.1 htodo
    refine ih ((applyPath_descriptor hR hdesc hnext).trans hdesc) htodo
      (fun path' hpath' => Clean.applyPath hR hdesc hclean hfirst hpath' hnext) ?_ hrest
    obtain hmem | hfixed := hdone
    · obtain rfl | hmem := List.mem_cons.1 hmem
      · exact .inr (applyPath_again hR hdesc hnext)
      · exact .inl hmem
    · exact .inr (applyPath_fixed hR hdesc hclean hpath hfirst hfixed hnext)

theorem applyAll_of_fixed (h : ∀ path ∈ todo, applyPath D .update path target patch = .ok target) :
    applyAll D .update todo target patch = .ok target := by
  induction todo with
  | nil => rfl
  | cons path todo ih =>
    obtain ⟨hpath, htodo⟩ := List.forall_mem_cons.1 h
    exact applyAll_cons.2 ⟨target, hpath, ih htodo⟩

/-- **A run keeps what no path names.** -/
theorem applyAll_kept (hR : R.Lawful) {kept : List String}
    (hdesc : R.descriptor target = R.descriptor patch) (htodo : ∀ path ∈ todo, path ∈ paths)
    (hclean : ∀ path ∈ paths, Clean path paths target patch)
    (hkept : ∀ named ∈ paths, Apart named kept)
    (h : applyAll D .update todo target patch = .ok result) : Kept kept paths result target patch := by
  induction todo generalizing target with
  | nil =>
    obtain rfl := Except.ok.inj h
    exact .refl _ _ _ _
  | cons path todo ih =>
    obtain ⟨next, hnext, hrest⟩ := applyAll_cons.1 h
    obtain ⟨hpath, htodo⟩ := List.forall_mem_cons.1 htodo
    have hdesc' := applyPath_descriptor hR hdesc hnext
    exact (ih (hdesc'.trans hdesc) htodo
      (fun path' hpath' => Clean.applyPath hR hdesc hclean hpath hpath' hnext) hrest).trans hR hdesc'
      (hdesc'.trans hdesc)
      (applyPath_kept hR hdesc hclean hpath (hkept path hpath).1 (hkept path hpath).2 hnext)

/-- **Paths that do not overlap are applied in any order.** -/
theorem applyAll_perm (hR : R.Lawful) {todo' : List (List String)} (hperm : todo.Perm todo')
    (hdesc : R.descriptor target = R.descriptor patch) (htodo : ∀ path ∈ todo, path ∈ paths)
    (hclean : ∀ path ∈ paths, Clean path paths target patch) (hapart : todo.Pairwise Apart)
    (h : applyAll D .update todo target patch = .ok result) :
    applyAll D .update todo' target patch = .ok result := by
  induction hperm generalizing target with
  | nil => exact h
  | cons path _ ih =>
    obtain ⟨next, hnext, hrest⟩ := applyAll_cons.1 h
    obtain ⟨hpath, htodo⟩ := List.forall_mem_cons.1 htodo
    exact applyAll_cons.2 ⟨next, hnext, ih ((applyPath_descriptor hR hdesc hnext).trans hdesc) htodo
      (fun path' hpath' => Clean.applyPath hR hdesc hclean hpath hpath' hnext) hapart.tail hrest⟩
  | swap path path' todo =>
    obtain ⟨next, hnext, hrest⟩ := applyAll_cons.1 h
    obtain ⟨second, hsecond, hrest⟩ := applyAll_cons.1 hrest
    obtain ⟨hpath', htodo⟩ := List.forall_mem_cons.1 htodo
    have hpath := (List.forall_mem_cons.1 htodo).1
    obtain ⟨hover, hover'⟩ := (List.pairwise_cons.1 hapart).1 path List.mem_cons_self
    obtain ⟨other, hother, hboth⟩ :=
      applyPath_comm hR hdesc hclean hpath' hpath hover hover' hnext hsecond
    exact applyAll_cons.2 ⟨other, hother, applyAll_cons.2 ⟨second, hboth, hrest⟩⟩
  | trans hperm _ ih ih' =>
    refine ih' hdesc (fun path hpath => htodo path (hperm.mem_iff.2 hpath)) hclean ?_
      (ih hdesc htodo hclean hapart h)
    exact hperm.pairwise hapart fun {p q} h => ⟨h.2, h.1⟩

theorem applyAll_concat {path : List String} :
    applyAll D .update (todo ++ [path]) target patch = .ok result ↔
      ∃ next, applyAll D .update todo target patch = .ok next ∧
        applyPath D .update path next patch = .ok result := by
  induction todo generalizing target with
  | nil =>
    rw [List.nil_append, applyAll_cons]
    constructor
    · rintro ⟨next, hnext, h⟩
      obtain rfl := Except.ok.inj h
      exact ⟨target, rfl, hnext⟩
    · rintro ⟨next, h, hnext⟩
      obtain rfl := Except.ok.inj h
      exact ⟨result, hnext, rfl⟩
  | cons first todo ih =>
    rw [List.cons_append, applyAll_cons]
    simp only [ih, applyAll_cons]
    constructor
    · rintro ⟨next, hfirst, last, hrest, hlast⟩
      exact ⟨last, ⟨next, hfirst, hrest⟩, hlast⟩
    · rintro ⟨last, ⟨next, hfirst, hrest⟩, hlast⟩
      exact ⟨next, hfirst, last, hrest, hlast⟩

theorem applyAll_descriptor (hR : R.Lawful) (hdesc : R.descriptor target = R.descriptor patch)
    (h : applyAll D .update todo target patch = .ok result) :
    R.descriptor result = R.descriptor target := by
  induction todo generalizing target with
  | nil =>
    obtain rfl := Except.ok.inj h
    rfl
  | cons path todo ih =>
    obtain ⟨next, hnext, hrest⟩ := applyAll_cons.1 h
    have hdesc' := applyPath_descriptor hR hdesc hnext
    exact (ih (hdesc'.trans hdesc) hrest).trans hdesc'

end Run

/-! ## The condition is needed -/

section Needed

variable {target patch result : R.Message} {paths : List (List String)}

/-- Each field along the path is present. -/
def Present : List String → R.Message → R.Message → Prop
  | [], _, _ => True
  | name :: rest, m, source => ∀ f, R.getFieldByName (R.descriptor m) name = some f →
    (R.supportsPresence f = true → R.hasField m f = true) ∧
      (rest ≠ [] → Zip (Present rest) (R.getField m f) (R.getField source f))

/-- A path makes each field along it present. -/
theorem applyPath_present (hR : R.Lawful) {path : List String}
    (hdesc : R.descriptor target = R.descriptor patch)
    (h : applyPath D .update path target patch = .ok result) : Present path result patch := by
  induction path generalizing target patch result with
  | nil => trivial
  | cons name rest ih =>
    intro f hname
    rw [applyPath_descriptor hR hdesc h] at hname
    obtain ⟨hnone, -⟩ | ⟨f', v, hname', hsets, rfl⟩ := (applyPath_cons hR hdesc).1 h
    · rw [hnone] at hname
      cases hname
    obtain rfl := Option.some.inj (hname'.symm.trans hname)
    have hf := hasDesc_of_name hname
    have hfp := (hasDesc_congr hdesc).1 hf
    have hv := hsets.valid hR hf hfp
    refine ⟨hR.hasField_set hf hv, fun hrest => ?_⟩
    cases hsets with
    | leaf hnil => exact absurd hnil hrest
    | nested _ hnested =>
      rw [hR.getField_set hf hv]
      obtain ⟨r, as, bs, cs, has, hbs, hcs, hsteps⟩ := hnested
      refine ⟨r, cs, bs, hcs, hbs, hsteps.patches_length.trans hsteps.results_length.symm, ?_⟩
      intro i c b hc hb
      obtain ⟨a, b', ha, hb', hstep⟩ := hsteps.exists_patch hc
      obtain rfl := Option.some.inj (hb'.symm.trans hb)
      exact ih (pair_type hR hf hfp has hbs ha hb) hstep

theorem Agree.refl (path : List String) (m : R.Message) : Agree path m m := by
  cases path with
  | nil => trivial
  | cons name rest =>
    intro f _
    split_ifs
    · rfl
    · exact .inl rfl

/-- Two members of a oneof are not both named. -/
theorem Present.not_siblings (hR : R.Lawful) (hpresent : ∀ path ∈ paths, Present path result patch)
    {f g : R.FieldDescriptor} (hf : Mentioned paths result f) (hg : R.HasDesc result g)
    (hset : Mentioned paths result g ∨ R.hasField result g = true) : ¬ R.Siblings f g := by
  intro hsib
  obtain ⟨name, rest, hmem, hname⟩ := hf
  have hpresence := hR.oneof_presence hsib.2.choose_spec.1
  have hpresence' := hR.oneof_presence hsib.2.choose_spec.2
  have hsetF := (hpresent _ hmem f hname).1 hpresence
  have hsetG : R.hasField result g = true := by
    obtain ⟨name', rest', hmem', hname'⟩ | hset := hset
    · exact (hpresent _ hmem' g hname').1 hpresence'
    · exact hset
  have hunset := hR.oneof_unique (hasDesc_of_name hname) hg hsib hsetF
  rw [hsetG] at hunset
  cases hunset

/-- **Paths that do not overlap copy only what is there, where their result is as it should be.** -/
theorem clean_of_touches (hR : R.Lawful) {path : List String}
    (hdesc : R.descriptor target = R.descriptor patch)
    (hdesc' : R.descriptor result = R.descriptor target)
    (hpresent : ∀ path ∈ paths, Present path result patch)
    (hagree : ∀ path ∈ paths, Agree path result patch)
    (hkept : ∀ path, (∀ named ∈ paths, Apart named path) → Kept path paths result target patch)
    (hapart : ∀ path ∈ paths, ∀ path' ∈ paths, path ≠ path' → Apart path path')
    (hpath : path ∈ paths) : Clean path paths target patch := by
  induction path generalizing target patch result paths with
  | nil => trivial
  | cons name rest ih =>
    intro f hname
    have hnameR := hname
    rw [← hdesc'] at hnameR
    obtain ⟨hset, hbelow⟩ := hpresent _ hpath f hnameR
    have hmentioned : Mentioned paths result f := ⟨name, rest, hpath, hnameR⟩
    have hnil : [] ∉ paths := fun hmem =>
      (hapart _ hmem _ hpath (List.cons_ne_nil name rest).symm).1 List.nil_prefix
    split_ifs with hrest
    · intro hp
      have hview := hagree _ hpath f hnameR
      rw [if_pos hrest] at hview
      exact (congrArg Prod.snd hview).symm.trans (hset hp)
    refine ⟨?_, fun hmem => ?_, ?_⟩
    · by_cases hsource : R.hasField patch f = true
      · exact .inl hsource
      refine .inr fun g hg hsib => ?_
      have hgR := (hasDesc_congr hdesc').2 hg
      have hnot : ¬ Mentioned paths target g := fun h => Present.not_siblings hR hpresent hmentioned
        hgR (.inl ((mentioned_congr hdesc').2 h)) hsib
      refine ⟨?_, hnot⟩
      by_contra htarget
      rw [Bool.not_eq_false] at htarget
      obtain ⟨gname, hgname⟩ := hg
      -- the other member is not named, so it should have been kept
      have happart : ∀ named ∈ paths, Apart named [gname] := by
        intro named hnamed
        cases named with
        | nil => exact absurd hnamed hnil
        | cons first tail =>
          have hne : first ≠ gname := fun heq => hnot ⟨first, tail, hnamed, heq ▸ hgname⟩
          exact ⟨fun h => hne (List.cons_prefix_cons.1 h).1,
            fun h => hne (List.cons_prefix_cons.1 h).1.symm⟩
      obtain ⟨k, hsibk, hmentionedk, hsetk⟩ | hview := hkept [gname] happart g hgname
      · have hfk : f ≠ k := by
          rintro rfl
          exact hsource hsetk
        obtain ⟨-, oneof, hfo, hgo⟩ := hsib
        obtain ⟨-, oneof', hgo', hko⟩ := hsibk
        obtain rfl := Option.some.inj (hgo.symm.trans hgo')
        have hmentionedk := (mentioned_congr hdesc').2 hmentionedk
        have hk := hasDesc_of_name hmentionedk.choose_spec.choose_spec.2
        exact Present.not_siblings hR hpresent hmentioned hk (.inl hmentionedk) ⟨hfk, _, hfo, hko⟩
      · rw [if_pos rfl] at hview
        exact Present.not_siblings hR hpresent hmentioned hgR
          (.inr ((congrArg Prod.snd hview).trans htarget)) hsib
    · have hne : [name] ≠ name :: rest := fun h => hrest (List.cons.inj h).2.symm
      exact absurd (List.prefix_append [name] rest) (hapart _ hmem _ hpath hne).1
    · intro r as bs has hbs hlen i a b ha hb
      obtain ⟨r', cs, bs', hcs, hbs', hlen', -⟩ := hbelow hrest
      obtain ⟨rfl, rfl⟩ := Prod.mk.inj (Option.some.inj (hbs'.symm.trans hbs))
      obtain ⟨c, hc⟩ : ∃ c, cs[i]? = some c := ⟨_, List.getElem?_eq_getElem
        (by rw [← hlen']; exact (List.getElem?_eq_some_iff.1 hb).1)⟩
      have hf := hasDesc_of_name hname
      have hfp := (hasDesc_congr hdesc).1 hf
      have hfr := hasDesc_of_name hnameR
      refine ih (pair_type hR hf hfp has hbs ha hb) (pair_type hR hfr hf hcs has hc ha) ?_ ?_ ?_ ?_
        (mem_tails.2 hpath)
      · intro rest' hrest'
        obtain rfl | hne := eq_or_ne rest' []
        · trivial
        · exact ((hpresent _ (mem_tails.1 hrest') f hnameR).2 hne).get hcs hbs hc hb
      · intro rest' hrest'
        obtain rfl | hne := eq_or_ne rest' []
        · trivial
        · have hagreeF := hagree _ (mem_tails.1 hrest') f hnameR
          rw [if_neg hne] at hagreeF
          obtain heq | hzip := hagreeF
          · rw [get_eq heq hcs hbs hc hb]
            exact .refl _ _
          · exact hzip.get hcs hbs hc hb
      · intro kept happart
        cases kept with
        | nil => trivial
        | cons first tail =>
          have happartCons : ∀ named ∈ paths, Apart named (name :: first :: tail) := by
            intro named hnamed
            cases named with
            | nil => exact absurd hnamed hnil
            | cons first' tail' =>
              constructor
              · intro h
                obtain ⟨rfl, hpre⟩ := List.cons_prefix_cons.1 h
                exact (happart _ (mem_tails.2 hnamed)).1 hpre
              · intro h
                obtain ⟨rfl, hpre⟩ := List.cons_prefix_cons.1 h
                exact (happart _ (mem_tails.2 hnamed)).2 hpre
          obtain ⟨g, hsib, hmentionedG, -⟩ | hkeptF := hkept _ happartCons f hname
          · have hmentionedG := (mentioned_congr hdesc').2 hmentionedG
            have hg := hasDesc_of_name hmentionedG.choose_spec.choose_spec.2
            exact absurd hsib (Present.not_siblings hR hpresent hmentioned hg (.inl hmentionedG))
          · rw [if_neg (List.cons_ne_nil first tail)] at hkeptF
            obtain heq | hzip := hkeptF
            · rw [get_eq heq hcs has hc ha]
              exact .refl _ _ _ _
            · exact hzip.get hcs has hbs hc ha hb
      · intro rest₁ hrest₁ rest₂ hrest₂ hne
        have h := hapart _ (mem_tails.1 hrest₁) _ (mem_tails.1 hrest₂)
          fun h => hne (List.cons.inj h).2
        exact ⟨fun hpre => h.1 (List.cons_prefix_cons.2 ⟨rfl, hpre⟩),
          fun hpre => h.2 (List.cons_prefix_cons.2 ⟨rfl, hpre⟩)⟩

end Needed

/-- An operation succeeds when its messages are read, its paths are applied and its result written. -/
theorem apply_ok_iff {G : Generated R} {operation : FieldMaskOperation G} {result : G.T} :
    operation.apply = .ok result ↔
      ∃ d s r, G.transcodeFrom operation.destination = .ok d ∧
        G.transcodeFrom operation.source = .ok s ∧
        applyAll G.DecodeError operation.op (segments operation.paths) d s = .ok r ∧
        G.transcodeTo r = .ok result := by
  constructor
  · intro h
    unfold FieldMaskOperation.apply at h
    cases hd : G.transcodeFrom operation.destination with
    | error error =>
      rw [hd] at h
      cases h
    | ok d =>
      cases hs : G.transcodeFrom operation.source with
      | error error =>
        rw [hd, hs] at h
        cases h
      | ok s =>
        cases hall : applyAll G.DecodeError operation.op (segments operation.paths) d s with
        | error error =>
          rw [hd, hs] at h
          dsimp only at h
          rw [hall] at h
          cases h
        | ok r =>
          rw [hd, hs] at h
          dsimp only at h
          rw [hall] at h
          dsimp only at h
          refine ⟨d, s, r, rfl, rfl, hall, ?_⟩
          cases hto : G.transcodeTo r with
          | error error =>
            rw [hto] at h
            cases h
          | ok message =>
            rw [hto] at h
            exact congrArg Except.ok (Except.ok.inj h)
  · rintro ⟨d, s, r, hd, hs, hall, hto⟩
    rw [FieldMaskOperation.apply, hd, hs]
    dsimp only
    rw [hall]
    dsimp only
    rw [hto]

/-! ## Messages of two types -/

/-- The oneof of a document: unset, a text, or a body with an optional note. -/
inductive Kind
  | unset
  | text (text : String)
  | body (note : Option String)

inductive DocMessage
  | body (note : Option String)
  | doc (title : String) (kind : Kind)

inductive DocDescriptor
  | body
  | doc

inductive DocField
  | note
  | title
  | text
  | body
deriving DecidableEq

namespace DocMessage

def descriptor : DocMessage → DocDescriptor
  | .body _ => .body
  | .doc _ _ => .doc

def fieldByName : DocDescriptor → String → Option DocField
  | .body, name => if name = "note" then some .note else none
  | .doc, name =>
    if name = "title" then some .title else if name = "text" then some .text
    else if name = "body" then some .body else none

def isValid : DocField → Value DocMessage Empty → Bool
  | .body, .message (.body _) => true
  | .body, _ => false
  | _, .string _ => true
  | _, _ => false

def get : DocMessage → DocField → Value DocMessage Empty
  | .body note, .note => .string (note.getD "")
  | .doc title _, .title => .string title
  | .doc _ (.text text), .text => .string text
  | .doc _ (.body note), .body => .message (.body note)
  | _, .body => .message (.body none)
  | _, _ => .string ""

def has : DocMessage → DocField → Bool
  | .body note, .note => note.isSome
  | .doc title _, .title => title ≠ ""
  | .doc _ (.text _), .text => true
  | .doc _ (.body _), .body => true
  | _, _ => false

def set : DocMessage → DocField → Value DocMessage Empty → DocMessage
  | .body _, .note, .string note => .body (some note)
  | .doc _ kind, .title, .string title => .doc title kind
  | .doc title _, .text, .string text => .doc title (.text text)
  | .doc title _, .body, .message (.body note) => .doc title (.body note)
  | m, _, _ => m

end DocMessage

/-- Documents, with a title without presence, a text and a body that exclude each other. -/
def docReflect : Reflect where
  Message := DocMessage
  MessageDescriptor := DocDescriptor
  FieldDescriptor := DocField
  OneofDescriptor := Unit
  Scalar := Empty
  SetFieldError := Unit
  descriptor := DocMessage.descriptor
  getFieldByName := DocMessage.fieldByName
  fullName
    | .note => "Body.note"
    | .title => "Doc.title"
    | .text => "Doc.text"
    | .body => "Doc.body"
  supportsPresence f := f ≠ .title
  containingOneof
    | .text => some ()
    | .body => some ()
    | _ => none
  defaultValue
    | .body => .message (.body none)
    | _ => .string ""
  isDefaultForField
    | .body, .message (.body none) => true
    | .body, _ => false
    | _, .string text => text = ""
    | _, _ => false
  isValidForField := DocMessage.isValid
  getField := DocMessage.get
  hasField := DocMessage.has
  trySetField m f v := if DocMessage.isValid f v then .ok (m.set f v) else .error ()
  setField := DocMessage.set

/-- The fields of a document and of a body. -/
theorem doc_hasDesc {m : DocMessage} {f : DocField} (h : docReflect.HasDesc m f) :
    (∃ note, m = .body note ∧ f = .note) ∨
      ∃ title kind, m = .doc title kind ∧ (f = .title ∨ f = .text ∨ f = .body) := by
  obtain ⟨name, hname⟩ := h
  cases m with
  | body note =>
    left
    change (if name = "note" then some DocField.note else none) = some f at hname
    split_ifs at hname
    exact ⟨note, rfl, (Option.some.inj hname).symm⟩
  | doc title kind =>
    right
    change (if name = "title" then some DocField.title else if name = "text" then some .text
      else if name = "body" then some .body else none) = some f at hname
    refine ⟨title, kind, rfl, ?_⟩
    split_ifs at hname
    · exact .inl (Option.some.inj hname).symm
    · exact .inr (.inl (Option.some.inj hname).symm)
    · exact .inr (.inr (Option.some.inj hname).symm)

/-- A value of a field is a text, or a body. -/
theorem doc_isValid {f : DocField} {v : Value DocMessage Empty} (h : DocMessage.isValid f v = true) :
    (f ≠ .body ∧ ∃ text, v = .string text) ∨ (f = .body ∧ ∃ note, v = .message (.body note)) := by
  cases f <;> cases v <;> simp_all [DocMessage.isValid]
  rename_i m
  cases m <;> simp_all

def DocField.name : DocField → String
  | .note => "note"
  | .title => "title"
  | .text => "text"
  | .body => "body"

theorem doc_name {desc : DocDescriptor} {name : String} {f : DocField}
    (h : DocMessage.fieldByName desc name = some f) : name = f.name := by
  cases desc <;> simp only [DocMessage.fieldByName] at h <;> split_ifs at h with h₁ <;> cases h <;>
    assumption

theorem doc_siblings {f g : DocField} (h : docReflect.Siblings f g) :
    (f = .text ∧ g = .body) ∨ (f = .body ∧ g = .text) := by
  obtain ⟨hne, oneof, hf, hg⟩ := h
  cases f <;> cases g <;> simp_all [docReflect]

theorem doc_lawful : docReflect.Lawful where
  name_unique h h' := (doc_name h).trans (doc_name h').symm
  oneof_presence {f oneof} h := by
    cases f <;> first | rfl | cases h
  getField_unset {m f} hf hunset := by
    obtain ⟨note, rfl, rfl⟩ | ⟨title, kind, rfl, rfl | rfl | rfl⟩ := doc_hasDesc hf
    · cases note <;> simp_all [docReflect, DocMessage.get, DocMessage.has]
    · simp_all [docReflect, DocMessage.get, DocMessage.has]
    · cases kind <;> simp_all [docReflect, DocMessage.get, DocMessage.has]
    · cases kind <;> simp_all [docReflect, DocMessage.get, DocMessage.has]
  hasField_implicit {m f} hf himplicit := by
    obtain ⟨note, rfl, rfl⟩ | ⟨title, kind, rfl, rfl | rfl | rfl⟩ := doc_hasDesc hf
    · cases himplicit
    · simp [docReflect, DocMessage.get, DocMessage.has]
    · cases himplicit
    · cases himplicit
  oneof_unique {m f g} hf hg hsib hset := by
    obtain ⟨rfl, rfl⟩ | ⟨rfl, rfl⟩ := doc_siblings hsib <;>
      obtain ⟨note, rfl, ⟨⟩⟩ | ⟨title, kind, rfl, -⟩ := doc_hasDesc hf <;>
      cases kind <;> simp_all [docReflect, DocMessage.has]
  valid_getField {m f} hf := by
    obtain ⟨note, rfl, rfl⟩ | ⟨title, kind, rfl, rfl | rfl | rfl⟩ := doc_hasDesc hf
    · rfl
    · rfl
    · cases kind <;> rfl
    · cases kind <;> rfl
  valid_type {f v w r r' ms ms'} hv hw hms hms' a ha b hb := by
    obtain ⟨-, text, rfl⟩ | ⟨-, note, rfl⟩ := doc_isValid hv
    · cases hms
    · obtain ⟨-, text, rfl⟩ | ⟨-, note', rfl⟩ := doc_isValid hw
      · cases hms'
      · cases hms
        cases hms'
        rw [List.mem_singleton.1 ha, List.mem_singleton.1 hb]
        rfl
  valid_replace {f v w r ms ms'} hv hms hms' htype := by
    obtain ⟨-, text, rfl⟩ | ⟨rfl, note, rfl⟩ := doc_isValid hv
    · cases hms
    · cases hms
      obtain ⟨-, m, rfl, rfl⟩ | ⟨⟨⟩, -⟩ := Value.messages_eq_some.1 hms'
      cases m with
      | body note => rfl
      | doc title kind => cases htype
  trySetField_valid {m f v} _ hv := if_pos hv
  descriptor_setField {m f v} hf hv := by
    cases m <;> cases f <;> cases v <;> first | rfl | (rename_i m; cases m <;> rfl)
  view_set_self {m f v} hf hv := by
    obtain ⟨note, rfl, rfl⟩ | ⟨title, kind, rfl, rfl | rfl | rfl⟩ := doc_hasDesc hf <;>
      obtain ⟨hne, text, rfl⟩ | ⟨hbody, note', rfl⟩ := doc_isValid hv <;>
      first
        | exact absurd rfl hne
        | cases hbody; done
        | simp [docReflect, Reflect.view, DocMessage.set, DocMessage.get, DocMessage.has]
  hasField_sibling {m f g v} hf hg hv hsib := by
    obtain ⟨rfl, rfl⟩ | ⟨rfl, rfl⟩ := doc_siblings hsib <;>
      obtain ⟨hne, text, rfl⟩ | ⟨hbody, note, rfl⟩ := doc_isValid hv <;>
      obtain ⟨note, rfl, ⟨⟩⟩ | ⟨title, kind, rfl, -⟩ := doc_hasDesc hf <;>
      first
        | rfl
        | exact absurd rfl hne
        | cases hbody
  view_set_other {m f g v} hf hg hv hne hsib := by
    obtain ⟨note, rfl, rfl⟩ | ⟨title, kind, rfl, rfl | rfl | rfl⟩ := doc_hasDesc hf <;>
      obtain ⟨_, hm, rfl⟩ | ⟨_, _, hm, rfl | rfl | rfl⟩ := doc_hasDesc hg <;>
      obtain ⟨hfield, text, rfl⟩ | ⟨hfield, note', rfl⟩ := doc_isValid hv <;>
      first
        | rfl
        | cases hm; done
        | exact absurd rfl hne
        | exact absurd rfl hfield
        | cases hfield; done
        | exact absurd ⟨hne, (), rfl, rfl⟩ hsib
        | cases kind <;> rfl
  ext {m m'} hdesc hview := by
    cases m with
    | body note =>
      cases m' with
      | body note' =>
        have hnote := hview .note ⟨"note", rfl⟩
        cases note <;> cases note' <;>
          simp_all [docReflect, Reflect.view, DocMessage.get, DocMessage.has]
      | doc title kind => cases hdesc
    | doc title kind =>
      cases m' with
      | body note => cases hdesc
      | doc title' kind' =>
        have htitle := hview .title ⟨"title", rfl⟩
        have htext := hview .text ⟨"text", rfl⟩
        have hbody := hview .body ⟨"body", rfl⟩
        cases kind <;> cases kind' <;>
          simp_all [docReflect, Reflect.view, DocMessage.get, DocMessage.has]

/-- Documents as generated messages. -/
def docGenerated : Generated docReflect where
  T := String × Kind
  DecodeError := Unit
  messageDescriptor := .doc
  transcodeFrom x := .ok (.doc x.1 x.2)
  transcodeTo
    | .doc title kind => .ok (title, kind)
    | .body _ => .error ()

theorem docGenerated_lawful : docGenerated.Lawful where
  descriptor h := by
    obtain rfl := Except.ok.inj h
    rfl
  roundTrip {x m} h := by
    cases m with
    | body note => cases h
    | doc title kind =>
      obtain rfl := Except.ok.inj h
      rfl

/-! ## Updates -/

/-- Where the paths copy only what is there, an update touches only what its mask names. -/
theorem touches_of_clean (hR : R.Lawful) {G : Generated R} (hG : G.Lawful) {destination source : G.T}
    {mask : List String} (hclean : CleanMask G destination source mask) :
    Touches G destination source mask := by
  intro result hresult
  obtain ⟨d, s, r, hd, hs, hall, hto⟩ := apply_ok_iff.1 hresult
  have hclean := hclean d s hd hs
  have hdesc : R.descriptor d = R.descriptor s := (hG.descriptor hd).trans (hG.descriptor hs).symm
  obtain ⟨hrdesc, hrclean⟩ := applyAll_clean hR hdesc (fun _ => id) hclean hall
  have hfixed : ∀ path ∈ segments mask, applyPath G.DecodeError .update path r s = .ok r :=
    fun path hpath => applyAll_fixed hR hdesc (fun _ => id) hclean hpath (.inl hpath) hall
  have hfrom := hG.roundTrip hto
  refine ⟨d, s, r, hd, hs, hfrom, fun path hpath => ?_, fun path hpath => ?_, ?_,
    fun hapart mask' hperm => ?_⟩
  · exact applyPath_agree hR (hrdesc.trans hdesc) (hrclean path hpath) (hfixed path hpath)
  · exact applyAll_kept hR hdesc (fun _ => id) hclean hpath hall
  · exact apply_ok_iff.2 ⟨r, s, r, hfrom, hs, applyAll_of_fixed hfixed, hto⟩
  · exact apply_ok_iff.2 ⟨d, s, r, hd, hs,
      applyAll_perm hR (hperm.map splitPath) hdesc (fun _ => id) hclean hapart hall, hto⟩

/-- In an order with the path at the end, the result is that of the path. -/
theorem exists_last {G : Generated R} (hG : G.Lawful) (hR : R.Lawful) {destination source result : G.T}
    {mask : List String} {d s r : R.Message} (hd : G.transcodeFrom destination = .ok d)
    (hs : G.transcodeFrom source = .ok s) (hr : G.transcodeFrom result = .ok r)
    (horder : ∀ mask', mask.Perm mask' →
      (FieldMaskOperation.update G destination source mask').apply = .ok result)
    {path : List String} (hpath : path ∈ segments mask) :
    ∃ target, R.descriptor target = R.descriptor s ∧
      applyPath G.DecodeError .update path target s = .ok r := by
  obtain ⟨text, htext, rfl⟩ := List.mem_map.1 hpath
  have hperm : mask.Perm (mask.erase text ++ [text]) :=
    (List.perm_cons_erase htext).trans (List.perm_append_singleton text _).symm
  obtain ⟨d', s', r', hd', hs', hall, hto⟩ := apply_ok_iff.1 (horder _ hperm)
  obtain rfl := Except.ok.inj (hd'.symm.trans hd)
  obtain rfl := Except.ok.inj (hs'.symm.trans hs)
  obtain rfl := Except.ok.inj ((hG.roundTrip hto).symm.trans hr)
  have hdesc : R.descriptor d' = R.descriptor s' :=
    (hG.descriptor hd').trans (hG.descriptor hs').symm
  change applyAll _ .update ((mask.erase text ++ [text]).map splitPath) d' s' = .ok r' at hall
  rw [List.map_append, List.map_singleton] at hall
  obtain ⟨target, htarget, hlast⟩ := applyAll_concat.1 hall
  exact ⟨target, (applyAll_descriptor hR hdesc htarget).trans hdesc, hlast⟩

/-- **An update touches only what its mask names where its paths copy only what is there**; paths that
do not overlap and that are applied do so only then. -/
theorem update_touches (hR : R.Lawful) {G : Generated R} (hG : G.Lawful) (destination source : G.T)
    (mask : List String) :
    (CleanMask G destination source mask → Touches G destination source mask) ∧
      ((segments mask).Pairwise Apart →
        (∃ result, (FieldMaskOperation.update G destination source mask).apply = .ok result) →
        Touches G destination source mask → CleanMask G destination source mask) := by
  refine ⟨touches_of_clean hR hG, fun hapart ⟨result, hresult⟩ htouches d₀ s₀ hd₀ hs₀ => ?_⟩
  obtain ⟨d, s, r, hd, hs, hr, hagree, hkept, -, horder⟩ := htouches result hresult
  obtain rfl := Except.ok.inj (hd.symm.trans hd₀)
  obtain rfl := Except.ok.inj (hs.symm.trans hs₀)
  have hdesc : R.descriptor d = R.descriptor s := (hG.descriptor hd).trans (hG.descriptor hs).symm
  have hdesc' : R.descriptor r = R.descriptor d := (hG.descriptor hr).trans (hG.descriptor hd).symm
  intro path hpath
  refine clean_of_touches hR hdesc hdesc' (fun path hpath => ?_) hagree hkept ?_ hpath
  · obtain ⟨target, htarget, hlast⟩ := exists_last hG hR hd hs hr (horder hapart) hpath
    exact applyPath_present hR htarget hlast
  · exact fun path hpath path' hpath' hne => hapart.forall hpath hpath' hne

/-- A title and the note of a body are taken over, and the body is set on the way. -/
theorem update_touches_note :
    Touches docGenerated ("a", .unset) ("b", .body (some "y")) ["title", "body.note"] := by
  refine (update_touches doc_lawful docGenerated_lawful _ _ _).1 fun d s hd hs path hpath => ?_
  obtain rfl := Except.ok.inj hd
  obtain rfl := Except.ok.inj hs
  have hsegments : segments ["title", "body.note"] = [["title"], ["body", "note"]] := rfl
  rw [hsegments] at hpath ⊢
  obtain rfl | hpath := List.mem_cons.1 hpath
  · intro f hname
    obtain rfl := Option.some.inj hname
    exact fun hpresence => nomatch hpresence
  · obtain rfl := List.mem_singleton.1 hpath
    intro f hname
    obtain rfl := Option.some.inj hname
    refine ⟨.inl rfl, fun h => by simp at h, ?_⟩
    intro r as bs has hbs _ i a b ha hb f hname
    cases hbs
    cases i with
    | succ i => cases hb
    | zero =>
      obtain rfl := Option.some.inj hb
      cases has
      obtain rfl := Option.some.inj ha
      obtain rfl := Option.some.inj hname
      exact fun _ => rfl

/-- An unset oneof member is set to its default, and the member that was set is lost. -/
theorem text_unset :
    docReflect.Lawful ∧ docGenerated.Lawful ∧
      ¬ Touches docGenerated ("a", .body (some "x")) ("a", .unset) ["text"] := by
  refine ⟨doc_lawful, docGenerated_lawful, fun h => ?_⟩
  obtain ⟨d, s, r, -, hs, hr, hagree, -⟩ := h ("a", .text "") rfl
  obtain rfl := Except.ok.inj hs
  obtain rfl := Except.ok.inj hr
  have hview := hagree ["text"] List.mem_cons_self .text rfl
  exact absurd (congrArg Prod.snd hview) (by decide)

end Clinch.FieldMask
