import Mathlib

/-!
# Runs by their steps

A run is the list of what was done, and a state is what the list done so far leads to.

* `Along`: a property of every step of a run, that is of the state before it and of what is done;
* `along_nil`, `Along.concat`, `along_cons`: the runs that are empty or have one more step;
* `prefix_induction`: what holds at the start and after every step holds all along a run.
-/

set_option autoImplicit false

namespace Clinch

variable {σ ε : Type} {run : List ε → σ} {P : σ → ε → Prop} {ops : List ε}

/-- What every step of a run satisfies. -/
def Along (run : List ε → σ) (P : σ → ε → Prop) (ops : List ε) : Prop :=
  ∀ done op, done ++ [op] <+: ops → P (run done) op

theorem along_nil : Along run P [] := by
  intro done op h
  simp at h

theorem Along.concat (h : Along run P ops) {op : ε} (hop : P (run ops) op) :
    Along run P (ops ++ [op]) := by
  intro done op' hdone
  rcases List.prefix_concat_iff.mp hdone with heq | hdone
  · obtain ⟨hdone, hlast⟩ := List.append_inj' heq rfl
    rw [hdone, List.singleton_inj.mp hlast]
    exact hop
  · exact h done op' hdone

theorem along_cons {op : ε} :
    Along run P (op :: ops) ↔ P (run []) op ∧ Along (fun done => run (op :: done)) P ops := by
  constructor
  · intro h
    refine ⟨h [] op (List.prefix_append [op] ops), fun done op' hdone => ?_⟩
    exact h (op :: done) op' (List.cons_prefix_cons.mpr ⟨rfl, hdone⟩)
  · rintro ⟨hop, h⟩ done op' hdone
    cases done with
    | nil =>
      obtain ⟨rfl, -⟩ := List.cons_prefix_cons.mp hdone
      exact hop
    | cons op'' done =>
      obtain ⟨hfirst, hrest⟩ := List.cons_prefix_cons.mp hdone
      rw [hfirst]
      exact h done op' hrest

/-- The induction along a run. -/
theorem prefix_induction {Q : List ε → Prop} (hnil : Q [])
    (hstep : ∀ done op, done ++ [op] <+: ops → Q done → Q (done ++ [op])) {done : List ε}
    (hdone : done <+: ops) : Q done := by
  induction done using List.reverseRecOn with
  | nil => exact hnil
  | append_singleton done op ih =>
    exact hstep done op hdone (ih ((List.prefix_append _ _).trans hdone))

end Clinch
