import Mathlib

/-!
# Runs of a labelled machine

A machine is a total step function on states and labels. A run executes a list of
labels, each of them admitted in the state where it is taken. Every safety result
about runs is an instance of the two induction rules below.
-/

namespace Bridget.Foundation

variable {State Label : Type}

/-- `Run step admits s labels s'`: the labels lead from `s` to `s'`, each admitted in
the state in which it is taken. -/
inductive Run (step : State → Label → State) (admits : State → Label → Prop) :
    State → List Label → State → Prop
  | nil (s : State) : Run step admits s [] s
  | cons {s s' : State} {label : Label} {labels : List Label} (hadmits : admits s label)
      (hrest : Run step admits (step s label) labels s') : Run step admits s (label :: labels) s'

/-- A run in which every label is admitted. -/
abbrev Runs (step : State → Label → State) := Run step fun _ _ => True

namespace Run

variable {step : State → Label → State} {admits admits' : State → Label → Prop}
  {s s' s'' : State} {labels labels' : List Label}

theorem single {label : Label} (hadmits : admits s label) :
    Run step admits s [label] (step s label) :=
  .cons hadmits (.nil _)

theorem append (hfirst : Run step admits s labels s') (hsecond : Run step admits s' labels' s'') :
    Run step admits s (labels ++ labels') s'' := by
  induction hfirst with
  | nil => exact hsecond
  | cons hadmits _ ih => exact .cons hadmits (ih hsecond)

/-- The states that a list of labels visits are linked head first. -/
theorem isChain_scanl_cons {rel : State → State → Prop} {label : Label} :
    ((label :: labels).scanl step s).IsChain rel ↔
      rel s (step s label) ∧ (labels.scanl step (step s label)).IsChain rel := by
  cases labels <;> simp

section

variable (inv : State → Prop) (hrun : Run step admits s labels s')

include hrun

theorem eq_foldl : s' = labels.foldl step s := by
  induction hrun with
  | nil => rfl
  | cons _ _ ih => exact ih

/-- A condition that holds initially and is kept by every admitted step holds at the end. -/
theorem invariant
    (hstep : ∀ s label, inv s → admits s label → inv (step s label)) (hinit : inv s) : inv s' := by
  induction hrun with
  | nil => exact hinit
  | cons hadmits _ ih => exact ih (hstep _ _ hinit hadmits)

/-- Under an invariant, a reflexive and transitive relation that every admitted step
respects relates the two ends of a run. -/
theorem relates (rel : State → State → Prop)
    (hrefl : ∀ s, rel s s) (htrans : ∀ a b c, rel a b → rel b c → rel a c)
    (hinv : ∀ s label, inv s → admits s label → inv (step s label))
    (hstep : ∀ s label, inv s → admits s label → rel s (step s label)) (hinit : inv s) :
    rel s s' := by
  induction hrun with
  | nil => exact hrefl _
  | cons hadmits _ ih => exact htrans _ _ _ (hstep _ _ hinit hadmits) (ih (hinv _ _ hinit hadmits))

/-- A condition that a run brings about is brought about by one of its steps. -/
theorem exists_step (P : State → Prop) (hs : ¬ P s)
    (hs' : P s') : ∃ before label after middle, labels = before ++ label :: after ∧
      Run step admits s before middle ∧ admits middle label ∧ ¬ P middle ∧
      P (step middle label) := by
  induction hrun with
  | nil => exact absurd hs' hs
  | @cons s _ label labels hadmits hrest ih =>
    by_cases hnext : P (step s label)
    · exact ⟨[], label, labels, s, rfl, .nil s, hadmits, hs, hnext⟩
    · obtain ⟨before, other, after, middle, rfl, hbefore, hrest⟩ := ih hnext hs'
      exact ⟨label :: before, other, after, middle, rfl, .cons hadmits hbefore, hrest⟩

theorem and (hrun' : Run step admits' s labels s'') :
    Run step (fun s label => admits s label ∧ admits' s label) s labels s' := by
  induction hrun with
  | nil => exact .nil _
  | cons hadmits _ ih =>
    cases hrun' with
    | cons hadmits' hrest' => exact .cons ⟨hadmits, hadmits'⟩ (ih hrest')

/-- Under an invariant, a relation that every admitted step respects links each state that
the run visits to the next one. -/
theorem chain (rel : State → State → Prop)
    (hinv : ∀ s label, inv s → admits s label → inv (step s label))
    (hstep : ∀ s label, inv s → admits s label → rel s (step s label)) (hinit : inv s) :
    (labels.scanl step s).IsChain rel := by
  induction hrun with
  | nil => simp
  | cons hadmits _ ih =>
    exact isChain_scanl_cons.mpr ⟨hstep _ _ hinit hadmits, ih (hinv _ _ hinit hadmits)⟩

/-- A run whose visited states are linked is admitted as the links allow. -/
theorem of_chain (rel : State → State → Prop) (hchain : (labels.scanl step s).IsChain rel)
    (hinv : ∀ s label, inv s → admits s label → inv (step s label))
    (hstep : ∀ s label, inv s → admits s label → rel s (step s label) → admits' s label)
    (hinit : inv s) : Run step admits' s labels s' := by
  induction hrun with
  | nil => exact .nil _
  | cons hadmits _ ih =>
    obtain ⟨hhead, htail⟩ := isChain_scanl_cons.mp hchain
    exact .cons (hstep _ _ hinit hadmits hhead) (ih htail (hinv _ _ hinit hadmits))

theorem mono (hweaker : ∀ s label, admits s label → admits' s label) :
    Run step admits' s labels s' := by
  induction hrun with
  | nil => exact .nil _
  | cons hadmits _ ih => exact .cons (hweaker _ _ hadmits) ih

end

def allows (step : State → Label → State) (admits : State → Label → Prop)
    [∀ s label, Decidable (admits s label)] : State → List Label → Bool
  | _, [] => true
  | s, label :: labels => decide (admits s label) && allows step admits (step s label) labels

theorem of_allows [∀ s label, Decidable (admits s label)]
    (h : allows step admits s labels = true) : Run step admits s labels (labels.foldl step s) := by
  induction labels generalizing s with
  | nil => exact .nil s
  | cons _ _ ih =>
    obtain ⟨hadmits, hrest⟩ := Bool.and_eq_true_iff.mp h
    exact .cons (of_decide_eq_true hadmits) (ih hrest)

end Run

/-- What comes out of a pass over a list went into it. -/
theorem exists_of_forall₂ {α β : Type} {r : α → β → Prop} {before : List α} {after : List β} {b : β}
    (h : List.Forall₂ r before after) (hb : b ∈ after) : ∃ a ∈ before, r a b := by
  induction h with
  | nil => cases hb
  | cons hhead _ ih =>
    rcases List.mem_cons.mp hb with rfl | hb
    · exact ⟨_, List.mem_cons_self, hhead⟩
    · obtain ⟨a, ha, hrel⟩ := ih hb
      exact ⟨a, List.mem_cons_of_mem _ ha, hrel⟩

end Bridget.Foundation
