import Mathlib

/-!
# Forests given by parents

A partial function sends each node to its parent. Nodes can be cut off or hung under
another node; hanging a node elsewhere keeps the forest free of cycles exactly when the new
parent does not lie below it. The lineage of a node lists its ancestors from the root down;
its length tells how far each ancestor is.
-/

namespace Bridget.Foundation

open Relation Function List Option

variable {α : Type} {parent parent' : α → Option α} {x y z : α}

def Up (parent : α → Option α) (x y : α) : Prop := parent x = some y

/-- No node lies above itself. -/
def Acyclic (parent : α → Option α) : Prop := ∀ x, ¬ TransGen (Up parent) x x

theorem acyclic_none : Acyclic fun _ : α => none := by
  intro _ hcycle
  obtain ⟨_, hup, -⟩ := TransGen.head'_iff.mp hcycle
  cases hup

theorem Acyclic.cut (h : Acyclic parent) (hcut : ∀ x, parent' x = parent x ∨ parent' x = none) :
    Acyclic parent' := by
  intro x hcycle
  refine h x (TransGen.mono ?_ _ _ hcycle)
  intro a _ hup
  rcases hcut a with heq | hnone
  · exact heq.symm.trans hup
  · rw [Up, hnone] at hup
    cases hup

/-- The way up to a node does not depend on what lies above it. -/
theorem reflTransGen_of_agree (hagree : ∀ z, z ≠ x → parent' z = parent z)
    (h : ReflTransGen (Up parent) y x) : ReflTransGen (Up parent') y x := by
  induction h using ReflTransGen.head_induction_on with
  | refl => exact .refl
  | @head a _ hup _ ih =>
    by_cases ha : a = x
    · rw [ha]
    · exact .head ((hagree a ha).trans hup) ih

/-- The way up ends in one root only. -/
theorem root_unique {r r' : α} (h : ReflTransGen (Up parent) x r)
    (h' : ReflTransGen (Up parent) x r') (hr : parent r = none) (hr' : parent r' = none) :
    r = r' := by
  induction h using ReflTransGen.head_induction_on with
  | refl =>
    rcases h'.cases_head with rfl | ⟨_, hup, -⟩
    · rfl
    · simp [Up, hr] at hup
  | head hup _ ih =>
    rcases h'.cases_head with rfl | ⟨_, hup', hrest⟩
    · simp [Up, hr'] at hup
    · cases hup.symm.trans hup'
      exact ih hrest

section Hang

variable [DecidableEq α]

/-- A way up after a node has been hung elsewhere was there before, or it passes that node. -/
theorem transGen_hang {a b : α} (h : TransGen (Up (update parent x (some y))) a b) :
    TransGen (Up parent) a b ∨
      ReflTransGen (Up parent) a x ∧ ReflTransGen (Up (update parent x (some y))) y b := by
  induction h using TransGen.head_induction_on with
  | @single a hup =>
    by_cases ha : a = x
    · subst ha
      rw [Up, update_self, some.injEq] at hup
      exact .inr ⟨.refl, hup ▸ .refl⟩
    · rw [Up, update_of_ne ha] at hup
      exact .inl (.single hup)
  | @head a _ hup hrest ih =>
    by_cases ha : a = x
    · subst ha
      rw [Up, update_self, some.injEq] at hup
      exact .inr ⟨.refl, hup ▸ hrest.to_reflTransGen⟩
    · rw [Up, update_of_ne ha] at hup
      exact ih.imp (.head hup) fun hpass => ⟨.head hup hpass.1, hpass.2⟩

/-- Hanging a node under another one is safe exactly when the other does not lie below it. -/
theorem Acyclic.hang_iff (h : Acyclic parent) :
    Acyclic (update parent x (some y)) ↔ ¬ ReflTransGen (Up parent) y x := by
  have hagree : ∀ z, z ≠ x → update parent x (some y) z = parent z := fun z hz => update_of_ne hz ..
  constructor
  · intro hacyclic hbelow
    refine hacyclic x (TransGen.head'_iff.mpr ⟨y, update_self .., ?_⟩)
    exact reflTransGen_of_agree hagree hbelow
  intro hfree z hcycle
  rcases transGen_hang hcycle with hold | ⟨hup, hround⟩
  · exact h z hold
  · -- the cycle passes the moved node, so the new parent lies below it
    have hclosed := hround.trans (reflTransGen_of_agree hagree hup)
    exact hfree (reflTransGen_of_agree (fun w hw => (hagree w hw).symm) hclosed)

end Hang

/-- The ancestors of a node from its root down to the node itself. -/
inductive Lineage (parent : α → Option α) : α → List α → Prop
  | root {x : α} (hroot : parent x = none) : Lineage parent x [x]
  | child {x y : α} {ids : List α} (hup : parent x = some y) (hids : Lineage parent y ids) :
      Lineage parent x (ids ++ [x])

namespace Lineage

variable {ids ids' : List α}

section

variable (h : Lineage parent x ids)

include h

theorem unique (h' : Lineage parent x ids') : ids = ids' := by
  induction h generalizing ids' with
  | root hroot =>
    cases h' with
    | root => rfl
    | child hup => simp [hroot] at hup
  | child hup _ ih =>
    cases h' with
    | root hroot => simp [hroot] at hup
    | child hup' hids' =>
      cases hup.symm.trans hup'
      rw [ih hids']

theorem ne_nil : ids ≠ [] := by
  cases h <;> simp

theorem congr (hagree : ∀ z ∈ ids, parent' z = parent z) : Lineage parent' x ids := by
  induction h with
  | root hroot => exact .root ((hagree _ (by simp)).trans hroot)
  | child hup _ ih =>
    refine .child ((hagree _ (by simp)).trans hup) (ih ?_)
    intro z hz
    exact hagree z (by simp [hz])

/-- The members of a lineage are the nodes above, and their lineages are its beginnings. -/
theorem above (hy : y ∈ ids) :
    ReflTransGen (Up parent) x y ∧ ∃ start rest, Lineage parent y start ∧ ids = start ++ rest := by
  induction h with
  | root hroot =>
    obtain rfl := mem_singleton.mp hy
    exact ⟨.refl, _, [], .root hroot, by simp⟩
  | @child x _ _ hup hids ih =>
    rcases mem_append.mp hy with hy | hy
    · obtain ⟨habove, start, rest, hstart, rfl⟩ := ih hy
      exact ⟨.head hup habove, start, rest ++ [x], hstart, by simp⟩
    · obtain rfl := mem_singleton.mp hy
      exact ⟨.refl, _, [], .child hup hids, by simp⟩

theorem mem_of_above (habove : ReflTransGen (Up parent) x y) : y ∈ ids := by
  induction h with
  | root hroot =>
    rcases habove.cases_head with rfl | ⟨_, hup, -⟩
    · simp
    · simp [Up, hroot] at hup
  | child hup _ ih =>
    rcases habove.cases_head with rfl | ⟨_, hup', hrest⟩
    · simp
    · cases hup.symm.trans hup'
      simp [ih hrest]

end

end Lineage

inductive Climbs (parent : α → Option α) : Nat → α → α → Prop
  | refl (x : α) : Climbs parent 0 x x
  | up {n : Nat} {x y z : α} (hup : parent x = some y) (hrest : Climbs parent n y z) :
      Climbs parent (n + 1) x z

namespace Climbs

variable {n : Nat}

theorem reflTransGen (h : Climbs parent n x y) : ReflTransGen (Up parent) x y := by
  induction h with
  | refl => exact .refl
  | up hup _ ih => exact .head hup ih

theorem exists_of_reflTransGen (h : ReflTransGen (Up parent) x y) : ∃ n, Climbs parent n x y := by
  induction h using ReflTransGen.head_induction_on with
  | refl => exact ⟨0, .refl y⟩
  | head hup _ ih =>
    obtain ⟨n, hclimbs⟩ := ih
    exact ⟨n + 1, .up hup hclimbs⟩

/-- To lie properly below a node is to climb to it in at least one step. -/
theorem transGen_iff : TransGen (Up parent) x y ↔ ∃ n, Climbs parent (n + 1) x y := by
  constructor
  · intro h
    obtain ⟨_, hup, hrest⟩ := TransGen.head'_iff.mp h
    obtain ⟨n, hclimbs⟩ := exists_of_reflTransGen hrest
    exact ⟨n, .up hup hclimbs⟩
  · rintro ⟨_, hclimbs⟩
    cases hclimbs with
    | up hup hrest => exact TransGen.head'_iff.mpr ⟨_, hup, hrest.reflTransGen⟩

end Climbs

namespace Lineage

variable {ids ids' : List α} {n : Nat}

section

variable (h : Lineage parent x ids)

include h

/-- A lineage is as much longer than that of an ancestor as the ancestor is far. -/
theorem length_of_climbs (hclimbs : Climbs parent n x y)
    (h' : Lineage parent y ids') : ids.length = ids'.length + n := by
  induction hclimbs generalizing ids with
  | refl => rw [h.unique h', Nat.add_zero]
  | up hup _ ih =>
    cases h with
    | root hroot => simp [hroot] at hup
    | child hup' hids =>
      cases hup.symm.trans hup'
      rw [length_append, ih hids h', length_singleton, Nat.add_assoc]

theorem not_cycle : ¬ TransGen (Up parent) x x := by
  intro hcycle
  obtain ⟨_, hclimbs⟩ := Climbs.transGen_iff.mp hcycle
  have hlength := h.length_of_climbs hclimbs h
  omega

theorem of_climbs (hclimbs : Climbs parent n x y) : ∃ ids', Lineage parent y ids' := by
  induction hclimbs generalizing ids with
  | refl => exact ⟨ids, h⟩
  | up hup _ ih =>
    cases h with
    | root hroot => simp [hroot] at hup
    | child hup' hids =>
      cases hup.symm.trans hup'
      exact ih hids

end

end Lineage

end Bridget.Foundation
