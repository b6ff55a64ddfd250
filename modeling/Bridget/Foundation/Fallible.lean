import Mathlib

/-!
# Fallible computations

Code that returns early with an error is written in `Except`. The lemmas here turn
"the whole computation succeeded" into what each of its steps did, so that no proof
about such code unfolds the monad.
-/

namespace Bridget.Foundation

variable {ε ε' α β σ : Type}

/-- Continue only when the condition holds. -/
def ensure (condition : Prop) [Decidable condition] (error : ε) : Except ε Unit :=
  if condition then .ok () else .error error

/-- Read an optional value, with an error for the missing case. -/
def orError (value : Option α) (error : ε) : Except ε α :=
  match value with
  | some a => .ok a
  | none => .error error

/-- Run a step only when its argument is present. -/
def whenSome (value : Option α) (otherwise : β) (step : α → Except ε β) : Except ε β :=
  match value with
  | some a => step a
  | none => .ok otherwise

def errorOf : Except ε α → Option ε
  | .error error => some error
  | .ok _ => none

variable {x : Except ε α} {error e : ε} {condition : Prop} {value : Option α} {a : α}

theorem errorOf_eq_some : errorOf x = some error ↔ x = .error error := by
  cases x <;> simp [errorOf]

@[simp] theorem ensure_eq_ok [Decidable condition] {u : Unit} :
    ensure condition error = .ok u ↔ condition := by
  unfold ensure
  split <;> simp_all

@[simp] theorem ensure_eq_error [Decidable condition] :
    ensure condition error = .error e ↔ ¬ condition ∧ error = e := by
  unfold ensure
  split <;> simp_all

@[simp] theorem orError_eq_ok : orError value error = .ok a ↔ value = some a := by
  cases value <;> simp [orError]

@[simp] theorem orError_eq_error : orError value error = .error e ↔ value = none ∧ error = e := by
  cases value <;> simp [orError]

variable {f : α → Except ε β} {b : β}

/-- A sequenced computation succeeds exactly when both of its parts do. -/
@[simp] theorem bind_eq_ok : x >>= f = .ok b ↔ ∃ a, x = .ok a ∧ f a = .ok b := by
  cases x <;> simp [bind, Except.bind]

/-- A sequenced computation fails in one of its parts. -/
theorem bind_eq_error : x >>= f = .error e ↔ x = .error e ∨ ∃ a, x = .ok a ∧ f a = .error e := by
  cases x <;> simp [bind, Except.bind]

@[simp] theorem pure_eq_ok {b : α} : (pure a : Except ε α) = .ok b ↔ a = b := by
  simp [pure, Except.pure]

@[simp] theorem throw_ne_ok : (throw e : Except ε α) ≠ .ok a := by
  simp [throw, throwThe, MonadExceptOf.throw]

@[simp] theorem mapError_eq_ok {f : ε → ε'} : x.mapError f = .ok a ↔ x = .ok a := by
  cases x <;> simp [Except.mapError]

theorem mapError_eq_error {f : ε → ε'} {e : ε'} :
    x.mapError f = .error e ↔ ∃ e₀, x = .error e₀ ∧ f e₀ = e := by
  cases x <;> simp [Except.mapError]

theorem map_eq_ok {f : α → β} : x.map f = .ok b ↔ ∃ a, x = .ok a ∧ f a = b := by
  cases x <;> simp [Except.map]

theorem map_snd_eq_ok {x : Except ε (α × β)} : x.map Prod.snd = .ok b ↔ ∃ a, x = .ok (a, b) := by
  cases x <;> simp [Except.map, Prod.ext_iff]

theorem map_fst_eq_ok {γ : Type*} {f : α → γ} {x : Except ε (α × β)} {c : γ} :
    x.map (fun (a, b) => (f a, b)) = .ok (c, b) ↔ ∃ a, x = .ok (a, b) ∧ f a = c := by
  cases x <;> simp [Except.map, Prod.ext_iff]
  grind

theorem map_unit_eq_ok {x : Except ε β} {u : Unit} :
    x.map (fun b => ((), b)) = .ok (u, b) ↔ x = .ok b := by
  cases x <;> simp [Except.map]

/-- The rules that invert a computation that succeeded, as one. -/
theorem ok_iff :
    (∀ {ε α β : Type} {x : Except ε α} {f : α → Except ε β} {b : β},
      x >>= f = .ok b ↔ ∃ a, x = .ok a ∧ f a = .ok b) ∧
    (∀ {ε α : Type} {a b : α}, (pure a : Except ε α) = .ok b ↔ a = b) ∧
    (∀ {ε : Type} {error : ε} {condition : Prop} [Decidable condition] {u : Unit},
      ensure condition error = .ok u ↔ condition) ∧
    ∀ {ε α : Type} {error : ε} {value : Option α} {a : α},
      orError value error = .ok a ↔ value = some a :=
  ⟨bind_eq_ok, pure_eq_ok, ensure_eq_ok, orError_eq_ok⟩

/-- The rules for the pairs that such computations return. -/
theorem pair_iff : (∀ {α β : Type} {p : α × β → Prop}, (∃ x, p x) ↔ ∃ a b, p (a, b)) ∧
    ∀ {α β : Type} {a a' : α} {b b' : β}, (a, b) = (a', b') ↔ a = a' ∧ b = b' :=
  ⟨Prod.exists, Prod.mk.injEq .. ▸ Iff.rfl⟩

/-- The rules for conditions that are computed. -/
theorem test_iff : (∀ {p : Prop} [Decidable p], decide p = true ↔ p) ∧
    ∀ {a b : Bool}, (a && b) = true ↔ a = true ∧ b = true :=
  ⟨decide_eq_true_iff, Bool.and_eq_true_iff⟩

theorem ok_bind : (Except.ok a >>= f) = f a := rfl

variable {xs : List α} {ys : List β}

theorem mapM_eq_ok (h : xs.mapM f = .ok ys) :
    (∀ x ∈ xs, ∃ y ∈ ys, f x = .ok y) ∧ ∀ y ∈ ys, ∃ x ∈ xs, f x = .ok y := by
  induction xs generalizing ys with
  | nil =>
    simp only [List.mapM_nil, pure_eq_ok] at h
    simp [← h]
  | cons x _ ih =>
    simp only [List.mapM_cons, bind_eq_ok, pure_eq_ok] at h
    obtain ⟨y, hy, _, hys, rfl⟩ := h
    obtain ⟨hread, hfrom⟩ := ih hys
    constructor
    · intro x' hx'
      rcases List.mem_cons.mp hx' with rfl | hx'
      · exact ⟨y, by simp, hy⟩
      · obtain ⟨y', hy', hf⟩ := hread x' hx'
        exact ⟨y', by simp [hy'], hf⟩
    · intro y' hy'
      rcases List.mem_cons.mp hy' with rfl | hy'
      · exact ⟨x, by simp, hy⟩
      · obtain ⟨x', hx', hf⟩ := hfrom y' hy'
        exact ⟨x', by simp [hx'], hf⟩

theorem mapM_eq_self {f : α → Except ε α} (hf : ∀ x y, f x = .ok y → y = x) {ys : List α}
    (h : xs.mapM f = .ok ys) : ys = xs := by
  induction xs generalizing ys with
  | nil =>
    cases h
    rfl
  | cons x _ ih =>
    simp only [List.mapM_cons, bind_eq_ok, pure_eq_ok] at h
    obtain ⟨y, hy, _, hrest, rfl⟩ := h
    rw [hf x y hy, ih hrest]

theorem mapM_of_ok {f : α → Except ε α} (h : ∀ x ∈ xs, f x = .ok x) : xs.mapM f = .ok xs := by
  induction xs with
  | nil => rfl
  | cons x _ ih =>
    rw [List.mapM_cons, h x List.mem_cons_self, ok_bind,
      ih fun y hy => h y (List.mem_cons_of_mem x hy)]
    rfl

theorem exists_mapM_eq_ok (h : ∀ x ∈ xs, ∃ y, f x = .ok y) :
    ∃ ys, xs.mapM f = .ok ys ∧ ys.length = xs.length := by
  induction xs with
  | nil => exact ⟨[], rfl, rfl⟩
  | cons _ _ ih =>
    obtain ⟨⟨y, hy⟩, hrest⟩ := List.forall_mem_cons.mp h
    obtain ⟨ys, hys, hlength⟩ := ih hrest
    refine ⟨y :: ys, ?_, by rw [List.length_cons, List.length_cons, hlength]⟩
    rw [List.mapM_cons, hy, ok_bind, hys, ok_bind]
    rfl

/-- The values that are read keep the order of the rows they are read from. -/
theorem mapM_pairwise {r : α → α → Prop} {r' : β → β → Prop} (h : xs.mapM f = .ok ys)
    (hxs : xs.Pairwise r)
    (hread : ∀ x ∈ xs, ∀ x' ∈ xs, ∀ y y', r x x' → f x = .ok y → f x' = .ok y' → r' y y') :
    ys.Pairwise r' := by
  induction xs generalizing ys with
  | nil =>
    cases h
    exact .nil
  | cons x _ ih =>
    simp only [List.mapM_cons, bind_eq_ok, pure_eq_ok] at h
    obtain ⟨y, hy, _, hrest, rfl⟩ := h
    obtain ⟨hhead, htail⟩ := List.pairwise_cons.mp hxs
    refine List.pairwise_cons.mpr ⟨?_, ih hrest htail ?_⟩
    · intro y' hy'
      obtain ⟨x', hx', hf⟩ := (mapM_eq_ok hrest).2 y' hy'
      exact hread x List.mem_cons_self x' (List.mem_cons_of_mem x hx') y y' (hhead x' hx') hy hf
    · intro a ha b hb
      exact hread a (List.mem_cons_of_mem x ha) b (List.mem_cons_of_mem x hb)

/-- A loop that may fail keeps whatever each of its rounds keeps. -/
theorem foldlM_invariant (inv : σ → Prop) {step : σ → α → Except ε σ} {s s' : σ}
    (hstep : ∀ s s' x, x ∈ xs → inv s → step s x = .ok s' → inv s') (hinit : inv s)
    (hrun : xs.foldlM step s = .ok s') : inv s' := by
  induction xs generalizing s with
  | nil =>
    simp only [List.foldlM_nil, pure_eq_ok] at hrun
    exact hrun ▸ hinit
  | cons x _ ih =>
    simp only [List.foldlM_cons, bind_eq_ok] at hrun
    obtain ⟨middle, hhead, htail⟩ := hrun
    refine ih ?_ (hstep s middle x (by simp) hinit hhead) htail
    intro s₁ s₂ y hy
    exact hstep s₁ s₂ y (by simp [hy])

end Bridget.Foundation
