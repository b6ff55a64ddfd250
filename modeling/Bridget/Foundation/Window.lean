import Mathlib

/-!
# Sliding windows

A limiter remembers the times of what it has admitted, newest first. It admits at most `k + 1`
of them within any span: an admission has to wait until the `k`-th time before it has left the
window. The delay that it announces is exact.
-/

namespace Bridget.Foundation

variable {k : Nat} {span since now later earlier : Int} {times : List Int}

/-- How long the `k`-th of the times still stands in the way. -/
def retryAfter (k : Nat) (span : Int) (times : List Int) (now : Int) : Nat :=
  match times[k]? with
  | none => 0
  | some time => (time + span - now).toNat

theorem retryAfter_add (s : Nat) :
    retryAfter k span times (now + s) = retryAfter k span times now - s := by
  unfold retryAfter
  cases times[k]? with
  | none => exact (Nat.zero_sub s).symm
  | some =>
    simp only
    omega

theorem retryAfter_le (hle : ∀ time ∈ times, time ≤ now) :
    retryAfter k span times now ≤ span.toNat := by
  unfold retryAfter
  cases h : times[k]? with
  | none => exact Nat.zero_le _
  | some time =>
    have := hle time (List.mem_of_getElem? h)
    simp only
    omega

/-- Any `k + 2` consecutive times extend over the span. -/
def Spaced (k : Nat) (span : Int) (times : List Int) : Prop :=
  ∀ i later earlier, times[i]? = some later → times[i + k + 1]? = some earlier →
    earlier + span ≤ later

theorem Spaced.nil : Spaced k span [] := by
  intro _ _ _ hlater
  cases hlater

theorem Spaced.cons (h : Spaced k span times) (hfree : retryAfter k span times now = 0) :
    Spaced k span (now :: times) := by
  intro i later earlier hlater hearlier
  cases i with
  | zero =>
    -- the newest time, against the one that the limiter has waited for
    cases hlater
    rw [show 0 + k + 1 = k + 1 from by omega, List.getElem?_cons_succ] at hearlier
    simp only [retryAfter, hearlier] at hfree
    omega
  | succ i =>
    rw [show i + 1 + k + 1 = i + k + 1 + 1 from by omega, List.getElem?_cons_succ] at hearlier
    exact h i later earlier hlater hearlier

variable (hsorted : times.Pairwise (· ≥ ·))

include hsorted

/-- Two times with at least `k` others between them are a span apart. -/
theorem Spaced.apart (h : Spaced k span times) {i j : Nat} (hij : i + k < j)
    (hlater : times[i]? = some later) (hearlier : times[j]? = some earlier) :
    earlier + span ≤ later := by
  obtain ⟨hj, rfl⟩ := List.getElem?_eq_some_iff.mp hearlier
  have hmid : i + k + 1 < times.length := by omega
  have hspan := h i later times[i + k + 1] hlater (List.getElem?_eq_getElem hmid)
  rcases Nat.lt_or_eq_of_le (show i + k + 1 ≤ j from hij) with hlt | rfl
  · have hle : times[j] ≤ times[i + k + 1] := List.pairwise_iff_getElem.mp hsorted _ _ hmid hj hlt
    omega
  · exact hspan

theorem Spaced.of_sublist (h : Spaced k span times) {between : List Int}
    (hlength : between.length = k)
    (hsub : (later :: (between ++ [earlier])).Sublist times) : earlier + span ≤ later := by
  obtain ⟨position, hposition⟩ := List.sublist_iff_exists_orderEmbedding_getElem?_eq.mp hsub
  have hgrows : ∀ n, position 0 + n ≤ position n := by
    intro n
    induction n with
    | zero => exact le_refl _
    | succ n =>
      have := position.strictMono (Nat.lt_add_one n)
      omega
  apply h.apart hsorted (show position 0 + k < position (k + 1) from hgrows (k + 1))
  · rw [← hposition 0]
    rfl
  · rw [← hposition (k + 1), List.getElem?_cons_succ, ← hlength]
    exact List.getElem?_concat_length

/-- In a sorted list, what a window shows are the first times. -/
theorem getElem?_filter_window :
    (times.filter fun time => since ≤ time)[k]? = times[k]?.filter fun time => since ≤ time := by
  induction times generalizing k with
  | nil => rfl
  | cons time times ih =>
    obtain ⟨hfirst, hrest⟩ := List.pairwise_cons.mp hsorted
    by_cases hin : since ≤ time
    · rw [List.filter_cons_of_pos (by simpa using hin)]
      cases k with
      | zero => simp [Option.filter, hin]
      | succ => exact ih hrest
    -- the window closes here, and everything older is outside too
    have hout : ∀ old ∈ time :: times, ¬ since ≤ old := by
      intro old hold
      rcases List.mem_cons.mp hold with rfl | hold
      · exact hin
      · have := hfirst old hold
        omega
    rw [List.filter_eq_nil_iff.mpr fun old hold => by simpa using hout old hold]
    cases h : (time :: times)[k]? with
    | none => rfl
    | some old => simp [Option.filter, hout old (List.mem_of_getElem? h)]

/-- The limiter needs to look no further back than the span. -/
theorem retryAfter_window
    (hsince : ∀ time ∈ times, time < since → time + span ≤ now) :
    retryAfter k span (times.filter fun time => since ≤ time) now =
      retryAfter k span times now := by
  unfold retryAfter
  rw [getElem?_filter_window hsorted]
  cases h : times[k]? with
  | none => rfl
  | some time =>
    by_cases hin : since ≤ time
    · simp [Option.filter, hin]
    · have hout := hsince time (List.mem_of_getElem? h) (by omega)
      simp only [Option.filter, hin, decide_false, Bool.false_eq_true, if_false]
      omega

theorem max?_eq_head? {window : List Int} (hperm : window.Perm times) :
    window.max? = times[0]? := by
  cases times with
  | nil => simp [hperm.eq_nil]
  | cons =>
    rw [List.getElem?_cons_zero, List.max?_eq_some_iff]
    refine ⟨hperm.mem_iff.mpr List.mem_cons_self, fun other hother => ?_⟩
    rcases List.mem_cons.mp (hperm.mem_iff.mp hother) with rfl | hother
    · exact le_refl _
    · exact (List.pairwise_cons.mp hsorted).1 other hother

end Bridget.Foundation
