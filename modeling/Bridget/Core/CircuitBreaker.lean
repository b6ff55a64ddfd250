import Bridget.Foundation.Lines
import Bridget.Foundation.Run

/-!
# The circuit breaker

A conversation is cut once a limit of exchanges falls within a sliding window. What has left the
window is dropped only when the next exchange is recorded.
-/

namespace Bridget.Core

open Foundation Function List

def convKey (source target : String) : String :=
  if source ≤ target then source ++ "|" ++ target else target ++ "|" ++ source

/-- Instants and the window are counted in one unit. -/
structure CircuitBreaker where
  (window limit : Nat)
  history : String → Option (List Int)

namespace CircuitBreaker

def new (window limit : Nat) : CircuitBreaker := ⟨window, limit, fun _ => none⟩

variable (breaker : CircuitBreaker) (source target : String) (now : Int)

def checkAt : Bool :=
  match breaker.history (convKey source target) with
  | none => true
  | some entries => entries.countP (now - breaker.window < ·) < breaker.limit

def recordAt : CircuitBreaker :=
  let key := convKey source target
  let entries := (breaker.history key).getD [] ++ [now]
  { breaker with
    history := update breaker.history key (some (entries.dropWhile (· ≤ now - breaker.window))) }

def countAt : Nat :=
  match breaker.history (convKey source target) with
  | none => 0
  | some entries => entries.countP (now - breaker.window < ·)

def answers : Bool × Nat := (breaker.checkAt source target now, breaker.countAt source target now)

end CircuitBreaker

structure Exchange where
  (source target : String)
  time : Int

/-- A breaker with everything that was ever recorded, and the time of the last attempt. -/
structure BreakerLog where
  breaker : CircuitBreaker
  recorded : List Exchange
  clock : Int

namespace BreakerLog

def init (window limit : Nat) (start : Int) : BreakerLog := ⟨.new window limit, [], start⟩

def record (log : BreakerLog) (e : Exchange) : BreakerLog :=
  ⟨log.breaker.recordAt e.source e.target e.time, log.recorded ++ [e], e.time⟩

def step (log : BreakerLog) (e : Exchange) : BreakerLog :=
  if log.breaker.checkAt e.source e.target e.time then log.record e
  else { log with clock := e.time }

/-- The bar separates the two names of a key. -/
def Named (name : String) : Prop := '|' ∉ name.toList

variable (log : BreakerLog)

/-- Time goes on, and the names can be joined by a bar. -/
def Admits (e : Exchange) : Prop := log.clock ≤ e.time ∧ Named e.source ∧ Named e.target

def timesOf (key : String) : List Int :=
  (log.recorded.filter fun e => convKey e.source e.target = key).map Exchange.time

/-- The breaker as it would be if nothing had ever been dropped. -/
def unpruned : CircuitBreaker :=
  { log.breaker with
    history := fun key => if log.timesOf key = [] then none else some (log.timesOf key) }

/-- How many exchanges between two names are recorded in the window that ends at an instant. -/
def within (a b : String) (t : Int) : Nat :=
  log.recorded.countP fun e =>
    s(e.source, e.target) = s(a, b) ∧ t - log.breaker.window < e.time ∧ e.time ≤ t

theorem convKey_comm (a b : String) : convKey a b = convKey b a := by
  unfold convKey
  rcases lt_trichotomy a b with hlt | rfl | hlt
  · rw [if_pos hlt.le, if_neg hlt.not_ge]
  · rfl
  · rw [if_neg hlt.not_ge, if_pos hlt.le]

variable {a b c d : String}

theorem join_inj (ha : Named a) (hc : Named c) (h : a ++ "|" ++ b = c ++ "|" ++ d) :
    a = c ∧ b = d := by
  have hlists := congrArg (fun text => firstLine '|' text.toList) h
  simp only [String.toList_append, append_assoc] at hlists
  simpa [String.toList_inj] using (firstLine_line ha).symm.trans (hlists.trans (firstLine_line hc))

/-- Names that hold no bar are told by the key of their pair. -/
theorem convKey_inj (ha : Named a) (hb : Named b) (hc : Named c) (hd : Named d)
    (h : convKey a b = convKey c d) : s(a, b) = s(c, d) := by
  rw [Sym2.eq_iff]
  unfold convKey at h
  split at h <;> split at h
  · exact .inl (join_inj ha hc h)
  · exact .inr (join_inj ha hd h)
  · exact .inr (join_inj hb hc h).symm
  · exact .inl (join_inj hb hd h).symm

variable {window limit : Nat} {log : BreakerLog} {e : Exchange} {key : String} {t : Int}

def during (log : BreakerLog) (key : String) (t : Int) : Nat :=
  (log.timesOf key).countP fun time => t - log.breaker.window < time ∧ time ≤ t

/-- What was dropped had left the window by the last attempt. -/
structure Sound (window limit : Nat) (log : BreakerLog) : Prop where
  config : log.breaker.window = window ∧ log.breaker.limit = limit
  known : ∀ key, log.breaker.history key = none ↔ log.timesOf key = []
  kept : ∀ key, ∃ dropped, log.timesOf key = dropped ++ (log.breaker.history key).getD [] ∧
    ∀ time ∈ dropped, time ≤ log.clock - log.breaker.window
  past : ∀ e ∈ log.recorded, e.time ≤ log.clock
  bounded : 0 < limit ∨ window = 0 → ∀ key t, log.during key t ≤ limit

theorem timesOf_record : (log.record e).timesOf key =
    log.timesOf key ++ if convKey e.source e.target = key then [e.time] else [] := by
  by_cases hkey : convKey e.source e.target = key <;> simp [timesOf, record, hkey]

theorem during_record : (log.record e).during key t = log.during key t +
    if convKey e.source e.target = key ∧ t - log.breaker.window < e.time ∧ e.time ≤ t
    then 1 else 0 := by
  rw [during, timesOf_record, countP_append]
  congr 1
  by_cases hkey : convKey e.source e.target = key <;>
    simp [hkey, countP_singleton, record, CircuitBreaker.recordAt]

theorem history_record_of_ne (hkey : convKey e.source e.target ≠ key) :
    (log.record e).breaker.history key = log.breaker.history key :=
  update_of_ne hkey.symm ..

section

variable (h : log.Sound window limit)

include h

theorem Sound.count_eq (key : String) (ht : log.clock ≤ t) :
    ((log.breaker.history key).getD []).countP (t - log.breaker.window < ·) =
      (log.timesOf key).countP (t - log.breaker.window < ·) := by
  obtain ⟨dropped, htimes, hdropped⟩ := h.kept key
  have hzero : dropped.countP (t - log.breaker.window < ·) = 0 := by
    refine countP_eq_zero.mpr fun time htime => ?_
    have := hdropped time htime
    simpa using by omega
  rw [htimes, countP_append, hzero, zero_add]

theorem Sound.kept_record (hclock : log.clock ≤ e.time)
    (key : String) : ∃ dropped, (log.record e).timesOf key =
      dropped ++ ((log.record e).breaker.history key).getD [] ∧
      ∀ time ∈ dropped, time ≤ e.time - log.breaker.window := by
  obtain ⟨dropped, htimes, hdropped⟩ := h.kept key
  have hearlier : ∀ time ∈ dropped, time ≤ e.time - log.breaker.window := fun time htime =>
    (hdropped time htime).trans (by omega)
  rw [timesOf_record, htimes]
  split
  next hkey =>
    subst hkey
    simp only [record, CircuitBreaker.recordAt, update_self, Option.getD_some]
    refine ⟨dropped ++ takeWhile _ _,
      by rw [append_assoc, append_assoc, takeWhile_append_dropWhile], fun time htime => ?_⟩
    rcases mem_append.mp htime with htime | htime
    · exact hearlier time htime
    · simpa using mem_takeWhile_imp htime
  next hkey => exact ⟨dropped, by rw [history_record_of_ne hkey, append_nil], hearlier⟩

/-- A window that sees a new exchange sees no more of the others than the one that was checked. -/
theorem Sound.during_record_le (hclock : log.clock ≤ e.time)
    (hcheck : log.breaker.checkAt e.source e.target e.time = true)
    (hlimit : 0 < limit ∨ window = 0) : (log.record e).during key t ≤ limit := by
  rw [during_record]
  split
  next hnew =>
    obtain ⟨rfl, hin⟩ := hnew
    obtain ⟨rfl, rfl⟩ := h.config
    have hcount := h.count_eq (convKey e.source e.target) hclock
    unfold CircuitBreaker.checkAt at hcheck
    split at hcheck
    next hnone =>
      rw [during, (h.known _).mp hnone]
      exact hlimit.resolve_right (by omega)
    rename_i hsome
    rw [hsome] at hcount
    refine (Nat.succ_le_succ ?_).trans (of_decide_eq_true hcheck)
    refine (countP_mono_left fun time _ hwithin => ?_).trans hcount.ge
    have := of_decide_eq_true hwithin
    exact decide_eq_true (by omega)
  · exact h.bounded hlimit key t

theorem Sound.step (hadmits : log.Admits e) : (log.step e).Sound window limit := by
  have hpast : ∀ other ∈ log.recorded, other.time ≤ e.time := fun other hother =>
    (h.past other hother).trans hadmits.1
  unfold BreakerLog.step
  split
  next hcheck =>
    refine ⟨h.config, fun key => ?_, h.kept_record hadmits.1, fun other hother => ?_,
      fun hlimit _ _ => h.during_record_le hadmits.1 hcheck hlimit⟩
    · rw [timesOf_record]
      by_cases hkey : convKey e.source e.target = key
      · simp [record, CircuitBreaker.recordAt, hkey]
      · rw [history_record_of_ne hkey, if_neg hkey, append_nil, h.known]
    · rcases mem_append.mp hother with hother | hother
      · exact hpast other hother
      · rw [mem_singleton.mp hother]
        exact le_rfl
  · refine ⟨h.config, h.known, fun key => ?_, hpast, h.bounded⟩
    obtain ⟨dropped, htimes, hdropped⟩ := h.kept key
    exact ⟨dropped, htimes, fun time htime =>
      (hdropped time htime).trans (sub_le_sub_right hadmits.1 _)⟩

end

theorem Sound.init (start : Int) : (init window limit start).Sound window limit :=
  ⟨⟨rfl, rfl⟩, fun _ => ⟨fun _ => rfl, fun _ => rfl⟩, fun _ => ⟨[], rfl, by simp⟩,
    by simp [BreakerLog.init], fun _ _ _ => Nat.zero_le _⟩

theorem Sound.answers_unpruned (h : log.Sound window limit) (ht : log.clock ≤ t) :
    log.breaker.answers a b t = log.unpruned.answers a b t := by
  have hcount := h.count_eq (convKey a b) ht
  unfold CircuitBreaker.answers CircuitBreaker.checkAt CircuitBreaker.countAt unpruned
  by_cases hnone : log.timesOf (convKey a b) = []
  · simp only [hnone, (h.known _).mpr hnone, if_true]
  · obtain ⟨entries, hentries⟩ := Option.ne_none_iff_exists'.mp (mt (h.known _).mp hnone)
    rw [hentries] at hcount
    simp only [hnone, hentries, if_false]
    rw [← hcount, Option.getD_some]

theorem first_exchange_passes (window limit : Nat) (hwindow : 0 < window) :
    ∃ log, Run step Admits (init window limit 0) [⟨"codex", "claude", 0⟩] log ∧
      log.within "codex" "claude" 0 = 1 := by
  refine ⟨_, .single ⟨le_rfl, by simp [Named], by simp [Named]⟩, ?_⟩
  change ((init window limit 0).record _).within _ _ _ = 1
  simp [within, record, CircuitBreaker.recordAt, BreakerLog.init, CircuitBreaker.new, hwindow]

/-- While limit and window leave the first exchange of a pair its place, and only then, no window
of any run ever holds more than the limit. What was dropped is never missed, the two names may be
exchanged, and one pair never sees another. -/
theorem breaker_bounds_every_window_iff (window limit : Nat) :
    (0 < limit ∨ window = 0 ↔ ∀ start exchanges log,
      Run step Admits (init window limit start) exchanges log →
        ∀ a b t, log.within a b t ≤ limit) ∧
    ∀ start exchanges log, Run step Admits (init window limit start) exchanges log →
      ∀ a b t, log.clock ≤ t →
        log.breaker.answers a b t = log.unpruned.answers a b t ∧
        log.breaker.answers a b t = log.breaker.answers b a t ∧
        (Named a → Named b → ∀ e, log.Admits e → s(e.source, e.target) ≠ s(a, b) →
          (log.step e).breaker.answers a b t = log.breaker.answers a b t) := by
  have hsound : ∀ start exchanges log, Run step Admits (init window limit start) exchanges log →
      log.Sound window limit :=
    fun start _ _ hrun => hrun.invariant _ (fun _ _ h => h.step) (.init start)
  refine ⟨⟨fun hlimit start exchanges log hrun a b t => ?_, fun h => ?_⟩,
    fun start exchanges log hrun a b t ht => ⟨(hsound _ _ _ hrun).answers_unpruned ht, ?_,
      fun ha hb e hadmits hother => ?_⟩⟩
  · refine le_trans ?_ ((hsound _ _ _ hrun).bounded hlimit (convKey a b) t)
    rw [within, during, timesOf, countP_map, countP_filter]
    refine countP_mono_left fun e _ he => ?_
    obtain ⟨hpair, hin⟩ := of_decide_eq_true he
    rcases Sym2.eq_iff.mp hpair with ⟨rfl, rfl⟩ | ⟨rfl, rfl⟩
    · simpa using hin
    · simpa [convKey_comm e.source] using hin
  · by_contra hneither
    obtain ⟨log, hrun, hfirst⟩ := first_exchange_passes window limit (by omega)
    have := h 0 _ log hrun "codex" "claude" 0
    omega
  · simp only [CircuitBreaker.answers, CircuitBreaker.checkAt, CircuitBreaker.countAt,
      convKey_comm b a]
  · have hkey : convKey e.source e.target ≠ convKey a b :=
      mt (convKey_inj hadmits.2.1 hadmits.2.2 ha hb) hother
    unfold BreakerLog.step
    split
    · simp only [CircuitBreaker.answers, CircuitBreaker.checkAt, CircuitBreaker.countAt,
        history_record_of_ne hkey]
      rfl
    · rfl

/-- A breaker that allows no exchange lets one through. -/
theorem breaker_of_limit_zero_lets_one_pass :
    ∃ log, Run step Admits (init 60 0 0) [⟨"codex", "claude", 0⟩] log ∧
      log.breaker.limit < log.within "codex" "claude" 0 := by
  obtain ⟨log, hrun, hwithin⟩ := first_exchange_passes 60 0 (by decide)
  exact ⟨log, hrun, by rw [hwithin, hrun.eq_foldl]; decide⟩

end BreakerLog

end Bridget.Core
