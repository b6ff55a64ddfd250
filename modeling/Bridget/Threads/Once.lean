import Bridget.Threads.Sessions

/-!
# Operations that happen once

Creating, adding members, depositing and closing carry the name of the operation. What was done
under a name is answered again and not done again, what is refused leaves no mark, and the counters
of a thread are those of its entries.
-/

namespace Bridget.Threads

open Foundation ThreadStore List Table

/-- Who asks for an operation, under which name, and for what. -/
def ThreadOp.envelope : ThreadOp → Option (String × String × String)
  | .create request | .addMembers request | .post request _ | .close request =>
    some (request.actor, request.operationId, request.canonicalHash)
  | _ => none

def ThreadTxOutcome.result? : ThreadTxOutcome → Option ThreadResult
  | .done result => some result
  | _ => none

namespace ThreadStore

/-- An error leaves the tables as they were. -/
def step (size : PageEntry → Nat) (s : ThreadStore) (op : ThreadOp) : ThreadStore :=
  match s.exec size op with
  | .ok (_, s') => s'
  | .error _ => s

def bodies (s : ThreadStore) (threadId : String) : List String :=
  (s.entries.select fun e => e.threadId = threadId).map EntryRow.body

/-- The counters of every thread are exact, and every entry is in a thread. -/
structure Counted (s : ThreadStore) : Prop where
  counts : ∀ u ∈ s.tallies, u.2 = ((s.bodies u.1).length,
    ((s.bodies u.1).map String.utf8ByteSize).sum)
  homed : ∀ e ∈ s.entries, e.threadId ∈ s.tallies.map Prod.fst

variable {size : PageEntry → Nat} {s s' : ThreadStore} {op : ThreadOp} {reply : ThreadReply}
  {posts : String → ThreadLimits → Prop} {u : String × Nat × Nat}

theorem TallyStep.counted (hstep : TallyStep posts s s') (h : s.Counted) : s'.Counted := by
  cases hstep with
  | same htallies hentries =>
    constructor
    · simp only [bodies, htallies, hentries]
      exact h.counts
    · rw [htallies, hentries]
      exact h.homed
  | @opened threadId hfresh htallies hentries =>
    -- a new thread has no entries yet
    have hnone : s.bodies threadId = [] := by
      rw [bodies, map_eq_nil_iff, eq_nil_iff_forall_not_mem]
      intro e he
      obtain ⟨he, hid⟩ := mem_select.mp he
      have hhome := h.homed e he
      rw [of_decide_eq_true hid, tallies, map_map, mem_map] at hhome
      obtain ⟨t, ht, heq⟩ := hhome
      exact hfresh t ht heq
    constructor
    · intro u hu
      rw [htallies, mem_append, mem_singleton] at hu
      rw [bodies, hentries]
      rcases hu with hu | rfl
      · exact h.counts u hu
      · change _ = ((s.bodies threadId).length, ((s.bodies threadId).map String.utf8ByteSize).sum)
        rw [hnone]
        rfl
    · intro e he
      rw [htallies, map_append]
      exact mem_append_left _ (h.homed e (hentries ▸ he))
  | @posted entry thread _ _ _ _ hthread hinsert htallies =>
    -- a deposit adds its body to its own thread only
    have hbodies : ∀ threadId, s'.bodies threadId =
        s.bodies threadId ++ if threadId = entry.threadId then [entry.body] else [] := by
      intro threadId
      rw [bodies, bodies, select, select, insert_rows hinsert, filter_append, map_append]
      congr 1
      by_cases hid : threadId = entry.threadId
      · simp [hid]
      · simp [hid, Ne.symm hid]
    obtain ⟨hmem, hid⟩ := loadThread_eq_some.mp hthread
    have hcounts := h.counts (entry.threadId, thread.lastSeq, thread.bodyBytes)
      (mem_map.mpr ⟨thread, hmem, by rw [hid]⟩)
    have hids : s'.tallies.map Prod.fst = s.tallies.map Prod.fst := by
      rw [htallies, map_map]
      apply map_congr_left
      intro u _
      simp only [Function.comp_apply]
      split <;> rfl
    constructor
    · intro u hu
      rw [htallies] at hu
      obtain ⟨v, hv, rfl⟩ := mem_map.mp hu
      split
      next heq =>
        rw [heq, hbodies, if_pos rfl]
        simp [(Prod.mk.inj hcounts).1, (Prod.mk.inj hcounts).2]
      next hne =>
        rw [hbodies, if_neg hne, append_nil]
        exact h.counts v hv
    · intro e he
      rw [hids]
      rcases (mem_insert hinsert).mp he with he | rfl
      · exact h.homed e he
      · exact mem_map.mpr ⟨_, mem_map.mpr ⟨thread, hmem, rfl⟩, hid⟩

/-- Counters stay, or start at nothing, or were raised within the limits. -/
def Within (posts : String → ThreadLimits → Prop) (s : ThreadStore) (u : String × Nat × Nat) :
    Prop :=
  u ∈ s.tallies ∨ u.2 = (0, 0) ∨ ∃ limits, posts u.1 limits ∧
    u.2.1 ≤ limits.maxEntriesPerThread ∧ u.2.2 ≤ limits.maxBodyBytesPerThread

theorem TallyStep.within (hstep : TallyStep posts s s')
    (hu : u ∈ s'.tallies) : s.Within posts u := by
  cases hstep with
  | same htallies => exact .inl (htallies ▸ hu)
  | opened _ htallies =>
    rw [htallies, mem_append, mem_singleton] at hu
    rcases hu with hu | rfl
    · exact .inl hu
    · exact .inr (.inl rfl)
  | @posted _ _ limits hposts hentries hbytes _ _ htallies =>
    rw [htallies] at hu
    obtain ⟨_, hv, rfl⟩ := mem_map.mp hu
    split
    next heq => exact .inr (.inr ⟨limits, heq ▸ hposts, hentries, hbytes⟩)
    · exact .inl hv

theorem exec_tallies (h : s.exec size op = .ok (reply, s')) :
    Relation.ReflTransGen (TallyStep op.posts) s s' ∧
      ∀ row ∈ s.operations, row ∈ s'.operations := by
  obtain ⟨_, _, rfl, rfl, hread⟩ | ⟨hop, -⟩ := exec_cases h
  · rcases threadRead_cases hread with ⟨rfl, -⟩ | ⟨rfl, -⟩ |
      ⟨_, _, _, -, -, -, ⟨rfl, -⟩ | ⟨_, -, -, -, rfl, -⟩⟩
    all_goals exact ⟨.single (.same rfl rfl), fun _ => id⟩
  have hwrites := exec_writes hop h
  clear h
  refine ⟨Relation.ReflTransGen.mono (fun _ _ => WriteStep.tally) _ _ hwrites, fun row hrow => ?_⟩
  induction hwrites with
  | refl => exact hrow
  | tail _ hstep ih => exact hstep.recorded row ih

theorem Counted.exec (h : s.Counted) (hexec : s.exec size op = .ok (reply, s')) : s'.Counted := by
  have hsteps := (exec_tallies hexec).1
  clear hexec
  induction hsteps with
  | refl => exact h
  | tail _ hstep ih => exact hstep.counted ih

theorem exec_within (h : s.exec size op = .ok (reply, s'))
    (hu : u ∈ s'.tallies) : s.Within op.posts u := by
  have hsteps := (exec_tallies h).1
  clear h
  induction hsteps generalizing u with
  | refl => exact .inl hu
  | tail _ hstep ih =>
    rcases hstep.within hu with hu | hother
    · exact ih hu
    · exact .inr hother

theorem exec_named {envelope : String × String × String} (hop : op.envelope = some envelope)
    (h : s.exec size op = .ok (reply, s')) :
    ∃ outcome, reply = .tx outcome ∧ (s' = s ∧ outcome.result? = none ∨
      ∃ row ∈ s'.operations, row.envelope = envelope ∧ outcome = .done row.result) := by
  have hplain : ∀ {outcome : ThreadTxOutcome}, outcome.isPlain = true → outcome.result? = none := by
    intro outcome
    cases outcome <;> simp [ThreadTxOutcome.isPlain, ThreadTxOutcome.result?]
  have hrecorded : ∀ {middle : ThreadStore} {row : OperationRow},
      middle.recordOperation row = .ok s' → row ∈ s'.operations := by
    intro middle row hrecord
    simp only [recordOperation, ok_iff, sqlite_eq_ok] at hrecord
    obtain ⟨_, hinsert, rfl⟩ := hrecord
    exact (mem_insert hinsert).mpr (.inr rfl)
  cases op <;> cases hop <;> obtain ⟨outcome, hexec, rfl⟩ := map_fst_eq_ok.mp h <;>
    refine ⟨outcome, rfl, ?_⟩
  case create =>
    obtain ⟨rfl, hout⟩ | ⟨_, _, row, henvelope, -, -, hrecord, rfl⟩ := threadCreate_cases hexec
    · exact .inl ⟨rfl, hplain hout⟩
    · exact .inr ⟨row, hrecorded hrecord, henvelope, rfl⟩
  case addMembers =>
    obtain ⟨rfl, hout⟩ | ⟨_, _, _, row, henvelope, -, -, hrecord, rfl⟩ :=
      threadAddMembers_cases hexec
    · exact .inl ⟨rfl, hplain hout⟩
    · exact .inr ⟨row, hrecorded hrecord, henvelope, rfl⟩
  case post =>
    obtain ⟨rfl, hout⟩ | ⟨_, _, _, -, -, ⟨rfl, _, -, rfl⟩ | ⟨_, -, -, hdeposit⟩⟩ :=
      threadPost_cases hexec
    · exact .inl ⟨rfl, hplain hout⟩
    · exact .inl ⟨rfl, rfl⟩
    · obtain ⟨_, row, henvelope, hrecord, rfl⟩ := depositEntry_done hdeposit
      exact .inr ⟨row, hrecorded hrecord, henvelope, rfl⟩
  case close =>
    obtain ⟨rfl, hout⟩ | ⟨_, _, _, _, row, henvelope, -, -, hrecord, rfl⟩ := threadClose_cases hexec
    · exact .inl ⟨rfl, hplain hout⟩
    · exact .inr ⟨row, hrecorded hrecord, henvelope, rfl⟩

/-- What is recorded under a name is the answer to it, for this envelope only. -/
theorem exec_recorded {row : OperationRow} {actor operationId hash : String}
    (hrow : row ∈ s.operations) (hactor : row.actorId = actor) (hid : row.operationId = operationId)
    (hop : op.envelope = some (actor, operationId, hash)) :
    s.exec size op = .ok (.tx (if row.canonicalHash = hash then .replayed row.result
      else .refused .envelopeMismatch), s) := by
  have hlookup : s.lookupOperation actor operationId hash = some
      (if row.canonicalHash = hash then .replayed row.result else .refused .envelopeMismatch) := by
    refine Option.map_eq_some_iff.mpr
      ⟨row, (find?_eq_some ?_).mpr ⟨hrow, decide_eq_true ⟨hactor, hid⟩⟩, rfl⟩
    intro _ _ ha hb
    have ha := of_decide_eq_true ha
    have hb := of_decide_eq_true hb
    exact ⟨ha.1.trans hb.1.symm, ha.2.trans hb.2.symm⟩
  cases op <;> cases hop
  case create => simp only [exec, threadCreate, hlookup]; rfl
  case addMembers => simp only [exec, threadAddMembers, hlookup]; rfl
  case post => simp only [exec, threadPost, hlookup]; rfl
  case close => simp only [exec, threadClose, hlookup]; rfl

end ThreadStore

open ThreadStore

/-- A named operation writes at most once. When it has, its name is answered with what is recorded,
or refused for another envelope; whatever else it answers, it has changed nothing. The counters of
the threads are exact, and only a deposit raises them, within the limits in force. -/
theorem thread_operations_happen_once (size : PageEntry → Nat) {before after : List ThreadOp}
    {s₁ s₂ s : ThreadStore} {op : ThreadOp} {actor operationId canonicalHash : String}
    {reply : ThreadReply}
    (hbefore : Runs (ThreadStore.step size) .init before s₁)
    (hop : op.envelope = some (actor, operationId, canonicalHash))
    (hcall : s₁.exec size op = .ok (reply, s₂))
    (hafter : Runs (ThreadStore.step size) s₂ after s) :
    (∃ outcome, reply = .tx outcome ∧ (outcome.result? = none → s₂ = s₁) ∧
      ∀ result, outcome.result? = some result → ∀ later hash,
        later.envelope = some (actor, operationId, hash) →
          s.exec size later = .ok (.tx (if canonicalHash = hash then .replayed result
            else .refused .envelopeMismatch), s)) ∧
    (∀ t ∈ s.threads, t.lastSeq = (s.entries.select fun e => e.threadId = t.threadId).length ∧
      t.bodyBytes = ((s.entries.select fun e => e.threadId = t.threadId).map
        fun e => e.body.utf8ByteSize).sum) ∧
    ∀ t ∈ s₂.threads, (∃ t' ∈ s₁.threads, t'.threadId = t.threadId ∧ t'.lastSeq = t.lastSeq ∧
        t'.bodyBytes = t.bodyBytes) ∨ (t.lastSeq = 0 ∧ t.bodyBytes = 0) ∨
      ∃ request dormant, op = .post request dormant ∧ request.threadId = t.threadId ∧
        t.lastSeq ≤ request.limits.maxEntriesPerThread ∧
        t.bodyBytes ≤ request.limits.maxBodyBytesPerThread := by
  have hcounted : ∀ {s s' : ThreadStore} {ops : List ThreadOp},
      Runs (ThreadStore.step size) s ops s' → s.Counted → s'.Counted := by
    intro s s' ops hrun h
    refine hrun.invariant Counted (fun s op h _ => ?_) h
    unfold ThreadStore.step
    split
    next hexec => exact h.exec hexec
    · exact h
  refine ⟨?_, ?_, ?_⟩
  · obtain ⟨outcome, rfl, ⟨rfl, hnone⟩ | ⟨row, hrow, henvelope, rfl⟩⟩ := exec_named hop hcall
    · refine ⟨outcome, rfl, fun _ => rfl, fun result hresult => ?_⟩
      rw [hnone] at hresult
      cases hresult
    refine ⟨_, rfl, fun hnone => (by cases hnone), fun result hresult later hash hlater => ?_⟩
    cases hresult
    cases henvelope
    refine exec_recorded (hafter.invariant (fun s => row ∈ s.operations) ?_ hrow) rfl rfl hlater
    intro s op hrow _
    unfold ThreadStore.step
    split
    next hexec => exact (exec_tallies hexec).2 row hrow
    · exact hrow
  · intro t ht
    have hinit : ThreadStore.init.Counted := ⟨fun _ hu => (by cases hu), fun e he => (by cases he)⟩
    have hcounts := (hcounted hafter ((hcounted hbefore hinit).exec hcall)).counts _
      (mem_map.mpr ⟨t, ht, rfl⟩)
    rw [bodies, length_map, map_map] at hcounts
    exact Prod.mk.inj hcounts
  · intro t ht
    rcases exec_within hcall (mem_map.mpr ⟨t, ht, rfl⟩) with hmem | hzero | ⟨_, hposts, hle⟩
    · obtain ⟨t', ht', heq⟩ := mem_map.mp hmem
      simp only [Prod.mk.injEq] at heq
      exact .inl ⟨t', ht', heq⟩
    · exact .inr (.inl (Prod.mk.inj hzero))
    cases op with
    | post request dormant =>
      obtain ⟨hid, rfl⟩ := hposts
      exact .inr (.inr ⟨request, dormant, rfl, hid, hle⟩)
    | _ => cases hposts

/-- Ann repeats her first note after the second one. -/
theorem daily_note_is_deposited_once :
    let s := dailyOps.foldl (ThreadStore.step fun _ => 100) .init
    s.exec (fun _ => 100) (.post (dailyNote "o1" "m3") fun _ => false) =
        .ok (.tx (.replayed (.posted "daily" "m1" 1 [] [] [] [] [])), s) ∧
      ∀ t ∈ s.threads, t.lastSeq = (s.entries.select fun e => e.threadId = t.threadId).length := by
  have hbefore : Runs (ThreadStore.step fun _ => 100) .init
      [.create dailyThread] _ := .single trivial
  have hnote : ((ThreadStore.step (fun _ => 100) .init (.create dailyThread)).exec (fun _ => 100)
      (.post (dailyNote "o1" "m1") fun _ => false)).map Prod.fst =
        .ok (.tx (.done (.posted "daily" "m1" 1 [] [] [] [] []))) := by decide +kernel
  obtain ⟨⟨_, s⟩, hcall, rfl⟩ := map_eq_ok.mp hnote
  have hs : s = ThreadStore.step (fun _ => 100)
      (ThreadStore.step (fun _ => 100) .init (.create dailyThread))
      (.post (dailyNote "o1" "m1") fun _ => false) := by
    rw [ThreadStore.step, hcall]
  have hafter : Runs (ThreadStore.step fun _ => 100) s
      [.post (dailyNote "o2" "m2") fun _ => false] _ := .single trivial
  obtain ⟨⟨_, houtcome, -, hagain⟩, hcounts, -⟩ :=
    thread_operations_happen_once _ hbefore rfl hcall hafter
  cases houtcome
  subst hs
  exact ⟨hagain _ rfl (.post (dailyNote "o1" "m3") fun _ => false) "h" rfl,
    fun t ht => (hcounts t ht).1⟩

end Bridget.Threads
