import Bridget.Threads.Alerts

/-!
# What the operations do to what members read

Every operation but a read is a sequence of a few kinds of writes: a new thread, a new member, a
new entry, a confirmation, and writes that no reader sees. No delivery notices any of them, unless
the operation is a reservation or an outcome.
-/

namespace Bridget.Threads

open Foundation Relation Table

namespace ThreadStore

def numbers (s : ThreadStore) : List (String × Nat) :=
  s.threads.rows.map fun t => (t.threadId, t.lastSeq)

variable {s s' : ThreadStore} {threadId agentId : String}

theorem mem_numbers {last : Nat} :
    (threadId, last) ∈ s.numbers ↔ ∃ t ∈ s.threads, t.threadId = threadId ∧ t.lastSeq = last := by
  simp [numbers]

theorem numbers_unique {a b : Nat} (ha : (threadId, a) ∈ s.numbers)
    (hb : (threadId, b) ∈ s.numbers) : a = b := by
  obtain ⟨_, ht, htid, rfl⟩ := mem_numbers.mp ha
  obtain ⟨_, hu, huid, rfl⟩ := mem_numbers.mp hb
  rw [eq_of_conflicts ht hu (htid.trans huid.symm)]

variable (acks : String × String → String → Prop)

/-- One write, as the readers see it; `acks` says which receipts may be confirmed. -/
inductive ReadingStep (s s' : ThreadStore) : Prop
  | neutral (hnumbers : s'.numbers = s.numbers)
      (hmembers : s'.members = s.members) (hentries : s'.entries = s.entries)
      (hreads : s'.reads = s.reads)
  | thread {threadId : String} (hfresh : ∀ last, (threadId, last) ∉ s.numbers)
      (hnumbers : s'.numbers = s.numbers ++ [(threadId, 0)]) (hmembers : s'.members = s.members)
      (hentries : s'.entries = s.entries) (hreads : s'.reads = s.reads)
  | member {threadId agentId : String} {last : Nat}
      (hthread : (threadId, last) ∈ s.numbers)
      (hinsert : s.members.insert ⟨threadId, agentId, 0, none, none⟩ = .ok s'.members)
      (hnumbers : s'.numbers = s.numbers) (hentries : s'.entries = s.entries)
      (hreads : s'.reads = s.reads)
  | entry {entry : EntryRow} {last : Nat}
      (hlast : (entry.threadId, last) ∈ s.numbers) (hseq : entry.seq = last + 1)
      (hinsert : s.entries.insert entry = .ok s'.entries)
      (hnumbers : s'.numbers = s.numbers.map fun u =>
        if u.1 = entry.threadId then (u.1, last + 1) else u)
      (hmembers : s'.members = s.members) (hreads : s'.reads = s.reads)
  | ack {m : MemberRow} {active : ReadRow} {n : Nat} (hmember : m ∈ s.members)
      (hactive : active ∈ s.reads) (hkey : active.key = m.key)
      (hreceipt : acks m.key active.receiptId) (hbase : active.baseSeq = m.ackedSeq)
      (hmembers : s.members.update (fun x => x.key = m.key)
        (confirm active.receiptId active.throughSeq) = .ok (s'.members, n))
      (hreads : s'.reads = s.reads.delete fun r => r.key = m.key)
      (hnumbers : s'.numbers = s.numbers) (hentries : s'.entries = s.entries)

def ReadingSteps : ThreadStore → ThreadStore → Prop := ReflTransGen (ReadingStep acks)

def tallies (s : ThreadStore) : List (String × Nat × Nat) :=
  s.threads.rows.map fun t => (t.threadId, t.lastSeq, t.bodyBytes)

/-- One write, as the counters see it; `posts` says which thread may grow, and within which
limits. -/
inductive TallyStep (posts : String → ThreadLimits → Prop) (s s' : ThreadStore) : Prop
  | same (htallies : s'.tallies = s.tallies) (hentries : s'.entries = s.entries)
  | opened {threadId : String} (hfresh : ∀ t ∈ s.threads, t.threadId ≠ threadId)
      (htallies : s'.tallies = s.tallies ++ [(threadId, 0, 0)]) (hentries : s'.entries = s.entries)
  | posted {entry : EntryRow} {thread : ThreadRow} {limits : ThreadLimits}
      (hposts : posts entry.threadId limits)
      (hentries : thread.lastSeq + 1 ≤ limits.maxEntriesPerThread)
      (hbytes : thread.bodyBytes + entry.body.utf8ByteSize ≤ limits.maxBodyBytesPerThread)
      (hthread : s.loadThread entry.threadId = some thread)
      (hinsert : s.entries.insert entry = .ok s'.entries)
      (htallies : s'.tallies = s.tallies.map fun u => if u.1 = entry.threadId then
        (u.1, thread.lastSeq + 1, thread.bodyBytes + entry.body.utf8ByteSize) else u)

/-- One write, as the readers, the counters, the journal of operations and, if it is quiet, the
deliveries see it. -/
structure WriteStep (posts : String → ThreadLimits → Prop) (quiet : Prop) (s s' : ThreadStore) :
    Prop where
  reading : ReadingStep acks s s'
  keeps : quiet → KeepsDeliveries s s'
  tally : TallyStep posts s s'
  recorded : ∀ row ∈ s.operations, row ∈ s'.operations

def WriteSteps (posts : String → ThreadLimits → Prop) (quiet : Prop) :
    ThreadStore → ThreadStore → Prop :=
  ReflTransGen (WriteStep acks posts quiet)

variable {acks} {posts : String → ThreadLimits → Prop} {quiet : Prop}

theorem WriteSteps.keeps (h : WriteSteps acks posts quiet s s') (hquiet : quiet) :
    KeepsDeliveries s s' := by
  induction h with
  | refl => exact .of_eq rfl
  | tail _ hstep ih => exact ih.trans (hstep.keeps hquiet)

theorem recordOperation_step {row : OperationRow} (h : s.recordOperation row = .ok s') :
    WriteStep acks posts quiet s s' := by
  simp only [recordOperation, ok_iff, sqlite_eq_ok] at h
  obtain ⟨_, hinsert, rfl⟩ := h
  exact ⟨.neutral rfl rfl rfl rfl, fun _ => .of_eq rfl, .same rfl rfl,
    fun _ hrow => (mem_insert hinsert).mpr (.inl hrow)⟩

theorem updateWakes_step {p : WakeRow → Bool} {f : WakeRow → WakeRow} {one : Bool}
    (h : s.updateWakes p f = .ok (one, s'))
    (hkeeps : quiet → ∀ w ∈ s.wakes, p w = true → w.Quiet (f w)) :
    WriteStep acks posts quiet s s' := by
  simp only [updateWakes, ok_iff, sqlite_eq_ok, pair_iff] at h
  obtain ⟨_, _, hupdate, -, rfl⟩ := h
  exact ⟨.neutral rfl rfl rfl rfl, fun hquiet => .of_update hupdate (hkeeps hquiet),
    .same rfl rfl, fun _ => id⟩

theorem insertMembers_steps {last : Nat} {names : List String}
    (hthread : (threadId, last) ∈ s.numbers)
    (h : names.foldlM (fun s name => s.insertMember threadId name) s = .ok s') :
    WriteSteps acks posts quiet s s' ∧ s'.numbers = s.numbers := by
  apply foldlM_invariant
    (fun next => WriteSteps acks posts quiet s next ∧ next.numbers = s.numbers) ?_
    ⟨.refl, rfl⟩ h
  intro _ _ name _ ⟨hsteps, hnumbers⟩ hinsert
  simp only [insertMember, ok_iff, sqlite_eq_ok] at hinsert
  obtain ⟨_, hinsert, rfl⟩ := hinsert
  refine ⟨hsteps.tail ?_, hnumbers⟩
  exact ⟨.member (hnumbers ▸ hthread) hinsert rfl rfl rfl, fun _ => .of_eq rfl, .same rfl rfl,
    fun _ => id⟩

variable {outcome : ThreadTxOutcome} {thread : ThreadRow}

theorem threadCreate_steps {request : CreateThread}
    (h : s.threadCreate request = .ok (outcome, s')) : WriteSteps acks posts quiet s s' := by
  obtain ⟨rfl, -⟩ | ⟨threads, _, _, -, hinsert, hmembers, hrecord, -⟩ := threadCreate_cases h
  · exact .refl
  have hnumbers : ({ s with threads } : ThreadStore).numbers =
      s.numbers ++ [(request.threadId, 0)] := by
    simp [numbers, insert_rows hinsert]
  have hfresh : ∀ t ∈ s.threads, t.threadId ≠ request.threadId :=
    fun t ht => not_conflicts_of_insert hinsert ht
  have hcreated : WriteStep acks posts quiet s { s with threads } := by
    refine ⟨.thread ?_ hnumbers rfl rfl rfl, fun _ => .of_eq rfl, .opened hfresh ?_ rfl,
      fun _ => id⟩
    · intro _ hlast
      obtain ⟨t, ht, htid, -⟩ := mem_numbers.mp hlast
      exact hfresh t ht htid
    · simp [tallies, insert_rows hinsert]
  have hthread : (request.threadId, 0) ∈ ({ s with threads } : ThreadStore).numbers := by
    simp [hnumbers]
  exact ((ReflTransGen.single hcreated).trans (insertMembers_steps hthread hmembers).1).tail
    (recordOperation_step hrecord)

theorem number_of_loadThread (h : s.loadThread threadId = some thread) :
    (threadId, thread.lastSeq) ∈ s.numbers := by
  obtain ⟨hmem, hid⟩ := loadThread_eq_some.mp h
  exact mem_numbers.mpr ⟨thread, hmem, hid, rfl⟩

theorem threadClose_steps {request : CloseThread}
    (h : s.threadClose request = .ok (outcome, s')) : WriteSteps acks posts quiet s s' := by
  obtain ⟨rfl, -⟩ | ⟨threads, _, _, _, _, -, hthreads, hwakes, hrecord, -⟩ := threadClose_cases h
  · exact .refl
  -- closing sets a column that neither the numbering nor the counters see
  have hcolumns : ∀ {α : Type} (f : ThreadRow → α),
      (∀ t, f { t with closedAt := some request.now } = f t) →
        threads.rows.map f = s.threads.rows.map f := by
    intro α f hf
    rw [(update_rows hthreads).1, List.map_map]
    apply List.map_congr_left
    intro t _
    simp only [Function.comp_apply, rewrite]
    split
    · exact hf t
    · rfl
  refine (ReflTransGen.single ⟨.neutral (hcolumns _ fun _ => rfl) rfl rfl rfl, fun _ => ?_,
    .same (hcolumns _ fun _ => rfl) rfl, fun _ => id⟩).tail (recordOperation_step hrecord)
  · apply KeepsDeliveries.of_update hwakes
    intro _ _ hp
    obtain ⟨-, hactive, -⟩ := of_decide_eq_true hp
    exact WakeRow.quiet_of_thawed hactive (by simp [WakeState.Frozen])

variable {member : MemberRow} {receipt : String} {joined : Option String}

theorem satisfyWake_step {through : Nat} (h : s.satisfyWake threadId agentId through = .ok s') :
    WriteStep acks posts quiet s s' := by
  simp only [satisfyWake, ok_iff, sqlite_eq_ok, pair_iff] at h
  obtain ⟨_, _, hupdate, rfl⟩ := h
  refine ⟨.neutral rfl rfl rfl rfl, fun _ => .of_update hupdate ?_, .same rfl rfl, fun _ => id⟩
  intro _ _ hp
  obtain ⟨-, -, hactive, -⟩ := of_decide_eq_true hp
  exact WakeRow.quiet_of_thawed hactive (by simp [WakeState.Frozen])

section

variable (hmember : s.loadMember threadId agentId = some member)

include hmember

theorem applyAck_steps {applied : AckApplied} (hacks : acks (threadId, agentId) receipt)
    (h : s.applyAck threadId member receipt = .ok (applied, s')) :
    WriteSteps acks posts quiet s s' := by
  obtain ⟨hmem, hkey⟩ := loadMember_eq_some.mp hmember
  obtain ⟨rfl, -⟩ | ⟨_, _, _, hactive, rfl, hbase, -, hupdate, hsatisfy⟩ := applyAck_cases h
  · exact .refl
  have hname : (threadId, member.agentId) = member.key := by rw [hkey, ← (Prod.mk.inj hkey).2]
  obtain ⟨hread, hreader⟩ := loadRead_eq_some.mp hactive
  rw [hname] at hupdate hsatisfy hreader
  refine (ReflTransGen.single ?_).tail (satisfyWake_step hsatisfy)
  exact ⟨.ack hmem hread hreader (hkey ▸ hacks) hbase hupdate rfl rfl rfl, fun _ => .of_eq rfl,
    .same rfl rfl, fun _ => id⟩

end

variable {request : PostEntry} {targets : List String}

/-- A deposit within the limits in force. -/
structure Fits (posts : String → ThreadLimits → Prop) (s : ThreadStore) (request : PostEntry)
    (thread : ThreadRow) : Prop where
  stored : s.loadThread request.threadId = some thread
  posts : posts request.threadId request.limits
  entries : thread.lastSeq + 1 ≤ request.limits.maxEntriesPerThread
  bytes : thread.bodyBytes + request.body.utf8ByteSize ≤ request.limits.maxBodyBytesPerThread

theorem insertEntry_step (hfits : s.Fits posts request thread)
    (h : s.insertEntry request thread targets = .ok s') : WriteStep acks posts quiet s s' := by
  simp only [insertEntry, ok_iff, sqlite_eq_ok, pair_iff] at h
  obtain ⟨entries, hinsert, _, _, hupdate, rfl⟩ := h
  obtain ⟨hmem, hid⟩ := loadThread_eq_some.mp hfits.stored
  refine ⟨.entry (number_of_loadThread hfits.stored) rfl hinsert ?_ rfl rfl, fun _ => .of_eq rfl,
    .posted hfits.posts hfits.entries hfits.bytes hfits.stored hinsert ?_, fun _ => id⟩
  all_goals
    simp only [numbers, tallies, (update_rows hupdate).1, List.map_map]
    apply List.map_congr_left
    intro _ ht
    simp only [Function.comp_apply, rewrite]
    split
    next hp =>
      have hp := of_decide_eq_true hp
      simp [hid, eq_of_conflicts ht hmem (hp.trans hid.symm)]
    next hp => simp [of_decide_eq_false (Bool.eq_false_of_not_eq_true hp)]

theorem raiseWake_step {seq : Nat} (h : s.raiseWake threadId agentId seq = .ok s') :
    WriteStep acks posts quiet s s' := by
  have hkeeps := raiseWake_keeps h
  unfold raiseWake at h
  split at h
  all_goals
    simp only [ok_iff, sqlite_eq_ok, pair_iff] at h
  · obtain ⟨_, -, rfl⟩ := h
    exact ⟨.neutral rfl rfl rfl rfl, fun _ => hkeeps, .same rfl rfl, fun _ => id⟩
  · obtain ⟨_, _, -, rfl⟩ := h
    exact ⟨.neutral rfl rfl rfl rfl, fun _ => hkeeps, .same rfl rfl, fun _ => id⟩

variable {dormant : String → Bool}

theorem alerts_steps {seq : Nat} {wakes notices : List WakeNotice}
    (h : targets.foldlM (alert threadId seq dormant) (s, wakes) = .ok (s', notices)) :
    WriteSteps acks posts quiet s s' := by
  have hstart : WriteSteps acks posts quiet s (s, wakes).1 := .refl
  refine foldlM_invariant (fun acc => WriteSteps acks posts quiet s acc.1) ?_ hstart h
  intro acc _ _ _ hsteps halert
  unfold alert at halert
  split at halert
  · cases halert
    exact hsteps
  · simp only [ok_iff] at halert
    obtain ⟨_, hraise, _, -, rfl⟩ := halert
    exact hsteps.tail (raiseWake_step hraise)

theorem depositEntry_steps (hfits : s.Fits posts request thread)
    (h : s.depositEntry request thread targets dormant = .ok (outcome, s')) :
    WriteSteps acks posts quiet s s' := by
  simp only [depositEntry, ok_iff, pair_iff] at h
  obtain ⟨inserted, hinsert, _, _, halert, _, hrecord, -, rfl⟩ := h
  have hentry : WriteStep acks posts quiet s inserted := insertEntry_step hfits hinsert
  exact ((ReflTransGen.single hentry).trans (alerts_steps halert)).tail
    (recordOperation_step hrecord)

theorem joinAck_threads (h : s.joinAck threadId member joined = .ok (.ok s')) :
    s'.threads = s.threads := by
  obtain ⟨-, rfl⟩ | ⟨_, _, -, happly⟩ := joinAck_eq_ok h
  · rfl
  obtain ⟨rfl, -⟩ | ⟨_, _, _, -, -, -, -, -, hsatisfy⟩ := applyAck_cases happly
  · rfl
  · simp only [satisfyWake, ok_iff, sqlite_eq_ok, pair_iff] at hsatisfy
    obtain ⟨_, _, -, rfl⟩ := hsatisfy
    rfl

theorem threadPost_steps (hacks : ∀ receipt, request.ackReceipt = some receipt →
      acks (request.threadId, request.actor) receipt)
    (hposts : posts request.threadId request.limits)
    (h : s.threadPost request dormant = .ok (outcome, s')) : WriteSteps acks posts quiet s s' := by
  obtain ⟨rfl, -⟩ | ⟨thread, member, targets, hthread, hmember, ⟨rfl, -⟩ |
    ⟨acked, hjoin, hcapacity, hdeposit⟩⟩ := threadPost_cases h
  · exact .refl
  · exact .refl
  simp only [postCapacity, ok_iff] at hcapacity
  obtain ⟨_, hentries, _, hbytes, -⟩ := hcapacity
  have hstored : acked.loadThread request.threadId = some thread := by
    rw [loadThread, joinAck_threads hjoin]
    exact hthread
  have hsteps : WriteSteps acks posts quiet s acked := by
    obtain ⟨-, rfl⟩ | ⟨receipt, _, hjoined, happly⟩ := joinAck_eq_ok hjoin
    · exact .refl
    · exact applyAck_steps hmember (hacks receipt hjoined) happly
  exact hsteps.trans (depositEntry_steps ⟨hstored, hposts, hentries, hbytes⟩ hdeposit)

end ThreadStore

/-- The receipts that an operation may confirm, and for whom. -/
def ThreadOp.acks : ThreadOp → String × String → String → Prop
  | .ack actor threadId receipt, key, confirmed => key = (threadId, actor) ∧ confirmed = receipt
  | .post request _, key, confirmed =>
    key = (request.threadId, request.actor) ∧ request.ackReceipt = some confirmed
  | _, _, _ => False

/-- The thread that an operation may deposit in, and the limits in force. -/
def ThreadOp.posts : ThreadOp → String → ThreadLimits → Prop
  | .post request _, threadId, limits => request.threadId = threadId ∧ request.limits = limits
  | _, _, _ => False

def ThreadOp.isRead : ThreadOp → Bool
  | .read _ => true
  | _ => false

namespace ThreadStore

variable {size : PageEntry → Nat} {s s' : ThreadStore} {op : ThreadOp} {reply : ThreadReply}

theorem exec_writes (hread : op.isRead = false) (h : s.exec size op = .ok (reply, s')) :
    WriteSteps op.acks op.posts (op.delivers = false) s s' := by
  cases op
  case read => cases hread
  all_goals obtain ⟨_, h, -⟩ := map_fst_eq_ok.mp h
  case create => exact threadCreate_steps h
  case addMembers =>
    obtain ⟨rfl, -⟩ | ⟨_, _, _, _, -, hthread, hmembers, hrecord, -⟩ := threadAddMembers_cases h
    · exact .refl
    · exact (insertMembers_steps (number_of_loadThread hthread) hmembers).1.tail
        (recordOperation_step hrecord)
  case post => exact threadPost_steps (fun _ hreceipt => ⟨rfl, hreceipt⟩) ⟨rfl, rfl⟩ h
  case close => exact threadClose_steps h
  case ack =>
    obtain ⟨rfl, -⟩ | ⟨_, _, _, -, hmember, happly, -⟩ := threadAck_cases h
    · exact .refl
    · exact applyAck_steps hmember ⟨rfl, rfl⟩ happly
  case wakeReserve => exact .single (updateWakes_step h (by simp [ThreadOp.delivers]))
  case wakeDefer =>
    refine .single (updateWakes_step h fun _ w _ hp => ?_)
    exact WakeRow.quiet_of_thawed (of_decide_eq_true hp).2 (by simp [WakeState.Frozen])
  case wakeSettle outcome _ _ =>
    cases outcome <;> exact .single (updateWakes_step h (by simp [ThreadOp.delivers]))
  case wakesExpire =>
    refine .single (updateWakes_step h fun _ w _ hp => ?_)
    obtain ⟨hstate, -⟩ := of_decide_eq_true hp
    refine ⟨rfl, rfl, rfl, rfl, le_rfl, fun hw => ?_⟩
    -- the bound stays, and so does the freezing
    simpa [WakeRow.Consistent, WakeState.Frozen, hstate] using hw
  case sleep =>
    refine .single (updateWakes_step h fun _ w _ hp => ?_)
    exact WakeRow.quiet_of_thawed (of_decide_eq_true hp).2.1 (by simp [WakeState.Frozen])

theorem exec_cases (h : s.exec size op = .ok (reply, s')) :
    (∃ request outcome, op = .read request ∧ reply = .read outcome ∧
      s.threadRead size request = .ok (outcome, s')) ∨
    op.isRead = false ∧ ReadingSteps op.acks s s' := by
  cases hread : op.isRead with
  | false =>
    refine .inr ⟨rfl, ReflTransGen.mono (fun _ _ => WriteStep.reading) _ _ (exec_writes hread h)⟩
  | true =>
    cases op with
    | read request =>
      obtain ⟨outcome, hexec, rfl⟩ := map_fst_eq_ok.mp h
      exact .inl ⟨request, outcome, rfl, rfl, hexec⟩
    | _ => cases hread

theorem exec_keeps (hop : op.delivers = false) (h : s.exec size op = .ok (reply, s')) :
    s.KeepsDeliveries s' := by
  obtain ⟨_, _, -, -, hread⟩ | ⟨hread, -⟩ := exec_cases h
  · rcases threadRead_cases hread with ⟨rfl, -⟩ | ⟨rfl, -⟩ |
      ⟨_, _, _, -, -, -, ⟨rfl, -⟩ | ⟨_, -, -, -, rfl, -⟩⟩
    all_goals exact .of_eq rfl
  · exact (exec_writes hread h).keeps hop

end ThreadStore

end Bridget.Threads
