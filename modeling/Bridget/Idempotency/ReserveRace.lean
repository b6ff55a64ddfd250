import Bridget.Idempotency.Agreement

/-!
# Concurrent reservations of one key

`reserve` is not a transaction: its lookup, its insertion and its second lookup are
separate statements, and the statements of other connections may come between them. Here
any number of connections reserve one key for the same envelope dates, statement by
statement, while the other operations run and expired records are purged. A call reads the
clock once, when it begins, so its insertion may come long after its lookup: a second
preparation is ruled out unless a purge takes the record in between.
-/

namespace Bridget.Idempotency

open Foundation Function List Store Table Option

/-- The key and the dates that all calls share. -/
structure Submission where
  key : IdempotencyKey
  (issuedAt horizonSecs : Int)
  issuedAt_ge : i64Min ≤ issuedAt := by decide

def Submission.expiry (submission : Submission) : Result Int :=
  reserveExpiry submission.issuedAt submission.horizonSecs

/-- The arguments of a call, with the clock as it reads it. -/
structure ReserveCall where
  canonicalBytes : Bytes
  (now issuedAtToleranceSecs : Int)
  now_le : now ≤ i64Max := by decide

/-- The next statement of a call. -/
inductive ReservePc where
  | select
  | insert (expiresAt : Int)
  | reselect

inductive ReserveProgress where
  | continues (pc : ReservePc)
  | returns (result : Result Reservation)

def ReservePc.remaining : ReservePc → Nat
  | .select => 3
  | .insert _ => 2
  | .reselect => 1

def ReserveProgress.remaining : ReserveProgress → Nat
  | .continues pc => pc.remaining
  | .returns _ => 0

namespace ReserveCall

variable (submission : Submission) (call : ReserveCall) (s : Store)

def guard : Result Unit :=
  reserveGuard call.canonicalBytes submission.issuedAt call.now call.issuedAtToleranceSecs

/-- One statement of `reserve`, with the code up to the next one. -/
def statement : ReservePc → ReserveProgress × Store
  | .select =>
    match s.replayExisting submission.key call.canonicalBytes call.now with
    | .error e => (.returns (.error e), s)
    | .ok (some replay) => (.returns (.ok replay), s)
    | .ok none =>
      match submission.expiry with
      | .error e => (.returns (.error e), s)
      | .ok expiresAt =>
        if expiresAt ≤ call.now then (.returns (.ok .idempotencyExpired), s)
        else (.continues (.insert expiresAt), s)
  | .insert expiresAt =>
    let (records, inserted) := s.records.insertOrIgnore
      (preparedRow submission.key call.canonicalBytes submission.issuedAt expiresAt)
    if inserted = 1 then (.returns (.ok (.prepared expiresAt)), { s with records })
    else (.continues .reselect, s)
  | .reselect =>
    (.returns do
      orError (← s.replayExisting submission.key call.canonicalBytes call.now) .missingRecord, s)

/-- Each statement brings the call closer to its return. -/
theorem statement_remaining (pc : ReservePc) :
    (call.statement submission s pc).1.remaining < pc.remaining := by
  cases pc with
  | select =>
    simp only [statement]
    repeat' split
    all_goals simp [ReserveProgress.remaining, ReservePc.remaining]
  | insert =>
    simp only [statement]
    split <;> simp [ReserveProgress.remaining, ReservePc.remaining]
  | reselect => exact Nat.zero_lt_one

/-- The statements of one call in a row. -/
def finish : Nat → ReservePc → Store → Option (Result Reservation × Store)
  | 0, _, _ => none
  | fuel + 1, pc, s =>
    match call.statement submission s pc with
    | (.returns result, s) => some (result, s)
    | (.continues pc, s) => finish fuel pc s

/-- Uninterrupted, the three statements are `reserve`. -/
theorem finish_eq_reserve (hguard : call.guard submission = .ok ()) :
    (call.finish submission 3 .select s).map (fun (result, s) => result.map (·, s)) =
      some (s.reserve submission.key call.canonicalBytes submission.issuedAt
        submission.horizonSecs call.now call.issuedAtToleranceSecs) := by
  unfold guard at hguard
  unfold reserve
  rw [hguard, ok_bind]
  simp only [finish, statement, Submission.expiry]
  cases hreplay : s.replayExisting submission.key call.canonicalBytes call.now with
  | error => rfl
  | ok replay =>
    cases replay with
    | some => rfl
    | none =>
      cases reserveExpiry submission.issuedAt submission.horizonSecs with
      | error => rfl
      | ok expiresAt =>
        simp only [ok_bind]
        by_cases hexpired : expiresAt ≤ call.now
        · simp only [hexpired, if_true]
          rfl
        simp only [hexpired, if_false]
        by_cases hinserted : (s.records.insertOrIgnore (preparedRow submission.key
            call.canonicalBytes submission.issuedAt expiresAt)).2 = 1
        · simp only [hinserted, if_true]
          rfl
        · simp only [hinserted, if_false, hreplay]
          rfl

end ReserveCall

/-- The tables, and the calls on all connections. -/
structure RaceState where
  store : Store
  /-- The largest reading of the clock among the calls and purges so far. -/
  clock : Int
  calls : Nat → Option (ReserveCall × ReservePc)
  /-- The calls that have returned, in the order in which they did. -/
  returned : List (ReserveCall × Result Reservation)
  created : Nat

inductive RaceLabel where
  | call (connection : Nat) (call : ReserveCall)
  | statement (connection : Nat)
  /-- The two statements of `purge_expired`. -/
  | purgeRecords (now : Int)
  | purgeQueueEdits (now : Int)
  | purgeExpiredSends (now grace : Int)
  | op (op : Op)

namespace RaceState

variable (env : Envelopes) (submission : Submission) (σ : RaceState)

def moveTo (s : Store) : RaceState :=
  { σ with
    store := s
    created := if σ.store.deliveryAt submission.key = none ∧ s.deliveryAt submission.key ≠ none
      then σ.created + 1 else σ.created }

def startCall (connection : Nat) (call : ReserveCall) : RaceState :=
  match σ.calls connection, call.guard submission with
  | some _, _ => σ
  | none, .error e => { σ with clock := call.now, returned := σ.returned ++ [(call, .error e)] }
  | none, .ok _ =>
    { σ with clock := call.now, calls := update σ.calls connection (some (call, .select)) }

def runStatement (connection : Nat) : RaceState :=
  match σ.calls connection with
  | none => σ
  | some (call, pc) =>
    let moved := σ.moveTo submission (call.statement submission σ.store pc).2
    match (call.statement submission σ.store pc).1 with
    | .continues pc => { moved with calls := update σ.calls connection (some (call, pc)) }
    | .returns result =>
      { moved with
        calls := update σ.calls connection none, returned := σ.returned ++ [(call, result)] }

def step : RaceLabel → RaceState
  | .call connection call => σ.startCall submission connection call
  | .statement connection => σ.runStatement submission connection
  | .purgeRecords now =>
    { σ.moveTo submission (σ.store.deleteRecords fun r => r.expiresAt ≤ now) with clock := now }
  | .purgeQueueEdits now => σ.moveTo submission (σ.store.purgeQueueEdits now)
  | .purgeExpiredSends now grace =>
    { σ.moveTo submission (σ.store.purgeExpiredSends now grace) with clock := now }
  | .op operation => σ.moveTo submission (σ.store.step env operation)

end RaceState

open RaceState

/-- The operations that run beside the reservations and the purges of the key. -/
def Op.Beside (key : IdempotencyKey) (s : Store) : Op → Prop
  | .reserve k .. => k ≠ key
  | .purgeExpired _ | .purgeExpiredSends .. => False
  | operation => operation.Admitted s

/-- Calls begin and purges run with a clock that never goes back; the statements of the calls
come in any order. -/
def RaceLabel.Timely (submission : Submission) (σ : RaceState) : RaceLabel → Prop
  | .call _ begun => σ.clock ≤ begun.now
  | .statement _ | .purgeQueueEdits _ => True
  | .purgeRecords now => σ.clock ≤ now
  | .purgeExpiredSends now grace => σ.clock ≤ now ∧ i64Min ≤ now ∧ 0 ≤ grace
  | .op operation => operation.Beside submission.key σ.store

def RaceLabel.purges : RaceLabel → RecordRow → Bool
  | .purgeRecords now, r => r.expiresAt ≤ now
  | .purgeExpiredSends now grace, r =>
    r.key.operationKind = .send && r.expiresAt ≤ saturatingSub now grace
  | _, _ => false

/-- The record of the key is not purged between the beginning of a call that finds it in time
and the insertion of that call. -/
def RaceLabel.Spares (submission : Submission) (σ : RaceState) (label : RaceLabel) : Prop :=
  ∀ r, σ.store.loadRecord submission.key = some r → label.purges r = true →
    ∀ connection call pc, σ.calls connection = some (call, pc) →
      pc = .reselect ∨ r.expiresAt ≤ call.now

/-- In time, and no purge comes between a call and its insertion. -/
def RaceLabel.Admitted (submission : Submission) (σ : RaceState) (label : RaceLabel) : Prop :=
  label.Timely submission σ ∧ label.Spares submission σ

/-- A delivery exists, or existed until its record was abandoned. -/
def Entry.Delivered : Entry → Prop
  | .live _ | .closed _ | .lost _ => True
  | _ => False

/-- Without a delivery and past its preparation, a key gets no delivery any more. -/
def Entry.Spent (e : Entry) : Prop := ¬ e.Delivered ∧ e ≠ .prepared

variable {a : Action} {e e' : Entry}

theorem Entry.Spent.step (h : e.Spent) (hstep : Entry.Step a e e')
    (ha : a ≠ .reserve) : e'.Spent := by
  cases hstep <;> simp_all [Entry.Spent, Entry.Delivered]

namespace Store

variable {s s' : Store} {key : IdempotencyKey} {e : Entry} {r : RecordRow}
  {permits : IdempotencyKey → Action → Prop}

theorem Reads.delivered_iff (h : s.Reads key e) : s.deliveryAt key ≠ none ↔ e.Delivered := by
  unfold Reads at h
  generalize s.loadRecord key = record at h
  generalize s.deliveryAt key = delivery at h
  cases h <;> simp [Entry.Delivered]

theorem Reads.absent_iff (h : s.Reads key e) : s.loadRecord key = none ↔ e = .absent := by
  unfold Reads at h
  generalize s.loadRecord key = record at h
  generalize s.deliveryAt key = delivery at h
  cases h <;> simp

theorem Reads.lookupResult (h : s.Reads key e) (hload : s.loadRecord key = some r) :
    ∃ result, r.lookupResult = .ok result := by
  apply RecordRow.Published.lookupResult
  intro hterminal
  have hcolumns : ∃ o : Outcome, r.result = o.columns := by
    unfold Reads at h
    rw [hload] at h
    generalize s.deliveryAt key = delivery at h
    cases h with
    | prepared hr | dispatching hr => simp [hterminal] at hr
    | concluded o _ hresult => exact ⟨o, hresult⟩
    | live _ hr => simp [hterminal] at hr
    | closed o _ hresult | lost o _ hresult => exact ⟨o, hresult⟩
  obtain ⟨o, ho⟩ := hcolumns
  cases o with
  | accepted => exact ⟨.accepted 0, ho⟩
  | rejected category reason => exact ⟨.rejected category reason, ho⟩
  | orphaned reason => exact ⟨.orphaned reason, ho⟩

theorem replayExisting_none {bytes : Bytes} {now : Int} (hload : s.loadRecord key = none) :
    s.replayExisting key bytes now = .ok none := by
  unfold replayExisting
  rw [hload]

theorem loadRecord_insertPrepared {records : Table RecordRow} {bytes : Bytes}
    {issuedAt expiresAt : Int}
    (hinsert : s.records.insert (preparedRow key bytes issuedAt expiresAt) = .ok records)
    (hnone : s.loadRecord key = none) :
    ({ s with records } : Store).loadRecord key
      = some (preparedRow key bytes issuedAt expiresAt) := by
  have hfind : s.records.find? (fun r => decide (r.key = key)) = none := hnone
  unfold loadRecord
  rw [find?_insert hinsert, hfind]
  simp [preparedRow]

theorem loadRecord_deleteRecords {p : RecordRow → Bool} (hload : s.loadRecord key = some r)
    (hp : p r = false) : (s.deleteRecords p).loadRecord key = some r := by
  have hfind : (s.deleteRecords p).loadRecord key = (s.loadRecord key).filter (fun r => !p r) :=
    find?_delete (pinsKey_record key)
  rw [hfind, hload]
  simp [hp]

section

variable (hfollows : Follows permits s s')

include hfollows

theorem Follows.record_none (hreserve : ¬ permits key .reserve)
    (hload : s.loadRecord key = none) : s'.loadRecord key = none := by
  by_contra hsome
  obtain ⟨r', hr'⟩ := ne_none_iff_exists'.mp hsome
  obtain ⟨_, hr, -⟩ := hfollows.keeps key r' hreserve hr'
  rw [hload] at hr
  cases hr

theorem Follows.record_some (hreads : s.Reads key e) (hreserve : ¬ permits key .reserve)
    (hpurge : ¬ permits key .purge) (hload : s.loadRecord key = some r) :
    ∃ r', s'.loadRecord key = some r' ∧ r'.envelope = r.envelope := by
  obtain ⟨e', hreads', hmoves⟩ := hfollows.moves key e hreads
  have hpresent : e ≠ .absent := by
    intro habsent
    rw [hreads.absent_iff.mpr habsent] at hload
    cases hload
  have hpresent' : e' ≠ .absent := by
    apply hmoves.invariant (P := fun e => e ≠ .absent) ?_ hpresent
    intro _ _ _ hpermits hstep _
    cases hstep <;> simp_all
  obtain ⟨r', hr'⟩ := ne_none_iff_exists'.mp (mt hreads'.absent_iff.mp hpresent')
  obtain ⟨r₀, hr₀, henvelope⟩ := hfollows.keeps key r' hreserve hr'
  cases hload.symm.trans hr₀
  exact ⟨r', hr', henvelope⟩

/-- Only a prepared key gets a delivery. -/
theorem Follows.creates (hreads : s.Reads key e) (hreserve : ¬ permits key .reserve)
    (hnone : s.deliveryAt key = none) (hsome : s'.deliveryAt key ≠ none) : e = .prepared := by
  by_contra hne
  obtain ⟨e', hreads', hmoves⟩ := hfollows.moves key e hreads
  have hspent : e.Spent := ⟨fun hdelivered => hreads.delivered_iff.mpr hdelivered hnone, hne⟩
  have hspent' : e'.Spent := by
    apply hmoves.invariant (P := Entry.Spent) ?_ hspent
    intro _ _ _ hpermits hstep he
    exact he.step hstep fun ha => hreserve (ha ▸ hpermits)
  exact hspent'.1 (hreads'.delivered_iff.mp hsome)

end

end Store

def isPrepared : ReserveCall × Result Reservation → Bool
  | (_, .ok (.prepared _)) => true
  | _ => false

namespace RaceState

variable {env : Envelopes} {submission : Submission} {σ σ' : RaceState} {s : Store}
  {call call' : ReserveCall} {result : Result Reservation}
  {returned : List (ReserveCall × Result Reservation)}
  {calls : Nat → Option (ReserveCall × ReservePc)} {connection : Nat} {pc : ReservePc}
  {now expiresAt : Int} {p : RecordRow → Bool} {permits : IdempotencyKey → Action → Prop}

def Prepared (σ : RaceState) : Prop := ∃ call ∈ σ.returned, isPrepared call = true

/-- The part of the invariant that the tables carry: the record of the key is the one that
was prepared, it leaves only when its time is over, and only a prepared key has not had its
delivery. -/
structure Kept (submission : Submission) (σ : RaceState) : Prop where
  reads : ∃ e, σ.store.Reads submission.key e ∧ (e = .prepared → σ.created = 0)
  untouched : ¬ σ.Prepared → σ.store.loadRecord submission.key = none ∧ σ.created = 0
  bounded : σ.created ≤ 1
  expiry : ∀ r, σ.store.loadRecord submission.key = some r → submission.expiry = .ok r.expiresAt
  holder : ∀ call expiresAt, (call, .ok (.prepared expiresAt)) ∈ σ.returned →
    submission.expiry = .ok expiresAt ∧ (∀ r, σ.store.loadRecord submission.key = some r →
        r.canonicalBytes = call.canonicalBytes) ∧
      (expiresAt ≤ σ.clock ∨ (σ.store.loadRecord submission.key).isSome = true)

section

variable (h : σ.Kept submission)

include h

section

variable (hfollows : Store.Follows permits σ.store s)

include hfollows

section

variable (hreserve : ¬ permits submission.key .reserve)

include hreserve

theorem Kept.created_moveTo :
    (∃ e, s.Reads submission.key e ∧ (e = .prepared → (σ.moveTo submission s).created = 0)) ∧
      (¬ σ.Prepared → (σ.moveTo submission s).created = 0) ∧
      (σ.moveTo submission s).created ≤ 1 := by
  obtain ⟨e, hreads, hprepared⟩ := h.reads
  obtain ⟨e', hreads', hmoves⟩ := hfollows.moves _ e hreads
  unfold moveTo
  split
  next hnew =>
    have he : e = .prepared := hfollows.creates hreads hreserve hnew.1 hnew.2
    rw [hprepared he]
    refine ⟨⟨e', hreads', ?_⟩, ?_, le_refl 1⟩
    · rintro rfl
      exact absurd (hreads'.delivered_iff.mp hnew.2) id
    · intro huntouched
      rw [he] at hreads
      have habsent := hreads.absent_iff.mp (h.untouched huntouched).1
      cases habsent
  · refine ⟨⟨e', hreads', ?_⟩, fun huntouched => (h.untouched huntouched).2, h.bounded⟩
    rintro rfl
    apply hprepared
    by_contra hne
    apply absurd rfl (hmoves.invariant (P := fun e => e ≠ .prepared) ?_ hne)
    intro _ _ _ hpermits hstep _
    cases hstep <;> simp_all

/-- The record of the key stays, or its time is over. -/
theorem Kept.moves (hclock : σ.clock ≤ now)
    (hstays : ∀ r, σ.store.loadRecord submission.key = some r →
      r.expiresAt ≤ now ∨ (s.loadRecord submission.key).isSome = true) :
    Kept submission { σ.moveTo submission s with clock := now } := by
  obtain ⟨hreads', hcreated, hbounded⟩ := h.created_moveTo hfollows hreserve
  refine ⟨hreads', ?_, hbounded, ?_, ?_⟩
  · intro huntouched
    exact ⟨hfollows.record_none hreserve (h.untouched huntouched).1, hcreated huntouched⟩
  · intro r' hr'
    obtain ⟨r, hr, henvelope⟩ := hfollows.keeps _ r' hreserve hr'
    have hsame : r'.expiresAt = r.expiresAt := congrArg RecordEnvelope.expiresAt henvelope
    rw [h.expiry r hr, hsame]
  intro call expiresAt hreturned
  obtain ⟨hexpiry, hbytes, hover⟩ := h.holder call expiresAt hreturned
  refine ⟨hexpiry, ?_, ?_⟩
  · intro r' hr'
    obtain ⟨r, hr, henvelope⟩ := hfollows.keeps _ r' hreserve hr'
    exact (congrArg RecordEnvelope.canonicalBytes henvelope).trans (hbytes r hr)
  rcases hover with hover | hstored
  · exact .inl (hover.trans hclock)
  · obtain ⟨r, hr⟩ := isSome_iff_exists.mp hstored
    have hsame : expiresAt = r.expiresAt := Except.ok.inj (hexpiry.symm.trans (h.expiry r hr))
    exact (hstays r hr).imp_left fun hover => hsame ▸ hover

theorem Kept.follows
    (hpurge : ¬ permits submission.key .purge) : (σ.moveTo submission s).Kept submission := by
  obtain ⟨_, hreads, -⟩ := h.reads
  refine h.moves hfollows hreserve (le_refl σ.clock) fun _ hr => .inr ?_
  obtain ⟨_, hr', -⟩ := hfollows.record_some hreads hreserve hpurge hr
  exact isSome_of_eq_some hr'

end

end

/-- A purge takes only records whose time is over. -/
theorem Kept.purge (hclock : σ.clock ≤ now) (hp : ∀ r, p r = true → r.expiresAt ≤ now) :
    Kept submission { σ.moveTo submission (σ.store.deleteRecords p) with clock := now } := by
  refine h.moves (deleteRecords_follows p) (by simp [purging]) hclock ?_
  intro r hr
  cases hpurged : p r with
  | true => exact .inl (hp r hpurged)
  | false => exact .inr (isSome_of_eq_some (loadRecord_deleteRecords hr hpurged))

/-- A statement that reads, and a call that returns something else than a preparation. -/
theorem Kept.reads_only (hclock : σ.clock ≤ now)
    (hreturned : ∀ call, isPrepared call = true → (call ∈ returned ↔ call ∈ σ.returned)) :
    Kept submission { σ with clock := now, calls, returned } := by
  refine ⟨h.reads, ?_, h.bounded, h.expiry, ?_⟩
  · intro huntouched
    apply h.untouched
    rintro ⟨call, hcall, hprepared⟩
    exact huntouched ⟨call, (hreturned call hprepared).mpr hcall, hprepared⟩
  · intro call expiresAt hcall
    obtain ⟨hexpiry, hbytes, hheld⟩ := h.holder call expiresAt ((hreturned _ rfl).mp hcall)
    exact ⟨hexpiry, hbytes, hheld.imp_left fun hover => hover.trans hclock⟩

theorem Kept.insert {records : Table RecordRow} (hexpiry : submission.expiry = .ok expiresAt)
    (hinsert : σ.store.records.insert (preparedRow submission.key call.canonicalBytes
      submission.issuedAt expiresAt) = .ok records) (huntouched : ¬ σ.Prepared) :
    Kept submission
      { σ.moveTo submission { σ.store with records } with
        calls, returned := σ.returned ++ [(call, .ok (.prepared expiresAt))] } := by
  obtain ⟨hnone, hcreated⟩ := h.untouched huntouched
  obtain ⟨_, hreads, -⟩ := h.reads
  -- without a record, nothing was delivered under the key either
  obtain ⟨rfl, hdelivery⟩ := reads_absent hreads hnone
  have hload := loadRecord_insertPrepared hinsert hnone
  have hsame : (σ.moveTo submission { σ.store with records }).created = 0 := by
    unfold moveTo
    rw [if_neg (fun hnew => hnew.2 hdelivery), hcreated]
  have hreads' : ({ σ.store with records } : Store).Reads submission.key .prepared := by
    unfold Store.Reads
    rw [hload]
    have hstill : ({ σ.store with records } : Store).deliveryAt submission.key = none := hdelivery
    rw [hstill]
    exact .prepared rfl
  refine ⟨⟨.prepared, hreads', fun _ => hsame⟩, ?_, ?_, ?_, ?_⟩
  · intro hnot
    exact absurd ⟨(call, .ok (.prepared expiresAt)), mem_append_right _
      (mem_singleton.mpr rfl), rfl⟩ hnot
  · rw [hsame]
    exact Nat.zero_le 1
  · intro r hr
    cases hload.symm.trans hr
    exact hexpiry
  · intro _ _ hfirst
    rcases mem_append.mp hfirst with hbefore | hnow
    · exact absurd ⟨_, hbefore, rfl⟩ huntouched
    simp only [mem_singleton, Prod.mk.injEq, Except.ok.injEq, Reservation.prepared.injEq]
      at hnow
    obtain ⟨rfl, rfl⟩ := hnow
    refine ⟨hexpiry, ?_, .inr (isSome_of_eq_some hload)⟩
    intro r hr
    cases hload.symm.trans hr
    rfl

end

/-- Once the key is prepared, a call that finds it in time finds its record. -/
def Held (submission : Submission) (σ : RaceState) (call : ReserveCall) : Prop :=
  ∀ expiresAt, σ.Prepared → submission.expiry = .ok expiresAt → call.now < expiresAt →
    (σ.store.loadRecord submission.key).isSome = true

/-- Until its time is over, the record of a prepared key is there. -/
theorem Kept.held (h : σ.Kept submission) (hclock : σ.clock ≤ call.now) :
    σ.Held submission call := by
  rintro expiresAt ⟨⟨first, _⟩, hfirst, hwas⟩ hexpiry hlive
  unfold isPrepared at hwas
  split at hwas
  next expiresAt' heq =>
    cases heq
    obtain ⟨hexpiry', -, hheld⟩ := h.holder first expiresAt' hfirst
    cases hexpiry.symm.trans hexpiry'
    exact hheld.resolve_left (by omega)
  · cases hwas

/-- What a call in progress relies on. -/
def Pending (submission : Submission) (σ : RaceState) (call : ReserveCall) : ReservePc → Prop
  | .select => σ.Held submission call
  | .insert expiresAt =>
    σ.Held submission call ∧ submission.expiry = .ok expiresAt ∧ call.now < expiresAt
  | .reselect => ∃ expiresAt, submission.expiry = .ok expiresAt ∧ call.now < expiresAt

/-- What a call whose arguments pass the checks answers after the time of the key. -/
def Told (submission : Submission) (call : ReserveCall) (result : Result Reservation) : Prop :=
  ∀ expiresAt, call.guard submission = .ok () → submission.expiry = .ok expiresAt →
    expiresAt ≤ call.now → result = .ok .idempotencyExpired

/-- The invariant of a race. -/
structure Sound (submission : Submission) (σ : RaceState) : Prop where
  kept : σ.Kept submission
  once : σ.returned.countP isPrepared ≤ 1
  pending : ∀ connection call pc, σ.calls connection = some (call, pc) →
    call.guard submission = .ok () ∧ σ.Pending submission call pc
  told : ∀ entry ∈ σ.returned, Told submission entry.1 entry.2

/-- What a lookup that finds the record answers: that its time is over, and within its time
whether the bytes are those of the call that prepared the key. -/
theorem Kept.replay_found (h : σ.Kept submission) (call : ReserveCall) {r : RecordRow}
    (hload : σ.store.loadRecord submission.key = some r) :
    ∃ replay, σ.store.replayExisting submission.key call.canonicalBytes call.now
        = .ok (some replay) ∧ isPrepared (call, .ok replay) = false ∧
      Told submission call (.ok replay) ∧ (call.now < r.expiresAt → ∀ first expiresAt,
        (first, .ok (.prepared expiresAt)) ∈ σ.returned →
        (call.canonicalBytes ≠ first.canonicalBytes → replay = .envelopeMismatch) ∧
        (call.canonicalBytes = first.canonicalBytes → ∃ found, replay = .replayed found)) := by
  obtain ⟨_, hreads, -⟩ := h.reads
  obtain ⟨found, hfound⟩ := hreads.lookupResult hload
  have hexpiry := h.expiry r hload
  unfold replayExisting
  rw [hload]
  dsimp only
  by_cases hexpired : r.expiresAt ≤ call.now
  · rw [if_pos hexpired]
    exact ⟨.idempotencyExpired, rfl, rfl, fun _ _ _ _ => rfl, fun hlive => by omega⟩
  rw [if_neg hexpired]
  have htold (replay : Reservation) : Told submission call (.ok replay) := by
    intro expiresAt _ hexpiry' hover
    cases hexpiry.symm.trans hexpiry'
    exact absurd hover hexpired
  -- a call that prepared the key left these very bytes
  have hbytes : ∀ first expiresAt, (first, .ok (.prepared expiresAt)) ∈ σ.returned →
      r.canonicalBytes = first.canonicalBytes := fun first expiresAt hfirst =>
    (h.holder first expiresAt hfirst).2.1 r hload
  by_cases hsame : r.canonicalBytes = call.canonicalBytes
  · rw [if_neg (not_not.mpr hsame), hfound]
    refine ⟨.replayed found, rfl, rfl, htold _, fun _ first expiresAt hfirst => ?_⟩
    refine ⟨fun hne => absurd ?_ hne, fun _ => ⟨found, rfl⟩⟩
    rw [← hsame, hbytes first expiresAt hfirst]
  · rw [if_pos hsame]
    refine ⟨.envelopeMismatch, rfl, rfl, htold _, fun _ first expiresAt hfirst => ?_⟩
    refine ⟨fun _ => rfl, fun heq => absurd ?_ hsame⟩
    rw [heq, hbytes first expiresAt hfirst]

theorem Pending.mono (h : σ.Pending submission call pc)
    (hheld : pc ≠ .reselect → σ.Held submission call → σ'.Held submission call) :
    σ'.Pending submission call pc := by
  cases pc with
  | select => exact hheld nofun h
  | insert => exact ⟨hheld nofun h.1, h.2⟩
  | reselect => exact h

theorem Held.mono (h : σ.Held submission call) (hprepared : σ'.Prepared → σ.Prepared)
    (hstays : (σ.store.loadRecord submission.key).isSome = true →
      (σ'.store.loadRecord submission.key).isSome = true) : σ'.Held submission call :=
  fun expiresAt hwas hexpiry hlive => hstays (h expiresAt (hprepared hwas) hexpiry hlive)

theorem Sound.returns (h : σ.Sound submission) (hkept : σ'.Kept submission)
    (hreturned : σ'.returned = σ.returned ++ [(call, result)])
    (hcalls : ∀ connection entry, σ'.calls connection = some entry →
      σ.calls connection = some entry)
    (hheld : ∀ call, σ.Held submission call → σ'.Held submission call)
    (hfirst : isPrepared (call, result) = true → ¬ σ.Prepared)
    (htold : Told submission call result) : σ'.Sound submission := by
  refine ⟨hkept, ?_, ?_, ?_⟩
  · rw [hreturned, countP_append, countP_singleton]
    have hone := h.once
    split
    next hprepared =>
      have hzero : σ.returned.countP isPrepared = 0 := by
        apply countP_eq_zero.mpr
        intro entry hentry hwas
        exact hfirst hprepared ⟨entry, hentry, hwas⟩
      omega
    · omega
  · intro connection call' pc hcall
    obtain ⟨hguard, hpending⟩ := h.pending connection call' pc (hcalls _ _ hcall)
    exact ⟨hguard, hpending.mono fun _ => hheld call'⟩
  · rw [hreturned]
    intro entry hentry
    rcases mem_append.mp hentry with hold | hnew
    · exact h.told entry hold
    · cases mem_singleton.mp hnew
      exact htold

theorem update_calls {connection' : Nat} {entry : Option (ReserveCall × ReservePc)}
    {found : ReserveCall × ReservePc} (h : update calls connection entry connection' = some found) :
    calls connection' = some found ∨ entry = some found := by
  by_cases hsame : connection' = connection
  · subst hsame
    rw [update_self] at h
    exact .inr h
  · rw [update_of_ne hsame] at h
    exact .inl h

section

variable (h : σ.Sound submission)

include h

/-- Nothing returns; the calls in progress are the old ones, or one of them goes on. -/
theorem Sound.continues (hkept : σ'.Kept submission) (hreturned : σ'.returned = σ.returned)
    (hcalls : ∀ connection call pc, σ'.calls connection = some (call, pc) →
      (σ.calls connection = some (call, pc) ∧ (pc ≠ .reselect → σ.Held submission call →
        σ'.Held submission call)) ∨
        call.guard submission = .ok () ∧ σ'.Pending submission call pc) : σ'.Sound submission := by
  refine ⟨hkept, ?_, ?_, ?_⟩
  · rw [hreturned]
    exact h.once
  · intro connection call pc hcall
    rcases hcalls connection call pc hcall with ⟨hold, hheld⟩ | hnew
    · obtain ⟨hguard, hpending⟩ := h.pending connection call pc hold
      exact ⟨hguard, hpending.mono hheld⟩
    · exact hnew
  · rw [hreturned]
    exact h.told

/-- The record of the key stays where it is. -/
theorem Sound.follows (hfollows : Store.Follows permits σ.store s)
    (hreserve : ¬ permits submission.key .reserve) (hpurge : ¬ permits submission.key .purge) :
    (σ.moveTo submission s).Sound submission := by
  obtain ⟨_, hreads, -⟩ := h.kept.reads
  refine h.continues (h.kept.follows hfollows hreserve hpurge) rfl
    fun _ _ _ hcall => .inl ⟨hcall, fun _ hheld => hheld.mono id ?_⟩
  intro hstored
  obtain ⟨_, hr⟩ := isSome_iff_exists.mp hstored
  obtain ⟨_, hr', -⟩ := hfollows.record_some hreads hreserve hpurge hr
  exact isSome_of_eq_some hr'

theorem Sound.op {operation : Op} (hbeside : operation.Beside submission.key σ.store) :
    (σ.step env submission (.op operation)).Sound submission := by
  have hadmitted : operation.Admitted σ.store := by
    cases operation <;> first | exact hbeside | exact trivial
  have hpermits : ¬ operation.permits σ.store submission.key .reserve ∧
      ¬ operation.permits σ.store submission.key .purge := by
    cases operation <;>
      simp_all [Op.permits, Op.Beside, only, QueueOp.permits, QueueOp.moves, eq_comm]
  exact h.follows (step_follows env hadmitted) hpermits.1 hpermits.2

/-- A purge takes only what is over, and nothing that a call on its way to its insertion still
finds in time. -/
theorem Sound.purge (hclock : σ.clock ≤ now) (hp : ∀ r, p r = true → r.expiresAt ≤ now)
    (hspares : ∀ r, σ.store.loadRecord submission.key = some r → p r = true →
      ∀ connection call pc, σ.calls connection = some (call, pc) →
        pc = .reselect ∨ r.expiresAt ≤ call.now) :
    Sound submission { σ.moveTo submission (σ.store.deleteRecords p) with clock := now } := by
  refine h.continues (h.kept.purge hclock hp) rfl fun connection call pc hcall => .inl ⟨hcall, ?_⟩
  intro hpc hheld expiresAt hprepared hexpiry hlive
  obtain ⟨r, hr⟩ := isSome_iff_exists.mp (hheld expiresAt hprepared hexpiry hlive)
  cases hpurged : p r with
  | true =>
    have hover := (hspares r hr hpurged connection call pc hcall).resolve_left hpc
    cases hexpiry.symm.trans (h.kept.expiry r hr)
    omega
  | false => exact isSome_of_eq_some (loadRecord_deleteRecords hr hpurged)

theorem Sound.returns_only (hclock : σ.clock ≤ now)
    (hcalls : ∀ connection entry, calls connection = some entry →
      σ.calls connection = some entry) (hlookup : isPrepared (call, result) = false)
    (htold : Told submission call result) :
    Sound submission
      { σ with clock := now, calls, returned := σ.returned ++ [(call, result)] } := by
  have hsame : ∀ entry, isPrepared entry = true →
      (entry ∈ σ.returned ++ [(call, result)] ↔ entry ∈ σ.returned) := by
    intro entry hentry
    simp only [mem_append, mem_singleton]
    refine ⟨fun hmem => hmem.resolve_right ?_, .inl⟩
    rintro rfl
    rw [hlookup] at hentry
    cases hentry
  refine h.returns (h.kept.reads_only hclock hsame) rfl hcalls (fun _ hheld => ?_)
    (by simp [hlookup]) htold
  refine hheld.mono ?_ id
  rintro ⟨entry, hentry, hprepared⟩
  exact ⟨entry, (hsame entry hprepared).mp hentry, hprepared⟩

theorem Sound.startCall (connection : Nat) (call : ReserveCall) (hclock : σ.clock ≤ call.now) :
    (σ.startCall submission connection call).Sound submission := by
  unfold RaceState.startCall
  split
  · exact h
  next hguard =>
    refine h.returns_only hclock (fun _ _ hcall => hcall) rfl ?_
    intro _ hok
    rw [hguard] at hok
    cases hok
  next hguard =>
    refine h.continues (h.kept.reads_only hclock fun _ _ => Iff.rfl) rfl ?_
    intro _ _ _ hcall
    rcases update_calls hcall with hold | hnew
    · exact .inl ⟨hold, fun _ hheld => hheld⟩
    · cases hnew
      exact .inr ⟨hguard, h.kept.held hclock⟩

omit h in
theorem moveTo_self : σ.moveTo submission σ.store = σ := by
  unfold moveTo
  rw [if_neg (fun hnew => hnew.2 hnew.1)]

theorem Sound.returns_lookup (hlookup : isPrepared (call, result) = false)
    (htold : Told submission call result) :
    Sound submission
      { σ.moveTo submission σ.store with
        calls := update σ.calls connection none
        returned := σ.returned ++ [(call, result)] } := by
  rw [moveTo_self]
  refine h.returns_only (le_refl σ.clock) ?_ hlookup htold
  intro _ _ hentry
  exact (update_calls hentry).resolve_right (by simp)

theorem Sound.continues_call (hguard : call.guard submission = .ok ())
    (hpending : σ.Pending submission call pc) :
    Sound submission
      { σ.moveTo submission σ.store with
        calls := update σ.calls connection (some (call, pc)) } := by
  rw [moveTo_self]
  refine h.continues (h.kept.reads_only (le_refl σ.clock) fun _ _ => Iff.rfl) rfl ?_
  intro _ _ _ hcall
  rcases update_calls hcall with hold | hnew
  · exact .inl ⟨hold, fun _ hheld => hheld⟩
  · cases hnew
    exact .inr ⟨hguard, hpending⟩

theorem Sound.select (hcall : σ.calls connection = some (call, .select)) :
    (σ.runStatement submission connection).Sound submission := by
  obtain ⟨hguard, hheld⟩ := h.pending connection call .select hcall
  unfold runStatement
  rw [hcall]
  cases hload : σ.store.loadRecord submission.key with
  | some =>
    obtain ⟨_, hreplay, hlookup, htold, -⟩ := h.kept.replay_found call hload
    simp only [ReserveCall.statement, hreplay]
    exact h.returns_lookup hlookup htold
  | none =>
    cases hexpiry : submission.expiry with
    | error =>
      simp only [ReserveCall.statement, replayExisting_none hload, hexpiry]
      refine h.returns_lookup rfl ?_
      intro expiresAt _ hok
      rw [hexpiry] at hok
      cases hok
    | ok expiresAt =>
      simp only [ReserveCall.statement, replayExisting_none hload, hexpiry]
      by_cases hexpired : expiresAt ≤ call.now
      · simp only [hexpired, if_true]
        exact h.returns_lookup rfl fun _ _ _ _ => rfl
      · simp only [hexpired, if_false]
        exact h.continues_call hguard ⟨hheld, hexpiry, not_le.mp hexpired⟩

theorem Sound.insert (hcall : σ.calls connection = some (call, .insert expiresAt)) :
    (σ.runStatement submission connection).Sound submission := by
  obtain ⟨hguard, hheld, hexpiry, hlive⟩ := h.pending connection call (.insert expiresAt) hcall
  unfold runStatement
  rw [hcall]
  simp only [ReserveCall.statement]
  by_cases hinserted : (σ.store.records.insertOrIgnore (preparedRow submission.key
      call.canonicalBytes submission.issuedAt expiresAt)).2 = 1
  · simp only [hinserted, if_true]
    have hinsert := insertOrIgnore_inserted hinserted
    -- had the key been prepared before, its record would still be there
    have huntouched : ¬ σ.Prepared := by
      intro hprepared
      obtain ⟨_, hr⟩ := isSome_iff_exists.mp (hheld expiresAt hprepared hexpiry hlive)
      obtain ⟨hmem, hkey⟩ := loadRecord_eq_some.mp hr
      exact not_conflicts_of_insert hinsert hmem hkey
    refine h.returns (h.kept.insert hexpiry hinsert huntouched) rfl ?_ ?_ (fun _ => huntouched) ?_
    · intro _ _ hentry
      exact (update_calls hentry).resolve_right (by simp)
    · intro _ _ _ _ _ _
      exact isSome_of_eq_some (loadRecord_insertPrepared hinsert (h.kept.untouched huntouched).1)
    · intro expiresAt' _ hok _
      cases hexpiry.symm.trans hok
      omega
  · simp only [hinserted, if_false]
    exact h.continues_call hguard ⟨expiresAt, hexpiry, hlive⟩

theorem Sound.reselect (hcall : σ.calls connection = some (call, .reselect)) :
    (σ.runStatement submission connection).Sound submission := by
  obtain ⟨-, expiresAt, hexpiry, hlive⟩ := h.pending connection call .reselect hcall
  unfold runStatement
  rw [hcall]
  cases hload : σ.store.loadRecord submission.key with
  | some =>
    obtain ⟨_, hreplay, hlookup, htold, -⟩ := h.kept.replay_found call hload
    simp only [ReserveCall.statement, hreplay]
    exact h.returns_lookup hlookup htold
  | none =>
    -- a purge has taken the record since the insertion was refused
    simp only [ReserveCall.statement, replayExisting_none hload]
    refine h.returns_lookup rfl ?_
    intro expiresAt' _ hok hover
    cases hexpiry.symm.trans hok
    omega

theorem Sound.step {label : RaceLabel}
    (hadmitted : label.Admitted submission σ) : (σ.step env submission label).Sound submission := by
  obtain ⟨htimely, hspares⟩ := hadmitted
  cases label with
  | call connection call => exact h.startCall connection call htimely
  | statement connection =>
    cases hcall : σ.calls connection with
    | none =>
      have hidle : σ.step env submission (.statement connection) = σ := by
        simp only [RaceState.step, RaceState.runStatement, hcall]
      rwa [hidle]
    | some entry =>
      obtain ⟨call, pc⟩ := entry
      cases pc with
      | select => exact h.select hcall
      | insert => exact h.insert hcall
      | reselect => exact h.reselect hcall
  | purgeRecords => exact h.purge htimely (fun r hr => by simpa using hr) hspares
  | purgeQueueEdits now =>
    have hsame : Store.Follows (only submission.key .start) σ.store
        (σ.store.purgeQueueEdits now) := Store.Follows.of_eq rfl rfl
    exact h.follows hsame (by simp [only]) (by simp [only])
  | purgeExpiredSends =>
    obtain ⟨hclock, hrange, hgrace⟩ := htimely
    refine h.purge hclock ?_ hspares
    intro r hr
    simp only [test_iff] at hr
    refine hr.2.trans ?_
    unfold saturatingSub i64Max i64Min at *
    omega
  | op => exact h.op htimely

/-- A call that looks the key up within its time, after another call has prepared it, is told
whether its bytes are the same. -/
theorem Sound.lookup_answers (hcall : σ.calls connection = some (call, pc))
    (hlook : pc = .select ∨ pc = .reselect ∧ σ.store.loadRecord submission.key ≠ none)
    {first : ReserveCall} (hfirst : (first, .ok (.prepared expiresAt)) ∈ σ.returned)
    (hlive : call.now < expiresAt) :
    ∃ result, (σ.runStatement submission connection).returned = σ.returned ++ [(call, .ok result)] ∧
      (call.canonicalBytes ≠ first.canonicalBytes → result = .envelopeMismatch) ∧
      (call.canonicalBytes = first.canonicalBytes → ∃ found, result = .replayed found) := by
  obtain ⟨hexpiry, -, -⟩ := h.kept.holder first expiresAt hfirst
  obtain ⟨-, hpending⟩ := h.pending connection call pc hcall
  have hstored : (σ.store.loadRecord submission.key).isSome = true := by
    rcases hlook with rfl | ⟨-, hsome⟩
    · exact hpending expiresAt ⟨_, hfirst, rfl⟩ hexpiry hlive
    · exact isSome_iff_ne_none.mpr hsome
  obtain ⟨r, hload⟩ := isSome_iff_exists.mp hstored
  obtain ⟨replay, hreplay, -, -, hanswer⟩ := h.kept.replay_found call hload
  cases hexpiry.symm.trans (h.kept.expiry r hload)
  refine ⟨replay, ?_, hanswer hlive first _ hfirst⟩
  unfold runStatement
  rw [hcall]
  rcases hlook with rfl | ⟨rfl, -⟩
  · simp only [ReserveCall.statement, hreplay]
  · simp only [ReserveCall.statement, hreplay]
    rfl

end

def remaining (σ : RaceState) (connection : Nat) : Nat :=
  match σ.calls connection with
  | none => 0
  | some (_, pc) => pc.remaining

theorem remaining_runStatement (connection : Nat) :
    (σ.runStatement submission connection).remaining connection ≤ σ.remaining connection - 1 := by
  cases hcall : σ.calls connection with
  | none => simp [runStatement, remaining, hcall]
  | some entry =>
    obtain ⟨call, pc⟩ := entry
    have hless := call.statement_remaining submission σ.store pc
    unfold runStatement
    rw [hcall]
    cases hprogress : (call.statement submission σ.store pc).1 with
    | continues =>
      rw [hprogress] at hless
      simp only [remaining, hprogress, hcall, update_self]
      exact Nat.le_sub_one_of_lt hless
    | returns => simp [remaining, hprogress]

/-- Three statements of its own end any call. -/
theorem call_returns (connection : Nat) :
    ((replicate 3 (RaceLabel.statement connection)).foldl (step env submission)
      σ).calls connection = none := by
  have hzero : ((replicate 3 (RaceLabel.statement connection)).foldl
      (step env submission) σ).remaining connection = 0 := by
    have hone (σ : RaceState) :
        (σ.step env submission (.statement connection)).remaining connection
          ≤ σ.remaining connection - 1 := remaining_runStatement connection
    have hbound : σ.remaining connection ≤ 3 := by
      unfold remaining
      split
      · exact Nat.zero_le 3
      next pc _ => cases pc <;> simp [ReservePc.remaining]
    simp only [replicate, foldl_cons, foldl_nil]
    have hfirst := hone σ
    have hsecond := hone (σ.step env submission (.statement connection))
    have hthird := hone ((σ.step env submission (.statement connection)).step env submission
        (.statement connection))
    omega
  unfold remaining at hzero
  split at hzero
  next hnone => exact hnone
  next pc _ => cases pc <;> cases hzero

/-- No one has touched the key yet. -/
structure Fresh (submission : Submission) (σ : RaceState) : Prop where
  record : σ.store.loadRecord submission.key = none
  delivery : σ.store.deliveryAt submission.key = none
  calls : σ.calls = fun _ => none
  returned : σ.returned = []
  created : σ.created = 0

theorem Fresh.sound (h : σ.Fresh submission) : σ.Sound submission := by
  have hnone : ∀ entry, entry ∉ σ.returned := by
    rw [h.returned]
    exact fun _ => not_mem_nil
  refine ⟨⟨⟨.absent, ?_, fun _ => h.created⟩, fun _ => ⟨h.record, h.created⟩, ?_, ?_, ?_⟩,
    ?_, ?_, ?_⟩
  · unfold Store.Reads
    rw [h.record, h.delivery]
    exact .absent
  · rw [h.created]
    exact Nat.zero_le 1
  · intro _ hr
    rw [h.record] at hr
    cases hr
  · intro call _ hcall
    exact absurd hcall (hnone _)
  · rw [h.returned]
    exact Nat.zero_le 1
  · intro _ call _ hcall
    rw [h.calls] at hcall
    cases hcall
  · exact fun entry hentry => absurd hentry (hnone entry)

end RaceState

/-- The sizes and dates that `reserve` accepts. -/
def ReserveCall.Accepted (submission : Submission) (call : ReserveCall) : Prop :=
  call.canonicalBytes.length ≤ maxCanonicalBytes ∧
    submission.issuedAt ≤ saturatingAdd call.now (max call.issuedAtToleranceSecs 0)

theorem ReserveCall.Accepted.guard {submission : Submission} {call : ReserveCall}
    (h : call.Accepted submission) : call.guard submission = .ok () := by
  simp only [ReserveCall.guard, reserveGuard, validateCanonicalBytes, ok_iff]
  exact ⟨(), h⟩

/-- A send key is prepared at most once and gets at most one delivery, whatever the order of
the statements, as long as no purge takes its record between the beginning of a call and the
insertion of that call. A call that looks the key up once it is prepared is told whether its
bytes are the same, and a call that begins after its time is told that it expired. -/
theorem send_key_prepared_at_most_once {env : Envelopes} {submission : Submission}
    {σ₀ σ : RaceState} {labels : List RaceLabel} (hfresh : σ₀.Fresh submission)
    (hrun : Run (RaceState.step env submission) (fun σ label => label.Admitted submission σ)
      σ₀ labels σ) :
    σ.returned.countP isPrepared ≤ 1 ∧ σ.created ≤ 1 ∧
      (∀ connection call, σ.calls connection = none → call.Accepted submission →
        (σ.step env submission (.call connection call)).calls connection
          = some (call, .select)) ∧
      (∀ connection call pc first expiresAt, σ.calls connection = some (call, pc) →
        (pc = .select ∨ pc = .reselect ∧ σ.store.loadRecord submission.key ≠ none) →
        (first, .ok (.prepared expiresAt)) ∈ σ.returned →
        call.now < submission.issuedAt + submission.horizonSecs →
          ∃ result, (σ.step env submission (.statement connection)).returned
              = σ.returned ++ [(call, .ok result)] ∧
            (call.canonicalBytes ≠ first.canonicalBytes → result = .envelopeMismatch) ∧
            (call.canonicalBytes = first.canonicalBytes →
              ∃ found, result = .replayed found)) ∧
      (∀ call result, (call, result) ∈ σ.returned →
        call.canonicalBytes.length ≤ maxCanonicalBytes → 0 < submission.horizonSecs →
        submission.issuedAt + submission.horizonSecs ≤ call.now →
          result = .ok .idempotencyExpired) ∧
      ∀ connection, ((List.replicate 3 (RaceLabel.statement connection)).foldl
        (RaceState.step env submission) σ).calls connection = none := by
  have hsound : σ.Sound submission :=
    Run.invariant (RaceState.Sound submission) hrun (fun _ _ h hadmitted => h.step hadmitted)
      hfresh.sound
  refine ⟨hsound.once, hsound.kept.bounded, ?_, ?_, ?_, fun _ => call_returns _⟩
  · intro connection call hidle haccepted
    simp [RaceState.step, RaceState.startCall, hidle, haccepted.guard]
  · intro connection call pc first expiresAt hcall hlook hfirst hlive
    obtain ⟨hexpiry, -, -⟩ := hsound.kept.holder first expiresAt hfirst
    simp only [Submission.expiry, reserveExpiry, ok_iff, checkedAdd_eq_some] at hexpiry
    obtain ⟨-, -, -, -, hsum⟩ := hexpiry
    exact hsound.lookup_answers hcall hlook hfirst (hsum ▸ hlive)
  · intro call result hmem hsize hhorizon hover
    have hissued := submission.issuedAt_ge
    have hnow := call.now_le
    have haccepted : call.Accepted submission := by
      refine ⟨hsize, ?_⟩
      unfold saturatingAdd i64Max i64Min at *
      omega
    have hexpiry : submission.expiry = .ok (submission.issuedAt + submission.horizonSecs) := by
      simp only [Submission.expiry, reserveExpiry, ok_iff, checkedAdd_eq_some]
      exact ⟨(), hhorizon, by omega, by omega, trivial⟩
    exact hsound.told _ hmem _ haccepted.guard hexpiry hover

/-- A submission issued at the second 10, as seen from a clock that is a little behind. -/
def earlySubmission : Submission := ⟨⟨"issuer_scope_0123456789", .send, "k1"⟩, 10, 100, by decide⟩

def raceInit : RaceState :=
  { store := .init, clock := 0, calls := fun _ => none, returned := [], created := 0 }

/-- Two connections look the key up before either inserts; then it expires and is purged. -/
def racedRun : List RaceLabel :=
  [.call 0 ⟨[1], 5, 5, by decide⟩, .call 1 ⟨[2], 5, 5, by decide⟩, .statement 0, .statement 1,
    .statement 1, .statement 0, .statement 0, .purgeRecords 110, .call 0 ⟨[1], 111, 0, by decide⟩,
    .statement 0]

/-- Three calls in a race: one prepares, one has other bytes, one is too late. -/
theorem raced_run_prepares_once :
    let σ := racedRun.foldl (RaceState.step sampleEnvelopes earlySubmission) raceInit
    σ.returned.map Prod.snd
        = [.ok (.prepared 110), .ok .envelopeMismatch, .ok .idempotencyExpired] ∧
      σ.returned.countP isPrepared ≤ 1 := by
  intro σ
  obtain ⟨σ', hrun⟩ : ∃ σ', Run (step sampleEnvelopes earlySubmission)
      (fun σ label => label.Admitted earlySubmission σ) raceInit racedRun σ' := by
    have hspares {σ : RaceState} {label : RaceLabel} (hnone : label.purges = fun _ => false) :
        label.Spares earlySubmission σ := by
      intro _ _ hpurged
      rw [hnone] at hpurged
      cases hpurged
    refine ⟨_, .cons ⟨?_, hspares rfl⟩ (.cons ⟨?_, hspares rfl⟩ (.cons ⟨trivial, hspares rfl⟩
      (.cons ⟨trivial, hspares rfl⟩ (.cons ⟨trivial, hspares rfl⟩ (.cons ⟨trivial, hspares rfl⟩
      (.cons ⟨trivial, hspares rfl⟩ (.cons ⟨?_, ?_⟩ (.cons ⟨?_, hspares rfl⟩
      (.cons ⟨trivial, hspares rfl⟩ (.nil _))))))))))⟩
    · exact (by decide : (0 : Int) ≤ 5)
    · exact (by decide : (5 : Int) ≤ 5)
    · exact (by decide : (5 : Int) ≤ 110)
    · -- both calls have returned before the purge
      intro _ _ _ connection _ _ hcall
      match connection with
      | 0 | 1 => cases hcall
      | _ + 2 => cases hcall
    · exact (by decide : (110 : Int) ≤ 111)
  have hfresh : raceInit.Fresh earlySubmission := ⟨rfl, rfl, rfl, rfl, rfl⟩
  have honce := (send_key_prepared_at_most_once hfresh hrun).1
  rw [hrun.eq_foldl] at honce
  exact ⟨by decide, honce⟩

/-- A call that began at the second 5 inserts after the record of another call has expired and
was purged. -/
def staleRun : List RaceLabel :=
  [.call 0 ⟨[1], 5, 5, by decide⟩, .statement 0, .call 1 ⟨[2], 6, 5, by decide⟩, .statement 1,
    .statement 1, .purgeRecords 110, .statement 0]

/-- A purge between the lookup and the insertion of a call lets the key be prepared twice. And
the checks of the arguments come first: a call with another envelope and a date ahead of its
clock, and a call with an empty horizon, are refused before the record is compared. -/
theorem stale_insert_prepares_again :
    (∃ σ, Run (RaceState.step sampleEnvelopes earlySubmission)
        (fun σ label => label.Timely earlySubmission σ) raceInit staleRun σ ∧
      σ.returned.map Prod.snd = [.ok (.prepared 110), .ok (.prepared 110)]) ∧
    (([.call 0 ⟨[1], 5, 5, by decide⟩, .statement 0, .statement 0, .call 1 ⟨[2], 6, 0, by decide⟩] :
        List RaceLabel).foldl (RaceState.step sampleEnvelopes earlySubmission)
        raceInit).returned.map Prod.snd
      = [.ok (.prepared 110), .error .invalidIssuedAt] ∧
    (([.call 0 ⟨[1], 10, 0, by decide⟩, .statement 0] : List RaceLabel).foldl
        (RaceState.step sampleEnvelopes { earlySubmission with horizonSecs := 0 })
        raceInit).returned.map Prod.snd
      = [.error .invalidHorizon] := by
  refine ⟨⟨_, .cons (by decide : (0 : Int) ≤ 5) (.cons trivial (.cons (by decide : (5 : Int) ≤ 6)
    (.cons trivial (.cons trivial (.cons (by decide : (6 : Int) ≤ 110)
    (.cons trivial (.nil _))))))), by decide⟩, by decide, by decide⟩

end Bridget.Idempotency
