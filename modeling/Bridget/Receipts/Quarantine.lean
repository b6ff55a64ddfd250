import Bridget.Receipts.Delivery

/-!
# The end of a quarantine

A receipt that cannot be read puts the instance in quarantine, and a directory that cannot be
trusted does so for ever. Each writes the end of the quarantine anew; only the purge does so
without looking whether a later end is stored.
-/

namespace Bridget.Receipts

open Foundation Durable ReceiptState ReceiptDisk Option

def ReceiptDisk.deadline (d : ReceiptDisk) : Option Int :=
  (d.file quarantinePath).bind parseTimestamp

variable {quota : ReceiptQuota} {request : ReceiptCall} {d d' : ReceiptDisk}
  {now value endsAt : Int} {deliveryId : String}

theorem isI64_of_parseTimestamp {bytes : Bytes}
    (h : parseTimestamp bytes = some value) : IsI64 value := by
  obtain ⟨_, -, hvalue⟩ := bind_eq_some_iff.mp h
  exact isI64_of_parseI64 hvalue

theorem isI64_deadline (h : endsAt ∈ d.deadline) : IsI64 endsAt := by
  obtain ⟨_, -, hvalue⟩ := bind_eq_some_iff.mp h
  exact isI64_of_parseTimestamp hvalue

theorem isI64_saturatingAdd (a b : Int) : IsI64 (saturatingAdd a b) := by
  unfold IsI64 saturatingAdd i64Min i64Max
  omega

theorem isI64_max {a b : Int} (ha : IsI64 a) (hb : IsI64 b) : IsI64 (max a b) := by
  unfold IsI64 at *
  omega

theorem isI64_readMaxExpiresAt : IsI64 (d.readMaxExpiresAt.toOption.getD 0) := by
  unfold readMaxExpiresAt
  split
  · decide
  next bytes _ =>
    cases hparse : parseTimestamp bytes with
    | none => decide
    | some => exact isI64_of_parseTimestamp hparse

theorem isI64_quarantineUntil {expiresAt : Int} (h : IsI64 expiresAt) :
    IsI64 (d.quarantineUntil quota expiresAt now) :=
  isI64_max (isI64_max isI64_readMaxExpiresAt h) (isI64_saturatingAdd _ _)

/-- While a call finds the store open, the stored end has passed. -/
theorem deadline_le_of_find (h : d.find deliveryId now ≠ .closed)
    (hdeadline : endsAt ∈ d.deadline) : endsAt ≤ now := by
  obtain ⟨_, hfile, hvalue⟩ := bind_eq_some_iff.mp hdeadline
  unfold find at h
  split at h
  · exact absurd rfl h
  next hopen =>
    have hover : ¬ d.isQuarantined now = true := fun hquarantined => hopen (.inr hquarantined)
    simp only [isQuarantined, hfile, hvalue, all_some, test_iff, not_lt] at hover
    exact hover

/-- A damaged receipt is met only when no later end is stored than the one that is written.
An acknowledgement looks at the stored end first, so it matters there only if the horizon lies
in the past. -/
def ReceiptCall.Prolongs (quota : ReceiptQuota) (s : ReceiptState) : ReceiptCall → Prop
  | .purgeExpired listing now =>
    s.disk.directoryIsHealthy = true →
    (∃ name ∈ listing, isMarker name = false ∧ (s.disk.file name).bind parseEntry = none) →
      ∀ endsAt ∈ s.disk.deadline, endsAt ≤ max (s.disk.readMaxExpiresAt.toOption.getD 0)
          (saturatingAdd now quota.horizonMaxSecs)
  | .acknowledge deliveryId now =>
    quota.horizonMaxSecs < 0 → s.disk.find deliveryId now = .damaged → ∀ endsAt ∈ s.disk.deadline,
        endsAt ≤ max (s.disk.readMaxExpiresAt.toOption.getD 0)
          (saturatingAdd now quota.horizonMaxSecs)
  | _ => True

def ReceiptEvent.Prolongs (quota : ReceiptQuota) (s : ReceiptState) : ReceiptEvent → Prop
  | .call request | .crash request _ => request.Prolongs quota s
  | .close => True

/-- A stored end is followed by one that is no earlier. -/
def Extends (d d' : ReceiptDisk) : Prop :=
  ∀ endsAt ∈ d.deadline, ∃ endsAt' ∈ d'.deadline, endsAt ≤ endsAt'

theorem Extends.refl (d : ReceiptDisk) : Extends d d := fun endsAt h => ⟨endsAt, h, le_rfl⟩

theorem Extends.trans {d'' : ReceiptDisk} (h : Extends d d') (h' : Extends d' d'') :
    Extends d d'' := by
  intro endsAt hendsAt
  obtain ⟨middle, hmiddle, hle⟩ := h endsAt hendsAt
  obtain ⟨last, hlast, hle'⟩ := h' middle hmiddle
  exact ⟨last, hlast, hle.trans hle'⟩

variable {s : ReceiptState} {event : ReceiptEvent}

/-- Writing an end keeps it from moving forward if the stored one is no later. -/
theorem extends_of_timestamp (hvalue : IsI64 value)
    (hfile : d'.file quarantinePath = some (timestamp value))
    (hle : ∀ endsAt ∈ d.deadline, endsAt ≤ value) : Extends d d' := by
  intro endsAt hendsAt
  refine ⟨value, ?_, hle endsAt hendsAt⟩
  rw [mem_def, deadline, hfile, bind_some, parseTimestamp_timestamp hvalue]

theorem quarantineUntil_horizon :
    d.quarantineUntil quota (saturatingAdd now quota.horizonMaxSecs) now =
      max (d.readMaxExpiresAt.toOption.getD 0) (saturatingAdd now quota.horizonMaxSecs) := by
  rw [quarantineUntil, max_assoc, max_self]

theorem extends_of_reaches (hpossible : request.Possible s) (hprolongs : request.Prolongs quota s)
    (hreach : Reaches quota request s.disk d') : Extends s.disk d' := by
  obtain hsame | hwrites := hreach quarantinePath
  · intro endsAt hendsAt
    refine ⟨endsAt, ?_, le_rfl⟩
    rwa [mem_def, deadline, hsame]
  generalize hname : quarantinePath = name at hwrites
  generalize hafter : d'.file name = after at hwrites
  have hreceipt : isMarker name = true := by
    rw [← hname]
    decide
  cases hwrites with
  | sentinel => exact absurd hname (by decide)
  | permanent =>
    apply extends_of_timestamp (by decide) hafter
    exact fun endsAt hendsAt => (isI64_deadline hendsAt).2
  | received => cases hreceipt
  | receiptDamaged _ hfind =>
    apply extends_of_timestamp (isI64_quarantineUntil hpossible.2) hafter
    intro endsAt hendsAt
    have hpassed := deadline_le_of_find (by rw [hfind]; exact nofun) hendsAt
    unfold quarantineUntil
    omega
  | acknowledged => cases hreceipt
  | acknowledgementDamaged hfind =>
    apply extends_of_timestamp (isI64_quarantineUntil (isI64_saturatingAdd _ _)) hafter
    intro endsAt hendsAt
    -- only a horizon in the past can bring the end forward
    by_cases hhorizon : quota.horizonMaxSecs < 0
    · rw [quarantineUntil_horizon]
      exact hprolongs hhorizon hfind endsAt hendsAt
    · have hpassed := deadline_le_of_find (by rw [hfind]; exact nofun) hendsAt
      have hnow := (hpossible.1 _ rfl).1.2
      unfold quarantineUntil saturatingAdd i64Min i64Max at *
      omega
  | purged hfalse =>
    rw [hfalse] at hreceipt
    cases hreceipt
  | purgeDamaged hhealthy hlisted hfalse hdamaged =>
    apply extends_of_timestamp (isI64_quarantineUntil (isI64_saturatingAdd _ _)) hafter
    rw [quarantineUntil_horizon]
    exact hprolongs hhealthy ⟨_, hlisted, hfalse, hdamaged⟩

/-- For ever stays for ever. -/
theorem deadline_permanent (h : Extends d d') (hpermanent : d.deadline = some i64Max) :
    d'.deadline = some i64Max := by
  obtain ⟨_, hendsAt, hle⟩ := h i64Max hpermanent
  have hmax := (isI64_deadline hendsAt).2
  rwa [le_antisymm hle hmax]

theorem isQuarantined_permanent (h : d.deadline = some i64Max) (hnow : now < i64Max) :
    d.isQuarantined now = true := by
  obtain ⟨_, hfile, hvalue⟩ := bind_eq_some_iff.mp h
  simp [isQuarantined, hfile, hvalue, hnow]

theorem extends_step (hpossible : event.Possible s)
    (hprolongs : event.Prolongs quota s) : Extends s.disk (s.step quota event).disk := by
  obtain hsame | ⟨_, _, hevent, hreach⟩ := disk_step hpossible
  · rw [hsame]
    exact .refl _
  · rcases hevent with rfl | rfl <;> exact extends_of_reaches hpossible hprolongs hreach

/-- A quarantine without end admits nothing. -/
theorem injected_step (hpossible : event.Possible s)
    (hpermanent : s.disk.deadline = some i64Max) : (s.step quota event).injected = s.injected := by
  cases event with
  | close => rfl
  | crash =>
    unfold step
    dsimp only
    split
    · rfl
    · rw [persisted_injected]
  | call request =>
    have hleaves : Leaves quota request s.disk (request.run quota) (Tells s.disk request) s.disk :=
      run_leaves (listed_of_possible hpossible)
    unfold step
    dsimp only
    split
    · rfl
    rename_i hclosed
    generalize hresult : (request.run quota s.disk ()).result = result
    unfold told
    split
    next now =>
      obtain ⟨hnow, hfind, -⟩ := (hleaves.returned _ hresult).2.1 rfl
      have hquarantined : s.disk.isQuarantined now = true :=
        isQuarantined_permanent hpermanent (hnow.trans_le hpossible.2.2)
      rw [find, if_pos (.inr hquarantined)] at hfind
      cases hfind
    · rw [persisted_injected]
    · rw [persisted_injected]

/-- As long as no purge meets a damaged receipt under a later end, the end of a quarantine is
never brought forward, and an instance that is in quarantine for ever injects nothing more. -/
theorem quarantine_is_not_shortened (quota : ReceiptQuota) {before after : ReceiptState}
    {events : List ReceiptEvent}
    (hrun : Run (ReceiptState.step quota)
      (fun s event => event.Possible s ∧ event.Prolongs quota s) before events after) :
    (∀ endsAt ∈ before.disk.deadline, ∃ endsAt' ∈ after.disk.deadline, endsAt ≤ endsAt') ∧
      (before.disk.deadline = some i64Max →
        (∀ now < i64Max, after.disk.isQuarantined now = true) ∧
          after.injected = before.injected) := by
  have hextends : Extends before.disk after.disk := by
    apply hrun.relates (fun _ => True) fun s s' => Extends s.disk s'.disk
    · exact fun s => .refl s.disk
    · exact fun _ _ _ h h' => h.trans h'
    · exact fun _ _ _ _ => trivial
    · exact fun _ _ _ hadmits => extends_step hadmits.1 hadmits.2
    · trivial
  refine ⟨hextends, fun hpermanent => ⟨?_, ?_⟩⟩
  · intro now hnow
    exact isQuarantined_permanent (deadline_permanent hextends hpermanent) hnow
  apply hrun.relates (fun s => s.disk.deadline = some i64Max)
    fun s s' => s'.injected = s.injected
  · exact fun _ => rfl
  · exact fun _ _ _ h h' => h'.trans h
  · intro s event hstored hadmits
    exact deadline_permanent (extends_step hadmits.1 hadmits.2) hstored
  · exact fun s event hstored hadmits => injected_step hadmits.1 hstored
  · exact hpermanent

/-- A directory that was never enrolled, with a receipt that cannot be read. -/
def strayDirectory : ReceiptDisk :=
  { enrollment := none
    directory :=
      some ((AList.singleton maxExpiresPath (timestamp 0)).insert (entryPath "a") [0xff]) }

/-- Opened, the directory is in quarantine for ever, and it stays so when deliveries come. -/
theorem stray_directory_stays_locked :
    ∃ s, Run (ReceiptState.step .standard)
        (fun s event => event.Possible s ∧ event.Prolongs .standard s)
        ((ReceiptState.start strayDirectory 0).step .standard (.call .open))
        [.call (.receive "b" 900 800), .call (.receive "a" 900 800)] s ∧
      ((ReceiptState.start strayDirectory 0).step .standard (.call .open)).disk.deadline =
        some i64Max ∧
      (∀ now < i64Max, s.disk.isQuarantined now = true) ∧ s.injected = [] := by
  have hopened : ((start strayDirectory 0).step .standard (.call .open)).disk.deadline =
      some i64Max := by decide +kernel
  have hrun : Run (step .standard)
      (fun s event => event.Possible s ∧ event.Prolongs .standard s)
      ((start strayDirectory 0).step .standard (.call .open))
      [.call (.receive "b" 900 800), .call (.receive "a" 900 800)] _ :=
    .cons ⟨by decide +kernel, trivial⟩ (.cons ⟨by decide +kernel, trivial⟩ (.nil _))
  obtain ⟨hlocked, hnone⟩ := (quarantine_is_not_shortened .standard hrun).2 hopened
  exact ⟨_, hrun, hopened, hlocked, hnone.trans (by decide +kernel)⟩

/-- The purge of the same directory gives the quarantine an end, after which deliveries are
injected again. -/
theorem purge_ends_permanent_quarantine :
    let opened := (ReceiptState.start strayDirectory 0).step .standard (.call .open)
    let listing := [quarantinePath, maxExpiresPath, entryPath "a"]
    let purged := opened.step .standard (.call (.purgeExpired listing 1000))
    Run (ReceiptState.step .standard) (fun s event => event.Possible s) (.start strayDirectory 0)
        [.call .open, .call (.purgeExpired listing 1000), .call (.receive "b" 700000 605800)]
        (purged.step .standard (.call (.receive "b" 700000 605800))) ∧
      opened.disk.deadline = some i64Max ∧ purged.disk.deadline = some 605800 ∧
      (purged.step .standard (.call (.receive "b" 700000 605800))).injected = ["b"] := by
  refine ⟨Run.of_allows (by decide +kernel), ?_, ?_, ?_⟩
  · decide +kernel
  · decide +kernel
  · decide +kernel

end Bridget.Receipts
