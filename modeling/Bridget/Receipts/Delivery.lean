import Bridget.Receipts.Changes

/-!
# A delivery is injected at most once

A receipt is there before its delivery is injected and stays until the delivery has expired.
So whatever calls come and wherever a crash cuts them, a second injection would need a clock
that goes back.
-/

namespace Bridget.Receipts

open Foundation Durable ReceiptState List Option

variable {quota : ReceiptQuota} {request : ReceiptCall} {d d' : ReceiptDisk} {now : Int}
  {deliveryId : String} {entry : ReceiptEntry}

theorem file_of_find_absent (h : d.find deliveryId now = .absent) :
    d.file (entryPath deliveryId) = none := by
  unfold ReceiptDisk.find at h
  split at h
  · cases h
  · split at h
    next hfile => exact hfile
    next bytes _ => cases hparse : parseEntry bytes <;> rw [hparse] at h <;> cases h

theorem file_of_find_present (h : d.find deliveryId now = .present entry) :
    (d.file (entryPath deliveryId)).bind parseEntry = some entry := by
  unfold ReceiptDisk.find at h
  split at h
  · cases h
  split at h
  · cases h
  rename_i bytes hfile
  rw [hfile, bind_some]
  cases hparse : parseEntry bytes with
  | none =>
    rw [hparse] at h
    cases h
  | some =>
    rw [hparse] at h
    cases h
    rfl

theorem isI64_of_parseI64 {text : List Char} {value : Int} (h : parseI64 text = some value) :
    IsI64 value :=
  of_decide_eq_true (filter_eq_some_iff.mp h).2

theorem isI64_of_entry {name : String}
    (h : (d.file name).bind parseEntry = some entry) : IsI64 entry.expiresAt := by
  obtain ⟨_, -, hparse⟩ := bind_eq_some_iff.mp h
  obtain ⟨_, -, hlines⟩ := bind_eq_some_iff.mp hparse
  split at hlines
  · obtain ⟨_, hexpiry, hstate⟩ := bind_eq_some_iff.mp hlines
    have hrange := isI64_of_parseI64 hexpiry
    split at hstate
    · cases hstate
      exact hrange
    · split at hstate
      · cases hstate
        exact hrange
      · cases hstate
  · cases hlines

/-- Every delivery comes with its own expiry. -/
def ReceiptCall.Expires (expiry : String → Int) : ReceiptCall → Prop
  | .receive deliveryId expiresAt _ => expiresAt = expiry deliveryId
  | _ => True

instance (expiry : String → Int) (request : ReceiptCall) : Decidable (request.Expires expiry) :=
  match request with
  | .receive deliveryId expiresAt _ => inferInstanceAs (Decidable (expiresAt = expiry deliveryId))
  | .open | .acknowledge .. | .purgeExpired .. => .isTrue trivial

def ReceiptEvent.Expires (expiry : String → Int) : ReceiptEvent → Prop
  | .call request | .crash request _ => request.Expires expiry
  | .close => True

instance (expiry : String → Int) (event : ReceiptEvent) : Decidable (event.Expires expiry) :=
  match event with
  | .call request | .crash request _ => inferInstanceAs (Decidable (request.Expires expiry))
  | .close => .isTrue trivial

/-- Receipts say what was agreed on, and those of injected deliveries stay until they expire. -/
structure Kept (expiry : String → Int) (injected : List String) (clock : Int) (d : ReceiptDisk) :
    Prop where
  agreed : ∀ deliveryId entry, (d.file (entryPath deliveryId)).bind parseEntry = some entry →
    entry.expiresAt = expiry deliveryId
  lasting : ∀ deliveryId ∈ injected, d.file (entryPath deliveryId) = none →
    expiry deliveryId ≤ clock

variable {expiry : String → Int} {injected : List String} {clock : Int}

theorem Kept.reaches (h : Kept expiry injected clock d) (hreach : Reaches quota request d d')
    (hexpires : request.Expires expiry) (hpossible : ∀ now ∈ request.now, clock ≤ now)
    (hrange : ∀ deliveryId expiresAt now, request = .receive deliveryId expiresAt now →
      IsI64 expiresAt) : Kept expiry injected (request.now.getD clock) d' := by
  have hclock : clock ≤ request.now.getD clock := by
    cases hnow : request.now with
    | none => exact le_rfl
    | some now => exact hpossible now hnow
  constructor
  · intro deliveryId entry hentry
    obtain hsame | hwrites := hreach (entryPath deliveryId)
    · rw [hsame] at hentry
      exact h.agreed deliveryId entry hentry
    obtain ⟨_, expiresAt, now, howner, rfl, -, -, -, hafter⟩ |
      ⟨_, expiresAt, now, howner, rfl, hfind, hafter⟩ | ⟨listing, now, _, rfl, -, -, hafter⟩ :=
      hwrites.receipt (isMarker_entryPath deliveryId)
    · cases entryPath_injective howner
      rw [hafter, bind_some, parseEntry_serialize (hrange _ _ _ rfl)] at hentry
      cases hentry
      exact hexpires
    · cases entryPath_injective howner
      have hfound := file_of_find_present hfind
      have hexpiry : IsI64 expiresAt := isI64_of_entry hfound
      have hagreed : expiresAt = expiry deliveryId := h.agreed deliveryId _ hfound
      have hacked := @parseEntry_serialize (.acked expiresAt) hexpiry
      rw [hafter, bind_some, hacked] at hentry
      cases hentry
      exact hagreed
    · rw [hafter] at hentry
      cases hentry
  · intro deliveryId hinjected hfile
    obtain hsame | hwrites := hreach (entryPath deliveryId)
    · rw [hsame] at hfile
      exact (h.lasting deliveryId hinjected hfile).trans hclock
    rw [hfile] at hwrites
    obtain ⟨_, _, _, -, -, -, -, -, hafter⟩ | ⟨_, _, _, -, -, -, hafter⟩ |
      ⟨listing, now, entry, rfl, hentry, hexpired, -⟩ :=
      hwrites.receipt (isMarker_entryPath deliveryId)
    · cases hafter
    · cases hafter
    · rw [← h.agreed deliveryId entry hentry]
      exact hexpired

theorem hasAcked_iff :
    d.hasAcked deliveryId = true ↔
      ∃ expiresAt, (d.file (entryPath deliveryId)).bind parseEntry = some (.acked expiresAt) := by
  unfold ReceiptDisk.hasAcked
  split
  next hentry => simp [hentry]
  next hother => simpa using hother

/-- Only an acknowledgement makes a receipt say so. -/
theorem hasAcked_reaches (hreach : Reaches quota request d d') (hrange : ∀ deliveryId expiresAt now,
      request = .receive deliveryId expiresAt now → IsI64 expiresAt)
    (h : d'.hasAcked deliveryId = true) :
    d.hasAcked deliveryId = true ∨ ∃ now, request = .acknowledge deliveryId now := by
  obtain hsame | hwrites := hreach (entryPath deliveryId)
  · left
    rw [hasAcked_iff] at h ⊢
    rwa [← hsame]
  obtain ⟨_, hentry⟩ := hasAcked_iff.mp h
  obtain ⟨_, _, _, -, rfl, -, -, -, hafter⟩ | ⟨_, _, now, howner, rfl, -⟩ |
    ⟨_, _, _, -, -, -, hafter⟩ := hwrites.receipt (isMarker_entryPath deliveryId)
  · rw [hafter, bind_some, parseEntry_serialize (hrange _ _ _ rfl)] at hentry
    cases hentry
  · cases entryPath_injective howner
    exact .inr ⟨now, rfl⟩
  · rw [hafter] at hentry
    cases hentry

/-- Receipts are kept, injections do not repeat, and what is confirmed was acknowledged. -/
structure Sound (expiry : String → Int) (s : ReceiptState) : Prop where
  kept : Kept expiry s.injected s.clock s.disk
  once : s.injected.Nodup
  acknowledged : ∀ deliveryId, s.disk.hasAcked deliveryId = true → deliveryId ∈ s.acknowledged
  confirmed : s.confirmed ⊆ s.acknowledged

variable {s : ReceiptState} {event : ReceiptEvent}

theorem listed_of_possible (h : request.Possible s) : request.Listed := by
  cases request with
  | purgeExpired => exact h.2.nodup_iff.mpr (AList.keys_nodup _)
  | «open» => trivial
  | receive => trivial
  | acknowledge => trivial

theorem range_of_possible (h : request.Possible s) (deliveryId : String) (expiresAt now : Int)
    (hrequest : request = .receive deliveryId expiresAt now) : IsI64 expiresAt := by
  subst hrequest
  exact h.2

section

variable (s : ReceiptState)

section

variable (request : ReceiptCall)

theorem persisted_eq :
    ∃ more, s.persisted request = { s with acknowledged := s.acknowledged ++ more } := by
  have hsame : s = { s with acknowledged := s.acknowledged ++ [] } := by rw [append_nil]
  unfold persisted
  split
  next deliveryId _ =>
    split
    · exact ⟨[deliveryId], rfl⟩
    · exact ⟨[], hsame⟩
  · exact ⟨[], hsame⟩

@[simp] theorem persisted_disk : (s.persisted request).disk = s.disk := by
  obtain ⟨_, hmore⟩ := persisted_eq s request
  rw [hmore]

@[simp] theorem persisted_injected : (s.persisted request).injected = s.injected := by
  obtain ⟨_, hmore⟩ := persisted_eq s request
  rw [hmore]

@[simp] theorem told_disk (result : Except ReceiptError (Option ReceiptDecision)) :
    (s.told request result).disk = s.disk := by
  unfold told
  split <;> rfl

end

end

/-- A disk that a call may leave keeps what is sound. -/
theorem Sound.reaches (h : Sound expiry s) (hpossible : request.Possible s)
    (hexpires : request.Expires expiry) (hreach : Reaches quota request s.disk d') (opened : Bool) :
    Sound expiry ({ s with
      disk := d'
      opened
      clock := request.now.getD s.clock }.persisted request) := by
  have hrange := range_of_possible hpossible
  have hkept := h.kept.reaches hreach hexpires (fun now hnow => (hpossible.1 now hnow).2) hrange
  let s' : ReceiptState := { s with
    disk := d'
    opened
    clock := request.now.getD s.clock }
  have hacked : ∀ deliveryId, d'.hasAcked deliveryId = true →
      deliveryId ∈ (s'.persisted request).acknowledged := by
    intro deliveryId hd'
    obtain hbefore | ⟨_, rfl⟩ := hasAcked_reaches hreach hrange hd'
    · obtain ⟨_, hmore⟩ := persisted_eq s' request
      rw [hmore]
      exact mem_append_left _ (h.acknowledged deliveryId hbefore)
    · rw [persisted, if_pos hd']
      exact mem_append_right _ mem_cons_self
  obtain ⟨_, hmore⟩ := persisted_eq s' request
  rw [hmore] at hacked ⊢
  exact ⟨hkept, h.once, hacked, fun _ hc => mem_append_left _ (h.confirmed hc)⟩

theorem Sound.told {before : ReceiptState} {result : Except ReceiptError (Option ReceiptDecision)}
    (h : Sound expiry s) (hpossible : request.Possible before) (hexpires : request.Expires expiry)
    (hbefore : Sound expiry before) (hinjected : s.injected = before.injected)
    (hacknowledged : before.acknowledged ⊆ s.acknowledged)
    (htells : ∀ decision, result = .ok decision → Tells before.disk request decision s.disk) :
    Sound expiry (s.told request result) := by
  unfold ReceiptState.told
  split
  next deliveryId _ now =>
    obtain ⟨_, hfind, hfile⟩ := (htells _ rfl).1 rfl
    have hnew : deliveryId ∉ s.injected := by
      intro hmem
      rw [hinjected] at hmem
      have hexpired := hbefore.kept.lasting deliveryId hmem (file_of_find_absent hfind)
      have hclock := (hpossible.1 now rfl).2
      rw [← hexpires] at hexpired
      omega
    refine ⟨⟨h.kept.agreed, ?_⟩, ?_, h.acknowledged, h.confirmed⟩
    · intro other hother hgone
      obtain hold | hlast := mem_append.mp hother
      · exact h.kept.lasting other hold hgone
      · cases mem_singleton.mp hlast
        rw [hfile] at hgone
        cases hgone
    · exact h.once.append (nodup_singleton _) (disjoint_singleton.mpr hnew)
  next deliveryId _ _ =>
    obtain ⟨expiry, hfind⟩ := (htells _ rfl).2 rfl
    have hacked := hbefore.acknowledged deliveryId
      (hasAcked_iff.mpr ⟨expiry, file_of_find_present hfind⟩)
    refine ⟨h.kept, h.once, h.acknowledged, ?_⟩
    intro other hother
    obtain hold | hlast := mem_append.mp hother
    · exact h.confirmed hold
    · cases mem_singleton.mp hlast
      exact hacknowledged hacked
  · exact h

theorem disk_step (hpossible : event.Possible s) :
    (s.step quota event).disk = s.disk ∨
      ∃ request writes, (event = .call request ∨ event = .crash request writes) ∧
        Reaches quota request s.disk (s.step quota event).disk := by
  cases event with
  | close => exact .inl rfl
  | call request =>
    unfold step
    dsimp only
    split
    · exact .inl rfl
    · refine .inr ⟨request, 0, .inl rfl, ?_⟩
      rw [told_disk, persisted_disk]
      exact reaches_run (listed_of_possible hpossible)
  | crash request writes =>
    unfold step
    dsimp only
    split
    · exact .inl rfl
    · refine .inr ⟨request, writes, .inr rfl, ?_⟩
      rw [persisted_disk]
      exact reaches_crash (listed_of_possible hpossible) writes

theorem Sound.step (h : Sound expiry s) (hpossible : event.Possible s)
    (hexpires : event.Expires expiry) : Sound expiry (s.step quota event) := by
  cases event with
  | close => exact { h with }
  | call request =>
    unfold ReceiptState.step
    dsimp only
    split
    · exact h
    have hleaves : Leaves quota request s.disk (request.run quota) (Tells s.disk request) s.disk :=
      run_leaves (listed_of_possible hpossible)
    have hreach : Reaches quota request s.disk (request.run quota s.disk ()).disk :=
      reaches_run (listed_of_possible hpossible)
    have hsound := h.reaches hpossible hexpires hreach
      (s.opened || (request.run quota s.disk ()).result.toBool)
    obtain ⟨_, hmore⟩ := persisted_eq { s with
      disk := (request.run quota s.disk ()).disk
      opened := s.opened || (request.run quota s.disk ()).result.toBool
      clock := request.now.getD s.clock } request
    apply hsound.told hpossible hexpires h
    · rw [hmore]
    · rw [hmore]
      exact fun _ hmem => mem_append_left _ hmem
    · intro decision hdecision
      rw [hmore]
      exact (hleaves.returned decision hdecision).2
  | crash _ writes =>
    unfold ReceiptState.step
    dsimp only
    split
    · exact h
    · exact h.reaches hpossible hexpires (reaches_crash (listed_of_possible hpossible) writes) false

/-- Over a whole life of the receipts of an instance, crashes included, no delivery is injected
twice, and one that is answered as acknowledged was acknowledged before. -/
theorem deliveries_are_injected_once (quota : ReceiptQuota) (expiry : String → Int) (clock : Int)
    {events : List ReceiptEvent} {s : ReceiptState}
    (hrun : Run (ReceiptState.step quota) (fun s event => event.Possible s ∧ event.Expires expiry)
      (.start .empty clock) events s) :
    s.injected.Nodup ∧ s.confirmed ⊆ s.acknowledged := by
  have hsound : Sound expiry s := by
    apply hrun.invariant (Sound expiry)
    · exact fun _ _ hsound hadmits => hsound.step hadmits.1 hadmits.2
    · exact ⟨⟨nofun, nofun⟩, .nil, nofun, nofun⟩
  exact ⟨hsound.once, hsound.confirmed⟩

/-- A delivery whose acknowledgement is cut by a crash, and repeated after a restart. -/
def repeatedDelivery : List ReceiptEvent :=
  [.call .open, .call (.receive "d-1" 100 50), .crash (.acknowledge "d-1" 60) 1, .call .open,
    .call (.receive "d-1" 100 70), .call (.receive "d-2" 100 70)]

/-- A delivery that is sent again is answered and not injected again. -/
theorem repeated_delivery_is_injected_once :
    ∃ s, Run (ReceiptState.step .standard)
        (fun s event => event.Possible s ∧ event.Expires fun _ => 100)
        (.start .empty 0) repeatedDelivery s ∧
      s.injected = ["d-1", "d-2"] ∧ s.confirmed = ["d-1"] ∧
      s.injected.Nodup ∧ s.confirmed ⊆ s.acknowledged := by
  have hrun : Run (step .standard)
      (fun s event => event.Possible s ∧ event.Expires fun _ => 100)
      (.start .empty 0) repeatedDelivery _ := Run.of_allows (by decide +kernel)
  refine ⟨_, hrun, ?_, ?_, deliveries_are_injected_once .standard (fun _ => 100) 0 hrun⟩
  · decide +kernel
  · decide +kernel

end Bridget.Receipts
