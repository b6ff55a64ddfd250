import Bridget.Receipts.Delivery

/-!
# Receipts and their quota

A receipt grows by a byte when it is acknowledged. Admission counts the receipts as they are,
so that the quota holds later only if there is room for all of them to grow.
-/

namespace Bridget.Receipts

open Foundation Durable ReceiptDisk ReceiptEntry List

variable {quota : ReceiptQuota} {request : ReceiptCall} {d d' : ReceiptDisk} {name : String}

namespace ReceiptDisk

def names (d : ReceiptDisk) : Finset String := (d.receipts.map Prod.fst).toFinset

theorem file_of_mem_receipts {stored : String × Bytes} (h : stored ∈ d.receipts) :
    d.file stored.1 = some stored.2 := by
  obtain ⟨hstored, -⟩ := mem_filter.mp h
  obtain ⟨_, hentry, rfl⟩ := mem_map.mp hstored
  unfold file
  cases hdirectory : d.directory with
  | none =>
    rw [hdirectory] at hentry
    cases hentry
  | some =>
    rw [hdirectory] at hentry
    exact AList.mem_lookup_iff.mpr hentry

theorem mem_names : name ∈ d.names ↔ isMarker name = false ∧ d.file name ≠ none := by
  rw [names, mem_toFinset]
  constructor
  · intro hname
    obtain ⟨_, hstored, rfl⟩ := mem_map.mp hname
    refine ⟨by simpa using (mem_filter.mp hstored).2, ?_⟩
    rw [file_of_mem_receipts hstored]
    exact Option.some_ne_none _
  · rintro ⟨hreceipt, hfile⟩
    obtain ⟨bytes, hbytes⟩ := Option.ne_none_iff_exists'.mp hfile
    obtain ⟨files, hdirectory, hlookup⟩ := Option.bind_eq_some_iff.mp hbytes
    have hentry : ⟨name, bytes⟩ ∈ files.entries := AList.mem_lookup_iff.mp hlookup
    refine mem_map.mpr ⟨(name, bytes), mem_filter.mpr ⟨?_, by simpa using hreceipt⟩, rfl⟩
    rw [hdirectory]
    exact mem_map.mpr ⟨_, hentry, rfl⟩

theorem nodup_names : (d.receipts.map Prod.fst).Nodup := by
  have hkeys : ((d.directory.getD ∅).entries.map fun stored => stored.1).Nodup := AList.keys_nodup _
  have hall : (((d.directory.getD ∅).entries.map fun stored => (stored.1, stored.2)).map
      Prod.fst).Nodup := by
    rwa [map_map]
  exact hall.sublist (filter_sublist.map _)

theorem sum_receipts (weight : Bytes → Nat) :
    (d.receipts.map fun stored => weight stored.2).sum =
      ∑ name ∈ d.names, weight ((d.file name).getD []) := by
  rw [names, sum_toFinset _ nodup_names, map_map]
  congr 1
  apply map_congr_left
  intro stored hstored
  rw [Function.comp_apply, file_of_mem_receipts hstored]
  rfl

theorem length_receipts : d.receipts.length = d.names.card := by
  rw [names, toFinset_card_of_nodup nodup_names, length_map]

end ReceiptDisk

/-- What a receipt takes once it is acknowledged. -/
def grownLength (bytes : Bytes) : Nat :=
  (parseEntry bytes).elim bytes.length fun entry => (acked entry.expiresAt).serialize.length

def ReceiptDisk.grownBytes (d : ReceiptDisk) : Nat :=
  (d.receipts.map fun stored => grownLength stored.2).sum

theorem grownLength_serialize {entry : ReceiptEntry} (h : IsI64 entry.expiresAt) :
    grownLength entry.serialize = (acked entry.expiresAt).serialize.length := by
  rw [grownLength, parseEntry_serialize h]
  rfl

theorem length_serialize_le (entry : ReceiptEntry) :
    entry.serialize.length ≤ (acked entry.expiresAt).serialize.length := by
  cases entry with
  | acked => exact le_rfl
  | seen =>
    have hwords : (utf8 "seen\n").length ≤ (utf8 "acked\n").length := by decide +kernel
    simp only [ReceiptEntry.serialize, ReceiptEntry.expiresAt, utf8_append, length_append]
    omega

/-- Every receipt is one that the store has written. -/
def Whole (d : ReceiptDisk) : Prop :=
  ∀ name bytes, d.file name = some bytes → isMarker name = false →
    ∃ entry, bytes = serialize entry ∧ IsI64 entry.expiresAt

theorem Whole.reaches (h : Whole d) (hreach : Reaches quota request d d')
    (hrange : ∀ deliveryId expiresAt now, request = .receive deliveryId expiresAt now →
      IsI64 expiresAt) : Whole d' := by
  intro name bytes hfile hreceipt
  obtain hsame | hwrites := hreach name
  · rw [hsame] at hfile
    exact h name bytes hfile hreceipt
  rw [hfile] at hwrites
  obtain ⟨deliveryId, expiresAt, now, -, hrequest, -, -, -, hafter⟩ |
    ⟨deliveryId, expiresAt, now, -, -, hfind, hafter⟩ | ⟨_, _, _, _, _, _, hafter⟩ :=
    hwrites.receipt hreceipt
  · cases hafter
    exact ⟨.seen expiresAt, rfl, hrange _ _ _ hrequest⟩
  · cases hafter
    have hexpiry : IsI64 expiresAt := isI64_of_entry (file_of_find_present hfind)
    exact ⟨.acked expiresAt, rfl, hexpiry⟩
  · cases hafter

theorem Whole.length_le (h : Whole d) :
    (d.receipts.map fun stored => stored.2.length).sum ≤ d.grownBytes := by
  apply sum_le_sum
  intro stored hstored
  have hreceipt : isMarker stored.1 = false := by simpa using (mem_filter.mp hstored).2
  obtain ⟨entry, hentry, hrange⟩ := h _ _ (file_of_mem_receipts hstored) hreceipt
  rw [hentry, grownLength_serialize hrange]
  exact length_serialize_le entry

/-- No receipt is added and none has become larger than it was bound to become. -/
def Shrinks (d d' : ReceiptDisk) : Prop :=
  ∀ name ∈ d'.names, name ∈ d.names ∧
    grownLength ((d'.file name).getD []) ≤ grownLength ((d.file name).getD [])

theorem Shrinks.length_le (h : Shrinks d d') : d'.receipts.length ≤ d.receipts.length := by
  rw [length_receipts, length_receipts]
  exact Finset.card_le_card fun name hname => (h name hname).1

theorem Shrinks.grownBytes_le (h : Shrinks d d') : d'.grownBytes ≤ d.grownBytes := by
  rw [grownBytes, grownBytes, sum_receipts, sum_receipts]
  calc ∑ name ∈ d'.names, grownLength ((d'.file name).getD [])
      ≤ ∑ name ∈ d'.names, grownLength ((d.file name).getD []) :=
        Finset.sum_le_sum fun name hname => (h name hname).2
    _ ≤ ∑ name ∈ d.names, grownLength ((d.file name).getD []) :=
        Finset.sum_le_sum_of_subset fun name hname => (h name hname).1

theorem admits_le {bytes : Bytes} (hnew : d.file name = none) (hfile : d'.file name = some bytes)
    (hother : ∀ other ≠ name, isMarker other = false → d'.file other = d.file other) :
    d'.receipts.length ≤ d.receipts.length + 1 ∧
      d'.grownBytes ≤ d.grownBytes + grownLength bytes := by
  have hnotin : name ∉ d.names := fun hmem => (mem_names.mp hmem).2 hnew
  have hnames : d'.names ⊆ insert name d.names := by
    intro other hmem
    obtain ⟨hreceipt, hpresent⟩ := mem_names.mp hmem
    by_cases hsame : other = name
    · rw [hsame]
      exact Finset.mem_insert_self _ _
    · rw [hother other hsame hreceipt] at hpresent
      exact Finset.mem_insert_of_mem (mem_names.mpr ⟨hreceipt, hpresent⟩)
  have hrest : ∑ other ∈ d.names, grownLength ((d'.file other).getD []) = d.grownBytes := by
    rw [grownBytes, sum_receipts]
    apply Finset.sum_congr rfl
    intro other hold
    rw [hother other (fun hsame => hnotin (hsame ▸ hold)) (mem_names.mp hold).1]
  constructor
  · rw [length_receipts, length_receipts]
    exact (Finset.card_le_card hnames).trans (Finset.card_insert_le _ _)
  calc d'.grownBytes
      = ∑ other ∈ d'.names, grownLength ((d'.file other).getD []) := by
        rw [grownBytes, sum_receipts]
    _ ≤ ∑ other ∈ insert name d.names, grownLength ((d'.file other).getD []) :=
        Finset.sum_le_sum_of_subset hnames
    _ = grownLength bytes + d.grownBytes := by
        rw [Finset.sum_insert hnotin, hrest, hfile, Option.getD_some]
    _ = d.grownBytes + grownLength bytes := Nat.add_comm _ _

/-- Each call drops receipts or lets one grow, unless it admits one. -/
theorem shrinks_or_admits (hreach : Reaches quota request d d') :
    Shrinks d d' ∨ ∃ deliveryId expiresAt now, request = .receive deliveryId expiresAt now ∧
      now < expiresAt ∧ d.find deliveryId now = .absent ∧
      d.wouldExceedQuota quota (acked expiresAt).serialize.length = false ∧
      d'.file (entryPath deliveryId) = some (seen expiresAt).serialize ∧
      ∀ other ≠ entryPath deliveryId, isMarker other = false → d'.file other = d.file other := by
  by_cases hadmits : ∃ name, isMarker name = false ∧ d.file name = none ∧ d'.file name ≠ none
  · right
    obtain ⟨name, hreceipt, habsent, hpresent⟩ := hadmits
    obtain hsame | hwrites := hreach name
    · exact absurd (hsame.trans habsent) hpresent
    obtain ⟨deliveryId, expiresAt, now, rfl, rfl, hnow, hfind, hroom, hafter⟩ |
      ⟨deliveryId, expiresAt, now, rfl, rfl, hfind, hafter⟩ | ⟨_, _, _, _, _, _, hafter⟩ :=
      hwrites.receipt hreceipt
    · refine ⟨deliveryId, expiresAt, now, rfl, hnow, hfind, hroom, hafter, ?_⟩
      intro other hother hreceipt
      obtain hsame | hwrites := hreach other
      · exact hsame
      obtain ⟨_, _, _, hname, hrequest, -⟩ | ⟨_, _, _, -, hrequest, -⟩ | ⟨_, _, _, hrequest, -⟩ :=
        hwrites.receipt hreceipt
      · cases hrequest
        exact absurd hname hother
      · cases hrequest
      · cases hrequest
    · obtain ⟨_, hbytes, -⟩ := Option.bind_eq_some_iff.mp (file_of_find_present hfind)
      rw [habsent] at hbytes
      cases hbytes
    · exact absurd hafter hpresent
  · left
    intro name hmem
    obtain ⟨hreceipt, hpresent⟩ := mem_names.mp hmem
    have hbefore : d.file name ≠ none := fun habsent => hadmits ⟨name, hreceipt, habsent, hpresent⟩
    refine ⟨mem_names.mpr ⟨hreceipt, hbefore⟩, ?_⟩
    obtain hsame | hwrites := hreach name
    · rw [hsame]
    obtain ⟨deliveryId, expiresAt, now, rfl, -, -, hfind, -⟩ |
      ⟨deliveryId, expiresAt, now, rfl, -, hfind, hafter⟩ | ⟨_, _, _, _, _, _, hafter⟩ :=
      hwrites.receipt hreceipt
    · exact absurd (file_of_find_absent hfind) hbefore
    · -- the receipt is as long as it was bound to become
      have hentry := file_of_find_present hfind
      obtain ⟨bytes, hbytes, hparse⟩ := Option.bind_eq_some_iff.mp hentry
      have hexpiry : IsI64 expiresAt := isI64_of_entry hentry
      have hbound : grownLength bytes = (acked expiresAt).serialize.length := by
        rw [grownLength, hparse]
        rfl
      have hgrown : grownLength (acked expiresAt).serialize = (acked expiresAt).serialize.length :=
        @grownLength_serialize (.acked expiresAt) hexpiry
      rw [hafter, hbytes, Option.getD_some, Option.getD_some, hgrown, hbound]
    · exact absurd hafter hpresent

/-- What is admitted leaves room for all receipts to be acknowledged. -/
def ReceiptCall.Reserves (quota : ReceiptQuota) (s : ReceiptState) : ReceiptCall → Prop
  | .receive deliveryId expiresAt now =>
    now < expiresAt → s.disk.find deliveryId now = .absent →
    s.disk.wouldExceedQuota quota (acked expiresAt).serialize.length = false →
      s.disk.grownBytes + (acked expiresAt).serialize.length ≤ quota.maxBytes
  | _ => True

instance (quota : ReceiptQuota) (s : ReceiptState) (request : ReceiptCall) :
    Decidable (request.Reserves quota s) :=
  match request with
  | .open | .acknowledge .. | .purgeExpired .. => .isTrue trivial
  | .receive deliveryId expiresAt now =>
    inferInstanceAs (Decidable (now < expiresAt → s.disk.find deliveryId now = .absent →
      s.disk.wouldExceedQuota quota (acked expiresAt).serialize.length = false →
        s.disk.grownBytes + (acked expiresAt).serialize.length ≤ quota.maxBytes))

def ReceiptEvent.Reserves (quota : ReceiptQuota) (s : ReceiptState) : ReceiptEvent → Prop
  | .call request | .crash request _ => request.Reserves quota s
  | .close => True

instance (quota : ReceiptQuota) (s : ReceiptState) (event : ReceiptEvent) :
    Decidable (event.Reserves quota s) :=
  match event with
  | .call request | .crash request _ => inferInstanceAs (Decidable (request.Reserves quota s))
  | .close => .isTrue trivial

structure Limited (quota : ReceiptQuota) (d : ReceiptDisk) : Prop where
  whole : Whole d
  entries : d.receipts.length ≤ quota.maxEntries
  bytes : d.grownBytes ≤ quota.maxBytes

theorem Limited.reaches {s : ReceiptState} (h : Limited quota s.disk)
    (hpossible : request.Possible s) (hreserves : request.Reserves quota s)
    (hreach : Reaches quota request s.disk d') : Limited quota d' := by
  have hwhole : Whole d' := h.whole.reaches hreach (range_of_possible hpossible)
  obtain hshrinks | ⟨_, expiresAt, _, rfl, hnow, hfind, hroom, hfile, hother⟩ :=
    shrinks_or_admits hreach
  · exact ⟨hwhole, hshrinks.length_le.trans h.entries, hshrinks.grownBytes_le.trans h.bytes⟩
  have hexpiry : IsI64 expiresAt := range_of_possible hpossible _ _ _ rfl
  have hgrown : grownLength (seen expiresAt).serialize = (acked expiresAt).serialize.length :=
    @grownLength_serialize (.seen expiresAt) hexpiry
  obtain ⟨_, _⟩ := admits_le (file_of_find_absent hfind) hfile hother
  have hfits := hreserves hnow hfind hroom
  have hfree : s.disk.receipts.length < quota.maxEntries := by
    simp only [wouldExceedQuota, Bool.or_eq_false_iff, decide_eq_false_iff_not, not_le] at hroom
    exact hroom.1
  exact ⟨hwhole, by omega, by omega⟩

theorem Limited.step {s : ReceiptState} (h : Limited quota s.disk) {event : ReceiptEvent}
    (hpossible : event.Possible s) (hreserves : event.Reserves quota s) :
    Limited quota (s.step quota event).disk := by
  obtain hsame | ⟨_, _, rfl | rfl, hreach⟩ := disk_step hpossible
  · rw [hsame]
    exact h
  all_goals exact h.reaches hpossible hreserves hreach

/-- As long as each admission leaves room for the receipts to be acknowledged, the receipts stay
within the quota. -/
theorem receipts_stay_in_quota (quota : ReceiptQuota) (clock : Int) {events : List ReceiptEvent}
    {s : ReceiptState}
    (hrun : Run (ReceiptState.step quota)
      (fun s event => event.Possible s ∧ event.Reserves quota s) (.start .empty clock) events s) :
    s.disk.receipts.length ≤ quota.maxEntries ∧
      (s.disk.receipts.map fun stored => stored.2.length).sum ≤ quota.maxBytes := by
  have hlimited : Limited quota s.disk := by
    apply hrun.invariant fun s => Limited quota s.disk
    · exact fun _ _ hlimited hadmits => hlimited.step hadmits.1 hadmits.2
    · exact ⟨nofun, Nat.zero_le _, Nat.zero_le _⟩
  exact ⟨hlimited.entries, hlimited.whole.length_le.trans hlimited.bytes⟩

def acknowledgedPair : List ReceiptEvent :=
  [.call .open, .call (.receive "a" 100 10), .call (.receive "b" 100 10),
    .call (.acknowledge "a" 20), .call (.acknowledge "b" 20)]

/-- Two receipts fill the quota exactly, before and after they are acknowledged. -/
theorem acknowledged_pair_stays_in_quota :
    ∃ s, Run (ReceiptState.step ⟨2, 20, 1000⟩)
        (fun s event => event.Possible s ∧ event.Reserves ⟨2, 20, 1000⟩ s) (.start .empty 0)
        acknowledgedPair s ∧
      s.disk.receipts.length = 2 ∧
      (s.disk.receipts.map fun stored => stored.2.length).sum ≤ 20 := by
  have hrun : Run (ReceiptState.step ⟨2, 20, 1000⟩)
      (fun s event => event.Possible s ∧ event.Reserves ⟨2, 20, 1000⟩ s) (.start .empty 0)
      acknowledgedPair _ := Run.of_allows (by decide +kernel)
  exact ⟨_, hrun, by decide +kernel, (receipts_stay_in_quota ⟨2, 20, 1000⟩ 0 hrun).2⟩

/-- With room for one byte less both are admitted, and together they outgrow the quota. -/
theorem acknowledged_pair_outgrows_quota :
    ∃ s, Run (ReceiptState.step ⟨2, 19, 1000⟩) (fun s event => event.Possible s) (.start .empty 0)
        acknowledgedPair s ∧
      s.injected = ["a", "b"] ∧
      (s.disk.receipts.map fun stored => stored.2.length).sum = 20 := by
  have hrun : Run (ReceiptState.step ⟨2, 19, 1000⟩) (fun s event => event.Possible s)
      (.start .empty 0) acknowledgedPair _ := Run.of_allows (by decide +kernel)
  exact ⟨_, hrun, by decide +kernel, by decide +kernel⟩

end Bridget.Receipts
