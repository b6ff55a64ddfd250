import Bridget.Receipts.Store

/-!
# What a call changes

The files of a receipt directory change in few ways. `Writes` lists them for each call, with
what the call has found on the disk before; every disk that a call leaves behind, also in a
crash, differs from the one before by such changes only.
-/

namespace Bridget.Receipts

open Foundation Durable ReceiptEntry ReceiptDisk List Option

theorem parseTimestamp_timestamp {value : Int} (h : IsI64 value) :
    parseTimestamp (timestamp value) = some value := by
  have htrim : trim (toString value).toList = (toString value).toList := by
    apply trim_eq_self
    intro c hc
    obtain rfl | hdigit := mem_toString hc
    · decide
    · obtain ⟨_, _⟩ := isDigit_range hdigit
      simp only [isWhitespace, Bool.or_eq_false_iff, Bool.and_eq_false_iff, decide_eq_false_iff_not]
      omega
  simp only [parseTimestamp, timestamp, fromUtf8_utf8, bind_eq_bind, bind_some, htrim,
    parseI64_toString h.1 h.2]

theorem lines_entry {word : String} {state : List Char} (expiresAt : Int)
    (hword : word.toList = state ++ ['\n']) (hstate : '\n' ∉ state ∧ '\r' ∉ state) :
    lines '\n' '\r' (word ++ toString expiresAt ++ "\n").toList =
      [state, (toString expiresAt).toList] := by
  have hclean : ∀ c ∈ (toString expiresAt).toList, c ≠ '\n' ∧ c ≠ '\r' := by
    intro c hc
    obtain rfl | hdigit := mem_toString hc
    · decide
    · constructor <;> (rintro rfl; revert hdigit; decide)
  have htext : (word ++ toString expiresAt ++ "\n").toList =
      state ++ '\n' :: ((toString expiresAt).toList ++ ['\n']) := by
    rw [String.toList_append, String.toList_append, hword, append_assoc, append_assoc]
    rfl
  rw [htext]
  apply lines_two hstate.1 _ hstate.2
  · exact fun hc => (hclean _ hc).2 rfl
  · exact fun hc => (hclean _ hc).1 rfl

theorem parseEntry_serialize {entry : ReceiptEntry} (h : IsI64 entry.expiresAt) :
    parseEntry entry.serialize = some entry := by
  have hexpiry := parseI64_toString h.1 h.2
  cases entry with
  | seen expiresAt =>
    have hlines := @lines_entry "seen\n" "seen".toList expiresAt (by decide) (by decide)
    simp only [parseEntry, serialize, fromUtf8_utf8, bind_eq_bind,
      bind_some, hlines, ReceiptEntry.expiresAt] at hexpiry ⊢
    rw [hexpiry]
    rfl
  | acked expiresAt =>
    have hlines := @lines_entry "acked\n" "acked".toList expiresAt (by decide) (by decide)
    simp only [parseEntry, serialize, fromUtf8_utf8, bind_eq_bind,
      bind_some, hlines, ReceiptEntry.expiresAt] at hexpiry ⊢
    rw [hexpiry]
    rfl

theorem entryPath_injective : Function.Injective entryPath := by
  intro _ _ h
  exact String.append_right_inj _ |>.mp h

theorem isMarker_entryPath (deliveryId : String) : isMarker (entryPath deliveryId) = false := by
  have hfirst : (entryPath deliveryId).toList.head? = some 'r' := by
    rw [entryPath, String.toList_append]
    rfl
  have hother : ∀ name : String, name.toList.head? ≠ some 'r' → entryPath deliveryId ≠ name := by
    rintro _ hname rfl
    exact hname hfirst
  simp only [isMarker, Bool.or_eq_false_iff, decide_eq_false_iff_not]
  exact ⟨hother _ (by decide), hother _ (by decide)⟩

variable {deliveryId name : String} {quota : ReceiptQuota} {d : ReceiptDisk} {request : ReceiptCall}
  {after : Option Bytes}

theorem entryPath_ne (h : isMarker name = true) : entryPath deliveryId ≠ name := by
  rintro rfl
  cases h

namespace ReceiptDisk

variable {d : ReceiptDisk} {name : String} {bytes : Bytes} (other : String)

@[simp] theorem file_put :
    (d.put name bytes).file other = if other = name then some bytes else d.file other := by
  unfold file put
  by_cases h : other = name
  · rw [if_pos h, h]
    exact AList.lookup_insert _
  · rw [if_neg h]
    simp only [bind_some, AList.lookup_insert_ne h]
    cases d.directory <;> rfl

@[simp] theorem file_remove :
    (d.remove name).file other = if other = name then none else d.file other := by
  unfold file remove
  cases d.directory with
  | none => simp
  | some =>
    by_cases h : other = name
    · rw [if_pos h, h]
      exact AList.lookup_erase _ _
    · rw [if_neg h]
      exact AList.lookup_erase_ne h

@[simp] theorem file_createDirectory : d.createDirectory.file other = d.file other := by
  unfold file createDirectory
  cases d.directory <;> rfl

end ReceiptDisk

/-- The changes of a file that a call may make on a disk. -/
inductive Writes (quota : ReceiptQuota) (d : ReceiptDisk) :
    ReceiptCall → String → Option Bytes → Prop
  | sentinel {request : ReceiptCall} (value : Int) :
      Writes quota d request maxExpiresPath (some (timestamp value))
  | permanent : Writes quota d .open quarantinePath (some (timestamp i64Max))
  | received {deliveryId : String} {expiresAt now : Int} (hnow : now < expiresAt)
      (hfind : d.find deliveryId now = .absent)
      (hroom : d.wouldExceedQuota quota (acked expiresAt).serialize.length = false) :
      Writes quota d (.receive deliveryId expiresAt now) (entryPath deliveryId)
        (some (seen expiresAt).serialize)
  | receiptDamaged {deliveryId : String} {expiresAt now : Int} (hnow : now < expiresAt)
      (hfind : d.find deliveryId now = .damaged) :
      Writes quota d (.receive deliveryId expiresAt now) quarantinePath
        (some (timestamp (d.quarantineUntil quota expiresAt now)))
  | acknowledged {deliveryId : String} {expiresAt now : Int}
      (hfind : d.find deliveryId now = .present (.seen expiresAt)) :
      Writes quota d (.acknowledge deliveryId now) (entryPath deliveryId)
        (some (acked expiresAt).serialize)
  | acknowledgementDamaged {deliveryId : String} {now : Int}
      (hfind : d.find deliveryId now = .damaged) :
      Writes quota d (.acknowledge deliveryId now) quarantinePath
        (some (timestamp (d.quarantineUntil quota (saturatingAdd now quota.horizonMaxSecs) now)))
  | purged {listing : List String} {now : Int} {name : String} {entry : ReceiptEntry}
      (hreceipt : isMarker name = false) (hentry : (d.file name).bind parseEntry = some entry)
      (hexpired : entry.expiresAt ≤ now) :
      Writes quota d (.purgeExpired listing now) name none
  | purgeDamaged {listing : List String} {now : Int} {name : String}
      (hhealthy : d.directoryIsHealthy = true) (hlisted : name ∈ listing)
      (hreceipt : isMarker name = false) (hdamaged : (d.file name).bind parseEntry = none) :
      Writes quota d (.purgeExpired listing now) quarantinePath
        (some (timestamp (d.quarantineUntil quota (saturatingAdd now quota.horizonMaxSecs) now)))

theorem Writes.receipt (h : Writes quota d request name after) (hreceipt : isMarker name = false) :
    (∃ deliveryId expiresAt now, name = entryPath deliveryId ∧
      request = .receive deliveryId expiresAt now ∧ now < expiresAt ∧
      d.find deliveryId now = .absent ∧
      d.wouldExceedQuota quota (acked expiresAt).serialize.length = false ∧
      after = some (seen expiresAt).serialize) ∨
    (∃ deliveryId expiresAt now, name = entryPath deliveryId ∧
      request = .acknowledge deliveryId now ∧ d.find deliveryId now = .present (.seen expiresAt) ∧
      after = some (acked expiresAt).serialize) ∨
    (∃ listing now entry, request = .purgeExpired listing now ∧
      (d.file name).bind parseEntry = some entry ∧ entry.expiresAt ≤ now ∧ after = none) := by
  cases h with
  | sentinel | permanent => exact absurd hreceipt (by decide)
  | received hnow hfind hroom => exact .inl ⟨_, _, _, rfl, rfl, hnow, hfind, hroom, rfl⟩
  | receiptDamaged => exact absurd hreceipt (by decide)
  | acknowledged hfind => exact .inr (.inl ⟨_, _, _, rfl, rfl, hfind, rfl⟩)
  | acknowledgementDamaged => exact absurd hreceipt (by decide)
  | purged _ hentry hexpired => exact .inr (.inr ⟨_, _, _, rfl, hentry, hexpired, rfl⟩)
  | purgeDamaged => exact absurd hreceipt (by decide)

/-- A disk that a call may leave behind. -/
def Reaches (quota : ReceiptQuota) (request : ReceiptCall) (d d' : ReceiptDisk) : Prop :=
  ∀ name, d'.file name = d.file name ∨ Writes quota d request name (d'.file name)

variable {quota : ReceiptQuota} {request : ReceiptCall} {d d' : ReceiptDisk} {name : String}
  {listing : List String}

namespace Reaches

theorem refl : Reaches quota request d d := fun _ => .inl rfl

section

variable (h : Reaches quota request d d')

include h

theorem put {bytes : Bytes} (hwrites : Writes quota d request name (some bytes)) :
    Reaches quota request d (d'.put name bytes) := by
  intro other
  rw [file_put]
  split
  next hsame =>
    subst hsame
    exact .inr hwrites
  · exact h other

theorem remove (hwrites : Writes quota d request name none) :
    Reaches quota request d (d'.remove name) := by
  intro other
  rw [file_remove]
  split
  next hsame =>
    subst hsame
    exact .inr hwrites
  · exact h other

theorem congr {d'' : ReceiptDisk}
    (hfiles : ∀ name, d''.file name = d'.file name) : Reaches quota request d d'' := by
  intro name
  rw [hfiles]
  exact h name

end

end Reaches

/-- What a call leaves behind, however it ends. -/
abbrev Leaves (quota : ReceiptQuota) (request : ReceiptCall) (d : ReceiptDisk) {α : Type}
    (x : Call α) (post : α → ReceiptDisk → Prop) (d' : ReceiptDisk) : Prop :=
  Ensures (Reaches quota request d) (fun d' _ => Reaches quota request d d') x
    (fun a d' _ => Reaches quota request d d' ∧ post a d') d' ()

section

variable {α β : Type} {f : ReceiptDisk → ReceiptDisk} {post : β → ReceiptDisk → Prop}

theorem leaves_pure {a : α} {post : α → ReceiptDisk → Prop} (hreach : Reaches quota request d d')
    (h : post a d') : Leaves quota request d (pure a : Call α) post d' :=
  ensures_pure ⟨hreach, h⟩

theorem leaves_write {g : Unit → Call β} (hreach : Reaches quota request d (f d'))
    (h : Leaves quota request d (g ()) post (f d')) :
    Leaves quota request d ((Durable.write fun d => .ok ((), f d)) >>= g) post d' := by
  apply ensures_bind
  apply ensures_write
  · intro _ _ heq
    cases heq
    exact ⟨hreach, h⟩
  · exact fun _ he => nomatch he

theorem leaves_last {post : Unit → ReceiptDisk → Prop}
    (hreach : Reaches quota request d (f d')) (h : post () (f d')) :
    Leaves quota request d (Durable.write fun d => .ok ((), f d)) post d' := by
  apply ensures_write
  · intro _ _ heq
    cases heq
    exact ⟨hreach, hreach, h⟩
  · exact fun _ he => nomatch he

theorem leaves_inspect {f : ReceiptDisk → Unit → Except ReceiptError α} {g : α → Call β}
    (hreach : Reaches quota request d d')
    (h : ∀ a, f d' () = .ok a → Leaves quota request d (g a) post d') :
    Leaves quota request d (.inspect f >>= g) post d' :=
  ensures_inspect_bind hreach h

end

section

variable (d : ReceiptDisk)

theorem openStore_leaves : Leaves quota .open d openStore (fun _ _ => True) d := by
  have henrolled : Reaches quota .open d { d with enrollment := some (utf8 "v1\n") } :=
    .congr .refl fun _ => rfl
  have hcreated : ∀ d' : ReceiptDisk, Reaches quota .open d d' →
      Reaches quota .open d d'.createDirectory := by
    intro d' hreach
    exact hreach.congr fun _ => file_createDirectory _
  have hlocked : ∀ d' : ReceiptDisk, Reaches quota .open d d' →
      Leaves quota .open d quarantinePermanently (fun _ _ => True) d' := by
    intro d' hreach
    exact leaves_last (hreach.put .permanent) trivial
  apply leaves_inspect .refl
  intro _ _
  split
  · apply leaves_write henrolled
    apply leaves_write (hcreated _ henrolled)
    exact leaves_last ((hcreated _ henrolled).put (.sentinel 0)) trivial
  · exact leaves_pure .refl trivial
  · exact hlocked d .refl
  · apply leaves_write henrolled
    apply leaves_write (hcreated _ henrolled)
    exact hlocked _ (hcreated _ henrolled)
  · apply leaves_write (hcreated d .refl)
    exact hlocked _ (hcreated d .refl)

variable (deliveryId : String)

/-- What `receive` says of the receipt that it has found. -/
def ReceiveTells (expiresAt now : Int) (decision : ReceiptDecision) (d' : ReceiptDisk) : Prop :=
  (decision = .inject → now < expiresAt ∧ d.find deliveryId now = .absent ∧
    d'.file (entryPath deliveryId) = some (seen expiresAt).serialize) ∧
  (decision = .acked → ∃ expiry, d.find deliveryId now = .present (.acked expiry))

theorem receive_leaves (expiresAt now : Int) :
    Leaves quota (.receive deliveryId expiresAt now) d (receive quota deliveryId expiresAt now)
      (ReceiveTells d deliveryId expiresAt now) d := by
  apply leaves_inspect .refl
  intro _ _
  apply leaves_inspect .refl
  intro _ hensure
  have hnow : now < expiresAt := ensure_eq_ok.mp hensure
  apply leaves_inspect .refl
  intro found hfound
  have hfound : (d.find deliveryId now,
      d.wouldExceedQuota quota (acked expiresAt).serialize.length) = found :=
    Except.ok.inj hfound
  split
  · exact leaves_pure .refl ⟨by simp, by simp⟩
  · exact leaves_pure .refl ⟨by simp, fun _ => ⟨_, congrArg Prod.fst hfound⟩⟩
  · exact leaves_pure .refl ⟨by simp, by simp⟩
  · have hwrites : Writes quota d (.receive deliveryId expiresAt now) _ _ :=
      .receiptDamaged hnow (congrArg Prod.fst hfound)
    exact leaves_write (.put .refl hwrites) (leaves_pure (.put .refl hwrites) ⟨by simp, by simp⟩)
  · exact leaves_pure .refl ⟨by simp, by simp⟩
  · have hfind := congrArg Prod.fst hfound
    have hwrites : Writes quota d (.receive deliveryId expiresAt now) _ _ :=
      .received hnow hfind (congrArg Prod.snd hfound)
    apply leaves_write (.put .refl hwrites)
    apply ensures_bind
    apply ensures_write
    · intro _ _ hraised
      simp only [ok_iff, pair_iff, true_and] at hraised
      obtain ⟨latest, -, rfl⟩ := hraised
      have hreach := (Reaches.refl.put hwrites).put (.sentinel (max latest expiresAt))
      refine ⟨hreach, leaves_pure hreach ⟨fun _ => ⟨hnow, hfind, ?_⟩, by simp⟩⟩
      rw [file_put, if_neg (entryPath_ne (by decide)), file_put, if_pos rfl]
    · exact fun _ _ => .put .refl hwrites

theorem acknowledge_leaves (now : Int) :
    Leaves quota (.acknowledge deliveryId now) d (acknowledge quota deliveryId now)
      (fun decision _ => decision = .acked → ∃ entry, d.find deliveryId now = .present entry)
      d := by
  apply leaves_inspect .refl
  intro _ _
  apply leaves_inspect .refl
  intro found hfound
  have hfound : d.find deliveryId now = found := Except.ok.inj hfound
  split
  · exact leaves_pure .refl nofun
  · exact leaves_pure .refl nofun
  · have hwrites : Writes quota d (.acknowledge deliveryId now) _ _ :=
      .acknowledgementDamaged hfound
    exact leaves_write (.put .refl hwrites) (leaves_pure (.put .refl hwrites) nofun)
  · exact leaves_pure .refl fun _ => ⟨_, hfound⟩
  · have hwrites : Writes quota d (.acknowledge deliveryId now) _ _ := .acknowledged hfound
    exact leaves_write (.put .refl hwrites)
      (leaves_pure (.put .refl hwrites) fun _ => ⟨_, hfound⟩)

end

/-- The loop meets each file as it was before the call. -/
theorem purgeEntries_leaves {names : List String} {now : Int} {removed : Nat}
    {maxExpiresAt : Int} (hhealthy : d.directoryIsHealthy = true) (hlisted : names ⊆ listing)
    (hnodup : names.Nodup) (hreach : Reaches quota (.purgeExpired listing now) d d')
    (hsentinel : d'.file maxExpiresPath = d.file maxExpiresPath)
    (hnames : ∀ name ∈ names, d'.file name = d.file name) :
    Leaves quota (.purgeExpired listing now) d (purgeEntries quota now names removed maxExpiresAt)
      (fun _ _ => True) d' := by
  induction names generalizing d' removed maxExpiresAt with
  | nil =>
    have hlast := hreach.put (.sentinel maxExpiresAt)
    exact leaves_write hlast (leaves_pure hlast trivial)
  | cons name rest ih =>
    obtain ⟨hname, hrest⟩ := nodup_cons.mp hnodup
    have hlisted' : rest ⊆ listing := fun _ h => hlisted (mem_cons_of_mem _ h)
    have hnames' : ∀ name ∈ rest, d'.file name = d.file name :=
      fun _ h => hnames _ (mem_cons_of_mem _ h)
    unfold purgeEntries
    split
    · exact ih hlisted' hrest hreach hsentinel hnames'
    rename_i hreceipt
    have hreceipt := Bool.eq_false_iff.mpr hreceipt
    apply leaves_inspect hreach
    intro receipt hfound
    have hfound : (d.file name).bind parseEntry = receipt := by
      rw [← hnames name mem_cons_self]
      exact Except.ok.inj hfound
    split
    · have hdamaged : Writes quota d (.purgeExpired listing now) _ _ :=
        .purgeDamaged hhealthy (hlisted mem_cons_self) hreceipt hfound
      have hput := hreach.put hdamaged
      have hsame : d'.quarantineUntil quota (saturatingAdd now quota.horizonMaxSecs) now =
          d.quarantineUntil quota (saturatingAdd now quota.horizonMaxSecs) now := by
        unfold quarantineUntil readMaxExpiresAt
        rw [hsentinel]
      rw [← hsame] at hput
      exact leaves_write hput (leaves_pure hput trivial)
    · split
      next hexpired =>
        have hpurged := hreach.remove (.purged hreceipt hfound hexpired)
        apply leaves_write hpurged
        apply ih hlisted' hrest hpurged
        · have hmarker : maxExpiresPath ≠ name := by
            rintro rfl
            revert hreceipt
            decide
          rw [file_remove, if_neg hmarker, hsentinel]
        · intro other hother
          rw [file_remove, if_neg (ne_of_mem_of_not_mem hother hname), hnames' other hother]
      · exact ih hlisted' hrest hreach hsentinel hnames'

theorem purgeExpired_leaves (d : ReceiptDisk) (hnodup : listing.Nodup) (now : Int) :
    Leaves quota (.purgeExpired listing now) d (purgeExpired quota listing now)
      (fun _ _ => True) d := by
  apply leaves_inspect .refl
  intro healthy hhealthy
  have hhealthy : d.directoryIsHealthy = healthy := Except.ok.inj hhealthy
  split
  next htrue =>
    rw [htrue] at hhealthy
    exact purgeEntries_leaves hhealthy (fun _ h => h) hnodup .refl rfl fun _ _ => rfl
  · exact leaves_pure .refl trivial

/-- What the answer to a call says about the disk. -/
def Tells (d : ReceiptDisk) : ReceiptCall → Option ReceiptDecision → ReceiptDisk → Prop
  | .receive deliveryId expiresAt now, some decision, d' =>
    ReceiveTells d deliveryId expiresAt now decision d'
  | _, _, _ => True

/-- A listing names each file once. -/
def ReceiptCall.Listed : ReceiptCall → Prop
  | .purgeExpired listing _ => listing.Nodup
  | _ => True

theorem run_leaves (hlisted : request.Listed) :
    Leaves quota request d (request.run quota) (Tells d request) d := by
  cases request with
  | «open» =>
    apply ensures_bind
    exact (openStore_leaves d).mono fun _ _ _ h => ensures_pure ⟨h.1, trivial⟩
  | receive deliveryId expiresAt now =>
    apply ensures_bind
    exact (receive_leaves d deliveryId expiresAt now).mono fun _ _ _ h => ensures_pure h
  | acknowledge deliveryId now =>
    apply ensures_bind
    exact (acknowledge_leaves d deliveryId now).mono fun _ _ _ h => ensures_pure ⟨h.1, trivial⟩
  | purgeExpired _ now =>
    apply ensures_bind
    exact (purgeExpired_leaves d hlisted now).mono fun _ _ _ h => ensures_pure ⟨h.1, trivial⟩

/-- A call that comes to its end leaves a disk that it may leave. -/
theorem reaches_run (hlisted : request.Listed) :
    Reaches quota request d (request.run quota d ()).disk :=
  (run_leaves hlisted).ended (fun d' _ => Reaches quota request d d') (fun _ _ _ h => h.1)
    fun _ _ h => h

/-- So does one that a crash ends. -/
theorem reaches_crash (hlisted : request.Listed) (writes : Nat) :
    Reaches quota request d ((request.run quota).diskAfter writes d ()) :=
  (run_leaves hlisted).safe_diskAfter .refl (reaches_run hlisted) writes

end Bridget.Receipts
