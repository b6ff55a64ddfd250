import Bridget.Threads.Sessions

/-!
# Pages that are read again

Until it expires or is confirmed, the receipt of a page answers every reading of its member, and
what is posted, replaced or closed in the meantime does not show in the page.
-/

namespace Bridget.Threads

open Foundation ThreadStore List

/-- An operation that leaves a receipt to its reader: no reading of theirs after it has expired, and
no confirmation. -/
def ThreadOp.Spares (key : String × String) (receipt : String) (expiresAt : Int) : ThreadOp → Prop
  | .read request => (request.threadId, request.actor) = key → request.now < expiresAt
  | op => ¬ op.acks key receipt

namespace ReadLog

variable {size : PageEntry → Nat} {log : ReadLog} {op : ThreadOp} {r : ReadRow}
  {request : ReadRequest}

/-- The reader of an active receipt obtains its page again. -/
theorem Sound.replays (h : log.Sound size) (hr : r ∈ log.store.reads)
    (hkey : (request.threadId, request.actor) = r.key) (hnow : request.now < r.expiresAt) :
    log.store.threadRead size request = .ok (log.store.replayRead size r, log.store) := by
  have hpromise := h.store.receipts r hr
  obtain ⟨m, hm, hmkey, -⟩ := hpromise.reader
  obtain ⟨_, hlast, -⟩ := hpromise.known
  obtain ⟨thread, hthread, hid, -⟩ := mem_numbers.mp hlast
  have hload : log.store.loadThreadForMember request.threadId request.actor = .ok (thread, m) := by
    rw [loadThreadForMember_eq_ok, loadThread_eq_some, loadMember_eq_some]
    exact ⟨⟨hthread, hid.trans (Prod.mk.inj hkey).1.symm⟩, hm, hmkey.trans hkey.symm⟩
  have hactive : (log.store.loadRead request.threadId request.actor).filter
      (fun active => request.now < active.expiresAt) = some r := by
    rw [loadRead_eq_some.mpr ⟨hr, hkey.symm⟩, Option.filter_some, if_pos (decide_eq_true hnow)]
  rw [threadRead, hload]
  simp only [hactive]
  rfl

theorem Sound.spares (h : log.Sound size) (hfresh : log.Fresh op) (hr : r ∈ log.store.reads)
    (hspares : op.Spares r.key r.receiptId r.expiresAt) :
    r ∈ (log.step size op).store.reads ∧
      (log.step size op).store.replayRead size r = log.store.replayRead size r := by
  cases hexec : log.store.exec size op with
  | error =>
    rw [step_of_error hexec]
    exact ⟨hr, rfl⟩
  | ok result =>
    obtain ⟨_, store⟩ := result
    rw [step_of_ok hexec]
    obtain ⟨request, _, rfl, rfl, hread⟩ | ⟨hop, hsteps⟩ := exec_cases hexec
    · by_cases hkey : (request.threadId, request.actor) = r.key
      · rw [h.replays hr hkey (hspares hkey)] at hread
        cases hread
        exact ⟨hr, rfl⟩
      · obtain ⟨-, hentries, hothers⟩ := threadRead_frame hread
        refine ⟨hothers r hr hkey fun hused => ?_, ?_⟩
        · exact hfresh _ mem_cons_self (hused ▸ (h.store.receipts r hr).issued)
        · rw [replayRead, replayRead, readRange_congr hentries]
    · apply hsteps.receipt h.store hr
      cases op <;> first | exact hspares | cases hop

/-- The receipt that a reading returns stands for the page that comes with it. -/
theorem Sound.returns {page : Page} {receipt : String} {expiresAt : Int} {limit : Nat}
    {replayed : Bool} {store : ThreadStore} (h : log.Sound size)
    (hread : log.store.threadRead size request =
      .ok (.page page (some receipt) (some expiresAt) limit replayed, store)) :
    ∃ r ∈ store.reads, r.key = (request.threadId, request.actor) ∧ r.receiptId = receipt ∧
      r.expiresAt = expiresAt ∧ ∃ limit, store.replayRead size r =
        .page page (some receipt) (some expiresAt) limit true := by
  rcases threadRead_cases hread with ⟨-, _, hpage, -⟩ | ⟨rfl, active, hactive, hkey, hpage⟩ |
    ⟨thread, member, entries, hthread, hmember, hpage,
      ⟨-, -, hout⟩ | ⟨through, hlast, -, -, rfl, hout⟩⟩
  · cases hpage
  · cases hpage
    exact ⟨active, hactive, hkey, rfl, rfl, _, rfl⟩
  · cases hout
  cases hout
  obtain ⟨hseqs, -, hreread⟩ := h.store.page_seqs hthread hpage
  obtain rfl := last_seq_of_range' hseqs hlast
  refine ⟨_, Table.mem_insertOrReplace.mpr (.inr rfl), rfl, rfl, rfl,
    min (max request.limit 1) u32Max, ?_⟩
  have hagain : log.store.readRange size request.threadId (member.ackedSeq + 1)
      (member.ackedSeq + entries.length) u32Max usizeMax (some thread.lastSeq) = entries :=
    hreread
  exact congrArg (fun entries => ReadOutcome.page ⟨entries, _, _, _, _⟩ _ _ _ true)
    ((readRange_congr rfl).trans hagain)

end ReadLog

/-- As long as it neither expires nor is confirmed, the receipt of a page is returned by every later
reading of its member, with the same page. -/
theorem replayed_pages_are_identical (size : PageEntry → Nat) {before ops : List ThreadOp}
    {log later : ReadLog} {request again : ReadRequest} {page : Page} {receipt : String}
    {expiresAt : Int} {limit : Nat} {replayed : Bool} {store : ThreadStore}
    (hbefore : Run (ReadLog.step size) ReadLog.Fresh ReadLog.start before log)
    (hfresh : log.Fresh (.read request))
    (hread : log.store.threadRead size request =
      .ok (.page page (some receipt) (some expiresAt) limit replayed, store))
    (hrun : Run (ReadLog.step size)
      (fun log op => log.Fresh op ∧ op.Spares (request.threadId, request.actor) receipt expiresAt)
      (log.step size (.read request)) ops later)
    (hreader : (again.threadId, again.actor) = (request.threadId, request.actor))
    (hnow : again.now < expiresAt) :
    ∃ limit, later.store.threadRead size again =
      .ok (.page page (some receipt) (some expiresAt) limit true, later.store) := by
  have hsound := ReadLog.sound_start.of_run hbefore
  obtain ⟨r, hr, hkey, rfl, rfl, limit, hpage⟩ := hsound.returns hread
  have hexec : log.store.exec size (.read request) = .ok (.read _, store) :=
    map_fst_eq_ok.mpr ⟨_, hread, rfl⟩
  obtain ⟨hlater, hstays, hsame⟩ : later.Sound size ∧ r ∈ later.store.reads ∧
      later.store.replayRead size r = store.replayRead size r := by
    apply hrun.invariant fun log => log.Sound size ∧ r ∈ log.store.reads ∧
      log.store.replayRead size r = store.replayRead size r
    · rintro _ _ ⟨h, hr, hsame⟩ ⟨hfresh, hspares⟩
      obtain ⟨hstays, hpage⟩ := h.spares hfresh hr (hkey ▸ hspares)
      exact ⟨h.step hfresh, hstays, hpage.trans hsame⟩
    · refine ⟨hsound.step hfresh, ?_⟩
      rw [ReadLog.step_of_ok hexec]
      exact ⟨hr, rfl⟩
  refine ⟨limit, ?_⟩
  rw [hlater.replays hstays (hreader.trans hkey.symm) hnow, hsame, hpage]

def dailyPage : Page :=
  ⟨[⟨1, "m1", "ann", 1, some "done", ⟨.none, []⟩, none, none, none, none, none, none⟩],
    0, 1, 2, true⟩

def dailyCorrection : ThreadOp :=
  .post { dailyNote "o3" "m3" with kind := some .action, supersedesSeq := some 1 } fun _ => false

/-- The same receipt, the same page. -/
theorem daily_note_is_read_again :
    let again :=
      [.read (dailyRead "r1" 10), dailyCorrection].foldl (ReadLog.step fun _ => 100) dailyLog
    (∃ e ∈ again.store.entries.rows, e.supersedesSeq = some 1) ∧
      ∃ limit, again.store.threadRead (fun _ => 100) (dailyRead "r2" 69) =
        .ok (.page dailyPage (some "r1") (some 70) limit true, again.store) := by
  refine ⟨by decide +kernel, ?_⟩
  have hbefore : Run (ReadLog.step fun _ => 100) ReadLog.Fresh ReadLog.start dailyOps dailyLog :=
    Run.of_allows (by decide +kernel)
  have hfirst : (dailyLog.store.threadRead (fun _ => 100) (dailyRead "r1" 10)).map Prod.fst =
      .ok (.page dailyPage (some "r1") (some 70) 1 false) := by decide +kernel
  obtain ⟨⟨_, _⟩, hread, rfl⟩ := map_eq_ok.mp hfirst
  have hrun : Run (ReadLog.step fun _ => 100)
      (fun log op => log.Fresh op ∧ op.Spares ("daily", "bob") "r1" 70)
      (dailyLog.step (fun _ => 100) (.read (dailyRead "r1" 10))) [dailyCorrection] _ :=
    .cons ⟨fun _ h => (not_mem_nil h).elim, fun h => by cases h.2⟩ (.nil _)
  exact replayed_pages_are_identical (fun _ => 100) hbefore (by decide +kernel) hread hrun rfl
    (by decide)

end Bridget.Threads
