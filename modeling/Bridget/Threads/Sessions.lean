import Bridget.Foundation.Run
import Bridget.Threads.Reading

/-!
# Reading to the end

Runs of all operations with the pages that were returned, and the view of one member that reads and
confirms in turn.
-/

namespace Bridget.Threads

open Foundation ThreadStore List Table

/-- The receipts that an operation brings along. -/
def ThreadOp.offers : ThreadOp → List String
  | .read request => [request.receiptId]
  | _ => []

/-- The page that an operation returns, with the member that receives it. -/
def ThreadOp.delivered : ThreadOp → ThreadReply → List ((String × String) × List PageEntry)
  | .read request, .read (.page page ..) => [((request.threadId, request.actor), page.entries)]
  | _, _ => []

def ThreadReply.page? : ThreadReply → Option (Page × Option String)
  | .read (.page page receipt ..) => some (page, receipt)
  | _ => none

def ThreadReply.confirms : ThreadReply → Bool
  | .ack (.acknowledged ..) | .ack (.alreadyAcknowledged ..) => true
  | _ => false

def ThreadOp.readsAs : ThreadOp → String × String → Bool
  | .read request, key => (request.threadId, request.actor) = key
  | _, _ => false

/-- The store, the receipts that were ever brought along, and the pages that were returned. -/
structure ReadLog where
  store : ThreadStore
  issued : List String
  pages : List ((String × String) × List PageEntry)

namespace ReadLog

def start : ReadLog := ⟨.init, [], []⟩

def Obtained (log : ReadLog) (key : String × String) (n : Nat) : Prop :=
  ∃ page ∈ log.pages, page.1 = key ∧ n ∈ page.2.map PageEntry.seq

def step (size : PageEntry → Nat) (log : ReadLog) (op : ThreadOp) : ReadLog :=
  match log.store.exec size op with
  | .ok (reply, store) => ⟨store, op.offers ++ log.issued, op.delivered reply ++ log.pages⟩
  | .error _ => { log with issued := op.offers ++ log.issued }

/-- Receipt identifiers, UUIDs drawn for each read, are never used again. They are unique in the
table and a receipt is written by `INSERT OR REPLACE`, so one used twice would remove the receipt
of another member. -/
def Fresh (log : ReadLog) (op : ThreadOp) : Prop := ∀ receipt ∈ op.offers, receipt ∉ log.issued
  deriving Decidable

/-- What was obtained are entries of the thread. -/
def Genuine (log : ReadLog) : Prop :=
  ∀ page ∈ log.pages, ∀ p ∈ page.2, ∃ e ∈ log.store.entries,
    e.threadId = page.1.1 ∧ e.seq = p.seq ∧ e.messageId = p.messageId

structure Sound (size : PageEntry → Nat) (log : ReadLog) : Prop where
  store : log.store.Sound size log.issued log.Obtained
  genuine : log.Genuine

end ReadLog

open ReadLog

namespace ThreadStore

variable {size : PageEntry → Nat} {acks : String × String → String → Prop} {s s' : ThreadStore}

theorem mem_readRange {threadId : String} {fromSeq toSeq limit byteBudget snapshot : Nat}
    {p : PageEntry}
    (h : p ∈ s.readRange size threadId fromSeq toSeq limit byteBudget (some snapshot)) :
    ∃ e ∈ s.entries, e.threadId = threadId ∧ e.seq = p.seq ∧ e.messageId = p.messageId := by
  rw [readRange_eq] at h
  split at h
  · cases h
  have hshown := takeBudget_prefix_self size byteBudget 0
    (((s.range threadId fromSeq toSeq).take limit).map (s.pageEntry true snapshot))
  obtain ⟨e, he, rfl⟩ := mem_map.mp (hshown.subset h)
  obtain ⟨he, hthread, -⟩ := mem_range.mp (mem_of_mem_take he)
  exact ⟨e, he, hthread, rfl, rfl⟩

/-- A read moves no cursor, and may only replace receipts: its own, and one of the identifier that
it brings along. -/
theorem threadRead_frame {request : ReadRequest} {outcome : ReadOutcome}
    (h : s.threadRead size request = .ok (outcome, s')) :
    s'.members = s.members ∧ s'.entries = s.entries ∧
      ∀ r ∈ s.reads, (request.threadId, request.actor) ≠ r.key → r.receiptId ≠ request.receiptId →
        r ∈ s'.reads := by
  rcases threadRead_cases h with ⟨rfl, -⟩ | ⟨rfl, -⟩ |
    ⟨_, _, _, -, -, -, ⟨rfl, -⟩ | ⟨_, -, -, -, rfl, -⟩⟩
  · exact ⟨rfl, rfl, fun _ hr _ _ => hr⟩
  · exact ⟨rfl, rfl, fun _ hr _ _ => hr⟩
  · exact ⟨rfl, rfl, fun _ hr _ _ => hr⟩
  · refine ⟨rfl, rfl, fun r hr hkey hid => mem_insertOrReplace.mpr (.inl ⟨hr, ?_⟩)⟩
    rintro (hsame | hsame)
    · exact hkey hsame.symm
    · exact hid hsame

theorem ReadingSteps.entries (hsteps : ReadingSteps acks s s') {e : EntryRow}
    (he : e ∈ s.entries) : e ∈ s'.entries := by
  induction hsteps with
  | refl => exact he
  | tail _ hstep ih =>
    cases hstep with
    | neutral _ _ hentries | thread _ _ _ hentries | member _ _ _ hentries => exact hentries ▸ ih
    | entry _ _ hinsert => exact (mem_insert hinsert).mpr (.inl ih)
    | ack _ _ _ _ _ _ _ _ hentries => exact hentries ▸ ih

end ThreadStore

namespace ReadLog

variable {size : PageEntry → Nat} {log : ReadLog} {op : ThreadOp} {reply : ThreadReply}
  {store : ThreadStore} {request : ReadRequest} {key : String × String} {issued : List String}

theorem step_of_ok (h : log.store.exec size op = .ok (reply, store)) :
    log.step size op = ⟨store, op.offers ++ log.issued, op.delivered reply ++ log.pages⟩ := by
  rw [step, h]

theorem step_of_error {e : StoreError} (h : log.store.exec size op = .error e) :
    log.step size op = { log with issued := op.offers ++ log.issued } := by
  rw [step, h]

theorem pages_subset_step : log.pages ⊆ (log.step size op).pages := by
  unfold step
  split
  · exact subset_append_right _ _
  · exact Subset.refl _

/-- A page more, and the store that returned it. -/
theorem Genuine.page (h : log.Genuine) {entries : List PageEntry}
    (hstore : store.entries = log.store.entries) (hpage : ∀ p ∈ entries, ∃ e ∈ log.store.entries,
      e.threadId = key.1 ∧ e.seq = p.seq ∧ e.messageId = p.messageId) :
    Genuine ⟨store, issued, (key, entries) :: log.pages⟩ := by
  intro page hmem p hp
  rw [hstore]
  rcases mem_cons.mp hmem with rfl | hmem
  · exact hpage p hp
  · exact h page hmem p hp

theorem Obtained.cons {n : Nat}
    {page : (String × String) × List PageEntry} (h : log.Obtained key n) :
    Obtained ⟨store, issued, page :: log.pages⟩ key n := by
  obtain ⟨page, hmem, hpage⟩ := h
  exact ⟨page, mem_cons_of_mem _ hmem, hpage⟩

theorem Sound.read {outcome : ReadOutcome} (h : log.Sound size)
    (hfresh : request.receiptId ∉ log.issued)
    (hread : log.store.threadRead size request = .ok (outcome, store)) :
    Sound size ⟨store, request.receiptId :: log.issued,
      (ThreadOp.read request).delivered (.read outcome) ++ log.pages⟩ := by
  have hkept := h.store.mono (subset_cons_self request.receiptId _) fun _ _ => id
  rcases threadRead_cases hread with ⟨rfl, _, rfl, -⟩ |
    ⟨rfl, active, hactive, hkey, rfl⟩ | ⟨thread, member, entries, hthread, hmember, hpage, hcase⟩
  · exact ⟨hkept, h.genuine⟩
  · -- the page of an active receipt again
    refine ⟨hkept.mono (Subset.refl _) fun _ _ => Obtained.cons, h.genuine.page rfl ?_⟩
    intro p hp
    obtain ⟨e, he, hid, hsame⟩ := mem_readRange hp
    exact ⟨e, he, hid.trans (Prod.mk.inj hkey).1, hsame⟩
  have hgenuine : ∀ p ∈ entries, ∃ e ∈ log.store.entries,
      e.threadId = request.threadId ∧ e.seq = p.seq ∧ e.messageId = p.messageId := by
    rw [← hpage]
    exact fun p hp => mem_readRange hp
  rcases hcase with ⟨rfl, -, rfl⟩ | ⟨_, hlast, hahead, hwithin, rfl, rfl⟩
  · exact ⟨hkept.mono (Subset.refl _) fun _ _ => Obtained.cons, h.genuine.page rfl hgenuine⟩
  refine ⟨?_, h.genuine.page rfl hgenuine⟩
  apply ThreadStore.Sound.freshRead
    (h.store.mono (Subset.refl _) fun _ _ => Obtained.cons) hthread hpage hfresh hmember
    hlast hahead hwithin
  intro _ hn
  exact ⟨_, mem_cons_self, rfl, hn⟩

theorem Sound.step (h : log.Sound size) (hfresh : log.Fresh op) :
    (log.step size op).Sound size := by
  cases hexec : log.store.exec size op with
  | error =>
    rw [step_of_error hexec]
    exact ⟨h.store.mono (subset_append_right _ _) fun _ _ => id, h.genuine⟩
  | ok result =>
    obtain ⟨reply, store⟩ := result
    rw [step_of_ok hexec]
    obtain ⟨_, _, rfl, rfl, hread⟩ | ⟨hop, hsteps⟩ := exec_cases hexec
    · exact h.read (hfresh _ mem_cons_self) hread
    have hquiet : op.offers = [] ∧ op.delivered reply = [] := by
      cases op <;> first | exact ⟨rfl, rfl⟩ | cases hop
    rw [hquiet.1, hquiet.2]
    refine ⟨hsteps.sound h.store, ?_⟩
    intro page hpage p hp
    obtain ⟨e, he, hsame⟩ := h.genuine page hpage p hp
    exact ⟨e, hsteps.entries he, hsame⟩

theorem Sound.of_run {ops : List ThreadOp} {log' : ReadLog} (h : log.Sound size)
    (hrun : Run (ReadLog.step size) Fresh log ops log') : log'.Sound size :=
  hrun.invariant (Sound size) (fun _ _ h hfresh => h.step hfresh) h

theorem sound_start : start.Sound size := ⟨ThreadStore.Sound.init, fun _ h => by cases h⟩

section

variable (h : log.Sound size) {m : MemberRow}

include h

/-- A page begins after the cursor of its reader. Without a receipt it is empty, and with a limit
of its own then nothing is left; otherwise the receipt covers it. -/
theorem Sound.page {page : Page} {receipt : Option String} {expiresAt : Option Int} {limit : Nat}
    {replayed : Bool} (hread : log.store.threadRead size request =
      .ok (.page page receipt expiresAt limit replayed, store)) (hm : m ∈ log.store.members)
    (hkey : m.key = (request.threadId, request.actor)) :
    store.members = log.store.members ∧
      page.entries.map PageEntry.seq = range' (m.ackedSeq + 1) page.entries.length ∧
      (receipt = none → page.entries = [] ∧ (1 ≤ request.limit →
        ∀ t ∈ log.store.threads, t.threadId = request.threadId → t.lastSeq ≤ m.ackedSeq)) ∧
      ∀ id, receipt = some id → ∃ row ∈ store.reads, row.key = m.key ∧ row.receiptId = id ∧
        row.throughSeq = m.ackedSeq + page.entries.length := by
  rcases threadRead_cases hread with ⟨-, _, hpage, -⟩ | ⟨rfl, active, hactive, hreader, hpage⟩ |
    ⟨thread, member, entries, hthread, hmember, hpage, hcase⟩
  · cases hpage
  · cases hpage
    have hpromise := h.store.receipts active hactive
    obtain ⟨reader, hreaderMem, hreaderKey, hbase, -⟩ := hpromise.reader
    cases eq_of_member_key hreaderMem hm (hreaderKey.trans (hreader.trans hkey.symm))
    have hseqs := hpromise.reread
    have hlength := congrArg length hseqs
    rw [length_map, length_range'] at hlength
    refine ⟨rfl, ?_, nofun, ?_⟩
    · rw [hseqs, ← hlength, hbase]
    · intro id hid
      cases hid
      refine ⟨active, hactive, hreader.trans hkey.symm, rfl, ?_⟩
      rw [hbase, hlength, Nat.add_sub_cancel' hpromise.ahead.le]
  · obtain ⟨hmemberMem, hmemberKey⟩ := loadMember_eq_some.mp hmember
    cases eq_of_member_key hmemberMem hm (hmemberKey.trans hkey.symm)
    obtain ⟨hseqs, hempty, -⟩ := h.store.page_seqs hthread hpage
    rcases hcase with ⟨rfl, hnil, hout⟩ | ⟨_, hlast, -, -, rfl, hout⟩
    · cases hout
      refine ⟨rfl, hseqs, fun _ => ⟨hnil, ?_⟩, nofun⟩
      intro _ t ht hid
      have hthread' := loadThread_eq_some.mpr ⟨ht, hid⟩
      rw [hthread'] at hthread
      cases hthread
      exact (hempty.mp hnil).resolve_right (by omega)
    · cases hout
      refine ⟨rfl, hseqs, nofun, ?_⟩
      intro id hid
      cases hid
      refine ⟨_, mem_insertOrReplace.mpr (.inr rfl), hkey.symm, rfl, ?_⟩
      exact last_seq_of_range' hseqs hlast

/-- A member that neither reads nor confirms keeps its cursor and its receipt: the receipts of
others have other identifiers. -/
theorem Sound.keeps (hfresh : log.Fresh op) (hexec : log.store.exec size op = .ok (reply, store))
    (hread : op.readsAs key = false) (hnever : ∀ receipt, ¬ op.acks key receipt) :
    (∀ m ∈ log.store.members, m.key = key → m ∈ store.members) ∧
      ∀ r ∈ log.store.reads, r.key = key → r ∈ store.reads := by
  obtain ⟨_, _, rfl, rfl, hread'⟩ | ⟨-, hsteps⟩ := exec_cases hexec
  · obtain ⟨hmembers, -, hothers⟩ := threadRead_frame hread'
    refine ⟨fun m hm _ => hmembers ▸ hm, fun r hr hkey => hothers r hr ?_ ?_⟩
    · exact hkey ▸ of_decide_eq_false hread
    · intro hused
      exact hfresh _ mem_cons_self (hused ▸ (h.store.receipts r hr).issued)
  · exact hsteps.keeps h.store hnever

theorem Sound.cursor (hm : m ∈ log.store.members)
    (hfresh : log.Fresh op) : ∃ m' ∈ (log.step size op).store.members,
      m'.key = m.key ∧ m.ackedSeq ≤ m'.ackedSeq := by
  cases hexec : log.store.exec size op with
  | error =>
    rw [step_of_error hexec]
    exact ⟨m, hm, rfl, le_rfl⟩
  | ok result =>
    obtain ⟨_, store⟩ := result
    rw [step_of_ok hexec]
    obtain ⟨_, _, rfl, rfl, hread⟩ | ⟨-, hsteps⟩ := exec_cases hexec
    · exact ⟨m, (threadRead_frame hread).1 ▸ hm, rfl, le_rfl⟩
    · exact hsteps.cursor h.store hm

/-- An entry that was confirmed is in a page of its reader, under its own name. -/
theorem Sound.confirmed (hm : m ∈ log.store.members) {e : EntryRow}
    (he : e ∈ log.store.entries) (hthread : e.threadId = m.threadId) (hle : e.seq ≤ m.ackedSeq) :
    ∃ page ∈ log.pages, page.1 = m.key ∧ ∃ p ∈ page.2,
      p.seq = e.seq ∧ p.messageId = e.messageId := by
  obtain ⟨_, hlast⟩ := h.store.homed e he
  have hpos : 1 ≤ e.seq := ((h.store.consecutive _ _ hlast e.seq).mp ⟨e, he, rfl, rfl⟩).1
  obtain ⟨page, hpage, hkey, hmem⟩ := h.store.confirmed m hm e.seq hpos hle
  obtain ⟨p, hp, hseq⟩ := mem_map.mp hmem
  obtain ⟨shown, hshown, hhome, hsame, hid⟩ := h.genuine page hpage p hp
  have hkeyThread : page.1.1 = m.threadId := by rw [hkey]; rfl
  have heq : shown = e := eq_of_conflicts hshown he
    (.inl ⟨hhome.trans (hkeyThread.trans hthread.symm), hsame.trans hseq⟩)
  exact ⟨page, hpage, hkey, p, hp, hseq, by rw [← hid, heq]⟩

end

end ReadLog

/-- What a member has obtained, and the receipt that it holds. -/
structure ReadSession where
  log : ReadLog
  obtained : List PageEntry
  holding : Option String

namespace ReadSession

def start (log : ReadLog) : ReadSession := ⟨log, [], none⟩

/-- The member hears the answer to its own operation. -/
def hear (key : String × String) (s : ReadSession) (reply : ThreadReply) : ThreadOp → ReadSession
  | .read request =>
    if (request.threadId, request.actor) = key then
      match reply.page? with
      | some (page, receipt) =>
        { s with obtained := s.obtained ++ page.entries, holding := receipt }
      | none => s
    else s
  | .ack actor threadId _ =>
    if (threadId, actor) = key ∧ reply.confirms then { s with holding := none } else s
  | _ => s

def record (size : PageEntry → Nat) (s : ReadSession) (op : ThreadOp) : ReadSession :=
  { s with log := s.log.step size op }

def step (size : PageEntry → Nat) (key : String × String) (s : ReadSession) (op : ThreadOp) :
    ReadSession :=
  match s.log.store.exec size op with
  | .ok (reply, _) => (s.record size op).hear key reply op
  | .error _ => s.record size op

/-- The member reads while it holds no receipt, and confirms the receipt that it holds; the others
do as they like. -/
def Alternates (key : String × String) (s : ReadSession) (op : ThreadOp) : Prop :=
  s.log.Fresh op ∧
    match op with
    | .read request =>
      (request.threadId, request.actor) = key → s.holding = none ∧ 1 ≤ request.limit
    | .ack actor threadId receipt => (threadId, actor) = key → s.holding = some receipt
    | .post request _ => (request.threadId, request.actor) = key → request.ackReceipt = none
    | _ => True

instance (key : String × String) (s : ReadSession) (op : ThreadOp) :
    Decidable (s.Alternates key op) := by
  cases op <;> exact inferInstanceAs (Decidable (_ ∧ _))

/-- The entries up to `upto` were obtained, and those that are not confirmed are held. -/
structure Sound (size : PageEntry → Nat) (key : String × String) (first : Nat) (s : ReadSession) :
    Prop where
  log : s.log.Sound size
  returned : ∀ p ∈ s.obtained, ∃ page ∈ s.log.pages, page.1 = key ∧ p ∈ page.2
  progress : ∃ m ∈ s.log.store.members, m.key = key ∧ ∃ upto, first ≤ m.ackedSeq ∧
    m.ackedSeq ≤ upto ∧ s.obtained.map PageEntry.seq = range' (first + 1) (upto - first) ∧
    (s.holding = none → upto = m.ackedSeq) ∧
    ∀ receipt, s.holding = some receipt → ∃ row ∈ s.log.store.reads, row.key = key ∧
      row.receiptId = receipt ∧ row.throughSeq = upto

variable {size : PageEntry → Nat} {key : String × String} {first : Nat} {s : ReadSession}
  {op : ThreadOp} {log : ReadLog}

theorem Sound.start {m : MemberRow} (h : log.Sound size)
    (hm : m ∈ log.store.members) (hkey : m.key = key) :
    Sound size key m.ackedSeq (ReadSession.start log) where
  log := h
  returned _ hp := absurd hp not_mem_nil
  progress := ⟨m, hm, hkey, m.ackedSeq, le_rfl, le_rfl, by simp [ReadSession.start], fun _ => rfl,
    nofun⟩

section

variable (h : s.Sound size key first)

include h

theorem Sound.keep (hlog : log.Sound size) (hpages : s.log.pages ⊆ log.pages)
    (hmembers : ∀ m ∈ s.log.store.members, m.key = key → m ∈ log.store.members)
    (hreads : ∀ r ∈ s.log.store.reads, r.key = key → r ∈ log.store.reads) :
    Sound size key first { s with log } where
  log := hlog
  returned p hp := by
    obtain ⟨page, hpage, hrest⟩ := h.returned p hp
    exact ⟨page, hpages hpage, hrest⟩
  progress := by
    obtain ⟨m, hm, hkey, upto, hfirst, hupto, hobtained, hfree, hheld⟩ := h.progress
    refine ⟨m, hmembers m hm hkey, hkey, upto, hfirst, hupto, hobtained, hfree, ?_⟩
    intro receipt hholding
    obtain ⟨row, hrow, hrowKey, hrest⟩ := hheld receipt hholding
    exact ⟨row, hreads row hrow hrowKey, hrowKey, hrest⟩

theorem Sound.same (hlog : (s.log.step size op).Sound size)
    (hsame : (s.log.step size op).store = s.log.store) :
    (s.record size op).Sound size key first := by
  refine h.keep hlog pages_subset_step ?_ ?_ <;> rw [hsame]
  · exact fun _ hm _ => hm
  · exact fun _ hr _ => hr

variable {reply : ThreadReply} {store : ThreadStore} {request : ReadRequest}

/-- A page continues where the last one ended. -/
theorem Sound.read (hfresh : s.log.Fresh (.read request))
    (hkey : (request.threadId, request.actor) = key) (hholding : s.holding = none)
    (hexec : s.log.store.exec size (.read request) = .ok (reply, store)) :
    ((s.record size (.read request)).hear key reply (.read request)).Sound size key first := by
  have hlog := h.log.step hfresh
  obtain ⟨m, hm, hmkey, _, hfirst, -, hobtained, hfree, _⟩ := h.progress
  obtain ⟨outcome, hread, rfl⟩ := map_fst_eq_ok.mp hexec
  have hstore : (s.log.step size (.read request)).store = store := by rw [step_of_ok hexec]
  cases outcome with
  | refused =>
    have hsame : store = s.log.store := by
      rcases threadRead_cases hread with ⟨rfl, -⟩ | ⟨rfl, -⟩ |
        ⟨_, _, _, -, -, -, ⟨rfl, -⟩ | ⟨_, -, -, -, -, hout⟩⟩
      · rfl
      · rfl
      · rfl
      · cases hout
    simp only [hear, hkey, if_true, ThreadReply.page?]
    exact h.same hlog (hstore.trans hsame)
  | page page =>
    obtain ⟨hmembers, hseqs, hnone, hsome⟩ := h.log.page hread hm (hmkey.trans hkey.symm)
    obtain rfl := hfree hholding
    simp only [hear, hkey, if_true, ThreadReply.page?, record]
    refine ⟨hlog, ?_, m, by rw [hstore, hmembers]; exact hm, hmkey,
      m.ackedSeq + page.entries.length, hfirst, Nat.le_add_right _ _, ?_, ?_, ?_⟩
    · intro p hp
      rcases mem_append.mp hp with hp | hp
      · obtain ⟨page, hpage, hrest⟩ := h.returned p hp
        exact ⟨page, pages_subset_step hpage, hrest⟩
      · refine ⟨(key, page.entries), ?_, rfl, hp⟩
        rw [step_of_ok hexec, ← hkey]
        exact mem_cons_self
    · have hend : first + 1 + (m.ackedSeq - first) = m.ackedSeq + 1 := by omega
      have hcount : m.ackedSeq + page.entries.length - first =
          m.ackedSeq - first + page.entries.length := by omega
      rw [map_append, hobtained, hseqs, hcount, ← range'_append_1, hend]
    · intro hreceipt
      rw [(hnone hreceipt).1]
      rfl
    · intro id hid
      rw [hstore]
      obtain ⟨row, hrow, hrowKey, hrest⟩ := hsome id hid
      exact ⟨row, hrow, hrowKey.trans hmkey, hrest⟩

/-- The receipt that is held was never confirmed before, so its confirmation moves the cursor to
the end of the page. -/
theorem Sound.ack {actor threadId receipt : String}
    (hkey : (threadId, actor) = key) (hholding : s.holding = some receipt)
    (hexec : s.log.store.exec size (.ack actor threadId receipt) = .ok (reply, store)) :
    ((s.record size (.ack actor threadId receipt)).hear key reply
      (.ack actor threadId receipt)).Sound size key first := by
  have hfresh : s.log.Fresh (.ack actor threadId receipt) := by rintro _ ⟨⟩
  have hlog := h.log.step hfresh
  obtain ⟨m, hm, hmkey, upto, hfirst, hupto, hobtained, -, hheld⟩ := h.progress
  obtain ⟨row, hrow, hrowKey, hrowId, hthrough⟩ := hheld receipt hholding
  obtain ⟨outcome, hack, rfl⟩ := map_fst_eq_ok.mp hexec
  have hstore : (s.log.step size (.ack actor threadId receipt)).store = store := by
    rw [step_of_ok hexec]
  have hdeaf : store = s.log.store → (ThreadReply.ack outcome).confirms = false →
      ((s.record size (.ack actor threadId receipt)).hear key (.ack outcome)
        (.ack actor threadId receipt)).Sound size key first := by
    intro hsame hrefused
    simp only [hear, hrefused, Bool.false_eq_true, and_false, if_false]
    exact h.same hlog (hstore.trans hsame)
  rcases threadAck_cases hack with ⟨hsame, _, rfl, -⟩ |
    ⟨_, member, applied, -, hmember, happly, hanswer⟩
  · exact hdeaf hsame rfl
  obtain ⟨hmemberMem, hmemberKey⟩ := loadMember_eq_some.mp hmember
  cases eq_of_member_key hmemberMem hm (hmemberKey.trans (hkey.trans hmkey.symm))
  have hread : s.log.store.loadRead threadId m.agentId = some row :=
    loadRead_eq_some.mpr ⟨hrow, by rw [hrowKey, ← hkey, (Prod.mk.inj hmemberKey).2]⟩
  rcases applyAck_cases happly with ⟨hsame, hcase⟩ |
    ⟨active, members, n, hactive, hid, hbase, happlied, hupdate, hsatisfy⟩
  · rcases hcase with ⟨-, hlast⟩ | ⟨-, hnone⟩ | ⟨_, -, ⟨happlied, -⟩ | ⟨happlied, -⟩⟩
    · obtain ⟨reader, hreader, hreaderKey, -, hunused⟩ := (h.log.store.receipts row hrow).reader
      cases eq_of_member_key hreader hm
        (hreaderKey.trans (hrowKey.trans hmkey.symm))
      exact absurd (hrowId ▸ hlast) hunused
    · rw [hread] at hnone
      cases hnone
    all_goals
      subst happlied
      cases hanswer
      exact hdeaf hsame rfl
  · rw [hread] at hactive
    cases hactive
    subst happlied
    cases hanswer
    simp only [hear, hkey, ThreadReply.confirms, and_self, if_true, record]
    simp only [satisfyWake, ok_iff, sqlite_eq_ok, pair_iff] at hsatisfy
    obtain ⟨_, _, -, rfl⟩ := hsatisfy
    refine ⟨hlog, ?_, confirm row.receiptId row.throughSeq m, ?_, hmkey, upto, ?_, ?_,
      hobtained, ?_, by simp⟩
    · intro p hp
      obtain ⟨page, hpage, hrest⟩ := h.returned p hp
      exact ⟨page, pages_subset_step hpage, hrest⟩
    · rw [hstore]
      refine (mem_update hupdate).mpr ⟨m, hm, if_pos (decide_eq_true ?_)⟩
      rw [hmemberKey, (Prod.mk.inj hmemberKey).2]
    · exact hfirst.trans (hupto.trans hthrough.ge)
    · exact hthrough.le
    · exact fun _ => hthrough.symm

theorem Sound.step (hop : s.Alternates key op) : (s.step size key op).Sound size key first := by
  obtain ⟨hfresh, hturn⟩ := hop
  have hlog := h.log.step hfresh
  unfold ReadSession.step
  cases hexec : s.log.store.exec size op with
  | error => exact h.same hlog (by rw [step_of_error hexec])
  | ok result =>
    obtain ⟨reply, store⟩ := result
    dsimp only
    by_cases hread : op.readsAs key = true
    · cases op with
      | read =>
        have hkey := of_decide_eq_true hread
        exact h.read hfresh hkey (hturn hkey).1 hexec
      | _ => cases hread
    by_cases hack : ∃ receipt, op.acks key receipt
    · obtain ⟨_, hack⟩ := hack
      cases op with
      | ack =>
        obtain ⟨rfl, rfl⟩ := hack
        exact h.ack rfl (hturn rfl) hexec
      | post =>
        obtain ⟨rfl, hreceipt⟩ := hack
        rw [hturn rfl] at hreceipt
        cases hreceipt
      | _ => cases hack
    · have hread := Bool.eq_false_of_not_eq_true hread
      push Not at hack
      have hsilent : (s.record size op).hear key reply op = s.record size op := by
        cases op with
        | read => exact if_neg (of_decide_eq_false hread)
        | ack => exact if_neg fun hkey => hack _ ⟨hkey.1.symm, rfl⟩
        | _ => rfl
      rw [hsilent]
      obtain ⟨hmembers, hreads⟩ := h.log.keeps hfresh hexec hread hack
      have hstore : (s.log.step size op).store = store := by rw [step_of_ok hexec]
      exact h.keep hlog pages_subset_step (hstore ▸ hmembers) (hstore ▸ hreads)

theorem Sound.of_run {ops : List ThreadOp} {s' : ReadSession}
    (hrun : Run (ReadSession.step size key) (Alternates key) s ops s') : s'.Sound size key first :=
  hrun.invariant (Sound size key first) (fun _ _ h hop => h.step hop) h

/-- With the page that has no receipt the member has everything. -/
theorem Sound.complete {page : Page} {expiresAt : Option Int} {limit : Nat} {replayed : Bool}
    {t : ThreadRow} (hholding : s.holding = none) (hkey : (request.threadId, request.actor) = key)
    (hlimit : 1 ≤ request.limit) (hread : s.log.store.threadRead size request =
      .ok (.page page none expiresAt limit replayed, store)) (ht : t ∈ s.log.store.threads)
    (hthread : t.threadId = request.threadId) :
    (s.obtained ++ page.entries).map PageEntry.seq = range' (first + 1) (t.lastSeq - first) ∧
      ∀ p ∈ s.obtained ++ page.entries, ∃ e ∈ s.log.store.entries,
        e.threadId = t.threadId ∧ e.seq = p.seq ∧ e.messageId = p.messageId := by
  obtain ⟨m, hm, hmkey, _, -, -, hobtained, hfree, -⟩ := h.progress
  obtain ⟨-, -, hnone, -⟩ := h.log.page hread hm (hmkey.trans hkey.symm)
  obtain ⟨hempty, hall⟩ := hnone rfl
  have hle : t.lastSeq ≤ m.ackedSeq := hall hlimit t ht hthread
  obtain ⟨_, hlast, _⟩ := h.log.store.cursor m hm
  have hsame : m.threadId = t.threadId := by
    rw [hthread]
    exact (Prod.mk.inj (hmkey.trans hkey.symm)).1
  have hlast' := numbers_unique hlast
    (mem_numbers.mpr ⟨t, ht, hsame.symm, rfl⟩)
  have hend : t.lastSeq = m.ackedSeq := by omega
  rw [hempty, append_nil]
  refine ⟨by rw [hobtained, hfree hholding, hend], ?_⟩
  intro p hp
  obtain ⟨page, hpage, hreader, hp⟩ := h.returned p hp
  obtain ⟨e, he, hhome, hrest⟩ := h.log.genuine page hpage p hp
  refine ⟨e, he, ?_, hrest⟩
  rw [hhome, hreader, ← hkey, hthread]

end

end ReadSession

/-- No entry of a thread is lost to its members, over all runs in which no receipt identifier is
used twice. -/
theorem thread_reading_loses_nothing (size : PageEntry → Nat) {ops : List ThreadOp} {log : ReadLog}
    (hrun : Run (ReadLog.step size) ReadLog.Fresh ReadLog.start ops log) :
    (∀ t ∈ log.store.threads, ∀ n,
      (∃ e ∈ log.store.entries, e.threadId = t.threadId ∧ e.seq = n) ↔ 1 ≤ n ∧ n ≤ t.lastSeq) ∧
    (∀ m ∈ log.store.members,
      (∃ t ∈ log.store.threads, t.threadId = m.threadId ∧ m.ackedSeq ≤ t.lastSeq) ∧
      (∀ op, log.Fresh op → ∃ m' ∈ (log.step size op).store.members,
        m'.key = m.key ∧ m.ackedSeq ≤ m'.ackedSeq) ∧
      ∀ e ∈ log.store.entries, e.threadId = m.threadId → e.seq ≤ m.ackedSeq →
        ∃ page ∈ log.pages, page.1 = m.key ∧ ∃ p ∈ page.2,
          p.seq = e.seq ∧ p.messageId = e.messageId) ∧
    (∀ r ∈ log.store.reads, ∃ m ∈ log.store.members, m.key = r.key ∧ r.baseSeq = m.ackedSeq) ∧
    (∀ op reply store, log.store.exec size op = .ok (reply, store) →
      reply.refusal ≠ some .cursorConflict) ∧
    ∀ m ∈ log.store.members, ∀ turns session,
      Run (ReadSession.step size m.key) (ReadSession.Alternates m.key) (ReadSession.start log) turns
        session →
      ∀ request page expiresAt limit replayed store, (request.threadId, request.actor) = m.key →
        1 ≤ request.limit → session.holding = none →
        session.log.store.threadRead size request =
          .ok (.page page none expiresAt limit replayed, store) →
        ∀ t ∈ session.log.store.threads, t.threadId = request.threadId →
          (session.obtained ++ page.entries).map PageEntry.seq =
              range' (m.ackedSeq + 1) (t.lastSeq - m.ackedSeq) ∧
            ∀ p ∈ session.obtained ++ page.entries, ∃ e ∈ session.log.store.entries,
              e.threadId = t.threadId ∧ e.seq = p.seq ∧ e.messageId = p.messageId := by
  have hsound : log.Sound size := ReadLog.sound_start.of_run hrun
  refine ⟨?_, ?_, ?_, ?_, ?_⟩
  · intro t ht
    exact hsound.store.consecutive _ _ (mem_numbers.mpr ⟨t, ht, rfl, rfl⟩)
  · intro m hm
    refine ⟨?_, fun op hfresh => hsound.cursor hm hfresh, fun e he hthread hle => ?_⟩
    · obtain ⟨_, hlast, hle⟩ := hsound.store.cursor m hm
      obtain ⟨t, ht, hid, rfl⟩ := mem_numbers.mp hlast
      exact ⟨t, ht, hid, hle⟩
    · exact hsound.confirmed hm he hthread hle
  · intro r hr
    obtain ⟨m, hm, hkey, hbase, -⟩ := (hsound.store.receipts r hr).reader
    exact ⟨m, hm, hkey, hbase.symm⟩
  · intro op reply store hexec hconflict
    exact hsound.store.not_cursorMoved (exec_conflict hexec hconflict)
  · intro m hm turns session hturns request page expiresAt limit replayed store hkey hlimit
      hholding hread t ht hthread
    exact ((ReadSession.Sound.start hsound hm rfl).of_run hturns).complete hholding hkey hlimit
      hread ht hthread

def dailyThread : CreateThread :=
  { actor := "ann", operationId := "o0", canonicalHash := "h0", threadId := "daily",
    title := "Daily", members := ["ann", "bob"], projectWarnings := [], now := 0,
    limits := ⟨10, 10, 10, 1000, 1000⟩ }

def dailyNote (operationId messageId : String) : PostEntry :=
  { actor := "ann", operationId, canonicalHash := "h", threadId := "daily", messageId,
    body := "done", notify := .none, notices := [], projectWarnings := [], replyToSeq := none,
    ackReceipt := none, kind := none, supersedesSeq := none, now := 1,
    limits := ⟨10, 10, 10, 1000, 1000⟩ }

def dailyRead (receiptId : String) (now : Int) : ReadRequest :=
  { actor := "bob", threadId := "daily", limit := 1, limit_le := by decide, byteBudget := 0,
    byteBudget_le := by decide, receiptId, receiptTtlSecs := 60, now }

def dailyOps : List ThreadOp :=
  [.create dailyThread, .post (dailyNote "o1" "m1") fun _ => false,
    .post (dailyNote "o2" "m2") fun _ => false]

def dailyTurns : List ThreadOp :=
  [.read (dailyRead "r1" 10), .ack "bob" "daily" "r1", .read (dailyRead "r2" 20),
    .ack "bob" "daily" "r2"]

def dailyLog : ReadLog := dailyOps.foldl (step fun _ => 100) start

def dailySession : ReadSession :=
  dailyTurns.foldl (ReadSession.step (fun _ => 100) ("daily", "bob")) (ReadSession.start dailyLog)

/-- Two pages of one note each. -/
theorem daily_notes_are_read_in_turn :
    dailySession.obtained.map PageEntry.seq = [1, 2] ∧
      ∀ p ∈ dailySession.obtained, ∃ e ∈ dailySession.log.store.entries,
        e.threadId = "daily" ∧ e.seq = p.seq ∧ e.messageId = p.messageId := by
  have hrun : Run (step fun _ => 100) ReadLog.Fresh start dailyOps dailyLog :=
    Run.of_allows (by decide +kernel)
  have hturns : Run (ReadSession.step (fun _ => 100) ("daily", "bob"))
      (ReadSession.Alternates ("daily", "bob")) (ReadSession.start dailyLog) dailyTurns
      dailySession := Run.of_allows (by decide +kernel)
  have hmember : (⟨"daily", "bob", 0, none, none⟩ : MemberRow) ∈ dailyLog.store.members.rows := by
    decide +kernel
  have hthread : (⟨"daily", "ann", "Daily", 0, none, 2, 8⟩ : ThreadRow) ∈
      dailySession.log.store.threads.rows := by decide +kernel
  have hholding : dailySession.holding = none := by decide +kernel
  have hlast : (dailySession.log.store.threadRead (fun _ => 100) (dailyRead "r3" 30)).map Prod.fst =
      .ok (.page ⟨[], 2, 2, 2, false⟩ none none 1 false) := by decide +kernel
  obtain ⟨⟨_, _⟩, hread, rfl⟩ := map_eq_ok.mp hlast
  obtain ⟨-, -, -, -, hsessions⟩ := thread_reading_loses_nothing (fun _ => 100) hrun
  have hall := hsessions _ (mem_rows.mp hmember) dailyTurns dailySession hturns
    (dailyRead "r3" 30) _ _ _ _ _ rfl (by decide) hholding hread _ (mem_rows.mp hthread) rfl
  exact hall

end Bridget.Threads
