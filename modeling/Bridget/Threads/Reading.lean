import Bridget.Threads.Steps

/-!
# Cursors, receipts and pages

What holds of the three tables that a reading uses, between any two operations. The pages that
were returned are kept beside the store.
-/

namespace Bridget.Threads

open Foundation Relation Table List

def MemberRow.IsNew (m : MemberRow) : Prop := m.ackedSeq = 0 ∧ m.lastAckReceipt = none

namespace ThreadStore

section

variable (size : PageEntry → Nat) (issued : List String) (obtained : String × String → Nat → Prop)

/-- The entries that an active receipt stands for, read again. -/
abbrev reread (s : ThreadStore) (r : ReadRow) : List PageEntry :=
  s.readRange size r.threadId (r.baseSeq + 1) r.throughSeq u32Max usizeMax (some r.snapshotSeq)

/-- What an active receipt promises to its reader. -/
structure Promises (s : ThreadStore) (r : ReadRow) : Prop where
  reader : ∃ m ∈ s.members, m.key = r.key ∧ m.ackedSeq = r.baseSeq ∧
    m.lastAckReceipt ≠ some r.receiptId
  known : ∃ last, (r.threadId, last) ∈ s.numbers ∧ r.snapshotSeq ≤ last
  ahead : r.baseSeq < r.throughSeq
  within : r.throughSeq ≤ r.snapshotSeq
  issued : r.receiptId ∈ issued
  seen : ∀ n, r.baseSeq < n → n ≤ r.throughSeq → obtained r.key n
  reread : (reread size s r).map PageEntry.seq = range' (r.baseSeq + 1) (r.throughSeq - r.baseSeq)

/-- The entries are numbered without gaps, a cursor is behind them, and all that it has passed was
obtained by its member. -/
structure Sound (s : ThreadStore) : Prop where
  consecutive : ∀ threadId last, (threadId, last) ∈ s.numbers → s.Consecutive threadId last
  homed : ∀ e ∈ s.entries, ∃ last, (e.threadId, last) ∈ s.numbers
  cursor : ∀ m ∈ s.members, ∃ last, (m.threadId, last) ∈ s.numbers ∧ m.ackedSeq ≤ last
  confirmed : ∀ m ∈ s.members, ∀ n, 1 ≤ n → n ≤ m.ackedSeq → obtained m.key n
  spent : ∀ m ∈ s.members, ∀ receipt, m.lastAckReceipt = some receipt → receipt ∈ issued
  receipts : ∀ r ∈ s.reads, Promises size issued obtained s r

end

variable {size : PageEntry → Nat} {issued : List String} {obtained : String × String → Nat → Prop}
  {acks : String × String → String → Prop} {s s' : ThreadStore} {r : ReadRow} {m : MemberRow}

theorem eq_of_member_key {a b : MemberRow} (ha : a ∈ s.members) (hb : b ∈ s.members)
    (hkey : a.key = b.key) : a = b :=
  eq_of_conflicts ha hb hkey

theorem Sound.init : Sound size issued obtained ThreadStore.init where
  consecutive threadId last hlast := by simp [numbers, ThreadStore.init, empty] at hlast
  homed e he := by simp [ThreadStore.init] at he
  cursor m hm := by simp [ThreadStore.init] at hm
  confirmed m hm := by simp [ThreadStore.init] at hm
  spent m hm := by simp [ThreadStore.init] at hm
  receipts r hr := by simp [ThreadStore.init] at hr

/-- A receipt keeps its promise while the threads grow, its reader stays and its range can be read
again. -/
theorem Promises.transfer (h : Promises size issued obtained s r)
    (hmembers : ∀ m ∈ s.members, m.key = r.key → m ∈ s'.members)
    (hnumbers : ∀ threadId last, (threadId, last) ∈ s.numbers →
      ∃ more, (threadId, more) ∈ s'.numbers ∧ last ≤ more)
    (hpages : s'.reread size r = s.reread size r) : Promises size issued obtained s' r := by
  obtain ⟨m, hm, hkey, hbase⟩ := h.reader
  obtain ⟨_, hlast, hle⟩ := h.known
  obtain ⟨more, hmore, hgrown⟩ := hnumbers _ _ hlast
  exact { h with
    reader := ⟨m, hmembers m hm hkey, hkey, hbase⟩
    known := ⟨more, hmore, hle.trans hgrown⟩
    reread := hpages ▸ h.reread }

/-- The numbering is sound, and threads only grow. -/
structure Grows (s s' : ThreadStore) : Prop where
  consecutive : ∀ threadId last, (threadId, last) ∈ s'.numbers → s'.Consecutive threadId last
  homed : ∀ e ∈ s'.entries, ∃ last, (e.threadId, last) ∈ s'.numbers
  numbers : ∀ threadId last, (threadId, last) ∈ s.numbers →
    ∃ more, (threadId, more) ∈ s'.numbers ∧ last ≤ more

section

variable (h : Sound size issued obtained s) {entry : EntryRow}

include h

/-- Between two confirmations only new members come in, and every receipt stays. -/
theorem Sound.grow (hgrows : Grows s s')
    (hkept : ∀ m ∈ s.members, m ∈ s'.members) (hnew : ∀ m ∈ s'.members, m ∈ s.members ∨
      m.IsNew ∧ ∃ last, (m.threadId, last) ∈ s'.numbers) (hreads : s'.reads = s.reads)
    (hpages : ∀ r ∈ s.reads, reread size s' r = reread size s r) :
    Sound size issued obtained s' where
  consecutive := hgrows.consecutive
  homed := hgrows.homed
  cursor m hm := by
    rcases hnew m hm with hold | ⟨⟨hzero, -⟩, last, hlast⟩
    · obtain ⟨_, hlast, hle⟩ := h.cursor m hold
      obtain ⟨more, hmore, hgrown⟩ := hgrows.numbers _ _ hlast
      exact ⟨more, hmore, hle.trans hgrown⟩
    · exact ⟨last, hlast, hzero ▸ Nat.zero_le _⟩
  confirmed m hm n hpos hle := by
    rcases hnew m hm with hold | ⟨⟨_, -⟩, -⟩
    · exact h.confirmed m hold n hpos hle
    · omega
  spent m hm receipt hlast := by
    rcases hnew m hm with hold | ⟨⟨-, hnone⟩, -⟩
    · exact h.spent m hold receipt hlast
    · rw [hnone] at hlast
      cases hlast
  receipts r hr := by
    rw [hreads] at hr
    exact (h.receipts r hr).transfer (fun m hm _ => hkept m hm) hgrows.numbers (hpages r hr)

theorem Sound.grow_same (hgrows : Grows s s') (hmembers : s'.members = s.members)
    (hreads : s'.reads = s.reads) (hpages : ∀ r ∈ s.reads, reread size s' r = reread size s r) :
    Sound size issued obtained s' := by
  refine h.grow hgrows ?_ ?_ hreads hpages <;> rw [hmembers]
  · exact fun m hm => hm
  · exact fun m hm => .inl hm

/-- Nothing changes in the numbering while threads and entries stay. -/
theorem Sound.grows_of_eq (hnumbers : s'.numbers = s.numbers)
    (hentries : s'.entries = s.entries) : Grows s s' where
  consecutive threadId last hlast := by
    unfold Consecutive
    rw [hentries]
    exact h.consecutive threadId last (hnumbers ▸ hlast)
  homed := by
    rw [hentries, hnumbers]
    exact h.homed
  numbers threadId last hlast := ⟨last, hnumbers ▸ hlast, le_rfl⟩

/-- A new thread is empty: an entry of it would have a thread already. -/
theorem Sound.grows_of_thread {threadId : String} (hfresh : ∀ last, (threadId, last) ∉ s.numbers)
    (hnumbers : s'.numbers = s.numbers ++ [(threadId, 0)]) (hentries : s'.entries = s.entries) :
    Grows s s' := by
  have hgrown : ∀ id last, (id, last) ∈ s.numbers → (id, last) ∈ s'.numbers := by
    intro id last hlast
    rw [hnumbers]
    exact mem_append_left _ hlast
  refine ⟨?_, ?_, fun id last hlast => ⟨last, hgrown id last hlast, le_rfl⟩⟩
  · intro id last hlast
    unfold Consecutive
    rw [hentries]
    rw [hnumbers, mem_append, mem_singleton] at hlast
    rcases hlast with hold | hnew
    · exact h.consecutive id last hold
    cases hnew
    intro _
    constructor
    · rintro ⟨e, he, hid, -⟩
      obtain ⟨last, hlast⟩ := h.homed e he
      exact absurd (hid ▸ hlast) (hfresh last)
    · omega
  · rw [hentries]
    intro e he
    obtain ⟨last, hlast⟩ := h.homed e he
    exact ⟨last, hgrown _ _ hlast⟩

variable {last : Nat} (hlast : (entry.threadId, last) ∈ s.numbers)

include hlast

omit h in
theorem mem_numbers_of_entry (hnumbers : s'.numbers = s.numbers.map fun u =>
      if u.1 = entry.threadId then (u.1, last + 1) else u) (threadId : String) (n : Nat) :
    (threadId, n) ∈ s'.numbers ↔ threadId = entry.threadId ∧ n = last + 1 ∨
        threadId ≠ entry.threadId ∧ (threadId, n) ∈ s.numbers := by
  rw [hnumbers, mem_map]
  constructor
  · rintro ⟨⟨_, _⟩, hmem, heq⟩
    split at heq
    next hid => exact .inl ⟨(Prod.mk.inj heq).1 ▸ hid, (Prod.mk.inj heq).2.symm⟩
    next hid =>
      cases heq
      exact .inr ⟨hid, hmem⟩
  · rintro (⟨rfl, rfl⟩ | ⟨hid, hmem⟩)
    · exact ⟨_, hlast, if_pos rfl⟩
    · exact ⟨_, hmem, if_neg hid⟩

theorem Sound.grows_of_entry (hseq : entry.seq = last + 1)
    (hinsert : s.entries.insert entry = .ok s'.entries)
    (hnumbers : s'.numbers = s.numbers.map fun u =>
      if u.1 = entry.threadId then (u.1, last + 1) else u) : Grows s s' := by
  have hmem := mem_numbers_of_entry hlast hnumbers
  refine ⟨?_, ?_, ?_⟩
  · intro id n hn k
    simp only [mem_insert hinsert, or_and_right, exists_or, exists_eq_left]
    rcases (hmem id n).mp hn with ⟨rfl, rfl⟩ | ⟨hid, hn⟩
    · rw [h.consecutive _ _ hlast k, hseq, eq_self, true_and]
      omega
    · rw [h.consecutive _ _ hn k]
      simp [Ne.symm hid]
  · intro e he
    rcases (mem_insert hinsert).mp he with he | rfl
    · obtain ⟨n, hn⟩ := h.homed e he
      by_cases hid : e.threadId = entry.threadId
      · exact ⟨last + 1, (hmem _ _).mpr (.inl ⟨hid, rfl⟩)⟩
      · exact ⟨n, (hmem _ _).mpr (.inr ⟨hid, hn⟩)⟩
    · exact ⟨last + 1, (hmem _ _).mpr (.inl ⟨rfl, rfl⟩)⟩
  · intro id n hn
    by_cases hid : id = entry.threadId
    · subst hid
      exact ⟨last + 1, (hmem _ _).mpr (.inl ⟨rfl, rfl⟩), by rw [numbers_unique hn hlast]; omega⟩
    · exact ⟨n, (hmem _ _).mpr (.inr ⟨hid, hn⟩), le_rfl⟩

/-- A deposit is beyond the snapshot of every active receipt. -/
theorem Sound.entry_beyond (hseq : entry.seq = last + 1) (hr : r ∈ s.reads)
    (hthread : entry.threadId = r.threadId) : r.snapshotSeq < entry.seq := by
  obtain ⟨known, hknown, _⟩ := (h.receipts r hr).known
  rw [hthread] at hlast
  have := numbers_unique hknown hlast
  omega

end

/-! ## Confirmations -/

section

variable {m : MemberRow} {active : ReadRow} {n : Nat}
  (hmembers : s.members.update (fun x => x.key = m.key)
    (confirm active.receiptId active.throughSeq) = .ok (s'.members, n))

include hmembers

theorem mem_members_of_ack (hm : m ∈ s.members) {x : MemberRow} :
    x ∈ s'.members ↔
      x = confirm active.receiptId active.throughSeq m ∨ x.key ≠ m.key ∧ x ∈ s.members := by
  rw [mem_update hmembers]
  constructor
  · rintro ⟨_, hy, rfl⟩
    unfold rewrite
    split
    next hkey =>
      rw [eq_of_member_key hy hm (of_decide_eq_true hkey)]
      exact .inl rfl
    next hkey => exact .inr ⟨by simpa using hkey, hy⟩
  · rintro (rfl | ⟨hkey, hx⟩)
    · exact ⟨m, hm, if_pos (decide_eq_true rfl)⟩
    · exact ⟨x, hx, if_neg (by simpa using hkey)⟩

theorem Sound.ack (h : Sound size issued obtained s) (hm : m ∈ s.members)
    (hactive : active ∈ s.reads) (hkey : active.key = m.key)
    (hreads : s'.reads = s.reads.delete fun r => r.key = m.key) (hnumbers : s'.numbers = s.numbers)
    (hentries : s'.entries = s.entries) : Sound size issued obtained s' := by
  have hpromise := h.receipts active hactive
  have hthread : active.threadId = m.threadId := (Prod.mk.inj hkey).1
  obtain ⟨reader, hreader, hreaderKey, hbase, -⟩ := hpromise.reader
  cases eq_of_member_key hreader hm (hreaderKey.trans hkey)
  obtain ⟨hconsecutive, hhomed, hgrown⟩ := h.grows_of_eq hnumbers hentries
  refine ⟨hconsecutive, hhomed, ?_, ?_, ?_, ?_⟩
  · intro x hx
    rw [hnumbers]
    rcases (mem_members_of_ack hmembers hm).mp hx with rfl | ⟨-, hx⟩
    · obtain ⟨last, hlast, hle⟩ := hpromise.known
      exact ⟨last, hthread ▸ hlast, hpromise.within.trans hle⟩
    · exact h.cursor x hx
  · intro x hx k hpos hle
    rcases (mem_members_of_ack hmembers hm).mp hx with rfl | ⟨-, hx⟩
    · -- what the page did not hold was confirmed before
      rcases Nat.lt_or_ge active.baseSeq k with hbeyond | hbefore
      · exact hkey ▸ hpromise.seen k hbeyond hle
      · exact h.confirmed m hm k hpos (hbase ▸ hbefore)
    · exact h.confirmed x hx k hpos hle
  · intro x hx receipt hlast
    rcases (mem_members_of_ack hmembers hm).mp hx with rfl | ⟨-, hx⟩
    · cases hlast
      exact hpromise.issued
    · exact h.spent x hx receipt hlast
  · intro r hr
    rw [hreads, mem_delete] at hr
    obtain ⟨hr, hother⟩ := hr
    have hother : r.key ≠ m.key := of_decide_eq_false hother
    apply (h.receipts r hr).transfer _ hgrown (readRange_congr hentries)
    intro x hx hxkey
    exact (mem_members_of_ack hmembers hm).mpr (.inr ⟨hxkey ▸ hother, hx⟩)

end

section

variable (hstep : ReadingStep acks s s') (h : Sound size issued obtained s)

include hstep h

theorem ReadingStep.sound : Sound size issued obtained s' := by
  cases hstep with
  | neutral hnumbers hmembers hentries hreads =>
    exact h.grow_same (h.grows_of_eq hnumbers hentries) hmembers hreads fun r _ =>
      readRange_congr hentries
  | thread hfresh hnumbers hmembers hentries hreads =>
    exact h.grow_same (h.grows_of_thread hfresh hnumbers hentries) hmembers hreads fun r _ =>
      readRange_congr hentries
  | member hthread hinsert hnumbers hentries hreads =>
    refine h.grow (h.grows_of_eq hnumbers hentries) ?_ ?_ hreads fun r _ => readRange_congr hentries
    · intro m hm
      exact (mem_insert hinsert).mpr (.inl hm)
    · intro m hm
      rcases (mem_insert hinsert).mp hm with hm | rfl
      · exact .inl hm
      · exact .inr ⟨⟨rfl, rfl⟩, _, hnumbers ▸ hthread⟩
  | entry hlast hseq hinsert hnumbers hmembers hreads =>
    refine h.grow_same (h.grows_of_entry hlast hseq hinsert hnumbers) hmembers hreads ?_
    intro r hr
    exact readRange_insert hinsert (h.entry_beyond hlast hseq hr) (h.receipts r hr).within
  | ack hmember hactive hkey _ _ hmembers hreads hnumbers hentries =>
    exact h.ack hmembers hmember hactive hkey hreads hnumbers hentries

/-- A cursor never goes back, and a member stays as it is unless it confirms. -/
theorem ReadingStep.cursor (hm : m ∈ s.members) :
    (∃ m' ∈ s'.members, m'.key = m.key ∧ m.ackedSeq ≤ m'.ackedSeq) ∧
      ((∀ receipt, ¬ acks m.key receipt) → m ∈ s'.members) := by
  have hkept : m ∈ s'.members → (∃ m' ∈ s'.members, m'.key = m.key ∧ m.ackedSeq ≤ m'.ackedSeq) ∧
      ((∀ receipt, ¬ acks m.key receipt) → m ∈ s'.members) :=
    fun hm' => ⟨⟨m, hm', rfl, le_rfl⟩, fun _ => hm'⟩
  cases hstep with
  | neutral _ hmembers | thread _ _ hmembers => exact hkept (hmembers ▸ hm)
  | member _ hinsert => exact hkept ((mem_insert hinsert).mpr (.inl hm))
  | entry _ _ _ _ hmembers => exact hkept (hmembers ▸ hm)
  | @ack reader active _ hreader hactive _ hreceipt hbase hmembers =>
    by_cases hsame : m.key = reader.key
    · cases eq_of_member_key hm hreader hsame
      refine ⟨⟨_, (mem_members_of_ack hmembers hm).mpr (.inl rfl), rfl, ?_⟩, ?_⟩
      · exact hbase ▸ (h.receipts active hactive).ahead.le
      · exact fun hnever => absurd hreceipt (hnever _)
    · exact hkept ((mem_members_of_ack hmembers hreader).mpr (.inr ⟨hsame, hm⟩))

/-- A receipt stays, with the page that it stands for, until its member confirms it. -/
theorem ReadingStep.receipt (hr : r ∈ s.reads) (hnever : ¬ acks r.key r.receiptId) :
    r ∈ s'.reads ∧ s'.replayRead size r = s.replayRead size r := by
  have hsame : s'.entries = s.entries → s'.replayRead size r = s.replayRead size r := by
    intro hentries
    rw [replayRead, replayRead, readRange_congr hentries]
  cases hstep with
  | neutral _ _ hentries hreads | thread _ _ _ hentries hreads | member _ _ _ hentries hreads =>
    exact ⟨hreads ▸ hr, hsame hentries⟩
  | entry hlast hseq hinsert _ _ hreads =>
    refine ⟨hreads ▸ hr, ?_⟩
    rw [replayRead, replayRead, readRange_insert hinsert (h.entry_beyond hlast hseq hr)
      (h.receipts r hr).within]
  | ack _ hactive hkey hreceipt _ _ hreads _ hentries =>
    refine ⟨?_, hsame hentries⟩
    rw [hreads, mem_delete]
    refine ⟨hr, decide_eq_false fun hreader => hnever ?_⟩
    cases eq_of_conflicts hactive hr (.inl (hkey.trans hreader.symm))
    exact hkey ▸ hreceipt

end

section

variable (hsteps : ReadingSteps acks s s') (h : Sound size issued obtained s)

include hsteps h

theorem ReadingSteps.sound : Sound size issued obtained s' := by
  induction hsteps with
  | refl => exact h
  | tail _ hstep ih => exact hstep.sound ih

theorem ReadingSteps.receipt (hr : r ∈ s.reads) (hnever : ¬ acks r.key r.receiptId) :
    r ∈ s'.reads ∧ s'.replayRead size r = s.replayRead size r := by
  induction hsteps with
  | refl => exact ⟨hr, rfl⟩
  | tail hsteps hstep ih =>
    obtain ⟨hstays, hpage⟩ := hstep.receipt (ReadingSteps.sound hsteps h) ih.1 hnever
    exact ⟨hstays, hpage.trans ih.2⟩

theorem ReadingSteps.cursor (hm : m ∈ s.members) :
    ∃ m' ∈ s'.members, m'.key = m.key ∧ m.ackedSeq ≤ m'.ackedSeq := by
  induction hsteps with
  | refl => exact ⟨m, hm, rfl, le_rfl⟩
  | tail hsteps hstep ih =>
    obtain ⟨_, hm₁, hkey₁, hle₁⟩ := ih
    obtain ⟨⟨m₂, hm₂, hkey₂, hle₂⟩, -⟩ := hstep.cursor (ReadingSteps.sound hsteps h) hm₁
    exact ⟨m₂, hm₂, hkey₂.trans hkey₁, hle₁.trans hle₂⟩

/-- Nothing that other members do changes the reading of a member. -/
theorem ReadingSteps.keeps
    {key : String × String} (hnever : ∀ receipt, ¬ acks key receipt) :
    (∀ m ∈ s.members, m.key = key → m ∈ s'.members) ∧
      ∀ r ∈ s.reads, r.key = key → r ∈ s'.reads := by
  refine ⟨fun m hm hkey => ?_, fun r hr hkey => (hsteps.receipt h hr (hkey ▸ hnever _)).1⟩
  induction hsteps with
  | refl => exact hm
  | tail hsteps hstep ih => exact (hstep.cursor (ReadingSteps.sound hsteps h) ih).2 (hkey ▸ hnever)

end

/-! ## Reads -/

variable {request : ReadRequest} {entries : List PageEntry} {through : Nat} {thread : ThreadRow}
  {member : MemberRow}

/-- More receipts may be issued, and more pages returned. -/
theorem Sound.mono (h : Sound size issued obtained s) {issued' : List String}
    {obtained' : String × String → Nat → Prop} (hissued : issued ⊆ issued')
    (hobtained : ∀ key n, obtained key n → obtained' key n) : Sound size issued' obtained' s where
  consecutive := h.consecutive
  homed := h.homed
  cursor := h.cursor
  confirmed m hm n hpos hle := hobtained _ _ (h.confirmed m hm n hpos hle)
  spent m hm receipt hlast := hissued (h.spent m hm receipt hlast)
  receipts r hr :=
    let promise := h.receipts r hr
    { promise with
      issued := hissued promise.issued
      seen := fun n hbase hthrough => hobtained _ _ (promise.seen n hbase hthrough) }

theorem last_seq_of_range' {base : Nat}
    (hseqs : entries.map PageEntry.seq = range' (base + 1) entries.length)
    (hlast : entries.getLast?.map PageEntry.seq = some through) :
    through = base + entries.length := by
  rw [← getLast?_map, hseqs, getLast?_range'] at hlast
  split at hlast
  · cases hlast
  · cases hlast
    omega

section

variable (h : Sound size issued obtained s) (hthread : s.loadThread request.threadId = some thread)
  (hpage : s.readRange size request.threadId (member.ackedSeq + 1) thread.lastSeq request.limit
    request.byteBudget (some thread.lastSeq) = entries)

include h hthread hpage

theorem Sound.page_seqs :
    entries.map PageEntry.seq = range' (member.ackedSeq + 1) entries.length ∧
      (entries = [] ↔ thread.lastSeq ≤ member.ackedSeq ∨ request.limit = 0) ∧
      s.readRange size request.threadId (member.ackedSeq + 1) (member.ackedSeq + entries.length)
        u32Max usizeMax (some thread.lastSeq) = entries := by
  obtain ⟨hmem, hid⟩ := loadThread_eq_some.mp hthread
  have hconsecutive : s.Consecutive request.threadId thread.lastSeq :=
    h.consecutive _ _ (mem_numbers.mpr ⟨thread, hmem, hid, rfl⟩)
  obtain ⟨hseqs, -, -, hempty⟩ := hconsecutive.page_seqs le_rfl hpage
  exact ⟨hseqs, hempty, hconsecutive.reread le_rfl hpage request.limit_le request.byteBudget_le⟩

/-- The receipt of a new page keeps what it promises, and no other receipt is touched: its
identifier is new. -/
theorem Sound.freshRead (hfresh : request.receiptId ∉ issued)
    (hmember : s.loadMember request.threadId request.actor = some member)
    (hlast : entries.getLast?.map PageEntry.seq = some through)
    (hahead : member.ackedSeq < through) (hwithin : through ≤ thread.lastSeq)
    (hobtained : ∀ n ∈ entries.map PageEntry.seq, obtained (request.threadId, request.actor) n) :
    Sound size (request.receiptId :: issued) obtained
      { s with reads :=
        s.reads.insertOrReplace (request.row member.ackedSeq through thread.lastSeq) } := by
  obtain ⟨hmem, hid⟩ := loadThread_eq_some.mp hthread
  obtain ⟨hmemberMem, hmemberKey⟩ := loadMember_eq_some.mp hmember
  obtain ⟨hseqs, -, hreread⟩ := h.page_seqs hthread hpage
  have hthrough := last_seq_of_range' hseqs hlast
  have hmore := h.mono (subset_cons_self request.receiptId _) fun _ _ hseen => hseen
  refine { hmore with receipts := fun r hr => ?_ }
  rcases mem_insertOrReplace.mp hr with ⟨hr, -⟩ | rfl
  · exact (hmore.receipts r hr).transfer (fun _ hm _ => hm)
      (fun _ last hlast => ⟨last, hlast, le_rfl⟩) (readRange_congr rfl)
  refine ⟨⟨member, hmemberMem, hmemberKey, rfl, ?_⟩, ?_, hahead, hwithin, ?_, ?_, ?_⟩
  · intro hused
    exact hfresh (h.spent member hmemberMem _ hused)
  · exact ⟨thread.lastSeq, mem_numbers.mpr ⟨thread, hmem, hid, rfl⟩, le_rfl⟩
  · exact mem_cons_self
  · intro n hbase hle
    refine hobtained n ?_
    rw [hseqs, mem_range'_1]
    simp only [ReadRequest.row] at hbase hle
    omega
  · have hlength : through - member.ackedSeq = entries.length := by omega
    have hagain : s.readRange size request.threadId (member.ackedSeq + 1) through u32Max usizeMax
        (some thread.lastSeq) = entries := hthrough ▸ hreread
    exact (congrArg _ hagain).trans (hlength ▸ hseqs)

end

/-! ## The refusal of a confirmation -/

/-- What the refusal of a confirmation by its base would need. -/
def CursorMoved (s : ThreadStore) : Prop :=
  ∃ m ∈ s.members, ∃ r ∈ s.reads, r.key = m.key ∧ r.baseSeq ≠ m.ackedSeq

theorem Sound.not_cursorMoved (h : Sound size issued obtained s) : ¬ s.CursorMoved := by
  rintro ⟨_, hm, r, hr, hkey, hmoved⟩
  obtain ⟨reader, hreader, hreaderKey, hbase, -⟩ := (h.receipts r hr).reader
  cases eq_of_member_key hreader hm (hreaderKey.trans hkey)
  exact hmoved hbase.symm

theorem applyAck_conflict {threadId agentId receipt : String} {member : MemberRow}
    (hmember : s.loadMember threadId agentId = some member)
    (h : s.applyAck threadId member receipt = .ok (.refused .cursorConflict, s')) :
    s.CursorMoved := by
  obtain ⟨hmem, hkey⟩ := loadMember_eq_some.mp hmember
  rcases applyAck_cases h with ⟨-, hcase⟩ | ⟨_, _, _, -, -, -, hcase, -⟩
  · rcases hcase with ⟨hcase, -⟩ | ⟨hcase, -⟩ | ⟨active, hactive, ⟨hcase, -⟩ | ⟨-, hmoved⟩⟩
    · cases hcase
    · cases hcase
    · cases hcase
    · obtain ⟨hr, hrkey⟩ := loadRead_eq_some.mp hactive
      refine ⟨member, hmem, active, hr, ?_, hmoved⟩
      rw [hrkey, hkey, (Prod.mk.inj hkey).2]
  · cases hcase

end ThreadStore

def ThreadReply.refusal : ThreadReply → Option ThreadRefusal
  | .tx (.refused refusal) | .read (.refused refusal) | .ack (.refused refusal) => some refusal
  | _ => none

/-- Only a confirmation whose base is not the cursor is refused for it. -/
theorem ThreadStore.exec_conflict {size : PageEntry → Nat} {s s' : ThreadStore} {op : ThreadOp}
    {reply : ThreadReply} (h : s.exec size op = .ok (reply, s'))
    (hreply : reply.refusal = some .cursorConflict) : s.CursorMoved := by
  have htx : ∀ {outcome : ThreadTxOutcome},
      (ThreadReply.tx outcome).refusal = some .cursorConflict →
        outcome = .refused .cursorConflict := by
    intro outcome hrefusal
    cases outcome <;> cases hrefusal
    rfl
  cases op <;> obtain ⟨outcome, hexec, rfl⟩ := map_fst_eq_ok.mp h
  case create =>
    obtain ⟨-, hplain⟩ | ⟨_, _, _, -, -, -, -, hdone⟩ := threadCreate_cases hexec
    · cases htx hreply ▸ hplain
    · cases hdone.symm.trans (htx hreply)
  case addMembers =>
    obtain ⟨-, hplain⟩ | ⟨_, _, _, _, -, -, -, -, hdone⟩ := threadAddMembers_cases hexec
    · cases htx hreply ▸ hplain
    · cases hdone.symm.trans (htx hreply)
  case post =>
    obtain ⟨-, hplain⟩ | ⟨_, _, _, -, hmember, ⟨-, _, hjoin, hrefusal⟩ | ⟨_, -, -, hdeposit⟩⟩ :=
      threadPost_cases (htx hreply ▸ hexec)
    · cases hplain
    · cases hrefusal
      obtain ⟨_, _, happly⟩ := joinAck_error hjoin
      exact applyAck_conflict hmember happly
    · obtain ⟨_, _, -, -, hdone⟩ := depositEntry_done hdeposit
      cases hdone
  case close =>
    obtain ⟨-, hplain⟩ | ⟨_, _, _, _, _, -, -, -, -, hdone⟩ := threadClose_cases hexec
    · cases htx hreply ▸ hplain
    · cases hdone.symm.trans (htx hreply)
  case read =>
    rcases threadRead_cases hexec with ⟨-, _, rfl, hload⟩ | ⟨-, _, -, -, rfl⟩ |
      ⟨_, _, _, -, -, -, ⟨-, -, rfl⟩ | ⟨_, -, -, -, -, rfl⟩⟩
    · cases loadThreadForMember_error hload
      cases hreply
    all_goals cases hreply
  case ack =>
    have hrefused : outcome = .refused .cursorConflict := by
      cases outcome <;> cases hreply
      rfl
    rcases threadAck_cases (hrefused ▸ hexec) with ⟨-, _, hrefusal, hload⟩ |
      ⟨_, member, applied, -, hmember, happly, hanswer⟩
    · cases hrefusal
      cases loadThreadForMember_error hload
    cases applied with
    | acknowledged | already => cases hanswer
    | refused =>
      cases hanswer
      exact applyAck_conflict hmember happly
  all_goals cases hreply

end Bridget.Threads
