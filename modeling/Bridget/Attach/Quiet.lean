import Bridget.Attach.Replay

/-!
# When the relay becomes quiet

The thread is left alone: no command comes, and the journal does not grow. A gap in the live
feed sends the live views back to the files, and the cursor is chosen anew when they return. If
a view comes back with a position past what was dropped, the relay has little left to say;
if none ever does, the same gap is told over and over.
-/

namespace Bridget.Attach

open Foundation Journal JournalLiveFeed List RelaySubscription Relay FragmentQueue

namespace Relay

variable {Value : Type} (codec : JournalCodec Value) (directory : Directory)

/-- The thread after some steps, and what it has sent. The day may change on the way. -/
def alone : Nat → (Nat → String) → Relay → List WrapperToDaemon × Relay
  | 0, _, relay => ([], relay)
  | n + 1, today, relay =>
    let first := relay.step codec directory (today 0) none
    let later := alone n (fun i => today (i + 1)) first.2
    (first.1 ++ later.1, later.2)

/-- However long the thread goes on, it sends no more than some number of messages. -/
def Quiet (relay : Relay) : Prop :=
  ∀ today, ∃ bound, ∀ n, (alone codec directory n today relay).1.length ≤ bound

variable {codec directory} {relay : Relay} {today : Nat → String}

theorem alone_add (n m : Nat) :
    alone codec directory (n + m) today relay =
      let first := alone codec directory n today relay
      let later := alone codec directory m (fun i => today (i + n)) first.2
      (first.1 ++ later.1, later.2) := by
  induction n generalizing relay today with
  | zero => simp [alone]
  | succ _ ih =>
    rw [Nat.succ_add, alone, ih]
    simp only [alone, append_assoc, Nat.add_assoc]

theorem alone_succ (n : Nat) :
    alone codec directory (n + 1) today relay =
      let before := alone codec directory n today relay
      let last := before.2.step codec directory (today n) none
      (before.1 ++ last.1, last.2) := by
  rw [alone_add]
  simp only [alone, append_nil, Nat.zero_add]

/-! ## Views -/

/-- A view has caught up, or replays the journal from some number on. -/
abbrev Steady (codec : JournalCodec Value) (directory : Directory) (s : RelaySubscription) : Prop :=
  s.Settled codec directory ∨ s.Replays codec directory

def Orderly (codec : JournalCodec Value) (directory : Directory) (relay : Relay) : Prop :=
  ∀ s ∈ relay.views, Steady codec directory s

/-- The most messages that may still come, unless a gap is found. -/
def potential (codec : JournalCodec Value) (directory : Directory) (relay : Relay) : Nat :=
  (relay.views.map (remaining codec directory)).sum + relay.fanout.unsent +
    (relay.feed.channel.map fun event => event.bytes.length).sum

/-- A view is live, and the cursor is past what the feed has dropped. -/
structure Following (codec : JournalCodec Value) (directory : Directory) (relay : Relay) :
    Prop where
  orderly : relay.Orderly codec directory
  had : relay.hadLiveSubscriptions = true
  live : ∃ s ∈ relay.views, s.caughtUp = true
  ahead : relay.feed.droppedThrough < expected relay.fanout.cursor

theorem Following.keep (h : relay.Following codec directory) {next : Relay}
    (hviews : next.views = relay.views) (hhad : next.hadLiveSubscriptions = true)
    (hahead : next.feed.droppedThrough < expected next.fanout.cursor) :
    next.Following codec directory where
  orderly := by
    rw [Orderly, hviews]
    exact h.orderly
  had := hhad
  live := by
    rw [hviews]
    exact h.live
  ahead := hahead

/-- The relay goes on following, and its potential pays for what it has sent. -/
abbrev Pays (codec : JournalCodec Value) (directory : Directory) (relay : Relay)
    (next : List WrapperToDaemon × Relay) : Prop :=
  next.2.Following codec directory ∧
    next.1.length + next.2.potential codec directory ≤ relay.potential codec directory

theorem Following.takeCommand (h : relay.Following codec directory)
    (hphase : relay.phase = .command) (hostToday : String) :
    let next := relay.takeCommand codec directory hostToday none
    relay.Pays codec directory next := by
  intro next
  have hviews : next.2.views = relay.views := by
    rw [views, views, hphase]
    exact (append_nil _).symm
  refine ⟨h.keep hviews h.had h.ahead, ?_⟩
  rw [potential, potential, hviews]
  exact (Nat.zero_add _).le

/-- The events of a batch are past the cursor that asked for them. -/
theorem queueEvents_ahead {feed : JournalLiveFeed} {fanout : LiveFanout}
    (h : feed.droppedThrough < expected fanout.cursor) :
    (feed.after fanout.cursor).2.droppedThrough <
      expected (fanout.queueEvents (feed.after fanout.cursor).1.events).cursor := by
  rw [after_droppedThrough, LiveFanout.queueEvents_eq]
  cases hlast : (feed.after fanout.cursor).1.events.getLast? with
  | none => exact h
  | some =>
    have hnew := (mem_filter.mp (mem_of_getLast? hlast)).2
    exact h.trans_le (expected_le_of_isNew hnew)

/-- The live part of the loop finds no gap and queues what the channel holds. -/
theorem Following.followLive (h : relay.Following codec directory)
    (hphase : relay.phase = .serving []) (hostToday : String) :
    let next := relay.followLive codec directory hostToday
    relay.Pays codec directory next := by
  intro next
  have hviews : relay.views = relay.subscriptions := by
    rw [views, hphase]
    exact append_nil _
  have hlive : relay.live ≠ [] := by
    obtain ⟨_, hmem, hcaught⟩ := h.live
    rw [hviews] at hmem
    exact ne_nil_of_mem (mem_filter.mpr ⟨hmem, hcaught⟩)
  have hfanout : relay.fanoutInUse = relay.fanout := if_pos h.had
  by_cases hidle : relay.fanout.pendingFragment = none ∧ relay.fanout.pendingEvents = []
  · have hgap : (relay.feed.after relay.fanout.cursor).1.gap = none := gapAfter_eq_none.mpr h.ahead
    have hnext : next =
        ([], { relay with
          hadLiveSubscriptions := true
          fanout := relay.fanout.queueEvents (relay.feed.after relay.fanout.cursor).1.events
          feed := (relay.feed.after relay.fanout.cursor).2
          phase := .flushing }) := by
      simp only [next, Relay.followLive, hlive, if_false, hfanout, hidle, and_self, if_true, hgap]
    have hviews' : next.2.views = relay.views := by
      rw [hnext, hviews]
      exact append_nil _
    refine ⟨h.keep hviews' (by rw [hnext]) ?_, ?_⟩
    · rw [hnext]
      exact queueEvents_ahead h.ahead
    rw [potential, potential, hviews', hnext]
    simp only [LiveFanout.queueEvents_eq, after_channel, unsent, hidle.1, hidle.2,
      nil_append, map_map, length_nil, map_nil, sum_nil]
    have hbytes : ((relay.feed.after relay.fanout.cursor).1.events.map
        fun event => event.bytes.length).sum ≤
          (relay.feed.channel.map fun event => event.bytes.length).sum :=
      (filter_sublist.map _).sum_le_sum (by simp)
    simp only [Function.comp_def]
    omega
  · have hnext : next =
        ([], { relay with
          hadLiveSubscriptions := true
          fanout := relay.fanout
          phase := .flushing }) := by
      simp only [next, Relay.followLive, hlive, if_false, hfanout, hidle]
    have hviews' : next.2.views = relay.views := by
      rw [hnext, hviews]
      exact append_nil _
    refine ⟨h.keep hviews' (by rw [hnext]) (by rw [hnext]; exact h.ahead), ?_⟩
    rw [potential, potential, hviews', hnext]
    exact (Nat.zero_add _).le

theorem Following.flush (h : relay.Following codec directory) (hphase : relay.phase = .flushing) :
    relay.Pays codec directory relay.flush := by
  rcases relay.fanout.emitOneLiveFragment_cases with
    ⟨queue, hunsent, hemit⟩ | ⟨fragment, queue, hunsent, hemit⟩
  · have hflush : relay.flush =
        ([], { relay with
          fanout := { relay.fanout with toFragmentQueue := queue }
          phase := .command }) := by
      simp only [Relay.flush, hemit]
    have hviews : relay.flush.2.views = relay.views := by
      rw [hflush, views, views, hphase]
      rfl
    refine ⟨h.keep hviews (by rw [hflush]; exact h.had) (by rw [hflush]; exact h.ahead), ?_⟩
    rw [potential, potential, hviews, hflush]
    simp only [length_nil]
    omega
  · have hflush : relay.flush = ([.liveJournalFragment fragment],
          { relay with fanout := { relay.fanout with toFragmentQueue := queue } }) := by
      simp only [Relay.flush, hemit]
    have hviews : relay.flush.2.views = relay.views := by
      rw [hflush]
      rfl
    refine ⟨h.keep hviews (by rw [hflush]; exact h.had) (by rw [hflush]; exact h.ahead), ?_⟩
    rw [potential, potential, hviews, hflush]
    simp only [length_singleton]
    omega

section

variable (hshows : codec.Shows)
  (hordered : (itemNumbers (journalItems codec directory)).Pairwise (· < ·))

include hshows hordered

variable {s : RelaySubscription}

theorem serve_orderly (h : Steady codec directory s) (hostToday : String) :
    ∃ sent next, s.serve codec directory hostToday = (sent, some next) ∧
      (Steady codec directory next) ∧ (s.caughtUp = true → next = s) ∧
      sent.length + next.remaining codec directory ≤ s.remaining codec directory := by
  rcases h with hsettled | hreplays
  · exact ⟨[], s, hsettled.serve hostToday, .inl hsettled, fun _ => rfl, by simp⟩
  obtain ⟨sent, next, hserve, hpays, -, -, -, hnext⟩ := hreplays.serve hshows hordered hostToday
  refine ⟨sent, next, hserve, ?_, ?_, hpays⟩
  · exact hnext.symm.imp_left And.left
  · rw [hreplays.replaying]
    nofun

section

variable (h : relay.Following codec directory)

include h

theorem Following.serveNext {waiting : List RelaySubscription}
    (hphase : relay.phase = .serving (s :: waiting)) (hostToday : String) :
    let next := relay.serveNext codec directory hostToday s waiting
    relay.Pays codec directory next := by
  intro next
  have hviews : relay.views = relay.subscriptions ++ s :: waiting := by
    rw [views, hphase]
    rfl
  obtain ⟨sent, served, hserve, hserved, hsame, _⟩ :=
    serve_orderly hshows hordered (h.orderly s (by simp [hviews])) hostToday
  have hnext : next =
      (sent, { relay with
        subscriptions := relay.subscriptions ++ [served]
        phase := .serving waiting }) := by
    simp only [next, Relay.serveNext, hserve, Option.toList_some]
  have hviews' : next.2.views = relay.subscriptions ++ served :: waiting := by
    rw [hnext]
    simp [views, RelayPhase.waiting]
  refine ⟨⟨?_, ?_, ?_, ?_⟩, ?_⟩
  · intro other hother
    rw [hviews'] at hother
    rcases mem_append.mp hother with hmem | hmem
    · exact h.orderly other (by simp [hviews, hmem])
    rcases mem_cons.mp hmem with rfl | hmem
    · exact hserved
    · exact h.orderly other (by simp [hviews, hmem])
  · exact h.had
  · obtain ⟨other, hother, hlive⟩ := h.live
    rw [hviews] at hother
    refine ⟨other, ?_, hlive⟩
    rw [hviews']
    rcases mem_append.mp hother with hmem | hmem
    · exact mem_append_left _ hmem
    rcases mem_cons.mp hmem with rfl | hmem
    · rw [hsame hlive]
      simp
    · simp [hmem]
  · exact h.ahead
  · rw [potential, potential, hviews, hviews', hnext]
    simp only [map_append, map_cons, sum_append, sum_cons]
    omega

theorem Following.step (hostToday : String) :
    relay.Pays codec directory (relay.step codec directory hostToday none) := by
  unfold Relay.step
  split
  next hphase => exact h.takeCommand hphase hostToday
  next hphase => exact h.serveNext hshows hordered hphase hostToday
  next hphase => exact h.followLive hphase hostToday
  next hphase => exact h.flush hphase

/-- Once the cursor is past what was dropped, the messages that are left are bounded. -/
theorem Following.alone_le (n : Nat) (today : Nat → String) :
    (alone codec directory n today relay).1.length ≤ relay.potential codec directory := by
  induction n generalizing relay today with
  | zero => exact Nat.zero_le _
  | succ _ ih =>
    obtain ⟨hnext, _⟩ := h.step hshows hordered (today 0)
    have hlater := ih hnext fun i => today (i + 1)
    simp only [alone, length_append]
    omega

end

/-- What was sent until then is bounded anyway. -/
theorem bounded_of_following {n : Nat}
    (h : (alone codec directory n today relay).2.Following codec directory) :
    ∃ bound, ∀ m, (alone codec directory m today relay).1.length ≤ bound := by
  refine ⟨(alone codec directory n today relay).1.length +
    (alone codec directory n today relay).2.potential codec directory, fun m => ?_⟩
  rcases le_total m n with hle | hle
  · obtain ⟨_, rfl⟩ := Nat.exists_eq_add_of_le hle
    rw [alone_add]
    simp only [length_append]
    omega
  obtain ⟨k, rfl⟩ := Nat.exists_eq_add_of_le hle
  have hlater := h.alone_le hshows hordered k fun i => today (i + n)
  rw [alone_add n k]
  simp only [length_append]
  omega

/-! ## A turn of the loop -/

def Served (codec : JournalCodec Value) (directory : Directory) (s next : RelaySubscription) :
    Prop :=
  ∃ hostToday sent, s.serve codec directory hostToday = (sent, some next)

variable {next : RelaySubscription}

theorem alone_serving {waiting : List RelaySubscription} (hphase : relay.phase = .serving waiting)
    (horderly : ∀ s ∈ waiting, Steady codec directory s) (today : Nat → String) :
    ∃ served, (alone codec directory waiting.length today relay).2 =
        { relay with
          subscriptions := relay.subscriptions ++ served
          phase := .serving [] } ∧ Forall₂ (Served codec directory) waiting served := by
  induction waiting generalizing relay today with
  | nil =>
    refine ⟨[], ?_, .nil⟩
    simp only [length_nil, alone, append_nil, ← hphase]
  | cons _ waiting ih =>
    obtain ⟨hs, hwaiting⟩ := forall_mem_cons.mp horderly
    obtain ⟨sent, next, hserve, -⟩ := serve_orderly hshows hordered hs (today 0)
    have hstep : (relay.step codec directory (today 0) none).2 =
        { relay with
          subscriptions := relay.subscriptions ++ [next]
          phase := .serving waiting } := by
      simp only [step, hphase, serveNext, hserve, Option.toList_some]
    obtain ⟨served, hserved, hrelated⟩ :=
      @ih (relay.step codec directory (today 0) none).2 (by rw [hstep]) hwaiting
        fun i => today (i + 1)
    refine ⟨next :: served, ?_, .cons ⟨today 0, sent, hserve⟩ hrelated⟩
    rw [length_cons, alone]
    rw [hserved, hstep, append_assoc]
    rfl

/-- Between two turns of the loop, with nothing live waiting to be sent. -/
structure Between (codec : JournalCodec Value) (directory : Directory) (relay : Relay) : Prop where
  phase : relay.phase = .command
  idle : relay.fanout.numbers = []
  orderly : ∀ s ∈ relay.subscriptions, Steady codec directory s

def served (relay : Relay) (views : List RelaySubscription) : Relay :=
  { relay with
    subscriptions := views
    phase := .serving [] }

theorem Between.front (h : relay.Between codec directory) (today : Nat → String) :
    ∃ n views, (alone codec directory n today relay).2 = relay.served views ∧
      Forall₂ (Served codec directory) relay.subscriptions views := by
  have hstep : (relay.step codec directory (today 0) none).2 =
      { relay with
        subscriptions := []
        phase := .serving relay.subscriptions } := by
    simp only [step, h.phase, takeCommand]
  obtain ⟨views, hserved, hrelated⟩ :=
    @alone_serving _ codec directory (relay.step codec directory (today 0) none).2 hshows hordered
      relay.subscriptions (by rw [hstep]) h.orderly fun i => today (i + 1)
  refine ⟨relay.subscriptions.length + 1, views, ?_, hrelated⟩
  rw [alone]
  rw [hserved, hstep]
  rfl

/-- The same when no view is live and the feed has dropped up to a number. -/
structure Catching (codec : JournalCodec Value) (directory : Directory) (dropped : Nat)
    (relay : Relay) : Prop extends Between codec directory relay where
  had : relay.hadLiveSubscriptions = false
  dropped : relay.feed.droppedThrough = dropped

/-- A turn of the loop: no view is live, or the live ones follow the feed, or a gap sends them
back to the files. -/
theorem Between.turn (h : relay.Between codec directory) (today : Nat → String) :
    ∃ n views, Forall₂ (Served codec directory) relay.subscriptions views ∧
      (∀ view ∈ views, Steady codec directory view) ∧
      let cursor := (relay.served views).fanoutInUse.cursor
      let dropped := relay.feed.droppedThrough
      let next := alone codec directory n today relay
      (∀ view ∈ views, view.caughtUp = false) ∧ next.2.subscriptions = views ∧
          next.2.Catching codec directory dropped ∨
        (∃ view ∈ views, view.caughtUp = true) ∧
          (dropped < expected cursor ∧ next.2.Following codec directory ∨
            expected cursor ≤ dropped ∧ 1 ≤ next.1.length ∧
              next.2.Catching codec directory dropped ∧
              ∃ hostToday, next.2.subscriptions = views.map fun s => if s.caughtUp then
                s.restartFromSeq codec directory hostToday (expected cursor) else s) := by
  obtain ⟨n, views, hfront, hrelated⟩ := h.front hshows hordered today
  have horderly : ∀ view ∈ views, Steady codec directory view := by
    intro view hview
    obtain ⟨s, hs, hserved⟩ := exists_of_forall₂ hrelated hview
    obtain ⟨hostToday, _, hserve⟩ := hserved
    obtain ⟨_, _, hserve', hnext, -⟩ := serve_orderly hshows hordered (h.orderly s hs) hostToday
    cases hserve.symm.trans hserve'
    exact hnext
  have hidle : (relay.served views).fanout.numbers = [] := h.idle
  have hstep : ∀ hostToday, (relay.served views).step codec directory hostToday none =
      (relay.served views).followLive codec directory hostToday := fun _ => rfl
  have hfanout := numbers_fanoutInUse hidle
  have hreset : ∀ {fanout : LiveFanout}, fanout.numbers = [] → fanout.resetPending = fanout := by
    rintro ⟨queue, _⟩ hnone
    obtain rfl : queue = ⟨[], none⟩ := numbers_eq_nil.mp hnone
    rfl
  by_cases hlive : (relay.served views).live = []
  · refine ⟨n + 1, views, hrelated, horderly, .inl ⟨?_, ?_, ?_⟩⟩
    · simpa [live, served, filter_eq_nil_iff] using hlive
    · simp only [alone_succ, hfront, hstep, followLive, hlive, if_true]
      rfl
    · simp only [alone_succ, hfront, hstep, followLive, hlive, if_true, hreset hidle]
      exact ⟨⟨rfl, hidle, horderly⟩, rfl, rfl⟩
  have hsome : ∃ view ∈ views, view.caughtUp = true := by
    obtain ⟨s, hs⟩ := exists_mem_of_ne_nil _ hlive
    exact ⟨s, mem_filter.mp hs⟩
  have hqueue := numbers_eq_nil.mp hfanout
  have hempty : (relay.served views).fanoutInUse.pendingFragment = none ∧
      (relay.served views).fanoutInUse.pendingEvents = [] :=
    ⟨congrArg pendingFragment hqueue, congrArg pendingEvents hqueue⟩
  rcases lt_or_ge relay.feed.droppedThrough (expected (relay.served views).fanoutInUse.cursor) with
    hahead | hbehind
  · refine ⟨n + 1, views, hrelated, horderly, .inr ⟨hsome, .inl ⟨hahead, ?_⟩⟩⟩
    obtain ⟨view, hview, hcaught⟩ := hsome
    have hgap : ((relay.served views).feed.after (relay.served views).fanoutInUse.cursor).1.gap =
      none := gapAfter_eq_none.mpr hahead
    simp only [alone_succ, hfront, hstep, followLive, hlive, if_false, if_pos hempty, hgap]
    refine ⟨?_, rfl, ⟨view, mem_append_left _ hview, hcaught⟩, queueEvents_ahead hahead⟩
    intro next hnext
    change next ∈ views ++ [] at hnext
    rw [append_nil] at hnext
    exact horderly next hnext
  · -- The gap is told, and nothing is left for the loop that sends fragments.
    have hquiet : (relay.served views).fanoutInUse.emitOneLiveFragment =
        (false, [], (relay.served views).fanoutInUse) := by
      have hemit : (relay.served views).fanoutInUse.emitOne fitsLiveFrame =
          (.idle, (relay.served views).fanoutInUse.toFragmentQueue) := by
        rw [hqueue]
        rfl
      simp only [LiveFanout.emitOneLiveFragment, hemit]
    have hcount := length_pos_iff.mpr hlive
    refine ⟨n + 2, views, hrelated, horderly, .inr ⟨hsome, .inr ⟨hbehind, ?_⟩⟩⟩
    have hgap : ((relay.served views).feed.after (relay.served views).fanoutInUse.cursor).1.gap =
      some _ := if_pos hbehind
    simp only [alone_succ, hfront, hstep, followLive, hlive, if_false, if_pos hempty, hgap,
      hreset hfanout]
    simp only [step, flush, hquiet, length_append, length_map]
    refine ⟨by omega, ⟨⟨rfl, numbers_fanoutInUse hidle, ?_⟩, rfl, ?_⟩, today n, rfl⟩
    · intro s hs
      right
      obtain ⟨other, hother, rfl⟩ := mem_map.mp hs
      rcases horderly other hother with hsettled | hreplays
      · rw [if_pos hsettled.live]
        exact restartFromSeq_replays hsettled.through _ _
      · rw [hreplays.replaying, if_neg Bool.false_ne_true]
        exact hreplays
    · exact after_droppedThrough (relay.served views).fanoutInUse.cursor

/-! ## Views that pass what was dropped -/

theorem served_replays (h : s.Replays codec directory) (hserved : Served codec directory s next) :
    s.Nearer codec directory next := by
  obtain ⟨hostToday, _, hserve⟩ := hserved
  obtain ⟨_, _, hserve', -, hfacts⟩ := h.serve hshows hordered hostToday
  cases hserve.symm.trans hserve'
  exact hfacts

omit hshows hordered in
theorem served_settled (h : s.Settled codec directory) (hserved : Served codec directory s next) :
    next = s := by
  obtain ⟨hostToday, _, hserve⟩ := hserved
  cases hserve.symm.trans (h.serve hostToday)
  rfl

theorem served_liveFloor (h : Steady codec directory s)
    (hserved : Served codec directory s next) : next.liveFloor = s.liveFloor := by
  rcases h with hsettled | hreplays
  · rw [served_settled hsettled hserved]
  · exact (served_replays hshows hordered hreplays hserved).liveFloor

omit hshows hordered in
theorem startCursor_ge {live : List RelaySubscription} {p : Nat} (hs : s ∈ live)
    (hp : s.position = some p) : ∃ q, startCursor live = some q ∧ p ≤ q := by
  have hmem : p ∈ live.filterMap position := mem_filterMap.mpr ⟨s, hs, hp⟩
  cases hmax : startCursor live with
  | none =>
    rw [startCursor, max?_eq_none_iff] at hmax
    rw [hmax] at hmem
    cases hmem
  | some q => exact ⟨q, rfl, (max?_eq_some_iff.mp hmax).2 p hmem⟩

omit hshows hordered in
theorem position_of_floor {floor : Nat} (h : s.liveFloor = some floor) :
    ∃ p, s.position = some p ∧ floor ≤ p := by
  unfold position
  cases hthrough : s.throughSeq with
  | none => exact ⟨floor, by simp [h], le_rfl⟩
  | some through => exact ⟨max through floor, by simp [h], le_max_right _ _⟩

omit hshows hordered in
theorem position_of_through {through : Nat} (h : s.throughSeq = some through) :
    ∃ p, s.position = some p ∧ through ≤ p := by
  unfold position
  cases hfloor : s.liveFloor with
  | none => exact ⟨through, by simp [h], le_rfl⟩
  | some floor => exact ⟨max through floor, by simp [h], le_max_left _ _⟩

omit hshows hordered in
theorem position_cases {p : Nat} (h : s.position = some p) :
    s.throughSeq = some p ∨ s.liveFloor = some p := by
  unfold position at h
  split at h
  next through floor hthrough hfloor =>
    rcases max_choice through floor with hmax | hmax
    · exact .inl (by rw [hthrough, ← h, hmax])
    · exact .inr (by rw [hfloor, ← h, hmax])
  · exact (Option.or_eq_some_iff.mp h).imp_right And.right

/-- A replay that comes back past what was dropped. -/
def WillPass (codec : JournalCodec Value) (directory : Directory) (dropped : Nat)
    (s : RelaySubscription) : Prop :=
  (∃ floor, s.liveFloor = some floor ∧ dropped < expected (some floor)) ∨
    ∃ last, (deliverable codec directory).getLast? = some last ∧ dropped < expected (some last) ∧
      ∀ first ∈ s.fromSeq, first ≤ last

/-- When such a replay ends, the cursor that is chosen is past what was dropped. -/
theorem Catching.reaches {dropped : Nat} (h : relay.Catching codec directory dropped)
    (hs : s ∈ relay.subscriptions) (hreplays : s.Replays codec directory)
    (hpass : WillPass codec directory dropped s) (today : Nat → String) :
    ∃ n, (alone codec directory n today relay).2.Following codec directory := by
  -- What is left of the replay gets less with every turn of the loop.
  induction hleft : s.remaining codec directory using Nat.strongRecOn
    generalizing relay s today with
  | ind _ ih =>
    obtain ⟨n, views, hrelated, -, hturn⟩ := h.turn hshows hordered today
    obtain ⟨next, hnext, hserved⟩ := exists_of_forall₂ hrelated.flip hs
    obtain ⟨hless, hfloor, hfrom, hstate⟩ := served_replays hshows hordered hreplays hserved
    have hpass' : WillPass codec directory dropped next := by
      rw [WillPass, hfloor, hfrom]
      exact hpass
    have hgoOn : (alone codec directory n today relay).2.Catching codec directory
        relay.feed.droppedThrough → next ∈ (alone codec directory n today relay).2.subscriptions →
        next.Replays codec directory →
        ∃ n, (alone codec directory n today relay).2.Following codec directory := by
      intro hcatching hmem hreplays'
      obtain ⟨m, _⟩ := ih _ (hleft ▸ hless) (h.dropped ▸ hcatching) hmem hreplays' hpass'
        (fun i => today (i + n)) rfl
      refine ⟨n + m, ?_⟩
      rwa [alone_add]
    rcases hturn with ⟨hwaits, hviews, hcatching⟩ |
      ⟨-, ⟨-, hfollowing⟩ | ⟨hbehind, -, hcatching, hostToday, hviews⟩⟩
    · refine hgoOn hcatching (hviews ▸ hnext) (hstate.resolve_right ?_)
      rintro ⟨hsettled, -⟩
      exact absurd hsettled.live (by rw [hwaits next hnext]; exact Bool.false_ne_true)
    · exact ⟨n, hfollowing⟩
    have hreplays' : next.Replays codec directory := by
      refine hstate.resolve_right ?_
      rintro ⟨hsettled, hlast⟩
      obtain ⟨p, hp, hahead⟩ : ∃ p, next.position = some p ∧ dropped < expected (some p) := by
        rcases hpass with ⟨_, hfloor', hahead⟩ | ⟨last, hlast', hahead, hfirst⟩
        · obtain ⟨p, hp, hle⟩ := position_of_floor (hfloor.trans hfloor')
          exact ⟨p, hp, hahead.trans_le (expected_mono hle)⟩
        · obtain ⟨p, hp, hle⟩ := position_of_through (hlast last hlast' hfirst)
          exact ⟨p, hp, hahead.trans_le (expected_mono hle)⟩
      obtain ⟨q, hq, hpast⟩ := startCursor_ge (mem_filter.mpr ⟨hnext, hsettled.live⟩) hp
      have hcursor : (relay.served views).fanoutInUse.cursor = some q := by
        rw [fanoutInUse, if_neg (by rw [served, h.had]; exact Bool.false_ne_true)]
        exact hq
      have hge := expected_mono hpast
      rw [← hcursor] at hge
      rw [h.dropped] at hbehind
      omega
    refine hgoOn hcatching ?_ hreplays'
    rw [hviews]
    refine mem_map.mpr ⟨next, hnext, ?_⟩
    rw [hreplays'.replaying, if_neg Bool.false_ne_true]

end

end Relay

end Bridget.Attach
