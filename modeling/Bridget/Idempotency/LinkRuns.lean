import Bridget.Foundation.Run
import Bridget.Idempotency.LinkEvents

/-!
# A reader of the links

Beside the store a run counts the changes of each link. A reader follows the events under one
parent page by page: it keeps the last cursor it was given and asks for what comes after it. At
every moment it has received the first events under the parent, in their order.
-/

namespace Bridget.Idempotency

open Foundation LinkStore List Table

/-- The store, and a reader of the events under one parent. -/
structure LinkLog where
  store : LinkStore
  changes : String → Nat
  cursor : Option Nat
  received : List AgentLinkEvent

def LinkLog.init : LinkLog := ⟨.init, fun _ => 0, none, []⟩

inductive LinkStep where
  | call (call : LinkCall)
  | read
  deriving DecidableEq

def linkChanged (s s' : LinkStore) (linkId : String) : Bool :=
  match s.findId linkId, s'.findId linkId with
  | some old, some new => old ≠ new
  | _, _ => false

def LinkLog.step (parentInstanceId : String) (log : LinkLog) : LinkStep → LinkLog
  | .call call =>
    match call.exec log.store with
    | .ok store =>
      { log with
        store
        changes := fun linkId =>
          log.changes linkId + if linkChanged log.store store linkId then 1 else 0 }
    | .error _ => log
  | .read =>
    match log.store.agentLinkEventsAfter parentInstanceId log.cursor with
    | .ok page =>
      { log with
        cursor := (page.getLast?.map AgentLinkEvent.cursor).or log.cursor
        received := log.received ++ page }
    | .error _ => log

/-- New links name a project that can be read back. -/
def LinkLog.WellFormed (_log : LinkLog) : LinkStep → Prop
  | .call (.create link) => link.Readable
  | _ => True

instance (log : LinkLog) (label : LinkStep) : Decidable (log.WellFormed label) :=
  match label with
  | .call (.create link) => inferInstanceAs (Decidable link.Readable)
  | .call (.transition ..) | .call (.orphan ..) | .call (.transfer ..) | .read => .isTrue trivial

section

variable {s s' : LinkStore} {call : LinkCall} {rows : List AgentLinkRecord} {observedAt : Int}
  {link row : AgentLinkRecord}

theorem LinkStore.findId_of_mem (h : link ∈ s.links) : s.findId link.linkId = some link :=
  findId_eq_some.mpr ⟨h, rfl⟩

/-- A link that is stored and written again is the one that was changed. -/
theorem Written.revision_of_mem (hwritten : Written call s row) (hlink : link ∈ s.links)
    (hid : row.linkId = link.linkId) :
    row.revision = link.revision + 1 ∧ (link.state = .closed → call.Reopens link.linkId) := by
  cases hwritten with
  | created _ hfree => exact absurd hid.symm (hfree link hlink)
  | changed hold holdId hrevision _ _ hreopens =>
    obtain rfl := eq_of_conflicts hlink hold (.inl (hid.symm.trans holdId))
    exact ⟨hrevision, hreopens⟩

section

variable (hwrites : Writes call s s' rows observedAt)

include hwrites

/-- A written link has gone one revision further, or is new. -/
theorem Writes.revision (hlink : link ∈ s'.links) :
    s.findId link.linkId = none ∧ link.revision = 0 ∨
      ∃ old, s.findId link.linkId = some old ∧
        link.revision = old.revision + if linkChanged s s' link.linkId then 1 else 0 := by
  have hfound := findId_of_mem hlink
  rcases (hwrites.mem_links link).mp hlink with hrow | ⟨hold, -⟩
  · cases hold : s.findId link.linkId with
    | none =>
      refine .inl ⟨rfl, ?_⟩
      cases hwrites.written link hrow with
      | created _ _ hrevision => exact hrevision
      | changed hmem hid =>
        rw [hid, findId_of_mem hmem] at hold
        cases hold
    | some old =>
      obtain ⟨hmem, hid⟩ := findId_eq_some.mp hold
      obtain ⟨hrevision, -⟩ := (hwrites.written link hrow).revision_of_mem hmem hid.symm
      have hne : old ≠ link := by
        rintro rfl
        omega
      refine .inr ⟨old, rfl, ?_⟩
      simp [linkChanged, hold, hfound, hne, hrevision]
  · refine .inr ⟨link, findId_of_mem hold, ?_⟩
    simp [linkChanged, findId_of_mem hold, hfound]

/-- No link is ever removed. -/
theorem Writes.findId_eq_none {linkId : String}
    (h : s'.findId linkId = none) : s.findId linkId = none := by
  cases hold : s.findId linkId with
  | none => rfl
  | some link =>
    obtain ⟨hlink, rfl⟩ := findId_eq_some.mp hold
    by_cases hkept : ∀ row ∈ rows, row.linkId ≠ link.linkId
    · rw [findId_of_mem ((hwrites.mem_links link).mpr (.inr ⟨hlink, hkept⟩))] at h
      cases h
    · push Not at hkept
      obtain ⟨row, hrow, hid⟩ := hkept
      rw [← hid, findId_of_mem ((hwrites.mem_links row).mpr (.inl hrow))] at h
      cases h

end

end

section

variable {s : LinkStore} {parentInstanceId : String} {cursor : Option Nat}
  {received page : List AgentLinkEvent}

theorem agentLinkEventFromRow_eq_ok {row event : AgentLinkEvent} :
    agentLinkEventFromRow row = .ok event ↔ row.Readable ∧ row = event := by
  simp only [agentLinkEventFromRow, ok_iff, exists_and_left, exists_const]

theorem LinkStore.Logged.eventsUnder_ordered (h : s.Logged) :
    (s.eventsUnder parentInstanceId).Pairwise fun a b => a.cursor < b.cursor :=
  h.ordered.filter _

/-- What a reader has received ends at its cursor. -/
structure KeepsUp (s : LinkStore) (parentInstanceId : String) (cursor : Option Nat)
    (received : List AgentLinkEvent) : Prop where
  first : received <+: s.eventsUnder parentInstanceId
  last : cursor = received.getLast?.map AgentLinkEvent.cursor

variable (hlogged : s.Logged) (h : KeepsUp s parentInstanceId cursor received)

include hlogged h

/-- The events after the cursor of a reader are those it has not received. -/
theorem KeepsUp.rows_after :
    (s.events.select fun event =>
        event.parentInstanceId = parentInstanceId ∧ cursor.getD 0 < event.cursor) =
      (s.eventsUnder parentInstanceId).drop received.length := by
  obtain ⟨rest, hrest⟩ := h.first
  have hordered : (received ++ rest).Pairwise fun a b => a.cursor < b.cursor := by
    rw [hrest]
    exact hlogged.eventsUnder_ordered
  obtain ⟨hreceived, -, hacross⟩ := pairwise_append.mp hordered
  -- the cursor separates what was received from the rest
  have hsplit : (s.events.select fun event =>
      event.parentInstanceId = parentInstanceId ∧ cursor.getD 0 < event.cursor) =
        (received ++ rest).filter fun event => cursor.getD 0 < event.cursor := by
    rw [hrest, eventsUnder, select, select, filter_filter]
    congr 1
    funext event
    rw [Bool.decide_and, Bool.and_comm]
  have hold : ∀ event ∈ received, event.cursor ≤ cursor.getD 0 := by
    intro event hevent
    obtain ⟨_, last, rfl⟩ := (eq_nil_or_concat' received).resolve_left
      (ne_nil_of_mem hevent)
    have hcursor : cursor.getD 0 = last.cursor := by simp [h.last]
    rw [hcursor]
    rcases mem_append.mp hevent with hbefore | hlast
    · exact Nat.le_of_lt ((pairwise_append.mp hreceived).2.2 event hbefore last (by simp))
    · rw [mem_singleton.mp hlast]
  have hnew : ∀ event ∈ rest, cursor.getD 0 < event.cursor := by
    intro event hevent
    rw [h.last]
    cases hlast : received.getLast? with
    | none =>
      apply hlogged.positive event
      have hunder : event ∈ s.eventsUnder parentInstanceId := by
        rw [← hrest]
        exact mem_append_right _ hevent
      exact (mem_select.mp hunder).1
    | some last => exact hacross last (mem_of_getLast? hlast) event hevent
  rw [hsplit, filter_append, filter_eq_nil_iff.mpr, filter_eq_self.mpr, ← hrest,
    drop_left, nil_append]
  · intro event hevent
    exact decide_eq_true (hnew event hevent)
  · intro event hevent hlt
    exact absurd (of_decide_eq_true hlt) (Nat.not_lt.mpr (hold event hevent))

theorem KeepsUp.page_eq :
    s.agentLinkEventsAfter parentInstanceId cursor =
      (((s.eventsUnder parentInstanceId).drop received.length).take 128).mapM
        agentLinkEventFromRow := by
  have hsorted : ((s.eventsUnder parentInstanceId).drop received.length).insertionSort
      (fun a b => a.cursor ≤ b.cursor) = (s.eventsUnder parentInstanceId).drop received.length :=
    Pairwise.insertionSort_eq (hlogged.eventsUnder_ordered.drop.imp Nat.le_of_lt)
  simp only [agentLinkEventsAfter, h.rows_after hlogged, hsorted]

theorem KeepsUp.read
    (hpage : s.agentLinkEventsAfter parentInstanceId cursor = .ok page) :
    page = ((s.eventsUnder parentInstanceId).drop received.length).take 128 ∧
      KeepsUp s parentInstanceId ((page.getLast?.map AgentLinkEvent.cursor).or cursor)
        (received ++ page) := by
  rw [h.page_eq hlogged] at hpage
  obtain rfl := mapM_eq_self (fun row event hread => (agentLinkEventFromRow_eq_ok.mp hread).2.symm)
    hpage
  refine ⟨rfl, ?_, ?_⟩
  · obtain ⟨_, hrest⟩ := h.first
    rw [← hrest, drop_left, prefix_append_right_inj]
    exact take_prefix _ _
  · rw [getLast?_append, h.last]
    cases getLast? _ <;> rfl

end

structure LinkLog.Sound (parentInstanceId : String) (log : LinkLog) : Prop where
  logged : log.store.Logged
  counted : ∀ link ∈ log.store.links, log.changes link.linkId = link.revision
  uncounted : ∀ linkId, log.store.findId linkId = none → log.changes linkId = 0
  keepsUp : KeepsUp log.store parentInstanceId log.cursor log.received

namespace LinkLog

variable {parentInstanceId : String} {log log' : LinkLog} {label : LinkStep}
  {labels : List LinkStep}

/-- A call lets the events under a parent grow at the end. -/
theorem eventsUnder_prefix_step (h : log.store.Logged) :
    log.store.eventsUnder parentInstanceId <+:
      (log.step parentInstanceId label).store.eventsUnder parentInstanceId := by
  unfold LinkLog.step
  split
  · split
    next hexec =>
      obtain ⟨_, _, hwrites⟩ := LinkCall.exec_writes h.closedAt hexec
      unfold eventsUnder select
      rw [(h.events hwrites).2, filter_append]
      exact prefix_append _ _
    · exact prefix_refl _
  · split <;> exact prefix_refl _

theorem Sound.init : LinkLog.init.Sound parentInstanceId where
  logged := .init
  counted _ hlink := absurd hlink not_mem_empty
  uncounted _ _ := rfl
  keepsUp := ⟨ nil_prefix, rfl⟩

section

variable (h : log.Sound parentInstanceId)

include h

theorem Sound.call (call : LinkCall) :
    (log.step parentInstanceId (.call call)).Sound parentInstanceId := by
  have hgrows : log.store.eventsUnder parentInstanceId <+:
      (log.step parentInstanceId (.call call)).store.eventsUnder parentInstanceId :=
    eventsUnder_prefix_step h.logged
  cases hexec : call.exec log.store with
  | error => simpa [LinkLog.step, hexec] using h
  | ok =>
    obtain ⟨_, _, hwrites⟩ := LinkCall.exec_writes h.logged.closedAt hexec
    simp only [LinkLog.step, hexec] at hgrows ⊢
    refine ⟨h.logged.exec hexec, ?_, ?_, h.keepsUp.first.trans hgrows, h.keepsUp.last⟩
    · intro _ hlink
      rcases hwrites.revision hlink with ⟨hnone, hrevision⟩ | ⟨old, hold, hrevision⟩
      · simp [linkChanged, hnone, h.uncounted _ hnone, hrevision]
      · obtain ⟨hmem, hid⟩ := findId_eq_some.mp hold
        rw [hrevision, ← h.counted old hmem, hid]
    · intro _ hnone
      have hbefore := hwrites.findId_eq_none hnone
      simp [linkChanged, hbefore, h.uncounted _ hbefore]

theorem Sound.read : (log.step parentInstanceId .read).Sound parentInstanceId := by
  cases hpage : log.store.agentLinkEventsAfter parentInstanceId log.cursor with
  | error => simpa [LinkLog.step, hpage] using h
  | ok =>
    simp only [LinkLog.step, hpage]
    exact ⟨h.logged, h.counted, h.uncounted, (h.keepsUp.read h.logged hpage).2⟩

theorem Sound.step (label : LinkStep) :
    (log.step parentInstanceId label).Sound parentInstanceId := by
  cases label with
  | call call => exact h.call call
  | read => exact h.read

end

structure Readable (log : LinkLog) : Prop where
  links : ∀ link ∈ log.store.links, link.Readable
  events : ∀ event ∈ log.store.events, event.Readable

theorem Readable.init : LinkLog.init.Readable where
  links _ hlink := absurd hlink not_mem_empty
  events _ hevent := absurd hevent not_mem_empty

theorem Readable.step (hlogged : log.store.Logged) (h : log.Readable)
    (hlabel : log.WellFormed label) : (log.step parentInstanceId label).Readable := by
  cases label with
  | read =>
    simp only [LinkLog.step]
    split <;> exact ⟨h.links, h.events⟩
  | call call =>
    cases hexec : call.exec log.store with
    | error => simpa [LinkLog.step, hexec] using h
    | ok =>
      obtain ⟨rows, _, hwrites⟩ := LinkCall.exec_writes hlogged.closedAt hexec
      have hrows : ∀ row ∈ rows, row.Readable := by
        intro row hrow
        cases hwrites.written row hrow with
        | created hcall =>
          rw [hcall] at hlabel
          exact hlabel
        | changed hold _ _ hproject =>
          unfold AgentLinkRecord.Readable
          rw [hproject]
          exact h.links _ hold
      simp only [LinkLog.step, hexec]
      constructor
      · intro link hlink
        rcases (hwrites.mem_links link).mp hlink with hrow | ⟨hold, -⟩
        · exact hrows link hrow
        · exact h.links link hold
      · intro event hevent
        rcases hlogged.mem_events hwrites hevent with hold | ⟨row, hrow, _, -, -, rfl⟩
        · exact h.events event hold
        · exact hrows row hrow

/-- Enough reads bring everything that was there before them. -/
theorem length_le_received {n : Nat} (hrun : Run (step parentInstanceId) WellFormed log labels log')
    (h : log.Sound parentInstanceId) (hreadable : log.Readable)
    (hn : n ≤ (log.store.eventsUnder parentInstanceId).length)
    (hreads : n ≤ log.received.length + 128 * labels.count .read) : n ≤ log'.received.length := by
  induction hrun with
  | nil => simpa using hreads
  | @cons log _ label _ hlabel _ ih =>
    have hgrows : log.store.eventsUnder parentInstanceId <+:
        (log.step parentInstanceId label).store.eventsUnder parentInstanceId :=
      eventsUnder_prefix_step h.logged
    apply ih (h.step label) (hreadable.step h.logged hlabel) (hn.trans hgrows.length_le)
    cases label with
    | read =>
      have hpage : log.store.agentLinkEventsAfter parentInstanceId log.cursor =
          .ok (((log.store.eventsUnder parentInstanceId).drop log.received.length).take 128) := by
        rw [h.keepsUp.page_eq h.logged]
        apply mapM_of_ok
        intro event hevent
        have hunder := mem_of_mem_drop (mem_of_mem_take hevent)
        exact agentLinkEventFromRow_eq_ok.mpr
          ⟨hreadable.events event (mem_select.mp hunder).1, rfl⟩
      have hle := h.keepsUp.first.length_le
      simp only [LinkLog.step, hpage, length_append, length_take, length_drop]
      rw [count_cons_self] at hreads
      omega
    | call call =>
      have hsame : (log.step parentInstanceId (.call call)).received = log.received := by
        simp only [LinkLog.step]
        split <;> rfl
      rw [hsame]
      rwa [count_cons_of_ne (by simp)] at hreads

end LinkLog

open LinkLog

/-- The log is complete: it names every revision of every link once, and a reader that goes on
reading receives every event under its parent once. -/
theorem link_log_is_complete {parentInstanceId : String} {log : LinkLog} {labels : List LinkStep}
    (hrun : Runs (LinkLog.step parentInstanceId) LinkLog.init labels log) :
    (∀ link ∈ log.store.links,
      (log.store.eventsOf link.linkId).Pairwise (fun a b => a.cursor < b.cursor) ∧
      (log.store.eventsOf link.linkId).map AgentLinkEvent.eventId =
        (range (link.revision + 1)).map (eventName link.linkId) ∧
      (∃ event, (log.store.eventsOf link.linkId).getLast? = some event ∧
        event.state = link.state ∧ event.parentInstanceId = link.parentInstanceId) ∧
      link.revision = log.changes link.linkId ∧
      (link.closedAt.isSome = true ↔ link.state = .closed)) ∧
    (∀ call, ∀ link ∈ log.store.links, link.state = .closed →
      (log.step parentInstanceId (.call call)).store.findId link.linkId ≠ some link →
        ∃ allowed next changedAt, call = .transition link.linkId allowed next changedAt ∧
          .closed ∈ allowed) ∧
    log.received <+: log.store.eventsUnder parentInstanceId ∧
    (Run (LinkLog.step parentInstanceId) LinkLog.WellFormed LinkLog.init labels log →
      ∀ later log', Run (LinkLog.step parentInstanceId) LinkLog.WellFormed log later log' →
        (log.store.eventsUnder parentInstanceId).length ≤
          log.received.length + 128 * later.count .read →
        ∀ event ∈ log.store.eventsUnder parentInstanceId, log'.received.count event = 1) := by
  have hsound : log.Sound parentInstanceId :=
    hrun.invariant _ (fun _ label h _ => h.step label) .init
  refine ⟨?_, ?_, hsound.keepsUp.first, ?_⟩
  · intro link hlink
    exact ⟨hsound.logged.ordered.filter _, hsound.logged.named link hlink,
      hsound.logged.last link hlink, (hsound.counted link hlink).symm,
      hsound.logged.closedAt link hlink⟩
  · intro call link hlink hstate hchanged
    have hreopens : call.Reopens link.linkId := by
      cases hexec : call.exec log.store with
      | error =>
        simp only [step, hexec] at hchanged
        exact absurd (findId_of_mem hlink) hchanged
      | ok =>
        simp only [step, hexec] at hchanged
        obtain ⟨rows, _, hwrites⟩ := LinkCall.exec_writes hsound.logged.closedAt hexec
        by_cases hkept : ∀ row ∈ rows, row.linkId ≠ link.linkId
        · refine absurd (findId_of_mem ?_) hchanged
          exact (hwrites.mem_links link).mpr (.inr ⟨hlink, hkept⟩)
        · push Not at hkept
          obtain ⟨row, hrow, hid⟩ := hkept
          exact ((hwrites.written row hrow).revision_of_mem hlink hid).2 hstate
    cases call with
    | transition _ allowed next changedAt =>
      obtain ⟨rfl, hallowed⟩ := hreopens
      exact ⟨allowed, next, changedAt, rfl, hallowed⟩
    | create | orphan | transfer => exact hreopens.elim
  · intro hwell later log' hlater henough event hevent
    have hreadable : log.Sound parentInstanceId ∧ log.Readable :=
      hwell.invariant (fun log => log.Sound parentInstanceId ∧ log.Readable)
        (fun _ label h hlabel => ⟨h.1.step label, h.2.step h.1.logged hlabel⟩) ⟨.init, .init⟩
    have hsound' : log'.Sound parentInstanceId :=
      hlater.invariant _ (fun _ label h _ => h.step label) hsound
    have hgrows : log.store.eventsUnder parentInstanceId <+:
        log'.store.eventsUnder parentInstanceId :=
      hlater.relates (LinkLog.Sound parentInstanceId) (fun a b =>
        a.store.eventsUnder parentInstanceId <+: b.store.eventsUnder parentInstanceId)
        (fun _ => prefix_refl _) (fun _ _ _ => IsPrefix.trans)
        (fun _ label h _ => h.step label)
        (fun _ _ h _ => eventsUnder_prefix_step h.logged) hsound
    -- both are beginnings of the same list, and the reader's is the longer one
    have hreceived : log.store.eventsUnder parentInstanceId <+: log'.received :=
      prefix_of_prefix_length_le hgrows hsound'.keepsUp.first
        (length_le_received hlater hsound hreadable.2 (le_refl _) henough)
    apply count_eq_one_of_mem _ (hreceived.mem hevent)
    refine (hsound'.logged.eventsUnder_ordered.sublist hsound'.keepsUp.first.sublist).imp ?_
    rintro _ _ hlt rfl
    exact lt_irrefl _ hlt

def newLink (project : Option ProjectReference) : AgentLinkRecord :=
  { linkId := "link", parentInstanceId := "parent-1", childInstanceId := "child-1"
    parentExecutionId := none, objectiveId := none, delegationId := none, project
    role := "worker", agentPath := "parent-1/child-1", state := .reserved, createdAt := 1
    closedAt := none, revision := 0 }

def openedLog : LinkLog :=
  [.call (.create (newLink none)), .call (.transition "link" [.reserved] .opened 2)].foldl
    (step "parent-1") .init

/-- A link that is created and opened has two events. -/
theorem opened_link_is_read_once :
    (openedLog.store.eventsOf "link").map AgentLinkEvent.eventId = ["link:0", "link:1"] ∧
      ∀ event ∈ openedLog.store.eventsUnder "parent-1",
        (openedLog.step "parent-1" .read).received.count event = 1 := by
  have hwell : Run (step "parent-1") LinkLog.WellFormed .init
      [.call (.create (newLink none)), .call (.transition "link" [.reserved] .opened 2)]
      openedLog := Run.of_allows (by decide +kernel)
  obtain ⟨hlinks, -, -, hreader⟩ := link_log_is_complete (hwell.mono fun _ _ _ => trivial)
  have hlink : { newLink none with state := .opened, revision := 1 } ∈ openedLog.store.links :=
    mem_rows.mp (by decide +kernel)
  refine ⟨(hlinks _ hlink).2.1.trans (by decide +kernel), ?_⟩
  exact hreader hwell [.read] _ (.cons trivial (.nil _)) (by decide +kernel)

/-- A project without a name is stored, but the event cannot be read back. -/
def namelessLog : LinkLog := init.step "parent-1" (.call (.create (newLink (some ⟨"", 1⟩))))

/-- One row without the name of its project makes every read of the parent fail. -/
theorem nameless_project_is_never_read :
    Runs (LinkLog.step "parent-1") .init
        [.call (.create (newLink (some ⟨"", 1⟩)))] namelessLog ∧
      (namelessLog.store.eventsUnder "parent-1").map AgentLinkEvent.eventId = ["link:0"] ∧
      ∀ n, ((replicate n .read).foldl (LinkLog.step "parent-1") namelessLog).received = [] := by
  refine ⟨.cons trivial (.nil _), by decide +kernel, fun n => ?_⟩
  induction n with
  | zero => decide +kernel
  | succ _ ih => exact ih

end Bridget.Idempotency
