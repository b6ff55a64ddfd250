import Bridget.Foundation.Lines
import Bridget.Foundation.Numerals
import Bridget.Idempotency.AgentLinks

/-!
# The log of the links

Every change of a link leaves an event under the name of the link and its new revision. The
events are inserted only when their name is new. What an operation writes is said once here: a
list of rows, for distinct links, each of which is new or follows the stored one by a revision,
and then one event for each row.
-/

namespace Bridget.Idempotency

open Foundation LinkStore List Table

def eventName (linkId : String) (revision : Nat) : String := linkId ++ ":" ++ toString revision

variable {linkId : String}

/-- A link may carry colons in its name: the revision stands behind the last one. -/
theorem eventName_inj {linkId' : String} {revision revision' : Nat} :
    eventName linkId revision = eventName linkId' revision' ↔
      linkId = linkId' ∧ revision = revision' := by
  refine ⟨fun h => ?_, fun h => by rw [h.1, h.2]⟩
  have hcolon : ∀ n : Nat, ':' ∉ n.repr.toList := by
    intro n hmem
    exact absurd (isDigit_of_mem_repr hmem) (by decide)
  have hlists := congrArg String.toList h
  simp only [eventName, String.toList_append] at hlists
  have hsplit : linkId.toList = linkId'.toList ∧ revision.repr.toList = revision'.repr.toList :=
    append_sep_inj (hcolon revision) (hcolon revision') (by simpa using hlists)
  refine ⟨String.toList_inj.mp hsplit.1, ?_⟩
  have hparse := congrArg parseDigits hsplit.2
  rw [parseDigits_repr, parseDigits_repr] at hparse
  exact Option.some.inj hparse

/-! ## Reading the log -/

def AgentLinkEvent.Readable (event : AgentLinkEvent) : Prop :=
  ∀ project ∈ event.project, isBlank project.projectId = false ∧ 0 < project.bindingGeneration
  deriving Decidable

def agentLinkEventFromRow (row : AgentLinkEvent) : Result AgentLinkEvent := do
  ensure row.Readable (.sqlite .conversion)
  return row

namespace LinkStore

variable (s : LinkStore) (parentInstanceId : String)

def eventsUnder : List AgentLinkEvent :=
  s.events.select fun event => event.parentInstanceId = parentInstanceId

/-- One page of the events under a parent. A cursor that does not fit the database stands behind
every event of the table. -/
def agentLinkEventsAfter (afterCursor : Option Nat) : Result (List AgentLinkEvent) :=
  let rows := s.events.select fun event =>
    event.parentInstanceId = parentInstanceId ∧ afterCursor.getD 0 < event.cursor
  ((rows.insertionSort fun a b => a.cursor ≤ b.cursor).take 128).mapM agentLinkEventFromRow

end LinkStore

inductive LinkCall where
  | create (link : AgentLinkRecord)
  | transition (linkId : String) (allowed : List AgentLinkState) (next : AgentLinkState)
      (changedAt : Int)
  | orphan (parentInstanceId : String) (observedAt : Int)
  | transfer (linkId parentInstanceId agentPath : String) (observedAt : Int)
  deriving DecidableEq

def LinkCall.exec (s : LinkStore) : LinkCall → Result LinkStore
  | .create link => s.createAgentLink link
  | .transition linkId allowed next changedAt =>
    (s.transitionAgentLink linkId allowed next changedAt).map Prod.snd
  | .orphan parentInstanceId observedAt =>
    (s.orphanAgentLinksForParent parentInstanceId observedAt).map Prod.snd
  | .transfer linkId parentInstanceId agentPath observedAt =>
    (s.transferAgentLink linkId parentInstanceId agentPath observedAt).map Prod.snd

def LinkCall.Reopens (linkId : String) : LinkCall → Prop
  | .transition id allowed _ _ => id = linkId ∧ .closed ∈ allowed
  | _ => False

inductive Written (call : LinkCall) (s : LinkStore) : AgentLinkRecord → Prop
  | created {row : AgentLinkRecord} (hcall : call = .create row)
      (hfree : ∀ link ∈ s.links, link.linkId ≠ row.linkId) (hrevision : row.revision = 0)
      (hstate : row.state = .reserved) (hclosedAt : row.closedAt = none) : Written call s row
  | changed {old row : AgentLinkRecord} (hold : old ∈ s.links) (hid : row.linkId = old.linkId)
      (hrevision : row.revision = old.revision + 1) (hproject : row.project = old.project)
      (hclosedAt : row.closedAt.isSome = true ↔ row.state = .closed)
      (hreopens : old.state = .closed → call.Reopens old.linkId) : Written call s row

/-- The rows that a call writes, and their events in the same order. -/
structure Writes (call : LinkCall) (s s' : LinkStore) (rows : List AgentLinkRecord)
    (observedAt : Int) : Prop where
  written : ∀ row ∈ rows, Written call s row
  distinct : rows.Pairwise fun a b => a.linkId ≠ b.linkId
  mem_links : ∀ row, row ∈ s'.links ↔
    row ∈ rows ∨ row ∈ s.links ∧ ∀ other ∈ rows, other.linkId ≠ row.linkId
  recorded : rows.foldlM (fun s row => s.recordAgentLinkEvent row observedAt)
    { s with links := s'.links } = .ok s'

section

variable {call : LinkCall} {s s' : LinkStore} {current updated : AgentLinkRecord} {observedAt : Int}

theorem Writes.of_update {p : AgentLinkRecord → Bool} {f : AgentLinkRecord → AgentLinkRecord}
    {links : Table AgentLinkRecord} {n : Nat} (hupdate : s.links.update p f = .ok (links, n))
    (hid : ∀ link, (f link).linkId = link.linkId)
    (hwritten : ∀ link ∈ s.links, p link = true → Written call s (f link))
    (hrecorded : ((s.links.select p).map f).foldlM
      (fun s row => s.recordAgentLinkEvent row observedAt) { s with links } = .ok s') :
    Writes call s s' ((s.links.select p).map f) observedAt := by
  have hlinks : s'.links = links := by
    refine foldlM_invariant (fun s => s.links = links) ?_ rfl hrecorded
    intro _ _ row _ hlinks hstep
    rw [recordAgentLinkEvent_links hstep, hlinks]
  constructor
  · intro row hrow
    obtain ⟨link, hlink, rfl⟩ := mem_map.mp hrow
    obtain ⟨hmem, hp⟩ := mem_select.mp hlink
    exact hwritten link hmem hp
  · rw [pairwise_map]
    refine (s.links.unique.filter p).imp fun {_ _} hne heq => hne (.inl ?_)
    rwa [hid, hid] at heq
  · intro row
    rw [hlinks, mem_update hupdate]
    constructor
    · rintro ⟨_, hlink, rfl⟩
      unfold rewrite
      split
      next hp => exact .inl (mem_map_of_mem (mem_select.mpr ⟨hlink, hp⟩))
      rename_i hp
      refine .inr ⟨hlink, ?_⟩
      intro _ hother heq
      obtain ⟨_, hsource, rfl⟩ := mem_map.mp hother
      obtain ⟨hmem, hsourceP⟩ := mem_select.mp hsource
      rw [hid] at heq
      rw [eq_of_conflicts hmem hlink (.inl heq)] at hsourceP
      exact hp hsourceP
    · rintro (hrow | ⟨hrow, hother⟩)
      · obtain ⟨link, hlink, rfl⟩ := mem_map.mp hrow
        obtain ⟨hmem, hp⟩ := mem_select.mp hlink
        exact ⟨link, hmem, if_pos hp⟩
      · refine ⟨row, hrow, if_neg fun hp => ?_⟩
        exact hother (f row) (mem_map_of_mem (mem_select.mpr ⟨hrow, hp⟩)) (hid row)
  · rw [hlinks]
    exact hrecorded

theorem Writes.of_rewriteLink {change : AgentLinkRecord → AgentLinkRecord}
    (hcurrent : current ∈ s.links) (h : s.rewriteLink current change observedAt = .ok (updated, s'))
    (hid : ∀ link, (change link).linkId = link.linkId)
    (hwritten : Written call s { change current with revision := current.revision + 1 }) :
    Writes call s s' [{ change current with revision := current.revision + 1 }] observedAt := by
  simp only [rewriteLink, ok_iff, pair_iff, sql_eq_ok, agentLinkFromRow_eq_ok] at h
  obtain ⟨links, _, hupdate, -, -, found, hfound, _, ⟨-, rfl⟩, after, hrecord, -, rfl⟩ := h
  have hpins : Table.PinsKey fun link : AgentLinkRecord =>
      decide (link.linkId = current.linkId ∧ link.revision = current.revision) := by
    intro _ _ ha hb
    simp only [test_iff] at ha hb
    exact .inl (ha.1.trans hb.1.symm)
  have hselect := select_pinned hpins hcurrent (by simp)
  have hrow : found = { change current with revision := current.revision + 1 } := by
    obtain ⟨hmem, hfoundId⟩ := findId_eq_some.mp hfound
    obtain ⟨link, hlink, rfl⟩ := (mem_update hupdate).mp hmem
    have hlinkId : link.linkId = current.linkId := by
      unfold rewrite at hfoundId
      split at hfoundId
      next hp => exact (of_decide_eq_true hp).1
      · exact hfoundId
    rw [eq_of_conflicts hlink hcurrent (.inl hlinkId), rewrite, if_pos (by simp)]
  have hsame : ∀ link ∈ s.links, decide (link.linkId = current.linkId ∧
      link.revision = current.revision) = true → link = current := by
    intro link hlink hp
    exact eq_of_conflicts hlink hcurrent (.inl (of_decide_eq_true hp).1)
  have hwrites : Writes call s after _ observedAt := Writes.of_update hupdate (fun link => hid link)
      (fun link hlink hp => hsame link hlink hp ▸ hwritten) (by
        rw [hselect]
        simp only [map_cons, map_nil, foldlM_cons, foldlM_nil, ← hrow, hrecord]
        rfl)
  rw [hselect] at hwrites
  exact hwrites

theorem Writes.nothing (call : LinkCall) (s : LinkStore) : Writes call s s [] 0 where
  written _ hrow := absurd hrow not_mem_nil
  distinct := .nil
  mem_links _ := by simp
  recorded := rfl

theorem LinkCall.exec_writes
    (hclosed : ∀ link ∈ s.links, link.closedAt.isSome = true ↔ link.state = .closed)
    (h : call.exec s = .ok s') : ∃ rows observedAt, Writes call s s' rows observedAt := by
  cases call with
  | create link =>
    simp only [LinkCall.exec, createAgentLink, ok_iff] at h
    obtain ⟨-, hvalid, -, -, h⟩ := h
    obtain ⟨-, -, -, -, -, -, hrevision, hstate, hclosedAt⟩ := hvalid
    split at h
    · simp only [ok_iff] at h
      obtain ⟨_, -, -, -, rfl⟩ := h
      exact ⟨[], 0, .nothing _ _⟩
    simp only [bind_eq_ok, sql_eq_ok] at h
    obtain ⟨links, hinsert, hrecord⟩ := h
    have hlinks := recordAgentLinkEvent_links hrecord
    have hfree : ∀ other ∈ s.links, other.linkId ≠ link.linkId := fun other hother heq =>
      not_conflicts_of_insert hinsert hother (.inl heq)
    refine ⟨[link], link.createdAt, ?_, pairwise_singleton _ _, ?_, ?_⟩
    · intro row hrow
      rw [mem_singleton.mp hrow]
      exact .created rfl hfree hrevision hstate hclosedAt
    · intro row
      rw [hlinks, mem_insert hinsert, mem_singleton]
      constructor
      · rintro (hrow | rfl)
        · refine .inr ⟨hrow, fun other hother heq => ?_⟩
          rw [mem_singleton.mp hother] at heq
          exact hfree row hrow heq.symm
        · exact .inl rfl
      · rintro (rfl | ⟨hrow, -⟩)
        · exact .inr rfl
        · exact .inl hrow
    · rw [hlinks, foldlM_cons, hrecord]
      rfl
  | transition _ _ next =>
    obtain ⟨_, h⟩ := map_snd_eq_ok.mp h
    simp only [transitionAgentLink, bind_eq_ok] at h
    obtain ⟨_, hcurrent, h⟩ := h
    obtain ⟨hmem, hid⟩ := findId_eq_some.mp (currentLink_eq_ok hcurrent)
    split at h
    · cases h
      exact ⟨[], 0, .nothing _ _⟩
    simp only [ok_iff] at h
    obtain ⟨-, hallowed, hrewrite⟩ := h
    refine ⟨_, _, .of_rewriteLink hmem hrewrite (fun _ => rfl) ?_⟩
    refine .changed hmem rfl rfl rfl ?_ fun hstate => ⟨hid.symm, hstate ▸ hallowed⟩
    by_cases hnext : next = .closed <;> simp [hnext]
  | orphan _ observedAt =>
    obtain ⟨_, h⟩ := map_snd_eq_ok.mp h
    simp only [orphanAgentLinksForParent, ok_iff, pair_iff, sql_eq_ok] at h
    obtain ⟨_, hactive, _, _, hupdate, _, hrecord, -, rfl⟩ := h
    rw [mapM_eq_self (fun row link hread => (agentLinkFromRow_eq_ok.mp hread).2.symm)
      hactive] at hrecord
    refine ⟨_, observedAt, .of_update hupdate (fun _ => rfl) ?_ ?_⟩
    · intro link hlink hp
      have howns : link.state.ownsChild = true := (of_decide_eq_true hp).2
      have hopen : link.state ≠ .closed := by
        intro hstate
        rw [hstate] at howns
        cases howns
      refine .changed hlink rfl rfl rfl ?_ fun hstate => absurd hstate hopen
      simp [hclosed link hlink, hopen]
    · rw [foldlM_map]
      exact hrecord
  | transfer =>
    obtain ⟨_, h⟩ := map_snd_eq_ok.mp h
    simp only [transferAgentLink, ok_iff] at h
    obtain ⟨-, -, _, hcurrent, -, hopen, hrewrite⟩ := h
    obtain ⟨hmem, -⟩ := findId_eq_some.mp (currentLink_eq_ok hcurrent)
    refine ⟨_, _, .of_rewriteLink hmem hrewrite (fun _ => rfl) ?_⟩
    exact .changed hmem rfl rfl rfl (by simp) fun hstate => absurd hstate hopen

end

/-! ## The events of a link -/

def eventOf (link : AgentLinkRecord) (observedAt : Int) (cursor : Nat) : AgentLinkEvent :=
  { link with
    cursor
    eventId := eventName link.linkId link.revision
    observedAt := max observedAt link.createdAt }

def eventsFrom (observedAt : Int) : Nat → List AgentLinkRecord → List AgentLinkEvent
  | _, [] => []
  | sequence, link :: links =>
    eventOf link observedAt (sequence + 1) :: eventsFrom observedAt (sequence + 1) links

section

variable {s s' : LinkStore} {link : AgentLinkRecord} {observedAt : Int} {sequence : Nat}
  {rows : List AgentLinkRecord}

theorem recordAgentLinkEvent_fresh (hbounded : ∀ event ∈ s.events, event.cursor ≤ s.eventSequence)
    (hfresh : ∀ event ∈ s.events, event.eventId ≠ eventName link.linkId link.revision)
    (h : s.recordAgentLinkEvent link observedAt = .ok s') :
    s'.links = s.links ∧ s'.eventSequence = s.eventSequence + 1 ∧
      s'.events.rows = s.events.rows ++ [eventOf link observedAt (s.eventSequence + 1)] := by
  simp only [recordAgentLinkEvent, ok_iff] at h
  obtain ⟨-, -, rfl⟩ := h
  obtain ⟨events, hinsert⟩ : ∃ events,
      s.events.insert (eventOf link observedAt (s.eventSequence + 1)) = .ok events := by
    apply insert_eq_ok
    rintro event hevent (hcursor | hname)
    · have := hbounded event hevent
      simp only [eventOf] at hcursor
      omega
    · exact hfresh event hevent hname
  have hinserted : s.events.insertOrIgnore (eventOf link observedAt (s.eventSequence + 1)) =
      (events, 1) := by
    rw [insertOrIgnore, hinsert]
  unfold eventOf eventName at hinserted
  simp only [hinserted, true_and]
  exact insert_rows hinsert

theorem mem_eventsFrom {event : AgentLinkEvent} (h : event ∈ eventsFrom observedAt sequence rows) :
    ∃ row ∈ rows, ∃ cursor, sequence < cursor ∧ cursor ≤ sequence + rows.length ∧
      event = eventOf row observedAt cursor := by
  induction rows generalizing sequence with
  | nil => cases h
  | cons row _ ih =>
    rcases mem_cons.mp h with rfl | h
    · exact ⟨row, mem_cons_self, sequence + 1, by simp, by simp, rfl⟩
    · obtain ⟨other, hother, cursor, _, _, rfl⟩ := ih h
      refine ⟨other, mem_cons_of_mem _ hother, cursor, by omega, ?_, rfl⟩
      rw [length_cons]
      omega

theorem eventsFrom_ordered : (eventsFrom observedAt sequence rows).Pairwise
    fun a b => a.cursor < b.cursor := by
  induction rows generalizing sequence with
  | nil => exact .nil
  | cons _ _ ih =>
    refine pairwise_cons.mpr ⟨fun _ hevent => ?_, ih⟩
    obtain ⟨_, -, _, hlow, -, rfl⟩ := mem_eventsFrom hevent
    exact hlow

/-- Rows for distinct links, whose names are new, are all recorded. -/
theorem foldlM_record (hbounded : ∀ event ∈ s.events, event.cursor ≤ s.eventSequence)
    (hfresh : ∀ row ∈ rows, ∀ event ∈ s.events, event.eventId ≠ eventName row.linkId row.revision)
    (hdistinct : rows.Pairwise fun a b => a.linkId ≠ b.linkId)
    (h : rows.foldlM (fun s row => s.recordAgentLinkEvent row observedAt) s = .ok s') :
    s'.eventSequence = s.eventSequence + rows.length ∧
      s'.events.rows = s.events.rows ++ eventsFrom observedAt s.eventSequence rows := by
  induction rows generalizing s with
  | nil =>
    cases h
    simp [eventsFrom]
  | cons row rows ih =>
    obtain ⟨hrow, hrows⟩ := pairwise_cons.mp hdistinct
    obtain ⟨s₁, hrecord, hrest⟩ := bind_eq_ok.mp h
    obtain ⟨-, hsequence, hevents⟩ := recordAgentLinkEvent_fresh hbounded
      (hfresh row mem_cons_self) hrecord
    have hmem : ∀ event, event ∈ s₁.events ↔
        event ∈ s.events ∨ event = eventOf row observedAt (s.eventSequence + 1) := by
      intro event
      rw [← mem_rows, hevents, mem_append, mem_singleton]
      rfl
    have hbounded₁ : ∀ event ∈ s₁.events, event.cursor ≤ s₁.eventSequence := by
      intro event hevent
      rw [hsequence]
      rcases (hmem event).mp hevent with hold | rfl
      · exact (hbounded event hold).trans (Nat.le_succ _)
      · exact le_refl _
    have hfresh₁ : ∀ other ∈ rows, ∀ event ∈ s₁.events,
        event.eventId ≠ eventName other.linkId other.revision := by
      intro other hother event hevent
      rcases (hmem event).mp hevent with hold | rfl
      · exact hfresh other (mem_cons_of_mem _ hother) event hold
      · intro heq
        exact hrow other hother (eventName_inj.mp heq).1
    obtain ⟨hsequence', hevents'⟩ := ih hbounded₁ hfresh₁ hrows hrest
    constructor
    · rw [hsequence', hsequence, length_cons]
      omega
    · rw [hevents', hevents, hsequence, append_assoc]
      rfl

/-- Among the rows of a call, a link has one event or none. -/
theorem filter_eventsFrom_of_mem (hdistinct : rows.Pairwise fun a b => a.linkId ≠ b.linkId)
    (hrow : link ∈ rows) : ∃ cursor,
      (eventsFrom observedAt sequence rows).filter (fun event => event.linkId = link.linkId) =
        [eventOf link observedAt cursor] := by
  induction rows generalizing sequence with
  | nil => cases hrow
  | cons row _ ih =>
    obtain ⟨hne, hrows⟩ := pairwise_cons.mp hdistinct
    rw [eventsFrom, filter_cons]
    rcases mem_cons.mp hrow with rfl | hrow
    · refine ⟨sequence + 1, ?_⟩
      rw [if_pos (by simp [eventOf]), filter_eq_nil_iff.mpr]
      intro event hevent
      obtain ⟨other, hother, _, -, -, rfl⟩ := mem_eventsFrom hevent
      exact fun heq => hne other hother (of_decide_eq_true heq).symm
    · have hother :
          ¬ decide ((eventOf row observedAt (sequence + 1)).linkId = link.linkId) = true :=
        fun heq => hne link hrow (of_decide_eq_true heq)
      rw [if_neg hother]
      exact ih hrows hrow

theorem filter_eventsFrom_of_not_mem (h : ∀ row ∈ rows, row.linkId ≠ linkId) :
    (eventsFrom observedAt sequence rows).filter (fun event => event.linkId = linkId) = [] := by
  rw [filter_eq_nil_iff]
  intro event hevent
  obtain ⟨row, hrow, _, -, -, rfl⟩ := mem_eventsFrom hevent
  exact fun heq => h row hrow (of_decide_eq_true heq)

end

/-! ## The log of a store -/

def LinkStore.eventsOf (s : LinkStore) (linkId : String) : List AgentLinkEvent :=
  s.events.select fun event => event.linkId = linkId

/-- The log tells the whole story of every link. -/
structure LinkStore.Logged (s : LinkStore) : Prop where
  ordered : s.events.rows.Pairwise fun a b => a.cursor < b.cursor
  positive : ∀ event ∈ s.events, 0 < event.cursor
  bounded : ∀ event ∈ s.events, event.cursor ≤ s.eventSequence
  linked : ∀ event ∈ s.events, ∃ link ∈ s.links, link.linkId = event.linkId
  named : ∀ link ∈ s.links, (s.eventsOf link.linkId).map AgentLinkEvent.eventId =
    (range (link.revision + 1)).map (eventName link.linkId)
  last : ∀ link ∈ s.links, ∃ event, (s.eventsOf link.linkId).getLast? = some event ∧
    event.state = link.state ∧ event.parentInstanceId = link.parentInstanceId
  closedAt : ∀ link ∈ s.links, link.closedAt.isSome = true ↔ link.state = .closed

namespace LinkStore.Logged

variable {s s' : LinkStore} {call : LinkCall} {rows : List AgentLinkRecord} {observedAt : Int}

theorem init : init.Logged where
  ordered := .nil
  positive _ hevent := absurd hevent not_mem_empty
  bounded _ hevent := absurd hevent not_mem_empty
  linked _ hevent := absurd hevent not_mem_empty
  named _ hlink := absurd hlink not_mem_empty
  last _ hlink := absurd hlink not_mem_empty
  closedAt _ hlink := absurd hlink not_mem_empty

section

variable (h : s.Logged) {event : AgentLinkEvent} {row : AgentLinkRecord}

include h

theorem fresh (hwritten : Written call s row) :
    ∀ event ∈ s.events, event.eventId ≠ eventName row.linkId row.revision := by
  intro event hevent heq
  obtain ⟨link, hlink, hof⟩ := h.linked event hevent
  have hmem : event.eventId ∈ (s.eventsOf link.linkId).map AgentLinkEvent.eventId :=
    mem_map_of_mem (mem_select.mpr ⟨hevent, by simp [hof]⟩)
  rw [h.named link hlink] at hmem
  obtain ⟨_, hn, hname⟩ := mem_map.mp hmem
  have hn := Nat.le_of_lt_succ (mem_range.mp hn)
  obtain ⟨hid, _⟩ := eventName_inj.mp (hname.trans heq)
  cases hwritten with
  | created _ hfree => exact hfree link hlink hid
  | changed hold hrowId =>
    have hsame := eq_of_conflicts hlink hold (.inl (hid.trans hrowId))
    rw [hsame] at hn
    omega

section

variable (hwrites : Writes call s s' rows observedAt)

include hwrites

theorem events :
    s'.eventSequence = s.eventSequence + rows.length ∧
      s'.events.rows = s.events.rows ++ eventsFrom observedAt s.eventSequence rows :=
  foldlM_record (s := { s with links := s'.links }) h.bounded
    (fun row hrow => h.fresh (hwrites.written row hrow))
    hwrites.distinct hwrites.recorded

theorem eventsOf_written (hrow : row ∈ rows) :
    ∃ cursor, s'.eventsOf row.linkId =
      s.eventsOf row.linkId ++ [eventOf row observedAt cursor] := by
  obtain ⟨cursor, hcursor⟩ := filter_eventsFrom_of_mem hwrites.distinct hrow
  refine ⟨cursor, ?_⟩
  unfold eventsOf select
  rw [(h.events hwrites).2, filter_append, hcursor]

theorem eventsOf_kept
    (hother : ∀ row ∈ rows, row.linkId ≠ linkId) : s'.eventsOf linkId = s.eventsOf linkId := by
  unfold eventsOf select
  rw [(h.events hwrites).2, filter_append, filter_eventsFrom_of_not_mem hother, append_nil]

end

theorem eventsOf_fresh
    (hfree : ∀ link ∈ s.links, link.linkId ≠ linkId) : s.eventsOf linkId = [] := by
  refine filter_eq_nil_iff.mpr fun event hevent heq => ?_
  obtain ⟨link, hlink, hid⟩ := h.linked event hevent
  exact hfree link hlink (hid.trans (of_decide_eq_true heq))

theorem mem_events (hwrites : Writes call s s' rows observedAt) (hevent : event ∈ s'.events) :
    event ∈ s.events ∨ ∃ row ∈ rows, ∃ cursor, s.eventSequence < cursor ∧
      cursor ≤ s'.eventSequence ∧ event = eventOf row observedAt cursor := by
  obtain ⟨hsequence, hevents⟩ := h.events hwrites
  rw [← mem_rows, hevents, mem_append] at hevent
  rcases hevent with hold | hnew
  · exact .inl hold
  · rw [hsequence]
    exact .inr (mem_eventsFrom hnew)

theorem writes (hwrites : Writes call s s' rows observedAt) : s'.Logged where
  ordered := by
    rw [(h.events hwrites).2]
    refine pairwise_append.mpr ⟨h.ordered, eventsFrom_ordered, ?_⟩
    intro old hold new hnew
    obtain ⟨_, -, _, hlow, -, rfl⟩ := mem_eventsFrom hnew
    exact Nat.lt_of_le_of_lt (h.bounded old hold) hlow
  positive event hevent := by
    rcases h.mem_events hwrites hevent with hold | ⟨_, -, _, hlow, -, rfl⟩
    · exact h.positive event hold
    · exact Nat.zero_lt_of_lt hlow
  bounded event hevent := by
    rcases h.mem_events hwrites hevent with hold | ⟨_, -, _, -, hhigh, rfl⟩
    · rw [(h.events hwrites).1]
      exact (h.bounded event hold).trans (Nat.le_add_right _ _)
    · exact hhigh
  linked event hevent := by
    rcases h.mem_events hwrites hevent with hold | ⟨row, hrow, _, -, -, rfl⟩
    · obtain ⟨link, hlink, hid⟩ := h.linked event hold
      by_cases hkept : ∀ row ∈ rows, row.linkId ≠ link.linkId
      · exact ⟨link, (hwrites.mem_links link).mpr (.inr ⟨hlink, hkept⟩), hid⟩
      · push Not at hkept
        obtain ⟨row, hrow, hrowId⟩ := hkept
        exact ⟨row, (hwrites.mem_links row).mpr (.inl hrow), hrowId.trans hid⟩
    · exact ⟨row, (hwrites.mem_links row).mpr (.inl hrow), rfl⟩
  named link hlink := by
    rcases (hwrites.mem_links link).mp hlink with hrow | ⟨hold, hkept⟩
    · obtain ⟨_, hevents⟩ := h.eventsOf_written hwrites hrow
      rw [hevents, map_append, range_succ, map_append]
      congr 1
      -- the events before: none for a new link, those up to the old revision for a changed one
      cases hwrites.written link hrow with
      | created _ hfree hrevision =>
        rw [h.eventsOf_fresh hfree, hrevision]
        rfl
      | changed hold hid hrevision => rw [hid, h.named _ hold, hrevision]
    · rw [h.eventsOf_kept hwrites hkept]
      exact h.named link hold
  last link hlink := by
    rcases (hwrites.mem_links link).mp hlink with hrow | ⟨hold, hkept⟩
    · obtain ⟨cursor, hevents⟩ := h.eventsOf_written hwrites hrow
      exact ⟨eventOf link observedAt cursor, by simp [hevents], rfl, rfl⟩
    · rw [h.eventsOf_kept hwrites hkept]
      exact h.last link hold
  closedAt link hlink := by
    rcases (hwrites.mem_links link).mp hlink with hrow | ⟨hold, -⟩
    · cases hwrites.written link hrow with
      | created _ _ _ hstate hclosedAt => simp [hstate, hclosedAt]
      | changed _ _ _ _ hclosedAt => exact hclosedAt
    · exact h.closedAt link hold

theorem exec (hexec : call.exec s = .ok s') : s'.Logged := by
  obtain ⟨_, _, hwrites⟩ := LinkCall.exec_writes h.closedAt hexec
  exact h.writes hwrites

end

end LinkStore.Logged

end Bridget.Idempotency
