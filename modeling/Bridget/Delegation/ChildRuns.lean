import Bridget.Delegation.ChildRequests
import Bridget.Foundation.Run

/-!
# A request is decided once and its answer is sent once

Each call moves one row at most, and no move leaves a decision, a confirmed closure or a
settled delivery. So along any sequence of calls a decision is taken by one of them, and one
claim allows the answer to be sent.
-/

namespace Bridget.Delegation.DelegationStore

open Foundation Table Function

variable {providerId : String → Except String String} {s s' : DelegationStore} {op : ChildOp}
  {ops : List ChildOp} {id generation : String} {row row' request : ChildRequest} {now : Int}

def ChildrenSound (s : DelegationStore) : Prop :=
  ∀ id row, s.getChildRequest id = some row → ChildSound row

theorem Fresh.sound (h : Fresh request) (providerRequestId : String) :
    ChildSound { request with providerRequestId } := by
  refine ⟨fun _ => ⟨h.decision, h.answerJson, h.decidedBy, h.decidedAt⟩, ?_, ?_⟩
  · intro hanswered
    rw [h.state] at hanswered
    cases hanswered
  · intro hclosed
    rw [h.voidReason] at hclosed
    cases hclosed

theorem ChildrenSound.step (h : ChildrenSound s) (hcall : ChildCall s op) :
    ChildrenSound (s.childStep providerId op) := by
  intro id found hfound
  cases childStep_effect providerId s op with
  | same hlookup =>
    rw [hlookup] at hfound
    exact h id found hfound
  | moved hstored hmove hlookup =>
    rcases update_some_cases (hlookup ▸ hfound) with ⟨-, rfl⟩ | ⟨-, hfound⟩
    · exact hmove.sound (h _ _ hstored) hcall
    · exact h id found hfound
  | inserted providerRequestId hop _ hlookup =>
    rcases update_some_cases (hlookup ▸ hfound) with ⟨-, rfl⟩ | ⟨-, hfound⟩
    · subst hop
      exact Fresh.sound hcall providerRequestId
    · exact h id found hfound

/-- A call keeps every request, and of each of them what may not be left. -/
theorem ChildrenSound.step_kept (h : ChildrenSound s) (op : ChildOp)
    (hrow : s.getChildRequest id = some row) :
    ∃ row', (s.childStep providerId op).getChildRequest id = some row' ∧ ChildKept row row' := by
  cases childStep_effect providerId s op with
  | same hlookup => exact ⟨row, by rw [hlookup, hrow], .refl row⟩
  | @moved old new hstored hmove hlookup =>
    rw [hlookup]
    by_cases heq : id = old.requestId
    · subst heq
      cases hstored.symm.trans hrow
      exact ⟨new, update_self .., hmove.kept (h _ _ hstored)⟩
    · exact ⟨row, by rw [update_of_ne heq, hrow], .refl row⟩
  | inserted _ _ hfree hlookup =>
    refine ⟨row, ?_, .refl row⟩
    rw [hlookup, update_of_ne, hrow]
    rintro rfl
    rw [hfree] at hrow
    cases hrow

theorem ChildrenSound.run_kept (h : ChildrenSound s)
    (hrun : Run (childStep providerId) ChildCall s ops s') (hrow : s.getChildRequest id =
      some row) : ∃ row', s'.getChildRequest id = some row' ∧ ChildKept row row' := by
  refine hrun.relates ChildrenSound
    (fun s s' => ∀ row, s.getChildRequest id = some row →
      ∃ row', s'.getChildRequest id = some row' ∧ ChildKept row row') ?_ ?_
    (fun _ _ h hcall => h.step hcall) ?_ h row hrow
  · intro s row hrow
    exact ⟨row, hrow, .refl row⟩
  · intro _ _ _ hab hbc row hrow
    obtain ⟨middle, hmiddle, hkept⟩ := hab row hrow
    obtain ⟨last, hlast, hkept'⟩ := hbc middle hmiddle
    exact ⟨last, hlast, hkept.trans hkept'⟩
  · intro s op h _ row hrow
    exact h.step_kept op hrow

def settlement (row : ChildRequest) : Option String × Option String × Option String × Option Int :=
  (row.decision, row.answerJson, row.decidedBy, row.decidedAt)

/-- What it takes to change the settlement of a row: the row is open and does not stay so, and
a decision or an answer is written by a decision before the deadline. -/
structure Settling (op : ChildOp) (row row' : ChildRequest) : Prop where
  before : row.state = .open ∧ settlement row = (none, none, none, none)
  after : row'.state ≠ .open
  decided : row'.decision ≠ row.decision ∨ row'.answerJson ≠ row.answerJson →
    ∃ decision answerJson decidedBy outcome now,
      op = .decide row.requestId decision answerJson decidedBy outcome now ∧ now < row.deadlineAt ∧
      settlement row' = (some decision, answerJson, some decidedBy, some now)

theorem ChildMove.settling (h : ChildMove op row row') (hsound : ChildSound row)
    (hchanged : settlement row' ≠ settlement row) : Settling op row row' := by
  have hundecided : row.state = .open → row.state = .open ∧
      settlement row = (none, none, none, none) := by
    intro hopen
    obtain ⟨hdecision, hanswer, hby, hat⟩ := hsound.undecided hopen
    exact ⟨hopen, by rw [settlement, hdecision, hanswer, hby, hat]⟩
  cases h with
  | decide hstate htime =>
    exact ⟨hundecided hstate, nofun, fun _ => ⟨_, _, _, _, _, rfl, htime, rfl⟩⟩
  | close hstate hclosing =>
    refine ⟨hundecided hstate, (closingState_ne hclosing).1, ?_⟩
    rintro (hdecision | hanswer)
    · exact absurd rfl hdecision
    · exact absurd rfl hanswer
  | confirmOpen _ hstate =>
    refine ⟨hundecided hstate, nofun, ?_⟩
    rintro (hdecision | hanswer)
    · exact absurd rfl hdecision
    · exact absurd rfl hanswer
  | claim | voidPending | settleSent | confirmDecided | markClosing => exact absurd rfl hchanged

theorem ChildrenSound.settling (h : ChildrenSound s) (hrow : s.getChildRequest id = some row)
    (hrow' : (s.childStep providerId op).getChildRequest id = some row')
    (hchanged : settlement row' ≠ settlement row) : Settling op row row' := by
  cases childStep_effect providerId s op with
  | same hlookup =>
    rw [hlookup, hrow] at hrow'
    cases hrow'
    exact absurd rfl hchanged
  | moved hstored hmove hlookup =>
    rcases update_some_cases (hlookup ▸ hrow') with ⟨rfl, rfl⟩ | ⟨-, hfound⟩
    · cases hstored.symm.trans hrow
      exact hmove.settling (h _ _ hstored) hchanged
    · rw [hrow] at hfound
      cases hfound
      exact absurd rfl hchanged
  | inserted _ _ hfree hlookup =>
    rcases update_some_cases (hlookup ▸ hrow') with ⟨rfl, -⟩ | ⟨-, hfound⟩
    · rw [hfree] at hrow
      cases hrow
    · rw [hrow] at hfound
      cases hfound
      exact absurd rfl hchanged

theorem decideChildRequest_accepted {decision decidedBy outcome : String}
    {answerJson : Option String}
    (hchanged : (s.childStep providerId (.decide id decision answerJson decidedBy outcome
      now)).getChildRequest ≠ s.getChildRequest) :
    ∃ s', s.decideChildRequest id decision answerJson decidedBy outcome now = .ok (true, s') := by
  cases hdecide : s.decideChildRequest id decision answerJson decidedBy outcome now with
  | error =>
    refine absurd ?_ hchanged
    rw [childStep, applyChild, hdecide]
    rfl
  | ok result =>
    obtain ⟨answer, s'⟩ := result
    cases answer with
    | true => exact ⟨s', rfl⟩
    | false =>
      refine absurd ?_ hchanged
      rw [childStep, applyChild, hdecide]
      simp only [decideChildRequest, bind_eq_ok] at hdecide
      obtain ⟨_, -, hupdate⟩ := hdecide
      exact congrArg getChildRequest (updateChild_false hupdate fun _ => ⟨rfl, rfl⟩)

theorem claimChildRequest_cases (s : DelegationStore) (id : String) (now : Int) :
    (s.claimChildRequest id now = .ok (false, s)) ∨
    ∃ row s', s.getChildRequest id = some row ∧ row.state = .answered ∧
      row.deliveryState = .pending ∧ now < row.deadlineAt ∧
      s.claimChildRequest id now = .ok (true, s') ∧ s'.getChildRequest = update s.getChildRequest id
        (some { row with deliveryState := .sent, sentAt := some now }) := by
  rcases updateChild_cases s id
    (fun row => row.state = .answered && row.deliveryState = .pending && now < row.deadlineAt)
    (fun row => { row with deliveryState := .sent, sentAt := some now })
    (fun _ => ⟨rfl, rfl⟩) with ⟨hsame, -⟩ | ⟨row, s', hrow, hcondition, hclaim, hlookup⟩
  · exact .inl hsame
  · simp only [test_iff] at hcondition
    exact .inr ⟨row, s', hrow, hcondition.1.1, hcondition.1.2, hcondition.2, hclaim, hlookup⟩

/-- Once the delivery has left the pending state, no claim succeeds any more. -/
theorem ChildrenSound.not_claimed (h : ChildrenSound s)
    (hrun : Run (childStep providerId) ChildCall s ops s') (hrow : s.getChildRequest id = some row)
    (hnone : row.deliveryState ≠ .none) (hpending : row.deliveryState ≠ .pending) (later : Int) :
    s'.claimChildRequest id later = .ok (false, s') := by
  obtain ⟨_, hlast, hkept⟩ := h.run_kept hrun hrow
  rcases claimChildRequest_cases s' id later with hfalse | ⟨_, _, hfound, -, hstill, -⟩
  · exact hfalse
  · rw [hlast] at hfound
    cases hfound
    exact absurd hstill (hkept.left hnone hpending).2

theorem decided_before (hrun : Run (childStep providerId) ChildCall (init generation) ops s)
    (hrow : s.getChildRequest id = some row) (hstate : row.state = .answered) :
    ∃ before after decision answerJson decidedBy outcome now middle middle',
      ops = before ++ .decide id decision answerJson decidedBy outcome now :: after ∧
      Run (childStep providerId) ChildCall (init generation) before middle ∧
      middle.decideChildRequest id decision answerJson decidedBy outcome now =
        .ok (true, middle') := by
  obtain ⟨before, op, after, middle, hops, hbefore, hcall, hnot, found, hfound, hanswered⟩ :=
    hrun.exists_step (fun s => ∃ row, s.getChildRequest id = some row ∧ row.state = .answered)
      (by rintro ⟨row, hrow, -⟩; cases hrow) ⟨row, hrow, hstate⟩
  have hchanged : (middle.childStep providerId op).getChildRequest ≠ middle.getChildRequest := by
    intro hsame
    exact hnot ⟨found, hsame ▸ hfound, hanswered⟩
  cases childStep_effect providerId middle op with
  | same hlookup => exact absurd hlookup hchanged
  | @moved old _ hstored hmove hlookup =>
    rcases update_some_cases (hlookup ▸ hfound) with ⟨rfl, rfl⟩ | ⟨-, hold⟩
    · cases hmove with
      | decide =>
        obtain ⟨middle', haccepted⟩ := decideChildRequest_accepted hchanged
        exact ⟨before, after, _, _, _, _, _, middle, middle', hops, hbefore, haccepted⟩
      | close _ hclosing => exact absurd hanswered (closingState_ne hclosing).2
      | confirmOpen => cases hanswered
      | claim | voidPending | settleSent | confirmDecided | markClosing =>
        exact absurd ⟨old, hstored, hanswered⟩ hnot
    · exact absurd ⟨found, hold, hanswered⟩ hnot
  | @inserted fresh _ hop _ hlookup =>
    rcases update_some_cases (hlookup ▸ hfound) with ⟨-, rfl⟩ | ⟨-, hold⟩
    · subst hop
      have hfresh : fresh.state = .open := Fresh.state hcall
      have hanswered' : fresh.state = .answered := hanswered
      rw [hfresh] at hanswered'
      cases hanswered'
    · exact absurd ⟨found, hold, hanswered⟩ hnot

theorem pins_childOrigin (request : ChildRequest) :
    PinsKey fun row : ChildRequest => decide (row.origin = request.origin) :=
  pinsKey_field fun _ _ => .inr

theorem insertChildRequest_stored {providerRequestId : String} {stored : ChildRequest}
    (hprovider : providerId request.providerRequestId = .ok providerRequestId)
    (hchecked : request.kind ∈ childKinds ∧ request.verdict ∈ childVerdicts)
    (hstored : stored ∈ s.childRequests)
    (horigin : stored.origin = { request with providerRequestId }.origin) :
    s.insertChildRequest providerId request =
      if stored.contentHash = request.contentHash then .ok (stored, s)
      else .error "request_conflict" := by
  have hignored : (s.childRequests.insertOrIgnore { request with providerRequestId }).1 =
      s.childRequests := by
    refine (insertOrIgnore_ignored fun hinserted => ?_).1
    exact not_conflicts_of_insert (insertOrIgnore_inserted hinserted) hstored
      (.inr horigin)
  have hfind : s.childRequests.find? (fun row =>
      decide (row.origin = { request with providerRequestId }.origin)) = some stored :=
    (find?_eq_some (pins_childOrigin _)).mpr ⟨hstored, decide_eq_true horigin⟩
  unfold insertChildRequest
  rw [hprovider]
  simp only [Except.mapError, ok_bind, hignored, hfind, ensure, orError]
  rw [if_pos hchecked, ok_bind]
  by_cases hhash : stored.contentHash = request.contentHash
  · rw [if_pos hhash, if_pos hhash]
    rfl
  · rw [if_neg hhash, if_neg hhash]
    rfl

/-- A permission request is decided once and its answer is sent once. Along any run a row keeps
its decision, its settled delivery and its confirmed closure; the columns of a decision change
only while the request is open, a decision only before the deadline; a claim succeeds only on
the pending answer to an accepted decision before the deadline, and then or after any void no
claim succeeds again; and a request that is already stored is answered by the stored row. -/
theorem child_request_decided_and_sent_once {generation : String} {ops' : List ChildOp}
    (hrun : Run (childStep providerId) ChildCall (init generation) ops s)
    (hrest : Run (childStep providerId) ChildCall s ops' s') :
    (∀ id row, s.getChildRequest id = some row →
      ∃ row', s'.getChildRequest id = some row' ∧ ChildKept row row') ∧
    (∀ op, ChildCall s op → ∀ id row row', s.getChildRequest id = some row →
      (s.childStep providerId op).getChildRequest id = some row' →
      settlement row' ≠ settlement row → Settling op row row') ∧
    (∀ id now after, s.claimChildRequest id now = .ok (true, after) →
      (∃ row, s.getChildRequest id = some row ∧ row.state = .answered ∧
        row.deliveryState = .pending ∧ now < row.deadlineAt) ∧
      (∃ before rest decision answerJson decidedBy outcome decidedAt middle middle',
        ops = before ++ .decide id decision answerJson decidedBy outcome decidedAt :: rest ∧
        Run (childStep providerId) ChildCall (init generation) before middle ∧
        middle.decideChildRequest id decision answerJson decidedBy outcome decidedAt =
          .ok (true, middle')) ∧
      ∀ laterOps later, Run (childStep providerId) ChildCall after laterOps later →
        ∀ time, later.claimChildRequest id time = .ok (false, later)) ∧
    (∀ id row, s.getChildRequest id = some row → row.deliveryState = .void →
      ∀ time, s'.claimChildRequest id time = .ok (false, s')) ∧
    ∀ request stored providerRequestId,
      providerId request.providerRequestId = .ok providerRequestId → Fresh request →
      stored ∈ s.childRequests → stored.origin = { request with providerRequestId }.origin →
      s.insertChildRequest providerId request =
        if stored.contentHash = request.contentHash then .ok (stored, s)
        else .error "request_conflict" := by
  have hsound : ChildrenSound s := by
    refine hrun.invariant ChildrenSound (fun _ _ h hcall => h.step hcall) ?_
    intro _ _ hrow
    cases hrow
  refine ⟨?_, ?_, ?_, ?_, ?_⟩
  · intro id row hrow
    exact hsound.run_kept hrest hrow
  · intro op _ id row row' hrow hrow' hchanged
    exact hsound.settling hrow hrow' hchanged
  · intro id now after hclaim
    rcases claimChildRequest_cases s id now with
      hfalse | ⟨row, s₁, hrow, hstate, hdelivery, htime, htrue, hlookup⟩
    · rw [hfalse] at hclaim
      cases hclaim
    rw [htrue] at hclaim
    cases hclaim
    refine ⟨⟨row, hrow, hstate, hdelivery, htime⟩, decided_before hrun hrow hstate, ?_⟩
    intro laterOps later hlater time
    have hstep : s.childStep providerId (.claim id now) = after := by
      rw [childStep, applyChild, htrue]
      rfl
    have hsound' : ChildrenSound after := hstep ▸ hsound.step trivial
    refine hsound'.not_claimed hlater
      (show after.getChildRequest id = some _ by rw [hlookup, update_self]) ?_ ?_ time
    · exact nofun
    · exact nofun
  · intro id row hrow hvoid time
    refine hsound.not_claimed hrest hrow ?_ ?_ time
    · rw [hvoid]
      exact nofun
    · rw [hvoid]
      exact nofun
  · intro request stored providerRequestId hprovider hfresh hstored horigin
    exact insertChildRequest_stored hprovider hfresh.checked hstored horigin

def sampleChildRequest : ChildRequest where
  requestId := "q1"
  taskId := "root"
  childInstance := "child-1"
  providerSession := "session"
  turnId := "turn"
  providerRequestId := "7"
  contentHash := "hash"
  kind := "approval_command"
  verdict := "parent"
  state := .open
  outcome := none
  summary := "rm -r build"
  factsJson := "\x7b\x7d"
  modelText := ""
  offeredJson := "[]"
  createdAt := 0
  deadlineAt := 60
  decision := none
  answerJson := none
  decidedBy := none
  decidedAt := none
  deliveryState := .none
  voidReason := none
  sentAt := none
  deliveredAt := none
  inboxItemId := none
  inboxSettled := false

def sampleChildCalls : List ChildOp :=
  [.insert sampleChildRequest, .decide "q1" "accept" none "human" "accepted" 10]

def sampleDecided : DelegationStore := sampleChildCalls.foldl (childStep .ok) (init "g0")

def sampleClaimed : DelegationStore := sampleDecided.childStep .ok (.claim "q1" 20)

theorem sampleChildCalls_run :
    Run (childStep .ok) ChildCall (init "g0") sampleChildCalls sampleDecided :=
  .cons ⟨rfl, rfl, rfl, rfl, rfl, rfl, rfl, by decide⟩ (.cons trivial (.nil _))

/-- The answer to the sample request is claimed at one moment and never again. -/
theorem accepted_answer_claimed_once :
    sampleDecided.claimChildRequest "q1" 20 = .ok (true, sampleClaimed) ∧
      ∀ time, sampleClaimed.claimChildRequest "q1" time = .ok (false, sampleClaimed) := by
  have hclaim : sampleDecided.claimChildRequest "q1" 20 = .ok (true, sampleClaimed) := rfl
  have honce := child_request_decided_and_sent_once sampleChildCalls_run (.nil sampleDecided)
  exact ⟨hclaim, (honce.2.2.1 _ _ _ hclaim).2.2 [] _ (.nil _)⟩

end Bridget.Delegation.DelegationStore
