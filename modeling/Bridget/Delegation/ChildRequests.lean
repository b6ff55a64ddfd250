import Bridget.Delegation.Transitions

/-!
# Permission requests of children

A child asks for a permission and waits until a deadline. The request is decided or closed
once; the answer to a decision is claimed before it is sent, so that it is sent once. Every
call is one conditional update of the row of the request.
-/

namespace Bridget.Delegation

open Foundation Table Option Function

def childKinds : List String :=
  ["approval_command", "approval_file", "elicitation_form", "user_input"]

def childVerdicts : List String := ["parent", "human", "forbidden"]

def closedBeforeApply : String := "closed_before_apply"

namespace DelegationStore

def getChildRequest (s : DelegationStore) (requestId : String) : Option ChildRequest :=
  s.childRequests.find? (·.requestId = requestId)

/-- The id given by the provider is stored as it prints once it has been read. -/
def insertChildRequest (providerId : String → Except String String) (s : DelegationStore)
    (request : ChildRequest) : Result (ChildRequest × DelegationStore) := do
  let providerRequestId ← (providerId request.providerRequestId).mapError .code
  let row := { request with providerRequestId }
  ensure (row.kind ∈ childKinds ∧ row.verdict ∈ childVerdicts) (.sqlite .constraint)
  let (childRequests, _) := s.childRequests.insertOrIgnore row
  let existing ← orError (childRequests.find? (·.origin = row.origin)) "request_conflict"
  ensure (existing.contentHash = request.contentHash) "request_conflict"
  pure (existing, { s with childRequests })

def updateChild (s : DelegationStore) (requestId : String) (condition : ChildRequest → Bool)
    (change : ChildRequest → ChildRequest) : Result (Bool × DelegationStore) := do
  let (childRequests, changed) ← sqlite (s.childRequests.update
    (fun row => row.requestId = requestId && condition row) change)
  pure (changed == 1, { s with childRequests })

/-- The delivery is neither done nor given up, and the request is not known to be closed. -/
def childUnsettled (row : ChildRequest) : Bool :=
  row.deliveryState ≠ .delivered && row.deliveryState ≠ .unknown &&
    row.voidReason ≠ some closedBeforeApply

variable (s : DelegationStore)

def markChildClosing (requestId reason : String) : Result DelegationStore :=
  (s.updateChild requestId childUnsettled
    fun row => { row with voidReason := row.voidReason.or (some reason) }).map Prod.snd

def confirmChildClosed (requestId : String) (applied : Bool) (now : Int) :
    Result (Bool × DelegationStore) :=
  s.updateChild requestId childUnsettled fun row =>
    { row with
      deliveryState := if applied then .delivered else .void
      voidReason := if applied then row.voidReason else some closedBeforeApply
      deliveredAt := if applied then some now else row.deliveredAt
      state := if row.state = .open then .cancelled else row.state
      outcome := if row.state = .open then some "cancelled" else row.outcome
      decidedBy := if row.state = .open then some "system" else row.decidedBy
      decidedAt := if row.state = .open then some now else row.decidedAt }

def decideChildRequest (requestId decision : String)
    (answerJson : Option String) (decidedBy outcome : String) (now : Int) :
    Result (Bool × DelegationStore) := do
  ensure (decision = "accept" ∨ decision = "decline" ∨ decision = "cancel")
    "decision_not_offered"
  s.updateChild requestId
    (fun row => row.state = .open && now < row.deadlineAt && row.deliveryState = .none)
    fun row =>
      { row with
        state := .answered
        outcome := some outcome
        decision := some decision
        answerJson := answerJson
        decidedBy := some decidedBy
        decidedAt := some now
        deliveryState := .pending }

def closingState : String → Option ChildRequestState
  | "expired" => some .expired
  | "cancelled" => some .cancelled
  | "refused" => some .refused
  | _ => none

variable (s : DelegationStore)

def closeChildRequest (requestId state outcome : String) (now : Int) :
    Result (Bool × DelegationStore) := do
  let state ← orError (closingState state) "request_closed"
  s.updateChild requestId (fun row => row.state = .open) fun row =>
    { row with
      state := state
      outcome := some outcome
      decidedBy := some "system"
      decidedAt := some now }

def claimChildRequest (requestId : String) (now : Int) : Result (Bool × DelegationStore) :=
  s.updateChild requestId
    (fun row => row.state = .answered && row.deliveryState = .pending && now < row.deadlineAt)
    fun row => { row with deliveryState := .sent, sentAt := some now }

def voidPendingChildRequest (requestId reason : String) : Result (Bool × DelegationStore) :=
  s.updateChild requestId (fun row => row.deliveryState = .pending)
    fun row => { row with deliveryState := .void, voidReason := some reason }

def settledDelivery : String → Option ChildDeliveryState
  | "delivered" => some .delivered
  | "void" => some .void
  | "unknown" => some .unknown
  | _ => none

def settleSentChildRequest (s : DelegationStore) (requestId delivery : String)
    (reason : Option String) (now : Int) : Result (Bool × DelegationStore) := do
  let delivery ← orError (settledDelivery delivery) "request_closed"
  s.updateChild requestId (fun row => row.deliveryState = .sent) fun row =>
    { row with
      deliveryState := delivery
      voidReason := reason
      deliveredAt := if delivery = .delivered then some now else row.deliveredAt
      outcome := if delivery = .unknown then some "cancelled_outcome_unknown" else row.outcome }

inductive ChildOp where
  | insert (request : ChildRequest)
  | decide (requestId decision : String) (answerJson : Option String)
      (decidedBy outcome : String) (now : Int)
  | close (requestId state outcome : String) (now : Int)
  | claim (requestId : String) (now : Int)
  | voidPending (requestId reason : String)
  | settleSent (requestId delivery : String) (reason : Option String) (now : Int)
  | confirmClosed (requestId : String) (applied : Bool) (now : Int)
  | markClosing (requestId reason : String)

section

variable (providerId : String → Except String String)

def applyChild (s : DelegationStore) : ChildOp → Result DelegationStore
  | .insert request => (s.insertChildRequest providerId request).map Prod.snd
  | .decide requestId decision answerJson decidedBy outcome now =>
    (s.decideChildRequest requestId decision answerJson decidedBy outcome now).map Prod.snd
  | .close requestId state outcome now =>
    (s.closeChildRequest requestId state outcome now).map Prod.snd
  | .claim requestId now => (s.claimChildRequest requestId now).map Prod.snd
  | .voidPending requestId reason => (s.voidPendingChildRequest requestId reason).map Prod.snd
  | .settleSent requestId delivery reason now =>
    (s.settleSentChildRequest requestId delivery reason now).map Prod.snd
  | .confirmClosed requestId applied now =>
    (s.confirmChildClosed requestId applied now).map Prod.snd
  | .markClosing requestId reason => s.markChildClosing requestId reason

def childStep (s : DelegationStore) (op : ChildOp) : DelegationStore :=
  match s.applyChild providerId op with
  | .ok s' => s'
  | .error _ => s

end

variable {providerId : String → Except String String} {s s' : DelegationStore} {op : ChildOp}
  {id : String} {row row' request : ChildRequest} {now : Int}

def KeepsOrigin (change : ChildRequest → ChildRequest) : Prop :=
  ∀ row, (change row).requestId = row.requestId ∧ (change row).origin = row.origin

variable {change : ChildRequest → ChildRequest} {condition : ChildRequest → Bool} {text : String}

theorem updateChild_cases (s : DelegationStore) (id : String) (condition : ChildRequest → Bool)
    (change : ChildRequest → ChildRequest) (hkeeps : KeepsOrigin change) :
    (s.updateChild id condition change = .ok (false, s) ∧
      ∀ row, s.getChildRequest id = some row → condition row = false) ∨
    ∃ row s', s.getChildRequest id = some row ∧ condition row = true ∧
      s.updateChild id condition change = .ok (true, s') ∧
      s'.getChildRequest = update s.getChildRequest id (some (change row)) := by
  have hupdate := update_keyed (t := s.childRequests) (f := change)
    (p := fun row => decide (row.requestId = id) && condition row)
    ChildRequest.requestId id (fun _ => pinsKey_field fun _ _ => .inl)
    (fun a b => by simp [UniqueKeys.conflicts, hkeeps a, hkeeps b])
    (fun row hrow => by simpa using (Bool.and_eq_true_iff.mp hrow).1) fun row => (hkeeps row).1
  rcases hupdate with ⟨hsame, hfalse⟩ | ⟨row, t', hfind, hrow, hchanged, hlookup⟩
  · refine .inl ⟨?_, ?_⟩
    · rw [updateChild, hsame]
      rfl
    · intro row hfind
      have hid : row.requestId = id := by simpa using find?_some hfind
      simpa [hid] using hfalse row hfind
  · refine .inr ⟨row, { s with childRequests := t' }, hfind, (Bool.and_eq_true_iff.mp hrow).2,
      ?_, hlookup⟩
    rw [updateChild, hchanged]
    rfl

theorem updateChild_false (h : s.updateChild id condition change = .ok (false, s'))
    (hkeeps : KeepsOrigin change) : s' = s := by
  rcases updateChild_cases s id condition change hkeeps with ⟨hsame, -⟩ | ⟨_, _, -, -, hok, -⟩
  · rw [hsame] at h
    cases h
    rfl
  · rw [hok] at h
    cases h

/-- One call moves one row: it is decided or closed while open, its answer is claimed once the
decision is pending, and the delivery is settled. -/
inductive ChildMove : ChildOp → ChildRequest → ChildRequest → Prop
  | decide {row : ChildRequest} {decision : String} {answerJson : Option String}
      {decidedBy outcome : String} {now : Int} (hstate : row.state = .open)
      (htime : now < row.deadlineAt) (hdelivery : row.deliveryState = .none) :
      ChildMove (.decide row.requestId decision answerJson decidedBy outcome now) row
        { row with
          state := .answered
          outcome := some outcome
          decision := some decision
          answerJson := answerJson
          decidedBy := some decidedBy
          decidedAt := some now
          deliveryState := .pending }
  | close {row : ChildRequest} {text outcome : String} {state : ChildRequestState} {now : Int}
      (hstate : row.state = .open) (hclosing : closingState text = some state) :
      ChildMove (.close row.requestId text outcome now) row
        { row with
          state := state
          outcome := some outcome
          decidedBy := some "system"
          decidedAt := some now }
  | claim {row : ChildRequest} {now : Int} (hstate : row.state = .answered)
      (hdelivery : row.deliveryState = .pending) (htime : now < row.deadlineAt) :
      ChildMove (.claim row.requestId now) row
        { row with deliveryState := .sent, sentAt := some now }
  | voidPending {row : ChildRequest} {reason : String} (hdelivery : row.deliveryState = .pending) :
      ChildMove (.voidPending row.requestId reason) row
        { row with deliveryState := .void, voidReason := some reason }
  | settleSent {row : ChildRequest} {text : String} {delivery : ChildDeliveryState}
      {reason outcome : Option String} {deliveredAt : Option Int} {now : Int}
      (hdelivery : row.deliveryState = .sent) (hsettled : settledDelivery text = some delivery) :
      ChildMove (.settleSent row.requestId text reason now) row
        { row with
          deliveryState := delivery
          voidReason := reason
          deliveredAt := deliveredAt
          outcome := outcome }
  | confirmOpen {row : ChildRequest} {applied : Bool} {voidReason : Option String}
      {deliveredAt : Option Int} {now : Int} (hunsettled : childUnsettled row = true)
      (hstate : row.state = .open)
      (hreason : voidReason = if applied then row.voidReason else some closedBeforeApply) :
      ChildMove (.confirmClosed row.requestId applied now) row
        { row with
          deliveryState := if applied then .delivered else .void
          voidReason := voidReason
          deliveredAt := deliveredAt
          state := .cancelled
          outcome := some "cancelled"
          decidedBy := some "system"
          decidedAt := some now }
  | confirmDecided {row : ChildRequest} {applied : Bool} {voidReason : Option String}
      {deliveredAt : Option Int} {now : Int} (hunsettled : childUnsettled row = true)
      (hstate : row.state ≠ .open)
      (hreason : voidReason = if applied then row.voidReason else some closedBeforeApply) :
      ChildMove (.confirmClosed row.requestId applied now) row
        { row with
          deliveryState := if applied then .delivered else .void
          voidReason := voidReason
          deliveredAt := deliveredAt }
  | markClosing {row : ChildRequest} {reason : String} (hunsettled : childUnsettled row = true) :
      ChildMove (.markClosing row.requestId reason) row
        { row with voidReason := row.voidReason.or (some reason) }

inductive ChildEffect (op : ChildOp) (s s' : DelegationStore) : Prop
  | same (hlookup : s'.getChildRequest = s.getChildRequest)
  | moved {row row' : ChildRequest} (hstored : s.getChildRequest row.requestId = some row)
      (hmove : ChildMove op row row')
      (hlookup : s'.getChildRequest = update s.getChildRequest row.requestId (some row'))
  | inserted {request : ChildRequest} (providerRequestId : String) (hop : op = .insert request)
      (hfree : s.getChildRequest request.requestId = none)
      (hlookup : s'.getChildRequest = update s.getChildRequest request.requestId
        (some { request with providerRequestId }))

theorem ChildEffect.of_update
    (h : (s.updateChild id condition change).map Prod.snd = .ok s') (hkeeps : KeepsOrigin change)
    (hmove : ∀ row, row.requestId = id → condition row = true → ChildMove op row (change row)) :
    ChildEffect op s s' := by
  rcases updateChild_cases s id condition change hkeeps with
    ⟨hsame, -⟩ | ⟨row, after, hstored, hrow, hok, hlookup⟩
  · rw [hsame] at h
    cases h
    exact .same rfl
  rw [hok] at h
  cases h
  have hid : row.requestId = id := by simpa using find?_some hstored
  subst hid
  exact .moved hstored (hmove row rfl hrow) hlookup

theorem insertChildRequest_cases {existing : ChildRequest}
    (h : s.insertChildRequest providerId request = .ok (existing, s')) :
    s' = s ∨ ∃ providerRequestId, s.getChildRequest request.requestId = none ∧
      existing = { request with providerRequestId } ∧
      s'.getChildRequest = update s.getChildRequest request.requestId (some existing) := by
  simp only [insertChildRequest, ok_iff, pair_iff] at h
  obtain ⟨providerRequestId, -, _, -, _, hfound, _, -, rfl, rfl⟩ := h
  set row := { request with providerRequestId := providerRequestId } with hrow
  by_cases hinserted : (s.childRequests.insertOrIgnore row).2 = 1
  · have hinsert := insertOrIgnore_inserted hinserted
    have hid : s.childRequests.find? (fun r => decide (r.requestId = row.requestId)) = none :=
      find?_eq_none_of_insert hinsert fun _ hr => .inl (of_decide_eq_true hr)
    have horigin : s.childRequests.find? (fun r => decide (r.origin = row.origin)) = none :=
      find?_eq_none_of_insert hinsert fun _ hr => .inr (of_decide_eq_true hr)
    rw [find?_insert hinsert, horigin] at hfound
    simp only [decide_true, if_true, none_or, some.injEq] at hfound
    refine .inr ⟨providerRequestId, hid, hfound.symm, ?_⟩
    rw [← hfound]
    exact lookup_insert ChildRequest.requestId hid hinsert
  · have hignored := (insertOrIgnore_ignored hinserted).1
    exact .inl (by rw [hignored])

theorem ChildEffect.of_apply (h : s.applyChild providerId op = .ok s') : ChildEffect op s s' := by
  cases op with
  | insert =>
    obtain ⟨_, hinsert⟩ := map_snd_eq_ok.mp h
    rcases insertChildRequest_cases hinsert with rfl | ⟨_, hfree, rfl, hlookup⟩
    · exact .same rfl
    · exact .inserted _ rfl hfree hlookup
  | decide =>
    obtain ⟨_, hdecide⟩ := map_snd_eq_ok.mp h
    simp only [decideChildRequest, bind_eq_ok] at hdecide
    obtain ⟨_, -, hupdate⟩ := hdecide
    refine .of_update (map_snd_eq_ok.mpr ⟨_, hupdate⟩) (fun _ => ⟨rfl, rfl⟩) ?_
    rintro _ rfl hrow
    simp only [test_iff] at hrow
    exact .decide hrow.1.1 hrow.1.2 hrow.2
  | close =>
    obtain ⟨_, hclose⟩ := map_snd_eq_ok.mp h
    simp only [closeChildRequest, ok_iff] at hclose
    obtain ⟨_, hclosing, hupdate⟩ := hclose
    refine .of_update (map_snd_eq_ok.mpr ⟨_, hupdate⟩) (fun _ => ⟨rfl, rfl⟩) ?_
    rintro _ rfl hrow
    exact .close (of_decide_eq_true hrow) hclosing
  | claim =>
    refine .of_update h (fun _ => ⟨rfl, rfl⟩) ?_
    rintro _ rfl hrow
    simp only [test_iff] at hrow
    exact .claim hrow.1.1 hrow.1.2 hrow.2
  | voidPending =>
    refine .of_update h (fun _ => ⟨rfl, rfl⟩) ?_
    rintro _ rfl hrow
    exact .voidPending (of_decide_eq_true hrow)
  | settleSent =>
    obtain ⟨_, hsettle⟩ := map_snd_eq_ok.mp h
    simp only [settleSentChildRequest, ok_iff] at hsettle
    obtain ⟨_, hsettled, hupdate⟩ := hsettle
    refine .of_update (map_snd_eq_ok.mpr ⟨_, hupdate⟩) (fun _ => ⟨rfl, rfl⟩) ?_
    rintro _ rfl hrow
    exact .settleSent (of_decide_eq_true hrow) hsettled
  | confirmClosed =>
    refine .of_update h (fun _ => ⟨rfl, rfl⟩) ?_
    rintro row rfl hrow
    by_cases hopen : row.state = .open
    · simp only [hopen, if_true]
      exact .confirmOpen hrow hopen rfl
    · simp only [hopen, if_false]
      exact .confirmDecided hrow hopen rfl
  | markClosing =>
    refine .of_update h (fun _ => ⟨rfl, rfl⟩) ?_
    rintro _ rfl hrow
    exact .markClosing hrow

theorem childStep_effect (providerId : String → Except String String) (s : DelegationStore)
    (op : ChildOp) : ChildEffect op s (s.childStep providerId op) := by
  unfold childStep
  split
  next happly => exact .of_apply happly
  · exact .same rfl

/-- A row as it is when its request arrives. -/
structure Fresh (request : ChildRequest) : Prop where
  state : request.state = .open
  delivery : request.deliveryState = .none
  decision : request.decision = none
  answerJson : request.answerJson = none
  decidedBy : request.decidedBy = none
  decidedAt : request.decidedAt = none
  voidReason : request.voidReason = none
  checked : request.kind ∈ childKinds ∧ request.verdict ∈ childVerdicts

/-- The calls of the protocol: only fresh rows are inserted, and a requested closure is not
recorded as a confirmed one. -/
def ChildCall (_ : DelegationStore) : ChildOp → Prop
  | .insert request => Fresh request
  | .markClosing _ reason => reason ≠ closedBeforeApply
  | _ => True

structure ChildSound (row : ChildRequest) : Prop where
  undecided : row.state = .open → row.decision = none ∧ row.answerJson = none ∧
    row.decidedBy = none ∧ row.decidedAt = none
  answered : row.state = .answered → row.decision.isSome = true
  closed : row.voidReason = some closedBeforeApply →
    row.deliveryState ≠ .none ∧ row.deliveryState ≠ .pending ∧ row.deliveryState ≠ .sent

/-- What no later operation takes back. -/
structure ChildKept (row row' : ChildRequest) : Prop where
  requestId : row'.requestId = row.requestId
  origin : row'.origin = row.origin
  deadlineAt : row'.deadlineAt = row.deadlineAt
  decided : row.state ≠ .open → row'.state = row.state ∧ row'.decision = row.decision ∧
    row'.answerJson = row.answerJson ∧ row'.decidedBy = row.decidedBy ∧
    row'.decidedAt = row.decidedAt
  delivered : row.deliveryState = .delivered → row'.deliveryState = .delivered
  unknown : row.deliveryState = .unknown → row'.deliveryState = .unknown
  closed : row.voidReason = some closedBeforeApply → row'.voidReason = some closedBeforeApply
  left : row.deliveryState ≠ .none → row.deliveryState ≠ .pending →
    row'.deliveryState ≠ .none ∧ row'.deliveryState ≠ .pending

theorem ChildKept.refl (row : ChildRequest) : ChildKept row row :=
  ⟨rfl, rfl, rfl, fun _ => ⟨rfl, rfl, rfl, rfl, rfl⟩, id, id, id, fun h h' => ⟨h, h'⟩⟩

theorem ChildKept.trans {row'' : ChildRequest} (h : ChildKept row row')
    (h' : ChildKept row' row'') : ChildKept row row'' := by
  refine ⟨h'.requestId.trans h.requestId, h'.origin.trans h.origin,
    h'.deadlineAt.trans h.deadlineAt, ?_, ?_, ?_, ?_, ?_⟩
  · intro hstate
    obtain ⟨hsame, hdecision, hanswer, hby, hat⟩ := h.decided hstate
    obtain ⟨hsame', hdecision', hanswer', hby', hat'⟩ := h'.decided (hsame ▸ hstate)
    exact ⟨hsame'.trans hsame, hdecision'.trans hdecision, hanswer'.trans hanswer,
      hby'.trans hby, hat'.trans hat⟩
  · exact fun hdelivered => h'.delivered (h.delivered hdelivered)
  · exact fun hunknown => h'.unknown (h.unknown hunknown)
  · exact fun hclosed => h'.closed (h.closed hclosed)
  · intro hnone hpending
    obtain ⟨hnone', hpending'⟩ := h.left hnone hpending
    exact h'.left hnone' hpending'

theorem closingState_ne {state : ChildRequestState}
    (h : closingState text = some state) : state ≠ .open ∧ state ≠ .answered := by
  unfold closingState at h
  split at h <;> cases h <;> exact ⟨nofun, nofun⟩

theorem settledDelivery_ne {delivery : ChildDeliveryState}
    (h : settledDelivery text = some delivery) :
    delivery ≠ .none ∧ delivery ≠ .pending ∧ delivery ≠ .sent := by
  unfold settledDelivery at h
  split at h <;> cases h <;> exact ⟨nofun, nofun, nofun⟩

theorem childUnsettled_iff : childUnsettled row = true ↔ row.deliveryState ≠ .delivered ∧
    row.deliveryState ≠ .unknown ∧ row.voidReason ≠ some closedBeforeApply := by
  simp [childUnsettled, and_assoc]

theorem ChildMove.sound (h : ChildMove op row row') (hsound : ChildSound row)
    (hcall : ChildCall s op) : ChildSound row' := by
  cases h with
  | decide _ _ hdelivery =>
    refine ⟨nofun, fun _ => rfl, ?_⟩
    intro hclosed
    exact absurd hdelivery (hsound.closed hclosed).1
  | close _ hclosing =>
    obtain ⟨hopen, hanswered⟩ := closingState_ne hclosing
    exact ⟨fun h => absurd h hopen, fun h => absurd h hanswered, hsound.closed⟩
  | claim _ hdelivery =>
    refine ⟨hsound.undecided, hsound.answered, ?_⟩
    intro hclosed
    exact absurd hdelivery (hsound.closed hclosed).2.1
  | voidPending => exact ⟨hsound.undecided, hsound.answered, fun _ => ⟨nofun, nofun, nofun⟩⟩
  | settleSent _ hsettled =>
    exact ⟨hsound.undecided, hsound.answered, fun _ => settledDelivery_ne hsettled⟩
  | @confirmOpen _ applied =>
    refine ⟨nofun, nofun, fun _ => ?_⟩
    cases applied <;> exact ⟨nofun, nofun, nofun⟩
  | @confirmDecided _ applied =>
    refine ⟨hsound.undecided, hsound.answered, fun _ => ?_⟩
    cases applied <;> exact ⟨nofun, nofun, nofun⟩
  | markClosing =>
    refine ⟨hsound.undecided, hsound.answered, ?_⟩
    intro hclosed
    rcases or_eq_some_iff.mp hclosed with hclosed | ⟨-, hreason⟩
    · exact hsound.closed hclosed
    · exact absurd (some.inj hreason) hcall

theorem ChildMove.kept (h : ChildMove op row row') (hsound : ChildSound row) :
    ChildKept row row' := by
  cases h with
  | decide hstate _ hdelivery =>
    refine ⟨rfl, rfl, rfl, fun hopen => absurd hstate hopen, ?_, ?_, id, fun hnone => ?_⟩
    · simp [hdelivery]
    · simp [hdelivery]
    · exact absurd hdelivery hnone
  | close hstate =>
    exact ⟨rfl, rfl, rfl, fun hopen => absurd hstate hopen, id, id, id, fun h h' => ⟨h, h'⟩⟩
  | claim _ hdelivery =>
    refine ⟨rfl, rfl, rfl, fun _ => ⟨rfl, rfl, rfl, rfl, rfl⟩, ?_, ?_, id, ?_⟩
    · simp [hdelivery]
    · simp [hdelivery]
    · exact fun _ _ => ⟨nofun, nofun⟩
  | voidPending hdelivery =>
    refine ⟨rfl, rfl, rfl, fun _ => ⟨rfl, rfl, rfl, rfl, rfl⟩, ?_, ?_, ?_, ?_⟩
    · simp [hdelivery]
    · simp [hdelivery]
    · intro hclosed
      exact absurd hdelivery (hsound.closed hclosed).2.1
    · exact fun _ _ => ⟨nofun, nofun⟩
  | settleSent hdelivery hsettled =>
    obtain ⟨hnone, hpending, -⟩ := settledDelivery_ne hsettled
    refine ⟨rfl, rfl, rfl, fun _ => ⟨rfl, rfl, rfl, rfl, rfl⟩, ?_, ?_, ?_, ?_⟩
    · simp [hdelivery]
    · simp [hdelivery]
    · intro hclosed
      exact absurd hdelivery (hsound.closed hclosed).2.2
    · exact fun _ _ => ⟨hnone, hpending⟩
  | @confirmOpen _ applied _ _ _ hunsettled hstate =>
    obtain ⟨hdelivered, hunknown, hclosed⟩ := childUnsettled_iff.mp hunsettled
    refine ⟨rfl, rfl, rfl, fun hopen => absurd hstate hopen, fun h => absurd h hdelivered,
      fun h => absurd h hunknown, fun h => absurd h hclosed, fun _ _ => ?_⟩
    cases applied <;> exact ⟨nofun, nofun⟩
  | @confirmDecided _ applied _ _ _ hunsettled =>
    obtain ⟨hdelivered, hunknown, hclosed⟩ := childUnsettled_iff.mp hunsettled
    refine ⟨rfl, rfl, rfl, fun _ => ⟨rfl, rfl, rfl, rfl, rfl⟩, fun h => absurd h hdelivered,
      fun h => absurd h hunknown, fun h => absurd h hclosed, fun _ _ => ?_⟩
    cases applied <;> exact ⟨nofun, nofun⟩
  | markClosing hunsettled =>
    obtain ⟨-, -, hclosed⟩ := childUnsettled_iff.mp hunsettled
    exact ⟨rfl, rfl, rfl, fun _ => ⟨rfl, rfl, rfl, rfl, rfl⟩, id, id, fun h => absurd h hclosed,
      fun h h' => ⟨h, h'⟩⟩

end DelegationStore

end Bridget.Delegation
