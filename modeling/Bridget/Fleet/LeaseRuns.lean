import Bridget.Fleet.LeaseGrants

/-!
# Leases over whole runs

A run is a sequence of calls, crashes and restarts. Beside it stand the generations of the
launches that were started, which no part of the program reads.
-/

namespace Bridget.Fleet

open Foundation Idempotency FleetSupervisor Durable Option

variable {env : FleetEnvironment} {d : FleetStores} {inner : FleetInner} {issued : Nat → Prop}
  {α : Type} {lease : SpawnLease} {x : FleetCall SpawnSubmission} {log : FleetLog}

def FleetInner.Honours (inner : FleetInner) (lease : SpawnLease) : Prop :=
  ∃ active, inner.activeByCommand.lookup lease.commandId = some active ∧
    active.generation = lease.generation ∧ active.name = lease.name

/-- The call is about a launch that is not the active one. A launch whose end as connected is
recorded can still be stopped. -/
def Call.Stale (inner : FleetInner) : Call → Prop
  | .requestSpawn .. | .requestRelaunch .. | .requestRecovery .. => False
  | .markStarting lease .. | .registerConnected lease .. | .fail lease .. | .cancel lease .. =>
    ¬ inner.Honours lease
  | .invalidateForStop lease .. => ¬ inner.Honours lease ∧ isConnectedLease inner lease = false
  | .expire commandId generation .. => ∀ active,
      inner.activeByCommand.lookup commandId = some active → active.generation ≠ generation

abbrev Untouched {α : Type} (x : FleetCall α) (d : FleetStores) (inner : FleetInner) : Prop :=
  Ensures (fun _ => True) (fun d' inner' => d' = d ∧ inner' = inner) x
    (fun _ d' inner' => d' = d ∧ inner' = inner) d inner

theorem activeOf_untouched {g : ActiveSpawn → FleetCall α}
    (hstale : ¬ inner.Honours lease) : Untouched (activeOf lease >>= g) d inner := by
  refine ensures_inspect_bind ⟨rfl, rfl⟩ fun _ hactive => ?_
  simp only [activeForLease, ok_iff] at hactive
  obtain ⟨_, hlookup, -, ⟨hgeneration, hname, -⟩, rfl⟩ := hactive
  exact absurd ⟨_, hlookup, hgeneration, hname⟩ hstale

theorem discard_untouched {x : FleetCall α} (h : Untouched x d inner) :
    Untouched (discard x) d inner :=
  ensures_bind (h.mono fun _ _ _ hsame => ensures_pure hsame)

theorem Call.run_untouched {call : Call} (hstale : call.Stale inner) :
    Untouched (call.run env) d inner := by
  cases call with
  | requestSpawn | requestRelaunch | requestRecovery => exact hstale.elim
  | markStarting => exact activeOf_untouched hstale
  | registerConnected =>
    apply discard_untouched
    exact ensures_inspect_bind ⟨rfl, rfl⟩ fun _ _ => activeOf_untouched hstale
  | fail | cancel => exact discard_untouched (activeOf_untouched hstale)
  | invalidateForStop =>
    refine ensures_inspect_bind ⟨rfl, rfl⟩ fun _ _ => ?_
    split
    · exact activeOf_untouched hstale.1
    · refine ensures_inspect_bind ⟨rfl, rfl⟩ fun _ hended => ?_
      rw [ensure_eq_ok, hstale.2] at hended
      cases hended
  | expire =>
    apply discard_untouched
    refine ensures_inspect_bind ⟨rfl, rfl⟩ fun _ hfound => ?_
    split
    · exact ensures_pure ⟨rfl, rfl⟩
    next active =>
      refine ensures_inspect_bind ⟨rfl, rfl⟩ fun _ hsame => ?_
      exact absurd (ensure_eq_ok.mp hsame) (hstale active (Except.ok.inj hfound))

theorem System.step_stale {s : System} {call : Call} (hdaemon : s.daemon = some inner)
    (hstale : call.Stale inner) : s.step env (.call call) = s := by
  obtain ⟨stores, daemon⟩ := s
  obtain rfl : daemon = some inner := hdaemon
  have huntouched : Untouched (call.run env) stores inner := Call.run_untouched hstale
  obtain ⟨hdisk, hmemory⟩ := huntouched.ended (fun d' inner' => d' = stores ∧ inner' = inner)
    (fun _ _ _ => id) fun _ _ => id
  simp only [System.step, hdisk, hmemory]

def Call.request (env : FleetEnvironment) : Call → Option (FleetCall SpawnSubmission)
  | .requestSpawn order now ids => some (FleetSupervisor.requestSpawn env order now ids)
  | .requestRelaunch order now ids => some (FleetSupervisor.requestRelaunch env order now ids)
  | .requestRecovery order now ids => some (FleetSupervisor.requestRecovery env order now ids)
  | _ => none

def Call.started (env : FleetEnvironment) (call : Call) (d : FleetStores) (inner : FleetInner) :
    Option SpawnLease :=
  match call.request env with
  | none => none
  | some x =>
    match (x d inner).result with
    | .ok (.start lease) => some lease
    | _ => none

/-- The system, with the generations of the launches that started, last first. -/
structure FleetLog where
  system : System
  started : List Nat

def FleetLog.init : FleetLog := ⟨.init, []⟩

def System.startedBy (env : FleetEnvironment) (s : System) : Event → Option SpawnLease
  | .call call => s.daemon.bind fun inner => call.started env s.stores inner
  | .crash .. | .restart | .crashedRestart _ => none

def FleetLog.step (env : FleetEnvironment) (log : FleetLog) (event : Event) : FleetLog :=
  ⟨log.system.step env event, match log.system.startedBy env event with
    | some lease => lease.generation :: log.started
    | none => log.started⟩

structure FleetLog.Ordered (env : FleetEnvironment) (log : FleetLog) : Prop where
  ledger : Ledger env (· ∈ log.started) log.system.stores
  leased : ∀ inner ∈ log.system.daemon, Leased env (· ∈ log.started) log.system.stores inner
  increasing : log.started.Pairwise (· > ·)

theorem Call.request_answered {call : Call}
    (hrequest : call.request env = some x) (h : Leased env issued d inner) :
    KeepsLeases env issued x (Answered env issued inner) d inner := by
  cases call <;> simp only [Call.request, some.injEq, reduceCtorEq] at hrequest <;> subst hrequest
  case requestSpawn => exact requestSpawnWithPolicy_answered h
  all_goals
    iterate 4 refine ensures_inspect_bind h fun _ _ => ?_
    exact requestSpawnWithPolicy_answered h

theorem Call.run_request {call : Call}
    (hrequest : call.request env = some x) : call.run env = discard x := by
  cases call <;> simp only [Call.request, some.injEq, reduceCtorEq] at hrequest
  all_goals rw [← hrequest]; rfl

theorem discard_keepsLeases {x : FleetCall α}
    (h : KeepsLeased env issued x d inner) : KeepsLeased env issued (discard x) d inner :=
  ensures_bind (h.mono fun _ _ _ h => ensures_pure h)

theorem Call.run_keepsLeases {call : Call} (h : Leased env issued d inner) :
    KeepsLeased env issued (call.run env) d inner := by
  cases hrequest : call.request env with
  | some =>
    rw [Call.run_request hrequest]
    exact discard_keepsLeases
      ((Call.request_answered hrequest h).mono fun _ _ _ hanswered => hanswered.leased)
  | none =>
    cases call with
    | requestSpawn | requestRelaunch | requestRecovery => cases hrequest
    | markStarting => exact markStarting_keepsLeases h
    | registerConnected => exact discard_keepsLeases (registerConnected_keepsLeases h)
    | fail | cancel => exact discard_keepsLeases (finishNonSuccess_keepsLeases h)
    | invalidateForStop => exact invalidateForStop_keepsLeases h
    | expire => exact discard_keepsLeases (expire_keepsLeases h)

theorem discard_disk {x : FleetCall α} : (discard x d inner).disk = (x d inner).disk := by
  change (Durable.bind x (fun _ => pure ()) d inner).disk = _
  unfold Durable.bind
  dsimp only
  split <;> rfl

/-- A launch that is started has a new generation, which is kept. -/
theorem Call.started_spec {call : Call} (h : Leased env issued d inner)
    (hstarted : call.started env d inner = some lease) :
    lease.generation = inner.nextGeneration ∧
      inner.activeByCommand.entries.length < env.config.quota ∧
      ∃ c, generationOf env (call.run env d inner).disk c = some lease.generation := by
  unfold Call.started at hstarted
  split at hstarted
  · cases hstarted
  rename_i hrequest
  split at hstarted
  next lease' hresult =>
    obtain rfl := some.inj hstarted
    rw [Call.run_request hrequest, discard_disk]
    exact ((Call.request_answered hrequest h).returned _ hresult).started lease' rfl
  · cases hstarted

theorem Ledger.issue {started : List Nat} {g : Nat} (h : Ledger env (· ∈ started) d)
    (hg : ∃ c, generationOf env d c = some g) : Ledger env (· ∈ g :: started) d := by
  refine ⟨h.distinct, h.bounded, ?_⟩
  intro g' hg'
  rcases List.mem_cons.mp hg' with rfl | hg'
  · exact hg
  · exact h.kept g' hg'

theorem FleetLog.Ordered.call (h : log.Ordered env) (request : Call) :
    (log.step env (.call request)).Ordered env := by
  obtain ⟨⟨_, daemon⟩, started⟩ := log
  cases daemon with
  | none => exact h
  | some inner =>
    have hleased := h.leased inner rfl
    have hended := (request.run_keepsLeases hleased).ended (Leased env (· ∈ started))
      (fun _ _ _ => id) fun _ _ => id
    unfold FleetLog.step
    split
    next hstarted =>
      obtain ⟨hgeneration, -, hkept⟩ := Call.started_spec hleased hstarted
      have hledger := hended.ledger.issue hkept
      refine ⟨hledger, ?_, List.pairwise_cons.mpr ⟨?_, h.increasing⟩⟩
      · rintro _ ⟨⟩
        exact ⟨hledger, hended.inverse, hended.stored, hended.below⟩
      -- the started generations are stored, and those are below the next one
      intro g hg
      obtain ⟨_, hc⟩ := hleased.ledger.kept g hg
      rw [hgeneration]
      exact hleased.below hc
    · refine ⟨hended.ledger, ?_, h.increasing⟩
      rintro _ ⟨⟩
      exact hended

theorem FleetLog.Ordered.step (h : log.Ordered env) (event : Event) :
    (log.step env event).Ordered env := by
  cases event with
  | call request => exact h.call request
  | crash request writes =>
    obtain ⟨⟨_, daemon⟩, started⟩ := log
    cases daemon with
    | none => exact h
    | some inner =>
      have hkeeps := request.run_keepsLeases (h.leased inner rfl)
      have hended := hkeeps.ended (Leased env (· ∈ started)) (fun _ _ _ => id) fun _ _ => id
      exact ⟨hkeeps.safe_diskAfter h.ledger hended.ledger writes, by rintro _ ⟨⟩, h.increasing⟩
  | restart =>
    obtain ⟨⟨stores, _⟩, started⟩ := log
    have hkeeps := openSupervisor_leased h.ledger
    have hended := hkeeps.ended (fun d _ => Ledger env (· ∈ started) d)
      (fun _ _ _ hleased => hleased.ledger) fun _ _ => id
    refine ⟨hended, ?_, h.increasing⟩
    intro inner hinner
    cases hresult : (openSupervisor env stores .init).result with
    | error => simp [FleetLog.step, System.step, hresult] at hinner
    | ok u =>
      obtain rfl : (openSupervisor env stores .init).memory = inner := by
        simpa [FleetLog.step, System.step, hresult] using hinner
      exact hkeeps.returned u hresult
  | crashedRestart writes =>
    obtain ⟨⟨_, _⟩, started⟩ := log
    have hkeeps := openSupervisor_leased h.ledger
    have hended := hkeeps.ended (fun d _ => Ledger env (· ∈ started) d)
      (fun _ _ _ hleased => hleased.ledger) fun _ _ => id
    exact ⟨hkeeps.safe_diskAfter h.ledger hended writes, by rintro _ ⟨⟩, h.increasing⟩

theorem FleetLog.init_ordered : FleetLog.init.Ordered env := by
  refine ⟨⟨?_, ?_, ?_⟩, nofun, .nil⟩
  · intro c _ g hc
    cases hc
  · intro c g hc
    cases hc
  · intro g hg
    cases hg

/-- In every run, crashes and restarts included, the maps of the active launches are inverse to
each other, a launch starts only under the quota, the generations of the started launches
increase, and a call with a stale lease changes nothing. -/
theorem leases_names_generations {events : List Event} {log : FleetLog}
    (hrun : Runs (FleetLog.step env) .init events log) :
    log.started.Pairwise (· > ·) ∧ ∀ inner ∈ log.system.daemon,
      (∀ c active, inner.activeByCommand.lookup c = some active →
        active.commandId = c ∧ inner.activeByName.lookup active.name = some c) ∧
      (∀ name c, inner.activeByName.lookup name = some c →
        ∃ active, inner.activeByCommand.lookup c = some active ∧ active.name = name) ∧
      (∀ (call : Call) (lease : SpawnLease),
        call.started env log.system.stores inner = some lease →
        inner.activeByCommand.entries.length < env.config.quota) ∧
      ∀ call : Call, call.Stale inner → log.system.step env (.call call) = log.system := by
  have hordered : log.Ordered env := by
    refine hrun.invariant (fun log => log.Ordered env) ?_ FleetLog.init_ordered
    exact fun log event h _ => h.step event
  refine ⟨hordered.increasing, fun inner hinner => ?_⟩
  have hleased := hordered.leased inner hinner
  refine ⟨fun c active => hleased.inverse.byCommand, fun name c => hleased.inverse.byName, ?_, ?_⟩
  · intro call lease hstarted
    exact (Call.started_spec hleased hstarted).2.1
  · exact fun call hstale => System.step_stale hinner hstale

def restartedLaunches : List Event :=
  [.restart, .call (.requestSpawn (childOrder "c1" firstAgent) 11 ⟨"i1", "l1"⟩), .restart,
    .call (.requestSpawn { childOrder "c2" secondAgent with ownership := none } 12 ⟨"i2", "l2"⟩)]

/-- After a restart the first lease is stale, and the second launch stays active. -/
theorem restarted_launch_has_new_generation :
    ∃ log, Runs (FleetLog.step singleChildEnv) .init restartedLaunches log ∧
      log.started = [2, 1] ∧ log.started.Pairwise (· > ·) ∧
      ∃ inner, log.system.daemon = some inner ∧ inner.activeByName.lookup secondAgent = some "c2" ∧
        log.system.step singleChildEnv (.call (.fail childLease "spawn_failed" "late" 13 13)) =
          log.system := by
  obtain ⟨log, hrun⟩ : ∃ log, Runs (FleetLog.step singleChildEnv) .init
      restartedLaunches log :=
    ⟨_, .cons trivial (.cons trivial (.cons trivial (.cons trivial (.nil _))))⟩
  obtain ⟨hincreasing, hdaemon⟩ := leases_names_generations hrun
  have hlog := hrun.eq_foldl
  have hstarted :
      (restartedLaunches.foldl (FleetLog.step singleChildEnv) .init).started = [2, 1] := by
    decide +kernel
  have hnamed : (restartedLaunches.foldl (FleetLog.step singleChildEnv) .init).system.daemon.map
      (fun inner =>
        (inner.activeByName.lookup secondAgent, (inner.activeByCommand.lookup "c1").isSome)) =
        some (some "c2", false) := by
    decide +kernel
  rw [← hlog] at hstarted hnamed
  obtain ⟨inner, hinner, hlookups⟩ := map_eq_some_iff.mp hnamed
  obtain ⟨hb, hc1⟩ := Prod.mk.inj hlookups
  refine ⟨log, hrun, hstarted, hincreasing, inner, hinner, hb, ?_⟩
  obtain ⟨-, -, -, hstale⟩ := hdaemon inner hinner
  apply hstale
  rintro ⟨_, hactive, -⟩
  rw [show childLease.commandId = "c1" from rfl] at hactive
  rw [hactive] at hc1
  cases hc1

end Bridget.Fleet
