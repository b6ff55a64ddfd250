import Bridget.Fleet.Leases
import Bridget.Fleet.SlotRuns

/-!
# Granting and recovering leases

A new launch takes the next generation, which is above all those that the sagas were given, and
a restart finds them all again. It goes through the sagas by generation: a launch that is
wanted carries the generation of the desired entry of its name, so that no launch before it is
active under that name.
-/

namespace Bridget.Fleet

open Foundation Idempotency FleetSupervisor Durable Function List Option

variable {env : FleetEnvironment} {d d' : FleetStores} {inner before : FleetInner}
  {active : ActiveSpawn} {issued : Nat → Prop} {key : IdempotencyKey} {command : SpawnCommand}
  {order : SpawnOrder} {now : Int}

/-- A launch that starts takes the generation that was next, under the quota. -/
structure Answered (env : FleetEnvironment) (issued : Nat → Prop) (before : FleetInner)
    (submission : SpawnSubmission) (d : FleetStores) (inner : FleetInner) : Prop where
  leased : Leased env issued d inner
  started : ∀ lease, submission = .start lease → lease.generation = before.nextGeneration ∧
    before.activeByCommand.entries.length < env.config.quota ∧
    ∃ c, generationOf env d c = some lease.generation

section

variable (h : Leased env issued d inner)

include h

theorem Leased.answered {submission : SpawnSubmission}
    (hother : ∀ lease, submission ≠ .start lease) : Answered env issued before submission d inner :=
  ⟨h, fun lease hstart => absurd hstart (hother lease)⟩

theorem terminalRefusal_answered {category reason : String} :
    KeepsLeases env issued (terminalRefusal key command category reason)
      (Answered env issued before) d inner := by
  refine Quiet.finishSpawn.keeps_bind h fun _ _ _ h => ?_
  exact ensures_remember_bind (ensures_pure ((h.of_completed _).answered (by simp)))

theorem awaitInFlight_answered :
    KeepsLeases env issued (awaitInFlight key command) (Answered env issued before) d inner := by
  refine Quiet.inspect.keeps_bind h fun _ d' _ h => ?_
  split
  · refine Quiet.inspect.keeps_bind h fun _ d' _ h => ?_
    exact ensures_pure (h.answered (by simp))
  · exact terminalRefusal_answered h

end

variable {allowed : Option DesiredLifecycleState}

theorem refusal_eq_none (h : refusal env order now allowed command d inner = .ok none) :
    inner.activeByName.lookup command.name = none ∧
      inner.activeByCommand.entries.length < env.config.quota := by
  unfold refusal at h
  split at h
  · cases h
  split at h
  · cases h
  rename_i hname
  simp only [bind_eq_ok] at h
  obtain ⟨_, -, h⟩ := h
  split at h
  · cases h
  split at h
  · cases h
  next hquota => exact ⟨by simpa using hname, by simpa using hquota⟩

theorem startLinked_answered {link : Option AgentLinkRecord} (h : Leased env issued d inner)
    (hname : inner.activeByName.lookup command.name = none)
    (hcommand : inner.activeByCommand.lookup command.commandId = none)
    (hgeneration : generationOf env d command.commandId = some command.generation)
    (hnext : command.generation = before.nextGeneration)
    (hquota : before.activeByCommand.entries.length < env.config.quota) :
    KeepsLeases env issued (startLinked key order command link now) (Answered env issued before)
      d inner := by
  refine (Quiet.attempt Quiet.advanceSpawn).keeps_bind h fun result d' hsame h => ?_
  rw [← hsame] at hgeneration
  cases result with
  | error =>
    refine abandonLink_quiet.keeps_bind h fun _ d' _ h => ?_
    exact ensures_raise h
  | ok =>
    refine ensures_inspect_bind h fun _ _ => ?_
    apply ensures_remember_bind
    apply ensures_pure
    refine ⟨h.activate hname hcommand hgeneration, ?_⟩
    rintro _ ⟨rfl⟩
    exact ⟨hnext, hquota, command.commandId, hgeneration⟩

/-- A saga takes the next generation. -/
theorem Leased.insert {expiresAt issuedAt : Int} {canonicalBytes : Bytes}
    {request : SpawnStore.SpawnRequest} {spawns : SpawnStore} {commandId : String}
    (h : Leased env issued d inner) (hnext : request.generation = inner.nextGeneration)
    (hinsert : d.spawns.insertSpawn (commandKey env commandId) canonicalBytes issuedAt expiresAt
      request = .ok spawns) :
    generationOf env d commandId = none ∧ generationOf env { d with spawns } =
        update (generationOf env d) commandId (some request.generation) ∧
      (∀ {c g}, generationOf env d c = some g → generationOf env { d with spawns } c = some g) ∧
      Ledger env issued { d with spawns } := by
  obtain ⟨hsql, hfree, hafter, -⟩ := SpawnStore.insertSpawn_spec rfl hinsert
  have hnone : generationOf env d commandId = none := by
    unfold generationOf
    rw [hfree, map_none]
  have hgenerations : generationOf env { d with spawns } =
      update (generationOf env d) commandId (some request.generation) := by
    funext c
    unfold generationOf
    rw [hafter]
    by_cases hc : c = commandId
    · subst hc
      rw [update_self, update_self]
      rfl
    · rw [update_of_ne hc, update_of_ne fun heq => hc (commandKey_inj heq)]
  have hkeeps : ∀ {c g}, generationOf env d c = some g →
      generationOf env { d with spawns } c = some g := by
    intro c g hc
    rw [hgenerations, update_of_ne, hc]
    rintro rfl
    rw [hnone] at hc
    cases hc
  refine ⟨hnone, hgenerations, hkeeps, ?_⟩
  constructor
  · intro c _ g hc hc'
    rw [hgenerations, update_apply] at hc hc'
    split at hc <;> split at hc'
    next hc₁ hc₂ => rw [hc₁, hc₂]
    · -- the new generation is above the stored ones
      cases hc
      have := h.below hc'
      omega
    · cases hc'
      have := h.below hc
      omega
    · exact h.ledger.distinct hc hc'
  · intro c g hc
    rw [hgenerations, update_apply] at hc
    split at hc
    · cases hc
      exact hsql
    · exact h.ledger.bounded hc
  · intro g hg
    obtain ⟨c, hc⟩ := h.ledger.kept g hg
    exact ⟨c, hkeeps hc⟩

theorem generation_succ {g : Nat} (h : (g : Int) ≤ i64Max) : min u64Max (g + 1) = g + 1 := by
  unfold i64Max at h
  unfold u64Max
  omega

theorem startRequested_answered {linkId : String}
    (h : Leased env issued d { inner with nextGeneration := max (command.generation + 1) 1 })
    (hnew : inner.activeByCommand.lookup command.commandId = none)
    (hgeneration : generationOf env d command.commandId = some command.generation)
    (hnext : command.generation = inner.nextGeneration) :
    KeepsLeases env issued (startRequested env order now allowed linkId key command)
      (Answered env issued inner) d inner := by
  apply ensures_remember_bind
  rw [generation_succ (h.ledger.bounded hgeneration)]
  refine ensures_inspect_bind h fun _ hrefused => ?_
  split
  · exact terminalRefusal_answered h
  obtain ⟨hname, hquota⟩ := refusal_eq_none hrefused
  refine (Quiet.attempt reserveAgentLink_quiet).keeps_bind h fun _ _ hsame h => ?_
  split
  · exact startLinked_answered h hname hnew (hsame ▸ hgeneration) hnext hquota
  split
  · exact terminalRefusal_answered h
  split
  · exact terminalRefusal_answered h
  · exact ensures_raise h

section

variable (h : Leased env issued d inner) {ids : NewIds}

include h

theorem requestSpawnWithPolicy_answered {legacy : Bool} :
    KeepsLeases env issued (requestSpawnWithPolicy env order now allowed legacy ids)
      (Answered env issued inner) d inner := by
  refine ensures_inspect_bind h fun _ _ => ?_
  refine ensures_inspect_bind h fun generation hgeneration => ?_
  cases hgeneration
  refine ensures_inspect_bind h fun _ hkey => ?_
  obtain rfl := spawnKey_eq_ok hkey
  refine ensures_bind (ensures_onSpawns h fun reservation _ hreserve => ?_)
  rcases SpawnStore.reserveSpawn_spec hreserve with ⟨rfl, hnew, -⟩ | hrequested
  · -- a replay changes nothing
    refine ⟨h.ledger, ?_⟩
    cases reservation with
    | requested command => exact absurd rfl (hnew command)
    | inFlight => exact awaitInFlight_answered h
    | replayed | envelopeMismatch | idempotencyExpired => exact ensures_pure (h.answered (by simp))
  obtain ⟨_, _, -, rfl, -, hinsert⟩ := hrequested
  obtain ⟨hnone, hafter, hkeeps, hledger⟩ := h.insert rfl hinsert
  refine ⟨hledger, startRequested_answered ⟨hledger, ⟨h.inverse.byCommand, h.inverse.byName⟩,
    fun hactive => hkeeps (h.stored hactive), ?_⟩ ?_ ?_ rfl⟩
  · intro _ _ hg
    refine Nat.lt_of_lt_of_le (Nat.lt_succ_of_le ?_) (Nat.le_max_left ..)
    rw [hafter, update_apply] at hg
    split at hg
    · cases hg
      exact Nat.le_refl _
    · exact Nat.le_of_lt (h.below hg)
  · cases hactive : inner.activeByCommand.lookup order.commandId with
    | none => exact hactive
    | some =>
      have hstored := h.stored hactive
      rw [hnone] at hstored
      cases hstored
  · exact (congrFun hafter _).trans (update_self ..)

end

section

variable {desired : DesiredFleet} {rest : List SpawnCommand}

/-- What holds while the commands of `rest` are still to be recovered. -/
structure Recalling (env : FleetEnvironment) (issued : Nat → Prop) (desired : DesiredFleet)
    (rest : List SpawnCommand) (d : FleetStores) (inner : FleetInner) : Prop where
  ledger : Ledger env issued d
  inverse : Inverse inner
  stored : ∀ {c active}, inner.activeByCommand.lookup c = some active →
    generationOf env d c = some active.generation
  below : ∀ {c g}, generationOf env d c = some g →
    g < inner.nextGeneration ∨ c ∈ rest.map SpawnCommand.commandId
  rows : ∀ command ∈ rest, generationOf env d command.commandId = some command.generation
  sorted : rest.Pairwise fun a b => a.generation < b.generation
  older : ∀ {c active}, inner.activeByCommand.lookup c = some active →
    ∀ command ∈ rest, active.generation < command.generation
  /-- No entry of the desired state is newer than the launch that is active under its name. -/
  latest : ∀ {c active entry}, inner.activeByCommand.lookup c = some active →
    desired.lookup active.name = some entry → entry.generation ≤ active.generation

/-- The command that is recovered comes after the active ones and before the others. -/
structure NextCommand (env : FleetEnvironment) (rest : List SpawnCommand) (command : SpawnCommand)
    (d : FleetStores) (inner : FleetInner) : Prop where
  row : generationOf env d command.commandId = some command.generation
  newer : ∀ {c active}, inner.activeByCommand.lookup c = some active →
    active.generation < command.generation
  first : ∀ other ∈ rest, command.generation < other.generation

/-- Every generation that was read is used up. -/
theorem Recalling.recall (h : Recalling env issued desired (command :: rest) d inner) :
    Recalling env issued desired rest d (recallCommand command inner) ∧
      NextCommand env rest command d (recallCommand command inner) := by
  have hrow := h.rows command mem_cons_self
  obtain ⟨hfirst, hsorted⟩ := pairwise_cons.mp h.sorted
  refine ⟨⟨h.ledger, ⟨h.inverse.byCommand, h.inverse.byName⟩, h.stored, ?_, ?_, hsorted, ?_,
    h.latest⟩, hrow, ?_, hfirst⟩
  · intro _ _ hg
    unfold FleetSupervisor.recallCommand
    rw [generation_succ (h.ledger.bounded hrow)]
    rcases h.below hg with hlt | hmem
    · exact .inl (Nat.lt_of_lt_of_le hlt (Nat.le_max_left ..))
    · rcases mem_cons.mp hmem with rfl | hmem
      · cases hrow.symm.trans hg
        exact .inl (Nat.lt_of_lt_of_le (Nat.lt_add_one _) (Nat.le_max_right ..))
      · exact .inr hmem
  · exact fun other hother => h.rows other (mem_cons_of_mem command hother)
  · exact fun hactive other hother => h.older hactive other (mem_cons_of_mem command hother)
  · exact fun hactive => h.older hactive command mem_cons_self

section

variable (h : Recalling env issued desired rest d inner)
  (hnext : NextCommand env rest command d inner)

include h hnext

theorem Recalling.activate (hid : active.commandId = command.commandId)
    (hgeneration : active.generation = command.generation)
    (hname : inner.activeByName.lookup active.name = none)
    (hlatest : ∀ entry, desired.lookup active.name = some entry →
      entry.generation ≤ active.generation) :
    Recalling env issued desired rest d (activate active inner) := by
  have hcommand : inner.activeByCommand.lookup active.commandId = none := by
    cases hlookup : inner.activeByCommand.lookup active.commandId with
    | none => rfl
    | some =>
      have hlt := hnext.newer hlookup
      have hstored := h.stored hlookup
      rw [hid, hnext.row] at hstored
      have heq := some.inj hstored
      omega
  refine ⟨h.ledger, h.inverse.activate hcommand hname, ?_, h.below, h.rows, h.sorted, ?_, ?_⟩
  · intro c found hfound
    rcases lookup_insert_cases hfound with ⟨rfl, rfl⟩ | ⟨-, hfound⟩
    · rw [hid, hgeneration]
      exact hnext.row
    · exact h.stored hfound
  · intro c found hfound other hother
    rcases lookup_insert_cases hfound with ⟨rfl, rfl⟩ | ⟨-, hfound⟩
    · rw [hgeneration]
      exact hnext.first other hother
    · exact h.older hfound other hother
  · intro c found entry hfound hentry
    rcases lookup_insert_cases hfound with ⟨rfl, rfl⟩ | ⟨-, hfound⟩
    · exact hlatest entry hentry
    · exact h.latest hfound hentry

/-- A restart goes through good stores only, also when it fails. -/
abbrev KeepsLedger {α : Type} (env : FleetEnvironment) (issued : Nat → Prop) (x : FleetCall α)
    (post : α → FleetStores → FleetInner → Prop) (d : FleetStores) (inner : FleetInner) : Prop :=
  Ensures (Ledger env issued) (fun d _ => Ledger env issued d) x post d inner

theorem recoverRemote_recalls :
    KeepsLedger env issued (recoverRemote env desired command)
      (fun _ => Recalling env issued desired rest) d inner := by
  unfold recoverRemote
  dsimp only
  split
  · exact ensures_pure h
  rename_i hsettled
  iterate 6 refine ensures_inspect_bind h.ledger fun _ _ => ?_
  refine ensures_inspect_bind h.ledger fun _ hfree => ?_
  apply ensures_remember
  refine h.activate hnext rfl rfl (by simpa using hfree) ?_
  intro entry (hentry : desired.lookup command.name = some entry)
  by_contra hlt
  apply hsettled
  rw [hentry, any_some]
  exact decide_eq_true (.inl (Nat.lt_of_not_le hlt))

theorem recoverLocal_recalls :
    KeepsLedger env issued (recoverLocal env desired command)
      (fun _ => Recalling env issued desired rest) d inner := by
  unfold recoverLocal
  split
  next hwanted =>
    refine ensures_inspect_bind h.ledger fun _ _ => ?_
    refine ensures_inspect_bind h.ledger fun _ _ => ?_
    obtain ⟨hentry, -, hgeneration⟩ := wanted_eq_some hwanted
    apply ensures_remember
    refine h.activate hnext rfl rfl ?_ ?_
    · -- an active launch of this name would be as new as the entry
      cases hlookup : inner.activeByName.lookup command.name with
      | none => exact hlookup
      | some =>
        obtain ⟨_, hother, hsame⟩ := h.inverse.byName hlookup
        have hle := h.latest hother (hsame ▸ hentry)
        have hlt := hnext.newer hother
        omega
    · intro entry hfound
      cases hentry.symm.trans hfound
      exact hgeneration.le
  · refine ensures_inspect_bind h.ledger fun _ _ => ?_
    apply ensures_bind
    apply (Quiet.finishSpawn d inner).imp
    · exact fun d' hsame => h.ledger.of_same hsame
    · exact fun d' _ hsame => h.ledger.of_same hsame.1
    rintro _ _ _ ⟨hsame, rfl⟩
    apply ensures_remember
    refine ⟨h.ledger.of_same hsame, ⟨h.inverse.byCommand, h.inverse.byName⟩, ?_, ?_, ?_, h.sorted,
      h.older, h.latest⟩
    · rw [hsame]
      exact h.stored
    · rw [hsame]
      exact h.below
    · rw [hsame]
      exact h.rows

end

/-- The memory is empty and every command is still to be recovered. -/
theorem Recalling.start {commands : List SpawnCommand} (hledger : Ledger env issued d)
    (hread : d.spawns.spawnCommands env.toSpawnCodec env.supervisorScope = .ok commands) :
    Recalling env issued desired commands d .init := by
  obtain ⟨hfrom, hall⟩ := SpawnStore.spawnCommands_spec hread
  have hrows : ∀ command ∈ commands,
      generationOf env d command.commandId = some command.generation := by
    intro command hcommand
    obtain ⟨_, hrow, hreads⟩ := hfrom command hcommand
    rw [hreads.generation]
    exact congrArg (Option.map SpawnCommandRow.generation) hrow
  have hnone : ∀ {c active}, FleetInner.init.activeByCommand.lookup c = some active → False := by
    intro c active hactive
    cases hactive
  refine ⟨hledger, ⟨fun hactive => (hnone hactive).elim, ?_⟩, fun hactive => (hnone hactive).elim,
    ?_, hrows, ?_, fun hactive => (hnone hactive).elim, fun hactive => (hnone hactive).elim⟩
  · intro _ c hname
    cases hname
  · intro c _ hg
    obtain ⟨row, hrow, -⟩ := map_eq_some_iff.mp hg
    exact .inr (hall c row hrow)
  · -- two commands of one generation would be the same
    refine (SpawnStore.spawnCommands_sorted hread).imp_of_mem ?_
    rintro a b ha hb ⟨hle, hne⟩
    refine lt_of_le_of_ne hle fun heq => hne (hledger.distinct (hrows a ha) ?_)
    rw [heq]
    exact hrows b hb

theorem openSupervisor_leased (hledger : Ledger env issued d) :
    KeepsLedger env issued (openSupervisor env) (fun _ => Leased env issued) d .init := by
  refine ensures_inspect_bind hledger fun _ _ => ?_
  refine ensures_bind (ensures_changeDesired hledger fun desired _ => ?_)
  have hledger : Ledger env issued { d with desired } := hledger.of_same rfl
  refine ⟨hledger, ensures_inspect_bind hledger fun loaded _ => ?_⟩
  refine ensures_inspect_bind hledger fun _ hread => ?_
  apply (ensures_each (Recalling env issued loaded) ?_
    (Recalling.start hledger (store_eq_ok.mp hread))).mono
  · intro _ _ _ h
    refine ⟨h.ledger, h.inverse, h.stored, fun hg => ?_⟩
    exact (h.below hg).resolve_right not_mem_nil
  intro _ _ _ _ h
  obtain ⟨h, hnext⟩ := h.recall
  apply ensures_remember_bind
  split
  · exact ensures_pure h
  split
  · exact recoverRemote_recalls h hnext
  · exact recoverLocal_recalls h hnext

end

end Bridget.Fleet
