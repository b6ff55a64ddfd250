import Bridget.Foundation.Fallible

/-!
# The definitions of specialists and of their teams

A definition is checked before it is stored. The members of a team may wait for each other, and
sweeps over them add those whose dependencies are done. A team is refused when some are left over.
-/

namespace Bridget.Specialists

open Foundation Relation

inductive SpecialistDefinitionKind where
  | profile | team
  deriving DecidableEq

structure SpecialistProcedure where
  (name instructions : String)

structure SpecialistTeamMember where
  (key roleId deliverable : String)
  dependsOn : List String

/-- What the check reads of a requirement is that it is there. -/
structure SpecialistDefinition (Requirement : Type) where
  (profileId name : String)
  kind : SpecialistDefinitionKind
  instructions : String
  roles : List String
  procedures : List SpecialistProcedure
  requirements : List Requirement
  members : List SpecialistTeamMember

def slug (s : String) : Bool :=
  s ≠ "" && s.utf8ByteSize ≤ 80 &&
    s.toList.all fun c => c.isAlphanum || c = '-' || c = '_' || c = '.'

/-- A member is done when all that it depends on is. -/
def addReady (done : Finset String) (m : SpecialistTeamMember) : Finset String :=
  if ∀ k ∈ m.dependsOn, k ∈ done then insert m.key done else done

/-- At most so many passes, up to the first that adds nothing. -/
def sweeps (members : List SpecialistTeamMember) : Nat → Finset String → Finset String
  | 0, done => done
  | passes + 1, done =>
    let next := members.foldl addReady done
    if next.card = done.card then next else sweeps members passes next

def keys (members : List SpecialistTeamMember) : Finset String :=
  (members.map SpecialistTeamMember.key).toFinset

section

variable {Requirement : Type} (validUuid : String → Bool)

/-- The checks before the dependencies are followed. -/
def definitionValid (d : SpecialistDefinition Requirement) : Except String Unit := do
  ensure (validUuid d.profileId ∧ d.name ≠ "" ∧ d.name.length ≤ 80 ∧ d.instructions.length ≤ 8000 ∧
    d.roles.length ≤ 32 ∧ (∀ r ∈ d.roles, slug r) ∧ d.procedures.length ≤ 32 ∧
    d.requirements.length ≤ 32 ∧ d.members.length ≤ 32) "invalid_request"
  ensure (∀ p ∈ d.procedures, p.name ≠ "" ∧ p.name.utf8ByteSize ≤ 128 ∧
    p.instructions.length ≤ 8000) "invalid_request"
  ensure (d.kind = .profile → d.members.isEmpty) "invalid_request"
  ensure ((keys d.members).card = d.members.length ∧ ∀ m ∈ d.members, slug m.key ∧ slug m.roleId ∧
    m.deliverable ≠ "" ∧ m.deliverable.utf8ByteSize ≤ 4000 ∧
    ∀ k ∈ m.dependsOn, k ∈ keys d.members ∧ k ≠ m.key) "invalid_request"

def validateDefinition (d : SpecialistDefinition Requirement) : Except String Unit := do
  definitionValid validUuid d
  ensure ((sweeps d.members d.members.length ∅).card = d.members.length) "team_dependency_cycle"

end

/-- A member of the key `a` depends on `b`. -/
def DependsOn (members : List SpecialistTeamMember) (a b : String) : Prop :=
  ∃ m ∈ members, m.key = a ∧ b ∈ m.dependsOn

variable {members : List SpecialistTeamMember} {done : Finset String} {passes : Nat}

/-- A property that every key gets from its dependencies is kept by a pass. -/
theorem foldl_addReady_invariant {P : String → Prop} (hdone : ∀ k ∈ done, P k)
    (hkey : ∀ m ∈ members, (∀ k ∈ m.dependsOn, P k) → P m.key) :
    ∀ k ∈ members.foldl addReady done, P k := by
  induction members generalizing done with
  | nil => exact hdone
  | cons m _ ih =>
    refine ih ?_ fun m' hm' => hkey m' (by simp [hm'])
    unfold addReady
    split
    · rename_i hready
      intro k hk
      rcases Finset.mem_insert.mp hk with rfl | hk
      · exact hkey m (by simp) fun k hk => hdone k (hready k hk)
      · exact hdone k hk
    · exact hdone

theorem subset_addReady (done : Finset String) (m : SpecialistTeamMember) :
    done ⊆ addReady done m := by
  unfold addReady
  split <;> simp

theorem foldl_addReady_grows (members : List SpecialistTeamMember) (done : Finset String) :
    done ⊆ members.foldl addReady done ∧
      ∀ m ∈ members, (∀ k ∈ m.dependsOn, k ∈ done) → m.key ∈ members.foldl addReady done := by
  induction members generalizing done with
  | nil => simp
  | cons m _ ih =>
    obtain ⟨hsubset, hready⟩ := ih (addReady done m)
    refine ⟨(subset_addReady done m).trans hsubset, ?_⟩
    intro m' hm' hdeps
    rcases List.mem_cons.mp hm' with rfl | hm'
    · exact hsubset (by simp [addReady, if_pos hdeps])
    · exact hready m' hm' fun k hk => subset_addReady done m (hdeps k hk)

theorem sweeps_invariant {P : String → Prop} (hdone : ∀ k ∈ done, P k)
    (hkey : ∀ m ∈ members, (∀ k ∈ m.dependsOn, P k) → P m.key) :
    ∀ k ∈ sweeps members passes done, P k := by
  induction passes generalizing done with
  | zero => exact hdone
  | succ _ ih =>
    have hnext := foldl_addReady_invariant hdone hkey
    simp only [sweeps]
    split
    · exact hnext
    · exact ih hnext

theorem key_mem_keys {m : SpecialistTeamMember} (hm : m ∈ members) : m.key ∈ keys members :=
  List.mem_toFinset.mpr (List.mem_map_of_mem hm)

/-- With a pass for every key that is left, the last pass adds nothing. -/
theorem sweeps_closed (hkeys : done ⊆ keys members)
    (hpasses : (keys members).card ≤ passes + done.card) {m : SpecialistTeamMember}
    (hm : m ∈ members) (hdeps : ∀ k ∈ m.dependsOn, k ∈ sweeps members passes done) :
    m.key ∈ sweeps members passes done := by
  induction passes generalizing done with
  | zero =>
    rw [sweeps, Finset.eq_of_subset_of_card_le hkeys (by omega)]
    exact key_mem_keys hm
  | succ _ ih =>
    obtain ⟨hsubset, hready⟩ := foldl_addReady_grows members done
    simp only [sweeps] at hdeps ⊢
    split at hdeps
    · rename_i hcard
      rw [if_pos hcard]
      rw [← Finset.eq_of_subset_of_card_le hsubset hcard.le] at hdeps
      exact hready m hm hdeps
    rename_i hcard
    rw [if_neg hcard]
    have hlt : done.card < (members.foldl addReady done).card :=
      (Finset.card_le_card hsubset).lt_of_ne' hcard
    refine ih ?_ (by omega) hdeps
    exact foldl_addReady_invariant hkeys fun m hm _ => key_mem_keys hm

/-- What has no endless chain below it lies on no cycle. -/
theorem not_cycle_of_acc {a : String} (h : Acc (Function.swap (DependsOn members)) a) :
    ¬ TransGen (DependsOn members) a a := by
  induction h with
  | intro _ _ ih =>
    intro hcycle
    obtain ⟨b, hdep, hrest⟩ := TransGen.head'_iff.mp hcycle
    exact ih b hdep (.tail' hrest hdep)

/-- Of finitely many keys without a cycle, one depends on none of the others. -/
theorem exists_minimal_key {left : Finset String} (hne : left.Nonempty)
    (hacyclic : ∀ key, ¬ TransGen (DependsOn members) key key) :
    ∃ key ∈ left, ∀ other ∈ left, ¬ DependsOn members key other := by
  let below (a b : left) : Prop := TransGen (DependsOn members) b.1 a.1
  have : IsTrans left below := ⟨fun _ _ _ hab hbc => hbc.trans hab⟩
  have : Std.Irrefl below := ⟨fun a => hacyclic a.1⟩
  obtain ⟨key, -, hmin⟩ := (Finite.wellFounded_of_trans_of_irrefl below).has_min Set.univ
    ⟨⟨_, hne.choose_spec⟩, trivial⟩
  exact ⟨key, key.2, fun other hother hdep => hmin ⟨other, hother⟩ trivial (.single hdep)⟩

/-- All members are done in the end exactly when none depends on itself. -/
theorem sweeps_complete_iff (hdistinct : (keys members).card = members.length)
    (hdeps : ∀ m ∈ members, ∀ k ∈ m.dependsOn, k ∈ keys members) :
    (sweeps members members.length ∅).card = members.length ↔
      ¬ ∃ key, TransGen (DependsOn members) key key := by
  have hnodup : (members.map SpecialistTeamMember.key).Nodup := by
    refine Multiset.coe_nodup.mp (Multiset.toFinset_card_eq_card_iff_nodup.mp ?_)
    simpa [keys] using hdistinct
  have hunique : ∀ m ∈ members, ∀ k, DependsOn members m.key k → k ∈ m.dependsOn := by
    rintro m hm k ⟨m', hm', hkey, hk⟩
    exact List.inj_on_of_nodup_map hnodup hm' hm hkey ▸ hk
  have hsubset : sweeps members members.length ∅ ⊆ keys members :=
    sweeps_invariant (by simp) fun m hm _ => key_mem_keys hm
  constructor
  · rintro hcard ⟨key, hcycle⟩
    have hacc : ∀ k ∈ sweeps members members.length ∅, Acc (Function.swap (DependsOn members)) k :=
      sweeps_invariant (by simp) fun m hm hacc => ⟨_, fun k hk => hacc k (hunique m hm k hk)⟩
    obtain ⟨_, ⟨m, hm, rfl, -⟩, -⟩ := TransGen.head'_iff.mp hcycle
    have hall := Finset.eq_of_subset_of_card_le hsubset (by omega)
    exact not_cycle_of_acc (hacc _ (hall ▸ key_mem_keys hm)) hcycle
  intro hacyclic
  by_contra hcard
  -- among the keys that are left, one depends on done keys only
  have hleft : (keys members \ sweeps members members.length ∅).Nonempty := by
    rw [Finset.sdiff_nonempty]
    intro hall
    exact hcard (by rw [hsubset.antisymm hall, hdistinct])
  obtain ⟨key, hkey, hmin⟩ := exists_minimal_key hleft (not_exists.mp hacyclic)
  obtain ⟨hkeys, hnot⟩ := Finset.mem_sdiff.mp hkey
  obtain ⟨m, hm, rfl⟩ := List.mem_map.mp (List.mem_toFinset.mp hkeys)
  refine hnot (sweeps_closed (by simp) (by simp [hdistinct]) hm fun k hk => ?_)
  by_contra hk'
  exact hmin k (Finset.mem_sdiff.mpr ⟨hdeps m hm k hk, hk'⟩) ⟨m, hm, rfl, hk⟩

/-- A definition that passes the other checks is refused for a cycle exactly when its members'
dependencies have one. -/
theorem team_dependency_check_is_exact {Requirement : Type} (validUuid : String → Bool)
    (d : SpecialistDefinition Requirement) :
    (validateDefinition validUuid d = .error "team_dependency_cycle" ↔
      definitionValid validUuid d = .ok () ∧ ∃ key, TransGen (DependsOn d.members) key key) ∧
    (validateDefinition validUuid d = .ok () ↔
      definitionValid validUuid d = .ok () ∧ ¬ ∃ key, TransGen (DependsOn d.members) key key) := by
  by_cases hvalid : definitionValid validUuid d = .ok ()
  · have hmembers := hvalid
    simp only [definitionValid, bind_eq_ok, ensure_eq_ok] at hmembers
    obtain ⟨-, -, -, -, -, -, hdistinct, hmembers⟩ := hmembers
    have hdeps : ∀ m ∈ d.members, ∀ k ∈ m.dependsOn, k ∈ keys d.members :=
      fun m hm k hk => ((hmembers m hm).2.2.2.2 k hk).1
    simp only [validateDefinition, hvalid, ok_bind, ensure_eq_error, ensure_eq_ok,
      sweeps_complete_iff hdistinct hdeps, not_not, true_and, and_true]
  · have hother : definitionValid validUuid d ≠ .error "team_dependency_cycle" := by
      simp [definitionValid, bind_eq_error]
    simp [validateDefinition, bind_eq_error, hvalid, hother]

end Bridget.Specialists
