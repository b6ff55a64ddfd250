import Bridget.Foundation.Run
import Bridget.Mobile.Store

/-!
# Keys over whole runs

The calls are kept beside the tables, newest first, each with its answer. A key is introduced by
one request only, which can be repeated; a request that has introduced a key cannot do so again,
since its credential is used up or the key that it renews is gone.
-/

namespace Bridget.Mobile

open Foundation List Table

inductive Request where
  | issuePairing (scope : Scope)
  | pair (pairing attempt key label : String)
  | authenticate (key : String)
  | revoke (deviceId : String)
  | renew (old new request : String)
  deriving DecidableEq

/-- A call, with the identifier and the credential that it may generate. -/
structure Call where
  request : Request
  now : Int
  (id credential : String)

inductive Reply where
  | pairing (grant : Pairing)
  | device (device : Device)
  | revoked (found : Bool)
  deriving DecidableEq

structure Entry where
  call : Call
  reply : Option Reply

/-- The store, with the calls and their replies, last first. -/
structure History where
  store : Store
  log : List Entry

def History.empty : History := ⟨⟨.empty, .empty, .empty⟩, []⟩

def Request.newKey : Request → Option String
  | .pair _ _ key _ => some key
  | .renew _ new _ => some new
  | _ => none

def Call.keys (call : Call) : List String :=
  call.credential :: match call.request with
    | .pair pairing _ key _ => [pairing, key]
    | .authenticate key => [key]
    | .renew old new _ => [old, new]
    | _ => []

def Call.ids (call : Call) : List String :=
  call.id :: match call.request with
    | .revoke deviceId => [deviceId]
    | _ => []

def exec (codec : Codec) (s : Store) (call : Call) : Except StoreError (Reply × Store) :=
  match call.request with
  | .issuePairing scope => do
    let (grant, s) ← s.issuePairing codec scope call.id call.credential call.now
    return (.pairing grant, s)
  | .pair pairing attempt key label => do
    let (device, s) ← s.pair codec pairing attempt key label call.id call.now
    return (.device device, s)
  | .authenticate key => do
    let device ← s.authenticate codec key call.now
    return (.device device, s)
  | .revoke deviceId => do
    let (found, s) ← s.revoke deviceId call.now
    return (.revoked found, s)
  | .renew old new request => do
    let (device, s) ← s.renew codec old new request call.now
    return (.device device, s)

def step (codec : Codec) (h : History) (call : Call) : History :=
  match exec codec h.store call with
  | .ok (reply, store) => ⟨store, ⟨call, some reply⟩ :: h.log⟩
  | .error _ => { h with log := ⟨call, none⟩ :: h.log }

/-- Time does not go back, and what a call introduces is new: a key that was introduced before
comes with the same request. -/
def Admits (used : List String) (h : History) (call : Call) : Prop :=
  (∀ key ∈ call.keys, key ∈ used) ∧ ∀ e ∈ h.log, e.call.now ≤ call.now ∧ call.id ∉ e.call.ids ∧
      call.credential ≠ e.call.credential ∧
      (call.request.newKey ≠ none → e.call.request.newKey = call.request.newKey →
        e.call.request = call.request)

def Entry.keyOf (deviceId : String) (e : Entry) : Option String :=
  match e.reply with
  | some (.device device) => if device.deviceId = deviceId then e.call.request.newKey else none
  | _ => none

/-- The key of the latest successful pairing or renewal of a device. -/
def latestKey (log : List Entry) (deviceId : String) : Option String :=
  log.findSome? (Entry.keyOf deviceId)

/-! ## What a call does -/

def Unspent (codec : Codec) (s : Store) : Request → Prop
  | .pair pairing _ _ _ => ∃ p ∈ s.pairings, p.credentialHash = codec.hashKey pairing ∧
    p.deviceId = none
  | .renew old _ _ => ∃ d ∈ s.devices, d.keyHash = codec.hashKey old
  | _ => False

/-- The device of a row is the same in another table, and not revoked there if it is not here. -/
def Known (devices : Table DeviceRow) (d' : DeviceRow) : Prop :=
  ∃ d ∈ devices, d.deviceId = d'.deviceId ∧ (d'.revokedAt = none → d.revokedAt = none)

/-- What an answer says of the tables before and after the call. What it says about requests of
another kind is the default of a field. -/
structure Effect (codec : Codec) (s : Store) (call : Call)
    (reply : Option Reply) (s' : Store) : Prop where
  devices : ∀ d' ∈ s'.devices, (d'.deviceId = call.id ∨ Known s.devices d') ∧
    ((∃ d ∈ s.devices, d.deviceId = d'.deviceId ∧ d.keyHash = d'.keyHash) ∨
      Unspent codec s call.request ∧ ∃ key device, call.request.newKey = some key ∧
        reply = some (.device device) ∧ device.deviceId = d'.deviceId ∧
          d'.keyHash = codec.hashKey key)
  answered : ∀ device, reply = some (.device device) → ∃ d ∈ s'.devices,
    d.deviceId = device.deviceId ∧ d.revokedAt = none ∧
      ∀ key, call.request.newKey = some key → d.keyHash = codec.hashKey key := by grind
  shown : ∀ device key, reply = some (.device device) → call.request = .authenticate key →
    ∃ d ∈ s.devices, d.deviceId = device.deviceId ∧ d.keyHash = codec.hashKey key ∧
      call.now < device.expiresAt ∧ device.revokedAt = none := by grind
  pairings : ∀ p' ∈ s'.pairings,
    (∃ p ∈ s.pairings, p.credentialHash = p'.credentialHash ∧ p.expiresAt = p'.expiresAt ∧
        (p.deviceId ≠ none → p'.deviceId = p.deviceId)) ∨
      reply = some (.pairing ⟨call.id, call.credential, p'.expiresAt⟩) ∧
        p'.credentialHash = codec.hashKey call.credential := by grind
  paired : ∀ device pairing attempt key label, reply = some (.device device) →
    call.request = .pair pairing attempt key label →
      (∃ p ∈ s.pairings, p.credentialHash = codec.hashKey pairing ∧
        (p.deviceId = none ∧ call.now < p.expiresAt ∨ p.deviceId = some device.deviceId ∧
          ∃ d ∈ s.devices, d.deviceId = device.deviceId)) ∧
      ∀ p' ∈ s'.pairings, p'.credentialHash = codec.hashKey pairing →
        p'.deviceId = some device.deviceId := by grind
  rotations : ∀ r' ∈ s'.rotations, r' ∈ s.rotations ∨ ∃ old new request device,
    call.request = .renew old new request ∧ reply = some (.device device) ∧
      r'.fromHash = codec.hashKey old := by grind
  renewed : ∀ device old new request, reply = some (.device device) →
    call.request = .renew old new request →
      (∃ r ∈ s.rotations, r.fromHash = codec.hashKey old) ∧ s' = s ∨
        old ≠ new ∧ (∃ d ∈ s.devices, d.keyHash = codec.hashKey old) ∧
          ∀ d' ∈ s'.devices, d'.keyHash = codec.hashKey old →
            d'.keyHash = codec.hashKey new := by grind
  revoked : ∀ deviceId, reply ≠ none → call.request = .revoke deviceId →
    ∀ d' ∈ s'.devices, d'.deviceId = deviceId → d'.revokedAt ≠ none := by grind
  count : s.devices.count (Store.isActive call.now) ≤ maxDevices →
    s'.devices.count (Store.isActive call.now) ≤ maxDevices := by exact id

section

variable {codec : Codec} {s s' : Store} {call : Call} {reply : Option Reply} {device : Device}

theorem activeDevice_eq_ok {p : DeviceRow → Bool} {missing : StoreError} {now : Int}
    (h : s.activeDevice codec p missing now = .ok device) :
    ∃ row ∈ s.devices, p row = true ∧ Store.isActive now row = true ∧
      row.deviceId = device.deviceId ∧ now < device.expiresAt ∧ device.revokedAt = none := by
  simp only [Store.activeDevice, Store.rowDevice, Store.active, ok_iff] at h
  obtain ⟨row, hfind, _, ⟨_, -, rfl⟩, _, hrevoked, _, hexpires, _, -, rfl⟩ := h
  exact ⟨row, Table.mem_of_find? hfind, Table.find?_some hfind,
    decide_eq_true ⟨hrevoked, hexpires⟩, rfl, hexpires, hrevoked⟩

/-- A device is shown for a key that it has, and for the request that introduced that key. -/
theorem effect_shown {p : DeviceRow → Bool} {missing : StoreError}
    (h : s.activeDevice codec p missing call.now = .ok device)
    (hpresents : ∀ d, p d = true → match call.request with
      | .authenticate key => d.keyHash = codec.hashKey key
      | .pair pairing _ key _ => d.keyHash = codec.hashKey key ∧ ∃ p ∈ s.pairings,
        p.credentialHash = codec.hashKey pairing ∧ p.deviceId = some d.deviceId
      | .renew old new _ => d.keyHash = codec.hashKey new ∧ ∃ r ∈ s.rotations,
        r.fromHash = codec.hashKey old
      | _ => False) : Effect codec s call (some (.device device)) s := by
  obtain ⟨d, hd, hfound, hactive, hid, hexpires, hrevoked⟩ := activeDevice_eq_ok h
  have hpresents := hpresents d hfound
  have hunique : ∀ p ∈ s.pairings, ∀ p' ∈ s.pairings, p.credentialHash = p'.credentialHash →
      p = p' := fun p hp p' hp' hsame => eq_of_conflicts hp hp' (.inr hsame)
  exact {
    devices := by grind [Known]
    answered := by grind [Request.newKey, Store.isActive] }

/-- A call that is refused changes nothing. -/
theorem effect_refused : Effect codec s call none s where
  devices := by grind [Known]

theorem issuePairing_effect {scope : Scope} {grant : Pairing}
    (hrequest : call.request = .issuePairing scope)
    (h : s.issuePairing codec scope call.id call.credential call.now = .ok (grant, s')) :
    Effect codec s call (some (.pairing grant)) s' := by
  simp only [Store.issuePairing, storage, ok_iff, mapError_eq_ok, pair_iff] at h
  obtain ⟨-, -, expiresAt, -, encoded, -, -, -, -, -, pairings, hinsert, rfl, rfl⟩ := h
  have hpairings := fun p => @Table.mem_insert _ _ _ _ _ p hinsert
  exact {
    devices := by grind [Store.deleteDevices, Known, mem_delete]
    pairings := by grind [Store.deleteDevices, mem_delete]
    rotations := by grind [Store.deleteDevices, mem_delete]
    count := filter_sublist.countP_le.trans }

/-- The pairing with the credential is bound to the device that it has created. -/
theorem createDevice_effect {row : PairingRow} {pairing attempt key label : String}
    (hrequest : call.request = .pair pairing attempt key label) (hrow : row ∈ s.pairings)
    (hcredential : row.credentialHash = codec.hashKey pairing) (hfree : row.deviceId = none)
    (h : s.createDevice codec row attempt key label call.id call.now = .ok (device, s')) :
    Effect codec s call (some (.device device)) s' := by
  simp only [Store.createDevice, storage, ok_iff, mapError_eq_ok, pair_iff] at h
  obtain ⟨-, htime, scope, -, -, -, -, hroom, expiresAt, -, devices, hinsert, pairings, _,
    hupdate, rfl, rfl⟩ := h
  have hdevices := fun d => @Table.mem_insert _ _ _ _ _ d hinsert
  have hpairings := fun p => @Table.mem_update _ _ _ _ p _ _ _ hupdate
  have hunique : ∀ p ∈ s.pairings, p.credentialHash = row.credentialHash → p = row :=
    fun p hp hsame => eq_of_conflicts hp hrow (.inr hsame)
  have hcreated := (hdevices _).mpr (.inr rfl)
  exact {
    devices := by grind [Known, Request.newKey, Unspent]
    answered := by grind [Request.newKey]
    pairings := by grind [rewrite]
    paired := by grind [rewrite]
    count := by
      intro _
      rw [Table.count, Table.insert_rows hinsert, countP_append]
      exact (Nat.add_le_add_left countP_le_length _).trans hroom }

theorem revoke_effect {id : String} {found : Bool} (hrequest : call.request = .revoke id)
    (h : s.revoke id call.now = .ok (found, s')) :
    Effect codec s call (some (.revoked found)) s' := by
  simp only [Store.revoke, storage, ok_iff, mapError_eq_ok, pair_iff] at h
  obtain ⟨-, -, _, _, hupdate, rfl, rfl⟩ := h
  have hdevices := fun d => @Table.mem_update _ _ _ _ d _ _ _ hupdate
  exact {
    devices := by grind [Known, rewrite]
    revoked := by grind [rewrite]
    count := (count_update_le hupdate (by grind [Store.isActive])).trans }

/-- The key of the device is replaced, and the rotation keeps the hash of the one before. -/
theorem rotate_effect {old new request : String} (hrequest : call.request = .renew old new request)
    (hne : old ≠ new) (h : s.rotate codec (codec.hashKey old) (codec.hashKey new) request call.now =
      .ok (device, s')) : Effect codec s call (some (.device device)) s' := by
  simp only [Store.rotate, storage, ok_iff, mapError_eq_ok, pair_iff] at h
  obtain ⟨found, hshown, -, -, expiresAt, -, devices, n, hupdate, _, -, rotations, hinsert, rfl,
    rfl⟩ := h
  obtain ⟨d, hd, hkey, hactive, hid, -, -⟩ := activeDevice_eq_ok hshown
  have hdevices := fun d => @Table.mem_update _ _ _ _ d _ _ _ hupdate
  have hrotations := fun r => @Table.mem_insert _ _ _ _ _ r hinsert
  have hunique : ∀ d' ∈ s.devices, d'.deviceId = d.deviceId ∨ d'.keyHash = d.keyHash → d' = d :=
    fun d' hd' hsame => eq_of_conflicts hd' hd hsame
  have hrotated := (hdevices _).mpr ⟨d, hd, rfl⟩
  exact {
    devices := by grind [Known, rewrite, Request.newKey, Unspent]
    answered := by grind [rewrite, Request.newKey, Store.isActive]
    rotations := by grind [mem_delete]
    renewed := by grind [rewrite]
    count := (count_update_le hupdate (by grind [Store.isActive])).trans }

theorem pair_effect {pairing attempt key label : String}
    (hrequest : call.request = .pair pairing attempt key label)
    (h : s.pair codec pairing attempt key label call.id call.now = .ok (device, s')) :
    Effect codec s call (some (.device device)) s' := by
  simp only [Store.pair, ok_iff] at h
  obtain ⟨-, -, row, hfind, h⟩ := h
  have hrow := mem_of_find? hfind
  have hcredential : row.credentialHash = codec.hashKey pairing := by
    simpa using Table.find?_some hfind
  split at h
  next hbound =>
    simp only [ok_iff, pair_iff] at h
    obtain ⟨-, -, _, hshown, rfl, rfl⟩ := h
    exact effect_shown hshown (by grind)
  next hfree => exact createDevice_effect hrequest hrow hcredential hfree h

theorem renew_effect {old new request : String} (hrequest : call.request = .renew old new request)
    (h : s.renew codec old new request call.now = .ok (device, s')) :
    Effect codec s call (some (.device device)) s' := by
  simp only [Store.renew, ok_iff] at h
  obtain ⟨-, ⟨-, -, hne, -⟩, h⟩ := h
  split at h
  next replay hfind =>
    simp only [ok_iff, pair_iff] at h
    obtain ⟨-, -, -, -, _, hshown, rfl, rfl⟩ := h
    have hreplay := mem_of_find? hfind
    have hfrom : replay.fromHash = codec.hashKey old := by simpa using Table.find?_some hfind
    exact effect_shown hshown (by grind)
  · exact rotate_effect hrequest hne h

theorem exec_effect {reply : Reply} (h : exec codec s call = .ok (reply, s')) :
    Effect codec s call (some reply) s' := by
  unfold exec at h
  split at h
  next hrequest =>
    simp only [ok_iff, pair_iff] at h
    obtain ⟨_, _, hissue, rfl, rfl⟩ := h
    exact issuePairing_effect hrequest hissue
  next hrequest =>
    simp only [ok_iff, pair_iff] at h
    obtain ⟨_, _, hpair, rfl, rfl⟩ := h
    exact pair_effect hrequest hpair
  next hrequest =>
    simp only [Store.authenticate, ok_iff, pair_iff] at h
    obtain ⟨_, ⟨-, -, hshown⟩, rfl, rfl⟩ := h
    exact effect_shown hshown (by grind)
  next hrequest =>
    simp only [ok_iff, pair_iff] at h
    obtain ⟨_, _, hrevoke, rfl, rfl⟩ := h
    exact revoke_effect hrequest hrevoke
  next hrequest =>
    simp only [ok_iff, pair_iff] at h
    obtain ⟨_, _, hrenew, rfl, rfl⟩ := h
    exact renew_effect hrequest hrenew

end

/-! ## What the tables hold of the log -/

/-- The credential was given out, for use before that time. -/
def Granted (log : List Entry) (credential : String) (expiresAt : Int) : Prop :=
  ∃ e ∈ log, e.call.credential = credential ∧
    ∃ id, e.reply = some (.pairing ⟨id, credential, expiresAt⟩)

def Introduced (log : List Entry) (key : String) : Prop :=
  ∃ e ∈ log, e.call.request.newKey = some key ∧ ∃ device, e.reply = some (.device device)

/-- What an answer that gives a device says of the tables since. -/
def Settled (codec : Codec) (s : Store) (log : List Entry) (device : Device) :
    Request → Prop
  | .pair pairing _ _ _ => (∃ expiresAt, Granted log pairing expiresAt) ∧
    ∀ p ∈ s.pairings, p.credentialHash = codec.hashKey pairing → p.deviceId = some device.deviceId
  | .renew old _ _ => Introduced log old ∧ ∀ d ∈ s.devices, d.keyHash ≠ codec.hashKey old
  | _ => True

structure Tracked (codec : Codec) (used : List String) (s : Store) (log : List Entry) : Prop where
  keys : ∀ e ∈ log, ∀ key ∈ e.call.keys, key ∈ used
  current : ∀ d ∈ s.devices, ∃ key ∈ used, latestKey log d.deviceId = some key ∧
    d.keyHash = codec.hashKey key
  granted : ∀ p ∈ s.pairings, ∃ credential,
    Granted log credential p.expiresAt ∧ p.credentialHash = codec.hashKey credential
  rotated : ∀ r ∈ s.rotations, ∃ e ∈ log, ∃ old new request device,
    e.call.request = .renew old new request ∧ e.reply = some (.device device) ∧
      r.fromHash = codec.hashKey old
  settled : ∀ e ∈ log, ∀ device, e.reply = some (.device device) →
    Settled codec s log device e.call.request
  revoked : ∀ e ∈ log, ∀ deviceId, e.call.request = .revoke deviceId → e.reply ≠ none →
    ∀ d ∈ s.devices, d.deviceId = deviceId → d.revokedAt ≠ none
  limit : ∀ now, (∀ e ∈ log, e.call.now ≤ now) → s.devices.count (Store.isActive now) ≤ maxDevices

/-- What it takes to be given a device, in terms of the calls before. -/
structure Lawful (call : Call) (device : Device) (older : List Entry) :
    Prop where
  current : ∀ key, call.request = .authenticate key →
    latestKey older device.deviceId = some key ∧ call.now < device.expiresAt ∧
      device.revokedAt = none
  unreplaced : ∀ key, call.request = .authenticate key → ∀ e ∈ older, ∀ new request device',
    e.call.request = .renew key new request → e.reply ≠ some (.device device')
  unrevoked : ∀ e ∈ older, e.call.request = .revoke device.deviceId → e.reply = none
  paired : ∀ pairing attempt key label, call.request = .pair pairing attempt key label →
    (∃ expiresAt, Granted older pairing expiresAt ∧
        ((∀ e ∈ older, ∀ device', e.reply = some (.device device') →
          device'.deviceId ≠ device.deviceId) → call.now < expiresAt)) ∧
      ∀ e ∈ older, ∀ device' attempt' key' label',
        e.call.request = .pair pairing attempt' key' label' →
        e.reply = some (.device device') → device'.deviceId = device.deviceId

section

variable {codec : Codec} {used : List String} {s s' : Store} {log : List Entry}
  {e : Entry} {call : Call} {reply : Option Reply} {device : Device}
  {credential key deviceId : String} {expiresAt : Int}

theorem Granted.cons (h : Granted log credential expiresAt) :
    Granted (e :: log) credential expiresAt :=
  h.imp fun _ => And.imp_left (mem_cons_of_mem e)

theorem Introduced.cons (h : Introduced log key) : Introduced (e :: log) key :=
  h.imp fun _ => And.imp_left (mem_cons_of_mem e)

theorem Entry.keyOf_eq_some (h : e.keyOf deviceId = some key) :
    ∃ device, e.reply = some (.device device) ∧ device.deviceId = deviceId ∧
      e.call.request.newKey = some key := by
  unfold Entry.keyOf at h
  split at h
  next device hreply =>
    split at h
    next hid => exact ⟨device, hreply, hid, h⟩
    · cases h
  · cases h

theorem exists_of_latestKey (h : latestKey log deviceId = some key) :
    ∃ e ∈ log, e.call.request.newKey = some key ∧
      ∃ device, e.reply = some (.device device) ∧ device.deviceId = deviceId := by
  obtain ⟨e, he, hkey⟩ := exists_of_findSome?_eq_some h
  obtain ⟨device, hreply, hid, hnew⟩ := Entry.keyOf_eq_some hkey
  exact ⟨e, he, hnew, device, hreply, hid⟩

/-- Answers are kept as long as the rows that they speak of are. -/
theorem Settled.cons {request : Request} (h : Settled codec s log device request)
    (hpairings : ∀ pairing expiresAt, Granted log pairing expiresAt → ∀ p' ∈ s'.pairings,
      p'.credentialHash = codec.hashKey pairing → ∃ p ∈ s.pairings,
        p.credentialHash = p'.credentialHash ∧ (p.deviceId ≠ none → p'.deviceId = p.deviceId))
    (hdevices : ∀ key, Introduced log key → ∀ d' ∈ s'.devices,
      d'.keyHash = codec.hashKey key → ∃ d ∈ s.devices, d.keyHash = d'.keyHash) :
    Settled codec s' (e :: log) device request := by
  cases request with
  | pair pairing =>
    obtain ⟨⟨expiresAt, hgranted⟩, hbound⟩ := h
    refine ⟨⟨expiresAt, hgranted.cons⟩, ?_⟩
    intro p' hp' hcredential
    obtain ⟨p, hp, hsame, hkept⟩ := hpairings pairing expiresAt hgranted p' hp' hcredential
    have hdevice := hbound p hp (hsame.trans hcredential)
    rw [hkept (by simp [hdevice]), hdevice]
  | renew old =>
    refine ⟨h.1.cons, fun d' hd' hold => ?_⟩
    obtain ⟨d, hd, hsame⟩ := hdevices old h.1 d' hd' hold
    exact h.2 d hd (hsame.trans hold)
  | _ => trivial

theorem newKey_mem_keys (h : call.request.newKey = some key) : key ∈ call.keys := by
  unfold Call.keys
  cases hrequest : call.request <;> simp_all [Request.newKey]

variable (hinj : ∀ a ∈ used, ∀ b ∈ used, codec.hashKey a = codec.hashKey b → a = b)
  (h : Tracked codec used s log)

include hinj h

section

variable (hadmits : Admits used ⟨s, log⟩ call)

include hadmits

/-- A request that takes effect introduces a key that no device had before. -/
theorem Tracked.hash_ne {old : String} (hkey : call.request.newKey = some key)
    (hunspent : Unspent codec s call.request) (hold : Introduced log old) :
    codec.hashKey key ≠ codec.hashKey old := by
  obtain ⟨e, he, hnew, device, hreply⟩ := hold
  intro hhash
  obtain rfl := hinj key (hadmits.1 _ (newKey_mem_keys hkey)) old
    (h.keys e he _ (newKey_mem_keys hnew)) hhash
  have hsame := (hadmits.2 e he).2.2.2 (by simp [hkey]) (hnew.trans hkey.symm)
  have hsettled := h.settled e he device hreply
  rw [hsame] at hsettled
  cases hrequest : call.request with
  | pair =>
    rw [hrequest] at hunspent hsettled
    obtain ⟨p, hp, hcredential, hfree⟩ := hunspent
    rw [hsettled.2 p hp hcredential] at hfree
    cases hfree
  | renew =>
    rw [hrequest] at hunspent hsettled
    obtain ⟨d, hd, hold⟩ := hunspent
    exact hsettled.2 d hd hold
  | _ =>
    rw [hrequest] at hunspent
    exact hunspent

theorem Tracked.pairing_granted {pairing : String} {p : PairingRow} (hkeys : pairing ∈ call.keys)
    (hp : p ∈ s.pairings) (hcredential : p.credentialHash = codec.hashKey pairing) :
    Granted log pairing p.expiresAt := by
  obtain ⟨_, hgranted, hhash⟩ := h.granted p hp
  obtain ⟨e, he, rfl, -⟩ := id hgranted
  rwa [hinj _ (hadmits.1 _ hkeys) _ (h.keys e he _ mem_cons_self)
    (hcredential.symm.trans hhash)]

section

variable (heffect : Effect codec s call reply s')

include heffect

theorem Tracked.answer_settled (hreply : reply = some (.device device)) :
    Settled codec s' (⟨call, reply⟩ :: log) device call.request := by
  cases hrequest : call.request with
  | pair =>
    obtain ⟨⟨p, hp, hcredential, -⟩, hbound⟩ := heffect.paired _ _ _ _ _ hreply hrequest
    have hgranted := h.pairing_granted hinj hadmits (by simp [Call.keys, hrequest]) hp hcredential
    exact ⟨⟨p.expiresAt, hgranted.cons⟩, hbound⟩
  | renew old new =>
    have hold : old ∈ used := hadmits.1 _ (by simp [Call.keys, hrequest])
    have hnew : new ∈ used := hadmits.1 _ (by simp [Call.keys, hrequest])
    obtain ⟨⟨r, hr, hfrom⟩, rfl⟩ | ⟨hne, ⟨d, hd, hkey⟩, hmoved⟩ :=
      heffect.renewed _ _ _ _ hreply hrequest
    · obtain ⟨e, he, old', _, _, device', hrenew, hreply', hfrom'⟩ := h.rotated r hr
      have hsettled := h.settled e he device' hreply'
      rw [hrenew] at hsettled
      obtain rfl := hinj old hold old' (h.keys e he _ (by simp [Call.keys, hrenew]))
        (hfrom.symm.trans hfrom')
      exact ⟨hsettled.1.cons, hsettled.2⟩
    · refine ⟨?_, fun d' hd' hsame => ?_⟩
      · obtain ⟨key, hused, hlatest, hhash⟩ := h.current d hd
        obtain rfl := hinj old hold key hused (hkey.symm.trans hhash)
        obtain ⟨e, he, hnew, device', hreply', -⟩ := exists_of_latestKey hlatest
        exact ⟨e, mem_cons_of_mem _ he, hnew, device', hreply'⟩
      · exact hne (hinj old hold new hnew (hsame.symm.trans (hmoved d' hd' hsame)))
  | _ => trivial

theorem Tracked.step : Tracked codec used s' (⟨call, reply⟩ :: log) where
  keys := forall_mem_cons.mpr ⟨hadmits.1, h.keys⟩
  current := by
    intro d' hd'
    rw [latestKey, findSome?_cons]
    cases hkeyOf : Entry.keyOf d'.deviceId ⟨call, reply⟩ with
    | none =>
      obtain ⟨-, ⟨d, hd, hid, hkey⟩ | ⟨-, _, _, hnew, rfl, hid, -⟩⟩ := heffect.devices d' hd'
      · rw [← hid, ← hkey]
        exact h.current d hd
      · simp [Entry.keyOf, hid, hnew] at hkeyOf
    | some key =>
      obtain ⟨device, hreply, hid, hnew⟩ := Entry.keyOf_eq_some hkeyOf
      obtain ⟨_, hd, hdevice, -, hkey⟩ := heffect.answered device hreply
      obtain rfl := eq_of_conflicts hd hd' (.inl (hdevice.trans hid))
      exact ⟨key, hadmits.1 _ (newKey_mem_keys hnew), rfl, hkey key hnew⟩
  granted := by
    intro p' hp'
    obtain ⟨p, hp, hsame, hexpires, -⟩ | ⟨rfl, hcredential⟩ := heffect.pairings p' hp'
    · obtain ⟨credential, hgranted, hhash⟩ := h.granted p hp
      exact ⟨credential, hexpires ▸ hgranted.cons, hsame ▸ hhash⟩
    · exact ⟨call.credential, ⟨_, mem_cons_self, rfl, _, rfl⟩, hcredential⟩
  rotated := by
    intro r' hr'
    obtain hr | ⟨old, new, request, device, hrequest, rfl, hfrom⟩ := heffect.rotations r' hr'
    · obtain ⟨e, he, hrenew⟩ := h.rotated r' hr
      exact ⟨e, mem_cons_of_mem _ he, hrenew⟩
    · exact ⟨_, mem_cons_self, old, new, request, device, hrequest, rfl, hfrom⟩
  settled := by
    refine forall_mem_cons.mpr ⟨?_, ?_⟩
    · exact fun device hreply => h.answer_settled hinj hadmits heffect hreply
    intro e he device hreply
    refine (h.settled e he device hreply).cons ?_ ?_
    · intro _ _ hgranted p' hp' hcredential
      obtain ⟨p, hp, hsame, -, hkept⟩ | ⟨-, hnew⟩ := heffect.pairings p' hp'
      · exact ⟨p, hp, hsame, hkept⟩
      · obtain ⟨e, he, rfl, -⟩ := hgranted
        exact absurd (hinj _ (hadmits.1 _ mem_cons_self) _ (h.keys e he _ mem_cons_self)
          (hnew.symm.trans hcredential)) (hadmits.2 e he).2.2.1
    · intro key hintroduced d' hd' hkey
      obtain ⟨-, ⟨d, hd, -, hsame⟩ | ⟨hunspent, _, -, hnew, -, -, hhash⟩⟩ := heffect.devices d' hd'
      · exact ⟨d, hd, hsame⟩
      · exact (h.hash_ne hinj hadmits hnew hunspent hintroduced (hhash.symm.trans hkey)).elim
  revoked := by
    refine forall_mem_cons.mpr ⟨fun deviceId hrequest hreply =>
      heffect.revoked deviceId hreply hrequest, ?_⟩
    intro e he deviceId hrequest hreply d' hd' hid hnone
    obtain ⟨hnew | ⟨d, hd, hsame, hrevoked⟩, -⟩ := heffect.devices d' hd'
    · exact (hadmits.2 e he).2.1 (by simp [Call.ids, hrequest, ← hid, hnew])
    · exact h.revoked e he deviceId hrequest hreply d hd (hsame.trans hid) (hrevoked hnone)
  limit := by
    intro now hnow
    have hcount := heffect.count (h.limit call.now fun e he => (hadmits.2 e he).1)
    refine (countP_mono_left fun d _ hactive => ?_).trans hcount
    have hlater : call.now ≤ now := hnow _ mem_cons_self
    simp only [Store.isActive, decide_eq_true_eq] at hactive ⊢
    exact ⟨hactive.1, hlater.trans_lt hactive.2⟩

theorem Tracked.lawful (hreply : reply = some (.device device)) : Lawful call device log where
  current := by
    intro key hrequest
    obtain ⟨d, hd, hid, hkey, hactive⟩ := heffect.shown _ _ hreply hrequest
    obtain ⟨key', hused, hlatest, hhash⟩ := h.current d hd
    obtain rfl := hinj key (hadmits.1 _ (by simp [Call.keys, hrequest])) key' hused
      (hkey.symm.trans hhash)
    exact ⟨hid ▸ hlatest, hactive⟩
  unreplaced := by
    intro key hrequest e he _ _ device' hrenew hreply'
    obtain ⟨d, hd, -, hkey, -⟩ := heffect.shown _ _ hreply hrequest
    have hsettled := h.settled e he device' hreply'
    rw [hrenew] at hsettled
    exact hsettled.2 d hd hkey
  unrevoked := by
    intro e he hrevoke
    by_contra hreply'
    obtain ⟨d, hd, hid, hnone, -⟩ := heffect.answered device hreply
    exact (h.step hinj hadmits heffect).revoked e (mem_cons_of_mem _ he) _ hrevoke hreply' d
      hd hid hnone
  paired := by
    intro _ _ key _ hrequest
    obtain ⟨⟨p, hp, hcredential, hstate⟩, -⟩ := heffect.paired _ _ _ _ _ hreply hrequest
    have hgranted := h.pairing_granted hinj hadmits (by simp [Call.keys, hrequest]) hp hcredential
    refine ⟨⟨p.expiresAt, hgranted, fun hfirst => ?_⟩, ?_⟩
    · obtain ⟨-, htime⟩ | ⟨-, d, hd, hid⟩ := hstate
      · exact htime
      · obtain ⟨_, -, hlatest, -⟩ := h.current d hd
        obtain ⟨e, he, -, device', hreply', hsame⟩ := exists_of_latestKey hlatest
        exact (hfirst e he device' hreply' (hsame.trans hid)).elim
    · intro e he device' _ key' _ hpair hreply'
      have hsettled := h.settled e he device' hreply'
      rw [hpair] at hsettled
      have hbound := hsettled.2 p hp hcredential
      obtain ⟨hfree, -⟩ | ⟨hsame, -⟩ := hstate
      · cases hfree.symm.trans hbound
      · exact Option.some.inj (hbound.symm.trans hsame)

end

end

end

/-- Which device a call may return, and how many devices are active. -/
structure Guarded (codec : Codec) (h : History) (call : Call) : Prop where
  lawful : ∀ device s', exec codec h.store call = .ok (.device device, s') →
    Lawful call device h.log
  limit : ∀ now, (∀ e ∈ h.log, e.call.now ≤ now) →
    h.store.devices.count (Store.isActive now) ≤ maxDevices

/-- Only the current key of an active device authenticates. -/
theorem only_current_key_authenticates {codec : Codec} {used : List String}
    {calls : List Call} {h : History} {call : Call}
    (hinj : ∀ a ∈ used, ∀ b ∈ used, codec.hashKey a = codec.hashKey b → a = b)
    (hrun : Run (step codec) (Admits used) .empty calls h) (hadmits : Admits used h call) :
    Guarded codec h call := by
  have htracked : Tracked codec used h.store h.log := by
    apply hrun.invariant (fun h => Tracked codec used h.store h.log)
    · rintro ⟨s, log⟩ call htracked hadmits
      unfold step
      split
      next hexec => exact htracked.step hinj hadmits (exec_effect hexec)
      · exact htracked.step hinj hadmits effect_refused
    · refine ⟨?_, ?_, ?_, ?_, ?_, ?_, fun _ _ => Nat.zero_le _⟩
      all_goals rintro _ ⟨⟩
  exact ⟨fun _ s' hexec => htracked.lawful hinj hadmits (exec_effect hexec) rfl, htracked.limit⟩

/-! ## A phone that renews its key -/

def sampleKey (c : Char) : String := String.ofList (replicate 64 c)

def sampleScope : Scope where
  allMachines := false
  machines := ["cartae"]
  allProjects := true
  projects := []
  operations := [.read, .message]

def sampleScopeJson : String :=
  "\x7b\"all_machines\":false,\"machines\":[\"cartae\"],\"all_projects\":true,\"projects\":[]," ++
    "\"operations\":[\"read\",\"message\"]\x7d"

def sampleAttempt : String := "0b9a5c1e-6d4f-4c1b-9e59-1f2a3b4c5d6e"

def sampleRequest : String := "7d1e2f30-4a5b-4c6d-8e7f-90a1b2c3d4e5"

def sampleDevice : String := "3f2504e0-4f89-41d3-9a0c-0305e82c3301"

def sampleCodec : Codec where
  hashKey key := ([
    (sampleKey '0', "60e05bd1b195af2f94112fa7197a5c88289058840ce7c6df9693756bc6250f55"),
    (sampleKey '1', "3138bb9bc78df27c473ecfd1410f7bd45ebac1f59cf3ff9cfe4db77aab7aedd3"),
    (sampleKey '2', "4f2e8d65483c641648cdb374ae9d8abd368d269e4ddffe092a8237b8162cddd6")]
    : List (String × String)).lookup key |>.getD key
  fingerprint _ _ _ := "4ce8bfb32703884491df4762ee8d65df89278acb4075552c8fdcea988b43e1de"
  toJson scope := if scope = sampleScope then some sampleScopeJson else none
  fromJson text := if text = sampleScopeJson then some sampleScope else none

def sampleCalls : List Call := [
  ⟨.issuePairing sampleScope, 0, "9c5b94b1-35ad-49bb-b118-8e8fc24abf80", sampleKey '0'⟩,
  ⟨.pair (sampleKey '0') sampleAttempt (sampleKey '1') "Phone", 10, sampleDevice, "1"⟩,
  ⟨.renew (sampleKey '1') (sampleKey '2') sampleRequest, 20, "2", "2"⟩,
  ⟨.authenticate (sampleKey '1'), 30, "3", "3"⟩]

def sampleCall : Call := ⟨.authenticate (sampleKey '2'), 30, "4", "4"⟩

instance (used : List String) (h : History) (call : Call) : Decidable (Admits used h call) :=
  inferInstanceAs (Decidable (_ ∧ _))

/-- A paired device whose key is renewed is known by the new key only. -/
theorem sampleCall_guarded :
    (step sampleCodec (sampleCalls.foldl (step sampleCodec) .empty) sampleCall).log.map
        Entry.reply = [
      some (.device ⟨sampleDevice, "Phone", sampleScope, 10, 20 + deviceTtl, none⟩), none,
      some (.device ⟨sampleDevice, "Phone", sampleScope, 10, 20 + deviceTtl, none⟩),
      some (.device ⟨sampleDevice, "Phone", sampleScope, 10, 10 + deviceTtl, none⟩),
      some (.pairing ⟨"9c5b94b1-35ad-49bb-b118-8e8fc24abf80", sampleKey '0', pairingTtl⟩)] ∧
    Guarded sampleCodec (sampleCalls.foldl (step sampleCodec) .empty) sampleCall :=
  ⟨by decide +kernel, @only_current_key_authenticates _
    ((sampleCalls ++ [sampleCall]).flatMap Call.keys) sampleCalls _ _ (by decide +kernel)
    (Run.of_allows (by decide +kernel)) (by decide +kernel)⟩

end Bridget.Mobile
