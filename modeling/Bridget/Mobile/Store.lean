import Bridget.Core.Message
import Bridget.Foundation.Fallible
import Bridget.Foundation.Numerals
import Bridget.Foundation.Table

/-!
# Authorisations of mobile devices

A pairing credential is exchanged once for a device with a key. A renewal replaces the key and
keeps, for a while, what it takes to answer a repeated request. Keys and credentials are stored
by their hash only.
-/

namespace Bridget.Mobile

open Foundation

def pairingTtl : Int := 300

def deviceTtl : Int := 30 * 86400

def rotationReplayTtl : Int := 600

def maxDevices : Nat := 16

def maxRetained : Nat := 256

def maxRotations : Nat := 1024

inductive StoreError where
  | invalidRequest | pairingUnavailable | authorizationRequired | deviceRevoked | credentialExpired
  | envelopeMismatch | deviceLimit | storageUnavailable

inductive Operation where
  | read | message | taskRead | taskCreate | taskContinue | taskCancel | taskRespond | devicesManage
  | specialistsManage
  deriving DecidableEq

structure Scope where
  allMachines : Bool
  machines : List String
  allProjects : Bool
  projects : List CommunicationProject
  operations : List Operation
  deriving DecidableEq

def boundedLabel (value : String) (limit : Nat) : Bool :=
  value != "" && trim value.toList = value.toList && value.utf8ByteSize ≤ limit &&
    !value.toList.any isControl

def validProject (project : CommunicationProject) : Bool :=
  boundedLabel project.host 256 && isAbsolute project.root && project.root.utf8ByteSize ≤ 4096 &&
    !project.root.toList.any isControl && !(split '/' project.root).contains ".."

def Scope.validate (scope : Scope) : Except StoreError Unit :=
  ensure (.taskCreate ∉ scope.operations ∧ scope.machines.length ≤ 128 ∧
    scope.projects.length ≤ 128 ∧ scope.operations ≠ [] ∧ scope.operations.length ≤ 9 ∧
    (scope.allMachines → scope.machines = []) ∧ (scope.allProjects → scope.projects = []) ∧
    (∀ machine ∈ scope.machines, boundedLabel machine 256) ∧
    ∀ project ∈ scope.projects, validProject project) .invalidRequest

structure DeviceRow where
  (deviceId label scope keyHash : String)
  (createdAt expiresAt : Int)
  revokedAt : Option Int

structure PairingRow where
  (pairingId credentialHash scope : String)
  expiresAt : Int
  (attemptId bindingHash deviceId : Option String)

structure RotationRow where
  (fromHash toHash requestId deviceId : String)
  replayUntil : Int

instance : UniqueKeys DeviceRow where
  conflicts a b := a.deviceId = b.deviceId ∨ a.keyHash = b.keyHash

instance : UniqueKeys PairingRow where
  conflicts a b := a.pairingId = b.pairingId ∨ a.credentialHash = b.credentialHash

instance : UniqueKeys RotationRow where
  conflicts a b := a.fromHash = b.fromHash

structure Store where
  devices : Table DeviceRow
  pairings : Table PairingRow
  rotations : Table RotationRow

structure Device where
  (deviceId label : String)
  scope : Scope
  (createdAt expiresAt : Int)
  revokedAt : Option Int
  deriving DecidableEq

structure Pairing where
  (pairingId credential : String)
  expiresAt : Int
  deriving DecidableEq

/-- What the store is given: the SHA-256 of a key and of the JSON of an attempt, a key hash and
a label, and the JSON of a scope. -/
structure Codec where
  hashKey : String → String
  fingerprint : String → String → String → String
  toJson : Scope → Option String
  fromJson : String → Option Scope

def validId (value : String) : Bool := isCanonicalUuidV4 value

def validKey (value : String) : Bool := validDigest value

def storage {α : Type} (x : Except SqlError α) : Except StoreError α :=
  x.mapError fun _ => .storageUnavailable

namespace Store

variable (codec : Codec) (s : Store)

def rowDevice (row : DeviceRow) : Except StoreError Device := do
  let scope ← orError (codec.fromJson row.scope) .storageUnavailable
  return { row with scope }

def active (device : Device) (now : Int) : Except StoreError Device := do
  ensure (device.revokedAt = none) .deviceRevoked
  ensure (now < device.expiresAt) .credentialExpired
  device.scope.validate
  return device

variable (p : DeviceRow → Bool)

def activeDevice (missing : StoreError) (now : Int) : Except StoreError Device := do
  let row ← orError (s.devices.find? p) missing
  let device ← rowDevice codec row
  active device now

/-- `DELETE` of devices, with the pairings and rotations that refer to them. -/
def deleteDevices : Store :=
  let gone id := (s.devices.select p).any fun d => d.deviceId = id
  { devices := s.devices.delete p
    pairings := s.pairings.delete fun r => r.deviceId.any gone
    rotations := s.rotations.delete fun r => gone r.deviceId }

def issuePairing (scope : Scope) (pairingId credential : String) (now : Int) :
    Except StoreError (Pairing × Store) := do
  scope.validate
  let expiresAt ← orError ((checkedAdd now pairingTtl).filter fun _ => 0 ≤ now) .invalidRequest
  let encoded ← orError (codec.toJson scope) .invalidRequest
  ensure (encoded.utf8ByteSize ≤ 16 * 1024) .invalidRequest
  let rotations := s.rotations.delete fun r => r.replayUntil ≤ now
  let pairings := s.pairings.delete fun r => r.expiresAt ≤ now ∧ r.deviceId = none
  let s := deleteDevices { s with pairings, rotations } fun d =>
    d.expiresAt ≤ saturatingSub now deviceTtl
  ensure (s.devices.rows.length < maxRetained ∧ s.pairings.rows.length < maxRetained) .deviceLimit
  let pairings ← storage (s.pairings.insert
    ⟨pairingId, codec.hashKey credential, encoded, expiresAt, none, none, none⟩)
  return (⟨pairingId, credential, expiresAt⟩, { s with pairings })

def isActive (now : Int) (d : DeviceRow) : Bool := d.revokedAt = none ∧ now < d.expiresAt

def createDevice (row : PairingRow) (attempt key label deviceId : String) (now : Int) :
    Except StoreError (Device × Store) := do
  ensure (now < row.expiresAt) .pairingUnavailable
  let scope ← orError (codec.fromJson row.scope) .storageUnavailable
  scope.validate
  ensure (s.devices.count (isActive now) < maxDevices) .deviceLimit
  let expiresAt ← orError (checkedAdd now deviceTtl) .invalidRequest
  let devices ← storage (s.devices.insert
    ⟨deviceId, label, row.scope, codec.hashKey key, now, expiresAt, none⟩)
  let (pairings, _) ← storage (s.pairings.update (fun r => r.credentialHash = row.credentialHash)
    fun r => { r with
      attemptId := some attempt
      bindingHash := some (codec.fingerprint attempt (codec.hashKey key) label)
      deviceId := some deviceId })
  return (⟨deviceId, label, scope, now, expiresAt, none⟩, { s with devices, pairings })

def pair (pairing attempt key label deviceId : String) (now : Int) :
    Except StoreError (Device × Store) := do
  ensure (validKey pairing ∧ validKey key ∧ validId attempt ∧ boundedLabel label 128 ∧
    0 ≤ now) .invalidRequest
  let row ← orError (s.pairings.find? fun r => r.credentialHash = codec.hashKey pairing)
    .pairingUnavailable
  match row.deviceId with
  | some id =>
    ensure (row.bindingHash = some (codec.fingerprint attempt (codec.hashKey key) label))
      .pairingUnavailable
    let device ← s.activeDevice codec (fun d => d.deviceId = id ∧ d.keyHash = codec.hashKey key)
      .pairingUnavailable now
    return (device, s)
  | none => s.createDevice codec row attempt key label deviceId now

def authenticate (key : String) (now : Int) : Except StoreError Device := do
  ensure (validKey key ∧ 0 ≤ now) .authorizationRequired
  s.activeDevice codec (fun d => d.keyHash = codec.hashKey key) .authorizationRequired now

def revoke (id : String) (now : Int) : Except StoreError (Bool × Store) := do
  ensure (validId id ∧ 0 ≤ now) .invalidRequest
  let (devices, n) ← storage (s.devices.update (fun d => d.deviceId = id)
    fun d => { d with revokedAt := d.revokedAt.or (some now) })
  return (n = 1, { s with devices })

def rotate (oldHash newHash request : String) (now : Int) : Except StoreError (Device × Store) := do
  let device ← s.activeDevice codec (fun d => d.keyHash = oldHash) .authorizationRequired now
  let rotations := s.rotations.delete fun r => r.replayUntil ≤ now
  ensure (rotations.rows.length < maxRotations) .deviceLimit
  let expiresAt ← orError (checkedAdd now deviceTtl) .invalidRequest
  let (devices, _) ← storage (s.devices.update (fun d => d.deviceId = device.deviceId)
    fun d => { d with keyHash := newHash, expiresAt })
  let replayUntil ← orError (checkedAdd now rotationReplayTtl) .invalidRequest
  let rotations ← storage (rotations.insert
    ⟨oldHash, newHash, request, device.deviceId, replayUntil⟩)
  return ({ device with expiresAt }, { s with devices, rotations })

def renew (old new request : String) (now : Int) : Except StoreError (Device × Store) := do
  ensure (validKey old ∧ validKey new ∧ old ≠ new ∧ validId request ∧ 0 ≤ now)
    .invalidRequest
  let oldHash := codec.hashKey old
  let newHash := codec.hashKey new
  match s.rotations.find? fun r => r.fromHash = oldHash with
  | some replay =>
    ensure (now < replay.replayUntil) .authorizationRequired
    ensure (replay.toHash = newHash ∧ replay.requestId = request) .envelopeMismatch
    let device ← s.activeDevice codec
      (fun d => d.deviceId = replay.deviceId ∧ d.keyHash = newHash) .authorizationRequired now
    return (device, s)
  | none => s.rotate codec oldHash newHash request now

end Store

end Bridget.Mobile
