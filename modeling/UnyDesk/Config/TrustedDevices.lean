import UnyDesk.Config.Storage
import UnyDesk.Lib.Linearizability
import UnyDesk.Lib.Machine

/-!
# Trusted devices

The devices that skip the second factor are a list in the configuration, encrypted, with a cached copy of it. An
update reads the list from the cache or from the configuration, changes it and writes it to both, and holds no lock
between the read and the write. One step is what happens under one lock.
-/

namespace UnyDesk

open Lib

structure TrustedDevice where
  hwid : Bytes
  time : Int
  id : String
  name : String
  platform : String
deriving DecidableEq

def TrustedDevice.outdate (d : TrustedDevice) (now : Int) : Bool := d.time + 90 * 24 * 60 * 60 * 1000 < now

/-- How a list of devices is written as text, by a library: a text in brackets that is read back as the list. -/
structure DeviceJson where
  toString : List TrustedDevice → String
  fromStr : String → Option (List TrustedDevice)
  fromStr_toString : ∀ devices, fromStr (toString devices) = some devices
  bracket : ∀ devices, (toString devices).toList.head? = some '['

/-- What the operations use beside the configuration; the time stands still while they run. -/
structure DeviceEnv where
  crypto : Crypto
  json : DeviceJson
  now : Int

inductive DeviceOp
  | get
  | add (device : TrustedDevice)
  | remove (hwids : List Bytes)
  | clear
deriving DecidableEq

/-- Where an operation stands. Before a list is written it carries the list that it was made from, if there is one,
and whether `get_trusted_devices` writes it. -/
inductive DevicePhase
  | readCache (op : DeviceOp)
  | readConfig (op : DeviceOp)
  | writeConfig (op : DeviceOp) (devices : List TrustedDevice) (base : Option (List TrustedDevice)) (refill : Bool)
  /-- Under the lock of the configuration. -/
  | writeCache (op : DeviceOp) (devices : List TrustedDevice) (refill : Bool)
  | fillCache (op : DeviceOp) (devices : List TrustedDevice)
  | done (op : DeviceOp) (result : Option (List TrustedDevice))

structure DeviceStore where
  /-- `CONFIG2.trusted_devices`. -/
  config : String
  /-- `TRUSTED_DEVICES`, with whether it has been filled. -/
  cache : List TrustedDevice × Bool := ([], false)
  /-- The operation that holds `CONFIG2` for writing. -/
  lock : Option ℕ := none
  ops : ℕ → Option DevicePhase := fun _ => none
  nextId : ℕ := 0
  history : List (Action ℕ DeviceOp (Option (List TrustedDevice))) := []
  /-- The list of the last update that is complete. -/
  current : List TrustedDevice

inductive DeviceStep
  | call (op : DeviceOp)
  | advance (i : ℕ) (nonce : Nonce)

def trustedDevicesMaxLen : ℕ := 1024 * 1024

/-- What an operation makes of a list before it is filtered for age: `None` where nothing is written. -/
def DeviceOp.update (devices : List TrustedDevice) : DeviceOp → Option (List TrustedDevice)
  | .get => none
  | .add device => some (devices.filter (·.hwid ≠ device.hwid) ++ [device])
  | .remove hwids => some (devices.filter fun d => !hwids.contains d.hwid)
  | .clear => some []

def retainCurrent (env : DeviceEnv) (devices : List TrustedDevice) : List TrustedDevice :=
  devices.filter fun d => !d.outdate env.now

/-- An operation behind `get_trusted_devices`. -/
def DeviceOp.got (env : DeviceEnv) (op : DeviceOp) (devices : List TrustedDevice) : DevicePhase :=
  match op.update devices with
  | none => .done op (some devices)
  | some updated => .writeConfig op (retainCurrent env updated) (some devices) false

/-- An operation that is called. -/
def DeviceOp.begin : DeviceOp → DevicePhase
  | .clear => .writeConfig .clear [] none false
  | op => .readCache op

namespace DeviceStore

def setPhase (s : DeviceStore) (i : ℕ) (phase : Option DevicePhase) : DeviceStore :=
  { s with ops := Function.update s.ops i phase }

/-- Behind `set_trusted_devices`: the operation is complete, or `get_trusted_devices` goes on. -/
def afterSet (op : DeviceOp) (devices : List TrustedDevice) (refill : Bool) : DevicePhase :=
  if refill then .fillCache op devices else .done op none

/-- One lock of `get_trusted_devices` and of `set_trusted_devices`. -/
def advance (env : DeviceEnv) (s : DeviceStore) (i : ℕ) (nonce : Nonce) : DevicePhase → DeviceStore
  | .readCache op =>
    if s.cache.2 then s.setPhase i (some (op.got env s.cache.1)) else s.setPhase i (some (.readConfig op))
  | .readConfig op =>
    if s.lock.isSome then s
    else
      let (text, succ, store) := decryptStrOrOriginal env.crypto s.config passwordEncVersion
      if succ then
        let devices := (env.json.fromStr text).getD []
        let kept := retainCurrent env devices
        if store || kept.length != devices.length then s.setPhase i (some (.writeConfig op kept none true))
        else s.setPhase i (some (.fillCache op kept))
      else s.setPhase i (some (op.got env []))
  | .writeConfig op devices _ refill =>
    let text := env.json.toString devices
    if byteLen text > trustedDevicesMaxLen then s.setPhase i (some (afterSet op devices refill))
    else if s.lock.isSome then s
    else
      setPhase { s with
          config := encryptStrOrOriginal env.crypto nonce text passwordEncVersion trustedDevicesMaxLen
          lock := some i }
        i (some (.writeCache op devices refill))
  | .writeCache op devices refill =>
    setPhase { s with cache := (devices, true), lock := none, current := devices } i (some (afterSet op devices refill))
  | .fillCache op devices => setPhase { s with cache := (devices, true) } i (some (op.got env devices))
  | .done _ result => setPhase { s with history := s.history ++ [.ret i result] } i none

def step (env : DeviceEnv) (s : DeviceStore) : DeviceStep → DeviceStore
  | .call op =>
    setPhase { s with history := s.history ++ [.call s.nextId op], nextId := s.nextId + 1 } s.nextId (some op.begin)
  | .advance i nonce =>
    match s.ops i with
    | none => s
    | some phase => s.advance env i nonce phase

/-- The list that a text of the configuration holds. -/
def persisted (env : DeviceEnv) (config : String) : List TrustedDevice :=
  let (text, succ, _) := decryptStrOrOriginal env.crypto config passwordEncVersion
  if succ then (env.json.fromStr text).getD [] else []

/-- No operation is in progress. -/
def Quiet (s : DeviceStore) : Prop := ∀ i < s.nextId, s.ops i = none

instance (s : DeviceStore) : Decidable s.Quiet := inferInstanceAs (Decidable (∀ i < s.nextId, s.ops i = none))

end DeviceStore

/-- The operations one after the other: the list that one leaves and its result. -/
def DeviceOp.apply (env : DeviceEnv) (devices : List TrustedDevice) (op : DeviceOp) :
    List TrustedDevice × Option (List TrustedDevice) :=
  match op.update devices with
  | none => (devices, some devices)
  | some updated => (retainCurrent env updated, none)

end UnyDesk
