import Mathlib.Algebra.Group.Int.Defs
import Mathlib.Data.List.Nodup
import Mathlib.Data.Rat.Defs
import UnyDesk.Lib.Machine

/-!
# Devices

The routes that deploy, register, watch, delete and disconnect devices. A request is a task that other tasks interleave
with at every SQL statement; a statement is one step, and it may fail. What a request must present to be let through is
left out: a request of this model has been let through, and its body has been read. The server remembers the requests,
the uuids of the deploys, and the orders with the requests that ordered and took them, which nothing reads back.
-/

namespace UnyDesk.Api

open Function List Option Nat

/-- A `TEXT` column, and what a request carries for it. -/
abbrev Text := Option String

/-- The columns of `devices` that describe a device. -/
structure DeviceInfo where
  deviceName : Text := none
  hostname : Text := none
  username : Text := none
  os : Text := none
  cpu : Text := none
  memory : Text := none
  version : Text := none
  note : Text := none
  userName : Text := none
  deviceGroupName : Text := none
deriving DecidableEq

/-- The columns that are not keys. -/
structure DeviceColumns where
  uuid : Text := none
  pk : Text := none
  info : DeviceInfo := {}
  /-- The numbers of a JSON array. -/
  conns : List ℚ := []
  strategyModifiedAt : Int := 0
deriving DecidableEq

structure DeviceRow where
  guid : ℕ
  id : String
  columns : DeviceColumns
deriving DecidableEq

/-- The table of devices: the guid is new for every row, and the id is unique. -/
structure DeviceTable where
  rows : List DeviceRow
  nextGuid : ℕ
  fresh : ∀ row ∈ rows, row.guid < nextGuid
  guids : (rows.map DeviceRow.guid).Nodup
  ids : (rows.map DeviceRow.id).Nodup

namespace DeviceTable

variable {columns : DeviceColumns}

def empty : DeviceTable :=
  { rows := [], nextGuid := 0, fresh := by simp, guids := List.nodup_nil, ids := List.nodup_nil }

section

variable (devices : DeviceTable)

def byId (id : String) : Option DeviceRow := devices.rows.find? (·.id = id)

def byGuid (guid : ℕ) : Option DeviceRow := devices.rows.find? (·.guid = guid)

/-- `INSERT`, which an id that a row has already violates. -/
def insert (id : String) (columns : DeviceColumns) : Option DeviceTable :=
  if h : id ∈ devices.rows.map DeviceRow.id then none
  else some {
    rows := { guid := devices.nextGuid, id, columns } :: devices.rows
    nextGuid := devices.nextGuid + 1
    fresh := by
      intro row hrow
      rcases List.mem_cons.mp hrow with rfl | hold
      · exact Nat.lt_succ_self _
      · exact Nat.lt_succ_of_lt (devices.fresh row hold)
    guids := by
      refine List.nodup_cons.mpr ⟨fun hmem => ?_, devices.guids⟩
      obtain ⟨row, hrow, hguid⟩ := List.mem_map.mp hmem
      exact Nat.ne_of_lt (devices.fresh row hrow) hguid
    ids := List.nodup_cons.mpr ⟨h, devices.ids⟩ }

/-- `UPDATE … WHERE id`. -/
def update (id : String) (f : DeviceColumns → DeviceColumns) : DeviceTable :=
  have hkeys (K : Type) (key : DeviceRow → K) (hkey : ∀ row columns, key { row with columns } = key row) :
      (devices.rows.map fun row => if row.id = id then { row with columns := f row.columns } else row).map key =
        devices.rows.map key := by
    rw [List.map_map]
    refine List.map_congr_left fun row _ => ?_
    rw [Function.comp_apply]
    split
    · exact hkey row _
    · rfl
  { devices with
    rows := devices.rows.map fun row => if row.id = id then { row with columns := f row.columns } else row
    fresh := by
      intro row hrow
      obtain ⟨old, hold, rfl⟩ := List.mem_map.mp hrow
      split <;> exact devices.fresh old hold
    guids := hkeys ℕ DeviceRow.guid (fun _ _ => rfl) ▸ devices.guids
    ids := hkeys String DeviceRow.id (fun _ _ => rfl) ▸ devices.ids }

/-- `INSERT … ON CONFLICT (id) DO UPDATE`. -/
def upsert (id : String) (columns : DeviceColumns) (f : DeviceColumns → DeviceColumns) : DeviceTable :=
  (devices.insert id columns).getD (devices.update id f)

def delete (guid : ℕ) : DeviceTable :=
  { devices with
    rows := devices.rows.filter (·.guid ≠ guid)
    fresh := fun row hrow => devices.fresh row (List.mem_of_mem_filter hrow)
    guids := devices.guids.sublist (List.filter_sublist.map _)
    ids := devices.ids.sublist (List.filter_sublist.map _) }

end

section Lookup

variable {devices devices' : DeviceTable} {id : String} {row row' : DeviceRow}

theorem mem_of_byId (h : devices.byId id = some row) : row ∈ devices.rows ∧ row.id = id :=
  ⟨mem_of_find?_eq_some h, by simpa using find?_some h⟩

section

variable (hrow : row ∈ devices.rows)
include hrow

theorem eq_of_id (hrow' : row' ∈ devices.rows) (hid : row.id = row'.id) :
    row = row' := inj_on_of_nodup_map devices.ids hrow hrow' hid

theorem eq_of_guid (hrow' : row' ∈ devices.rows)
    (hguid : row.guid = row'.guid) : row = row' := inj_on_of_nodup_map devices.guids hrow hrow' hguid

theorem byId_eq_some : devices.byId row.id = some row := by
  cases h : devices.byId row.id with
  | none => exact absurd (find?_eq_none.mp h row hrow) (by simp)
  | some found =>
    obtain ⟨hfound, hid⟩ := mem_of_byId h
    rw [eq_of_id hfound hrow hid]

end

theorem ne_of_byId_eq_none (h : devices.byId id = none) (hrow : row ∈ devices.rows) : row.id ≠ id := by
  simpa using find?_eq_none.mp h row hrow

theorem byId_eq_none : devices.byId id = none ↔ id ∉ devices.rows.map DeviceRow.id := by
  simp [byId, find?_eq_none]

/-- What an insertion adds. -/
theorem mem_insert (h : devices.insert id columns = some devices') :
    row ∈ devices'.rows ↔ row = ⟨devices.nextGuid, id, columns⟩ ∨ row ∈ devices.rows := by
  unfold insert at h
  split at h
  · exact nomatch h
  · rw [← some.inj h]
    exact mem_cons

theorem insert_eq_none : devices.insert id columns = none ↔ (devices.byId id).isSome = true := by
  rw [← ne_none_iff_isSome, Ne, byId_eq_none, not_not]
  unfold insert
  split <;> simp_all

theorem byId_of_insert (h : devices.insert id columns = some devices') : devices.byId id = none := by
  by_contra hsome
  rw [insert_eq_none.mpr (ne_none_iff_isSome.mp hsome)] at h
  exact nomatch h

theorem mem_update {f : DeviceColumns → DeviceColumns} : row ∈ (devices.update id f).rows ↔
      row ∈ devices.rows ∧ row.id ≠ id ∨ ∃ old ∈ devices.rows, old.id = id ∧ row = { old with columns := f old.columns } := by
  simp only [DeviceTable.update, List.mem_map]
  constructor
  · rintro ⟨old, hold, rfl⟩
    by_cases hid : old.id = id
    · rw [if_pos hid]
      exact .inr ⟨old, hold, hid, rfl⟩
    · rw [if_neg hid]
      exact .inl ⟨hold, hid⟩
  · rintro (⟨hrow, hid⟩ | ⟨old, hold, hid, rfl⟩)
    · exact ⟨row, hrow, if_neg hid⟩
    · exact ⟨old, hold, if_pos hid⟩

/-- An upsert inserts a row or changes the one with the id. -/
theorem upsert_spec (devices : DeviceTable) (id : String) (columns : DeviceColumns) (f : DeviceColumns → DeviceColumns) :
    (devices.byId id = none ∧ devices.insert id columns = some (devices.upsert id columns f)) ∨
      ∃ row, devices.byId id = some row ∧ devices.upsert id columns f = devices.update id f := by
  cases hid : devices.byId id with
  | none =>
    refine .inl ⟨rfl, ?_⟩
    cases hinsert : devices.insert id columns with
    | none =>
      rw [insert_eq_none, hid] at hinsert
      exact nomatch hinsert
    | some inserted => rw [upsert, hinsert, getD_some]
  | some row =>
    have hconflict : devices.insert id columns = none := insert_eq_none.mpr (by rw [hid]; rfl)
    exact .inr ⟨row, rfl, by rw [upsert, hconflict, getD_none]⟩

theorem mem_delete {guid : ℕ} : row ∈ (devices.delete guid).rows ↔ row ∈ devices.rows ∧ row.guid ≠ guid := by
  simp [delete]

end Lookup

/-- What a statement that does not delete does to the ids. -/
def KeepsIds (devices devices' : DeviceTable) : Prop :=
  ∀ row ∈ devices.rows, ∃ row' ∈ devices'.rows, row'.id = row.id

/-- What a statement does to the keys of the table: a row keeps its id, and the guid of a new row is new. -/
structure Evolves (devices devices' : DeviceTable) : Prop where
  nextGuid : devices.nextGuid ≤ devices'.nextGuid
  rows : ∀ row' ∈ devices'.rows, row'.guid < devices.nextGuid →
    ∃ row ∈ devices.rows, row.guid = row'.guid ∧ row.id = row'.id

section Evolution

variable {devices devices' : DeviceTable} {id : String}

theorem Evolves.refl (devices : DeviceTable) : devices.Evolves devices :=
  ⟨le_refl _, fun row hrow _ => ⟨row, hrow, rfl, rfl⟩⟩

theorem evolves_insert (h : devices.insert id columns = some devices') : devices.Evolves devices' where
  nextGuid := by
    unfold insert at h
    split at h
    · exact nomatch h
    · rw [← some.inj h]
      exact le_succ _
  rows row' hrow' hguid := by
    rcases (mem_insert h).mp hrow' with rfl | hold
    · exact absurd hguid (lt_irrefl _)
    · exact ⟨row', hold, rfl, rfl⟩

section

variable (devices : DeviceTable)

theorem evolves_update (id : String) (f : DeviceColumns → DeviceColumns) : devices.Evolves (devices.update id f) where
  nextGuid := le_refl _
  rows row' hrow' _ := by
    rcases mem_update.mp hrow' with ⟨hold, -⟩ | ⟨before, hbefore, -, rfl⟩
    · exact ⟨row', hold, rfl, rfl⟩
    · exact ⟨before, hbefore, rfl, rfl⟩

theorem evolves_upsert (id : String) (columns : DeviceColumns)
    (f : DeviceColumns → DeviceColumns) : devices.Evolves (devices.upsert id columns f) := by
  rcases upsert_spec devices id columns f with ⟨-, hinsert⟩ | ⟨row, -, hupdate⟩
  · exact evolves_insert hinsert
  · rw [hupdate]
    exact evolves_update devices id f

theorem evolves_delete (guid : ℕ) : devices.Evolves (devices.delete guid) :=
  ⟨le_refl _, fun row hrow _ => ⟨row, (mem_delete.mp hrow).1, rfl, rfl⟩⟩

theorem KeepsIds.refl : devices.KeepsIds devices := fun row hrow => ⟨row, hrow, rfl⟩

end

theorem keepsIds_insert (h : devices.insert id columns = some devices') :
    devices.KeepsIds devices' := fun row hrow => ⟨row, (mem_insert h).mpr (.inr hrow), rfl⟩

theorem keepsIds_update (devices : DeviceTable) (id : String) (f : DeviceColumns → DeviceColumns) :
    devices.KeepsIds (devices.update id f) := by
  intro row hrow
  by_cases hid : row.id = id
  · exact ⟨_, mem_update.mpr (.inr ⟨row, hrow, hid, rfl⟩), rfl⟩
  · exact ⟨row, mem_update.mpr (.inl ⟨hrow, hid⟩), rfl⟩

theorem keepsIds_upsert (devices : DeviceTable) (id : String) (columns : DeviceColumns)
    (f : DeviceColumns → DeviceColumns) : devices.KeepsIds (devices.upsert id columns f) := by
  rcases upsert_spec devices id columns f with ⟨-, hinsert⟩ | ⟨row, -, hupdate⟩
  · exact keepsIds_insert hinsert
  · rw [hupdate]
    exact keepsIds_update devices id f

theorem KeepsIds.byId (h : devices.KeepsIds devices') (hid : (devices.byId id).isSome = true) :
    (devices'.byId id).isSome = true := by
  obtain ⟨row, hrow⟩ := isSome_iff_exists.mp hid
  obtain ⟨hmem, rfl⟩ := mem_of_byId hrow
  obtain ⟨row', hmem', hsame⟩ := h row hmem
  rw [← hsame, byId_eq_some hmem']
  rfl

/-- A deletion removes the row of its guid only. -/
theorem byId_delete {guid : ℕ} {row : DeviceRow} (hrow : devices.byId id = some row) (hguid : row.guid ≠ guid) :
    ((devices.delete guid).byId id).isSome = true := by
  obtain ⟨hmem, rfl⟩ := mem_of_byId hrow
  rw [byId_eq_some (mem_delete.mpr ⟨hmem, hguid⟩)]
  rfl

end Evolution

end DeviceTable

/-- The body of a sysinfo request, each value as the text that it is turned into. -/
structure SysinfoBody where
  id : String
  uuid : Text := none
  hostname : Text := none
  username : Text := none
  os : Text := none
  cpu : Text := none
  memory : Text := none
  version : Text := none
  note : Text := none
  deviceGroup : Text := none
  userName : Text := none
deriving DecidableEq

/-- The columns of a row that a sysinfo request inserts. -/
def SysinfoBody.columns (body : SysinfoBody) : DeviceColumns where
  uuid := body.uuid
  info :=
    { deviceName := body.hostname, hostname := body.hostname, username := body.username, os := body.os, cpu := body.cpu,
      memory := body.memory, version := body.version, note := body.note, userName := body.userName,
      deviceGroupName := body.deviceGroup }

/-- `COALESCE` for every column that a sysinfo request updates. -/
def SysinfoBody.coalesce (body : SysinfoBody) (c : DeviceColumns) : DeviceColumns :=
  { c with
    uuid := body.uuid.or c.uuid
    info :=
      { deviceName := body.hostname.or c.info.deviceName, hostname := body.hostname.or c.info.hostname,
        username := body.username.or c.info.username, os := body.os.or c.info.os, cpu := body.cpu.or c.info.cpu,
        memory := body.memory.or c.info.memory, version := body.version.or c.info.version,
        note := body.note.or c.info.note, userName := body.userName.or c.info.userName,
        deviceGroupName := body.deviceGroup.or c.info.deviceGroupName } }

/-- The body of a heartbeat that fits its schema. -/
structure HeartbeatBody where
  id : String
  uuid : Text := none
  conns : Option (List ℚ) := none
  modifiedAt : Option ℚ := none
deriving DecidableEq

def HeartbeatBody.coalesce (body : HeartbeatBody) (c : DeviceColumns) : DeviceColumns :=
  { c with uuid := body.uuid.or c.uuid, conns := body.conns.getD c.conns }

/-- A request; a body that does not fit its schema is `none`. -/
inductive DeviceRequest
  | deploy (body : Option (String × Text × Text))
  | cli (id : String) (uuid pk note : Text)
  | sysinfo (body : SysinfoBody)
  | heartbeat (body : Option HeartbeatBody)
  | delete (guid : ℕ)
  | disconnect (guid : ℕ) (connIds : Option (List ℚ))
deriving DecidableEq

/-- The keys of an answer to a heartbeat that an agent reads. -/
structure HeartbeatAnswer where
  /-- The agent is to upload its sysinfo again. -/
  sysinfo : Bool := false
  disconnect : List Int := []
  /-- With the strategy, which is empty. -/
  modifiedAt : Option Int := none
deriving DecidableEq

inductive DeviceAnswer
  | result (text : String)
  | text (text : String)
  | heartbeat (answer : HeartbeatAnswer)
  | error (code : ℕ) (text : String)
deriving DecidableEq

/-- A row of `disconnect_queue`, and the request that ordered it. -/
structure Order where
  serial : ℕ
  deviceId : String
  connId : Int
  request : ℕ
deriving DecidableEq

/-- The statement that a request waits for. -/
inductive DeviceTask
  | deployCheck (id : String) (uuid pk : Text)
  | deployUpsert (id : String) (uuid pk : Text)
  | cliUpsert (id : String) (uuid pk note : Text)
  | sysinfoSelect (body : SysinfoBody)
  | sysinfoInsert (body : SysinfoBody)
  | sysinfoUpdate (body : SysinfoBody)
  | heartbeatUpdate (body : HeartbeatBody)
  | heartbeatDelete (body : HeartbeatBody)
  | heartbeatSelect (body : HeartbeatBody) (orders : List Order)
  | delete (guid : ℕ)
  | disconnectSelect (guid : ℕ) (connIds : List ℚ)
  | disconnectInsert (deviceId : String) (connId : ℚ) (rest : List ℚ)

/-- The statements that a request begins with. -/
def DeviceTask.First : DeviceTask → Prop
  | .deployCheck _ _ _ | .cliUpsert _ _ _ _ | .sysinfoSelect _ | .heartbeatUpdate _ | .delete _
  | .disconnectSelect _ _ => True
  | _ => False

/-- The requests are numbered as they arrive. -/
structure DeviceServer where
  devices : DeviceTable := .empty
  queue : List Order := []
  nextSerial : ℕ := 0
  arrived : ℕ := 0
  received : ℕ → Option DeviceRequest := fun _ => none
  tasks : ℕ → Option DeviceTask := fun _ => none
  answers : ℕ → Option DeviceAnswer := fun _ => none
  /-- The guids and the uuids of the deploys that were answered `OK`. -/
  deployed : List (ℕ × String) := []
  /-- All orders that were ever inserted. -/
  ordered : List Order := []
  /-- The orders that heartbeats have taken. -/
  taken : List (ℕ × Order) := []

inductive DeviceStep
  | request (r : DeviceRequest)
  | advance (n : ℕ)
  /-- The statement fails. -/
  | fail (n : ℕ)

/-- A number that the `INT` column holds. -/
def columnInt (n : ℚ) : Option Int :=
  if n.den = 1 ∧ -(2 ^ 31) ≤ n.num ∧ n.num < 2 ^ 31 then some n.num else none

/-- The id belongs to another device. An empty text is no uuid to this check. -/
def idTaken (old new : Text) : Bool :=
  match old, new with
  | some old, some new => !old.isEmpty && !new.isEmpty && decide (old ≠ new)
  | _, _ => false

namespace DeviceServer

variable (s : DeviceServer) (n : ℕ) {task : DeviceTask}

def park (task : DeviceTask) : DeviceServer := { s with tasks := Function.update s.tasks n (some task) }

def answer (answer : DeviceAnswer) : DeviceServer :=
  { s with tasks := Function.update s.tasks n none, answers := Function.update s.answers n (some answer) }

/-- The next request arrives, with its number. -/
def arrive : DeviceServer := { s with arrived := s.arrived + 1 }

/-- A deploy is answered, for the record that it leaves behind. -/
def answerDeploy (id : String) (uuid : Text) : DeviceServer :=
  let record := (s.devices.byId id).bind fun row => uuid.map (row.guid, ·)
  { s with deployed := record.toList ++ s.deployed }.answer n (.result "OK")

def receive : DeviceRequest → DeviceServer
  | .deploy none => s.arrive.answer s.arrived (.result "INVALID_INPUT")
  | .deploy (some (id, uuid, pk)) =>
    if id = "" then s.arrive.answer s.arrived (.result "INVALID_INPUT")
    else s.arrive.park s.arrived (.deployCheck id uuid pk)
  | .cli id uuid pk note =>
    if id = "" then s.arrive.answer s.arrived (.result "INVALID_INPUT")
    else s.arrive.park s.arrived (.cliUpsert id uuid pk note)
  | .sysinfo body =>
    if body.id = "" then s.arrive.answer s.arrived (.error 400 "INVALID_INPUT")
    else s.arrive.park s.arrived (.sysinfoSelect body)
  | .heartbeat none => s.arrive.answer s.arrived (.heartbeat {})
  | .heartbeat (some body) => s.arrive.park s.arrived (.heartbeatUpdate body)
  | .delete guid => s.arrive.park s.arrived (.delete guid)
  | .disconnect _ none | .disconnect _ (some []) => s.arrive.answer s.arrived (.error 400 "Invalid input")
  | .disconnect guid (some (connId :: rest)) => s.arrive.park s.arrived (.disconnectSelect guid (connId :: rest))

/-- The answer to a heartbeat, after its last statement. -/
def heartbeatAnswer (body : HeartbeatBody) (orders : List Order) : HeartbeatAnswer :=
  let rspModified : Int := ((s.devices.byId body.id).map fun row => row.columns.strategyModifiedAt).getD 0
  { disconnect := orders.map Order.connId
    modifiedAt := if (rspModified : ℚ) ≠ body.modifiedAt.getD 0 then some rspModified else none }

def enqueue (deviceId : String) (connId : Int) : DeviceServer :=
  let order : Order := { serial := s.nextSerial, deviceId, connId, request := n }
  { s with queue := s.queue ++ [order], ordered := order :: s.ordered, nextSerial := s.nextSerial + 1 }

/-- The rows that the device has in the queue are removed. -/
def dequeue (deviceId : String) : DeviceServer :=
  { s with
    queue := s.queue.filter (·.deviceId ≠ deviceId)
    taken := (s.queue.filter (·.deviceId = deviceId)).map (n, ·) ++ s.taken }

/-- The device of a disconnect request. -/
def selectDevice (guid : ℕ) (connIds : List ℚ) : DeviceServer :=
  match s.devices.byGuid guid, connIds with
  | some row, connId :: rest => s.park n (.disconnectInsert row.id connId rest)
  | _, _ => s.answer n (.error 404 "Not found")

/-- One order of a disconnect request; a number that the column does not hold is an error. -/
def insertOrder (deviceId : String) (connId : ℚ) (rest : List ℚ) : DeviceServer :=
  match columnInt connId, rest with
  | none, _ => s.answer n (.error 500 "invalid input for type integer")
  | some connId, [] => (s.enqueue n deviceId connId).answer n (.result "OK")
  | some connId, connId' :: rest => (s.enqueue n deviceId connId).park n (.disconnectInsert deviceId connId' rest)

/-- The statement of the task runs. -/
def advance : DeviceTask → DeviceServer
  | .deployCheck id uuid pk =>
    if ((s.devices.byId id).map fun row => idTaken row.columns.uuid uuid).getD false then
      s.answer n (.result "ID_TAKEN")
    else s.park n (.deployUpsert id uuid pk)
  | .deployUpsert id uuid pk =>
    DeviceServer.answerDeploy
      { s with devices := s.devices.upsert id { uuid, pk } fun c => { c with uuid := uuid.or c.uuid, pk := pk.or c.pk } }
      n id uuid
  | .cliUpsert id uuid pk note =>
    DeviceServer.answer { s with devices := s.devices.upsert id { uuid, pk, info := { note } } fun c =>
          { c with info := { c.info with note := note.or c.info.note } } } n (.result "OK")
  | .sysinfoSelect body =>
    if (s.devices.byId body.id).isNone then s.park n (.sysinfoInsert body) else s.park n (.sysinfoUpdate body)
  | .sysinfoInsert body =>
    match s.devices.insert body.id body.columns with
    | none => s.answer n (.error 500 "duplicate key value violates unique constraint")
    | some devices => DeviceServer.answer { s with devices } n (.text "SYSINFO_UPDATED")
  | .sysinfoUpdate body =>
    DeviceServer.answer { s with devices := s.devices.update body.id body.coalesce } n (.text "SYSINFO_UPDATED")
  | .heartbeatUpdate body =>
    DeviceServer.park { s with devices := s.devices.update body.id body.coalesce } n (.heartbeatDelete body)
  | .heartbeatDelete body =>
    (s.dequeue n body.id).park n (.heartbeatSelect body (s.queue.filter (·.deviceId = body.id)))
  | .heartbeatSelect body orders => s.answer n (.heartbeat (s.heartbeatAnswer body orders))
  | .delete guid =>
    if (s.devices.byGuid guid).isNone then s.answer n (.error 404 "Not found")
    else DeviceServer.answer { s with devices := s.devices.delete guid } n (.result "OK")
  | .disconnectSelect guid connIds => s.selectDevice n guid connIds
  | .disconnectInsert deviceId connId rest => s.insertOrder n deviceId connId rest

def step (s : DeviceServer) : DeviceStep → DeviceServer
  | .request r => { s.receive r with received := Function.update s.received s.arrived (some r) }
  | .advance n =>
    match s.tasks n with
    | none => s
    | some task => s.advance n task
  | .fail n =>
    match s.tasks n with
    | none => s
    | some _ => s.answer n (.error 500 "Internal Server Error")

section Step

variable {s n} {task : DeviceTask} {a : DeviceAnswer}

@[simp] theorem park_tasks : (s.park n task).tasks n = some task := update_self ..

@[simp] theorem answer_tasks : (s.answer n a).tasks n = none := update_self ..

@[simp] theorem answer_answers : (s.answer n a).answers n = some a := update_self ..

theorem step_request (r : DeviceRequest) : (s.step (.request r)).received s.arrived = some r := update_self ..

theorem step_advance (htask : s.tasks n = some task) : s.step (.advance n) = s.advance n task := by
  rw [step, htask]

theorem step_fail (htask : s.tasks n = some task) :
    s.step (.fail n) = s.answer n (.error 500 "Internal Server Error") := by
  rw [step, htask]

theorem step_idle (htask : s.tasks n = none) : s.step (.advance n) = s ∧ s.step (.fail n) = s := by
  rw [step, step, htask]
  exact ⟨rfl, rfl⟩

end Step

/-- A request that arrives waits for its first statement or is answered. -/
theorem receive_cases (s : DeviceServer) (r : DeviceRequest) :
    (∃ task, s.receive r = s.arrive.park s.arrived task ∧ task.First) ∨
      ∃ a, s.receive r = s.arrive.answer s.arrived a := by
  unfold receive
  split
  case h_2 | h_3 | h_4 =>
    split_ifs
    · exact .inr ⟨_, rfl⟩
    · exact .inl ⟨_, rfl, trivial⟩
  case h_6 | h_7 | h_10 => exact .inl ⟨_, rfl, trivial⟩
  all_goals exact .inr ⟨_, rfl⟩

/-- A request that arrives does not wait for a later statement. -/
theorem first_of_receive {s : DeviceServer} {r : DeviceRequest} {task : DeviceTask}
    (hparked : (s.receive r).tasks s.arrived = some task) : task.First := by
  rcases s.receive_cases r with ⟨task', heq, hfirst⟩ | ⟨a, heq⟩
  · rw [heq] at hparked
    exact Option.some.inj (park_tasks.symm.trans hparked) ▸ hfirst
  · rw [heq] at hparked
    exact nomatch answer_tasks.symm.trans hparked

/-- What the statement of a task writes. -/
inductive Writes (s : DeviceServer) (n : ℕ) : DeviceTask → DeviceServer → Prop
  | devices (task : DeviceTask) (devices : DeviceTable) (deployed : List (ℕ × String)) (h : s.devices.Evolves devices)
    (hids : s.devices.KeepsIds devices ∨ ∃ guid, task = .delete guid ∧ devices = s.devices.delete guid) :
    Writes s n task { s with devices, deployed }
  | enqueue (deviceId : String) (connId : ℚ) (rest : List ℚ) (number : Int) :
    Writes s n (.disconnectInsert deviceId connId rest) (s.enqueue n deviceId number)
  | dequeue (body : HeartbeatBody) : Writes s n (.heartbeatDelete body) (s.dequeue n body.id)

section Writes

variable (s : DeviceServer) (n : ℕ) (task : DeviceTask)

theorem Writes.none : s.Writes n task s :=
  .devices task s.devices s.deployed (.refl s.devices) (.inl (.refl s.devices))

theorem Writes.update (id : String) (f : DeviceColumns → DeviceColumns) :
    s.Writes n task { s with devices := s.devices.update id f } :=
  .devices task _ s.deployed (DeviceTable.evolves_update s.devices id f)
    (.inl (DeviceTable.keepsIds_update s.devices id f))

theorem Writes.upsert (id : String) (columns : DeviceColumns)
    (f : DeviceColumns → DeviceColumns) (deployed : List (ℕ × String)) :
    s.Writes n task { s with devices := s.devices.upsert id columns f, deployed } :=
  .devices task _ deployed (DeviceTable.evolves_upsert s.devices id columns f)
    (.inl (DeviceTable.keepsIds_upsert s.devices id columns f))

end Writes

/-- The statements that follow one another. -/
inductive Follows (s : DeviceServer) : DeviceTask → DeviceTask → Prop
  | deployUpsert (id : String) (uuid pk : Text) : Follows s (.deployCheck id uuid pk) (.deployUpsert id uuid pk)
  | sysinfoInsert (body : SysinfoBody) : Follows s (.sysinfoSelect body) (.sysinfoInsert body)
  | sysinfoUpdate (body : SysinfoBody) : Follows s (.sysinfoSelect body) (.sysinfoUpdate body)
  | heartbeatDelete (body : HeartbeatBody) : Follows s (.heartbeatUpdate body) (.heartbeatDelete body)
  | heartbeatSelect (body : HeartbeatBody) :
    Follows s (.heartbeatDelete body) (.heartbeatSelect body (s.queue.filter (·.deviceId = body.id)))
  | disconnectFirst {guid : ℕ} {row : DeviceRow} (hrow : s.devices.byGuid guid = some row) (connId : ℚ)
    (rest : List ℚ) : Follows s (.disconnectSelect guid (connId :: rest)) (.disconnectInsert row.id connId rest)
  | disconnectNext (deviceId : String) (connId connId' : ℚ) (rest : List ℚ) :
    Follows s (.disconnectInsert deviceId connId (connId' :: rest)) (.disconnectInsert deviceId connId' rest)

/-- A statement writes, and then its request waits for the next one or is answered. -/
theorem advance_writes (s : DeviceServer) (n : ℕ) (task : DeviceTask) : ∃ s', s.Writes n task s' ∧
      ((∃ next, s.advance n task = s'.park n next ∧ s.Follows task next) ∨ ∃ a, s.advance n task = s'.answer n a) := by
  cases task with
  | deployCheck id uuid pk =>
    rw [advance]
    split_ifs
    · exact ⟨s, .none s n _, .inr ⟨_, rfl⟩⟩
    · exact ⟨s, .none s n _, .inl ⟨_, rfl, .deployUpsert id uuid pk⟩⟩
  | deployUpsert id uuid pk => exact ⟨_, .upsert s n _ id _ _ _, .inr ⟨_, rfl⟩⟩
  | cliUpsert id uuid pk note => exact ⟨_, .upsert s n _ id _ _ _, .inr ⟨_, rfl⟩⟩
  | sysinfoSelect body =>
    rw [advance]
    split_ifs
    · exact ⟨s, .none s n _, .inl ⟨_, rfl, .sysinfoInsert body⟩⟩
    · exact ⟨s, .none s n _, .inl ⟨_, rfl, .sysinfoUpdate body⟩⟩
  | sysinfoInsert body =>
    rw [advance]
    cases hinsert : s.devices.insert body.id body.columns with
    | none => exact ⟨s, .none s n _, .inr ⟨_, rfl⟩⟩
    | some devices =>
      have hwrites : s.Writes n (.sysinfoInsert body) { s with devices } :=
        .devices _ devices s.deployed (DeviceTable.evolves_insert hinsert) (.inl (DeviceTable.keepsIds_insert hinsert))
      exact ⟨_, hwrites, .inr ⟨_, rfl⟩⟩
  | sysinfoUpdate body => exact ⟨_, .update s n _ body.id body.coalesce, .inr ⟨_, rfl⟩⟩
  | heartbeatUpdate body => exact ⟨_, .update s n _ body.id body.coalesce, .inl ⟨_, rfl, .heartbeatDelete body⟩⟩
  | heartbeatDelete body => exact ⟨_, .dequeue body, .inl ⟨_, rfl, .heartbeatSelect body⟩⟩
  | heartbeatSelect body orders => exact ⟨s, .none s n _, .inr ⟨_, rfl⟩⟩
  | delete guid =>
    rw [advance]
    split_ifs
    · exact ⟨s, .none s n _, .inr ⟨_, rfl⟩⟩
    · exact ⟨_, .devices _ _ _ (DeviceTable.evolves_delete ..) (.inr ⟨guid, rfl, rfl⟩), .inr ⟨_, rfl⟩⟩
  | disconnectSelect guid connIds =>
    rw [advance]
    unfold selectDevice
    split
    next row connId rest hrow => exact ⟨s, .none s n _, .inl ⟨_, rfl, .disconnectFirst hrow connId rest⟩⟩
    · exact ⟨s, .none s n _, .inr ⟨_, rfl⟩⟩
  | disconnectInsert deviceId connId rest =>
    rw [advance]
    unfold insertOrder
    split
    · exact ⟨s, .none s n _, .inr ⟨_, rfl⟩⟩
    · exact ⟨_, .enqueue deviceId connId _ _, .inr ⟨_, rfl⟩⟩
    next connId' rest hnumber =>
      exact ⟨_, .enqueue deviceId connId _ _, .inl ⟨_, rfl, .disconnectNext deviceId connId connId' rest⟩⟩

/-- The rule for a property of the state that a step leads to: a step without a task changes nothing. -/
theorem step_rule {s : DeviceServer} {e : DeviceStep} {P : DeviceServer → Prop} (hidle : P s)
    (hrequest : ∀ r, e = .request r → P (s.step (.request r)))
    (hadvance : ∀ n task, e = .advance n → s.tasks n = some task → P (s.advance n task))
    (hfail : ∀ n task, e = .fail n → s.tasks n = some task → P (s.answer n (.error 500 "Internal Server Error"))) :
    P (s.step e) := by
  cases e with
  | request r => exact hrequest r rfl
  | advance n =>
    cases htask : s.tasks n with
    | none => rwa [(step_idle htask).1]
    | some task =>
      rw [step_advance htask]
      exact hadvance n task rfl htask
  | fail n =>
    cases htask : s.tasks n with
    | none => rwa [(step_idle htask).2]
    | some task =>
      rw [step_fail htask]
      exact hfail n task rfl htask

/-- The states differ in nothing but requests, tasks and answers. -/
structure SameTables (s s' : DeviceServer) : Prop where
  devices : s'.devices = s.devices
  queue : s'.queue = s.queue
  nextSerial : s'.nextSerial = s.nextSerial
  ordered : s'.ordered = s.ordered
  taken : s'.taken = s.taken

/-- What a step does to the tables: nothing, or what the statement of a task writes. -/
theorem step_tables (s : DeviceServer) (e : DeviceStep) :
    ∃ s', s'.SameTables (s.step e) ∧ (s' = s ∨ ∃ n task, e = .advance n ∧ s.tasks n = some task ∧ s.Writes n task s') := by
  refine step_rule (P := fun t => ∃ s', s'.SameTables t ∧
    (s' = s ∨ ∃ n task, e = .advance n ∧ s.tasks n = some task ∧ s.Writes n task s')) ?_ ?_ ?_ ?_
  · exact ⟨s, ⟨rfl, rfl, rfl, rfl, rfl⟩, .inl rfl⟩
  · intro r _
    rcases s.receive_cases r with ⟨task, heq, -⟩ | ⟨a, heq⟩
    · exact ⟨s, by rw [step, heq]; exact ⟨rfl, rfl, rfl, rfl, rfl⟩, .inl rfl⟩
    · exact ⟨s, by rw [step, heq]; exact ⟨rfl, rfl, rfl, rfl, rfl⟩, .inl rfl⟩
  · intro n task he htask
    obtain ⟨s', hwrites, ⟨next, heq, -⟩ | ⟨a, heq⟩⟩ := s.advance_writes n task
    · exact ⟨s', heq ▸ ⟨rfl, rfl, rfl, rfl, rfl⟩, .inr ⟨n, task, he, htask, hwrites⟩⟩
    · exact ⟨s', heq ▸ ⟨rfl, rfl, rfl, rfl, rfl⟩, .inr ⟨n, task, he, htask, hwrites⟩⟩
  · exact fun n task _ _ => ⟨s, ⟨rfl, rfl, rfl, rfl, rfl⟩, .inl rfl⟩

/-- The statement that a request waits for follows the one that ran. -/
theorem advance_follows {s : DeviceServer} {n : ℕ} {task next : DeviceTask}
    (h : (s.advance n task).tasks n = some next) : s.Follows task next := by
  obtain ⟨s', -, ⟨next', heq, hfollows⟩ | ⟨a, heq⟩⟩ := s.advance_writes n task
  · rw [heq] at h
    exact some.inj (park_tasks.symm.trans h) ▸ hfollows
  · rw [heq] at h
    exact nomatch answer_tasks.symm.trans h

theorem Writes.requests {s s' : DeviceServer} {n : ℕ} (h : s.Writes n task s') :
    s'.received = s.received ∧ s'.arrived = s.arrived := by
  cases h with
  | devices => exact ⟨rfl, rfl⟩
  | enqueue => exact ⟨rfl, rfl⟩
  | dequeue => exact ⟨rfl, rfl⟩

section

variable (s : DeviceServer)

theorem advance_requests (n : ℕ) (task : DeviceTask) :
    (s.advance n task).received = s.received ∧ (s.advance n task).arrived = s.arrived := by
  obtain ⟨s', hwrites, ⟨next, heq, -⟩ | ⟨a, heq⟩⟩ := s.advance_writes n task
  · rw [heq]
    exact hwrites.requests
  · rw [heq]
    exact hwrites.requests

/-- A statement leaves the other requests alone. -/
theorem advance_of_ne {n m : ℕ} (hne : m ≠ n) (task : DeviceTask) :
    (s.advance n task).tasks m = s.tasks m ∧ (s.advance n task).answers m = s.answers m := by
  obtain ⟨s', hwrites, heq⟩ := s.advance_writes n task
  have hsame : s'.tasks = s.tasks ∧ s'.answers = s.answers := by
    cases hwrites with
    | devices => exact ⟨rfl, rfl⟩
    | enqueue => exact ⟨rfl, rfl⟩
    | dequeue => exact ⟨rfl, rfl⟩
  rw [← hsame.1, ← hsame.2]
  rcases heq with ⟨next, heq, -⟩ | ⟨a, heq⟩
  · rw [heq]
    exact ⟨update_of_ne hne .., rfl⟩
  · rw [heq]
    exact ⟨update_of_ne hne .., update_of_ne hne ..⟩

/-- A device stays until its row is deleted. -/
theorem advance_byId (n : ℕ) {id : String}
    (hspared : ∀ guid, task = .delete guid → ∀ row ∈ s.devices.byId id, row.guid ≠ guid)
    (hid : (s.devices.byId id).isSome = true) : ((s.advance n task).devices.byId id).isSome = true := by
  obtain ⟨s', hwrites, heq⟩ := s.advance_writes n task
  have hsame : (s.advance n task).devices = s'.devices := by
    rcases heq with ⟨next, heq, -⟩ | ⟨a, heq⟩ <;> rw [heq] <;> rfl
  rw [hsame]
  cases hwrites with
  | devices _ devices deployed _ hids =>
    rcases hids with hkeeps | ⟨guid, rfl, rfl⟩
    · exact hkeeps.byId hid
    · obtain ⟨row, hrow⟩ := isSome_iff_exists.mp hid
      exact DeviceTable.byId_delete hrow (hspared guid rfl row hrow)
  | enqueue => exact hid
  | dequeue => exact hid

/-- A request stays what it was. -/
theorem step_received (e : DeviceStep) {m : ℕ} (hm : m ≠ s.arrived) : (s.step e).received m = s.received m := by
  refine step_rule (P := fun s' => s'.received m = s.received m) rfl ?_ ?_ fun _ _ _ _ => rfl
  · exact fun r _ => update_of_ne hm ..
  · exact fun n task _ _ => congrFun (s.advance_requests n task).1 m

/-- A request that waits or was answered has arrived, and does not do both. -/
structure Waits (s : DeviceServer) : Prop where
  task : ∀ n task, s.tasks n = some task → n < s.arrived ∧ s.answers n = none
  answer : ∀ n a, s.answers n = some a → n < s.arrived

/-- A request that arrives leaves the others alone. -/
theorem receive_of_ne {m : ℕ} (hne : m ≠ s.arrived) (r : DeviceRequest) :
    (s.receive r).tasks m = s.tasks m ∧ (s.receive r).answers m = s.answers m := by
  rcases s.receive_cases r with ⟨task, heq, -⟩ | ⟨a, heq⟩
  · rw [heq]
    exact ⟨update_of_ne hne .., rfl⟩
  · rw [heq]
    exact ⟨update_of_ne hne .., update_of_ne hne ..⟩

theorem receive_arrived (r : DeviceRequest) :
    (s.receive r).arrived = s.arrived + 1 ∧ (s.receive r).devices = s.devices := by
  rcases s.receive_cases r with ⟨task, heq, -⟩ | ⟨a, heq⟩
  · rw [heq]
    exact ⟨rfl, rfl⟩
  · rw [heq]
    exact ⟨rfl, rfl⟩

end

section Waiting

variable {s : DeviceServer} {n : ℕ}

section

variable (h : s.Waits)
include h

theorem Waits.fresh : s.tasks s.arrived = none ∧ s.answers s.arrived = none := by
  constructor
  · by_contra hsome
    obtain ⟨task, htask⟩ := ne_none_iff_exists'.mp hsome
    exact absurd (h.task s.arrived task htask).1 (lt_irrefl _)
  · by_contra hsome
    obtain ⟨a, ha⟩ := ne_none_iff_exists'.mp hsome
    exact absurd (h.answer s.arrived a ha) (lt_irrefl _)

theorem Waits.park (hn : n < s.arrived) (hanswer : s.answers n = none) (next : DeviceTask) : (s.park n next).Waits where
  task m task htask := by
    by_cases hne : m = n
    · subst hne
      exact ⟨hn, hanswer⟩
    · exact h.task m task ((update_of_ne hne ..).symm.trans htask)
  answer := h.answer

theorem Waits.answered (hn : n < s.arrived) (a : DeviceAnswer) : (s.answer n a).Waits where
  task m task htask := by
    by_cases hne : m = n
    · subst hne
      exact nomatch answer_tasks.symm.trans htask
    · obtain ⟨hm, hanswer⟩ := h.task m task ((update_of_ne hne ..).symm.trans htask)
      exact ⟨hm, (update_of_ne hne ..).trans hanswer⟩
  answer m a' ha := by
    by_cases hne : m = n
    · subst hne
      exact hn
    · exact h.answer m a' ((update_of_ne hne ..).symm.trans ha)

theorem Waits.writes {s' : DeviceServer} (hwrites : s.Writes n task s') : s'.Waits := by
  cases hwrites with
  | devices => exact ⟨h.task, h.answer⟩
  | enqueue => exact ⟨h.task, h.answer⟩
  | dequeue => exact ⟨h.task, h.answer⟩

theorem Waits.advance (htask : s.tasks n = some task) : (s.advance n task).Waits := by
  obtain ⟨hn, hanswer⟩ := h.task n task htask
  obtain ⟨s', hwrites, heq⟩ := s.advance_writes n task
  have hn' : n < s'.arrived := hwrites.requests.2.symm ▸ hn
  have hanswer' : s'.answers n = none := by cases hwrites <;> exact hanswer
  rcases heq with ⟨next, heq, -⟩ | ⟨a, heq⟩
  · rw [heq]
    exact (h.writes hwrites).park hn' hanswer' next
  · rw [heq]
    exact (h.writes hwrites).answered hn' a

theorem Waits.step (e : DeviceStep) : (s.step e).Waits := by
  refine step_rule h (fun r _ => ?_) (fun n task _ htask => h.advance htask)
    fun n task _ htask => h.answered (h.task n task htask).1 _
  have harrive : s.arrive.Waits :=
    { task := fun m task htask => ⟨lt_succ_of_lt (h.task m task htask).1, (h.task m task htask).2⟩
      answer := fun m a ha => lt_succ_of_lt (h.answer m a ha) }
  have hn : s.arrived < s.arrive.arrived := lt_succ_self _
  have hreceive : (s.receive r).Waits := by
    rcases s.receive_cases r with ⟨task, heq, -⟩ | ⟨a, heq⟩
    · rw [heq]
      exact harrive.park hn h.fresh.2 task
    · rw [heq]
      exact harrive.answered hn a
  exact ⟨hreceive.task, hreceive.answer⟩

end

end Waiting

end DeviceServer

end UnyDesk.Api
