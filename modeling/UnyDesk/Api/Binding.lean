import UnyDesk.Api.Devices

/-!
# The uuid of a device

A deploy checks that the id does not belong to another uuid, in a statement before the one that writes. Sysinfo and
heartbeat requests write the uuid that they carry without a check. An id stays with the uuid that it was bound to where
they carry that uuid or none, where no statement with another uuid comes between the check and the write of a deploy, and
where a deploy that the check is blind to, for an empty uuid or none, has nothing to overwrite.
-/

namespace UnyDesk.Api

open Lib DeviceServer DeviceTable Function Option DeviceTask

/-- The uuid that the request behind a statement carries. -/
def DeviceTask.uuid : DeviceTask → Text
  | .deployCheck _ uuid _ | .deployUpsert _ uuid _ | .cliUpsert _ uuid _ _ => uuid
  | .sysinfoSelect body | .sysinfoInsert body | .sysinfoUpdate body => body.uuid
  | .heartbeatUpdate body | .heartbeatDelete body | .heartbeatSelect body _ => body.uuid
  | .delete _ | .disconnectSelect _ _ | .disconnectInsert _ _ _ => none

/-- The uuid of a deploy that has found the id free for it and is about to write. -/
def DeviceTask.checkedFor (id : String) : DeviceTask → Text
  | .deployUpsert id' uuid _ => if id' = id then uuid else none
  | _ => none

namespace DeviceServer

variable {f : DeviceColumns → DeviceColumns} {columns : DeviceColumns} {task : DeviceTask} {devices' : DeviceTable}
  {offered : Text} {e : DeviceStep}

section

variable (s : DeviceServer)

/-- The uuid that the id is bound to. -/
def boundUuid (id : String) : Text := (s.devices.byId id).bind fun row => row.columns.uuid

/-- The step leaves the uuid and the key of a bound row alone, or its request carries the uuid of the row. -/
def BindingKept (e : DeviceStep) : Prop :=
  ∀ row ∈ s.devices.rows, ∀ u, row.columns.uuid = some u → ∀ row' ∈ (s.step e).devices.rows, row'.guid = row.guid →
    row'.columns.uuid = some u ∧ row'.columns.pk = row.columns.pk ∨
      ∃ n task, e = .advance n ∧ s.tasks n = some task ∧ task.uuid = some u

/-- A deploy is answered that the id is taken, or `OK`. -/
def DeployAnswered : DeviceStep → Prop
  | .advance n => ∀ id uuid pk, s.tasks n = some (.deployCheck id uuid pk) ∨ s.tasks n = some (.deployUpsert id uuid pk) →
      (s.step (.advance n)).tasks n = some (.deployUpsert id uuid pk) ∨
        (s.step (.advance n)).answers n = some (.result "OK") ∨
        (s.step (.advance n)).answers n = some (.result "ID_TAKEN")
  | _ => True

/-- The deploys of one row that were answered `OK` carry one uuid. -/
def DeployedOnce : Prop := ∀ guid u v, (guid, u) ∈ s.deployed → (guid, v) ∈ s.deployed → u = v

/-- The uuid is the one that the id is bound to, if it is bound. -/
def Owned (id : String) (uuid : Text) : Prop := ∀ u ∈ s.boundUuid id, ∀ w ∈ uuid, w = u

/-- No deploy with another uuid has found the id free and is about to write. -/
def Uncontested (id : String) (uuid : Text) : Prop :=
  ∀ w ∈ uuid, ∀ m < s.arrived, ∀ task ∈ s.tasks m, ∀ w' ∈ task.checkedFor id, w' = w ∨ w = "" ∨ w' = ""

/-- What the statement of a request finds. -/
def RightfulTask : DeviceTask → Prop
  | .sysinfoUpdate body => s.Owned body.id body.uuid ∧ (s.boundUuid body.id = none → s.Uncontested body.id body.uuid)
  | .heartbeatUpdate body => s.Owned body.id body.uuid ∧ (s.boundUuid body.id = none → s.Uncontested body.id body.uuid)
  | .deployUpsert id uuid pk =>
    (s.boundUuid id ≠ none → pk ≠ none → uuid ≠ none) ∧
      (s.boundUuid id = some "" ∨ uuid = some "" → s.Owned id uuid) ∧ (s.boundUuid id = none → s.Uncontested id uuid)
  | .cliUpsert id uuid _ _ => s.devices.byId id = none → s.Uncontested id uuid
  | .sysinfoInsert body => s.devices.byId body.id = none → s.Uncontested body.id body.uuid
  | _ => True

/-- No statement meets an id that is not its own. -/
def Rightful : DeviceStep → Prop
  | .advance n => ∀ task ∈ s.tasks n, s.RightfulTask task
  | _ => True

end

instance (s : DeviceServer) (id : String) (uuid : Text) : Decidable (s.Owned id uuid) := by
  unfold Owned; infer_instance

instance (s : DeviceServer) (id : String) (uuid : Text) : Decidable (s.Uncontested id uuid) := by
  unfold Uncontested; infer_instance

instance (s : DeviceServer) (task : DeviceTask) : Decidable (s.RightfulTask task) :=
  match task with
  | .deployCheck _ _ _ | .deployUpsert _ _ _ | .cliUpsert _ _ _ _ | .sysinfoSelect _ | .sysinfoInsert _ | .sysinfoUpdate _
  | .heartbeatUpdate _ | .heartbeatDelete _ | .heartbeatSelect _ _ | .delete _ | .disconnectSelect _ _
  | .disconnectInsert _ _ _ => by unfold RightfulTask; infer_instance

instance (s : DeviceServer) (e : DeviceStep) : Decidable (s.Rightful e) :=
  match e with
  | .request _ | .advance _ | .fail _ => by unfold Rightful; infer_instance

/-- What a run keeps: a deploy that is about to write finds its id free for it, as far as its check can see, and the
deploys that were answered `OK` have left their uuid in their row. -/
structure Bound (s : DeviceServer) : Prop where
  arrived : ∀ n task, s.tasks n = some task → n < s.arrived
  checked : ∀ n id w pk, s.tasks n = some (.deployUpsert id (some w) pk) →
    ∀ row ∈ s.devices.rows, row.id = id → ∀ u, row.columns.uuid = some u → u = w ∨ u = "" ∨ w = ""
  deployed : ∀ guid u, (guid, u) ∈ s.deployed →
    guid < s.devices.nextGuid ∧ ∀ row ∈ s.devices.rows, row.guid = guid → row.columns.uuid = some u
  once : s.DeployedOnce

/-- Where a row comes from behind a statement that offers a uuid for an id. -/
inductive RowFrom (devices : DeviceTable) (id : String) (offered : Text) (row : DeviceRow) : Prop
  | old (hrow : row ∈ devices.rows)
  | inserted (hfree : devices.byId id = none) (hguid : row.guid = devices.nextGuid) (hid : row.id = id)
      (huuid : row.columns.uuid = offered)
  | changed (before : DeviceRow) (hbefore : before ∈ devices.rows) (hguid : row.guid = before.guid)
      (hid : row.id = id) (hsame : before.id = id)
      (huuid : row.columns.uuid = offered.or before.columns.uuid ∨ row.columns.uuid = before.columns.uuid)

/-- What a statement that offers a uuid does to the table. -/
structure Offers (devices devices' : DeviceTable) (id : String) (offered : Text) : Prop where
  nextGuid : devices.nextGuid ≤ devices'.nextGuid
  rows : ∀ row ∈ devices'.rows, RowFrom devices id offered row
  fresh : devices.byId id = none → (∃ row ∈ devices'.rows, row.guid = devices.nextGuid) →
    devices.nextGuid < devices'.nextGuid

section Statements

variable {devices : DeviceTable} {id : String}

theorem offers_update
    (hf : ∀ c, (f c).uuid = offered.or c.uuid ∨ (f c).uuid = c.uuid) : Offers devices (devices.update id f) id offered where
  nextGuid := Nat.le_refl _
  rows row hrow := by
    rcases mem_update.mp hrow with ⟨hold, -⟩ | ⟨before, hbefore, hid, rfl⟩
    · exact .old hold
    · exact .changed before hbefore rfl hid hid (hf before.columns)
  fresh _ := by
    rintro ⟨row, hrow, hguid⟩
    exact absurd hguid (Nat.ne_of_lt ((devices.update id f).fresh row hrow))

theorem offers_insert (h : devices.insert id columns = some devices') : Offers devices devices' id columns.uuid := by
  have hnext : devices'.nextGuid = devices.nextGuid + 1 := by
    unfold DeviceTable.insert at h
    split at h
    · cases h
    · rw [← some.inj h]
  have hfree := DeviceTable.byId_of_insert h
  refine ⟨by omega, fun row hrow => ?_, fun _ _ => by omega⟩
  rcases (DeviceTable.mem_insert h).mp hrow with rfl | hold
  · exact .inserted hfree rfl rfl rfl
  · exact .old hold

theorem offers_upsert (hf : ∀ c, (f c).uuid = columns.uuid.or c.uuid ∨ (f c).uuid = c.uuid) :
    Offers devices (devices.upsert id columns f) id columns.uuid := by
  rcases upsert_spec devices id columns f with ⟨-, hinsert⟩ | ⟨row, -, hupdate⟩
  · exact offers_insert hinsert
  · rw [hupdate]
    exact offers_update hf

end Statements

section Steps

variable {s : DeviceServer} {n : ℕ} {id : String} {row : DeviceRow} {uuid pk : Text} {devices : DeviceTable}

theorem boundUuid_of_mem (hrow : row ∈ s.devices.rows) : s.boundUuid row.id = row.columns.uuid := by
  rw [boundUuid, byId_eq_some hrow]
  rfl

section

variable (h : s.Bound)
include h

namespace Bound

/-- The rule for a statement that writes: what it offers is owned by the id, and nobody else is about to bind it. -/
theorem write (hoffers : Offers s.devices devices' id offered) (howned : s.Owned id offered)
    (huncontested : s.boundUuid id = none → s.Uncontested id offered) : Bound { s with devices := devices' } := by
  -- A row with a uuid had it before, or it is the offered one and the id was free.
  have hfrom : ∀ row ∈ devices'.rows, ∀ u, row.columns.uuid = some u →
      (∃ before ∈ s.devices.rows, before.guid = row.guid ∧ before.id = row.id ∧ before.columns.uuid = some u) ∨
        row.id = id ∧ offered = some u ∧ s.boundUuid id = none := by
    intro row hrow u hu
    cases hoffers.rows row hrow with
    | old hold => exact .inl ⟨row, hold, rfl, rfl, hu⟩
    | inserted hfree hguid hid huuid => exact .inr ⟨hid, huuid.symm.trans hu, by rw [boundUuid, hfree]; rfl⟩
    | changed before hbefore hguid hid hsame huuid =>
      have hbound := boundUuid_of_mem hbefore
      rw [hsame] at hbound
      rcases huuid with huuid | huuid
      · cases hold : before.columns.uuid with
        | none =>
          rw [hold, or_none, hu] at huuid
          exact .inr ⟨hid, huuid.symm, hbound.trans hold⟩
        | some v =>
          refine .inl ⟨before, hbefore, hguid.symm, hsame.trans hid.symm, ?_⟩
          cases hoffered : offered with
          | none =>
            rw [hoffered, none_or] at huuid
            exact huuid.symm.trans hu
          | some w =>
            have hwv : w = v := howned v (hbound.trans hold) w hoffered
            rw [hu, hoffered, some_or] at huuid
            rw [huuid, hwv]
            exact hold
      · exact .inl ⟨before, hbefore, hguid.symm, hsame.trans hid.symm, huuid.symm.trans hu⟩
  refine ⟨h.arrived, ?_, ?_, h.once⟩
  · intro m id' w pk htask row hrow hid u hu
    rcases hfrom row hrow u hu with ⟨before, hbefore, -, hsame, hold⟩ | ⟨hsame, hoffered, hfree⟩
    · exact h.checked m id' w pk htask before hbefore (hsame.trans hid) u hold
    · have hwaits : w ∈ (deployUpsert id' (some w) pk).checkedFor id := by
        rw [checkedFor, if_pos (hid.symm.trans hsame)]
        rfl
      rcases huncontested hfree u hoffered m (h.arrived m _ htask) _ htask w hwaits with heq | hempty | hempty
      · exact .inl heq.symm
      · exact .inr (.inl hempty)
      · exact .inr (.inr hempty)
  · intro guid u hdeployed
    obtain ⟨hguid, hrows⟩ := h.deployed guid u hdeployed
    refine ⟨Nat.lt_of_lt_of_le hguid hoffers.nextGuid, fun row hrow hrowGuid => ?_⟩
    cases hoffers.rows row hrow with
    | old hold => exact hrows row hold hrowGuid
    | inserted hfree hnew hid huuid => exact absurd (hrowGuid.symm.trans hnew) (Nat.ne_of_lt hguid)
    | changed before hbefore hsame hid hbeforeId huuid =>
      have hold := hrows before hbefore (hsame.symm.trans hrowGuid)
      have hbound := boundUuid_of_mem hbefore
      rw [hbeforeId] at hbound
      rcases huuid with huuid | huuid
      · cases hoffered : offered with
        | none => rw [huuid, hoffered, none_or, hold]
        | some w =>
          have hwu : w = u := howned u (hbound.trans hold) w hoffered
          rw [huuid, hoffered, some_or, hwu]
      · exact huuid.trans hold

/-- The rule for a request that goes on or ends. -/
theorem setTask {next : Option DeviceTask} {answers : ℕ → Option DeviceAnswer} (hn : n < s.arrived)
    (hnext : ∀ id w pk, next = some (.deployUpsert id (some w) pk) →
      ∀ row ∈ s.devices.rows, row.id = id → ∀ u, row.columns.uuid = some u → u = w ∨ u = "" ∨ w = "") :
    Bound { s with tasks := Function.update s.tasks n next, answers } where
  arrived m task htask := by
    by_cases hmn : m = n
    · exact hmn ▸ hn
    · exact h.arrived m task ((update_of_ne hmn ..).symm.trans htask)
  checked m id w pk htask := by
    by_cases hmn : m = n
    · subst hmn
      exact hnext id w pk ((update_self (f := s.tasks) ..).symm.trans htask)
    · exact h.checked m id w pk ((update_of_ne hmn ..).symm.trans htask)
  deployed := h.deployed
  once := h.once

theorem park (hn : n < s.arrived) (hother : ∀ id w pk, task ≠ .deployUpsert id (some w) pk) : (s.park n task).Bound :=
  h.setTask hn fun id w pk heq => absurd (some.inj heq) (hother id w pk)

theorem answer (hn : n < s.arrived) (a : DeviceAnswer) : (s.answer n a).Bound :=
  h.setTask hn fun _ _ _ heq => nomatch heq

theorem arrive : s.arrive.Bound :=
  { h with arrived := fun m task htask => Nat.lt_succ_of_lt (h.arrived m task htask) }

/-- The rule for the record of a deploy: its row has its uuid. -/
theorem record (hrow : row ∈ s.devices.rows) {u : String}
    (hu : row.columns.uuid = some u) : Bound { s with deployed := (row.guid, u) :: s.deployed } where
  arrived := h.arrived
  checked := h.checked
  deployed guid v hmem := by
    rcases List.mem_cons.mp hmem with heq | hold
    · obtain ⟨rfl, rfl⟩ := Prod.mk.inj heq
      refine ⟨s.devices.fresh row hrow, fun row' hrow' hguid => ?_⟩
      rw [eq_of_guid hrow' hrow hguid, hu]
    · exact h.deployed guid v hold
  once guid v w hv hw := by
    have hsame (w : String) (hw : (row.guid, w) ∈ s.deployed) : w = u :=
      some.inj (((h.deployed row.guid w hw).2 row hrow rfl).symm.trans hu)
    rcases List.mem_cons.mp hv with heqv | holdv
    · obtain ⟨rfl, rfl⟩ := Prod.mk.inj heqv
      rcases List.mem_cons.mp hw with heqw | holdw
      · exact (Prod.mk.inj heqw).2.symm
      · exact (hsame w holdw).symm
    · rcases List.mem_cons.mp hw with heqw | holdw
      · obtain ⟨rfl, rfl⟩ := Prod.mk.inj heqw
        exact hsame v holdv
      · exact h.once guid v w holdv holdw

theorem answerDeploy (hn : n < s.arrived) {uuid : Text}
    (hwritten : ∀ row, s.devices.byId id = some row → ∀ u ∈ uuid, row.columns.uuid = some u) :
    (s.answerDeploy n id uuid).Bound := by
  let record := (s.devices.byId id).bind fun row => uuid.map (row.guid, ·)
  refine answer (s := { s with deployed := record.toList ++ s.deployed }) ?_ hn _
  unfold record
  cases hrow : s.devices.byId id with
  | none => exact h
  | some row =>
    cases uuid with
    | none => exact h
    | some u => exact h.record (mem_of_byId hrow).1 (hwritten row hrow u rfl)

end Bound

end

theorem upsert_uuid (hf : ∀ c, (f c).uuid = columns.uuid.or c.uuid)
    (hrow : (devices.upsert id columns f).byId id = some row) {u : String} (hu : columns.uuid = some u) :
    row.columns.uuid = some u := by
  obtain ⟨hmem, hid⟩ := mem_of_byId hrow
  rcases upsert_spec devices id columns f with ⟨hfree, hinsert⟩ | ⟨old, -, hupdate⟩
  · rcases (mem_insert hinsert).mp hmem with rfl | hold
    · exact hu
    · exact absurd hid (ne_of_byId_eq_none hfree hold)
  · rw [hupdate] at hmem
    rcases mem_update.mp hmem with ⟨-, hne⟩ | ⟨before, -, -, rfl⟩
    · exact absurd hid hne
    · rw [hf, hu, some_or]

section Bound

variable (h : s.Bound)
include h

section RightfulTask

variable (htask : s.tasks n = some (.deployUpsert id uuid pk)) (hright : s.RightfulTask (.deployUpsert id uuid pk))
include htask hright

/-- What a deploy is about to write is still free for it. -/
theorem Bound.owned : s.Owned id uuid := by
  obtain ⟨-, hblind, -⟩ := hright
  rintro u hu w ⟨⟩
  rw [boundUuid, mem_def, bind_eq_some_iff] at hu
  obtain ⟨row, hrow, hu⟩ := hu
  have hbound : s.boundUuid id = some u := by rw [boundUuid, hrow, bind_some, hu]
  obtain ⟨hmem, hid⟩ := mem_of_byId hrow
  rcases h.checked n id w pk htask row hmem hid u hu with rfl | rfl | rfl
  · rfl
  · exact hblind (.inl hbound) "" hbound w rfl
  · exact hblind (.inr rfl) u hbound "" rfl

/-- A deploy that finds its id free for it leaves its uuid in the row. -/
theorem Bound.deploy : (s.advance n (.deployUpsert id uuid pk)).Bound := by
  have hoffers : Offers s.devices (s.devices.upsert id { uuid, pk } fun c =>
      { c with uuid := uuid.or c.uuid, pk := pk.or c.pk }) id uuid := offers_upsert fun _ => .inl rfl
  have hwrite := h.write hoffers (h.owned htask hright) hright.2.2
  exact hwrite.answerDeploy (h.arrived n _ htask) fun row hrow u hu => upsert_uuid (fun _ => rfl) hrow hu

end RightfulTask

namespace Bound

theorem deployCheck
    (htask : s.tasks n = some (.deployCheck id uuid pk)) : (s.advance n (.deployCheck id uuid pk)).Bound := by
  have hn := h.arrived n _ htask
  rw [advance]
  split_ifs with htaken
  · exact h.answer hn _
  · refine h.setTask hn ?_
    rintro id' w pk' heq row hrow rfl u hu
    obtain ⟨rfl, rfl, -⟩ := deployUpsert.inj (some.inj heq)
    rw [byId_eq_some hrow, map_some, getD_some, hu] at htaken
    by_contra hne
    apply htaken
    rw [not_or, not_or] at hne
    simp [idTaken, hne]

/-- The rules for the statements on the queue. -/
theorem enqueue (deviceId : String) (connId : Int) : (s.enqueue n deviceId connId).Bound :=
  { h with }

theorem dequeue (deviceId : String) : (s.dequeue n deviceId).Bound :=
  { h with }

/-- The rule for a statement that offers a uuid to a new row only. -/
theorem insert (hinsert : s.devices.insert id columns = some devices)
    (huncontested : s.devices.byId id = none → s.Uncontested id columns.uuid) : Bound { s with devices } := by
  have hfree := byId_of_insert hinsert
  refine h.write (offers_insert hinsert) (fun u hu => ?_) fun _ => huncontested hfree
  rw [boundUuid, hfree] at hu
  exact nomatch hu

theorem register (columns : DeviceColumns)
    (hf : ∀ c, (f c).uuid = c.uuid) (huncontested : s.devices.byId id = none → s.Uncontested id columns.uuid) :
    Bound { s with devices := s.devices.upsert id columns f } := by
  rcases upsert_spec s.devices id columns f with ⟨hfree, hinsert⟩ | ⟨row, -, hupdate⟩
  · exact h.insert hinsert huncontested
  · rw [hupdate]
    have hoffers : Offers s.devices (s.devices.update id f) id none := offers_update fun c => .inr (hf c)
    refine h.write hoffers ?_ ?_
    · exact fun _ _ w hw => nomatch hw
    · exact fun _ w hw => nomatch hw

/-- What a statement keeps. -/
theorem advance (htask : s.tasks n = some task) (hright : s.RightfulTask task) : (s.advance n task).Bound := by
  have hn := h.arrived n task htask
  cases task with
  | deployCheck id uuid pk => exact h.deployCheck htask
  | deployUpsert id uuid pk => exact h.deploy htask hright
  | cliUpsert id uuid pk note =>
    have hwrite := h.register { uuid, pk, info := { note } }
      (f := fun c => { c with info := { c.info with note := note.or c.info.note } }) (fun _ => rfl) hright
    exact hwrite.answer hn _
  | sysinfoSelect body =>
    rw [advance]
    split_ifs
    · exact h.park hn fun _ _ _ heq => by cases heq
    · exact h.park hn fun _ _ _ heq => by cases heq
  | sysinfoInsert body =>
    rw [advance]
    cases hinsert : s.devices.insert body.id body.columns with
    | none => exact h.answer hn _
    | some devices => exact (h.insert hinsert hright).answer hn _
  | sysinfoUpdate body =>
    exact (h.write (offers_update (f := body.coalesce) fun _ => .inl rfl) hright.1 hright.2).answer hn _
  | heartbeatUpdate body =>
    have hwrite := h.write (offers_update (f := body.coalesce) fun _ => .inl rfl) hright.1 hright.2
    exact hwrite.park hn fun _ _ _ heq => by cases heq
  | heartbeatDelete body =>
    exact (h.dequeue body.id).park hn fun _ _ _ heq => by cases heq
  | heartbeatSelect body orders => exact h.answer hn _
  | delete guid =>
    rw [advance]
    split_ifs
    · exact h.answer hn _
    · have hdelete : Bound { s with devices := s.devices.delete guid } := by
        refine ⟨h.arrived, ?_, ?_, h.once⟩
        · exact fun m id w pk htask row hrow => h.checked m id w pk htask row (mem_delete.mp hrow).1
        · intro guid u hmem
          obtain ⟨hfresh, hrows⟩ := h.deployed guid u hmem
          exact ⟨hfresh, fun row hrow => hrows row (mem_delete.mp hrow).1⟩
      exact hdelete.answer hn _
  | disconnectSelect guid connIds =>
    rw [advance]
    unfold selectDevice
    split
    · exact h.park hn fun _ _ _ heq => by cases heq
    · exact h.answer hn _
  | disconnectInsert deviceId connId rest =>
    rw [advance]
    unfold insertOrder
    split
    · exact h.answer hn _
    · exact (h.enqueue deviceId _).answer hn _
    · exact (h.enqueue deviceId _).park hn fun _ _ _ heq => by cases heq

theorem receive (r : DeviceRequest) : (s.receive r).Bound := by
  have hn : s.arrived < s.arrive.arrived := Nat.lt_succ_self _
  cases r with
  | deploy body =>
    rcases body with _ | ⟨id, uuid, pk⟩
    · exact h.arrive.answer hn _
    · rw [DeviceServer.receive]
      split_ifs
      · exact h.arrive.answer hn _
      · exact h.arrive.park hn fun _ _ _ heq => nomatch heq
  | cli id uuid pk note =>
    rw [DeviceServer.receive]
    split_ifs
    · exact h.arrive.answer hn _
    · exact h.arrive.park hn fun _ _ _ heq => nomatch heq
  | sysinfo body =>
    rw [DeviceServer.receive]
    split_ifs
    · exact h.arrive.answer hn _
    · exact h.arrive.park hn fun _ _ _ heq => nomatch heq
  | heartbeat body =>
    cases body with
    | none => exact h.arrive.answer hn _
    | some body => exact h.arrive.park hn fun _ _ _ heq => nomatch heq
  | delete guid => exact h.arrive.park hn fun _ _ _ heq => nomatch heq
  | disconnect guid connIds =>
    rcases connIds with _ | _ | ⟨connId, rest⟩
    · exact h.arrive.answer hn _
    · exact h.arrive.answer hn _
    · exact h.arrive.park hn fun _ _ _ heq => nomatch heq

theorem step (hright : s.Rightful e) : (s.step e).Bound := by
  refine step_rule h (fun r _ => { h.receive r with }) ?_ fun n task _ htask => h.answer (h.arrived n task htask) _
  rintro n task rfl htask
  exact h.advance htask (hright task htask)

end Bound

end Bound

end Steps

/-- A statement that offers a uuid leaves the uuid and the key of a bound row alone, or offers the uuid of the row. -/
def Keeps (devices devices' : DeviceTable) (offered : Text) : Prop :=
  ∀ row ∈ devices.rows, ∀ u, row.columns.uuid = some u → ∀ row' ∈ devices'.rows, row'.guid = row.guid →
    row'.columns.uuid = some u ∧ row'.columns.pk = row.columns.pk ∨ offered = some u

section Keeping

variable {s : DeviceServer} {devices devices' : DeviceTable} {id : String} {columns : DeviceColumns}
  {f : DeviceColumns → DeviceColumns} {offered : Text}

theorem keeps_of_subset (h : ∀ row ∈ devices'.rows, row ∈ devices.rows) : Keeps devices devices' offered := by
  intro row hrow u hu row' hrow' hguid
  rw [eq_of_guid (h row' hrow') hrow hguid]
  exact .inl ⟨hu, rfl⟩

theorem keeps_insert (h : devices.insert id columns = some devices') : Keeps devices devices' offered := by
  intro row hrow u hu row' hrow' hguid
  rcases (mem_insert h).mp hrow' with rfl | hold
  · exact absurd hguid.symm (Nat.ne_of_lt (devices.fresh row hrow))
  · rw [eq_of_guid hold hrow hguid]
    exact .inl ⟨hu, rfl⟩

theorem keeps_update (h : ∀ row ∈ devices.rows, row.id = id → ∀ u, row.columns.uuid = some u →
      (f row.columns).uuid = some u ∧ (f row.columns).pk = row.columns.pk ∨ offered = some u) :
    Keeps devices (devices.update id f) offered := by
  intro row hrow u hu row' hrow' hguid
  rcases mem_update.mp hrow' with ⟨hold, -⟩ | ⟨before, hbefore, hid, rfl⟩
  · rw [eq_of_guid hold hrow hguid]
    exact .inl ⟨hu, rfl⟩
  · obtain rfl := eq_of_guid hbefore hrow hguid
    exact h before hbefore hid u hu

theorem keeps_upsert (h : ∀ row ∈ devices.rows, row.id = id → ∀ u, row.columns.uuid = some u →
      (f row.columns).uuid = some u ∧ (f row.columns).pk = row.columns.pk ∨ offered = some u) :
    Keeps devices (devices.upsert id columns f) offered := by
  rcases upsert_spec devices id columns f with ⟨-, hinsert⟩ | ⟨row, -, hupdate⟩
  · exact keeps_insert hinsert
  · rw [hupdate]
    exact keeps_update h

/-- What a statement that offers its own uuid or none does to a bound row. -/
theorem kept_of_owned (howned : s.Owned id offered) (hf : ∀ c, (f c).uuid = offered.or c.uuid)
    (hpk : s.boundUuid id ≠ none → offered = none → ∀ c, (f c).pk = c.pk) :
    ∀ row ∈ s.devices.rows, row.id = id → ∀ u, row.columns.uuid = some u →
      (f row.columns).uuid = some u ∧ (f row.columns).pk = row.columns.pk ∨ offered = some u := by
  rintro row hrow rfl u hu
  have hbound : s.boundUuid row.id = some u := (boundUuid_of_mem hrow).trans hu
  cases hoffered : offered with
  | none =>
    refine .inl ⟨by rw [hf, hoffered, none_or, hu], hpk ?_ hoffered row.columns⟩
    rw [hbound]
    exact some_ne_none u
  | some w => exact .inr (congrArg some (howned u hbound w hoffered))

theorem Bound.keeps (h : s.Bound) {n : ℕ} (htask : s.tasks n = some task)
    (hright : s.RightfulTask task) : Keeps s.devices (s.advance n task).devices task.uuid := by
  have hsame (offered : Text) : Keeps s.devices s.devices offered := keeps_of_subset fun _ hrow => hrow
  cases task with
  | deployCheck id uuid pk =>
    rw [DeviceServer.advance]
    split_ifs
    · exact hsame _
    · exact hsame _
  | deployUpsert id uuid pk =>
    refine keeps_upsert (kept_of_owned (f := fun c => { c with uuid := uuid.or c.uuid, pk := pk.or c.pk })
      (h.owned htask hright) (fun _ => rfl) fun hbound huuid c => ?_)
    have hpk : pk = none := by
      by_contra hpk
      exact hright.1 hbound hpk huuid
    rw [hpk, none_or]
  | cliUpsert id uuid pk note => exact keeps_upsert fun row _ _ u hu => .inl ⟨hu, rfl⟩
  | sysinfoSelect body =>
    rw [DeviceServer.advance]
    split_ifs
    · exact hsame _
    · exact hsame _
  | sysinfoInsert body =>
    rw [DeviceServer.advance]
    cases hinsert : s.devices.insert body.id body.columns with
    | none => exact hsame _
    | some devices => exact keeps_insert hinsert
  | sysinfoUpdate body => exact keeps_update (kept_of_owned hright.1 (fun _ => rfl) fun _ _ _ => rfl)
  | heartbeatUpdate body => exact keeps_update (kept_of_owned hright.1 (fun _ => rfl) fun _ _ _ => rfl)
  | heartbeatDelete body => exact hsame _
  | heartbeatSelect body orders => exact hsame _
  | delete guid =>
    rw [DeviceServer.advance]
    split_ifs
    · exact hsame _
    · exact keeps_of_subset fun row hrow => (DeviceTable.mem_delete.mp hrow).1
  | disconnectSelect guid connIds =>
    rw [DeviceServer.advance]
    unfold selectDevice
    split
    · exact hsame _
    · exact hsame _
  | disconnectInsert deviceId connId rest =>
    rw [DeviceServer.advance]
    unfold insertOrder
    split
    · exact hsame _
    · exact hsame _
    · exact hsame _

theorem Bound.bindingKept (h : s.Bound) (hright : s.Rightful e) : s.BindingKept e := by
  intro row hrow u hu row' hrow' hguid
  -- Only the statement of a request writes.
  have hsame (hrow' : row' ∈ s.devices.rows) : row'.columns.uuid = some u ∧ row'.columns.pk = row.columns.pk := by
    rw [DeviceTable.eq_of_guid hrow' hrow hguid]
    exact ⟨hu, rfl⟩
  revert hrow'
  refine step_rule (P := fun s' => row' ∈ s'.devices.rows → _) (fun hrow' => .inl (hsame hrow')) ?_ ?_
    fun _ _ _ _ hrow' => .inl (hsame hrow')
  · intro r _ hrow'
    rw [DeviceServer.step, (s.receive_arrived r).2] at hrow'
    exact .inl (hsame hrow')
  · rintro n task rfl htask hrow'
    rcases h.keeps htask (hright task htask) row hrow u hu row' hrow' hguid with hkept | hoffered
    · exact .inl hkept
    · exact .inr ⟨n, task, rfl, htask, hoffered⟩

theorem deployAnswered (s : DeviceServer) (e : DeviceStep) : s.DeployAnswered e := by
  cases e with
  | request r => trivial
  | fail n => trivial
  | advance n =>
    rintro id uuid pk (htask | htask)
    · rw [step_advance htask, advance]
      split_ifs
      · exact .inr (.inr (update_self ..))
      · exact .inl (update_self ..)
    · rw [step_advance htask]
      exact .inr (.inl (update_self ..))

end Keeping

/-- An id stays bound to its uuid, and the deploys of a row that are answered `OK` carry one uuid, along every run whose
statements meet no id that is not their own. -/
theorem uuid_bound {steps : List DeviceStep} (h : RunMeets step Rightful {} steps) :
    RunMeets step (fun s e => s.BindingKept e ∧ s.DeployAnswered e) {} steps ∧ (runEvents step {} steps).DeployedOnce := by
  have hempty : Bound {} :=
    { arrived := fun _ _ htask => nomatch htask
      checked := fun _ _ _ _ htask => nomatch htask
      deployed := fun _ _ hmem => nomatch hmem
      once := fun _ _ _ hmem => nomatch hmem }
  have hstep : ∀ s e, Bound s → s.Rightful e → (s.step e).Bound := fun _ _ hbound hright => hbound.step hright
  refine ⟨?_, (runEvents_invariant hstep hempty h).once⟩
  exact runMeets_of_invariant hstep (fun s e hbound hright => ⟨hbound.bindingKept hright, s.deployAnswered e⟩) hempty h

/-- A deploy, and the requests of the device that it has deployed. -/
def sampleBinding : List DeviceStep :=
  [.request (.deploy (some ("id", some "a", some "key"))), .advance 0, .advance 0,
    .request (.sysinfo { id := "id", uuid := some "a" }), .advance 1, .advance 1,
    .request (.deploy (some ("id", some "b", none))), .advance 2]

theorem uuid_bound_sample : RunMeets step (fun s e => s.BindingKept e ∧ s.DeployAnswered e) {} sampleBinding ∧
      (runEvents step {} sampleBinding).DeployedOnce :=
  uuid_bound (by decide)

/-- Two deploys of a fresh id that are checked before either writes are both answered `OK`, and a heartbeat with another
uuid takes an id over. -/
theorem uuid_rebound : ¬ (runEvents step {}
        [.request (.deploy (some ("id", some "a", none))), .request (.deploy (some ("id", some "b", none))),
          .advance 0, .advance 1, .advance 0, .advance 1]).DeployedOnce ∧
      ¬ RunMeets step (fun s e => s.BindingKept e ∧ s.DeployAnswered e) {}
        [.request (.deploy (some ("id", some "a", none))), .advance 0, .advance 0,
          .request (.heartbeat (some { id := "id", uuid := some "b" })), .advance 1] := by
  constructor
  · intro h
    exact absurd (h 0 "a" "b" (by decide) (by decide)) (by decide)
  · rintro ⟨-, -, -, -, ⟨h, -⟩, -⟩
    rcases h ⟨0, "id", { uuid := some "a" }⟩ (by decide) "a" rfl ⟨0, "id", { uuid := some "b" }⟩
      (by decide) rfl with ⟨huuid, -⟩ | ⟨n, task, heq, htask, huuid⟩
    · exact absurd huuid (by decide)
    · obtain rfl := DeviceStep.advance.inj heq
      obtain rfl : DeviceTask.heartbeatUpdate { id := "id", uuid := some "b" } = task := Option.some.inj htask
      exact absurd huuid (by decide)

end DeviceServer

end UnyDesk.Api
