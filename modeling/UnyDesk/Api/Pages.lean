import Mathlib.Data.String.Basic
import Mathlib.Order.WithBot
import UnyDesk.Api.Devices
import UnyDesk.Api.Server
import UnyDesk.Lib.Paging

/-!
# Pages of devices and users

The lists of devices and of users are read in pages. A page is one query, which sorts the rows that the filters let
through and cuts the page out; the database may order rows that the sort key does not tell apart anew for every query.
Users are sorted by their names, which are unique, and their pages share them out. Devices are sorted by the time when
they were last online, and their pages share them out exactly when no page ends inside a group of devices of one time.
-/

namespace UnyDesk.Api

open Lib.Paging List

/-- The columns of `devices` that the list shows besides those of a `DeviceRow`. -/
structure StoredDevice extends DeviceRow where
  groupName : Text := none
  disabled : Bool := false
  /-- In microseconds. -/
  lastOnline : Option ℕ := none

structure StoredDevices where
  rows : List StoredDevice
  ids : (rows.map fun row => row.id).Nodup

/-- The columns of `users` that the list shows besides those of a `UserRow`. -/
structure StoredUser extends UserRow where
  email : Text := none
  displayName : Text := none
  note : Text := none
  createdAt : ℕ := 0

structure StoredUsers where
  rows : List StoredUser
  names : (rows.map fun row => row.name).Nodup

/-- `a || b` -/
def orElse (a b : Text) : Text :=
  match a with
  | none | some "" => b
  | some text => some text

def likeParam (v : Text) : Text :=
  match v with
  | none | some "" | some "-" => none
  | some v => some (if '%' ∈ v.toList then v else "%" ++ v ++ "%")

/-- The numbers of a page in a request; the request carries them as texts. -/
structure PageQuery where
  pageSize : Option ℕ := none
  current : Option ℕ := none

def PageQuery.size (q : PageQuery) : ℕ := min (q.pageSize.getD 30) 200

def PageQuery.offset (q : PageQuery) : ℕ := (max (q.current.getD 1) 1 - 1) * q.size

/-- `LIMIT … OFFSET …` -/
def PageQuery.cut {A : Type} (q : PageQuery) (order : List A) : List A := (order.drop q.offset).take q.size

structure PageResponse (A : Type) where
  data : List A
  total : ℕ

section Devices

structure DeviceFilters where
  id : Text := none
  deviceName : Text := none
  userName : Text := none
  groupName : Text := none
  deviceGroupName : Text := none

structure DeviceView where
  guid : ℕ
  id : String
  uuid : Text
  deviceName : Text
  hostname : Text
  userName : Text
  username : Text
  os : Text
  cpu : Text
  memory : Text
  version : Text
  note : Text
  groupName : Text
  deviceGroupName : Text
  disabled : Bool
  lastOnline : Option ℕ
  online : Bool
  conns : List ℚ

/-- The text of a time counts whole seconds. -/
def mapDevice (onlineThresholdSec nowMs : ℕ) (row : StoredDevice) : DeviceView :=
  let info := row.columns.info
  { guid := row.guid
    id := row.id
    uuid := row.columns.uuid
    deviceName := orElse (orElse info.deviceName info.hostname) (some row.id)
    hostname := info.hostname
    userName := orElse info.userName info.username
    username := info.username
    os := info.os
    cpu := info.cpu
    memory := info.memory
    version := info.version
    note := info.note
    groupName := row.groupName
    deviceGroupName := info.deviceGroupName
    disabled := row.disabled
    lastOnline := row.lastOnline
    online := row.lastOnline.any fun last => nowMs < last / 1000000 * 1000 + onlineThresholdSec * 1000
    conns := row.columns.conns }

section

variable (ilike : String → String → Bool)

/-- `column ILIKE pattern`, where there is a pattern; `ilike` is that of the database. -/
def likes (column pattern : Text) : Bool := pattern.all fun p => column.any (ilike · p)

def DeviceFilters.lets (q : DeviceFilters) (row : StoredDevice) : Bool :=
  let info := row.columns.info
  likes ilike (some row.id) (likeParam q.id) &&
    (likes ilike info.deviceName (likeParam q.deviceName) || likes ilike info.hostname (likeParam q.deviceName)) &&
    likes ilike info.userName (likeParam q.userName) && likes ilike row.groupName (likeParam q.groupName) &&
    likes ilike info.deviceGroupName (likeParam q.deviceGroupName)

def matchingDevices (devices : StoredDevices) (q : DeviceFilters) : List StoredDevice :=
  devices.rows.filter (q.lets ilike)

end

/-- `last_online DESC NULLS LAST` -/
def lastOnlineKey (row : StoredDevice) : WithTop ℕᵒᵈ :=
  match row.lastOnline with
  | some last => ((OrderDual.toDual last : ℕᵒᵈ) : WithTop ℕᵒᵈ)
  | none => ⊤

/-- `GET /api/devices`, where the database orders the rows in this way. -/
def getDevices (ilike : String → String → Bool) (onlineThresholdSec nowMs : ℕ) (devices : StoredDevices)
    (filters : DeviceFilters) (q : PageQuery) (order : List StoredDevice) : PageResponse DeviceView :=
  { data := (q.cut order).map (mapDevice onlineThresholdSec nowMs)
    total := (matchingDevices ilike devices filters).length }

end Devices

section Users

structure UserInfo where
  emailVerification : Bool := false
  emailAlarmNotification : Bool := false

structure UserView where
  guid : ℕ
  name : String
  email : Text
  displayName : Text
  note : Text
  status : Int
  isAdmin : Bool
  createdAt : ℕ
  info : UserInfo := {}

def mapUser (row : StoredUser) : UserView :=
  { guid := row.guid
    name := row.name
    email := row.email
    displayName := row.displayName
    note := row.note
    status := row.status
    isAdmin := row.isAdmin
    createdAt := row.createdAt }

def matchingUsers (ilike : String → String → Bool) (users : StoredUsers) (name : Text) : List StoredUser :=
  users.rows.filter fun row => likes ilike (some row.name) (likeParam name)

/-- `GET /api/users` -/
def getUsers (ilike : String → String → Bool) (users : StoredUsers) (name : Text) (q : PageQuery)
    (order : List StoredUser) : PageResponse UserView :=
  { data := (q.cut order).map mapUser, total := (matchingUsers ilike users name).length }

end Users

/-- What a client reads that asks for one page after the other, up to the total of the first answer. -/
def readPages {B : Type} (respond : ℕ → PageQuery → PageResponse B) (size : ℕ) : List B :=
  (List.range (pageCount (respond 1 { pageSize := some size, current := some 1 }).total size)).flatMap fun k =>
    (respond (k + 1) { pageSize := some size, current := some (k + 1) }).data

section Shared

variable (ilike : String → String → Bool)

/-- Whatever the orders of the queries and the times of the requests are, the pages hold every matching device once. -/
def DevicesShared (onlineThresholdSec : ℕ) (devices : StoredDevices) (filters : DeviceFilters) (size : ℕ) : Prop :=
  ∀ (nowMs : ℕ → ℕ) (orders : ℕ → List StoredDevice),
    (∀ k, Ordered lastOnlineKey (matchingDevices ilike devices filters) (orders k)) →
    ((readPages (fun k q => getDevices ilike onlineThresholdSec (nowMs k) devices filters q (orders k)) size).map
      (·.id)).Perm ((matchingDevices ilike devices filters).map fun row => row.id)

/-- The names are ordered by the keys of a collation. -/
def UsersShared {K : Type} [LinearOrder K] (collate : String → K) (users : StoredUsers) (name : Text) (size : ℕ) :
    Prop :=
  ∀ orders : ℕ → List StoredUser,
    (∀ k, Ordered (fun row => collate row.name) (matchingUsers ilike users name) (orders k)) →
    ((readPages (fun k q => getUsers ilike users name q (orders k)) size).map (·.name)).Perm
      ((matchingUsers ilike users name).map fun row => row.name)

end Shared

/-- The query for a page cuts the page out. -/
theorem cut_eq_page {A : Type} {size : ℕ} (hsize : size ≤ 200) (k : ℕ) (order : List A) :
    PageQuery.cut { pageSize := some size, current := some (k + 1) } order = page size k order := by
  have hlimit : min size 200 = size := Nat.min_eq_left hsize
  simp only [PageQuery.cut, PageQuery.offset, PageQuery.size, Option.getD_some, hlimit, page]
  rw [Nat.max_eq_left (Nat.le_add_left 1 k), Nat.add_sub_cancel]

/-- Answers that show the rows of the pages have the names of the pages. -/
theorem map_readPages {A B C : Type} {respond : ℕ → PageQuery → PageResponse B} {rows : List A} {orders : ℕ → List A}
    {size : ℕ} {nameOf : A → C} {shown : B → C} (htotal : ∀ k q, (respond k q).total = rows.length)
    (hdata : ∀ k, (respond (k + 1) { pageSize := some size, current := some (k + 1) }).data.map shown =
      (page size k (orders (k + 1))).map nameOf) :
    (readPages respond size).map shown = (pages size rows fun k => orders (k + 1)).map nameOf := by
  rw [readPages, pages, htotal, map_flatMap, map_flatMap]
  congr 1
  funext k
  exact hdata k

section Claims

variable {ilike : String → String → Bool} {size : ℕ}

theorem devicesShared_iff (onlineThresholdSec : ℕ) (devices : StoredDevices) (filters : DeviceFilters)
    (hsize : 1 ≤ size ∧ size ≤ 200) : DevicesShared ilike onlineThresholdSec devices filters size ↔
      ∀ k, ∀ row ∈ matchingDevices ilike devices filters,
        ¬ Crosses lastOnlineKey (matchingDevices ilike devices filters) (k * size) row := by
  have hids : ((matchingDevices ilike devices filters).map fun row => row.id).Nodup :=
    devices.ids.sublist (filter_sublist.map _)
  have hread : ∀ (nowMs : ℕ → ℕ) (orders : ℕ → List StoredDevice),
      (readPages (fun k q => getDevices ilike onlineThresholdSec (nowMs k) devices filters q (orders k)) size).map
        (·.id) = (pages size (matchingDevices ilike devices filters) fun k => orders (k + 1)).map
          fun row => row.id := by
    intro nowMs orders
    refine map_readPages (fun _ _ => rfl) fun k => ?_
    rw [getDevices, cut_eq_page hsize.2, map_map]
    rfl
  rw [← pages_perm_iff (fun row : StoredDevice => row.id) hids hsize.1]
  constructor
  · intro hshared orders horders
    have hperm := hshared (fun _ => 0) (fun k => orders (k - 1)) fun k => horders (k - 1)
    rw [hread] at hperm
    exact hperm
  · intro hpages nowMs orders horders
    rw [hread]
    exact hpages _ fun k => horders (k + 1)

/-- No two users share a name, so no group is larger than one. -/
theorem usersShared {K : Type} [LinearOrder K] {collate : String → K} (hcollate : Function.Injective collate)
    (users : StoredUsers) (name : Text) (hsize : 1 ≤ size ∧ size ≤ 200) :
    UsersShared ilike collate users name size := by
  intro orders horders
  have hnames : ((matchingUsers ilike users name).map fun row => row.name).Nodup :=
    users.names.sublist (filter_sublist.map _)
  have hread : (readPages (fun k q => getUsers ilike users name q (orders k)) size).map (·.name) =
      (pages size (matchingUsers ilike users name) fun k => orders (k + 1)).map fun row => row.name := by
    refine map_readPages (fun _ _ => rfl) fun k => ?_
    rw [getUsers, cut_eq_page hsize.2, map_map]
    rfl
  have hkeys : ((matchingUsers ilike users name).map fun row => collate row.name).Nodup := by
    have hcollated := hnames.map hcollate
    rwa [map_map] at hcollated
  rw [hread]
  exact (pages_perm hsize.1 (fun k row hrow => not_crosses_of_nodup hkeys hrow _) fun k => horders (k + 1)).map _

/-- Paging shares the result out: whatever the database answers to the queries for the pages, the pages of devices hold
every matching device once and the pages of users every matching user, exactly when no page of devices ends inside a
group of matching devices that were last online at one time. -/
theorem pages_shared_iff {K : Type} [LinearOrder K] {collate : String → K} (hcollate : Function.Injective collate)
    (ilike : String → String → Bool) (onlineThresholdSec : ℕ) (devices : StoredDevices) (filters : DeviceFilters)
    (users : StoredUsers) (name : Text) {size userSize : ℕ} (hsize : 1 ≤ size ∧ size ≤ 200)
    (huserSize : 1 ≤ userSize ∧ userSize ≤ 200) :
    DevicesShared ilike onlineThresholdSec devices filters size ∧ UsersShared ilike collate users name userSize ↔
      ∀ k, ∀ row ∈ matchingDevices ilike devices filters,
        ¬ Crosses lastOnlineKey (matchingDevices ilike devices filters) (k * size) row := by
  rw [and_iff_left (usersShared hcollate users name huserSize)]
  exact devicesShared_iff onlineThresholdSec devices filters hsize

/-- Two devices that were online at different times. -/
def onlineDevices : StoredDevices where
  rows := [{ guid := 0, id := "a", columns := {}, lastOnline := some 1 },
    { guid := 1, id := "b", columns := {}, lastOnline := some 2 }]
  ids := by decide

def twoUsers : StoredUsers where
  rows := [{ guid := 0, name := "bob", passwordHash := "", status := 1, isAdmin := false },
    { guid := 1, name := "ann", passwordHash := "", status := 1, isAdmin := false }]
  names := by decide

theorem pages_shared_iff_online :
    DevicesShared (fun _ _ => false) 45 onlineDevices {} 1 ∧ UsersShared (fun _ _ => false) id twoUsers none 1 := by
  have htimes : ((matchingDevices (fun _ _ => false) onlineDevices {}).map lastOnlineKey).Nodup := by decide
  exact (pages_shared_iff Function.injective_id (fun _ _ => false) 45 onlineDevices {} twoUsers none (by decide)
    (by decide)).mpr fun _ _ hrow => not_crosses_of_nodup htimes hrow _

/-- Two devices that were never online. -/
def offlineDevices : StoredDevices where
  rows := [{ guid := 0, id := "a", columns := {} }, { guid := 1, id := "b", columns := {} }]
  ids := by decide

def changingOrder (k : ℕ) : List StoredDevice :=
  match k with
  | 1 => offlineDevices.rows
  | _ => offlineDevices.rows.reverse

/-- The database may begin both pages with one device. -/
theorem not_devicesShared_offline : ¬ DevicesShared (fun _ _ => false) 45 offlineDevices {} 1 := by
  intro hshared
  have hall : matchingDevices (fun _ _ => false) offlineDevices {} = offlineDevices.rows := rfl
  have hperm := hshared (fun _ => 0) changingOrder fun k => by
    rw [hall]
    cases k with
    | zero => exact ⟨List.reverse_perm _, by simp [changingOrder, offlineDevices, lastOnlineKey]⟩
    | succ k =>
      cases k with
      | zero => exact ⟨List.Perm.refl _, by simp [changingOrder, offlineDevices, lastOnlineKey]⟩
      | succ k => exact ⟨List.reverse_perm _, by simp [changingOrder, offlineDevices, lastOnlineKey]⟩
  have hread : ((readPages (fun k q => getDevices (fun _ _ => false) 45 0 offlineDevices {} q (changingOrder k)) 1).map
      (·.id)) = ["a", "a"] := by decide
  rw [hread, hall] at hperm
  exact absurd hperm (by decide)

end Claims

end UnyDesk.Api
