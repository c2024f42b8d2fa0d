import Mathlib.Data.List.Perm.Basic
import UnyDesk.Api.Devices

/-!
# The orders of the disconnect queue

A disconnect request inserts its orders one by one, and a heartbeat removes those of its device before the last statement
that its answer needs. No order is lost, repeated or left behind by a refused request where no heartbeat fails or is
overtaken while it holds orders, and where no disconnect request fails after its first order.
-/

namespace UnyDesk.Api

open Lib DeviceServer Function List Nat Prod

/-- The orders are the numbers, for one device. -/
def Ordering (orders : List Order) (deviceId : String) (connIds : List ℚ) : Prop :=
  orders.map (fun order => (order.deviceId, some order.connId)) = connIds.map fun connId => (deviceId, columnInt connId)

/-- The device for which the task holds orders. -/
def DeviceTask.holdsFor : DeviceTask → Option String
  | .heartbeatSelect body (_ :: _) => some body.id
  | _ => none

/-- The requests that neither order nor take. -/
def DeviceRequest.Plain : DeviceRequest → Prop
  | .heartbeat _ | .disconnect _ _ => False
  | _ => True

/-- What a request has ordered and taken while it waits for a statement. -/
def TaskAccount (request : Option DeviceRequest) (orders taken : List Order) : DeviceTask → Prop
  | .heartbeatUpdate body | .heartbeatDelete body =>
    request = some (.heartbeat (some body)) ∧ orders = [] ∧ taken = []
  | .heartbeatSelect body held =>
    request = some (.heartbeat (some body)) ∧ orders = [] ∧ taken = held ∧ ∀ order ∈ held, order.deviceId = body.id
  | .disconnectSelect guid connIds => request = some (.disconnect guid (some connIds)) ∧ orders = [] ∧ taken = []
  | .disconnectInsert deviceId connId rest =>
    ∃ guid done, request = some (.disconnect guid (some (done ++ connId :: rest))) ∧ Ordering orders deviceId done ∧
      taken = []
  | _ => (∀ r ∈ request, r.Plain) ∧ orders = [] ∧ taken = []

/-- What a request that was answered has ordered and taken. -/
def AnswerAccount (a : DeviceAnswer) (orders taken : List Order) : DeviceRequest → Prop
  | .heartbeat (some body) =>
    orders = [] ∧ (∀ order ∈ taken, order.deviceId = body.id) ∧
      (∀ answer, a = .heartbeat answer → answer.disconnect = taken.map Order.connId) ∧
      ((∀ answer, a ≠ .heartbeat answer) → taken = [])
  | .disconnect _ (some connIds) =>
    taken = [] ∧ (a = .result "OK" → ∃ deviceId, Ordering orders deviceId connIds) ∧ (a ≠ .result "OK" → orders = [])
  | .disconnect _ none => orders = [] ∧ taken = [] ∧ a ≠ .result "OK"
  | _ => orders = [] ∧ taken = []

namespace DeviceServer

variable {task : DeviceTask} {orders : List Order} {e : DeviceStep} {order : Order}

section

variable (s : DeviceServer)

/-- The orders of a request, in the order of their insertion. -/
def ordersOf (n : ℕ) : List Order := (s.ordered.filter (·.request = n)).reverse

/-- The orders that a heartbeat has taken. -/
def takenBy (n : ℕ) : List Order := (s.taken.filter (·.1 = n)).map snd

/-- A heartbeat for the device of the order was answered, with the order among the numbers of the answer. -/
def Delivers (n : ℕ) (order : Order) : Prop :=
  order ∈ s.takenBy n ∧ ∃ body answer, s.received n = some (.heartbeat (some body)) ∧ body.id = order.deviceId ∧
    s.answers n = some (.heartbeat answer) ∧ answer.disconnect = (s.takenBy n).map Order.connId

/-- A disconnect request that was answered `OK` has ordered its numbers for its device, any other one nothing. -/
def Accepted : Prop :=
  ∀ n guid connIds a, s.received n = some (.disconnect guid connIds) → s.answers n = some a →
    (a = .result "OK" → ∃ ids deviceId, connIds = some ids ∧ Ordering (s.ordersOf n) deviceId ids ∧
      ∀ order ∈ s.ordersOf n, ∀ row ∈ s.devices.rows, row.guid = guid → row.id = order.deviceId) ∧
    (a ≠ .result "OK" → s.ordersOf n = [])

/-- No order is taken twice. -/
def TakenOnce : Prop :=
  (∀ n, (s.takenBy n).Nodup) ∧ ∀ n m order, order ∈ s.takenBy n → order ∈ s.takenBy m → n = m

/-- What a failing statement leaves behind. -/
def UnlostFailure (n : ℕ) : DeviceTask → Prop
  | .heartbeatSelect _ orders => orders = []
  | .disconnectInsert _ _ _ => s.ordersOf n = []
  | _ => True

/-- What a statement finds. -/
def UnlostTask (n : ℕ) : DeviceTask → Prop
  | .heartbeatSelect body _ => ∀ m < s.arrived, m ≠ n → ∀ task ∈ s.tasks m, task.holdsFor ≠ some body.id
  | .disconnectInsert _ connId _ => columnInt connId = none → s.ordersOf n = []
  | _ => True

/-- No heartbeat fails while it holds orders or is answered while another one of its device does, and no disconnect
request fails after its first order, be it for a number that the column does not hold. -/
def Unlost : DeviceStep → Prop
  | .request _ => True
  | .advance n => ∀ task ∈ s.tasks n, s.UnlostTask n task
  | .fail n => ∀ task ∈ s.tasks n, s.UnlostFailure n task

instance (s : DeviceServer) (n : ℕ) (task : DeviceTask) : Decidable (s.UnlostFailure n task) :=
  match task with
  | .deployCheck _ _ _ | .deployUpsert _ _ _ | .cliUpsert _ _ _ _ | .sysinfoSelect _ | .sysinfoInsert _ | .sysinfoUpdate _
  | .heartbeatUpdate _ | .heartbeatDelete _ | .heartbeatSelect _ _ | .delete _ | .disconnectSelect _ _
  | .disconnectInsert _ _ _ => by unfold UnlostFailure; infer_instance

instance (s : DeviceServer) (n : ℕ) (task : DeviceTask) : Decidable (s.UnlostTask n task) :=
  match task with
  | .deployCheck _ _ _ | .deployUpsert _ _ _ | .cliUpsert _ _ _ _ | .sysinfoSelect _ | .sysinfoInsert _ | .sysinfoUpdate _
  | .heartbeatUpdate _ | .heartbeatDelete _ | .heartbeatSelect _ _ | .delete _ | .disconnectSelect _ _
  | .disconnectInsert _ _ _ => by unfold UnlostTask; infer_instance

instance (s : DeviceServer) (e : DeviceStep) : Decidable (s.Unlost e) :=
  match e with
  | .request _ | .advance _ | .fail _ => by unfold Unlost; infer_instance

/-- The request that a step acts on. -/
def subject : DeviceStep → ℕ
  | .request _ => s.arrived
  | .advance n | .fail n => n

end

/-- What a step leaves alone of another request. -/
structure SameAt (s s' : DeviceServer) (m : ℕ) : Prop where
  arrived : m < s'.arrived ↔ m < s.arrived
  received : s'.received m = s.received m
  tasks : s'.tasks m = s.tasks m
  answers : s'.answers m = s.answers m
  ordersOf : s'.ordersOf m = s.ordersOf m
  takenBy : s'.takenBy m = s.takenBy m

section Frame

variable {s s' : DeviceServer} {n m : ℕ}

theorem ordersOf_enqueue_self (s : DeviceServer) (n : ℕ) (deviceId : String) (connId : Int) :
    (s.enqueue n deviceId connId).ordersOf n =
      s.ordersOf n ++ [{ serial := s.nextSerial, deviceId, connId, request := n }] := by
  simp [ordersOf, enqueue]

theorem ordersOf_enqueue_of_ne (h : m ≠ n) (deviceId : String) (connId : Int) :
    (s.enqueue n deviceId connId).ordersOf m = s.ordersOf m := by
  simp [ordersOf, enqueue, h.symm]

theorem takenBy_dequeue_self (s : DeviceServer) (n : ℕ) (deviceId : String) :
    (s.dequeue n deviceId).takenBy n = s.queue.filter (·.deviceId = deviceId) ++ s.takenBy n := by
  simp [takenBy, dequeue, filter_map, comp_def]

theorem takenBy_dequeue_of_ne (h : m ≠ n) (deviceId : String) : (s.dequeue n deviceId).takenBy m = s.takenBy m := by
  simp [takenBy, dequeue, filter_map, comp_def, h.symm]

theorem Writes.sameAt (h : s.Writes n task s') (hne : m ≠ n) : s.SameAt s' m := by
  cases h with
  | devices _ devices deployed hevolves _ => exact ⟨Iff.rfl, rfl, rfl, rfl, rfl, rfl⟩
  | enqueue deviceId connId rest number =>
    exact ⟨Iff.rfl, rfl, rfl, rfl, ordersOf_enqueue_of_ne hne deviceId number, rfl⟩
  | dequeue body => exact ⟨Iff.rfl, rfl, rfl, rfl, rfl, takenBy_dequeue_of_ne hne body.id⟩

theorem SameAt.trans {s'' : DeviceServer} (h : s.SameAt s' m) (h' : s'.SameAt s'' m) : s.SameAt s'' m where
  arrived := h'.arrived.trans h.arrived
  received := h'.received.trans h.received
  tasks := h'.tasks.trans h.tasks
  answers := h'.answers.trans h.answers
  ordersOf := h'.ordersOf.trans h.ordersOf
  takenBy := h'.takenBy.trans h.takenBy

theorem sameAt_park (hne : m ≠ n) (task : DeviceTask) : s.SameAt (s.park n task) m :=
  ⟨Iff.rfl, rfl, update_of_ne hne .., rfl, rfl, rfl⟩

theorem sameAt_answer (hne : m ≠ n) (a : DeviceAnswer) : s.SameAt (s.answer n a) m :=
  ⟨Iff.rfl, rfl, update_of_ne hne .., update_of_ne hne .., rfl, rfl⟩

theorem sameAt_advance (hne : m ≠ n) (task : DeviceTask) : s.SameAt (s.advance n task) m := by
  obtain ⟨s', hwrites, ⟨next, heq, -⟩ | ⟨a, heq⟩⟩ := s.advance_writes n task
  · rw [heq]
    exact (hwrites.sameAt hne).trans (sameAt_park hne next)
  · rw [heq]
    exact (hwrites.sameAt hne).trans (sameAt_answer hne a)

theorem sameAt_step (hne : m ≠ s.subject e) : s.SameAt (s.step e) m := by
  refine step_rule (P := fun s' => s.SameAt s' m) ⟨Iff.rfl, rfl, rfl, rfl, rfl, rfl⟩ ?_ ?_ ?_
  · rintro r rfl
    have hreceived : (s.step (.request r)).received m = s.received m := update_of_ne hne ..
    have harrived : m < s.arrived + 1 ↔ m < s.arrived :=
      ⟨fun hlt => lt_of_le_of_ne (le_of_lt_succ hlt) hne, lt_succ_of_lt⟩
    rcases s.receive_cases r with ⟨task, heq, -⟩ | ⟨a, heq⟩
    · have hpark : s.arrive.SameAt (s.receive r) m := heq ▸ sameAt_park hne task
      exact ⟨hpark.arrived.trans harrived, hreceived, hpark.tasks, hpark.answers, hpark.ordersOf, hpark.takenBy⟩
    · have hanswer : s.arrive.SameAt (s.receive r) m := heq ▸ sameAt_answer hne a
      exact ⟨hanswer.arrived.trans harrived, hreceived, hanswer.tasks, hanswer.answers, hanswer.ordersOf,
        hanswer.takenBy⟩
  · rintro n task rfl -
    exact sameAt_advance hne task
  · rintro n task rfl -
    exact sameAt_answer hne _

end Frame

/-- The queue and the orders that were taken are the orders that were inserted. -/
structure Balanced (s : DeviceServer) : Prop where
  serials : (s.ordered.map Order.serial).Nodup
  fresh : ∀ order ∈ s.ordered, order.serial < s.nextSerial
  balance : (s.queue ++ s.taken.map snd).Perm s.ordered

section Balance

variable {s s' : DeviceServer} {n : ℕ}

theorem Balanced.writes (h : s.Balanced) (hwrites : s.Writes n task s') : s'.Balanced := by
  cases hwrites with
  | devices _ devices deployed hevolves _ => exact { h with }
  | enqueue deviceId connId rest number =>
    refine ⟨nodup_cons.mpr ⟨fun hmem => ?_, h.serials⟩, fun order hmem => ?_, ?_⟩
    · obtain ⟨order, horder, hserial⟩ := mem_map.mp hmem
      exact absurd hserial (Nat.ne_of_lt (h.fresh order horder))
    · rcases mem_cons.mp hmem with rfl | hold
      · exact Nat.lt_succ_self _
      · exact Nat.lt_succ_of_lt (h.fresh order hold)
    · change ((s.queue ++ [_]) ++ s.taken.map snd).Perm (_ :: s.ordered)
      rw [append_assoc, singleton_append]
      exact perm_middle.trans (h.balance.cons _)
  | dequeue body =>
    refine ⟨h.serials, h.fresh, List.Perm.trans ?_ h.balance⟩
    have htaken : (s.dequeue n body.id).taken.map snd = s.queue.filter (·.deviceId = body.id) ++ s.taken.map snd := by
      simp [dequeue, comp_def]
    rw [htaken, ← append_assoc]
    refine List.Perm.append_right _ (perm_append_comm.trans ?_)
    have hsplit := filter_append_perm (fun order : Order => decide (order.deviceId = body.id)) s.queue
    simpa [dequeue] using hsplit

theorem Balanced.congr (h : s.Balanced) (hsame : s.SameTables s') : s'.Balanced := by
  refine ⟨?_, ?_, ?_⟩
  · rw [hsame.ordered]
    exact h.serials
  · rw [hsame.ordered, hsame.nextSerial]
    exact h.fresh
  · rw [hsame.queue, hsame.taken, hsame.ordered]
    exact h.balance

theorem Balanced.step (h : s.Balanced) (e : DeviceStep) : (s.step e).Balanced := by
  obtain ⟨s', hsame, rfl | ⟨n, task, -, -, hwrites⟩⟩ := s.step_tables e
  · exact h.congr hsame
  · exact (h.writes hwrites).congr hsame

theorem mem_takenBy : order ∈ s.takenBy n ↔ (n, order) ∈ s.taken := by
  simp [takenBy]

theorem Balanced.nodup_taken (h : s.Balanced) : (s.queue ++ s.taken.map snd).Nodup :=
  h.balance.nodup_iff.mpr (List.Nodup.of_map _ h.serials)

theorem Balanced.takenOnce (h : s.Balanced) : s.TakenOnce := by
  have htaken : (s.taken.map snd).Nodup := (nodup_append.mp h.nodup_taken).2.1
  refine ⟨fun n => htaken.sublist (filter_sublist.map _), fun n m order hn hm => ?_⟩
  exact congrArg fst (inj_on_of_nodup_map htaken (mem_takenBy.mp hn) (mem_takenBy.mp hm) rfl)

/-- An order that is not in the queue any more was taken. -/
theorem Balanced.taken (h : s.Balanced) (horder : order ∈ s.ordered) (hqueue : order ∉ s.queue) :
    ∃ n, order ∈ s.takenBy n := by
  rcases mem_append.mp (h.balance.mem_iff.mpr horder) with hmem | hmem
  · exact absurd hmem hqueue
  · obtain ⟨⟨n, order⟩, htaken, rfl⟩ := mem_map.mp hmem
    exact ⟨n, mem_takenBy.mpr htaken⟩

end Balance

/-- The account of a request. -/
structure Accounted (s : DeviceServer) (n : ℕ) : Prop where
  absent : s.arrived ≤ n →
    s.received n = none ∧ s.tasks n = none ∧ s.answers n = none ∧ s.ordersOf n = [] ∧ s.takenBy n = []
  task : ∀ task, s.tasks n = some task →
    s.answers n = none ∧ TaskAccount (s.received n) (s.ordersOf n) (s.takenBy n) task
  answer : ∀ a, s.answers n = some a → ∀ r ∈ s.received n, AnswerAccount a (s.ordersOf n) (s.takenBy n) r
  present : n < s.arrived → (s.received n).isSome = true ∧ ((s.tasks n).isSome = true ∨ (s.answers n).isSome = true)

section Accounts

variable {s s' : DeviceServer} {n m : ℕ}

theorem Accounted.congr (h : s.Accounted m) (hsame : s.SameAt s' m) : s'.Accounted m where
  absent hm := by
    rw [hsame.received, hsame.tasks, hsame.answers, hsame.ordersOf, hsame.takenBy]
    exact h.absent (not_lt.mp fun hlt => not_lt.mpr hm (hsame.arrived.mpr hlt))
  task := by
    rw [hsame.received, hsame.tasks, hsame.answers, hsame.ordersOf, hsame.takenBy]
    exact h.task
  answer := by
    rw [hsame.received, hsame.answers, hsame.ordersOf, hsame.takenBy]
    exact h.answer
  present hm := by
    rw [hsame.received, hsame.tasks, hsame.answers]
    exact h.present (hsame.arrived.mp hm)

theorem accounted_park (hn : n < s.arrived) (hreceived : (s.received n).isSome = true) (hanswer : s.answers n = none)
    {next : DeviceTask} (hnext : TaskAccount (s.received n) (s.ordersOf n) (s.takenBy n) next) : (s.park n next).Accounted n where
  absent hle := absurd hn (not_lt.mpr hle)
  task task htask := by
    have heq : task = next := Option.some.inj (htask.symm.trans (update_self ..))
    rw [heq]
    exact ⟨hanswer, hnext⟩
  answer a ha := by
    have hnone : (s.park n next).answers n = none := hanswer
    rw [hnone] at ha
    exact nomatch ha
  present _ := ⟨hreceived, .inl (by rw [park_tasks]; rfl)⟩

theorem accounted_answer (hn : n < s.arrived) (hreceived : (s.received n).isSome = true) {a : DeviceAnswer}
    (ha : ∀ r ∈ s.received n, AnswerAccount a (s.ordersOf n) (s.takenBy n) r) : (s.answer n a).Accounted n where
  absent hle := absurd hn (not_lt.mpr hle)
  task task htask := by
    have hnone : (s.answer n a).tasks n = none := update_self ..
    rw [hnone] at htask
    exact nomatch htask
  answer a' ha' := by
    have heq : a' = a := Option.some.inj (ha'.symm.trans (update_self ..))
    rw [heq]
    exact ha
  present _ := ⟨hreceived, .inr (by rw [answer_answers]; rfl)⟩

/-- A request without orders may be refused. -/
theorem answerAccount_error (code : ℕ) (text : String) (r : DeviceRequest) :
    AnswerAccount (.error code text) [] [] r := by
  unfold AnswerAccount
  split
  · refine ⟨rfl, fun _ hmem => ?_, fun _ heq => ?_, fun _ => rfl⟩
    · exact nomatch hmem
    · exact nomatch heq
  · refine ⟨rfl, fun heq => ?_, fun _ => rfl⟩
    exact nomatch heq
  · exact ⟨rfl, rfl, fun heq => nomatch heq⟩
  · exact ⟨rfl, rfl⟩

theorem answerAccount_plain {r : DeviceRequest} (hr : r.Plain) (a : DeviceAnswer) : AnswerAccount a [] [] r := by
  cases r with
  | deploy | cli | sysinfo | delete => exact ⟨rfl, rfl⟩
  | heartbeat body => exact nomatch hr
  | disconnect guid connIds => exact nomatch hr

theorem Ordering.concat {deviceId : String} {done : List ℚ} (h : Ordering orders deviceId done)
    {connId : ℚ} {number : Int} (hnumber : columnInt connId = some number) (serial request : ℕ) :
    Ordering (orders ++ [{ serial, deviceId, connId := number, request }]) deviceId (done ++ [connId]) := by
  unfold Ordering at h ⊢
  rw [map_append, map_append, h, map_singleton, map_singleton, hnumber]

/-- What a request that arrives has ordered and taken. -/
theorem accounted_receive (h : s.Accounted s.arrived) (r : DeviceRequest) :
    (s.step (.request r)).Accounted s.arrived := by
  obtain ⟨-, -, hanswers, horders, htaken⟩ := h.absent (le_refl _)
  let s' : DeviceServer := { s.arrive with received := update s.received s.arrived (some r) }
  have hreceived : s'.received s.arrived = some r := update_self ..
  have hn : s.arrived < s'.arrived := lt_succ_self _
  have hpresent : (s'.received s.arrived).isSome = true := by rw [hreceived]; rfl
  have hpark {task : DeviceTask} (htask : TaskAccount (some r) [] [] task) :
      (s'.park s.arrived task).Accounted s.arrived := by
    refine accounted_park hn hpresent hanswers ?_
    rw [hreceived]
    exact horders.symm ▸ htaken.symm ▸ htask
  have hanswer {a : DeviceAnswer} (ha : AnswerAccount a [] [] r) : (s'.answer s.arrived a).Accounted s.arrived := by
    refine accounted_answer hn hpresent ?_
    rw [hreceived]
    rintro _ ⟨⟩
    exact horders.symm ▸ htaken.symm ▸ ha
  have hplain (hr : r.Plain) : ∀ r' ∈ some r, r'.Plain := by
    rintro _ ⟨⟩
    exact hr
  have hrefuse (hr : r.Plain) (a : DeviceAnswer) : (s'.answer s.arrived a).Accounted s.arrived :=
    hanswer (answerAccount_plain hr a)
  rw [step]
  cases r with
  | deploy body =>
    rcases body with _ | ⟨id, uuid, pk⟩
    · exact hrefuse trivial _
    · rw [receive]
      split_ifs
      · exact hrefuse trivial _
      · exact hpark ⟨hplain trivial, rfl, rfl⟩
  | cli id uuid pk note =>
    rw [receive]
    split_ifs
    · exact hrefuse trivial _
    · exact hpark ⟨hplain trivial, rfl, rfl⟩
  | sysinfo body =>
    rw [receive]
    split_ifs
    · exact hrefuse trivial _
    · exact hpark ⟨hplain trivial, rfl, rfl⟩
  | heartbeat body =>
    cases body with
    | none => exact hanswer ⟨rfl, rfl⟩
    | some body => exact hpark ⟨rfl, rfl, rfl⟩
  | delete guid => exact hpark ⟨hplain trivial, rfl, rfl⟩
  | disconnect guid connIds =>
    rcases connIds with _ | _ | ⟨connId, rest⟩
    · exact hanswer (answerAccount_error ..)
    · exact hanswer (answerAccount_error ..)
    · exact hpark ⟨rfl, rfl, rfl⟩

/-- What a statement leaves of the account of its request. -/
theorem Accounted.advance (h : s.Accounted n) (htask : s.tasks n = some task)
    (hunlost : s.UnlostTask n task) : (s.advance n task).Accounted n := by
  obtain ⟨hanswers, haccount⟩ := h.task task htask
  have hn : n < s.arrived := by
    by_contra hle
    rw [(h.absent (not_lt.mp hle)).2.1] at htask
    exact nomatch htask
  have hpresent := (h.present hn).1
  -- The requests that neither order nor take.
  have hplain (haccount : (∀ r ∈ s.received n, r.Plain) ∧ s.ordersOf n = [] ∧ s.takenBy n = []) (a : DeviceAnswer) :
      ∀ r ∈ s.received n, AnswerAccount a (s.ordersOf n) (s.takenBy n) r := by
    intro r hr
    rw [haccount.2.1, haccount.2.2]
    exact answerAccount_plain (haccount.1 r hr) a
  cases task with
  | deployCheck id uuid pk =>
    rw [advance]
    split_ifs
    · exact accounted_answer hn hpresent (hplain haccount _)
    · exact accounted_park hn hpresent hanswers haccount
  | deployUpsert id uuid pk =>
    exact (accounted_answer hn hpresent (hplain haccount _)).congr ⟨Iff.rfl, rfl, rfl, rfl, rfl, rfl⟩
  | cliUpsert id uuid pk note =>
    exact (accounted_answer hn hpresent (hplain haccount _)).congr ⟨Iff.rfl, rfl, rfl, rfl, rfl, rfl⟩
  | sysinfoSelect body =>
    rw [advance]
    split_ifs
    · exact accounted_park hn hpresent hanswers haccount
    · exact accounted_park hn hpresent hanswers haccount
  | sysinfoInsert body =>
    rw [advance]
    cases s.devices.insert body.id body.columns with
    | none => exact accounted_answer hn hpresent (hplain haccount _)
    | some devices => exact (accounted_answer hn hpresent (hplain haccount _)).congr ⟨Iff.rfl, rfl, rfl, rfl, rfl, rfl⟩
  | sysinfoUpdate body =>
    exact (accounted_answer hn hpresent (hplain haccount _)).congr ⟨Iff.rfl, rfl, rfl, rfl, rfl, rfl⟩
  | heartbeatUpdate body =>
    have hparked : (s.park n (.heartbeatDelete body)).Accounted n := accounted_park hn hpresent hanswers haccount
    exact hparked.congr ⟨Iff.rfl, rfl, rfl, rfl, rfl, rfl⟩
  | heartbeatDelete body =>
    obtain ⟨hreceived, horders, htaken⟩ := haccount
    refine accounted_park (s := s.dequeue n body.id) hn hpresent hanswers ⟨hreceived, horders, ?_, fun order hmem => ?_⟩
    · rw [takenBy_dequeue_self, htaken, append_nil]
    · simpa using (mem_filter.mp hmem).2
  | heartbeatSelect body orders =>
    obtain ⟨hreceived, horders, htaken, hdevice⟩ := haccount
    refine accounted_answer hn hpresent ?_
    rw [hreceived, horders, htaken]
    rintro _ ⟨⟩
    refine ⟨rfl, hdevice, ?_, fun hother => absurd rfl (hother _)⟩
    rintro _ ⟨⟩
    rfl
  | delete guid =>
    rw [advance]
    split_ifs
    · exact accounted_answer hn hpresent (hplain haccount _)
    · exact (accounted_answer hn hpresent (hplain haccount _)).congr ⟨Iff.rfl, rfl, rfl, rfl, rfl, rfl⟩
  | disconnectSelect guid connIds =>
    obtain ⟨hreceived, horders, htaken⟩ := haccount
    rw [advance]
    unfold selectDevice
    split
    · refine accounted_park hn hpresent hanswers ⟨guid, [], hreceived, ?_, htaken⟩
      rw [horders]
      rfl
    · refine accounted_answer hn hpresent fun r _ => ?_
      rw [horders, htaken]
      exact answerAccount_error ..
  | disconnectInsert deviceId connId rest =>
    obtain ⟨guid, done, hreceived, horders, htaken⟩ := haccount
    rw [advance]
    unfold insertOrder
    split
    next hnumber =>
      refine accounted_answer hn hpresent fun r _ => ?_
      rw [hunlost hnumber, htaken]
      exact answerAccount_error ..
    next number hnumber =>
      refine accounted_answer (s := s.enqueue n deviceId number) hn hpresent ?_
      have hsame : (s.enqueue n deviceId number).received n = s.received n := rfl
      rw [hsame, hreceived, ordersOf_enqueue_self]
      rintro _ ⟨⟩
      exact ⟨htaken, fun _ => ⟨deviceId, Ordering.concat horders hnumber _ _⟩, fun hother => absurd rfl hother⟩
    next number connId' rest' hnumber =>
      refine accounted_park (s := s.enqueue n deviceId number) hn hpresent hanswers ⟨guid, done ++ [connId], ?_, ?_, htaken⟩
      · rw [append_assoc]
        exact hreceived
      · rw [ordersOf_enqueue_self]
        exact Ordering.concat horders hnumber _ _

/-- What a failing statement leaves of the account of its request. -/
theorem Accounted.fail (h : s.Accounted n) (htask : s.tasks n = some task)
    (hunlost : s.UnlostFailure n task) : (s.answer n (.error 500 "Internal Server Error")).Accounted n := by
  obtain ⟨-, haccount⟩ := h.task task htask
  have hn : n < s.arrived := by
    by_contra hle
    rw [(h.absent (not_lt.mp hle)).2.1] at htask
    exact nomatch htask
  have hpresent := (h.present hn).1
  have hempty : s.ordersOf n = [] ∧ s.takenBy n = [] := by
    cases task with
    | heartbeatSelect body orders => exact ⟨haccount.2.1, haccount.2.2.1.trans hunlost⟩
    | disconnectInsert deviceId connId rest =>
      obtain ⟨-, -, -, -, htaken⟩ := haccount
      exact ⟨hunlost, htaken⟩
    | _ => exact haccount.2
  refine accounted_answer hn hpresent fun r _ => ?_
  rw [hempty.1, hempty.2]
  exact answerAccount_error ..

theorem accounted_step (h : ∀ m, s.Accounted m) (hunlost : s.Unlost e) (m : ℕ) : (s.step e).Accounted m := by
  by_cases hm : m = s.subject e
  · refine step_rule (P := fun s' => s'.Accounted m) (h m) ?_ ?_ ?_
    · rintro r rfl
      exact hm ▸ accounted_receive (h s.arrived) r
    · rintro n task rfl htask
      exact hm ▸ (h n).advance htask (hunlost task htask)
    · rintro n task rfl htask
      exact hm ▸ (h n).fail htask (hunlost task htask)
  · exact (h m).congr (sameAt_step hm)

end Accounts

/-- The id is the one of the device that the request names. -/
def NamedBy (s : DeviceServer) (n : ℕ) (deviceId : String) : Prop :=
  ∀ guid connIds, s.received n = some (.disconnect guid connIds) →
    guid < s.devices.nextGuid ∧ ∀ row ∈ s.devices.rows, row.guid = guid → row.id = deviceId

/-- The orders are for the device that their request names. -/
structure Addressed (s : DeviceServer) : Prop where
  tasks : ∀ n deviceId connId rest, s.tasks n = some (.disconnectInsert deviceId connId rest) → s.NamedBy n deviceId
  orders : ∀ order ∈ s.ordered, s.NamedBy order.request order.deviceId

section Addresses

variable {s s' : DeviceServer} {n : ℕ} {deviceId : String}

theorem NamedBy.evolves (h : s.NamedBy n deviceId) (hreceived : s'.received n = s.received n)
    (hevolves : s.devices.Evolves s'.devices) : s'.NamedBy n deviceId := by
  intro guid connIds hrequest
  obtain ⟨hguid, hrows⟩ := h guid connIds (hreceived ▸ hrequest)
  refine ⟨lt_of_lt_of_le hguid hevolves.nextGuid, fun row' hrow' hsame => ?_⟩
  obtain ⟨row, hrow, hrowGuid, hid⟩ := hevolves.rows row' hrow' (hsame ▸ hguid)
  exact hid.symm.trans (hrows row hrow (hrowGuid.trans hsame))

theorem evolves_step (s : DeviceServer) (e : DeviceStep) : s.devices.Evolves (s.step e).devices := by
  obtain ⟨s', hsame, rfl | ⟨n, task, -, -, hwrites⟩⟩ := s.step_tables e
  · rw [hsame.devices]
    exact .refl _
  · rw [hsame.devices]
    cases hwrites with
    | devices _ devices deployed hevolves _ => exact hevolves
    | enqueue deviceId connId rest number => exact .refl _
    | dequeue body => exact .refl _

/-- A request that inserts orders has found the device that it names. -/
theorem namedBy_select {guid : ℕ} {connIds : List ℚ} (htask : TaskAccount (s.received n) (s.ordersOf n) (s.takenBy n)
      (.disconnectSelect guid connIds)) {row : DeviceRow} (hrow : s.devices.byGuid guid = some row) :
    s.NamedBy n row.id := by
  intro guid' connIds' hrequest
  obtain ⟨rfl, -⟩ := DeviceRequest.disconnect.inj (Option.some.inj (htask.1.symm.trans hrequest))
  have hmem : row ∈ s.devices.rows := mem_of_find?_eq_some hrow
  have hguid : row.guid = guid := by simpa using find?_some hrow
  refine ⟨hguid ▸ s.devices.fresh row hmem, fun row' hrow' hsame => ?_⟩
  rw [DeviceTable.eq_of_guid hrow' hmem (hsame.trans hguid.symm)]

/-- Orders are only inserted for the device of the task. -/
theorem step_ordered (h : order ∈ (s.step e).ordered) :
    order ∈ s.ordered ∨ ∃ connId rest, s.tasks order.request = some (.disconnectInsert order.deviceId connId rest) := by
  obtain ⟨s', hsame, rfl | ⟨n, task, -, htask, hwrites⟩⟩ := s.step_tables e
  · exact .inl (hsame.ordered ▸ h)
  · rw [hsame.ordered] at h
    cases hwrites with
    | devices _ devices deployed hevolves _ => exact .inl h
    | enqueue deviceId connId rest number =>
      rcases mem_cons.mp h with rfl | hold
      · exact .inr ⟨connId, rest, htask⟩
      · exact .inl hold
    | dequeue body => exact .inl h

theorem Addressed.step (h : s.Addressed) (haccounts : ∀ m, s.Accounted m) (e : DeviceStep) : (s.step e).Addressed := by
  -- A new request has no order and no task yet.
  have hrequest (order : Order) (horder : order ∈ s.ordered) : order.request ≠ s.arrived := by
    intro heq
    have hmem : order ∈ s.ordersOf s.arrived := by simp [ordersOf, horder, heq]
    rw [((haccounts s.arrived).absent (le_refl _)).2.2.2.1] at hmem
    exact nomatch hmem
  have htaskOf (m : ℕ) (task : DeviceTask) (htask : s.tasks m = some task) : m ≠ s.arrived := by
    rintro rfl
    rw [((haccounts s.arrived).absent (le_refl _)).2.1] at htask
    exact nomatch htask
  have hkept {m : ℕ} {deviceId : String} (hm : m ≠ s.arrived) (hnamed : s.NamedBy m deviceId) :
      (s.step e).NamedBy m deviceId := hnamed.evolves (s.step_received e hm) (evolves_step s e)
  constructor
  · intro m deviceId connId rest
    by_cases hm : m = s.subject e
    · refine step_rule (P := fun s' => s'.tasks m = _ → _)
        (fun htask => hkept (htaskOf m _ htask) (h.tasks m deviceId connId rest htask)) ?_ ?_ ?_
      · rintro r rfl htask
        obtain rfl : m = s.arrived := hm
        have hparked : (s.receive r).tasks s.arrived = some (.disconnectInsert deviceId connId rest) := htask
        exact nomatch first_of_receive hparked
      · rintro n task rfl hbefore htask
        obtain rfl : m = n := hm
        cases advance_follows htask with
        | disconnectFirst hrow => exact hkept (htaskOf m _ hbefore) (namedBy_select ((haccounts m).task _ hbefore).2 hrow)
        | disconnectNext => exact hkept (htaskOf m _ hbefore) (h.tasks m _ _ _ hbefore)
      · rintro n task rfl - htask
        obtain rfl : m = n := hm
        exact nomatch answer_tasks.symm.trans htask
    · intro htask
      rw [(sameAt_step hm).tasks] at htask
      exact hkept (htaskOf m _ htask) (h.tasks m deviceId connId rest htask)
  · intro order horder
    rcases step_ordered horder with hold | ⟨connId, rest, htask⟩
    · exact hkept (hrequest order hold) (h.orders order hold)
    · exact hkept (htaskOf _ _ htask) (h.tasks _ _ _ _ htask)

end Addresses

/-- What a run keeps of the orders. -/
structure Ledger (s : DeviceServer) : Prop where
  accounts : ∀ n, s.Accounted n
  balanced : s.Balanced
  addressed : s.Addressed

section Ledger

variable {s : DeviceServer} {n m : ℕ} {order : Order} {e : DeviceStep} {body : HeartbeatBody}

theorem Ledger.step (h : s.Ledger) (hunlost : s.Unlost e) : (s.step e).Ledger where
  accounts := accounted_step h.accounts hunlost
  balanced := h.balanced.step e
  addressed := h.addressed.step h.accounts e

theorem Ledger.accepted (h : s.Ledger) : s.Accepted := by
  intro n guid connIds a hreceived ha
  have haccount := (h.accounts n).answer a ha _ hreceived
  have hmem {order : Order} (horder : order ∈ s.ordersOf n) : order ∈ s.ordered ∧ order.request = n := by
    simpa [ordersOf] using horder
  cases connIds with
  | none => exact ⟨fun hok => absurd hok haccount.2.2, fun _ => haccount.1⟩
  | some ids =>
    refine ⟨fun hok => ?_, haccount.2.2⟩
    obtain ⟨deviceId, hordering⟩ := haccount.2.1 hok
    refine ⟨ids, deviceId, rfl, hordering, fun order horder row hrow hguid => ?_⟩
    obtain ⟨hordered, rfl⟩ := hmem horder
    exact (h.addressed.orders order hordered guid _ hreceived).2 row hrow hguid

/-- An order that was taken is delivered, or its heartbeat holds it. -/
theorem Ledger.taken (h : s.Ledger) (horder : order ∈ s.takenBy n) :
    s.Delivers n order ∨ ∃ task, s.tasks n = some task ∧ task.holdsFor = some order.deviceId := by
  have hne : s.takenBy n ≠ [] := ne_nil_of_mem horder
  have hn : n < s.arrived := by
    by_contra hle
    exact hne ((h.accounts n).absent (not_lt.mp hle)).2.2.2.2
  obtain ⟨hreceived, hphase⟩ := (h.accounts n).present hn
  obtain ⟨r, hr⟩ := Option.isSome_iff_exists.mp hreceived
  rcases hphase with htask | hanswer
  · obtain ⟨task, htask⟩ := Option.isSome_iff_exists.mp htask
    have haccount := ((h.accounts n).task task htask).2
    cases task with
    | heartbeatSelect body orders =>
      obtain ⟨-, -, hheld, hdevice⟩ := haccount
      refine .inr ⟨_, htask, ?_⟩
      rw [hheld] at horder hne
      cases orders with
      | nil => exact absurd rfl hne
      | cons first rest => exact congrArg some (hdevice order horder).symm
    | disconnectInsert deviceId connId rest =>
      obtain ⟨-, -, -, -, hnone⟩ := haccount
      exact absurd hnone hne
    | _ => exact absurd haccount.2.2 hne
  · obtain ⟨a, ha⟩ := Option.isSome_iff_exists.mp hanswer
    have haccount := (h.accounts n).answer a ha r hr
    rcases r with _ | _ | _ | (_ | body) | _ | ⟨guid, _ | connIds⟩
    case heartbeat.some =>
      obtain ⟨-, hdevice, hnumbers, hother⟩ := haccount
      have hheartbeat : ∃ answer, a = .heartbeat answer := by
        by_contra hnone
        exact hne (hother fun answer heq => hnone ⟨answer, heq⟩)
      obtain ⟨answer, rfl⟩ := hheartbeat
      exact .inl ⟨horder, body, answer, hr, (hdevice order horder).symm, ha, hnumbers answer rfl⟩
    case disconnect.some => exact absurd haccount.1 hne
    case disconnect.none => exact absurd haccount.2.1 hne
    all_goals exact absurd haccount.2 hne

/-- What was answered stays answered. -/
theorem Ledger.delivers_step (h : s.Ledger) (hdelivers : s.Delivers n order) (e : DeviceStep) :
    (s.step e).Delivers n order := by
  obtain ⟨horder, body, answer, hreceived, hid, ha, hnumbers⟩ := hdelivers
  have hn : n ≠ s.arrived := by
    rintro rfl
    rw [((h.accounts s.arrived).absent (le_refl _)).2.2.1] at ha
    exact nomatch ha
  have hidle : s.tasks n = none := by
    cases htask : s.tasks n with
    | none => rfl
    | some task =>
      rw [((h.accounts n).task task htask).1] at ha
      exact nomatch ha
  have hsame : s.SameAt (s.step e) n := by
    by_cases hsubject : n = s.subject e
    · refine step_rule (P := fun s' => s.SameAt s' n) ⟨Iff.rfl, rfl, rfl, rfl, rfl, rfl⟩ ?_ ?_ ?_
      · rintro r rfl
        exact absurd hsubject hn
      · rintro m task rfl htask
        obtain rfl : n = m := hsubject
        exact nomatch hidle.symm.trans htask
      · rintro m task rfl htask
        obtain rfl : n = m := hsubject
        exact nomatch hidle.symm.trans htask
    · exact sameAt_step hsubject
  refine ⟨hsame.takenBy.symm ▸ horder, body, answer, hsame.received.trans hreceived, hid, hsame.answers.trans ha, ?_⟩
  rw [hsame.takenBy, hnumbers]

theorem ordered_step (horder : order ∈ s.ordered) (e : DeviceStep) : order ∈ (s.step e).ordered := by
  obtain ⟨s', hsame, rfl | ⟨n, task, -, -, hwrites⟩⟩ := s.step_tables e
  · rwa [hsame.ordered]
  · rw [hsame.ordered]
    cases hwrites with
    | devices => exact horder
    | enqueue => exact mem_cons_of_mem _ horder
    | dequeue => exact horder

/-- An order that has left the queue does not come back. -/
theorem Ledger.queue_step (h : s.Ledger) (horder : order ∈ s.ordered) (hqueue : order ∉ s.queue) (e : DeviceStep) :
    order ∉ (s.step e).queue := by
  obtain ⟨s', hsame, rfl | ⟨n, task, -, -, hwrites⟩⟩ := s.step_tables e
  · rwa [hsame.queue]
  · rw [hsame.queue]
    cases hwrites with
    | devices => exact hqueue
    | enqueue deviceId connId rest number =>
      intro hmem
      rcases mem_append.mp hmem with hold | hnew
      · exact hqueue hold
      · have hserial : order.serial = s.nextSerial := by rw [mem_singleton.mp hnew]
        exact absurd hserial (Nat.ne_of_lt (h.balanced.fresh order horder))
    | dequeue body => exact fun hmem => hqueue (mem_of_mem_filter hmem)

/-- What the heartbeats of a device from a number on do to an order that was inserted before. -/
structure Settling (s : DeviceServer) (first : ℕ) (order : Order) : Prop where
  ordered : order ∈ s.ordered
  passed : ∀ m body orders, first ≤ m → s.tasks m = some (.heartbeatSelect body orders) → body.id = order.deviceId →
    order ∉ s.queue
  delivered : ∀ m body answer, first ≤ m → s.received m = some (.heartbeat (some body)) → body.id = order.deviceId →
    s.answers m = some (.heartbeat answer) → ∃ n, s.Delivers n order

/-- Before the heartbeats arrive. -/
theorem Ledger.settling (h : s.Ledger) (horder : order ∈ s.ordered) : s.Settling s.arrived order where
  ordered := horder
  passed m body orders hm htask := by
    rw [((h.accounts m).absent hm).2.1] at htask
    exact nomatch htask
  delivered m body answer hm _ _ ha := by
    rw [((h.accounts m).absent hm).2.2.1] at ha
    exact nomatch ha

/-- The last statement of a heartbeat: the order is in its answer or in an earlier one. -/
theorem Settling.answered {first : ℕ} (h : s.Settling first order) (hledger : s.Ledger)
    (hunlost : s.Unlost (.advance m)) (hm : first ≤ m)
    (htask : s.tasks m = some (.heartbeatSelect body orders)) (hid : body.id = order.deviceId) :
    ∃ n, (s.step (.advance m)).Delivers n order := by
  obtain ⟨n, hn⟩ := hledger.balanced.taken h.ordered (h.passed m body orders hm htask hid)
  refine ⟨n, ?_⟩
  have hledger' := hledger.step hunlost
  rcases hledger.taken hn with hdelivers | ⟨task, hholder, hholds⟩
  · exact hledger.delivers_step hdelivers _
  · by_cases hnm : n = m
    · subst hnm
      have htaken : (s.step (.advance n)).takenBy n = s.takenBy n := by
        rw [step_advance htask]
        rfl
      rcases hledger'.taken (htaken ▸ hn) with hdelivers | ⟨task', htask', -⟩
      · exact hdelivers
      · rw [step_advance htask] at htask'
        exact nomatch answer_tasks.symm.trans htask'
    · -- Nobody else holds orders of the device.
      have hlt : n < s.arrived := by
        by_contra hle
        rw [((hledger.accounts n).absent (not_lt.mp hle)).2.1] at hholder
        exact nomatch hholder
      exact absurd (hid ▸ hholds) (hunlost _ htask n hlt hnm task hholder)

/-- Only the last statement of a heartbeat answers it. -/
theorem answered_heartbeat (hledger : s.Ledger) {answer : HeartbeatAnswer}
    (hreceived : (s.step e).received (s.subject e) = some (.heartbeat (some body)))
    (ha : (s.step e).answers (s.subject e) = some (.heartbeat answer)) :
    s.received (s.subject e) = some (.heartbeat (some body)) ∧ s.answers (s.subject e) = some (.heartbeat answer) ∨
      e = .advance (s.subject e) ∧ ∃ orders, s.tasks (s.subject e) = some (.heartbeatSelect body orders) := by
  cases e with
  | request r =>
    have hr : r = .heartbeat (some body) := Option.some.inj ((step_request r).symm.trans hreceived)
    subst hr
    have hnone : s.answers s.arrived = none := ((hledger.accounts s.arrived).absent (le_refl _)).2.2.1
    exact nomatch hnone.symm.trans ha
  | advance n =>
    cases htask : s.tasks n with
    | none =>
      rw [(step_idle htask).1] at ha hreceived
      exact .inl ⟨hreceived, ha⟩
    | some task =>
      rw [step_advance htask] at ha hreceived
      rw [(s.advance_requests n task).1] at hreceived
      obtain ⟨hanswers, haccount⟩ := (hledger.accounts n).task task htask
      have hrequest {r : DeviceRequest} (hr : s.received n = some r) : r = .heartbeat (some body) :=
        Option.some.inj (hr.symm.trans hreceived)
      cases task with
      | heartbeatUpdate body' => exact nomatch hanswers.symm.trans ha
      | heartbeatDelete body' => exact nomatch hanswers.symm.trans ha
      | heartbeatSelect body' orders =>
        obtain rfl : body' = body := by simpa using hrequest haccount.1
        exact .inr ⟨rfl, orders, htask⟩
      | disconnectSelect => exact nomatch hrequest haccount.1
      | disconnectInsert =>
        obtain ⟨_, _, hr, -⟩ := haccount
        exact nomatch hrequest hr
      | _ => exact nomatch haccount.1 _ hreceived
  | fail n =>
    cases htask : s.tasks n with
    | none =>
      rw [(step_idle htask).2] at ha hreceived
      exact .inl ⟨hreceived, ha⟩
    | some task =>
      rw [step_fail htask] at ha
      exact nomatch answer_answers.symm.trans ha

/-- A heartbeat that is about to be answered has emptied the queue of its device. -/
theorem queue_of_heartbeatSelect
    (htask : (s.step e).tasks (s.subject e) = some (.heartbeatSelect body orders)) (hid : body.id = order.deviceId) :
    s.tasks (s.subject e) = some (.heartbeatSelect body orders) ∨ order ∉ (s.step e).queue := by
  cases e with
  | request r =>
    have hparked : (s.receive r).tasks s.arrived = some (.heartbeatSelect body orders) := htask
    exact nomatch first_of_receive hparked
  | advance n =>
    cases hbefore : s.tasks n with
    | none =>
      rw [(step_idle hbefore).1] at htask
      exact .inl htask
    | some task =>
      rw [step_advance hbefore] at htask ⊢
      cases advance_follows htask with
      | heartbeatSelect body =>
        refine .inr fun hmem => ?_
        have hother : order.deviceId ≠ body.id := by simpa using (mem_filter.mp hmem).2
        exact hother hid.symm
  | fail n =>
    cases hbefore : s.tasks n with
    | none =>
      rw [(step_idle hbefore).2] at htask
      exact .inl htask
    | some task =>
      rw [step_fail hbefore] at htask
      exact nomatch answer_tasks.symm.trans htask

theorem Settling.step {first : ℕ} (h : s.Settling first order) (hledger : s.Ledger) (hunlost : s.Unlost e) :
    (s.step e).Settling first order := by
  refine ⟨ordered_step h.ordered e, fun m body orders hm htask hid => ?_, fun m body answer hm hreceived hid ha => ?_⟩
  · have hkept (htask : s.tasks m = some (.heartbeatSelect body orders)) : order ∉ (s.step e).queue :=
      hledger.queue_step h.ordered (h.passed m body orders hm htask hid) e
    by_cases hsubject : m = s.subject e
    · subst hsubject
      exact (queue_of_heartbeatSelect htask hid).elim hkept id
    · exact hkept ((sameAt_step hsubject).tasks.symm.trans htask)
  · have hkept (hreceived : s.received m = some (.heartbeat (some body)))
        (ha : s.answers m = some (.heartbeat answer)) : ∃ n, (s.step e).Delivers n order := by
      obtain ⟨n, hdelivers⟩ := h.delivered m body answer hm hreceived hid ha
      exact ⟨n, hledger.delivers_step hdelivers e⟩
    by_cases hsubject : m = s.subject e
    · subst hsubject
      rcases answered_heartbeat hledger hreceived ha with ⟨hreceived, ha⟩ | ⟨heq, orders, htask⟩
      · exact hkept hreceived ha
      · rw [heq] at hunlost
        have hanswered := h.answered hledger hunlost hm htask hid
        rwa [← heq] at hanswered
    · exact hkept ((sameAt_step hsubject).received.symm.trans hreceived) ((sameAt_step hsubject).answers.symm.trans ha)

end Ledger

/-- Every order of a disconnect request that was answered `OK` is in exactly one answer once a later heartbeat of its
device was answered, no order is taken twice, and a request that was not answered `OK` has left no order, in every run whose
steps lose none. -/
theorem orders_delivered (before after : List DeviceStep) (h : RunMeets step Unlost {} (before ++ after)) :
    (runEvents step {} (before ++ after)).Accepted ∧ (runEvents step {} (before ++ after)).TakenOnce ∧
      ∀ n order, (runEvents step {} before).answers n = some (.result "OK") → order ∈ (runEvents step {} before).ordersOf n →
        ∀ m body answer, (runEvents step {} before).arrived ≤ m →
          (runEvents step {} (before ++ after)).received m = some (.heartbeat (some body)) → body.id = order.deviceId →
          (runEvents step {} (before ++ after)).answers m = some (.heartbeat answer) →
          ∃! k, (runEvents step {} (before ++ after)).Delivers k order := by
  have hempty : Ledger {} :=
    { accounts := fun n =>
        { absent := fun _ => ⟨rfl, rfl, rfl, rfl, rfl⟩
          task := fun _ htask => nomatch htask
          answer := fun _ ha => nomatch ha
          present := fun hn => absurd hn (Nat.not_lt_zero n) }
      balanced := ⟨List.nodup_nil, fun _ hmem => (nomatch hmem), .refl _⟩
      addressed := ⟨fun _ _ _ _ htask => (nomatch htask), fun _ hmem => nomatch hmem⟩ }
  have hstep : ∀ s e, Ledger s → s.Unlost e → (s.step e).Ledger := fun _ _ hledger hunlost => hledger.step hunlost
  obtain ⟨hbefore, hafter⟩ := runMeets_append.mp h
  have hfirst := runEvents_invariant hstep hempty hbefore
  have hlast := runEvents_invariant hstep hempty h
  refine ⟨hlast.accepted, hlast.balanced.takenOnce, fun n order hok horder m body answer hm hreceived hid ha => ?_⟩
  have hordered : order ∈ (runEvents step {} before).ordered := (by simpa [ordersOf] using horder : _ ∧ _).1
  have hsettling := runEvents_invariant
    (I := fun s => s.Ledger ∧ s.Settling (runEvents step {} before).arrived order)
    (fun s e hs hunlost => ⟨hs.1.step hunlost, hs.2.step hs.1 hunlost⟩) ⟨hfirst, hfirst.settling hordered⟩ hafter
  rw [← runEvents_append] at hsettling
  obtain ⟨k, hk⟩ := hsettling.2.delivered m body answer hm hreceived hid ha
  exact ⟨k, hk, fun k' hk' => (hlast.balanced.takenOnce.2 k' k order hk'.1 hk.1)⟩

/-- A device registers, and a user disconnects two of its connections. -/
def sampleOrders : List DeviceStep :=
  [.request (.sysinfo { id := "id" }), .advance 0, .advance 0, .request (.disconnect 0 (some [7, 8])), .advance 1,
    .advance 1, .advance 1]

/-- The device asks for its orders. -/
def sampleHeartbeat : List DeviceStep := [.request (.heartbeat (some { id := "id" })), .advance 2, .advance 2, .advance 2]

theorem orders_delivered_sample : ∃! k, (runEvents step {} (sampleOrders ++ sampleHeartbeat)).Delivers k
    { serial := 1, deviceId := "id", connId := 8, request := 1 } :=
  (orders_delivered sampleOrders sampleHeartbeat (by decide)).2.2 1 _ (by decide)
    (by decide) 2 { id := "id" } { disconnect := [7, 8] } (by decide) (by decide) rfl
    (by decide)

/-- The first heartbeat fails after it has taken the orders, and the second succeeds. -/
def sampleFailure : List DeviceStep :=
  sampleOrders ++ [.request (.heartbeat (some { id := "id" })), .advance 2, .advance 2, .fail 2,
    .request (.heartbeat (some { id := "id" })), .advance 3, .advance 3, .advance 3]

/-- A disconnect request whose second number does not fit. -/
def sampleMisfit : List DeviceStep :=
  [.request (.sysinfo { id := "id" }), .advance 0, .advance 0, .request (.disconnect 0 (some [7, 3 / 2])), .advance 1,
    .advance 1, .advance 1]

/-- A heartbeat that fails after its deletion loses the orders that it has taken, and a number that the column does not
hold leaves the orders before it behind. -/
theorem orders_lost : ((runEvents step {} sampleOrders).answers 1 = some (.result "OK") ∧
      (runEvents step {} sampleFailure).answers 3 = some (.heartbeat {}) ∧
      ¬ ∃ k, (runEvents step {} sampleFailure).Delivers k { serial := 1, deviceId := "id", connId := 8, request := 1 }) ∧
      ¬ (runEvents step {} sampleMisfit).Accepted := by
  refine ⟨⟨by decide, by decide, ?_⟩, fun haccepted => ?_⟩
  · rintro ⟨k, hmem, body, answer, -, -, ha, -⟩
    have htaken : ∀ pair ∈ (runEvents step {} sampleFailure).taken, pair.1 = 2 := by decide
    obtain rfl : k = 2 := htaken _ (mem_takenBy.mp hmem)
    have hfailed : (runEvents step {} sampleFailure).answers 2 = some (.error 500 "Internal Server Error") := by
      decide
    exact nomatch hfailed.symm.trans ha
  · have hrefused := (haccepted 1 0 (some [7, 3 / 2]) (.error 500 "invalid input for type integer") (by decide +kernel)
      (by decide +kernel)).2 (by decide)
    exact absurd hrefused (by decide +kernel)

end DeviceServer

end UnyDesk.Api
