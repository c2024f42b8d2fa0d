import Mathlib.Data.List.AList
import UnyDesk.Config.Storage
import UnyDesk.Server.FrameController
import UnyDesk.Server.Snapshot

/-!
# Which displays a connection captures

There is a video service for each display, and a connection sees the displays whose services it is subscribed to. The
peer asks for displays in one of three ways: some more, some fewer, or just some. All three go through one routine, which
is told whether to subscribe the displays of a list and whether to unsubscribe the others. For fewer displays it is given
the list of those to go and told to unsubscribe the others, so that it keeps just these.
-/

namespace UnyDesk

open Lib ServiceInner Subscriber SubscriberMap List AList

def VideoSource.serviceNamePrefix : VideoSource → String
  | .monitor => "monitor"
  | .camera => "camera"

def getServiceName (source : VideoSource) (idx : ℕ) : String := source.serviceNamePrefix ++ toString idx

def nameWindowFocus : String := "window_focus"

section Services

variable {T M : Type} [Subscriber T M] {display : ℕ} {source : VideoSource}

/-- A service whose maps of subscribers have no key in common, the second one being for snapshots. -/
structure RegisteredService (T : Type) {M : Type} [Subscriber T M] where
  inner : ServiceInner T
  apart : ∀ id ∈ inner.subscribes.keys, id ∉ inner.newSubscribes.keys
  waiting : inner.needSnapshot = false → inner.newSubscribes.keys = []

namespace RegisteredService

variable {inner : ServiceInner T}

theorem apart_onSubscribe (hapart : ∀ id ∈ inner.subscribes.keys, id ∉ inner.newSubscribes.keys)
    (hwaiting : inner.needSnapshot = false → inner.newSubscribes.keys = []) (conn : T) :
    ∀ id ∈ (inner.onSubscribe conn).subscribes.keys, id ∉ (inner.onSubscribe conn).newSubscribes.keys := by
  rw [onSubscribe]
  split
  · exact hapart
  · rename_i hnew
    split
    · intro id hid hwaits
      rcases mem_keys_insert.mp hwaits with rfl | hwaits
      · exact hnew hid
      · exact hapart id hid hwaits
    · rename_i hsnapshot
      dsimp only
      rw [hwaiting (Bool.eq_false_iff.mpr hsnapshot)]
      exact fun id _ => not_mem_nil

theorem waiting_onSubscribe (hwaiting : inner.needSnapshot = false → inner.newSubscribes.keys = []) (conn : T) :
    (inner.onSubscribe conn).needSnapshot = false → (inner.onSubscribe conn).newSubscribes.keys = [] := by
  rw [onSubscribe]
  split
  · exact hwaiting
  · split
    · rename_i hsnapshot
      exact fun hnone => absurd (hnone.symm.trans hsnapshot) Bool.false_ne_true
    · exact hwaiting

theorem apart_onUnsubscribe (hapart : ∀ id ∈ inner.subscribes.keys, id ∉ inner.newSubscribes.keys) (id' : Int) :
    ∀ id ∈ (inner.onUnsubscribe id').subscribes.keys, id ∉ (inner.onUnsubscribe id').newSubscribes.keys := by
  rw [onUnsubscribe]
  split
  · exact fun id hid => hapart id (mem_keys_remove.mp hid).1
  · exact fun id hid hwaits => hapart id hid (mem_keys_remove.mp hwaits).1

theorem waiting_onUnsubscribe (hwaiting : inner.needSnapshot = false → inner.newSubscribes.keys = []) (id : Int) :
    (inner.onUnsubscribe id).needSnapshot = false → (inner.onUnsubscribe id).newSubscribes.keys = [] := by
  rw [onUnsubscribe]
  split
  · exact hwaiting
  · intro hnone
    refine eq_nil_iff_forall_not_mem.mpr fun id' hid => ?_
    have hmem := (mem_keys_remove.mp hid).1
    rw [hwaiting hnone] at hmem
    exact not_mem_nil hmem

def new (needSnapshot : Bool) : RegisteredService T where
  inner := .new needSnapshot
  apart := fun _ hid => absurd hid List.not_mem_nil
  waiting := fun _ => rfl

def onSubscribe (service : RegisteredService T) (conn : T) : RegisteredService T where
  inner := service.inner.onSubscribe conn
  apart := apart_onSubscribe service.apart service.waiting conn
  waiting := waiting_onSubscribe service.waiting conn

def onUnsubscribe (service : RegisteredService T) (id : Int) : RegisteredService T where
  inner := service.inner.onUnsubscribe id
  apart := apart_onUnsubscribe service.apart id
  waiting := waiting_onUnsubscribe service.waiting id

def isSubed (service : RegisteredService T) (id : Int) : Bool := service.inner.isSubed id

variable {service : RegisteredService T} {id : Int}

@[simp] theorem isSubed_new (needSnapshot : Bool) (id : Int) :
    (new needSnapshot : RegisteredService T).isSubed id = false :=
  rfl

theorem isSubed_eq_true_iff :
    service.isSubed id = true ↔ id ∈ service.inner.subscribes.keys ∨ id ∈ service.inner.newSubscribes.keys :=
  WatchedService.isSubed_iff

theorem isSubed_onSubscribe (conn : T) :
    (service.onSubscribe conn).isSubed id = true ↔ id = Subscriber.id conn ∨ service.isSubed id = true := by
  rw [isSubed_eq_true_iff, isSubed_eq_true_iff, onSubscribe]
  dsimp only
  rw [ServiceInner.onSubscribe]
  split
  · rename_i hmem
    refine (or_iff_right_of_imp fun heq => ?_).symm
    exact .inl (heq ▸ hmem)
  · split
    · rw [mem_keys_insert, or_left_comm]
    · rw [mem_keys_insert, or_assoc]

theorem isSubed_onUnsubscribe (id' : Int) :
    (service.onUnsubscribe id').isSubed id = true ↔ id ≠ id' ∧ service.isSubed id = true := by
  rw [isSubed_eq_true_iff, isSubed_eq_true_iff, onUnsubscribe]
  dsimp only
  rw [ServiceInner.onUnsubscribe]
  split
  · rename_i hmem
    dsimp only
    rw [mem_keys_remove]
    have hwaits := service.apart id' hmem
    constructor
    · rintro (⟨hid, hne⟩ | hid)
      · exact ⟨hne, .inl hid⟩
      · exact ⟨fun heq => hwaits (heq ▸ hid), .inr hid⟩
    · rintro ⟨hne, hid | hid⟩
      · exact .inl ⟨hid, hne⟩
      · exact .inr hid
  · rename_i hmem
    dsimp only
    rw [mem_keys_remove]
    constructor
    · rintro (hid | ⟨hid, hne⟩)
      · exact ⟨fun heq => hmem (heq ▸ hid), .inl hid⟩
      · exact ⟨hne, .inr hid⟩
    · rintro ⟨hne, hid | hid⟩
      · exact .inl hid
      · exact .inr ⟨hid, hne⟩

end RegisteredService

/-- The services of the server by their names. -/
structure Server (T : Type) {M : Type} [Subscriber T M] where
  services : AList fun _ : String => RegisteredService T

namespace Server

def isVideoServiceName (name : String) : Bool :=
  startsWith name VideoSource.monitor.serviceNamePrefix || startsWith name VideoSource.camera.serviceNamePrefix

def addService (server : Server T) (name : String) (service : RegisteredService T) : Server T :=
  { services := server.services.insert name service }

def contains (server : Server T) (name : String) : Bool := (server.services.lookup name).isSome

/-- Whether the connection is subscribed to the service of that name. -/
def isSubed (server : Server T) (name : String) (id : Int) : Bool :=
  match server.services.lookup name with
  | some service => service.isSubed id
  | none => false

section

variable (server : Server T)

def subscribe (name : String) (conn : T) (sub : Bool) : Server T :=
  match server.services.lookup name with
  | some service =>
    if service.isSubed (Subscriber.id conn) = sub then server
    else if sub then { services := server.services.insert name (service.onSubscribe conn) }
    else { services := server.services.insert name (service.onUnsubscribe (Subscriber.id conn)) }
  | none => server

def getSubbedDisplaysCount (connId : Int) : ℕ :=
  (server.services.keys.filter fun name => isVideoServiceName name && server.isSubed name connId).length

def captureDisplays (conn : T) (source : VideoSource) (displays : List ℕ) (incl excl : Bool) :
    Server T :=
  let displays := displays.map (getServiceName source)
  server.services.keys.foldl (fun server name =>
      if isVideoServiceName name then
        if name ∈ displays then
          if incl then server.subscribe name conn true else server
        else
          if excl then server.subscribe name conn false else server
      else server)
    server

end

end Server

/-- What a connection needs to choose its displays. -/
structure DisplayConnection (T : Type) {M : Type} [Subscriber T M] where
  inner : T
  viewCamera : Bool := false
  followRemoteWindow : Bool := false
  multiUiSession : Bool := false

namespace DisplayConnection

def videoSource (conn : DisplayConnection T) : VideoSource := if conn.viewCamera then .camera else .monitor

/-- A display that has no service yet gets one. -/
def ensureService (source : VideoSource) (server : Server T) (display : ℕ) : Server T :=
  let serviceName := getServiceName source display
  if server.contains serviceName then server else server.addService serviceName (.new true)

def captureDisplays (conn : DisplayConnection T) (server : Server T) (add sub set : List ℕ) :
    Server T × DisplayConnection T :=
  let videoSource := conn.videoSource
  let server := add.foldl (ensureService videoSource) server
  let server := set.foldl (ensureService videoSource) server
  let server :=
    if add ≠ [] then server.captureDisplays conn.inner videoSource add true false
    else if sub ≠ [] then server.captureDisplays conn.inner videoSource sub false true
    else server.captureDisplays conn.inner videoSource set true true
  let multiUiSession := decide (1 < server.getSubbedDisplaysCount (Subscriber.id conn.inner))
  let server :=
    if conn.followRemoteWindow then server.subscribe nameWindowFocus conn.inner (!multiUiSession) else server
  (server, { conn with multiUiSession })

end DisplayConnection

section Names

theorem getServiceName_toList (source : VideoSource) (idx : ℕ) :
    (getServiceName source idx).toList = source.serviceNamePrefix.toList ++ Nat.toDigits 10 idx := by
  rw [getServiceName, String.toList_append]
  exact congrArg (source.serviceNamePrefix.toList ++ ·) Nat.toList_repr

/-- The displays of a source have different names. -/
theorem getServiceName_inj {idx idx' : ℕ} : getServiceName source idx = getServiceName source idx' ↔ idx = idx' := by
  constructor
  · intro h
    have hlists := congrArg String.toList h
    rw [getServiceName_toList, getServiceName_toList] at hlists
    have hnumbers := congrArg (Nat.ofDigitChars 10 · 0) (append_cancel_left hlists)
    simpa using hnumbers
  · rintro rfl
    rfl

theorem isVideoServiceName_getServiceName (source : VideoSource) (idx : ℕ) :
    Server.isVideoServiceName (getServiceName source idx) = true := by
  rw [Server.isVideoServiceName, startsWith, startsWith, getServiceName_toList]
  cases source
  · rw [List.isPrefixOf_iff_prefix.mpr (prefix_append _ _), Bool.true_or]
  · rw [List.isPrefixOf_iff_prefix.mpr (prefix_append VideoSource.camera.serviceNamePrefix.toList _), Bool.or_true]

theorem getServiceName_ne_windowFocus (source : VideoSource) (idx : ℕ) :
    getServiceName source idx ≠ nameWindowFocus := by
  intro h
  have hvideo := isVideoServiceName_getServiceName source idx
  rw [h] at hvideo
  exact absurd hvideo (by decide)

end Names

namespace Server

variable {server : Server T} {name name' : String} {conn : T} {id : Int}

theorem lookup_of_not_contains (h : server.contains name = false) : server.services.lookup name = none :=
  Option.not_isSome_iff_eq_none.mp (Bool.eq_false_iff.mp h)

theorem isSubed_of_not_contains (h : server.contains name = false) (id : Int) : server.isSubed name id = false := by
  rw [isSubed, lookup_of_not_contains h]

@[simp] theorem contains_addService (service : RegisteredService T) :
    (server.addService name service).contains name' = true ↔ name' = name ∨ server.contains name' = true := by
  rw [contains, contains, addService, lookup_isSome, lookup_isSome, mem_insert]

@[simp] theorem isSubed_addService (service : RegisteredService T) (id : Int) :
    (server.addService name service).isSubed name' id =
      if name' = name then service.isSubed id else server.isSubed name' id := by
  by_cases hname : name' = name
  · rw [if_pos hname, hname, isSubed, addService, lookup_insert]
  · rw [if_neg hname, isSubed, isSubed, addService, lookup_insert_ne hname]

/-- A subscription to a service that is there. -/
theorem subscribe_of_lookup {service : RegisteredService T} (h : server.services.lookup name = some service) (conn : T)
    (sub : Bool) :
    server.subscribe name conn sub = if service.isSubed (Subscriber.id conn) = sub then server
      else server.addService name
        (if sub then service.onSubscribe conn else service.onUnsubscribe (Subscriber.id conn)) := by
  rw [subscribe, h]
  cases sub <;> rfl

theorem contains_subscribe (conn : T) (sub : Bool) :
    (server.subscribe name conn sub).contains name' = server.contains name' := by
  cases hlookup : server.services.lookup name with
  | none => rw [subscribe, hlookup]
  | some service =>
    have hcontains : server.contains name = true := by rw [contains, hlookup]; rfl
    rw [subscribe_of_lookup hlookup]
    split
    · rfl
    · rw [Bool.eq_iff_iff, contains_addService]
      exact or_iff_right_of_imp fun hname => hname ▸ hcontains

/-- A subscription concerns one connection, and one service if it is there. -/
theorem isSubed_subscribe (conn : T) (sub : Bool) (id : Int) : (server.subscribe name conn sub).isSubed name' id =
      if id = Subscriber.id conn ∧ name' = name ∧ server.contains name = true then sub else server.isSubed name' id := by
  cases hlookup : server.services.lookup name with
  | none =>
    have hcontains : ¬server.contains name = true := by rw [contains, hlookup]; exact Bool.false_ne_true
    rw [subscribe, hlookup, if_neg fun h => hcontains h.2.2]
  | some service =>
    have hcontains : server.contains name = true := by rw [contains, hlookup]; rfl
    have hservice : ∀ id, server.isSubed name id = service.isSubed id := fun id => by rw [isSubed, hlookup]
    rw [subscribe_of_lookup hlookup]
    by_cases hname : name' = name
    · subst hname
      split
      · rename_i hsame
        split
        · rename_i hid
          rw [hid.1, hservice, hsame]
        · rfl
      · rename_i hchange
        rw [isSubed_addService, if_pos rfl, hservice, Bool.eq_iff_iff]
        cases sub with
        | true =>
          rw [if_pos rfl, RegisteredService.isSubed_onSubscribe]
          by_cases hid : id = Subscriber.id conn <;> simp [hid, hcontains]
        | false =>
          rw [if_neg Bool.false_ne_true, RegisteredService.isSubed_onUnsubscribe]
          by_cases hid : id = Subscriber.id conn <;> simp [hid, hcontains]
    · have hother : ¬(id = Subscriber.id conn ∧ name' = name ∧ server.contains name = true) := fun h => hname h.2.1
      rw [if_neg hother]
      split
      · rfl
      · rw [isSubed_addService, if_neg hname]

/-- What is decided about a video service: to subscribe it, to unsubscribe it, or nothing. -/
def decision (displays : List String) (incl excl : Bool) (name : String) : Option Bool :=
  if isVideoServiceName name then
    if name ∈ displays then if incl then some true else none
    else if excl then some false else none
  else none

/-- A service about which something may be decided. -/
theorem contains_decided (sub : Option Bool) (conn : T) :
    (sub.elim server (server.subscribe name conn)).contains name' = server.contains name' := by
  cases sub with
  | none => rfl
  | some sub => exact contains_subscribe conn sub

theorem isSubed_decided (sub : Option Bool) (conn : T) (id : Int) :
    (sub.elim server (server.subscribe name conn)).isSubed name' id =
      if id = Subscriber.id conn ∧ name' = name ∧ server.contains name = true then sub.getD (server.isSubed name' id)
      else server.isSubed name' id := by
  cases sub with
  | none => exact (ite_self _).symm
  | some sub => exact isSubed_subscribe conn sub id

/-- A loop over services that decides about each by its name. -/
theorem isSubed_foldl_subscribe (decide : String → Option Bool) (names : List String) (conn : T) (id : Int) :
    let after := names.foldl (fun server name => (decide name).elim server (server.subscribe name conn)) server
    (∀ name, after.contains name = server.contains name) ∧ ∀ name, after.isSubed name id =
        if id = Subscriber.id conn ∧ name ∈ names ∧ server.contains name = true then
          (decide name).getD (server.isSubed name id)
        else server.isSubed name id := by
  induction names generalizing server with
  | nil => simp
  | cons first names ih =>
    obtain ⟨hcontains, hsubed⟩ := @ih ((decide first).elim server (server.subscribe first conn))
    refine ⟨fun name => (hcontains name).trans (contains_decided (decide first) conn), fun name => ?_⟩
    rw [foldl_cons, hsubed, contains_decided, isSubed_decided]
    by_cases hname : name = first
    · subst hname
      by_cases hhere : id = Subscriber.id conn ∧ server.contains name = true
      · cases decide name <;> simp [hhere.1, hhere.2]
      · have hnever : ∀ P : Prop, ¬(id = Subscriber.id conn ∧ P ∧ server.contains name = true) :=
          fun P h => hhere ⟨h.1, h.2.2⟩
        rw [if_neg (hnever _), if_neg (hnever _), if_neg (hnever _)]
    · simp [hname]

theorem captureDisplays_eq (server : Server T) (conn : T) (source : VideoSource) (displays : List ℕ) (incl excl : Bool) :
    server.captureDisplays conn source displays incl excl = server.services.keys.foldl (fun server name =>
          (decision (displays.map (getServiceName source)) incl excl name).elim server (server.subscribe name conn))
        server := by
  rw [captureDisplays]
  congr 1
  funext server name
  rw [decision]
  split
  · split
    · split <;> rfl
    · split <;> rfl
  · rfl

/-- The displays of a source that a connection sees. -/
def displays (server : Server T) (source : VideoSource) (id : Int) : Set ℕ :=
  {display | server.isSubed (getServiceName source display) id = true}

theorem isSubed_captureDisplays (conn : T) (source : VideoSource) (displays : List ℕ) (incl excl : Bool) (id : Int) :
    (server.captureDisplays conn source displays incl excl).isSubed name id =
      if id = Subscriber.id conn ∧ server.contains name = true then
        (decision (displays.map (getServiceName source)) incl excl name).getD (server.isSubed name id)
      else server.isSubed name id := by
  have hmem : name ∈ server.services.keys ↔ server.contains name = true := lookup_isSome.symm
  rw [captureDisplays_eq, (isSubed_foldl_subscribe _ _ conn id).2]
  simp only [hmem, and_self_iff]

/-- What the routine makes of the displays that the connection sees. -/
theorem mem_displays_captureDisplays {list : List ℕ} {incl excl : Bool}
    (hservice : incl = true → display ∈ list → server.contains (getServiceName source display) = true) :
    display ∈ (server.captureDisplays conn source list incl excl).displays source (Subscriber.id conn) ↔
      if display ∈ list then incl = true ∨ display ∈ server.displays source (Subscriber.id conn)
      else excl = false ∧ display ∈ server.displays source (Subscriber.id conn) := by
  have hlist : getServiceName source display ∈ list.map (getServiceName source) ↔ display ∈ list := by
    simp [getServiceName_inj]
  change (server.captureDisplays conn source list incl excl).isSubed (getServiceName source display)
    (id conn) = true ↔ if display ∈ list then incl = true ∨ server.isSubed (getServiceName source display)
      (id conn) = true else excl = false ∧ server.isSubed (getServiceName source display) (id conn) = true
  rw [isSubed_captureDisplays, decision, if_pos (isVideoServiceName_getServiceName source display)]
  simp only [hlist, true_and]
  cases hcontains : server.contains (getServiceName source display) with
  | false =>
    have hnone := isSubed_of_not_contains hcontains (id conn)
    rw [hcontains] at hservice
    by_cases hmem : display ∈ list <;> cases incl <;> simp_all
  | true => by_cases hmem : display ∈ list <;> cases incl <;> cases excl <;> simp [hmem]

end Server

namespace DisplayConnection

variable {server : Server T} {source : VideoSource} {conn : DisplayConnection T} {add sub set : List ℕ}

theorem contains_ensureService {name : String} : (ensureService source server display).contains name = true ↔
      name = getServiceName source display ∨ server.contains name = true := by
  rw [ensureService]
  split
  · rename_i hthere
    exact (or_iff_right_of_imp fun hname => hname ▸ hthere).symm
  · exact Server.contains_addService _

theorem isSubed_ensureService (display : ℕ) (name : String) (id : Int) :
    (ensureService source server display).isSubed name id = server.isSubed name id := by
  rw [ensureService]
  split
  · rfl
  · rename_i hnew
    rw [Server.isSubed_addService]
    split
    · rename_i hname
      rw [hname, Server.isSubed_of_not_contains (Bool.eq_false_iff.mpr hnew), RegisteredService.isSubed_new]
    · rfl

/-- Services are added for displays that have none, and nobody is subscribed to them. -/
theorem foldl_ensureService (source : VideoSource) (displays : List ℕ) :
    let after := displays.foldl (ensureService source) server
    (∀ name, after.contains name = true ↔ name ∈ displays.map (getServiceName source) ∨ server.contains name = true) ∧
      ∀ name id, after.isSubed name id = server.isSubed name id := by
  induction displays generalizing server with
  | nil => simp
  | cons display displays ih =>
    obtain ⟨hcontains, hsubed⟩ := @ih (ensureService source server display)
    refine ⟨fun name => ?_, fun name id => ?_⟩
    · rw [foldl_cons, hcontains, contains_ensureService, map_cons, mem_cons, or_left_comm, or_assoc]
    · rw [foldl_cons, hsubed, isSubed_ensureService]

/-- The server before the routine is called. -/
def ensured (conn : DisplayConnection T) (server : Server T) (add set : List ℕ) : Server T :=
  set.foldl (ensureService conn.videoSource) (add.foldl (ensureService conn.videoSource) server)

theorem isSubed_ensured (name : String) (id : Int) :
    (conn.ensured server add set).isSubed name id = server.isSubed name id := by
  rw [ensured, (foldl_ensureService _ _).2, (foldl_ensureService _ _).2]

theorem contains_ensured (h : display ∈ add ∨ display ∈ set) :
    (conn.ensured server add set).contains (getServiceName conn.videoSource display) = true := by
  rw [ensured, (foldl_ensureService _ _).1, (foldl_ensureService _ _).1]
  rcases h with hadd | hset
  · exact .inr (.inl (mem_map_of_mem hadd))
  · exact .inl (mem_map_of_mem hset)

/-- The server behind the routine. -/
def captured (conn : DisplayConnection T) (server : Server T) (add sub set : List ℕ) : Server T :=
  let server := conn.ensured server add set
  if add ≠ [] then server.captureDisplays conn.inner conn.videoSource add true false
  else if sub ≠ [] then server.captureDisplays conn.inner conn.videoSource sub false true
  else server.captureDisplays conn.inner conn.videoSource set true true

/-- The service for the window in focus, which comes last, is none of the displays and none of another connection. -/
theorem isSubed_captureDisplays (name : String) (id : Int) (h : id ≠ Subscriber.id conn.inner ∨ name ≠ nameWindowFocus) :
    (conn.captureDisplays server add sub set).1.isSubed name id = (conn.captured server add sub set).isSubed name id := by
  rw [captureDisplays]
  dsimp only
  split
  · rw [Server.isSubed_subscribe, if_neg]
    · rfl
    · rintro ⟨hid, hname, -⟩
      exact h.elim (fun hne => hne hid) fun hne => hne hname
  · rfl

theorem displays_captureDisplays :
    (conn.captureDisplays server add sub set).1.displays conn.videoSource (Subscriber.id conn.inner) =
      (conn.captured server add sub set).displays conn.videoSource (Subscriber.id conn.inner) := by
  ext display
  change Server.isSubed _ _ _ = true ↔ Server.isSubed _ _ _ = true
  rw [isSubed_captureDisplays _ _ (.inr (getServiceName_ne_windowFocus _ display))]

theorem displays_ensured (source : VideoSource) (id : Int) :
    (conn.ensured server add set).displays source id = server.displays source id := by
  ext display
  change Server.isSubed _ _ _ = true ↔ Server.isSubed _ _ _ = true
  rw [isSubed_ensured]

/-- The displays that a connection sees after each of the three requests. -/
theorem displays_after_add (h : add ≠ []) :
    (conn.captureDisplays server add sub set).1.displays conn.videoSource (Subscriber.id conn.inner) =
      server.displays conn.videoSource (Subscriber.id conn.inner) ∪ {display | display ∈ add} := by
  rw [displays_captureDisplays, captured, if_pos h]
  ext display
  rw [Server.mem_displays_captureDisplays fun _ hmem => contains_ensured (.inl hmem), displays_ensured]
  by_cases hmem : display ∈ add <;> simp [hmem]

theorem displays_after_sub (hadd : add = []) (h : sub ≠ []) :
    (conn.captureDisplays server add sub set).1.displays conn.videoSource (Subscriber.id conn.inner) =
      server.displays conn.videoSource (Subscriber.id conn.inner) ∩ {display | display ∈ sub} := by
  rw [displays_captureDisplays, captured, if_neg (not_not.mpr hadd), if_pos h]
  ext display
  rw [Server.mem_displays_captureDisplays fun hincl => absurd hincl Bool.false_ne_true, displays_ensured]
  by_cases hmem : display ∈ sub <;> simp [hmem]

theorem displays_after_set (hadd : add = []) (hsub : sub = []) :
    (conn.captureDisplays server add sub set).1.displays conn.videoSource (Subscriber.id conn.inner) =
      {display | display ∈ set} := by
  rw [displays_captureDisplays, captured, if_neg (not_not.mpr hadd), if_neg (not_not.mpr hsub)]
  ext display
  rw [Server.mem_displays_captureDisplays fun _ hmem => contains_ensured (.inr hmem), displays_ensured]
  by_cases hmem : display ∈ set <;> simp [hmem]

/-- Other connections are left alone. -/
theorem isSubed_other {id : Int} (hid : id ≠ Subscriber.id conn.inner) (name : String) :
    (conn.captureDisplays server add sub set).1.isSubed name id = server.isSubed name id := by
  have hroutine : ∀ displays incl excl, ((conn.ensured server add set).captureDisplays conn.inner conn.videoSource displays
      incl excl).isSubed name id = server.isSubed name id := by
    intro displays incl excl
    rw [Server.isSubed_captureDisplays, if_neg fun h => hid h.1, isSubed_ensured]
  rw [isSubed_captureDisplays name id (.inl hid), captured]
  split
  · exact hroutine _ _ _
  · split <;> exact hroutine _ _ _

/-- The connection sees what it asked for: more displays, fewer, or some. -/
def CapturesAsAsked (conn : DisplayConnection T) (server : Server T) (add sub set : List ℕ) : Prop :=
  let seen := server.displays conn.videoSource (Subscriber.id conn.inner)
  let after := (conn.captureDisplays server add sub set).1
  after.displays conn.videoSource (Subscriber.id conn.inner) = (if add ≠ [] then seen ∪ {display | display ∈ add}
      else if sub ≠ [] then seen \ {display | display ∈ sub}
      else {display | display ∈ set}) ∧
    ∀ id ≠ Subscriber.id conn.inner, ∀ name, after.isSubed name id = server.isSubed name id

/-- What is in a set and what is not in it are the same only for nothing. -/
theorem inter_eq_sdiff_iff {seen given : Set ℕ} : seen ∩ given = seen \ given ↔ seen = ∅ := by
  constructor
  · intro heq
    have hdisjoint : Disjoint (seen \ given) (seen ∩ given) := Set.disjoint_sdiff_inter
    rw [heq, disjoint_self] at hdisjoint
    calc
      seen = seen ∩ given ∪ seen \ given := (Set.inter_union_sdiff seen given).symm
      _ = ∅ ∪ ∅ := congrArg₂ _ (heq.trans hdisjoint) hdisjoint
      _ = ∅ := Set.union_empty ∅
  · intro hnone
    rw [hnone, Set.empty_inter, Set.empty_sdiff]

/-- A connection gets what it asked for unless it sees some display and asks for fewer. -/
theorem capturesAsAsked_iff (conn : DisplayConnection T) (server : Server T) (add sub set : List ℕ) :
    conn.CapturesAsAsked server add sub set ↔
      add ≠ [] ∨ sub = [] ∨ server.displays conn.videoSource (Subscriber.id conn.inner) = ∅ := by
  have hothers : ∀ id ≠ Subscriber.id conn.inner, ∀ name,
      (conn.captureDisplays server add sub set).1.isSubed name id = server.isSubed name id :=
    fun id hid name => isSubed_other hid name
  rw [CapturesAsAsked, and_iff_left hothers]
  by_cases hadd : add = []
  · by_cases hsub : sub = []
    · rw [displays_after_set hadd hsub, if_neg (not_not.mpr hadd), if_neg (not_not.mpr hsub)]
      exact iff_of_true rfl (.inr (.inl hsub))
    · rw [displays_after_sub hadd hsub, if_neg (not_not.mpr hadd), if_pos hsub, inter_eq_sdiff_iff,
        or_iff_right (not_not.mpr hadd), or_iff_right hsub]
  · rw [displays_after_add hadd, if_pos hadd]
    exact iff_of_true rfl (.inl hadd)

/-- A connection that sees the displays 0 and 1 and asks not to see 1 any more. -/
theorem keeps_what_it_gives_up :
    ¬∀ (conn : DisplayConnection (ConnInner String)) (server : Server (ConnInner String)) (add sub set : List ℕ),
      conn.CapturesAsAsked server add sub set := by
  intro h
  let conn : DisplayConnection (ConnInner String) := { inner := { id := 1 } }
  let server := (conn.captureDisplays ⟨∅⟩ [0, 1] [] []).1
  have hadded : server.displays conn.videoSource 1 =
      (⟨∅⟩ : Server (ConnInner String)).displays conn.videoSource 1 ∪ {display | display ∈ [0, 1]} :=
    displays_after_add (List.cons_ne_nil 0 [1])
  have hsees : 0 ∈ server.displays conn.videoSource 1 := hadded ▸ Set.mem_union_right _ List.mem_cons_self
  have hasked := (h conn server [] [1] []).1
  rw [displays_after_sub rfl (List.cons_ne_nil 1 []), if_neg (by decide), if_pos (List.cons_ne_nil 1 [])] at hasked
  have hkept : 0 ∈ server.displays conn.videoSource 1 ∩ {display | display ∈ [1]} :=
    (Set.ext_iff.mp hasked 0).mpr ⟨hsees, by decide⟩
  exact absurd hkept.2 (by decide)

end DisplayConnection

end Services

end UnyDesk
