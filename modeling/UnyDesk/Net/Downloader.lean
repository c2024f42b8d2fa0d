import UnyDesk.Lib.Machine
import UnyDesk.Proto.Message

/-!
# Downloads of one URL

Downloads are kept in a map under their URLs, one entry for each. A call that finds no entry, or one with an error,
puts a new entry there and starts a thread; the thread reports what it does to the entry that is there under its URL.
An entry can be removed and replaced while the thread of an earlier call still runs: the thread then takes the later
entry for its own. Where no thread is left when a call puts its entry there, and no response is longer than the length
announced for it, every thread only touches the entry and the file of its own call, and an entry is complete only when
its thread has stored the whole response.

This is the map for one URL. A step is an access to the map, under its lock, or to a file, or the end of an operation
that a thread waits for. The entries and the threads are numbered by the calls that made them.
-/

namespace UnyDesk.Downloads

open Lib Function Option

/-- `Downloader`. Its receiver has a message when it was canceled; without the entry, its channel is closed. -/
structure Downloader where
  /-- The call that made the entry. -/
  generation : ℕ
  data : Bytes := []
  path : Option String
  totalSize : Option ℕ := none
  downloadedSize : ℕ := 0
  error : Option String := none
  finished : Bool := false
  canceled : Bool := false
deriving DecidableEq

structure DownloadData where
  data : Bytes
  path : Option String
  totalSize : Option ℕ
  downloadedSize : ℕ
  error : Option String

/-- Where a call of `download_file` is. -/
inductive CallPhase
  | firstPass
  | removeStale (stale : Option String)
  | checkPath
  | secondPass
  | removeStaleAfterCheck (generation : ℕ) (stale : Option String)
  | spawn (generation : ℕ)
deriving DecidableEq

structure Call where
  path : Option String
  autoDel : Bool
  phase : CallPhase := .firstPass

/-- Where a download thread is. -/
inductive Phase
  | head
  | get
  | create
  | receive
  /-- A chunk of this length has been written to the file. -/
  | count (length : ℕ)
  | flush (isAllDownloaded : Bool)
  | closing (isAllDownloaded : Bool)
  | fail (error : String)
  | autoDelete
  | ended
deriving DecidableEq

structure Thread where
  path : Option String
  autoDel : Bool
  phase : Phase := .head
  /-- What it has stored of its response. -/
  stored : Bytes := []
deriving DecidableEq

/-- What a thread gets from what it waits for. -/
inductive Input
  | done
  | canceled
  /-- A chunk of one byte more than this, if the response is not over. -/
  | chunk (length : ℕ)
  | error (text : String)

/-- The answers of the server to the requests of a thread. -/
structure Answers where
  /-- The content length. -/
  head : Except String ℕ
  /-- The bytes of the response. -/
  get : Except String Bytes

/-- A request that failed has no bytes. -/
def Answers.body (answers : Answers) : Bytes :=
  match answers.get with
  | .ok body => body
  | .error _ => []

/-- The response is no longer than announced. -/
def Answers.fits (answers : Answers) : Bool :=
  match answers.head with
  | .ok total => answers.body.length ≤ total
  | .error _ => true

structure State where
  /-- The entry of the URL in `DOWNLOADERS`. -/
  entry : Option Downloader := none
  files : String → Bool := fun _ => false
  calls : ℕ → Option Call := fun _ => none
  /-- The number of entries made so far. -/
  generation : ℕ := 0
  /-- The paths of the calls that made entries. -/
  targets : ℕ → Option String := fun _ => none
  threads : ℕ → Option Thread := fun _ => none

inductive Step
  | downloadFile (i : ℕ) (path : Option String) (autoDel : Bool)
  /-- A call goes on; an operation on files may fail. -/
  | advance (i : ℕ) (succeeds : Bool)
  | thread (g : ℕ) (input : Input)
  | cancel
  | remove

namespace State

variable (server : ℕ → Answers) (s : State)

def setCall (i : ℕ) (c : Option Call) : State := { s with calls := Function.update s.calls i c }

def setThread (g : ℕ) (t : Thread) : State := { s with threads := Function.update s.threads g (some t) }

/-- `remove_file`, if there is a path with a file. -/
def removeFile (path : Option String) (succeeds : Bool) : State :=
  match path with
  | none => s
  | some p => if succeeds then { s with files := Function.update s.files p false } else s

/-- `get_mut`, which is without effect when there is no entry. -/
def withEntry (f : Downloader → Downloader) : State := { s with entry := s.entry.map f }

/-- The end of the second pass. -/
def insert (i : ℕ) (c : Call) (stale : Option String) : State :=
  { s with
    entry := some { generation := s.generation, path := c.path }
    generation := s.generation + 1
    targets := Function.update s.targets s.generation c.path
    calls := Function.update s.calls i (some { c with phase := .removeStaleAfterCheck s.generation stale }) }

/-- `download_file` -/
def advance (i : ℕ) (succeeds : Bool) (c : Call) : State :=
  match c.phase with
  | .firstPass =>
    match s.entry with
    | none => s.setCall i (some { c with phase := .removeStale none })
    | some entry =>
      if entry.error = none then s.setCall i none
      else setCall { s with entry := none } i (some { c with phase := .removeStale entry.path })
  | .removeStale stale => (s.removeFile stale succeeds).setCall i (some { c with phase := .checkPath })
  | .checkPath =>
    match c.path with
    | none => s.setCall i (some { c with phase := .secondPass })
    | some p =>
      -- the file exists already, or its directory cannot be made
      if s.files p || !succeeds then s.setCall i none else s.setCall i (some { c with phase := .secondPass })
  | .secondPass =>
    match s.entry with
    | none => s.insert i c none
    | some existing => if existing.error = none then s.setCall i none else s.insert i c existing.path
  | .removeStaleAfterCheck g stale => (s.removeFile stale succeeds).setCall i (some { c with phase := .spawn g })
  | .spawn g => (s.setThread g { path := c.path, autoDel := c.autoDel }).setCall i none

/-- The receiver of the thread is ready. -/
def isCanceled (g : ℕ) : Bool :=
  match s.entry with
  | none => true
  | some entry => if entry.generation = g then entry.canceled else true

/-- A download thread: `do_download` and what follows it. -/
def advanceThread (g : ℕ) (t : Thread) (input : Input) : State :=
  match t.phase, input with
  | .head, .canceled | .get, .canceled =>
    if s.isCanceled g then s.setThread g { t with phase := .closing false } else s
  | .head, .done =>
    match (server g).head with
    | .ok total =>
      (s.withEntry fun downloader => { downloader with totalSize := some total }).setThread g { t with phase := .get }
    | .error e => s.setThread g { t with phase := .fail e }
  | .get, .done =>
    match (server g).get with
    | .ok _ => s.setThread g { t with phase := .create }
    | .error e => s.setThread g { t with phase := .fail e }
  | .create, .done =>
    match t.path with
    | none => s.setThread g { t with phase := .receive }
    | some p => setThread { s with files := Function.update s.files p true } g { t with phase := .receive }
  | .create, .error e | .flush _, .error e => if t.path.isSome then s.setThread g { t with phase := .fail e } else s
  | .receive, .error e => s.setThread g { t with phase := .fail e }
  | .receive, .canceled => if s.isCanceled g then s.setThread g { t with phase := .flush false } else s
  | .receive, .chunk n =>
    let chunk := ((server g).body.drop t.stored.length).take (n + 1)
    if chunk = [] then s.setThread g { t with phase := .flush true }
    else
      match t.path with
      | some _ => s.setThread g { t with phase := .count chunk.length, stored := t.stored ++ chunk }
      | none =>
        (s.withEntry fun downloader =>
          { downloader with
            data := downloader.data ++ chunk
            downloadedSize := downloader.downloadedSize + chunk.length }).setThread g
          { t with stored := t.stored ++ chunk }
  | .count length, .done =>
    (s.withEntry fun downloader =>
      { downloader with downloadedSize := downloader.downloadedSize + length }).setThread g { t with phase := .receive }
  | .flush isAllDownloaded, .done =>
    (s.withEntry fun downloader => { downloader with finished := true }).setThread g
      { t with phase := .closing isAllDownloaded }
  | .closing true, .done => s.setThread g { t with phase := if t.autoDel then .autoDelete else .ended }
  | .closing false, .done =>
    -- the lock is held while the file is removed
    (removeFile { s with entry := none } (s.entry.bind (·.path)) true).setThread g { t with phase := .ended }
  | .closing false, .error _ => setThread { s with entry := none } g { t with phase := .ended }
  | .fail e, .done =>
    (s.withEntry fun downloader => { downloader with error := some e }).setThread g { t with phase := .ended }
  | .autoDelete, .done => setThread { s with entry := none } g { t with phase := .ended }
  -- the runtime of the thread has ended before the time was over
  | .autoDelete, .canceled => s.setThread g { t with phase := .ended }
  | _, _ => s

def step : Step → State
  | .downloadFile i path autoDel => if (s.calls i).isSome then s else s.setCall i (some { path, autoDel })
  | .advance i succeeds =>
    match s.calls i with
    | none => s
    | some c => s.advance i succeeds c
  | .thread g input =>
    match s.threads g with
    | none => s
    | some t => s.advanceThread server g t input
  | .cancel => s.withEntry fun downloader => { downloader with canceled := true }
  | .remove => { s with entry := none }

def getDownloadData : Option DownloadData :=
  s.entry.map fun downloader =>
    { data :=
        if downloader.totalSize.getD 0 = downloader.downloadedSize && downloader.path.isNone then downloader.data
        else []
      path := downloader.path
      totalSize := downloader.totalSize
      downloadedSize := downloader.downloadedSize
      error := downloader.error }

/-- The file that the step of a thread creates, writes to or removes. -/
def touchedFile (t : Thread) (input : Input) : Option String :=
  match t.phase, input with
  | .create, .done | .receive, .chunk _ => t.path
  | .closing false, .done => s.entry.bind (·.path)
  | _, _ => none

/-- A step of a thread leaves the entries of other calls alone, and the files of later calls. -/
def TouchesOwn : Step → Prop
  | .thread g input => ∀ t, s.threads g = some t →
    (∀ entry, s.entry = some entry → entry.generation ≠ g → (s.advanceThread server g t input).entry = some entry) ∧
    ∀ p, s.touchedFile t input = some p ∨ (s.advanceThread server g t input).files p ≠ s.files p →
      ∀ g', g < g' → g' < s.generation → s.targets g' ≠ some p
  | .downloadFile .. | .advance .. | .cancel | .remove => True

/-- The thread of this call has been started, and has ended. -/
def hasEnded (g : ℕ) : Bool := (s.threads g).any (·.phase = .ended)

/-- The call is about to put its entry there. -/
def inserts (i : ℕ) : Bool := (s.calls i).any (·.phase = .secondPass) && s.entry.all (·.error.isSome)

/-- The step puts an entry there only when no thread of an earlier call is left, and no response is longer than
announced. -/
def Apart : Step → Prop
  | .advance i _ => s.inserts i = true → ∀ g < s.generation, s.hasEnded g = true
  | .thread g _ => (server g).fits = true
  | .downloadFile .. | .cancel | .remove => True

instance (e : Step) : Decidable (s.Apart server e) := by
  cases e <;> unfold Apart <;> infer_instance

end State

/-- The entry whose thread the call has yet to start. -/
def CallPhase.generation : CallPhase → Option ℕ
  | .removeStaleAfterCheck g _ | .spawn g => some g
  | .firstPass | .removeStale _ | .checkPath | .secondPass => none

/-- What is stored and not counted yet. -/
def Phase.uncounted : Phase → Option ℕ
  | .count length => some length
  | _ => none

/-- What an entry knows of its thread. -/
structure Tracks (answers : Answers) (entry : Downloader) (t : Thread) : Prop where
  counted : entry.downloadedSize + t.phase.uncounted.getD 0 = t.stored.length
  data : t.path = none → t.phase.uncounted = none ∧ entry.data = t.stored
  total : ∀ total, entry.totalSize = some total → answers.body.length ≤ total

/-- An entry whose thread has not been started. -/
structure Fresh (entry : Downloader) : Prop where
  downloadedSize : entry.downloadedSize = 0
  data : entry.data = []
  totalSize : entry.totalSize = none

namespace State

/-- The entry there is that of the last call that made one, and only the thread of this call may run. -/
structure Sound (server : ℕ → Answers) (s : State) : Prop where
  latest : ∀ entry, s.entry = some entry → entry.generation + 1 = s.generation
  target : ∀ entry, s.entry = some entry → entry.path = s.targets entry.generation
  started : ∀ g t, s.threads g = some t → g < s.generation ∧ t.path = s.targets g
  stored : ∀ g t, s.threads g = some t → t.stored <+: (server g).body
  ended : ∀ g < s.generation, g + 1 ≠ s.generation → s.hasEnded g = true
  pending : ∀ i c g, s.calls i = some c → c.phase.generation = some g →
    g < s.generation ∧ s.threads g = none ∧ c.path = s.targets g
  single : ∀ i j c c' g, s.calls i = some c → s.calls j = some c' → c.phase.generation = some g →
    c'.phase.generation = some g → i = j
  fresh : ∀ entry, s.entry = some entry → s.threads entry.generation = none → Fresh entry
  tracked : ∀ entry t, s.entry = some entry → s.threads entry.generation = some t →
    Tracks (server entry.generation) entry t

theorem eq_some_of_update {A : Type} {f : ℕ → Option A} {i j : ℕ} {next : Option A} {a : A}
    (h : Function.update f i next j = some a) : (j = i ∧ next = some a) ∨ (j ≠ i ∧ f j = some a) := by
  by_cases hji : j = i
  · subst hji
    rw [update_self] at h
    exact .inl ⟨rfl, h⟩
  · rw [update_of_ne hji] at h
    exact .inr ⟨hji, h⟩

section Rules

variable {server : ℕ → Answers} {s : State} {i g : ℕ} {c : Call} {t t' : Thread} {f : Downloader → Downloader}

theorem hasEnded_of_ne {g' : ℕ} (hne : g' ≠ g) : (s.setThread g t).hasEnded g' = s.hasEnded g' :=
  congrArg (Option.any _) (update_of_ne hne ..)

section SoundFiles

variable (h : s.Sound server) {next : Option Call}
include h

namespace Sound

theorem withFiles (files : String → Bool) : Sound server { s with files } :=
  ⟨h.latest, h.target, h.started, h.stored, h.ended, h.pending, h.single, h.fresh, h.tracked⟩

theorem removeFile (path : Option String) (succeeds : Bool) : (s.removeFile path succeeds).Sound server := by
  unfold State.removeFile
  split
  · exact h
  · split
    · exact h.withFiles _
    · exact h

theorem dropEntry : Sound server { s with entry := none } := by
  constructor
  case started => exact h.started
  case stored => exact h.stored
  case ended => exact h.ended
  case pending => exact h.pending
  case single => exact h.single
  case latest => exact fun entry hentry => absurd hentry.symm (some_ne_none entry)
  case target => exact fun entry hentry => absurd hentry.symm (some_ne_none entry)
  case fresh => exact fun entry hentry => absurd hentry.symm (some_ne_none entry)
  case tracked => exact fun entry t hentry => absurd hentry.symm (some_ne_none entry)

/-- The rule for a call that goes on. -/
theorem setCall (hnext : ∀ c' g, next = some c' → c'.phase.generation = some g →
      ∃ c, s.calls i = some c ∧ c.phase.generation = some g ∧ c'.path = c.path) : (s.setCall i next).Sound server := by
  have hold : ∀ j c' g, (s.setCall i next).calls j = some c' → c'.phase.generation = some g →
      ∃ c, s.calls j = some c ∧ c.phase.generation = some g ∧ c'.path = c.path := by
    intro j c' g hc' hg
    rcases eq_some_of_update hc' with ⟨rfl, hnew⟩ | ⟨-, hold⟩
    · exact hnext c' g hnew hg
    · exact ⟨c', hold, hg, rfl⟩
  constructor
  case latest => exact h.latest
  case target => exact h.target
  case started => exact h.started
  case stored => exact h.stored
  case ended => exact h.ended
  case fresh => exact h.fresh
  case tracked => exact h.tracked
  case pending =>
    intro j c' g hc' hg
    obtain ⟨c, hc, hcg, hpath⟩ := hold j c' g hc' hg
    exact hpath ▸ h.pending j c g hc hcg
  case single =>
    intro j k c' c'' g hc' hc'' hg' hg''
    obtain ⟨c, hc, hcg, -⟩ := hold j c' g hc' hg'
    obtain ⟨d, hd, hdg, -⟩ := hold k c'' g hc'' hg''
    exact h.single j k c d g hc hd hcg hdg

/-- The rule for a call that has no entry yet, or ends. -/
theorem setPlainCall
    (hnext : ∀ c', next = some c' → c'.phase.generation = none) : (s.setCall i next).Sound server := by
  refine h.setCall fun c' g hc' hg => ?_
  rw [hnext c' hc'] at hg
  cases hg

/-- A new entry, when all threads have ended. -/
theorem insert {stale : Option String} (hended : ∀ g < s.generation, s.hasEnded g = true) :
    (s.insert i c stale).Sound server := by
  have hnew : s.threads s.generation = none := by
    cases hthread : s.threads s.generation with
    | none => rfl
    | some t => exact absurd (h.started _ t hthread).1 (Nat.lt_irrefl _)
  have hotherTarget : ∀ g < s.generation, (s.insert i c stale).targets g = s.targets g :=
    fun g hg => update_of_ne (Nat.ne_of_lt hg) ..
  have hlastTarget : (s.insert i c stale).targets s.generation = c.path := update_self ..
  have hcall : ∀ j c', (s.insert i c stale).calls j = some c' →
      (j = i ∧ c' = { c with phase := .removeStaleAfterCheck s.generation stale }) ∨ (j ≠ i ∧ s.calls j = some c') := by
    exact fun j c' hc' => (eq_some_of_update hc').imp_left (And.imp_right fun heq => (some.inj heq).symm)
  have hentry : ∀ entry, (s.insert i c stale).entry = some entry →
      entry = { generation := s.generation, path := c.path } := fun entry heq => (some.inj heq).symm
  constructor
  case latest =>
    intro entry heq
    rw [hentry entry heq]
    rfl
  case target =>
    intro entry heq
    rw [hentry entry heq]
    exact hlastTarget.symm
  case started =>
    intro g t ht
    obtain ⟨hg, hpath⟩ := h.started g t ht
    exact ⟨Nat.lt_succ_of_lt hg, by rw [hotherTarget g hg, hpath]⟩
  case stored => exact h.stored
  case ended =>
    intro g hg hne
    have hg' : g < s.generation + 1 := hg
    have hne' : g + 1 ≠ s.generation + 1 := hne
    exact hended g (by omega)
  case pending =>
    intro j c' g hc' hg
    rcases hcall j c' hc' with ⟨-, rfl⟩ | ⟨-, hold⟩
    · obtain rfl := some.inj hg
      exact ⟨Nat.lt_succ_self _, hnew, hlastTarget.symm⟩
    · obtain ⟨hlt, hnone, hpath⟩ := h.pending j c' g hold hg
      exact ⟨Nat.lt_succ_of_lt hlt, hnone, by rw [hotherTarget g hlt, hpath]⟩
  case single =>
    intro j k c' c'' g hc' hc'' hg' hg''
    rcases hcall j c' hc' with ⟨hji, hcj⟩ | ⟨-, hold⟩
    · rcases hcall k c'' hc'' with ⟨hki, -⟩ | ⟨-, hold'⟩
      · rw [hji, hki]
      · rw [hcj] at hg'
        obtain rfl := some.inj hg'
        exact absurd (h.pending k c'' _ hold' hg'').1 (Nat.lt_irrefl _)
    · rcases hcall k c'' hc'' with ⟨-, hck⟩ | ⟨-, hold'⟩
      · rw [hck] at hg''
        obtain rfl := some.inj hg''
        exact absurd (h.pending j c' _ hold hg').1 (Nat.lt_irrefl _)
      · exact h.single j k c' c'' g hold hold' hg' hg''
  case fresh =>
    intro entry heq _
    rw [hentry entry heq]
    exact ⟨rfl, rfl, rfl⟩
  case tracked =>
    intro entry t heq ht
    rw [hentry entry heq] at ht
    exact absurd ht.symm (hnew ▸ some_ne_none t)

/-- The thread of the last entry starts. -/
theorem spawn (hc : s.calls i = some c) (hphase : c.phase = .spawn g) :
    ((s.setThread g { path := c.path, autoDel := c.autoDel }).setCall i none).Sound server := by
  obtain ⟨hlt, hnone, hpath⟩ := h.pending i c g hc (by rw [hphase]; rfl)
  have hthread : ∀ g' t, (s.setThread g { path := c.path, autoDel := c.autoDel }).threads g' = some t →
      (g' = g ∧ t = { path := c.path, autoDel := c.autoDel }) ∨ (g' ≠ g ∧ s.threads g' = some t) := by
    exact fun g' t ht => (eq_some_of_update ht).imp_left (And.imp_right fun heq => (some.inj heq).symm)
  have hcall : ∀ j c', update s.calls i none j = some c' → j ≠ i ∧ s.calls j = some c' := by
    intro j c' hc'
    rcases eq_some_of_update hc' with ⟨-, hnew⟩ | hold
    · cases hnew
    · exact hold
  constructor
  case latest => exact h.latest
  case target => exact h.target
  case started =>
    intro g' t ht
    rcases hthread g' t ht with ⟨rfl, rfl⟩ | ⟨-, hold⟩
    · exact ⟨hlt, hpath⟩
    · exact h.started g' t hold
  case stored =>
    intro g' t ht
    rcases hthread g' t ht with ⟨-, rfl⟩ | ⟨-, hold⟩
    · exact List.nil_prefix
    · exact h.stored g' t hold
  case ended =>
    intro g' hg' hne
    have hended := h.ended g' hg' hne
    have hother : g' ≠ g := by
      rintro rfl
      rw [hasEnded, hnone] at hended
      cases hended
    exact (hasEnded_of_ne hother).trans hended
  case pending =>
    intro j c' g' hc' hg'
    obtain ⟨hji, hold⟩ := hcall j c' hc'
    obtain ⟨hlt', hnone', hpath'⟩ := h.pending j c' g' hold hg'
    have hother : g' ≠ g := by
      rintro rfl
      exact hji (h.single j i c' c g' hold hc hg' (by rw [hphase]; rfl))
    exact ⟨hlt', (update_of_ne hother ..).trans hnone', hpath'⟩
  case single =>
    intro j k c' c'' g' hc' hc'' hg' hg''
    exact h.single j k c' c'' g' (hcall j c' hc').2 (hcall k c'' hc'').2 hg' hg''
  case fresh =>
    intro entry hentry hthreads
    have hupdate : update s.threads g (some { path := c.path, autoDel := c.autoDel }) entry.generation =
        none := hthreads
    by_cases hg : entry.generation = g
    · rw [hg, update_self] at hupdate
      cases hupdate
    · rw [update_of_ne hg] at hupdate
      exact h.fresh entry hentry hupdate
  case tracked =>
    intro entry t hentry ht
    rcases hthread entry.generation t ht with ⟨hg, rfl⟩ | ⟨-, hold⟩
    · obtain ⟨hsize, hdata, htotal⟩ := h.fresh entry hentry (hg ▸ hnone)
      constructor
      case counted => exact hsize
      case data => exact fun _ => ⟨rfl, hdata⟩
      case total =>
        intro total heq
        rw [htotal] at heq
        cases heq
    · exact h.tracked entry t hentry hold

/-- Only the thread of the last call is running. -/
theorem last_of_running (ht : s.threads g = some t) (hphase : t.phase ≠ .ended) : g + 1 = s.generation := by
  by_contra hearlier
  have hended := h.ended g (h.started g t ht).1 hearlier
  rw [hasEnded, ht, any_some, decide_eq_true_eq] at hended
  exact hphase hended

end Sound

end SoundFiles

theorem exists_of_withEntry {entry' : Downloader}
    (h : (s.withEntry f).entry = some entry') : ∃ entry, s.entry = some entry ∧ f entry = entry' :=
  map_eq_some_iff.mp h

/-- The rule for a thread that reports to the entry. -/
theorem Sound.report (h : s.Sound server) (ht : s.threads g = some t) (hphase : t.phase ≠ .ended)
    (hgeneration : ∀ entry, (f entry).generation = entry.generation)
    (hentryPath : ∀ entry, (f entry).path = entry.path) (hpath : t'.path = t.path)
    (hstored : t'.stored <+: (server g).body)
    (htracks : ∀ entry, Tracks (server g) entry t → Tracks (server g) (f entry) t') :
    ((s.withEntry f).setThread g t').Sound server := by
  have hlast := h.last_of_running ht hphase
  have hthread : ∀ g' t'', ((s.withEntry f).setThread g t').threads g' = some t'' →
      (g' = g ∧ t'' = t') ∨ (g' ≠ g ∧ s.threads g' = some t'') := by
    exact fun g' t'' ht'' => (eq_some_of_update ht'').imp_left (And.imp_right fun heq => (some.inj heq).symm)
  constructor
  case latest =>
    intro entry' heq
    obtain ⟨entry, hentry, rfl⟩ := exists_of_withEntry heq
    rw [hgeneration]
    exact h.latest entry hentry
  case target =>
    intro entry' heq
    obtain ⟨entry, hentry, rfl⟩ := exists_of_withEntry heq
    rw [hentryPath, hgeneration]
    exact h.target entry hentry
  case started =>
    intro g' t'' ht''
    rcases hthread g' t'' ht'' with ⟨rfl, rfl⟩ | ⟨-, hold⟩
    · obtain ⟨hlt, htarget⟩ := h.started g' t ht
      exact ⟨hlt, hpath.trans htarget⟩
    · exact h.started g' t'' hold
  case stored =>
    intro g' t'' ht''
    rcases hthread g' t'' ht'' with ⟨rfl, rfl⟩ | ⟨-, hold⟩
    · exact hstored
    · exact h.stored g' t'' hold
  case ended =>
    intro g' hg' hne
    have hne' : g' + 1 ≠ s.generation := hne
    exact (hasEnded_of_ne (by omega)).trans (h.ended g' hg' hne)
  case pending =>
    intro j c' g' hc' hg'
    obtain ⟨hlt, hnone, hpath'⟩ := h.pending j c' g' hc' hg'
    have hother : g' ≠ g := by
      rintro rfl
      cases hnone.symm.trans ht
    exact ⟨hlt, (update_of_ne hother ..).trans hnone, hpath'⟩
  case single => exact h.single
  case fresh =>
    intro entry' heq hnone
    obtain ⟨entry, hentry, rfl⟩ := exists_of_withEntry heq
    have hupdate : update s.threads g (some t') (f entry).generation = none := hnone
    have hown : (f entry).generation = g := by
      have hlatest := h.latest entry hentry
      rw [hgeneration]
      omega
    rw [hown, update_self] at hupdate
    cases hupdate
  case tracked =>
    intro entry' t'' heq ht''
    obtain ⟨entry, hentry, rfl⟩ := exists_of_withEntry heq
    have hown : entry.generation = g := by
      have hlatest := h.latest entry hentry
      omega
    rw [hgeneration, hown] at ht'' ⊢
    rcases hthread g t'' ht'' with ⟨-, rfl⟩ | ⟨hne, -⟩
    · exact htracks entry (hown ▸ h.tracked entry t hentry (hown ▸ ht))
    · exact absurd rfl hne

/-- The rule for a thread that goes on by itself. -/
theorem Sound.goOn (h : s.Sound server) (ht : s.threads g = some t) (hphase : t.phase ≠ .ended)
    (hpath : t'.path = t.path) (hstored : t'.stored <+: (server g).body)
    (htracks : ∀ entry, Tracks (server g) entry t → Tracks (server g) entry t') :
    (s.setThread g t').Sound server := by
  have hreport := h.report (f := id) ht hphase (fun _ => rfl) (fun _ => rfl) hpath hstored htracks
  rwa [withEntry, map_id] at hreport

theorem tracks_of_phase {answers : Answers} {entry : Downloader} {phase : Phase} (h : Tracks answers entry t)
    (huncounted : phase.uncounted = t.phase.uncounted) : Tracks answers entry { t with phase } :=
  ⟨huncounted.symm ▸ h.counted, huncounted.symm ▸ h.data, h.total⟩

/-- The rule for a thread that changes its phase only. -/
theorem Sound.setPhase (h : s.Sound server) (ht : s.threads g = some t) (hphase : t.phase ≠ .ended) {phase : Phase}
    (huncounted : phase.uncounted = t.phase.uncounted) : (s.setThread g { t with phase }).Sound server :=
  h.goOn ht hphase rfl (h.stored g t ht) fun _ htracks => tracks_of_phase htracks huncounted

/-- What is stored of a response and a chunk of the rest are a beginning of it. -/
theorem append_chunk_isPart {stored body : Bytes} (h : stored <+: body) (n : ℕ) :
    stored ++ (body.drop stored.length).take n <+: body := by
  obtain ⟨rest, rfl⟩ := h
  rw [List.drop_left]
  exact (List.prefix_append_right_inj stored).mpr (List.take_prefix n rest)

theorem Sound.advance (h : s.Sound server) (hc : s.calls i = some c) (succeeds : Bool)
    (hapart : s.inserts i = true → ∀ g < s.generation, s.hasEnded g = true) :
    (s.advance i succeeds c).Sound server := by
  have hplain : ∀ {s : State} {phase : CallPhase}, s.Sound server → phase.generation = none →
      (s.setCall i (some { c with phase })).Sound server := fun h hphase =>
    h.setPlainCall fun _ heq => some.inj heq ▸ hphase
  have hgone : ∀ {s : State}, s.Sound server → (s.setCall i none).Sound server := fun h =>
    h.setPlainCall fun _ heq => absurd heq.symm (some_ne_none _)
  unfold State.advance
  split
  case h_1 =>
    split
    · exact hplain h rfl
    · split
      · exact hgone h
      · exact hplain h.dropEntry rfl
  case h_2 => exact hplain (h.removeFile _ _) rfl
  case h_3 =>
    split
    · exact hplain h rfl
    · split
      · exact hgone h
      · exact hplain h rfl
  case h_4 hphase =>
    have hcall : (s.calls i).any (·.phase = .secondPass) = true := by
      rw [hc, any_some, hphase]
      rfl
    split
    next hentry => exact h.insert (hapart (by rw [inserts, hcall, hentry]; rfl))
    next existing hentry =>
      split
      · exact hgone h
      next herror =>
        refine h.insert (hapart ?_)
        rw [inserts, hcall, hentry, all_some, isSome_iff_ne_none.mpr herror]
        rfl
  case h_5 g stale hphase =>
    refine (h.removeFile stale succeeds).setCall fun c' g' heq hg' => ?_
    obtain rfl := some.inj heq
    have hcalls : (s.removeFile stale succeeds).calls = s.calls := by
      unfold State.removeFile
      split
      · rfl
      · split <;> rfl
    exact ⟨c, hcalls ▸ hc, by rw [hphase]; exact hg', rfl⟩
  case h_6 g hphase => exact h.spawn hc hphase

section SoundThread

variable (h : s.Sound server) (ht : s.threads g = some t)
include h ht

/-- A chunk is stored in the file first, and counted later. -/
theorem Sound.writeChunk (hphase : t.phase = .receive) (hpath : t.path ≠ none) (n : ℕ) :
    let chunk := ((server g).body.drop t.stored.length).take n
    (s.setThread g { t with phase := .count chunk.length, stored := t.stored ++ chunk }).Sound server := by
  intro chunk
  have hrunning : t.phase ≠ .ended := by simp [hphase]
  refine h.goOn ht hrunning rfl (append_chunk_isPart (h.stored g t ht) n) fun entry htracks => ?_
  have hcounted := htracks.counted
  rw [hphase] at hcounted
  constructor
  case counted =>
    rw [List.length_append]
    exact congrArg (· + chunk.length) hcounted
  case data => exact fun hnone => absurd hnone hpath
  case total => exact htracks.total

theorem Sound.countChunk {length : ℕ} (hphase : t.phase = .count length) : ((s.withEntry fun downloader =>
      { downloader with downloadedSize := downloader.downloadedSize + length }).setThread g
        { t with phase := .receive }).Sound server := by
  have hrunning : t.phase ≠ .ended := by simp [hphase]
  refine h.report ht hrunning (fun _ => rfl) (fun _ => rfl) rfl (h.stored g t ht) fun entry htracks => ?_
  have hcounted := htracks.counted
  rw [hphase] at hcounted
  refine ⟨hcounted, fun hnone => ?_, htracks.total⟩
  obtain ⟨hplain, -⟩ := htracks.data hnone
  rw [hphase] at hplain
  cases hplain

/-- Without a file, a chunk is stored in the entry. -/
theorem Sound.keepChunk (hphase : t.phase = .receive) (n : ℕ) :
    let chunk := ((server g).body.drop t.stored.length).take n
    ((s.withEntry fun downloader =>
      { downloader with
        data := downloader.data ++ chunk
        downloadedSize := downloader.downloadedSize + chunk.length }).setThread g
      { t with stored := t.stored ++ chunk }).Sound server := by
  intro chunk
  have hrunning : t.phase ≠ .ended := by simp [hphase]
  refine h.report ht hrunning (fun _ => rfl) (fun _ => rfl) rfl (append_chunk_isPart (h.stored g t ht) n)
    fun entry htracks => ?_
  have hcounted := htracks.counted
  rw [hphase] at hcounted
  constructor
  case counted =>
    rw [List.length_append, hphase]
    exact congrArg (· + chunk.length) hcounted
  case data =>
    intro hnone
    obtain ⟨hplain, hdata⟩ := htracks.data hnone
    exact ⟨hplain, congrArg (· ++ chunk) hdata⟩
  case total => exact htracks.total

theorem Sound.setTotal (hphase : t.phase = .head) {total : ℕ}
    (hhead : (server g).head = .ok total) (hfits : (server g).fits = true) :
    ((s.withEntry fun downloader => { downloader with totalSize := some total }).setThread g
      { t with phase := .get }).Sound server := by
  have hrunning : t.phase ≠ .ended := by simp [hphase]
  refine h.report ht hrunning (fun _ => rfl) (fun _ => rfl) rfl (h.stored g t ht) fun entry htracks => ?_
  have hcounted := htracks.counted
  rw [hphase] at hcounted
  refine ⟨hcounted, fun hnone => ⟨rfl, (htracks.data hnone).2⟩, fun total' heq => ?_⟩
  obtain rfl := some.inj heq
  rw [Answers.fits, hhead] at hfits
  exact of_decide_eq_true hfits

theorem Sound.advanceThread (hfits : (server g).fits = true)
    (input : Input) : (s.advanceThread server g t input).Sound server := by
  have hmove : ∀ {s : State} {now next : Phase}, s.Sound server → s.threads g = some t → t.phase = now →
      now ≠ .ended → now.uncounted = none → next.uncounted = none →
      (s.setThread g { t with phase := next }).Sound server := by
    rintro s now next h ht rfl hrunning hnow hnext
    exact h.setPhase ht hrunning (hnext.trans hnow.symm)
  have hreport : ∀ {f : Downloader → Downloader} {now next : Phase}, t.phase = now → now ≠ .ended →
      now.uncounted = none → next.uncounted = none →
      (∀ entry, (f entry).generation = entry.generation ∧ (f entry).path = entry.path ∧
        (f entry).downloadedSize = entry.downloadedSize ∧ (f entry).data = entry.data ∧
        (f entry).totalSize = entry.totalSize) →
      ((s.withEntry f).setThread g { t with phase := next }).Sound server := by
    rintro f now next rfl hrunning hnow hnext hsame
    refine h.report ht hrunning (fun entry => (hsame entry).1) (fun entry => (hsame entry).2.1) rfl (h.stored g t ht)
      fun entry htracks => ?_
    obtain ⟨-, -, hsize, hdata, htotal⟩ := hsame entry
    constructor
    case counted =>
      rw [hsize, hnext, ← hnow]
      exact htracks.counted
    case data =>
      rw [hdata]
      exact fun hnone => ⟨hnext, (htracks.data hnone).2⟩
    case total =>
      rw [htotal]
      exact htracks.total
  unfold State.advanceThread
  cases hphase : t.phase with
  | head =>
    cases input with
    | canceled =>
      dsimp only
      split
      · exact hmove h ht hphase (by simp) rfl rfl
      · exact h
    | done =>
      dsimp only
      split
      next total hhead => exact h.setTotal ht hphase hhead hfits
      · exact hmove h ht hphase (by simp) rfl rfl
    | _ => exact h
  | get =>
    cases input with
    | canceled =>
      dsimp only
      split
      · exact hmove h ht hphase (by simp) rfl rfl
      · exact h
    | done =>
      dsimp only
      split
      · exact hmove h ht hphase (by simp) rfl rfl
      · exact hmove h ht hphase (by simp) rfl rfl
    | _ => exact h
  | create =>
    cases input with
    | done =>
      dsimp only
      split
      · exact hmove h ht hphase (by simp) rfl rfl
      · exact hmove (h.withFiles _) ht hphase (by simp) rfl rfl
    | error e =>
      dsimp only
      split
      · exact hmove h ht hphase (by simp) rfl rfl
      · exact h
    | _ => exact h
  | receive =>
    cases input with
    | canceled =>
      dsimp only
      split
      · exact hmove h ht hphase (by simp) rfl rfl
      · exact h
    | chunk n =>
      dsimp only
      split
      · exact hmove h ht hphase (by simp) rfl rfl
      · split
        next p hpath => exact h.writeChunk ht hphase (by rw [hpath]; exact some_ne_none p) (n + 1)
        · have hkeep := h.keepChunk ht hphase (n + 1)
          rw [hphase] at hkeep
          exact hkeep
    | error e => exact hmove h ht hphase (by simp) rfl rfl
    | done => exact h
  | count length =>
    cases input with
    | done => exact h.countChunk ht hphase
    | _ => exact h
  | flush isAllDownloaded =>
    cases input with
    | done => exact hreport hphase (by simp) rfl rfl fun _ => ⟨rfl, rfl, rfl, rfl, rfl⟩
    | error e =>
      dsimp only
      split
      · exact hmove h ht hphase (by simp) rfl rfl
      · exact h
    | _ => exact h
  | closing isAllDownloaded =>
    cases isAllDownloaded with
    | true =>
      cases input with
      | done =>
        refine hmove h ht hphase (by simp) rfl ?_
        split <;> rfl
      | _ => exact h
    | false =>
      cases input with
      | done =>
        have hthreads : ∀ path, (State.removeFile { s with entry := none } path true).threads = s.threads := by
          intro path
          cases path <;> rfl
        refine hmove (h.dropEntry.removeFile _ _) ?_ hphase (by simp) rfl rfl
        rw [hthreads]
        exact ht
      | error e => exact hmove h.dropEntry ht hphase (by simp) rfl rfl
      | _ => exact h
  | fail e =>
    cases input with
    | done => exact hreport hphase (by simp) rfl rfl fun _ => ⟨rfl, rfl, rfl, rfl, rfl⟩
    | _ => exact h
  | autoDelete =>
    cases input with
    | done => exact hmove h.dropEntry ht hphase (by simp) rfl rfl
    | canceled => exact hmove h ht hphase (by simp) rfl rfl
    | _ => exact h
  | ended => exact h

end SoundThread

section

variable (h : s.Sound server)
include h

theorem Sound.withEntry (hsame : ∀ entry, (f entry).generation = entry.generation ∧ (f entry).path = entry.path ∧
      (f entry).downloadedSize = entry.downloadedSize ∧ (f entry).data = entry.data ∧
      (f entry).totalSize = entry.totalSize) : (s.withEntry f).Sound server := by
  constructor
  case latest =>
    intro entry' heq
    obtain ⟨entry, hentry, rfl⟩ := exists_of_withEntry heq
    rw [(hsame entry).1]
    exact h.latest entry hentry
  case target =>
    intro entry' heq
    obtain ⟨entry, hentry, rfl⟩ := exists_of_withEntry heq
    rw [(hsame entry).1, (hsame entry).2.1]
    exact h.target entry hentry
  case started => exact h.started
  case stored => exact h.stored
  case ended => exact h.ended
  case pending => exact h.pending
  case single => exact h.single
  case fresh =>
    intro entry' heq hnone
    obtain ⟨entry, hentry, rfl⟩ := exists_of_withEntry heq
    obtain ⟨hgeneration, -, hsize, hdata, htotal⟩ := hsame entry
    obtain ⟨hsize', hdata', htotal'⟩ := h.fresh entry hentry (hgeneration ▸ hnone)
    exact ⟨hsize.trans hsize', hdata.trans hdata', htotal.trans htotal'⟩
  case tracked =>
    intro entry' t heq ht
    obtain ⟨entry, hentry, rfl⟩ := exists_of_withEntry heq
    obtain ⟨hgeneration, -, hsize, hdata, htotal⟩ := hsame entry
    rw [hgeneration] at ht ⊢
    obtain ⟨hcounted, hkept, hfits⟩ := h.tracked entry t hentry ht
    exact ⟨hsize.symm ▸ hcounted, hdata.symm ▸ hkept, htotal.symm ▸ hfits⟩

theorem Sound.step {e : Step} (hapart : s.Apart server e) : (s.step server e).Sound server := by
  cases e with
  | downloadFile i path autoDel =>
    simp only [State.step]
    split
    · exact h
    · exact h.setPlainCall fun _ heq => some.inj heq ▸ rfl
  | advance i succeeds =>
    simp only [State.step]
    split
    · exact h
    next c hc => exact h.advance hc succeeds hapart
  | thread g input =>
    simp only [State.step]
    split
    · exact h
    next t ht => exact h.advanceThread ht hapart input
  | cancel => exact h.withEntry fun _ => ⟨rfl, rfl, rfl, rfl, rfl⟩
  | remove => exact h.dropEntry

/-- A thread only touches the entry of its own call, and no file of a later one. -/
theorem Sound.touchesOwn (e : Step) : s.TouchesOwn server e := by
  cases e with
  | thread g input =>
    intro t ht
    by_cases hphase : t.phase = .ended
    · have hidle : s.advanceThread server g t input = s := by
        unfold State.advanceThread
        rw [hphase]
      have huntouched : s.touchedFile t input = none := by
        unfold touchedFile
        rw [hphase]
      rw [hidle, huntouched]
      refine ⟨fun entry hentry _ => hentry, fun p hp => ?_⟩
      rcases hp with hnone | hsame
      · cases hnone
      · exact absurd rfl hsame
    · have hlast := h.last_of_running ht hphase
      refine ⟨fun entry hentry hother => ?_, fun p _ g' hlater hg' => by omega⟩
      have hlatest := h.latest entry hentry
      omega
  | downloadFile | advance | cancel | remove => trivial

/-- An entry that is complete is the whole response, stored by the thread of its call. -/
theorem Sound.complete {d : DownloadData} (hd : s.getDownloadData = some d)
    (htotal : d.totalSize = some d.downloadedSize) : ∃ entry t, s.entry = some entry ∧
      s.threads entry.generation = some t ∧ t.stored = (server entry.generation).body ∧
      (d.path = none → d.data = (server entry.generation).body) := by
  obtain ⟨entry, hentry, rfl⟩ := map_eq_some_iff.mp hd
  have htotal' : entry.totalSize = some entry.downloadedSize := htotal
  cases ht : s.threads entry.generation with
  | none =>
    rw [(h.fresh entry hentry ht).totalSize] at htotal'
    cases htotal'
  | some t =>
    obtain ⟨hcounted, hdata, hfits⟩ := h.tracked entry t hentry ht
    have hprefix := h.stored entry.generation t ht
    have hbody := hfits _ htotal'
    have hstored : t.stored = (server entry.generation).body :=
      hprefix.eq_of_length (Nat.le_antisymm hprefix.length_le (by omega))
    refine ⟨entry, t, hentry, ht, hstored, fun hnone => ?_⟩
    have hpath : entry.path = none := hnone
    have hthread : t.path = none := by rw [(h.started _ t ht).2, ← h.target entry hentry, hpath]
    simp only [htotal', hpath, getD_some, isNone_none, decide_true, Bool.and_self, ↓reduceIte]
    exact (hdata hthread).2.trans hstored

end

theorem sound_start : Sound server {} := by
  constructor
  case latest => exact fun entry hentry => absurd hentry.symm (some_ne_none entry)
  case target => exact fun entry hentry => absurd hentry.symm (some_ne_none entry)
  case started => exact fun g t ht => absurd ht.symm (some_ne_none t)
  case stored => exact fun g t ht => absurd ht.symm (some_ne_none t)
  case ended => exact fun g hg => absurd hg (Nat.not_lt_zero g)
  case pending => exact fun i c g hc => absurd hc.symm (some_ne_none c)
  case single => exact fun i j c c' g hc => absurd hc.symm (some_ne_none c)
  case fresh => exact fun entry hentry => absurd hentry.symm (some_ne_none entry)
  case tracked => exact fun entry t hentry => absurd hentry.symm (some_ne_none entry)

end Rules

end State

open State

/-- Downloads of one URL do not interfere: in every run in which a call puts its entry there only when no thread of an
earlier call is left, and no response is longer than announced, every thread only touches the entry and the file of its
own call, and an entry that is complete without an error is the whole response, stored by its own thread. -/
theorem downloads_apart (server : ℕ → Answers) {steps : List Step}
    (hapart : RunMeets (step server) (Apart server) {} steps) :
    RunMeets (step server) (TouchesOwn server) {} steps ∧
      let s := runEvents (step server) {} steps
      ∀ d, s.getDownloadData = some d → d.error = none → d.totalSize = some d.downloadedSize →
        ∃ entry t, s.entry = some entry ∧ s.threads entry.generation = some t ∧
          t.stored = (server entry.generation).body ∧ (d.path = none → d.data = (server entry.generation).body) := by
  have hstep : ∀ (s : State) e, s.Sound server → s.Apart server e → (s.step server e).Sound server :=
    fun s e h => h.step
  refine ⟨runMeets_of_invariant hstep (fun s e h _ => h.touchesOwn e) sound_start hapart, ?_⟩
  have hsound := runEvents_invariant hstep sound_start hapart
  exact fun d hd _ htotal => hsound.complete hd htotal

/-- A response of two bytes, announced with its length. -/
def sampleServer : ℕ → Answers := fun _ => { head := .ok 2, get := .ok [7, 8] }

/-- A call that finds no entry, up to its thread. -/
def callSteps (i : ℕ) : List Step := .downloadFile i none false :: List.replicate 6 (.advance i true)

/-- A thread that gets its response in one chunk. -/
def threadSteps (g : ℕ) : List Step :=
  [.thread g .done, .thread g .done, .thread g .done, .thread g (.chunk 9), .thread g (.chunk 9), .thread g .done,
    .thread g .done]

/-- A download that ends and is removed, and another one. -/
def sampleSteps : List Step := callSteps 0 ++ threadSteps 0 ++ [.remove] ++ callSteps 1 ++ threadSteps 1

theorem downloads_apart_sample : RunMeets (step sampleServer) (TouchesOwn sampleServer) {} sampleSteps ∧
    let s := runEvents (step sampleServer) {} sampleSteps
    ∀ d, s.getDownloadData = some d → d.error = none → d.totalSize = some d.downloadedSize →
      ∃ entry t, s.entry = some entry ∧ s.threads entry.generation = some t ∧
        t.stored = (sampleServer entry.generation).body ∧
        (d.path = none → d.data = (sampleServer entry.generation).body) :=
  downloads_apart sampleServer (by decide)

/-- A download that is removed, and another one before the thread of the first one has noticed it. -/
def overlappingSteps : List Step := callSteps 0 ++ [.remove] ++ callSteps 1 ++ [.thread 0 .canceled]

/-- The thread of the first call removes the entry of the second one. -/
theorem not_downloads_apart :
    ¬ RunMeets (step sampleServer) (TouchesOwn sampleServer) {} (overlappingSteps ++ [.thread 0 .done]) := by
  intro h
  have hlast := (runMeets_append.mp h).2.1
  have hkept := (hlast { path := none, autoDel := false, phase := .closing false } (by decide)).1
    { generation := 1, path := none } (by decide) (by decide)
  exact absurd hkept (by decide)

end UnyDesk.Downloads
