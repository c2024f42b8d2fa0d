import UnyDesk.Clipboard.FuseServer

/-!
# Handles of open files

The handles of all nodes come from one counter, and every node keeps its own in a vector that is searched by halves.
A list that is loaded replaces the nodes, and the counter goes on. It is a `u64` that starts again at zero after its
last value.
-/

namespace UnyDesk

open Lib List BinarySearch Option Nat Prod

namespace Fuse

namespace FuseServer

def setNode (server : FuseServer) (ino : ℕ) (entry : Node) : FuseServer :=
  { server with files := server.files.set (ino - 1) entry }

/-- `alloc_fd`: the next handle is that of the counter. -/
def advance (server : FuseServer) : FuseServer :=
  { server with fileHandleCounter := (server.fileHandleCounter + 1) % 2 ^ 64 }

/-- A node of a kind is opened, or the error for the other kinds is replied. -/
def openNode (kind : FileType) (wrongKind : Errno) (server : FuseServer) (ino : ℕ) : Except Errno ℕ × FuseServer :=
  match server.node ino with
  | none => (.error .enoent, server)
  | some entry =>
    if entry.attributes.kind ≠ kind then (.error wrongKind, server)
    else if h : entry.marked = false then
      let fh := server.fileHandleCounter
      (.ok fh, server.advance.setNode ino (entry.addHandler h fh))
    else (.error .ebusy, server)

def opendir : FuseServer → ℕ → Except Errno ℕ × FuseServer := openNode .directory .enotdir

/-- `open` -/
def openFile : FuseServer → ℕ → Except Errno ℕ × FuseServer := openNode .file .enfile

section

variable (server : FuseServer)

/-- `read`, where the peer sends the data or nothing. -/
def read (ino fh : ℕ) (data : Option Bytes) : Except Errno Bytes :=
  match server.node ino with
  | none => .error .enoent
  | some entry =>
    if entry.haveHandler fh = false then .error .ebadf
    else if entry.attributes.kind ≠ .file then .error .enfile
    else if entry.marked then .error .ebusy
    else
      match data with
      | some bytes => .ok bytes
      | none => .error .eio

def release (ino fh : ℕ) : Except Errno Unit × FuseServer :=
  match server.node ino with
  | none => (.error .enoent, server)
  | some entry =>
    match entry.unregisterHandler fh with
    | none => (.error .ebadf, server)
    | some entry => (.ok (), server.setNode ino entry)

def releasedir (ino fh : ℕ) : Except Errno Unit × FuseServer :=
  match server.node ino with
  | none => (.error .enoent, server)
  | some entry =>
    if entry.attributes.kind ≠ .directory then (.error .enotdir, server)
    else if entry.haveHandler fh = false then (.error .ebadf, server)
    else
      match entry.unregisterHandler fh with
      | none => (.ok (), server)
      | some entry => (.ok (), server.setNode ino entry)

end

end FuseServer

/-- What the kernel asks, and the lists that come from the peer. -/
inductive Op
  | init
  | lookup (parent : ℕ) (name : Bytes)
  | opendir (ino : ℕ)
  | readdir (ino fh : ℕ) (offset : Int) (room : ℕ)
  | releasedir (ino fh : ℕ)
  | openFile (ino : ℕ)
  | read (ino fh : ℕ) (data : Option Bytes)
  | release (ino fh : ℕ)
  | loadFileList (files : List FileDescription)

inductive Reply
  | initialized
  | entry (result : Except Errno (InodeAttributes × ℕ))
  | opened (result : Except Errno ℕ)
  | data (result : Except Errno Bytes)
  | entries (result : Except Errno (List DirEntry))
  | released (result : Except Errno Unit)
  | loaded (result : Except CliprdrError Unit)

/-- The handle that a request uses. -/
def Op.handle : Op → Option ℕ
  | .readdir _ fh _ _ | .releasedir _ fh | .read _ fh _ | .release _ fh => some fh
  | _ => none

def Reply.isError : Reply → Bool
  | .entry (.error _) | .opened (.error _) | .data (.error _) | .entries (.error _) | .released (.error _)
  | .loaded (.error _) => true
  | _ => false

/-- A request and its reply; `none` for a panic. -/
def FuseServer.step (server : FuseServer) : Op → Option (Reply × FuseServer)
  | .init => some (.initialized, server.init)
  | .lookup parent name => (server.lookup parent name).map fun result => (.entry result, server)
  | .opendir ino => some (.opened (server.opendir ino).1, (server.opendir ino).2)
  | .readdir ino fh offset room =>
    (server.readdir ino fh offset room).map fun result => (.entries result, server)
  | .releasedir ino fh => some (.released (server.releasedir ino fh).1, (server.releasedir ino fh).2)
  | .openFile ino => some (.opened (server.openFile ino).1, (server.openFile ino).2)
  | .read ino fh data => some (.data (server.read ino fh data), server)
  | .release ino fh => some (.released (server.release ino fh).1, (server.release ino fh).2)
  | .loadFileList files => (server.loadFileList files).map fun (result, server) => (.loaded result, server)

/-- A request with its reply. -/
abbrev Event := Op × Reply

/-- A run with its events, the latest first; `none` for a panic. -/
def run (server : FuseServer) (history : List Event) : List Op → Option (FuseServer × List Event)
  | [] => some (server, history)
  | op :: ops =>
    match server.step op with
    | none => none
    | some (reply, server) => run server ((op, reply) :: history) ops

/-- What an event does to the handles. -/
inductive Effect
  | opened (ino fh : ℕ)
  | released (ino fh : ℕ)
  | loaded
  | nothing

def Event.effect : Event → Effect
  | (.opendir ino, .opened (.ok fh)) | (.openFile ino, .opened (.ok fh)) => .opened ino fh
  | (.releasedir ino fh, .released (.ok _)) | (.release ino fh, .released (.ok _)) => .released ino fh
  | (.loadFileList _, .loaded (.ok _)) => .loaded
  | _ => .nothing

/-- A handle was given for the node that now stands at an inode, and was not released there. -/
def Held (ino fh : ℕ) : List Event → Prop
  | [] => False
  | event :: earlier =>
    match event.effect with
    | .opened ino' fh' => (ino' = ino ∧ fh' = fh) ∨ Held ino fh earlier
    | .released ino' fh' => ¬(ino' = ino ∧ fh' = fh) ∧ Held ino fh earlier
    | .loaded => False
    | .nothing => Held ino fh earlier

/-- A handle was given, at any inode. -/
def Given (fh : ℕ) (history : List Event) : Prop := ∃ event ∈ history, ∃ ino, Event.effect event = .opened ino fh

/-- A handle was given before the last list was loaded. -/
def GivenBeforeLoad (fh : ℕ) : List Event → Prop
  | [] => False
  | event :: earlier =>
    match event.effect with
    | .loaded => Given fh earlier
    | _ => GivenBeforeLoad fh earlier

/-- The vectors of handles are sorted and say what the requests and their replies say, and a handle from before a list
was loaded is of no use after it. -/
structure Disciplined (server : FuseServer) (history : List Event) : Prop where
  sorted : ∀ ino entry, server.node ino = some entry → entry.handlers.Pairwise (· < ·)
  haveHandler_iff : ∀ ino entry, server.node ino = some entry → ∀ fh, entry.haveHandler fh = true ↔ Held ino fh history
  stale : ∀ fh, GivenBeforeLoad fh history →
    (∀ ino entry, server.node ino = some entry → entry.haveHandler fh = false) ∧
    ∀ op reply server', op.handle = some fh → server.step op = some (reply, server') →
      reply.isError = true ∧ server' = server

/-- The number of handles that were given. -/
def countGiven : List Event → ℕ
  | [] => 0
  | event :: earlier =>
    match event.effect with
    | .opened _ _ => countGiven earlier + 1
    | _ => countGiven earlier

/-- The number of handles that were given before the last list was loaded. -/
def countBeforeLoad : List Event → ℕ
  | [] => 0
  | event :: earlier =>
    match event.effect with
    | .loaded => countGiven earlier
    | _ => countBeforeLoad earlier

/-- The requests for handles. -/
def Op.opens : Op → Bool
  | .opendir _ | .openFile _ => true
  | _ => false

section Step

variable {server server' : FuseServer} {op : Op} {reply : Reply}

namespace FuseServer

variable {ino : ℕ} {entry changed : Node}

/-- Opening gives the handle of the counter to a node, or nothing changes. -/
theorem openNode_cases (kind : FileType) (wrongKind : Errno) (server : FuseServer) (ino : ℕ) :
    (∃ e, server.openNode kind wrongKind ino = (.error e, server)) ∨
      ∃ entry, server.node ino = some entry ∧ server.openNode kind wrongKind ino = (.ok server.fileHandleCounter,
        server.advance.setNode ino { entry with handlers := entry.handlers ++ [server.fileHandleCounter] }) := by
  unfold openNode
  cases hnode : server.node ino with
  | none => exact .inl ⟨_, rfl⟩
  | some entry =>
    dsimp only
    split
    next => exact .inl ⟨_, rfl⟩
    next =>
      split
      next => exact .inr ⟨entry, rfl, rfl⟩
      next => exact .inl ⟨_, rfl⟩

/-- What releasing a handle of a node does. -/
def Removed (server server' : FuseServer) (ino fh : ℕ) : Prop :=
  ∃ entry idx, server.node ino = some entry ∧ BinarySearch.search entry.handlers fh = some idx ∧
    server' = server.setNode ino { entry with handlers := entry.handlers.eraseIdx idx }

section

variable (server : FuseServer)

theorem release_cases (ino fh : ℕ) : (∃ e, server.release ino fh = (.error e, server)) ∨
      ∃ server', server.release ino fh = (.ok (), server') ∧ server.Removed server' ino fh := by
  unfold release
  cases hnode : server.node ino with
  | none => exact .inl ⟨_, rfl⟩
  | some entry =>
    dsimp only [Node.unregisterHandler]
    cases hsearch : search entry.handlers fh with
    | none => exact .inl ⟨_, rfl⟩
    | some idx => exact .inr ⟨_, rfl, entry, idx, hnode, hsearch, rfl⟩

theorem releasedir_cases (ino fh : ℕ) : (∃ e, server.releasedir ino fh = (.error e, server)) ∨
      ∃ server', server.releasedir ino fh = (.ok (), server') ∧ server.Removed server' ino fh := by
  unfold releasedir
  cases hnode : server.node ino with
  | none => exact .inl ⟨_, rfl⟩
  | some entry =>
    dsimp only
    split
    next => exact .inl ⟨_, rfl⟩
    next =>
      split
      next => exact .inl ⟨_, rfl⟩
      next hfound =>
        obtain ⟨idx, hsearch⟩ := isSome_iff_exists.mp (Bool.of_not_eq_false hfound)
        rw [Node.unregisterHandler, hsearch]
        exact .inr ⟨_, rfl, entry, idx, hnode, hsearch, rfl⟩

/-- What a request changes, by its effect. -/
def Changes : Effect → FuseServer → Prop
  | .opened ino fh, server' => fh = server.fileHandleCounter ∧ ∃ entry, server.node ino = some entry ∧
      server' = server.advance.setNode ino { entry with handlers := entry.handlers ++ [fh] }
  | .released ino fh, server' => server.Removed server' ino fh
  | .loaded, server' => (∃ files, WellFormed files server'.files) ∧ NoHandlers server'.files ∧
      server'.fileHandleCounter = server.fileHandleCounter
  | .nothing, server' => server' = server ∨ server.files = [] ∧ server' = { server with files := [.newRoot] }

end

/-- Every request is replied, and changes what its effect says. -/
theorem step_spec (h : server.ChildrenValid) (op : Op) :
    ∃ reply server', server.step op = some (reply, server') ∧ server.Changes (Event.effect (op, reply)) server' := by
  cases op with
  | init =>
    refine ⟨_, _, rfl, ?_⟩
    change server.init = server ∨ server.files = [] ∧ server.init = { server with files := [.newRoot] }
    unfold init
    split
    next hempty => exact .inr ⟨hempty, rfl⟩
    next => exact .inl rfl
  | lookup parent name =>
    obtain ⟨result, hresult⟩ := ne_none_iff_exists'.mp (h.lookup_ne_none parent name)
    exact ⟨_, _, by rw [step, hresult]; rfl, .inl rfl⟩
  | readdir ino fh offset room =>
    obtain ⟨result, hresult⟩ := ne_none_iff_exists'.mp (h.readdir_ne_none ino fh offset room)
    exact ⟨_, _, by rw [step, hresult]; rfl, .inl rfl⟩
  | read ino fh data => exact ⟨_, _, rfl, .inl rfl⟩
  | opendir ino =>
    refine ⟨_, _, rfl, ?_⟩
    obtain ⟨e, herror⟩ | ⟨entry, hnode, hok⟩ := openNode_cases .directory .enotdir server ino
    · rw [opendir, herror]
      exact .inl rfl
    · rw [opendir, hok]
      exact ⟨rfl, entry, hnode, rfl⟩
  | openFile ino =>
    refine ⟨_, _, rfl, ?_⟩
    obtain ⟨e, herror⟩ | ⟨entry, hnode, hok⟩ := openNode_cases .file .enfile server ino
    · rw [openFile, herror]
      exact .inl rfl
    · rw [openFile, hok]
      exact ⟨rfl, entry, hnode, rfl⟩
  | releasedir ino fh =>
    refine ⟨_, _, rfl, ?_⟩
    obtain ⟨e, herror⟩ | ⟨server', hok, hremoved⟩ := releasedir_cases server ino fh
    · rw [herror]
      exact .inl rfl
    · rw [hok]
      exact hremoved
  | release ino fh =>
    refine ⟨_, _, rfl, ?_⟩
    obtain ⟨e, herror⟩ | ⟨server', hok, hremoved⟩ := release_cases server ino fh
    · rw [herror]
      exact .inl rfl
    · rw [hok]
      exact hremoved
  | loadFileList files =>
    obtain ⟨result, hbuild, hresult⟩ := buildTree_spec files
    cases result with
    | error e => exact ⟨.loaded (.error e), server, by rw [step, loadFileList, hbuild]; rfl, .inl rfl⟩
    | ok tree =>
      exact ⟨.loaded (.ok ()), { server with files := tree, generation := (server.generation + 1) % 2 ^ 64 },
        by rw [step, loadFileList, hbuild]; rfl, ⟨files, hresult tree rfl⟩, noHandlers_of_buildTree hbuild, rfl⟩

theorem node_setNode {entry : Node} (hnode : server.node ino = some entry) (changed : Node) (ino' : ℕ) :
    (server.setNode ino changed).node ino' = if ino' = ino then some changed else server.node ino' := by
  obtain ⟨hpos, hentry⟩ := files_of_node hnode
  have hlt := (List.getElem?_eq_some_iff.mp hentry).1
  unfold node setNode
  by_cases hzero : ino' = 0
  · rw [if_pos hzero, if_pos hzero, if_neg (by omega)]
  · rw [if_neg hzero, if_neg hzero]
    dsimp only
    rw [List.getElem?_set]
    by_cases hsame : ino' = ino
    · rw [if_pos (by omega), if_pos hlt, if_pos hsame]
    · rw [if_neg (by omega), if_neg hsame]

/-- What holds of a node that is put in place of another one, and of the others as they are, holds of all. -/
theorem forall_node_setNode {P : ℕ → Node → Prop} (hnode : server.node ino = some entry) (hchanged : P ino changed)
    (hother : ∀ ino' entry', ino' ≠ ino → server.node ino' = some entry' → P ino' entry') {ino' : ℕ} {entry' : Node}
    (hentry : (server.setNode ino changed).node ino' = some entry') : P ino' entry' := by
  rw [node_setNode hnode] at hentry
  split at hentry
  next hsame =>
    obtain rfl := some.inj hentry
    rw [hsame]
    exact hchanged
  next hdiffers => exact hother ino' entry' hdiffers hentry

theorem node_of_files {q : ℕ} {up : Node} (h : server.files[q]? = some up) : server.node (q + 1) = some up := by
  unfold node
  rw [if_neg (Nat.succ_ne_zero q), Nat.add_sub_cancel, h]

/-- Handles come and go without a change to the children. -/
theorem ChildrenValid.setNode (h : server.ChildrenValid)
    (hnode : server.node ino = some entry) (hchildren : changed.children = entry.children) :
    (server.setNode ino changed).ChildrenValid := by
  have hfound : ∀ inode, (∃ child, server.node inode = some child) →
      ∃ child, (server.setNode ino changed).node inode = some child := by
    rintro inode ⟨child, hchild⟩
    rw [node_setNode hnode]
    by_cases hsame : inode = ino
    · exact ⟨changed, if_pos hsame⟩
    · exact ⟨child, by rw [if_neg hsame, hchild]⟩
  intro q up hup inode hinode
  have hat := node_of_files hup
  rw [node_setNode hnode] at hat
  split at hat
  next =>
    obtain rfl := some.inj hat
    rw [hchildren] at hinode
    exact hfound inode (h _ _ (files_of_node hnode).2 inode hinode)
  next => exact hfound inode (h _ _ (files_of_node hat).2 inode hinode)

end FuseServer

end Step

/-- What holds of a server after the events of a run with at most 2^64 handles. -/
structure Tracked (server : FuseServer) (history : List Event) : Prop where
  counter : server.fileHandleCounter = countGiven history % 2 ^ 64
  valid : server.ChildrenValid
  sorted : ∀ ino entry, server.node ino = some entry → entry.handlers.Pairwise (· < ·)
  held : ∀ ino entry, server.node ino = some entry → ∀ fh, fh ∈ entry.handlers ↔ Held ino fh history
  placed : ∀ ino fh, Held ino fh history → ∃ entry, server.node ino = some entry
  range : ∀ ino fh, Held ino fh history → countBeforeLoad history ≤ fh ∧ fh < countGiven history
  given : ∀ fh, Given fh history → fh < countGiven history
  before : ∀ fh, GivenBeforeLoad fh history → fh < countBeforeLoad history

section Run

variable {server server' : FuseServer} {history : List Event} {event : Event} {ino fh : ℕ}

theorem countBeforeLoad_le (history : List Event) : countBeforeLoad history ≤ countGiven history := by
  induction history with
  | nil => exact le_refl 0
  | cons event earlier ih =>
    simp only [countBeforeLoad, countGiven]
    cases event.effect with
    | opened ino fh => exact le_succ_of_le ih
    | released ino fh => exact ih
    | loaded => exact le_refl _
    | nothing => exact ih

theorem given_cons (fh : ℕ) (event : Event) (history : List Event) :
    Given fh (event :: history) ↔ (∃ ino, event.effect = .opened ino fh) ∨ Given fh history := by
  simp only [Given, mem_cons, exists_eq_or_imp]

theorem tracked_new : Tracked .new [] where
  counter := rfl
  valid := fun _ _ hup => nomatch hup
  sorted := fun _ _ hnode => nomatch (FuseServer.files_of_node hnode).2
  held := fun _ _ hnode => nomatch (FuseServer.files_of_node hnode).2
  placed := fun _ _ hheld => hheld.elim
  range := fun _ _ hheld => hheld.elim
  given := fun _ ⟨_, hmem, _⟩ => nomatch hmem
  before := fun _ hbefore => hbefore.elim

/-- A handle that is given is larger than all before it. -/
theorem Tracked.opened (h : Tracked server history) (heffect : event.effect = .opened ino fh)
    (hchange : server.Changes (.opened ino fh) server') (hcount : countGiven history < 2 ^ 64) :
    Tracked server' (event :: history) := by
  obtain ⟨hfh, entry, hnode, rfl⟩ := hchange
  have hfresh : fh = countGiven history := by rw [hfh, h.counter, mod_eq_of_lt hcount]
  have hadvance : server.advance.node ino = some entry := hnode
  have hnodes := FuseServer.node_setNode hadvance { entry with handlers := entry.handlers ++ [fh] }
  have hbelow : ∀ fh' ∈ entry.handlers, fh' < fh := by
    intro fh' hmem
    have hrange := (h.range ino fh' ((h.held ino entry hnode fh').mp hmem)).2
    omega
  constructor
  case counter =>
    simp only [countGiven, heffect]
    change (server.fileHandleCounter + 1) % 2 ^ 64 = _
    rw [h.counter, mod_add_mod]
  case valid =>
    have hvalid : server.advance.ChildrenValid := h.valid
    exact hvalid.setNode hadvance rfl
  case sorted =>
    intro ino' entry' hentry'
    refine FuseServer.forall_node_setNode hadvance ?_ (fun ino' entry' _ => h.sorted ino' entry') hentry'
    refine pairwise_append.mpr ⟨h.sorted ino entry hnode, pairwise_singleton _ _, ?_⟩
    intro fh' hmem last hlast
    exact mem_singleton.mp hlast ▸ hbelow fh' hmem
  case held =>
    intro ino' entry' hentry' fh'
    simp only [Held, heffect]
    refine FuseServer.forall_node_setNode
      (P := fun ino' entry' => fh' ∈ entry'.handlers ↔ ino = ino' ∧ fh = fh' ∨ Held ino' fh' history) hadvance ?_
      (fun ino' entry' hother hentry' => ?_) hentry'
    · rw [mem_append, mem_singleton, h.held ino entry hnode fh', or_comm, eq_comm]
      simp only [true_and]
    · rw [h.held ino' entry' hentry' fh']
      exact ⟨.inr, fun hheld => hheld.resolve_left fun hnew => hother hnew.1.symm⟩
  case placed =>
    intro ino' fh' hheld
    simp only [Held, heffect] at hheld
    rw [hnodes]
    by_cases hsame : ino' = ino
    · exact ⟨_, if_pos hsame⟩
    · rw [if_neg hsame]
      exact h.placed ino' fh' (hheld.resolve_left fun hnew => hsame hnew.1.symm)
  case range =>
    intro ino' fh' hheld
    simp only [Held, heffect] at hheld
    simp only [countBeforeLoad, countGiven, heffect]
    obtain ⟨-, rfl⟩ | hold := hheld
    · have hle := countBeforeLoad_le history
      omega
    · have hrange := h.range ino' fh' hold
      omega
  case given =>
    intro fh' hgiven
    simp only [countGiven, heffect]
    obtain ⟨ino', hnew⟩ | hold := (given_cons fh' event history).mp hgiven
    · rw [heffect] at hnew
      cases hnew
      omega
    · have hlt := h.given fh' hold
      omega
  case before =>
    intro fh' hbefore
    simp only [GivenBeforeLoad, heffect] at hbefore
    simp only [countBeforeLoad, heffect]
    exact h.before fh' hbefore

theorem given_cons_of_not_opened {fh : ℕ} (h : ∀ ino fh, event.effect ≠ .opened ino fh) :
    Given fh (event :: history) ↔ Given fh history := by
  rw [given_cons]
  exact or_iff_right fun ⟨ino, hopened⟩ => h ino fh hopened

section

variable (h : Tracked server history)
include h

theorem Tracked.released (heffect : event.effect = .released ino fh)
    (hchange : server.Changes (.released ino fh) server') : Tracked server' (event :: history) := by
  obtain ⟨entry, idx, hnode, hsearch, rfl⟩ := hchange
  have hnodes := FuseServer.node_setNode hnode { entry with handlers := entry.handlers.eraseIdx idx }
  constructor
  case counter =>
    simp only [countGiven, heffect]
    exact h.counter
  case valid => exact h.valid.setNode hnode rfl
  case sorted =>
    intro ino' entry' hentry'
    refine FuseServer.forall_node_setNode hnode ?_ (fun ino' entry' _ => h.sorted ino' entry') hentry'
    exact (h.sorted ino entry hnode).sublist (eraseIdx_sublist _ _)
  case held =>
    intro ino' entry' hentry' fh'
    simp only [Held, heffect]
    refine FuseServer.forall_node_setNode
      (P := fun ino' entry' => fh' ∈ entry'.handlers ↔ ¬(ino = ino' ∧ fh = fh') ∧ Held ino' fh' history) hnode ?_
      (fun ino' entry' hother hentry' => ?_) hentry'
    · dsimp only
      rw [mem_eraseIdx_search (h.sorted ino entry hnode) hsearch, h.held ino entry hnode fh']
      simp only [true_and, ne_eq, eq_comm]
    · rw [h.held ino' entry' hentry' fh']
      exact ⟨fun hheld => ⟨fun hsame => hother hsame.1.symm, hheld⟩, fun hheld => hheld.2⟩
  case placed =>
    intro ino' fh' hheld
    simp only [Held, heffect] at hheld
    rw [hnodes]
    by_cases hsame : ino' = ino
    · exact ⟨_, if_pos hsame⟩
    · rw [if_neg hsame]
      exact h.placed ino' fh' hheld.2
  case range =>
    intro ino' fh' hheld
    simp only [Held, heffect] at hheld
    simp only [countBeforeLoad, countGiven, heffect]
    exact h.range ino' fh' hheld.2
  case given =>
    intro fh' hgiven
    simp only [countGiven, heffect]
    refine h.given fh' ((given_cons_of_not_opened fun _ _ hopened => ?_).mp hgiven)
    cases heffect.symm.trans hopened
  case before =>
    intro fh' hbefore
    simp only [GivenBeforeLoad, heffect] at hbefore
    simp only [countBeforeLoad, heffect]
    exact h.before fh' hbefore

/-- The nodes of a list that was loaded have none of the handles from before. -/
theorem Tracked.loaded (heffect : event.effect = .loaded)
    (hchange : server.Changes .loaded server') : Tracked server' (event :: history) := by
  obtain ⟨⟨files, htree⟩, hempty, hcounter⟩ := hchange
  have hnone : ∀ ino entry, server'.node ino = some entry → entry.handlers = [] := fun ino entry hnode =>
    hempty entry (mem_of_getElem? (FuseServer.files_of_node hnode).2)
  have hnotHeld : ∀ ino fh, ¬Held ino fh (event :: history) := by
    intro ino fh hheld
    simp only [Held, heffect] at hheld
  constructor
  case counter =>
    simp only [countGiven, heffect]
    rw [hcounter, h.counter]
  case valid => exact FuseServer.childrenValid_of_wellFormed htree
  case sorted =>
    intro ino entry hnode
    rw [hnone ino entry hnode]
    exact List.Pairwise.nil
  case held =>
    intro ino entry hnode fh
    rw [hnone ino entry hnode]
    exact iff_of_false not_mem_nil (hnotHeld ino fh)
  case placed => exact fun ino fh hheld => absurd hheld (hnotHeld ino fh)
  case range => exact fun ino fh hheld => absurd hheld (hnotHeld ino fh)
  case given =>
    intro fh hgiven
    simp only [countGiven, heffect]
    exact h.given fh ((given_cons_of_not_opened fun _ _ hopened => nomatch heffect.symm.trans hopened).mp hgiven)
  case before =>
    intro fh hbefore
    simp only [GivenBeforeLoad, heffect] at hbefore
    simp only [countBeforeLoad, heffect]
    exact h.given fh hbefore

/-- A request that leaves the handles as they are; the first `init` makes a root without any. -/
theorem Tracked.nothing (heffect : event.effect = .nothing)
    (hchange : server.Changes .nothing server') : Tracked server' (event :: history) := by
  have hheld : ∀ ino fh, Held ino fh (event :: history) ↔ Held ino fh history := by
    intro ino fh
    simp only [Held, heffect]
  have hcount : countGiven (event :: history) = countGiven history := by simp only [countGiven, heffect]
  have hbeforeLoad : countBeforeLoad (event :: history) = countBeforeLoad history := by
    simp only [countBeforeLoad, heffect]
  have hnodes : (∀ ino entry, server'.node ino = some entry → server.node ino = some entry ∨
      server.files = [] ∧ entry = .newRoot) ∧
      (∀ ino entry, server.node ino = some entry → server'.node ino = some entry) ∧
      server'.fileHandleCounter = server.fileHandleCounter ∧ server'.ChildrenValid := by
    obtain rfl | ⟨hempty, rfl⟩ := hchange
    · exact ⟨fun _ _ hnode => .inl hnode, fun _ _ hnode => hnode, rfl, h.valid⟩
    · refine ⟨fun ino entry hnode => .inr ⟨hempty, ?_⟩, fun ino entry hnode => ?_, rfl, ?_⟩
      · obtain ⟨-, hentry⟩ := FuseServer.files_of_node hnode
        exact mem_singleton.mp (mem_of_getElem? hentry)
      · obtain ⟨-, hentry⟩ := FuseServer.files_of_node hnode
        rw [hempty] at hentry
        exact nomatch hentry
      · intro q up hup inode hinode
        obtain rfl := mem_singleton.mp (mem_of_getElem? hup)
        exact nomatch hinode
  obtain ⟨hback, hforth, hcounter, hvalid⟩ := hnodes
  have hnotPlaced : server.files = [] → ∀ ino fh, ¬Held ino fh history := by
    intro hempty ino fh hheld
    obtain ⟨entry, hnode⟩ := h.placed ino fh hheld
    obtain ⟨-, hentry⟩ := FuseServer.files_of_node hnode
    rw [hempty] at hentry
    exact nomatch hentry
  constructor
  case counter => rw [hcounter, hcount, h.counter]
  case valid => exact hvalid
  case sorted =>
    intro ino entry hnode
    obtain hold | ⟨-, rfl⟩ := hback ino entry hnode
    · exact h.sorted ino entry hold
    · exact List.Pairwise.nil
  case held =>
    intro ino entry hnode fh
    rw [hheld]
    obtain hold | ⟨hempty, rfl⟩ := hback ino entry hnode
    · exact h.held ino entry hold fh
    · exact iff_of_false not_mem_nil (hnotPlaced hempty ino fh)
  case placed =>
    intro ino fh hholds
    obtain ⟨entry, hnode⟩ := h.placed ino fh ((hheld ino fh).mp hholds)
    exact ⟨entry, hforth ino entry hnode⟩
  case range =>
    intro ino fh hholds
    rw [hcount, hbeforeLoad]
    exact h.range ino fh ((hheld ino fh).mp hholds)
  case given =>
    intro fh hgiven
    rw [hcount]
    exact h.given fh ((given_cons_of_not_opened fun _ _ hopened => nomatch heffect.symm.trans hopened).mp hgiven)
  case before =>
    intro fh hbefore
    simp only [GivenBeforeLoad, heffect] at hbefore
    rw [hbeforeLoad]
    exact h.before fh hbefore

end

theorem opens_of_effect {op : Op} {reply : Reply} (h : Event.effect (op, reply) = .opened ino fh) :
    op.opens = true := by
  unfold Event.effect at h
  split at h
  next heq => exact (mk.inj heq).1 ▸ rfl
  next heq => exact (mk.inj heq).1 ▸ rfl
  all_goals cases h

/-- Every run goes on, and each event is tracked while no more than 2^64 handles are asked for. -/
theorem tracked_run (ops : List Op) (h : Tracked server history)
    (hcount : countGiven history + (ops.filter Op.opens).length ≤ 2 ^ 64) :
    ∃ server' history', run server history ops = some (server', history') ∧ Tracked server' history' := by
  induction ops generalizing server history with
  | nil => exact ⟨server, history, rfl, h⟩
  | cons op ops ih =>
    obtain ⟨reply, server₁, hstep, hchange⟩ := FuseServer.step_spec h.valid op
    have hrun : run server history (op :: ops) = run server₁ ((op, reply) :: history) ops := by rw [run, hstep]
    have hops : (ops.filter Op.opens).length ≤ ((op :: ops).filter Op.opens).length :=
      ((sublist_cons_self op ops).filter _).length_le
    rw [hrun]
    cases heffect : Event.effect (op, reply) with
    | opened ino fh =>
      have hopens : ((op :: ops).filter Op.opens).length = (ops.filter Op.opens).length + 1 := by
        rw [filter_cons_of_pos (opens_of_effect heffect), length_cons]
      rw [heffect] at hchange
      refine ih (h.opened heffect hchange (by omega)) ?_
      simp only [countGiven, heffect]
      omega
    | released ino fh =>
      rw [heffect] at hchange
      refine ih (h.released heffect hchange) ?_
      simp only [countGiven, heffect]
      omega
    | loaded =>
      rw [heffect] at hchange
      refine ih (h.loaded heffect hchange) ?_
      simp only [countGiven, heffect]
      omega
    | nothing =>
      rw [heffect] at hchange
      refine ih (h.nothing heffect hchange) ?_
      simp only [countGiven, heffect]
      omega

/-- A handle that no node has is refused by every request that uses it. -/
theorem refused_of_haveHandler {op : Op} {reply : Reply}
    (h : ∀ ino entry, server.node ino = some entry → entry.haveHandler fh = false) (hop : op.handle = some fh)
    (hstep : server.step op = some (reply, server')) : reply.isError = true ∧ server' = server := by
  cases op with
  | init | lookup | opendir | openFile | loadFileList => exact nomatch hop
  | readdir ino fh' offset room =>
    obtain rfl := some.inj hop
    obtain ⟨result, hresult, heq⟩ := map_eq_some_iff.mp hstep
    obtain ⟨rfl, rfl⟩ := mk.inj heq
    unfold FuseServer.readdir at hresult
    cases hnode : server.node ino with
    | none =>
      rw [hnode] at hresult
      obtain rfl := some.inj hresult
      exact ⟨rfl, rfl⟩
    | some entry =>
      rw [hnode] at hresult
      dsimp only at hresult
      rw [if_pos (h ino entry hnode)] at hresult
      obtain rfl := some.inj hresult
      exact ⟨rfl, rfl⟩
  | read ino fh' data =>
    obtain rfl := some.inj hop
    obtain ⟨rfl, rfl⟩ := mk.inj (some.inj hstep)
    refine ⟨?_, rfl⟩
    unfold FuseServer.read
    cases hnode : server.node ino with
    | none => rfl
    | some entry =>
      dsimp only
      rw [if_pos (h ino entry hnode)]
      rfl
  | releasedir ino fh' =>
    obtain rfl := some.inj hop
    obtain ⟨rfl, rfl⟩ := mk.inj (some.inj hstep)
    obtain ⟨e, herror⟩ | ⟨-, -, entry, idx, hnode, hsearch, -⟩ := FuseServer.releasedir_cases server ino fh'
    · rw [herror]
      exact ⟨rfl, rfl⟩
    · have hnot := h ino entry hnode
      rw [Node.haveHandler, hsearch] at hnot
      exact nomatch hnot
  | release ino fh' =>
    obtain rfl := some.inj hop
    obtain ⟨rfl, rfl⟩ := mk.inj (some.inj hstep)
    obtain ⟨e, herror⟩ | ⟨-, -, entry, idx, hnode, hsearch, -⟩ := FuseServer.release_cases server ino fh'
    · rw [herror]
      exact ⟨rfl, rfl⟩
    · have hnot := h ino entry hnode
      rw [Node.haveHandler, hsearch] at hnot
      exact nomatch hnot

theorem Tracked.disciplined (h : Tracked server history) : Disciplined server history := by
  have hiff : ∀ ino entry, server.node ino = some entry → ∀ fh, entry.haveHandler fh = true ↔ Held ino fh history := by
    intro ino entry hnode fh
    rw [← h.held ino entry hnode fh]
    exact isSome_search_iff (h.sorted ino entry hnode)
  refine ⟨h.sorted, hiff, fun fh hbefore => ?_⟩
  have hnone : ∀ ino entry, server.node ino = some entry → entry.haveHandler fh = false := by
    intro ino entry hnode
    refine Bool.eq_false_iff.mpr fun hhave => ?_
    have hrange := (h.range ino fh ((hiff ino entry hnode fh).mp hhave)).1
    have hlt := h.before fh hbefore
    omega
  exact ⟨hnone, fun op reply server' hop hstep => refused_of_haveHandler hnone hop hstep⟩

end Run

/-- While at most 2^64 handles are asked for, the handles of all nodes are what the replies say. -/
theorem run_disciplined (ops : List Op) (h : (ops.filter Op.opens).length ≤ 2 ^ 64) :
    ∃ server history, run .new [] ops = some (server, history) ∧ Disciplined server history := by
  have hcount : countGiven [] + (ops.filter Op.opens).length ≤ 2 ^ 64 := by
    rw [countGiven, Nat.zero_add]
    exact h
  obtain ⟨server, history, hrun, htracked⟩ := tracked_run ops tracked_new hcount
  exact ⟨server, history, hrun, htracked.disciplined⟩

/-- A directory that is opened twice and closed once. -/
theorem run_disciplined_root : ∃ server history,
    run .new [] [.init, .opendir 1, .opendir 1, .releasedir 1 0] = some (server, history) ∧
      Disciplined server history :=
  run_disciplined [.init, .opendir 1, .opendir 1, .releasedir 1 0] (by decide)

theorem FuseServer.node_root (generation counter : ℕ) (root : Node) :
    FuseServer.node ⟨generation, [root], counter⟩ 1 = some root := rfl

/-- The root of an empty list that is opened again and again. -/
theorem run_opendir (n counter generation : ℕ) (handlers : List ℕ) (history : List Event) :
    ∃ counter' history', run ⟨generation, [{ Node.newRoot with handlers }], counter % 2 ^ 64⟩ history
        (replicate n (.opendir 1)) =
      some (⟨generation, [{ Node.newRoot with
        handlers := handlers ++ (range' counter n).map (· % 2 ^ 64) }], counter'⟩, history') := by
  induction n generalizing counter handlers history with
  | zero =>
    refine ⟨counter % 2 ^ 64, history, ?_⟩
    rw [range'_zero, map_nil, append_nil]
    rfl
  | succ n ih =>
    obtain ⟨counter', history', hrun⟩ := ih (counter + 1) (handlers ++ [counter % 2 ^ 64])
      ((.opendir 1, .opened (.ok (counter % 2 ^ 64))) :: history)
    refine ⟨counter', history', ?_⟩
    rw [← mod_add_mod] at hrun
    rw [range'_succ, map_cons, append_cons, ← hrun]
    rfl

theorem run_init (ops : List Op) : run .new [] (.init :: ops) =
    run ⟨0, [{ Node.newRoot with handlers := [] }], 0 % 2 ^ 64⟩ [(.init, .initialized)] ops := rfl

theorem not_increasing_mod {m : ℕ} (hm : 0 < m) : ¬((range' 0 (m + 1)).map (· % m)).Pairwise (· < ·) := by
  intro hsorted
  have hlength : ((range' 0 (m + 1)).map (· % m)).length = m + 1 := by rw [length_map, length_range']
  have hlt := pairwise_iff_getElem.mp hsorted 0 m (by omega) (by omega) hm
  rw [getElem_map, getElem_map, getElem_range', getElem_range'] at hlt
  simp at hlt

/-- The handle after 2^64 others is zero, behind larger ones. -/
theorem run_wraps : ¬∀ ops : List Op, ∃ server history, run .new [] ops = some (server, history) ∧
    Disciplined server history := by
  intro hall
  obtain ⟨server, history, hrun, hdisciplined⟩ := hall (.init :: List.replicate (2 ^ 64 + 1) (.opendir 1))
  obtain ⟨counter', history', hwrapped⟩ := run_opendir (2 ^ 64 + 1) 0 0 [] [(.init, .initialized)]
  rw [run_init] at hrun
  obtain ⟨rfl, rfl⟩ := Prod.mk.inj (Option.some.inj (hrun.symm.trans hwrapped))
  have hsorted := hdisciplined.sorted 1 _ (FuseServer.node_root _ _ _)
  rw [List.nil_append] at hsorted
  exact not_increasing_mod (Nat.two_pow_pos 64) hsorted

end Fuse

end UnyDesk
