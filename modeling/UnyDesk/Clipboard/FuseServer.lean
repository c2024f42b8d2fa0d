import UnyDesk.Clipboard.FuseTree
import UnyDesk.Lib.BinarySearch

/-!
# The file system of a list of files

`FuseServer` shows the tree of the list that it has loaded, and answers the requests of the kernel under one lock. It
takes the inodes among the children of a node for positions of its vector without a look at its length.
-/

namespace UnyDesk

open Lib List Option

namespace Fuse

/-- The errors of replies. -/
inductive Errno
  | enametoolong | enoent | enotdir | enfile | ebusy | ebadf | eio

def maxNameLen : ℕ := 255

namespace Node

def marked (node : Node) : Bool := node.gc

/-- `add_handler`. It panics for a node that is marked, so it takes the check of its callers. -/
def addHandler (node : Node) (_ : node.marked = false) (fh : ℕ) : Node :=
  { node with handlers := node.handlers ++ [fh] }

def haveHandler (node : Node) (fh : ℕ) : Bool := (BinarySearch.search node.handlers fh).isSome

/-- `unregister_handler`, where it finds the handle. -/
def unregisterHandler (node : Node) (fh : ℕ) : Option Node :=
  (BinarySearch.search node.handlers fh).map fun idx => { node with handlers := node.handlers.eraseIdx idx }

end Node

/-- An entry of a directory as it is sent: inode, offset of the next entry, kind and name. -/
structure DirEntry where
  inode : ℕ
  offset : ℕ
  kind : FileType
  name : String

structure FuseServer where
  generation : ℕ
  files : List Node
  fileHandleCounter : ℕ

namespace FuseServer

def new : FuseServer := { generation := 0, files := [], fileHandleCounter := 0 }

section

variable (server : FuseServer)

/-- The node of an inode. The position of inode 0 wraps around, past the end of every vector. -/
def node (ino : ℕ) : Option Node := if ino = 0 then none else server.files[ino - 1]?

/-- `load_file_list`; `none` for a panic. -/
def loadFileList (files : List FileDescription) : Option (Except CliprdrError Unit × FuseServer) :=
  match buildTree files with
  | none => none
  | some (.error e) => some (.error e, server)
  | some (.ok tree) => some (.ok (), { server with files := tree, generation := (server.generation + 1) % 2 ^ 64 })

def init : FuseServer :=
  if server.files = [] then { server with files := [.newRoot] } else server

end

/-- The child with a name among the children that are left, and the generation; `none` for a panic. -/
def lookupChild (server : FuseServer) (name : Bytes) : List ℕ → Option (Except Errno (InodeAttributes × ℕ))
  | [] => some (.error .enoent)
  | inode :: inodes =>
    match server.node inode with
    | none => none
    | some child =>
      if Utf8.encode child.name = name then some (.ok (child.attributes, server.generation))
      else server.lookupChild name inodes

def lookup (server : FuseServer) (parent : ℕ) (name : Bytes) : Option (Except Errno (InodeAttributes × ℕ)) :=
  if maxNameLen < name.length then some (.error .enametoolong)
  else
    match server.node parent with
    | none => some (.error .enoent)
    | some parentEntry =>
      if parentEntry.attributes.kind ≠ .directory then some (.error .enotdir)
      else server.lookupChild name parentEntry.children

/-- The entries of a directory; `none` for a panic. -/
def entries (server : FuseServer) (ino : ℕ) (entry : Node) : Option (List (ℕ × FileType × String)) :=
  let selfEntry := (ino, .directory, ".")
  let parentEntry := entry.parent.toList.map fun parentInode => (parentInode, .directory, "..")
  let childEntries := entry.children.mapM fun inode =>
    (server.node inode).map fun child => (inode, child.attributes.kind, child.name)
  childEntries.map fun childEntries => selfEntry :: parentEntry ++ childEntries

section

variable (server : FuseServer)

/-- `readdir` from an `i64` offset, with room for a number of entries in the reply. -/
def readdir (ino fh : ℕ) (offset : Int) (room : ℕ) : Option (Except Errno (List DirEntry)) :=
  match server.node ino with
  | none => some (.error .enoent)
  | some entry =>
    if entry.haveHandler fh = false then some (.error .ebadf)
    else if entry.attributes.kind ≠ .directory then some (.error .enotdir)
    else
      (server.entries ino entry).map fun entries =>
        let offset := (offset % 2 ^ 64).toNat
        .ok (((entries.zipIdx.drop offset).take room).map fun (entry, i) =>
          { inode := entry.1, offset := i + 1, kind := entry.2.1, name := entry.2.2 })

/-- `list_root`; `none` for a panic. -/
def listRoot : Option (List String) :=
  match server.files[0]? with
  | none => none
  | some root => root.children.mapM fun inode => (server.node inode).map (·.name)

/-- The children that the nodes name are nodes. -/
def ChildrenValid : Prop :=
  ∀ (q : ℕ) (up : Node), server.files[q]? = some up → ∀ inode ∈ up.children, ∃ child, server.node inode = some child

end

section Children

variable {server : FuseServer} {inodes : List ℕ}

theorem files_of_node {ino : ℕ} {entry : Node} (h : server.node ino = some entry) :
    0 < ino ∧ server.files[ino - 1]? = some entry := by
  unfold node at h
  split at h
  next => cases h
  next hpos => exact ⟨Nat.pos_of_ne_zero hpos, h⟩

theorem isSome_mapM {B : Type*} {f : Node → ℕ → B} (h : ∀ inode ∈ inodes, ∃ child, server.node inode = some child) :
    ∃ found, (inodes.mapM fun inode => (server.node inode).map fun child => f child inode) = some found := by
  induction inodes with
  | nil => exact ⟨[], rfl⟩
  | cons inode inodes ih =>
    obtain ⟨child, hchild⟩ := h inode mem_cons_self
    obtain ⟨found, hfound⟩ := ih fun inode hinode => h inode (mem_cons_of_mem _ hinode)
    exact ⟨f child inode :: found, by rw [mapM_cons, hchild, hfound]; rfl⟩

theorem lookupChild_ne_none (name : Bytes)
    (h : ∀ inode ∈ inodes, ∃ child, server.node inode = some child) : server.lookupChild name inodes ≠ none := by
  induction inodes with
  | nil => exact some_ne_none _
  | cons inode inodes ih =>
    obtain ⟨child, hchild⟩ := h inode mem_cons_self
    rw [lookupChild, hchild]
    dsimp only
    split
    next => exact some_ne_none _
    next => exact ih fun inode hinode => h inode (mem_cons_of_mem _ hinode)

section

variable (h : server.ChildrenValid)
include h

theorem ChildrenValid.lookup_ne_none (parent : ℕ) (name : Bytes) : server.lookup parent name ≠ none := by
  unfold lookup
  split
  next => exact some_ne_none _
  next =>
    cases hnode : server.node parent with
    | none => exact some_ne_none _
    | some parentEntry =>
      dsimp only
      split
      next => exact some_ne_none _
      next => exact lookupChild_ne_none name (h _ _ (files_of_node hnode).2)

theorem ChildrenValid.readdir_ne_none (ino fh : ℕ) (offset : Int) (room : ℕ) :
    server.readdir ino fh offset room ≠ none := by
  unfold readdir
  cases hnode : server.node ino with
  | none => exact some_ne_none _
  | some entry =>
    obtain ⟨found, hfound⟩ := isSome_mapM (f := fun child inode => (inode, child.attributes.kind, child.name))
      (h _ _ (files_of_node hnode).2)
    dsimp only [entries]
    rw [hfound]
    split
    next => exact some_ne_none _
    next =>
      split
      next => exact some_ne_none _
      next => exact some_ne_none _

theorem ChildrenValid.listRoot_ne_none (hfiles : server.files ≠ []) : server.listRoot ≠ none := by
  unfold listRoot
  cases hroot : server.files[0]? with
  | none => exact absurd (length_eq_zero_iff.mp (Nat.le_zero.mp (getElem?_eq_none_iff.mp hroot))) hfiles
  | some root =>
    obtain ⟨found, hfound⟩ := isSome_mapM (f := fun child _ => child.name) (h 0 root hroot)
    dsimp only
    rw [hfound]
    exact some_ne_none _

end

theorem childrenValid_of_wellFormed {files : List FileDescription} (h : WellFormed files server.files) :
    server.ChildrenValid := by
  intro q up hup inode hinode
  obtain ⟨p, child, rfl, hchild, -⟩ := (h.children q up hup inode).mp hinode
  exact ⟨child, hchild⟩

end Children

/-- Loading a list from a peer gives a tree that knows every file once, with links that agree, or an error that changes
nothing. -/
theorem loadFileList_wellFormed (server : FuseServer) (files : List FileDescription) :
    ∃ result, buildTree files = some result ∧ match result with
      | .error e => server.loadFileList files = some (.error e, server)
      | .ok tree => ∃ server', server.loadFileList files = some (.ok (), server') ∧ server'.files = tree ∧
          WellFormed files tree ∧
          (∀ i < files.length, ∃! q : ℕ, ∃ up : Node, tree[q]? = some up ∧ i + 2 ∈ up.children) ∧
          (∀ (q : ℕ) (up : Node), tree[q]? = some up → ∀ inode ∈ up.children, 0 < inode ∧ inode ≤ tree.length) ∧
          (∀ parent name, server'.lookup parent name ≠ none) ∧
          (∀ ino fh offset room, server'.readdir ino fh offset room ≠ none) ∧ server'.listRoot ≠ none := by
  obtain ⟨result, hbuild, hresult⟩ := buildTree_spec files
  refine ⟨result, hbuild, ?_⟩
  cases result with
  | error e =>
    dsimp only
    rw [loadFileList, hbuild]
  | ok tree =>
    have htree : WellFormed files tree := hresult tree rfl
    let server' : FuseServer := { server with files := tree, generation := (server.generation + 1) % 2 ^ 64 }
    have hfrom : WellFormed files server'.files := htree
    have hvalid : server'.ChildrenValid := childrenValid_of_wellFormed hfrom
    have hfiles : server'.files ≠ [] := by
      intro hempty
      have hlength : tree.length = 0 := congrArg List.length hempty
      rw [htree.length] at hlength
      omega
    refine ⟨server', by rw [loadFileList, hbuild], rfl, htree, fun i hi => htree.existsUnique_parent hi, ?_,
      hvalid.lookup_ne_none, hvalid.readdir_ne_none, hvalid.listRoot_ne_none hfiles⟩
    intro q up hup inode hinode
    obtain ⟨p, child, rfl, hchild, -⟩ := (htree.children q up hup inode).mp hinode
    have hlt := (List.getElem?_eq_some_iff.mp hchild).1
    omega

end FuseServer

end Fuse

end UnyDesk
