import Mathlib.Data.List.Nodup
import UnyDesk.Clipboard.Positions

/-!
# The tree of a list of files

A side that receives a list of files shows it as a file system. The nodes of its tree stand in one vector, the root
first and then the files in the order of the list, and know each other by inodes, which are positions counted from
one. The list comes from the peer: a file is put below the directory that its path names if that came before it, and
below the root otherwise.
-/

namespace UnyDesk

open Lib List Option Except

namespace Fuse

structure InodeAttributes where
  inode : ℕ
  size : ℕ
  kind : FileType
  perm : ℕ

/-- `FuseNode`. The handles of a node are those of its `FileHandles`. -/
structure Node extends FuseNode where
  parent : Option ℕ
  name : String
  attributes : InodeAttributes
  children : List ℕ
  handlers : List ℕ
  gc : Bool

def fuseRootId : ℕ := 1

namespace Node

def fromDescription (inode : ℕ) (desc : FileDescription) : Node where
  connId := desc.connId
  index := inode - 2
  parent := none
  name := desc.name
  attributes := { inode, size := desc.size, kind := desc.kind, perm := desc.perm }
  children := []
  handlers := []
  gc := false

def newRoot : Node where
  connId := 0
  index := 0
  parent := none
  name := "/"
  attributes := { inode := fuseRootId, size := 0, kind := .directory, perm := permRwx }
  children := []
  handlers := []
  gc := false

def addChild (node : Node) (inode : ℕ) : Node := { node with children := node.children ++ [inode] }

end Node

/-- A tree that is being built, and the inodes of its directories by their paths, the latest first. -/
structure TreeState where
  treeList : List Node
  subRootMap : List (List (List Char) × ℕ)

namespace TreeState

def initial : TreeState where
  treeList := [.newRoot]
  subRootMap := [(pathComponents [], fuseRootId), (pathComponents ['/'], fuseRootId)]

/-- The inode of the directory at a path. -/
def get (st : TreeState) (path : String) : Option ℕ :=
  (st.subRootMap.find? fun entry => entry.1 = pathComponents path.toList).map (·.2)

def parentInode (st : TreeState) (file : FileDescription) : ℕ :=
  match pathParent file.name with
  | some parent => (st.get parent).getD fuseRootId
  | none => fuseRootId

/-- One file of the list; `none` for a panic at an index. -/
def add (st : TreeState) (file : FileDescription) : Option (Except CliprdrError TreeState) :=
  let inode := st.treeList.length + fuseRootId
  let parentInode := st.parentInode file
  match st.treeList[parentInode - 1]? with
  | none => none
  | some node =>
    let treeList := st.treeList.set (parentInode - 1) (node.addChild inode)
    match pathLastName file.name with
    | none => some (.error (.fileError file.name s!"invalid file name {file.name}"))
    | some baseName =>
      let subRootMap :=
        if file.kind = .directory then (pathComponents file.name.toList, inode) :: st.subRootMap else st.subRootMap
      let fuseNode := Node.fromDescription inode { file with name := String.ofList baseName }
      some (.ok { treeList := treeList ++ [{ fuseNode with parent := some parentInode }], subRootMap })

def addAll (st : TreeState) : List FileDescription → Option (Except CliprdrError TreeState)
  | [] => some (.ok st)
  | file :: files =>
    match st.add file with
    | none => none
    | some (.error e) => some (.error e)
    | some (.ok st) => st.addAll files

end TreeState

/-- `build_tree`; `none` for a panic. -/
def buildTree (files : List FileDescription) : Option (Except CliprdrError (List Node)) :=
  (TreeState.initial.addAll files).map fun result => result.map (·.treeList)

/-- What the nodes of a tree say about the files of its list and about each other. -/
structure WellFormed (files : List FileDescription) (tree : List Node) : Prop where
  length : tree.length = files.length + 1
  root : ∃ node, tree[0]? = some node ∧ node.attributes.inode = fuseRootId ∧ node.attributes.kind = .directory ∧
    node.parent = none
  file : ∀ (i : ℕ) (file : FileDescription), files[i]? = some file → ∃ node, tree[i + 1]? = some node ∧
    node.attributes.inode = i + 2 ∧ node.index = i ∧ node.connId = file.connId ∧ node.attributes.kind = file.kind ∧
    node.attributes.size = file.size ∧ pathLastName file.name = some node.name.toList
  parent : ∀ (p : ℕ) (node : Node), tree[p + 1]? = some node → ∃ q up, q ≤ p ∧ node.parent = some (q + 1) ∧
    tree[q]? = some up ∧ up.attributes.kind = .directory
  children : ∀ (q : ℕ) (up : Node), tree[q]? = some up → ∀ inode, inode ∈ up.children ↔
    ∃ p node, inode = p + 2 ∧ tree[p + 1]? = some node ∧ node.parent = some (q + 1)
  once : ∀ (q : ℕ) (up : Node), tree[q]? = some up → up.children.Nodup

/-- The paths in the map lead to directories of the tree. -/
def MapsDirectories (st : TreeState) : Prop :=
  ∀ entry ∈ st.subRootMap, ∃ q up, entry.2 = q + 1 ∧ st.treeList[q]? = some up ∧ up.attributes.kind = .directory

section Build

variable {files : List FileDescription} {st st' : TreeState} {file : FileDescription} {tree : List Node}

/-- A tree with one child registered and one node more. -/
theorem getElem?_grown {q : ℕ} {up : Node} (new : Node) (inode : ℕ) (hup : tree[q]? = some up) (p : ℕ) :
    (tree.set q (up.addChild inode) ++ [new])[p]? =
      if p = tree.length then some new else if p = q then some (up.addChild inode) else tree[p]? := by
  obtain ⟨hq, -⟩ := List.getElem?_eq_some_iff.mp hup
  have hlength : (tree.set q (up.addChild inode)).length = tree.length := List.length_set
  by_cases hlast : p = tree.length
  · rw [if_pos hlast, hlast, ← hlength, List.getElem?_concat_length]
  · rw [if_neg hlast]
    by_cases hlong : p < tree.length
    · rw [List.getElem?_append_left (by omega), List.getElem?_set]
      by_cases hpq : p = q
      · rw [if_pos hpq.symm, if_pos hpq, if_pos hq]
      · rw [if_neg (Ne.symm hpq), if_neg hpq]
    · rw [List.getElem?_eq_none (by rw [List.length_append, hlength, List.length_singleton]; omega),
        if_neg (by omega), List.getElem?_eq_none (by omega)]

/-- A file is put below a directory of the tree. -/
theorem parentInode_spec (htree : WellFormed files st.treeList) (hmap : MapsDirectories st) (file : FileDescription) :
    ∃ q up, st.parentInode file = q + 1 ∧ st.treeList[q]? = some up ∧ up.attributes.kind = .directory := by
  obtain ⟨root, hroot, -, hkind, -⟩ := htree.root
  unfold TreeState.parentInode
  cases pathParent file.name with
  | none => exact ⟨0, root, rfl, hroot, hkind⟩
  | some parent =>
    dsimp only [TreeState.get]
    cases hfind : st.subRootMap.find? fun entry => entry.1 = pathComponents parent.toList with
    | none => exact ⟨0, root, rfl, hroot, hkind⟩
    | some entry => exact hmap entry (mem_of_find?_eq_some hfind)

/-- What a node of the grown tree keeps of the node that it was. -/
theorem grown_cases {q p : ℕ} {up new node : Node} {inode : ℕ} (hup : tree[q]? = some up)
    (hnode : (tree.set q (up.addChild inode) ++ [new])[p]? = some node) :
    (p = tree.length ∧ node = new) ∨ ∃ old, tree[p]? = some old ∧ p < tree.length ∧
      node = { old with children := old.children ++ if p = q then [inode] else [] } := by
  rw [getElem?_grown new inode hup] at hnode
  by_cases hlast : p = tree.length
  · rw [if_pos hlast] at hnode
    exact .inl ⟨hlast, (Option.some.inj hnode).symm⟩
  · rw [if_neg hlast] at hnode
    right
    by_cases hpq : p = q
    · rw [if_pos hpq] at hnode
      obtain rfl := Option.some.inj hnode
      subst hpq
      refine ⟨up, hup, (List.getElem?_eq_some_iff.mp hup).1, ?_⟩
      rw [if_pos rfl]
      rfl
    · rw [if_neg hpq] at hnode
      refine ⟨node, hnode, (List.getElem?_eq_some_iff.mp hnode).1, ?_⟩
      rw [if_neg hpq, List.append_nil]

theorem grown_of_old {q p : ℕ} {up new old : Node} {inode : ℕ} (hup : tree[q]? = some up) (hold : tree[p]? = some old) :
    (tree.set q (up.addChild inode) ++ [new])[p]? =
      some { old with children := old.children ++ if p = q then [inode] else [] } := by
  obtain ⟨hlong, -⟩ := List.getElem?_eq_some_iff.mp hold
  rw [getElem?_grown new inode hup, if_neg (Nat.ne_of_lt hlong)]
  by_cases hpq : p = q
  · subst hpq
    obtain rfl := Option.some.inj (hup.symm.trans hold)
    rw [if_pos rfl, if_pos rfl]
    rfl
  · rw [if_neg hpq, if_neg hpq, hold, List.append_nil]

/-- A well-formed tree with one file more below one of its directories. -/
theorem WellFormed.grown (h : WellFormed files tree) {q : ℕ} {up : Node}
    (hup : tree[q]? = some up) (hdir : up.attributes.kind = .directory) {baseName : List Char}
    (hname : pathLastName file.name = some baseName) {new : Node}
    (hnew : new = { Node.fromDescription (tree.length + 1) { file with name := String.ofList baseName } with
      parent := some (q + 1) }) :
    WellFormed (files ++ [file]) (tree.set q (up.addChild (tree.length + 1)) ++ [new]) := by
  have hat : (tree.set q (up.addChild (tree.length + 1)) ++ [new])[tree.length]? = some new := by
    rw [getElem?_grown _ _ hup, if_pos rfl]
  have hparent : new.parent = some (q + 1) := by rw [hnew]
  have hchildren : new.children = [] := by
    rw [hnew]
    rfl
  have hqlt : q < tree.length := (List.getElem?_eq_some_iff.mp hup).1
  have hlength := h.length
  constructor
  case length =>
    rw [List.length_append, List.length_set, List.length_append, hlength]
    rfl
  case root =>
    obtain ⟨root, hroot, hinode, hkind, hparent⟩ := h.root
    exact ⟨_, grown_of_old hup hroot, hinode, hkind, hparent⟩
  case file =>
    intro i old hi
    obtain hlast | hbefore := Nat.lt_or_ge i files.length |>.symm
    · rw [List.getElem?_append_right hlast] at hi
      have hzero : i - files.length = 0 := by
        have := (List.getElem?_eq_some_iff.mp hi).1
        rw [List.length_singleton] at this
        omega
      rw [hzero] at hi
      obtain rfl := Option.some.inj hi
      have hi : i + 1 = tree.length := by omega
      refine ⟨new, hi ▸ hat, ?_⟩
      subst hnew
      refine ⟨?_, ?_, rfl, rfl, rfl, ?_⟩
      · change tree.length + 1 = i + 2
        omega
      · change tree.length + 1 - 2 = i
        omega
      · rw [hname]
        exact congrArg some String.toList_ofList.symm
    · rw [List.getElem?_append_left hbefore] at hi
      obtain ⟨node, hnode, hrest⟩ := h.file i old hi
      exact ⟨_, grown_of_old hup hnode, hrest⟩
  case parent =>
    intro p node hnode
    obtain ⟨hp, rfl⟩ | ⟨old, hold, -, rfl⟩ := grown_cases hup hnode
    · exact ⟨q, _, by omega, hparent, grown_of_old hup hup, hdir⟩
    · obtain ⟨q', up', hle, hparent', hup', hdir'⟩ := h.parent p old hold
      exact ⟨q', _, hle, hparent', grown_of_old hup hup', hdir'⟩
  case children =>
    intro q' up' hup' inode
    obtain ⟨hq', rfl⟩ | ⟨old', hold', hlt, rfl⟩ := grown_cases hup hup'
    · -- Nothing is below the new node: parents come before their children.
      rw [hchildren]
      refine iff_of_false List.not_mem_nil ?_
      rintro ⟨p, node, -, hnode, hbelow⟩
      obtain ⟨hp, rfl⟩ | ⟨old, hold, hplt, rfl⟩ := grown_cases hup hnode
      · have hsame := Option.some.inj (hparent.symm.trans hbelow)
        omega
      · obtain ⟨q'', -, hle, hparent', -⟩ := h.parent p old hold
        have hsame := Option.some.inj (hparent'.symm.trans hbelow)
        omega
    · rw [List.mem_append, h.children q' old' hold' inode]
      constructor
      · rintro (⟨p, node, rfl, hnode, hbelow⟩ | hlast)
        · exact ⟨p, _, rfl, grown_of_old hup hnode, hbelow⟩
        · split at hlast
          next hsame =>
            obtain rfl := List.mem_singleton.mp hlast
            exact ⟨files.length, new, by omega, hlength ▸ hat, by rw [hsame, hparent]⟩
          next => exact absurd hlast List.not_mem_nil
      · rintro ⟨p, node, rfl, hnode, hbelow⟩
        obtain ⟨hp, rfl⟩ | ⟨old, hold, -, rfl⟩ := grown_cases hup hnode
        · right
          have hsame := Option.some.inj (hparent.symm.trans hbelow)
          rw [if_pos (by omega), List.mem_singleton]
          omega
        · exact .inl ⟨p, old, rfl, hold, hbelow⟩
  case once =>
    intro q' up' hup'
    obtain ⟨-, rfl⟩ | ⟨old', hold', -, rfl⟩ := grown_cases hup hup'
    · rw [hchildren]
      exact List.nodup_nil
    · split
      next =>
        refine List.Nodup.append (h.once q' old' hold') (List.nodup_singleton _) ?_
        intro inode hinode hlast
        obtain rfl := List.mem_singleton.mp hlast
        obtain ⟨p, node, hp, hnode, -⟩ := (h.children q' old' hold' _).mp hinode
        have hlt := (List.getElem?_eq_some_iff.mp hnode).1
        omega
      next =>
        rw [List.append_nil]
        exact h.once q' old' hold'

/-- A file is added, or refused for its name; the index of its parent is in the tree. -/
theorem add_spec (htree : WellFormed files st.treeList) (hmap : MapsDirectories st) (file : FileDescription) :
    ∃ result, st.add file = some result ∧
      ∀ st', result = .ok st' → WellFormed (files ++ [file]) st'.treeList ∧ MapsDirectories st' := by
  obtain ⟨q, up, hparent, hup, hdir⟩ := parentInode_spec htree hmap file
  have hadd : st.treeList[st.parentInode file - 1]? = some up := by rw [hparent, Nat.add_sub_cancel, hup]
  unfold TreeState.add
  dsimp only
  rw [hadd]
  dsimp only
  cases hname : pathLastName file.name with
  | none => exact ⟨_, rfl, fun _ hok => nomatch hok⟩
  | some baseName =>
    refine ⟨_, rfl, fun st' hok => ?_⟩
    obtain rfl := ok.inj hok
    rw [hparent, Nat.add_sub_cancel]
    refine ⟨htree.grown hup hdir hname rfl, fun entry hentry => ?_⟩
    dsimp only at hentry
    have hmem : (file.kind = .directory ∧ entry = (pathComponents file.name.toList, st.treeList.length + fuseRootId)) ∨
        entry ∈ st.subRootMap := by
      split at hentry
      next hkind =>
        obtain heq | hold := mem_cons.mp hentry
        · exact .inl ⟨hkind, heq⟩
        · exact .inr hold
      next => exact .inr hentry
    obtain ⟨hkind, rfl⟩ | hold := hmem
    · exact ⟨st.treeList.length, _, rfl, by rw [getElem?_grown _ _ hup, if_pos rfl], hkind⟩
    · obtain ⟨q', up', hinode, hup', hdir'⟩ := hmap entry hold
      exact ⟨q', _, hinode, grown_of_old hup hup', hdir'⟩

theorem wellFormed_initial : WellFormed [] TreeState.initial.treeList where
  length := rfl
  root := ⟨_, rfl, rfl, rfl, rfl⟩
  file := fun _ _ hfile => nomatch hfile
  parent := fun _ _ hnode => nomatch hnode
  children := by
    intro q up hup inode
    cases q with
    | zero =>
      obtain rfl := some.inj hup
      refine iff_of_false not_mem_nil ?_
      rintro ⟨p, node, -, hnode, -⟩
      exact nomatch hnode
    | succ q => exact nomatch hup
  once := by
    intro q up hup
    cases q with
    | zero =>
      obtain rfl := some.inj hup
      exact nodup_nil
    | succ q => exact nomatch hup

theorem mapsDirectories_initial : MapsDirectories .initial := by
  intro entry hentry
  have hroot : entry.2 = 0 + 1 := by
    simp only [TreeState.initial, mem_cons, not_mem_nil, or_false] at hentry
    obtain rfl | rfl := hentry <;> rfl
  exact ⟨0, .newRoot, hroot, rfl, rfl⟩

/-- Files are added to a well-formed tree up to the first with no name. -/
theorem addAll_spec (more : List FileDescription) (htree : WellFormed files st.treeList) (hmap : MapsDirectories st) :
    ∃ result, st.addAll more = some result ∧ ∀ st', result = .ok st' → WellFormed (files ++ more) st'.treeList := by
  induction more generalizing files st with
  | nil =>
    refine ⟨_, rfl, fun st' hok => ?_⟩
    obtain rfl := ok.inj hok
    rwa [append_nil]
  | cons file more ih =>
    obtain ⟨result, hadd, hresult⟩ := add_spec htree hmap file
    rw [TreeState.addAll, hadd]
    cases result with
    | error e => exact ⟨_, rfl, fun _ hok => nomatch hok⟩
    | ok st' =>
      obtain ⟨htree', hmap'⟩ := hresult st' rfl
      obtain ⟨result, hall, hresult⟩ := ih htree' hmap'
      exact ⟨result, hall, fun st'' hok => append_cons files file more ▸ hresult st'' hok⟩

/-- Building the tree of a list never panics, and gives a well-formed tree or refuses the list. -/
theorem buildTree_spec (files : List FileDescription) :
    ∃ result, buildTree files = some result ∧ ∀ tree, result = .ok tree → WellFormed files tree := by
  obtain ⟨result, hall, hresult⟩ := addAll_spec files wellFormed_initial mapsDirectories_initial
  refine ⟨_, by rw [buildTree, hall, map_some], fun tree hok => ?_⟩
  cases result with
  | error e => exact nomatch hok
  | ok st' =>
    obtain rfl := ok.inj hok
    exact hresult st' rfl

/-- A tree that is built has no handles yet. -/
def NoHandlers (tree : List Node) : Prop := ∀ node ∈ tree, node.handlers = []

theorem noHandlers_of_add (h : NoHandlers st.treeList) (hadd : st.add file = some (.ok st')) :
    NoHandlers st'.treeList := by
  unfold TreeState.add at hadd
  dsimp only at hadd
  cases hup : st.treeList[st.parentInode file - 1]? with
  | none =>
    rw [hup] at hadd
    exact nomatch hadd
  | some up =>
    rw [hup] at hadd
    dsimp only at hadd
    cases hname : pathLastName file.name with
    | none =>
      rw [hname] at hadd
      exact nomatch hadd
    | some baseName =>
      rw [hname] at hadd
      obtain rfl := ok.inj (some.inj hadd)
      intro node hnode
      obtain hold | hnew := mem_append.mp hnode
      · obtain hold | rfl := mem_or_eq_of_mem_set hold
        · exact h node hold
        · exact h up (mem_of_getElem? hup)
      · obtain rfl := mem_singleton.mp hnew
        rfl

theorem noHandlers_of_addAll {more : List FileDescription} (h : NoHandlers st.treeList)
    (hall : st.addAll more = some (.ok st')) : NoHandlers st'.treeList := by
  induction more generalizing st with
  | nil => exact ok.inj (some.inj hall) ▸ h
  | cons file more ih =>
    rw [TreeState.addAll] at hall
    cases hadd : st.add file with
    | none =>
      rw [hadd] at hall
      exact nomatch hall
    | some result =>
      rw [hadd] at hall
      cases result with
      | error e => exact nomatch hall
      | ok st₁ => exact ih (noHandlers_of_add h hadd) hall

theorem noHandlers_of_buildTree (h : buildTree files = some (.ok tree)) : NoHandlers tree := by
  obtain ⟨result, hall, hresult⟩ := map_eq_some_iff.mp h
  cases result with
  | error e => exact nomatch hresult
  | ok st =>
    obtain rfl := ok.inj hresult
    refine noHandlers_of_addAll ?_ hall
    intro node hnode
    obtain rfl := mem_singleton.mp hnode
    rfl

namespace WellFormed

variable {tree : List Node}

/-- Every file of the list is among the children of one node. -/
theorem existsUnique_parent (h : WellFormed files tree) {i : ℕ} (hi : i < files.length) :
    ∃! q : ℕ, ∃ up : Node, tree[q]? = some up ∧ i + 2 ∈ up.children := by
  obtain ⟨node, hnode, -⟩ := h.file i _ (getElem?_eq_getElem hi)
  obtain ⟨q, up, -, hparent, hup, -⟩ := h.parent i node hnode
  refine ⟨q, ⟨up, hup, (h.children q up hup _).mpr ⟨i, node, rfl, hnode, hparent⟩⟩, ?_⟩
  rintro q' ⟨up', hup', hmem⟩
  obtain ⟨p, node', hp, hnode', hparent'⟩ := (h.children q' up' hup' _).mp hmem
  obtain rfl : i = p := by omega
  obtain rfl := some.inj (hnode.symm.trans hnode')
  have hsame := some.inj (hparent.symm.trans hparent')
  omega

end WellFormed

end Build

end Fuse

end UnyDesk
