import UnyDesk.Config.AtRest
import UnyDesk.Lib.Entries
import UnyDesk.Lib.UnixPath
import UnyDesk.Lib.Utf8Code

/-!
# Files of peers

Every peer has a file of its own in the directory of peers, named by the id. An id that a file name may not hold is
written in Base64 behind a mark, and the listing of the directory reads the ids back. The standard alphabet of Base64
has the slash, so that such a name can be a path of several parts.

A file whose peer has no platform is removed when the peers are loaded. What is loaded is not the listed file but the
one that its id leads to, and a file that cannot be read counts as a peer without a platform.
-/

namespace UnyDesk.PeerFiles

open Lib Lib.UnixPath Base64 Entries Utf8 List Option UnixPath
open String (ofList toList_ofList toList_append)

variable {entry : Listed}

/-- `PeerConfig`: the secrets, and the platform in its `info`. -/
structure Peer extends PeerConfig where
  platform : String

/-- The machine and its libraries: where the configuration lies, if there is a home, the options of a new peer, and the
text form of a peer, which keeps the platform. -/
structure Host where
  crypto : Crypto
  configDir : Option Path
  defaultOptions : String → Option String
  parse : Bytes → Option Peer
  print : Peer → Bytes
  platform_parse_print : ∀ peer, (parse (print peer)).map (·.platform) = some peer.platform

/-- What a call finds: the nonces it draws, the time, and whether its file can be written. -/
structure Draw where
  nonce : Nonce
  nonces : String → Nonce
  now : ℕ
  written : Bool

structure File where
  bytes : Bytes
  modified : ℕ

abbrev Disk := List (Path × File)

/-- The regular expression of `path`, which looks for one of its characters anywhere. -/
def forbiddenPaths (id : String) : Bool :=
  id.toList.any fun c => c ∈ ['<', '>', ':', '/', '\\', '|', '?', '*']

/-- `base64::encode` of an id, with the standard alphabet. -/
def encodedText (id : String) : List Char := Base64.encode (Utf8.encode id)

def encodedId (id : String) : String :=
  if forbiddenPaths id then "base64_" ++ ofList (encodedText id) else id

/-- `Config::with_extension`. -/
def configWithExtension (path : Path) : Path :=
  match extension path with
  | some ext => withExtension path (Utf8.encode (Utf8.decodeLossy ext ++ ".toml"))
  | none => withExtension path (Utf8.encode "toml")

/-- The text of a path of the operating system, or nothing if it has none. -/
def toStr (name : Option Bytes) : Option String := name.map fun name => (Utf8.decode? name).getD ""

/-- The id that a listed name stands for. -/
def decodedId (id : String) : String :=
  if startsWith id "base64_" && byteLen id ≠ 7 then
    Utf8.decodeLossy ((Base64.decode (id.toList.drop 7)).getD [])
  else id

def listedId (path : Path) : String := decodedId ((toStr (fileStem path)).getD "")

structure Listed where
  id : String
  modified : ℕ
  path : Path

def batchLoadingCount : ℕ := 100

/-- The entries that a batch loads. -/
def batchOf (all : List Listed) (start : ℕ) (stop : Option ℕ) : List Listed :=
  (all.drop start).take (min (stop.getD (start + batchLoadingCount)) all.length - start)

namespace Host

variable (host : Host)

/-- `Config::path`. -/
def configPath (path : Path) : Path :=
  match host.configDir with
  | some dir => push dir path
  | none => []

def peersDir : Path := host.configPath (components (Utf8.encode "peers"))

/-- `PeerConfig::path`. -/
def path (id : String) : Path :=
  configWithExtension (host.configPath
    (push (push [] (components (Utf8.encode "peers"))) (components (Utf8.encode (encodedId id)))))

def defaultPeer : Peer where
  password := []
  options := host.defaultOptions
  platform := ""

/-- `confy::load_path`. -/
def loadPath (disk : Disk) (path : Path) : Option Peer :=
  (disk.lookup path).bind fun file => host.parse file.bytes

def store (draw : Draw) (id : String) (peer : Peer) (disk : Disk) : Disk :=
  let config := { peer with toPeerConfig := peer.toPeerConfig.store_ host.crypto draw.nonce draw.nonces }
  if draw.written then Entries.insert (host.path id) ⟨host.print config, draw.now⟩ disk else disk

/-- `PeerConfig::load`: the peer, and the files after it. -/
def load (draw : Draw) (id : String) (disk : Disk) : Peer × Disk :=
  match host.loadPath disk (host.path id) with
  | some peer =>
    let (config, store) := PeerConfig.loaded host.crypto peer.toPeerConfig
    let peer := { peer with toPeerConfig := config }
    (peer, if store then host.store draw id peer disk else disk)
  | none => (host.defaultPeer, disk)

/-- A file that `read_dir` finds in the directory of peers and that is taken for a peer; no directory has an empty
path. -/
def isPeerFile (path : Path) : Bool :=
  (host.peersDir ≠ [] && path.dropLast = host.peersDir && (fileName path).isSome) &&
    toStr (extension path) = some "toml"

def getVecIdModifiedTimePath (idFilters : Option (List String)) (disk : Disk) : List Listed :=
  let entries := disk.filter fun entry => host.isPeerFile entry.1
  let listed := entries.map fun entry => Listed.mk (listedId entry.1) entry.2.modified entry.1
  (listed.filter fun entry => idFilters.all fun filters => filters.contains entry.id).mergeSort
    fun a b => decide (b.modified ≤ a.modified)

/-- The peers of some entries, one after the other; files without a platform are removed on the way. -/
def loadAll (draws : ℕ → Draw) : List Listed → Disk → List (String × ℕ × Peer) × Disk
  | [], disk => ([], disk)
  | entry :: rest, disk =>
    let (peer, disk) := host.load (draws rest.length) entry.id disk
    let disk := if peer.platform = "" then Entries.erase entry.path disk else disk
    let (peers, disk) := loadAll draws rest disk
    ((entry.id, entry.modified, peer) :: peers, disk)

/-- The peers of a batch with the end of the batch, and the files after it. -/
def batchPeers (draws : ℕ → Draw) (all : List Listed) (start : ℕ) (stop : Option ℕ) (disk : Disk) :
    (List (String × ℕ × Peer) × ℕ) × Disk :=
  if start ≥ all.length then (([], 0), disk)
  else
    let stop := min (stop.getD (start + batchLoadingCount)) all.length
    if stop ≤ start then (([], start), disk)
    else
      let (peers, disk) := host.loadAll draws ((all.drop start).take (stop - start)) disk
      ((peers.filter (·.2.2.platform ≠ ""), stop), disk)

end Host

section Text

variable {text : String}

theorem slash_mem_encode : slash ∈ encode text ↔ '/' ∈ text.toList := mem_encode_iff (by decide) text

theorem dot_mem_encode : dot ∈ encode text ↔ '.' ∈ text.toList := mem_encode_iff (by decide) text

theorem encode_ne {text' : String} (h : text ≠ text') : encode text ≠ encode text' :=
  fun heq => h (encode_injective heq)

theorem encode_extension : encode "toml" = [0x74, 0x6F, 0x6D, 0x6C] := by decide

theorem dot_not_mem_toml : dot ∉ encode "toml" := by
  rw [encode_extension]
  decide

theorem utf8EncodeChar_dot : String.utf8EncodeChar '.' = [dot] := by decide

/-- The name of a file of the configuration, with its extension in full. -/
theorem encode_toml (text : String) : encode (text ++ ".toml") = encode text ++ dot :: encode "toml" := by
  have hext : ".toml" = String.singleton '.' ++ "toml" := by decide
  have hdot : Utf8.encode (String.singleton '.') = [dot] := by
    rw [Utf8.encode, String.toList_singleton, flatMap_cons, flatMap_nil, append_nil, utf8EncodeChar_dot]
  rw [hext, encode_append, encode_append, hdot]
  rfl

/-- A text with a dot is cut at its last dot. -/
theorem exists_last_dot (h : '.' ∈ text.toList) : ∃ front ext : String, '.' ∉ ext.toList ∧
    encode text = encode front ++ dot :: encode ext := by
  obtain ⟨back, front, hcut, hback⟩ := eq_append_cons_of_mem (mem_reverse.mpr h)
  have htext : text.toList = front.reverse ++ '.' :: back.reverse := by
    rw [← reverse_reverse text.toList, hcut]
    simp
  refine ⟨ofList front.reverse, ofList back.reverse, by simpa using hback, ?_⟩
  rw [Utf8.encode, Utf8.encode, Utf8.encode, toList_ofList, toList_ofList, htext, flatMap_append,
    flatMap_cons, utf8EncodeChar_dot]
  rfl

end Text

section Extension

variable {dir : Path} {text : String}

/-- The extension of the configuration is added to every name, whether it has one or not. -/
theorem configWithExtension_append (dir : Path) (hdots : text ≠ "..") :
    configWithExtension (dir ++ [.normal (encode text)]) = dir ++ [.normal (encode (text ++ ".toml"))] := by
  have htoml : encode "toml" ≠ [] := by simp [encode_extension]
  by_cases hdot : '.' ∈ text.toList
  · obtain ⟨front, ext, hext, hcut⟩ := exists_last_dot hdot
    have hext := mt dot_mem_encode.mp hext
    by_cases hfront : front = ""
    · -- A dot at the front only: the whole name is the stem.
      have hname : encode text = dot :: encode ext := by rw [hcut, hfront]; rfl
      have hsplit := splitAtDot_cons hext
      rw [encode_toml, hname, configWithExtension, extension_append hsplit, bind_some]
      exact withExtension_append hsplit rfl htoml
    · have hbefore : encode front ≠ [] := encode_ne hfront
      have hdots : encode front ++ dot :: encode ext ≠ [dot, dot] := by
        rw [← hcut]
        exact encode_ne hdots
      have hsplit := splitAtDot_append hbefore hext hdots
      have hlong : encode (ext ++ ".toml") ≠ [] := by
        rw [encode_toml]
        simp
      rw [encode_toml, hcut, configWithExtension, extension_append hsplit, bind_some]
      dsimp only
      rw [decodeLossy_encode, withExtension_append hsplit rfl hlong, encode_toml, append_assoc, cons_append]
  · have hsplit := splitAtDot_of_not_mem (mt dot_mem_encode.mp hdot)
    rw [encode_toml, configWithExtension, extension_append hsplit, bind_none]
    exact withExtension_append hsplit rfl htoml

/-- The stem of a file of the configuration is the name that it was made from. -/
theorem splitAtDot_toml (hne : text ≠ "") :
    splitAtDot (encode (text ++ ".toml")) = (some (encode text), some (encode "toml")) := by
  have hdots : encode text ++ dot :: encode "toml" ≠ [dot, dot] := by
    intro heq
    have hlength := congrArg length heq
    rw [length_append, length_cons, encode_extension] at hlength
    simp at hlength
  rw [encode_toml]
  exact splitAtDot_append (encode_ne hne) dot_not_mem_toml hdots

/-- A listed name is read back from its file. -/
theorem listedId_append (dir : Path) (hne : text ≠ "") :
    listedId (dir ++ [.normal (encode (text ++ ".toml"))]) = decodedId text := by
  rw [listedId, fileStem_append (splitAtDot_toml hne), some_or, toStr, map_some, decode?_encode]
  rfl

theorem toStr_extension_append (dir : Path) (hne : text ≠ "") :
    toStr (extension (dir ++ [.normal (encode (text ++ ".toml"))])) = some "toml" := by
  rw [extension_append (splitAtDot_toml hne), bind_some, toStr, map_some, decode?_encode]
  rfl

end Extension

section Id

/-- The ids that the correspondence is about. -/
structure PeerId (id : String) : Prop where
  ne_empty : id ≠ ""
  nul_not_mem : '\x00' ∉ id.toList
  ne_dot : id ≠ "."
  ne_dots : id ≠ ".."
  unmarked : startsWith id "base64_" = false

/-- The ids whose name is one part of a path. -/
def Nameable (id : String) : Prop := forbiddenPaths id = true → '/' ∉ encodedText id

instance (id : String) : Decidable (Nameable id) :=
  inferInstanceAs (Decidable (forbiddenPaths id = true → '/' ∉ encodedText id))

variable {id : String}

theorem decodedId_of_unmarked (h : startsWith id "base64_" = false) : decodedId id = id := by
  rw [decodedId, h]
  rfl

theorem decodedId_marked {code : List Char} (hcode : code ≠ []) :
    decodedId ("base64_" ++ ofList code) = decodeLossy ((decode code).getD []) := by
  have hmark : (encode "base64_").length = 7 := by decide
  have hlong : byteLen ("base64_" ++ ofList code) ≠ 7 := by
    have hchars := length_le_length_encode (ofList code)
    have hpos := length_pos_iff.mpr hcode
    rw [toList_ofList] at hchars
    rw [byteLen, encode_append, length_append, hmark]
    omega
  have hbody : ("base64_" ++ ofList code).toList.drop 7 = code := by
    rw [toList_append, @toList_ofList code]
    rfl
  rw [decodedId, startsWith_append, hbody]
  simp [hlong]

theorem encodedText_ne_nil (h : id ≠ "") : encodedText id ≠ [] := by
  have hbytes := length_pos_iff.mpr (encode_ne h)
  intro hnil
  have hlength := length_encode (encode id)
  rw [show encode (encode id) = [] from hnil] at hlength
  simp only [length_nil] at hlength
  change 0 < (encode id).length at hbytes
  omega

/-- The name of an id is read back as the id. -/
theorem decodedId_encodedId (h : PeerId id) : decodedId (encodedId id) = id := by
  rw [encodedId]
  split
  · rw [decodedId_marked (encodedText_ne_nil h.ne_empty), encodedText, decode_encode, getD_some, decodeLossy_encode]
  · exact decodedId_of_unmarked h.unmarked

theorem marked_ne (text : String) (h : startsWith text "base64_" = false) (code : List Char) :
    "base64_" ++ ofList code ≠ text := by
  rintro rfl
  rw [startsWith_append] at h
  cases h

theorem encodedId_ne {text : String} (hid : id ≠ text) (h : startsWith text "base64_" = false) :
    encodedId id ≠ text := by
  rw [encodedId]
  split
  · exact marked_ne text h _
  · exact hid

theorem slash_not_mem_encodedId (h : Nameable id) : '/' ∉ (encodedId id).toList := by
  rw [encodedId]
  split
  · next hforbidden =>
    have hmark : '/' ∉ "base64_".toList := by decide
    rw [toList_append, @toList_ofList (encodedText id), mem_append, not_or]
    exact ⟨hmark, h hforbidden⟩
  · next hfree =>
    intro hmem
    refine hfree (any_eq_true.mpr ⟨'/', hmem, by decide⟩)

end Id

section Paths

variable {host : Host} {dir : Path} {id : String}

theorem components_peers : components (encode "peers") = [.normal (encode "peers")] :=
  components_of_part (by decide) (by decide) (by decide) (by decide)

theorem path_eq (hdir : host.configDir = some dir) {name : Bytes} {rest : Path}
    (hid : components (encode (encodedId id)) = .normal name :: rest) :
    host.path id = configWithExtension (host.peersDir ++ .normal name :: rest) := by
  rw [Host.path, Host.peersDir, Host.configPath, Host.configPath, hdir, components_peers, hid]
  simp only [push, nil_append, singleton_append, append_assoc]

/-- Without a place for the configuration, peers have no files. -/
theorem path_of_none (hdir : host.configDir = none) (id : String) : host.path id = [] := by
  rw [Host.path, Host.configPath, hdir]
  rfl

theorem peersDir_ne_nil (hdir : host.configDir = some dir) : host.peersDir ≠ [] := by
  rw [Host.peersDir, Host.configPath, hdir, components_peers]
  exact append_ne_nil_of_right_ne_nil dir (cons_ne_nil _ [])

theorem length_configWithExtension (path : Path) : (configWithExtension path).length = path.length := by
  rw [configWithExtension]
  split
  · exact length_withExtension path _
  · exact length_withExtension path _

/-- The file of an id whose name is one part, and the id that is read back from it. -/
theorem path_of_nameable (hdir : host.configDir = some dir) (hid : PeerId id) (hname : Nameable id) :
    host.path id = host.peersDir ++ [.normal (encode (encodedId id ++ ".toml"))] := by
  have hslash := mt slash_mem_encode.mp (slash_not_mem_encodedId hname)
  have hne := encode_ne (encodedId_ne hid.ne_empty (by decide))
  have hdot := encode_ne (encodedId_ne hid.ne_dot (by decide))
  have hdots := encode_ne (encodedId_ne hid.ne_dots (by decide))
  rw [path_eq hdir (components_of_part hslash hne hdot hdots),
    configWithExtension_append host.peersDir (encodedId_ne hid.ne_dots (by decide))]

theorem listedId_of_nameable (hdir : host.configDir = some dir) (hid : PeerId id) (hname : Nameable id) :
    listedId (host.path id) = id := by
  rw [path_of_nameable hdir hid hname, listedId_append _ (encodedId_ne hid.ne_empty (by decide)),
    decodedId_encodedId hid]

theorem dot_not_mem_encodedText (id : String) : '.' ∉ encodedText id := by
  intro hmem
  rcases mem_encode hmem with hpad | ⟨n, hn, hchar⟩
  · exact absurd hpad (by decide)
  · exact char_ne hn (by decide) hchar.symm

/-- Of the texts of an id, the slash at the end is the only one that leads nowhere. -/
theorem eq_nil_of_names {front back : List Char} (hcut : encodedText id = front ++ '/' :: back)
    (hnames : names (encode (ofList back)) = []) : back = [] := by
  have hdot : '.' ∉ (ofList back).toList := by
    rw [toList_ofList]
    intro hmem
    refine dot_not_mem_encodedText id ?_
    rw [hcut]
    exact mem_append_right front (mem_cons_of_mem _ hmem)
  have hbytes := eq_slash_of_names_eq_nil (mt dot_mem_encode.mp hdot) hnames
  have hchars : ∀ c ∈ back, c = '/' := by
    intro c hc
    obtain ⟨b, hb⟩ := exists_mem_of_ne_nil _ (String.utf8EncodeChar_ne_nil (c := c))
    have hmem : b ∈ Utf8.encode (ofList back) := by
      rw [Utf8.encode, toList_ofList]
      exact mem_flatMap.mpr ⟨c, hc, hb⟩
    rw [hbytes b hmem] at hb
    exact (Utf8.mem_utf8EncodeChar_iff (by decide) c).mp hb
  have hrep : back = replicate back.length '/' := eq_replicate_iff.mpr ⟨rfl, hchars⟩
  cases hlength : back.length with
  | zero => exact length_eq_zero_iff.mp hlength
  | succ k =>
    -- Two slashes in a row would stand for a byte that no text has.
    have hslashes : encodedText id = front ++ replicate k '/' ++ ['/', '/'] := by
      rw [hcut, hrep, hlength, ← replicate_succ, replicate_succ', replicate_succ']
      simp
    exact absurd (Base64.ones_mem_of_slashes hslashes) (Utf8.ones_not_mem_encode id)

section Cut

variable {front back : List Char}

/-- Where the name of an id has its first slash. -/
theorem components_of_cut (hforbidden : forbiddenPaths id = true) (hcut : encodedText id = front ++ '/' :: back)
    (hfront : '/' ∉ front) : components (encode (encodedId id)) =
      .normal (encode ("base64_" ++ ofList front)) :: names (encode (ofList back)) := by
  have htext : encodedId id = "base64_" ++ ofList front ++ ("/" ++ ofList back) := by
    rw [encodedId, if_pos hforbidden, hcut, String.append_assoc]
    congr 1
    apply String.toList_inj.mp
    simp
  have hone : encode "/" = [slash] := by decide
  have hfree : slash ∉ encode ("base64_" ++ ofList front) := by
    have hmark : '/' ∉ "base64_".toList := by decide
    refine mt slash_mem_encode.mp ?_
    rw [toList_append, @toList_ofList front, mem_append, not_or]
    exact ⟨hmark, hfront⟩
  rw [htext, encode_append, encode_append "/", hone]
  exact components_append hfree (encode_ne (marked_ne "" (by decide) front))
    (encode_ne (marked_ne "." (by decide) front)) (encode_ne (marked_ne ".." (by decide) front))
    (encode (ofList back))

/-- Without the slash at its end, the text of an id is not decoded. -/
theorem decode_of_cut (hcut : encodedText id = front ++ ['/']) : front ≠ [] ∧ decode front = none := by
  have hlength : (encodedText id).length = front.length + 1 := by rw [hcut, length_append]; rfl
  rw [encodedText, length_encode] at hlength
  constructor
  · rintro rfl
    rw [length_nil] at hlength
    omega
  · cases hread : decode front with
    | none => rfl
    | some bytes =>
      have := length_of_decode hread
      omega

end Cut

/-- An id with a slash in its name, whose file is in the directory of peers all the same, is read back as no id
at all. -/
theorem listedId_of_not_nameable (hname : ¬Nameable id)
    (hinside : ∃ name, host.path id = host.peersDir ++ [.normal name]) : listedId (host.path id) = "" := by
  obtain ⟨hforbidden, hslash⟩ := Classical.not_imp.mp hname
  obtain ⟨front, back, hcut, hfront⟩ := eq_append_cons_of_mem (Classical.not_not.mp hslash)
  obtain ⟨name, hinside⟩ := hinside
  cases hdir : host.configDir with
  | none =>
    rw [path_of_none hdir id] at hinside
    simp at hinside
  | some dir =>
    have hpath := path_eq hdir (components_of_cut hforbidden hcut hfront)
    -- One part behind the directory of peers leaves room for the slash at the end only.
    have hnames : names (encode (ofList back)) = [] := by
      have hlength := congrArg length (hpath.symm.trans hinside)
      rw [length_configWithExtension] at hlength
      simp only [length_append, length_cons, length_nil] at hlength
      exact length_eq_zero_iff.mp (by omega)
    obtain rfl := eq_nil_of_names hcut hnames
    obtain ⟨hne, hdecode⟩ := decode_of_cut hcut
    rw [hpath, hnames, configWithExtension_append _ (marked_ne ".." (by decide) front),
      listedId_append _ (marked_ne "" (by decide) front), decodedId_marked hne, hdecode]
    rfl

end Paths

section Listing

variable {host : Host} {idFilters : Option (List String)} {disk : Disk}

theorem mem_getVec (h : entry ∈ host.getVecIdModifiedTimePath idFilters disk) : entry.id = listedId entry.path := by
  rw [Host.getVecIdModifiedTimePath, mem_mergeSort] at h
  obtain ⟨listed, -, rfl⟩ := mem_map.mp (mem_filter.mp h).1
  rfl

/-- A file that was written last is listed once. -/
theorem filter_getVec_insert {path : Path} {file : File} (hpeer : host.isPeerFile path = true)
    (hfilter : (idFilters.all fun filters => filters.contains (listedId path)) = true) :
    (host.getVecIdModifiedTimePath idFilters (insert path file disk)).filter (·.path = path) =
      [⟨listedId path, file.modified, path⟩] := by
  have herased : ∀ entry ∈ (Entries.erase path disk).filter fun entry => host.isPeerFile entry.1, entry.1 ≠ path := by
    intro entry hentry
    simpa using (mem_filter.mp (mem_filter.mp hentry).1).2
  refine perm_singleton.mp (((mergeSort_perm _ _).filter _).trans ?_)
  rw [Entries.insert, filter_append, map_append, filter_append, filter_append]
  have hone : [(path, file)].filter (fun entry => host.isPeerFile entry.1) = [(path, file)] :=
    filter_cons_of_pos hpeer
  have hlast : [Listed.mk (listedId path) file.modified path].filter
      (fun entry => idFilters.all fun filters => filters.contains entry.id) = [⟨listedId path, file.modified, path⟩] :=
    filter_cons_of_pos hfilter
  have hpath : [Listed.mk (listedId path) file.modified path].filter (·.path = path) =
      [⟨listedId path, file.modified, path⟩] := filter_cons_of_pos (decide_eq_true rfl)
  have hothers : ((((Entries.erase path disk).filter fun entry => host.isPeerFile entry.1).map
      fun entry => Listed.mk (listedId entry.1) entry.2.modified entry.1).filter
        (fun entry => idFilters.all fun filters => filters.contains entry.id)).filter (·.path = path) = [] := by
    rw [filter_eq_nil_iff]
    intro entry hentry
    obtain ⟨old, hold, rfl⟩ := mem_map.mp (mem_filter.mp hentry).1
    simpa using herased old hold
  rw [hothers, hone, map_singleton, hlast, hpath]
  exact List.Perm.refl _

/-- What `store` wrote for an id is listed under this id. -/
def Host.ListedAs (host : Host) (id : String) : Prop :=
  ∀ draw peer disk idFilters, draw.written = true → (idFilters.all fun filters => filters.contains id) = true →
    (host.getVecIdModifiedTimePath idFilters (host.store draw id peer disk)).filter (·.path = host.path id) =
      [⟨id, draw.now, host.path id⟩]

/-- An id and its file correspond. -/
structure Host.Corresponds (host : Host) (id : String) : Prop where
  inside : ∃ name, host.path id = host.peersDir ++ [.normal name]
  apart : ∀ id', PeerId id' → host.path id' = host.path id → id' = id
  listed : host.ListedAs id

variable {id : String}

theorem listedAs_of_listedId (hpeer : host.isPeerFile (host.path id) = true) (hid : listedId (host.path id) = id) :
    host.ListedAs id := by
  intro draw peer disk idFilters hwritten hfilters
  have hfilter : (idFilters.all fun filters => filters.contains (listedId (host.path id))) = true := by rwa [hid]
  rw [Host.store, if_pos hwritten, filter_getVec_insert hpeer hfilter, hid]

theorem listedId_of_listedAs (h : host.ListedAs id) : listedId (host.path id) = id := by
  have hlisted := h ⟨.zero, fun _ => .zero, 0, true⟩ host.defaultPeer [] none rfl rfl
  have hmem : Listed.mk id 0 (host.path id) ∈ [⟨id, 0, host.path id⟩] := mem_singleton.mpr rfl
  rw [← hlisted] at hmem
  exact (mem_getVec (mem_filter.mp hmem).1).symm

/-- Exactly the ids whose name is one part of a path correspond to their files. -/
theorem corresponds_iff (host : Host) (hid : PeerId id) :
    host.Corresponds id ↔ host.configDir.isSome = true ∧ Nameable id := by
  constructor
  · intro h
    constructor
    · cases hdir : host.configDir with
      | none =>
        obtain ⟨name, hpath⟩ := h.inside
        rw [path_of_none hdir id] at hpath
        simp at hpath
      | some dir => rfl
    · by_contra hname
      exact hid.ne_empty ((listedId_of_listedAs h.listed).symm.trans (listedId_of_not_nameable hname h.inside))
  · rintro ⟨hdir, hname⟩
    obtain ⟨dir, hdir⟩ := isSome_iff_exists.mp hdir
    have hpath := path_of_nameable hdir hid hname
    have hlisted := listedId_of_nameable hdir hid hname
    have hne := encodedId_ne hid.ne_empty (by decide)
    refine ⟨⟨_, hpath⟩, ?_, ?_⟩
    · intro id' hid' hsame
      by_cases hname' : Nameable id'
      · rw [← listedId_of_nameable hdir hid' hname', hsame, hlisted]
      · have hnone := listedId_of_not_nameable hname' ⟨_, hsame.trans hpath⟩
        rw [hsame, hlisted] at hnone
        exact absurd hnone hid.ne_empty
    · have hpeer : host.isPeerFile (host.path id) = true := by
        rw [hpath, Host.isPeerFile, toStr_extension_append _ hne]
        simp [peersDir_ne_nil hdir]
      exact listedAs_of_listedId hpeer hlisted

end Listing

section Batch

variable {host : Host} {draws : ℕ → Draw} {disk disk' disk'' : Disk} {draw : Draw} {entries : List Listed}

/-- The platform that the file of a path tells. -/
def Host.platformAt (host : Host) (disk : Disk) (path : Path) : Option String :=
  (host.loadPath disk path).map (·.platform)

/-- Files only disappear, and those that stay keep their platforms. -/
def Host.Shrunk (host : Host) (disk disk' : Disk) : Prop :=
  ∀ path, (disk'.lookup path).isSome = true →
    (disk.lookup path).isSome = true ∧ host.platformAt disk' path = host.platformAt disk path

theorem Shrunk.refl (host : Host) (disk : Disk) : host.Shrunk disk disk := fun _ hpath => ⟨hpath, rfl⟩

theorem Shrunk.trans (h : host.Shrunk disk disk') (h' : host.Shrunk disk' disk'') : host.Shrunk disk disk'' := by
  intro path hpath
  obtain ⟨hmid, hsame'⟩ := h' path hpath
  obtain ⟨hold, hsame⟩ := h path hmid
  exact ⟨hold, hsame'.trans hsame⟩

theorem isSome_lookup_of_platformAt {path : Path} {platform : String} (h : host.platformAt disk path = some platform) :
    (disk.lookup path).isSome = true := by
  rw [Host.platformAt, Host.loadPath] at h
  cases hlookup : disk.lookup path with
  | none =>
    rw [hlookup] at h
    cases h
  | some file => rfl

theorem shrunk_erase (host : Host) (disk : Disk) (path : Path) : host.Shrunk disk (erase path disk) := by
  intro path' hpath'
  have hne : path' ≠ path := by
    rintro rfl
    rw [lookup_erase_self] at hpath'
    cases hpath'
  rw [lookup_erase_of_ne hne] at hpath'
  refine ⟨hpath', ?_⟩
  rw [Host.platformAt, Host.loadPath, lookup_erase_of_ne hne]
  rfl

/-- Storing a peer with the platform of its file keeps all platforms. -/
theorem shrunk_store {id : String} {peer : Peer}
    (hplatform : host.platformAt disk (host.path id) = some peer.platform) :
    host.Shrunk disk (host.store draw id peer disk) ∧
      ∀ path, ((host.store draw id peer disk).lookup path).isSome = (disk.lookup path).isSome := by
  cases hwritten : draw.written with
  | false =>
    rw [Host.store, hwritten]
    exact ⟨Shrunk.refl host disk, fun _ => rfl⟩
  | true =>
    have hold := isSome_lookup_of_platformAt hplatform
    rw [Host.store, hwritten]
    dsimp only
    rw [if_pos rfl]
    constructor
    · intro path hpath
      by_cases hsame : path = host.path id
      · subst hsame
        refine ⟨hold, ?_⟩
        rw [hplatform, Host.platformAt, Host.loadPath, lookup_insert_self]
        exact host.platform_parse_print _
      · rw [lookup_insert_of_ne hsame] at hpath
        refine ⟨hpath, ?_⟩
        rw [Host.platformAt, Host.loadPath, lookup_insert_of_ne hsame]
        rfl
    · intro path
      by_cases hsame : path = host.path id
      · rw [hsame, lookup_insert_self, hold]
        rfl
      · rw [lookup_insert_of_ne hsame]

/-- Loading a peer tells the platform of its file, and none if there is no file that is read. -/
theorem load_spec (host : Host) (draw : Draw) (id : String) (disk : Disk) :
    (host.load draw id disk).1.platform = (host.platformAt disk (host.path id)).getD "" ∧
      host.Shrunk disk (host.load draw id disk).2 ∧
      ∀ path, ((host.load draw id disk).2.lookup path).isSome = (disk.lookup path).isSome := by
  rw [Host.load]
  cases hload : host.loadPath disk (host.path id) with
  | none =>
    rw [Host.platformAt, hload]
    exact ⟨rfl, Shrunk.refl host disk, fun _ => rfl⟩
  | some peer =>
    have hplatform : host.platformAt disk (host.path id) = some peer.platform := by
      rw [Host.platformAt, hload]
      rfl
    dsimp only
    refine ⟨by rw [hplatform]; rfl, ?_⟩
    split
    · exact shrunk_store hplatform
    · exact ⟨Shrunk.refl host disk, fun _ => rfl⟩

/-- The files after one entry of a batch. -/
def Host.loadEntry (host : Host) (draw : Draw) (entry : Listed) (disk : Disk) : Disk :=
  let loaded := host.load draw entry.id disk
  if loaded.1.platform = "" then Entries.erase entry.path loaded.2 else loaded.2

theorem loadAll_cons (host : Host) (draws : ℕ → Draw) (entry : Listed) (rest : List Listed) (disk : Disk) :
    (host.loadAll draws (entry :: rest) disk).2 =
      (host.loadAll draws rest (host.loadEntry (draws rest.length) entry disk)).2 := rfl

theorem shrunk_loadEntry (host : Host) (draw : Draw) (entry : Listed) (disk : Disk) :
    host.Shrunk disk (host.loadEntry draw entry disk) := by
  obtain ⟨-, hshrunk, -⟩ := load_spec host draw entry.id disk
  rw [Host.loadEntry]
  split
  · exact Shrunk.trans hshrunk (shrunk_erase host _ entry.path)
  · exact hshrunk

theorem shrunk_loadAll (host : Host) (draws : ℕ → Draw) (entries : List Listed) (disk : Disk) :
    host.Shrunk disk (host.loadAll draws entries disk).2 := by
  induction entries generalizing disk with
  | nil => exact Shrunk.refl host disk
  | cons entry rest ih =>
    rw [loadAll_cons]
    exact Shrunk.trans (shrunk_loadEntry host (draws rest.length) entry disk) (ih _)

/-- A file that an entry leaves in place belongs to an id whose file tells a platform. -/
theorem platformAt_of_kept (h : ((host.loadEntry draw entry disk).lookup entry.path).isSome = true) :
    ∃ platform, host.platformAt disk (host.path entry.id) = some platform ∧ platform ≠ "" := by
  obtain ⟨hplatform, -, -⟩ := load_spec host draw entry.id disk
  rw [Host.loadEntry] at h
  split at h
  · rw [lookup_erase_self] at h
    cases h
  · next hkept =>
    cases hat : host.platformAt disk (host.path entry.id) with
    | none =>
      rw [hat] at hplatform
      exact absurd hplatform hkept
    | some platform =>
      rw [hat] at hplatform
      exact ⟨platform, rfl, fun hempty => hkept (hplatform.trans hempty)⟩

theorem batchPeers_snd (host : Host) (draws : ℕ → Draw) (all : List Listed) (start : ℕ) (stop : Option ℕ)
    (disk : Disk) :
    (host.batchPeers draws all start stop disk).2 = (host.loadAll draws (batchOf all start stop) disk).2 := by
  rw [Host.batchPeers]
  split
  · next hstart =>
    rw [batchOf, drop_eq_nil_of_le hstart, take_nil]
    rfl
  · dsimp only
    split
    · next hstop =>
      rw [batchOf, Nat.sub_eq_zero_of_le hstop]
      rfl
    · rfl

/-- A batch removes those of its files whose own peer has no platform, if any. -/
def Host.RemovesEmpty (host : Host) (draws : ℕ → Draw) (all : List Listed) (start : ℕ) (stop : Option ℕ) (disk : Disk) :
    Prop :=
  ∀ entry ∈ batchOf all start stop, (disk.lookup entry.path).isSome = true →
    (host.batchPeers draws all start stop disk).2.lookup entry.path = none → host.platformAt disk entry.path = some ""

/-- The peer of a listed file has no platform, or the file that the listed id leads to tells one. -/
def Host.Told (host : Host) (disk : Disk) (entry : Listed) : Prop :=
  host.platformAt disk entry.path = some "" ∨
    ∃ platform, host.platformAt disk (host.path entry.id) = some platform ∧ platform ≠ ""

/-- Every file that is gone told that its peer has no platform. -/
def Host.LostEmpty (host : Host) (disk disk' : Disk) : Prop :=
  ∀ path, (disk.lookup path).isSome = true → disk'.lookup path = none → host.platformAt disk path = some ""

theorem lostEmpty_loadEntry (hlost : host.LostEmpty disk disk')
    (hshrunk : host.Shrunk disk disk') (htold : (disk.lookup entry.path).isSome = true → host.Told disk entry) :
    host.LostEmpty disk (host.loadEntry draw entry disk') := by
  obtain ⟨hplatform, -, hsame⟩ := load_spec host draw entry.id disk'
  intro path hpath hnone
  by_cases hgone : disk'.lookup path = none
  · exact hlost path hpath hgone
  · have hstays : (host.load draw entry.id disk').2.lookup path ≠ none := by
      rw [← isSome_iff_ne_none, hsame path]
      exact isSome_iff_ne_none.mpr hgone
    rw [Host.loadEntry] at hnone
    split at hnone
    · next hempty =>
      have hentry : path = entry.path := by
        by_contra hne
        rw [lookup_erase_of_ne hne] at hnone
        exact hstays hnone
      subst hentry
      rcases htold hpath with hown | ⟨platform, hat, hne⟩
      · exact hown
      · -- The file that decides is still there, so that its platform was found.
        have hthere : (disk'.lookup (host.path entry.id)).isSome = true := by
          by_contra hnot
          have hat' := hlost _ (isSome_lookup_of_platformAt hat) (not_isSome_iff_eq_none.mp hnot)
          exact hne (some.inj (hat.symm.trans hat'))
        rw [(hshrunk _ hthere).2, hat] at hplatform
        exact absurd (hplatform.symm.trans hempty) hne
    · exact absurd hnone hstays

theorem lostEmpty_loadAll (hlost : host.LostEmpty disk disk') (hshrunk : host.Shrunk disk disk')
    (htold : ∀ entry ∈ entries, (disk.lookup entry.path).isSome = true → host.Told disk entry) :
    host.LostEmpty disk (host.loadAll draws entries disk').2 := by
  induction entries generalizing disk' with
  | nil => exact hlost
  | cons entry rest ih =>
    rw [loadAll_cons]
    refine ih (lostEmpty_loadEntry hlost hshrunk (htold entry mem_cons_self))
      (Shrunk.trans hshrunk (shrunk_loadEntry host _ entry disk')) ?_
    exact fun entry' hentry' => htold entry' (mem_cons_of_mem entry hentry')

/-- An entry whose file is still there after a batch has an id whose file told a platform before it. -/
theorem platformAt_of_kept_loadAll (hentry : entry ∈ entries)
    (h : ((host.loadAll draws entries disk).2.lookup entry.path).isSome = true) :
    ∃ platform, host.platformAt disk (host.path entry.id) = some platform ∧ platform ≠ "" := by
  induction entries generalizing disk with
  | nil => exact absurd hentry not_mem_nil
  | cons entry' rest ih =>
    rw [loadAll_cons] at h
    rcases mem_cons.mp hentry with rfl | hrest
    · exact platformAt_of_kept (shrunk_loadAll host draws rest _ entry.path h).1
    · obtain ⟨platform, hat, hne⟩ := ih hrest h
      have hshrunk := shrunk_loadEntry host (draws rest.length) entry' disk
      rw [(hshrunk _ (isSome_lookup_of_platformAt hat)).2] at hat
      exact ⟨platform, hat, hne⟩

theorem removesEmpty_iff (host : Host) (draws : ℕ → Draw) (all : List Listed) (start : ℕ) (stop : Option ℕ)
    (disk : Disk) : host.RemovesEmpty draws all start stop disk ↔
      ∀ entry ∈ batchOf all start stop, (disk.lookup entry.path).isSome = true → host.Told disk entry := by
  rw [Host.RemovesEmpty, batchPeers_snd]
  constructor
  · intro h entry hentry hthere
    by_cases hgone : (host.loadAll draws (batchOf all start stop) disk).2.lookup entry.path = none
    · exact .inl (h entry hentry hthere hgone)
    · exact .inr (platformAt_of_kept_loadAll hentry (isSome_iff_ne_none.mpr hgone))
  · intro htold entry hentry hthere hgone
    have hstart : host.LostEmpty disk disk := by
      intro path hpath hnone
      rw [hnone] at hpath
      cases hpath
    exact lostEmpty_loadAll hstart (Shrunk.refl host disk) htold entry.path hthere hgone

end Batch

/-- Peer ids and peer files: an id has a file of its own in the directory of peers that is listed under the id exactly
if the machine has a place for the configuration and the name of the id has no slash. A batch removes only files whose
own peer has no platform exactly if every other file of it is listed under an id whose file tells a platform. -/
theorem peerFiles_correspond (host : Host) :
    (∀ id, PeerId id → (host.Corresponds id ↔ host.configDir.isSome = true ∧ Nameable id)) ∧
      ∀ draws all start stop disk, host.RemovesEmpty draws all start stop disk ↔
        ∀ entry ∈ batchOf all start stop, (disk.lookup entry.path).isSome = true → host.Told disk entry :=
  ⟨fun _ => corresponds_iff host, removesEmpty_iff host⟩

section Sample

/-- The text of a file with a platform, in front of it. -/
def platformStart : String := "[info]\nplatform = '"

def sampleParse (bytes : Bytes) : Option Peer :=
  let text := Utf8.decodeLossy bytes
  if startsWith text platformStart then
    some ⟨⟨[], fun _ => none⟩, ofList (text.toList.drop platformStart.length).dropLast.dropLast⟩
  else none

/-- A machine for concrete runs, whose files hold the platforms only. -/
def sampleHost : Host where
  crypto := sampleMachine
  configDir := some (components (Utf8.encode "/home/user/.config/unydesk"))
  defaultOptions := fun _ => none
  parse := sampleParse
  print := fun peer => Utf8.encode (platformStart ++ (peer.platform ++ "'\n"))
  platform_parse_print := by
    intro peer
    have hbody : (platformStart ++ (peer.platform ++ "'\n")).toList.drop platformStart.length =
        peer.platform.toList ++ "'\n".toList := by
      rw [toList_append, ← String.length_toList, List.drop_left, toList_append]
    rw [sampleParse, Utf8.decodeLossy_encode, startsWith_append, if_pos rfl, hbody]
    simp

def sampleDraw : ℕ → Draw := fun _ => ⟨.zero, fun _ => .zero, 9, true⟩

/-- A file of a peer with a platform. -/
def sampleFile (platform : String) : File := ⟨sampleHost.print ⟨⟨[], fun _ => none⟩, platform⟩, 5⟩

theorem platformAt_sampleFile (path : Path) (platform : String) :
    sampleHost.platformAt [(path, sampleFile platform)] path = some platform := by
  rw [Host.platformAt, Host.loadPath, lookup_cons_self]
  exact sampleHost.platform_parse_print ⟨⟨[], fun _ => none⟩, platform⟩

theorem peerFiles_correspond_sample : sampleHost.Corresponds "fe80::1" ∧
    sampleHost.RemovesEmpty sampleDraw [⟨"7", 5, sampleHost.path "7"⟩] 0 none
      [(sampleHost.path "7", sampleFile "")] := by
  have hid : PeerId "fe80::1" := ⟨by decide, by decide, by decide, by decide, by decide⟩
  refine ⟨((peerFiles_correspond sampleHost).1 "fe80::1" hid).mpr ⟨rfl, by decide⟩,
    ((peerFiles_correspond sampleHost).2 _ _ _ _ _).mpr ?_⟩
  intro entry hentry _
  obtain rfl := List.mem_singleton.mp hentry
  exact .inl (platformAt_sampleFile _ "")

/-- The three question marks have a slash at the end of their name: their file is listed without an id, and removed
with the platform in it. -/
theorem not_corresponds_question_marks : PeerId "???" ∧ ¬sampleHost.Corresponds "???" ∧
    ¬sampleHost.RemovesEmpty sampleDraw
      (sampleHost.getVecIdModifiedTimePath none [(sampleHost.path "???", sampleFile "Linux")]) 0 none
      [(sampleHost.path "???", sampleFile "Linux")] := by
  have hid : PeerId "???" := ⟨by decide, by decide, by decide, by decide, by decide⟩
  have hname : ¬Nameable "???" := by decide
  have hpath : sampleHost.path "???" = sampleHost.peersDir ++ [.normal (Utf8.encode ("base64_Pz8" ++ ".toml"))] := by
    decide
  have hlisted : listedId (sampleHost.path "???") = "" := listedId_of_not_nameable hname ⟨_, hpath⟩
  have hpeer : sampleHost.isPeerFile (sampleHost.path "???") = true := by
    rw [hpath, Host.isPeerFile, toStr_extension_append _ (by decide)]
    simp [peersDir_ne_nil (rfl : sampleHost.configDir = some _)]
  have hall : sampleHost.getVecIdModifiedTimePath none [(sampleHost.path "???", sampleFile "Linux")] =
      [⟨"", 5, sampleHost.path "???"⟩] := by
    have hone : [(sampleHost.path "???", sampleFile "Linux")].filter (fun entry => sampleHost.isPeerFile entry.1) =
        [(sampleHost.path "???", sampleFile "Linux")] := List.filter_cons_of_pos hpeer
    rw [Host.getVecIdModifiedTimePath, hone]
    simp [hlisted, sampleFile]
  refine ⟨hid, fun h => hname ((corresponds_iff sampleHost hid).mp h).2, ?_⟩
  rw [hall]
  intro h
  have hplatform := h ⟨"", 5, sampleHost.path "???"⟩ List.mem_cons_self (by rw [List.lookup_cons_self]; rfl)
    (by decide)
  rw [platformAt_sampleFile] at hplatform
  exact absurd hplatform (by decide)

end Sample

end UnyDesk.PeerFiles
