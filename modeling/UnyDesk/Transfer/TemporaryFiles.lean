import UnyDesk.Transfer.Delivery

/-!
# Temporary files beside received files

A file is received beside its destination, under the name of the destination with a suffix, and a second suffix keeps
its digest. Names with these suffixes are accepted like all others. So a file that is complete can lie where a later one
of the same job is received.
-/

namespace UnyDesk

open Lib FileSystem JobState List TransferJob

variable {inode : ℕ}

/-- All blocks of an entry, of which there is at least one: their data and whether they are compressed. -/
structure CompleteFile (files : List FileEntry) where
  num : Fin files.length
  first : Bytes × Bool
  rest : List (Bytes × Bool)

namespace CompleteFile

variable {files : List FileEntry}

section

variable (f : CompleteFile files)

def entry : FileEntry := files[f.num]

def block (id : Int) (data : Bytes × Bool) : FileTransferBlock :=
  { id, fileNum := (f.num : ℕ), data := data.1, compressed := data.2 }

def blocks (id : Int) : List FileTransferBlock := (f.first :: f.rest).map (f.block id)

end

end CompleteFile

/-- The file that was received is at its destination, with the bytes that were received. -/
def InPlace (base : String) (received disk : Disk) (f : FileEntry) : Prop :=
  ∃ inode, received.names (downloadOf base f) = some inode ∧ disk.names (destOf base f) = some inode ∧
    disk.data inode = received.data inode

/-- From the next block on, and at the end of the job, the file stays in place. -/
def StaysInPlace (codec : Codec) (base : String) (received : JobState) (f : FileEntry)
    (later : List FileTransferBlock) : Prop :=
  RunMeets (fun s b => (s.write codec {} b).2)
      (fun s b => InPlace base received.disk (s.write codec {} b).2.disk f) received later ∧
    InPlace base received.disk ((received.deliver codec later).modifyTime {}).disk f

/-- The blocks of some files come one file after the other, and every file stays in place once it is complete. -/
def AllStay (codec : Codec) (id : Int) (base : String) {files : List FileEntry} :
    JobState → List (CompleteFile files) → Prop
  | _, [] => True
  | s, f :: later =>
    let received := s.deliver codec (f.blocks id)
    StaysInPlace codec base received f.entry (later.flatMap fun g => g.blocks id) ∧ AllStay codec id base received later

/-- A file is not where another one is received or goes. -/
def Spared (base : String) (f g : FileEntry) : Prop :=
  destOf base f ≠ destOf base g ∧ destOf base f ≠ downloadOf base g ∧ destOf base f ≠ digestOf base g

/-- The job writes the files below the base path. -/
structure WritesBelow (id : Int) (base : String) (files : List FileEntry) (job : TransferJob) : Prop where
  id : job.id = id
  type : job.type = .generic
  source : job.dataSource = .filePath base
  files : job.files = files

/-- The job has begun the file and writes what comes next of it. -/
structure Begun (id : Int) (base : String) {files : List FileEntry} (s : JobState) (f : CompleteFile files) :
    Prop where
  job : WritesBelow id base files s.job
  num : s.job.fileNum = (f.num : ℕ)
  stream : ∃ file, s.job.dataStream = some (.fileStream file) ∧ file.writable = true ∧
    s.disk.names (downloadOf base f.entry) = some file.inode

namespace JobState

/-- After an entry's file was opened, no old file is at the path of its digest, and no old file has a new name. -/
theorem names_of_createStream {s : JobState} {path digest : String} {k : Location} {i : ℕ} (hold : i < s.disk.next)
    (h : (s.createStream {} path (some digest)).2.disk.names k = some i) :
    s.disk.names k = some i ∧ k ≠ locate digest := by
  let cleared := if s.disk.existsAt (locate digest) then s.disk.remove (locate digest) else s.disk
  have hcleared : cleared.next = s.disk.next := by
    dsimp only [cleared]
    split
    next => exact remove_next _ _
    next => rfl
  have hdisk : (s.createStream {} path (some digest)).2.disk =
      (cleared.create (locate path)).1.put (locate digest) s.job.digest.text := by
    unfold createStream
    extract_lets stale disk opened disk' stream
    split
    next e hremoval =>
      split at hremoval
      next => cases hremoval
      next => cases hremoval
    next => rfl
  rw [hdisk] at h
  have hopened : (cleared.create (locate path)).1.names k = some i :=
    names_of_put (Nat.lt_of_lt_of_le (hcleared ▸ hold) (next_le_create _ _)) h
  have hbefore : cleared.names k = some i := names_of_create (hcleared ▸ hold) hopened
  by_cases hk : k = locate digest
  · -- The digest was removed if there was one.
    have hnone : cleared.names (locate digest) = none := by
      dsimp only [cleared]
      split
      next => exact remove_names_self _ _
      next hnot =>
        rw [existsAt, Bool.not_eq_true, Option.isSome_eq_false_iff, Option.isNone_iff_eq_none] at hnot
        exact hnot
    rw [hk, hnone] at hbefore
    cases hbefore
  · refine ⟨?_, hk⟩
    dsimp only [cleared] at hbefore
    split at hbefore
    next => rw [← remove_names_of_ne _ hk, hbefore]
    next => exact hbefore

theorem next_modifyTime (s : JobState) (faults : Faults) : (s.modifyTime faults).disk.next = s.disk.next := by
  have hcleared : ∀ digest, (if faults.unlinked then s.disk.remove digest else s.disk).next = s.disk.next := by
    intro digest
    split
    next => exact remove_next _ _
    next => rfl
  change (s.job.modifyTime s.disk faults).next = s.disk.next
  obtain heq | ⟨base, entry, -, -, -, heq | heq⟩ := s.job.modifyTime_cases s.disk faults
  · rw [heq]
  · rw [heq, hcleared]
  · rw [heq, rename_next, hcleared]

end JobState

section Write

variable (codec : Codec) {id : Int} {base : String} {files : List FileEntry} {s : JobState} {f g : CompleteFile files}

theorem names_writeData (t : JobState) (block : FileTransferBlock) :
    (t.writeData codec {} block).2.disk.names = t.disk.names := by
  cases hstream : t.job.dataStream with
  | none => simp only [writeData, hstream]
  | some stream =>
    cases stream with
    | bufStream bytes pos => simp only [writeData, hstream, DataStream.writeAll]
    | fileStream file =>
      obtain ⟨_, _, _, disk, heq, hnames⟩ := writeData_cases codec t {} block hstream
      rw [heq, hnames]

theorem names_write {block : FileTransferBlock} (hid : block.id = s.job.id) :
    (s.write codec {} block).2.disk.names = (s.chooseStream {} block).2.disk.names := by
  rw [JobState.write, if_neg (not_not.mpr hid)]
  split
  next heq => rw [heq]
  next t heq => rw [heq, names_writeData]

/-- The first block of a file: what the job was at is put in place, and then the file is begun. -/
theorem write_first (hvalid : validateFileNameNoTraversal g.entry.name = .ok ())
    (hjob : WritesBelow id base files s.job)
    (hswitch : (g.num : ℕ) ≠ asUsize s.job.fileNum ∨ s.job.dataStream = none) (data : Bytes × Bool) :
    (s.write codec {} (g.block id data)).1 = none ∧ Begun id base (s.write codec {} (g.block id data)).2 g ∧
      (∀ k, k ≠ downloadOf base g.entry → k ≠ digestOf base g.entry →
        (s.write codec {} (g.block id data)).2.disk.names k = (s.modifyTime {}).disk.names k ∧
        (s.write codec {} (g.block id data)).2.disk.contents k = (s.modifyTime {}).disk.contents k) ∧
      ∀ k i, i < s.disk.next → (s.write codec {} (g.block id data)).2.disk.names k = some i →
        (s.modifyTime {}).disk.names k = some i ∧ k ≠ digestOf base g.entry := by
  have hentry : s.job.files[asUsize (g.block id data).fileNum]? = some g.entry := by
    rw [hjob.files, CompleteFile.block, asUsize_natCast, getElem?_eq_getElem g.num.isLt]
    rfl
  have hnum : asUsize (g.block id data).fileNum ≠ asUsize s.job.fileNum ∨ s.job.dataStream = none := by
    rw [CompleteFile.block, asUsize_natCast]
    exact hswitch
  obtain ⟨inode, disk, heq, hnames, -, hrest⟩ := write_of_switch codec hjob.type hjob.id.symm hjob.source
    hentry hnum rfl (opens_of_valid hvalid s base) (rfl : ({} : Faults).writeAll = none)
  have hkept : ∀ k i, i < s.disk.next → (s.write codec {} (g.block id data)).2.disk.names k = some i →
      (s.modifyTime {}).disk.names k = some i ∧ k ≠ digestOf base g.entry := by
    intro k i hold hname
    have hpaths : (s.modifyTime {}).job.writePaths base g.entry ({} : Faults).symlinkCheck =
        .ok (downloadPath (joinPath base g.entry.name), some (digestPath (joinPath base g.entry.name))) := by
      have htype : (s.modifyTime {}).job.type = .generic := hjob.type
      simp only [writePaths, htype, joinValidatedPath, hvalid, failWith, bind, Except.bind, pure, Except.pure]
    have hchosen : s.chooseStream {} (g.block id data) = ((s.modifyTime {}).atFile (g.num : ℕ)).createStream {}
        (downloadPath (joinPath base g.entry.name)) (some (digestPath (joinPath base g.entry.name))) := by
      simp only [chooseStream, hjob.source, hentry, if_pos hnum, switchFile]
      rw [hpaths]
      split
      next hfails => cases hfails
      next => rfl
    rw [names_write codec hjob.id.symm, hchosen] at hname
    have hbefore : i < ((s.modifyTime {}).atFile (g.num : ℕ)).disk.next := by
      change i < (s.modifyTime {}).disk.next
      rw [next_modifyTime]
      exact hold
    exact names_of_createStream (s := (s.modifyTime {}).atFile (g.num : ℕ)) hbefore hname
  refine ⟨by rw [heq], ?_, ?_, hkept⟩
  · rw [heq]
    exact ⟨⟨hjob.id, hjob.type, hjob.source, hjob.files⟩, rfl, _, rfl, rfl, hnames⟩
  · intro k hdownload hdigest
    rw [heq]
    refine ⟨(hrest k hdownload hdigest).1, ?_⟩
    rw [contents_write_of_ne fun hname => hdownload (names_inj _ _ _ _ hname hnames)]
    exact (hrest k hdownload hdigest).2

/-- A further block of a file: only the bytes of the file itself change. -/
theorem Begun.write (h : Begun id base s g) (data : Bytes × Bool) :
    (s.write codec {} (g.block id data)).1 = none ∧ Begun id base (s.write codec {} (g.block id data)).2 g ∧
      (s.write codec {} (g.block id data)).2.disk.names = s.disk.names ∧
      ∀ k, k ≠ downloadOf base g.entry →
        (s.write codec {} (g.block id data)).2.disk.contents k = s.disk.contents k := by
  obtain ⟨file, hstream, hwritable, hnames⟩ := h.stream
  have hentry : s.job.files[asUsize (g.block id data).fileNum]? = some g.entry := by
    rw [h.job.files, CompleteFile.block, asUsize_natCast, getElem?_eq_getElem g.num.isLt]
    rfl
  have hnum : asUsize (g.block id data).fileNum = asUsize s.job.fileNum := by rw [h.num, CompleteFile.block]
  have heq := write_of_same codec h.job.id.symm h.job.source hentry hnum hstream hwritable
    (rfl : ({} : Faults).writeAll = none)
  rw [heq]
  refine ⟨rfl, ⟨⟨h.job.id, h.job.type, h.job.source, h.job.files⟩, h.num, _, rfl, hwritable, hnames⟩, rfl, ?_⟩
  intro k hk
  exact contents_write_of_ne (fun hname => hk (names_inj _ _ _ _ hname hnames)) _ _

/-- What the end of a file does: its digest is gone and it is moved to its destination. -/
theorem Begun.modifyTime (hvalid : validateFileNameNoTraversal g.entry.name = .ok ()) (h : Begun id base s g) :
    (s.modifyTime {}).disk =
      (s.disk.remove (digestOf base g.entry)).rename (downloadOf base g.entry) (destOf base g.entry) := by
  have hentry : s.job.currentEntry = some g.entry := by
    rw [TransferJob.currentEntry, h.job.files, h.num, asUsize_natCast, getElem?_eq_getElem g.num.isLt]
    rfl
  have hresolve := s.job.resolveEntryPath_of_valid base h.job.type hvalid
  change s.job.modifyTime s.disk {} = _
  simp [TransferJob.modifyTime, h.job.type, h.job.source, hentry, hresolve, digestOf, downloadOf, destOf]

/-- The names after the end of a file. -/
theorem Begun.names_modifyTime (hvalid : validateFileNameNoTraversal g.entry.name = .ok ()) (h : Begun id base s g) :
    (s.modifyTime {}).disk.names (destOf base g.entry) = s.disk.names (downloadOf base g.entry) ∧
      (s.modifyTime {}).disk.names (downloadOf base g.entry) = none ∧ (s.modifyTime {}).disk.data = s.disk.data ∧
      ∀ k, k ≠ destOf base g.entry → k ≠ downloadOf base g.entry → k ≠ digestOf base g.entry →
        (s.modifyTime {}).disk.names k = s.disk.names k := by
  obtain ⟨file, -, -, hnames⟩ := h.stream
  have hne : downloadOf base g.entry ≠ destOf base g.entry := locate_downloadPath_ne _
  have hcleared : (s.disk.remove (digestOf base g.entry)).names (downloadOf base g.entry) = some file.inode := by
    rw [remove_names_of_ne _ (downloadOf_ne_digestOf base g.entry g.entry), hnames]
  rw [h.modifyTime hvalid]
  refine ⟨?_, rename_names_source hne, ?_, ?_⟩
  · rw [rename_names hne hcleared, if_neg hne.symm, if_pos rfl, hnames]
  · rw [rename_data, remove_data]
  · intro k hdest hdownload hdigest
    rw [rename_names_of_ne hdownload hdest, remove_names_of_ne _ hdigest]

end Write

section Place

variable {base : String} {received disk disk' : Disk} {f : FileEntry}

/-- A step that leaves the destination alone leaves the file in place. -/
theorem InPlace.of_same (h : InPlace base received disk f)
    (hnames : disk'.names (destOf base f) = disk.names (destOf base f))
    (hcontents : disk'.contents (destOf base f) = disk.contents (destOf base f)) : InPlace base received disk' f := by
  obtain ⟨inode, hfrom, hname, hdata⟩ := h
  have hname' := hnames.trans hname
  rw [contents_of_names hname', contents_of_names hname] at hcontents
  exact ⟨inode, hfrom, hname', (Option.some.inj hcontents).trans hdata⟩

theorem InPlace.names (h : InPlace base received disk f)
    (hfrom : received.names (downloadOf base f) = some inode) : disk.names (destOf base f) = some inode := by
  obtain ⟨inode', hfrom', hname, -⟩ := h
  rw [hname, ← hfrom', hfrom]

end Place

section Files

variable {id : Int} {base : String} {files : List FileEntry} {s : JobState} {cur g : CompleteFile files}
  {f : FileEntry} {received : Disk} (codec : Codec)

theorem Begun.deliver (h : Begun id base s g) (rest : List (Bytes × Bool)) :
    s.Accepts codec (rest.map (g.block id)) ∧ Begun id base (s.deliver codec (rest.map (g.block id))) g := by
  induction rest generalizing s with
  | nil => exact ⟨trivial, h⟩
  | cons data rest ih =>
    obtain ⟨hok, hnext, -⟩ := h.write codec data
    obtain ⟨haccepts, hbegun⟩ := ih hnext
    exact ⟨⟨hok, haccepts⟩, hbegun⟩

/-- A job that is at another file, or at none, begins a file with its first block. -/
def Ready (s : JobState) (g : CompleteFile files) : Prop :=
  (g.num : ℕ) ≠ asUsize s.job.fileNum ∨ s.job.dataStream = none

theorem Begun.ready (h : Begun id base s cur) (hne : cur.num ≠ g.num) : Ready s g := by
  refine .inl ?_
  rw [h.num, asUsize_natCast]
  exact fun heq => hne (Fin.ext heq.symm)

theorem begun_deliver (hvalid : validateFileNameNoTraversal g.entry.name = .ok ())
    (hjob : WritesBelow id base files s.job) (hready : Ready s g) :
    s.Accepts codec (g.blocks id) ∧ Begun id base (s.deliver codec (g.blocks id)) g := by
  obtain ⟨hok, hnext, -⟩ := write_first codec hvalid hjob hready g.first
  obtain ⟨haccepts, hbegun⟩ := hnext.deliver codec g.rest
  exact ⟨⟨hok, haccepts⟩, hbegun⟩

theorem Begun.stays (h : Begun id base s g) (hplace : InPlace base received s.disk f)
    (hne : destOf base f ≠ downloadOf base g.entry) (rest : List (Bytes × Bool)) :
    RunMeets (fun s b => (s.write codec {} b).2) (fun s b => InPlace base received (s.write codec {} b).2.disk f) s
        (rest.map (g.block id)) ∧
      InPlace base received (s.deliver codec (rest.map (g.block id))).disk f := by
  induction rest generalizing s with
  | nil => exact ⟨trivial, hplace⟩
  | cons data rest ih =>
    obtain ⟨-, hnext, hnames, hcontents⟩ := h.write codec data
    have hplace' := hplace.of_same (congrFun hnames _) (hcontents _ hne)
    obtain ⟨hmeets, hlast⟩ := ih hnext hplace'
    exact ⟨⟨hplace', hmeets⟩, hlast⟩

/-- A file that is spared stays in place while another one is received, and when that goes to its place. -/
theorem stays_of_spared (hvalid : validateFileNameNoTraversal g.entry.name = .ok ())
    (hjob : WritesBelow id base files s.job) (hready : Ready s g)
    (hplace : InPlace base received (s.modifyTime {}).disk f) (hspared : Spared base f g.entry) :
    RunMeets (fun s b => (s.write codec {} b).2) (fun s b => InPlace base received (s.write codec {} b).2.disk f) s
        (g.blocks id) ∧
      InPlace base received (s.deliver codec (g.blocks id)).disk f ∧
      InPlace base received ((s.deliver codec (g.blocks id)).modifyTime {}).disk f := by
  obtain ⟨hdest, hdownload, hdigest⟩ := hspared
  obtain ⟨-, hnext, hkept, -⟩ := write_first codec hvalid hjob hready g.first
  obtain ⟨hnames, hcontents⟩ := hkept _ hdownload hdigest
  have hfirst := hplace.of_same hnames hcontents
  obtain ⟨hmeets, hrest⟩ := hnext.stays codec hfirst hdownload g.rest
  have hlast : InPlace base received (s.deliver codec (g.blocks id)).disk f := hrest
  have hbegun := (begun_deliver codec hvalid hjob hready).2
  obtain ⟨-, -, hdata, hothers⟩ := hbegun.names_modifyTime hvalid
  refine ⟨⟨hfirst, hmeets⟩, hlast, hlast.of_same (hothers _ hdest hdownload hdigest) ?_⟩
  rw [contents, contents, hothers _ hdest hdownload hdigest, hdata]

theorem inPlace_of_meets (h : RunMeets (fun s b => (s.write codec {} b).2)
    (fun s b => InPlace base received (s.write codec {} b).2.disk f) s (g.blocks id)) :
    InPlace base received (s.deliver codec (g.blocks id)).disk f := by
  obtain ⟨hfirst, hrest⟩ := h
  change InPlace base received (runEvents (fun s b => (s.write codec {} b).2)
    (s.write codec {} (g.block id g.first)).2 (g.rest.map (g.block id))).disk f
  exact runEvents_invariant (I := fun t : JobState => InPlace base received t.disk f) (fun _ _ _ hok => hok) hfirst
    hrest

/-- A file that stays in place while another one is received, and is not lost when that goes to its place, is spared. -/
theorem spared_of_stays (hvalid : validateFileNameNoTraversal g.entry.name = .ok ())
    (hjob : WritesBelow id base files s.job) (hready : Ready s g) (hold : inode < s.disk.next)
    (hfrom : received.names (downloadOf base f) = some inode)
    (hmeets : RunMeets (fun s b => (s.write codec {} b).2)
      (fun s b => InPlace base received (s.write codec {} b).2.disk f) s (g.blocks id))
    (hend : ((s.deliver codec (g.blocks id)).modifyTime {}).disk.names (destOf base f) = some inode) :
    Spared base f g.entry := by
  obtain ⟨-, hnext, -, hfresh⟩ := write_first codec hvalid hjob hready g.first
  have hfirst := hmeets.1
  have hlast := inPlace_of_meets codec hmeets
  have hbegun := (begun_deliver codec hvalid hjob hready).2
  obtain ⟨hmoved, hgone, -⟩ := hbegun.names_modifyTime hvalid
  have hdigest : destOf base f ≠ digestOf base g.entry := (hfresh _ inode hold (hfirst.names hfrom)).2
  have hdownload : destOf base f ≠ downloadOf base g.entry := by
    intro heq
    rw [heq] at hend
    exact nomatch hend.symm.trans hgone
  refine ⟨?_, hdownload, hdigest⟩
  -- Both files would be one before the second goes to its place.
  intro heq
  rw [heq] at hend
  exact hdownload (names_inj _ _ _ inode (hlast.names hfrom) (hmoved.symm.trans hend))

/-- A file that is complete stays in place while others are received exactly if all of them spare it. -/
theorem stays_iff (hvalid : ∀ e ∈ files, validateFileNameNoTraversal e.name = .ok ())
    (hfrom : received.names (downloadOf base f) = some inode) (later : List (CompleteFile files))
    (hbegun : Begun id base s cur) (hold : inode < s.disk.next)
    (hplace : InPlace base received (s.modifyTime {}).disk f) (hdistinct : ((cur :: later).map (·.num)).Nodup) :
    (RunMeets (fun s b => (s.write codec {} b).2)
        (fun s b => InPlace base received (s.write codec {} b).2.disk f) s (later.flatMap (·.blocks id)) ∧
      InPlace base received ((s.deliver codec (later.flatMap (·.blocks id))).modifyTime {}).disk f) ↔
      ∀ g ∈ later, Spared base f g.entry := by
  induction later generalizing s cur with
  | nil => exact iff_of_true ⟨trivial, hplace⟩ fun _ hmem => nomatch hmem
  | cons g later ih =>
    have hname (h : CompleteFile files) : validateFileNameNoTraversal h.entry.name = .ok () :=
      hvalid _ (getElem_mem _)
    rw [map_cons, nodup_cons] at hdistinct
    obtain ⟨hnew, hlater⟩ := hdistinct
    have hready : Ready s g := hbegun.ready fun heq => hnew (mem_cons.mpr (.inl heq))
    have hnext : Begun id base (s.deliver codec (g.blocks id)) g :=
      (begun_deliver codec (hname g) hbegun.job hready).2
    have hdeliver : s.deliver codec ((g :: later).flatMap (·.blocks id)) =
        (s.deliver codec (g.blocks id)).deliver codec (later.flatMap (·.blocks id)) := by
      rw [flatMap_cons]
      exact runEvents_append _ _ _ _
    rw [hdeliver, flatMap_cons, runMeets_append, forall_mem_cons, and_assoc]
    constructor
    · rintro ⟨hmeets, hafter, hend⟩
      have hlast := inPlace_of_meets codec hmeets
      have holder : inode < (s.deliver codec (g.blocks id)).disk.next :=
        names_lt _ _ _ (hlast.names hfrom)
      have hmoved : ((s.deliver codec (g.blocks id)).modifyTime {}).disk.names (destOf base f) = some inode := by
        cases later with
        | nil => exact hend.names hfrom
        | cons h later =>
          have hready' : Ready (s.deliver codec (g.blocks id)) h :=
            hnext.ready fun heq => (nodup_cons.mp hlater).1 (mem_cons.mpr (.inl heq))
          obtain ⟨-, -, -, hfresh⟩ := write_first codec (hname h) hnext.job hready' h.first
          exact (hfresh _ inode holder (hafter.1.names hfrom)).1
      have hspared := spared_of_stays codec (hname g) hbegun.job hready hold hfrom hmeets hmoved
      have hplace' := (stays_of_spared codec (hname g) hbegun.job hready hplace hspared).2.2
      exact ⟨hspared, (ih hnext holder hplace' hlater).mp ⟨hafter, hend⟩⟩
    · rintro ⟨hspared, hrest⟩
      obtain ⟨hmeets, hlast, hplace'⟩ := stays_of_spared codec (hname g) hbegun.job hready hplace hspared
      have holder : inode < (s.deliver codec (g.blocks id)).disk.next :=
        names_lt _ _ _ (hlast.names hfrom)
      exact ⟨hmeets, (ih hnext holder hplace' hlater).mpr hrest⟩

/-- The files of a job, one after the other. -/
theorem allStay_iff (hvalid : ∀ e ∈ files, validateFileNameNoTraversal e.name = .ok ())
    (order : List (CompleteFile files)) (hjob : WritesBelow id base files s.job) (hready : ∀ f ∈ order, Ready s f)
    (hdistinct : (order.map (·.num)).Nodup) :
    s.Accepts codec (order.flatMap (·.blocks id)) ∧
      (AllStay codec id base s order ↔ order.Pairwise fun f g => Spared base f.entry g.entry) := by
  induction order generalizing s with
  | nil => exact ⟨trivial, iff_of_true trivial List.Pairwise.nil⟩
  | cons f later ih =>
    have hname : validateFileNameNoTraversal f.entry.name = .ok () := hvalid _ (getElem_mem _)
    obtain ⟨haccepts, hbegun⟩ := begun_deliver codec hname hjob (hready f mem_cons_self)
    obtain ⟨hnew, hlater⟩ := nodup_cons.mp hdistinct
    have hnext (g : CompleteFile files) (hg : g ∈ later) : Ready (s.deliver codec (f.blocks id)) g :=
      hbegun.ready fun heq => hnew (mem_map.mpr ⟨g, hg, heq.symm⟩)
    obtain ⟨hrest, hiff⟩ := ih hbegun.job hnext hlater
    obtain ⟨file, -, -, hfrom⟩ := hbegun.stream
    obtain ⟨hmoved, -, hdata, -⟩ := hbegun.names_modifyTime hname
    have hplace : InPlace base (s.deliver codec (f.blocks id)).disk ((s.deliver codec (f.blocks id)).modifyTime {}).disk
        f.entry := ⟨file.inode, hfrom, hmoved.trans hfrom, by rw [hdata]⟩
    have hstays := stays_iff codec hvalid hfrom later hbegun (names_lt _ _ _ hfrom) hplace hdistinct
    refine ⟨?_, ?_⟩
    · rw [flatMap_cons]
      exact runMeets_append.mpr ⟨haccepts, hrest⟩
    · rw [pairwise_cons]
      exact and_congr hstays hiff

end Files

/-- A job with accepted files receives them completely, in any order and with any blocks. Every call succeeds, and all
files stay in place once they are complete exactly if each is spared by those after it. -/
theorem received_files_stay_iff (codec : Codec) (id : Int) (base : String) (fileNum : Int) (detection : Bool)
    (files : List FileEntry) {receiver : TransferJob}
    (hreceiver : (newWrite id .generic (.filePath base) fileNum detection).setFiles files none =
      .ok receiver) (disk : Disk) (order : List (CompleteFile files)) (hdistinct : (order.map (·.num)).Nodup) :
    JobState.Accepts codec ⟨receiver, disk⟩ (order.flatMap (·.blocks id)) ∧
      (AllStay codec id base ⟨receiver, disk⟩ order ↔ order.Pairwise fun f g => Spared base f.entry g.entry) := by
  have hvalid := names_valid (validate_of_setFiles hreceiver)
  obtain rfl := setFiles_eq hreceiver
  exact allStay_iff codec hvalid order ⟨rfl, rfl, rfl, rfl⟩ (fun _ _ => .inr rfl) hdistinct

/-- Two files with one block each; the first has the name under which the second is received. -/
def clashingFiles : List FileEntry := [{ name := "a.download" }, { name := "a" }]

def clashingOrder : List (CompleteFile clashingFiles) :=
  [⟨⟨0, by decide⟩, ([1, 2], false), []⟩, ⟨⟨1, by decide⟩, ([3], false), []⟩]

def clashingReceiver : TransferJob := { id := 1, dataSource := .filePath "/dst", files := clashingFiles }

theorem setFiles_clashing : (newWrite 1 .generic (.filePath "/dst") 0 false).setFiles clashingFiles none =
      .ok clashingReceiver := by decide

theorem received_files_stay_iff_clashing :
    JobState.Accepts ⟨id, id⟩ ⟨clashingReceiver, .empty⟩ (clashingOrder.flatMap (·.blocks 1)) ∧
      (AllStay ⟨id, id⟩ 1 "/dst" ⟨clashingReceiver, .empty⟩ clashingOrder ↔
        clashingOrder.Pairwise fun f g => Spared "/dst" f.entry g.entry) :=
  received_files_stay_iff ⟨id, id⟩ 1 "/dst" 0 false clashingFiles setFiles_clashing .empty clashingOrder (by decide)

theorem InPlace.contents {base : String} {received disk : Disk} {f : FileEntry} (h : InPlace base received disk f) :
    disk.contents (destOf base f) = received.contents (downloadOf base f) := by
  obtain ⟨inode, hfrom, hname, hdata⟩ := h
  rw [contents_of_names hfrom, contents_of_names hname, hdata]

/-- The first file is overwritten by the bytes of the second. -/
theorem temporary_file_overwrites : ¬∀ (codec : Codec) (id : Int) (base : String) (fileNum : Int) (detection : Bool)
    (files : List FileEntry) (receiver : TransferJob) (disk : Disk) (order : List (CompleteFile files)),
    (files.map (·.name)).Nodup →
      (newWrite id .generic (.filePath base) fileNum detection).setFiles files none = .ok receiver →
        (order.map (·.num)).Nodup → AllStay codec id base ⟨receiver, disk⟩ order := by
  intro hall
  have hstay := hall ⟨id, id⟩ 1 "/dst" 0 false clashingFiles clashingReceiver .empty clashingOrder (by decide)
    setFiles_clashing (by decide)
  have hcontents := hstay.1.1.1.contents
  revert hcontents
  decide

end UnyDesk
