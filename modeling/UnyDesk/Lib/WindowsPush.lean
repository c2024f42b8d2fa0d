import UnyDesk.Lib.WindowsPath

/-!
# Names pushed to a Windows path

Over a base that is not verbatim, the text of a pushed name follows that of the base. Where the base is complete, its head
stays the same, and what the name adds leads below it.
-/

namespace UnyDesk.Lib.WindowsPath

open PathText List Option

section Plain

variable {base name pattern path rest : List Char} {c d : Char} {rest tail : List Char}

theorem seam_of_free {start last : List Char} (hbase : base = start ++ last) (hne : last ≠ [])
    (hfree : ∀ c ∈ last, isSep c = false) (hdrive : isBareDrive base = false) : seam base = ['\\'] := by
  obtain ⟨stem, d, rfl⟩ := eq_nil_or_concat last |>.resolve_left hne
  have hd : isSep d = false := hfree d (by simp)
  have hlast : base.getLast? = some d := by simp [hbase]
  simp [seam, hdrive, hlast, hd]

theorem isBareDrive_eq_false (h : ∀ drive, parseHead base ≠ some (.disk drive)) : isBareDrive base = false := by
  unfold isBareDrive
  cases hhead : parseHead base with
  | none => rfl
  | some head =>
    cases head with
    | disk drive => exact absurd hhead (h drive)
    | _ => rfl

/-- The name neither begins with a separator nor with a drive. -/
theorem Relative.head_free (hname : Relative name) : ∃ c cs, name = c :: cs ∧ isSep c = false := by
  obtain ⟨c, cs, rfl⟩ := exists_cons_of_ne_nil hname.ne_nil
  exact ⟨c, cs, rfl, by simpa using hname.noRoot⟩

theorem parseDrive_of_no_colon (hd : d ≠ ':') : parseDrive (c :: d :: path) = none := by
  unfold parseDrive
  split
  next heq => exact absurd (cons.inj (cons.inj heq).2).1 hd
  next => rfl

/-- A drive is two characters. -/
theorem parseDrive_pair (c d : Char) (rest : List Char) : parseDrive (c :: d :: rest) = parseDrive [c, d] := by
  by_cases hd : d = ':'
  · subst hd
    rfl
  · rw [parseDrive_of_no_colon hd, parseDrive_of_no_colon hd]

/-- A path with less than two separators at the front begins with a drive, or nothing. -/
theorem parseHead_of_single (h : ∀ c d rest, path = c :: d :: rest → (isSep c && isSep d) = false) :
    parseHead path = (parseDrive path).map .disk := by
  have hstrip : stripPattern ['\\', '\\'] path = none := by
    obtain _ | ⟨c, _ | ⟨d, rest⟩⟩ := path
    · rfl
    · exact stripPattern_of_short (by simp)
    · have hcd := h c d rest rfl
      rw [stripPattern_pair, if_neg]
      rw [backslashed_eq_iff]
      simpa using hcd
  unfold parseHead
  rw [hstrip]

theorem parseHead_of_pair (h : (isSep c && isSep d) = false) (rest : List Char) :
    parseHead (c :: d :: rest) = (parseDrive [c, d]).map .disk := by
  rw [parseHead_of_single, parseDrive_pair]
  · intro c' d' rest' heq
    cases heq
    exact h

theorem parseDrive_of_sep {c : Char} (hc : isSep c = true) (path : List Char) : parseDrive (c :: path) = none := by
  have halpha : c.isAlpha = false := by
    obtain rfl | rfl : c = '/' ∨ c = '\\' := by simpa [isSep] using hc
    · rfl
    · rfl
  unfold parseDrive
  split
  next heq => rw [← (cons.inj heq).1, halpha]; rfl
  next => rfl

theorem parseHead_of_double (hc : isSep c = true) (hd : isSep d = true) : parseHead (c :: d :: rest) =
      match stripPattern ['?', '\\'] rest with
      | some path' => if '/' ∈ (c :: d :: rest).take 4 then parseDevice rest else some (parseVerbatim path')
      | none => parseDevice rest := by
  have hdouble : stripPattern ['\\', '\\'] (c :: d :: rest) = some rest := by
    rw [stripPattern_pair, if_pos ⟨(backslashed_eq_iff c).mpr hc, hd⟩]
  unfold parseHead
  split
  next hnone => exact nomatch hnone.symm.trans hdouble
  next rest' hsome =>
    obtain rfl : rest' = rest := some.inj (hsome.symm.trans hdouble)
    rfl

theorem Relative.parseHead_eq_none (hname : Relative name) : parseHead name = none := by
  obtain ⟨c, cs, rfl, hc⟩ := hname.head_free
  rw [parseHead_of_single, hname.noDrive]
  · rfl
  · intro c' d rest heq
    rw [← (cons.inj heq).1, hc]
    rfl

/-- The two characters of a pattern are there, or cannot come to be there. -/
theorem stripPattern_append {x : Char} (hx : x ≠ '\\') (hrest : 2 ≤ rest.length ∨ rest.head?.any isSep = true) :
    stripPattern [x, '\\'] (rest ++ tail) = (stripPattern [x, '\\'] rest).map (· ++ tail) := by
  obtain _ | ⟨c, _ | ⟨d, rest⟩⟩ := rest
  · simp at hrest
  · -- A separator is not the first character of the pattern.
    have hc : isSep c = true := by simpa using hrest
    have hback : backslashed c ≠ x := (backslashed_eq_iff c).mpr hc ▸ hx.symm
    have hshort : stripPattern [x, '\\'] [c] = none := stripPattern_of_short (by simp)
    rw [hshort, singleton_append]
    obtain _ | ⟨e, tail⟩ := tail
    · exact hshort
    · rw [stripPattern_pair, if_neg fun h => hback h.1]
      rfl
  · rw [cons_append, cons_append, stripPattern_pair, stripPattern_pair]
    split_ifs <;> rfl

theorem two_le_or_sep (hunc : stripPattern ['.', '\\'] rest = none →
    rest.head?.any isSep = true ∨ 2 ≤ (rest.dropWhile fun c => !isSep c).length) :
    2 ≤ rest.length ∨ rest.head?.any isSep = true := by
  by_cases hlength : 2 ≤ rest.length
  · exact .inl hlength
  · obtain hhead | hdrop := hunc (stripPattern_of_short (by simpa using hlength))
    · exact .inr hhead
    · exact absurd (hdrop.trans (length_dropWhile_le _ _)) hlength

/-- A device or a share that is there, or cannot be, stays so. -/
theorem parseDevice_append (hdevice : stripPattern ['.', '\\'] rest ≠ some [])
    (hunc : stripPattern ['.', '\\'] rest = none →
      rest.head?.any isSep = true ∨ 2 ≤ (rest.dropWhile fun c => !isSep c).length)
    (htail : ∀ start last, rest = start ++ last → last ≠ [] → (∀ c ∈ last, isSep c = false) → tail.head?.any isSep = true) :
    parseDevice (rest ++ tail) = parseDevice rest := by
  unfold parseDevice
  rw [stripPattern_append (by decide) (two_le_or_sep hunc)]
  cases hdot : stripPattern ['.', '\\'] rest with
  | none => exact parseUnc_append (hunc hdot) htail
  | some path =>
    have hpath : path ≠ [] := fun hnil => hdevice (hnil ▸ hdot)
    obtain ⟨dots, hdots⟩ : ∃ dots, rest = dots ++ path := by
      unfold stripPattern at hdot
      split_ifs at hdot
      exact ⟨rest.take 2, by rw [← some.inj hdot, length_cons, length_singleton, take_append_drop]⟩
    have htake : (path ++ tail).takeWhile (fun c => !isSep c) = path.takeWhile fun c => !isSep c := by
      apply takeWhile_append_of
      intro hall
      have hsep := htail dots path hdots hpath fun c hc => by simpa using hall c hc
      cases tail with
      | nil => rfl
      | cons c cs => simpa using hsep
    simp only [map_some, nextComponent, htake]

/-- A forward slash at the front makes no verbatim path. -/
theorem parseHead_of_device (hc : isSep c = true) (hd : isSep d = true)
    (hslash : stripPattern ['?', '\\'] rest ≠ none → '/' ∈ (c :: d :: rest).take 4) :
    parseHead (c :: d :: rest) = parseDevice rest := by
  rw [parseHead_of_double hc hd]
  cases hpath : stripPattern ['?', '\\'] rest with
  | none => rfl
  | some path' => exact if_pos (hslash (hpath ▸ nofun))

theorem slash_of_plain (hc : isSep c = true) (hd : isSep d = true)
    (hplain : isVerbatimPath (c :: d :: rest) = false) (hpath : stripPattern ['?', '\\'] rest ≠ none) :
    '/' ∈ (c :: d :: rest).take 4 := by
  by_contra hslash
  obtain ⟨path', hpath'⟩ := ne_none_iff_exists'.mp hpath
  have hverbatim : parseHead (c :: d :: rest) = some (parseVerbatim path') := by
    rw [parseHead_of_double hc hd, hpath']
    exact if_neg hslash
  revert hplain
  simp only [isVerbatimPath, hverbatim, any_some, parseVerbatim]
  split
  · exact nofun
  · split <;> exact nofun

theorem parseDevice_ne_disk (rest : List Char) (drive : Char) : parseDevice rest ≠ some (.disk drive) := by
  unfold parseDevice
  split
  · exact nofun
  · unfold parseUnc
    dsimp only
    split_ifs
    · exact nofun
    · exact nofun

theorem device_of_complete (hcomplete : Complete (c :: d :: rest) = true)
    (hc : isSep c = true) (hd : isSep d = true) (hhead : parseHead (c :: d :: rest) = parseDevice rest) :
    stripPattern ['.', '\\'] rest ≠ some [] ∧ (stripPattern ['.', '\\'] rest = none →
      rest.head?.any isSep = true ∨ 2 ≤ (rest.dropWhile fun c => !isSep c).length) := by
  have hdouble : stripPattern ['\\', '\\'] (c :: d :: rest) = some rest := by
    rw [stripPattern_pair, if_pos ⟨(backslashed_eq_iff c).mpr hc, hd⟩]
  unfold Complete at hcomplete
  rw [hhead] at hcomplete
  constructor
  · intro hdot
    have hdevice : parseDevice rest = some (.deviceNs []) := by simp [parseDevice, hdot, nextComponent]
    have hlength : rest.length = 2 := by
      unfold stripPattern at hdot
      split_ifs at hdot with htake
      have hdrop := congrArg length (some.inj hdot)
      have hmap := congrArg length htake
      simp at hdrop hmap
      omega
    simp [hdevice, hlength] at hcomplete
  · intro hdot
    have hdevice : parseDevice rest = parseUnc rest := by simp [parseDevice, hdot]
    rw [hdevice] at hcomplete
    cases hshare : parseUnc rest with
    | some head => exact .inr (two_le_of_parseUnc hshare)
    | none => simpa [hshare, hdouble] using hcomplete

/-- A plain complete base keeps its head. -/
theorem parseHead_append (hcomplete : Complete base = true) (hplain : isVerbatimPath base = false) (hname : Relative name) :
    parseHead (base ++ (seam base ++ name)) = parseHead base := by
  by_cases hdouble : ∃ c d rest, base = c :: d :: rest ∧ isSep c = true ∧ isSep d = true
  · obtain ⟨c, d, rest, hbase, hc, hd⟩ := hdouble
    subst hbase
    generalize htail : seam (c :: d :: rest) ++ name = tail
    have hhead := parseHead_of_device hc hd (slash_of_plain hc hd hplain)
    obtain ⟨hdevice, hunc⟩ := device_of_complete hcomplete hc hd hhead
    have hopen : ∀ start last, rest = start ++ last → last ≠ [] → (∀ c ∈ last, isSep c = false) → tail.head?.any isSep = true := by
      intro start last hrest hne hfree
      have hdrive := isBareDrive_eq_false fun drive => hhead ▸ parseDevice_ne_disk rest drive
      have hbase : c :: d :: rest = (c :: d :: start) ++ last := by rw [hrest]; rfl
      rw [← htail, seam_of_free hbase hne hfree hdrive]
      rfl
    have hstrip : stripPattern ['?', '\\'] (rest ++ tail) = (stripPattern ['?', '\\'] rest).map (· ++ tail) :=
      stripPattern_append (by decide) (two_le_or_sep hunc)
    have hlong : parseHead (c :: d :: (rest ++ tail)) = parseDevice (rest ++ tail) := by
      apply parseHead_of_device hc hd
      intro hpath
      have hpath' : stripPattern ['?', '\\'] rest ≠ none := by
        intro hnone
        rw [hstrip, hnone] at hpath
        exact hpath rfl
      have hslash := slash_of_plain hc hd hplain hpath'
      rw [← cons_append, ← cons_append, take_append]
      exact mem_append_left _ hslash
    rw [cons_append, cons_append, hlong, parseDevice_append hdevice hunc hopen, hhead]
  · obtain _ | ⟨c, _ | ⟨d, rest⟩⟩ := base
    · exact hname.parseHead_eq_none
    · -- One character and what follows it are no drive and no two separators.
      have hsingle : parseHead [c] = none := parseHead_of_single nofun
      rw [hsingle]
      by_cases hc : isSep c = true
      · obtain ⟨e, es, rfl, he⟩ := hname.head_free
        have hseam : seam [c] = [] := by simp [seam, hc]
        rw [hseam]
        change parseHead (c :: e :: es) = none
        rw [parseHead_of_pair (by simp [he]), parseDrive_of_sep hc]
        rfl
      · have hdrive : isBareDrive [c] = false := isBareDrive_eq_false (by simp [hsingle])
        have hseam : seam [c] = ['\\'] := by simp [seam, hc, hdrive]
        rw [hseam]
        change parseHead (c :: '\\' :: name) = none
        rw [parseHead_of_pair (by simp [hc]), parseDrive_of_no_colon (by decide)]
        rfl
    · have hpair : (isSep c && isSep d) = false := by
        by_contra hboth
        exact hdouble ⟨c, d, rest, rfl, by simpa using hboth⟩
      rw [cons_append, cons_append, parseHead_of_pair hpair, parseHead_of_pair hpair]

theorem stripPattern_eq_some :
    stripPattern pattern path = some rest ↔ (path.take pattern.length).map backslashed = pattern ∧ path.drop pattern.length = rest := by
  unfold stripPattern
  split_ifs with htake
  · rw [some.injEq]
    exact ⟨fun hrest => ⟨htake, hrest⟩, And.right⟩
  · exact ⟨nofun, fun h => absurd h.1 htake⟩

/-- Only a separator matches a separator. -/
theorem eq_of_backslashed {c x : Char} (hx : x ≠ '\\') (h : backslashed c = x) : c = x := by
  unfold backslashed at h
  split_ifs at h with hslash
  · exact absurd h.symm hx
  · exact h

theorem length_of_stripPattern (h : stripPattern pattern path = some rest) :
    path.length = pattern.length + rest.length := by
  obtain ⟨htake, hrest⟩ := stripPattern_eq_some.mp h
  have hdrop := congrArg length hrest
  have hmap := congrArg length htake
  rw [length_drop] at hdrop
  rw [length_map, length_take] at hmap
  omega

/-- A share is behind its server and a separator. -/
theorem length_nextComponent (sep : Char → Bool) (path : List Char) :
    (nextComponent sep path).1.length + (if (nextComponent sep (nextComponent sep path).2).1 = [] then 0
      else 1 + (nextComponent sep (nextComponent sep path).2).1.length) ≤ path.length := by
  unfold nextComponent
  dsimp only
  have hsplit := congrArg length (takeWhile_append_dropWhile (p := fun c => !sep c) (l := path))
  have hshare := (takeWhile_sublist (l := (path.dropWhile fun c => !sep c).drop 1) fun c => !sep c).length_le
  rw [length_append] at hsplit
  rw [length_drop] at hshare
  split_ifs with hempty
  · omega
  · have hpos := length_pos_iff.mpr hempty
    omega

theorem two_le_of_parseDrive {drive : Char} (h : parseDrive path = some drive) : 2 ≤ path.length := by
  unfold parseDrive at h
  split at h
  · simp
  · exact nomatch h

theorem length_parseVerbatim (rest : List Char) : (parseVerbatim rest).length ≤ 4 + rest.length := by
  unfold parseVerbatim
  cases hunc : stripPattern ['U', 'N', 'C', '\\'] rest with
  | some path =>
    have hlength := length_of_stripPattern hunc
    have hnext := length_nextComponent isVerbatimSep path
    simp only [Head.length, length_cons, length_nil] at hlength ⊢
    omega
  | none =>
    cases hdrive : parseDriveExact rest with
    | some drive =>
      unfold parseDriveExact at hdrive
      split_ifs at hdrive
      have htwo := two_le_of_parseDrive hdrive
      simp only [Head.length]
      omega
    | none =>
      simp only [Head.length, nextComponent]
      have htake := (takeWhile_sublist (l := rest) fun c => !isVerbatimSep c).length_le
      omega

theorem length_parseDevice {head : Head} (h : parseDevice rest = some head) : head.length ≤ 2 + rest.length := by
  unfold parseDevice at h
  cases hdot : stripPattern ['.', '\\'] rest with
  | some path =>
    have hlength := length_of_stripPattern hdot
    have htake := (takeWhile_sublist (l := path) fun c => !isSep c).length_le
    simp only [hdot, some.injEq] at h
    rw [← h]
    simp only [Head.length, nextComponent, length_cons, length_nil] at hlength ⊢
    omega
  | none =>
    have hnext := length_nextComponent isSep rest
    simp only [hdot, parseUnc] at h
    split_ifs at h
    rw [← some.inj h]
    simp only [Head.length]
    omega

/-- The head of a path is in its text. -/
theorem length_le_of_parseHead {head : Head} (h : parseHead path = some head) : head.length ≤ path.length := by
  unfold parseHead at h
  cases hdouble : stripPattern ['\\', '\\'] path with
  | none =>
    obtain ⟨drive, hdrive, rfl⟩ := map_eq_some_iff.mp (hdouble ▸ h)
    exact two_le_of_parseDrive hdrive
  | some rest =>
    have hlength := length_of_stripPattern hdouble
    have hdevice : parseDevice rest = some head → head.length ≤ path.length := by
      intro hparse
      have hle := length_parseDevice hparse
      simp only [length_cons, length_nil] at hlength
      omega
    simp only [hdouble] at h
    cases hverbatim : stripPattern ['?', '\\'] rest with
    | none => exact hdevice (by simpa only [hverbatim] using h)
    | some path' =>
      simp only [hverbatim] at h
      split_ifs at h
      · exact hdevice h
      · have hrest := length_of_stripPattern hverbatim
        have hle := length_parseVerbatim path'
        rw [← some.inj h]
        simp only [length_cons, length_nil] at hlength hrest
        omega

/-- The components of a plain text without its head. -/
def plainComponents (text : List Char) : List Component := (splitBy isSep text).filterMap (parseComponent false)

theorem plainComponents_append_sep {c : Char} (hc : isSep c = true) (text text' : List Char) :
    plainComponents (text ++ c :: text') = plainComponents text ++ plainComponents text' := by
  unfold plainComponents
  rw [splitBy_append_sep hc, filterMap_append]

theorem plainComponents_nil : plainComponents [] = [] := rfl

/-- A separator at the end of a text, or no text, is no component. -/
theorem plainComponents_append_of_closed {text : List Char} (h : text.getLast?.all isSep = true) (text' : List Char) :
    plainComponents (text ++ text') = plainComponents text ++ plainComponents text' := by
  obtain rfl | ⟨stem, d, rfl⟩ := eq_nil_or_concat text
  · rfl
  · have hd : isSep d = true := by simpa using h
    rw [concat_eq_append, append_assoc, singleton_append, plainComponents_append_sep hd,
      plainComponents_append_sep hd, plainComponents_nil, append_nil]

theorem bodyComponents_plain (hplain : isVerbatimPath base = false) :
    bodyComponents base = plainComponents (afterHead base) := by
  unfold bodyComponents
  rw [hplain]
  change plainComponents (body base) = _
  unfold body hasPhysicalRoot
  cases hafter : afterHead base with
  | nil => rfl
  | cons c cs =>
    by_cases hc : isSep c = true
    · have hroot := plainComponents_append_sep hc [] cs
      simp only [head?_cons, any_some, hc, if_true, drop_one, tail_cons]
      simpa [plainComponents_nil] using hroot.symm
    · simp [hc]

/-- The components of a relative name lead down. -/
theorem Relative.leads_down (hname : Relative name) :
    ∀ c ∈ plainComponents name, c = .curDir ∨ ∃ part, c = .normal part := by
  intro c hc
  obtain ⟨part, hpart, hparse⟩ := mem_filterMap.mp hc
  have hparent : part ≠ ['.', '.'] := fun h => hname.noParent (h ▸ hpart)
  unfold parseComponent at hparse
  rw [if_neg hparent] at hparse
  split_ifs at hparse
  · exact .inl (some.inj hparse).symm
  · exact .inr ⟨part, (some.inj hparse).symm⟩

theorem Relative.hasRoot_eq_false (hname : Relative name) : hasRoot name = false := by
  have hafter : afterHead name = name := by simp [afterHead, headLength, hname.parseHead_eq_none]
  simp [hasRoot, hasPhysicalRoot, hafter, hname.noRoot, hname.parseHead_eq_none]

theorem push_plain (hplain : isVerbatimPath base = false) (hname : Relative name) :
    push base name = base ++ (seam base ++ name) := by
  unfold push
  simp [hname.parseHead_eq_none, hplain, hname.hasRoot_eq_false]

theorem headLength_le (base : List Char) : headLength base ≤ base.length := by
  unfold headLength
  cases hhead : parseHead base with
  | none => exact Nat.zero_le _
  | some head => exact length_le_of_parseHead hhead

/-- Only a bare drive and a closed text need no separator. -/
theorem afterHead_closed (hseam : seam base = []) : (afterHead base).getLast?.all isSep = true := by
  unfold seam at hseam
  split_ifs at hseam with hopen
  by_cases hdrive : isBareDrive base = true
  · obtain ⟨head, hhead, hlength⟩ := (any_eq_true _ _).mp hdrive
    have hafter : afterHead base = [] := by
      simp only [Bool.and_eq_true, decide_eq_true_eq] at hlength
      simp [afterHead, headLength, hhead, hlength.2]
    rw [hafter]
    rfl
  · have hlast : base.getLast?.any (!isSep ·) = false := by simpa [hdrive] using hopen
    unfold afterHead
    rw [getLast?_drop]
    split_ifs
    · rfl
    · cases hd : base.getLast? with
      | none => rfl
      | some d => simpa [hd] using hlast

/-- Nothing is after a head without a root of its own: a bare drive, or no text. -/
theorem seam_of_no_root (hafter : afterHead base = []) (hroot : (parseHead base).any Head.hasImplicitRoot = false) :
    seam base = [] := by
  have hlength := drop_eq_nil_iff.mp hafter
  unfold headLength at hlength
  cases hhead : parseHead base with
  | none =>
    have hbase : base = [] := by simpa [hhead] using hlength
    subst hbase
    rfl
  | some head =>
    have hdrive : head.isDrive = true := by simpa [hhead, Head.hasImplicitRoot] using hroot
    have heq : head.length = base.length := (length_le_of_parseHead hhead).antisymm (by simpa [hhead] using hlength)
    have hbare : isBareDrive base = true := by simp [isBareDrive, hhead, hdrive, heq]
    simp [seam, hbare]

/-- A name below a plain complete base. -/
theorem under_plain (hcomplete : Complete base = true) (hplain : isVerbatimPath base = false) (hname : Relative name) :
    Under base (base ++ (seam base ++ name)) := by
  have hhead := parseHead_append hcomplete hplain hname
  have hlength : headLength (base ++ (seam base ++ name)) = headLength base := by rw [headLength, hhead]; rfl
  have hafter : afterHead (base ++ (seam base ++ name)) = afterHead base ++ (seam base ++ name) := by
    rw [afterHead, hlength, drop_append_of_le_length (headLength_le base)]
    rfl
  have hcomponent : headComponent (base ++ (seam base ++ name)) = headComponent base := by
    unfold headComponent
    rw [hhead]
    cases hbase : parseHead base with
    | none => rfl
    | some head =>
      dsimp only
      rw [take_append_of_le_length (length_le_of_parseHead hbase)]
  have hroot : hasRoot (base ++ (seam base ++ name)) = hasRoot base := by
    unfold hasRoot hasPhysicalRoot
    rw [hafter, hhead]
    by_cases himplicit : (parseHead base).any Head.hasImplicitRoot = true
    · rw [himplicit, Bool.or_true, Bool.or_true]
    · cases hrest : afterHead base with
      | nil => simp [seam_of_no_root hrest (Bool.eq_false_iff.mpr himplicit), hname.noRoot]
      | cons c cs => rfl
  have hplain' : isVerbatimPath (base ++ (seam base ++ name)) = false := by rw [isVerbatimPath, hhead]; exact hplain
  have hbody : bodyComponents (base ++ (seam base ++ name)) = bodyComponents base ++ plainComponents name := by
    rw [bodyComponents_plain hplain', bodyComponents_plain hplain, hafter]
    by_cases hseam : seam base = []
    · rw [hseam, nil_append]
      exact plainComponents_append_of_closed (afterHead_closed hseam) name
    · have hsep : seam base = ['\\'] := by
        unfold seam at hseam ⊢
        split_ifs at hseam ⊢ with hopen
        · rfl
        · exact absurd rfl hseam
      rw [hsep, singleton_append]
      exact plainComponents_append_sep rfl _ name
  unfold Under normalForm
  rw [hcomponent, hroot, hbody, ← append_assoc]
  exact below_normalise_append _ hname.leads_down

end Plain

end UnyDesk.Lib.WindowsPath
