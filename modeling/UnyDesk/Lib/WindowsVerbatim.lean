import UnyDesk.Lib.WindowsPush

/-!
# Names pushed to a verbatim path

A verbatim base is read into its components and written again with those of the name behind it. The written text begins with
the head of the base, which a separator ends, and its parts are read as the components that were written.
-/

namespace UnyDesk.Lib.WindowsPath

open PathText List Bool Option

variable {part : List Char}

section Heads

variable {base rest : List Char}

/-- What a verbatim path begins with. -/
def verbatimMark : List Char := ['\\', '\\', '?', '\\']

theorem parseHead_verbatimMark (rest : List Char) : parseHead (verbatimMark ++ rest) = some (parseVerbatim rest) := by
  have hpath : stripPattern ['?', '\\'] ('?' :: '\\' :: rest) = some rest := by
    rw [stripPattern_pair, if_pos ⟨rfl, rfl⟩]
  change parseHead ('\\' :: '\\' :: '?' :: '\\' :: rest) = _
  rw [parseHead_of_double rfl rfl, hpath]
  rfl

theorem parseDevice_plain {head : Head} (h : parseDevice rest = some head) : head.isVerbatim = false := by
  unfold parseDevice at h
  split at h
  · rw [← some.inj h]
    rfl
  · unfold parseUnc at h
    dsimp only at h
    split_ifs at h
    rw [← some.inj h]
    rfl

theorem exists_of_verbatim (hverbatim : isVerbatimPath base = true) : ∃ rest, base = verbatimMark ++ rest := by
  obtain ⟨head, hhead, hkind⟩ := (any_eq_true _ _).mp hverbatim
  by_contra hmark
  have hplain : head.isVerbatim = false := by
    by_cases hdouble : ∃ c d rest, base = c :: d :: rest ∧ isSep c = true ∧ isSep d = true
    · obtain ⟨c, d, rest, rfl, hc, hd⟩ := hdouble
      have hslash : stripPattern ['?', '\\'] rest ≠ none → '/' ∈ (c :: d :: rest).take 4 := by
        intro hpath
        by_contra hslash
        obtain ⟨path', hpath'⟩ := ne_none_iff_exists'.mp hpath
        obtain _ | ⟨e, _ | ⟨f, path⟩⟩ := rest
        · cases hpath'
        · rw [stripPattern_of_short (by simp)] at hpath'
          cases hpath'
        · rw [stripPattern_pair] at hpath'
          split_ifs at hpath' with hquestion
          have hback : ∀ x ∈ [c, d, e, f], isSep x = true → x = '\\' := by
            intro x hx hsep
            obtain rfl | hx' : x = '/' ∨ x = '\\' := by simpa [isSep] using hsep
            · exact absurd hx hslash
            · exact hx'
          have he : e = '?' := eq_of_backslashed (by decide) hquestion.1
          exact hmark ⟨path, by rw [hback c (by simp) hc, hback d (by simp) hd, he, hback f (by simp) hquestion.2]; rfl⟩
      rw [parseHead_of_device hc hd hslash] at hhead
      exact parseDevice_plain hhead
    · rw [parseHead_of_single fun c d rest hbase => by
        by_contra hboth
        exact hdouble ⟨c, d, rest, hbase, by simpa using hboth⟩] at hhead
      obtain ⟨drive, -, rfl⟩ := map_eq_some_iff.mp hhead
      rfl
  rw [hplain] at hkind
  cases hkind

theorem nextComponent_of_free {text more : List Char} (hfree : ∀ c ∈ text, isVerbatimSep c = false) :
    nextComponent isVerbatimSep (text ++ '\\' :: more) = (text, more) := by
  have hpos : ∀ c ∈ text, (!isVerbatimSep c) = true := fun c hc => by simp [hfree c hc]
  unfold nextComponent
  rw [takeWhile_append_of_pos hpos, dropWhile_append_of_pos hpos]
  simp [isVerbatimSep]

theorem free_of_takeWhile (text : List Char) : ∀ c ∈ text.takeWhile (fun c => !isVerbatimSep c), isVerbatimSep c = false := by
  intro c hc
  simpa using mem_takeWhile_imp hc

theorem eq_of_dropWhile {text rest : List Char} {c : Char} (h : (text.dropWhile fun c => !isVerbatimSep c) = c :: rest) :
    c = '\\' := by
  have hhead := head?_dropWhile_not (fun c => !isVerbatimSep c) text
  rw [h] at hhead
  simpa [isVerbatimSep] using hhead

theorem sep_of_dropWhile (text : List Char) : (text.dropWhile fun c => !isVerbatimSep c).head?.all isSep = true := by
  cases hdrop : text.dropWhile fun c => !isVerbatimSep c with
  | nil => rfl
  | cons c cs =>
    rw [eq_of_dropWhile hdrop]
    rfl

/-- The text of the head of a complete verbatim path, which keeps the head with whatever follows a separator. -/
theorem parseVerbatim_spec (hcomplete : Complete (verbatimMark ++ rest) = true) :
    ∃ text after, rest = text ++ after ∧ (parseVerbatim rest).length = 4 + text.length ∧ after.head?.all isSep = true ∧
      ∀ more, parseVerbatim (text ++ '\\' :: more) = parseVerbatim rest := by
  unfold Complete at hcomplete
  rw [parseHead_verbatimMark] at hcomplete
  cases hunc : stripPattern ['U', 'N', 'C', '\\'] rest with
  | some path =>
    obtain ⟨hmark, hpath⟩ := stripPattern_eq_some.mp hunc
    have hhead : parseVerbatim rest = .verbatimUnc (path.takeWhile fun c => !isVerbatimSep c)
        (((path.dropWhile fun c => !isVerbatimSep c).drop 1).takeWhile fun c => !isVerbatimSep c) := by
      unfold parseVerbatim
      rw [hunc]
      rfl
    obtain ⟨server, hserver⟩ : ∃ server, path.takeWhile (fun c => !isVerbatimSep c) = server := ⟨_, rfl⟩
    have hserverFree : ∀ c ∈ server, isVerbatimSep c = false := hserver ▸ free_of_takeWhile path
    have hsplit := takeWhile_append_dropWhile (p := fun c => !isVerbatimSep c) (l := path)
    cases hdrop : path.dropWhile fun c => !isVerbatimSep c with
    | nil => simp [hhead, hdrop] at hcomplete
    | cons d ds =>
      obtain ⟨share, hshare⟩ : ∃ share, ds.takeWhile (fun c => !isVerbatimSep c) = share := ⟨_, rfl⟩
      have hshareFree : ∀ c ∈ share, isVerbatimSep c = false := hshare ▸ free_of_takeWhile ds
      have hds : ds = share ++ ds.dropWhile fun c => !isVerbatimSep c := by rw [← hshare, takeWhile_append_dropWhile]
      rw [hdrop, drop_one, tail_cons, hserver, hshare] at hhead
      have hne : share ≠ [] := by
        rintro rfl
        simp [hhead] at hcomplete
      rw [hserver, hdrop, eq_of_dropWhile hdrop] at hsplit
      have hrest : rest = (rest.take 4 ++ (server ++ '\\' :: share)) ++ ds.dropWhile fun c => !isVerbatimSep c := by
        calc
          rest = rest.take 4 ++ path := by rw [← hpath]; exact (take_append_drop 4 rest).symm
          _ = rest.take 4 ++ (server ++ '\\' :: ds) := by rw [hsplit]
          _ = _ := by conv_lhs => rw [hds]
                      simp
      have hfour : (rest.take 4).length = 4 := by simpa using congrArg length hmark
      refine ⟨rest.take 4 ++ (server ++ '\\' :: share), _, hrest, ?_, sep_of_dropWhile ds, fun more => ?_⟩
      · simp only [hhead, Head.length, if_neg hne, length_append, length_cons, hfour]
        omega
      · have hunc' : stripPattern ['U', 'N', 'C', '\\'] (rest.take 4 ++ (server ++ '\\' :: share) ++ '\\' :: more) =
            some (server ++ '\\' :: (share ++ '\\' :: more)) := by
          apply stripPattern_eq_some.mpr
          constructor
          · simpa [take_append, hfour] using hmark
          · simp [hfour]
        rw [hhead]
        unfold parseVerbatim
        rw [hunc']
        simp only [nextComponent_of_free hserverFree, nextComponent_of_free hshareFree]
  | none =>
    cases hdrive : parseDriveExact rest with
    | some drive =>
      unfold parseDriveExact at hdrive
      split_ifs at hdrive with hsep
      obtain ⟨c, after, rfl⟩ : ∃ c after, rest = c :: ':' :: after := by
        unfold parseDrive at hdrive
        split at hdrive
        · exact ⟨_, _, rfl⟩
        · cases hdrive
      have hunc' : ∀ more, stripPattern ['U', 'N', 'C', '\\'] (c :: ':' :: more) = none := by
        intro more
        unfold stripPattern
        rw [if_neg]
        intro hmark
        exact absurd (cons.inj (cons.inj hmark).2).1 (by decide)
      have hparse : ∀ more, more.head?.all isSep = true → parseVerbatim (c :: ':' :: more) = .verbatimDisk drive := by
        intro more hmore
        have hexact : parseDriveExact (c :: ':' :: more) = some drive := by
          unfold parseDriveExact
          rw [parseDrive_pair, if_pos (by simpa [head?_eq_getElem?] using hmore), ← parseDrive_pair c ':' after, hdrive]
        unfold parseVerbatim
        rw [hunc', hexact]
      have hafter : after.head?.all isSep = true := by simpa [head?_eq_getElem?] using hsep
      refine ⟨[c, ':'], after, rfl, by rw [hparse after hafter]; rfl, hafter, fun more => ?_⟩
      rw [hparse after hafter]
      exact hparse ('\\' :: more) rfl
    | none =>
      have hhead : parseVerbatim rest = .verbatim (rest.takeWhile fun c => !isVerbatimSep c) := by
        unfold parseVerbatim
        rw [hunc, hdrive]
        rfl
      obtain ⟨name, hname⟩ : ∃ name, rest.takeWhile (fun c => !isVerbatimSep c) = name := ⟨_, rfl⟩
      have hfree : ∀ c ∈ name, isVerbatimSep c = false := hname ▸ free_of_takeWhile rest
      have hrest : rest = name ++ rest.dropWhile fun c => !isVerbatimSep c := by
        rw [← hname, takeWhile_append_dropWhile]
      rw [hhead, hname] at hcomplete
      have hunc' : ∀ more, stripPattern ['U', 'N', 'C', '\\'] (name ++ '\\' :: more) = none := by
        intro more
        by_contra hsome
        obtain ⟨path, hpath⟩ := ne_none_iff_exists'.mp hsome
        have htake := (stripPattern_eq_some.mp hpath).1
        obtain _ | ⟨a, _ | ⟨b, _ | ⟨c, _ | ⟨d, more'⟩⟩⟩⟩ := name
        · exact absurd (cons.inj htake).1 (by decide)
        · exact absurd (cons.inj (cons.inj htake).2).1 (by decide)
        · exact absurd (cons.inj (cons.inj (cons.inj htake).2).2).1 (by decide)
        · -- The name is the one that is not complete.
          have ha := eq_of_backslashed (by decide) (cons.inj htake).1
          have hb := eq_of_backslashed (by decide) (cons.inj (cons.inj htake).2).1
          have hc := eq_of_backslashed (by decide) (cons.inj (cons.inj (cons.inj htake).2).2).1
          simp [ha, hb, hc] at hcomplete
        · -- The pattern is in the name already.
          have hlong : stripPattern ['U', 'N', 'C', '\\'] rest = some (rest.drop 4) :=
            stripPattern_eq_some.mpr ⟨by rw [hrest]; exact htake, rfl⟩
          rw [hunc] at hlong
          cases hlong
      have hdrive' : ∀ more, parseDriveExact (name ++ '\\' :: more) = none := by
        intro more
        unfold parseDriveExact at hdrive ⊢
        split_ifs with hthird
        · obtain _ | ⟨a, _ | ⟨b, more'⟩⟩ := name
          · exact parseDrive_of_sep rfl more
          · exact parseDrive_of_no_colon (by decide)
          · have hthird' : rest[2]?.all isSep = true := by
              rw [hrest]
              cases more' with
              | nil => simpa [head?_eq_getElem?] using sep_of_dropWhile rest
              | cons c more' => exact hthird
            rw [if_pos hthird', hrest] at hdrive
            rw [cons_append, cons_append, parseDrive_pair] at hdrive ⊢
            exact hdrive
        · rfl
      refine ⟨name, _, hrest, by rw [hhead, hname]; rfl, sep_of_dropWhile rest, fun more => ?_⟩
      rw [hhead, hname]
      unfold parseVerbatim
      rw [hunc', hdrive', nextComponent_of_free hfree]

end Heads

section Writing

variable {base name : List Char} {cs : List Component} {c : Component}

/-- A component that is written as one part and read back from it. -/
structure IsPart (c : Component) : Prop where
  free : ∀ x ∈ componentText c, isVerbatimSep x = false
  parse : parseComponent true (componentText c) = some c

theorem componentText_of_parse {verbatim : Bool}
    (h : parseComponent verbatim part = some c) : componentText c = part := by
  unfold parseComponent at h
  by_cases hdot : part = ['.']
  · subst hdot
    cases verbatim with
    | false => simp at h
    | true =>
      obtain rfl : .curDir = c := by simpa using h
      rfl
  · by_cases hparent : part = ['.', '.']
    · subst hparent
      obtain rfl : .parentDir = c := by simpa using h
      rfl
    · rw [if_neg hdot, if_neg hparent] at h
      split_ifs at h
      rw [← some.inj h]
      rfl

theorem IsPart.needsSep (h : IsPart c) : needsSep c = true ∧ c ≠ .rootDir := by
  have hparse := h.parse
  unfold parseComponent at hparse
  split_ifs at hparse
  all_goals
    rw [← some.inj hparse]
    exact ⟨rfl, nofun⟩

theorem writeComponents_cons (hc : IsPart c) (cs : List Component) :
    writeComponents false (c :: cs) = componentText c ++ writeComponents true cs := by
  simp [writeComponents, hc.needsSep.1]

theorem writeComponents_true (hc : IsPart c) (cs : List Component) :
    writeComponents true (c :: cs) = '\\' :: writeComponents false (c :: cs) := by
  simp [writeComponents, hc.needsSep.2]

/-- The parts of written components are their texts. -/
theorem splitBy_writeComponents (hparts : ∀ d ∈ c :: cs, IsPart d) :
    splitBy isVerbatimSep (writeComponents false (c :: cs)) = (c :: cs).map componentText := by
  induction cs generalizing c with
  | nil =>
    obtain ⟨hc, -⟩ := forall_mem_cons.mp hparts
    rw [writeComponents_cons hc]
    change splitBy isVerbatimSep (componentText c ++ []) = [componentText c]
    rw [append_nil]
    exact splitBy_of_free hc.free
  | cons d ds ih =>
    obtain ⟨hc, hds⟩ := forall_mem_cons.mp hparts
    rw [writeComponents_cons hc, writeComponents_true (hds d mem_cons_self), splitBy_append_sep rfl,
      splitBy_of_free hc.free, ih hds]
    rfl

/-- What was written is read. -/
theorem read_writeComponents (hparts : ∀ c ∈ cs, IsPart c) :
    (splitBy isVerbatimSep (writeComponents false cs)).filterMap (parseComponent true) = cs := by
  cases cs with
  | nil => rfl
  | cons c cs =>
    have hparse : ∀ d ∈ c :: cs, (parseComponent true ∘ componentText) d = some d := fun d hd => (hparts d hd).parse
    rw [splitBy_writeComponents hparts, filterMap_map, filterMap_congr hparse]
    exact filterMap_some

theorem isPart_of_mem (text : List Char) :
    ∀ c ∈ (splitBy isVerbatimSep text).filterMap (parseComponent true), IsPart c := by
  intro c hc
  obtain ⟨part, hpart, hparse⟩ := mem_filterMap.mp hc
  have htext := componentText_of_parse hparse
  exact ⟨htext ▸ free_of_mem_splitBy hpart, htext ▸ hparse⟩

/-- The components of a name are parts of a verbatim path. -/
theorem isPart_of_mem_plainComponents (text : List Char) : ∀ c ∈ plainComponents text, IsPart c ∧ c ≠ .curDir := by
  intro c hc
  obtain ⟨part, hpart, hparse⟩ := mem_filterMap.mp hc
  have htext := componentText_of_parse hparse
  have hdot : part ≠ ['.'] := by
    rintro rfl
    exact nomatch hparse
  refine ⟨⟨?_, ?_⟩, ?_⟩
  · intro x hx
    have hfree := free_of_mem_splitBy hpart x (htext ▸ hx)
    simp only [isSep, or_eq_false_iff] at hfree
    exact hfree.2
  · rw [htext, ← hparse]
    simp [parseComponent, hdot]
  · rintro rfl
    exact hdot htext.symm

/-- The normal form of what is written behind a verbatim head. -/
theorem normalForm_written {text : List Char} {head : Head} (hverbatim : head.isVerbatim = true)
    (hlength : head.length = text.length) (hhead : ∀ more, parseHead (text ++ '\\' :: more) = some head)
    (hparts : ∀ c ∈ cs, IsPart c) :
    normalForm (text ++ '\\' :: writeComponents false cs) = normalise ([.head (text, head), .rootDir] ++ cs) := by
  generalize hpath : text ++ '\\' :: writeComponents false cs = path
  have hparse : parseHead path = some head := hpath ▸ hhead _
  have hafter : afterHead path = '\\' :: writeComponents false cs := by
    rw [afterHead, headLength, hparse, ← hpath]
    simp [hlength]
  have hroot : hasPhysicalRoot path = true := by
    rw [hasPhysicalRoot, hafter]
    rfl
  have hcomponent : headComponent path = [.head (text, head)] := by
    rw [headComponent, hparse, ← hpath]
    simp [hlength]
  have hbody : bodyComponents path = cs := by
    have hkind : isVerbatimPath path = true := by simp [isVerbatimPath, hparse, hverbatim]
    have htext : body path = writeComponents false cs := by simp [body, hroot, hafter]
    rw [bodyComponents, hkind, htext]
    exact read_writeComponents hparts
  unfold normalForm
  rw [hcomponent, hbody, hasRoot, hroot]
  rfl

end Writing

section Pushing

variable {base name suffix text after : List Char} {head : Head}

/-- What is read of a complete verbatim base. -/
structure VerbatimBase (base text after : List Char) (head : Head) : Prop where
  text_append : base = text ++ after
  closed : after.head?.all isSep = true
  verbatim : head.isVerbatim = true
  length : head.length = text.length
  parse : parseHead base = some head
  parse_append : ∀ more, parseHead (text ++ '\\' :: more) = some head

theorem isVerbatim_parseVerbatim (rest : List Char) : (parseVerbatim rest).isVerbatim = true := by
  unfold parseVerbatim
  split
  · rfl
  · split <;> rfl

theorem exists_verbatimBase (hcomplete : Complete base = true) (hverbatim : isVerbatimPath base = true) :
    ∃ text after head, VerbatimBase base text after head := by
  obtain ⟨rest, rfl⟩ := exists_of_verbatim hverbatim
  obtain ⟨text, after, hrest, hlength, hclosed, hparse⟩ := parseVerbatim_spec hcomplete
  refine ⟨verbatimMark ++ text, after, parseVerbatim rest, ?_, hclosed, isVerbatim_parseVerbatim rest, ?_,
    parseHead_verbatimMark rest, fun more => ?_⟩
  · rw [append_assoc, ← hrest]
  · rw [hlength, length_append]
    rfl
  · rw [append_assoc, parseHead_verbatimMark, hparse]

section VerbatimBase

variable (h : VerbatimBase base text after head)
include h

namespace VerbatimBase

theorem afterHead_eq : afterHead base = after := by
  rw [afterHead, headLength, h.parse, h.text_append]
  simp [h.length]

theorem headComponent_eq : headComponent base = [.head (text, head)] := by
  rw [headComponent, h.parse, h.text_append]
  simp [h.length]

theorem isVerbatimPath_eq : isVerbatimPath base = true := by
  simp [isVerbatimPath, h.parse, h.verbatim]

theorem isPart : ∀ c ∈ bodyComponents base, IsPart c := by
  unfold bodyComponents
  rw [h.isVerbatimPath_eq]
  exact isPart_of_mem _

theorem normalForm_eq :
    normalForm base = normalise ([.head (text, head), .rootDir] ++ bodyComponents base) := by
  have himplicit : head.hasImplicitRoot = true := by
    have hkind := h.verbatim
    cases head with
    | disk => exact nomatch hkind
    | _ => rfl
  have hroot : hasRoot base = true := by simp [hasRoot, h.parse, himplicit]
  unfold normalForm
  rw [h.headComponent_eq, hroot]
  rfl

end VerbatimBase

end VerbatimBase

theorem VerbatimBase.bodyComponents_eq_nil (h : VerbatimBase base text [] head) : bodyComponents base = [] := by
  have hbody : body base = [] := by simp [body, hasPhysicalRoot, h.afterHead_eq]
  rw [bodyComponents, hbody]
  rfl

/-- A base with nothing behind its head has no components there, and one with something has a root. -/
theorem VerbatimBase.components_eq (h : VerbatimBase base text after head) :
    components base = .head (text, head) :: (if after = [] then [] else .rootDir :: bodyComponents base) := by
  have hstart : start base = if after = [] then [] else [.rootDir] := by
    unfold start hasPhysicalRoot
    rw [h.afterHead_eq, h.parse]
    cases hafter : after with
    | nil => simp [h.verbatim]
    | cons c cs =>
      have hc : isSep c = true := by simpa [hafter] using h.closed
      simp [hc]
  unfold components
  rw [h.headComponent_eq, hstart]
  by_cases hafter : after = []
  · subst hafter
    rw [h.bodyComponents_eq_nil]
    rfl
  · rw [if_neg hafter, if_neg hafter]
    rfl

theorem Relative.components_eq (hname : Relative name) :
    components name = plainComponents name ∨ components name = .curDir :: plainComponents name := by
  have hhead := hname.parseHead_eq_none
  have hafter : afterHead name = name := by simp [afterHead, headLength, hhead]
  have hbody : bodyComponents name = plainComponents name := by
    rw [bodyComponents_plain (by simp [isVerbatimPath, hhead]), hafter]
  have hroot : hasPhysicalRoot name = false := by rw [hasPhysicalRoot, hafter, hname.noRoot]
  unfold components headComponent start
  rw [hhead, hroot, hbody, if_neg Bool.false_ne_true]
  dsimp only
  split_ifs
  · exact .inr rfl
  · exact .inl rfl

/-- The components of a name are names. -/
theorem Relative.names (hname : Relative name) : ∀ c ∈ plainComponents name, ∃ part, c = .normal part := fun c hc =>
  (hname.leads_down c hc).resolve_left (isPart_of_mem_plainComponents name c hc).2

/-- Names are put behind the components of the base. -/
theorem pushComponents_names {cs : List Component} (hnames : ∀ c ∈ cs, ∃ part, c = .normal part) (buf : List Component) :
    pushComponents buf cs = buf ++ cs := by
  induction cs generalizing buf with
  | nil => simp [pushComponents]
  | cons c cs ih =>
    obtain ⟨⟨part, rfl⟩, hcs⟩ := forall_mem_cons.mp hnames
    simp [pushComponents, ih hcs]

theorem push_verbatim (h : VerbatimBase base text after head) (hname : Relative name) :
    push base name = text ++ writeComponents true
      ((if after = [] then [] else .rootDir :: bodyComponents base) ++ plainComponents name) := by
  have hpushed : pushComponents (components base) (components name) = components base ++ plainComponents name := by
    obtain hcs | hcs := hname.components_eq
    all_goals
      rw [hcs]
      exact pushComponents_names hname.names _
  have hsep : needsSep (.head (text, head)) = true := by
    have hkind := h.verbatim
    cases head with
    | verbatim path => simp [WindowsPath.needsSep, Head.isDrive, Head.length, Nat.add_comm 4]
    | verbatimUnc server share =>
      have hpos : 0 < (Head.verbatimUnc server share).length := Nat.add_pos_left (Nat.add_pos_left (by decide) _) _
      simp [WindowsPath.needsSep, Head.isDrive, hpos]
    | verbatimDisk => rfl
    | deviceNs | unc | disk => cases hkind
  unfold push
  rw [hname.parseHead_eq_none, h.isVerbatimPath_eq, hpushed, h.components_eq]
  simp [hname.ne_nil, writeComponents, hsep, componentText]

/-- Nothing to write leaves the base, and all else is behind a separator. -/
theorem push_verbatim_cases (h : VerbatimBase base text after head) (hname : Relative name) :
    push base name = text ++ '\\' :: writeComponents false (bodyComponents base ++ plainComponents name) ∨
      plainComponents name = [] ∧ push base name = base := by
  rw [push_verbatim h hname]
  by_cases hafter : after = []
  · subst hafter
    rw [if_pos rfl, nil_append, h.bodyComponents_eq_nil, nil_append]
    cases hcs : plainComponents name with
    | nil => exact .inr ⟨rfl, h.text_append.symm⟩
    | cons c cs =>
      have hc : IsPart c := (isPart_of_mem_plainComponents name c (by simp [hcs])).1
      rw [writeComponents_true hc]
      exact .inl rfl
  · rw [if_neg hafter]
    exact .inl rfl

theorem writeComponents_extend (needSep : Bool) (cs : List Component) (part : List Char) :
    writeComponents needSep (cs ++ [.normal part]) ++ suffix = writeComponents needSep (cs ++ [.normal (part ++ suffix)]) := by
  induction cs generalizing needSep with
  | nil => simp [writeComponents, componentText]
  | cons c cs ih => simp [writeComponents, ih]

/-- A name below a verbatim base. -/
theorem under_verbatim (h : VerbatimBase base text after head) (hname : Relative name) : Under base (push base name) := by
  obtain hpush | ⟨-, hpush⟩ := push_verbatim_cases h hname
  · have hparts : ∀ c ∈ bodyComponents base ++ plainComponents name, IsPart c := by
      intro c hc
      obtain hc | hc := mem_append.mp hc
      · exact h.isPart c hc
      · exact (isPart_of_mem_plainComponents name c hc).1
    unfold Under
    rw [hpush, normalForm_written h.verbatim h.length h.parse_append hparts, h.normalForm_eq, ← append_assoc]
    exact below_normalise_append _ hname.leads_down
  · rw [hpush]
    exact ⟨[], by simp⟩

/-- A text that is put behind a name without being a path of its own. -/
structure Suffix (suffix : List Char) : Prop where
  free : ∀ c ∈ suffix, isSep c = false
  noColon : suffix.head? ≠ some ':'
  length : 3 ≤ suffix.length

theorem Suffix.ne_short (h : Suffix suffix) (part : List Char) {short : List Char} (hshort : short.length ≤ 2) :
    part ++ suffix ≠ short := by
  intro heq
  have hlength := congrArg List.length heq
  have hthree := h.length
  rw [List.length_append] at hlength
  omega

theorem Relative.append (hname : Relative name) (hsuffix : Suffix suffix) : Relative (name ++ suffix) where
  ne_nil := append_ne_nil_of_left_ne_nil hname.ne_nil suffix
  noRoot := by
    obtain ⟨c, cs, rfl, hc⟩ := hname.head_free
    simp [hc]
  noDrive := by
    have hdrive := hname.noDrive
    obtain ⟨c, _ | ⟨d, rest⟩, rfl, hc⟩ := hname.head_free
    · cases suffix with
      | nil => rfl
      | cons d rest => exact parseDrive_of_no_colon (by simpa using hsuffix.noColon)
    · rw [parseDrive_pair] at hdrive
      rw [cons_append, cons_append, parseDrive_pair]
      exact hdrive
  noParent := by
    obtain ⟨parts, last, hparts, hlong⟩ := splitBy_append_free name hsuffix.free
    have hparent := hname.noParent
    rw [hparts] at hparent
    rw [hlong]
    intro hmem
    obtain hmem | hlast := mem_append.mp hmem
    · exact hparent (mem_append_left _ hmem)
    · exact hsuffix.ne_short last le_rfl (mem_singleton.mp hlast).symm

/-- A name with a suffix is a part as well. -/
theorem IsPart.append (hpart : IsPart (.normal part)) (hsuffix : Suffix suffix) :
    IsPart (.normal (part ++ suffix)) where
  free := by
    intro x hx
    obtain hx | hx := mem_append.mp hx
    · exact hpart.free x hx
    · have hfree := hsuffix.free x hx
      simp only [isSep, or_eq_false_iff] at hfree
      exact hfree.2
  parse := by
    have hnil : part ++ suffix ≠ [] := hsuffix.ne_short part (by simp)
    have hdot : part ++ suffix ≠ ['.'] := hsuffix.ne_short part (by simp)
    have hparent : part ++ suffix ≠ ['.', '.'] := hsuffix.ne_short part le_rfl
    unfold parseComponent componentText
    rw [if_neg hnil, if_neg hdot, if_neg hparent]

/-- A suffix extends the last name that is put behind a verbatim base. -/
theorem under_verbatim_append (h : VerbatimBase base text after head) (hname : Relative name)
    (hnames : plainComponents name ≠ []) (hsuffix : Suffix suffix) : Under base (push base name ++ suffix) := by
  obtain hpush | ⟨hnone, -⟩ := push_verbatim_cases h hname
  · obtain ⟨front, last, hlast⟩ := eq_nil_or_concat (plainComponents name) |>.resolve_left hnames
    rw [concat_eq_append] at hlast
    have hmem : ∀ c ∈ front ++ [last], IsPart c := fun c hc => (isPart_of_mem_plainComponents name c (hlast ▸ hc)).1
    have hnormal : ∀ c ∈ front ++ [last], ∃ part, c = .normal part := fun c hc => hname.names c (hlast ▸ hc)
    obtain ⟨part, rfl⟩ := hnormal last (by simp)
    have hparts : ∀ c ∈ bodyComponents base ++ (front ++ [.normal (part ++ suffix)]), IsPart c := by
      intro c hc
      obtain hc | hc := mem_append.mp hc
      · exact h.isPart c hc
      · obtain hc | hc := mem_append.mp hc
        · exact hmem c (mem_append_left _ hc)
        · rw [mem_singleton.mp hc]
          exact (hmem (.normal part) (by simp)).append hsuffix
    have hdown : ∀ c ∈ front ++ [.normal (part ++ suffix)], c = .curDir ∨ ∃ part, c = .normal part := by
      intro c hc
      obtain hc | hc := mem_append.mp hc
      · exact .inr (hnormal c (mem_append_left _ hc))
      · exact .inr ⟨_, mem_singleton.mp hc⟩
    have htext : push base name ++ suffix =
        text ++ '\\' :: writeComponents false (bodyComponents base ++ (front ++ [.normal (part ++ suffix)])) := by
      rw [hpush, hlast, ← append_assoc (bodyComponents base), ← append_assoc (bodyComponents base),
        ← writeComponents_extend, append_assoc, cons_append]
    unfold Under
    rw [htext, normalForm_written h.verbatim h.length h.parse_append hparts, h.normalForm_eq, ← append_assoc]
    exact below_normalise_append _ hdown
  · exact absurd hnone hnames

/-- A name that is pushed to a complete base leads below it. -/
theorem under_push (hcomplete : Complete base = true) (hname : Relative name) : Under base (push base name) := by
  by_cases hverbatim : isVerbatimPath base = true
  · obtain ⟨text, after, head, h⟩ := exists_verbatimBase hcomplete hverbatim
    exact under_verbatim h hname
  · have hplain := eq_false_iff.mpr hverbatim
    rw [push_plain hplain hname]
    exact under_plain hcomplete hplain hname

/-- So does the pushed name with a suffix, where it has a name to extend or its text stands behind the base. -/
theorem under_push_append (hcomplete : Complete base = true) (hname : Relative name) (hsuffix : Suffix suffix)
    (hnames : isVerbatimPath base = true → plainComponents name ≠ []) : Under base (push base name ++ suffix) := by
  by_cases hverbatim : isVerbatimPath base = true
  · obtain ⟨text, after, head, h⟩ := exists_verbatimBase hcomplete hverbatim
    exact under_verbatim_append h hname (hnames hverbatim) hsuffix
  · have hplain := eq_false_iff.mpr hverbatim
    rw [push_plain hplain hname, append_assoc, append_assoc]
    exact under_plain hcomplete hplain (hname.append hsuffix)

end Pushing

end UnyDesk.Lib.WindowsPath
