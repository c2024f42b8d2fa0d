import Mathlib.Data.Countable.Basic
import Mathlib.Logic.Equiv.List
import UnyDesk.Config.AtRest
import UnyDesk.Config.TrustedDevices

/-!
# Updates of the trusted devices

An update that writes a list made from an older one undoes what happened between, and so does a read of the
configuration that fills the cache with what it read before an update. Where neither happens, the operations take
effect one after the other: an update when it writes the cache, and a read when it reads the list.
-/

namespace UnyDesk

open Lib DeviceStore List DeviceOp Option TrustedDevice List.Subset

/-- No two devices have the same hardware id, and none is too old. -/
structure DevicesInOrder (env : DeviceEnv) (devices : List TrustedDevice) : Prop where
  distinct : (devices.map hwid).Nodup
  recent : ∀ d ∈ devices, d.outdate env.now = false

/-- A text of the configuration that is read as the list: the encrypted list, or no encrypted text for no devices. -/
def HoldsDevices (env : DeviceEnv) (config : String) (devices : List TrustedDevice) : Prop :=
  decryptStrOrOriginal env.crypto config passwordEncVersion = (env.json.toString devices, true, false) ∨
    (decryptStrOrOriginal env.crypto config passwordEncVersion).2.1 = false ∧ devices = []

/-- What an earlier process has stored. -/
structure StoredDevices (env : DeviceEnv) where
  devices : List TrustedDevice
  nonce : Nonce
  inOrder : DevicesInOrder env devices
  fits : byteLen (env.json.toString devices) ≤ trustedDevicesMaxLen

section Texts

variable {env : DeviceEnv} {devices : List TrustedDevice} {config : String}

theorem length_le_byteLen (text : String) : text.length ≤ byteLen text := by
  rw [← String.length_toList]
  exact Utf8.length_le_length_encode text

theorem isEncrypted_toString (env : DeviceEnv) (devices : List TrustedDevice) :
    isEncrypted (env.json.toString devices) = false := by
  have hstart : startsWith (env.json.toString devices) "00" = false := by
    obtain ⟨rest, hrest⟩ := head?_eq_some_iff.mp (env.json.bracket devices)
    rw [startsWith, hrest]
    rfl
  rw [isEncrypted, hstart]
  simp

/-- What is stored is read back. -/
theorem holdsDevices_encrypt (nonce : Nonce) (hfits : byteLen (env.json.toString devices) ≤ trustedDevicesMaxLen) :
    HoldsDevices env
      (encryptStrOrOriginal env.crypto nonce (env.json.toString devices) passwordEncVersion trustedDevicesMaxLen)
      devices := by
  have hne : env.json.toString devices ≠ "" := by
    intro h
    have hbracket := env.json.bracket devices
    rw [h] at hbracket
    exact nomatch hbracket
  left
  rw [encryptStrOrOriginal_eq env.crypto nonce (isEncrypted_toString env devices)
    (Nat.le_trans (length_le_byteLen _) hfits) hne]
  exact decryptStrOrOriginal_encode env.crypto nonce _

theorem holdsDevices_empty (env : DeviceEnv) : HoldsDevices env "" [] := .inr ⟨rfl, rfl⟩

theorem HoldsDevices.persisted_eq (h : HoldsDevices env config devices) : persisted env config = devices := by
  rcases h with h | ⟨h, rfl⟩
  · simp [persisted, h, env.json.fromStr_toString]
  · simp [persisted, h]

theorem DevicesInOrder.retainCurrent_eq (h : DevicesInOrder env devices) : retainCurrent env devices = devices :=
  filter_eq_self.mpr fun d hd => by rw [h.recent d hd]; rfl

/-- Every update of a list in order is in order, once it is filtered for age. -/
theorem DevicesInOrder.update (h : DevicesInOrder env devices) {op : DeviceOp} {updated : List TrustedDevice}
    (hupdate : op.update devices = some updated) : DevicesInOrder env (retainCurrent env updated) := by
  have hdistinct : (updated.map hwid).Nodup := by
    cases op with
    | get => exact nomatch hupdate
    | add device =>
      obtain rfl := some.inj hupdate
      rw [map_append, nodup_append]
      refine ⟨h.distinct.sublist (filter_sublist.map _), nodup_singleton _, ?_⟩
      intro hwid hmem hwid' hmem'
      obtain ⟨d, hd, rfl⟩ := mem_map.mp hmem
      rw [map_singleton, mem_singleton] at hmem'
      rw [hmem']
      simpa using (mem_filter.mp hd).2
    | remove hwids =>
      obtain rfl := some.inj hupdate
      exact h.distinct.sublist (filter_sublist.map _)
    | clear =>
      obtain rfl := some.inj hupdate
      exact nodup_nil
  refine ⟨hdistinct.sublist (filter_sublist.map _), fun d hd => ?_⟩
  simpa using (mem_filter.mp hd).2

end Texts

namespace DeviceStore

/-- The order explains what the operations returned, and leads to the list of the last complete update. -/
abbrev Explains (env : DeviceEnv) (start : List TrustedDevice) (s : DeviceStore)
    (order : List (Effect ℕ DeviceOp (Option (List TrustedDevice)))) : Prop :=
  Linearizes (DeviceOp.apply env) start s.history order s.current

section Phases

variable (history : List (Action ℕ DeviceOp (Option (List TrustedDevice))))
  (order : List (Effect ℕ DeviceOp (Option (List TrustedDevice)))) (i : ℕ) (op : DeviceOp)

/-- The operation was called and has not returned. -/
structure Open : Prop where
  called : .call i op ∈ history
  notReturned : ∀ result, .ret i result ∉ history

/-- The operation has not taken effect. -/
structure Pending : Prop extends Open history i op where
  notInOrder : ∀ e ∈ order, e.id ≠ i

structure Effected (result : Option (List TrustedDevice)) : Prop extends Open history i op where
  inOrder : ⟨i, op, result⟩ ∈ order

/-- The operation has the list: it has taken effect if it reads only. -/
def Got (devices : List TrustedDevice) : Prop :=
  match op.update devices with
  | none => Effected history order i op (some devices)
  | some _ => Pending history order i op

/-- What is known of an operation where it stands. -/
def PhaseSound (env : DeviceEnv) (lock : Option ℕ) : DevicePhase → Prop
  | .readCache op | .readConfig op => Pending history order i op
  | .writeConfig op devices base refill =>
    refill = false ∧ Pending history order i op ∧ DevicesInOrder env devices ∧
      ∀ current, (∀ l ∈ base, l = current) → op.apply env current = (devices, none)
  | .writeCache op _ refill => refill = false ∧ lock = some i ∧ Pending history order i op
  | .fillCache op devices => Got history order i op devices
  | .done op result => Effected history order i op result

end Phases

/-- The invariant of the store, with the order in which its operations took effect. -/
structure Sound (env : DeviceEnv) (start : List TrustedDevice) (s : DeviceStore)
    (order : List (Effect ℕ DeviceOp (Option (List TrustedDevice)))) : Prop where
  explains : s.Explains env start order
  inOrder : DevicesInOrder env s.current
  cache : s.cache.2 = true → s.cache.1 = s.current
  config : s.lock = none → HoldsDevices env s.config s.current
  /-- Under the lock the configuration holds what the cache is going to. -/
  locked : ∀ i, s.lock = some i → ∃ op devices, s.ops i = some (.writeCache op devices false) ∧
    HoldsDevices env s.config devices ∧ DevicesInOrder env devices ∧ op.apply env s.current = (devices, none)
  phases : ∀ i phase, s.ops i = some phase → PhaseSound s.history order i env s.lock phase
  fresh : ∀ i, s.nextId ≤ i → s.ops i = none ∧ (∀ e ∈ order, e.id ≠ i) ∧ ∀ result, .ret i result ∉ s.history
  answered : ∀ i op, .call i op ∈ s.history → (s.ops i).isSome ∨ ∃ result, .ret i result ∈ s.history

/-- The list that is about to be written, to the configuration or to the cache, was made from the list of the last
complete update, and is below the limit. -/
def PhaseUpToDate (env : DeviceEnv) (s : DeviceStore) : DevicePhase → Prop
  | .writeConfig _ devices base _ =>
    byteLen (env.json.toString devices) ≤ trustedDevicesMaxLen ∧ (s.lock = none → ∀ l ∈ base, l = s.current)
  | .fillCache _ devices => devices = s.current
  | _ => True

instance (env : DeviceEnv) (s : DeviceStore) (phase : DevicePhase) : Decidable (s.PhaseUpToDate env phase) := by
  cases phase <;> unfold PhaseUpToDate <;> infer_instance

def UpToDate (env : DeviceEnv) (s : DeviceStore) : DeviceStep → Prop
  | .advance i _ => ∀ phase ∈ s.ops i, s.PhaseUpToDate env phase
  | .call _ => True

instance (env : DeviceEnv) (s : DeviceStore) (e : DeviceStep) : Decidable (s.UpToDate env e) := by
  cases e <;> unfold UpToDate <;> infer_instance

section Steps

variable {env : DeviceEnv} {start : List TrustedDevice} {s s' : DeviceStore}
  {order order' : List (Effect ℕ DeviceOp (Option (List TrustedDevice)))} {i : ℕ} {op : DeviceOp}
  {devices : List TrustedDevice} {phase : DevicePhase} {j : ℕ} {result : Option (List TrustedDevice)}

/-- What one operation does leaves the others where they are: it adds no return but its own and enters the order at
most itself. -/
structure Beside (s s' : DeviceStore) (order order' : List (Effect ℕ DeviceOp (Option (List TrustedDevice)))) (i : ℕ) :
    Prop where
  ops : ∀ j ≠ i, s'.ops j = s.ops j
  history : s.history ⊆ s'.history
  rets : ∀ j ≠ i, ∀ result, .ret j result ∈ s'.history → .ret j result ∈ s.history
  kept : order ⊆ order'
  entered : ∀ e ∈ order', e ∈ order ∨ e.id = i
  lock : ∀ j ≠ i, s.lock = some j → s'.lock = some j

theorem Open.beside (h : Open s.history j op) (hb : Beside s s' order order' i) (hji : j ≠ i) : Open s'.history j op :=
  ⟨hb.history h.called, fun result hret => h.notReturned result (hb.rets j hji result hret)⟩

theorem Pending.beside (h : Pending s.history order j op) (hb : Beside s s' order order' i) (hji : j ≠ i) :
    Pending s'.history order' j op :=
  ⟨h.toOpen.beside hb hji, fun e he => (hb.entered e he).elim (h.notInOrder e) fun hid => hid ▸ hji.symm⟩

theorem Effected.beside (h : Effected s.history order j op result)
    (hb : Beside s s' order order' i) (hji : j ≠ i) : Effected s'.history order' j op result :=
  ⟨h.toOpen.beside hb hji, hb.kept h.inOrder⟩

theorem PhaseSound.beside (h : PhaseSound s.history order j env s.lock phase)
    (hb : Beside s s' order order' i) (hji : j ≠ i) : PhaseSound s'.history order' j env s'.lock phase := by
  cases phase with
  | readCache op => exact Pending.beside h hb hji
  | readConfig op => exact Pending.beside h hb hji
  | writeConfig op devices base refill => exact ⟨h.1, h.2.1.beside hb hji, h.2.2⟩
  | writeCache op devices refill => exact ⟨h.1, hb.lock j hji h.2.1, h.2.2.beside hb hji⟩
  | fillCache op devices =>
    simp only [PhaseSound, Got] at h ⊢
    split
    next heq => rw [heq] at h; exact h.beside hb hji
    next heq => rw [heq] at h; exact h.beside hb hji
  | done op result => exact Effected.beside h hb hji

/-- The operation goes on with the list that it has. -/
theorem Got.phaseSound (h : Got s.history order i op devices) (hdevices : DevicesInOrder env devices) :
    PhaseSound s.history order i env s.lock (op.got env devices) := by
  unfold Got at h
  unfold got
  split
  next heq => rw [heq] at h; exact h
  next updated heq =>
    rw [heq] at h
    refine ⟨rfl, h, hdevices.update heq, fun current hbase => ?_⟩
    rw [← hbase devices rfl, apply, heq]

/-- Reading the list: an operation that reads only takes effect. -/
theorem Pending.read (h : Pending s.history order i op) (hexplains : s.Explains env start order) :
    ∃ order', s.Explains env start order' ∧ Got s.history order' i op s.current ∧ order ⊆ order' ∧
      ∀ e ∈ order', e ∈ order ∨ e.id = i := by
  cases hupdate : op.update s.current with
  | none =>
    have happly : op.apply env s.current = (s.current, some s.current) := by rw [apply, hupdate]
    refine ⟨order ++ [⟨i, op, some s.current⟩], ?_, ?_, subset_append_left .., fun e he => ?_⟩
    · exact hexplains.takeEffect h.called h.notInOrder h.notReturned happly
    · rw [Got, hupdate]
      exact ⟨h.toOpen, mem_append_right _ mem_cons_self⟩
    · exact (mem_append.mp he).imp_right fun hmem => by rw [mem_singleton.mp hmem]
  | some updated =>
    refine ⟨order, hexplains, ?_, refl _, fun e he => .inl he⟩
    rw [Got, hupdate]
    exact h

/-- The rule for a step of an operation that has been called. -/
theorem Sound.turn (h : s.Sound env start order) (hi : s.ops i = some phase)
    (hb : Beside s s' order order' i) (hexplains : s'.Explains env start order')
    (hinOrder : DevicesInOrder env s'.current) (hcache : s'.cache.2 = true → s'.cache.1 = s'.current)
    (hconfig : s'.lock = none → HoldsDevices env s'.config s'.current)
    (hlocked : ∀ j, s'.lock = some j → ∃ op devices, s'.ops j = some (.writeCache op devices false) ∧
      HoldsDevices env s'.config devices ∧ DevicesInOrder env devices ∧ op.apply env s'.current = (devices, none))
    (hphase : ∀ phase, s'.ops i = some phase → PhaseSound s'.history order' i env s'.lock phase) (hnext : s'.nextId = s.nextId)
    (hcalls : ∀ j op, .call j op ∈ s'.history → .call j op ∈ s.history)
    (hdone : (s'.ops i).isSome ∨ ∃ result, .ret i result ∈ s'.history) : s'.Sound env start order' where
  explains := hexplains
  inOrder := hinOrder
  cache := hcache
  config := hconfig
  locked := hlocked
  phases j phase hj := by
    by_cases hji : j = i
    · subst hji
      exact hphase phase hj
    · exact (h.phases j phase (hb.ops j hji ▸ hj)).beside hb hji
  fresh j hj := by
    obtain ⟨hnone, hout, hret⟩ := h.fresh j (hnext ▸ hj)
    have hji : j ≠ i := by
      rintro rfl
      exact nomatch hnone.symm.trans hi
    refine ⟨(hb.ops j hji).trans hnone, fun e he => ?_, fun result hmem => hret result (hb.rets j hji result hmem)⟩
    exact (hb.entered e he).elim (hout e) fun hid => hid ▸ hji.symm
  answered j op hj := by
    by_cases hji : j = i
    · subst hji
      exact hdone
    · rw [hb.ops j hji]
      exact (h.answered j op (hcalls j op hj)).imp_right fun ⟨result, hret⟩ => ⟨result, hb.history hret⟩

theorem setPhase_self (s : DeviceStore) (i : ℕ) (phase : Option DevicePhase) : (s.setPhase i phase).ops i = phase :=
  Function.update_self ..

theorem setPhase_of_ne (hji : j ≠ i) (s : DeviceStore) (phase : Option DevicePhase) :
    (s.setPhase i phase).ops j = s.ops j := Function.update_of_ne hji ..

section Sound

variable (h : s.Sound env start order) {nonce : Nonce}
include h

namespace Sound

/-- The rule for an operation that goes on without a change of the store. -/
theorem setPhase {old phase : DevicePhase} (hi : s.ops i = some old)
    (hlock : s.lock ≠ some i) (hexplains : s.Explains env start order') (hkept : order ⊆ order')
    (hentered : ∀ e ∈ order', e ∈ order ∨ e.id = i) (hphase : PhaseSound s.history order' i env s.lock phase) :
    (s.setPhase i (some phase)).Sound env start order' := by
  have hb : Beside s (s.setPhase i (some phase)) order order' i :=
    ⟨fun j hji => setPhase_of_ne hji s _, refl _, fun _ _ _ => id, hkept, hentered, fun _ _ => id⟩
  refine h.turn hi hb hexplains h.inOrder h.cache h.config (fun j hj => ?_) (fun phase' hphase' => ?_) rfl
    (fun _ _ => id) (.inl ?_)
  · obtain ⟨op, devices, hops, hrest⟩ := h.locked j hj
    refine ⟨op, devices, (hb.ops j fun hji => ?_).trans hops, hrest⟩
    exact hlock (hji ▸ hj)
  · rw [setPhase_self] at hphase'
    exact some.inj hphase' ▸ hphase
  · rw [setPhase_self]
    rfl

/-- Reading the list, from the cache or from the configuration. -/
theorem read {old : DevicePhase} (hi : s.ops i = some old) (hlock : s.lock ≠ some i)
    (hpending : Pending s.history order i op)
    (hphase : ∀ order', Got s.history order' i op s.current → PhaseSound s.history order' i env s.lock phase) :
    ∃ order', (s.setPhase i (some phase)).Sound env start order' := by
  obtain ⟨order', hexplains, hgot, hkept, hentered⟩ := hpending.read h.explains
  exact ⟨order', h.setPhase hi hlock hexplains hkept hentered (hphase order' hgot)⟩

/-- The configuration is read without a second write, as nothing in it is too old. -/
theorem readConfig (hi : s.ops i = some (.readConfig op)) :
    ∃ order', (s.advance env i nonce (.readConfig op)).Sound env start order' := by
  have hpending : Pending s.history order i op := h.phases i _ hi
  simp only [advance]
  cases hlock : s.lock with
  | some j => exact ⟨order, h⟩
  | none =>
    simp only [Option.isSome_none, Bool.false_eq_true, if_false]
    have hfree : s.lock ≠ some i := fun heq => nomatch hlock.symm.trans heq
    rcases h.config hlock with hdecrypt | ⟨hfail, hnil⟩
    · rw [hdecrypt]
      simp only [if_true, env.json.fromStr_toString, Option.getD_some, h.inOrder.retainCurrent_eq, bne_self_eq_false,
        Bool.or_self, Bool.false_eq_true, if_false]
      exact h.read hi hfree hpending fun order' hgot => hgot
    · simp only [hfail, Bool.false_eq_true, if_false]
      refine h.read hi hfree hpending fun order' hgot => ?_
      rw [hnil] at hgot
      exact hgot.phaseSound ⟨nodup_nil, fun _ hd => absurd hd not_mem_nil⟩

/-- Nobody else is between the two writes. -/
theorem lock_ne (hi : s.ops i = some phase)
    (hphase : ∀ op devices, phase ≠ .writeCache op devices false) : s.lock ≠ some i := by
  intro hlock
  obtain ⟨op, devices, hops, -⟩ := h.locked i hlock
  exact hphase op devices (some.inj (hi.symm.trans hops))

theorem readCache (hi : s.ops i = some (.readCache op)) :
    ∃ order', (s.advance env i nonce (.readCache op)).Sound env start order' := by
  have hpending : Pending s.history order i op := h.phases i _ hi
  have hfree := h.lock_ne hi nofun
  simp only [advance]
  split
  next hsynced =>
    refine h.read hi hfree hpending fun order' hgot => ?_
    rw [h.cache hsynced]
    exact hgot.phaseSound h.inOrder
  next => exact ⟨order, h.setPhase hi hfree h.explains (refl _) (fun _ => .inl) hpending⟩

/-- The list is written to the configuration, under the lock. -/
theorem writeConfig {base : Option (List TrustedDevice)}
    {refill : Bool} (hi : s.ops i = some (.writeConfig op devices base refill))
    (hready : s.PhaseUpToDate env (.writeConfig op devices base refill)) :
    (s.advance env i nonce (.writeConfig op devices base refill)).Sound env start order := by
  obtain ⟨rfl, hpending, hdevices, happly⟩ := h.phases i _ hi
  obtain ⟨hfits, hbase⟩ := hready
  simp only [advance, if_neg (Nat.not_lt.mpr hfits)]
  cases hlock : s.lock with
  | some j => exact h
  | none =>
    simp only [isSome_none, Bool.false_eq_true, if_false]
    refine h.turn hi ⟨fun j hji => setPhase_of_ne hji .., refl _, fun _ _ _ => id, refl _,
      fun _ => .inl, fun j _ hj => nomatch hlock.symm.trans hj⟩ h.explains h.inOrder h.cache nofun (fun j hj => ?_)
      (fun phase hphase => ?_) rfl (fun _ _ => id) (.inl ?_)
    · obtain rfl : i = j := some.inj hj
      exact ⟨op, devices, setPhase_self .., holdsDevices_encrypt nonce hfits, hdevices, happly _ (hbase hlock)⟩
    · rw [setPhase_self] at hphase
      obtain rfl := some.inj hphase
      exact ⟨rfl, rfl, hpending⟩
    · rw [setPhase_self]
      rfl

/-- An update takes effect when it writes the cache. -/
theorem writeCache {refill : Bool} (hi : s.ops i = some (.writeCache op devices refill)) :
    ∃ order', (s.advance env i nonce (.writeCache op devices refill)).Sound env start order' := by
  obtain ⟨rfl, hlock, hpending⟩ := h.phases i _ hi
  obtain ⟨op', devices', hops, hholds, hdevices, happly⟩ := h.locked i hlock
  obtain ⟨rfl, rfl, -⟩ := DevicePhase.writeCache.inj (some.inj (hi.symm.trans hops))
  have hexplains := h.explains.takeEffect (e := ⟨i, op, none⟩) hpending.called hpending.notInOrder
    hpending.notReturned happly
  refine ⟨order ++ [⟨i, op, none⟩], ?_⟩
  refine h.turn hi ⟨fun j hji => setPhase_of_ne hji .., refl _, fun _ _ _ => id,
    subset_append_left .., fun e he => ?_, fun j hji hj => ?_⟩ hexplains hdevices (fun _ => rfl) (fun _ => hholds)
    nofun (fun phase hphase => ?_) rfl (fun _ _ => id) (.inl ?_)
  · exact (mem_append.mp he).imp_right fun hmem => by rw [mem_singleton.mp hmem]
  · exact absurd (some.inj (hj.symm.trans hlock)) hji
  · simp only [advance, setPhase_self] at hphase
    obtain rfl := some.inj hphase
    exact ⟨hpending.toOpen, mem_append_right _ mem_cons_self⟩
  · simp only [advance, setPhase_self]
    rfl

/-- The cache is filled with the list that is still the last one. -/
theorem fillCache (hi : s.ops i = some (.fillCache op devices))
    (hready : devices = s.current) : (s.advance env i nonce (.fillCache op devices)).Sound env start order := by
  have hgot : Got s.history order i op devices := h.phases i _ hi
  have hfilled : Sound env start { s with cache := (devices, true) } order :=
    { h with cache := fun _ => hready }
  exact hfilled.setPhase hi (h.lock_ne hi nofun) h.explains (refl _) (fun _ => .inl)
    (hgot.phaseSound (hready ▸ h.inOrder))

theorem done
    (hi : s.ops i = some (.done op result)) : (s.advance env i nonce (.done op result)).Sound env start order := by
  have heffected : Effected s.history order i op result := h.phases i _ hi
  refine h.turn hi ⟨fun j hji => setPhase_of_ne hji .., subset_append_left .., fun j hji result' hret => ?_,
    refl _, fun _ => .inl, fun _ _ => id⟩ (h.explains.ret heffected.inOrder) h.inOrder h.cache h.config
    (fun j hj => ?_) (fun phase hphase => ?_) rfl (fun j op' hcall => ?_) (.inr ?_)
  · refine (mem_append.mp hret).resolve_right fun hmem => hji ?_
    exact (Action.ret.inj (mem_singleton.mp hmem)).1
  · obtain ⟨op', devices', hops, hrest⟩ := h.locked j hj
    refine ⟨op', devices', (setPhase_of_ne ?_ _ _).trans hops, hrest⟩
    rintro rfl
    exact nomatch hi.symm.trans hops
  · simp only [advance, setPhase_self] at hphase
    exact nomatch hphase
  · refine (mem_append.mp hcall).resolve_right fun hmem => ?_
    exact nomatch mem_singleton.mp hmem
  · exact ⟨result, mem_append_right _ mem_cons_self⟩

theorem call (op : DeviceOp) : (s.step env (.call op)).Sound env start order := by
  obtain ⟨hnone, hout, hret⟩ := h.fresh s.nextId (Nat.le_refl _)
  have hother : ∀ {j phase}, s.ops j = some phase → j ≠ s.nextId := by
    rintro j phase hj rfl
    exact nomatch hnone.symm.trans hj
  have hrets : ∀ j result, .ret j result ∈ s.history ++ [.call s.nextId op] → .ret j result ∈ s.history := by
    intro j result hmem
    refine (mem_append.mp hmem).resolve_right fun hlast => ?_
    exact nomatch mem_singleton.mp hlast
  have hb : Beside s (s.step env (.call op)) order order s.nextId :=
    ⟨fun j hji => setPhase_of_ne hji .., subset_append_left .., fun j _ result => hrets j result,
      refl _, fun _ => .inl, fun _ _ => id⟩
  have hpending : Pending (s.history ++ [.call s.nextId op]) order s.nextId op :=
    ⟨⟨mem_append_right _ mem_cons_self, fun result hmem => hret result (hrets _ result hmem)⟩, hout⟩
  refine
    { explains := h.explains.call op hout, inOrder := h.inOrder, cache := h.cache, config := h.config,
      locked := fun j hj => ?_, phases := fun j phase hj => ?_, fresh := fun j hj => ?_, answered := fun j op' hj => ?_ }
  · obtain ⟨op', devices', hops, hrest⟩ := h.locked j hj
    exact ⟨op', devices', (hb.ops j (hother hops)).trans hops, hrest⟩
  · by_cases hji : j = s.nextId
    · subst hji
      obtain rfl : op.begin = phase := some.inj ((setPhase_self ..).symm.trans hj)
      cases op with
      | get | add | remove => exact hpending
      | clear => exact ⟨rfl, hpending, ⟨nodup_nil, fun _ hd => absurd hd not_mem_nil⟩, fun _ _ => rfl⟩
    · exact (h.phases j phase (hb.ops j hji ▸ hj)).beside hb hji
  · obtain ⟨hnone', hout', hret'⟩ := h.fresh j (Nat.le_of_succ_le hj)
    have hji : j ≠ s.nextId := Nat.ne_of_gt hj
    exact ⟨(hb.ops j hji).trans hnone', hout', fun result hmem => hret' result (hrets j result hmem)⟩
  · by_cases hji : j = s.nextId
    · subst hji
      exact .inl (by rw [show (s.step env (.call op)).ops s.nextId = some op.begin from setPhase_self ..]; rfl)
    · rw [hb.ops j hji]
      rcases mem_append.mp hj with hold | hnew
      · exact (h.answered j op' hold).imp_right fun ⟨result, hmem⟩ => ⟨result, mem_append_left _ hmem⟩
      · exact absurd (Action.call.inj (mem_singleton.mp hnew)).1 hji

theorem step {e : DeviceStep} (hready : s.UpToDate env e) : ∃ order', (s.step env e).Sound env start order' := by
  cases e with
  | call op => exact ⟨order, h.call op⟩
  | advance i nonce =>
    simp only [DeviceStore.step]
    split
    next => exact ⟨order, h⟩
    next phase hi =>
      have hphase := hready phase hi
      cases phase with
      | readCache op => exact h.readCache hi
      | readConfig op => exact h.readConfig hi
      | writeConfig op devices base refill => exact ⟨order, h.writeConfig hi hphase⟩
      | writeCache op devices refill => exact h.writeCache hi
      | fillCache op devices => exact ⟨order, h.fillCache hi hphase⟩
      | done op result => exact ⟨order, h.done hi⟩

end Sound

end Sound

end Steps

/-- A process starts with what is stored, if anything is, and with an empty cache. -/
def start (env : DeviceEnv) (stored : Option (StoredDevices env)) : DeviceStore :=
  match stored with
  | none => { config := "", current := [] }
  | some stored =>
    { config := encryptStrOrOriginal env.crypto stored.nonce (env.json.toString stored.devices) passwordEncVersion
        trustedDevicesMaxLen
      current := stored.devices }

theorem sound_start (env : DeviceEnv) (stored : Option (StoredDevices env)) :
    (start env stored).Sound env (start env stored).current [] := by
  have hempty (config : String) (devices : List TrustedDevice) (hin : DevicesInOrder env devices)
      (hholds : HoldsDevices env config devices) : Sound env devices { config, current := devices } [] :=
    ⟨.nil _, hin, nofun, fun _ => hholds, nofun, nofun,
      fun _ _ => ⟨rfl, fun _ he => absurd he not_mem_nil, fun _ => not_mem_nil⟩,
      fun _ _ hmem => absurd hmem not_mem_nil⟩
  cases stored with
  | none => exact hempty "" [] ⟨nodup_nil, fun _ hd => absurd hd not_mem_nil⟩ (holdsDevices_empty env)
  | some stored => exact hempty _ _ stored.inOrder (holdsDevices_encrypt stored.nonce stored.fits)

/-- The operations so far are explained by a sequential order that leads to a list of distinct devices. Whenever none
is in progress, all of them are in the order, the list is what is stored, and the cache agrees if it is filled. -/
def Consistent (env : DeviceEnv) (start : List TrustedDevice) (s : DeviceStore) : Prop :=
  ∃ order devices, Linearizes (DeviceOp.apply env) start s.history order devices ∧ (devices.map hwid).Nodup ∧
    (s.Quiet → (∀ i op, .call i op ∈ s.history → ∃ e ∈ order, e.id = i) ∧ persisted env s.config = devices ∧
      (s.cache.2 = true → s.cache.1 = persisted env s.config))

theorem Sound.consistent {env : DeviceEnv} {start : List TrustedDevice} {s : DeviceStore}
    {order : List (Effect ℕ DeviceOp (Option (List TrustedDevice)))} (h : s.Sound env start order) :
    s.Consistent env start := by
  refine ⟨order, s.current, h.explains, h.inOrder.distinct, fun hbelow => ?_⟩
  have hquiet : ∀ i, s.ops i = none := fun i =>
    (Nat.lt_or_ge i s.nextId).elim (hbelow i) fun hge => (h.fresh i hge).1
  have hlock : s.lock = none := by
    cases hlock : s.lock with
    | none => rfl
    | some i =>
      obtain ⟨op, devices, hops, -⟩ := h.locked i hlock
      exact nomatch (hquiet i).symm.trans hops
  have hpersisted := (h.config hlock).persisted_eq
  refine ⟨fun i op hcall => ?_, hpersisted, fun hfilled => (h.cache hfilled).trans hpersisted.symm⟩
  rcases h.answered i op hcall with hopen | ⟨result, hret⟩
  · rw [hquiet i] at hopen
    exact nomatch hopen
  · obtain ⟨e, he, hid, -⟩ := h.explains.returned i result hret
    exact ⟨e, he, hid⟩

end DeviceStore

/-- Trusted-device updates are not lost and revocations stick, in every run in which each list is written while the one
that it was made from is still the last: the operations are explained by a sequential order in every state. -/
theorem trusted_devices_consistent (env : DeviceEnv) (stored : Option (StoredDevices env)) {steps : List DeviceStep}
    (hready : RunMeets (DeviceStore.step env) (DeviceStore.UpToDate env) (DeviceStore.start env stored) steps) :
    (runEvents (DeviceStore.step env) (DeviceStore.start env stored) steps).Consistent env
      (DeviceStore.start env stored).current := by
  obtain ⟨order, hsound⟩ := runEvents_invariant
    (I := fun s : DeviceStore => ∃ order, s.Sound env (DeviceStore.start env stored).current order)
    (fun s e ⟨order, h⟩ hok => h.step hok) ⟨[], DeviceStore.sound_start env stored⟩ hready
  exact hsound.consistent

section Samples

def firstDevice : TrustedDevice := { hwid := [7], time := 0, id := "1", name := "a", platform := "Linux" }

def secondDevice : TrustedDevice := { hwid := [8], time := 0, id := "2", name := "b", platform := "Linux" }

def firstJson : String := "[\x7b\"hwid\":[7],\"time\":0,\"id\":\"1\",\"name\":\"a\",\"platform\":\"Linux\"\x7d]"

def secondJson : String := "[\x7b\"hwid\":[8],\"time\":0,\"id\":\"2\",\"name\":\"b\",\"platform\":\"Linux\"\x7d]"

theorem countable_devices : Countable (List TrustedDevice) := by
  have hchar : Countable Char := Function.Injective.countable (f := Char.toNat) fun _ _ => Char.toNat_inj.mp
  have hstring : Countable String := Function.Injective.countable (f := String.toList) fun _ _ => String.toList_inj.mp
  have hbyte : Countable UInt8 := Function.Injective.countable (f := UInt8.toNat) fun _ _ => UInt8.toNat_inj.mp
  have hdevice : Countable TrustedDevice :=
    Function.Injective.countable (f := fun d : TrustedDevice => (d.hwid, d.time, d.id, d.name, d.platform)) fun d d' h => by
      cases d
      cases d'
      simpa using h
  infer_instance

/-- A text in brackets for a number, longer than that of no devices. -/
def bracketText (n : ℕ) : String := String.ofList ('[' :: List.replicate (n + 2) ']')

theorem bracketText_ne (n : ℕ) {text : String} (htext : text.toList[1]? = some '{') : bracketText n ≠ text := by
  rintro rfl
  simp [bracketText, replicate_succ] at htext

theorem length_bracketText (n : ℕ) : (bracketText n).length = n + 3 := by
  rw [← String.length_toList, bracketText, String.toList_ofList, length_cons, length_replicate]

/-- The texts of three lists as they are written, and some other text in brackets for each of the rest. -/
noncomputable def sampleJson : DeviceJson :=
  have := countable_devices
  let number := (exists_injective_nat (List TrustedDevice)).choose
  have hnumber : number.Injective := (exists_injective_nat (List TrustedDevice)).choose_spec
  { toString := fun devices =>
      if devices = [firstDevice] then firstJson
      else if devices = [secondDevice] then secondJson
      else if devices = [] then "[]"
      else bracketText (number devices)
    fromStr := fun text =>
      if text = firstJson then some [firstDevice]
      else if text = secondJson then some [secondDevice]
      else if text = "[]" then some []
      else number.partialInv (text.length - 3)
    fromStr_toString := fun devices => by
      by_cases hfirst : devices = [firstDevice]
      · rw [if_pos hfirst, if_pos rfl, hfirst]
      · rw [if_neg hfirst]
        by_cases hsecond : devices = [secondDevice]
        · rw [if_pos hsecond, if_neg (by decide), if_pos rfl, hsecond]
        · rw [if_neg hsecond]
          by_cases hempty : devices = []
          · rw [if_pos hempty, if_neg (by decide), if_neg (by decide), if_pos rfl, hempty]
          · have hlonger : bracketText (number devices) ≠ "[]" := by
              intro heq
              have hlength := length_bracketText (number devices)
              rw [heq] at hlength
              exact nomatch hlength
            rw [if_neg hempty, if_neg (bracketText_ne _ rfl), if_neg (bracketText_ne _ rfl), if_neg hlonger]
            rw [length_bracketText, Nat.add_sub_cancel]
            exact Function.partialInv_left hnumber devices
    bracket := fun devices => by
      split
      · rfl
      · split
        · rfl
        · split
          · rfl
          · simp [bracketText] }

noncomputable def sampleDeviceEnv : DeviceEnv := { crypto := sampleMachine, json := sampleJson, now := 0 }

/-- A read within an update, and a read within the removal of the device. -/
def addAndRemove : List DeviceStep :=
  [.call (.add firstDevice), .call .get, .advance 0 .zero, .advance 1 .zero, .advance 0 .zero, .advance 1 .zero,
    .advance 0 .zero, .advance 1 .zero, .advance 0 .zero, .call (.remove [[7]]), .call .get, .advance 0 .zero,
    .advance 3 .zero, .advance 2 .zero, .advance 2 .zero, .advance 3 .zero, .advance 2 .zero, .advance 2 .zero]

theorem trusted_devices_consistent_add :
    (runEvents (DeviceStore.step sampleDeviceEnv) (DeviceStore.start sampleDeviceEnv none) addAndRemove).history =
        [.call 0 (.add firstDevice), .call 1 .get, .ret 1 (some []), .call 2 (.remove [[7]]), .call 3 .get, .ret 0 none,
          .ret 3 (some [firstDevice]), .ret 2 none] ∧
      (runEvents (DeviceStore.step sampleDeviceEnv) (DeviceStore.start sampleDeviceEnv none) addAndRemove).Consistent
        sampleDeviceEnv [] := by
  refine ⟨by decide, trusted_devices_consistent sampleDeviceEnv none ?_⟩
  decide

/-- Two connections that add a device each, from the same list. -/
def addTwice : List DeviceStep :=
  [.call (.add firstDevice), .call (.add secondDevice),
    .advance 0 .zero, .advance 0 .zero, .advance 1 .zero, .advance 1 .zero,
    .advance 0 .zero, .advance 0 .zero, .advance 0 .zero, .advance 1 .zero, .advance 1 .zero, .advance 1 .zero]

/-- The first device is lost: every order of the two updates leaves both. -/
theorem addTwice_loses_device :
    ¬ (runEvents (DeviceStore.step sampleDeviceEnv) (DeviceStore.start sampleDeviceEnv none) addTwice).Consistent
      sampleDeviceEnv [] := by
  rintro ⟨order, devices, hlin, -, hquiet⟩
  obtain ⟨hall, hpersisted, -⟩ := hquiet (by decide)
  have hstored : (runEvents (DeviceStore.step sampleDeviceEnv) (DeviceStore.start sampleDeviceEnv none) addTwice).config =
      encryptStrOrOriginal sampleDeviceEnv.crypto .zero (sampleDeviceEnv.json.toString [secondDevice])
        passwordEncVersion trustedDevicesMaxLen := by
    rfl
  have hdevices : devices = [secondDevice] := by
    rw [← hpersisted, hstored]
    exact (holdsDevices_encrypt .zero (by decide)).persisted_eq
  have hhistory : (runEvents (DeviceStore.step sampleDeviceEnv) (DeviceStore.start sampleDeviceEnv none) addTwice).history =
      [.call 0 (.add firstDevice), .call 1 (.add secondDevice), .ret 0 none, .ret 1 none] := by decide
  rw [hhistory] at hlin hall
  have hops : ∀ e ∈ order, e.id = 0 ∧ e.op = .add firstDevice ∨ e.id = 1 ∧ e.op = .add secondDevice := fun e he => by
    simpa using hlin.called e he
  have hids : (order.map Effect.id).Perm [0, 1] := by
    refine (List.perm_ext_iff_of_nodup hlin.once (by decide)).mpr fun i => ?_
    constructor
    · intro hi
      obtain ⟨e, he, rfl⟩ := List.mem_map.mp hi
      rcases hops e he with ⟨hid, -⟩ | ⟨hid, -⟩ <;> simp [hid]
    · intro hi
      obtain ⟨op, hop⟩ : ∃ op, Action.call i op ∈ [Action.call 0 (DeviceOp.add firstDevice), .call 1 (.add secondDevice),
          .ret 0 none, .ret 1 none] := by
        rcases List.mem_pair.mp hi with rfl | rfl
        · exact ⟨_, List.mem_cons_self⟩
        · exact ⟨_, List.mem_cons_of_mem _ List.mem_cons_self⟩
      obtain ⟨e, he, hid⟩ := hall i op hop
      exact List.mem_map.mpr ⟨e, he, hid⟩
  match order, (List.length_map _).symm.trans hids.length_eq with
  | [a, b], _ =>
    obtain ⟨-, -, hlast⟩ := hlin.replays
    have hdistinct : a.id ≠ b.id := by simpa using hlin.once
    rcases hops a (by simp) with ⟨ha, hopa⟩ | ⟨ha, hopa⟩ <;> rcases hops b (by simp) with ⟨hb, hopb⟩ | ⟨hb, hopb⟩
    · exact hdistinct (ha.trans hb.symm)
    · rw [hopa, hopb, hdevices, Replays] at hlast
      exact absurd hlast (by decide)
    · rw [hopa, hopb, hdevices, Replays] at hlast
      exact absurd hlast (by decide)
    · exact hdistinct (ha.trans hb.symm)

end Samples

end UnyDesk
