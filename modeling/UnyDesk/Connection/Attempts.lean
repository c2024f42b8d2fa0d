import UnyDesk.Connection.Loop
import UnyDesk.Lib.Ipv6

/-!
# Attempts against the throttle

Connections from any addresses try to log in, in any order. An attempt is checked, judged and reported
in one step, and the clock does not go back. The log of what happened, newest first, says what every
entry of the failure tables has to be, and from that follows how many failures the thresholds let
through: per address, and for IPv6 per block of 64, 56 and 48 bits.
-/

namespace UnyDesk

open Lib List World Option Nat

variable {a : Attempt} {bits : ℕ} {addr : BitVec 128} {ip : String} {t : Throttle}

section Prefixes

def maskU128 (addr : BitVec 128) (bits : ℕ) : BitVec 128 :=
  let mask := if bits = 0 ∨ 128 < bits then 0 else BitVec.allOnes 128 <<< (128 - bits)
  addr &&& mask

/-- The IPv6 address of a peer, without a zone as in `fe80::1%eth0`. -/
def ipv6Of (ip : String) : Option (BitVec 128) :=
  Ipv6.read (trim (String.ofList (ip.toList.takeWhile (· ≠ '%')))).toList

/-- The key of a block, such as `2001:db8::/64`. -/
def prefixKey (bits : ℕ) (addr : BitVec 128) : String :=
  String.ofList (Ipv6.write (maskU128 addr bits)) ++ "/" ++ toString bits

def getIpv6Prefixes (ip : String) : Option (String × String × String) :=
  (ipv6Of ip).map fun addr => (prefixKey 64 addr, prefixKey 56 addr, prefixKey 48 addr)

/-- The keys under which the failures of an address are counted. -/
def failureKeys (ip : String) : List String :=
  match getIpv6Prefixes ip with
  | some (p64, p56, p48) => [p64, p56, p48, ip]
  | none => [ip]

/-- The address lies in the block of so many bits around another address. -/
def InPrefix (bits : ℕ) (addr : BitVec 128) (ip : String) : Prop :=
  ∃ a, ipv6Of ip = some a ∧ maskU128 a bits = maskU128 addr bits

instance (bits : ℕ) (addr : BitVec 128) (ip : String) : Decidable (InPrefix bits addr ip) :=
  match h : ipv6Of ip with
  | none => .isFalse fun ⟨a, ha, _⟩ => by simp [h] at ha
  | some a =>
    decidable_of_iff (maskU128 a bits = maskU128 addr bits)
      ⟨fun heq => ⟨a, h, heq⟩, fun ⟨b, hb, heq⟩ => by rwa [Option.some.inj (h.symm.trans hb)]⟩

theorem failureKeys_of_ipv6 (h : ipv6Of ip = some addr) :
    failureKeys ip = [prefixKey 64 addr, prefixKey 56 addr, prefixKey 48 addr, ip] := by
  unfold failureKeys getIpv6Prefixes
  rw [h, map_some]

theorem failureKeys_of_ipv4 (h : ipv6Of ip = none) : failureKeys ip = [ip] := by
  unfold failureKeys getIpv6Prefixes
  rw [h, map_none]

theorem mem_failureKeys_self (ip : String) : ip ∈ failureKeys ip := by
  cases h : ipv6Of ip with
  | none => simp [failureKeys_of_ipv4 h]
  | some addr => simp [failureKeys_of_ipv6 h]

theorem slash_mem_prefixKey (bits : ℕ) (addr : BitVec 128) : '/' ∈ (prefixKey bits addr).toList := by
  simp [prefixKey]

/-- An address is counted under another address only when they are the same. -/
theorem eq_of_mem_failureKeys {ip key : String} (hkey : '/' ∉ key.toList) (h : key ∈ failureKeys ip) : key = ip := by
  have hne : ∀ bits addr, key ≠ prefixKey bits addr := fun bits addr heq =>
    hkey (heq ▸ slash_mem_prefixKey bits addr)
  cases haddr : ipv6Of ip with
  | none => simpa [failureKeys_of_ipv4 haddr] using h
  | some addr => simpa [failureKeys_of_ipv6 haddr, hne] using h

/-- Blocks of different sizes have different keys. -/
theorem prefixKey_ne {bits bits' : ℕ} {addr addr' : BitVec 128}
    (hlength : (toString bits).toList.length = (toString bits').toList.length) (h : toString bits ≠ toString bits') :
    prefixKey bits addr ≠ prefixKey bits' addr' := by
  intro heq
  have hlists := congrArg String.toList heq
  simp only [prefixKey, String.toList_append] at hlists
  exact h (String.toList_inj.mp (append_inj_right' hlists hlength))

/-- The keys of an address differ, so a failure is counted once under each. -/
theorem nodup_failureKeys (hip : '/' ∉ ip.toList) : (failureKeys ip).Nodup := by
  have hne : ∀ bits addr, prefixKey bits addr ≠ ip := fun bits addr heq =>
    hip (heq ▸ slash_mem_prefixKey bits addr)
  cases haddr : ipv6Of ip with
  | none => simp [failureKeys_of_ipv4 haddr]
  | some addr =>
    have h1 : prefixKey 64 addr ≠ prefixKey 56 addr := prefixKey_ne (by decide) (by decide)
    have h2 : prefixKey 64 addr ≠ prefixKey 48 addr := prefixKey_ne (by decide) (by decide)
    have h3 : prefixKey 56 addr ≠ prefixKey 48 addr := prefixKey_ne (by decide) (by decide)
    simp [failureKeys_of_ipv6 haddr, h1, h2, h3, hne]

section PrefixKeys

variable {bits : ℕ} (hbits : bits ∈ [64, 56, 48]) {addr : BitVec 128} {ip : String} (hip : '/' ∉ ip.toList)
include hbits hip

theorem prefixKey_mem_failureKeys :
    prefixKey bits addr ∈ failureKeys ip ↔ ∃ a, ipv6Of ip = some a ∧ prefixKey bits addr = prefixKey bits a := by
  have hne : prefixKey bits addr ≠ ip := fun heq => hip (heq ▸ slash_mem_prefixKey bits addr)
  have hbits : bits = 64 ∨ bits = 56 ∨ bits = 48 := by simpa using hbits
  cases haddr : ipv6Of ip with
  | none => simp [failureKeys_of_ipv4 haddr, hne]
  | some a =>
    have hmem : prefixKey bits addr ∈ failureKeys ip ↔ prefixKey bits addr = prefixKey bits a := by
      rw [failureKeys_of_ipv6 haddr]
      simp only [mem_cons, not_mem_nil, or_false, hne]
      obtain rfl | rfl | rfl := hbits
      · have h56 : prefixKey 64 addr ≠ prefixKey 56 a := prefixKey_ne (by decide) (by decide)
        have h48 : prefixKey 64 addr ≠ prefixKey 48 a := prefixKey_ne (by decide) (by decide)
        simp only [h56, h48, or_false]
      · have h64 : prefixKey 56 addr ≠ prefixKey 64 a := prefixKey_ne (by decide) (by decide)
        have h48 : prefixKey 56 addr ≠ prefixKey 48 a := prefixKey_ne (by decide) (by decide)
        simp only [h64, h48, or_false, false_or]
      · have h64 : prefixKey 48 addr ≠ prefixKey 64 a := prefixKey_ne (by decide) (by decide)
        have h56 : prefixKey 48 addr ≠ prefixKey 56 a := prefixKey_ne (by decide) (by decide)
        simp only [h64, h56, false_or]
    rw [hmem]
    constructor
    · exact fun h => ⟨a, rfl, h⟩
    · rintro ⟨b, hb, h⟩
      rwa [some.inj hb]

/-- The failures of an address count for every block that it lies in. -/
theorem InPrefix.prefixKey_mem (h : InPrefix bits addr ip) : prefixKey bits addr ∈ failureKeys ip := by
  obtain ⟨a, ha, heq⟩ := h
  refine (prefixKey_mem_failureKeys hbits hip).mpr ⟨a, ha, ?_⟩
  simp only [prefixKey, heq]

end PrefixKeys

end Prefixes

section Tables

variable {table : List (String × FailureEntry)} {key : String}

theorem lookupFailure_cons (k : String) (entry : FailureEntry) :
    lookupFailure ((k, entry) :: table) key = if key = k then entry else lookupFailure table key := by
  by_cases h : key = k
  · simp [lookupFailure, h]
  · have hbeq : (key == k) = false := by simpa using h
    simp [lookupFailure, lookup_cons, hbeq, h]

theorem lookupFailure_removeFailure (k : String) :
    lookupFailure (removeFailure table k) key = if key = k then {} else lookupFailure table key := by
  induction table with
  | nil => simp [removeFailure, lookupFailure]
  | cons entry table ih =>
    obtain ⟨k', entry⟩ := entry
    by_cases hk : k' = k
    · have hdrop : removeFailure ((k', entry) :: table) k = removeFailure table k := by simp [removeFailure, hk]
      rw [hdrop, ih, lookupFailure_cons, hk]
      split <;> rfl
    · have hkeep : removeFailure ((k', entry) :: table) k = (k', entry) :: removeFailure table k := by
        simp [removeFailure, hk]
      rw [hkeep, lookupFailure_cons, lookupFailure_cons, ih]
      by_cases hkey : key = k'
      · subst hkey
        simp [hk]
      · simp [hkey]

theorem lookupFailure_bumpFailure (time : Int) (k : String) : lookupFailure (bumpFailure time table k) key =
      if key = k then bumpFailureEntry (lookupFailure table key) time else lookupFailure table key := by
  rw [bumpFailure, lookupFailure_cons, lookupFailure_removeFailure]
  by_cases h : key = k
  · rw [if_pos h, if_pos h, h]
  · rw [if_neg h, if_neg h, if_neg h]

theorem lookupFailure_remove_all (ks : List String) :
    lookupFailure (ks.foldl removeFailure table) key = if key ∈ ks then {} else lookupFailure table key := by
  induction ks generalizing table with
  | nil => simp
  | cons k ks ih =>
    rw [foldl_cons, ih, lookupFailure_removeFailure]
    by_cases hk : key = k
    · simp [hk]
    · simp [hk]

theorem lookupFailure_bump_all (time : Int) {ks : List String} (hks : ks.Nodup) :
    lookupFailure (ks.foldl (bumpFailure time) table) key =
      if key ∈ ks then bumpFailureEntry (lookupFailure table key) time else lookupFailure table key := by
  induction ks generalizing table with
  | nil => simp
  | cons k ks ih =>
    rw [foldl_cons, ih (nodup_cons.mp hks).2, lookupFailure_bumpFailure]
    by_cases hk : key = k
    · subst hk
      simp [(nodup_cons.mp hks).1]
    · simp [hk]

end Tables

/-- The text of the address of a socket. -/
@[ext] structure PeerIp where
  text : String
  no_slash : '/' ∉ text.toList
deriving DecidableEq

/-- An attempt of some connection and whether its validation accepts. -/
structure Attempt where
  env : Env
  ip : PeerIp
  env_ip : env.ip = ip.text
  env_prefixes : env.ipv6Prefixes = getIpv6Prefixes ip.text
  /-- `0` for passwords, `1` for second factors. -/
  factor : Fin 2
  now : Int
  success : Bool

def Attempt.minute (a : Attempt) : Int := a.now / 60000

inductive AttemptOutcome
  | blocked
  | failed
  /-- A success removes the entries when the address had failures. -/
  | succeeded (removed : Bool)
deriving DecidableEq

structure AttemptRecord where
  ip : PeerIp
  factor : Fin 2
  minute : Int
  outcome : AttemptOutcome

open AttemptRecord

/-- The failure tables and what happened to them, newest first. -/
structure Throttle where
  world : World
  log : List AttemptRecord := []

open Throttle

def World.atTime (w : World) (now : Int) : World := { w with now }

@[simp] theorem World.atTime_now (w : World) (now : Int) : (w.atTime now).now = now := rfl

@[simp] theorem World.atTime_failures (w : World) (now : Int) (i : ℕ) : (w.atTime now).failures i = w.failures i := rfl

section

variable (t : Throttle)

def Throttle.step (a : Attempt) : Throttle :=
  let w := t.world.atTime a.now
  let check := checkFailure a.env w a.factor
  match check.blocked with
  | some _ => { world := w, log := ⟨a.ip, a.factor, check.time, .blocked⟩ :: t.log }
  | none =>
    { world := updateFailure a.env check a.success a.factor w
      log := ⟨a.ip, a.factor, check.time, if a.success then .succeeded (check.failure.minute ≠ 0) else .failed⟩ ::
        t.log }

def Throttle.run (attempts : List Attempt) : Throttle := runEvents step t attempts

/-- The entry of a key in `LOGIN_FAILURES[i]`. -/
def Throttle.entry (i : Fin 2) (key : String) : FailureEntry :=
  lookupFailure (t.world.failures i) key

/-- The clock has reached the minute of the last attempt. -/
def Throttle.ClockForward (a : Attempt) : Prop := t.world.now / 60000 ≤ a.minute

end

instance (t : Throttle) (a : Attempt) : Decidable (t.ClockForward a) :=
  inferInstanceAs (Decidable (t.world.now / 60000 ≤ a.minute))

/-- The bits of a block and the failures it may have. -/
def prefixLimits : List (ℕ × Int) := [(64, 61), (56, 81), (48, 101)]

section Step

variable {w : World} {i : ℕ} {check : FailureCheck} {block : String}

theorem World.failures_setFailures (w : World) (i j : Fin 2) (table : List (String × FailureEntry)) :
    (w.setFailures i table).failures j = if j = i then table else w.failures j :=
  match i, j with
  | 0, 0 => rfl
  | 0, 1 => rfl
  | 1, 0 => rfl
  | 1, 1 => rfl

theorem checkFailureIpv6Prefix_eq_none {time thresh : Int} :
    checkFailureIpv6Prefix w i time block bits thresh = none ↔ (lookupFailure (w.failures i) block).total ≤ thresh := by
  unfold checkFailureIpv6Prefix
  extract_lets failure
  split
  next h => simpa using h
  next h => simpa using h

theorem checkFailureIpv6Prefix_eq_some {time thresh : Int}
    (h : checkFailureIpv6Prefix w i time block bits thresh = some check) :
    check.time = time ∧ check.blocked ≠ none := by
  unfold checkFailureIpv6Prefix at h
  extract_lets failure at h
  split at h
  next =>
    obtain rfl := some.inj h
    exact ⟨rfl, nofun⟩
  next => exact nomatch h

/-- What a check found in the blocks of the address, if one of them is full. -/
def fullBlock (env : Env) (w : World) (i : ℕ) : Option FailureCheck :=
  env.ipv6Prefixes.bind fun (p64, p56, p48) =>
    ((checkFailureIpv6Prefix w i (w.now / 60000) p64 64 60).or
      (checkFailureIpv6Prefix w i (w.now / 60000) p56 56 80)).or (checkFailureIpv6Prefix w i (w.now / 60000) p48 48 100)

theorem fullBlock_eq_some {env : Env} (h : fullBlock env w i = some check) :
    check.time = w.now / 60000 ∧ check.blocked ≠ none := by
  obtain ⟨⟨p64, p56, p48⟩, -, h⟩ := bind_eq_some_iff.mp h
  obtain (h | ⟨-, h⟩) | ⟨-, h⟩ : (_ ∨ _) ∨ _ := by
    simpa only [or_eq_some_iff, or_eq_none_iff] using h
  · exact checkFailureIpv6Prefix_eq_some h
  · exact checkFailureIpv6Prefix_eq_some h
  · exact checkFailureIpv6Prefix_eq_some h

theorem fullBlock_eq_none {env : Env} (hip : env.ipv6Prefixes = getIpv6Prefixes ip)
    (h : fullBlock env w i = none) {limit : Int} (hlimit : (bits, limit) ∈ prefixLimits)
    (haddr : ipv6Of ip = some addr) :
    (lookupFailure (w.failures i) (prefixKey bits addr)).total < limit := by
  have hprefixes : env.ipv6Prefixes = some (prefixKey 64 addr, prefixKey 56 addr, prefixKey 48 addr) := by
    rw [hip, getIpv6Prefixes, haddr, map_some]
  unfold fullBlock at h
  rw [hprefixes, bind_some] at h
  simp only [or_eq_none_iff, checkFailureIpv6Prefix_eq_none] at h
  obtain ⟨⟨h64, h56⟩, h48⟩ := h
  simp only [prefixLimits, mem_cons, Prod.mk.injEq, not_mem_nil, or_false] at hlimit
  obtain ⟨rfl, rfl⟩ | ⟨rfl, rfl⟩ | ⟨rfl, rfl⟩ := hlimit
  · omega
  · omega
  · omega

theorem checkFailure_eq (env : Env) (w : World) (i : ℕ) : checkFailure env w i = (fullBlock env w i).getD
        ⟨lookupFailure (w.failures i) env.ip, w.now / 60000, if (lookupFailure (w.failures i) env.ip).total > 30 then
            some ("Too many wrong attempts", .exceedThirtyAttempts)
          else if w.now / 60000 = (lookupFailure (w.failures i) env.ip).minute &&
              (lookupFailure (w.failures i) env.ip).inMinute > 6 then
            some ("Please try 1 minute later", .sixAttemptsWithinOneMinute)
          else none⟩ := rfl

theorem checkFailure_time (env : Env) (w : World) (i : ℕ) : (checkFailure env w i).time = w.now / 60000 := by
  rw [checkFailure_eq]
  cases h : fullBlock env w i with
  | none => rfl
  | some check => exact (fullBlock_eq_some h).1

/-- The failures that a check lets an address and its blocks have before one more attempt. -/
structure Throttle.Admits (t : Throttle) (a : Attempt) : Prop where
  total : (t.entry a.factor a.ip.text).total ≤ 30
  inMinute : (t.entry a.factor a.ip.text).minute = a.minute → (t.entry a.factor a.ip.text).inMinute ≤ 6
  blocks : ∀ bits limit addr, (bits, limit) ∈ prefixLimits → ipv6Of a.ip.text = some addr →
    (t.entry a.factor (prefixKey bits addr)).total < limit

theorem Throttle.admits_of_not_blocked
    (h : (checkFailure a.env (t.world.atTime a.now) a.factor).blocked = none) : t.Admits a := by
  rw [checkFailure_eq] at h
  cases hblock : fullBlock a.env (t.world.atTime a.now) a.factor with
  | some check =>
    rw [hblock] at h
    exact absurd h (fullBlock_eq_some hblock).2
  | none =>
    have hentry : lookupFailure (t.world.failures a.factor) a.ip.text = t.entry a.factor a.ip.text := rfl
    rw [hblock, getD_none, a.env_ip, atTime_failures, hentry] at h
    refine ⟨?_, fun hminute => ?_, fun bits limit addr hlimit haddr => ?_⟩
    · by_contra htotal
      simp [show (t.entry a.factor a.ip.text).total > 30 by omega] at h
    · by_contra hin
      have hfull : (t.entry a.factor a.ip.text).inMinute > 6 := by omega
      simp only [atTime_now, hminute, Attempt.minute, hfull, decide_true, Bool.and_true, if_true] at h
      split at h
      · exact nomatch h
      · exact nomatch h
    · exact fullBlock_eq_none a.env_prefixes hblock hlimit haddr

section

variable (a : Attempt)

section

variable (check : FailureCheck)

/-- An attempt reports under its keys. -/
theorem updateFailure_eq (remove : Bool) (w : World) : updateFailure a.env check remove a.factor w = if remove then
        if check.failure.minute ≠ 0 then
          w.setFailures a.factor ((failureKeys a.ip.text).foldl removeFailure (w.failures a.factor))
        else w
      else w.setFailures a.factor ((failureKeys a.ip.text).foldl (bumpFailure check.time) (w.failures a.factor)) := by
  unfold updateFailure updateFailureWithScope failureKeys
  rewrite [a.env_prefixes, a.env_ip]
  generalize getIpv6Prefixes a.ip.text = prefixes
  cases prefixes <;> rfl

theorem updateFailure_fails (w : World) (i : Fin 2) (key : String) :
    lookupFailure ((updateFailure a.env check false a.factor w).failures i) key =
      if i = a.factor ∧ key ∈ failureKeys a.ip.text then
        bumpFailureEntry (lookupFailure (w.failures i) key) check.time
      else lookupFailure (w.failures i) key := by
  rw [updateFailure_eq, if_neg Bool.false_ne_true, failures_setFailures]
  by_cases hi : i = a.factor
  · rw [if_pos hi, lookupFailure_bump_all _ (nodup_failureKeys a.ip.no_slash), hi]
    simp
  · rw [if_neg hi, if_neg fun h => hi h.1]

theorem updateFailure_succeeds (w : World) (i : Fin 2) (key : String) :
    lookupFailure ((updateFailure a.env check true a.factor w).failures i) key =
      if check.failure.minute ≠ 0 ∧ i = a.factor ∧ key ∈ failureKeys a.ip.text then {}
      else lookupFailure (w.failures i) key := by
  rw [updateFailure_eq, if_pos rfl]
  by_cases hminute : check.failure.minute ≠ 0
  · rw [if_pos hminute, failures_setFailures]
    by_cases hi : i = a.factor
    · rw [if_pos hi, lookupFailure_remove_all, hi]
      simp [hminute]
    · rw [if_neg hi, if_neg fun h => hi h.2.1]
  · rw [if_neg hminute, if_neg fun h => hminute h.1]

theorem updateFailure_now (remove : Bool) (w : World) : (updateFailure a.env check remove a.factor w).now = w.now := by
  have hset : ∀ table, (w.setFailures a.factor table).now = w.now := fun table => by
    unfold setFailures
    split <;> rfl
  rw [updateFailure_eq]
  split
  · split
    · exact hset _
    · rfl
  · exact hset _

end

end

/-- What one attempt does to the log and to the entries. -/
inductive Throttle.Attempted (t : Throttle) (a : Attempt) (t' : Throttle) : Prop
  | blocked (log : t'.log = ⟨a.ip, a.factor, a.minute, .blocked⟩ :: t.log)
      (entry : ∀ i key, t'.entry i key = t.entry i key)
  | failed (admits : t.Admits a) (log : t'.log = ⟨a.ip, a.factor, a.minute, .failed⟩ :: t.log)
      (entry : ∀ i key, t'.entry i key =
        if i = a.factor ∧ key ∈ failureKeys a.ip.text then bumpFailureEntry (t.entry i key) a.minute
        else t.entry i key)
  | succeeded (removed : Bool) (log : t'.log = ⟨a.ip, a.factor, a.minute, .succeeded removed⟩ :: t.log)
      (entry : ∀ i key, t'.entry i key =
        if removed ∧ i = a.factor ∧ key ∈ failureKeys a.ip.text then {} else t.entry i key)

theorem Throttle.step_attempted (t : Throttle) (a : Attempt) : t.Attempted a (t.step a) := by
  have htime : (checkFailure a.env (t.world.atTime a.now) a.factor).time = a.minute := checkFailure_time _ _ _
  cases hblocked : (checkFailure a.env (t.world.atTime a.now) a.factor).blocked with
  | some reason =>
    have hstep : t.step a =
        { world := t.world.atTime a.now, log := ⟨a.ip, a.factor, a.minute, .blocked⟩ :: t.log } := by
      simp only [step, hblocked, htime]
    rw [hstep]
    exact .blocked rfl fun i key => rfl
  | none =>
    cases hsuccess : a.success with
    | false =>
      refine .failed (admits_of_not_blocked hblocked) ?_ fun i key => ?_
      · simp [step, hblocked, htime, hsuccess]
      · simp only [entry, step, hblocked, hsuccess]
        rw [updateFailure_fails, htime, atTime_failures]
    | true =>
      refine .succeeded ((checkFailure a.env (t.world.atTime a.now) a.factor).failure.minute ≠ 0) ?_ fun i key => ?_
      · simp [step, hblocked, htime, hsuccess]
      · simp only [entry, step, hblocked, hsuccess]
        rw [updateFailure_succeeds, atTime_failures]
        simp only [decide_eq_true_eq]

@[simp] theorem Throttle.step_now (t : Throttle) (a : Attempt) : (t.step a).world.now = a.now := by
  unfold step
  extract_lets w check
  split
  · rfl
  · rw [updateFailure_now]
    rfl

end Step

section Accounting

variable {i : Fin 2} {key : String} {r : AttemptRecord} {log : List AttemptRecord}

def AttemptRecord.failsFor (i : Fin 2) (key : String) (r : AttemptRecord) : Bool :=
  r.factor = i ∧ r.outcome = .failed ∧ key ∈ failureKeys r.ip.text

def AttemptRecord.removes (i : Fin 2) (key : String) (r : AttemptRecord) : Bool :=
  r.factor = i ∧ r.outcome = .succeeded true ∧ key ∈ failureKeys r.ip.text

/-- The failures of a key since its entry was last removed. -/
def recordedFailures (i : Fin 2) (key : String) (log : List AttemptRecord) : List AttemptRecord :=
  (sinceLast (·.removes i key) log).filter (·.failsFor i key)

/-- How many of the failures are of a minute. -/
def failuresInMinute (minute : Int) (failures : List AttemptRecord) : ℕ := failures.countP (·.minute = minute)

theorem recordedFailures_of_removes (h : r.removes i key = true) : recordedFailures i key (r :: log) = [] := by
  simp [recordedFailures, h]

theorem recordedFailures_of_fails (h : r.failsFor i key = true) :
    recordedFailures i key (r :: log) = r :: recordedFailures i key log := by
  have hremoves : r.removes i key = false := by
    obtain ⟨-, hfailed, -⟩ : r.factor = i ∧ r.outcome = .failed ∧ key ∈ failureKeys r.ip.text := by
      simpa [failsFor] using h
    simp [removes, hfailed]
  simp [recordedFailures, hremoves, h]

theorem recordedFailures_of_neither (hremoves : r.removes i key = false) (hfails : r.failsFor i key = false) :
    recordedFailures i key (r :: log) = recordedFailures i key log := by
  simp [recordedFailures, hremoves, hfails]

/-- What one attempt does to the entry and to the failures of one key. -/
inductive Throttle.Counted (t : Throttle) (a : Attempt) (i : Fin 2) (key : String) (t' : Throttle) : Prop
  | unchanged (entry : t'.entry i key = t.entry i key)
      (recorded : recordedFailures i key t'.log = recordedFailures i key t.log)
  | bumped (admits : t.Admits a) (factor : i = a.factor) (counted : key ∈ failureKeys a.ip.text)
      (entry : t'.entry i key = bumpFailureEntry (t.entry i key) a.minute)
      (recorded : recordedFailures i key t'.log = ⟨a.ip, a.factor, a.minute, .failed⟩ :: recordedFailures i key t.log)
  | removed (entry : t'.entry i key = {}) (recorded : recordedFailures i key t'.log = [])

theorem Throttle.step_counted (t : Throttle) (a : Attempt) (i : Fin 2) (key : String) :
    t.Counted a i key (t.step a) := by
  cases t.step_attempted a with
  | blocked hlog hentry =>
    refine .unchanged (hentry i key) ?_
    rw [hlog, recordedFailures_of_neither (by simp [removes]) (by simp [failsFor])]
  | failed hadmits hlog hentry =>
    by_cases hcounted : i = a.factor ∧ key ∈ failureKeys a.ip.text
    · refine .bumped hadmits hcounted.1 hcounted.2 (by rw [hentry, if_pos hcounted]) ?_
      rw [hlog, recordedFailures_of_fails (by simp [failsFor, hcounted])]
    · refine .unchanged (by rw [hentry, if_neg hcounted]) ?_
      have hfails : failsFor i key ⟨a.ip, a.factor, a.minute, .failed⟩ = false := by
        simp only [failsFor, true_and, decide_eq_false_iff_not]
        exact fun h => hcounted ⟨h.1.symm, h.2⟩
      rw [hlog, recordedFailures_of_neither (by simp [removes]) hfails]
  | succeeded removed hlog hentry =>
    by_cases hremoved : removed = true ∧ i = a.factor ∧ key ∈ failureKeys a.ip.text
    · refine .removed (by rw [hentry, if_pos hremoved]) ?_
      rw [hlog, recordedFailures_of_removes (by simp [removes, hremoved])]
    · refine .unchanged (by rw [hentry, if_neg hremoved]) ?_
      have hremoves : removes i key ⟨a.ip, a.factor, a.minute, .succeeded removed⟩ = false := by
        simp only [removes, AttemptOutcome.succeeded.injEq, decide_eq_false_iff_not]
        exact fun h => hremoved ⟨h.2.1, h.1.symm, h.2.2⟩
      rw [hlog, recordedFailures_of_neither hremoves (by simp [failsFor])]

/-- The entry of a key is what the log says, and no failure of it is later than its minute. -/
structure Throttle.Accounted (t : Throttle) (i : Fin 2) (key : String) : Prop where
  total : (t.entry i key).total = (recordedFailures i key t.log).length
  inMinute : (t.entry i key).inMinute = failuresInMinute (t.entry i key).minute (recordedFailures i key t.log)
  reached : ∀ r ∈ recordedFailures i key t.log,
    r.minute ≤ (t.entry i key).minute ∧ (t.entry i key).minute ≤ t.world.now / 60000

/-- No failure lies in a minute that all of them precede. -/
theorem failuresInMinute_eq_zero {minute : Int} {failures : List AttemptRecord}
    (h : ∀ r ∈ failures, r.minute ≠ minute) : failuresInMinute minute failures = 0 := by
  simpa [failuresInMinute, countP_eq_zero] using h

theorem failuresInMinute_cons (minute : Int) (r : AttemptRecord) (failures : List AttemptRecord) :
    failuresInMinute minute (r :: failures) = failuresInMinute minute failures + if r.minute = minute then 1 else 0 := by
  simp [failuresInMinute, countP_cons]

/-- No failure of a key lies in a minute that its entry has not reached. -/
theorem Throttle.Accounted.none_in_new_minute (h : t.Accounted i key)
    (hclock : t.ClockForward a) (hnew : (t.entry i key).minute ≠ a.minute) :
    failuresInMinute a.minute (recordedFailures i key t.log) = 0 := by
  have hforward : t.world.now / 60000 ≤ a.minute := hclock
  refine failuresInMinute_eq_zero fun r hr heq => ?_
  have hreached := h.reached r hr
  omega

theorem Throttle.Accounted.step (h : t.Accounted i key) (hclock : t.ClockForward a) : (t.step a).Accounted i key := by
  have hnow : (t.step a).world.now / 60000 = a.minute := by rw [step_now, Attempt.minute]
  have hforward : t.world.now / 60000 ≤ a.minute := hclock
  cases t.step_counted a i key with
  | unchanged hentry hrecorded =>
    refine ⟨by rw [hentry, hrecorded, h.total], by rw [hentry, hrecorded, h.inMinute], fun r hr => ?_⟩
    rw [hrecorded] at hr
    rw [hentry, hnow]
    exact ⟨(h.reached r hr).1, (h.reached r hr).2.trans hforward⟩
  | removed hentry hrecorded =>
    refine ⟨by rw [hentry, hrecorded]; rfl, by rw [hentry, hrecorded]; rfl, fun r hr => ?_⟩
    rw [hrecorded] at hr
    exact absurd hr not_mem_nil
  | bumped hadmits hfactor hcounted hentry hrecorded =>
    have hminute : (bumpFailureEntry (t.entry i key) a.minute).minute = a.minute := by
      unfold bumpFailureEntry
      split
      next hsame => exact hsame
      next => rfl
    refine ⟨?_, ?_, fun r hr => ?_⟩
    · have htotal : (bumpFailureEntry (t.entry i key) a.minute).total = (t.entry i key).total + 1 := by
        unfold bumpFailureEntry
        split <;> rfl
      rw [hentry, hrecorded, htotal, h.total, length_cons, cast_add, cast_one]
    · rw [hentry, hrecorded, hminute, failuresInMinute_cons, if_pos rfl]
      by_cases hsame : (t.entry i key).minute = a.minute
      · have hin : (bumpFailureEntry (t.entry i key) a.minute).inMinute = (t.entry i key).inMinute + 1 := by
          rw [bumpFailureEntry, if_pos hsame]
        rw [hin, h.inMinute, hsame, cast_add, cast_one]
      · have hin : (bumpFailureEntry (t.entry i key) a.minute).inMinute = 1 := by rw [bumpFailureEntry, if_neg hsame]
        rw [hin, h.none_in_new_minute hclock hsame, zero_add, cast_one]
    · rw [hentry, hminute, hnow]
      rw [hrecorded] at hr
      obtain rfl | hr := mem_cons.mp hr
      · exact ⟨le_refl _, le_refl _⟩
      · exact ⟨((h.reached r hr).1.trans (h.reached r hr).2).trans hforward, le_refl _⟩

end Accounting

section Limits

variable {P : List AttemptRecord → Prop} {i : Fin 2} {key : String} {t : Throttle}

theorem Throttle.step_log (t : Throttle) (a : Attempt) : ∃ r, (t.step a).log = r :: t.log := by
  cases t.step_attempted a with
  | blocked hlog => exact ⟨_, hlog⟩
  | failed _ hlog => exact ⟨_, hlog⟩
  | succeeded _ hlog => exact ⟨_, hlog⟩

/-- The failures of a key had the property whenever the log was looked at. -/
def Throttle.Always (t : Throttle) (P : List AttemptRecord → Prop) (i : Fin 2) (key : String) : Prop :=
  ∀ earlier, earlier <:+ t.log → P (recordedFailures i key earlier)

theorem Throttle.Always.step (h : t.Always P i key) (hnil : P [])
    (hfail : t.Admits a → i = a.factor → key ∈ failureKeys a.ip.text →
      P (⟨a.ip, a.factor, a.minute, .failed⟩ :: recordedFailures i key t.log)) : (t.step a).Always P i key := by
  intro earlier hearlier
  obtain ⟨r, hlog⟩ := t.step_log a
  rw [hlog] at hearlier
  obtain rfl | hearlier := suffix_cons_iff.mp hearlier
  · rw [← hlog]
    cases t.step_counted a i key with
    | unchanged _ hrecorded =>
      rw [hrecorded]
      exact h t.log (suffix_refl _)
    | bumped hadmits hfactor hcounted _ hrecorded =>
      rw [hrecorded]
      exact hfail hadmits hfactor hcounted
    | removed _ hrecorded =>
      rw [hrecorded]
      exact hnil
  · exact h earlier hearlier

/-- What the thresholds of an address leave. -/
def AddressLimit (failures : List AttemptRecord) : Prop :=
  failures.length ≤ 31 ∧ ∀ minute, failuresInMinute minute failures ≤ 7

def BlockLimit (limit : Int) (failures : List AttemptRecord) : Prop := (failures.length : Int) ≤ limit

theorem blockLimit_nil {limit : Int} (hlimit : (bits, limit) ∈ prefixLimits) : BlockLimit limit [] := by
  have hpos : ∀ entry ∈ prefixLimits, (0 : Int) ≤ entry.2 := by decide
  exact hpos _ hlimit

namespace Throttle

theorem Always.address_step {ip : PeerIp} (h : t.Always AddressLimit i ip.text)
    (haccounted : t.Accounted i ip.text) (hclock : t.ClockForward a) :
    (t.step a).Always AddressLimit i ip.text := by
  refine h.step ⟨zero_le _, fun minute => zero_le _⟩ fun hadmits hfactor hcounted => ?_
  have hip : ip.text = a.ip.text := eq_of_mem_failureKeys ip.no_slash hcounted
  have hbefore := h t.log (suffix_refl _)
  have htotal := hadmits.total
  rw [← hfactor, ← hip, haccounted.total] at htotal
  refine ⟨by rw [length_cons]; omega, fun minute => ?_⟩
  rw [failuresInMinute_cons]
  by_cases hminute : a.minute = minute
  · rw [if_pos hminute, ← hminute]
    by_cases hsame : (t.entry i ip.text).minute = a.minute
    · have hin := hadmits.inMinute
      rw [← hfactor, ← hip, haccounted.inMinute] at hin
      have hsix := hin hsame
      rw [hsame] at hsix
      omega
    · rw [haccounted.none_in_new_minute hclock hsame]
      decide
  · rw [if_neg hminute]
    exact hbefore.2 minute

theorem Always.block_step {limit : Int} (hlimit : (bits, limit) ∈ prefixLimits)
    (h : t.Always (BlockLimit limit) i (prefixKey bits addr)) (haccounted : t.Accounted i (prefixKey bits addr))
    (a : Attempt) : (t.step a).Always (BlockLimit limit) i (prefixKey bits addr) := by
  have hbits : bits ∈ [64, 56, 48] := mem_map_of_mem (f := Prod.fst) hlimit
  refine h.step (blockLimit_nil hlimit) fun hadmits hfactor hcounted => ?_
  obtain ⟨a', ha', hkey⟩ := (prefixKey_mem_failureKeys hbits a.ip.no_slash).mp hcounted
  have htotal := hadmits.blocks bits limit a' hlimit ha'
  rw [← hfactor, ← hkey, haccounted.total] at htotal
  rw [BlockLimit, length_cons, cast_add, cast_one]
  omega

/-- What every run with a clock that does not go back keeps. -/
structure Limited (t : Throttle) : Prop where
  accounted : ∀ i key, t.Accounted i key
  address : ∀ i (ip : PeerIp), t.Always AddressLimit i ip.text
  block : ∀ i bits limit addr, (bits, limit) ∈ prefixLimits → t.Always (BlockLimit limit) i (prefixKey bits addr)

theorem Limited.step (h : t.Limited) (hclock : t.ClockForward a) : (t.step a).Limited where
  accounted i key := (h.accounted i key).step hclock
  address i ip := (h.address i ip).address_step (h.accounted i ip.text) hclock
  block i bits limit addr hlimit :=
    (h.block i bits limit addr hlimit).block_step hlimit (h.accounted i (prefixKey bits addr)) a

/-- The tables are empty when the process starts. -/
def start (w : World) : Throttle := { world := { w with loginFailures := [], twoFactorFailures := [] } }

theorem limited_start (w : World) : (start w).Limited := by
  have hentry : ∀ i key, (start w).entry i key = {} := fun i key => by
    unfold entry failures
    split <;> rfl
  have hnil : ∀ i key earlier, earlier <:+ (start w).log → recordedFailures i key earlier = [] :=
    fun i key earlier hearlier => by rw [suffix_nil.mp hearlier]; rfl
  refine ⟨fun i key => ?_, fun i ip earlier hearlier => ?_, fun i bits limit addr hlimit earlier hearlier => ?_⟩
  · refine ⟨by rw [hentry]; rfl, by rw [hentry]; rfl, fun r hr => ?_⟩
    exact absurd hr not_mem_nil
  · rw [hnil i _ earlier hearlier]
    exact ⟨zero_le _, fun minute => zero_le _⟩
  · rw [hnil i _ earlier hearlier]
    exact blockLimit_nil hlimit

theorem limited_run (w : World) {attempts : List Attempt}
    (hclock : RunMeets step ClockForward (start w) attempts) : ((start w).run attempts).Limited :=
  runEvents_invariant (fun _ _ h hclock => h.step hclock) (limited_start w) hclock

end Throttle

/-- The failures in a stretch of the log without a removal were all recorded at its end. -/
theorem window_sublist {window : List AttemptRecord} (hkept : ∀ r ∈ window, r.removes i key = false)
    (earlier : List AttemptRecord) :
    (window.filter (·.failsFor i key)).Sublist (recordedFailures i key (window ++ earlier)) := by
  unfold recordedFailures sinceLast
  rw [takeWhile_append_of_pos (by simpa using hkept), filter_append]
  exact sublist_append_left _ _

end Limits

section Windows

variable {r : AttemptRecord} {i : Fin 2}

namespace AttemptRecord

/-- A failed attempt of the address. -/
def fails (i : Fin 2) (ip : PeerIp) (r : AttemptRecord) : Bool :=
  r.factor = i ∧ r.ip = ip ∧ r.outcome = .failed

/-- A success of the address, whether or not there was an entry to remove. -/
def succeeds (i : Fin 2) (ip : PeerIp) (r : AttemptRecord) : Bool :=
  r.factor = i ∧ r.ip = ip ∧ (r.outcome = .succeeded true ∨ r.outcome = .succeeded false)

/-- A failed attempt from the block of so many bits around an address. -/
def failsIn (i : Fin 2) (bits : ℕ) (addr : BitVec 128) (r : AttemptRecord) : Bool :=
  r.factor = i ∧ r.outcome = .failed ∧ InPrefix bits addr r.ip.text

theorem failsFor_of_fails {ip : PeerIp} (h : r.fails i ip = true) : r.failsFor i ip.text = true := by
  obtain ⟨hfactor, hip, hfailed⟩ := of_decide_eq_true h
  refine decide_eq_true ⟨hfactor, hfailed, ?_⟩
  rw [hip]
  exact mem_failureKeys_self ip.text

theorem failsFor_of_failsIn (hbits : bits ∈ [64, 56, 48])
    (h : r.failsIn i bits addr = true) : r.failsFor i (prefixKey bits addr) = true := by
  obtain ⟨hfactor, hfailed, hprefix⟩ := of_decide_eq_true h
  exact decide_eq_true ⟨hfactor, hfailed, hprefix.prefixKey_mem hbits r.ip.no_slash⟩

/-- The entry of an address is removed by its own successes only. -/
theorem removes_of_not_succeeds {ip : PeerIp} (h : r.succeeds i ip = false) : r.removes i ip.text = false := by
  refine decide_eq_false fun ⟨hfactor, hremoved, hkey⟩ => of_decide_eq_false h ⟨hfactor, ?_, .inl hremoved⟩
  exact PeerIp.ext (eq_of_mem_failureKeys ip.no_slash hkey).symm

end AttemptRecord

end Windows

/-- Every entry counts the failures of its key since it was last removed, in all and in its minute. Between
two successes an address has at most 7 failures within a minute and 31 in all, and a block has at most
61, 81 or 101 between two removals of its entry. -/
theorem login_throttle_limits (w : World) (attempts : List Attempt)
    (hclock : RunMeets step Throttle.ClockForward (start w) attempts) (i : Fin 2) :
    let t := (start w).run attempts
    (∀ key, (t.entry i key).total = (recordedFailures i key t.log).length ∧
      (t.entry i key).inMinute = failuresInMinute (t.entry i key).minute (recordedFailures i key t.log)) ∧
    ∀ later window earlier, t.log = later ++ window ++ earlier →
      (∀ ip : PeerIp, (∀ r ∈ window, r.succeeds i ip = false) →
        window.countP (·.fails i ip) ≤ 31 ∧ ∀ minute, window.countP (fun r => r.fails i ip ∧ r.minute = minute) ≤ 7) ∧
      ∀ bits limit addr, (bits, limit) ∈ prefixLimits → (∀ r ∈ window, r.removes i (prefixKey bits addr) = false) →
        (window.countP (·.failsIn i bits addr) : Int) ≤ limit := by
  intro t
  have h : t.Limited := limited_run w hclock
  refine ⟨fun key => ⟨(h.accounted i key).total, (h.accounted i key).inMinute⟩, ?_⟩
  intro later window earlier hlog
  have hsuffix : window ++ earlier <:+ t.log := ⟨later, by rw [hlog, List.append_assoc]⟩
  constructor
  · intro ip hsuccesses
    have hkept : ∀ r ∈ window, r.removes i ip.text = false := fun r hr =>
      removes_of_not_succeeds (hsuccesses r hr)
    have hsub := window_sublist hkept earlier
    obtain ⟨htotal, hminute⟩ := h.address i ip (window ++ earlier) hsuffix
    constructor
    · calc window.countP (·.fails i ip)
          ≤ window.countP (·.failsFor i ip.text) := List.countP_mono_left fun r _ => failsFor_of_fails
        _ = (window.filter (·.failsFor i ip.text)).length := List.countP_eq_length_filter
        _ ≤ (recordedFailures i ip.text (window ++ earlier)).length := hsub.length_le
        _ ≤ 31 := htotal
    · intro minute
      calc window.countP (fun r => r.fails i ip ∧ r.minute = minute)
          ≤ window.countP (fun r => r.minute = minute ∧ r.failsFor i ip.text) :=
            List.countP_mono_left fun r _ hr => by
              obtain ⟨hfails, heq⟩ := of_decide_eq_true hr
              exact decide_eq_true ⟨heq, failsFor_of_fails hfails⟩
        _ = failuresInMinute minute (window.filter (·.failsFor i ip.text)) := by
            rw [failuresInMinute, List.countP_filter]
            simp
        _ ≤ failuresInMinute minute (recordedFailures i ip.text (window ++ earlier)) := hsub.countP_le
        _ ≤ 7 := hminute minute
  · intro bits limit addr hlimit hkept
    have hbits : bits ∈ [64, 56, 48] := List.mem_map_of_mem (f := Prod.fst) hlimit
    have hcount : window.countP (·.failsIn i bits addr) ≤
        (recordedFailures i (prefixKey bits addr) (window ++ earlier)).length :=
      calc window.countP (·.failsIn i bits addr) ≤ window.countP (·.failsFor i (prefixKey bits addr)) :=
            List.countP_mono_left fun r _ => failsFor_of_failsIn hbits
        _ = (window.filter (·.failsFor i (prefixKey bits addr))).length := List.countP_eq_length_filter
        _ ≤ _ := (window_sublist hkept earlier).length_le
    exact (Int.ofNat_le.mpr hcount).trans (h.block i bits limit addr hlimit (window ++ earlier) hsuffix)

/-- The attempts of one address at one time. -/
def sampleAttempts (ip : PeerIp) (now : Int) (successes : List Bool) : List Attempt :=
  successes.map fun success =>
    { env := { sampleEnv with ip := ip.text, ipv6Prefixes := getIpv6Prefixes ip.text }
      ip, env_ip := by dsimp only, env_prefixes := by dsimp only, factor := 0, now, success }

/-- Two neighbours fail once each and one of them succeeds later: the other keeps its failure. -/
theorem login_throttle_limits_neighbours :
    let attempts := sampleAttempts ⟨"2001:db8::1", by decide⟩ 3600000 [false] ++
      sampleAttempts ⟨"2001:db8::2", by decide⟩ 3660000 [false, true]
    let t := (start sampleWorld).run attempts
    RunMeets step Throttle.ClockForward (start sampleWorld) attempts ∧
      t.log.map (·.outcome) = [.succeeded true, .failed, .failed] ∧
      (t.entry 0 "2001:db8::/64").total = 0 ∧ (t.entry 0 "2001:db8::1").total = 1 ∧
      ∀ key, (t.entry 0 key).total = (recordedFailures 0 key t.log).length := by
  have hclock : RunMeets step Throttle.ClockForward (start sampleWorld)
      (sampleAttempts ⟨"2001:db8::1", by decide⟩ 3600000 [false] ++
        sampleAttempts ⟨"2001:db8::2", by decide⟩ 3660000 [false, true]) := by decide
  exact ⟨hclock, by decide, by decide, by decide, fun key =>
    ((login_throttle_limits sampleWorld _ hclock 0).1 key).1⟩

/-- A success within the minute lets the address fail again in it, more than seven times altogether. -/
theorem success_renews_the_minute :
    let ip : PeerIp := ⟨"10.0.0.1", by decide⟩
    let attempts := sampleAttempts ip 3600000 [false, false, false, false, false, false, true, false, false]
    let t := (start sampleWorld).run attempts
    RunMeets step Throttle.ClockForward (start sampleWorld) attempts ∧
      7 < t.log.countP (fun r => r.fails 0 ip ∧ r.minute = 60) := by
  decide

end UnyDesk
