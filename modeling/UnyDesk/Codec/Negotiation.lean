import Mathlib.Data.List.Perm.Basic
import Mathlib.Data.List.Infix
import UnyDesk.Codec.Format
import UnyDesk.Lib.Machine
import UnyDesk.Proto.OptionMessage

/-!
# Negotiation of the codec

An update counts the votes of all registered peers and sets the format in which the host encodes. A video thread reads that
format for its encoder, and writes the format of the encoder back when it differs. The threads share the peers, the format
and what the host has of hardware encoders, each behind a lock of its own.
-/

namespace UnyDesk

open Lib ProtoEnum List

variable {u : EncodingUpdate} {counts : List (Int × ℕ)} {entry : Int × ℕ}

/-- `SupportedDecoding.PreferCodec`. -/
inductive PreferCodec
  | auto
  | vp9
  | h264
  | h265
  | vp8
  | av1

open PreferCodec

instance : ProtoEnum PreferCodec where
  fromI32
    | 0 => some .auto
    | 1 => some .vp9
    | 2 => some .h264
    | 3 => some .h265
    | 4 => some .vp8
    | 5 => some .av1
    | _ => none
  value
    | .auto => 0
    | .vp9 => 1
    | .h264 => 2
    | .h265 => 3
    | .vp8 => 4
    | .av1 => 5
  fromI32_eq_some_iff := by
    intro n e
    split <;> cases e <;> simp_all

/-- The ability field of the format. -/
def SupportedDecoding.ability (decoding : SupportedDecoding) : CodecFormat → Int
  | .vp8 => decoding.abilityVp8
  | .vp9 => decoding.abilityVp9
  | .av1 => decoding.abilityAv1
  | .h264 => decoding.abilityH264
  | .h265 => decoding.abilityH265
  | .unknown => 0

/-- `SupportedEncoding`; the field for `i444` is not of interest here. -/
structure SupportedEncoding where
  vp8 : Bool
  av1 : Bool
  h264 : Bool
  h265 : Bool

/-- The format is among the encodings; VP9 always is. -/
def SupportedEncoding.has (encoding : SupportedEncoding) : CodecFormat → Bool
  | .vp8 => encoding.vp8
  | .vp9 => true
  | .av1 => encoding.av1
  | .h264 => encoding.h264
  | .h265 => encoding.h265
  | .unknown => false

/-- A `FeatureContext`. -/
structure VramFeature where
  dataFormat : CodecFormat
  luid : Int

/-- What the host has of hardware encoders at one time. -/
structure EncodeHost where
  /-- `FALLBACK_GDI_DISPLAYS` is not empty. -/
  fallbackGdi : Bool := false
  /-- Some entry of `ENOCDE_NOT_USE` is set. -/
  notUse : Bool := false
  /-- `HwCodecConfig::vram_encode` -/
  vramEncode : List VramFeature := []
  /-- The names of the encoders that `CodecInfo::prioritized` finds in `ram_encode`. -/
  ramH264 : Option String := none
  ramH265 : Option String := none

/-- What does not change: the features of the build, the options, the machine and its displays. -/
structure EncoderEnv where
  vram : Bool
  hwcodec : Bool
  enableVramOption : Bool
  enableHwcodecOption : Bool
  disableAv1 : Bool
  /-- The adapters of the displays, when they can be listed. -/
  displays : Option (List (Option Int))

/-- `HwRamEncoder::try_get`, with the name of the encoder. -/
def EncodeHost.ram (host : EncodeHost) : CodecFormat → Option String
  | .h264 => host.ramH264
  | .h265 => host.ramH265
  | _ => none

namespace EncoderEnv

variable (env : EncoderEnv)

/-- `VRamEncoder::available`, which reads three times. -/
def available (first second third : EncodeHost) (format : CodecFormat) : List VramFeature :=
  if first.fallbackGdi || first.notUse then []
  else if format ≠ .h264 ∧ format ≠ .h265 then []
  else
    let v := second.vramEncode.filter (·.dataFormat = format)
    if (third.ram format).isSome then v
    else
      match env.displays with
      | none => []
      | some [] => []
      | some luids => if luids.all fun luid => v.any fun f => some f.luid = luid then v else []

/-- The host encodes H264 or H265, as far as it was read. -/
def hardware (first second third fourth : EncodeHost) (format : CodecFormat) : Bool :=
  (env.vram && env.enableVramOption && !(env.available first second third format).isEmpty) ||
    (env.hwcodec && env.enableHwcodecOption && (fourth.ram format).isSome)

/-- `Encoder::supported_encoding` -/
def supportedEncoding (host : EncodeHost) : SupportedEncoding where
  vp8 := true
  av1 := !env.disableAv1
  h264 := env.hardware host host host host .h264
  h265 := env.hardware host host host host .h265

end EncoderEnv

/-- All peers decode the format, and there are peers. -/
def allSupport (peers : List (Int × SupportedDecoding)) (format : CodecFormat) : Bool :=
  !peers.isEmpty && peers.all fun peer => 0 < peer.2.ability format

/-- The encodings that an update finds usable; it has looked for encoders of H264 and H265. -/
def EncoderEnv.usable (env : EncoderEnv) (peers : List (Int × SupportedDecoding)) (h264 h265 : Bool) : SupportedEncoding where
  vp8 := allSupport peers .vp8
  av1 := allSupport peers .av1 && !env.disableAv1
  h264 := allSupport peers .h264 && h264
  h265 := allSupport peers .h265 && h265

/-- The preference counts. -/
def SupportedEncoding.accepts (encoding : SupportedEncoding) (prefer : Int) : Bool :=
  prefer == ProtoEnum.value PreferCodec.vp9 || (prefer == ProtoEnum.value PreferCodec.vp8 && encoding.vp8) ||
    (prefer == ProtoEnum.value PreferCodec.av1 && encoding.av1) ||
    (prefer == ProtoEnum.value PreferCodec.h264 && encoding.h264) ||
    (prefer == ProtoEnum.value PreferCodec.h265 && encoding.h265)

/-- A round of the loop over the preferences. -/
def countPreference : List (Int × ℕ) → Int → List (Int × ℕ)
  | [], pref => [(pref, 1)]
  | (p, count) :: rest, pref =>
    if p = pref then (p, count + 1) :: rest else (p, count) :: countPreference rest pref

/-- The most frequent preference, the first one of several. -/
def mostFrequent (preferences : List Int) : Int :=
  let counts := preferences.foldl countPreference []
  let maxCount := (counts.map Prod.snd).foldl max 0
  match counts.find? (·.2 = maxCount) with
  | some (pref, _) => pref
  | none => ProtoEnum.value auto

section

variable (encoding : SupportedEncoding)

/-- H265 over H264 over AV1, if its test was passed, over VP9. -/
def SupportedEncoding.best (av1Test : Bool) : CodecFormat :=
  if encoding.h265 then .h265
  else if encoding.h264 then .h264
  else if encoding.av1 && av1Test then .av1
  else .vp9

/-- The choice without a preference; `lowMemory` holds up to 4 GB. -/
def SupportedEncoding.autoCodec (av1Test lowMemory : Bool) : CodecFormat :=
  let best := encoding.best av1Test
  if (best = .vp9 ∨ best = .av1) ∧ encoding.vp8 = true ∧ lowMemory = true then .vp8 else best

/-- The vote of the peers, in the order of the map. -/
def SupportedEncoding.vote (h264 h265 : Bool) (order : List (Int × SupportedDecoding))
    (av1Test lowMemory : Bool) : CodecFormat :=
  let preferences := (order.map (·.2.prefer)).filter encoding.accepts
  let preference := ((ProtoEnum.fromI32 (mostFrequent preferences)).getD auto : PreferCodec)
  let autoCodec := encoding.autoCodec av1Test lowMemory
  match preference with
  | .vp8 => .vp8
  | .vp9 => .vp9
  | .av1 => .av1
  | .h264 => if h264 then .h264 else autoCodec
  | .h265 => if h265 then .h265 else autoCodec
  | .auto => autoCodec

end

theorem mem_countPreference {pref : Int}
    (h : entry ∈ countPreference counts pref) : entry.1 = pref ∨ entry.1 ∈ counts.map Prod.fst := by
  induction counts with
  | nil => exact .inl (congrArg Prod.fst (mem_singleton.mp h))
  | cons first rest ih =>
    rw [countPreference] at h
    split_ifs at h with hsame
    · rcases mem_cons.mp h with rfl | hrest
      · exact .inl hsame
      · exact .inr (mem_cons_of_mem _ (mem_map_of_mem hrest))
    · rcases mem_cons.mp h with rfl | hrest
      · exact .inr mem_cons_self
      · exact (ih hrest).imp_right (mem_cons_of_mem _)

theorem mem_counts {preferences : List Int} (h : entry ∈ preferences.foldl countPreference counts) :
    entry.1 ∈ preferences ∨ entry.1 ∈ counts.map Prod.fst := by
  induction preferences generalizing counts with
  | nil => exact .inr (mem_map_of_mem h)
  | cons pref rest ih =>
    rcases ih h with hrest | hcounts
    · exact .inl (mem_cons_of_mem _ hrest)
    · obtain ⟨before, hbefore, hentry⟩ := mem_map.mp hcounts
      rw [← hentry]
      rcases mem_countPreference hbefore with hsame | hold
      · exact .inl (hsame ▸ mem_cons_self)
      · exact .inr hold

/-- The most frequent preference is one of them. -/
theorem mostFrequent_mem (preferences : List Int) :
    mostFrequent preferences ∈ preferences ∨ mostFrequent preferences = ProtoEnum.value auto := by
  unfold mostFrequent
  dsimp only
  split
  · rename_i pref count hfind
    refine .inl ?_
    rcases mem_counts (mem_of_find?_eq_some hfind) with hmem | hnone
    · exact hmem
    · exact nomatch hnone
  · exact .inr rfl

namespace SupportedEncoding

variable (encoding : SupportedEncoding)

theorem has_best (av1Test : Bool) : encoding.has (encoding.best av1Test) = true := by
  unfold best
  split_ifs with h265 h264 hav1
  · exact h265
  · exact h264
  · exact (Bool.and_eq_true_iff.mp hav1).1
  · rfl

theorem has_autoCodec (av1Test lowMemory : Bool) : encoding.has (encoding.autoCodec av1Test lowMemory) = true := by
  unfold autoCodec
  dsimp only
  split_ifs with hlow
  · exact hlow.2.1
  · exact encoding.has_best av1Test

/-- The vote chooses a usable format: it counts no other preference. -/
theorem has_vote (h264 h265 : Bool) (order : List (Int × SupportedDecoding)) (av1Test lowMemory : Bool) :
    encoding.has (encoding.vote h264 h265 order av1Test lowMemory) = true := by
  have hauto := encoding.has_autoCodec av1Test lowMemory
  unfold vote
  dsimp only
  generalize hmost : mostFrequent ((order.map (·.2.prefer)).filter encoding.accepts) = pref
  cases hpreference : (fromI32 pref : Option PreferCodec) with
  | none => exact hauto
  | some preference =>
    have hvalue : pref = value preference := (fromI32_eq_some_iff _ _).mp hpreference
    have haccepts : pref = value auto ∨ encoding.accepts pref = true := by
      rw [← hmost]
      exact (mostFrequent_mem _).symm.imp_right fun hmem => (mem_filter.mp hmem).2
    rw [hvalue] at haccepts
    cases preference with
    | auto => exact hauto
    | vp9 => rfl
    | vp8 => simpa [accepts, has, value] using haccepts
    | av1 => simpa [accepts, has, value] using haccepts
    | h264 =>
      change encoding.has (if h264 = true then .h264 else _) = true
      split_ifs
      · simpa [accepts, has, value] using haccepts
      · exact hauto
    | h265 =>
      change encoding.has (if h265 = true then .h265 else _) = true
      split_ifs
      · simpa [accepts, has, value] using haccepts
      · exact hauto

end SupportedEncoding

inductive VpxVideoCodecId
  | vp8
  | vp9

inductive EncoderCfg
  | vpx (codec : VpxVideoCodecId)
  | aom
  /-- With the name of the encoder. -/
  | hwram (name : String)
  /-- With the data format of the feature. -/
  | vram (dataFormat : CodecFormat)

/-- `str::contains` -/
def containsText (text part : String) : Bool := decide (part.toList <:+: text.toList)

/-- The format that `set_fallback` finds in a configuration. -/
def EncoderCfg.format : EncoderCfg → Option CodecFormat
  | .vpx .vp8 => some .vp8
  | .vpx .vp9 => some .vp9
  | .aom => some .av1
  | .hwram name =>
    let name := name.toLower
    if containsText name "vp8" then some .vp8
    else if containsText name "vp9" then some .vp9
    else if containsText name "av1" then some .av1
    else if containsText name "h264" then some .h264
    else some .h265
  | .vram .h264 => some .h264
  | .vram .h265 => some .h265
  | .vram _ => none

inductive EncodingUpdate
  | update (id : Int) (decoding : SupportedDecoding)
  | remove (id : Int)
  | newOnlyVp9 (id : Int)
  | check

/-- The peers behind the first part of an update. -/
def EncodingUpdate.apply (peers : List (Int × SupportedDecoding)) : EncodingUpdate → List (Int × SupportedDecoding)
  | .update id decoding => (id, decoding) :: peers.filter (·.1 ≠ id)
  | .remove id => peers.filter (·.1 ≠ id)
  | .newOnlyVp9 id => (id, { abilityVp9 := 1 }) :: peers.filter (·.1 ≠ id)
  | .check => peers

/-- Where a thread goes on behind an update. -/
inductive AfterUpdate
  /-- The update of a connection. -/
  | done
  /-- In `get_encoder_config`. -/
  | config
  /-- In `Encoder::new`, whose encoder could not be made. -/
  | failed

/-- Where a thread is. -/
inductive EncoderCall
  | idle
  /-- `Encoder::update` waits for the peers. -/
  | waiting (u : EncodingUpdate) (after : AfterUpdate)
  /-- It holds the peers, and has read what the host has a number of times. -/
  | updating (after : AfterUpdate) (seen : List EncodeHost)
  /-- `get_encoder_config` is about to read the format. -/
  | config
  /-- It looks for an encoder of a hardware format. -/
  | choosing (format : CodecFormat) (seen : List EncodeHost)
  /-- It has returned. -/
  | configured (cfg : EncoderCfg)
  /-- `set_fallback` has found another format than its own. -/
  | overwriting (format : CodecFormat) (cfg : EncoderCfg)
  /-- `set_fallback` has returned. -/
  | prepared (cfg : EncoderCfg)
  /-- `Encoder::new` has failed. -/
  | clearing (vram : Bool)
  | resetting

/-- No call is in progress in the thread. -/
def EncoderCall.returned : EncoderCall → Bool
  | .idle | .configured _ | .prepared _ => true
  | _ => false

/-- An update waits or runs in the thread. -/
def EncoderCall.owes : EncoderCall → Bool
  | .waiting _ _ | .updating _ _ => true
  | _ => false

def AfterUpdate.call : AfterUpdate → EncoderCall
  | .done => .idle
  | .config => .config
  | .failed => .resetting

inductive EncoderStep
  | update (u : EncodingUpdate)
  /-- `get_encoder_config`, with or without `set_not_use`. -/
  | setup (notUse : Bool)
  | acquire
  /-- A read of what the host has. -/
  | read
  /-- The second part of an update, with the order of the map. -/
  | vote (order : List (Int × SupportedDecoding)) (av1Test lowMemory : Bool)
  | negotiatedCodec
  /-- The end of `get_encoder_config` for a hardware format, on the device of the capturer. -/
  | choose (luid : Int)
  /-- The configuration that follows an encoder that could not be made. -/
  | retry
  | setFallback
  | overwrite
  /-- `Encoder::new`, which fails or not. -/
  | create (made : Bool)
  | clear
  | reset

structure CodecNegotiation where
  host : EncodeHost
  /-- `PEER_DECODINGS`, and the thread that holds it. -/
  peerDecodings : List (Int × SupportedDecoding) := []
  holder : Option ℕ := none
  /-- `ENCODE_CODEC_FORMAT` -/
  encodeCodecFormat : CodecFormat := .vp9
  /-- `USABLE_ENCODING` -/
  usableEncoding : Option SupportedEncoding := none
  calls : ℕ → EncoderCall := fun _ => .idle

namespace CodecNegotiation

variable (env : EncoderEnv) (s : CodecNegotiation)

def setCall (t : ℕ) (call : EncoderCall) : CodecNegotiation := { s with calls := Function.update s.calls t call }

/-- The second part of an update, behind the reads of `available` and `try_get`. -/
def finishUpdate (t : ℕ) (after : AfterUpdate) (seen : List EncodeHost) (order : List (Int × SupportedDecoding))
    (av1Test lowMemory : Bool) : CodecNegotiation :=
  match seen with
  | [a₁, a₂, a₃, b₁, b₂, b₃, c, d] =>
    let h264 := allSupport order .h264 && env.hardware a₁ a₂ a₃ c .h264
    let h265 := allSupport order .h265 && env.hardware b₁ b₂ b₃ d .h265
    let usable := env.usable order h264 h265
    setCall { s with
        holder := none
        usableEncoding := some usable
        encodeCodecFormat := usable.vote h264 h265 order av1Test lowMemory }
      t after.call
  | _ => s

/-- Where `get_encoder_config` goes on with the format that it has read. -/
def configFor : CodecFormat → EncoderCall
  | .h264 => .choosing .h264 []
  | .h265 => .choosing .h265 []
  | .vp8 => .configured (.vpx .vp8)
  | .av1 => .configured .aom
  | .vp9 | .unknown => .configured (.vpx .vp9)

/-- The configuration for a hardware format, behind the reads of the two `try_get`. -/
def chooseConfig (format : CodecFormat) (luid : Int) (first second third fourth : EncodeHost) : EncoderCfg :=
  match (if env.vram then (env.available first second third format).filter (·.luid = luid) else []) with
  | feature :: _ => .vram feature.dataFormat
  | [] =>
    match (if env.hwcodec then fourth.ram format else none) with
    | some name => .hwram name
    | none => .vpx .vp9

/-- `HwCodecConfig::clear` of the encoders. -/
def clearHost (host : EncodeHost) (vram : Bool) : EncodeHost :=
  if vram then { host with vramEncode := [] } else { host with ramH264 := none, ramH265 := none }

def step (s : CodecNegotiation) : ℕ × EncoderStep → CodecNegotiation
  | (t, .update u) =>
    match s.calls t with
    | .idle => s.setCall t (.waiting u .done)
    | _ => s
  | (t, .setup notUse) =>
    match s.calls t with
    | .idle | .prepared _ =>
      if env.vram then
        setCall { s with host := { s.host with notUse := s.host.notUse || notUse } } t (.waiting .check .config)
      else s.setCall t .config
    | _ => s
  | (t, .acquire) =>
    match s.calls t with
    | .waiting u after =>
      if s.holder = none then
        setCall { s with holder := some t, peerDecodings := u.apply s.peerDecodings } t (.updating after [])
      else s
    | _ => s
  | (t, .read) =>
    match s.calls t with
    | .updating after seen => if seen.length < 8 then s.setCall t (.updating after (seen ++ [s.host])) else s
    | .choosing format seen => if seen.length < 4 then s.setCall t (.choosing format (seen ++ [s.host])) else s
    | _ => s
  | (t, .vote order av1Test lowMemory) =>
    match s.calls t with
    | .updating after seen =>
      if order.Perm s.peerDecodings then s.finishUpdate env t after seen order av1Test lowMemory else s
    | _ => s
  | (t, .negotiatedCodec) =>
    match s.calls t with
    | .config => s.setCall t (configFor s.encodeCodecFormat)
    | _ => s
  | (t, .choose luid) =>
    match s.calls t with
    | .choosing format [first, second, third, fourth] =>
      s.setCall t (.configured (chooseConfig env format luid first second third fourth))
    | _ => s
  | (t, .retry) =>
    match s.calls t with
    | .idle => s.setCall t (.configured (.vpx .vp9))
    | _ => s
  | (t, .setFallback) =>
    match s.calls t with
    | .configured cfg =>
      match cfg.format with
      | none => s.setCall t (.prepared cfg)
      | some format => s.setCall t (if s.encodeCodecFormat ≠ format then .overwriting format cfg else .prepared cfg)
    | _ => s
  | (t, .overwrite) =>
    match s.calls t with
    | .overwriting format cfg => setCall { s with encodeCodecFormat := format } t (.prepared cfg)
    | _ => s
  | (t, .create made) =>
    match s.calls t with
    | .prepared cfg =>
      match made, cfg with
      | false, .hwram _ => s.setCall t (.clearing false)
      | false, .vram _ => s.setCall t (.clearing true)
      | _, _ => s.setCall t .idle
    | _ => s
  | (t, .clear) =>
    match s.calls t with
    | .clearing vram => setCall { s with host := clearHost s.host vram } t (.waiting .check .failed)
    | _ => s
  | (t, .reset) =>
    match s.calls t with
    | .resetting => setCall { s with encodeCodecFormat := .vp9 } t .idle
    | _ => s

/-- No call is in progress. -/
def Quiet : Prop := ∀ t, (s.calls t).returned = true

/-- Every registered peer decodes the format, and the host encodes it. -/
def Sound (format : CodecFormat) : Prop :=
  (∀ peer ∈ s.peerDecodings, 0 < peer.2.ability format) ∧ (env.supportedEncoding s.host).has format = true

instance (format : CodecFormat) : Decidable (s.Sound env format) := by unfold Sound; infer_instance

/-- An update waits or runs. -/
def Pending : Prop := ∃ t, (s.calls t).owes = true

end CodecNegotiation

/-- A peer that is registered decodes VP9. -/
def EncodingUpdate.Vp9 : EncodingUpdate → Prop
  | .update _ decoding => 0 < decoding.abilityVp9
  | _ => True

instance (u : EncodingUpdate) : Decidable u.Vp9 := by cases u <;> unfold EncodingUpdate.Vp9 <;> infer_instance

namespace CodecNegotiation

/-- Every peer decodes VP9, and a format that is written back is still usable, or is decided again. -/
def Meets (env : EncoderEnv) (s : CodecNegotiation) : ℕ × EncoderStep → Prop
  | (_, .update u) => u.Vp9
  | (t, .overwrite) =>
    match s.calls t with
    | .overwriting format _ => s.Sound env format ∨ s.Pending
    | _ => True
  | _ => True

/-- What holds along every run that meets the condition. -/
structure Negotiated (env : EncoderEnv) (s : CodecNegotiation) : Prop where
  vp9 : ∀ peer ∈ s.peerDecodings, 0 < peer.2.abilityVp9
  waiting : ∀ t u after, s.calls t = .waiting u after → u.Vp9
  holder : ∀ t after seen, s.calls t = .updating after seen → s.holder = some t
  /-- What an update has read is still there, or the thread that took it away has its own update to come. -/
  seen : ∀ t after seen, s.calls t = .updating after seen →
    (∀ host ∈ seen, host = s.host) ∨ ∃ t', t' ≠ t ∧ (s.calls t').owes = true
  sound : s.Sound env s.encodeCodecFormat ∨ s.Pending

section Steps

variable {env : EncoderEnv} {s : CodecNegotiation} {format : CodecFormat} {peers : List (Int × SupportedDecoding)}
  {order : List (Int × SupportedDecoding)}

theorem sound_vp9 (h : ∀ peer ∈ s.peerDecodings, 0 < peer.2.abilityVp9) : s.Sound env .vp9 := ⟨h, rfl⟩

theorem allSupport_iff : allSupport peers format = true ↔ peers ≠ [] ∧ ∀ peer ∈ peers, 0 < peer.2.ability format := by
  simp [allSupport]

/-- A format that an update finds usable is one, when the update has seen what the host has. -/
theorem sound_of_usable {h264 h265 : Bool}
    (hvp9 : ∀ peer ∈ s.peerDecodings, 0 < peer.2.abilityVp9) (hperm : order.Perm s.peerDecodings)
    (h264_host : h264 = true → (env.supportedEncoding s.host).h264 = true)
    (h265_host : h265 = true → (env.supportedEncoding s.host).h265 = true)
    (hhas : (env.usable order h264 h265).has format = true) : s.Sound env format := by
  have hpeers (format : CodecFormat) (hall : allSupport order format = true) :
      ∀ peer ∈ s.peerDecodings, 0 < peer.2.ability format :=
    fun peer hpeer => (allSupport_iff.mp hall).2 peer (hperm.mem_iff.mpr hpeer)
  cases format with
  | vp8 => exact ⟨hpeers _ hhas, rfl⟩
  | vp9 => exact sound_vp9 hvp9
  | av1 =>
    obtain ⟨hall, hav1⟩ := Bool.and_eq_true_iff.mp hhas
    exact ⟨hpeers _ hall, hav1⟩
  | h264 =>
    obtain ⟨hall, hhost⟩ := Bool.and_eq_true_iff.mp hhas
    exact ⟨hpeers _ hall, h264_host hhost⟩
  | h265 =>
    obtain ⟨hall, hhost⟩ := Bool.and_eq_true_iff.mp hhas
    exact ⟨hpeers _ hall, h265_host hhost⟩
  | unknown => exact nomatch hhas

variable {t : ℕ} {call : EncoderCall}

theorem calls_setCall_self (s : CodecNegotiation) (t : ℕ) (call : EncoderCall) : (s.setCall t call).calls t = call := by
  simp [setCall]

theorem calls_setCall_of_ne {t' : ℕ} (hne : t' ≠ t) (s : CodecNegotiation) (call : EncoderCall) :
    (s.setCall t call).calls t' = s.calls t' := by
  simp [setCall, hne]

/-- A thread that owes is another one than a thread that does not, and goes on to owe when only that one moves. -/
theorem owes_setCall {t' : ℕ} (hbefore : (s.calls t).owes = false) (howes : (s.calls t').owes = true)
    (call : EncoderCall) : t' ≠ t ∧ ((s.setCall t call).calls t').owes = true := by
  have hne : t' ≠ t := by
    rintro rfl
    exact nomatch hbefore.symm.trans howes
  exact ⟨hne, by rwa [calls_setCall_of_ne hne]⟩

/-- The rule for a step of a thread that holds nothing: what the host has and the format change only where an update
follows, or to a usable format. -/
theorem Negotiated.proceed (h : Negotiated env s) (hbefore : (s.calls t).owes = false)
    (hnot : ∀ after seen, call ≠ .updating after seen) (hwaiting : ∀ u after, call = .waiting u after → u.Vp9)
    {host : EncodeHost} (hhost : host = s.host ∨ call.owes = true)
    (hformat : format = s.encodeCodecFormat ∨ s.Sound env format ∨ s.Pending ∨ call.owes = true) :
    Negotiated env (setCall { s with host := host, encodeCodecFormat := format } t call) := by
  set s' := setCall { s with host := host, encodeCodecFormat := format } t call with hs'
  have hself : s'.calls t = call := calls_setCall_self _ t call
  have hother (t' : ℕ) (hne : t' ≠ t) : s'.calls t' = s.calls t' := calls_setCall_of_ne hne _ call
  have hpending (howes : s.Pending) : s'.Pending := by
    obtain ⟨t', howes⟩ := howes
    exact ⟨t', (owes_setCall hbefore howes call).2⟩
  refine ⟨h.vp9, ?_, ?_, ?_, ?_⟩
  · intro t' u after hcall
    by_cases hne : t' = t
    · subst hne
      exact hwaiting u after (hself.symm.trans hcall)
    · exact h.waiting t' u after ((hother t' hne).symm.trans hcall)
  · intro t' after seen hcall
    by_cases hne : t' = t
    · subst hne
      exact absurd (hself.symm.trans hcall) (hnot after seen)
    · exact h.holder t' after seen ((hother t' hne).symm.trans hcall)
  · intro t' after seen hcall
    by_cases hne : t' = t
    · subst hne
      exact absurd (hself.symm.trans hcall) (hnot after seen)
    · rcases h.seen t' after seen ((hother t' hne).symm.trans hcall) with hsame | ⟨t'', hne', howes⟩
      · rcases hhost with hhost | howes
        · exact .inl fun seenHost hmem => (hsame seenHost hmem).trans hhost.symm
        · exact .inr ⟨t, Ne.symm hne, by rwa [hself]⟩
      · exact .inr ⟨t'', hne', (owes_setCall hbefore howes call).2⟩
  · have hcalled (howes : call.owes = true) : s'.Pending := ⟨t, by rwa [hself]⟩
    rcases hhost with rfl | howes
    · rcases hformat with rfl | hsound | hpending' | howes
      · exact h.sound.imp_right hpending
      · exact .inl hsound
      · exact .inr (hpending hpending')
      · exact .inr (hcalled howes)
    · exact .inr (hcalled howes)

theorem vp9_apply (hu : u.Vp9)
    (h : ∀ peer ∈ peers, 0 < peer.2.abilityVp9) : ∀ peer ∈ u.apply peers, 0 < peer.2.abilityVp9 := by
  have hrest (id : Int) : ∀ peer ∈ peers.filter (·.1 ≠ id), 0 < peer.2.abilityVp9 :=
    fun peer hpeer => h peer (mem_of_mem_filter hpeer)
  cases u with
  | update id decoding =>
    intro peer hpeer
    rcases mem_cons.mp hpeer with rfl | hold
    · exact hu
    · exact hrest id peer hold
  | remove id => exact hrest id
  | newOnlyVp9 id =>
    intro peer hpeer
    rcases mem_cons.mp hpeer with rfl | hold
    · exact Int.one_pos
    · exact hrest id peer hold
  | check => exact h

/-- The first part of an update. -/
theorem Negotiated.acquire (h : Negotiated env s) {after : AfterUpdate}
    (hcall : s.calls t = .waiting u after) (hfree : s.holder = none) :
    Negotiated env
      (setCall { s with holder := some t, peerDecodings := u.apply s.peerDecodings } t (.updating after [])) := by
  set s' := setCall { s with holder := some t, peerDecodings := u.apply s.peerDecodings } t (.updating after []) with hs'
  have hself : s'.calls t = .updating after [] := calls_setCall_self _ t _
  have hother (t' : ℕ) (hne : t' ≠ t) : s'.calls t' = s.calls t' := calls_setCall_of_ne hne _ _
  have halone (t' : ℕ) (hne : t' ≠ t) (after' : AfterUpdate) (seen : List EncodeHost) :
      s'.calls t' ≠ .updating after' seen := by
    intro hupdating
    exact nomatch hfree.symm.trans (h.holder t' after' seen ((hother t' hne).symm.trans hupdating))
  refine ⟨vp9_apply (h.waiting t u after hcall) h.vp9, ?_, ?_, ?_, .inr ⟨t, by rw [hself]; rfl⟩⟩
  · intro t' u' after' hcall'
    by_cases hne : t' = t
    · subst hne
      exact nomatch hself.symm.trans hcall'
    · exact h.waiting t' u' after' ((hother t' hne).symm.trans hcall')
  · intro t' after' seen hcall'
    by_cases hne : t' = t
    · exact congrArg some hne.symm
    · exact absurd hcall' (halone t' hne after' seen)
  · intro t' after' seen hcall'
    by_cases hne : t' = t
    · subst hne
      obtain ⟨-, rfl⟩ := EncoderCall.updating.inj (hself.symm.trans hcall')
      exact .inl fun _ hmem => nomatch hmem
    · exact absurd hcall' (halone t' hne after' seen)

section Negotiated

variable (h : Negotiated env s) {after : AfterUpdate} {seen : List EncodeHost}
  (hcall : s.calls t = .updating after seen)
include h hcall

theorem Negotiated.read : Negotiated env (s.setCall t (.updating after (seen ++ [s.host]))) := by
  have hself := calls_setCall_self s t (.updating after (seen ++ [s.host]))
  have hother (t' : ℕ) (hne : t' ≠ t) := calls_setCall_of_ne hne s (.updating after (seen ++ [s.host]))
  refine ⟨h.vp9, ?_, ?_, ?_, .inr ⟨t, by rw [hself]; rfl⟩⟩
  · intro t' u' after' hcall'
    by_cases hne : t' = t
    · subst hne
      exact nomatch hself.symm.trans hcall'
    · exact h.waiting t' u' after' ((hother t' hne).symm.trans hcall')
  · intro t' after' seen' hcall'
    by_cases hne : t' = t
    · rw [hne]
      exact h.holder t after seen hcall
    · exact h.holder t' after' seen' ((hother t' hne).symm.trans hcall')
  · intro t' after' seen' hcall'
    by_cases hne : t' = t
    · subst hne
      obtain ⟨-, rfl⟩ := EncoderCall.updating.inj (hself.symm.trans hcall')
      rcases h.seen t' after seen hcall with hsame | ⟨t'', hne', howes⟩
      · refine .inl fun host hmem => ?_
        rcases mem_append.mp hmem with hold | hnew
        · exact hsame host hold
        · exact mem_singleton.mp hnew
      · exact .inr ⟨t'', hne', by rwa [hother t'' hne']⟩
    · have hholder := h.holder t' after' seen' ((hother t' hne).symm.trans hcall')
      exact absurd (Option.some.inj (hholder.symm.trans (h.holder t after seen hcall))) hne

/-- The second part of an update: the thread that holds the peers decides, and leaves the rest to those who took away what
it has seen. -/
theorem Negotiated.finishUpdate (hperm : order.Perm s.peerDecodings) (av1Test lowMemory : Bool) :
    Negotiated env (s.finishUpdate env t after seen order av1Test lowMemory) := by
  unfold CodecNegotiation.finishUpdate
  split
  · rename_i a₁ a₂ a₃ b₁ b₂ b₃ c d
    set h264 := allSupport order .h264 && env.hardware a₁ a₂ a₃ c .h264 with h264_eq
    set h265 := allSupport order .h265 && env.hardware b₁ b₂ b₃ d .h265 with h265_eq
    set usable := env.usable order h264 h265 with husable
    set s' := setCall { s with
        holder := none
        usableEncoding := some usable
        encodeCodecFormat := usable.vote h264 h265 order av1Test lowMemory }
      t after.call with hs'
    have hself : s'.calls t = after.call := calls_setCall_self _ t _
    have hother (t' : ℕ) (hne : t' ≠ t) : s'.calls t' = s.calls t' := calls_setCall_of_ne hne _ _
    have halone (t' : ℕ) (after' : AfterUpdate) (seen' : List EncodeHost) : s'.calls t' ≠ .updating after' seen' := by
      intro hupdating
      by_cases hne : t' = t
      · subst hne
        have hleft := hself.symm.trans hupdating
        cases after <;> exact nomatch hleft
      · have hholder := h.holder t' after' seen' ((hother t' hne).symm.trans hupdating)
        exact hne (Option.some.inj (hholder.symm.trans (h.holder t after _ hcall)))
    refine ⟨h.vp9, ?_, ?_, ?_, ?_⟩
    · intro t' u' after' hcall'
      by_cases hne : t' = t
      · subst hne
        have hleft := hself.symm.trans hcall'
        cases after <;> exact nomatch hleft
      · exact h.waiting t' u' after' ((hother t' hne).symm.trans hcall')
    · exact fun t' after' seen' hupdating => absurd hupdating (halone t' after' seen')
    · exact fun t' after' seen' hupdating => absurd hupdating (halone t' after' seen')
    · rcases h.seen t after _ hcall with hsame | ⟨t', hne, howes⟩
      · simp only [mem_cons, not_mem_nil, or_false, forall_eq_or_imp, forall_eq] at hsame
        obtain ⟨rfl, rfl, rfl, rfl, rfl, rfl, rfl, rfl⟩ := hsame
        have hsound : s.Sound env (usable.vote h264 h265 order av1Test lowMemory) :=
          sound_of_usable h.vp9 hperm (fun hh264 => (Bool.and_eq_true_iff.mp hh264).2)
            (fun hh265 => (Bool.and_eq_true_iff.mp hh265).2) (usable.has_vote h264 h265 order av1Test lowMemory)
        exact .inl hsound
      · exact .inr ⟨t', by rwa [hother t' hne]⟩
  · exact h

end Negotiated

/-- A call that takes no lock. -/
theorem Negotiated.move (h : Negotiated env s) (hbefore : (s.calls t).owes = false)
    (hnot : call.owes = false) : Negotiated env (s.setCall t call) := by
  refine h.proceed hbefore ?_ ?_ (.inl rfl) (.inl rfl)
  · rintro after seen rfl
    exact nomatch hnot
  · rintro u after rfl
    exact nomatch hnot

theorem Negotiated.step (h : Negotiated env s) {e : ℕ × EncoderStep} (hmeets : s.Meets env e) :
    Negotiated env (s.step env e) := by
  obtain ⟨t, a⟩ := e
  cases a with
  | update u =>
    rw [CodecNegotiation.step]
    split
    · rename_i hcall
      refine h.proceed (by rw [hcall]; rfl) (by rintro _ _ ⟨⟩) ?_ (.inl rfl) (.inl rfl)
      rintro _ _ ⟨⟩
      exact hmeets
    · exact h
  | setup notUse =>
    rw [CodecNegotiation.step]
    have hsetup (hbefore : (s.calls t).owes = false) : Negotiated env (if env.vram then
          setCall { s with host := { s.host with notUse := s.host.notUse || notUse } } t (.waiting .check .config)
        else s.setCall t .config) := by
      split_ifs
      · refine h.proceed hbefore (by rintro _ _ ⟨⟩) ?_ (.inr rfl) (.inl rfl)
        rintro _ _ ⟨⟩
        trivial
      · exact h.move hbefore rfl
    split
    · rename_i hcall
      exact hsetup (by rw [hcall]; rfl)
    · rename_i hcall
      exact hsetup (by rw [hcall]; rfl)
    · exact h
  | acquire =>
    rw [CodecNegotiation.step]
    split
    · rename_i hcall
      split_ifs with hfree
      · exact h.acquire hcall hfree
      · exact h
    · exact h
  | read =>
    rw [CodecNegotiation.step]
    split
    · rename_i hcall
      split_ifs
      · exact h.read hcall
      · exact h
    · rename_i hcall
      split_ifs
      · exact h.move (by rw [hcall]; rfl) rfl
      · exact h
    · exact h
  | vote order av1Test lowMemory =>
    rw [CodecNegotiation.step]
    split
    · rename_i hcall
      split_ifs with hperm
      · exact h.finishUpdate hcall hperm av1Test lowMemory
      · exact h
    · exact h
  | negotiatedCodec =>
    rw [CodecNegotiation.step]
    split
    · rename_i hcall
      refine h.move (by rw [hcall]; rfl) ?_
      cases s.encodeCodecFormat <;> rfl
    · exact h
  | choose luid =>
    rw [CodecNegotiation.step]
    split
    · rename_i hcall
      exact h.move (by rw [hcall]; rfl) rfl
    · exact h
  | retry =>
    rw [CodecNegotiation.step]
    split
    · rename_i hcall
      exact h.move (by rw [hcall]; rfl) rfl
    · exact h
  | setFallback =>
    rw [CodecNegotiation.step]
    split
    · rename_i cfg hcall
      split
      · exact h.move (by rw [hcall]; rfl) rfl
      · refine h.move (by rw [hcall]; rfl) ?_
        split_ifs <;> rfl
    · exact h
  | overwrite =>
    rw [CodecNegotiation.step]
    split
    · rename_i format cfg hcall
      have husable : s.Sound env format ∨ s.Pending := by
        simpa only [Meets, hcall] using hmeets
      refine h.proceed (by rw [hcall]; rfl) (by rintro _ _ ⟨⟩) (by rintro _ _ ⟨⟩) (.inl rfl) ?_
      rcases husable with hsound | hpending
      · exact .inr (.inl hsound)
      · exact .inr (.inr (.inl hpending))
    · exact h
  | create made =>
    rw [CodecNegotiation.step]
    split
    · rename_i cfg hcall
      split <;> exact h.move (by rw [hcall]; rfl) rfl
    · exact h
  | clear =>
    rw [CodecNegotiation.step]
    split
    · rename_i hcall
      refine h.proceed (by rw [hcall]; rfl) (by rintro _ _ ⟨⟩) ?_ (.inr rfl) (.inl rfl)
      rintro _ _ ⟨⟩
      trivial
    · exact h
  | reset =>
    rw [CodecNegotiation.step]
    split
    · rename_i hcall
      exact h.proceed (by rw [hcall]; rfl) (by rintro _ _ ⟨⟩)
        (by rintro _ _ ⟨⟩) (.inl rfl) (.inr (.inl (sound_vp9 h.vp9)))
    · exact h

end Steps

theorem owes_of_returned {call : EncoderCall} (h : call.returned = true) : call.owes = false := by
  cases call <;> first | rfl | exact nomatch h

end CodecNegotiation

/-- Whenever no call is in progress, every registered peer decodes the negotiated format and the host encodes it, in every
run that writes no format back which an update or a lost encoder has made unusable. -/
theorem negotiated_codec_sound (env : EncoderEnv) (host : EncodeHost) {steps : List (ℕ × EncoderStep)}
    (h : RunMeets (CodecNegotiation.step env) (CodecNegotiation.Meets env) { host := host } steps)
    (hquiet : (runEvents (CodecNegotiation.step env) { host := host } steps).Quiet) :
    (runEvents (CodecNegotiation.step env) { host := host } steps).Sound env
      (runEvents (CodecNegotiation.step env) { host := host } steps).encodeCodecFormat := by
  have hinitial : CodecNegotiation.Negotiated env { host := host } := by
    have hnone (peer : Int × SupportedDecoding) (hpeer : peer ∈ []) : 0 < peer.2.abilityVp9 := nomatch hpeer
    exact ⟨hnone, by rintro _ _ _ ⟨⟩, by rintro _ _ _ ⟨⟩, by rintro _ _ _ ⟨⟩, .inl (CodecNegotiation.sound_vp9 hnone)⟩
  have hnegotiated := runEvents_invariant (I := CodecNegotiation.Negotiated env) (fun _ _ h hmeets => h.step hmeets)
    hinitial h
  rcases hnegotiated.sound with hsound | ⟨t, howes⟩
  · exact hsound
  · exact nomatch howes.symm.trans (CodecNegotiation.owes_of_returned (hquiet t))

/-- A host without hardware encoders. -/
def softwareEncoders : EncoderEnv where
  vram := false
  hwcodec := false
  enableVramOption := false
  enableHwcodecOption := false
  disableAv1 := false
  displays := none

/-- A whole update, with the order of the map. -/
def sampleUpdate (t : ℕ) (u : EncodingUpdate) (order : List (Int × SupportedDecoding)) : List (ℕ × EncoderStep) :=
  [(t, .update u), (t, .acquire)] ++ List.replicate 8 (t, .read) ++ [(t, .vote order true false)]

/-- A peer that prefers AV1. -/
def av1Peer : SupportedDecoding := { abilityVp9 := 1, abilityAv1 := 1, prefer := 5 }

/-- A peer that decodes AV1 and prefers VP9. -/
def vp9Peer : SupportedDecoding := { abilityVp9 := 1, abilityAv1 := 1, prefer := 1 }

/-- A peer registers between the read of the format and its write back. -/
def overtakenConfig (second : EncodingUpdate) (order : List (Int × SupportedDecoding)) : List (ℕ × EncoderStep) :=
  sampleUpdate 1 (.update 1 av1Peer) [(1, av1Peer)] ++ [(3, .setup false), (3, .negotiatedCodec)] ++
    sampleUpdate 2 second order ++ [(3, .setFallback), (3, .overwrite), (3, .create true)]

theorem meets_sampleUpdate (env : EncoderEnv) (s : CodecNegotiation) (t : ℕ) (hu : u.Vp9)
    (order : List (Int × SupportedDecoding)) :
    RunMeets (CodecNegotiation.step env) (CodecNegotiation.Meets env) s (sampleUpdate t u order) := by
  refine runMeets_append.mpr ⟨runMeets_append.mpr ⟨⟨hu, trivial, trivial⟩, ?_⟩, trivial, trivial⟩
  exact ⟨trivial, trivial, trivial, trivial, trivial, trivial, trivial, trivial, trivial⟩

/-- The format that is written back is usable for the second peer too. -/
theorem negotiated_codec_sound_sample : (runEvents (CodecNegotiation.step softwareEncoders) { host := {} }
      (overtakenConfig (.update 2 vp9Peer) [(2, vp9Peer), (1, av1Peer)])).Sound softwareEncoders .av1 := by
  refine negotiated_codec_sound softwareEncoders {} ?_ fun t => ?_
  · refine runMeets_append.mpr ⟨runMeets_append.mpr ⟨runMeets_append.mpr ⟨?_, trivial, trivial, trivial⟩, ?_⟩, ?_⟩
    · exact meets_sampleUpdate softwareEncoders _ 1 (by decide) _
    · exact meets_sampleUpdate softwareEncoders _ 2 (by decide) _
    · exact ⟨trivial, Or.inl (by decide), trivial, trivial⟩
  · match t with
    | 0 | 1 | 2 | 3 => rfl
    | n + 4 => rfl

/-- The second peer decodes VP9 only, and AV1 is written back. -/
theorem negotiated_codec_unsound :
    let s := runEvents (CodecNegotiation.step softwareEncoders) { host := {} }
      (overtakenConfig (.newOnlyVp9 2) [(2, { abilityVp9 := 1 }), (1, av1Peer)])
    s.Quiet ∧ s.peerDecodings ≠ [] ∧ (∀ peer ∈ s.peerDecodings, 0 < peer.2.abilityVp9) ∧
      ¬ s.Sound softwareEncoders s.encodeCodecFormat := by
  refine ⟨fun t => ?_, by decide, by decide, by decide⟩
  match t with
  | 0 | 1 | 2 | 3 => rfl
  | n + 4 => rfl

end UnyDesk
