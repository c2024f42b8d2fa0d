import Mathlib.Logic.Function.Basic
import UnyDesk.Lib.Simulation

/-!
# The layers of an option

An option is read through three layers: what the build overwrites, what the user has saved and what the build presets.
Nothing is saved under a key that is overwritten, and no value that is the preset one. No reader can tell the saved
options from a map that keeps every choice.
-/

namespace UnyDesk

open Lib Function

/-- `HashMap<String, String>` -/
abbrev Settings := String → Option String

/-- `HashMap::extend` -/
def Settings.extend (a b : Settings) : Settings := fun k => (b k).or (a k)

/-- `OVERWRITE_SETTINGS` and `DEFAULT_SETTINGS`. -/
structure OptionLayers where
  overwrite : Settings
  defaults : Settings

/-- The calls that save options. -/
inductive OptionCall
  | setOption (k v : String)
  | setOptions (v : Settings)

/-- What the user has chosen, were all of it kept: an empty text takes a choice back. -/
def Settings.choose (choices : Settings) : OptionCall → Settings
  | .setOption k v => update choices k (if v = "" then none else some v)
  | .setOptions v => v

namespace OptionLayers

variable (layers : OptionLayers) (options : Settings) (k v : String)

def getOr : Option String := ((layers.overwrite k).or (options k)).or (layers.defaults k)

def isOptionCanSave : Bool :=
  if (layers.overwrite k).isSome || (layers.defaults k).any (· = v) then false else true

/-- `Config::get_options` -/
def getOptions : Settings := (layers.defaults.extend options).extend layers.overwrite

/-- `Config::get_option` -/
def getOption : String := (layers.getOr options k).getD ""

def purifyOptions (v : Settings) : Settings := fun k => (v k).filter (layers.isOptionCanSave k)

/-- What `Config::set_options` leaves in the saved options. -/
def setOptions (v : Settings) : Settings := layers.purifyOptions v

/-- What `Config::set_option` leaves in the saved options. -/
def setOption : Settings :=
  if !layers.isOptionCanSave k v then update options k none
  else
    let v2 := if v = "" then none else some v
    if v2 ≠ options k then update options k v2 else options

def save : OptionCall → Settings
  | .setOption k v => layers.setOption options k v
  | .setOptions v => layers.setOptions v

/-- The map of all options and the lookup of one agree. -/
theorem getOption_eq : layers.getOption options k = (layers.getOptions options k).getD "" := by
  rw [getOption, getOr, Option.or_assoc]
  rfl

/-- What may not be saved is read all the same. -/
theorem or_filter (x : Option String) :
    (layers.overwrite k).or ((x.filter (layers.isOptionCanSave k)).or (layers.defaults k)) =
      (layers.overwrite k).or (x.or (layers.defaults k)) := by
  unfold isOptionCanSave
  cases layers.overwrite k with
  | some w => rfl
  | none =>
    cases x with
    | none => rfl
    | some y => cases layers.defaults k <;> grind

theorem setOption_eq : layers.setOption options k v =
      update options k ((if v = "" then none else some v : Option String).filter (layers.isOptionCanSave k)) := by
  unfold setOption
  grind [update_eq_self]

/-- Only the key that is written can read differently. -/
theorem getOptions_update (x : Option String) : layers.getOptions (update options k x) =
      update (layers.getOptions options) k ((layers.overwrite k).or (x.or (layers.defaults k))) := by
  funext j
  by_cases hj : j = k
  · subst hj
    simp [getOptions, Settings.extend]
  · simp [getOptions, Settings.extend, hj]

/-- A call is read like the choice that it makes. -/
theorem getOptions_save (call : OptionCall) :
    layers.getOptions (layers.save options call) = layers.getOptions (options.choose call) := by
  cases call with
  | setOption k v => rw [save, setOption_eq, getOptions_update, or_filter, Settings.choose, getOptions_update]
  | setOptions v =>
    funext k
    exact layers.or_filter k (v k)

variable {layers options} {value : String}

theorem getOptions_choose {choices : Settings} (h : layers.getOptions options = layers.getOptions choices)
    (call : OptionCall) : layers.getOptions (options.choose call) = layers.getOptions (choices.choose call) := by
  cases call with
  | setOption k v => rw [Settings.choose, Settings.choose, getOptions_update, getOptions_update, h]
  | setOptions v => rfl

/-- After every run of calls, every option is read as if all that was chosen had been kept. -/
theorem getOption_run (layers : OptionLayers) (options : Settings) (calls : List OptionCall) (k : String) :
    layers.getOption (runEvents layers.save options calls) k =
      layers.getOption (runEvents Settings.choose options calls) k := by
  have hrun : layers.getOptions (runEvents layers.save options calls) =
      layers.getOptions (runEvents Settings.choose options calls) := by
    have hmeets : RunMeets layers.save (fun _ _ => True) options calls := runMeets_of_forall (fun _ _ => trivial) options
    apply runEvents_lockstep (R := fun s t => layers.getOptions s = layers.getOptions t) ?_ rfl hmeets
    intro s t call h _
    rw [getOptions_save]
    exact getOptions_choose h call
  rw [getOption_eq, getOption_eq, hrun]

theorem getOptions_edits (edits : List (String × String)) {edited : Settings} (hedits : ∀ e ∈ edits, e.2 ≠ "")
    (h : layers.getOptions edited = layers.getOptions options) :
    layers.getOptions (edits.foldl (fun m e => update m e.1 (some e.2)) edited) =
      layers.getOptions (edits.foldl (fun o e => layers.setOption o e.1 e.2) options) := by
  induction edits generalizing edited options with
  | nil => exact h
  | cons e edits ih =>
    apply ih fun e' he' => hedits e' (List.mem_cons_of_mem e he')
    have hset := getOptions_save layers options (.setOption e.1 e.2)
    rw [save, Settings.choose, if_neg (hedits e List.mem_cons_self)] at hset
    rw [hset, getOptions_update, getOptions_update, h]

/-- What is saved is no preset value and not under an overwritten key. -/
theorem setOptions_unpinned {v : Settings} (h : layers.setOptions v k = some value) :
    layers.overwrite k = none ∧ layers.defaults k ≠ some value := by
  have hsave : layers.isOptionCanSave k value = true := (Option.filter_eq_some_iff.mp h).2
  constructor
  · cases hoverwrite : layers.overwrite k with
    | none => rfl
    | some w => simp [isOptionCanSave, hoverwrite] at hsave
  · intro hpreset
    simp [isOptionCanSave, hpreset] at hsave

/-- To read all options, edit the map and save it is to set each of the edited options, and the presets and overwritten
values of the map are not saved. An empty text is not: saved in the map it hides the preset, and set by itself it brings
it back. -/
theorem getOption_writeBack (layers : OptionLayers) (options : Settings) (edits : List (String × String)) (k : String)
    (hedits : ∀ e ∈ edits, e.2 ≠ "") :
    let saved := layers.setOptions (edits.foldl (fun m e => update m e.1 (some e.2)) (layers.getOptions options))
    layers.getOption saved k = layers.getOption (edits.foldl (fun o e => layers.setOption o e.1 e.2) options) k ∧
      ∀ value, saved k = some value → layers.overwrite k = none ∧ layers.defaults k ≠ some value := by
  intro saved
  have hall : layers.getOptions (layers.getOptions options) = layers.getOptions options := by
    funext j
    simp only [getOptions, Settings.extend]
    cases layers.overwrite j <;> cases options j <;> cases layers.defaults j <;> rfl
  have hset (v : Settings) : layers.getOptions (layers.setOptions v) = layers.getOptions v :=
    getOptions_save layers options (.setOptions v)
  refine ⟨?_, fun _ => setOptions_unpinned k⟩
  rw [getOption_eq, getOption_eq, hset, getOptions_edits edits hedits hall]

/-- One edit sets the preset value, which is not saved. -/
theorem getOption_writeBack_preset :
    let layers : OptionLayers := ⟨fun _ => none, fun k => if k = "lang" then some "en" else none⟩
    let options : Settings := fun k => if k = "lang" then some "de" else none
    let saved := layers.setOptions (([("lang", "en")] : List _).foldl (fun m e => update m e.1 (some e.2))
      (layers.getOptions options))
    saved "lang" = none ∧ layers.getOption saved "lang" = layers.getOption (layers.setOption options "lang" "en") "lang" :=
  ⟨by decide, (getOption_writeBack _ _ [("lang", "en")] "lang" (by decide)).1⟩

end OptionLayers

end UnyDesk
