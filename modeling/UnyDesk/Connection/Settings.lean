import Mathlib.Algebra.Group.Int.Defs
import Mathlib.Algebra.Group.Nat.Defs
import Mathlib.Data.List.Basic
import UnyDesk.Connection.MessageScope

/-!
# Settings that decide a login

Options are read by name and change while a connection is open. A permission is decided by the
control permissions that came with the connection, by the access mode, or by its own option, in
this order.
-/

namespace UnyDesk

/-- `Config::get_option`. -/
abbrev Options := String → String

namespace keys

def optionEnableKeyboard : String := "enable-keyboard"
def optionEnableClipboard : String := "enable-clipboard"
def optionEnableFileTransfer : String := "enable-file-transfer"
def optionEnableCamera : String := "enable-camera"
def optionEnableTerminal : String := "enable-terminal"
def optionEnableRemotePrinter : String := "enable-remote-printer"
def optionEnableAudio : String := "enable-audio"
def optionEnableTunnel : String := "enable-tunnel"
def optionEnableRemoteRestart : String := "enable-remote-restart"
def optionEnableRecordSession : String := "enable-record-session"
def optionEnableBlockInput : String := "enable-block-input"
def optionEnablePrivacyMode : String := "enable-privacy-mode"
def optionEnableTrustedDevices : String := "enable-trusted-devices"
def optionAllowScopeViolationClose : String := "allow-scope-violation-close"
def optionAllowScopeViolationAlarm : String := "allow-scope-violation-alarm"
def optionAllowLogonScreenPassword : String := "allow-logon-screen-password"
def optionOneWayClipboardRedirection : String := "one-way-clipboard-redirection"
def optionOneWayFileTransfer : String := "one-way-file-transfer"
def optionDirectServer : String := "direct-server"

end keys

/-- `str::starts_with` for option names. -/
def nameStartsWith (name start : String) : Bool := start.toList.isPrefixOf name.toList

def option2bool (option value : String) : Bool :=
  if nameStartsWith option "enable-" then value ≠ "N"
  else if nameStartsWith option "allow-" || option = "stop-service"
      || option = keys.optionDirectServer || option = "force-always-relay" then value = "Y"
  else value ≠ "N"

def getBoolOption (options : Options) (name : String) : Bool := option2bool name (options name)

/-- The position of an option among the control permissions. -/
def controlPermissionIndex (option : String) : Option ℕ :=
  if option = keys.optionEnableKeyboard then some 0
  else if option = keys.optionEnableRemotePrinter then some 1
  else if option = keys.optionEnableClipboard then some 2
  else if option = keys.optionEnableFileTransfer then some 3
  else if option = keys.optionEnableAudio then some 4
  else if option = keys.optionEnableCamera then some 5
  else if option = keys.optionEnableTerminal then some 6
  else if option = keys.optionEnableTunnel then some 7
  else if option = keys.optionEnableRemoteRestart then some 8
  else if option = keys.optionEnableRecordSession then some 9
  else if option = keys.optionEnableBlockInput then some 10
  else if option = keys.optionEnablePrivacyMode then some 12
  else none

/-- Two bits a permission: one disables, two enables, the rest is not set. -/
def getControlPermission (permissions index : ℕ) : Option Bool :=
  if index < 32 then
    match permissions / 4 ^ index % 4 with
    | 1 => some false
    | 2 => some true
    | _ => none
  else none

def isPermissionEnabledLocally (build : Build) (options : Options) (option : String) : Bool :=
  if build.flutterDesktop && options "access-mode" = "full" then true
  else if build.flutterDesktop && options "access-mode" = "view" then false
  else getBoolOption options option

def permission (build : Build) (options : Options) (controlPermissions : Option ℕ) (option : String) :
    Bool :=
  let controlled := do
    let permissions ← controlPermissions
    let index ← controlPermissionIndex option
    getControlPermission permissions index
  controlled.getD (isPermissionEnabledLocally build options option)

inductive VerificationMethod
  | onlyUseTemporaryPassword
  | onlyUsePermanentPassword
  | useBothPasswords
deriving DecidableEq

section

variable (options : Options)

def verificationMethod : VerificationMethod :=
  if options "verification-method" = "use-temporary-password" then .onlyUseTemporaryPassword
  else if options "verification-method" = "use-permanent-password" then .onlyUsePermanentPassword
  else .useBothPasswords

def temporaryEnabled : Bool :=
  verificationMethod options ≠ .onlyUsePermanentPassword

def permanentEnabled : Bool :=
  verificationMethod options ≠ .onlyUseTemporaryPassword

inductive ApproveMode
  | both
  | password
  | click
deriving DecidableEq

def approveMode : ApproveMode :=
  if options "approve-mode" = "password" then .password
  else if options "approve-mode" = "click" then .click
  else .both

end

/-- Characters with the Unicode property `White_Space`, which `str::trim` removes. -/
def isWhitespace (c : Char) : Bool :=
  let n := c.toNat
  (9 ≤ n && n ≤ 13) || n == 0x20 || n == 0x85 || n == 0xA0 || n == 0x1680
    || (0x2000 ≤ n && n ≤ 0x200A) || n == 0x2028 || n == 0x2029 || n == 0x202F || n == 0x205F
    || n == 0x3000

/-- `str::trim`. -/
def trim (text : String) : String :=
  String.ofList ((text.toList.dropWhile isWhitespace).reverse.dropWhile isWhitespace).reverse

/-- `str::parse::<i64>`. -/
def parseI64 (text : List Char) : Option Int :=
  let (negative, digits) := match text with
    | '-' :: rest => (true, rest)
    | '+' :: rest => (false, rest)
    | rest => (false, rest)
  if digits ≠ [] && digits.all Char.isDigit then
    let magnitude : Int := digits.foldl (fun n c => n * 10 + (c.toNat - 48 : Int)) 0
    let value := if negative then -magnitude else magnitude
    if -(2 ^ 63) ≤ value && value < 2 ^ 63 then some value else none
  else none

/-- `1.2.3` counts as 1002030, which leaves room for a patch number after a dash. -/
def getVersionNumber (version : String) : Int :=
  match version.toList.splitOn '-' with
  | [] => 0
  | main :: rest =>
    let parts := (main.splitOn '.').map fun part => (parseI64 part).getD 0
    let number := parts.foldl (fun n x => n * 1000 + x) 0
    let last := parts.getLast?.getD 0
    let patched := match rest with
      | patch :: _ => (parseI64 patch).getD 0
      | [] => 0
    number - last + last * 10 + patched

example : getVersionNumber "1.2.4" = 1002040 := by decide

end UnyDesk
