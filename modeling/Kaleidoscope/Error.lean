import Kaleidoscope.Lib.Disk

/-!
# Manager errors

The failure categories that the modelled commands return.
-/

namespace Kaleidoscope

inductive ManagerError where
  | usage (message : String)
  | unsafePath (target reason : String)
  | io (operation : String) (kind : Disk.IoKind)
  | invalidEngineContract (contract reason : String)
  | invalidManagerConfig (reason : String)
  | invalidHostConfig (message : String)
  | hostConflict (message : String)
  | concurrentEdit
  | invalidOwnerReceipt
  | invalidProfileName
  | initManagerStateRecovery (profile : Text) (cause : ManagerError)
  | profileRootMismatch (profile existing requested : Text)
  | ambiguousVault (message : Text)
  | wouldForkVault (root : Text) (workspaces : Nat)
  | hostConfigTooLarge (message : String)
  /-- not an error of the program: a slice that begins within a character ends the command -/
  | panicked
  deriving DecidableEq

abbrev Result := Except ManagerError

/-- The name of a profile: up to 64 ASCII letters, digits, dots, underscores and hyphens, with
a letter or a digit at both ends. -/
def validateProfileName (name : Text) : Result Unit :=
  rejectIf
    (name.isEmpty
        || Text.byteLen name > 64
        || !Text.isAscii name
        || !name.head?.any Text.isAsciiAlphanumeric
        || !name.getLast?.any Text.isAsciiAlphanumeric
        || !name.all fun c =>
          Text.isAsciiAlphanumeric c || c == '.' || c == '_' || c == '-')
    .invalidProfileName

end Kaleidoscope
