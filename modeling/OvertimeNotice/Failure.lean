import OvertimeNotice.Severity
import OvertimeNotice.Calendar.Month

/-!
# Failures

What can go wrong around a run, by cause, and the wording of each cause.
-/

namespace OvertimeNotice

/-- Why a file or directory could not be used. -/
inductive FileFault where
  | missing
  | occupied
  | notDirectory
  | isDirectory
  | tooLong
  /-- The path holds a character that no name can have. -/
  | nulByte
  | notText
deriving DecidableEq, Repr

def FileFault.message : FileFault → String
  | missing => "No such file or directory (os error 2)"
  | occupied => "File exists (os error 17)"
  | notDirectory => "Not a directory (os error 20)"
  | isDirectory => "Is a directory (os error 21)"
  | tooLong => "File name too long (os error 36)"
  | nulByte => "file name contained an unexpected NUL byte"
  | notText => "stream did not contain valid UTF-8"

/-- Why a call to the database failed. -/
inductive DatabaseFault where
  /-- The name of a database holds a zero byte. -/
  | nulByte (position : Nat)
  | cannotOpen (name : String)
  /-- The name of a database asks another machine for it. -/
  | badAuthority (authority : String)
  /-- The name of a database asks for a kind of mode that does not exist. -/
  | unknownMode (kind mode : String)
  /-- The name of a database asks for more than what it asked for before. -/
  | modeNotAllowed (mode : String)
  /-- The name of a database asks for an unknown system of files. -/
  | unknownSystem (system : String)
  | notDatabase
  /-- The file is no longer the one that was opened. -/
  | malformed
  /-- A file that is needed beside that of the database cannot be had. -/
  | cannotOpenFile
  /-- A file cannot be read or removed. -/
  | unreadable
  | locked
  /-- A log cannot be read without an index of it. -/
  | unsettled
  | readOnly
  | noTable (table : String)
  /-- A row with the values of these columns is there already. -/
  | notUnique (columns : List String)
  /-- A stored month is no month. -/
  | badMonth (fault : MonthFault)
deriving DecidableEq, Repr

def DatabaseFault.message : DatabaseFault → String
  | nulByte n => "nul byte found in provided data at position: " ++ toString n
  | cannotOpen name => "unable to open database file: " ++ name
  | badAuthority authority => "invalid uri authority: " ++ authority
  | unknownMode kind mode => "no such " ++ kind ++ " mode: " ++ mode
  | modeNotAllowed mode => "access mode not allowed: " ++ mode
  | unknownSystem system => "no such vfs: " ++ system
  | notDatabase => "file is not a database"
  | malformed => "database disk image is malformed"
  | cannotOpenFile => "unable to open database file"
  | unreadable => "disk I/O error"
  | locked => "database is locked"
  | unsettled => "locking protocol"
  | readOnly => "attempt to write a readonly database"
  | noTable table => "no such table: " ++ table
  | notUnique columns => "UNIQUE constraint failed: " ++ ", ".intercalate columns
  | badMonth fault => "Conversion error from type Text at index: 2, " ++ fault.message

/-- What is wrong with a configuration. -/
inductive ConfigFault where
  | zeroDefaultCeiling
  | zeroDepartmentCeiling (department : String)
  | weekday (weekday : UInt32)
  | timeOfDay (hour minute : UInt32)
  | threshold
deriving DecidableEq, Repr

def ConfigFault.message : ConfigFault → String
  | zeroDefaultCeiling => "default_ceiling_minutes must be > 0"
  | zeroDepartmentCeiling d => "ceiling for department '" ++ d ++ "' must be > 0"
  | weekday w => "force_window.weekday " ++ toString w.toNat ++ " not in 0..=6"
  | timeOfDay h m =>
    "force_window time " ++ String.ofList (Numeral.padded 2 h.toNat ++ ':' ::
      Numeral.padded 2 m.toNat) ++ " is not a valid time of day"
  | threshold => "self_notify.force_threshold_percent must be > 0"

/-- Why there are no figures for a month. -/
inductive SourceFault where
  | roster (path : String) (fault : FileFault)
  | noExport
deriving DecidableEq, Repr

def SourceFault.message : SourceFault → String
  | roster path fault => "cannot read " ++ path ++ ": " ++ fault.message
  | noExport => "monthly export not found"

/-- Stands for the words of the reader on a JSON text that cannot be read. -/
def jsonComplaint : String := "<json error>"

/-- A failed operation. -/
inductive Failure where
  | database (fault : DatabaseFault)
  | malformed
  | file (fault : FileFault)
  | config (fault : ConfigFault)
  | missingCeiling (department : String)
  | source (month : Month) (fault : SourceFault)
  | corruptState (reason : String)
  /-- The operation was broken off. -/
  | violation (violation : Violation)
deriving DecidableEq, Repr

def Failure.message : Failure → String
  | database fault => "Database error: " ++ fault.message
  | malformed => "Serialization error: " ++ jsonComplaint
  | file fault => "I/O error: " ++ fault.message
  | config fault => "Invalid configuration: " ++ fault.message
  | missingCeiling d => "No ceiling for department '" ++ d ++ "' and no default ceiling configured"
  | source month fault =>
    "Overtime source unavailable for " ++ month.text ++ ": " ++ fault.message
  | corruptState reason => "Corrupt notification state: " ++ reason
  | violation v => v.message

end OvertimeNotice
