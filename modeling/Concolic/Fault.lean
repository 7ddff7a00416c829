/-
  Faults of the operating system: why a file or process operation failed.
-/

namespace Concolic

/-- The classes of cause. -/
inductive Fault.Kind where
  | notFound
  | permissionDenied
  | alreadyExists
  | invalidInput
  | invalidData
  | timedOut
  | interrupted
  | notADirectory
  | isADirectory
  | directoryNotEmpty
  | readOnlyFilesystem
  | filesystemLoop
  | invalidFilename
  | resourceBusy
  | executableFileBusy
  | crossesDevices
  | tooManyLinks
  | fileTooLarge
  | storageFull
  | outOfMemory
  | argumentListTooLong
  | wouldBlock
  | brokenPipe
  | unsupported
  | uncategorized
  | other
  deriving DecidableEq, Repr

/-- The text of a bare kind. -/
def Fault.Kind.description : Fault.Kind → String
  | .notFound => "entity not found"
  | .permissionDenied => "permission denied"
  | .alreadyExists => "entity already exists"
  | .invalidInput => "invalid input parameter"
  | .invalidData => "invalid data"
  | .timedOut => "timed out"
  | .interrupted => "operation interrupted"
  | .notADirectory => "not a directory"
  | .isADirectory => "is a directory"
  | .directoryNotEmpty => "directory not empty"
  | .readOnlyFilesystem => "read-only filesystem or storage medium"
  | .filesystemLoop => "filesystem loop or indirection limit (e.g. symlink loop)"
  | .invalidFilename => "invalid filename"
  | .resourceBusy => "resource busy"
  | .executableFileBusy => "executable file busy"
  | .crossesDevices => "cross-device link or rename"
  | .tooManyLinks => "too many links"
  | .fileTooLarge => "file too large"
  | .storageFull => "no storage space"
  | .outOfMemory => "out of memory"
  | .argumentListTooLong => "argument list too long"
  | .wouldBlock => "operation would block"
  | .brokenPipe => "broken pipe"
  | .unsupported => "unsupported"
  | .uncategorized => "uncategorized error"
  | .other => "other error"

/-- An error number, a bare kind, or a kind with a text of its own. -/
inductive Fault where
  /-- The system refused with an error number. -/
  | os (code : Nat)
  /-- A failure known by its kind alone. -/
  | plain (kind : Fault.Kind)
  /-- A failure with its own text. -/
  | described (kind : Fault.Kind) (text : String)
  deriving DecidableEq, Repr

namespace Fault

/-! ## Error numbers -/

/-- The texts of the error numbers. -/
def texts : List (Nat × String) :=
  [(0, "Success"), (1, "Operation not permitted"), (2, "No such file or directory"),
   (3, "No such process"),
   (4, "Interrupted system call"), (5, "Input/output error"), (6, "No such device or address"),
   (7, "Argument list too long"), (8, "Exec format error"), (9, "Bad file descriptor"),
   (10, "No child processes"), (11, "Resource temporarily unavailable"),
   (12, "Cannot allocate memory"), (13, "Permission denied"), (14, "Bad address"),
   (15, "Block device required"), (16, "Device or resource busy"), (17, "File exists"),
   (18, "Invalid cross-device link"), (19, "No such device"), (20, "Not a directory"),
   (21, "Is a directory"), (22, "Invalid argument"), (23, "Too many open files in system"),
   (24, "Too many open files"), (25, "Inappropriate ioctl for device"), (26, "Text file busy"),
   (27, "File too large"), (28, "No space left on device"), (29, "Illegal seek"),
   (30, "Read-only file system"), (31, "Too many links"), (32, "Broken pipe"),
   (33, "Numerical argument out of domain"), (34, "Numerical result out of range"),
   (35, "Resource deadlock avoided"), (36, "File name too long"), (37, "No locks available"),
   (38, "Function not implemented"), (39, "Directory not empty"),
   (40, "Too many levels of symbolic links"), (42, "No message of desired type"),
   (43, "Identifier removed"), (44, "Channel number out of range"),
   (45, "Level 2 not synchronized"), (46, "Level 3 halted"), (47, "Level 3 reset"),
   (48, "Link number out of range"), (49, "Protocol driver not attached"),
   (50, "No CSI structure available"), (51, "Level 2 halted"), (52, "Invalid exchange"),
   (53, "Invalid request descriptor"), (54, "Exchange full"), (55, "No anode"),
   (56, "Invalid request code"), (57, "Invalid slot"), (59, "Bad font file format"),
   (60, "Device not a stream"), (61, "No data available"), (62, "Timer expired"),
   (63, "Out of streams resources"), (64, "Machine is not on the network"),
   (65, "Package not installed"), (66, "Object is remote"), (67, "Link has been severed"),
   (68, "Advertise error"), (69, "Srmount error"), (70, "Communication error on send"),
   (71, "Protocol error"), (72, "Multihop attempted"), (73, "RFS specific error"),
   (74, "Bad message"), (75, "Value too large for defined data type"),
   (76, "Name not unique on network"), (77, "File descriptor in bad state"),
   (78, "Remote address changed"), (79, "Can not access a needed shared library"),
   (80, "Accessing a corrupted shared library"), (81, ".lib section in a.out corrupted"),
   (82, "Attempting to link in too many shared libraries"),
   (83, "Cannot exec a shared library directly"),
   (84, "Invalid or incomplete multibyte or wide character"),
   (85, "Interrupted system call should be restarted"), (86, "Streams pipe error"),
   (87, "Too many users"), (88, "Socket operation on non-socket"),
   (89, "Destination address required"), (90, "Message too long"),
   (91, "Protocol wrong type for socket"), (92, "Protocol not available"),
   (93, "Protocol not supported"), (94, "Socket type not supported"),
   (95, "Operation not supported"), (96, "Protocol family not supported"),
   (97, "Address family not supported by protocol"), (98, "Address already in use"),
   (99, "Cannot assign requested address"), (100, "Network is down"),
   (101, "Network is unreachable"), (102, "Network dropped connection on reset"),
   (103, "Software caused connection abort"), (104, "Connection reset by peer"),
   (105, "No buffer space available"), (106, "Transport endpoint is already connected"),
   (107, "Transport endpoint is not connected"),
   (108, "Cannot send after transport endpoint shutdown"),
   (109, "Too many references: cannot splice"), (110, "Connection timed out"),
   (111, "Connection refused"), (112, "Host is down"), (113, "No route to host"),
   (114, "Operation already in progress"), (115, "Operation now in progress"),
   (116, "Stale file handle"), (117, "Structure needs cleaning"),
   (118, "Not a XENIX named type file"), (119, "No XENIX semaphores available"),
   (120, "Is a named type file"), (121, "Remote I/O error"), (122, "Disk quota exceeded"),
   (123, "No medium found"), (124, "Wrong medium type"), (125, "Operation canceled"),
   (126, "Required key not available"), (127, "Key has expired"), (128, "Key has been revoked"),
   (129, "Key was rejected by service"), (130, "Owner died"), (131, "State not recoverable"),
   (132, "Operation not possible due to RF-kill"), (133, "Memory page has hardware error")]

/-- The text of an error number; a number outside the table is named as such. -/
def text (code : Nat) : String :=
  match texts.lookup code with
  | some t => t
  | none => "Unknown error " ++ Nat.repr code

/-- The kind that an error number stands for. -/
def kindOfCode : Nat → Kind
  | 1 => .permissionDenied
  | 2 => .notFound
  | 4 => .interrupted
  | 7 => .argumentListTooLong
  | 11 => .wouldBlock
  | 12 => .outOfMemory
  | 13 => .permissionDenied
  | 16 => .resourceBusy
  | 17 => .alreadyExists
  | 18 => .crossesDevices
  | 20 => .notADirectory
  | 21 => .isADirectory
  | 22 => .invalidInput
  | 26 => .executableFileBusy
  | 27 => .fileTooLarge
  | 28 => .storageFull
  | 30 => .readOnlyFilesystem
  | 31 => .tooManyLinks
  | 32 => .brokenPipe
  | 36 => .invalidFilename
  | 38 => .unsupported
  | 39 => .directoryNotEmpty
  | 40 => .filesystemLoop
  | 95 => .unsupported
  | 110 => .timedOut
  | _ => .uncategorized

/-- The class of cause that callers branch on. -/
def kind : Fault → Kind
  | os code => kindOfCode code
  | plain k => k
  | described k _ => k

/-- The text of a fault: an error number is shown after its text. -/
def message : Fault → String
  | os code => text code ++ " (os error " ++ Nat.repr code ++ ")"
  | plain k => k.description
  | described _ t => t

/-! ## The faults of the file operations -/

/-- The operation is not permitted on this kind of entry. -/
def notPermitted : Fault := os 1
/-- A name on the way, or the last one, does not exist. -/
def notFound : Fault := os 2
/-- Nothing stands behind the device. -/
def noDevice : Fault := os 6
/-- The file is no program of a known format. -/
def execFormat : Fault := os 8
/-- The descriptor is not open for this. -/
def badDescriptor : Fault := os 9
/-- What was read has no end, and no room. -/
def outOfMemory : Fault := plain .outOfMemory
def accessDenied : Fault := os 13
/-- The last component cannot be moved. -/
def busy : Fault := os 16
def alreadyExists : Fault := os 17
/-- The two names would be on different devices. -/
def otherDevice : Fault := os 18
def notADirectory : Fault := os 20
/-- A directory stands where a file was needed. -/
def isADirectory : Fault := os 21
/-- The operation makes no sense on this path. -/
def invalidArgument : Fault := os 22
def noSpace : Fault := os 28
/-- A name or the whole path is too long. -/
def nameTooLong : Fault := os 36
def notEmpty : Fault := os 39
/-- Too many symbolic links on one walk. -/
def linkLoop : Fault := os 40
/-- The bytes are not UTF-8. -/
def notText : Fault := described .invalidData "stream did not contain valid UTF-8"
/-- The path has a NUL in it. -/
def nulInPath : Fault := described .invalidInput "file name contained an unexpected NUL byte"
/-- A program name or argument holds the character NUL. -/
def nulInArgument : Fault := described .invalidInput "nul byte found in provided data"
/-- What is to be copied is no file. -/
def notRegular : Fault := described .invalidInput
  "the source path is neither a regular file nor a symlink to a regular file"
/-- No directory of the path could be created. -/
def noTree : Fault := described .uncategorized "failed to create whole tree"

end Fault

end Concolic
