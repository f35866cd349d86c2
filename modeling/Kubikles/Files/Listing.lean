/-
The files of a directory in a pod (pkg/k8s/fileops.go).

# The listing

`ListFiles` has `ls -laL --time-style=long-iso` print the directory and
reads what is printed line by line (`parseListOutput`). A line's words are
what is between white space, the name is what is behind the first word
that looks like a time or a year, and it is joined again with single
spaces. It is sorted with a sort of which only matters that nothing is
lost.

# What is printed

A directory is a list of entries with names of their own (`Directory`).
Each is printed as a line of columns, numbers to the right and owners to
the left (`Entry.line`). The columns may be of any width. A link that is
followed is printed as what it leads to, and a device has two numbers in
the place of a size. Users and groups have names without white space.

# Archives

The commands that archive and extract files in a pod
(pkg/k8s/fileops.go).

# The commands

`DownloadFolder`, `DownloadFiles` and `UploadFolder` give `sh -c` a command
line that is put together from paths and names. Only the names of
`DownloadFiles` are quoted.

# What they are for

A command line changes to a directory and has `tar` archive members of it,
or extract what it is given there (`Archives`, `Extracts`). An argument of
`cd` or `tar` that begins with a dash is an option, or, for `cd`, the
directory that was left; a dash alone is a member of an archive.
-/
import Kubikles.Lib.Words
import Mathlib.Algebra.Group.Nat.Defs
import Mathlib.Algebra.Ring.Int.Defs
import Kubikles.Lib.Shell

namespace Files

open Text

-- ======== the parser

structure FileInfo where
  name : Text
  isDir : Bool
  size : Int
  permissions : Text
  owner : Text
  group : Text
  modTime : Text
deriving DecidableEq

def isDigit (b : UInt8) : Bool := 48 ≤ b && b ≤ 57

def digitsValue (digits : Text) : Nat :=
  digits.foldl (fun n b => 10 * n + (b.toNat - 48)) 0

def readSign : Text → Bool × Text
  | b :: s =>
    if b = 43 then (false, s) else if b = 45 then (true, s)
    else (false, b :: s)
  | [] => (false, [])

/-- `strconv.ParseInt` in 64 bits, and `strconv.Atoi`, whose error is what
matters: the text of a number. -/
def isNumber (s : Text) : Bool :=
  let (_, digits) := readSign s
  digits ≠ [] && digits.all isDigit

/-- `strconv.ParseInt(s, 10, 64)`, its error passed over: 0 for what is no
number, and the nearest one for a number that is too large. -/
def parseInt (s : Text) : Int :=
  if isNumber s then
    let (negative, digits) := readSign s
    if negative then max (-2 ^ 63) (-(digitsValue digits : Int))
    else min (2 ^ 63 - 1) (digitsValue digits)
  else 0

def colon : UInt8 := 58

/-- It looks like a time: `HH:MM`. -/
def looksLikeTime (field : Text) : Bool :=
  field.contains colon && field.length ≤ 5

def looksLikeYear (field : Text) : Bool :=
  field.length = 4 && isNumber field

/-- The loop that finds the name, from a place on; 0 if there is none. -/
def findName (i : Nat) : List Text → Nat
  | [] => 0
  | field :: fields =>
    if looksLikeTime field then i + 1
    else if looksLikeYear field then i + 1
    else findName (i + 1) fields

/-- `" -> "`. -/
def arrow : Text := [32, 45, 62, 32]

def cutArrow : Text → Text
  | [] => []
  | b :: s => if arrow.isPrefixOf (b :: s) then [] else b :: cutArrow s

def parseLsLine (line : Text) : Option FileInfo :=
  let fields := fields line
  match fields with
  | perms :: _ :: owner :: group :: sizeStr :: rest =>
    if fields.length < 8 then none
    else
      let nameStartIdx := findName 5 rest
      let start :=
        if nameStartIdx = 0 ∨ nameStartIdx ≥ fields.length then
          if fields.length ≥ 9 then some 8 else none
        else some nameStartIdx
      start.map fun nameStartIdx =>
        { name := cutArrow (joinWords (fields.drop nameStartIdx))
          isDir := perms.head? = some 100
          size := parseInt sizeStr
          permissions := perms
          owner
          group
          modTime := joinWords ((fields.take nameStartIdx).drop 5) }
  | _ => none

/-- `sort.Slice`: it loses nothing. -/
structure SliceSort where
  slice : (FileInfo → FileInfo → Bool) → List FileInfo → List FileInfo
  perm : ∀ less files, (slice less files).Perm files

/-- `"."`. -/
def dot : Text := [46]

def total : Text := [116, 111, 116, 97, 108]

/-- A line of the loop of `parseListOutput`. -/
def parseLine (line : Text) : Option FileInfo :=
  let line := trimSpace line
  if line = [] ∨ total.isPrefixOf line then none
  else
    match parseLsLine line with
    | some fi => if fi.name ≠ dot then some fi else none
    | none => none

/-- Directories first, then by name. -/
def filesLess (toLower : Text → Text) (a b : FileInfo) : Bool :=
  if a.isDir ≠ b.isDir then a.isDir
  else decide (toLower a.name < toLower b.name)

def parseListOutput (sort : SliceSort) (toLower : Text → Text)
    (output : Text) : List FileInfo :=
  sort.slice (filesLess toLower) ((split output).filterMap parseLine)

/-- The command of `DeleteFile`. -/
def deleteFile (filePath : Text) : List Text :=
  [ofString "rm", ofString "-rf", filePath]

-- ======== the listing

def decimal (n : Nat) : Text :=
  (Nat.toDigits 10 n).map fun c => UInt8.ofNat c.toNat

def twoDigits (n : Nat) : Text :=
  [UInt8.ofNat (48 + n / 10), UInt8.ofNat (48 + n % 10)]

/-- A point in time, to the minute. -/
structure Stamp where
  year : Nat
  month : Nat
  day : Nat
  hour : Nat
  minute : Nat
  month_le : month ≤ 12
  day_le : day ≤ 31
  hour_lt : hour < 24
  minute_lt : minute < 60

/-- `2024-01-15`. -/
def Stamp.date (s : Stamp) : Text :=
  decimal s.year ++ 45 :: twoDigits s.month ++ 45 :: twoDigits s.day

/-- `10:30`. -/
def Stamp.time (s : Stamp) : Text :=
  twoDigits s.hour ++ colon :: twoDigits s.minute

/-- What an entry is, behind its links. -/
inductive FileType where
  | regular
  | directory
  | fifo
  | socket
  | characterDevice (major minor : Nat)
  | blockDevice (major minor : Nat)
deriving DecidableEq

/-- The first character of a line. -/
def FileType.char : FileType → UInt8
  | .regular => 45
  | .directory => 100
  | .fifo => 112
  | .socket => 115
  | .characterDevice _ _ => 99
  | .blockDevice _ _ => 98

def FileType.device? : FileType → Option (Nat × Nat)
  | .characterDevice major minor => some (major, minor)
  | .blockDevice major minor => some (major, minor)
  | _ => none

def Word (w : Text) : Prop := Solid w ∧ w ≠ []

structure Entry where
  type : FileType
  /-- The permissions, and a mark behind them if there are others. -/
  bits : Text
  links : Nat
  owner : Text
  group : Text
  /-- Of what is no device. -/
  size : Nat
  stamp : Stamp
  name : Text
  bits_plain : ∀ b ∈ bits, plain b = true
  owner_word : Word owner
  group_word : Word group
  size_lt : size < 2 ^ 63
  name_line : newline ∉ name
  name_ne : name ≠ []
  /-- The directory itself. -/
  dot_type : name = dot → type = .directory

structure Widths where
  links : Nat
  owner : Nat
  group : Nat
  size : Nat
  major : Nat
  minor : Nat

def Entry.mode (e : Entry) : Text := e.type.char :: e.bits

def Entry.sizeColumn (w : Widths) (e : Entry) : Text :=
  match e.type.device? with
  | some (major, minor) =>
    padLeft w.major (decimal major ++ [44])
      ++ space :: padLeft w.minor (decimal minor)
  | none => padLeft w.size (decimal e.size)

def Entry.line (w : Widths) (e : Entry) : Text :=
  e.mode ++ space :: (padLeft w.links (decimal e.links)
    ++ space :: (padRight w.owner e.owner
    ++ space :: (padRight w.group e.group
    ++ space :: (e.sizeColumn w
    ++ space :: (e.stamp.date ++ space :: (e.stamp.time
    ++ space :: e.name))))))

structure Directory where
  blocks : Nat
  entries : List Entry
  names_distinct : (entries.map Entry.name).Nodup

/-- What `ls` prints. -/
def Directory.listing (w : Widths) (d : Directory) : Text :=
  unlines ((total ++ space :: decimal d.blocks)
    :: d.entries.map (Entry.line w))

def pathOf (dirPath name : Text) : Text := dirPath ++ 47 :: name

end Files

namespace Files

open Text Shell

-- ======== commands

/-- `fmt.Sprintf("cd %s && tar cf - %s | gzip", …)`. -/
def tarCommand (directory members : Text) : Text :=
  ofString "cd " ++ (directory ++ (ofString " && tar cf - "
    ++ (members ++ ofString " | gzip")))

/-- The command line of `DownloadFolder`. -/
def downloadFolder (remotePath : Text) : Text :=
  let parentDir := Path.dir remotePath
  let baseName := Path.base remotePath
  tarCommand parentDir baseName

/-- The command line of `DownloadFiles`; a name is quoted by
`"'%s'"` and `strings.ReplaceAll(n, "'", "'\\''")`. -/
def downloadFiles (basePath : Text) (names : List Text) : Text :=
  tarCommand basePath (joinWords (names.map quoted))

/-- The command line of `UploadFolder`. -/
def uploadFolder (remotePath : Text) : Text :=
  ofString "cd " ++ (remotePath ++ ofString " && gunzip | tar xf -")

-- ======== meaning

/-- `'-'`. -/
def dash : UInt8 := 45

/-- The directory that `cd` changes to: its only argument, and no
option. -/
def cdDirectory : List Text → Option Text
  | [directory] =>
    if directory.head? = some dash then none else some directory
  | _ => none

/-- `tar` takes it for an option. -/
def isOption (name : Text) : Bool := name.head? = some dash && name ≠ [dash]

/-- The members that `tar` archives: what is no option. -/
def tarMembers (args : List Text) : List Text × List Text :=
  args.partition (!isOption ·)

/-- The command line archives these members of a directory, and does
nothing else. -/
def Archives (command directory : Text) (names : List Text) : Prop :=
  ∃ cdArgs tarArgs,
    shell command = some [[ofString "cd" :: cdArgs],
      [ofString "tar" :: ofString "cf" :: ofString "-" :: tarArgs,
        [ofString "gzip"]]]
      ∧ cdDirectory cdArgs = some directory
      ∧ tarMembers tarArgs = (names, [])

/-- The command line extracts what it is given in a directory, and does
nothing else. -/
def Extracts (command directory : Text) : Prop :=
  ∃ cdArgs,
    shell command = some [[ofString "cd" :: cdArgs],
      [[ofString "gunzip"],
        [ofString "tar", ofString "xf", ofString "-"]]]
      ∧ cdDirectory cdArgs = some directory

/-- A text that is taken as it is where it is put in a command line. -/
structure Unquoted (s : Text) : Prop where
  bare : Bare s
  /-- No home directory. -/
  tilde : s.head? ≠ some 126
  pattern : pattern (s.map fun b => (b, false)) = false

end Files
