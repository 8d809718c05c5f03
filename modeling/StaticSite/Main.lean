import Std.Time.DateTime.Timestamp
import StaticSite.Calendar
import StaticSite.Command.Run
import StaticSite.Tree

/-!
# The command on a disk

Reads from the disk what a run can meet, runs the command on it, and carries out on the disk what
the run changed. All times are universal times.
-/

namespace StaticSite.Disk

/-- Adds an entry, unless the tree has one at its place: a directory stays before what it holds. -/
def note (tree : Tree) (place : Place) (what : Stored) : Tree :=
  if (tree.find? place).isSome then tree else tree.plant place what

/--
Reads what stands at a place and, if asked to, what lies beneath it. What cannot be reached is not
there.
-/
partial def read (beneath : Bool) (tree : Tree) (place : Place) : IO Tree := do
  let .ok path ← (IO.FS.realPath (Tree.pathOf place).text).toBaseIO | return tree
  if ← path.isDir then
    let tree := note tree place .directory
    if beneath then
      (← path.readDir).foldlM (fun tree entry => read true tree (place ++ [entry.fileName])) tree
    else return tree
  else return note tree place (.file (← IO.FS.readBinFile path).toList)

/-- Reads the places that a path passes through, and what lies beneath the last. -/
def readAlong (tree : Tree) (path : Path) : IO Tree := do
  let places := Command.placesOf tree path
  let tree ← places.foldlM (read false) tree
  (places.getLast?.toList).foldlM (read true) tree

/-- Reads what a run can meet. -/
def survey (home : Place) (arguments : List String) : IO Tree := do
  let tree ← (Command.configPath? arguments).toList.foldlM readAlong (Tree.ofList home [])
  (Command.pathsNamed tree arguments).foldlM readAlong tree

def perform : Change → IO Unit
  | .removeFile place => IO.FS.removeFile (Tree.pathOf place).text
  | .removeDirectory place => IO.FS.removeDir (Tree.pathOf place).text
  | .makeDirectory place => IO.FS.createDir (Tree.pathOf place).text
  | .write place bytes => IO.FS.writeBinFile (Tree.pathOf place).text bytes.toByteArray

/-- The present moment. -/
def now : IO DateTime := do
  return .ofEpoch ((← Std.Time.Timestamp.now).toNanosecondsSinceUnixEpoch.val.toNat / 1000)

/-- Milliseconds as seconds with two decimals. -/
def secondsText (milliseconds : Nat) : String :=
  let hundredths := (milliseconds + 5) / 10
  toString (hundredths / 100) ++ "." ++ Calendar.digits 2 (hundredths % 100)

/-- The start of a line of the log. -/
def clockText (moment : DateTime) : String :=
  moment.date.text ++ " " ++ { moment.time with microsecond := 0 }.text ++ " "

/-- Tells what a run said, and the exit code that it ended with. -/
def conclude (program time duration : String) (report : Command.Report) : IO UInt32 := do
  for speech in report.speech do
    IO.print (speech.printout duration)
    IO.eprint (speech.report program time)
  match report.ending with
  | .exit code => return code.toUInt32
  | .fault fault =>
    IO.eprintln (program ++ ": " ++ fault.message)
    return 1

end StaticSite.Disk

open StaticSite in
def main (arguments : List String) : IO UInt32 := do
  let begun ← IO.monoMsNow
  let moment ← Disk.now
  let home := (Path.ofText (← IO.currentDir).toString).names
  let tree ← Disk.survey home arguments
  let report := Command.run tree moment arguments
  (Change.between tree report.tree).forM Disk.perform
  let duration := Disk.secondsText ((← IO.monoMsNow) - begun)
  let program := (← IO.appPath).fileName.getD ""
  Disk.conclude program (Disk.clockText moment) duration report
