import Conformance.Command.Outcome

/-!
# The program

The program takes a picture of the files that a command line is about, and gives the outcome of the command line on it.
The picture holds the current folder, everything that an argument names, and the targets of the rules found there.
-/

namespace Conformance.Main

/-- How deep folders are looked into, so that links cannot lead round for ever. -/
def greatestDepth : Nat := 64

/-- What lies at a place of the file system, if it can be read. -/
def picture? : Nat → String → IO (Option Tree)
  | 0, _ => return none
  | depth + 1, place => do
    try
      let path ← IO.FS.realPath place
      if ← path.isDir then
        let entries ← path.readDir
        let trees ← entries.toList.mapM fun e => do
          return (← picture? depth (place ++ "/" ++ e.fileName)).map fun t => (e.fileName, t)
        return some (.folder (trees.filterMap id))
      else return some (.file (← IO.FS.readBinFile path))
    catch _ => return none

/-- The disk with what lies at a path, if anything does that it does not hold yet. -/
def withPicture (d : Disk) (p : Path) : IO Disk := do
  if (d.get p).toOption.isSome then return d
  match ← picture? greatestDepth p.toString with
  | some t => return { d with root := d.root.graft t (d.resolve p).parts }
  | none => return d

/-- The disk that a command line is about. -/
def disk (args : List String) : IO Disk := do
  let current := Path.ofString (← IO.currentDir).toString
  let here := (← picture? greatestDepth current.toString).getD (.folder [])
  let start : Disk := { root := Tree.graft (.folder []) here current.parts, current := current.parts }
  let named ← args.foldlM (fun d arg => withPicture d (Path.ofString arg)) start
  (Outcome.targets named args).foldlM withPicture named

end Conformance.Main

open Conformance in
/-- Runs a command line. The time that is reported is the time of reading the files. -/
def main (args : List String) : IO UInt32 := do
  let start ← IO.monoMsNow
  let d ← Main.disk args
  let stop ← IO.monoMsNow
  match Outcome.ofArguments d (stop - start).toFloat args with
  | .exit code output errors =>
    (← IO.getStderr).putStr errors
    (← IO.getStdout).putStr output
    return code.toUInt32
  | .failure _ =>
    (← IO.getStderr).putStrLn "Error: the settings file cannot be used"
    return 1
