import AnnotatedSql.CommandLine.Execute
/-!
# The program

What a command may look at is copied from the file system to a disk; the command is run on that
disk, and what it changed there is written back.
-/

open AnnotatedSql

/-- Copies what one path leads to, with the directories above it. Of a directory only its being
there is copied. -/
def copyPath (d : Disk) (path : String) : IO Disk := do
  let here ← IO.currentDir
  let mut d := d
  for p in (path :: Path.parents path).reverse do
    if p != "" then
      let file := here / p
      if ← file.isDir then
        d := (d.makeDirs p).1
      else if ← file.pathExists then
        d := (d.writeBytes p (← IO.FS.readBinFile file)).toOption.getD d
  return d

/-- Copies a directory with the sources in it. -/
def copySources (d : Disk) (dir : String) : IO Disk := do
  let mut d ← copyPath d dir
  if d.isDir dir then
    for entry in ← ((← IO.currentDir) / dir).readDir do
      if (Path.stem? Collect.extension entry.fileName).isSome then
        d ← copyPath d (Path.join dir entry.fileName)
  return d

/-- Copies all that a command may look at. -/
def copyFor (d : Disk) (o : CommandLine.Options) : IO Disk := do
  let d ← copyPath d (o.config.getD Config.fileName)
  match CommandLine.loadConfig d o.config with
  | .error _ => return d
  | .ok config =>
    let config := CommandLine.override o config
    let l := config.layout
    let d ← copySources d config.input
    let files := ((Generation.mk [] config.mode).files l).map (·.path)
    (files ++ [Manifest.path l.client, Manifest.path l.package]).foldlM copyPath d

/-- Writes back what differs between two disks, of which the second has all that the first
has. -/
def writeBack (before after : Disk) : IO Unit := do
  for l in after.root.listing "/" do
    match l.content with
    | none => if !before.isDir l.path then IO.FS.createDirAll l.path
    | some content =>
      let same := match before.find l.path with
        | .ok (.file old) => old == content
        | _ => false
      if !same then IO.FS.writeBinFile l.path content

/-- The disk on which a command line is run. -/
def diskFor (args : List String) : IO Disk := do
  let place := (← IO.currentDir).components.filter (· != "")
  let d : Disk := { root := Disk.Tree.put (.dir []) place (.dir []), workingDir := place }
  match CommandLine.parse args with
  | .ok (.generate o) | .ok (.check o) => copyFor d o
  | _ => return d

def main (args : List String) : IO UInt32 := do
  let before ← diskFor args
  let ended := CommandLine.run before args
  writeBack before ended.disk
  IO.print ended.stdout
  IO.eprint ended.stderr
  return ended.exitCode.toUInt32
