import Gamebook.Cli.Report

/-!
The program. It looks at the files that a command line names, and prints what is to be answered.
-/

namespace Gamebook.Cli

/-- The written paths that a command line leads to. -/
def Invocation.paths (invocation : Invocation) : List String :=
  let config := invocation.config.toList.flatMap fun name => [name, name ++ ".toml"]
  match invocation.task with
  | some (.parse file _) | some (.tokens file) => file :: config
  | some (.check directory) | some (.symbols directory _) => directory :: config
  | none => config

/-- The places that a path leads through, without those that lead back. -/
def places (start : Path) (names : List String) : List Path :=
  let step (found : List Path × Path) (name : String) :=
    let place :=
      if name.isEmpty || name == "." then found.2
      else if name == ".." then found.2.dropLast
      else found.2 ++ [name]
    (found.1 ++ [place], place)
  (names.foldl step ([start], start)).1

/-- What there is at a path on disk. -/
def look (path : Path) : IO (List (Path × FileContent)) := do
  try
    let found ← IO.FS.realPath path.render
    if ← found.isDir then return [(path, .directory)]
    return [(path, .file (← IO.FS.readBinFile found).toList)]
  catch _ => return []

/-- The files of a directory on disk. -/
def lookInto (path : Path) : IO (List (Path × FileContent)) := do
  try
    let found ← IO.FS.realPath path.render
    let mut entries := []
    for item in ← found.readDir do
      entries := entries ++ (← look (path ++ [item.fileName]))
    return entries
  catch _ => return []

/-- The part of the disk that written paths lead to. -/
def filesAt (written : List String) : IO Files := do
  let here ← IO.currentDir
  let workingDirectory := (Path.names here.toString).filter (!·.isEmpty)
  let mut entries := []
  for path in written do
    let start := if path.toList.head? == some '/' then [] else workingDirectory
    let way := places start (Path.names path)
    for place in way do
      entries := entries ++ (← look place)
    entries := entries ++ (← lookInto (way.getLast?.getD start))
  return { workingDirectory, entries := entries.eraseDupsBy fun one other => one.1 == other.1 }

end Gamebook.Cli

open Gamebook.Cli in
/-- Answers a command line; the exit code is the result. -/
def main (arguments : List String) : IO UInt32 := do
  let paths := match read arguments with
    | .ok invocation => invocation.paths
    | .error _ => []
  let report := run arguments (← filesAt paths)
  IO.print report.output
  IO.eprint report.errors
  return report.exit.toUInt32
