/-
Monitors: trees whose leaves get every notice of a frontier, from left to right. A leaf may keep
silent, record what it gets, or write a progress table.
-/
import BranchBound.Monitor.Table
import BranchBound.Text.Quoted

namespace BranchBound

/-- What a monitor puts out. -/
inductive Output (f : Format) where
  /-- The monitor of that name got a notice. -/
  | recorded (name : String) (notice : Notice f)
  /-- A line was written. -/
  | written (line : String)
  deriving DecidableEq

/-- A monitor that has no parts. -/
inductive Watcher (f : Format) where
  /-- Keeps silent. -/
  | silent
  /-- Records every notice under its name. -/
  | recorder (name : String)
  /-- Writes a progress table. -/
  | table (table : ProgressTable f)
  deriving DecidableEq

namespace Watcher

variable {f : Format}

/-- The name of a monitor. -/
def name : Watcher f → String
  | silent => "NoOperationMonitor"
  | recorder name => name
  | table _ => ProgressTable.name

/-- The monitor after a notice, and what it puts out. -/
def observe (w : Watcher f) (notice : Notice f) : Watcher f × List (Output f) :=
  match w with
  | silent => (silent, [])
  | recorder name => (recorder name, [.recorded name notice])
  | table t =>
    let next := t.observe notice
    (table next.1, next.2.map .written)

end Watcher

/-- A monitor, which passes every notice on to its parts in order. -/
inductive Monitor (f : Format) where
  /-- A monitor without parts. -/
  | leaf (watcher : Watcher f)
  /-- A monitor made of others. -/
  | composite (parts : List (Monitor f))

namespace Monitor

variable {f : Format}

/-- The monitor of a frontier that nobody watches. -/
def silent : Monitor f := leaf .silent

/-- The parts of a monitor. -/
def parts : Monitor f → List (Monitor f)
  | leaf _ => []
  | composite parts => parts

/-- The name of a monitor. -/
def name : Monitor f → String
  | leaf watcher => watcher.name
  | composite _ => "CompositeFrontierMonitor"

mutual

/-- The monitor after a notice, and what its leaves put out. -/
def observe (notice : Notice f) : Monitor f → Monitor f × List (Output f)
  | leaf watcher =>
    let next := watcher.observe notice
    (leaf next.1, next.2)
  | composite parts =>
    let next := observeAll notice parts
    (composite next.1, next.2)

/-- Monitors after a notice that they got one after the other, and what their leaves put out. -/
def observeAll (notice : Notice f) : List (Monitor f) → List (Monitor f) × List (Output f)
  | [] => ([], [])
  | part :: rest =>
    let first := observe notice part
    let others := observeAll notice rest
    (first.1 :: others.1, first.2 ++ others.2)

end

/-- The monitor after some notices, and what its leaves put out. -/
def observeEach (m : Monitor f) : List (Notice f) → Monitor f × List (Output f)
  | [] => (m, [])
  | notice :: rest =>
    let next := m.observe notice
    let last := next.1.observeEach rest
    (last.1, next.2 ++ last.2)

/-- A part of a monitor by its kind and name. -/
def label (m : Monitor f) : String := "FrontierMonitor(" ++ m.name ++ ")"

/-- The names of the parts of a monitor as a list of quoted strings. -/
def literal (m : Monitor f) : String :=
  "[" ++ ", ".intercalate (m.parts.map fun part => Text.quoted part.name) ++ "]"

end Monitor

end BranchBound
