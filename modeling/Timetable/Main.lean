/-
**The program.**

Everything that the program does to the world outside: it looks at its surroundings, reads and
writes the file of the store, tells the time and talks to the terminal.  What is done with what it
finds there is decided elsewhere.

Main definitions:

* `Terminal.surroundings` — the surroundings;
* `Terminal.withStore` — a change of the store in its file;
* `Terminal.call` — **one call of the program**;
* `main` — the program.
-/

import Timetable.Command.Ending
import Timetable.Command.Help
import Timetable.Command.Invocation
import Timetable.Service
import Timetable.Settings.Load

set_option autoImplicit false
set_option relaxedAutoImplicit false

namespace Timetable.Terminal

/-! ### Surroundings -/

/-- The variables in a block of bytes, each of which ends with a zero. -/
def variablesOf (block : ByteArray) : List (String × String) :=
  let bytes := block.toList.map fun b => Text.byte b.toNat
  (Text.splitWhere (fun c => c.toNat == 0) bytes).filterMap fun entry =>
    let name := entry.takeWhile (· != '=')
    match entry.drop name.length with
    | _ :: value => some (Text.ofBytes name, Text.ofBytes value)
    | [] => none

/-- The variables of the environment. -/
def environment : IO (List (String × String)) := do
  match ← (IO.FS.readBinFile "/proc/self/environ").toBaseIO with
  | .ok block => return variablesOf block
  | .error _ =>
    let named ← ["HOME", "CADENCE_CONFIG"].mapM fun name => do
      return (← IO.getEnv name).map (name, ·)
    return named.filterMap id

/-- What is found at a path. -/
def find (path : String) : IO Found := do
  match ← (IO.FS.readFile path).toBaseIO with
  | .ok contents => return .file contents
  | .error (.noFileOrDirectory ..) => return .nothing
  | .error _ => return .obstacle

/-- **The surroundings**, in which no other file than the one of the settings is looked for. -/
def surroundings (config : Option String) : IO Settings.Surroundings := do
  let unread : Settings.Surroundings := { environment := ← environment, file? := fun _ => none }
  let path := Settings.fileOf unread config
  match ← find path with
  | .file contents =>
    return { unread with file? := fun p => if p = path then some contents else none }
  | .nothing | .obstacle => return unread

/-- The seconds since the epoch: the time at which a new file was last changed. -/
def now : IO Int :=
  IO.FS.withTempFile fun _ path => return (← path.metadata).modified.sec

/-! ### The store -/

/-- The folder of a path, if the path names one. -/
def folderOf (path : String) : Option String :=
  let parts := path.splitOn "/"
  let folder := "/".intercalate parts.dropLast
  if folder = "" then none else some folder

/-- The folder of a path is made if it is not there. -/
def makeFolder (path : String) : IO Unit := do
  match folderOf path with
  | some folder => discard (IO.FS.createDirAll folder).toBaseIO
  | none => pure ()

/-- A store is written to its file in one step; the answer says whether that was possible. -/
def save (path : String) (s : Store) : IO Bool := do
  let written ← (do
    IO.FS.writeFile (path ++ ".new") (s.toJson.render ++ "\n")
    IO.FS.rename (path ++ ".new") path : IO Unit).toBaseIO
  return written.toBool

/-- An action while no other call changes the store. -/
def locked {α : Type} (path : String) (act : IO α) : IO α := do
  match ← (IO.FS.Handle.mk (path ++ ".lock") .append).toBaseIO with
  | .error _ => act
  | .ok handle =>
    handle.lock
    try act
    finally handle.unlock

/-- **A change of the store in its file**; a store without a file lives as long as the call. -/
def withStore {α : Type} (path : String) (change : Store → α × Store) :
    IO (Except OpenFailure α) := do
  if !Store.isKept path then return .ok (change .empty).1
  makeFolder path
  locked path do
    match Store.openFound path (← find path) with
    | .error e => return .error e
    | .ok store =>
      let (answer, store) := change store
      if ← save path store then return .ok answer
      return .error (.unopenable path)

/-! ### Commands -/

/-- The service goes on for ever. -/
partial def serveOn (settings : Settings) : IO OpenFailure := do
  IO.sleep settings.scheduler.tickMs.toUInt32
  let time ← now
  match ← withStore settings.databasePath fun s =>
      ((), Service.pass settings.scheduler time s) with
  | .ok () => serveOn settings
  | .error e => return e

/-- The scheduler runs until it is interrupted, or until its store is lost. -/
def serve (settings : Settings) : IO Ending := do
  let settings := { settings with scheduler := settings.scheduler.normalized }
  let path := settings.databasePath
  let time ← now
  match ← withStore path (Service.begin settings.scheduler time) with
  | .error e => return .failed (Command.openingCauses path e)
  | .ok (.error e) => return .failed [e.message]
  | .ok (.ok ()) => return .failed (Command.openingCauses path (← serveOn settings))

/-- A management command. -/
def manage (settings : Settings) (command : JobCommand) : IO Ending := do
  let time ← now
  match ← withStore settings.databasePath (command.program time).runStore with
  | .error e => return .failed (Command.openingCauses settings.databasePath e)
  | .ok (.error e) => return .failed e.causes
  | .ok (.ok v) => return .answered v

/-- **One call of the program.** -/
def call (words : List String) : IO Ending := do
  match Invocation.parse words with
  | .error e => return .refused e
  | .ok invocation =>
    let settings := Settings.loadOrUsual (← surroundings invocation.config) invocation.config
    match invocation.command with
    | .serve => serve settings
    | .manage command => manage settings command

/-- The end of a call is told to the terminal. -/
def tell (ending : Ending) : IO Unit := do
  match ending with
  | .answered v => IO.print (Ending.output v)
  | .failed causes => IO.eprint (Ending.report causes)
  | .refused e =>
    if ending.code = 0 then IO.println e.reply else IO.eprintln e.reply

end Timetable.Terminal

/-- The program. -/
def main (words : List String) : IO UInt32 := do
  let ending ← Timetable.Terminal.call words
  Timetable.Terminal.tell ending
  return ending.code.toUInt32
