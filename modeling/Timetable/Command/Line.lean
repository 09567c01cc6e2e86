/-
**The words of a command line.**

A command line is read word by word and level by level: a word may name the command of the next
level, set a flag, begin an option that takes a value, or be a target.  Which words are which is
said by the grammar of the level; what was read is collected, and an option whose value has not been
looked at yet is kept *pending* until the next word shows that it is complete.

Main definitions:

* `UsageError` — why a command line is refused, or not carried out;
* `Grammar` — what a level accepts;
* `Reading` — what has been read of a level;
* `Grammar.settle` — taking a pending option into account;
* `Grammar.read` — **reading a level**, up to its end or to the command of the next level.

Main results:

* `Grammar.length_rest_lt` — the next level has fewer words.
-/

import Timetable.Text.Blank

set_option autoImplicit false
set_option relaxedAutoImplicit false

namespace Timetable.Command

/-! ### Errors -/

/-- Why a command line is refused, or answered with help instead. -/
inductive UsageError where
  /-- A word has no meaning where it stands. -/
  | unknownArgument
  /-- An option has no value. -/
  | missingValue
  /-- The value of an option is not possible. -/
  | badValue
  /-- A flag has a value. -/
  | unexpectedValue
  /-- Something is given twice, or together with something that excludes it. -/
  | conflict
  /-- Something that must be given is not. -/
  | missingArgument
  /-- There is no such command. -/
  | unknownCommand
  /-- A command is missing after other arguments. -/
  | missingCommand
  /-- A command is missing, and nothing else is there. -/
  | nothingGiven
  /-- Help is asked for. -/
  | help
  /-- The version is asked for. -/
  | version
  deriving Repr, DecidableEq

/-! ### Grammars -/

/-- **What a level of the command line accepts.** -/
structure Grammar where
  /-- The names of the commands that lead to this level. -/
  path : List String
  /-- The flags, without their dashes. -/
  flags : List String
  /-- The options that take a value, each with the values that are possible. -/
  options : List (String × (String → Bool))
  /-- Whether a word may be the target of the command. -/
  takesTarget : Bool
  /-- Whether the version may be asked for. -/
  showsVersion : Bool

/-- The names of the commands below a path of commands. -/
def commandNames : (path : List String) → List String
  | [] => ["serve", "job", "runs", "help"]
  | ["job"] => ["add", "list", "disable", "delete", "help"]
  | _ => []

namespace Grammar

/-- The names of the commands of the next level. -/
def commands (g : Grammar) : List String := commandNames g.path

/-- A word names a command of the next level. -/
def isCommand (g : Grammar) (word : String) : Bool := g.commands.contains word

end Grammar

/-! ### What has been read -/

/-- **What has been read of a level.** -/
structure Reading where
  /-- The flags. -/
  flags : List String := []
  /-- The options with their values. -/
  values : List (String × String) := []
  /-- The target. -/
  target : Option String := none
  /-- An option that has been begun, and its value once it has been read. -/
  pending : Option (String × Option String) := none
  deriving Repr, DecidableEq

namespace Reading

/-- A flag is set. -/
def flag (r : Reading) (name : String) : Bool := r.flags.contains name

/-- The value of an option. -/
def value? (r : Reading) (name : String) : Option String := r.values.lookup name

/-- Nothing has been read. -/
def isEmpty (r : Reading) : Bool :=
  r.flags.isEmpty && r.values.isEmpty && r.target.isNone && r.pending.isNone

/-- The next word is the value of an option. -/
def awaitsValue (r : Reading) : Bool :=
  match r.pending with
  | some (_, none) => true
  | _ => false

end Reading

/-! ### Words -/

/-- The name and the value of a word such as `name=value`. -/
def splitAtEquals (cs : List Char) : String × Option String :=
  let name := String.ofList (cs.takeWhile (· != '='))
  match cs.dropWhile (· != '=') with
  | [] => (name, none)
  | _ :: value => (name, some (String.ofList value))

/-- The kinds of words. -/
inductive Word where
  /-- Two dashes: only targets follow. -/
  | escape
  /-- A word that begins with two dashes. -/
  | long (name : String) (value : Option String)
  /-- A word that begins with one dash. -/
  | short (letter : Char)
  /-- Any other word. -/
  | plain
  deriving Repr, DecidableEq

/-- The kind of a word. -/
def Word.ofString (word : String) : Word :=
  match word.toList with
  | ['-', '-'] => escape
  | '-' :: '-' :: rest =>
    let (name, value) := splitAtEquals rest
    long name value
  | '-' :: letter :: _ => short letter
  | _ => plain

/-! ### Reading a level -/

/-- Help about the command that the words name, below a path of commands. -/
def helpAbout (path : List String) : List String → UsageError
  | [] => .help
  | word :: rest =>
    if (commandNames path).contains word then helpAbout (path ++ [word]) rest else .unknownCommand

namespace Grammar

/-- **A pending option is taken into account**: it has a value, it was not given before, and the
value is possible; these are looked at in this order. -/
def settle (g : Grammar) (r : Reading) : Except UsageError Reading :=
  match r.pending with
  | none => .ok r
  | some (_, none) => .error .missingValue
  | some (name, some value) =>
    if (r.value? name).isSome then .error .conflict
    else if (g.options.lookup name).any (· value) then
      .ok { r with values := r.values ++ [(name, value)], pending := none }
    else .error .badValue

/-- Help or the version is asked for, unless the option before is incomplete. -/
def inform (g : Grammar) (r : Reading) (about : UsageError) : Except UsageError Reading := do
  let _ ← g.settle r
  throw about

/-- A word with two dashes. -/
def readLong (g : Grammar) (r : Reading) (name : String) (value : Option String) :
    Except UsageError Reading :=
  if name = "help" ∨ (name = "version" ∧ g.showsVersion) then
    if value.isSome then .error .unexpectedValue
    else g.inform r (if name = "help" then .help else .version)
  else if g.flags.contains name then
    if value.isSome then .error .unexpectedValue
    else do
      let r ← g.settle r
      if r.flag name then throw .conflict
      return { r with flags := r.flags ++ [name] }
  else if (g.options.lookup name).isSome then do
    let r ← g.settle r
    let r := { r with pending := some (name, value) }
    if value.isSome then g.settle r else return r
  else .error .unknownArgument

/-- A word with one dash, of which only the first letter counts. -/
def readShort (g : Grammar) (r : Reading) (letter : Char) : Except UsageError Reading :=
  if letter = 'h' then g.inform r .help
  else if letter = 'V' ∧ g.showsVersion then g.inform r .version
  else .error .unknownArgument

/-- A word that is neither a flag nor an option nor the value of one. -/
def readTarget (g : Grammar) (r : Reading) (trailing : Bool) (word : String) :
    Except UsageError Reading :=
  if g.takesTarget && r.target.isNone then do
    let r ← g.settle r
    return { r with target := some word }
  else if g.commands.isEmpty || (trailing && g.isCommand word) then .error .unknownArgument
  else .error .unknownCommand

/-- A word that does not name a command, before the two dashes. -/
def readWord (g : Grammar) (r : Reading) (word : String) : Except UsageError Reading :=
  match Word.ofString word with
  | .escape => .ok r
  | .long name value => g.readLong r name value
  | .short letter => g.readShort r letter
  | .plain =>
    match r.pending with
    | some (name, none) => .ok { r with pending := some (name, some word) }
    | _ => g.readTarget r false word

/-- The words after the two dashes are targets. -/
def readTrailing (g : Grammar) (r : Reading) (words : List String) : Except UsageError Reading :=
  words.foldlM (g.readTarget · true) r

/-- **Reading a level**: what was read, and the command of the next level with the words after it,
if there is one. -/
def read (g : Grammar) (r : Reading) :
    List String → Except UsageError (Reading × Option (String × List String))
  | [] => .ok (r, none)
  | word :: rest =>
    if !r.awaitsValue && g.isCommand word then
      if word = "help" then .error (helpAbout g.path rest) else .ok (r, some (word, rest))
    else if word = "--" then do
      return (← g.readTrailing r rest, none)
    else
      match g.readWord r word with
      | .error e => .error e
      | .ok r => g.read r rest

/-! ### Facts -/

/-- The next level has fewer words. -/
theorem length_rest_lt {g : Grammar} {r r' : Reading} {words rest : List String} {name : String}
    (h : g.read r words = .ok (r', some (name, rest))) : rest.length < words.length := by
  induction words generalizing r with
  | nil => simp [read] at h
  | cons word words ih =>
    simp only [read] at h
    split at h
    · split at h
      · cases h
      · cases h
        exact Nat.lt_succ_self _
    · split at h
      · cases hr : g.readTrailing r words with
        | error e => simp [hr, bind, Except.bind] at h
        | ok _ => simp [hr, bind, Except.bind, pure, Except.pure] at h
      · split at h
        · cases h
        · exact Nat.lt_succ_of_lt (ih h)

end Grammar

end Timetable.Command
