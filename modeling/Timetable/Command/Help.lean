/-
**Help.**

What is said to somebody who asks for help or for the version, and to somebody whose command line is
refused.

Main definitions:

* `Command.usage`, `Command.helpText`, `Command.versionText` — what can be asked for;
* `Command.UsageError.message` — why a command line is refused;
* `Command.UsageError.reply` — **what is said about a command line** that is not carried out.
-/

import Timetable.Command.Line

set_option autoImplicit false
set_option relaxedAutoImplicit false

namespace Timetable.Command

/-- How the program is called. -/
def usage : String := "Usage: cadence [--config <CONFIG>] [--log-json] <COMMAND>"

/-- The version of the program. -/
def versionText : String := "cadence 0.1.0"

/-- The commands, line by line. -/
def commandLines : List String :=
  ["  serve                            Run the scheduler until it is interrupted",
    "  job add --name <NAME> --task <TASK> (--cron <CRON> | --every <EVERY>)",
    "          [--run-once] [--model <MODEL>] [--timeout <TIMEOUT>]",
    "          [--notify <NOTIFY>] [--disabled]",
    "                                   Create a job, or replace the job with the same name",
    "  job list [--enabled | --disabled] [--query <QUERY>] [--order <ORDER>]",
    "           [--limit <LIMIT>]       List jobs",
    "  job disable <JOB>                Stop scheduling a job (history is kept)",
    "  job delete <JOB>                 Delete a job and its run history",
    "  runs <JOB> [--limit <LIMIT>]     Show recent runs of a job"]

/-- What is said when help is asked for. -/
def helpText : String :=
  "\n".intercalate
    (["Embedded cron-style job scheduler", "", usage, "", "Commands:"] ++ commandLines)

namespace UsageError

/-- Why a command line is refused. -/
def message : UsageError → String
  | unknownArgument => "unexpected argument found"
  | missingValue => "a value is required"
  | badValue => "invalid value"
  | unexpectedValue => "unexpected value"
  | conflict => "the argument cannot be used here, or not more than once"
  | missingArgument => "required arguments were not provided"
  | unknownCommand => "unrecognized subcommand"
  | missingCommand => "a subcommand is required"
  | nothingGiven => ""
  | help => ""
  | version => ""

/-- **What is said about a command line** that is not carried out. -/
def reply : UsageError → String
  | help | nothingGiven => helpText
  | version => versionText
  | e => "error: " ++ e.message ++ "\n\n" ++ usage ++ "\n\nFor more information, try '--help'."

end UsageError

end Timetable.Command
