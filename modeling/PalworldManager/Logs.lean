/-
# Critical log entries

`is_critical_log` of `logs/service.py`: which entries of the journal count as a
failure after a restore or an update.  The patterns are those of the source,
all of them under `re.IGNORECASE`.
-/

import PalworldManager.Jobs.Runtime
import PalworldManager.Text.Regex

namespace PalworldManager

open Text Text.Regex

/-- `NON_CRITICAL_OPERATIONAL_PATTERNS`. -/
def nonCriticalOperationalPatterns [Unicode] : List Regex :=
  let status := cat [wordBoundary, any (lit "status") [lit "code"], spaces,
    .char (fun c => c == '=' || c == ':'), spaces, lit "143", any wordBoundary [lit "/"]]
  [ cat [wordBoundary, lit "access-control-expose-headers", spaces, lit ":", spaces, restOfLine,
      wordBoundary, lit "x-sentry-error", wordBoundary],
    cat [wordBoundary, lit "main process exited", wordBoundary, restOfLine, status],
    cat [status, restOfLine, wordBoundary,
      any (lit "sigterm") [lit "main process exited", lit "code=exited"], wordBoundary] ]

/-- `CRITICAL_OPERATIONAL_PATTERN`. -/
def criticalOperationalPattern [Unicode] : Regex :=
  any
    (cat [wordBoundary,
      any (cat [lit "fatal", opt (cat [.char isSpace, spaces, lit "error"])])
        [lit "critical error",
         cat [lit "erro cr", any (lit "i") [lit "í"], lit "tico"],
         cat [lit "crash", opt (lit "ed")],
         lit "panic", lit "segmentation fault", lit "core dumped", lit "out of memory",
         lit "unhandled exception", lit "assertion failed"],
      wordBoundary])
    [ lit "fatalerror",
      cat [wordBoundary, lit "failed to ",
        any (lit "load")
          [lit "save", lit "initialize", lit "start", lit "open", lit "read", lit "write"],
        wordBoundary] ]

/-- `is_critical_log`. -/
def isCriticalLog [Unicode] (entry : LogEntry) : Bool :=
  if nonCriticalOperationalPatterns.any fun p => p.search entry.message.toList then
    false
  else if entry.priority.any (· ≤ 3) then
    true
  else
    criticalOperationalPattern.search entry.message.toList

example : @isCriticalLog Unicode.ascii ⟨0, "LogInit: Failed to load world", some 6⟩ = true := by
  decide

example : @isCriticalLog Unicode.ascii
    ⟨0, "Main process exited, code=killed, status=143/TERM", some 3⟩ = false := by
  decide

end PalworldManager
