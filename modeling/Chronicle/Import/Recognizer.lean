import Chronicle.Json.Number
import Chronicle.Timestamp.Reading

-- How the timestamps of entries are recognized: texts by a pattern or in the
-- forms of ISO 8601, and whole numbers as seconds since 1970. Texts without an
-- offset are in a configured zone.

namespace Chronicle.Import

structure Recognizer where
  pattern : Option String
  zone : Offset

namespace Recognizer

open Timestamp (Parts parts?)

-- A zone is UTC or an offset; what follows the offset does not matter.
def zone? : Option String → Option Offset
  | none => some Offset.utc
  | some text =>
      let text := Text.trim text.toList
      if text = [] ∨ text = ['U', 'T', 'C'] ∨ text = ['Z'] then some Offset.utc
      else do
        let (seconds, _) ← Timestamp.Lexeme.offset? .plain text
        Offset.ofSeconds? seconds

-- Dates with a time but no offset.
def localPatterns : List String :=
  ["%Y-%m-%dT%H:%M:%S%.f", "%Y-%m-%d %H:%M:%S%.f", "%Y-%m-%dT%H:%M", "%Y-%m-%d %H:%M"]

def datePattern : String := "%Y-%m-%d"

-- The parts of a date and a time, with that time.
def localTime? (text : List Char) (pattern : String) : Option (Parts × LocalTime) := do
  let parts ← parts? pattern.toList text
  some (parts, ← parts.localTime? 0)

def inZone? (zone : Offset) (found : Parts × LocalTime) : Option Timestamp :=
  found.2.at? zone found.1.isLeapSecond

-- A date means its midnight.
def dateInZone? (zone : Offset) (parts : Parts) : Option Timestamp := do
  (LocalTime.midnight (← parts.date.toOption)).at? zone false

-- As an instant, else as a date with a time, else as a date.
def byPattern? (zone : Offset) (pattern text : List Char) : Option Timestamp := do
  let parts ← parts? pattern text
  match parts.instant?, parts.localTime? 0 with
  | some timestamp, _ => some timestamp
  | none, some time => inZone? zone (parts, time)
  | none, none => dateInZone? zone parts

def standard? (zone : Offset) (text : List Char) : Option Timestamp :=
  match Timestamp.ofRfc3339Chars? text with
  | some timestamp => some timestamp
  | none =>
      match localPatterns.findSome? (localTime? text) with
      | some found => inZone? zone found
      | none => do dateInZone? zone (← parts? datePattern.toList text)

def ofText? (recognizer : Recognizer) (text : String) : Option Timestamp :=
  let text := Text.trim text.toList
  match recognizer.pattern with
  | some pattern => byPattern? recognizer.zone pattern.toList text
  | none => standard? recognizer.zone text

-- The instant must have a calendar date.
def ofEpochSeconds? (seconds : Int64) : Option Timestamp := do
  let timestamp ← Timestamp.ofMicros? (seconds.toInt * 1000000) none
  if timestamp.inCalendar then some timestamp else none

def read? (recognizer : Recognizer) : Json → Option Timestamp
  | .string s => recognizer.ofText? s
  | .number n => do ofEpochSeconds? (← n.int64?)
  | _ => none

end Recognizer

end Chronicle.Import
