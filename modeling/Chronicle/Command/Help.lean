import Chronicle.Command.Arguments

-- The texts of the help.

namespace Chronicle.Command

def versionLine : String := "tidemark 0.1.0"

def Verb.about : Verb → String
  | .importDocuments => "Import documents with a configured import profile"
  | .read => "Print the records of an entity as JSON lines, oldest first"
  | .delete => "Delete one record, or every record of an entity"
  | .stats => "Show live record and tombstone counts"
  | .compact => "Purge tombstones"

def Verb.usage : Verb → String
  | .importDocuments => "import --profile <PROFILE> <PATHS>..."
  | .read => "read [OPTIONS] --entity <ENTITY>"
  | .delete => "delete [OPTIONS] --entity <ENTITY>"
  | .stats => "stats"
  | .compact => "compact"

-- The options of a command and what follows them.
def Verb.details : Verb → List String
  | .importDocuments =>
      ["Arguments:",
        "  <PATHS>...  Documents, or directories scanned for the profile's format",
        "",
        "Options:",
        "  -p, --profile <PROFILE>  Name of an [imports.<name>] table",
        "  -h, --help               Print help"]
  | .read =>
      ["Options:",
        "  -e, --entity <ENTITY>  ",
        "      --from <FROM>      Earliest instant, inclusive (RFC 3339)",
        "      --to <TO>          Latest instant, inclusive (RFC 3339)",
        "  -h, --help             Print help"]
  | .delete =>
      ["Options:",
        "  -e, --entity <ENTITY>  ",
        "      --at <AT>          Instant of the single record to delete (RFC 3339)",
        "  -h, --help             Print help"]
  | .stats => ["Options:", "  -h, --help  Print help"]
  | .compact => ["Options:", "  -h, --help  Print help"]

def padRight (width : Nat) (text : String) : String :=
  text ++ String.ofList (List.replicate (width - text.length) ' ')

def aboutHelp : String := "Print this message or the help of the given subcommand(s)"

def commandLines : List String :=
  Verb.all.map (fun verb => "  " ++ padRight 9 verb.name ++ verb.about) ++
    ["  " ++ padRight 9 "help" ++ aboutHelp]

def help : Topic → List String
  | .command verb => [verb.about, "", "Usage: tidemark " ++ verb.usage, ""] ++ verb.details
  | .help =>
      [aboutHelp, "", "Usage: tidemark help [COMMAND]...", "", "Arguments:",
        "  [COMMAND]...  Print help for the subcommand(s)"]
  | .program =>
      ["A durable, schema-versioned time-series record store", "",
        "Usage: tidemark [OPTIONS] <COMMAND>", "", "Commands:"] ++ commandLines ++
      ["", "Options:",
        "  -c, --config <CONFIG>  Configuration file [default: " ++ configFile ++ "]",
        "  -h, --help             Print help",
        "  -V, --version          Print version"]

-- What is printed when the arguments make no sense.
def usage : List String :=
  ["error: unusable arguments", "", "Usage: tidemark [OPTIONS] <COMMAND>", "",
    "For more information, try '--help'."]

end Chronicle.Command
