import PeerCall.Code.Basic
import PeerCall.Config.Daemon
import PeerCall.Text.Quoted

/-!
# The command line

What arguments ask for, and what a command prints, given the configuration and the files that it can
read. A description becomes a code and a code a description without any network.
-/

namespace PeerCall

/-- What a command line asks for. -/
inductive Command
  /-- Be the daemon. -/
  | run
  | version
  /-- Make a code of the description in a file. -/
  | encode (kind : SdpKind) (path : String)
  | decode (code : String)
  deriving DecidableEq

/-- Why a command line asks for nothing. -/
inductive UsageError
  | unknownCommand (name : String)
  | unexpectedArgument (argument : String)
  | noFile
  | noCode
  deriving DecidableEq, Repr

/-- How to use the program. -/
def usage : String :=
  "usage: meshcall-linux [run | encode [--answer] <sdp-file> | decode <code> | --version]"

/-- The wording of an error. -/
def UsageError.message (e : UsageError) : String :=
  let cause := match e with
    | .unknownCommand name => s!"unknown command {Text.Quoted.encode name}"
    | .unexpectedArgument argument => s!"unexpected argument {Text.Quoted.encode argument}"
    | .noFile => "encode needs an SDP file"
    | .noCode => "decode needs a code"
  s!"{cause}\n{usage}"

namespace Command

/-- The arguments behind `encode`: flags anywhere, of which the last one counts, and one path. -/
def parseEncode (kind : SdpKind) (path : Option String) : List String → Except UsageError Command
  | [] => match path with
    | some path => .ok (.encode kind path)
    | none => .error .noFile
  | "--answer" :: rest => parseEncode .answer path rest
  | "--offer" :: rest => parseEncode .offer path rest
  | argument :: rest =>
    if path.isNone then parseEncode kind (some argument) rest
    else .error (.unexpectedArgument argument)

/-- What arguments ask for. -/
def parse : List String → Except UsageError Command
  | [] | "run" :: _ => .ok .run
  | "--version" :: _ | "-V" :: _ => .ok .version
  | "encode" :: rest => parseEncode .offer none rest
  | "decode" :: code :: _ => .ok (.decode code)
  | ["decode"] => .error .noCode
  | name :: _ => .error (.unknownCommand name)

end Command

/-- Why a command fails. -/
inductive CommandError
  | usage (error : UsageError)
  /-- There is no such file, or it is no text. -/
  | unreadable (path : String)
  | code (error : Code.Error)
  /-- The daemon needs sockets, which nothing here opens. -/
  | noDaemon
  deriving DecidableEq, Repr

/-- The wording of an error. -/
def CommandError.message : CommandError → String
  | .usage error => error.message
  | .unreadable path => s!"reading {path}"
  | .code error => s!"invalid code: {error.message}"
  | .noDaemon => "the daemon is not part of this program"

namespace Command

/-- The program's name and version. -/
def versionText : String := "meshcall-linux 0.1.0"

/-- What a command prints. -/
def output (config : DaemonConfig) (file : String → Option Bytes) :
    Command → Except CommandError String
  | .run => .error .noDaemon
  | .version => .ok (versionText ++ "\n")
  | .encode kind path => match (file path).map Text.Utf8.decode with
    | some (.ok sdp) => .ok (Code.encode kind sdp config.core.codec.maxCandidates ++ "\n")
    | _ => .error (.unreadable path)
  | .decode code => match Code.decode code with
    | .ok decoded => .ok (decoded.kind.text ++ "\n" ++ decoded.sdp)
    | .error error => .error (.code error)

/-- What a command line prints. -/
def perform (config : DaemonConfig) (file : String → Option Bytes) (arguments : List String) :
    Except CommandError String :=
  match parse arguments with
  | .ok command => command.output config file
  | .error error => .error (.usage error)

end Command

end PeerCall
