import Servd.Lib.Text
import Servd.FrameIO
import Servd.Logger

/-!
`Server::load_config` and the setters it calls. The file is read line by line, and the
setting of a line is made before the next line is read. Numbers go through `std::stoi` and
`std::stoul`, which take the longest prefix that is a numeral, and a port is then cast to 16
bits.
-/
namespace Servd

/-- The parts of a `Server` that `load_config` writes to. -/
structure ServerConfig where
  tcpPorts : List (UInt16 × ProtocolMode) := []
  udpPorts : List UInt16 := []
  unixPaths : List (Bytes × ProtocolMode) := []
  maxClients : UInt64 := 0
  deriving DecidableEq

namespace ServerConfig

def enableTcp (c : ServerConfig) (port : UInt16) (mode : ProtocolMode) : ServerConfig :=
  { c with tcpPorts := c.tcpPorts ++ [(port, mode)] }

def enableUdp (c : ServerConfig) (port : UInt16) : ServerConfig :=
  { c with udpPorts := c.udpPorts ++ [port] }

def enableUnixSocket (c : ServerConfig) (path : Bytes) (mode : ProtocolMode) : ServerConfig :=
  { c with unixPaths := c.unixPaths ++ [(path, mode)] }

def setMaxClients (c : ServerConfig) (max : UInt64) : ServerConfig := { c with maxClients := max }

end ServerConfig

/-- What `strtol` and `strtoul` take of a text in base 10: white space, a sign and the longest run of
digits. The sign is true for a minus; there is no value without a digit. -/
def leadingNumeral (text : Bytes) : Option (Bool × Nat) :=
  let text := text.dropWhile isSpace
  let unsigned := if text.head? = some 43 ∨ text.head? = some 45 then text.drop 1 else text
  let digits := unsigned.takeWhile isDigit
  if digits = [] then none else some (text.head? = some 45, digitsValue digits)

/-- `std::stoi`; it throws `std::invalid_argument` or `std::out_of_range` under its own name. -/
def stoi (text : Bytes) : Except Exc Int :=
  match leadingNumeral text with
  | none => .error (.std "stoi")
  | some (negative, n) =>
      let value : Int := if negative then -n else n
      if value < -2 ^ 31 ∨ 2 ^ 31 ≤ value then .error (.std "stoi") else .ok value

/-- `std::stoul`, where `unsigned long` has 64 bits. A minus sign negates modulo 2^64. -/
def stoul (text : Bytes) : Except Exc UInt64 :=
  match leadingNumeral text with
  | none => .error (.std "stoul")
  | some (negative, n) =>
      if 2 ^ 64 ≤ n then .error (.std "stoul")
      else .ok (if negative then -UInt64.ofNat n else UInt64.ofNat n)

def parseLogLevel (s : Bytes) : LogLevel :=
  if s = ascii "DEBUG" then .debug
  else if s = ascii "INFO" then .info
  else if s = ascii "WARN" then .warn
  else if s = ascii "ERROR" then .error
  else .info

/-- The call that a line makes. -/
inductive Setting
  | tcp (port : UInt16)
  | udp (port : UInt16)
  | unix (path : Bytes)
  | maxClients (max : UInt64)
  | logLevel (level : LogLevel)
  | logFile (path : Bytes)
  deriving DecidableEq

def trim (s : Bytes) : Bytes := Text.trim isSpace s

/-- The key and the value of a line, both trimmed. An empty line, a comment and a line without an
equals sign have none. -/
def entry (line : Bytes) : Option (Bytes × Bytes) :=
  let line := trim line
  if line = [] ∨ line.head? = some 35 then none
  else (Text.splitFirst 61 line).map fun x => (trim x.1, trim x.2)

/-- The branches of the loop body; an unknown key is ignored. -/
def parseSetting (key value : Bytes) : Except Exc (Option Setting) :=
  if key = ascii "tcp" then (stoi value).map fun n => some (.tcp (UInt16.ofInt n))
  else if key = ascii "udp" then (stoi value).map fun n => some (.udp (UInt16.ofInt n))
  else if key = ascii "unix" then .ok (some (.unix value))
  else if key = ascii "max_clients" then (stoul value).map fun n => some (.maxClients n)
  else if key = ascii "log_level" then .ok (some (.logLevel (parseLogLevel value)))
  else if key = ascii "log_file" then .ok (some (.logFile value))
  else .ok none

def parseLine (line : Bytes) : Except Exc (Option Setting) :=
  match entry line with
  | none => .ok none
  | some (key, value) => parseSetting key value

/-- What `load_config` can change: the server, and the logger, which is global. -/
structure Loaded where
  server : ServerConfig := {}
  logger : Logger := {}

/-- `opens` says of a path whether the log file could be opened there. -/
def Setting.apply (opens : Bytes → Bool) (s : Loaded) : Setting → Loaded
  | .tcp port => { s with server := s.server.enableTcp port .binary }
  | .udp port => { s with server := s.server.enableUdp port }
  | .unix path => { s with server := s.server.enableUnixSocket path .binary }
  | .maxClients max => { s with server := s.server.setMaxClients max }
  | .logLevel level => { s with logger := s.logger.setLevel level }
  | .logFile path => { s with logger := s.logger.setLogFile path (opens path) }

/-- The loop of `load_config`. What has been set when a line throws stays set. -/
def loadLines (opens : Bytes → Bool) : Loaded → List Bytes → Loaded × Except Exc Unit
  | s, [] => (s, .ok ())
  | s, line :: rest =>
      match parseLine line with
      | .error e => (s, .error e)
      | .ok none => loadLines opens s rest
      | .ok (some setting) => loadLines opens (setting.apply opens s) rest

/-- `content` is the content of the file at the path, if it can be opened. -/
def loadConfig (opens : Bytes → Bool) (s : Loaded) (path : String) (content : Option Bytes) :
    Loaded × Except Exc Unit :=
  match content with
  | none => (s, .error (.std ("Unable to open config file: " ++ path)))
  | some bytes => loadLines opens s (Text.lines newline bytes)

end Servd
