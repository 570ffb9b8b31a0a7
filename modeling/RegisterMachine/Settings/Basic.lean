import RegisterMachine.Debug.Session
import RegisterMachine.Program.Codec

/-!
# Settings

What can be set for a run, with what holds where nothing is set.
-/

namespace RegisterMachine

open Json (Decoder Record)

structure RuntimeSettings where
  /-- How many frames the stack of one worker may hold. -/
  maxCallDepth : Nat := 1024
  deriving DecidableEq, Repr

structure DebugSettings where
  enabled : Bool := false
  /-- In seconds. -/
  handshakeTimeout : Nat := 30
  /-- As they are written, `source:line`. -/
  breakpoints : List String := []
  port : Option UInt16 := none
  deriving DecidableEq, Repr

structure LoggingSettings where
  filter : String := "info"
  deriving DecidableEq, Repr

structure Settings where
  runtime : RuntimeSettings := {}
  debug : DebugSettings := {}
  logging : LoggingSettings := {}
  deriving DecidableEq, Repr

namespace RuntimeSettings

def decoder : Decoder RuntimeSettings :=
  Record.decoder (mk <$> .optional "max_call_depth" Codec.offset 1024)

def toJson (s : RuntimeSettings) : Json := .ofMembers [("max_call_depth", .ofNat s.maxCallDepth)]

end RuntimeSettings

namespace DebugSettings

def decoder : Decoder DebugSettings :=
  Record.decoder
    (mk <$> .optional "enabled" .bool false <*>
      .optional "handshake_timeout_secs" Codec.offset 30 <*>
      .optional "breakpoints" (.list .string) [] <*>
      .optional "port" (.option Codec.word16) none)

def toJson (s : DebugSettings) : Json :=
  .ofMembers
    [("enabled", .bool s.enabled), ("handshake_timeout_secs", .ofNat s.handshakeTimeout),
      ("breakpoints", .ofList (s.breakpoints.map .string)),
      ("port", match s.port with
        | some port => .ofNat port.toNat
        | none => .null)]

/-- A debug session with the breakpoints that are set. -/
def session (s : DebugSettings) : Except Debug.SessionError Debug.Session := do
  let all ← s.breakpoints.mapM Debug.readBreakpoint
  let start := Debug.Session.start (s.handshakeTimeout * 1000)
  .ok { start with breakpoints := .ofList all }

end DebugSettings

namespace LoggingSettings

def decoder : Decoder LoggingSettings :=
  Record.decoder (mk <$> .optional "filter" .string "info")

def toJson (s : LoggingSettings) : Json := .ofMembers [("filter", .string s.filter)]

end LoggingSettings

namespace Settings

def decoder : Decoder Settings :=
  Record.decoder
    (mk <$> .optional "runtime" RuntimeSettings.decoder {} <*>
      .optional "debug" DebugSettings.decoder {} <*>
      .optional "logging" LoggingSettings.decoder {})

def toJson (s : Settings) : Json :=
  .ofMembers
    [("runtime", s.runtime.toJson), ("debug", s.debug.toJson), ("logging", s.logging.toJson)]

end Settings

end RegisterMachine
