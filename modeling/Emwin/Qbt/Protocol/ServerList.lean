import Emwin.Qbt.Protocol.Model

/-! Parsing of server-list control frames. -/

namespace Emwin.Qbt
open Library

/-- One `host:port` endpoint. -/
def parseQbtServer (input : Text) : Option Endpoint :=
  match rsplitOnce ':' input with
  | none => none
  | some (host, port) =>
      (parseUnsigned (2 ^ 16) port).map (fun parsedPort => (host, UInt16.ofNat parsedPort))

/-- A delimited list of endpoints; entries that do not parse become warnings. -/
def parseListEntries (input : Text) (delimiter : Char)
    : List Endpoint × List QbtProtocolWarning :=
  let entries := ((input.splitOn delimiter).map trim).filter (· ≠ [])
  (entries.filterMap parseQbtServer,
    (entries.filter (fun entry => (parseQbtServer entry).isNone)).map
      .malformedServerEntry)

def serverListPrefix : Text := "/ServerList/".toList
def fullMarker : Text := "\\QbtServerList\\/SatServers/".toList
def satEndMarker : Text := "\\SatServers\\".toList

/-- Regular and satellite parts of a payload without its trailing NULs. -/
def serverListParts (payload : Text) : Text × Option Text :=
  match windowPosition fullMarker payload with
  | none => (payload.drop serverListPrefix.length, none)
  | some startIdx =>
      let satStart := startIdx + fullMarker.length
      match windowPosition satEndMarker (payload.drop satStart) with
      | none => (payload.drop serverListPrefix.length, none)
      | some endRel =>
          ((payload.take startIdx).drop serverListPrefix.length,
            some ((payload.drop satStart).take endRel))

/-- A complete `/ServerList/` control frame. -/
def parseServerListFrame (content : Text)
    : Except QbtProtocolError (QbtServerList × List QbtProtocolWarning) :=
  if ¬ serverListPrefix <+: content then .error .unsupportedFrame
  else
    let payload := trimEndWhile (· == '\x00') content
    let (serversPart, satPart) := serverListParts payload
    let (servers, warnings) := parseListEntries serversPart '|'
    match satPart with
    | none => .ok ({ servers }, warnings)
    | some satPayload =>
        let (satServers, satWarnings) := parseListEntries satPayload '+'
        .ok ({ servers, satServers }, warnings ++ satWarnings)

/-- The parser refuses a frame only for its prefix. -/
theorem parseServerListFrame_ok {content : Text} (marked : serverListPrefix <+: content)
    : ∃ list warnings, parseServerListFrame content = .ok (list, warnings) := by
  simp only [parseServerListFrame, marked, not_true, if_false]
  split <;> exact ⟨_, _, rfl⟩

theorem parseServerListFrame_error {content : Text} {error : QbtProtocolError}
    (failed : parseServerListFrame content = .error error)
    : error = .unsupportedFrame := by
  by_cases marked : serverListPrefix <+: content
  · obtain ⟨list, warnings, parsed⟩ := parseServerListFrame_ok marked
    simp [parsed] at failed
  · simp only [parseServerListFrame, marked, not_false_eq_true, if_true] at failed
    exact (Except.error.inj failed).symm

end Emwin.Qbt
