import DnsWire.HexDump
import DnsWire.Message.Dig
import DnsWire.Tool.Arguments

/-!
# A session of the query tool

One run of the tool: a query is written, shown if wanted, sent, and its response is shown.

* `prepare` — what happens before the query leaves.
* `conclude` — what happens with the response.
* `run` — both, with a network between them.
-/

namespace DnsWire.Tool

/-- What a run of the tool leaves behind. -/
structure Outcome where
  /-- Zero if a response was shown. -/
  status : Nat
  /-- What was printed. -/
  stdout : String
  /-- What was printed about an error. -/
  stderr : String

/-- A run that fails with a line of text. -/
def Outcome.failure (stdout line : String) : Outcome :=
  ⟨1, stdout, line ++ "\n"⟩

/-- A query that is ready to leave. -/
structure Prepared where
  /-- The query in wire format. -/
  datagram : List UInt8
  /-- What is printed before it leaves. -/
  stdout : String
  /-- How it is sent. -/
  config : Config

/-- A message as the tool prints it, octet by octet in front if wanted, and an empty line at the
end. -/
def shown (raw : Bool) (octets : List UInt8) (m : Message) : String :=
  (if raw then HexDump.text octets else "") ++ m.text ++ "\n"

/-- Writes the query, and shows it if wanted. -/
def prepare (arguments : Arguments) (id : UInt16) : Except Outcome Prepared :=
  match Query.encode id arguments.host arguments.type with
  | .error e =>
    .error (.failure "" ("Cannot build query for " ++ arguments.host ++ ": " ++ e.message))
  | .ok datagram =>
    match Message.decode datagram.toArray with
    | .error e => .error (.failure "" ("Built a broken query: " ++ e.message))
    | .ok query =>
      let stdout :=
        if arguments.showQuery then
          "Query (" ++ toString datagram.length ++ " bytes):\n" ++
            shown arguments.raw datagram query
        else ""
      let config := ((Config.forServer arguments.server).setTimeout
        (some (.ofParts arguments.timeout 0))).setReceiveSize arguments.bufsize
      .ok ⟨datagram, stdout, config⟩

/-- Shows the response, or says why there is none. -/
def conclude (arguments : Arguments) (response : Except ClientError (Array UInt8)) : Outcome :=
  match response with
  | .error e => .failure "" ("Query to " ++ arguments.server.text ++ " failed: " ++ e.message)
  | .ok octets =>
    let received := "Received " ++ toString octets.size ++ " bytes from " ++
      arguments.server.text ++ ".\n"
    match Message.decode octets with
    | .error e =>
      let dump := if arguments.raw then HexDump.text octets.toList else ""
      .failure (received ++ dump) ("Malformed response: " ++ e.message)
    | .ok m => ⟨0, received ++ shown arguments.raw octets.toList m, ""⟩

/-- Runs the tool. The identifier is used if the command line gives none. -/
def run {m : Type → Type} [Monad m] (network : Network m) (arguments : Arguments)
    (id : UInt16) : m Outcome :=
  match prepare arguments (arguments.id?.getD id) with
  | .error outcome => return outcome
  | .ok prepared => do
    let response ← Client.request network prepared.config prepared.datagram
    let outcome := conclude arguments response
    return { outcome with stdout := prepared.stdout ++ outcome.stdout }

end DnsWire.Tool
