import DnsWire.Address.Socket

/-!
# The client

A query leaves as one datagram, and the first datagram that the server sends back is the response.

* `Config` — the server, how long to wait for the response, and how much of it is taken.
* `ClientError` — what can go wrong between the two.
* `Network` — what carries the datagram, and `Client.request`, which sends it and takes what comes
  back.
-/

namespace DnsWire

/-- A span of time. -/
structure Duration where
  /-- The whole span in nanoseconds. -/
  nanoseconds : Nat
  deriving DecidableEq, Repr

namespace Duration

/-- The nanoseconds in a second. -/
def second : Nat := 1000000000

/-- A span of seconds and nanoseconds; a second is carried for every thousand million of the
latter. -/
def ofParts (seconds nanoseconds : Nat) : Duration :=
  ⟨seconds * second + nanoseconds⟩

/-- The whole seconds of a span. -/
def seconds (d : Duration) : Nat :=
  d.nanoseconds / second

/-- The nanoseconds beyond the whole seconds. -/
def fraction (d : Duration) : Nat :=
  d.nanoseconds % second

end Duration

/-- How queries are sent. -/
structure Config where
  /-- The server that queries go to. -/
  server : SocketAddress
  /-- How long to wait for a response; forever if there is none. -/
  timeout : Option Duration
  /-- The greatest number of octets of a response that are taken. -/
  receiveSize : Nat
  deriving DecidableEq, Repr

namespace Config

/-- The server that is asked if no other one is given. -/
def defaultServer : SocketAddress :=
  .v4 ⟨#v[208, 67, 222, 222]⟩ 53

/-- The configuration for a server: five seconds to wait, and 1024 octets to take. -/
def forServer (server : SocketAddress) : Config :=
  ⟨server, some (.ofParts 5 0), 1024⟩

/-- The configuration with another server. -/
def setServer (c : Config) (server : SocketAddress) : Config :=
  { c with server }

/-- The configuration with another time to wait. A span of no length stands for no limit. -/
def setTimeout (c : Config) (timeout : Option Duration) : Config :=
  { c with timeout := timeout.filter (·.nanoseconds ≠ 0) }

/-- The configuration with another size of responses, which is kept between 512 and 65535. -/
def setReceiveSize (c : Config) (size : Nat) : Config :=
  { c with receiveSize := max 512 (min 65535 size) }

end Config

/-- What goes wrong between a query and its response. -/
inductive ClientError where
  /-- There is no socket to send from. -/
  | bind (reason : String)
  /-- The socket does not take its settings. -/
  | configure (reason : String)
  /-- The query does not leave. -/
  | send (reason : String)
  /-- The response does not come in. -/
  | receive (reason : String)
  /-- Only a part of the query left. -/
  | partialSend
  /-- No response came in time. -/
  | timeout
  deriving DecidableEq, Repr

namespace ClientError

/-- The reason that the operating system gave, if it gave one. -/
def reason? : ClientError → Option String
  | .bind reason | .configure reason | .send reason | .receive reason => some reason
  | .partialSend | .timeout => none

/-- The line of text for an error. -/
def message : ClientError → String
  | .bind reason => "error binding UDP socket: " ++ reason
  | .configure reason => "error configuring UDP socket: " ++ reason
  | .send reason => "error sending request: " ++ reason
  | .receive reason => "error receiving response: " ++ reason
  | .partialSend => "request was sent partially"
  | .timeout => "timeout waiting for response"

end ClientError

/-- What carries a datagram to the server of a configuration and brings back the first one that
this server sends. -/
def Network (m : Type → Type) : Type :=
  Config → List UInt8 → m (Except ClientError (Array UInt8))

/-- The reasons that an operating system gives where it does not let a datagram leave. -/
structure Refusals where
  /-- The server has no port. -/
  noPort : String
  /-- There is no way to the server. -/
  noRoute : String

/-- The reasons in the words of Linux. -/
def Refusals.linux : Refusals where
  noPort := "Invalid argument (os error 22)"
  noRoute := "Network is unreachable (os error 101)"

namespace Network

/-- The network of a host that has none: no datagram leaves. Whether the server has a port is looked
at first. -/
def disconnected {m : Type → Type} [Monad m] (refusals : Refusals := .linux) : Network m :=
  fun config _ =>
    return .error (.send (if config.server.port = 0 then refusals.noPort else refusals.noRoute))

end Network

namespace Client

/-- Sends a datagram and waits for the response, of which it keeps as much as the configuration
says. -/
def request {m : Type → Type} [Monad m] (network : Network m) (config : Config)
    (datagram : List UInt8) : m (Except ClientError (Array UInt8)) := do
  let response ← network config datagram
  return response.map (·.extract 0 config.receiveSize)

end Client

end DnsWire
