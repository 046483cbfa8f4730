import DnsWire.Tool.Session
import Std.Async.Timer
import Std.Async.UDP

/-!
# The query tool

`udp` carries a query over a socket of the operating system. `main` reads the command line, shows
what the session prints, and returns its status; a command line that is not accepted ends with
status 2.
-/

namespace DnsWire

open Std.Async

/-- A socket address as the operating system takes it. The interface of an address of version 6 is
left to its routing. -/
def SocketAddress.toNet : SocketAddress → Std.Net.SocketAddress
  | .v4 address port => .v4 ⟨⟨address.octets⟩, port⟩
  | .v6 address _ port => .v6 ⟨⟨address.groups⟩, port⟩

/-- The address that a socket for this server is bound to: any interface and any port. -/
def SocketAddress.localNet : SocketAddress → Std.Net.SocketAddress
  | .v4 _ _ => .v4 ⟨⟨Vector.replicate 4 0⟩, 0⟩
  | .v6 _ _ _ => .v6 ⟨⟨Vector.replicate 8 0⟩, 0⟩

/-- The longest time, in milliseconds, that a timer is set to. -/
def longestWait : Nat := 4611686018427387904

/-- Waits for a datagram, or for the time to pass. -/
def receive (socket : UDP.Socket) (config : Config) :
    Async (Option (ByteArray × Option Std.Net.SocketAddress)) := do
  let size := UInt64.ofNat config.receiveSize
  match config.timeout with
  | none => some <$> socket.recv size
  | some span =>
    let milliseconds := (span.nanoseconds + 999999) / 1000000
    let timer ← Selector.sleep (Std.Time.Millisecond.Offset.ofNat (min milliseconds longestWait))
    Selectable.one #[
      .case (socket.recvSelector size) fun datagram => return some datagram,
      .case timer fun _ => return none]

/-- Waits for the first datagram that comes from the server. -/
partial def receiveFrom (socket : UDP.Socket) (config : Config) :
    IO (Except ClientError (Array UInt8)) := do
  match ← (receive socket config).block.toBaseIO with
  | .error e => return .error (.receive (toString e))
  | .ok none => return .error .timeout
  | .ok (some (datagram, source)) =>
    if source == some config.server.toNet then return .ok datagram.data
    else receiveFrom socket config

/-- Sends a datagram over a socket of its own. -/
def udp : Network IO := fun config datagram => do
  match ← UDP.Socket.mk.toBaseIO with
  | .error e => return .error (.bind (toString e))
  | .ok socket =>
    match ← (socket.bind config.server.localNet).toBaseIO with
    | .error e => return .error (.bind (toString e))
    | .ok _ =>
      let octets := ByteArray.mk datagram.toArray
      match ← (socket.send octets (some config.server.toNet)).block.toBaseIO with
      | .error e => return .error (.send (toString e))
      | .ok _ => receiveFrom socket config

/-- Runs the tool, showing the query before it leaves. -/
def runTool (arguments : Tool.Arguments) : IO UInt32 := do
  let id ← IO.rand 0 65535
  match Tool.prepare arguments (arguments.id?.getD (UInt16.ofNat id)) with
  | .error outcome => finish outcome
  | .ok prepared => do
    IO.print prepared.stdout
    let response ← Client.request udp prepared.config prepared.datagram
    finish (Tool.conclude arguments response)
where
  /-- Shows what a run leaves behind. -/
  finish (outcome : Tool.Outcome) : IO UInt32 := do
    IO.print outcome.stdout
    IO.eprint outcome.stderr
    return UInt32.ofNat outcome.status

end DnsWire

def main (arguments : List String) : IO UInt32 := do
  match DnsWire.Tool.Arguments.ofStrings arguments with
  | .ok arguments => DnsWire.runTool arguments
  | .error e => do
    IO.eprintln ("error: " ++ e.message)
    return 2
