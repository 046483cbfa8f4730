import DnsWire.Address.Socket
import DnsWire.Client
import DnsWire.Query

/-!
# The command line of the query tool

The tool takes a host name and a query type, and options anywhere between them.

* `OptionName` and `SwitchName` — the options with a value and those without.
* `Draft` — the arguments sorted into options, switches and positions, values still as text.
* `Arguments.ofStrings` — the whole command line, with every value read.

The value of an option follows it, or stands behind an equals sign. Behind `--` every argument is
a position, and so is a single dash; anything else that begins with a dash has to be an option or
a switch spelled out in full. None of them is given twice.
-/

namespace DnsWire.Tool

/-- The options that take a value. -/
inductive OptionName where
  /-- The server that the query goes to. -/
  | server
  /-- The seconds to wait for the response. -/
  | timeout
  /-- The greatest number of octets of the response that are taken. -/
  | bufsize
  /-- The identifier of the query. -/
  | id
  deriving DecidableEq, Repr

/-- The options that take no value. -/
inductive SwitchName where
  /-- Shows the query before it leaves. -/
  | showQuery
  /-- Shows every octet of what is shown. -/
  | raw
  deriving DecidableEq, Repr

/-- Why a command line is not accepted. -/
inductive UsageError where
  /-- The host name or the query type is missing. -/
  | missingPosition
  /-- There is an argument behind the host name and the query type. -/
  | extraPosition (argument : String)
  /-- There is no option of this name. -/
  | unknownOption (argument : String)
  /-- An option is given twice. -/
  | repeated (argument : String)
  /-- An option stands without a value. -/
  | missingValue (argument : String)
  /-- A switch stands with a value. -/
  | unexpectedValue (argument : String)
  /-- A value is not of the kind that its place asks for. -/
  | invalidValue (value : String)
  deriving DecidableEq, Repr

/-- The line of text for a command line that is not accepted. -/
def UsageError.message : UsageError → String
  | .missingPosition => "a host name and a query type are required"
  | .extraPosition argument => "unexpected argument " ++ argument
  | .unknownOption argument => "unknown option " ++ argument
  | .repeated argument => "option given twice: " ++ argument
  | .missingValue argument => "a value is required for " ++ argument
  | .unexpectedValue argument => "no value is expected for " ++ argument
  | .invalidValue value => "invalid value " ++ value

/-! ## Sorting -/

/-- The arguments of a command line, sorted; the positions stand last one first. -/
structure Draft where
  options : List (OptionName × String) := []
  switches : List SwitchName := []
  positions : List String := []

/-- What an argument that begins with two dashes names. -/
inductive LongName where
  /-- An option, which takes a value. -/
  | option (name : OptionName)
  /-- A switch, which takes none. -/
  | switch (name : SwitchName)

/-- The option or switch of a name. -/
def LongName.ofText? : String → Option LongName
  | "server" => some (.option .server)
  | "timeout" => some (.option .timeout)
  | "bufsize" => some (.option .bufsize)
  | "id" => some (.option .id)
  | "show-query" => some (.switch .showQuery)
  | "raw" => some (.switch .raw)
  | _ => none

/-- Whether an argument is meant as an option. -/
def isOption (argument : String) : Bool :=
  argument.startsWith "-" && argument != "-"

/-- The text in front of the first equals sign, and the text behind it if there is one. -/
def splitAtEquals (text : List Char) : List Char × Option (List Char) :=
  match text.span (· ≠ '=') with
  | (name, '=' :: value) => (name, some value)
  | (name, _) => (name, none)

namespace Draft

/-- Adds the value of an option. -/
def addOption (d : Draft) (name : OptionName) (value argument : String) :
    Except UsageError Draft :=
  if (d.options.lookup name).isSome then .error (.repeated argument)
  else .ok { d with options := (name, value) :: d.options }

/-- Adds a switch. -/
def addSwitch (d : Draft) (name : SwitchName) (argument : String) : Except UsageError Draft :=
  if name ∈ d.switches then .error (.repeated argument)
  else .ok { d with switches := name :: d.switches }

/-- Sorts arguments into a draft. -/
def sort (d : Draft) : List String → Except UsageError Draft
  | [] => .ok d
  | argument :: rest =>
    if argument = "--" then .ok { d with positions := rest.reverse ++ d.positions }
    else if !isOption argument then
      sort { d with positions := argument :: d.positions } rest
    else if !argument.startsWith "--" then .error (.unknownOption argument)
    else
      let (name, value?) := splitAtEquals (argument.toList.drop 2)
      match LongName.ofText? (String.ofList name), value? with
      | none, _ => .error (.unknownOption argument)
      | some (.switch _), some _ => .error (.unexpectedValue argument)
      | some (.switch name), none => do
        let d ← d.addSwitch name argument
        sort d rest
      | some (.option name), some value => do
        let d ← d.addOption name (String.ofList value) argument
        sort d rest
      | some (.option name), none =>
        match rest with
        | [] => .error (.missingValue argument)
        | value :: rest =>
          if isOption value then .error (.missingValue argument)
          else do
            let d ← d.addOption name value argument
            sort d rest

end Draft

/-! ## Values -/

/-- The command line of the query tool. -/
structure Arguments where
  /-- The name that is asked about. -/
  host : String
  /-- The records that are wanted. -/
  type : QueryType
  /-- The server that the query goes to. -/
  server : SocketAddress
  /-- The seconds to wait for the response; zero stands for no limit. -/
  timeout : Nat
  /-- The greatest number of octets of the response that are taken. -/
  bufsize : Nat
  /-- The identifier of the query; one is drawn if none is given. -/
  id? : Option UInt16
  /-- Whether the query is shown before it leaves. -/
  showQuery : Bool
  /-- Whether every octet of what is shown is shown, too. -/
  raw : Bool

/-- The greatest word of 64 bits. -/
def maxWord64 : Nat := 18446744073709551615

/-- Reads the value of a host name, which has to fit into a name. -/
def readHost (text : String) : Except UsageError String :=
  if text.utf8ByteSize ≤ Name.maxWireSize then .ok text else .error (.invalidValue text)

/-- Reads a value if the reader takes it. -/
def readValue {α : Type} (reader : String → Option α) (text : String) : Except UsageError α :=
  match reader text with
  | some value => .ok value
  | none => .error (.invalidValue text)

/-- Reads an identifier: a number with or without a sign that fits into 16 bits. -/
def identifier? (text : String) : Option UInt16 :=
  (Decimal.integer? text.toList).bind fun value =>
    if 0 ≤ value ∧ value ≤ 65535 then some (UInt16.ofNat value.toNat) else none

/-- Reads an unsigned number of 64 bits. -/
def word64? (text : String) : Option Nat :=
  Decimal.natural? maxWord64 text.toList

namespace Draft

/-- Reads the value of an option, or takes another one if the option is not given. -/
def value {α : Type} (d : Draft) (name : OptionName) (reader : String → Option α) (fallback : α) :
    Except UsageError α :=
  match d.options.lookup name with
  | some text => readValue reader text
  | none => .ok fallback

/-- The command line that a draft spells. -/
def arguments (d : Draft) : Except UsageError Arguments :=
  match d.positions.reverse with
  | [] | [_] => .error .missingPosition
  | _ :: _ :: extra :: _ => .error (.extraPosition extra)
  | [host, type] => do
    return {
      host := ← readHost host
      type := ← readValue QueryType.ofToken? type
      server := ← d.value .server SocketAddress.ofText? Config.defaultServer
      timeout := ← d.value .timeout word64? 5
      bufsize := ← d.value .bufsize word64? 1024
      id? := ← d.value .id (fun text => (identifier? text).map some) none
      showQuery := SwitchName.showQuery ∈ d.switches
      raw := SwitchName.raw ∈ d.switches }

end Draft

/-- The command line that a list of arguments spells. -/
def Arguments.ofStrings (arguments : List String) : Except UsageError Arguments := do
  let draft ← Draft.sort {} arguments
  draft.arguments

end DnsWire.Tool
