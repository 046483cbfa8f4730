/-!
# Response codes

The response code of a message says how a request went. It has four bits. The codes in use have
constructors of their own; `raw` holds any octet, of which the low four bits count, so that two
response codes are equal exactly when their four bits are.
-/

namespace DnsWire

/-- How a request went. -/
inductive ResponseCode where
  /-- The request succeeded. -/
  | noError
  /-- The server did not understand the request. -/
  | formErr
  /-- The server had a problem of its own. -/
  | servFail
  /-- The name does not exist. -/
  | nxDomain
  /-- The server does not support this kind of request. -/
  | notImp
  /-- The server declines to answer. -/
  | refused
  /-- A name exists that should not. -/
  | yxDomain
  /-- A set of records exists that should not. -/
  | yxRRSet
  /-- A set of records does not exist that should. -/
  | nxRRSet
  /-- The server has no authority for the zone, or the client has none. -/
  | notAuth
  /-- A name lies outside the zone. -/
  | notZone
  /-- A code given as an octet. -/
  | raw (octet : UInt8)

namespace ResponseCode

/-- The response code with the low four bits of an octet. -/
def ofOctet (octet : UInt8) : ResponseCode :=
  match octet.toNat % 16 with
  | 0 => .noError
  | 1 => .formErr
  | 2 => .servFail
  | 3 => .nxDomain
  | 4 => .notImp
  | 5 => .refused
  | 6 => .yxDomain
  | 7 => .yxRRSet
  | 8 => .nxRRSet
  | 9 => .notAuth
  | 10 => .notZone
  | code => .raw (UInt8.ofNat code)

/-- The four bits of a response code. -/
def code : ResponseCode → UInt8
  | .noError => 0
  | .formErr => 1
  | .servFail => 2
  | .nxDomain => 3
  | .notImp => 4
  | .refused => 5
  | .yxDomain => 6
  | .yxRRSet => 7
  | .nxRRSet => 8
  | .notAuth => 9
  | .notZone => 10
  | .raw octet => octet % 16

/-- Response codes are equal when their four bits are. -/
instance : BEq ResponseCode where
  beq left right := left.code == right.code

/-- The mnemonic of a code of four bits, or its number. -/
def codeText : Nat → String
  | 0 => "NOERROR"
  | 1 => "FORMERR"
  | 2 => "SERVFAIL"
  | 3 => "NXDOMAIN"
  | 4 => "NOTIMP"
  | 5 => "REFUSED"
  | 6 => "YXDOMAIN"
  | 7 => "YXRRSET"
  | 8 => "NXRRSET"
  | 9 => "NOAUTH"
  | 10 => "NOTZONE"
  | code => toString code

/-- A response code as text. -/
def text (r : ResponseCode) : String :=
  codeText r.code.toNat

/-- A response code in a few words. -/
def description (r : ResponseCode) : String :=
  match r.code.toNat with
  | 0 => "success"
  | 1 => "format error"
  | 2 => "server failure"
  | 3 => "name error"
  | 4 => "not implemented"
  | 5 => "refused"
  | 6 => "name exists"
  | 7 => "RR set exists"
  | 8 => "RR set does not exist"
  | 9 => "not authorized"
  | 10 => "name not in zone"
  | _ => "unknown"

end ResponseCode

end DnsWire
