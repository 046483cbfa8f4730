import DnsWire.Main
import DnsWire.Proofs.Code.Spelling
import DnsWire.Proofs.Guarded.Message
import DnsWire.Proofs.Header.Registers
import DnsWire.Proofs.Message.Aliases
import DnsWire.Proofs.Message.Lines
import DnsWire.Proofs.Message.Trailing
import DnsWire.Proofs.Name.Compression
import DnsWire.Proofs.Name.InContext
import DnsWire.Proofs.Name.Nesting
import DnsWire.Proofs.Name.Outcome
import DnsWire.Proofs.Query.Answer
import DnsWire.Proofs.Query.LetterCase
import DnsWire.Proofs.Query.RoundTrip
import DnsWire.Proofs.Question.Sequence
import DnsWire.Proofs.Record.Extent
import DnsWire.Proofs.Record.Generic
import DnsWire.Proofs.Record.Quoted
import DnsWire.Proofs.Written.Message
import DnsWire.Text.Clipped
