import VmSpect.Lib.Bytes
import VmSpect.Lib.Words
import VmSpect.Lib.Interleaving
import VmSpect.Error

/-!
# `NbdStream::read_range` and the server it talks to

The client of `src/vms/nbd.rs` after the handshake, and a server that conforms to the protocol with
simple replies, over two byte streams that keep their order and lose nothing. The client is a state
machine: it writes its request in pieces, reads a reply header, and reads the data. Its deadline may
expire wherever it looks at the clock, and the caller may go on with another call.

The server collects requests of 28 bytes. It answers them in any order, each with an error or, if it
is a read inside the disk, with the bytes of the disk. It hangs up on a request with a wrong magic,
which is how it sees a request that was cut short.
-/

namespace VmSpect.Nbd

open Bytes Words Interleaving

/-! ## What goes over the wire -/

/-- `NBD_REQUEST_MAGIC`. -/
def requestMagic : ℕ := 0x25609513

/-- `NBD_REPLY_MAGIC`. -/
def replyMagic : ℕ := 0x67446698

/-- `NBD_CMD_READ`. -/
def cmdRead : ℕ := 0

/-- The request of `read_range`; the length is cut to 32 bits, as `adjusted_len as u32` is. -/
def requestBytes (id offset length : ℕ) : List UInt8 :=
  toBe 4 requestMagic ++ toBe 2 0 ++ toBe 2 cmdRead ++ toBe 8 id ++ toBe 8 offset ++ toBe 4 length

/-- The header of a simple reply. -/
def replyHeader (error handle : ℕ) : List UInt8 :=
  toBe 4 replyMagic ++ toBe 4 error ++ toBe 8 handle

/-- A request as the server reads it. -/
structure Request where
  command : ℕ
  handle : ℕ
  offset : ℕ
  length : ℕ
  deriving DecidableEq, Repr

/-- The server's reading of 28 bytes; `none` for a wrong magic. -/
def parseRequest (bytes : List UInt8) : Option Request :=
  if ofBe (slice bytes 0 4) = requestMagic then
    some ⟨ofBe (slice bytes 6 2), ofBe (slice bytes 8 8), ofBe (slice bytes 16 8),
      ofBe (slice bytes 24 4)⟩
  else none

/-- A reply that the server may give to a request on the disk `D`: an error, or the data of a read
that lies inside the disk. -/
def replyBytes (D : List UInt8) (r : Request) (error : ℕ) : Option (List UInt8) :=
  if error = 0 then
    if r.command = cmdRead ∧ r.offset + r.length ≤ D.length then
      some (replyHeader 0 r.handle ++ slice D r.offset r.length)
    else none
  else if error < 2^32 then some (replyHeader error r.handle)
  else none

/-! ## The two parties -/

/-- A call of `read_range` that has sent, or is sending, a request. -/
structure Call where
  id : ℕ
  offset : ℕ
  len : ℕ
  adjustedLen : ℕ

/-- Where the client is. -/
inductive Client where
  | idle
  /-- In `write_all_until`, with the bytes still to be written; none are left before the flush. -/
  | sending (call : Call) (rest : List UInt8)
  /-- In `read_exact_until` for the header. -/
  | header (call : Call) (got : List UInt8)
  /-- In `read_exact_until` for the data. -/
  | payload (call : Call) (got : List UInt8)

/-- A call that has returned. -/
structure Result where
  offset : ℕ
  len : ℕ
  outcome : Except (Stop IoError) (List UInt8)

/-- The client with the results of its calls, the server, and what is under way to the client. -/
structure State where
  client : Client
  requestId : ℕ
  results : List Result
  /-- The bytes of a request that is not complete yet. -/
  partialRequest : List UInt8
  /-- The requests that are not answered yet. -/
  pending : List Request
  /-- The server has met a wrong magic, and reads no more. -/
  poisoned : Bool
  closed : Bool
  /-- The bytes that the server has sent and the client has not read. -/
  unread : List UInt8

/-- What can happen next. -/
inductive Event where
  | call (offset len : ℕ)
  | write (n : ℕ)
  | flush
  | receive (n : ℕ)
  | expire
  | hangup
  | reply (i error : ℕ)
  | close

/-- A stream after the handshake. -/
def start : State where
  client := .idle
  requestId := 1
  results := []
  partialRequest := []
  pending := []
  poisoned := false
  closed := false
  unread := []

/-- The call returns. -/
def State.finish (s : State) (call : Call) (outcome : Except (Stop IoError) (List UInt8)) : State :=
  { s with client := .idle, results := s.results ++ [⟨call.offset, call.len, outcome⟩] }

/-- Bytes reach the server, at most one request of which becomes complete. -/
def State.serverReceive (s : State) (bytes : List UInt8) : State :=
  if s.poisoned then s
  else if (s.partialRequest ++ bytes).length < 28 then
    { s with partialRequest := s.partialRequest ++ bytes }
  else
    match parseRequest ((s.partialRequest ++ bytes).take 28) with
    | some r => { s with
        partialRequest := (s.partialRequest ++ bytes).drop 28
        pending := s.pending ++ [r] }
    | none => { s with partialRequest := [], poisoned := true }

/-- Eight hexadecimal digits, as `{:08X}` prints them. -/
def hex8 (n : ℕ) : String :=
  let digits := (Nat.toDigits 16 n).map Char.toUpper
  String.ofList (List.replicate (8 - digits.length) '0' ++ digits)

/-- The checks on a reply header. -/
def checkHeader (id : ℕ) (header : List UInt8) : Except IoError Unit :=
  let magic := ofBe (slice header 0 4)
  let errorCode := ofBe (slice header 4 4)
  let handle := ofBe (slice header 8 8)
  if magic ≠ replyMagic then
    .error ⟨.invalidData, s!"NBD reply with invalid magic: 0x{hex8 magic}"⟩
  else if errorCode ≠ 0 then
    .error (IoError.ofOther s!"Error reported by the NBD server: {errorCode}")
  else if handle ≠ id then .error ⟨.invalidData, "NBD request identifier is out of sync"⟩
  else .ok ()

/-- `read_exact_until` gets `n` more bytes of the header or the data. -/
def State.receive (s : State) (n : ℕ) : Option State :=
  match s.client with
  | .header call got =>
    if 0 < n ∧ n ≤ 16 - got.length ∧ n ≤ s.unread.length then
      let header := got ++ s.unread.take n
      let s := { s with unread := s.unread.drop n }
      if header.length < 16 then some { s with client := .header call header }
      else
        match checkHeader call.id header with
        | .error e => some (s.finish call (.error (.error e)))
        | .ok () =>
          -- The buffer for the data is allocated here.
          if maxVecLen < call.adjustedLen then some (s.finish call (.error .panic))
          else some { s with client := .payload call [] }
    else none
  | .payload call got =>
    if 0 < n ∧ n ≤ call.adjustedLen - got.length ∧ n ≤ s.unread.length then
      let data := got ++ s.unread.take n
      let s := { s with unread := s.unread.drop n }
      if data.length < call.adjustedLen then some { s with client := .payload call data }
      else some (s.finish call (.ok data))
    else none
  | _ => none

/-- The call that is under way, and what it is doing in the words of its errors. -/
def Client.context : Client → Option (Call × String)
  | idle => none
  | sending call _ => some (call, "sending NBD read request")
  | header call _ => some (call, "reading NBD reply header")
  | payload call _ => some (call, "reading NBD reply data")

/-- A new call: it returns at once when nothing is to be read, and else takes the next request
id. -/
def State.call (s : State) (exportSize offset len : ℕ) : State :=
  if len = 0 ∨ exportSize ≤ offset then
    { s with results := s.results ++ [⟨offset, len, .ok []⟩] }
  else
    let adjustedLen := min len (exportSize - offset)
    { s with
      client := .sending ⟨s.requestId, offset, len, adjustedLen⟩
        (requestBytes s.requestId offset adjustedLen)
      requestId := addw s.requestId 1 }

/-- One event between the client and a server that serves `D`. -/
def step (D : List UInt8) (e : Event) (s : State) : Option State :=
  match e with
  | .call offset len =>
    match s.client with
    | .idle => some (s.call D.length offset len)
    | _ => none
  | .write n =>
    match s.client with
    | .sending call rest =>
      if 0 < n ∧ n ≤ rest.length then
        some { s.serverReceive (rest.take n) with client := .sending call (rest.drop n) }
      else none
    | _ => none
  | .flush =>
    match s.client with
    | .sending call [] => some { s with client := .header call [] }
    | _ => none
  | .receive n => s.receive n
  | .expire =>
    s.client.context.map fun (call, context) =>
      s.finish call (.error (.error ⟨.timedOut, s!"Timed out {context}"⟩))
  | .hangup =>
    if s.closed ∧ s.unread = [] then
      s.client.context.map fun (call, context) =>
        s.finish call (.error (.error ⟨.unexpectedEof, s!"NBD {context}: connection closed"⟩))
    else none
  | .reply i error =>
    if s.closed then none
    else
      match s.pending[i]? with
      | none => none
      | some r => (replyBytes D r error).map fun bytes =>
        { s with pending := s.pending.eraseIdx i, unread := s.unread ++ bytes }
  | .close =>
    if s.poisoned ∧ ¬ s.closed then some { s with closed := true, pending := [] } else none

/-- A call returned the bytes of the disk that it asked for. -/
def Result.Exact (D : List UInt8) (r : Result) : Prop :=
  ∀ data, r.outcome = .ok data → data = slice D r.offset r.len

end VmSpect.Nbd
