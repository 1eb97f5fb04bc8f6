import FreeSensePorts.Core.FastCgi
import FreeSensePorts.Core.Chunks
import FreeSensePorts.Core.Text

/-!
# `fcgicli`

`sysutils/check_reload_status/files/fcgicli.c`: a client for php-fpm that sends one request and prints
what comes back.  `build_nvpair` appends a pair to a string buffer, and swaps the bytes of a long
length as a word.  `read_packet` reads one record from the chunks of `Core/Chunks`.  The loop of
`main` prints the records, without the header of the response and the lines after it that begin
with `#!`.

A store through a pointer is its distance from the object the pointer is meant for, and the bytes.
The options, the connection, the sending of the request and the texts of the failures are left out.
-/

namespace FreeSense.Fcgicli

open FastCgi Chunks

abbrev Bytes := List UInt8

/-! ## Pairs -/

/-- `FCGI_NV_SLEN` and `FCGI_NV_LLEN`. -/
def nvSlen : ℕ := 1 <<< 7

def nvLlen : ℕ := 1 <<< 31

def wordBytes (w : BitVec 32) : Bytes :=
  [⟨w.extractLsb' 24 8⟩, ⟨w.extractLsb' 16 8⟩, ⟨w.extractLsb' 8 8⟩, ⟨w.extractLsb' 0 8⟩]

def memory (littleEndian : Bool) (w : BitVec 32) : Bytes :=
  if littleEndian then (wordBytes w).reverse else wordBytes w

def htonl (littleEndian : Bool) (w : BitVec 32) : BitVec 32 :=
  if littleEndian then w.extractLsb' 0 8 ++ w.extractLsb' 8 8 ++ w.extractLsb' 16 8 ++ w.extractLsb' 24 8
  else w

/-- A length, which is a `uint32_t`. -/
def lengthField (littleEndian : Bool) (l : ℕ) : Bytes :=
  if l < nvSlen then [UInt8.ofNat l]
  else memory littleEndian (htonl littleEndian (BitVec.ofNat 32 (nvLlen ||| l)))

/-- What `build_nvpair` appends; `none` is its `-1`. -/
def buildNvpair (littleEndian : Bool) (key svalue : Bytes) : Option Bytes :=
  let lkey := (cstr key).length % 2 ^ 32
  let lvalue := (cstr svalue).length % 2 ^ 32
  if ¬(lkey < nvLlen ∧ lvalue < nvLlen) then none
  else
    some (lengthField littleEndian lkey ++ lengthField littleEndian lvalue ++
      (if lkey > 0 then cstr key else []) ++ (if lvalue > 0 then cstr svalue else []))

/-! ## Records -/

/-- A store: how far from the start of the object, and what. -/
abbrev Store := ℕ × Bytes

/-- The store stays inside an object of this size. -/
def Inside (size : ℕ) (s : Store) : Prop := s.1 + s.2.length ≤ size

instance (size : ℕ) (s : Store) : Decidable (Inside size s) := inferInstanceAs (Decidable (_ ≤ _))

def store (object : Bytes) (s : Store) : Bytes :=
  object.mapIdx fun i b => if s.1 ≤ i then (s.2[i - s.1]?).getD b else b

/-- The loop around `recv`: how much was read in the end, what was received each time and how much
had been read then, and what is left. -/
def recvLoop (len : ℕ) : ℕ → ℕ → List Bytes → ℕ × List (ℕ × Bytes) × List Bytes
  | 0, read, chunks => (read, [], chunks)
  | fuel + 1, read, chunks =>
    if read < len then
      match recv (len - read) chunks with
      | (none, rest) => (read, [], rest)
      | (some [], rest) => recvLoop len fuel read rest
      | (some data, rest) =>
        let (last, received, rest) := recvLoop len fuel (read + data.length) rest
        (last, (read, data) :: received, rest)
    else (read, [], chunks)

/-- Each receive takes a chunk away or reads a byte. -/
def receive (len : ℕ) (chunks : List Bytes) : ℕ × List (ℕ × Bytes) × List Bytes :=
  recvLoop len (len + chunks.length + 1) 0 chunks

inductive Failure
  /-- `Failed to read %zd header bytes`. -/
  | header (missing : ℕ)
  /-- `Invalid requestId %u`. -/
  | requestId (req : ℕ)
  /-- `Could not allocate buffer of size %zu`. -/
  | memory (len : ℕ)
  /-- `Failed to read %zd payload bytes`. -/
  | payload (missing : ℕ)
  deriving DecidableEq, Repr

/-- What a call of `read_packet` leaves. -/
structure Packet where
  header : Bytes
  buf : Except Failure Bytes
  headerStores : List Store
  bufStores : List Store
  rest : List Bytes
  deriving DecidableEq

def headerSize : ℕ := 8

/-- `read_packet`, on a header that held these bytes before.  `header + read` counts in headers,
`buf + read` in bytes.  `len` is a `uint16_t`. -/
def readPacket (alloc : Bool) (header : Bytes) (chunks : List Bytes) : Packet :=
  let (read, received, rest) := receive headerSize chunks
  let headerStores := received.map fun r => (headerSize * r.1, r.2)
  let header := headerStores.foldl store header
  if read < headerSize then ⟨header, .error (.header (headerSize - read)), headerStores, [], rest⟩
  else
    let req := be16 (header.getD 2 0) (header.getD 3 0)
    if req ≠ 1 then ⟨header, .error (.requestId req), headerStores, [], rest⟩
    else
      let len := (be16 (header.getD 4 0) (header.getD 5 0) + (header.getD 6 0).toNat) % 2 ^ 16
      if alloc = false then ⟨header, .error (.memory len), headerStores, [], rest⟩
      else
        let (read, bufStores, rest) := receive len rest
        if read < len then ⟨header, .error (.payload (len - read)), headerStores, bufStores, rest⟩
        else
          ⟨header, .ok (bufStores.foldl store (List.replicate (len + 1) 0)), headerStores, bufStores,
            rest⟩

/-! ## The response -/

def newline : UInt8 := 10

def startsScript (line : Bytes) : Bool := line.head? = some 35 && line.tail.head? = some 33

/-- The loop over the lines `strsep` returns: whether the header has ended, and what is printed.
`n_linebuf` is `NULL` after the last line. -/
def printLines : Bool → List Bytes → Bool × Bytes
  | endHeader, [] => (endHeader, [])
  | false, line :: lines => printLines (line.length = 1) lines
  | true, line :: lines =>
    if startsScript line then printLines true lines
    else (true, line ++ if lines ≠ [] then [newline] else [])

inductive RecordType
  | ABORT_REQUEST | END_REQUEST | STDOUT | STDERR | DATA | other (type : UInt8)
  deriving DecidableEq, Repr

def RecordType.ofByte (type : UInt8) : RecordType :=
  if type = 2 then .ABORT_REQUEST
  else if type = 3 then .END_REQUEST
  else if type = 6 then .STDOUT
  else if type = 7 then .STDERR
  else if type = 8 then .DATA
  else .other type

def text (s : String) : Bytes := Text.bytes s.toList

/-- The text for the status of an `END_REQUEST`. -/
def statusText (protocolStatus : UInt8) : Bytes :=
  if protocolStatus = 1 then text "The FCGI server cannot multiplex\n"
  else if protocolStatus = 2 then text "The FCGI server is overloaded\n"
  else if protocolStatus = 3 then text "FCGI role is unknown\n"
  else []

/-- The `switch` over a record: `none` if the program ends with it, or else whether the header has
ended; and what is printed.  An `END_REQUEST` has a body of eight bytes. -/
def printRecord (endHeader : Bool) (type : UInt8) (buf : Bytes) : Option Bool × Bytes :=
  match RecordType.ofByte type with
  | .DATA | .STDOUT | .STDERR =>
    if endHeader then (some true, cstr buf)
    else
      let (endHeader, out) := printLines false ((cstr buf).splitOn newline)
      (some endHeader, out)
  | .ABORT_REQUEST => (none, text "Request aborted\n")
  | .END_REQUEST => (none, statusText (buf.getD 4 0))
  | .other type =>
    (none, text "Received unexpected header type " ++ text (toString type.toNat) ++ text ", exiting")

def printRecords : Bool → List (UInt8 × Bytes) → Bytes
  | _, [] => []
  | endHeader, (type, buf) :: records =>
    match printRecord endHeader type buf with
    | (none, out) => out
    | (some endHeader, out) => out ++ printRecords endHeader records

/-- The loop of `main`: what is printed, and the failure that ended it, if one did.  Each call of
`read_packet` that succeeds has received a header. -/
def mainLoop : ℕ → Bool → Bytes → List Bytes → Bytes × Option Failure
  | 0, _, _, _ => ([], none)
  | fuel + 1, endHeader, header, chunks =>
    let packet := readPacket true header chunks
    match packet.buf with
    | .error e => ([], some e)
    | .ok buf =>
      match printRecord endHeader (packet.header.getD 1 0) buf with
      | (none, out) => (out, none)
      | (some endHeader, out) =>
        let (out', failure) := mainLoop fuel endHeader packet.header packet.rest
        (out ++ out', failure)

end FreeSense.Fcgicli
