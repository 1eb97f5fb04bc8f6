import FreeSensePorts.Core.FastCgi
import FreeSensePorts.Core.Chunks
import FreeSensePorts.CheckReload.Queue

/-!
# Reading the answers of php-fpm

The part of `socket_read_fcgi` in front of its `switch`: one receive for a header and one for the body,
into buffers filled with zeros.  What is left in the stream is the next header to the next call.
`replies` are the calls for a stream that is cut into chunks; that the socket is closed after a
complete answer is not looked at here.  A call takes at most what its header announces, so all calls
together take the whole stream only if each takes all of its record (`length_le_announced`).
-/

namespace FreeSense.CheckReload

open FastCgi Chunks
open List hiding after

variable {chunks : List (List UInt8)}

/-- What a call makes out, and how much it stores in `buf`. -/
structure Reply where
  header : List UInt8
  body : List UInt8
  stored : ℕ
  deriving DecidableEq, Repr

def headerSize : ℕ := 8

/-- The size of `buf`. -/
def replySize : ℕ := 4096

def filled (size : ℕ) (data : List UInt8) : List UInt8 := data ++ List.replicate (size - data.length) 0

/-- The receive of the body, if one is announced. -/
def readBody (header : List UInt8) (chunks : List (List UInt8)) : Option Reply × List (List UInt8) :=
  let len := Frame.bodyLength header
  if len > 0 then
    match recv len chunks with
    | (none, rest) => (some ⟨header, filled len [], 0⟩, rest)
    | (some [], rest) => (none, rest)
    | (some data, rest) => (some ⟨header, filled len data, data.length⟩, rest)
  else (some ⟨header, [], 0⟩, chunks)

/-- The two receives; `none` if the call returns without looking at the record. -/
def readReply (chunks : List (List UInt8)) : Option Reply × List (List UInt8) :=
  match recv headerSize chunks with
  | (none, rest) => (none, rest)
  | (some [], rest) => (none, rest)
  | (some data, rest) => readBody (filled headerSize data) rest

/-- What the calls make out. -/
def repliesLoop : ℕ → List (List UInt8) → List Reply
  | 0, _ => []
  | _ + 1, [] => []
  | fuel + 1, chunk :: chunks =>
    match readReply (chunk :: chunks) with
    | (none, rest) => repliesLoop fuel rest
    | (some r, rest) => r :: repliesLoop fuel rest

/-- Each call takes a chunk away or receives a byte. -/
def replies (chunks : List (List UInt8)) : List Reply :=
  repliesLoop (chunks.flatten.length + chunks.length + 1) chunks

/-! ## What the `switch` looks at -/

def RecordType.ofByte (type : UInt8) : RecordType :=
  if type = 2 then .ABORT_REQUEST
  else if type = 3 then .END_REQUEST
  else if type = 6 then .STDOUT
  else if type = 7 then .STDERR
  else if type = 8 then .DATA
  else .other

def recordOf (header body : List UInt8) : Record :=
  ⟨.ofByte (header.getD 1 0), Frame.bodyLength header, body.getD 4 0⟩

def Reply.record (r : Reply) : Record := recordOf r.header r.body

/-! ## One call -/

def replyOf (f : Frame) : Reply := ⟨f.header, f.body, f.body.length⟩

lemma readBody_spec (header : List UInt8) (h : Flowing chunks) : ∃ j, readBody header chunks
        = (some ⟨header, filled (Frame.bodyLength header) (chunks.flatten.take j), j⟩, after j chunks) ∧
      j ≤ Frame.bodyLength header ∧ j ≤ chunks.flatten.length ∧
      (j = Frame.bodyLength header ↔ Whole (Frame.bodyLength header) chunks) := by
  rw [readBody]
  generalize Frame.bodyLength header = len
  by_cases hlen : len > 0
  · rw [if_pos hlen]
    by_cases hne : chunks = []
    · -- the stream ends behind the header
      subst hne
      exact ⟨0, rfl, Nat.zero_le _, Nat.zero_le _, iff_of_false hlen.ne (Nat.not_le.mpr hlen)⟩
    · obtain ⟨j, hpos, hle, hflatten, hwhole, hrecv⟩ := recv_spec h hlen hne
      have htake : (chunks.flatten.take j).length = j := by
        rw [length_take]
        omega
      refine ⟨j, ?_, hle, hflatten, hwhole⟩
      obtain ⟨b, bs, hcons⟩ :=
        exists_cons_of_length_pos (show 0 < (chunks.flatten.take j).length by omega)
      rw [hrecv, hcons]
      dsimp only
      rw [← hcons, htake]
  · obtain rfl : len = 0 := Nat.eq_zero_of_not_pos hlen
    refine ⟨0, ?_, le_rfl, Nat.zero_le _, iff_of_true rfl (Nat.zero_le _)⟩
    rw [h.after_zero]
    rfl

/-- A call has received `k` bytes of a header and `j` of the body that it then sees announced. -/
structure Took (chunks : List (List UInt8)) (k j : ℕ) (r : Reply) : Prop where
  call : readReply chunks = (some r, after (k + j) chunks)
  pos : 0 < k
  header_le : k ≤ headerSize
  header : r.header = filled headerSize (chunks.flatten.take k)
  header_whole : k = headerSize ↔ Whole headerSize chunks
  body_le : j ≤ Frame.bodyLength r.header
  body : r.body = filled (Frame.bodyLength r.header) ((chunks.flatten.drop k).take j)
  body_whole : j = Frame.bodyLength r.header ↔ Whole (Frame.bodyLength r.header) (after k chunks)
  stored : r.stored = j
  le : k + j ≤ chunks.flatten.length

/-- **A call** makes out a record of some kind. -/
lemma exists_took (h : Flowing chunks) (hne : chunks ≠ []) : ∃ k j r, Took chunks k j r := by
  obtain ⟨k, hpos, hle, hlen, hwhole, hrecv⟩ := recv_spec h (show 0 < headerSize by decide) hne
  have hdata : 0 < (chunks.flatten.take k).length := by
    rw [length_take]
    omega
  have hread : readReply chunks
      = readBody (filled headerSize (chunks.flatten.take k)) (after k chunks) := by
    obtain ⟨b, bs, hcons⟩ := exists_cons_of_length_pos hdata
    rw [readReply, hrecv, hcons]
  obtain ⟨j, hbody, hjle, hjlen, hjwhole⟩ :=
    readBody_spec (filled headerSize (chunks.flatten.take k)) (h.after k)
  rw [hbody, after_after] at hread
  rw [flatten_after] at hread hjlen
  rw [length_drop] at hjlen
  exact ⟨k, j, _, hread, hpos, hle, rfl, hwhole, hjle, rfl, hjwhole, rfl, by omega⟩

/-! ## All calls -/

def announced (rs : List Reply) : ℕ := (rs.map fun r => headerSize + Frame.bodyLength r.header).sum

variable {k j fuel : ℕ} {r : Reply} {f : Frame}

lemma repliesLoop_cons (h : Took chunks k j r) (fuel : ℕ) :
    repliesLoop (fuel + 1) chunks = r :: repliesLoop fuel (after (k + j) chunks) := by
  cases chunks with
  | nil =>
    have := h.le
    have := h.pos
    simp at *
    omega
  | cons chunk chunks => rw [repliesLoop, h.call]

/-- **The calls take no more than they see announced.** -/
lemma length_le_announced (h : Flowing chunks) (hfuel : chunks.flatten.length < fuel) :
    chunks.flatten.length ≤ announced (repliesLoop fuel chunks) := by
  induction fuel generalizing chunks with
  | zero => omega
  | succ fuel ih =>
    by_cases hne : chunks = []
    · subst hne
      exact Nat.zero_le _
    · obtain ⟨k, j, r, htook⟩ := exists_took h hne
      have hrest := ih (h.after (k + j)) (by
        rw [flatten_after, length_drop]
        have := htook.pos
        have := htook.le
        omega)
      rw [flatten_after, length_drop] at hrest
      rw [repliesLoop_cons htook, announced, map_cons, sum_cons, ← announced]
      have := htook.header_le
      have := htook.body_le
      omega

/-! ## In step -/

/-- Each header and each body is received in one piece, and each body fits in the buffer. -/
def InStep : List (List UInt8) → List Frame → Prop
  | _, [] => True
  | chunks, f :: fs =>
    Whole headerSize chunks ∧ Whole f.body.length (after headerSize chunks) ∧
      f.body.length ≤ replySize ∧ InStep (after f.bytes.length chunks) fs

lemma Took.eq_replyOf {stream : List UInt8} (h : Took chunks k j r)
    (hstream : chunks.flatten = f.bytes ++ stream) (hheader : Whole headerSize chunks)
    (hbody : Whole f.body.length (after headerSize chunks)) :
    k + j = f.bytes.length ∧ r = replyOf f := by
  obtain rfl : k = headerSize := h.header_whole.mpr hheader
  have htake : chunks.flatten.take headerSize = f.header := by
    rw [hstream]
    exact take_left' f.length_header
  have hdrop : chunks.flatten.drop headerSize = f.body ++ stream := by
    rw [hstream]
    exact drop_left' f.length_header
  have hrheader : r.header = f.header := by
    rw [h.header, htake]
    exact append_nil _
  have hlen : Frame.bodyLength r.header = f.body.length := by rw [hrheader, f.bodyLength_header]
  obtain rfl : j = f.body.length := by
    have hwhole := h.body_whole
    rw [hlen] at hwhole
    exact hwhole.mpr hbody
  have hrbody : r.body = f.body := by
    rw [h.body, hlen, hdrop, take_left, filled, Nat.sub_self, replicate_zero,
      append_nil]
  refine ⟨f.length_bytes.symm, ?_⟩
  obtain ⟨header, body, stored⟩ := r
  obtain rfl : stored = f.body.length := h.stored
  dsimp only at hrheader hrbody
  rw [hrheader, hrbody, replyOf]

/-- A call that takes all that it sees announced has received it in one piece. -/
lemma Took.whole (h : Took chunks k j (replyOf f)) (hall : headerSize + f.body.length ≤ k + j) :
    Whole headerSize chunks ∧ Whole f.body.length (after headerSize chunks) := by
  have hlen : Frame.bodyLength (replyOf f).header = f.body.length := f.bodyLength_header
  have hbody := h.body_whole
  have hle := h.header_le
  have hle' := h.body_le
  rw [hlen] at hbody hle'
  obtain rfl : k = headerSize := by omega
  exact ⟨h.header_whole.mp rfl, hbody.mp (by omega)⟩

lemma announced_replyOf (fs : List Frame) :
    announced (fs.map replyOf) = (fs.flatMap Frame.bytes).length := by
  induction fs with
  | nil => rfl
  | cons f fs ih =>
    rw [map_cons, announced, map_cons, sum_cons, ← announced, ih, flatMap_cons,
      length_append, f.length_bytes]
    exact congrArg (· + _) (congrArg (headerSize + ·) f.bodyLength_header)

lemma repliesLoop_iff {frames : List Frame} (hflow : Flowing chunks)
    (hstream : chunks.flatten = frames.flatMap Frame.bytes) (hfuel : chunks.flatten.length < fuel) :
    (repliesLoop fuel chunks = frames.map replyOf ∧
        ∀ r ∈ repliesLoop fuel chunks, r.stored ≤ replySize) ↔ InStep chunks frames := by
  induction frames generalizing fuel chunks with
  | nil =>
    have hnil : chunks = [] := by
      by_contra hne
      obtain ⟨c, cs, rfl⟩ := exists_cons_of_ne_nil hne
      rw [flatMap_nil, flatten_cons, append_eq_nil_iff] at hstream
      exact hflow c mem_cons_self hstream.1
    subst hnil
    obtain ⟨fuel, rfl⟩ := Nat.exists_eq_add_one_of_ne_zero (Nat.ne_zero_of_lt hfuel)
    simp [repliesLoop, InStep]
  | cons f fs ih =>
    rw [flatMap_cons] at hstream
    have hlength : chunks.flatten.length
        = f.bytes.length + (fs.flatMap Frame.bytes).length := by rw [hstream, length_append]
    have hbytes := f.length_bytes
    have hne : chunks ≠ [] := ne_nil_of_flatten (by omega)
    obtain ⟨fuel, rfl⟩ := Nat.exists_eq_add_one_of_ne_zero (Nat.ne_zero_of_lt hfuel)
    obtain ⟨k, j, r, htook⟩ := exists_took hflow hne
    have hpos := htook.pos
    have hafter : (after f.bytes.length chunks).flatten = fs.flatMap Frame.bytes := by
      rw [flatten_after, hstream, drop_left]
    have hrest := ih (hflow.after f.bytes.length) hafter
      (show _ < fuel by rw [hafter]; omega)
    rw [repliesLoop_cons htook, map_cons, forall_mem_cons]
    constructor
    · rintro ⟨heq, hstored, hstoreds⟩
      obtain ⟨rfl, htail⟩ := cons_eq_cons.mp heq
      -- what the later calls take is what is announced to them
      have hannounced : chunks.flatten.length - (k + j) ≤ (fs.flatMap Frame.bytes).length := by
        have hle := length_le_announced (hflow.after (k + j))
          (show (after (k + j) chunks).flatten.length < fuel by
            rw [flatten_after, length_drop]
            omega)
        rwa [htail, announced_replyOf, flatten_after, length_drop] at hle
      obtain ⟨hheader, hbody⟩ := htook.whole (show 8 + f.body.length ≤ k + j by omega)
      obtain ⟨hconsumed, -⟩ := htook.eq_replyOf hstream hheader hbody
      rw [hconsumed] at htail hstoreds
      exact ⟨hheader, hbody, hstored, hrest.mp ⟨htail, hstoreds⟩⟩
    · rintro ⟨hheader, hbody, hsize, hlater⟩
      obtain ⟨hconsumed, rfl⟩ := htook.eq_replyOf hstream hheader hbody
      obtain ⟨htail, hstoreds⟩ := hrest.mpr hlater
      rw [hconsumed]
      exact ⟨by rw [htail], hsize, hstoreds⟩

def outputFrame : Frame := .ofContent 6 [104, 105] (by decide)

def longReply : Frame := .ofContent 6 (List.replicate 5000 0) (by rw [length_replicate]; decide)

lemma replyOf_mem (f : Frame) : replyOf f ∈ replies [f.bytes] := by
  have hflow : Flowing [f.bytes] := .singleton (cons_ne_nil _ _)
  have hstream : [f.bytes].flatten = f.bytes ++ [] := by rw [flatten_cons, flatten_nil]
  have hheader : Whole headerSize [f.bytes] := by
    rw [Whole, headD_cons, f.length_bytes]
    exact Nat.le_add_right _ _
  obtain ⟨k, j, r, htook⟩ := exists_took hflow (cons_ne_nil _ _)
  obtain ⟨-, rfl⟩ := htook.eq_replyOf hstream hheader (whole_after [] f.length_bytes.ge)
  rw [replies, repliesLoop_cons htook]
  exact mem_cons_self

end FreeSense.CheckReload
