import FreeSensePorts.Fcgicli.Model

/-!
# Reading records from a cut stream

`read_packet` has a loop around each of its two receives.  The pieces of a body are stored one behind
the other (`Placed`).  For the header, `header + read` moves by whole headers: a second piece is stored
behind the structure.  The length of a body is kept in sixteen bits, padding included.  `ReadsAll` is
what the calls should do on a stream of records.
-/

namespace FreeSense.Fcgicli

open FastCgi Chunks
open List hiding after

/-! ## The loop around `recv` -/

/-- The pieces lie one behind the other, the first at `n`. -/
def Placed : ℕ → List (ℕ × Bytes) → Prop
  | _, [] => True
  | n, r :: rs => r.1 = n ∧ r.2 ≠ [] ∧ Placed (n + r.2.length) rs

def joined (received : List (ℕ × Bytes)) : Bytes := (received.map Prod.snd).flatten

lemma joined_cons (r : ℕ × Bytes) (rs : List (ℕ × Bytes)) : joined (r :: rs) = r.2 ++ joined rs := by
  rw [joined, map_cons, flatten_cons, joined]

variable {n : ℕ} {rs : List (ℕ × Bytes)}

lemma Placed.eq_nil (h : Placed n rs) (hjoined : joined rs = []) : rs = [] := by
  cases rs with
  | nil => rfl
  | cons r rs =>
    rw [joined_cons, append_eq_nil_iff] at hjoined
    exact absurd hjoined.1 h.2.1

lemma Placed.inside (h : Placed n rs) : ∀ r ∈ rs, Inside (n + (joined rs).length) r := by
  induction rs generalizing n with
  | nil => exact fun r hr => absurd hr not_mem_nil
  | cons r rs ih =>
    obtain ⟨hat, -, hrest⟩ := h
    rw [joined_cons, length_append, ← Nat.add_assoc]
    intro r' hr'
    rcases mem_cons.mp hr' with rfl | hr'
    · rw [Inside, hat]
      exact Nat.le_add_right _ _
    · exact ih hrest r' hr'

/-- **The loop reads what was asked for**, if the stream has it.  The first piece is everything
exactly if it comes in one chunk. -/
lemma recvLoop_spec {len fuel read : ℕ} {chunks : List Bytes} (h : Flowing chunks)
    (hread : read ≤ len) (hfuel : len - read < fuel) (hlen : len - read ≤ chunks.flatten.length) :
    ∃ received, recvLoop len fuel read chunks = (len, received, after (len - read) chunks) ∧
      Placed read received ∧ joined received = chunks.flatten.take (len - read) ∧
      (read < len → ∃ k rs, 0 < k ∧ k ≤ len - read ∧
        received = (read, chunks.flatten.take k) :: rs ∧
        (k = len - read ↔ Whole (len - read) chunks)) := by
  induction fuel generalizing read chunks with
  | zero => omega
  | succ fuel ih =>
    rw [recvLoop]
    by_cases hlt : read < len
    · have hne : chunks ≠ [] := ne_nil_of_flatten (by omega)
      obtain ⟨k, hk, hkle, hkav, hwhole, hrecv⟩ := recv_spec h (Nat.sub_pos_of_lt hlt) hne
      have hlength : (chunks.flatten.take k).length = k := length_take_of_le hkav
      have hdata : chunks.flatten.take k ≠ [] := by
        intro hnil
        rw [hnil, length_nil] at hlength
        omega
      have hrest : len - (read + k) ≤ (after k chunks).flatten.length := by
        rw [flatten_after, length_drop]
        omega
      obtain ⟨rs, hloop, hplaced, hjoined, -⟩ :=
        ih (h.after k) (show read + k ≤ len by omega) (by omega) hrest
      have hsum : len - read = k + (len - (read + k)) := by omega
      refine ⟨(read, chunks.flatten.take k) :: rs, ?_, ⟨rfl, hdata, ?_⟩, ?_,
        fun _ => ⟨k, rs, hk, hkle, rfl, hwhole⟩⟩
      · obtain ⟨b, bs, hcons⟩ := exists_cons_of_ne_nil hdata
        rw [if_pos hlt, hrecv]
        simp only [hcons]
        rw [← hcons, hlength, hloop, after_after, ← hsum]
      · rwa [hlength]
      · rw [joined_cons, hjoined, flatten_after, hsum, take_add]
    · obtain rfl : read = len := by omega
      refine ⟨[], by rw [if_neg hlt, Nat.sub_self, h.after_zero], trivial, by simp [joined], ?_⟩
      exact fun hlt' => absurd hlt' hlt

/-- **What is received**: all of it lies in one piece, or another piece lies further on. -/
lemma receive_spec {len : ℕ} {chunks : List Bytes} (h : Flowing chunks)
    (hlen : len ≤ chunks.flatten.length) :
    ∃ received, receive len chunks = (len, received, after len chunks) ∧ Placed 0 received ∧
      joined received = chunks.flatten.take len ∧
      (0 < len → Whole len chunks → received = [(0, chunks.flatten.take len)]) ∧
      (0 < len → ¬Whole len chunks → ∃ r ∈ received, 0 < r.1 ∧ r.2 ≠ []) := by
  obtain ⟨received, hreceive, hplaced, hjoined, hfirst⟩ :=
    recvLoop_spec h (Nat.zero_le len) (show len - 0 < len + chunks.length + 1 by omega) hlen
  refine ⟨received, hreceive, hplaced, hjoined, fun hpos hwhole => ?_, fun hpos hcut => ?_⟩
  · obtain ⟨k, rs, -, -, rfl, hk⟩ := hfirst hpos
    obtain rfl : k = len := hk.mpr hwhole
    rw [hplaced.2.2.eq_nil (append_right_eq_self.mp hjoined)]
  · obtain ⟨k, rs, hk, hkle, rfl, hiff⟩ := hfirst hpos
    have htake : (chunks.flatten.take k).length = k := length_take_of_le (hkle.trans hlen)
    have hne : k ≠ len := fun heq => hcut (hiff.mp heq)
    cases rs with
    | nil =>
      have htotal := congrArg List.length hjoined
      rw [joined_cons, length_append, Nat.sub_zero, length_take_of_le hlen] at htotal
      rw [htake] at htotal
      exact absurd htotal hne
    | cons r rs =>
      obtain ⟨-, -, hat, hdata, -⟩ := hplaced
      refine ⟨r, mem_cons_of_mem _ mem_cons_self, ?_, hdata⟩
      rw [hat, Nat.zero_add]
      exact lt_of_lt_of_eq hk htake.symm

/-! ## Stores -/

@[simp] lemma length_store (object : Bytes) (s : Store) : (store object s).length = object.length :=
  length_mapIdx

lemma length_foldl_store (stores : List Store) (object : Bytes) :
    (stores.foldl store object).length = object.length := by
  induction stores generalizing object with
  | nil => rfl
  | cons s stores ih => rw [foldl_cons, ih, length_store]

lemma store_append (before data after : Bytes) (h : data.length ≤ after.length) :
    store (before ++ after) (before.length, data) = before ++ data ++ after.drop data.length := by
  refine ext_getElem? fun i => ?_
  rw [store, getElem?_mapIdx, append_assoc]
  by_cases hbefore : i < before.length
  · rw [getElem?_append_left hbefore, getElem?_append_left hbefore]
    simp [Nat.not_le.mpr hbefore]
  · have hle : before.length ≤ i := not_lt.mp hbefore
    rw [getElem?_append_right hle, getElem?_append_right hle]
    simp only [hle, if_true]
    by_cases hdata : i - before.length < data.length
    · rw [getElem?_append_left hdata, getElem?_eq_getElem hdata,
        getElem?_eq_getElem (lt_of_lt_of_le hdata h)]
      rfl
    · have hge : data.length ≤ i - before.length := not_lt.mp hdata
      rw [getElem?_append_right hge, getElem?_drop, Nat.add_sub_cancel' hge,
        getElem?_eq_none hge]
      simp

/-- **Pieces one behind the other** fill the object from where the first one lies. -/
lemma foldl_store_placed (before after : Bytes) (h : Placed before.length rs)
    (hlen : (joined rs).length ≤ after.length) :
    rs.foldl store (before ++ after) = before ++ joined rs ++ after.drop (joined rs).length := by
  induction rs generalizing before after with
  | nil => simp [joined]
  | cons r rs ih =>
    obtain ⟨offset, data⟩ := r
    obtain ⟨rfl, -, hrest⟩ := h
    rw [joined_cons, length_append] at hlen
    dsimp only at hlen
    rw [foldl_cons, store_append _ _ _ (by omega), ih, joined_cons]
    · simp
    · rwa [length_append]
    · rw [length_drop]
      omega

/-! ## One record -/

section Packet

variable {f : Frame} {stream header : Bytes} {chunks : List Bytes} (hflow : Flowing chunks)
  (hstream : chunks.flatten = f.bytes ++ stream)

include hstream in
lemma headerSize_le : headerSize ≤ chunks.flatten.length := by
  rw [hstream, length_append, f.length_bytes]
  exact Nat.le_add_right_of_le (Nat.le_add_right _ _)

include hflow hstream

/-- **The stores of the header** stay inside it exactly if it comes in one piece. -/
lemma headerStores_inside_iff :
    (∀ s ∈ (readPacket true header chunks).headerStores, Inside headerSize s) ↔
      Whole headerSize chunks := by
  obtain ⟨received, hreceive, -, -, hwhole, hcut⟩ := receive_spec hflow (headerSize_le hstream)
  have hstores : (readPacket true header chunks).headerStores
      = received.map fun r => (headerSize * r.1, r.2) := by
    rw [readPacket, hreceive]
    dsimp only
    split_ifs <;> rfl
  rw [hstores, forall_mem_map]
  constructor
  · intro hinside
    by_contra hnot
    -- a piece that does not lie at the start is stored behind the header
    obtain ⟨r, hr, hat, hdata⟩ := hcut (by decide) hnot
    have hr := hinside r hr
    have hpos := length_pos_of_ne_nil hdata
    dsimp only [Inside, headerSize] at hr
    omega
  · intro h
    rw [hwhole (by decide) h]
    intro r hr
    obtain rfl := mem_singleton.mp hr
    rw [Inside, length_take_of_le (headerSize_le hstream)]
    exact le_rfl

lemma receive_header (hwhole : Whole headerSize chunks) :
    receive headerSize chunks = (headerSize, [(0, f.header)], after headerSize chunks) := by
  obtain ⟨received, hreceive, -, -, hone, -⟩ := receive_spec hflow (headerSize_le hstream)
  have htake : chunks.flatten.take headerSize = f.header := by
    rw [hstream, Frame.bytes]
    exact take_left' f.length_header
  rw [hreceive, hone (by decide) hwhole, htake]

/-- **A record whose header comes in one piece**: the header is read, and its length is what counts
from then on. -/
lemma readPacket_whole (hid : f.requestId = 1) (hheader : header.length = headerSize)
    (hwhole : Whole headerSize chunks) {len : ℕ} (hlen : f.body.length % 2 ^ 16 = len) :
    ∃ bufStores, readPacket true header chunks = ⟨f.header,
        .ok (bufStores.foldl store (List.replicate (len + 1) 0)), [(0, f.header)], bufStores,
        after (headerSize + len) chunks⟩ ∧
      Placed 0 bufStores ∧ joined bufStores = (f.body ++ stream).take len := by
  have hrest : (after headerSize chunks).flatten = f.body ++ stream := by
    rw [flatten_after, hstream, Frame.bytes]
    exact drop_left' f.length_header
  have hle : len ≤ (after headerSize chunks).flatten.length := by
    rw [hrest, length_append, ← hlen]
    exact (Nat.mod_le _ _).trans (Nat.le_add_right _ _)
  obtain ⟨bufStores, hreceive, hplaced, hjoined, -, -⟩ := receive_spec (hflow.after _) hle
  have hstored : store header (0, f.header) = f.header := by
    have happend := store_append [] f.header header (by rw [hheader]; exact le_rfl)
    rw [drop_eq_nil_of_le (by rw [hheader]; exact le_rfl)] at happend
    exact happend
  have hbody : (be16 (f.header.getD 4 0) (f.header.getD 5 0) + (f.header.getD 6 0).toNat) % 2 ^ 16
      = len := by
    rw [← hlen, ← f.bodyLength_header, Frame.bodyLength]
  rw [after_after] at hreceive
  refine ⟨bufStores, ?_, hplaced, by rw [hjoined, hrest]⟩
  simp only [readPacket, receive_header hflow hstream hwhole, map_cons, map_nil,
    Nat.mul_zero, foldl_cons, foldl_nil, hstored, lt_irrefl, if_false, f.requestId_header,
    hid, ne_eq, not_true_eq_false, Bool.true_eq_false, hbody, hreceive]

end Packet

/-! ## All records -/

/-- What a call should do on the record `f`, with the stream `rest` behind it. -/
structure Reads (f : Frame) (rest : Bytes) (p : Packet) : Prop where
  header : p.header = f.header
  buf : p.buf = .ok (f.body ++ [0])
  rest : p.rest.flatten = rest
  headerInside : ∀ s ∈ p.headerStores, Inside headerSize s
  bufInside : ∀ s ∈ p.bufStores, Inside (f.body.length + 1) s

/-- What successive calls should do. -/
def ReadsAll : Bytes → List Bytes → List Frame → Prop
  | _, _, [] => True
  | header, chunks, f :: fs =>
    Reads f (fs.flatMap Frame.bytes) (readPacket true header chunks) ∧
      ReadsAll (readPacket true header chunks).header (readPacket true header chunks).rest fs

def HeadersWhole : List Bytes → List Frame → Prop
  | _, [] => True
  | chunks, f :: fs => Whole headerSize chunks ∧ HeadersWhole (after f.bytes.length chunks) fs

section Step

variable {f : Frame} {stream header : Bytes} {chunks : List Bytes} (hflow : Flowing chunks)
  (hstream : chunks.flatten = f.bytes ++ stream) (hid : f.requestId = 1)
  (hheader : header.length = headerSize)

include hflow hstream hid hheader

/-- **A record that is read well.** -/
lemma reads_of_whole (hwhole : Whole headerSize chunks) (hlen : f.body.length < 2 ^ 16) :
    Reads f stream (readPacket true header chunks) ∧
      (readPacket true header chunks).rest = after f.bytes.length chunks := by
  obtain ⟨bufStores, hread, hplaced, hjoined⟩ :=
    readPacket_whole hflow hstream hid hheader hwhole (Nat.mod_eq_of_lt hlen)
  rw [take_left] at hjoined
  have hsize : headerSize + f.body.length = f.bytes.length := f.length_bytes.symm
  have hbuf : bufStores.foldl store (List.replicate (f.body.length + 1) 0) = f.body ++ [0] := by
    have hfill := foldl_store_placed [] (List.replicate (f.body.length + 1) 0) hplaced
      (by rw [hjoined, length_replicate]; exact Nat.le_succ _)
    rw [hjoined, drop_replicate, Nat.add_sub_cancel_left] at hfill
    exact hfill
  rw [hread, hbuf, hsize]
  refine ⟨⟨rfl, rfl, ?_, fun s hs => ?_, fun s hs => ?_⟩, rfl⟩
  · rw [flatten_after, hstream, drop_left]
  · obtain rfl := mem_singleton.mp hs
    exact le_rfl
  · have hinside := hplaced.inside s hs
    rw [hjoined, Nat.zero_add] at hinside
    exact hinside.trans (Nat.le_succ _)

/-- **When a record is read well.** -/
lemma reads_iff : Reads f stream (readPacket true header chunks) ↔
    f.body.length < 2 ^ 16 ∧ Whole headerSize chunks := by
  constructor
  · intro h
    have hwhole := (headerStores_inside_iff hflow hstream).mp h.headerInside
    refine ⟨?_, hwhole⟩
    obtain ⟨bufStores, hread, -, -⟩ := readPacket_whole hflow hstream hid hheader hwhole rfl
    have hbuf := h.buf
    rw [hread] at hbuf
    -- the buffer has the length in sixteen bits and one byte more
    have hlength := congrArg List.length (Except.ok.inj hbuf)
    rw [length_foldl_store, length_replicate, length_append, length_singleton,
      Nat.add_right_cancel_iff] at hlength
    exact Nat.mod_eq_iff_lt (by decide) |>.mp hlength
  · rintro ⟨hlen, hwhole⟩
    exact (reads_of_whole hflow hstream hid hheader hwhole hlen).1

end Step

/-- **Records are read independently of the cut, except inside headers.**  On any stream of records
with request number 1, cut in any way, successive calls of `read_packet` return the headers and the
bodies, take exactly the bytes of each record and store only inside the header and the buffer, if
and only if no header is cut and no content and padding have more than 65535 bytes together. -/
theorem readsAll_iff {frames : List Frame} (hid : ∀ f ∈ frames, f.requestId = 1)
    {chunks : List Bytes} (hflow : Flowing chunks)
    (hstream : chunks.flatten = frames.flatMap Frame.bytes) {header : Bytes}
    (hheader : header.length = headerSize) :
    ReadsAll header chunks frames ↔
      (∀ f ∈ frames, f.content.length + f.padding.length ≤ 65535) ∧ HeadersWhole chunks frames := by
  induction frames generalizing chunks header with
  | nil => simp [ReadsAll, HeadersWhole]
  | cons f fs ih =>
    rw [flatMap_cons] at hstream
    have hidf := hid f mem_cons_self
    have hids : ∀ g ∈ fs, g.requestId = 1 := fun g hg => hid g (mem_cons_of_mem _ hg)
    have hlen : f.body.length < 2 ^ 16 ↔ f.content.length + f.padding.length ≤ 65535 := by
      rw [Frame.body, length_append]
      omega
    have hafter : (after f.bytes.length chunks).flatten = fs.flatMap Frame.bytes := by
      rw [flatten_after, hstream, drop_left]
    rw [ReadsAll, forall_mem_cons, reads_iff hflow hstream hidf hheader, hlen]
    constructor
    · rintro ⟨⟨hshort, hwhole⟩, hrest⟩
      obtain ⟨hreads, heq⟩ :=
        reads_of_whole hflow hstream hidf hheader hwhole (hlen.mpr hshort)
      rw [hreads.header, heq, ih hids (hflow.after _) hafter f.length_header] at hrest
      exact ⟨⟨hshort, hrest.1⟩, hwhole, hrest.2⟩
    · rintro ⟨⟨hshort, hshorts⟩, hwhole, hwholes⟩
      obtain ⟨hreads, heq⟩ :=
        reads_of_whole hflow hstream hidf hheader hwhole (hlen.mpr hshort)
      refine ⟨⟨hshort, hwhole⟩, ?_⟩
      rw [hreads.header, heq, ih hids (hflow.after _) hafter f.length_header]
      exact ⟨hshorts, hwholes⟩

/-- `ok`, with three bytes of padding. -/
def sampleFrame : Frame :=
  { Frame.ofContent 6 [111, 107] (by decide) with padding := [0, 0, 0], padding_lt := by decide }

theorem readsAll_iff_sample :
    ReadsAll (List.replicate 8 0)
      [sampleFrame.header ++ [111], [107, 0], [0, 0] ++ sampleFrame.bytes] [sampleFrame, sampleFrame] :=
  (readsAll_iff (by decide) (by unfold Flowing; decide) (by decide +kernel) (by decide)).mpr
    ⟨by decide, by decide, by decide, trivial⟩

/-- The length of the body is a multiple of what `len` can hold. -/
lemma readPacket_wrapped {f : Frame} (hid : f.requestId = 1) (hbody : f.body.length % 2 ^ 16 = 0) :
    (readPacket true (List.replicate 8 0) [f.bytes]).buf = .ok [0] ∧
      (readPacket true (List.replicate 8 0) [f.bytes]).rest.flatten = f.body := by
  have hflow : Flowing [f.bytes] := .singleton (cons_ne_nil _ _)
  have hstream : [f.bytes].flatten = f.bytes ++ [] := by rw [flatten_cons, flatten_nil]
  have hwhole : Whole headerSize [f.bytes] := by
    rw [Whole, headD_cons, f.length_bytes]
    exact Nat.le_add_right _ _
  have hheader : (List.replicate 8 (0 : UInt8)).length = headerSize := length_replicate
  obtain ⟨bufStores, hread, hplaced, hjoined⟩ :=
    readPacket_whole hflow hstream hid hheader hwhole hbody
  rw [hread, hplaced.eq_nil hjoined]
  refine ⟨rfl, ?_⟩
  rw [flatten_after, hstream, append_nil]
  exact drop_left' f.length_header

def longFrame : Frame :=
  { Frame.ofContent 6 (List.replicate 65535 0) (by rw [length_replicate]; decide) with
    padding := [0]
    padding_lt := by decide }

lemma length_longFrame : longFrame.body.length = 2 ^ 16 := by
  have hcontent : longFrame.content = List.replicate 65535 0 := rfl
  rw [Frame.body, length_append, hcontent, length_replicate]
  rfl

/-- **A cut header and a long record.**  The first byte of a record comes alone: the other seven are
stored eight bytes behind the start of the header, which is its end.  And of a body of 65536 bytes, in
one piece with its header, none is read. -/
theorem records_misread :
    (readPacket true (List.replicate 8 0) [[1], sampleFrame.bytes.tail]).headerStores
        = [(0, [1]), (8, sampleFrame.header.tail)] ∧
      ¬Inside headerSize (8, sampleFrame.header.tail) ∧
      longFrame.body.length = 65536 ∧
      (readPacket true (List.replicate 8 0) [longFrame.bytes]).buf = .ok [0] ∧
      (readPacket true (List.replicate 8 0) [longFrame.bytes]).rest.flatten = longFrame.body := by
  have hlong := readPacket_wrapped (f := longFrame) rfl (by rw [length_longFrame]; rfl)
  exact ⟨by decide +kernel, by decide +kernel, length_longFrame, hlong.1, hlong.2⟩

end FreeSense.Fcgicli
