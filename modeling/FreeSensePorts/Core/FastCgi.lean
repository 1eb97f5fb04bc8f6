import Mathlib.Data.List.Basic
import Mathlib.Tactic

/-!
# The records and name-value pairs of FastCGI

A connection is a sequence of records: a header of eight bytes with the lengths of the content and the
padding, and these two.  The content of some records is a sequence of name-value pairs: two lengths of
one or four bytes, and the two strings.  `decode` reads a whole input with a reader for one item, and
undoes any writer the reader undoes with arbitrary bytes behind (`decode_flatMap`).
-/

namespace FreeSense.FastCgi

open List

/-! ## Reading item by item -/

section Decode

variable {α β : Type*}

/-- Read at most `n` items, up to the end of the input. -/
def decodeN (take : List β → Option (α × List β)) : ℕ → List β → Option (List α)
  | _, [] => some []
  | 0, _ :: _ => none
  | n + 1, b :: bs =>
    (take (b :: bs)).bind fun item => (decodeN take n item.2).map (item.1 :: ·)

/-- Read items up to the end of the input.  An item takes a byte at least. -/
def decode (take : List β → Option (α × List β)) (bs : List β) : Option (List α) :=
  decodeN take bs.length bs

variable {take : List β → Option (α × List β)} {put : α → List β}

lemma decodeN_flatMap : ∀ {as : List α} {n : ℕ},
    (∀ a ∈ as, put a ≠ [] ∧ ∀ rest, take (put a ++ rest) = some (a, rest)) → as.length ≤ n →
    decodeN take n (as.flatMap put) = some as
  | [], n, _, _ => by cases n <;> rfl
  | a :: as, 0, _, hn => absurd hn (Nat.not_succ_le_zero _)
  | a :: as, n + 1, h, hn => by
    obtain ⟨hne, htake⟩ := h a mem_cons_self
    have ih : decodeN take n (as.flatMap put) = some as :=
      decodeN_flatMap (fun b hb => h b (mem_cons_of_mem _ hb)) (Nat.succ_le_succ_iff.mp hn)
    obtain ⟨b, bs, hput⟩ := exists_cons_of_ne_nil hne
    have hcons : (a :: as).flatMap put = b :: (bs ++ as.flatMap put) := by
      rw [flatMap_cons, hput, cons_append]
    have hfirst : take (b :: (bs ++ as.flatMap put)) = some (a, as.flatMap put) := by
      rw [← cons_append, ← hput]
      exact htake _
    rw [hcons, decodeN, hfirst, Option.bind_some, ih, Option.map_some]

/-- **Reading undoes writing**, if it does so for one item with anything behind it. -/
theorem decode_flatMap {as : List α}
    (h : ∀ a ∈ as, put a ≠ [] ∧ ∀ rest, take (put a ++ rest) = some (a, rest)) :
    decode take (as.flatMap put) = some as := by
  refine decodeN_flatMap h ?_
  have hone : ∀ n ∈ as.map fun a => (put a).length, 1 ≤ n := by
    intro n hn
    obtain ⟨a, ha, rfl⟩ := mem_map.mp hn
    exact length_pos_of_ne_nil (h a ha).1
  simpa using card_nsmul_le_sum _ 1 hone

end Decode

/-! ## Numbers -/

def be16 (b₁ b₀ : UInt8) : ℕ := b₁.toNat * 2 ^ 8 + b₀.toNat

def put16 (n : ℕ) : List UInt8 := [UInt8.ofNat (n / 2 ^ 8), UInt8.ofNat n]

lemma be16_put16 {n : ℕ} (h : n < 2 ^ 16) :
    be16 (UInt8.ofNat (n / 2 ^ 8)) (UInt8.ofNat n) = n := by
  simp only [be16, UInt8.toNat_ofNat']
  omega

/-! ## Name-value pairs -/

/-- One byte below 128, and otherwise four with the highest bit set. -/
def putLength (n : ℕ) : List UInt8 :=
  if n < 128 then [UInt8.ofNat n]
  else [UInt8.ofNat (n / 2 ^ 24 + 128), UInt8.ofNat (n / 2 ^ 16), UInt8.ofNat (n / 2 ^ 8),
    UInt8.ofNat n]

def takeLength : List UInt8 → Option (ℕ × List UInt8)
  | [] => none
  | b :: rest =>
    if b.toNat < 128 then some (b.toNat, rest)
    else match rest with
      | b₂ :: b₁ :: b₀ :: rest =>
        some ((b.toNat - 128) * 2 ^ 24 + b₂.toNat * 2 ^ 16 + be16 b₁ b₀, rest)
      | _ => none

lemma takeLength_putLength {n : ℕ} (h : n < 2 ^ 31) (rest : List UInt8) :
    takeLength (putLength n ++ rest) = some (n, rest) := by
  unfold putLength
  split_ifs with hn
  · have hbyte : (UInt8.ofNat n).toNat = n := by
      rw [UInt8.toNat_ofNat']
      omega
    simp only [cons_append, nil_append, takeLength, hbyte, if_pos hn]
  · have hbyte : (UInt8.ofNat (n / 2 ^ 24 + 128)).toNat = n / 2 ^ 24 + 128 := by
      rw [UInt8.toNat_ofNat']
      omega
    have hlarge : ¬n / 2 ^ 24 + 128 < 128 := by omega
    simp only [cons_append, nil_append, takeLength, hbyte, if_neg hlarge, be16,
      UInt8.toNat_ofNat']
    congr 2
    omega

lemma length_putLength (n : ℕ) : 1 ≤ (putLength n).length ∧ (putLength n).length ≤ 4 := by
  unfold putLength
  split_ifs <;> simp

abbrev Pair := List UInt8 × List UInt8

def putPair (p : Pair) : List UInt8 :=
  putLength p.1.length ++ putLength p.2.length ++ p.1 ++ p.2

def takePair (bs : List UInt8) : Option (Pair × List UInt8) := do
  let (n, bs) ← takeLength bs
  let (m, bs) ← takeLength bs
  if bs.length < n + m then none
  else some ((bs.take n, (bs.drop n).take m), bs.drop (n + m))

def decodePairs (bs : List UInt8) : Option (List Pair) := decode takePair bs

lemma takePair_putPair {p : Pair} (h₁ : p.1.length < 2 ^ 31) (h₂ : p.2.length < 2 ^ 31)
    (rest : List UInt8) : takePair (putPair p ++ rest) = some (p, rest) := by
  have hsplit : putPair p ++ rest
      = putLength p.1.length ++ (putLength p.2.length ++ (p.1 ++ (p.2 ++ rest))) := by
    simp [putPair]
  rw [takePair, hsplit, takeLength_putLength h₁]
  simp only [Option.bind_eq_bind, Option.bind_some]
  rw [takeLength_putLength h₂]
  simp [← Nat.add_assoc, drop_append]

lemma length_putPair (p : Pair) :
    (putPair p).length ≤ p.1.length + p.2.length + 8 ∧ putPair p ≠ [] := by
  have h₁ := length_putLength p.1.length
  have h₂ := length_putLength p.2.length
  have hlen : (putPair p).length
      = (putLength p.1.length).length + (putLength p.2.length).length + p.1.length + p.2.length := by
    simp [putPair, Nat.add_assoc]
  refine ⟨by omega, fun hnil => ?_⟩
  rw [hnil, length_nil] at hlen
  omega

/-- **Pairs are read as they were written.** -/
theorem decodePairs_flatMap {ps : List Pair}
    (h : ∀ p ∈ ps, p.1.length < 2 ^ 31 ∧ p.2.length < 2 ^ 31) :
    decodePairs (ps.flatMap putPair) = some ps :=
  decode_flatMap fun p hp => ⟨(length_putPair p).2, takePair_putPair (h p hp).1 (h p hp).2⟩

/-! ## Records -/

structure Record where
  version : UInt8
  type : UInt8
  requestId : ℕ
  content : List UInt8
  deriving DecidableEq, Repr

def putRecord (r : Record) : List UInt8 :=
  [r.version, r.type] ++ put16 r.requestId ++ put16 r.content.length ++ [0, 0] ++ r.content

def takeRecord : List UInt8 → Option (Record × List UInt8)
  | version :: type :: i₁ :: i₀ :: l₁ :: l₀ :: padding :: _ :: rest =>
    let n := be16 l₁ l₀
    if rest.length < n + padding.toNat then none
    else some (⟨version, type, be16 i₁ i₀, rest.take n⟩, rest.drop (n + padding.toNat))
  | _ => none

def decodeRecords (bs : List UInt8) : Option (List Record) := decode takeRecord bs

lemma takeRecord_putRecord {r : Record} (hid : r.requestId < 2 ^ 16)
    (hlen : r.content.length < 2 ^ 16) (rest : List UInt8) :
    takeRecord (putRecord r ++ rest) = some (r, rest) := by
  simp only [putRecord, put16, cons_append, nil_append, takeRecord, be16_put16 hid,
    be16_put16 hlen]
  simp

/-- **Records are read as they were written.** -/
theorem decodeRecords_flatMap {rs : List Record}
    (h : ∀ r ∈ rs, r.requestId < 2 ^ 16 ∧ r.content.length < 2 ^ 16) :
    decodeRecords (rs.flatMap putRecord) = some rs := by
  refine decode_flatMap fun r hr => ⟨?_, takeRecord_putRecord (h r hr).1 (h r hr).2⟩
  simp [putRecord]

/-! ## Records with padding -/

/-- A record as it stands in a stream, with its padding and the byte that is reserved. -/
structure Frame where
  version : UInt8
  type : UInt8
  requestId : ℕ
  content : List UInt8
  padding : List UInt8
  reserved : UInt8
  requestId_lt : requestId < 2 ^ 16
  content_lt : content.length < 2 ^ 16
  padding_lt : padding.length < 2 ^ 8
  deriving DecidableEq, Repr

namespace Frame

/-- A record of request 1, without padding. -/
def ofContent (type : UInt8) (content : List UInt8) (h : content.length < 2 ^ 16) : Frame :=
  ⟨1, type, 1, content, [], 0, by decide, h, by decide⟩

/-- The record at the end of an answer that is complete. -/
def requestComplete : Frame := ofContent 3 (List.replicate 8 0) (by decide)

def header (f : Frame) : List UInt8 :=
  [f.version, f.type] ++ put16 f.requestId ++ put16 f.content.length ++
    [UInt8.ofNat f.padding.length, f.reserved]

def body (f : Frame) : List UInt8 := f.content ++ f.padding

def bytes (f : Frame) : List UInt8 := f.header ++ f.body

def bodyLength (header : List UInt8) : ℕ :=
  be16 (header.getD 4 0) (header.getD 5 0) + (header.getD 6 0).toNat

@[simp] lemma length_header (f : Frame) : f.header.length = 8 := rfl

lemma length_bytes (f : Frame) : f.bytes.length = 8 + f.body.length := by
  rw [bytes, length_append, length_header]

lemma bodyLength_header (f : Frame) : bodyLength f.header = f.body.length := by
  have hpadding : (UInt8.ofNat f.padding.length).toNat = f.padding.length := by
    rw [UInt8.toNat_ofNat', Nat.mod_eq_of_lt f.padding_lt]
  show be16 (UInt8.ofNat (f.content.length / 2 ^ 8)) (UInt8.ofNat f.content.length)
    + (UInt8.ofNat f.padding.length).toNat = _
  rw [be16_put16 f.content_lt, hpadding, body, length_append]

lemma requestId_header (f : Frame) : be16 (f.header.getD 2 0) (f.header.getD 3 0) = f.requestId :=
  be16_put16 f.requestId_lt

end Frame

end FreeSense.FastCgi
