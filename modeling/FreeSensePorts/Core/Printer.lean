import Mathlib.Data.List.Perm.Basic
import FreeSensePorts.Core.Text

/-!
# Printing a packet

A function that prints what it finds in a buffer, as a value with two logs: the text it writes and the
offsets it reads, both in order.  The buffer is a function of the offset, so that a read beyond the
end of the packet has a value too, and shows in the log.
-/

namespace FreeSense

/-- Bytes by their offset. -/
abbrev Memory := ℕ → UInt8

structure Printer (α : Type) where
  value : α
  text : Text
  reads : List ℕ

namespace Printer

variable {α β : Type}

instance : Monad Printer where
  pure a := ⟨a, [], []⟩
  bind x f :=
    let y := f x.value
    ⟨y.value, x.text ++ y.text, x.reads ++ y.reads⟩

@[simp] lemma value_pure (a : α) : (pure a : Printer α).value = a := rfl

@[simp] lemma text_pure (a : α) : (pure a : Printer α).text = [] := rfl

@[simp] lemma reads_pure (a : α) : (pure a : Printer α).reads = [] := rfl

@[simp] lemma value_bind (x : Printer α) (f : α → Printer β) : (x >>= f).value = (f x.value).value := rfl

@[simp] lemma text_bind (x : Printer α) (f : α → Printer β) :
    (x >>= f).text = x.text ++ (f x.value).text := rfl

@[simp] lemma reads_bind (x : Printer α) (f : α → Printer β) :
    (x >>= f).reads = x.reads ++ (f x.value).reads := rfl

/-- `sbuf_printf`. -/
def emit (t : Text) : Printer Unit := ⟨(), t, []⟩

@[simp] lemma value_emit (t : Text) : (emit t).value = () := rfl

@[simp] lemma text_emit (t : Text) : (emit t).text = t := rfl

@[simp] lemma reads_emit (t : Text) : (emit t).reads = [] := rfl

/-- `*p`. -/
def byte (mem : Memory) (i : ℕ) : Printer ℕ := ⟨(mem i).toNat, [], [i]⟩

@[simp] lemma value_byte (mem : Memory) (i : ℕ) : (byte mem i).value = (mem i).toNat := rfl

@[simp] lemma text_byte (mem : Memory) (i : ℕ) : (byte mem i).text = [] := rfl

@[simp] lemma reads_byte (mem : Memory) (i : ℕ) : (byte mem i).reads = [i] := rfl

/-- Two bytes, in the order of the network. -/
def extract16Bits (mem : Memory) (i : ℕ) : Printer ℕ := do
  let high ← byte mem i
  let low ← byte mem (i + 1)
  return high * 256 + low

def extract32Bits (mem : Memory) (i : ℕ) : Printer ℕ := do
  let high ← extract16Bits mem i
  let low ← extract16Bits mem (i + 2)
  return high * 65536 + low

/-- `n` bytes on end. -/
def block (mem : Memory) (i n : ℕ) : Printer (List UInt8) :=
  ⟨(List.range n).map fun k => mem (i + k), [], (List.range n).map fun k => i + k⟩

/-! ## Values and texts of the reads -/

def word16 (mem : Memory) (i : ℕ) : ℕ := (mem i).toNat * 256 + (mem (i + 1)).toNat

def word32 (mem : Memory) (i : ℕ) : ℕ := word16 mem i * 65536 + word16 mem (i + 2)

@[simp] lemma value_extract16Bits (mem : Memory) (i : ℕ) :
    (extract16Bits mem i).value = word16 mem i := rfl

@[simp] lemma text_extract16Bits (mem : Memory) (i : ℕ) : (extract16Bits mem i).text = [] := rfl

@[simp] lemma value_extract32Bits (mem : Memory) (i : ℕ) :
    (extract32Bits mem i).value = word32 mem i := rfl

@[simp] lemma text_extract32Bits (mem : Memory) (i : ℕ) : (extract32Bits mem i).text = [] := rfl

@[simp] lemma text_block (mem : Memory) (i n : ℕ) : (block mem i n).text = [] := rfl

/-! A read prints nothing.  These are for rewriting and not for `simp`: `[] ++ t = t` holds by `rfl`, and
the kernel evaluates `t` when `simp` leaves that step to it. -/

lemma text_bind_of_text_eq_nil {x : Printer α} (h : x.text = []) (f : α → Printer β) :
    (x >>= f).text = (f x.value).text := by
  rw [text_bind, h, List.nil_append]

lemma text_byte_bind (mem : Memory) (i : ℕ) (f : ℕ → Printer β) :
    (byte mem i >>= f).text = (f (mem i).toNat).text :=
  text_bind_of_text_eq_nil rfl f

lemma text_extract16Bits_bind (mem : Memory) (i : ℕ) (f : ℕ → Printer β) :
    (extract16Bits mem i >>= f).text = (f (word16 mem i)).text :=
  text_bind_of_text_eq_nil rfl f

lemma text_extract32Bits_bind (mem : Memory) (i : ℕ) (f : ℕ → Printer β) :
    (extract32Bits mem i >>= f).text = (f (word32 mem i)).text :=
  text_bind_of_text_eq_nil rfl f

lemma word16_lt (mem : Memory) (i : ℕ) : word16 mem i < 2 ^ 16 := by
  have h₁ := (mem i).toNat_lt
  have h₂ := (mem (i + 1)).toNat_lt
  unfold word16
  omega

/-! ## Where a printer reads -/

/-- All reads lie from `lo` on and below `hi`. -/
def Within (lo hi : ℕ) (p : Printer α) : Prop := ∀ i ∈ p.reads, lo ≤ i ∧ i < hi

variable {lo hi : ℕ}

@[simp] lemma within_pure (a : α) : Within lo hi (pure a : Printer α) := by
  simp [Within]

@[simp] lemma within_emit (t : Text) : Within lo hi (emit t) := by
  simp [Within]

@[simp] lemma within_byte (mem : Memory) (i : ℕ) :
    Within lo hi (byte mem i) ↔ lo ≤ i ∧ i < hi := by
  simp [Within]

@[simp] lemma within_bind (x : Printer α) (f : α → Printer β) :
    Within lo hi (x >>= f) ↔ Within lo hi x ∧ Within lo hi (f x.value) := by
  simp only [Within, reads_bind, List.forall_mem_append]

@[simp] lemma within_extract16Bits (mem : Memory) (i : ℕ) :
    Within lo hi (extract16Bits mem i) ↔ lo ≤ i ∧ i + 1 < hi := by
  simp only [extract16Bits, within_bind, within_byte, within_pure, and_true]
  omega

@[simp] lemma within_extract32Bits (mem : Memory) (i : ℕ) :
    Within lo hi (extract32Bits mem i) ↔ lo ≤ i ∧ i + 3 < hi := by
  simp only [extract32Bits, within_bind, within_extract16Bits, within_pure, and_true]
  omega

@[simp] lemma within_block (mem : Memory) (i n : ℕ) :
    Within lo hi (block mem i (n + 1)) ↔ lo ≤ i ∧ i + n < hi := by
  simp only [Within, block, List.mem_map, List.mem_range]
  constructor
  · intro h
    have hfirst := h i ⟨0, by omega, rfl⟩
    have hlast := h (i + n) ⟨n, by omega, rfl⟩
    exact ⟨hfirst.1, hlast.2⟩
  · omega

lemma Within.mono {lo' hi' : ℕ} {p : Printer α} (h : Within lo hi p) (hlo : lo' ≤ lo)
    (hhi : hi ≤ hi') : Within lo' hi' p := fun i hi =>
  ⟨hlo.trans (h i hi).1, (h i hi).2.trans_le hhi⟩

lemma within_zero {n : ℕ} {x : Printer α} : Within 0 n x ↔ ∀ i ∈ x.reads, i < n := by
  simp [Within]

section Own

variable {n : ℕ} {others : List ℕ} {P Q : Prop} {x : Printer α} {f : α → Printer β}

/-- The reads are those of `others` and some of its own, which are below `n` exactly if `P`. -/
def Own (n : ℕ) (others : List ℕ) (P : Prop) (x : Printer α) : Prop :=
  ∃ own, x.reads.Perm (own ++ others) ∧ ((∀ i ∈ own, i < n) ↔ P)

lemma own_of_within (h : Within 0 n x ↔ P) : Own n [] P x :=
  ⟨x.reads, by simp, by rwa [← within_zero]⟩

lemma own_reads (x : Printer α) : Own n x.reads True x := ⟨[], .refl _, by simp⟩

lemma Own.congr (h : Own n others P x) (hPQ : P ↔ Q) : Own n others Q x := by rwa [← hPQ]

lemma Own.bind (hx : Within 0 n x ↔ P) (hf : Own n others Q (f x.value)) :
    Own n others (P ∧ Q) (x >>= f) := by
  obtain ⟨own, hperm, hown⟩ := hf
  refine ⟨x.reads ++ own, ?_, ?_⟩
  · rw [List.append_assoc]
    exact hperm.append_left _
  · rw [List.forall_mem_append, hown, ← hx, within_zero]

lemma Own.bind_left (hx : Own n others P x) (hf : Within 0 n (f x.value) ↔ Q) :
    Own n others (P ∧ Q) (x >>= f) := by
  obtain ⟨own, hperm, hown⟩ := hx
  refine ⟨own ++ (f x.value).reads, ?_, ?_⟩
  · rw [List.append_assoc]
    refine (hperm.append_right _).trans ?_
    rw [List.append_assoc]
    exact List.perm_append_comm.append_left _
  · rw [List.forall_mem_append, hown, ← hf, within_zero]

lemma Own.forall_mem_diff (h : Own n others P x) : (∀ i ∈ x.reads.diff others, i < n) ↔ P := by
  obtain ⟨own, hperm, hown⟩ := h
  have hdiff : ∀ l : List ℕ, (l ++ own).diff l = own := by
    intro l
    induction l with
    | nil => rfl
    | cons i l ih => simpa using ih
  have hmem := (hperm.trans List.perm_append_comm).diff_right others
  rw [hdiff] at hmem
  simpa [hmem.mem_iff] using hown

end Own

end Printer

/-! ## Unsigned arithmetic -/

/-- `a - b` of two `u_int`. -/
def sub32 (a b : ℕ) : ℕ := (a + 2 ^ 32 - b) % 2 ^ 32

lemma sub32_of_le {a b : ℕ} (ha : a < 2 ^ 32) (h : b ≤ a) : sub32 a b = a - b := by
  unfold sub32
  omega

/-- `%u`. -/
def unsigned (n : ℕ) : Text := (toString n).toList

/-- `%0*x`: at least `width` digits. -/
def hex (width n : ℕ) : Text :=
  let digits := Nat.toDigits 16 n
  List.replicate (width - digits.length) '0' ++ digits

/-- `%0*u`. -/
def padded (width n : ℕ) : Text := List.replicate (width - (unsigned n).length) '0' ++ unsigned n

/-- Hours, minutes and seconds, as `%02u:%02u:%02u`. -/
def clock (seconds : ℕ) : Text :=
  padded 2 (seconds / 60 / 60) ++ ":".toList ++ padded 2 (seconds / 60 % 60) ++ ":".toList ++
    padded 2 (seconds % 60)

/-- `%d` of a `u_int`. -/
def signed (n : ℕ) : Text := (toString (Int.bmod n (2 ^ 32))).toList

end FreeSense
