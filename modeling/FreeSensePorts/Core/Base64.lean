import FreeSensePorts.Core.Text
import Mathlib.Tactic.SplitIfs

/-!
# Base64 and UTF-8

Base64 as `base64.b64encode` writes it, three bytes in four signs with `=` at the end, and a decoder
that takes exactly such texts.  UTF-8 is that of the core library, on lists of bytes.
-/

namespace FreeSense

open List

namespace Base64

/-- The sign of a number below 64, and the filling `=` above. -/
def sign (n : ℕ) : Char :=
  if n < 26 then Char.ofNat (n + 65)
  else if n < 52 then Char.ofNat (n + 71)
  else if n < 62 then Char.ofNat (n - 4)
  else if n = 62 then '+'
  else if n = 63 then '/'
  else '='

lemma sign_of_le {n : ℕ} (hn : 64 ≤ n) : sign n = '=' := by
  simp [sign, show ¬n < 26 by omega, show ¬n < 52 by omega, show ¬n < 62 by omega,
    show n ≠ 62 by omega, show n ≠ 63 by omega]

/-- The number of a sign. -/
def value (c : Char) : Option ℕ :=
  if 'A' ≤ c ∧ c ≤ 'Z' then some (c.toNat - 65)
  else if 'a' ≤ c ∧ c ≤ 'z' then some (c.toNat - 71)
  else if '0' ≤ c ∧ c ≤ '9' then some (c.toNat + 4)
  else if c = '+' then some 62
  else if c = '/' then some 63
  else none

lemma value_sign {n : ℕ} (hn : n < 64) : value (sign n) = some n := by
  have hall : ∀ n < 64, value (sign n) = some n := by decide +kernel
  exact hall n hn

lemma sign_ne_pad {n : ℕ} (hn : n < 64) : sign n ≠ '=' := by
  have hall : ∀ n < 64, sign n ≠ '=' := by decide +kernel
  exact hall n hn

def encode : List UInt8 → Text
  | [] => []
  | [a] => [sign (a.toNat / 4), sign (a.toNat % 4 * 16), '=', '=']
  | [a, b] =>
    [sign (a.toNat / 4), sign (a.toNat % 4 * 16 + b.toNat / 16), sign (b.toNat % 16 * 4), '=']
  | a :: b :: c :: rest =>
    sign (a.toNat / 4) :: sign (a.toNat % 4 * 16 + b.toNat / 16) ::
      sign (b.toNat % 16 * 4 + c.toNat / 64) :: sign (c.toNat % 64) :: encode rest

/-- What holds of all signs holds of every text in base64. -/
lemma forall_mem_encode {P : Char → Prop} (h : ∀ n, P (sign n)) (bytes : List UInt8) :
    ∀ c ∈ encode bytes, P c := by
  have hpad : P '=' := h 64
  fun_induction encode bytes with
  | case1 => exact fun c hc => absurd hc not_mem_nil
  | case2 | case3 => simp [h, hpad]
  | case4 a b c rest ih => simpa [h] using ih

/-- Four signs.  Only the last four may be filled up. -/
def decodeGroup (w x y z : Char) (last : Bool) : Option (List UInt8) := do
  let i ← value w
  let j ← value x
  let first := UInt8.ofNat (i * 4 + j / 16)
  if last ∧ y = '=' ∧ z = '=' then return [first]
  let k ← value y
  let second := UInt8.ofNat (j % 16 * 16 + k / 4)
  if last ∧ z = '=' then return [first, second]
  let l ← value z
  return [first, second, UInt8.ofNat (k % 4 * 64 + l)]

def decode : Text → Option (List UInt8)
  | [] => some []
  | w :: x :: y :: z :: rest => do
    let bytes ← decodeGroup w x y z rest.isEmpty
    return bytes ++ (← decode rest)
  | _ => none

/-- `binascii.a2b_base64(s, strict_mode=True)`, which `base64.b64decode` calls to validate: behind whole
groups it passes over any more `=`. -/
def decodeStrict : Text → Option (List UInt8)
  | [] => some []
  | w :: x :: y :: z :: rest => do
    let bytes ← decodeGroup w x y z rest.isEmpty
    if rest.all (· = '=') then return bytes
    return bytes ++ (← decodeStrict rest)
  | _ => none

/-- Without surplus `=` the strict decoder is the decoder. -/
lemma decodeStrict_eq {s : Text} (hpad : s.count '=' ≤ 3) (hlen : 4 ∣ s.length) :
    decodeStrict s = decode s := by
  fun_induction decodeStrict s with
  | case1 => rfl
  | case2 w x y z rest ih =>
    have hcount : rest.count '=' ≤ (w :: x :: y :: z :: rest).count '=' :=
      ((((sublist_cons_self z rest).cons y).cons x).cons w).count_le _
    have hrest : 4 ∣ rest.length := by simpa using hlen
    rw [decode]
    split_ifs with hall
    · -- four or more would be too many
      have hfill : rest.count '=' = rest.length :=
        count_eq_length.mpr fun c hc => (of_decide_eq_true (all_eq_true.mp hall c hc)).symm
      obtain rfl : rest = [] := length_eq_zero_iff.mp (by omega)
      simp [decode]
    · rw [ih (hcount.trans hpad) hrest]
  | case3 s hnil hcons => rw [decode]; exact hnil; exact hcons

lemma dvd_length_of_decode {s : Text} {bytes : List UInt8} (h : decode s = some bytes) :
    4 ∣ s.length := by
  fun_induction decode s generalizing bytes with
  | case1 => exact ⟨0, rfl⟩
  | case2 w x y z rest ih =>
    obtain ⟨_, -, h⟩ := Option.bind_eq_some_iff.mp h
    obtain ⟨tail, htail, -⟩ := Option.bind_eq_some_iff.mp h
    simpa using ih htail
  | case3 => cases h

lemma blank_not_mem_of_decode {s : Text} {bytes : List UInt8} (h : decode s = some bytes) :
    ' ' ∉ s := by
  fun_induction decode s generalizing bytes with
  | case1 => exact not_mem_nil
  | case2 w x y z rest ih =>
    obtain ⟨group, hgroup, h⟩ := Option.bind_eq_some_iff.mp h
    obtain ⟨tail, htail, -⟩ := Option.bind_eq_some_iff.mp h
    have hvalue : value ' ' = none := by decide
    have hne : w ≠ ' ' ∧ x ≠ ' ' ∧ y ≠ ' ' ∧ z ≠ ' ' := by
      refine ⟨?_, ?_, ?_, ?_⟩ <;> rintro rfl <;> simp [decodeGroup, hvalue] at hgroup
    simp only [mem_cons, not_or]
    exact ⟨hne.1.symm, hne.2.1.symm, hne.2.2.1.symm, hne.2.2.2.symm, ih htail⟩
  | case3 => cases h

lemma ofNat_eq {n : ℕ} {a : UInt8} (h : n = a.toNat) : UInt8.ofNat n = a := by
  rw [h, UInt8.ofNat_toNat]

section Groups

variable (a b c : UInt8)

lemma decodeGroup_one :
    decodeGroup (sign (a.toNat / 4)) (sign (a.toNat % 4 * 16)) '=' '=' true = some [a] := by
  have ha := a.toNat_lt
  have hfirst : UInt8.ofNat (a.toNat / 4 * 4 + a.toNat % 4 * 16 / 16) = a := ofNat_eq (by omega)
  rw [decodeGroup, value_sign (by omega), value_sign (by omega)]
  exact congrArg (fun x => some [x]) hfirst

lemma decodeGroup_two :
    decodeGroup (sign (a.toNat / 4)) (sign (a.toNat % 4 * 16 + b.toNat / 16))
      (sign (b.toNat % 16 * 4)) '=' true = some [a, b] := by
  have ha := a.toNat_lt
  have hb := b.toNat_lt
  have hpad : sign (b.toNat % 16 * 4) ≠ '=' := sign_ne_pad (by omega)
  have hfirst : UInt8.ofNat (a.toNat / 4 * 4 + (a.toNat % 4 * 16 + b.toNat / 16) / 16) = a :=
    ofNat_eq (by omega)
  have hsecond : UInt8.ofNat ((a.toNat % 4 * 16 + b.toNat / 16) % 16 * 16 + b.toNat % 16 * 4 / 4) = b :=
    ofNat_eq (by omega)
  rw [decodeGroup, value_sign (by omega), value_sign (by omega), value_sign (by omega)]
  simp only [Option.bind_eq_bind, Option.bind_some, hpad, hfirst, hsecond]
  rfl

lemma decodeGroup_three (last : Bool) :
    decodeGroup (sign (a.toNat / 4)) (sign (a.toNat % 4 * 16 + b.toNat / 16))
      (sign (b.toNat % 16 * 4 + c.toNat / 64)) (sign (c.toNat % 64)) last = some [a, b, c] := by
  have ha := a.toNat_lt
  have hb := b.toNat_lt
  have hc := c.toNat_lt
  have hpad : sign (c.toNat % 64) ≠ '=' := sign_ne_pad (by omega)
  have hfirst : UInt8.ofNat (a.toNat / 4 * 4 + (a.toNat % 4 * 16 + b.toNat / 16) / 16) = a :=
    ofNat_eq (by omega)
  have hsecond : UInt8.ofNat ((a.toNat % 4 * 16 + b.toNat / 16) % 16 * 16
      + (b.toNat % 16 * 4 + c.toNat / 64) / 4) = b := ofNat_eq (by omega)
  have hthird : UInt8.ofNat ((b.toNat % 16 * 4 + c.toNat / 64) % 4 * 64 + c.toNat % 64) = c :=
    ofNat_eq (by omega)
  rw [decodeGroup, value_sign (by omega), value_sign (by omega), value_sign (by omega),
    value_sign (by omega)]
  simp only [Option.bind_eq_bind, Option.bind_some, hpad, and_false, if_false, hfirst, hsecond, hthird]
  rfl

end Groups

/-- **Nothing is lost.** -/
theorem decode_encode (bytes : List UInt8) : decode (encode bytes) = some bytes := by
  fun_induction encode bytes with
  | case1 => rfl
  | case2 a =>
    rw [decode, isEmpty_nil, decodeGroup_one]
    rfl
  | case3 a b =>
    rw [decode, isEmpty_nil, decodeGroup_two]
    rfl
  | case4 a b c rest ih =>
    rw [decode, decodeGroup_three, ih]
    rfl

end Base64

/-- `s.encode()`. -/
def utf8 (s : Text) : List UInt8 := s.flatMap String.utf8EncodeChar

/-- `b.decode()`. -/
def ofUtf8 (bytes : List UInt8) : Option Text := bytes.toByteArray.utf8Decode?.map Array.toList

@[simp] theorem ofUtf8_utf8 (s : Text) : ofUtf8 (utf8 s) = some s := by
  have h : (utf8 s).toByteArray = s.utf8Encode := rfl
  rw [ofUtf8, h, utf8Decode?_utf8Encode, Option.map_some]

end FreeSense
