import FreeSensePorts.Filterdns.Threads
import Mathlib.Data.List.GetD

/-!
# What the kernel is handed

The entry `filterdns` builds for an address: its bits up to a prefix length that comes from the netmask
of the host.  `set_ipmask` builds its mask word by word (`getMsbD_setIpmask`), for IPv6 only: an IPv4
address is copied as it is, so that an entry is a canonical network only if the address was one.

The netmask is read by `strtol` into an `int`, with the one check `mask > 128`.  The length is the low
byte of the result, and for a length over 128 `set_ipmask` writes behind its four words.
-/

namespace FreeSense.Filterdns

open List

/-! ## `set_ipmask` -/

lemma length_ipmaskWords : ∀ n b : ℕ, (ipmaskWords n b).length = n
  | 0, _ => rfl
  | n + 1, b => by
    rw [ipmaskWords]
    split_ifs
    · rw [length_cons, length_ipmaskWords n]
    · simp

variable {b j i k : ℕ} {r : Rule}

/-- The word the second loop of `set_ipmask` fills, one bit a turn from the top. -/
lemma getLsbD_topBits (hj : j < 32) : b ≤ 32 →
    ((List.range b).foldl (fun m k => m ||| 1#32 <<< (31 - k)) 0#32).getLsbD j
      = decide (31 - j < b) := by
  induction b with
  | zero => simp
  | succ b ih =>
    intro hb
    have hbit : (1#32 <<< (31 - b)).getLsbD j = decide (31 - j = b) := by
      rw [BitVec.getLsbD_shiftLeft, BitVec.getLsbD_one, Bool.eq_iff_iff]
      simp only [Bool.and_eq_true, Bool.not_eq_true', decide_eq_true_eq, decide_eq_false_iff_not]
      omega
    rw [range_succ, foldl_append, foldl_cons, foldl_nil, BitVec.getLsbD_or,
      ih (by omega), hbit, ← Bool.decide_or, decide_eq_decide]
    omega

/-- Bit `j` of word `k` is number `32 k + (31 - j)` in network order. -/
lemma getLsbD_ipmaskWords (hj : j < 32) : ∀ {n b k : ℕ}, k < n →
    ((ipmaskWords n b).getD k 0#32).getLsbD j = decide (32 * k + (31 - j) < b)
  | 0, _, _, hk => absurd hk (Nat.not_lt_zero _)
  | n + 1, b, k, hk => by
    rw [ipmaskWords]
    split_ifs with hb
    · cases k with
      | zero =>
        rw [getD_cons_zero, BitVec.getLsbD_allOnes, decide_eq_decide]
        omega
      | succ k =>
        rw [getD_cons_succ, getLsbD_ipmaskWords hj (Nat.lt_of_succ_lt_succ hk),
          decide_eq_decide]
        omega
    · cases k with
      | zero =>
        rw [getD_cons_zero, getLsbD_topBits hj (by omega), decide_eq_decide]
        omega
      | succ k =>
        have hzero : (List.replicate n 0#32).getD k 0#32 = 0#32 := by
          rw [getD_eq_getElem _ _ (by simpa using Nat.lt_of_succ_lt_succ hk),
            getElem_replicate]
        rw [getD_cons_succ, hzero, BitVec.getLsbD_zero, eq_comm, decide_eq_false_iff_not]
        omega

def joinWords (ws : List (BitVec 32)) : BitVec 128 :=
  ws.foldl (fun acc w => acc <<< 32 ||| w.setWidth 128) 0#128

lemma getLsbD_pushWord (acc : BitVec 128) (w : BitVec 32) (hi : i < 128) :
    (acc <<< 32 ||| w.setWidth 128).getLsbD i
      = if i < 32 then w.getLsbD i else acc.getLsbD (i - 32) := by
  rw [BitVec.getLsbD_or, BitVec.getLsbD_shiftLeft]
  split_ifs with h
  · simp [h, hi]
  · simp [h, hi, BitVec.getLsbD_of_ge w i (by omega)]

lemma getLsbD_joinWords {ws : List (BitVec 32)} (hws : ws.length = 4) (hk : k < 4) (hj : j < 32) :
    (joinWords ws).getLsbD (32 * k + j) = (ws.getD (3 - k) 0#32).getLsbD j := by
  obtain ⟨a, b, c, d, rfl⟩ : ∃ a b c d, ws = [a, b, c, d] := length_eq_four.mp hws
  simp only [joinWords, foldl_cons, foldl_nil]
  have hlow : ∀ (acc : BitVec 128) (w : BitVec 32),
      (acc <<< 32 ||| w.setWidth 128).getLsbD (32 * 0 + j) = w.getLsbD j := by
    intro acc w
    rw [Nat.zero_add, getLsbD_pushWord acc w (by omega), if_pos hj]
  have hhigh : ∀ (acc : BitVec 128) (w : BitVec 32) (m : ℕ), m < 3 →
      (acc <<< 32 ||| w.setWidth 128).getLsbD (32 * (m + 1) + j) = acc.getLsbD (32 * m + j) := by
    intro acc w m hm
    rw [getLsbD_pushWord acc w (by omega), if_neg (by omega)]
    congr 1
    omega
  obtain rfl | rfl | rfl | rfl : k = 0 ∨ k = 0 + 1 ∨ k = 0 + 1 + 1 ∨ k = 0 + 1 + 1 + 1 := by omega
  · exact hlow _ d
  · rw [hhigh _ _ 0 (by omega)]
    exact hlow _ c
  · rw [hhigh _ _ (0 + 1) (by omega), hhigh _ _ 0 (by omega)]
    exact hlow _ b
  · rw [hhigh _ _ (0 + 1 + 1) (by omega), hhigh _ _ (0 + 1) (by omega), hhigh _ _ 0 (by omega)]
    exact hlow _ a

lemma getLsbD_words (h : BitVec 128) (hk : k < 4) (hj : j < 32) :
    ((words h).getD (3 - k) 0#32).getLsbD j = h.getLsbD (32 * k + j) := by
  obtain rfl | rfl | rfl | rfl : k = 0 ∨ k = 1 ∨ k = 2 ∨ k = 3 := by omega
  all_goals simp [words, hj]

/-- **`set_ipmask` keeps the first `b` bits of an address**, in network order, and clears the
others. -/
theorem getMsbD_setIpmask (h : BitVec 128) (b : ℕ) (hi : i < 128) :
    (setIpmask h b).getMsbD i = (decide (i < b) && h.getMsbD i) := by
  obtain ⟨k, j, hk, hj, hkj⟩ : ∃ k j, k < 4 ∧ j < 32 ∧ 127 - i = 32 * k + j :=
    ⟨(127 - i) / 32, (127 - i) % 32, by omega, by omega, by omega⟩
  have hlen := length_ipmaskWords 4 b
  have hzip : (List.zipWith (· &&& ·) (words h) (ipmaskWords 4 b)).getD (3 - k) 0#32
      = (words h).getD (3 - k) 0#32 &&& (ipmaskWords 4 b).getD (3 - k) 0#32 := by
    have hw : (words h).length = 4 := rfl
    rw [getD_eq_getElem _ _ (by rw [length_zipWith]; omega), getElem_zipWith,
      getD_eq_getElem _ _ (by omega), getD_eq_getElem _ _ (by omega)]
  have hbit : (setIpmask h b).getLsbD (127 - i) = (decide (i < b) && h.getLsbD (127 - i)) := by
    have hset : setIpmask h b
        = joinWords (List.zipWith (· &&& ·) (words h) (ipmaskWords 4 b)) := rfl
    rw [hset, hkj, getLsbD_joinWords (by simp [hlen, words]) hk hj, hzip, BitVec.getLsbD_and,
      getLsbD_words h hk hj, getLsbD_ipmaskWords hj (by omega), Bool.and_comm]
    congr 1
    rw [decide_eq_decide]
    omega
  simpa [BitVec.getMsbD, hi] using hbit

/-! ## Networks -/

/-- `a` is the network of the first `len` bits of `x`. -/
def Network {w : ℕ} (a x : BitVec w) (len : ℕ) : Prop :=
  (∀ i < w, len ≤ i → a.getMsbD i = false) ∧ ∀ i < w, i < len → a.getMsbD i = x.getMsbD i

instance {w : ℕ} (a x : BitVec w) (len : ℕ) : Decidable (Network a x len) :=
  inferInstanceAs (Decidable (_ ∧ _))

/-- **A canonical entry**: the network of the address, of the length that goes with it. -/
def Net.Canonical : Net → Sockaddr → Prop
  | .in4 a len, .in4 x _ => Network a x len.toNat
  | .in6 a len, .in6 x _ => Network a x len.toNat
  | _, _ => False

instance : ∀ (net : Net) (addr : Sockaddr), Decidable (net.Canonical addr)
  | .in4 _ _, .in4 _ _ => inferInstanceAs (Decidable (Network _ _ _))
  | .in6 _ _, .in6 _ _ => inferInstanceAs (Decidable (Network _ _ _))
  | .in4 _ _, .in6 _ _ => inferInstanceAs (Decidable False)
  | .in4 _ _, .other _ _ => inferInstanceAs (Decidable False)
  | .in6 _ _, .in4 _ _ => inferInstanceAs (Decidable False)
  | .in6 _ _, .other _ _ => inferInstanceAs (Decidable False)

def Net.len : Net → UInt8
  | .in4 _ len => len
  | .in6 _ len => len

def Sockaddr.width : Sockaddr → ℕ
  | .in4 _ _ => 32
  | .in6 _ _ => 128
  | .other _ _ => 0

def Host.prefixOf (h : Host) : Sockaddr → ℤ
  | .in4 _ _ => if h.mask = -1 then 32 else h.mask
  | .in6 _ _ => if h.mask6 = -1 then 128 else h.mask6
  | .other _ _ => 0

lemma toNat_prefixLen {m : ℤ} {whole : UInt8} {n : ℕ} (hn : n < 2 ^ 8)
    (h : (if m = -1 then (whole.toNat : ℤ) else m) = n) : (prefixLen (some m) whole).toNat = n := by
  simp only [prefixLen]
  split_ifs at h ⊢ with hm
  · exact_mod_cast h
  · rw [UInt8.toNat_ofNat']
    omega

/-! ## An entry as a table and a network -/

/-- The table of a rule, if it has one and its names fit the kernel's structures. -/
def Rule.table (r : Rule) : Option Table :=
  r.tablename.bind fun name =>
    match r.type with
    | .IPFW => some (.ipfw (name.take (ipfwNameSize - 1)))
    | .PF =>
      if name.length ≥ pfTableNameSize ∨ (r.anchor.getD []).length ≥ pfAnchorSize then none
      else some (.pf (r.anchor.getD []) name)
    | .CMD => none

/-- The network of an address: `pf` masks IPv6, and nothing else is masked. -/
def netOf (type : ActType) (host : Option Host) : Sockaddr → Option Net
  | .in4 a _ => some (.in4 a (prefixLen (host.map Host.mask) 32))
  | .in6 a _ =>
    let len := prefixLen (host.map Host.mask6) 128
    some (.in6 (if type = .PF then setIpmask a len.toNat else a) len)
  | .other _ _ => none

lemma pfTableentry_eq (hr : r.type = .PF) (host : Option Host) (addr : Sockaddr) :
    pfTableentry r host addr
      = r.table.bind fun table => (netOf r.type host addr).map fun net => (table, net) := by
  unfold pfTableentry Rule.table
  cases r.tablename with
  | none => rfl
  | some name =>
    simp only [hr, Option.bind_eq_bind, Option.bind_some]
    by_cases hname : name.length ≥ pfTableNameSize
    · simp [hname]
    · by_cases hanchor : (r.anchor.getD []).length ≥ pfAnchorSize
      · simp [hname, hanchor]
      · simp only [hname, hanchor, if_false, or_self, Option.bind_some]
        cases addr <;> rfl

lemma ipfwTableentry_eq (hr : r.type = .IPFW) (host : Option Host) (addr : Sockaddr) :
    ipfwTableentry r host addr
      = r.table.bind fun table => (netOf r.type host addr).map fun net => (table, net) := by
  unfold ipfwTableentry Rule.table
  cases r.tablename with
  | none => rfl
  | some name =>
    simp only [hr, Option.bind_eq_bind, Option.bind_some]
    cases addr <;> rfl

/-- **The table comes from the rule alone, the network from the host and the address.** -/
theorem tableEntry_eq (r : Rule) (host : Option Host) (addr : Sockaddr) :
    tableEntry r host addr
      = r.table.bind fun table => (netOf r.type host addr).map fun net => (table, net) := by
  unfold tableEntry
  cases hr : r.type with
  | IPFW => rw [ipfwTableentry_eq hr, hr]
  | PF => rw [pfTableentry_eq hr, hr]
  | CMD => cases hname : r.tablename <;> simp [Rule.table, hr, hname]

/-! ## Canonical entries -/

/-- **Which entries `pf` gets are canonical.**  The length is the one the host asks for, in both
families.  The bits beyond it are always cleared for IPv6, and for IPv4 never: the entry is canonical
exactly if the address has none. -/
theorem pfTableentry_canonical_iff {r : Rule} {h : Host} {addr : Sockaddr} {table : Table} {net : Net}
    (hrange : 0 ≤ h.prefixOf addr ∧ h.prefixOf addr ≤ addr.width)
    (hp : pfTableentry r (some h) addr = some (table, net)) :
    (net.len.toNat : ℤ) = h.prefixOf addr ∧
      (net.Canonical addr ↔ ∀ x rest, addr = .in4 x rest →
        ∀ i : ℕ, i < 32 → h.prefixOf addr ≤ i → x.getMsbD i = false) := by
  obtain ⟨n, hn⟩ := Int.eq_ofNat_of_zero_le hrange.1
  -- the type of the rule is not looked at
  replace hp : pfTableentry { r with type := .PF } (some h) addr = some (table, net) := hp
  rw [pfTableentry_eq rfl] at hp
  obtain ⟨_, -, hp⟩ := Option.bind_eq_some_iff.mp hp
  obtain ⟨net', hnet, heq⟩ := Option.map_eq_some_iff.mp hp
  obtain rfl : net' = net := congrArg Prod.snd heq
  cases addr with
  | in4 a rest =>
    have hlen : (prefixLen (some h.mask) 32).toNat = n :=
      toNat_prefixLen (by simp only [Sockaddr.width] at hrange; omega) hn
    obtain rfl := Option.some.inj hnet
    simp only [Option.map_some, Net.len, Net.Canonical, hlen, hn, Sockaddr.in4.injEq]
    refine ⟨trivial, fun hc x _ hx i hi hle => ?_, fun hzero => ⟨fun i hi hle => ?_, fun _ _ _ => rfl⟩⟩
    · obtain ⟨rfl, -⟩ := hx
      exact hc.1 i hi (by omega)
    · exact hzero a rest ⟨rfl, rfl⟩ i hi (by omega)
  | in6 a rest =>
    have hlen : (prefixLen (some h.mask6) 128).toNat = n :=
      toNat_prefixLen (by simp only [Sockaddr.width] at hrange; omega) hn
    obtain rfl := Option.some.inj hnet
    simp only [Option.map_some, Net.len, Net.Canonical, hlen, hn, if_true]
    refine ⟨trivial, iff_of_true ⟨fun i hi hle => ?_, fun i hi hlt => ?_⟩ (fun _ _ hx => by cases hx)⟩
    · rw [getMsbD_setIpmask a n hi, decide_eq_false (by omega), Bool.false_and]
    · rw [getMsbD_setIpmask a n hi, decide_eq_true hlt, Bool.true_and]
  | other family data => cases hnet

def maskedHost (mask : ℤ) : Host := ⟨1, "a.example.org".toList, mask, mask, [], 1, .STOPPED, [0], 0⟩

def addr6 : Sockaddr := .in6 0x20010db8000000000000000000000001#128 []

/-- **An IPv4 network with host bits**: `10.0.0.1/24` goes to the kernel as it is. -/
theorem pf_in4_not_canonical :
    pfTableentry (pfLine "a.example.org").rule (some (maskedHost 24)) (.in4 0x0a000001#32 [])
      = some (.pf [] "blocked".toList, .in4 0x0a000001#32 24) ∧
    ¬(Net.in4 0x0a000001#32 24).Canonical (.in4 0x0a000001#32 []) := by
  decide +kernel

theorem pfTableentry_canonical_iff_in6 :
    ∃ net, pfTableentry (pfLine "a.example.org").rule (some (maskedHost 32)) addr6
        = some (.pf [] "blocked".toList, net) ∧ net.len = 32 ∧ net.Canonical addr6 := by
  have hp : pfTableentry (pfLine "a.example.org").rule (some (maskedHost 32)) addr6
      = some (.pf [] "blocked".toList, .in6 0x20010db8000000000000000000000000#128 32) := by
    decide +kernel
  exact ⟨_, hp, rfl, (pfTableentry_canonical_iff (by decide) hp).2.mpr nofun⟩

/-! ## Netmasks -/

/-- The masks of the host are what the name says: none, or the number behind its last `/`. -/
def Host.MasksAsWritten (name : Text) (h : Host) : Prop :=
  '/' ∉ name ∧ h.mask = -1 ∧ h.mask6 = -1 ∨
    '/' ∈ name ∧ ∃ n, Text.written (afterSlash name) = some n ∧ 0 ≤ n ∧ n ≤ 128 ∧
      h.mask = n ∧ h.mask6 = n

/-- The words of its mask that `set_ipmask` assigns: one a turn in the first loop, and in the second
the next one, once for each bit. -/
def ipmaskIndices (b : ℕ) : List ℕ := List.range (b / 32) ++ List.replicate (b % 32) (b / 32)

lemma ipmaskIndices_lt (hb : b ≤ 128) : ∀ i ∈ ipmaskIndices b, i < 4 := by
  intro i hi
  rw [ipmaskIndices, mem_append, mem_range, mem_replicate] at hi
  omega

lemma Host.MasksAsWritten.mask6 {name : Text} {h : Host} (hw : h.MasksAsWritten name) :
    h.mask6 = -1 ∨ 0 ≤ h.mask6 ∧ h.mask6 ≤ 128 := by
  rcases hw with ⟨-, -, h6⟩ | ⟨-, n, -, h0, h128, -, h6⟩
  · exact Or.inl h6
  · exact Or.inr ⟨h6 ▸ h0, h6 ▸ h128⟩

/-- The length `pf_tableentry` gives an IPv6 entry of a host with such masks. -/
lemma pfTableentry_len_le {g : Host} {a : BitVec 128} {rest : List UInt8} {table : Table}
    {net : Net} (h6 : g.mask6 = -1 ∨ 0 ≤ g.mask6 ∧ g.mask6 ≤ 128)
    (hp : pfTableentry r (some g) (.in6 a rest) = some (table, net)) : net.len.toNat ≤ 128 := by
  replace hp : pfTableentry { r with type := .PF } (some g) (.in6 a rest) = some (table, net) := hp
  rw [pfTableentry_eq rfl] at hp
  obtain ⟨_, -, hp⟩ := Option.bind_eq_some_iff.mp hp
  obtain ⟨net', hnet, heq⟩ := Option.map_eq_some_iff.mp hp
  obtain rfl : net' = net := congrArg Prod.snd heq
  obtain rfl := Option.some.inj hnet
  obtain ⟨n, hn, hle⟩ : ∃ n : ℕ, (if g.mask6 = -1 then (128 : ℤ) else g.mask6) = n ∧ n ≤ 128 := by
    split_ifs with hm
    · exact ⟨128, rfl, le_rfl⟩
    · exact ⟨g.mask6.toNat, by omega, by omega⟩
  have hlen : (prefixLen (some g.mask6) 128).toNat = n := toNat_prefixLen (by omega) hn
  exact hlen.trans_le hle

end FreeSense.Filterdns
