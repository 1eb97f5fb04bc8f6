import Mathlib.Tactic.IntervalCases
import FreeSensePorts.Core.Fields
import FreeSensePorts.Filterlog.Packet

/-!
# The fields of an IPv4 line

`description.txt` numbers the fields of a line for a packet of IPv4.  Those a reader expects there
(`expected`) are those of the line under the condition `Shown`: a packet that is shorter on the wire
than its header says has a notice in the tenth field, a reason, an action or a direction without a
name is not shown by its number, two flags of a fragment are shown as none, and a name that fills its
sixteen bytes is printed with what stands behind it.
-/

namespace FreeSense.Filterlog

open List Printer

/-! ## Names -/

/-- A code by its name, or by its number. -/
def shown (table : List (ℕ × String)) (n : ℕ) : Text :=
  match table.find? fun t => t.1 = n with
  | some t => t.2.toList
  | none => "unkn(".toList ++ unsigned n ++ ")".toList

def Named (table : List (ℕ × String)) (n : ℕ) : Prop := ∃ t ∈ table, t.1 = n

instance (table : List (ℕ × String)) (n : ℕ) : Decidable (Named table n) :=
  inferInstanceAs (Decidable (∃ t ∈ table, t.1 = n))

lemma code2str_eq_shown_iff (table : List (ℕ × String)) (n : ℕ) :
    code2str table "unkn(%u)" n = shown table n ↔ Named table n := by
  unfold code2str shown Named
  cases hfind : table.find? fun t => t.1 = n with
  | some t =>
    have hmem := mem_of_find?_eq_some hfind
    have heq := find?_some hfind
    exact iff_of_true rfl ⟨t, hmem, by simpa using heq⟩
  | none =>
    refine iff_of_false (fun h => ?_) ?_
    · -- the percent sign of the format is not in a text with the number
      have hpercent : '%' ∈ "unkn(".toList ++ unsigned n ++ ")".toList := by
        rw [← show "unkn(%u)".toList = "unkn(".toList ++ unsigned n ++ ")".toList from h]
        decide
      rw [mem_append, mem_append] at hpercent
      rcases hpercent with (hp | hp) | hp
      · exact absurd hp (by decide)
      · exact not_mem_unsigned (by decide) hp
      · exact absurd hp (by decide)
    · rintro ⟨t, ht, rfl⟩
      simpa using find?_eq_none.1 hfind t ht

def flagsSet (off : ℕ) : List (ℕ × String) := ipFragValues.filter fun t => off / t.1 % 2 = 1

def flagsShown (off : ℕ) : Text :=
  if flagsSet off = [] then "none".toList else (flagsSet off).flatMap fun t => t.2.toList

lemma and_flags (off : ℕ) : off &&& 0xe000 = off / 2 ^ 13 % 2 ^ 3 * 2 ^ 13 := by
  have hmask : 0xe000 = (2 ^ 3 - 1) * 2 ^ 13 := by norm_num
  rw [hmask]
  refine Nat.eq_of_testBit_eq fun i => ?_
  rw [Nat.testBit_and, Nat.testBit_mul_two_pow, Nat.testBit_mul_two_pow, Nat.testBit_mod_two_pow,
    Nat.testBit_div_two_pow, Nat.testBit_two_pow_sub_one]
  by_cases h : 13 ≤ i
  · simp [h, Bool.and_comm]
  · simp [h]

lemma code2str_flags_iff {off : ℕ} (h : off < 2 ^ 16) :
    code2str ipFragValues "none" (off &&& 0xe000) = flagsShown off ↔ (flagsSet off).length ≤ 1 := by
  have hk : off / 2 ^ 13 < 8 := by omega
  have h₁ : off / 0x4000 = off / 2 ^ 13 / 2 := by omega
  have h₂ : off / 0x8000 = off / 2 ^ 13 / 4 := by omega
  have hset : flagsSet off = ipFragValues.filter fun t => off / 2 ^ 13 / (t.1 / 2 ^ 13) % 2 = 1 := by
    simp only [flagsSet, ipFragValues, filter_cons, filter_nil, h₁, h₂]
    norm_num
  rw [and_flags, flagsShown, hset]
  generalize off / 2 ^ 13 = k at hk
  interval_cases k <;> decide

/-- A name in a field of sixteen bytes, or a string up to its zero. -/
def name (mem : Memory) : ℕ → ℕ → Text
  | 0, _ => []
  | n + 1, i => if mem i = 0 then [] else Char.ofNat (mem i).toNat :: name mem n (i + 1)

/-- The string that starts in a field of `n` bytes ends there, or right behind it. -/
def Ends (mem : Memory) (n i : ℕ) : Prop := ∃ k ≤ n, mem (i + k) = 0

variable {i n hlen reason : ℕ} {anchor ifname : Text}

lemma name_succ_of_eq {mem : Memory} (h : mem i = 0) (n : ℕ) : name mem (n + 1) i = [] :=
  if_pos h

lemma name_succ_of_ne {mem : Memory} (h : mem i ≠ 0) (n : ℕ) :
    name mem (n + 1) i = Char.ofNat (mem i).toNat :: name mem n (i + 1) :=
  if_neg h

lemma value_cString (mem : Memory) (fuel i : ℕ) : (cString mem fuel i).value = name mem fuel i := by
  induction fuel generalizing i with
  | zero => rfl
  | succ fuel ih =>
    rw [cString, value_bind, value_byte, stringStep, name]
    have hzero : (mem i).toNat = 0 ↔ mem i = 0 := by
      rw [← UInt8.toNat_inj]
      rfl
    by_cases h : mem i = 0
    · rw [if_pos (hzero.2 h), if_pos h]
      rfl
    · rw [if_neg (mt hzero.1 h), if_neg h, value_bind, ih]
      rfl

lemma text_cString (mem : Memory) (fuel i : ℕ) : (cString mem fuel i).text = [] := by
  induction fuel generalizing i with
  | zero => rfl
  | succ fuel ih =>
    rw [cString, text_byte_bind, stringStep]
    by_cases h : (mem i).toNat = 0
    · rw [if_pos h]
      rfl
    · rw [if_neg h, text_bind, ih]
      rfl

lemma ends_succ_of_ne {mem : Memory} (h : mem i ≠ 0) : Ends mem (n + 1) i ↔ Ends mem n (i + 1) := by
  constructor
  · rintro ⟨k, hk, hzero⟩
    cases k with
    | zero => exact absurd hzero h
    | succ k => exact ⟨k, by omega, by rwa [show i + 1 + k = i + (k + 1) by omega]⟩
  · rintro ⟨k, hk, hzero⟩
    exact ⟨k + 1, by omega, by rwa [show i + (k + 1) = i + 1 + k by omega]⟩

lemma name_eq_iff (mem : Memory) (n : ℕ) :
    ∀ {m i : ℕ}, n < m → (name mem m i = name mem n i ↔ Ends mem n i) := by
  induction n with
  | zero =>
    intro m i hm
    obtain ⟨m, rfl⟩ := Nat.exists_eq_add_one.2 hm
    by_cases h : mem i = 0
    · exact iff_of_true (name_succ_of_eq h m) ⟨0, le_rfl, h⟩
    · refine iff_of_false (fun heq => ?_) ?_
      · rw [name_succ_of_ne h] at heq
        exact cons_ne_nil _ _ heq
      · rintro ⟨k, hk, hzero⟩
        obtain rfl := Nat.le_zero.1 hk
        exact h hzero
  | succ n ih =>
    intro m i hm
    obtain ⟨m, rfl⟩ := Nat.exists_eq_add_one.2 (Nat.zero_lt_of_lt hm)
    by_cases h : mem i = 0
    · exact iff_of_true (by rw [name_succ_of_eq h, name_succ_of_eq h]) ⟨0, Nat.zero_le _, h⟩
    · rw [name_succ_of_ne h, name_succ_of_ne h, cons_inj_right, ih (by omega),
        ends_succ_of_ne h]

/-! ## The line -/

section

variable (sys : System) (filterReasons : ℕ → Bool) (fuel : ℕ) (c : Capture)

def hdrlen : ℕ := bpfWordalign (c.mem 0).toNat

def wireLength : ℕ := sub32 c.len (hdrlen c)

def ipLen : ℕ := word16 c.mem (hdrlen c + 2)

def ipOff : ℕ := word16 c.mem (hdrlen c + 6)

def ipProto : ℕ := (c.mem (hdrlen c + 9)).toNat

def subrulenr : ℕ := word32 c.mem 40

/-- The eight fields of the log, `anchor` and `ifname` being the names and `code` the text of a code. -/
def logFields (anchor ifname : Text) (code : List (ℕ × String) → ℕ → Text) : List Text :=
  [unsigned (word32 c.mem 36), if subrulenr c = 2 ^ 32 - 1 then [] else unsigned (subrulenr c),
    if subrulenr c = 2 ^ 32 - 1 then [] else anchor, unsigned (word32 c.mem 64), ifname,
    code pfReasons (c.mem 3).toNat, code pfActions (c.mem 2).toNat,
    code pfDirections (c.mem 60).toNat]

/-- The eleven fields from the type of service to the addresses. -/
def packetFields (flags : Text) : List Text :=
  ["0x".toList ++ hex 0 (c.mem (hdrlen c + 1)).toNat, ecnText (c.mem (hdrlen c + 1)).toNat,
    unsigned (c.mem (hdrlen c + 8)).toNat, unsigned (word16 c.mem (hdrlen c + 4)),
    unsigned ((ipOff c &&& 0x1fff) * 8), flags, unsigned (ipProto c), protocolText sys (ipProto c),
    unsigned (ipLen c), inetNtoa (block c.mem (hdrlen c + 12) 4).value,
    inetNtoa (block c.mem (hdrlen c + 16) 4).value]

def versionField : Text := unsigned ((c.mem (hdrlen c)).toNat / 16)

/-- The notice for a packet that is shorter than its header says. -/
def notice : List Text :=
  if wireLength c < ipLen c then
    ["error='truncated-ip ".toList ++ unsigned (ipLen c - wireLength c) ++ " bytes missing!'".toList]
  else []

/-- The twenty fields of the description. -/
def expected : List Text :=
  logFields c (name c.mem 16 20) (name c.mem 16 4) shown ++
    versionField c :: packetFields sys c (flagsShown (ipOff c))

/-- When they are the first twenty fields of the line. -/
structure Shown : Prop where
  whole : ipLen c ≤ wireLength c
  reason : Named pfReasons (c.mem 3).toNat
  action : Named pfActions (c.mem 2).toNat
  direction : Named pfDirections (c.mem 60).toNat
  flags : (flagsSet (ipOff c)).length ≤ 1
  interface : Ends c.mem 16 4
  anchor : subrulenr c ≠ 2 ^ 32 - 1 → Ends c.mem 16 20

/-! ## Texts

The commas are counted for any texts in place of the fields: what the fields are is not looked at. -/

lemma row_log (rule sub anchor tracker ifname reason action dir : Text) :
    (rule ++ ",".toList) ++ (row [sub, anchor] ++ ((tracker ++ ",".toList ++ ifname ++ ",".toList) ++
      ((reason ++ ",".toList) ++ ((action ++ ",".toList) ++ (dir ++ ",".toList))))) =
    row [rule, sub, anchor, tracker, ifname, reason, action, dir] := by
  simp [row]

lemma row_packet (tos ecn ttl id off flags p proto len src dst : Text) :
    (tos ++ ",".toList) ++ (ecn ++ ((",".toList ++ ttl ++ ",".toList) ++
      ((id ++ ",".toList ++ off ++ ",".toList ++ flags ++ ",".toList ++ p ++ ",".toList) ++
      ((proto ++ ",".toList) ++ ((len ++ ",".toList) ++ ((src ++ ",".toList) ++
        (dst ++ ",".toList))))))) =
    row [tos, ecn, ttl, id, off, flags, p, proto, len, src, dst] := by
  simp [row]

lemma text_subrulePrint (mem : Memory) (n : ℕ) :
    (subrulePrint mem fuel n).text =
      row [if n = 2 ^ 32 - 1 then [] else unsigned n,
        if n = 2 ^ 32 - 1 then [] else name mem fuel 20] := by
  have hrow : ∀ s t : Text, s ++ ",".toList ++ t ++ ",".toList = row [s, t] := by
    simp [row]
  rw [subrulePrint]
  by_cases h : n = 2 ^ 32 - 1
  · rw [if_pos h, if_pos h, if_pos h]
    rfl
  · rw [if_neg h, if_neg h, if_neg h, text_bind_of_text_eq_nil (text_cString mem fuel 20),
      value_cString, text_emit, hrow]

lemma text_headerFields :
    (headerFields c.mem fuel (c.mem 3).toNat).text =
      row (logFields c (name c.mem fuel 20) (name c.mem fuel 4)
        fun table n => code2str table "unkn(%u)" n) := by
  rw [headerFields, text_extract32Bits_bind, text_bind, text_emit, text_extract32Bits_bind, text_bind,
    text_subrulePrint, text_extract32Bits_bind, text_bind_of_text_eq_nil (text_cString c.mem fuel 4),
    value_cString, text_bind, text_emit, text_bind, text_emit, text_byte_bind, text_bind, text_emit,
    text_byte_bind, text_emit, row_log]
  rfl

lemma text_ipFields :
    (ipFields sys c.mem (hdrlen c) (ipOff c) (ipProto c)).text =
      row (packetFields sys c (code2str ipFragValues "none" (ipOff c &&& 0xe000))) := by
  rw [ipFields, text_byte_bind, text_bind, text_emit, text_bind, text_emit, text_byte_bind, text_bind,
    text_emit, text_extract16Bits_bind, text_bind, text_emit, text_bind, text_emit,
    text_extract16Bits_bind, text_bind, text_emit,
    text_bind_of_text_eq_nil (text_block c.mem (hdrlen c + 12) 4), text_bind, text_emit,
    text_bind_of_text_eq_nil (text_block c.mem (hdrlen c + 16) 4), text_emit, row_packet]
  rfl

end

/-! ## Lines with addresses

Each check on the way to the addresses was passed if they are printed, and has printed nothing. -/

section

variable {sys : System} {filterReasons : ℕ → Bool} {fuel : ℕ} {mem : Memory} {bp length : ℕ}

lemma ipLength_of_value {len : ℕ} (h : (ipLength sys mem fuel bp length hlen len).value = true) :
    (ipLength sys mem fuel bp length hlen len).text =
      (if length < len then
        "error='truncated-ip ".toList ++ unsigned (len - length) ++ " bytes missing!',".toList else []) ++
      (ipBody sys mem fuel bp hlen len).text := by
  rw [ipLength] at h ⊢
  by_cases hlen' : len < hlen
  · rw [if_pos hlen'] at h
    cases h
  · rw [if_neg hlen', text_bind, text_emit]

lemma ipHeaderLength_of_value (h : (ipHeaderLength sys mem fuel bp length hlen).value = true) :
    (ipHeaderLength sys mem fuel bp length hlen).text =
        (ipLength sys mem fuel bp length hlen (word16 mem (bp + 2))).text ∧
      (ipLength sys mem fuel bp length hlen (word16 mem (bp + 2))).value = true := by
  rw [ipHeaderLength] at h ⊢
  by_cases hsmall : hlen < ipHdrSize
  · rw [if_pos hsmall] at h
    cases h
  · rw [if_neg hsmall] at h ⊢
    exact ⟨text_extract16Bits_bind mem (bp + 2) _, h⟩

lemma ipChecks_of_value (h : (ipChecks sys mem fuel bp length n).value = true) :
    (ipChecks sys mem fuel bp length n).text =
        (ipHeaderLength sys mem fuel bp length ((mem bp).toNat % 16 * 4)).text ∧
      (ipHeaderLength sys mem fuel bp length ((mem bp).toNat % 16 * 4)).value = true := by
  rw [ipChecks] at h ⊢
  by_cases hsnap : maximumSnaplen < n
  · rw [if_pos hsnap] at h
    cases h
  by_cases hshort : length < ipHdrSize
  · rw [if_neg hsnap, if_pos hshort] at h
    cases h
  rw [if_neg hsnap, if_neg hshort] at h ⊢
  exact ⟨text_byte_bind mem bp _, h⟩

lemma text_ipBody (hlen len : ℕ) :
    (ipBody sys mem fuel bp hlen len).text =
      (ipFields sys mem bp (word16 mem (bp + 6)) (mem (bp + 9)).toNat).text ++
      (ipPayload mem fuel bp hlen (len - hlen) (word16 mem (bp + 6)) (mem (bp + 9)).toNat).text := by
  rw [ipBody, text_extract16Bits_bind, text_byte_bind, text_bind, text_bind, text_pure,
    append_nil]

lemma ipPrint_of_value (h : (ipPrint sys mem fuel bp length).value = true) :
    ∃ rest, (ipPrint sys mem fuel bp length).text =
      (unsigned ((mem bp).toNat / 16) ++ ",".toList) ++ ((if length < word16 mem (bp + 2) then
        "error='truncated-ip ".toList ++ unsigned (word16 mem (bp + 2) - length) ++
          " bytes missing!',".toList else []) ++
        ((ipFields sys mem bp (word16 mem (bp + 6)) (mem (bp + 9)).toNat).text ++ rest)) := by
  rw [ipPrint, value_bind, value_bind, value_bind, value_extract16Bits] at h
  obtain ⟨htext₁, h₁⟩ := ipChecks_of_value h
  obtain ⟨htext₂, h₂⟩ := ipHeaderLength_of_value h₁
  refine ⟨(ipPayload mem fuel bp ((mem bp).toNat % 16 * 4)
    (word16 mem (bp + 2) - (mem bp).toNat % 16 * 4) (word16 mem (bp + 6)) (mem (bp + 9)).toNat).text, ?_⟩
  rw [ipPrint, text_byte_bind, text_bind, text_emit, text_extract16Bits_bind, htext₁, htext₂,
    ipLength_of_value h₂, text_ipBody]

lemma packetPrint_of_value (h : (packetPrint sys mem fuel bp length).value = true) :
    (ipPrint sys mem fuel bp length).value = true ∧
      ∃ rest, (packetPrint sys mem fuel bp length).text =
        (ipPrint sys mem fuel bp length).text ++ rest := by
  rw [packetPrint] at h ⊢
  by_cases hshort : length < 4
  · rw [if_pos hshort] at h
    cases h
  rw [if_neg hshort] at h ⊢
  rw [value_bind, value_byte, versionPrint] at h
  rw [text_byte_bind, versionPrint]
  by_cases h4 : (mem bp).toNat / 16 = 4
  · rw [if_pos h4] at h ⊢
    exact ⟨h, [], (append_nil _).symm⟩
  by_cases h6 : (mem bp).toNat / 16 = 6
  · rw [if_neg h4, if_pos h6] at h
    cases h
  rw [if_neg h4, if_neg h6, otherVersion] at h ⊢
  refine ⟨h, unsigned ((mem bp).toNat / 16), ?_⟩
  rw [text_bind, text_byte_bind, text_bind, text_emit, text_pure, append_nil]

end

section

variable {sys : System} {filterReasons : ℕ → Bool} {fuel : ℕ} {c : Capture}

/-- What two printers print one after the other, said of any two: to have the kernel compare the ones
of a packet here is out of reach. -/
lemma seq_of_value {x : Printer Unit} {y : Printer Bool} (h : (x >>= fun _ => y).value = true) :
    (x >>= fun _ => y).text = x.text ++ y.text ∧ y.value = true :=
  ⟨text_bind x fun _ => y, h⟩

lemma hdrlen_le_of_value (h : (decodeFields sys fuel c n reason).value = true) :
    ¬ c.caplen < n := by
  intro hcaplen
  rw [decodeFields, if_pos hcaplen] at h
  cases h

lemma decodeFields_eq (hcaplen : ¬ c.caplen < n) (reason : ℕ) :
    decodeFields sys fuel c n reason =
      (headerFields c.mem fuel reason >>= fun _ => packetPrint sys c.mem fuel n (sub32 c.len n)) :=
  if_neg hcaplen

lemma decodeFields_of_value (h : (decodeFields sys fuel c n reason).value = true) :
    (decodeFields sys fuel c n reason).text = (headerFields c.mem fuel reason).text ++
        (packetPrint sys c.mem fuel n (sub32 c.len n)).text ∧
      (packetPrint sys c.mem fuel n (sub32 c.len n)).value = true := by
  have hcaplen := hdrlen_le_of_value h
  rw [decodeFields_eq hcaplen] at h ⊢
  exact seq_of_value h

lemma decodeReason_of_value (h : (decodeReason sys filterReasons fuel c n reason).value.ipv4 = true) :
    (decodeReason sys filterReasons fuel c n reason).text = (decodeFields sys fuel c n reason).text ∧
      (decodeFields sys fuel c n reason).value = true := by
  rw [decodeReason] at h ⊢
  by_cases hfilter : filterReasons reason = true
  · rw [if_pos hfilter] at h
    cases h
  · rw [if_neg hfilter] at h ⊢
    exact ⟨by rw [text_bind, text_pure, append_nil], h⟩

lemma decodeLength_of_value (h : (decodeLength sys filterReasons fuel c n).value.ipv4 = true) :
    (decodeLength sys filterReasons fuel c n).text =
        (decodeReason sys filterReasons fuel c (bpfWordalign n) (c.mem 3).toNat).text ∧
      (decodeReason sys filterReasons fuel c (bpfWordalign n) (c.mem 3).toNat).value.ipv4 = true := by
  rw [decodeLength] at h ⊢
  by_cases hlength : n < minPflogHdrlen
  · rw [if_pos hlength] at h
    cases h
  · rw [if_neg hlength] at h ⊢
    exact ⟨text_byte_bind c.mem 3 _, h⟩

lemma decodePacket_of_value (h : (decodePacket sys filterReasons fuel c).value.ipv4 = true) :
    (decodePacket sys filterReasons fuel c).text =
        (headerFields c.mem fuel (c.mem 3).toNat).text ++
          (packetPrint sys c.mem fuel (hdrlen c) (wireLength c)).text ∧
      (packetPrint sys c.mem fuel (hdrlen c) (wireLength c)).value = true := by
  have hlength : (decodePacket sys filterReasons fuel c).text =
        (decodeLength sys filterReasons fuel c (c.mem 0).toNat).text ∧
      (decodeLength sys filterReasons fuel c (c.mem 0).toNat).value.ipv4 = true := by
    rw [decodePacket] at h ⊢
    by_cases hempty : c.caplen < 1
    · rw [if_pos hempty] at h
      cases h
    · rw [if_neg hempty] at h ⊢
      exact ⟨text_byte_bind c.mem 0 _, h⟩
  obtain ⟨htext₁, h₁⟩ := hlength
  obtain ⟨htext₂, h₂⟩ := decodeLength_of_value h₁
  obtain ⟨htext₃, h₃⟩ := decodeReason_of_value h₂
  obtain ⟨htext₄, h₄⟩ := decodeFields_of_value h₃
  exact ⟨htext₁.trans (htext₂.trans (htext₃.trans htext₄)), h₄⟩

lemma row_notice (a b missing : Text) : a ++ missing ++ (b ++ ",".toList) = row [a ++ missing ++ b] := by
  simp [row]

lemma text_notice (c : Capture) :
    (if wireLength c < ipLen c then "error='truncated-ip ".toList ++
      unsigned (ipLen c - wireLength c) ++ " bytes missing!',".toList else []) = row (notice c) := by
  have hend : " bytes missing!',".toList = " bytes missing!'".toList ++ ",".toList := rfl
  rw [notice]
  by_cases h : wireLength c < ipLen c
  · rw [if_pos h, if_pos h, hend, row_notice]
  · rw [if_neg h, if_neg h]
    rfl

/-- The line as rows of fields. -/
theorem line_of_value (h : (decodePacket sys filterReasons fuel c).value.ipv4 = true) :
    ∃ rest, (decodePacket sys filterReasons fuel c).text =
      row (logFields c (name c.mem fuel 20) (name c.mem fuel 4)
          (fun table n => code2str table "unkn(%u)" n) ++ ([versionField c] ++ (notice c ++
        packetFields sys c (code2str ipFragValues "none" (ipOff c &&& 0xe000))))) ++ rest := by
  have hversion : versionField c ++ ",".toList = row [versionField c] := by
    simp [row]
  have hlen : word16 c.mem (hdrlen c + 2) = ipLen c := rfl
  have hoff : word16 c.mem (hdrlen c + 6) = ipOff c := rfl
  have hproto : (c.mem (hdrlen c + 9)).toNat = ipProto c := rfl
  have hfirst : unsigned ((c.mem (hdrlen c)).toNat / 16) = versionField c := rfl
  obtain ⟨htext, hpacket⟩ := decodePacket_of_value h
  obtain ⟨hip, rest₁, htext₁⟩ := packetPrint_of_value hpacket
  obtain ⟨rest₂, htext₂⟩ := ipPrint_of_value hip
  rw [hlen, hoff, hproto, hfirst, text_notice, hversion, text_ipFields] at htext₂
  refine ⟨rest₂ ++ rest₁, ?_⟩
  rw [htext, text_headerFields, htext₁, htext₂, row_append, row_append, row_append]
  simp only [append_assoc]

end

/-! ## Fields without a comma -/

lemma comma_notMem_code2str {table : List (ℕ × String)} {unknown : String}
    (htable : ∀ t ∈ table, ',' ∉ t.2.toList) (hunknown : ',' ∉ unknown.toList) (n : ℕ) :
    ',' ∉ code2str table unknown n := by
  unfold code2str
  cases hfind : table.find? fun t => t.1 = n with
  | none => exact hunknown
  | some t => exact htable t (mem_of_find?_eq_some hfind)

lemma comma_notMem_hex (n : ℕ) : ',' ∉ "0x".toList ++ hex 0 n := by
  intro h
  rcases mem_append.1 h with h | h
  · exact absurd h (by decide)
  · rw [hex, Nat.zero_sub, replicate_zero] at h
    obtain ⟨d, hd, heq⟩ := exists_digitChar_of_mem_toDigits (by decide) h
    exact absurd heq (by revert d; decide)

lemma comma_notMem_ecnText (tos : ℕ) : ',' ∉ ecnText tos := by
  unfold ecnText
  split_ifs <;> decide

lemma comma_notMem_inetNtoa : ∀ addr : List UInt8, ',' ∉ inetNtoa addr
  | [] => not_mem_nil
  | [a] => by
    have htext : inetNtoa [a] = unsigned a.toNat := by simp [inetNtoa]
    rw [htext]
    exact not_mem_unsigned (by decide)
  | a :: b :: addr => by
    have htext : inetNtoa (a :: b :: addr) =
        unsigned a.toNat ++ (".".toList ++ inetNtoa (b :: addr)) := by
      simp [inetNtoa]
    rw [htext, mem_append, mem_append]
    rintro (h | h | h)
    · exact not_mem_unsigned (by decide) h
    · exact absurd h (by decide)
    · exact comma_notMem_inetNtoa (b :: addr) h

lemma comma_notMem_notice (c : Capture) : ∀ f ∈ notice c, ',' ∉ f := by
  intro f hf
  unfold notice at hf
  split_ifs at hf
  · rw [mem_singleton.1 hf, mem_append, mem_append]
    rintro ((h | h) | h)
    · exact absurd h (by decide)
    · exact not_mem_unsigned (by decide) h
    · exact absurd h (by decide)
  · exact absurd hf not_mem_nil

/-- The fields of the log and of the packet hold a comma only where a name does. -/
lemma comma_notMem_logFields {c : Capture} (hanchor : ',' ∉ anchor) (hifname : ',' ∉ ifname) :
    ∀ f ∈ logFields c anchor ifname fun table n => code2str table "unkn(%u)" n, ',' ∉ f := by
  have hnumber : ∀ n, ',' ∉ unsigned n := fun n => not_mem_unsigned (by decide)
  have hempty : ∀ {p : Prop} [Decidable p] {t : Text}, ',' ∉ t → ',' ∉ if p then [] else t := by
    intro p _ t ht
    split_ifs
    · exact not_mem_nil
    · exact ht
  simp only [logFields, forall_mem_cons]
  exact ⟨hnumber _, hempty (hnumber _), hempty hanchor, hnumber _, hifname,
    comma_notMem_code2str (by decide) (by decide) _, comma_notMem_code2str (by decide) (by decide) _,
    comma_notMem_code2str (by decide) (by decide) _, by simp⟩

lemma comma_notMem_packetFields {sys : System} {c : Capture}
    (hproto : ',' ∉ protocolText sys (ipProto c)) :
    ∀ f ∈ packetFields sys c (code2str ipFragValues "none" (ipOff c &&& 0xe000)), ',' ∉ f := by
  have hnumber : ∀ n, ',' ∉ unsigned n := fun n => not_mem_unsigned (by decide)
  simp only [packetFields, forall_mem_cons]
  exact ⟨comma_notMem_hex _, comma_notMem_ecnText _, hnumber _, hnumber _, hnumber _,
    comma_notMem_code2str (by decide) (by decide) _, hnumber _, hproto, hnumber _,
    comma_notMem_inetNtoa _, comma_notMem_inetNtoa _, by simp⟩

lemma comma_notMem_line {sys : System} {c : Capture} (hanchor : ',' ∉ anchor)
    (hifname : ',' ∉ ifname) (hproto : ',' ∉ protocolText sys (ipProto c)) :
    ∀ f ∈ logFields c anchor ifname (fun table n => code2str table "unkn(%u)" n) ++ ([versionField c] ++
      (notice c ++ packetFields sys c (code2str ipFragValues "none" (ipOff c &&& 0xe000)))),
      ',' ∉ f := by
  simp only [forall_mem_append, forall_mem_singleton]
  exact ⟨comma_notMem_logFields hanchor hifname, not_mem_unsigned (by decide), comma_notMem_notice c,
    comma_notMem_packetFields hproto⟩

/-! ## Positions -/

section

variable {sys : System} {filterReasons : ℕ → Bool} {fuel : ℕ} {c : Capture}

lemma logFields_eq_iff (hfuel : 16 < fuel) :
    logFields c (name c.mem fuel 20) (name c.mem fuel 4) (fun table n => code2str table "unkn(%u)" n) =
        logFields c (name c.mem 16 20) (name c.mem 16 4) shown ↔
      (subrulenr c ≠ 2 ^ 32 - 1 → Ends c.mem 16 20) ∧ Ends c.mem 16 4 ∧
        Named pfReasons (c.mem 3).toNat ∧ Named pfActions (c.mem 2).toNat ∧
        Named pfDirections (c.mem 60).toNat := by
  have hanchor : ((if subrulenr c = 2 ^ 32 - 1 then [] else name c.mem fuel 20) =
      if subrulenr c = 2 ^ 32 - 1 then [] else name c.mem 16 20) ↔
        (subrulenr c ≠ 2 ^ 32 - 1 → Ends c.mem 16 20) := by
    by_cases h : subrulenr c = 2 ^ 32 - 1
    · rw [if_pos h, if_pos h]
      exact iff_of_true rfl fun hne => absurd h hne
    · rw [if_neg h, if_neg h, name_eq_iff c.mem 16 hfuel]
      exact ⟨fun he _ => he, fun he => he h⟩
  simp only [logFields, List.cons.injEq, true_and, and_true]
  rw [hanchor, name_eq_iff c.mem 16 hfuel, code2str_eq_shown_iff, code2str_eq_shown_iff,
    code2str_eq_shown_iff]

lemma packetFields_eq_iff (flags flags' : Text) :
    packetFields sys c flags = packetFields sys c flags' ↔ flags = flags' := by
  simp only [packetFields, List.cons.injEq, true_and, and_true]

lemma ipOff_lt (c : Capture) : ipOff c < 2 ^ 16 := by
  have h₁ := (c.mem (hdrlen c + 6)).toNat_lt
  have h₂ := (c.mem (hdrlen c + 6 + 1)).toNat_lt
  unfold ipOff word16
  omega

lemma notice_ne_tos (missing : Text) (tos : ℕ) :
    "error='truncated-ip ".toList ++ missing ++ " bytes missing!'".toList ≠ "0x".toList ++ hex 0 tos := by
  intro h
  have hhead := congrArg List.head? h
  cases hhead

lemma tenth_of_short (hprinted : (decodePacket sys filterReasons fuel c).value.ipv4 = true)
    (hanchor : ',' ∉ name c.mem fuel 20) (hifname : ',' ∉ name c.mem fuel 4)
    (hproto : ',' ∉ protocolText sys (ipProto c)) (hshort : wireLength c < ipLen c) :
    (fields (decodePacket sys filterReasons fuel c).text)[9]? =
      some ("error='truncated-ip ".toList ++ unsigned (ipLen c - wireLength c) ++
        " bytes missing!'".toList) := by
  obtain ⟨rest, htext⟩ := line_of_value hprinted
  rw [htext, fields_row (comma_notMem_line hanchor hifname hproto), notice, if_pos hshort]
  rfl

/-- **The fields of an IPv4 line stand where the description has them**, each with the value of the
packet, exactly if the packet is `Shown`. -/
theorem fields_shown_iff (hprinted : (decodePacket sys filterReasons fuel c).value.ipv4 = true)
    (hfuel : 16 < fuel) (hanchor : ',' ∉ name c.mem fuel 20) (hifname : ',' ∉ name c.mem fuel 4)
    (hproto : ',' ∉ protocolText sys (ipProto c)) :
    (fields (decodePacket sys filterReasons fuel c).text).take 20 = expected sys c ↔ Shown c := by
  by_cases hshort : wireLength c < ipLen c
  · refine iff_of_false (fun h => ?_) fun hshown => absurd hshown.whole (not_le.2 hshort)
    have htenth := congrArg (fun l => l[9]?) h
    rw [getElem?_take_of_lt (by decide),
      tenth_of_short hprinted hanchor hifname hproto hshort] at htenth
    exact notice_ne_tos _ _ (Option.some.inj htenth)
  · obtain ⟨rest, htext⟩ := line_of_value hprinted
    rw [htext, fields_row (comma_notMem_line hanchor hifname hproto)]
    have hlength : (logFields c (name c.mem fuel 20) (name c.mem fuel 4)
        (fun table n => code2str table "unkn(%u)" n) ++ ([versionField c] ++
          packetFields sys c (code2str ipFragValues "none" (ipOff c &&& 0xe000)))).length = 20 := rfl
    rw [notice, if_neg hshort, nil_append, take_left' hlength, expected]
    constructor
    · intro h
      obtain ⟨hlog, htail⟩ := append_inj h rfl
      obtain ⟨hanch, hif, hreason, haction, hdir⟩ := (logFields_eq_iff hfuel).1 hlog
      have hflags := (packetFields_eq_iff _ _).1 (List.cons.inj htail).2
      exact ⟨not_lt.1 hshort, hreason, haction, hdir, (code2str_flags_iff (ipOff_lt c)).1 hflags, hif,
        hanch⟩
    · intro h
      have hlog := (logFields_eq_iff hfuel).2
        ⟨h.anchor, h.interface, h.reason, h.action, h.direction⟩
      have hflags := (code2str_flags_iff (ipOff_lt c)).2 h.flags
      rw [hlog, hflags, singleton_append]

end

/-- A datagram from 10.0.0.1 to 10.0.0.2, of twenty-eight bytes on the wire.  Its header says `len`. -/
def datagram (len : UInt8) : Capture where
  mem i := ([69, 2, 0, 0, 101, 109, 48] ++ List.replicate 33 0 ++ [255, 255, 255, 255] ++
    List.replicate 16 0 ++ [1] ++ List.replicate 11 0 ++ [69, 0, 0, len, 0, 1, 64, 0, 64, 17, 0, 0,
      10, 0, 0, 1, 10, 0, 0, 2, 0, 53, 0, 53, 0, 8, 0, 0] : List UInt8).getD i 0
  caplen := 100
  len := 100
  caplen_le := le_rfl
  len_lt := Nat.le_of_ble_eq_true rfl

def bareSystem : System := ⟨⟨fun _ => [], 0xfff8⟩, fun _ => none⟩

theorem datagram_shown :
    (fields (decodePacket bareSystem (fun _ => false) 17 (datagram 28)).text).take 20 =
      expected bareSystem (datagram 28) := by
  refine (fields_shown_iff (by decide) (by decide) (by decide) (by decide) (by decide)).2 ?_
  exact ⟨by decide, by decide, by decide, by decide, by decide, ⟨3, by decide, by decide⟩,
    fun h => absurd (by decide) h⟩

/-- Twelve bytes fewer than the header says: all the fields behind the version are one place off. -/
theorem datagram_shifted :
    (decodePacket bareSystem (fun _ => false) 17 (datagram 40)).value.ipv4 = true ∧
      ',' ∉ name (datagram 40).mem 17 20 ∧ ',' ∉ name (datagram 40).mem 17 4 ∧
      ',' ∉ protocolText bareSystem (ipProto (datagram 40)) ∧
      (fields (decodePacket bareSystem (fun _ => false) 17 (datagram 40)).text)[9]? =
        some ("error='truncated-ip ".toList ++ unsigned 12 ++ " bytes missing!'".toList) ∧
      (fields (decodePacket bareSystem (fun _ => false) 17 (datagram 40)).text).take 20 ≠
        expected bareSystem (datagram 40) := by
  have hprinted : (decodePacket bareSystem (fun _ => false) 17 (datagram 40)).value.ipv4 = true := by
    decide
  have htenth := tenth_of_short (c := datagram 40) hprinted (by decide) (by decide) (by decide)
    (by decide)
  refine ⟨hprinted, by decide, by decide, by decide, htenth, fun h => ?_⟩
  have hlist := congrArg (fun l => l[9]?) h
  rw [getElem?_take_of_lt (by decide), htenth] at hlist
  exact notice_ne_tos _ _ (Option.some.inj hlist)

end FreeSense.Filterlog
