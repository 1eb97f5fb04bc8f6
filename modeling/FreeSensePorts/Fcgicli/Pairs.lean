import FreeSensePorts.Fcgicli.Model
import FreeSensePorts.CheckReload.Packet

/-!
# Two encoders of one format

The daemon and `fcgicli` each have a `build_nvpair`.  The daemon is given the lengths and writes a
long one byte by byte, with shifts and masks; `fcgicli` sets a flag in the word and swaps its bytes.
For strings of the lengths the daemon can write, both write the pair of `Core/FastCgi`, so that they
agree, and what they write can be read back.
-/

namespace FreeSense.Fcgicli

open List FastCgi

/-! ## Words -/

lemma wordBytes_append (a b c d : BitVec 8) :
    wordBytes (a ++ b ++ c ++ d) = [⟨a⟩, ⟨b⟩, ⟨c⟩, ⟨d⟩] := by
  have hd : (a ++ b ++ c ++ d).extractLsb' 0 8 = d := by
    rw [BitVec.extractLsb'_append_eq_of_add_le (by decide), BitVec.extractLsb'_eq_self]
  have hc : (a ++ b ++ c ++ d).extractLsb' 8 8 = c := by
    rw [BitVec.extractLsb'_append_eq_of_le (by decide),
      BitVec.extractLsb'_append_eq_of_add_le (by decide), BitVec.extractLsb'_eq_self]
  have hb : (a ++ b ++ c ++ d).extractLsb' 16 8 = b := by
    rw [BitVec.extractLsb'_append_eq_of_le (by decide),
      BitVec.extractLsb'_append_eq_of_le (by decide),
      BitVec.extractLsb'_append_eq_of_add_le (by decide), BitVec.extractLsb'_eq_self]
  have ha : (a ++ b ++ c ++ d).extractLsb' 24 8 = a := by
    rw [BitVec.extractLsb'_append_eq_of_le (by decide),
      BitVec.extractLsb'_append_eq_of_le (by decide),
      BitVec.extractLsb'_append_eq_of_le (by decide), BitVec.extractLsb'_eq_self]
  simp only [wordBytes]
  rw [ha, hb, hc, hd]

/-- Network order is the highest byte first, on either kind of machine. -/
lemma memory_htonl (littleEndian : Bool) (w : BitVec 32) :
    memory littleEndian (htonl littleEndian w) = wordBytes w := by
  cases littleEndian with
  | false => rfl
  | true =>
    rw [memory]
    exact congrArg List.reverse (wordBytes_append _ _ _ _)

lemma wordBytes_flag {l : ℕ} (h : l < 2 ^ 31) :
    wordBytes (BitVec.ofNat 32 (nvLlen ||| l))
      = [UInt8.ofNat (l / 2 ^ 24 + 128), UInt8.ofNat (l / 2 ^ 16), UInt8.ofNat (l / 2 ^ 8),
        UInt8.ofNat l] := by
  have hor : nvLlen ||| l = 2 ^ 31 + l := by
    rw [show nvLlen = 2 ^ 31 * 1 from rfl, ← Nat.two_pow_add_eq_or_of_lt h, Nat.mul_one]
  have hword : (BitVec.ofNat 32 (nvLlen ||| l)).toNat = 2 ^ 31 + l := by
    rw [BitVec.toNat_ofNat, hor, Nat.mod_eq_of_lt (by omega)]
  have hbyte : ∀ k n, (2 ^ 31 + l) / 2 ^ k % 2 ^ 8 = n % 2 ^ 8 →
      (⟨(BitVec.ofNat 32 (nvLlen ||| l)).extractLsb' k 8⟩ : UInt8) = UInt8.ofNat n := by
    intro k n hn
    rw [← UInt8.toNat_inj, UInt8.toNat_ofNat', ← hn, ← Nat.shiftRight_eq_div_pow, ← hword]
    exact BitVec.extractLsb'_toNat _ _ _
  simp only [wordBytes]
  rw [hbyte 24 (l / 2 ^ 24 + 128) (by omega), hbyte 16 (l / 2 ^ 16) (by omega),
    hbyte 8 (l / 2 ^ 8) (by omega), hbyte 0 l (by omega)]

lemma lengthField_eq (littleEndian : Bool) {l : ℕ} (h : l < 2 ^ 31) :
    lengthField littleEndian l = putLength l := by
  rw [lengthField, memory_htonl, wordBytes_flag h]
  rfl

/-! ## Pairs -/

/-- **`build_nvpair` writes a pair**, of strings up to the length the format allows. -/
theorem buildNvpair_eq (littleEndian : Bool) {key value : Bytes} (hkey : 0 ∉ key)
    (hlkey : key.length < 2 ^ 31) (hvalue : 0 ∉ value) (hlvalue : value.length < 2 ^ 31) :
    buildNvpair littleEndian key value = some (putPair (key, value)) := by
  have hkeymod : key.length % 2 ^ 32 = key.length := Nat.mod_eq_of_lt (by omega)
  have hvaluemod : value.length % 2 ^ 32 = value.length := Nat.mod_eq_of_lt (by omega)
  have hfits : ¬¬(key.length < nvLlen ∧ value.length < nvLlen) := not_not.mpr ⟨hlkey, hlvalue⟩
  have hprinted : ∀ s : Bytes, (if s.length > 0 then s else []) = s := by
    intro s
    cases s <;> simp
  simp only [buildNvpair, cstr_eq hkey, cstr_eq hvalue, hkeymod, hvaluemod, if_neg hfits,
    lengthField_eq littleEndian hlkey, lengthField_eq littleEndian hlvalue, hprinted, putPair]

/-- Pairs of strings that C can hold, each of a length the daemon can write. -/
def Writable (p : Pair) : Prop :=
  (0 ∉ p.1 ∧ p.1.length ≤ 65535) ∧ 0 ∉ p.2 ∧ p.2.length ≤ 65535

def daemonPairs (ps : List Pair) : Bytes :=
  ps.flatMap fun p => CheckReload.buildNvpair p.1.length p.2.length p.1 p.2

/-- And as `fcgicli` does. -/
def cliPairs (littleEndian : Bool) (ps : List Pair) : Option Bytes :=
  (ps.mapM fun p => buildNvpair littleEndian p.1 p.2).map List.flatten

lemma daemonPairs_eq {ps : List Pair} (h : ∀ p ∈ ps, Writable p) :
    daemonPairs ps = ps.flatMap putPair := by
  refine flatMap_congr fun p hp => ?_
  obtain ⟨⟨hkey, hlkey⟩, hvalue, hlvalue⟩ := h p hp
  exact CheckReload.buildNvpair_eq hkey hlkey hvalue hlvalue

lemma cliPairs_eq (littleEndian : Bool) {ps : List Pair} (h : ∀ p ∈ ps, Writable p) :
    cliPairs littleEndian ps = some (ps.flatMap putPair) := by
  have hmap : ps.mapM (fun p => buildNvpair littleEndian p.1 p.2) = some (ps.map putPair) := by
    induction ps with
    | nil => rfl
    | cons p ps ih =>
      obtain ⟨⟨hkey, hlkey⟩, hvalue, hlvalue⟩ := h p mem_cons_self
      rw [mapM_cons, buildNvpair_eq littleEndian hkey (by omega) hvalue (by omega),
        ih fun q hq => h q (mem_cons_of_mem _ hq)]
      rfl
  rw [cliPairs, hmap, Option.map_some, flatMap_def]

/-- **The two encoders agree, and their output has one reading.** -/
theorem encoders_agree (littleEndian : Bool) {ps : List Pair} (h : ∀ p ∈ ps, Writable p) :
    cliPairs littleEndian ps = some (daemonPairs ps) ∧ decodePairs (daemonPairs ps) = some ps ∧
      ∀ qs : List Pair, (∀ q ∈ qs, Writable q) → daemonPairs qs = daemonPairs ps → qs = ps := by
  have hdecode : ∀ qs : List Pair, (∀ q ∈ qs, Writable q) →
      decodePairs (daemonPairs qs) = some qs := by
    intro qs hqs
    rw [daemonPairs_eq hqs]
    refine decodePairs_flatMap fun q hq => ?_
    obtain ⟨⟨-, hlkey⟩, -, hlvalue⟩ := hqs q hq
    omega
  refine ⟨by rw [cliPairs_eq littleEndian h, daemonPairs_eq h], hdecode ps h, fun qs hqs heq => ?_⟩
  exact Option.some.inj ((hdecode qs hqs).symm.trans ((congrArg decodePairs heq).trans (hdecode ps h)))

/-- A long value, and an empty one. -/
theorem encoders_agree_long :
    cliPairs true [(text "QUERY_STRING", List.replicate 300 97), (text "X", [])]
      = some (daemonPairs [(text "QUERY_STRING", List.replicate 300 97), (text "X", [])]) :=
  (encoders_agree true (by simp only [Writable]; decide +kernel)).1

end FreeSense.Fcgicli
