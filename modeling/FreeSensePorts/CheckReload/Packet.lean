import FreeSensePorts.Core.FastCgi
import FreeSensePorts.CheckReload.Invariant

/-!
# The request `check_reload_status` sends

The bytes `fcgi_send_command` writes to php-fpm: `build_nvpair` puts the parameters into a string
buffer, and four headers of `prepare_packet` are laid around it.  The pair of `REQUEST_URI` is written
in two pieces (`buildNvpair_append`).

A script is short and its parameters are cut at 255 bytes, so the buffers are never full, and what is
in them is read back by the rules of the protocol as the pairs `intendedPairs`.
-/

namespace FreeSense.CheckReload

open List FastCgi

/-! ## Building -/

def fcgiVersion1 : UInt8 := 1

def fcgiBeginRequest : UInt8 := 1

def fcgiParams : UInt8 := 4

def fcgiStdin : UInt8 := 5

def fcgiResponder : UInt8 := 1

/-- `prepare_packet`, on a header full of zeros. -/
def preparePacket (type : UInt8) (lcontent requestId : ℕ) : List UInt8 :=
  [fcgiVersion1, type, UInt8.ofNat ((requestId >>> 8) &&& 0xFF), UInt8.ofNat (requestId &&& 0xFF),
    UInt8.ofNat ((lcontent >>> 8) &&& 0xFF), UInt8.ofNat (lcontent &&& 0xFF), 0, 0]

def longLength (l : ℕ) : List UInt8 :=
  [UInt8.ofNat ((l >>> 24) ||| 0x80), UInt8.ofNat ((l >>> 16) &&& 0xFF),
    UInt8.ofNat ((l >>> 8) &&& 0xFF), UInt8.ofNat (l &&& 0xFF)]

/-- What `build_nvpair` appends to the buffer. -/
def buildNvpair (lkey lvalue : ℕ) (key svalue : List UInt8) : List UInt8 :=
  (if lkey < 128 then [UInt8.ofNat lkey] else longLength lkey) ++
    (if lvalue < 128 ∨ lvalue > 65535 then [UInt8.ofNat lvalue] else longLength lvalue) ++
    (if lkey > 0 then cstr key else []) ++ (if lvalue > 0 then cstr svalue else [])

def strlen (s : List UInt8) : ℕ := (cstr s).length

/-- `strrchr(s, '/')`. -/
def strrchrSlash (s : List UInt8) : Option (List UInt8) :=
  let name := (cstr s).reverse.takeWhile (· ≠ 47)
  if (47 : UInt8) ∈ cstr s then some (47 :: name.reverse) else none

def ascii (s : String) : List UInt8 := Text.bytes s.toList

lemma ascii_eq {s : String} {l : Text} (hs : s = String.ofList l) : ascii s = l.bytes := by
  rw [ascii, hs, String.toList_ofList]

lemma ascii_slash : ascii "/" = [47] := ascii_eq rfl

/-- A call of `build_nvpair` with the lengths `strlen` gives. -/
def nvpair (key : String) (svalue : List UInt8) : List UInt8 :=
  buildNvpair (strlen (ascii key)) (strlen svalue) (ascii key) svalue

/-- The parameters of a request, once `p` is found. -/
def requestParams (command p params : List UInt8) : List UInt8 :=
  nvpair "GATEWAY_INTERFACE" (ascii "FastCGI/1.0") ++
    nvpair "REQUEST_METHOD" (ascii "GET") ++
    nvpair "NO_HEADERS" (ascii "1") ++
    nvpair "SCRIPT_FILENAME" command ++
    nvpair "SCRIPT_NAME" p ++
    nvpair "DOCUMENT_URI" p ++
    if cstr params = [] then nvpair "REQUEST_URI" p
    else
      nvpair "QUERY_STRING" params ++
        buildNvpair (strlen (ascii "REQUEST_URI")) (strlen p + strlen params + 2)
          (ascii "REQUEST_URI") (ascii "/") ++
        (cstr p ++ ascii "?" ++ cstr params)

/-- `keepalive` is never set. -/
def beginRequestBody : List UInt8 := [0, fcgiResponder, 0, 0, 0, 0, 0, 0]

/-- The size of the string buffer, in which a terminator has to fit, and of the packet. -/
def bufferSize : ℕ := 4096

/-- `sbuf_finish`: after an overflow `sbuf_len` is `-1`, and the `memcpy` after it has no meaning. -/
def sbufFinish (sb : List UInt8) : Option (List UInt8) :=
  if sb.length < bufferSize then some sb else none

def packet (requestId : ℕ) (sb : List UInt8) : List UInt8 :=
  preparePacket fcgiBeginRequest beginRequestBody.length requestId ++ beginRequestBody ++
    preparePacket fcgiParams sb.length requestId ++ sb ++
    preparePacket fcgiParams 0 requestId ++ preparePacket fcgiStdin 0 requestId

/-- What `fcgi_send_command` writes for `cmd->command` and `cmd->params`; `none` where `strrchr`
returns `NULL` or a buffer overflows. -/
def fcgiRequest (command : String) (params : Text) (requestId : ℕ) : Option (List UInt8) := do
  let p ← strrchrSlash (ascii command)
  let sb ← sbufFinish (requestParams (ascii command) p params.bytes)
  if (packet requestId sb).length ≤ bufferSize then some (packet requestId sb) else none

/-! ## Pairs -/

lemma ofNat_and (n : ℕ) : UInt8.ofNat (n &&& 0xFF) = UInt8.ofNat n := by
  rw [← UInt8.toNat_inj, UInt8.toNat_ofNat', UInt8.toNat_ofNat', Nat.and_two_pow_sub_one_eq_mod n 8]
  omega

lemma longLength_eq {l : ℕ} (h : l ≤ 65535) (hlong : ¬l < 128) : longLength l = putLength l := by
  have h24 : l >>> 24 = 0 := by
    omega
  have h24' : l / 2 ^ 24 = 0 := by omega
  rw [putLength, if_neg hlong, longLength, h24, h24', ofNat_and, ofNat_and, ofNat_and,
    Nat.shiftRight_eq_div_pow, Nat.shiftRight_eq_div_pow]
  rfl

/-- The keys of the requests. -/
def paramNames : List String :=
  ["GATEWAY_INTERFACE", "REQUEST_METHOD", "NO_HEADERS", "SCRIPT_FILENAME", "SCRIPT_NAME",
    "DOCUMENT_URI", "QUERY_STRING", "REQUEST_URI"]

lemma paramNames_short : ∀ key ∈ paramNames, 0 ∉ ascii key ∧ 0 < (ascii key).length ∧
    (ascii key).length ≤ 17 := by
  simp only [paramNames, forall_mem_cons, not_mem_nil, false_imp_iff, implies_true, and_true]
  all_goals
    rw [ascii_eq rfl]
    decide

/-- **`build_nvpair` begins a pair**: of a value it is given the first piece and the whole length,
and the rest of the value is what follows in the buffer. -/
lemma buildNvpair_append {key value rest : List UInt8} (hkey : 0 ∉ key)
    (hlkey : key.length ≤ 65535) (hvalue : 0 ∉ value) (h : (value ++ rest).length ≤ 65535)
    (hrest : value = [] → rest = []) :
    buildNvpair key.length (value ++ rest).length key value ++ rest
      = putPair (key, value ++ rest) := by
  have hklen : (if key.length < 128 then [UInt8.ofNat key.length] else longLength key.length)
      = putLength key.length := by
    by_cases h128 : key.length < 128
    · rw [if_pos h128, putLength, if_pos h128]
    · rw [if_neg h128, longLength_eq hlkey h128]
  have hvlen : (if (value ++ rest).length < 128 ∨ (value ++ rest).length > 65535 then
      [UInt8.ofNat (value ++ rest).length] else longLength (value ++ rest).length)
        = putLength (value ++ rest).length := by
    by_cases h128 : (value ++ rest).length < 128
    · rw [if_pos (Or.inl h128), putLength, if_pos h128]
    · rw [if_neg (not_or.mpr ⟨h128, by omega⟩), longLength_eq h h128]
  -- an empty string is not printed
  have hkprinted : (if key.length > 0 then cstr key else []) = key := by
    by_cases hk : key = []
    · rw [hk]
      rfl
    · rw [if_pos (length_pos_of_ne_nil hk), cstr_eq hkey]
  have hvprinted : (if (value ++ rest).length > 0 then cstr value else []) = value := by
    by_cases hv : value = []
    · rw [hv, hrest hv]
      rfl
    · have hvpos := length_pos_of_ne_nil hv
      rw [if_pos (by rw [length_append]; omega), cstr_eq hvalue]
  simp only [buildNvpair, hklen, hvlen, hkprinted, hvprinted, putPair, append_assoc]

/-- **`build_nvpair` writes a pair**, if it is given the lengths of the strings. -/
lemma buildNvpair_eq {key value : List UInt8} (hkey : 0 ∉ key) (hlkey : key.length ≤ 65535)
    (hvalue : 0 ∉ value) (hlvalue : value.length ≤ 65535) :
    buildNvpair key.length value.length key value = putPair (key, value) := by
  have hwhole := buildNvpair_append hkey hlkey hvalue (by rwa [append_nil]) fun _ => rfl
  simpa only [append_nil] using hwhole

lemma strlen_eq {s : List UInt8} (h : 0 ∉ s) : strlen s = s.length := by
  rw [strlen, cstr_eq h]

lemma nvpair_eq {key : String} (hkey : key ∈ paramNames) {value : List UInt8} (hvalue : 0 ∉ value)
    (h : value.length ≤ 65535) : nvpair key value = putPair (ascii key, value) := by
  obtain ⟨hnul, -, hshort⟩ := paramNames_short key hkey
  rw [nvpair, strlen_eq hnul, strlen_eq hvalue]
  exact buildNvpair_eq hnul (by omega) hvalue h

/-! ## The script -/

lemma exists_last_slash {s : List UInt8} (h : 47 ∈ s) :
    ∃ dir name, s = dir ++ 47 :: name ∧ 47 ∉ name := by
  obtain ⟨r, d, heq, hr⟩ := eq_append_cons_of_mem (mem_reverse.mpr h)
  refine ⟨d.reverse, r.reverse, ?_, fun hmem => hr (mem_reverse.mp hmem)⟩
  rw [← reverse_reverse s, heq]
  simp

lemma strrchrSlash_eq {dir name : List UInt8} (hnul : 0 ∉ dir ++ 47 :: name) (h : 47 ∉ name) :
    strrchrSlash (dir ++ 47 :: name) = some (47 :: name) := by
  have hname : (dir ++ 47 :: name).reverse.takeWhile (· ≠ 47) = name.reverse := by
    rw [reverse_append, reverse_cons, append_assoc, takeWhile_append_of_pos]
    · simp
    · intro b hb
      exact decide_eq_true fun heq => h (heq ▸ mem_reverse.mp hb)
  simp only [strrchrSlash, cstr_eq hnul, hname, reverse_reverse]
  rw [if_pos (mem_append_right _ mem_cons_self)]

/-- What is asked of php-fpm for the script `dir/name` with these parameters. -/
def intendedPairs (dir name params : List UInt8) : List Pair :=
  [ (ascii "GATEWAY_INTERFACE", ascii "FastCGI/1.0")
  , (ascii "REQUEST_METHOD", ascii "GET")
  , (ascii "NO_HEADERS", ascii "1")
  , (ascii "SCRIPT_FILENAME", dir ++ ascii "/" ++ name)
  , (ascii "SCRIPT_NAME", ascii "/" ++ name)
  , (ascii "DOCUMENT_URI", ascii "/" ++ name) ] ++
  if params = [] then [(ascii "REQUEST_URI", ascii "/" ++ name)]
  else
    [ (ascii "QUERY_STRING", params)
    , (ascii "REQUEST_URI", ascii "/" ++ (ascii "/" ++ name ++ ascii "?" ++ params)) ]

section Script

variable {dir name params : List UInt8} (hnul : 0 ∉ dir ++ 47 :: name)
  (hshort : (dir ++ 47 :: name).length ≤ 64) (hparams : 0 ∉ params)
  (hcut : params.length < paramsSize)

include hnul hshort hparams hcut in
/-- **The parameters are the intended pairs.** -/
theorem requestParams_eq :
    requestParams (dir ++ 47 :: name) (47 :: name) params
      = (intendedPairs dir name params).flatMap putPair := by
  have hp : 0 ∉ (47 :: name : List UInt8) := fun h => hnul (mem_append_right _ h)
  have hplen : (47 :: name : List UInt8).length ≤ 64 := by
    rw [length_append] at hshort
    omega
  have hsize : params.length < 256 := hcut
  have hmark : ascii "?" = [63] := ascii_eq rfl
  have hconst : ∀ value ∈ ["FastCGI/1.0", "GET", "1"],
      0 ∉ ascii value ∧ (ascii value).length ≤ 65535 := by decide +kernel
  have hpair := fun {key : String} (hkey : key ∈ paramNames) {value : String}
      (hv : value ∈ ["FastCGI/1.0", "GET", "1"]) =>
    nvpair_eq hkey (hconst value hv).1 (hconst value hv).2
  have hpair' := fun {key : String} (hkey : key ∈ paramNames) =>
    nvpair_eq hkey hp (by omega)
  rw [requestParams, intendedPairs, cstr_eq hparams, cstr_eq hp,
    hpair (by simp [paramNames]) (by simp), hpair (by simp [paramNames]) (by simp),
    hpair (by simp [paramNames]) (by simp), nvpair_eq (by simp [paramNames]) hnul (by omega),
    hpair' (by simp [paramNames]), hpair' (by simp [paramNames])]
  by_cases hnone : params = []
  · rw [if_pos hnone, if_pos hnone, hpair' (by simp [paramNames])]
    simp [ascii_slash]
  · -- the declared length counts the slash and the question mark
    have huri : strlen (47 :: name) + strlen params + 2
        = (ascii "/" ++ (47 :: name ++ ascii "?" ++ params)).length := by
      rw [strlen, strlen, cstr_eq hp, cstr_eq hparams, ascii_slash, hmark]
      simp
      omega
    have hlen : (ascii "/" ++ (47 :: name ++ ascii "?" ++ params)).length ≤ 65535 := by
      rw [← huri, strlen, strlen, cstr_eq hp, cstr_eq hparams]
      omega
    have hname : "REQUEST_URI" ∈ paramNames := by simp [paramNames]
    obtain ⟨hkey, -, hlkey⟩ := paramNames_short _ hname
    have hpieces := buildNvpair_append hkey (by omega) (by simp [ascii_slash]) hlen
      (by simp [ascii_slash])
    rw [if_neg hnone, if_neg hnone, nvpair_eq (by simp [paramNames]) hparams (by omega), huri,
      strlen_eq hkey, append_assoc (putPair (ascii "QUERY_STRING", params)), hpieces]
    simp [ascii_slash]

include hshort hcut in
lemma length_of_mem_intendedPairs {p : Pair} (h : p ∈ intendedPairs dir name params) :
    p.1.length ≤ 17 ∧ p.2.length ≤ 352 := by
  have hsize : params.length < 256 := hcut
  have hnames : ∀ key ∈ paramNames, (ascii key).length ≤ 17 := fun key hkey =>
    (paramNames_short key hkey).2.2
  have hconst : ∀ value ∈ ["FastCGI/1.0", "GET", "1", "/", "?"], (ascii value).length ≤ 11 := by
    decide +kernel
  simp only [paramNames, forall_mem_cons] at hnames hconst
  simp only [length_append, length_cons] at hshort
  by_cases hnone : params = [] <;>
    simp only [intendedPairs, hnone, if_true, if_false, cons_append, nil_append,
      mem_cons, not_mem_nil, or_false] at h
  · rcases h with rfl | rfl | rfl | rfl | rfl | rfl | rfl <;>
      simp only [length_append] <;> omega
  · rcases h with rfl | rfl | rfl | rfl | rfl | rfl | rfl | rfl <;>
      simp only [length_append] <;> omega

include hshort hcut in
/-- **The parameters are short.** -/
theorem length_intendedPairs : ((intendedPairs dir name params).flatMap putPair).length ≤ 8 * 377 := by
  have hcount : (intendedPairs dir name params).length ≤ 8 := by
    by_cases hnone : params = [] <;> simp [intendedPairs, hnone]
  have hsum : ∀ n ∈ (intendedPairs dir name params).map fun p => (putPair p).length, n ≤ 377 := by
    intro n hn
    obtain ⟨p, hp, rfl⟩ := mem_map.mp hn
    have hbound := length_of_mem_intendedPairs hshort hcut hp
    have hput := (length_putPair p).1
    omega
  calc ((intendedPairs dir name params).flatMap putPair).length
      = ((intendedPairs dir name params).map fun p => (putPair p).length).sum :=
        length_flatMap
    _ ≤ ((intendedPairs dir name params).map fun p => (putPair p).length).length • 377 :=
        sum_le_card_nsmul _ _ hsum
    _ ≤ 8 * 377 := by
        rw [length_map, smul_eq_mul]
        exact Nat.mul_le_mul_right _ hcount

end Script

/-! ## Records -/

def requestRecords (requestId : ℕ) (content : List UInt8) : List FastCgi.Record :=
  [ ⟨fcgiVersion1, fcgiBeginRequest, requestId % 2 ^ 16, beginRequestBody⟩
  , ⟨fcgiVersion1, fcgiParams, requestId % 2 ^ 16, content⟩
  , ⟨fcgiVersion1, fcgiParams, requestId % 2 ^ 16, []⟩
  , ⟨fcgiVersion1, fcgiStdin, requestId % 2 ^ 16, []⟩ ]

/-- **`prepare_packet` and the content after it are a record.** -/
lemma preparePacket_append (type : UInt8) (requestId : ℕ) (content : List UInt8) :
    preparePacket type content.length requestId ++ content
      = putRecord ⟨fcgiVersion1, type, requestId % 2 ^ 16, content⟩ := by
  have hhigh : UInt8.ofNat (requestId % 2 ^ 16 / 2 ^ 8) = UInt8.ofNat (requestId / 2 ^ 8) := by
    rw [← UInt8.toNat_inj, UInt8.toNat_ofNat', UInt8.toNat_ofNat']
    omega
  have hlow : UInt8.ofNat (requestId % 2 ^ 16) = UInt8.ofNat requestId := by
    rw [← UInt8.toNat_inj, UInt8.toNat_ofNat', UInt8.toNat_ofNat']
    omega
  simp only [preparePacket, putRecord, put16, ofNat_and, Nat.shiftRight_eq_div_pow, hhigh, hlow]
  rfl

lemma packet_eq (requestId : ℕ) (sb : List UInt8) :
    packet requestId sb = (requestRecords requestId sb).flatMap putRecord := by
  simp only [packet, requestRecords, flatMap_cons, flatMap_nil, ← preparePacket_append,
    append_nil, append_assoc, length_nil]

lemma length_packet (requestId : ℕ) (sb : List UInt8) :
    (packet requestId sb).length = sb.length + 40 := by
  simp [packet, preparePacket, beginRequestBody]

theorem decodeRecords_packet (requestId : ℕ) {sb : List UInt8} (h : sb.length < bufferSize) :
    decodeRecords (packet requestId sb) = some (requestRecords requestId sb) := by
  rw [packet_eq]
  refine decodeRecords_flatMap fun r hr => ?_
  have hsb : sb.length < 4096 := h
  have hid : requestId % 2 ^ 16 < 2 ^ 16 := Nat.mod_lt _ (by decide)
  simp only [requestRecords, mem_cons, not_mem_nil, or_false] at hr
  rcases hr with rfl | rfl | rfl | rfl
  · exact ⟨hid, by simp [beginRequestBody]⟩
  · exact ⟨hid, hsb.trans (by decide)⟩
  · exact ⟨hid, by simp⟩
  · exact ⟨hid, by simp⟩

/-! ## Every request of the table -/

lemma mem_expandFormat {c : Char} {format arg : Text} (h : c ∈ expandFormat format arg) :
    c ∈ format ∨ c ∈ arg := by
  fun_induction expandFormat format arg with
  | case1 rest arg =>
    rcases mem_append.mp h with harg | hrest
    · exact Or.inr harg
    · exact Or.inl (mem_cons_of_mem _ (mem_cons_of_mem _ hrest))
  | case2 arg d rest _ ih =>
    rcases mem_cons.mp h with rfl | hrest
    · exact Or.inl mem_cons_self
    · exact (ih hrest).imp_left (mem_cons_of_mem _)
  | case3 => exact absurd h not_mem_nil

lemma leaves_scripts : ∀ leaf ∈ leaves, leaf.cmd.fcgicmd = true →
    0 ∉ ascii leaf.cmd.command ∧ (ascii leaf.cmd.command).length ≤ 64 ∧
      47 ∈ ascii leaf.cmd.command := by
  simp only [leaves, firstLevel, cFilter, cInterface, cInterface2, cService, cService2,
    cServiceSync, filterReload, interfaceReload, aggregated, separate, levelLeaves, Command.leaves,
    map_cons, map_nil, cons_append, nil_append, append_nil, forall_mem_cons, not_mem_nil,
    false_imp_iff, implies_true, and_true, Bool.false_eq_true, forall_const, true_and]
  and_intros
  all_goals
    rw [ascii_eq rfl]
    exact of_decide_eq_true rfl

lemma leaves_formats : ∀ leaf ∈ leaves, ∀ format ∈ leaf.cmd.params, 0 ∉ ascii format := by
  decide +kernel

lemma nul_not_mem_expanded {leaf : Leaf} (hleaf : leaf ∈ leaves) {argv : Text}
    (hargv : 0 ∉ argv.bytes) : 0 ∉ (leaf.expanded argv).bytes := by
  intro h
  obtain ⟨c, hc, hzero⟩ := mem_map.mp h
  unfold Leaf.expanded at hc
  split at hc
  · exact absurd hc not_mem_nil
  · rename_i format hformat
    rcases mem_expandFormat hc with hmem | hmem
    · exact leaves_formats leaf hleaf format hformat (mem_map.mpr ⟨c, hmem, hzero⟩)
    · exact hargv (mem_map.mpr ⟨c, hmem, hzero⟩)

/-- What an entry for php-fpm holds: a script of the table and a parameter string, in their
buffers. -/
structure Sendable (command : String) (params : Text) : Prop where
  script : ∃ leaf ∈ leaves, leaf.cmd.fcgicmd = true ∧ leaf.cmd.command = command
  nul : 0 ∉ params.bytes
  cut : params.length < paramsSize

lemma sendable_newEntry {leaf : Leaf} (hleaf : leaf ∈ leaves) (hfcgi : leaf.cmd.fcgicmd = true)
    {argv : Text} (hargv : 0 ∉ argv.bytes) (aggregate id : ℕ) :
    Sendable (newEntry leaf argv aggregate id).command (newEntry leaf argv aggregate id).params where
  script := ⟨leaf, hleaf, hfcgi, rfl⟩
  nul h := by
    rw [newEntry, Text.bytes, map_take] at h
    exact nul_not_mem_expanded hleaf hargv (mem_of_mem_take h)
  cut := (length_take_le _ _).trans_lt (by decide)

/-- **What is sendable is sent as a request.**  The bytes fit the two buffers, and the rules of
FastCGI give back the four records and the intended pairs. -/
theorem Sendable.request {command : String} {params : Text} (h : Sendable command params)
    (requestId : ℕ) :
    ∃ dir name bs content, ascii command = dir ++ ascii "/" ++ name ∧ 47 ∉ name ∧
      fcgiRequest command params requestId = some bs ∧
      content.length < bufferSize ∧ bs.length ≤ bufferSize ∧
      decodeRecords bs = some (requestRecords requestId content) ∧
      decodePairs content = some (intendedPairs dir name params.bytes) := by
  obtain ⟨leaf, hleaf, hfcgi, rfl⟩ := h.script
  obtain ⟨hnul, hshort, hmem⟩ := leaves_scripts leaf hleaf hfcgi
  obtain ⟨dir, name, hscript, hname⟩ := exists_last_slash hmem
  rw [hscript] at hnul hshort
  have hcut : params.bytes.length < paramsSize := by
    rw [Text.bytes, length_map]
    exact h.cut
  have hlen := length_intendedPairs hshort hcut
  have hsb : ((intendedPairs dir name params.bytes).flatMap putPair).length < bufferSize :=
    hlen.trans_lt (by decide)
  have hbuf : (packet requestId ((intendedPairs dir name params.bytes).flatMap putPair)).length
      ≤ bufferSize := by
    rw [length_packet]
    exact (Nat.add_le_add_right hlen 40).trans (by decide)
  refine ⟨dir, name, packet requestId ((intendedPairs dir name params.bytes).flatMap putPair),
    (intendedPairs dir name params.bytes).flatMap putPair, by simp [hscript, ascii_slash], hname, ?_,
    hsb, hbuf, decodeRecords_packet requestId hsb, ?_⟩
  · simp only [fcgiRequest, hscript, strrchrSlash_eq hnul hname, Option.bind_eq_bind,
      Option.bind_some, requestParams_eq hnul hshort h.nul hcut, sbufFinish, if_pos hsb,
      if_pos hbuf]
  · refine decodePairs_flatMap fun p hp => ?_
    have hbound := length_of_mem_intendedPairs hshort hcut hp
    omega

/-- **Requests are well formed.**  For every command of the table that is sent to php-fpm and every
argument without NUL, what `fcgi_send_command` writes fits its two buffers, and is read by the rules
of FastCGI as one request: the four records with the low sixteen bits of the counter, and in the
second the intended pairs, with the expanded parameters cut at 255 bytes. -/
theorem fcgiRequest_wellFormed {leaf : Leaf} (hleaf : leaf ∈ leaves)
    (hfcgi : leaf.cmd.fcgicmd = true) {arg : List UInt8} (harg : 0 ∉ arg)
    (aggregate id requestId : ℕ) :
    ∃ dir name bs content, ascii leaf.cmd.command = dir ++ ascii "/" ++ name ∧ 47 ∉ name ∧
      fcgiRequest (newEntry leaf (Text.ofBytes arg) aggregate id).command
        (newEntry leaf (Text.ofBytes arg) aggregate id).params requestId = some bs ∧
      content.length < bufferSize ∧ bs.length ≤ bufferSize ∧
      decodeRecords bs = some (requestRecords requestId content) ∧
      decodePairs content = some (intendedPairs dir name
        ((leaf.expanded (Text.ofBytes arg)).bytes.take 255)) := by
  have hargv : 0 ∉ (Text.ofBytes arg).bytes := by rwa [Text.bytes_ofBytes]
  have hbytes : (newEntry leaf (Text.ofBytes arg) aggregate id).params.bytes
      = (leaf.expanded (Text.ofBytes arg)).bytes.take 255 := map_take
  rw [← hbytes]
  exact (sendable_newEntry hleaf hfcgi hargv aggregate id).request requestId

/-- `interface linkup start wan`, the 65537th request: its number is sent as `1`. -/
theorem fcgiRequest_wellFormed_linkup :
    ∃ leaf ∈ leaves, leaf.cmd.fcgicmd = true ∧ leaf.cmd.command = "/etc/rc.linkup" ∧
      ∃ dir name bs content, ascii leaf.cmd.command = dir ++ ascii "/" ++ name ∧ 47 ∉ name ∧
        fcgiRequest (newEntry leaf (Text.ofBytes (ascii "wan")) 0 0).command
          (newEntry leaf (Text.ofBytes (ascii "wan")) 0 0).params 65537 = some bs ∧
        content.length < bufferSize ∧ bs.length ≤ bufferSize ∧
        decodeRecords bs = some (requestRecords 65537 content) ∧
        decodePairs content = some (intendedPairs dir name
          ((leaf.expanded (Text.ofBytes (ascii "wan"))).bytes.take 255)) :=
  ⟨separate .IFNAME "start" "/etc/rc.linkup" (some "action=start&interface=%s")
      "Linkup starting %s", by decide +kernel, rfl, rfl,
    fcgiRequest_wellFormed (by decide +kernel) rfl (by decide +kernel) 0 0 65537⟩

/-! ## Every request of a run -/

/-- The queue and the output hold only what is sendable. -/
structure Sends (s : State) : Prop where
  queue : ∀ q ∈ s.cmds, q.fcgi = true → Sendable q.command q.params
  out : ∀ command params, Output.request command params ∈ s.out → Sendable command params

namespace Sends

variable {s : State} (h : Sends s)

include h

lemma update {q : Runq} (hq : q.fcgi = true → Sendable q.command q.params) : Sends (s.update q) where
  queue p hp := by
    rcases mem_update.mp hp with ⟨_, _, _, rfl⟩ | ⟨hp, _⟩
    · exact hq
    · exact h.queue p hp
  out := h.out

lemma remove (q : Runq) : Sends (s.remove q) :=
  ⟨fun p hp => h.queue p (mem_of_mem_filter hp), h.out⟩

lemma emit {o : Output} (ho : ∀ command params, o = .request command params →
    Sendable command params) : Sends (s.emit o) where
  queue := h.queue
  out command params hmem := by
    rcases mem_cons.mp hmem with heq | hmem
    · exact ho command params heq.symm
    · exact h.out command params hmem

lemma runCommand {leaf : Leaf} (hleaf : leaf ∈ leaves) {argv : Text} (hargv : 0 ∉ argv.bytes)
    (alloc : Bool) : Sends (runCommand leaf argv alloc s) := by
  unfold CheckReload.runCommand
  cases hw : walk leaf.cmd 0 s.cmds with
  | returned cmds =>
    obtain ⟨pre, q, post, heq, -, -, -, -, rfl⟩ := walk_returned (Nat.zero_le 1) hw
    refine ⟨fun p hp => ?_, h.out⟩
    have hqueue : ∀ r ∈ pre ++ q :: post, r.fcgi = true → Sendable r.command r.params :=
      heq ▸ h.queue
    simp only [mem_append, mem_cons] at hp hqueue
    rcases hp with hp | rfl | hp
    · exact hqueue p (Or.inl hp)
    · split_ifs
      · exact hqueue q (Or.inr (Or.inl rfl))
      · exact hqueue q (Or.inr (Or.inl rfl))
    · exact hqueue p (Or.inr (Or.inr hp))
  | through aggregate =>
    split_ifs
    · exact h
    · exact ⟨h.queue, h.out⟩
    · refine ⟨fun p hp hfcgi => ?_, h.out⟩
      rcases mem_cons.mp hp with rfl | hp
      · exact sendable_newEntry hleaf hfcgi hargv aggregate s.fresh
      · exact h.queue p hp hfcgi

lemma timeout {q : Runq} (hq : q ∈ s.cmds) (connects writes forks : Bool) :
    Sends (timeout q connects writes forks s) := by
  unfold CheckReload.timeout
  by_cases hf : q.fcgi = true
  · have hsend : Sendable q.command q.params := h.queue q hq hf
    have hcount : Sends { s with requestId := s.requestId + 1 } := ⟨h.queue, h.out⟩
    have hemit : Sends (State.emit { s with requestId := s.requestId + 1 }
        (.request q.command q.params)) := hcount.emit fun _ _ heq => by cases heq; exact hsend
    rw [if_pos hf, fcgiSendCommand]
    by_cases hd : q.dontexec = true
    · simpa [hd] using h.remove _
    · simp only [hd, Bool.false_eq_true, if_false]
      split_ifs
      · exact hcount.update fun _ => hsend
      · exact hemit.update fun _ => hsend
      · exact hemit.update fun _ => hsend
      · exact hemit.update fun _ => hsend
  · rw [runCommandDetailed]
    split_ifs
    · exact h.remove _
    · exact h.update fun hfcgi => absurd hfcgi hf
    · exact h.update fun hfcgi => absurd hfcgi hf
    · exact h.remove _

lemma socketReadFcgi {q : Runq} (hq : q ∈ s.cmds) (r : Record) : Sends (socketReadFcgi q r s) := by
  unfold CheckReload.socketReadFcgi
  split_ifs
  · exact h.remove q
  · exact h.update (h.queue q hq)
  · exact h

end Sends

/-- An event with an argument C can hold. -/
def Event.NulFree : Event → Prop
  | .request _ argv _ => 0 ∉ argv.bytes
  | _ => True

lemma Step.sends {s t : State} {e : Event} (h : Sends s) (hstep : Step s e t) (he : e.NulFree) :
    Sends t := by
  obtain ⟨hen, rfl⟩ := hstep
  cases e with
  | request leaf argv alloc =>
    have hok : Sends (s.emit (.ok leaf argv)) := h.emit fun _ _ heq => by cases heq
    exact hok.runCommand hen he alloc
  | timeout q connects writes forks => exact h.timeout hen.1 connects writes forks
  | record q r => exact h.socketReadFcgi hen.1 r

/-- **Every request the daemon has written is well formed**, with any number. -/
theorem run_requests_wellFormed {s : State} {es : List Event} (r : Run Step State.init es s)
    (hes : ∀ e ∈ es, e.NulFree) {command : String} {params : Text}
    (hout : .request command params ∈ s.out) (requestId : ℕ) :
    ∃ dir name bs content, ascii command = dir ++ ascii "/" ++ name ∧ 47 ∉ name ∧
      fcgiRequest command params requestId = some bs ∧
      content.length < bufferSize ∧ bs.length ≤ bufferSize ∧
      decodeRecords bs = some (requestRecords requestId content) ∧
      decodePairs content = some (intendedPairs dir name params.bytes) := by
  have hinit : Sends State.init := ⟨by simp [State.init], by simp [State.init]⟩
  have hrun : Run (fun s e t => Step s e t ∧ e.NulFree) State.init es s :=
    r.restrict fun es₁ e es₂ _ heq _ => hes e (by simp [heq])
  have hsends : Sends s := hrun.invariant (fun _ _ _ hs hstep => hstep.1.sends hs hstep.2) hinit
  exact (hsends.out command params hout).request requestId

theorem run_requests_wellFormed_filter :
    ∃ dir name bs content, ascii filterReload.cmd.command = dir ++ ascii "/" ++ name ∧ 47 ∉ name ∧
      fcgiRequest filterReload.cmd.command [] 1 = some bs ∧
      content.length < bufferSize ∧ bs.length ≤ bufferSize ∧
      decodeRecords bs = some (requestRecords 1 content) ∧
      decodePairs content = some (intendedPairs dir name []) := by
  have hrun := run_of_enabled (show EnabledAll State.init [.request filterReload [] true,
      .timeout (newEntry filterReload [] 0 0) true true true] by decide +kernel)
  exact run_requests_wellFormed hrun (by simp [Event.NulFree, Text.bytes])
    (show Output.request filterReload.cmd.command [] ∈ _ by decide +kernel) 1

end FreeSense.CheckReload
