import FreeSensePorts.PhpModule.Kill

/-!
# The destination mask of a kill request

The destination's length is read again for every source, from an argument that the first reading
has cut.  So the first source gets the mask of the length, and every later one the full mask it was
preset with.
-/

namespace FreeSense.PhpModule

open List hiding Vector

/-! ## Masks -/

def maskBit (mask : List UInt8) (j : ℕ) : Bool := (mask.getD (j / 8) 0).toNat.testBit (7 - j % 8)

/-- The first `n` of the bits of an address are set, and no others. -/
def MaskLength (width n : ℕ) (mask : List UInt8) : Prop :=
  ∀ j < width, maskBit mask j = decide (j < n)

theorem maskBit_mask4 {n j : ℕ} (mask : List UInt8) (hn : n ≤ 32) (hj : j < 32) :
    maskBit (mask4 n mask) j = decide (j < n) := by
  have hshift : ∀ i < 4, (mask4 n mask).getD i 0 =
      UInt8.ofNat (((0xffffffffff <<< (32 - n)) % 2 ^ 32) >>> (24 - 8 * i)) := by
    intro i hi
    interval_cases i <;> rfl
  rw [maskBit, hshift _ (by omega), UInt8.toNat_ofNat', show (0xffffffffff : ℕ) = 2 ^ 40 - 1 by rfl,
    Nat.testBit_mod_two_pow, Nat.testBit_shiftRight, Nat.testBit_mod_two_pow,
    Nat.testBit_shiftLeft, Nat.testBit_two_pow_sub_one]
  have hbit : 24 - 8 * (j / 8) + (7 - j % 8) = 31 - j := by omega
  rw [hbit]
  simp only [decide_eq_true (show 7 - j % 8 < 8 by omega), decide_eq_true (show 31 - j < 32 by omega),
    decide_eq_true (show 31 - j - (32 - n) < 40 by omega), Bool.true_and, Bool.and_true]
  exact decide_eq_decide.2 (by omega)

theorem maskBit_mask6 {n j : ℕ} (hj : j < 128) :
    maskBit (mask6 n) j = decide (j < n) := by
  have hbyte : (mask6 n).getD (j / 8) 0 = if j / 8 < n / 8 then 0xff
      else if j / 8 = n / 8 ∧ 0 < n % 8 then UInt8.ofNat (0xff00 >>> (n % 8) &&& 0xff) else 0 := by
    rw [mask6, getD_eq_getElem?_getD, getElem?_map,
      getElem?_range (by omega : j / 8 < 16)]
    rfl
  -- the byte where the length ends: a table of eight times eight bits
  have hlast : ∀ r < 8, ∀ k < 8,
      (UInt8.ofNat (0xff00 >>> r &&& 0xff)).toNat.testBit (7 - k) = decide (k < r) := by decide
  have hfull : ∀ k < 8, (0xff : UInt8).toNat.testBit (7 - k) = true := by decide
  rw [maskBit, hbyte]
  split_ifs with hbefore hat
  · rw [hfull _ (by omega)]
    exact (decide_eq_true (by omega)).symm
  · rw [hlast _ (by omega) _ (by omega)]
    exact decide_eq_decide.2 (by omega)
  · exact (Nat.zero_testBit _).trans (decide_eq_false (by omega)).symm

theorem maskLength_ones {width n : ℕ} (hwidth : width ≤ 128) (hn : n ≤ width) :
    MaskLength width n ones ↔ n = width := by
  have hbit : ∀ j < 128, maskBit ones j = true := by decide
  constructor
  · intro hmask
    by_contra hne
    have := (hbit n (by omega)).symm.trans (hmask n (by omega))
    simp at this
  · rintro rfl j hj
    rw [hbit j (by omega), decide_eq_true hj]

/-! ## Arguments -/

/-- A destination argument `address/length`. -/
structure Destination (lib : Resolver) (ip2 : Text) (d : Inet) (n : ℕ) : Prop where
  slash : '/' ∈ ip2
  length : strtonum 0 128 (lengthPart ip2) = .ok n
  bound : n ≤ d.width
  /-- A numeric address stands for itself, once or repeated. -/
  resolved : ∃ scope copies, (∀ c ∈ copies, c = d.info scope) ∧
    ∀ numeric, lib.getaddrinfo numeric (hostPart ip2) = .ok (d.info scope, copies)

/-- The families of the entries for which the loop looks at the destination. -/
def handled : List UInt8 → List AddrInfo → List ℕ
  | _, [] => []
  | last, ⟨_, none⟩ :: infos => handled last infos
  | last, ⟨family, some bytes⟩ :: infos =>
    if bytes.take 16 = last then handled last infos
    else if family = afInet ∨ family = afInet6 then family :: handled (bytes.take 16) infos
    else handled (bytes.take 16) infos

variable {lib : Resolver} {ip1 ip2 : Text} {d : Inet} {n : ℕ} {scope : Vector UInt8 4}

/-- The mask of a destination argument. -/
def Inet.mask (n : ℕ) : Inet → List UInt8
  | .v4 _ => mask4 n ones
  | .v6 _ => mask6 n

theorem maskLength_mask (hn : n ≤ d.width) : MaskLength d.width n (d.mask n) := by
  cases d with
  | v4 addr => exact fun j hj => maskBit_mask4 ones hn hj
  | v6 addr => exact fun j hj => maskBit_mask6 hj

theorem Inet.family_cases (d : Inet) : d.family = afInet ∨ d.family = afInet6 := by
  cases d with
  | v4 addr => exact .inl rfl
  | v6 addr => exact .inr rfl

theorem Destination.first (hd : Destination lib ip2 d n) :
    addrprefixOf lib ip2 ones = ⟨true, hostPart ip2, d.mask n, []⟩ := by
  obtain ⟨scope, copies, -, hres⟩ := hd.resolved
  have hbound := hd.bound
  have hslash : ip2.all (· ≠ '/') = false := by
    simpa using hd.slash
  rw [addrprefixOf, hslash, if_neg Bool.false_ne_true]
  dsimp only
  rw [hd.length, hres]
  cases d with
  | v4 addr =>
    have hle : ¬ (32 : ℤ) < n := by
      simp only [Inet.width] at hbound
      omega
    simp [Inet.info, Inet.family, Inet.mask, afInet, afInet6, hle]
  | v6 addr =>
    have hle : ¬ (128 : ℤ) < n := by
      simp only [Inet.width] at hbound
      omega
    simp [Inet.info, Inet.family, Inet.mask, afInet, afInet6, hle]

/-- Once it is cut, the argument has no length any more. -/
theorem addrprefixOf_hostPart (mask : List UInt8) :
    addrprefixOf lib (hostPart ip2) mask = ⟨true, hostPart ip2, mask, []⟩ := by
  have hnone : (hostPart ip2).all (· ≠ '/') = true := all_takeWhile
  rw [addrprefixOf, hnone, if_pos rfl]

/-! ## The requests of one source -/

section

variable {μ : Type} {kernel : Kernel μ} {killer : Killer μ} {w : Work μ} {infos : List AddrInfo}

/-- Between the two, requests were issued with the mask that the first one holds. -/
structure Issues (w w' : Work μ) (new : List (Kill × μ)) : Prop where
  requests : w'.requests = w.requests ++ new
  ip2 : w'.ip2 = w.ip2
  lastSrc : w'.lastSrc = w.lastSrc
  af : w'.kill.af = w.kill.af
  mask : w'.kill.dstMask = w.kill.dstMask
  each : ∀ r ∈ new, r.1.af = w.kill.af ∧ r.1.dstMask = w.kill.dstMask

theorem Issues.refl (w : Work μ) : Issues w w [] :=
  ⟨(append_nil _).symm, rfl, rfl, rfl, rfl, fun _ h => absurd h not_mem_nil⟩

theorem Issues.trans {w w' w'' : Work μ} {new new' : List (Kill × μ)} (h : Issues w w' new)
    (h' : Issues w' w'' new') : Issues w w'' (new ++ new') where
  requests := by rw [h'.requests, h.requests, append_assoc]
  ip2 := h'.ip2.trans h.ip2
  lastSrc := h'.lastSrc.trans h.lastSrc
  af := h'.af.trans h.af
  mask := h'.mask.trans h.mask
  each := by
    intro r hr
    rcases mem_append.1 hr with hr | hr
    · exact h.each r hr
    · exact ⟨(h'.each r hr).1.trans h.af, (h'.each r hr).2.trans h.mask⟩

theorem issues_request (m : μ) : Issues w (request kernel killer w m).1 [(w.kill, m)] := by
  rw [request]
  split_ifs <;> exact ⟨rfl, rfl, rfl, rfl, rfl, by simp⟩

theorem lastDst_request (m : μ) : (request kernel killer w m).1.lastDst = w.lastDst := by
  rw [request]
  split_ifs <;> rfl

theorem issues_requestAll (w : Work μ) :
    ∃ new, Issues w (requestAll kernel killer w) new ∧ (new = [] ↔ killer.marks = []) ∧
      (requestAll kernel killer w).lastDst = w.lastDst := by
  rw [requestAll]
  generalize killer.marks = marks
  induction marks generalizing w with
  | nil => exact ⟨[], .refl w, by simp, rfl⟩
  | cons m marks ih =>
    obtain ⟨new, hnew, -, hlast⟩ := ih (request kernel killer w m).1
    exact ⟨_, (issues_request m).trans hnew, by simp, hlast.trans (lastDst_request m)⟩

theorem setDestination_issues (bytes : List UInt8)
    (haf : w.kill.af = afInet ∨ w.kill.af = afInet6) :
    ∃ w', setDestination w bytes = some w' ∧ Issues w w' [] ∧ w'.lastDst = w.lastDst := by
  rw [setDestination]
  split_ifs with h₁ h₂
  · exact ⟨_, rfl, ⟨(append_nil _).symm, rfl, rfl, rfl, rfl, by simp⟩, rfl⟩
  · exact ⟨_, rfl, ⟨(append_nil _).symm, rfl, rfl, rfl, rfl, by simp⟩, rfl⟩
  · exact absurd haf (not_or.2 ⟨h₁, h₂⟩)

/-- The destination's own entry, where it has the family of the source. -/
theorem dstStep_issues (kernel : Kernel μ) (hmarks : killer.marks ≠ []) (haf : w.kill.af = d.family)
    (hlast : (d.sockaddr scope).take 16 ≠ w.lastDst) :
    ∃ new, Issues w (dstStep kernel killer w (d.info scope)) new ∧ new ≠ [] ∧
      (dstStep kernel killer w (d.info scope)).lastDst = (d.sockaddr scope).take 16 := by
  obtain ⟨w₁, hset, hw₁, hlast₁⟩ := setDestination_issues (d.sockaddr scope)
    (w := { w with lastDst := (d.sockaddr scope).take 16 }) (haf ▸ d.family_cases)
  obtain ⟨new, hnew, hne, hlast₂⟩ := @issues_requestAll μ kernel killer w₁
  have hstep : dstStep kernel killer w (d.info scope) = requestAll kernel killer w₁ := by
    simp only [dstStep, Inet.info, haf, ne_eq, not_true_eq_false, if_false, if_neg hlast, hset]
  rw [hstep]
  have hfirst : Issues w w₁ [] := ⟨hw₁.requests, hw₁.ip2, hw₁.lastSrc, hw₁.af, hw₁.mask, by simp⟩
  exact ⟨_, hfirst.trans hnew, by simpa [hne] using hmarks, hlast₂.trans hlast₁⟩

theorem dstStep_of_family (info : AddrInfo) (h : w.kill.af ≠ info.family) :
    dstStep kernel killer w info = w := by
  rw [dstStep]
  cases info.addr with
  | none => rfl
  | some bytes => exact if_pos h

theorem dstStep_of_last (h : (d.sockaddr scope).take 16 = w.lastDst) :
    dstStep kernel killer w (d.info scope) = w := by
  simp [dstStep, Inet.info, h]

theorem foldl_const {α β : Type} {f : β → α → β} {b : β} {l : List α} (h : ∀ a ∈ l, f b a = b) :
    l.foldl f b = b := by
  induction l with
  | nil => rfl
  | cons a l ih =>
    rw [foldl_cons, h a mem_cons_self]
    exact ih fun a ha => h a (mem_cons_of_mem _ ha)

theorem take_sockaddr_ne (d : Inet) : (d.sockaddr scope).take 16 ≠ ones := by
  intro h
  have hhead := congrArg List.head? h
  cases d with
  | v4 addr => simp [Inet.sockaddr, ones] at hhead
  | v6 addr => simp [Inet.sockaddr, ones] at hhead

/-- The inner loop over a numeric destination, once or repeated. -/
theorem dstLoop_issues {copies : List AddrInfo} (kernel : Kernel μ)
    (hmarks : killer.marks ≠ []) (hcopies : ∀ c ∈ copies, c = d.info scope) (hlast : w.lastDst = ones) :
    ∃ new, Issues w (dstLoop kernel killer (d.info scope :: copies) w) new ∧
      (new ≠ [] ↔ w.kill.af = d.family) := by
  rw [dstLoop, foldl_cons]
  by_cases haf : w.kill.af = d.family
  · have hfresh : (d.sockaddr scope).take 16 ≠ w.lastDst := hlast ▸ take_sockaddr_ne d
    obtain ⟨new, hnew, hne, hlast'⟩ := dstStep_issues kernel hmarks haf hfresh
    have hrest : ∀ c ∈ copies, dstStep kernel killer (dstStep kernel killer w (d.info scope)) c =
        dstStep kernel killer w (d.info scope) := by
      intro c hc
      rw [hcopies c hc]
      exact dstStep_of_last hlast'.symm
    rw [foldl_const hrest]
    exact ⟨new, hnew, iff_of_true hne haf⟩
  · rw [dstStep_of_family (d.info scope) haf,
      foldl_const fun c hc => (hcopies c hc) ▸ dstStep_of_family (d.info scope) haf]
    exact ⟨[], .refl w, iff_of_false (by simp) haf⟩

/-- A source with a destination: the mask is the one the argument gives at that time, and the
argument is cut. -/
theorem withDst_issues {mask : List UInt8} (kernel : Kernel μ) (hmarks : killer.marks ≠ [])
    (hd : Destination lib ip2 d n)
    (hip : addrprefixOf lib w.ip2 ones = ⟨true, hostPart ip2, mask, []⟩) :
    ∃ w' new, withDst lib kernel killer w = (w', .next) ∧ w'.requests = w.requests ++ new ∧
      w'.ip2 = hostPart ip2 ∧ w'.lastSrc = w.lastSrc ∧ (∀ r ∈ new, r.1.dstMask = mask) ∧
      (new ≠ [] ↔ w.kill.af = d.family) := by
  obtain ⟨scope, copies, hcopies, hres⟩ := hd.resolved
  let w₀ : Work μ := { w with
    ip2 := hostPart ip2, lastDst := ones, kill := { w.kill with dstMask := mask },
    output := w.output ++ [] }
  obtain ⟨new, hnew, hne⟩ := dstLoop_issues kernel (w := w₀) hmarks hcopies rfl
  refine ⟨_, new, ?_, hnew.requests, hnew.ip2, hnew.lastSrc, fun r hr => (hnew.each r hr).2, hne⟩
  simp only [withDst, hip, Work.print, if_true, hres]
  rfl

/-! ## Whole runs -/

/-- An entry of the outer loop is passed over, or it reaches the destination. -/
theorem srcStep_cases (lib : Resolver) (kernel : Kernel μ) (killer : Killer μ) (w : Work μ)
    (info : AddrInfo) (infos : List AddrInfo) :
    ∃ w', w'.ip2 = w.ip2 ∧ w'.requests = w.requests ∧
      ((srcStep lib kernel killer true w info = (w', .next) ∧
        handled w.lastSrc (info :: infos) = handled w'.lastSrc infos) ∨
      (srcStep lib kernel killer true w info = withDst lib kernel killer w' ∧
        handled w.lastSrc (info :: infos) = w'.kill.af :: handled w'.lastSrc infos)) := by
  obtain ⟨family, _ | bytes⟩ := info
  · exact ⟨w, rfl, rfl, .inl ⟨rfl, rfl⟩⟩
  · rw [handled, srcStep]
    dsimp only
    by_cases hlast : bytes.take 16 = w.lastSrc
    · rw [if_pos hlast, if_pos hlast]
      exact ⟨w, rfl, rfl, .inl ⟨rfl, rfl⟩⟩
    · rw [if_neg hlast, if_neg hlast, setSource]
      by_cases h₁ : family = afInet
      · rw [if_pos h₁, if_pos (.inl h₁)]
        refine ⟨_, ?_, ?_, .inr ⟨rfl, rfl⟩⟩ <;> rfl
      · by_cases h₂ : family = afInet6
        · rw [if_neg h₁, if_pos h₂, if_pos (.inr h₂)]
          refine ⟨_, ?_, ?_, .inr ⟨rfl, rfl⟩⟩ <;> rfl
        · rw [if_neg h₁, if_neg h₂, if_neg (not_or.2 ⟨h₁, h₂⟩)]
          refine ⟨_, ?_, ?_, .inl ⟨rfl, rfl⟩⟩ <;> rfl

/-- With the argument cut, every source gets the full mask. -/
theorem srcLoop_cut (kernel : Kernel μ) (infos : List AddrInfo) (hmarks : killer.marks ≠ [])
    (hd : Destination lib ip2 d n) (hip : w.ip2 = hostPart ip2) :
    ∃ new, (srcLoop lib kernel killer true infos w).1.requests = w.requests ++ new ∧
      (∀ r ∈ new, r.1.dstMask = ones) ∧ (new ≠ [] ↔ d.family ∈ handled w.lastSrc infos) := by
  induction infos generalizing w with
  | nil => exact ⟨[], by simp [srcLoop], by simp, by simp [handled]⟩
  | cons info infos ih =>
    obtain ⟨w₁, hip₁, hreq₁, hcase⟩ := srcStep_cases lib kernel killer w info infos
    rw [srcLoop]
    rcases hcase with ⟨hstep, hhandled⟩ | ⟨hstep, hhandled⟩
    · rw [hstep, hhandled, ← hreq₁]
      exact ih (hip₁.trans hip)
    · obtain ⟨w₂, new, hwith, hreq, hip₂, hlast, hmask, hne⟩ := withDst_issues (w := w₁) kernel
        hmarks hd (by rw [hip₁, hip]; exact addrprefixOf_hostPart ones)
      obtain ⟨new', hreq', hmask', hne'⟩ := ih hip₂
      rw [hstep, hwith, hhandled]
      refine ⟨new ++ new', ?_, ?_, ?_⟩
      · rw [← hreq₁, ← append_assoc, ← hreq]
        exact hreq'
      · intro r hr
        exact (mem_append.1 hr).elim (hmask r) (hmask' r)
      · rw [← hlast, mem_cons, eq_comm, Ne, append_eq_nil_iff]
        tauto

/-- The first source that reaches the destination gets the mask of the length. -/
theorem srcLoop_issues (kernel : Kernel μ) (infos : List AddrInfo) (hmarks : killer.marks ≠ [])
    (hd : Destination lib ip2 d n) (hip : w.ip2 = ip2) :
    ∃ new later, (srcLoop lib kernel killer true infos w).1.requests = w.requests ++ new ++ later ∧
      (∀ r ∈ new, r.1.dstMask = d.mask n) ∧ (∀ r ∈ later, r.1.dstMask = ones) ∧
      (later ≠ [] ↔ d.family ∈ (handled w.lastSrc infos).tail) := by
  induction infos generalizing w with
  | nil => exact ⟨[], [], by simp [srcLoop], by simp, by simp, by simp [handled]⟩
  | cons info infos ih =>
    obtain ⟨w₁, hip₁, hreq₁, hcase⟩ := srcStep_cases lib kernel killer w info infos
    rw [srcLoop]
    rcases hcase with ⟨hstep, hhandled⟩ | ⟨hstep, hhandled⟩
    · rw [hstep, hhandled, ← hreq₁]
      exact ih (hip₁.trans hip)
    · obtain ⟨w₂, new, hwith, hreq, hip₂, hlast, hmask, -⟩ := withDst_issues (w := w₁) kernel
        hmarks hd (by rw [hip₁, hip]; exact hd.first)
      obtain ⟨later, hreq', hmask', hne'⟩ := srcLoop_cut kernel infos hmarks hd hip₂
      rw [hstep, hwith, hhandled]
      refine ⟨new, later, ?_, hmask, hmask', ?_⟩
      · rw [← hreq₁, ← hreq]
        exact hreq'
      · rw [← hlast]
        exact hne'

theorem killBy_masks_iff {output : Text} (kernel : Kernel μ) (hmarks : killer.marks ≠ [])
    (hs : Source lib ip1 infos) (hd : Destination lib ip2 d n) :
    (∀ r ∈ (killBy lib kernel killer ip1 ip2 true output).1.requests,
        MaskLength d.width n r.1.dstMask) ↔
      n = d.width ∨ d.family ∉ (handled ones infos).tail := by
  obtain ⟨new, later, hreq, hnew, hlater, hne⟩ :=
    srcLoop_issues (w := start lib ip1 ip2 output) kernel infos hmarks hd rfl
  have hwidth : d.width ≤ 128 := by
    cases d with
    | v4 addr => exact (by decide : 32 ≤ 128)
    | v6 addr => exact le_rfl
  rw [killBy_eq kernel ip2 true output hs, hreq]
  constructor
  · intro hall
    by_cases hlast : later = []
    · exact .inr fun hmem => hne.2 hmem hlast
    · obtain ⟨r, hr⟩ := exists_mem_of_ne_nil _ hlast
      have hmask := hall r (mem_append_right _ hr)
      rw [hlater r hr] at hmask
      exact .inl ((maskLength_ones hwidth hd.bound).1 hmask)
  · intro hcond r hr
    rcases mem_append.1 hr with hr | hr
    · rw [hnew r (by simpa [start] using hr)]
      exact maskLength_mask hd.bound
    · rw [hlater r hr]
      refine (maskLength_ones hwidth hd.bound).2 (hcond.resolve_right fun hnot => hnot ?_)
      exact hne.1 (ne_nil_of_mem hr)

end

/-- **The destination's length holds for every request** exactly where it is the full length, or
where no source but the first that is handled has the destination's family. -/
theorem destination_mask_iff (lib : Resolver) (states : Kernel StatesMark) (nodes : Kernel Unit)
    (ip1 ip2 : Text) (iface proto : Option Text) (infos : List AddrInfo) (d : Inet) (n : ℕ)
    (hs : Source lib ip1 infos) (hd : Destination lib ip2 d n) :
    ((∀ r ∈ (killStates lib states ip1 (some ip2) iface proto).1.requests,
        MaskLength d.width n r.1.dstMask) ∧
      ∀ r ∈ (killSrcstates lib nodes ip1 (some ip2)).1.requests,
        MaskLength d.width n r.1.dstMask) ↔
      n = d.width ∨ d.family ∉ (handled ones infos).tail := by
  have hsome : (decide ((some ip2).getD [] ≠ [])) = true :=
    decide_eq_true (ne_nil_of_mem hd.slash)
  have hmarks : (statesKiller iface proto).marks ≠ [] := cons_ne_nil _ _
  rw [killStates, killSrcstates, hsome, Option.isSome_some, Option.getD_some, killBy_masks_iff states hmarks hs hd,
    killBy_masks_iff nodes (cons_ne_nil _ _) hs hd, and_self]

/-! ## Two sources -/

def netAddr : Inet := .v4 #v[192, 0, 2, 0]

def twoSources : Resolver where
  getaddrinfo _ host :=
    if host = "host".toList then
      .ok (Inet.info 0 (.v4 #v[10, 0, 0, 1]), [Inet.info 0 (.v4 #v[10, 0, 0, 2])])
    else .ok (Inet.info 0 netAddr, [])

theorem destination_twoSources (length : Text) (n : ℕ) (hn : n ≤ 32)
    (hlength : lengthPart ("192.0.2.0/".toList ++ length) = length)
    (hhost : hostPart ("192.0.2.0/".toList ++ length) = "192.0.2.0".toList)
    (hnum : strtonum 0 128 length = .ok n) :
    Destination twoSources ("192.0.2.0/".toList ++ length) netAddr n where
  slash := mem_append_left _ (by decide)
  length := by rw [hlength, hnum]
  bound := hn
  resolved := ⟨0, [], by simp, fun _ => by rw [hhost]; rfl⟩

theorem source_twoSources : Source twoSources "host".toList
    [Inet.info 0 (.v4 #v[10, 0, 0, 1]), Inet.info 0 (.v4 #v[10, 0, 0, 2])] where
  accepted := rfl
  resolved := ⟨_, _, rfl, rfl⟩

/-- A destination without a shorter length. -/
theorem destination_mask_iff_full :
    (∀ r ∈ (killStates twoSources (fun _ _ => true) "host".toList
        (some ("192.0.2.0/".toList ++ "32".toList)) none none).1.requests,
        MaskLength 32 32 r.1.dstMask) ∧
      ∀ r ∈ (killSrcstates twoSources (fun _ _ => true) "host".toList
        (some ("192.0.2.0/".toList ++ "32".toList))).1.requests, MaskLength 32 32 r.1.dstMask :=
  (destination_mask_iff twoSources (fun _ _ => true) (fun _ _ => true) "host".toList _ none none _
    netAddr 32 source_twoSources (destination_twoSources "32".toList 32 le_rfl rfl rfl rfl)).2
      (.inl rfl)

/-- The second of two sources is killed for the destination's address alone. -/
theorem second_mask_full :
    ((killStates twoSources (fun _ _ => true) "host".toList
      (some ("192.0.2.0/".toList ++ "24".toList)) none none).1.requests.map fun r => r.1.dstMask) =
      [mask4 24 ones, mask4 24 ones, ones, ones] ∧ ¬ MaskLength 32 24 ones := by
  refine ⟨by decide, fun hmask => ?_⟩
  have hlast := hmask 24 (by decide)
  exact absurd hlast (by decide)

end FreeSense.PhpModule
