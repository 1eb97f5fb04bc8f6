import FreeSensePorts.Filterlog.Ip6Opts

/-!
# Printing options stays in the buffer

The walk looks at an option only after it has seen that the whole of it is in the buffer.  What the
printer of an option reads then lies inside the option, the sub-options included, and every pass
goes on by at least one byte.
-/

namespace FreeSense.Filterlog

open Printer

variable {mem : Memory} {ntop : Ntop6} {bp len i optlen kind fuel : ℕ}
  {handle : ℕ → ℕ → ℕ → Printer (Option Bool)}

/-- An option that the walk hands to its printer. -/
structure OptionAt (mem : Memory) (bp len i optlen kind : ℕ) : Prop where
  kind_eq : kind = (mem (bp + i)).toNat
  inside : i + optlen ≤ len
  size : kind = ip6optPad1 ∧ optlen = 1 ∨
    kind ≠ ip6optPad1 ∧ optlen = (mem (bp + i + 1)).toNat + 2

theorem OptionAt.pos (h : OptionAt mem bp len i optlen kind) : 0 < optlen := by
  rcases h.size with ⟨-, hlen⟩ | ⟨-, hlen⟩ <;> omega

/-! ## The walk -/

theorem within_optionLength :
    Within bp (bp + len) (optionLength mem bp len i kind) := by
  rw [optionLength]
  split_ifs with hpad hnext
  · simp
  · simp only [within_bind, within_byte, within_pure, and_true]
    omega
  · simp

theorem value_optionLength (h : (optionLength mem bp len i kind).value = some optlen) :
    kind = ip6optPad1 ∧ optlen = 1 ∨ kind ≠ ip6optPad1 ∧ optlen = (mem (bp + i + 1)).toNat + 2 := by
  rw [optionLength] at h
  split_ifs at h with hpad hnext
  · exact .inl ⟨hpad, (Option.some_inj.1 h).symm⟩
  · exact .inr ⟨hpad, (Option.some_inj.1 h).symm⟩

/-- If the printers of the options stay in the buffer, the walk does. -/
theorem within_optionWalk (hhandle : ∀ i optlen kind, OptionAt mem bp len i optlen kind →
    Within bp (bp + len) (handle i optlen kind)) :
    Within bp (bp + len) (optionWalk handle mem bp len fuel i) := by
  induction fuel generalizing i with
  | zero => simp [optionWalk]
  | succ fuel ih =>
    rw [optionWalk]
    split_ifs with hend
    · simp
    · rw [within_bind, within_bind, within_byte]
      refine ⟨by omega, within_optionLength, ?_⟩
      cases hlen : (optionLength mem bp len i (byte mem (bp + i)).value).value with
      | none => simp
      | some optlen =>
        dsimp only
        split_ifs with hlong
        · simp
        · have hopt : OptionAt mem bp len i optlen (byte mem (bp + i)).value :=
            ⟨rfl, by omega, value_optionLength hlen⟩
          rw [within_bind]
          refine ⟨hhandle _ _ _ hopt, ?_⟩
          split
          · exact ih
          · simp

/-- If the printers of the options end, the walk does, for each pass goes on by a byte at least. -/
theorem isSome_optionWalk (hhandle : ∀ i optlen kind, OptionAt mem bp len i optlen kind →
    (handle i optlen kind).value.isSome = true) (hfuel : len ≤ i + fuel) :
    (optionWalk handle mem bp len fuel i).value.isSome = true := by
  induction fuel generalizing i with
  | zero => simp [optionWalk, show len ≤ i by omega]
  | succ fuel ih =>
    rw [optionWalk]
    split_ifs with hend
    · simp
    · rw [value_bind, value_bind]
      cases hlen : (optionLength mem bp len i (byte mem (bp + i)).value).value with
      | none => simp
      | some optlen =>
        dsimp only
        split_ifs with hlong
        · simp
        · have hopt : OptionAt mem bp len i optlen (byte mem (bp + i)).value :=
            ⟨rfl, by omega, value_optionLength hlen⟩
          have hpos := hopt.pos
          rw [value_bind]
          split
          · exact ih (by omega)
          · exact hhandle _ _ _ hopt

section

variable {lo hi : ℕ} {short : Prop} [Decidable short] {t : Text} {rest : Printer (Option Bool)}

@[simp] theorem within_unlessShort :
    Within lo hi (unlessShort (decide short) t rest) ↔ (¬ short → Within lo hi rest) := by
  by_cases h : short <;> simp [unlessShort, h]

@[simp] theorem within_done : Within lo hi (done t) := by
  simp [done]

theorem isSome_unlessShort (h : rest.value.isSome = true) :
    (unlessShort (decide short) t rest).value.isSome = true := by
  by_cases hs : short <;> simp [unlessShort, hs, h]

end

/-! ## Sub-options -/

theorem within_soptCase : Within bp (bp + len) (soptCase ntop mem bp len i optlen kind) := by
  rw [soptCase]
  split_ifs
  · exact within_done
  · simp
  · rw [within_unlessShort, within_bind, within_extract16Bits, ip6soptUiMinlen]
    exact fun hshort => ⟨by omega, within_done⟩
  · rw [within_unlessShort, within_bind, within_block, ip6soptAltcoaMinlen]
    exact fun hshort => ⟨by omega, within_done⟩
  · rw [within_unlessShort, within_bind, within_extract32Bits, ip6soptAuthMinlen]
    exact fun hshort => ⟨by omega, within_done⟩
  · rw [within_unlessShort, within_bind, within_byte, ip6optMinlen]
    exact fun hshort => ⟨by omega, within_done⟩

theorem within_ip6SoptPrint : Within bp (bp + len) (ip6SoptPrint ntop mem fuel bp len) := by
  rw [ip6SoptPrint, within_bind]
  refine ⟨within_optionWalk fun i optlen kind _ => within_soptCase, ?_⟩
  split <;> simp

theorem isSome_soptCase (ntop : Ntop6) (mem : Memory) (bp len i optlen kind : ℕ) :
    (soptCase ntop mem bp len i optlen kind).value.isSome = true := by
  rw [soptCase]
  split_ifs
  · rfl
  all_goals exact isSome_unlessShort rfl

theorem value_ip6SoptPrint (hfuel : len ≤ fuel) :
    (ip6SoptPrint ntop mem fuel bp len).value = some () := by
  have hsome : (optionWalk (soptCase ntop mem bp len) mem bp len fuel 0).value.isSome = true :=
    isSome_optionWalk (fun i optlen kind _ => isSome_soptCase ntop mem bp len i optlen kind)
      (by omega)
  rw [ip6SoptPrint, value_bind]
  cases hwalk : (optionWalk (soptCase ntop mem bp len) mem bp len fuel 0).value with
  | none => simp [hwalk] at hsome
  | some ended => cases ended <;> rfl

/-! ## Options -/

variable {minlen l p n : ℕ} {fixed : Printer Unit}

theorem within_subOptions (hmin : 2 ≤ minlen) (hlen : optlen = l + 2) :
    Within (bp + i) (bp + i + optlen) (subOptions ntop mem fuel bp i minlen optlen l) := by
  rw [subOptions]
  split_ifs with hmore
  · rw [within_bind]
    refine ⟨?_, by simp⟩
    exact within_ip6SoptPrint.mono (by omega) (by omega)
  · simp

theorem isSome_subOptions (hfuel : optlen ≤ fuel) :
    (subOptions ntop mem fuel bp i minlen optlen l).value.isSome = true := by
  rw [subOptions]
  split_ifs with hmore
  · rw [value_bind, value_ip6SoptPrint (by omega)]
    rfl
  · rfl

theorem within_atLeast {invalid : Text} (hmin : 2 ≤ minlen)
    (hlen : optlen = (mem (bp + i + 1)).toNat + 2)
    (hfixed : minlen ≤ optlen → Within (bp + i) (bp + i + optlen) fixed) :
    Within (bp + i) (bp + i + optlen)
      (atLeast ntop mem fuel bp i minlen optlen invalid fixed) := by
  rw [atLeast, within_bind, within_byte]
  refine ⟨by omega, ?_⟩
  split_ifs with hshort
  · simp
  · rw [value_byte] at hshort
    rw [within_bind]
    exact ⟨hfixed (by omega), within_subOptions hmin hlen⟩

theorem isSome_atLeast {invalid : Text} (hfuel : optlen ≤ fuel) :
    (atLeast ntop mem fuel bp i minlen optlen invalid fixed).value.isSome = true := by
  rw [atLeast, value_bind]
  split_ifs with hshort
  · rfl
  · exact isSome_subOptions hfuel

theorem within_exactly {size : ℕ} {invalid : Text} {rest : Printer (Option Bool)}
    (hlen : optlen = (mem (bp + i + 1)).toNat + 2)
    (hrest : optlen = size - 2 + 2 → Within (bp + i) (bp + i + optlen) rest) :
    Within (bp + i) (bp + i + optlen) (exactly mem bp i size invalid rest) := by
  rw [exactly, within_bind, within_byte]
  refine ⟨by omega, ?_⟩
  split_ifs with hother
  · simp
  · rw [value_byte] at hother
    exact hrest (by omega)

theorem isSome_exactly {size : ℕ} {invalid : Text} {rest : Printer (Option Bool)}
    (h : rest.value.isSome = true) : (exactly mem bp i size invalid rest).value.isSome = true := by
  rw [exactly, value_bind]
  split_ifs
  · rfl
  · exact h

theorem within_homeAddress (h : 18 ≤ n) : Within p (p + n) (homeAddress ntop mem p) := by
  simp only [homeAddress, within_bind, within_block, within_emit, and_true]
  omega

theorem within_bindingUpdate (h : 10 ≤ n) : Within p (p + n) (bindingUpdate mem p) := by
  have hreserved (flags : ℕ) : Within p (p + n) (reservedBits mem p flags) := by
    rw [reservedBits]
    split_ifs
    · simp
    · simp only [within_bind, within_byte]
      refine ⟨by omega, ?_⟩
      split_ifs
      · simp
      · simp only [within_bind, within_byte, within_pure, and_true]
        omega
  simp only [bindingUpdate, within_bind, within_byte, within_emit, within_extract32Bits, hreserved,
    true_and, and_true]
  omega

theorem within_bindingAck (h : 13 ≤ n) : Within p (p + n) (bindingAck mem p) := by
  simp only [bindingAck, within_bind, within_byte, within_emit, within_extract32Bits, true_and,
    and_true]
  omega

/-- What is printed for an option is read from the option. -/
theorem within_optCase (h : OptionAt mem bp len i optlen kind) :
    Within (bp + i) (bp + i + optlen) (optCase ntop mem fuel bp len i optlen kind) := by
  rw [optCase]
  by_cases hpad : kind = ip6optPad1
  · rw [if_pos hpad]
    exact within_done
  have hlen := (h.size.resolve_left fun hp => hpad hp.1).2
  split_ifs
  · simp
  · exact within_unlessShort.2 fun _ => within_exactly hlen fun hsize => by
      simp only [within_bind, within_extract16Bits, within_done, and_true, ip6optRtalertLen] at *
      omega
  · exact within_unlessShort.2 fun _ => within_exactly hlen fun hsize => by
      simp only [within_bind, within_extract32Bits, within_done, and_true, ip6optJumboLen] at *
      omega
  · exact within_unlessShort.2 fun _ => within_atLeast (by decide) hlen within_homeAddress
  · exact within_unlessShort.2 fun _ => within_atLeast (by decide) hlen within_bindingUpdate
  · exact within_unlessShort.2 fun _ => within_atLeast (by decide) hlen within_bindingAck
  · rw [within_unlessShort, within_bind, within_bind, within_byte]
    exact fun _ => ⟨within_emit _, by omega, within_subOptions (by decide) hlen⟩
  · rw [within_unlessShort, within_bind, within_byte]
    exact fun _ => ⟨by omega, within_done⟩

theorem isSome_optCase (hfuel : optlen ≤ fuel) :
    (optCase ntop mem fuel bp len i optlen kind).value.isSome = true := by
  rw [optCase]
  split_ifs
  · rfl
  · exact isSome_unlessShort rfl
  · exact isSome_unlessShort (isSome_exactly rfl)
  · exact isSome_unlessShort (isSome_exactly rfl)
  · exact isSome_unlessShort (isSome_atLeast hfuel)
  · exact isSome_unlessShort (isSome_atLeast hfuel)
  · exact isSome_unlessShort (isSome_atLeast hfuel)
  · exact isSome_unlessShort (isSome_subOptions hfuel)
  · exact isSome_unlessShort rfl

/-- **Printing options is safe**: with a length of `n` it ends and reads nothing but the `n` bytes,
and what it reads for an option, sub-options included, belongs to that option. -/
theorem ip6OptPrint_safe (ntop : Ntop6) (mem : Memory) (bp n fuel : ℕ) (hfuel : n ≤ fuel) :
    (ip6OptPrint ntop mem fuel bp n).value = some () ∧
      (∀ r ∈ (ip6OptPrint ntop mem fuel bp n).reads, bp ≤ r ∧ r < bp + n) ∧
      ∀ i optlen kind, OptionAt mem bp n i optlen kind →
        ∀ r ∈ (optCase ntop mem fuel bp n i optlen kind).reads,
          bp + i ≤ r ∧ r < bp + i + optlen := by
  have hwithin : Within bp (bp + n) (optionWalk (optCase ntop mem fuel bp n) mem bp n fuel 0) :=
    within_optionWalk fun i optlen kind h =>
      (within_optCase h).mono (by omega) (by have := h.inside; omega)
  have hsome : (optionWalk (optCase ntop mem fuel bp n) mem bp n fuel 0).value.isSome = true :=
    isSome_optionWalk (fun i optlen kind h => isSome_optCase (by have := h.inside; omega)) (by omega)
  refine ⟨?_, ?_, fun i optlen kind h => within_optCase h⟩
  · rw [ip6OptPrint]
    split_ifs
    · rfl
    · obtain ⟨ended, hended⟩ := Option.isSome_iff_exists.1 hsome
      rw [value_bind, hended]
      rfl
  · rw [ip6OptPrint]
    split_ifs
    · exact within_pure _
    · exact (within_bind _ _).2 ⟨hwithin, within_pure _⟩

def homeAddressOption : Memory := fun i =>
  if i = 0 then 0xc9 else if i = 1 then 20 else if i = 18 then 2 else if i = 19 then 2 else 0

theorem ip6OptPrint_safe_homeAddress :
    (ip6OptPrint (fun _ => []) homeAddressOption 22 0 22).value = some () ∧
      OptionAt homeAddressOption 0 22 0 22 0xc9 ∧
      ∀ r ∈ (optCase (fun _ => []) homeAddressOption 22 0 22 0 22 0xc9).reads, 0 ≤ r ∧ r < 22 := by
  have hopt : OptionAt homeAddressOption 0 22 0 22 0xc9 :=
    ⟨by decide, by decide, .inr ⟨by decide, by decide⟩⟩
  have hsafe := ip6OptPrint_safe (fun _ => []) homeAddressOption 0 22 22 (by decide)
  exact ⟨hsafe.1, hopt, fun r hr => by simpa using hsafe.2.2 0 22 0xc9 hopt r hr⟩

end FreeSense.Filterlog
