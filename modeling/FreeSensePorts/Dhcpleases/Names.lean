import FreeSensePorts.Core.Fields
import FreeSensePorts.Dhcpleases.Model

/-!
# Names in the resolver files

A client chooses the name in its lease, and the name is written into two files with a syntax of
their own.  Whatever bytes the lease file has, a name that is written has only the characters of
`emitted` (`Clean`), none of which ends a line or a string, so the files have the lines that were meant.

The first section shows that the fuel of the loops is enough: reading a token uses up input.
-/

namespace FreeSense.Dhcpleases

open List

variable {beyond : ℤ → ℤ} {domainSuffix : Bytes}

/-! ## Every token uses up input -/

lemma length_tokenLoop (size : ℕ) (comment quotes : Bool) (token input : Bytes) :
    (tokenLoop size comment quotes token input).2.length ≤ input.length - 1 := by
  induction input generalizing comment quotes token with
  | nil => simp [tokenLoop]
  | cons c rest ih =>
    have hle : ∀ comment quotes token,
        (tokenLoop size comment quotes token rest).2.length ≤ rest.length := by
      intro comment quotes token
      exact Nat.le_trans (ih comment quotes token) (Nat.sub_le _ _)
    unfold tokenLoop
    dsimp only
    generalize (if c = quote then !quotes else quotes) = q
    split_ifs
    · exact hle _ _ _
    · exact hle _ _ _
    · exact hle _ _ _
    · exact Nat.le_refl _
    · exact hle _ _ _
    · exact hle _ _ _

variable {input input' s t : Bytes} {goesOn : Bool} {n m fuel : ℕ} {leases leases' : List Lease}
  {c : UInt8} {l : Lease}

lemma length_nextToken {size : ℕ} {token rest : Bytes}
    (h : nextToken size input = some (token, rest)) : rest.length < input.length := by
  have hpos : 0 < input.length := by
    cases input with
    | nil => simp [nextToken, tokenLoop] at h
    | cons c input => exact Nat.succ_pos _
  have hle := length_tokenLoop size false false [] input
  unfold nextToken at h
  split at h
  · cases h
  · next hloop =>
      cases h
      rw [hloop] at hle
      exact Nat.lt_of_le_of_lt hle (Nat.sub_lt hpos Nat.one_pos)

lemma length_readTime (input : Bytes) : (readTime input).2.length ≤ input.length := by
  unfold readTime
  split
  · exact Nat.zero_le _
  · next h₁ =>
      have hlt₁ := length_nextToken h₁
      split
      · exact Nat.zero_le _
      · next h₂ =>
          have hlt₂ := length_nextToken h₂
          split
          · dsimp only
            omega
          · split
            · exact Nat.zero_le _
            · next h₃ =>
                have hlt₃ := length_nextToken h₃
                split <;> dsimp only <;> omega

/-! ## What a step does -/

/-- **One statement of a lease**: it takes input if the lease goes on, and the name is the one
before, none or one that was checked. -/
lemma leaseStep_spec {entry entry' : Entry}
    (h : leaseStep beyond entry input = (goesOn, entry', input')) :
    (input'.length < input.length ∨ goesOn = false ∧ input'.length ≤ input.length) ∧
      (entry'.hostname = entry.hostname ∨ entry'.hostname = [] ∨
        ∃ token, entry'.hostname = readName token) := by
  unfold leaseStep at h
  split at h
  · cases h
    exact ⟨Or.inr ⟨rfl, Nat.zero_le _⟩, Or.inl rfl⟩
  · next token rest htoken =>
      have hrest := length_nextToken htoken
      split_ifs at h with hclose hname htime
      · cases h
        exact ⟨Or.inl hrest, Or.inl rfl⟩
      · split at h
        · cases h
          exact ⟨Or.inl (Nat.lt_of_le_of_lt (Nat.zero_le _) hrest), Or.inr (Or.inl rfl)⟩
        · next name rest' htoken' =>
            cases h
            exact ⟨Or.inl (Nat.lt_trans (length_nextToken htoken') hrest),
              Or.inr (Or.inr ⟨name, rfl⟩)⟩
      · have htimes := length_readTime rest
        split at h
        · next rest' hread =>
            cases h
            rw [hread] at htimes
            exact ⟨Or.inl (Nat.lt_of_le_of_lt htimes hrest), Or.inl rfl⟩
        · next t rest' hread =>
            cases h
            rw [hread] at htimes
            exact ⟨Or.inl (Nat.lt_of_le_of_lt htimes hrest), Or.inl (entry.hostname_setTime _ _)⟩
      · cases h
        exact ⟨Or.inl hrest, Or.inl rfl⟩

lemma length_leaseLoop (fuel : ℕ) (entry : Entry) (input : Bytes) :
    (leaseLoop beyond fuel entry input).2.length ≤ input.length := by
  induction fuel generalizing entry input with
  | zero => exact Nat.le_refl _
  | succ fuel ih =>
    unfold leaseLoop
    split
    · next hstep =>
        rcases (leaseStep_spec hstep).1 with hlt | ⟨-, hle⟩
        · exact Nat.le_of_lt hlt
        · exact hle
    · next hstep =>
        rcases (leaseStep_spec hstep).1 with hlt | ⟨hfalse, -⟩
        · exact Nat.le_trans (ih _ _) (Nat.le_of_lt hlt)
        · cases hfalse

/-- **Fuel for a lease**: any amount above the length of the input gives the same. -/
theorem leaseLoop_fuel {entry : Entry} (hn : input.length < n) (hm : input.length < m) :
    leaseLoop beyond n entry input = leaseLoop beyond m entry input := by
  induction n generalizing m entry input with
  | zero => omega
  | succ n ih =>
    obtain ⟨m, rfl⟩ : ∃ m', m = m' + 1 := ⟨m - 1, by omega⟩
    unfold leaseLoop
    split
    · rfl
    · next hstep =>
        rcases (leaseStep_spec hstep).1 with hlt | ⟨hfalse, -⟩
        · exact ih (by omega) (by omega)
        · cases hfalse

lemma length_readLease (input : Bytes) : (readLease beyond input).2.length ≤ input.length := by
  unfold readLease
  split
  · exact Nat.zero_le _
  · next htoken =>
      have hlt := length_nextToken htoken
      split_ifs
      · exact Nat.le_trans (length_leaseLoop _ _ _) (Nat.le_of_lt hlt)
      · exact Nat.le_of_lt hlt

/-- **One pass over the file**: it takes input if there is another, and adds at most one lease,
which has the name of a lease that was read. -/
lemma loadStep_spec (h : loadStep beyond domainSuffix leases input = (goesOn, leases', input')) :
    (goesOn = true → input'.length < input.length) ∧
      (leases' = leases ∨ ∃ addr rest, leases'
        = addLease ((readLease beyond rest).1.lease domainSuffix addr) leases) := by
  unfold loadStep at h
  split at h
  · cases h
    exact ⟨nofun, Or.inl rfl⟩
  · next token rest htoken =>
      have hrest := length_nextToken htoken
      split_ifs at h
      · cases h
        exact ⟨fun _ => hrest, Or.inl rfl⟩
      · split at h
        · cases h
          exact ⟨fun _ => Nat.lt_of_le_of_lt (Nat.zero_le _) hrest, Or.inl rfl⟩
        · next token' rest' htoken' =>
            have hrest' := Nat.lt_trans (length_nextToken htoken') hrest
            split at h
            · cases h
              exact ⟨fun _ => hrest', Or.inl rfl⟩
            · next addr haddr =>
                have hlease := Nat.lt_of_le_of_lt (@length_readLease beyond rest') hrest'
                dsimp only at h
                split_ifs at h
                · cases h
                  exact ⟨fun _ => hlease, Or.inl rfl⟩
                · cases h
                  exact ⟨fun _ => hlease, Or.inr ⟨addr, rest', rfl⟩⟩

/-- **Fuel for the file**: any amount above its length gives the same leases. -/
theorem loadLoop_fuel (hn : input.length < n) (hm : input.length < m) :
    loadLoop beyond domainSuffix n leases input = loadLoop beyond domainSuffix m leases input := by
  induction n generalizing m leases input with
  | zero => omega
  | succ n ih =>
    obtain ⟨m, rfl⟩ : ∃ m', m = m' + 1 := ⟨m - 1, by omega⟩
    unfold loadLoop
    split
    · rfl
    · next hstep =>
        have hlt := (loadStep_spec hstep).1 rfl
        exact ih (by omega) (by omega)

/-! ## Clean names -/

def emitted (c : UInt8) : Bool :=
  isUpper c || isLower c || isDigit c || c = '-'.toUInt8 || c = '/'.toUInt8 || c = '_'.toUInt8 ||
    c = dotChar

def suffixChar (c : UInt8) : Bool :=
  isUpper c || isLower c || isDigit c || c = '-'.toUInt8 || c = '_'.toUInt8 || c = dotChar

def Clean (s : Bytes) : Prop := ∀ c ∈ s, emitted c = true

lemma emitted_of_suffixChar (h : suffixChar c = true) : emitted c = true := by
  simp only [suffixChar, emitted, Bool.or_eq_true] at h ⊢
  tauto

lemma emitted_of_legalChar (h : legalChar c = true) (hblank : c ≠ blank) : emitted c = true := by
  simp only [legalChar, emitted, Bool.or_eq_true, decide_eq_true_eq] at h ⊢
  tauto

lemma not_mem_of_clean (h : Clean s) (hc : emitted c = false) : c ∉ s := by
  intro hmem
  rw [h c hmem] at hc
  cases hc

lemma Clean.append (hs : Clean s) (ht : Clean t) : Clean (s ++ t) := by
  intro c hc
  rcases mem_append.mp hc with hc | hc
  · exact hs c hc
  · exact ht c hc

lemma Clean.sublist (ht : Clean t) (h : s.Sublist t) : Clean s :=
  fun c hc => ht c (h.subset hc)

lemma legal_of_labelsOk {dotgap : ℕ} {nowhite : Bool} (h : labelsOk dotgap nowhite s = true) :
    ∀ c ∈ s, c = dotChar ∨ legalChar c = true := by
  induction s generalizing dotgap nowhite with
  | nil => exact fun _ hc => absurd hc not_mem_nil
  | cons d s ih =>
    unfold labelsOk at h
    split_ifs at h with hdot hbad
    · rintro c (_ | ⟨_, hc⟩)
      · exact Or.inl hdot
      · exact ih h c hc
    · simp only [Bool.or_eq_true, Bool.not_eq_true', not_or, Bool.not_eq_false] at hbad
      rintro c (_ | ⟨_, hc⟩)
      · exact Or.inr hbad.1
      · exact ih h c hc

lemma legal_of_canonicalise {name : Bytes} (h : canonicalise s = some name) :
    ∀ c ∈ name, c = dotChar ∨ legalChar c = true := by
  unfold canonicalise at h
  dsimp only at h
  generalize (if s.getLast? = some dotChar then s.dropLast else s) = t at h
  split_ifs at h with _ _ hlabels
  cases h
  exact legal_of_labelsOk hlabels

lemma clean_readName (token : Bytes) : Clean (readName token) := by
  unfold readName
  split_ifs
  · exact fun _ hc => absurd hc not_mem_nil
  · split
    · exact fun _ hc => absurd hc not_mem_nil
    · next name hname =>
        have hlegal := legal_of_canonicalise hname
        -- a blank has become a hyphen, and every other character is one to be written
        intro c hc
        obtain ⟨d, hd, rfl⟩ := mem_map.mp hc
        split_ifs with hblank
        · decide
        · rcases hlegal d hd with rfl | hd
          · decide
          · exact emitted_of_legalChar hd hblank

lemma clean_leaseLoop {entry : Entry} (h : Clean entry.hostname) :
    Clean (leaseLoop beyond fuel entry input).1.hostname := by
  induction fuel generalizing entry input with
  | zero => exact h
  | succ fuel ih =>
    have hstep : ∀ {goesOn : Bool} {entry' : Entry} {input' : Bytes},
        leaseStep beyond entry input = (goesOn, entry', input') → Clean entry'.hostname := by
      intro goesOn entry' input' hs
      rcases (leaseStep_spec hs).2 with hname | hname | ⟨token, hname⟩
      · exact hname ▸ h
      · exact hname ▸ fun _ hc => absurd hc not_mem_nil
      · exact hname ▸ clean_readName token
    unfold leaseLoop
    split
    · next hs => exact hstep hs
    · next hs => exact ih (hstep hs)

lemma clean_readLease (input : Bytes) : Clean (readLease beyond input).1.hostname := by
  have hnil : Clean [] := fun _ hc => absurd hc not_mem_nil
  unfold readLease
  split
  · exact hnil
  · split_ifs
    · exact clean_leaseLoop hnil
    · exact hnil

/-- Both names of a lease. -/
def Lease.Clean (l : Lease) : Prop := Dhcpleases.Clean l.name ∧ Dhcpleases.Clean l.fqdn

lemma clean_splitSuffix {hostname : Bytes} (hsuffix : Clean domainSuffix) (h : Clean hostname) :
    Clean (splitSuffix domainSuffix hostname).1 ∧ Clean (splitSuffix domainSuffix hostname).2 := by
  unfold splitSuffix
  dsimp only
  split
  · exact ⟨h, hsuffix⟩
  · next c rest hdrop =>
      split_ifs
      · refine ⟨h.sublist (takeWhile_sublist _), h.sublist ?_⟩
        exact (sublist_cons_self c rest).trans (hdrop ▸ drop_sublist _ _)
      · exact ⟨h, hsuffix⟩

lemma clean_lease {entry : Entry} (hsuffix : Clean domainSuffix) (h : Clean entry.hostname)
    (addr : InAddr) : (entry.lease domainSuffix addr).Clean := by
  obtain ⟨hname, hrest⟩ := clean_splitSuffix hsuffix h
  have hdot : Clean [dotChar] := by
    intro c hc
    obtain rfl := mem_singleton.mp hc
    decide
  exact ⟨hname, (hname.append hdot).append hrest⟩

lemma mem_replaceLease {lease : Lease} (h : replaceLease lease leases = some leases') :
    ∀ l ∈ leases', l = lease ∨ l ∈ leases := by
  induction leases generalizing leases' with
  | nil => cases h
  | cons l leases ih =>
    unfold replaceLease at h
    split_ifs at h
    · cases h
      rintro l' (_ | ⟨_, hl⟩)
      · exact Or.inl rfl
      · exact Or.inr (mem_cons_of_mem _ hl)
    · obtain ⟨rest, hrest, rfl⟩ := Option.map_eq_some_iff.mp h
      rintro l' (_ | ⟨_, hl⟩)
      · exact Or.inr mem_cons_self
      · exact (ih hrest l' hl).imp_right (mem_cons_of_mem _)

lemma mem_addLease {lease : Lease} (h : l ∈ addLease lease leases) : l = lease ∨ l ∈ leases := by
  unfold addLease at h
  cases hreplace : replaceLease lease leases with
  | none =>
    rw [hreplace] at h
    exact mem_cons.mp h
  | some leases' =>
    rw [hreplace] at h
    exact mem_replaceLease hreplace l h

lemma clean_loadLoop (hsuffix : Clean domainSuffix) (h : ∀ l ∈ leases, l.Clean) :
    ∀ l ∈ loadLoop beyond domainSuffix fuel leases input, l.Clean := by
  induction fuel generalizing leases input with
  | zero => exact h
  | succ fuel ih =>
    have hstep : ∀ {goesOn : Bool} {leases' : List Lease} {input' : Bytes},
        loadStep beyond domainSuffix leases input = (goesOn, leases', input') →
          ∀ l ∈ leases', l.Clean := by
      intro goesOn leases' input' hs
      rcases (loadStep_spec hs).2 with rfl | ⟨addr, rest, rfl⟩
      · exact h
      · intro l hl
        rcases mem_addLease hl with rfl | hl
        · exact clean_lease hsuffix (clean_readLease rest) addr
        · exact h l hl
    unfold loadLoop
    split
    · next hs => exact hstep hs
    · next hs => exact ih (hstep hs)

theorem clean_loadDhcp (hsuffix : Clean domainSuffix) (now : ℤ) (input : Bytes) :
    ∀ l ∈ loadDhcp beyond domainSuffix now input, l.Clean := by
  intro l hl
  refine clean_loadLoop hsuffix ?_ l (mem_of_mem_filter hl)
  exact fun _ hl => absurd hl not_mem_nil

/-! ## Lines -/

def headerLines : List Bytes := [[], lit "# dhcpleases automatically entered"]

def hostsEntry (l : Lease) : Bytes :=
  inetNtoa l.addr ++ lit "\t" ++ l.fqdn ++ lit " " ++ l.name ++
    lit "\t\t# dynamic entry from dhcpd.leases"

def dataEntry (l : Lease) : Bytes :=
  lit "local-data: \"" ++ l.fqdn ++ lit " IN A " ++ inetNtoa l.addr ++ lit "\""

def ptrEntry (l : Lease) : Bytes :=
  lit "local-data-ptr: \"" ++ inetNtoa l.addr ++ lit " " ++ l.fqdn ++ lit "\""

lemma lit_eq {s : String} {l : List Char} (hs : s = String.ofList l) :
    lit s = l.map Char.toUInt8 := by
  rw [lit, hs, String.toList_ofList]

lemma newline_not_mem_inetNtoa (addr : InAddr) : newline ∉ inetNtoa addr := by
  have hdecimal : ∀ b : UInt8, newline ∉ decimal b := by
    intro b hmem
    have hdigits : decimal b = (Nat.toDigits 10 b.toNat).map Char.toUInt8 :=
      congrArg (List.map Char.toUInt8) String.toList_ofList
    rw [hdigits] at hmem
    obtain ⟨c, hc, heq⟩ := mem_map.1 hmem
    obtain ⟨d, hd, rfl⟩ := exists_digitChar_of_mem_toDigits (by decide) hc
    have hall : ∀ d < 10, (Nat.digitChar d).toUInt8 ≠ newline := by decide
    exact hall d hd heq
  have hdot : newline ≠ dotChar := by decide
  simp [inetNtoa, hdecimal, hdot]

lemma newline_not_mem_entries (h : l.Clean) :
    newline ∉ hostsEntry l ∧ newline ∉ dataEntry l ∧ newline ∉ ptrEntry l := by
  have hlit : newline ∉ lit "\t" ∧ newline ∉ lit " " ∧
      newline ∉ lit "\t\t# dynamic entry from dhcpd.leases" ∧ newline ∉ lit "local-data: \"" ∧
      newline ∉ lit " IN A " ∧ newline ∉ lit "\"" ∧ newline ∉ lit "local-data-ptr: \"" := by
    and_intros
    all_goals
      rw [lit_eq rfl]
      decide
  obtain ⟨htab, hblank, hcomment, hdata, hin, hquote, hptr⟩ := hlit
  have hname : newline ∉ l.name := not_mem_of_clean h.1 (by decide)
  have hfqdn : newline ∉ l.fqdn := not_mem_of_clean h.2 (by decide)
  have haddr := newline_not_mem_inetNtoa l.addr
  simp only [hostsEntry, dataEntry, ptrEntry, mem_append, not_or]
  exact ⟨⟨⟨⟨⟨⟨haddr, htab⟩, hfqdn⟩, hblank⟩, hname⟩, hcomment⟩,
    ⟨⟨⟨⟨hdata, hfqdn⟩, hin⟩, haddr⟩, hquote⟩, ⟨⟨⟨⟨hptr, haddr⟩, hblank⟩, hfqdn⟩, hquote⟩⟩

lemma hostsLine_eq (l : Lease) : hostsLine l = hostsEntry l ++ [newline] := by
  have hend : lit "\t\t# dynamic entry from dhcpd.leases\n"
      = lit "\t\t# dynamic entry from dhcpd.leases" ++ [newline] := by
    rw [lit_eq rfl, lit_eq rfl]
    rfl
  rw [hostsLine, hostsEntry, hend, ← append_assoc]

lemma unboundLines_eq (l : Lease) :
    unboundLines l = dataEntry l ++ [newline] ++ (ptrEntry l ++ [newline]) := by
  have hend : lit "\"\n" = lit "\"" ++ [newline] := by
    rfl
  rw [unboundLines, dataEntry, ptrEntry, hend, ← append_assoc _ (lit "\""),
    ← append_assoc _ (lit "\"")]

lemma splitOn_flatMap {lines : List Bytes} (h : ∀ line ∈ lines, newline ∉ line) :
    (lines.flatMap (· ++ [newline])).splitOn newline = lines ++ [[]] := by
  induction lines with
  | nil => rfl
  | cons line lines ih =>
    rw [flatMap_cons, append_assoc, singleton_append,
      splitOn_append_cons_self_of_not_mem (h line mem_cons_self),
      ih fun l hl => h l (mem_cons_of_mem _ hl), cons_append]

lemma splitOn_header {text : Bytes} :
    (header ++ text).splitOn newline = headerLines ++ text.splitOn newline := by
  have hheader : header ++ text
      = [] ++ newline :: (lit "# dhcpleases automatically entered" ++ newline :: text) := by
    have : header = newline :: (lit "# dhcpleases automatically entered" ++ [newline]) := by
      rw [header, lit_eq rfl]
      rfl
    rw [this]
    simp
  rw [hheader, splitOn_append_cons_self_of_not_mem not_mem_nil]
  rfl

/-- **No text of a client ends up in the resolver files but as a name.**  Whatever the bytes of the
lease file and the time: the names of a lease have only letters, digits, and the characters
`-` `/` `_` `.`, so that the hosts file has one line for each lease and the configuration of
`unbound` two, and no others. -/
theorem no_injection (hsuffix : ∀ c ∈ domainSuffix, suffixChar c = true) (now : ℤ)
    (input : Bytes) :
    (∀ l ∈ loadDhcp beyond domainSuffix now input, ∀ c ∈ l.name ++ l.fqdn, emitted c = true) ∧
      (writeStatus (loadDhcp beyond domainSuffix now input)).splitOn newline
        = headerLines ++ ((loadDhcp beyond domainSuffix now input).map hostsEntry ++ [[]]) ∧
      (writeUnboundConf (loadDhcp beyond domainSuffix now input)).splitOn newline
        = headerLines ++ ((loadDhcp beyond domainSuffix now input).flatMap
            (fun l => [dataEntry l, ptrEntry l]) ++ [[]]) := by
  have hclean : ∀ l ∈ loadDhcp beyond domainSuffix now input, l.Clean :=
    clean_loadDhcp (fun c hc => emitted_of_suffixChar (hsuffix c hc)) now input
  generalize loadDhcp beyond domainSuffix now input = leases at hclean
  refine ⟨fun l hl => (hclean l hl).1.append (hclean l hl).2, ?_, ?_⟩
  · have hlines : leases.flatMap hostsLine = (leases.map hostsEntry).flatMap (· ++ [newline]) := by
      rw [flatMap_map]
      exact congrArg (leases.flatMap ·) (funext hostsLine_eq)
    rw [writeStatus, splitOn_header, hlines, splitOn_flatMap]
    intro line hline
    obtain ⟨l, hl, rfl⟩ := mem_map.mp hline
    exact (newline_not_mem_entries (hclean l hl)).1
  · have hlines : leases.flatMap unboundLines
        = (leases.flatMap fun l => [dataEntry l, ptrEntry l]).flatMap (· ++ [newline]) := by
      rw [flatMap_assoc]
      refine congrArg (leases.flatMap ·) (funext fun l => ?_)
      rw [unboundLines_eq]
      simp
    rw [writeUnboundConf, splitOn_header, hlines, splitOn_flatMap]
    intro line hline
    obtain ⟨l, hl, hline⟩ := mem_flatMap.mp hline
    obtain ⟨-, hdata, hptr⟩ := newline_not_mem_entries (hclean l hl)
    rcases mem_pair.mp hline with rfl | rfl
    · exact hdata
    · exact hptr

/-- A lease with a blank in its name, and one that tries to write a line of its own. -/
def sampleFile : Bytes :=
  lit "lease 192.0.2.10 \x7b\n  client-hostname \"my laptop\";\n\x7d\n" ++
    lit "lease 192.0.2.11 \x7b\n  client-hostname \"x;192.0.2.1 bank\";\n\x7d\n"

theorem no_injection_local :
    (loadDhcp (fun _ => 0) (lit "local") 0 sampleFile).map Lease.fqdn = [lit "my-laptop.local"] ∧
      (∀ l ∈ loadDhcp (fun _ => 0) (lit "local") 0 sampleFile, ∀ c ∈ l.name ++ l.fqdn,
        emitted c = true) :=
  ⟨by decide +kernel, (no_injection (by decide +kernel) 0 sampleFile).1⟩

end FreeSense.Dhcpleases
