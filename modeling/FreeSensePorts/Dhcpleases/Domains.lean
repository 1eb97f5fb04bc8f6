import FreeSensePorts.Dhcpleases.Model

/-!
# The domain of a lease

A host name may come with a domain of its own.  It should then be published under that domain, and
otherwise under the configured suffix.  `load_dhcp` cuts the name at its first dot only if the rest
is the configured suffix; a name with another domain keeps it and has the suffix behind it as well
(`splitSuffix_dot`).
-/

namespace FreeSense.Dhcpleases

open List

def labelOf (h : Bytes) : Bytes := h.takeWhile (· ≠ dotChar)

/-- The part behind it. -/
def domainOf (h : Bytes) : Bytes := h.drop ((labelOf h).length + 1)

/-- How a lease should be published. -/
structure RightDomain (domainSuffix h : Bytes) (l : Lease) : Prop where
  label : labelOf h ≠ []
  name : l.name = labelOf h
  fqdn : l.fqdn = labelOf h ++ [dotChar] ++ if domainOf h ≠ [] then domainOf h else domainSuffix

variable {label h domainSuffix : Bytes}

lemma labelOf_append (hlabel : dotChar ∉ label) (rest : Bytes) :
    labelOf (label ++ dotChar :: rest) = label := by
  have hpos : ∀ c ∈ label, decide (c ≠ dotChar) = true := fun c hc =>
    decide_eq_true fun heq => hlabel (heq ▸ hc)
  rw [labelOf, takeWhile_append_of_pos hpos]
  simp

lemma domainOf_append (hlabel : dotChar ∉ label) (rest : Bytes) :
    domainOf (label ++ dotChar :: rest) = rest := by
  rw [domainOf, labelOf_append hlabel, append_cons]
  exact drop_left' (by simp)

lemma labelOf_eq_self (hdot : dotChar ∉ h) : labelOf h = h := by
  rw [labelOf, takeWhile_eq_self_iff]
  exact fun c hc => decide_eq_true fun heq => hdot (heq ▸ hc)

lemma splitSuffix_plain (hdot : dotChar ∉ h) : splitSuffix domainSuffix h = (h, domainSuffix) := by
  have hself : h.takeWhile (· ≠ dotChar) = h := labelOf_eq_self hdot
  rw [splitSuffix, hself, drop_length]

lemma splitSuffix_dot (hlabel : dotChar ∉ label) (rest : Bytes) :
    splitSuffix domainSuffix (label ++ dotChar :: rest)
      = if hostnameIsequal rest domainSuffix then (label, rest)
        else (label ++ dotChar :: rest, domainSuffix) := by
  have htake : (label ++ dotChar :: rest).takeWhile (· ≠ dotChar) = label := labelOf_append hlabel rest
  rw [splitSuffix, htake, drop_left]

/-- **A lease is published under the right domain** exactly if its name has no domain, or a label and
the domain that is configured. -/
theorem rightDomain_iff {entry : Entry} (hname : entry.hostname ≠ []) (domainSuffix : Bytes)
    (addr : InAddr) :
    RightDomain domainSuffix entry.hostname (entry.lease domainSuffix addr) ↔
      dotChar ∉ entry.hostname ∨
        (labelOf entry.hostname ≠ [] ∧ hostnameIsequal (domainOf entry.hostname) domainSuffix) := by
  obtain ⟨h, ttd, tts⟩ := entry
  rw [Entry.lease]
  by_cases hdot : dotChar ∈ h
  · obtain ⟨label, rest, rfl, hlabel⟩ := eq_append_cons_of_mem hdot
    rw [splitSuffix_dot hlabel, labelOf_append hlabel, domainOf_append hlabel,
      or_iff_right (not_not_intro hdot)]
    by_cases heq : hostnameIsequal rest domainSuffix = true
    · rw [if_pos heq, and_iff_left heq]
      have hdomain : (if rest ≠ [] then rest else domainSuffix) = rest := by
        split_ifs with hrest
        · rfl
        · rw [not_not.mp hrest] at heq ⊢
          exact map_eq_nil_iff.mp (of_decide_eq_true heq).symm
      constructor
      · intro h
        rw [← labelOf_append hlabel rest]
        exact h.label
      · intro hne
        refine ⟨?_, ?_, ?_⟩
        · rwa [labelOf_append hlabel]
        · rw [labelOf_append hlabel]
        · rw [labelOf_append hlabel, domainOf_append hlabel, hdomain]
    · rw [if_neg heq]
      refine iff_of_false (fun h => ?_) fun h => heq h.2
      have hcut := h.name
      rw [labelOf_append hlabel] at hcut
      exact absurd (append_right_eq_self.mp hcut) (cons_ne_nil _ _)
  · refine iff_of_true ?_ (.inl hdot)
    have hdomain : domainOf h = [] := by
      rw [domainOf, labelOf_eq_self hdot, drop_eq_nil_of_le (Nat.le_succ _)]
    rw [splitSuffix_plain hdot]
    refine ⟨?_, ?_, ?_⟩
    · rwa [labelOf_eq_self hdot]
    · rw [labelOf_eq_self hdot]
    · rw [labelOf_eq_self hdot, hdomain]
      rfl

def dottedEntry : Entry := ⟨lit "host.example.com", -1, -1⟩

theorem rightDomain_iff_dotted :
    RightDomain (lit "Example.com") dottedEntry.hostname
      (dottedEntry.lease (lit "Example.com") ⟨192, 0, 2, 10⟩) :=
  (rightDomain_iff (by decide +kernel) _ _).mpr (.inr ⟨by decide +kernel, by decide +kernel⟩)

/-- **The suffix is put behind another domain.** -/
theorem suffix_behind_domain :
    (dottedEntry.lease (lit "local") ⟨192, 0, 2, 10⟩).name = lit "host.example.com" ∧
      (dottedEntry.lease (lit "local") ⟨192, 0, 2, 10⟩).fqdn = lit "host.example.com.local" ∧
      (readLease (fun _ => 0) (lit "\x7b client-hostname \"host.example.com\"; \x7d")).1.hostname
        = dottedEntry.hostname :=
  ⟨by decide +kernel, by decide +kernel, by decide +kernel⟩

end FreeSense.Dhcpleases
