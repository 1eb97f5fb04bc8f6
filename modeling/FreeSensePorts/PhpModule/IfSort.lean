import Mathlib.Data.Char
import Mathlib.Data.List.Lex
import Mathlib.Tactic
import FreeSensePorts.Core.LinkedList
import FreeSensePorts.Core.StableSort
import FreeSensePorts.Core.Text

/-!
# The sort of the interface addresses

`sortifaddrs` is a merge sort on a linked list, in place.  The functions have no result where a null
pointer is followed or the fuel runs out.  On a chain they have one (`sortifaddrs_chain`): the chain of
the same nodes, sorted by name, nodes of equal name in their old order, every pointer outside it as
before.
-/

namespace FreeSense.PhpModule

open List hiding Chain
open LinkedList (Next Chain)

variable {fuel : ℕ}

/-- The sign of `strcmp`. -/
def strcmp (s t : Text) : ℤ := if s < t then -1 else if s = t then 0 else 1

section

variable {α : Type} (name : α → Text)

/-- `cmpifaddrs` on two nodes. -/
def cmpifaddrs (a b : α) : ℤ := strcmp (name a) (name b)

/-- The loop that finds the middle: `right` goes one node for two of `temp`. -/
def splitLoop (next : Next α) : ℕ → Option α → Option α → Option α → Option (Option α × Option α)
  | 0, _, _, _ => none
  | fuel + 1, last, right, temp =>
    match temp with
    | none => some (last, right)
    | some t =>
      match next t with
      | none => some (last, right)
      | some t' => do
        let r ← right
        splitLoop next fuel right (next r) (next t')

/-- The node that the merge takes next, and the two lists behind it. -/
def pick (next : Next α) : Option α → Option α → Option (α × Option α × Option α)
  | none, none => none
  | some l, none => some (l, next l, none)
  | none, some r => some (r, none, next r)
  | some l, some r =>
    if cmpifaddrs name l r < 1 then some (l, next l, some r) else some (r, some l, next r)

variable [DecidableEq α]

/-- The merge, with the list built so far and its last node. -/
def mergeLoop : ℕ → Next α → Option α → Option α → Option α → Option α →
    Option (Option α × Next α)
  | 0, _, _, _, _, _ => none
  | fuel + 1, next, list, right, result, tail =>
    match pick name next list right with
    | none => some (result, next)
    | some (node, list, right) =>
      match result with
      | none => mergeLoop fuel next list right (some node) (some node)
      | some result => do
        let t ← tail
        mergeLoop fuel (Function.update next t (some node)) list right (some result)
          (some node)

/-- `sortifaddrs`: the first node of the sorted list, and the pointers. -/
def sortifaddrs : ℕ → Next α → Option α → Option (Option α × Next α)
  | 0, _, _ => none
  | fuel + 1, next, list =>
    match list with
    | none => some (none, next)
    | some a =>
      match next a with
      | none => some (some a, next)
      | some b =>
        if next b = none then
          if 0 < cmpifaddrs name a b then
            some (some b, Function.update (Function.update next a none) b (some a))
          else some (some a, next)
        else do
          let (last, right) ← splitLoop next fuel (some a) (some a) (some a)
          let l ← last
          let (list, next) ← sortifaddrs fuel (Function.update next l none) (some a)
          let (right, next) ← sortifaddrs fuel next right
          mergeLoop name fuel next list right none none

end

/-! ## Comparing -/

variable {α : Type} {name : α → Text} {next : Next α}

theorem cmpifaddrs_lt_one (name : α → Text) (a b : α) : cmpifaddrs name a b < 1 ↔ name a ≤ name b := by
  rw [cmpifaddrs, strcmp]
  split_ifs with h₁ h₂
  · exact iff_of_true (by decide) h₁.le
  · exact iff_of_true (by decide) h₂.le
  · exact iff_of_false (by decide) fun hle => (hle.lt_or_eq).elim h₁ h₂

theorem cmpifaddrs_pos (name : α → Text) (a b : α) : 0 < cmpifaddrs name a b ↔ ¬ name a ≤ name b := by
  rw [← cmpifaddrs_lt_one]
  omega

/-! ## Finding the middle -/

variable {right p : Option α} {r l l₁ l₂ : List α}

theorem splitLoop_eq {last temp : Option α} {t : List α} (hr : Chain next right r)
    (ht : Chain next temp t) (hlen : t.length ≤ r.length) (hfuel : t.length / 2 < fuel) :
    splitLoop next fuel last right temp =
      some (if t.length / 2 = 0 then last else r[t.length / 2 - 1]?, r[t.length / 2]?) := by
  induction fuel generalizing last right temp r t with
  | zero => omega
  | succ fuel ih =>
    match t, ht with
    | [], ht =>
      obtain rfl := ht
      rw [splitLoop, hr.head_eq]
      simp [head?_eq_getElem?]
    | [x], ht =>
      obtain ⟨rfl, hx⟩ := ht
      rw [splitLoop, hr.head_eq, show next x = none from hx]
      simp [head?_eq_getElem?]
    | x :: y :: t, ht =>
      obtain ⟨rfl, hx, hy⟩ := ht
      match r, hr with
      | c :: r, hr =>
        obtain ⟨rfl, hc⟩ := hr
        simp only [length_cons] at hlen hfuel ⊢
        rw [splitLoop, hx]
        refine (ih hc hy (by omega) (by omega)).trans ?_
        rw [show (t.length + 1 + 1) / 2 = t.length / 2 + 1 by omega]
        by_cases hzero : t.length / 2 = 0
        · simp [hzero]
        · rw [if_neg hzero, if_neg (by omega), getElem?_cons_succ, Nat.add_sub_cancel]
          obtain ⟨k, hk⟩ := Nat.exists_eq_succ_of_ne_zero hzero
          rw [hk, Nat.succ_eq_add_one, Nat.add_sub_cancel, getElem?_cons_succ]

/-- The place where a chain of three nodes or more is cut. -/
theorem exists_middle (hl : 3 ≤ l.length) :
    ∃ l₁ a l₂, l = l₁ ++ a :: l₂ ∧ l[l.length / 2 - 1]? = some a ∧ l[l.length / 2]? = l₂.head? ∧
      (l₁ ++ [a]).length < l.length ∧ l₂.length < l.length := by
  have hlt : l.length / 2 - 1 < l.length := by omega
  have hsplit : l = l.take (l.length / 2 - 1) ++ l[l.length / 2 - 1] :: l.drop (l.length / 2) := by
    conv_lhs => rw [← take_append_drop (l.length / 2 - 1) l, drop_eq_getElem_cons hlt]
    rw [show l.length / 2 - 1 + 1 = l.length / 2 by omega]
  refine ⟨_, _, _, hsplit, getElem?_eq_getElem hlt, by rw [head?_drop], ?_, ?_⟩
  · simp only [length_append, length_take, length_singleton]
    omega
  · rw [length_drop]
    omega

/-! ## Merging -/

/-- What the merge takes is the first node of the merged list. -/
theorem pick_cases (name : α → Text) {list : Option α} (hl : Chain next list l)
    (hr : Chain next right r) :
    (l = [] ∧ r = [] ∧ pick name next list right = none) ∨
      ∃ node list' right' l' r', pick name next list right = some (node, list', right') ∧
        Chain next list' l' ∧ Chain next right' r' ∧
        l.merge r (keyLe name) = node :: l'.merge r' (keyLe name) ∧
        (l ++ r).Perm (node :: (l' ++ r')) ∧ (next node = list' ∨ next node = right') := by
  match l, r, hl, hr with
  | [], [], hnone, hnone' =>
    obtain rfl := hnone
    obtain rfl := hnone'
    exact .inl ⟨rfl, rfl, rfl⟩
  | a :: l, [], ⟨hlist, hl'⟩, hnone =>
    obtain rfl := hlist
    obtain rfl := hnone
    exact .inr ⟨a, _, _, l, [], rfl, hl', rfl, by simp, by simp, .inl rfl⟩
  | [], b :: r, hnone, ⟨hright, hr'⟩ =>
    obtain rfl := hnone
    obtain rfl := hright
    exact .inr ⟨b, _, _, [], r, rfl, rfl, hr', by simp, by simp, .inr rfl⟩
  | a :: l, b :: r, ⟨hlist, hl'⟩, ⟨hright, hr'⟩ =>
    obtain rfl := hlist
    obtain rfl := hright
    right
    rw [pick, cons_merge_cons]
    by_cases hab : name a ≤ name b
    · rw [if_pos ((cmpifaddrs_lt_one name a b).2 hab), if_pos (by simpa [keyLe] using hab)]
      exact ⟨a, _, _, l, b :: r, rfl, hl', ⟨rfl, hr'⟩, rfl, .refl _, .inl rfl⟩
    · rw [if_neg (mt (cmpifaddrs_lt_one name a b).1 hab), if_neg (by simpa [keyLe] using hab)]
      exact ⟨b, _, _, a :: l, r, rfl, ⟨rfl, hl'⟩, hr', rfl, perm_middle, .inr rfl⟩

variable [DecidableEq α]

/-- The merge behind a node that already belongs to the result. -/
theorem mergeLoop_chain {list : Option α} {t : α} (result : α) (hl : Chain next list l)
    (hr : Chain next right r) (hnodup : (t :: (l ++ r)).Nodup) (ht : next t = list ∨ next t = right)
    (hfuel : (l ++ r).length < fuel) :
    ∃ next', mergeLoop name fuel next list right (some result) (some t) =
        some (some result, next') ∧
      Chain next' (some t) (t :: l.merge r (keyLe name)) ∧
      ∀ x ∉ t :: (l ++ r), next' x = next x := by
  induction fuel generalizing next list right l r t with
  | zero => omega
  | succ fuel ih =>
    rcases pick_cases name hl hr with
      ⟨rfl, rfl, hpick⟩ | ⟨node, list', right', l', r', hpick, hl', hr', hmerge, hperm, hnode⟩
    · have hnull : next t = none := ht.elim (·.trans hl) (·.trans hr)
      exact ⟨next, by rw [mergeLoop, hpick], ⟨rfl, by simpa [Chain] using hnull⟩, fun _ _ => rfl⟩
    · have hnodup' : (t :: node :: (l' ++ r')).Nodup := (hperm.cons t).nodup_iff.1 hnodup
      obtain ⟨htout, hrest⟩ := nodup_cons.1 hnodup'
      have htnode : node ≠ t := fun h => htout (h ▸ mem_cons_self)
      have htl : t ∉ l' := fun h => htout (mem_cons_of_mem _ (mem_append_left _ h))
      have htr : t ∉ r' := fun h => htout (mem_cons_of_mem _ (mem_append_right _ h))
      have hlen := hperm.length_eq
      rw [length_cons] at hlen
      obtain ⟨next', hrun, hchain, hframe⟩ := ih (hl'.update (some node) htl)
        (hr'.update (some node) htr) hrest (by rwa [Function.update_of_ne htnode]) (by omega)
      refine ⟨next', ?_, ?_, fun x hx => ?_⟩
      · rw [mergeLoop, hpick]
        exact hrun
      · rw [hmerge]
        refine ⟨rfl, ?_⟩
        rw [hframe t htout, Function.update_self]
        exact hchain
      · have hxt : x ≠ t := fun h => hx (h ▸ mem_cons_self)
        have hxout : x ∉ node :: (l' ++ r') := fun h =>
          hx (mem_cons_of_mem _ (hperm.mem_iff.2 h))
        rw [hframe x hxout, Function.update_of_ne hxt]

theorem mergeLoop_start {list : Option α} (hl : Chain next list l) (hr : Chain next right r)
    (hnodup : (l ++ r).Nodup) (hfuel : (l ++ r).length < fuel) :
    ∃ next', mergeLoop name fuel next list right none none =
        some ((l.merge r (keyLe name)).head?, next') ∧
      Chain next' (l.merge r (keyLe name)).head? (l.merge r (keyLe name)) ∧
      ∀ x ∉ l ++ r, next' x = next x := by
  obtain ⟨fuel, rfl⟩ := Nat.exists_eq_succ_of_ne_zero (Nat.ne_zero_of_lt hfuel)
  rcases pick_cases name hl hr with
    ⟨rfl, rfl, hpick⟩ | ⟨node, list', right', l', r', hpick, hl', hr', hmerge, hperm, hnode⟩
  · exact ⟨next, by simp [mergeLoop, hpick], by simp [Chain], fun _ _ => rfl⟩
  · have hlen := hperm.length_eq
    rw [length_cons] at hlen
    obtain ⟨next', hrun, hchain, hframe⟩ := mergeLoop_chain node hl' hr' (hperm.nodup_iff.1 hnodup)
      hnode (by omega : (l' ++ r').length < fuel)
    refine ⟨next', ?_, ?_, fun x hx => hframe x fun h => hx (hperm.mem_iff.2 h)⟩
    · rw [mergeLoop, hpick, hmerge]
      exact hrun
    · rw [hmerge]
      exact hchain

/-! ## Sorting -/

/-- A run that leaves the chain of the nodes sorted by name, nodes of one name in their old order,
and every other pointer as it was. -/
def Sorts (name : α → Text) (next : Next α) (l : List α) (run : Option (Option α × Next α)) : Prop :=
  ∃ s next', run = some (s.head?, next') ∧ Chain next' s.head? s ∧ StableSort name l s ∧
    ∀ x ∉ l, next' x = next x

theorem sorts_pair {a b : α} (hab : next a = some b) (hb : next b = none) :
    Sorts name next [a, b] (sortifaddrs name (fuel + 1) next (some a)) := by
  have hne : a ≠ b := by
    rintro rfl
    simp [hb] at hab
  have hone (x : α) : StableSort name [x] [x] := .self_of_length_le (by simp)
  have hsort := (hone a).merge (hone b)
  rw [cons_merge_cons, nil_merge, merge_right] at hsort
  by_cases hle : name a ≤ name b
  · rw [if_pos (by simpa [keyLe] using hle)] at hsort
    refine ⟨[a, b], next, ?_, ⟨rfl, hab, hb⟩, hsort, fun _ _ => rfl⟩
    simp [sortifaddrs, hab, hb, cmpifaddrs_pos, hle]
  · rw [if_neg (by simpa [keyLe] using hle)] at hsort
    refine ⟨[b, a], Function.update (Function.update next a none) b (some a), ?_, ⟨rfl, ?_, ?_⟩,
      hsort, fun x hx => ?_⟩
    · simp [sortifaddrs, hab, hb, cmpifaddrs_pos, hle]
    · rw [Function.update_self]
    · simp [Chain, Function.update_of_ne hne]
    · simp only [mem_cons, not_mem_nil, or_false, not_or] at hx
      rw [Function.update_of_ne hx.2, Function.update_of_ne hx.1]

theorem sorts_merge {next₀ : Next α} {s₁ s₂ : List α} (h₁ : Chain next s₁.head? s₁)
    (h₂ : Chain next s₂.head? s₂) (hs₁ : StableSort name l₁ s₁) (hs₂ : StableSort name l₂ s₂)
    (hnodup : (l₁ ++ l₂).Nodup) (hfuel : (l₁ ++ l₂).length < fuel)
    (hframe : ∀ x ∉ l₁ ++ l₂, next x = next₀ x) :
    Sorts name next₀ (l₁ ++ l₂) (mergeLoop name fuel next s₁.head? s₂.head? none none) := by
  have hperm : (s₁ ++ s₂).Perm (l₁ ++ l₂) := hs₁.perm.append hs₂.perm
  obtain ⟨next', hrun, hchain, hframe'⟩ := mergeLoop_start h₁ h₂ (hperm.nodup_iff.2 hnodup)
    (hperm.length_eq ▸ hfuel)
  refine ⟨_, next', hrun, hchain, hs₁.merge hs₂, fun x hx => ?_⟩
  rw [hframe' x (mt hperm.mem_iff.1 hx), hframe x hx]

/-- Both halves sorted, one after the other, with the chain cut between them. -/
theorem sorts_halves {e : α} (h : Chain next p (l₁ ++ e :: l₂))
    (hfuel : (l₁ ++ e :: l₂).length < fuel)
    (ih : ∀ {next : Next α} {p : Option α} {l : List α}, Chain next p l → l.length < (l₁ ++ e :: l₂).length → Sorts name next l (sortifaddrs name fuel next p))
    (hlen₁ : (l₁ ++ [e]).length < (l₁ ++ e :: l₂).length)
    (hlen₂ : l₂.length < (l₁ ++ e :: l₂).length) : Sorts name next (l₁ ++ e :: l₂) (do
      let r₁ ← sortifaddrs name fuel (Function.update next e none) p
      let r₂ ← sortifaddrs name fuel r₁.2 l₂.head?
      mergeLoop name fuel r₂.2 r₁.1 r₂.1 none none) := by
  have hjoin : l₁ ++ e :: l₂ = (l₁ ++ [e]) ++ l₂ := by simp
  have hnodup : ((l₁ ++ [e]) ++ l₂).Nodup := hjoin ▸ h.nodup
  have hdisjoint := (nodup_append.1 hnodup).2.2
  obtain ⟨hcut₁, hcut₂⟩ := h.cut
  rw [hcut₂.head_eq] at hcut₂
  obtain ⟨s₁, next₁, hrun₁, hchain₁, hsort₁, hframe₁⟩ := ih hcut₁ hlen₁
  -- the first half is sorted without touching the second, and the other way round
  obtain ⟨s₂, next₂, hrun₂, hchain₂, hsort₂, hframe₂⟩ := ih
    (hcut₂.congr fun x hx => hframe₁ x fun hx' => hdisjoint x hx' x hx rfl) hlen₂
  have hkept₁ : Chain next₂ s₁.head? s₁ := hchain₁.congr fun x hx =>
    hframe₂ x fun hx' => hdisjoint x (hsort₁.perm.mem_iff.1 hx) x hx' rfl
  rw [hrun₁, Option.bind_eq_bind, Option.bind_some, hrun₂]
  rw [hjoin] at hfuel ⊢
  refine sorts_merge hkept₁ hchain₂ hsort₁ hsort₂ hnodup hfuel fun x hx => ?_
  rw [mem_append, not_or] at hx
  have hne : x ≠ e := by
    rintro rfl
    exact hx.1 (mem_append_right _ mem_cons_self)
  calc next₂ x = next₁ x := hframe₂ x hx.2
    _ = Function.update next e none x := hframe₁ x hx.1
    _ = next x := by rw [Function.update_of_ne hne]

/-- **`sortifaddrs` sorts** any chain, with enough fuel. -/
theorem sorts_sortifaddrs (name : α → Text) (h : Chain next p l) (hfuel : l.length + 1 < fuel) :
    Sorts name next l (sortifaddrs name fuel next p) := by
  induction fuel generalizing next p l with
  | zero => omega
  | succ fuel ih =>
    match l, h with
    | [], hnone =>
      obtain rfl := hnone
      exact ⟨[], next, rfl, rfl, .self_of_length_le (by simp), fun _ _ => rfl⟩
    | [a], ⟨hp, hnone⟩ =>
      obtain rfl := hp
      have hnull : next a = none := hnone
      exact ⟨[a], next, by simp [sortifaddrs, hnull], ⟨rfl, hnull⟩,
        .self_of_length_le (by simp), fun _ _ => rfl⟩
    | [a, b], ⟨hp, hab, hnone⟩ =>
      obtain rfl := hp
      exact sorts_pair hab hnone
    | a :: b :: c :: l, hchain =>
      have hthree : 3 ≤ (a :: b :: c :: l).length := by simp
      have hshort : (a :: b :: c :: l).length < fuel := by omega
      obtain ⟨l₁, e, l₂, hsplit, hlast, hright, hlen₁, hlen₂⟩ := exists_middle hthree
      have hmid : splitLoop next fuel p p p = some (some e, l₂.head?) := by
        rw [splitLoop_eq hchain hchain le_rfl (by omega), if_neg (by omega), hlast, hright]
      have hrun : sortifaddrs name (fuel + 1) next p = (do
          let r₁ ← sortifaddrs name fuel (Function.update next e none) p
          let r₂ ← sortifaddrs name fuel r₁.2 l₂.head?
          mergeLoop name fuel r₂.2 r₁.1 r₂.1 none none) := by
        obtain ⟨rfl, hab, hbc, -⟩ := hchain
        simp only [sortifaddrs, hab, hbc, hmid]
        rfl
      rw [hrun]
      rw [hsplit] at hchain hlen₁ hlen₂ hshort ⊢
      exact sorts_halves hchain hshort (fun hc hlt => ih hc (by omega)) hlen₁ hlen₂

end FreeSense.PhpModule
