import FreeSensePorts.CheckReload.Parser

/-!
# Blanks and words in a command line

A line is cut at each blank, and a run of blanks leaves empty pieces.  `socket_read_command` drops
these but counts them: `argc` and the entry of `argv` that is taken as the argument are too large by
their number (`empties`).  `serveLine_run_iff` says what is run, with which argument.
-/

namespace FreeSense.CheckReload

open List

variable {ws : List Text} {c : Command} {arg : Arg} {w : Text} {line : Text}

/-! ## Pieces and words -/

def pieces (line : Text) : List Text := line.splitOnP isBlank

def words (line : Text) : List Text := (pieces line).filter (· ≠ [])

/-- How many pieces are empty. -/
def empties (line : Text) : ℕ := (pieces line).count []

lemma pieces_last (h : ∀ c ∈ w, isBlank c = false) : pieces w = [w] :=
  splitOnP_eq_singleton h

lemma pieces_append (h : ∀ c ∈ w, isBlank c = false) {b : Char} (hb : isBlank b = true)
    (rest : Text) : pieces (w ++ b :: rest) = w :: pieces rest :=
  splitOnP_append_cons_of_forall_mem h b hb rest

lemma pieces_ne_nil (line : Text) : pieces line ≠ [] := splitOnP_ne_nil _ _

lemma length_pieces (line : Text) :
    (pieces line).length = (words line).length + empties line := by
  rw [words, empties, ← countP_eq_length_filter, Nat.add_comm,
    length_eq_countP_add_countP (· == [])]
  congr 1
  exact countP_congr fun p _ => by cases p <;> simp

def spaced : List Text → Text
  | [] => []
  | [w] => w
  | w :: ws => w ++ ' ' :: spaced ws

def IsWord (w : Text) : Prop := w ≠ [] ∧ ∀ c ∈ w, isBlank c = false

lemma pieces_spaced (hws : ∀ w ∈ ws, IsWord w) (hne : ws ≠ []) : pieces (spaced ws) = ws := by
  induction ws with
  | nil => exact absurd rfl hne
  | cons w ws ih =>
    obtain ⟨-, hw⟩ := hws w mem_cons_self
    cases ws with
    | nil => exact pieces_last hw
    | cons v vs =>
      rw [spaced, pieces_append hw rfl,
        ih (fun u hu => hws u (mem_cons_of_mem _ hu)) (cons_ne_nil _ _)]
      exact cons_ne_nil _ _

lemma words_eq_of_pieces (h : [] ∉ pieces line) : words line = pieces line := by
  rw [words, filter_eq_self]
  intro p hp
  exact decide_eq_true fun hnil => h (hnil ▸ hp)

lemma words_last (h : ∀ c ∈ w, isBlank c = false) : words w = if w ≠ [] then [w] else [] := by
  rw [words, pieces_last h]
  by_cases hw : w = [] <;> simp [hw]

lemma words_append (h : ∀ c ∈ w, isBlank c = false) {b : Char} (hb : isBlank b = true) (rest : Text) :
    words (w ++ b :: rest) = if w ≠ [] then w :: words rest else words rest := by
  rw [words, pieces_append h hb, filter_cons, ← words]
  by_cases hw : w = [] <;> simp [hw]

lemma mem_words (line : Text) : ∀ w ∈ words line, IsWord w ∧ ∀ c ∈ w, c ∈ line := by
  induction line using pieces_induction isBlank with
  | last piece h =>
    rw [words_last h]
    split_ifs with hne
    · intro w hw
      rw [mem_singleton.mp hw]
      exact ⟨⟨hne, h⟩, fun c hc => hc⟩
    · exact fun w hw => absurd hw not_mem_nil
  | step piece b rest h hb ih =>
    rw [words_append h hb]
    have hrest : ∀ w ∈ words rest, IsWord w ∧ ∀ c ∈ w, c ∈ piece ++ b :: rest := fun w hw =>
      ⟨(ih w hw).1, fun c hc =>
        mem_append_right _ (mem_cons_of_mem _ ((ih w hw).2 c hc))⟩
    split_ifs with hne
    · exact forall_mem_cons.mpr ⟨⟨⟨hne, h⟩, fun c hc => mem_append_left _ hc⟩, hrest⟩
    · exact hrest

lemma length_spaced_cons (w : Text) (ws : List Text) :
    (spaced (w :: ws)).length ≤ w.length + 1 + (spaced ws).length := by
  cases ws with
  | nil => simp [spaced]
  | cons v vs =>
    rw [spaced]
    · simp only [length_append, length_cons]
      omega
    · exact cons_ne_nil _ _

lemma length_spaced_words (line : Text) : (spaced (words line)).length ≤ line.length := by
  induction line using pieces_induction isBlank with
  | last piece h =>
    rw [words_last h]
    split_ifs
    · exact le_rfl
    · exact Nat.zero_le _
  | step piece b rest h hb ih =>
    rw [words_append h hb, length_append, length_cons]
    split_ifs
    · have := length_spaced_cons piece (words rest)
      omega
    · omega

lemma length_le_spaced (hws : ∀ w ∈ ws, IsWord w) : ws.length ≤ (spaced ws).length := by
  induction ws with
  | nil => exact le_rfl
  | cons w ws ih =>
    have hw := length_pos_iff.mpr (hws w mem_cons_self).1
    have hrest := ih fun u hu => hws u (mem_cons_of_mem _ hu)
    cases ws with
    | nil => exact hw
    | cons v vs =>
      rw [spaced]
      · simp only [length_append, length_cons] at hrest ⊢
        omega
      · exact cons_ne_nil _ _

/-! ## A line -/

lemma collect_eq {ps : List Text} {ap i : ℕ} (h : ap + (ps.filter (· ≠ [])).length < bufsize) :
    collect ap i ps = (ps.filter (· ≠ []), i + ps.length) := by
  induction ps generalizing ap i with
  | nil => rfl
  | cons p ps ih =>
    rw [collect, filter_cons]
    rw [filter_cons] at h
    by_cases hp : p ≠ []
    · rw [if_pos (decide_eq_true hp), length_cons] at h
      rw [if_pos hp, if_pos (decide_eq_true hp), if_neg (by omega), ih (by omega), length_cons]
      simp only [Nat.add_assoc, Nat.add_comm 1]
    · rw [if_neg (ne_true_of_eq_false (decide_eq_false hp))] at h
      rw [if_neg hp, if_neg (ne_true_of_eq_false (decide_eq_false hp)), ih h, length_cons]
      simp only [Nat.add_assoc, Nat.add_comm 1]

/-- **What is run for a line**: the leaf its words lead to, with the entry of `argv` behind as many
words as there are empty pieces. -/
lemma serveLine_run_iff (h : (words line).length < bufsize) : serveLine line = .run c arg ↔
      (∃ l, c = .leaf l ∧ Serves firstLevel (empties line) (words line) l) ∧
        arg = argAt (words line) ((words line).length + empties line - 1) := by
  have hcollect : collect 0 0 (line.splitOnP isBlank)
      = (words line, (words line).length + empties line) := by
    rw [← pieces, collect_eq (by rwa [Nat.zero_add]), Nat.zero_add, length_pieces, words]
  have hpos : 0 < (words line).length + empties line := by
    rw [← length_pieces]
    exact length_pos_iff.mpr (pieces_ne_nil line)
  have hparse : parseLoop firstLevel ((words line).length + empties line - 1) (words line) = .ok c ↔
      ∃ l, c = .leaf l ∧ Serves firstLevel (empties line) (words line) l :=
    parseLoop_ok_iff properLevel_firstLevel
  rw [serveLine, hcollect]
  dsimp only
  rw [if_pos hpos]
  have hargc : (((words line).length + empties line - 1 : ℕ) : ℤ)
      = (words line).length + empties line - 1 := by omega
  rw [← hparse, parseCommand, hargc]
  cases parseLoop firstLevel ((words line).length + empties line - 1) (words line) with
  | error e => simp
  | ok cmd => simp [eq_comm]

/-- What every error begins with. -/
def errorMark : Text := "ERROR:\t".toList

lemma errstring_eq (e : ParseError) : ∃ rest, e.errstring.toList = errorMark ++ rest := by
  cases e
  · exact ⟨"No match found.\n".toList, by decide +kernel⟩
  · exact ⟨"extra arguments passed.\n".toList, by decide +kernel⟩
  · exact ⟨"incomplete command.\n".toList, by decide +kernel⟩

lemma serveLine_error (h : ∀ c arg, serveLine line ≠ .run c arg) :
    ∃ answer, serveLine line = .error (errorMark ++ answer) := by
  rw [serveLine] at h ⊢
  dsimp only at h ⊢
  split at h
  · rename_i e list _
    obtain ⟨rest, hrest⟩ := errstring_eq e
    exact ⟨rest ++ showCommandList list, by rw [hrest, append_assoc]⟩
  · exact absurd rfl (h _ _)

/-! ## What is read -/

def isPrintable (c : Char) : Bool := c = '\t' ∨ 32 ≤ c.toNat ∧ c.toNat ≤ 126

/-- A line, and how it may end, in the buffer. -/
structure Sent (line ending : Text) : Prop where
  printable : ∀ c ∈ line, isPrintable c = true
  short : line.length < bufsize
  fits : (line ++ ending).length ≤ bufsize
  ends : ending = [] ∨ ending = ['\n'] ∨ ending = ['\r', '\n']

lemma isAllowed_of_printable {c : Char} (h : isPrintable c = true) : isAllowed c = true := by
  simp only [isPrintable, isAllowed, Text.isSpace, decide_eq_true_eq] at h ⊢
  rcases h with rfl | h
  · exact .inr (.inl (by decide))
  · by_cases hspace : c = ' '
    · exact .inr (.inl (.inl hspace))
    · have hne : c.toNat ≠ 32 := fun hc => hspace (Char.toNat_inj.mp hc)
      exact .inr (.inr (.inr (by omega)))

lemma ne_of_printable {c : Char} (h : isPrintable c = true) : c ≠ '\n' ∧ c ≠ '\r' ∧ c ≠ nul := by
  refine ⟨?_, ?_, ?_⟩ <;>
    · rintro rfl
      exact absurd h (by decide)

section Sent

variable {line ending : Text} (h : Sent line ending)

include h

lemma Sent.not_mem : '\n' ∉ line ∧ '\r' ∉ line :=
  ⟨fun hn => (ne_of_printable (h.printable _ hn)).1 rfl,
    fun hr => (ne_of_printable (h.printable _ hr)).2.1 rfl⟩

lemma Sent.cutEnd_eq : ∃ n rest,
    cutEnd (line ++ ending).length (line ++ ending) = (n, line ++ rest) ∧ n - 1 ≤ line.length ∧
      (rest = [] ∨ rest.head? = some nul) ∧ (line ++ rest).length = (line ++ ending).length := by
  rcases h.ends with rfl | rfl | rfl
  · refine ⟨line.length, [], ?_, Nat.sub_le _ _, .inl rfl, rfl⟩
    rw [append_nil, cutEnd, if_neg fun hn => h.not_mem.1 (mem_of_getElem? hn)]
    exact if_neg fun hr => h.not_mem.2 (mem_of_getElem? hr.2)
  · refine ⟨line.length + 1, [nul], ?_, le_rfl, .inr rfl, by simp⟩
    have hlast : (line ++ ['\n'])[line.length + 1 - 1]? = some '\n' := by simp
    have hset : (line ++ ['\n']).set (line.length + 1 - 1) nul = line ++ [nul] := by simp
    rw [length_append, length_singleton, cutEnd, if_pos hlast, hset]
    refine if_neg fun hr => ?_
    rw [getElem?_append_left (by omega)] at hr
    exact h.not_mem.2 (mem_of_getElem? hr.2)
  · refine ⟨line.length + 1, [nul, nul], ?_, le_rfl, .inr rfl, by simp⟩
    have hlast : (line ++ ['\r', '\n'])[line.length + 2 - 1]? = some '\n' := by simp
    have hset : (line ++ ['\r', '\n']).set (line.length + 2 - 1) nul = line ++ ['\r', nul] := by simp
    have hreturn : (line ++ ['\r', nul])[line.length + 2 - 2]? = some '\r' := by simp
    have hset' : (line ++ ['\r', nul]).set (line.length + 2 - 2) nul = line ++ [nul, nul] := by simp
    have hlen : (line ++ ['\r', '\n']).length = line.length + 2 := by simp
    rw [hlen, cutEnd, if_pos hlast, hset, if_pos ⟨by omega, hreturn⟩, hset']
    rfl

/-- **A line that is sent** is served, from its first character to its last. -/
lemma Sent.serveData_eq (beyond : Text) : serveData beyond (line ++ ending) = serveLine line := by
  obtain ⟨n, rest, hcut, hn, hrest, hlen⟩ := h.cutEnd_eq
  have hallowed : ((line ++ rest).take (n - 1)).all isAllowed = true := by
    rw [take_append_of_le_length hn, all_eq_true]
    exact fun c hc => isAllowed_of_printable (h.printable c (mem_of_mem_take hc))
  have hline : ∀ c ∈ line, decide (c ≠ nul) = true := fun c hc =>
    decide_eq_true (ne_of_printable (h.printable c hc)).2.2
  rw [serveData, hcut]
  dsimp only
  rw [if_pos hallowed, append_assoc, takeWhile_append_of_pos hline]
  rcases hrest with rfl | hrest
  · rw [append_nil, if_pos h.short]
    simp
  · cases rest with
    | nil => cases hrest
    | cons c cs =>
      obtain rfl : c = nul := Option.some.inj hrest
      simp

end Sent

/-- What is run. -/
def Outcome.ran : Outcome → Option (Command × Arg)
  | .run c arg => some (c, arg)
  | _ => none

lemma Outcome.ran_eq_some {o : Outcome} : o.ran = some (c, arg) ↔ o = .run c arg := by
  cases o <;> simp [ran]

lemma Sent.socketReadCommand_eq {line ending : Text} (h : Sent line ending)
    (hne : line ++ ending ≠ []) (beyond : Text) :
    socketReadCommand beyond false [.data (line ++ ending)] = serveLine line := by
  have hread : readRequest 0 [.data (line ++ ending)] = some (line ++ ending) := by
    rw [readRequest, if_neg hne, take_of_length_le h.fits]
  rw [socketReadCommand, hread]
  exact h.serveData_eq beyond

lemma Sent.ran_eq {line ending : Text} (h : Sent line ending) (beyond : Text) :
    (socketReadCommand beyond false [.data (line ++ ending)]).ran = (serveLine line).ran := by
  by_cases hne : line ++ ending = []
  · obtain ⟨rfl, rfl⟩ := append_eq_nil_iff.mp hne
    rfl
  · rw [h.socketReadCommand_eq hne]

/-! ## Words separated by single blanks -/

lemma Serves.exact {level : List Command} {e : ℕ} {l : Leaf} (h : Serves level e ws l) :
    Serves level 0 ws l := by
  rcases h with ⟨hpath, htype, -⟩ | ⟨-, hpath⟩
  · exact .inl ⟨hpath, htype, Nat.zero_le _⟩
  · exact .inr ⟨rfl, hpath⟩

lemma words_spaced (hws : ∀ w ∈ ws, IsWord w) : words (spaced ws) = ws := by
  by_cases hne : ws = []
  · rw [hne]
    rfl
  · have hpieces := pieces_spaced hws hne
    have hnot : [] ∉ pieces (spaced ws) := by
      rw [hpieces]
      exact fun hnil => (hws [] hnil).1 rfl
    rw [words_eq_of_pieces hnot, hpieces]

lemma empties_eq_zero : empties line = 0 ↔ [] ∉ pieces line := count_eq_zero

lemma serveLine_spaced_iff (hws : ∀ w ∈ ws, IsWord w) (h : ws.length < bufsize) :
    serveLine (spaced ws) = .run c arg ↔
      (∃ l, c = .leaf l ∧ Serves firstLevel 0 ws l) ∧ arg = argAt ws (ws.length - 1) := by
  have hwords := words_spaced hws
  rw [serveLine_run_iff (by rwa [hwords]), hwords]
  by_cases hne : ws = []
  · rw [hne]
    refine iff_of_false ?_ ?_ <;>
      · rintro ⟨⟨l, -, h⟩, -⟩
        exact not_serves_nil h
  · have hempties : empties (spaced ws) = 0 := by
      rw [empties_eq_zero, pieces_spaced hws hne]
      exact fun hnil => (hws [] hnil).1 rfl
    rw [hempties, Nat.add_zero]

/-- **The grammar**: a path to a leaf, and one more word if its type takes an argument. -/
def Accepts (ws : List Text) (l : Leaf) : Prop :=
  (l.type = .NON ∧ Path firstLevel ws l) ∨
    (l.type ≠ .NON ∧ ∃ path w, Path firstLevel path l ∧ ws = path ++ [w])

lemma Accepts.serves {l : Leaf} (h : Accepts ws l) : Serves firstLevel 0 ws l := by
  rcases h with ⟨htype, hpath⟩ | ⟨-, hpath⟩
  · exact .inl ⟨hpath, htype, Nat.zero_le _⟩
  · exact .inr ⟨rfl, hpath⟩

def Overlong (ws : List Text) : Prop :=
  ∃ path l w, Path firstLevel path l ∧ l.type = .NON ∧ ws = path ++ [w]

lemma Overlong.not_accepts (h : Overlong ws) (l : Leaf) : ¬Accepts ws l := by
  obtain ⟨path, l₀, w, hpath, htype, rfl⟩ := h
  rintro (⟨-, hlong⟩ | ⟨hne, path', w', hpath', heq⟩)
  · exact absurd (hpath.unique properLevel_firstLevel hlong).1 (cons_ne_nil _ _)
  · obtain ⟨rfl, -⟩ := append_inj' heq rfl
    have hsame : l = l₀ := by
      rw [← append_nil path] at hpath'
      exact (hpath.unique properLevel_firstLevel hpath').2
    exact hne (hsame ▸ htype)

lemma accepts_of_serves {l : Leaf} (hlong : ¬Overlong ws) (h : Serves firstLevel 0 ws l) :
    Accepts ws l := by
  rcases h with ⟨hpath, htype, -⟩ | ⟨-, path, w, hpath, hws⟩
  · exact .inl ⟨htype, hpath⟩
  · exact .inr ⟨fun htype => hlong ⟨path, l, w, hpath, htype, hws⟩, path, w, hpath, hws⟩

/-- What the words should do. -/
structure Agrees (ws : List Text) : Prop where
  parse : ∀ c, parseCommand (ws.length - 1) ws = .ok c ↔ ∃ l, c = .leaf l ∧ Accepts ws l
  other : (∀ l, ¬Accepts ws l) → (∀ w ∈ ws, IsWord w) →
    ∀ ending beyond, Sent (spaced ws) ending → ∃ answer,
      socketReadCommand beyond false [.data (spaced ws ++ ending)] = .error (errorMark ++ answer)

/-- **Commands are taken by their grammar** exactly if they are not one word too long. -/
theorem agrees_iff {ws : List Text} (hne : ws ≠ []) : Agrees ws ↔ ¬Overlong ws := by
  have hargc : ((ws.length - 1 : ℕ) : ℤ) = ws.length + (0 : ℕ) - 1 := by
    have := length_pos_iff.mpr hne
    omega
  have hparse : ∀ c, parseCommand (ws.length - 1) ws = .ok c ↔
      ∃ l, c = .leaf l ∧ Serves firstLevel 0 ws l := by
    intro c
    rw [parseCommand, hargc]
    exact parseLoop_ok_iff properLevel_firstLevel
  constructor
  · intro h hlong
    obtain ⟨path, l, w, hpath, -, hws⟩ := id hlong
    have hserves : Serves firstLevel 0 ws l := .inr ⟨rfl, path, w, hpath, hws⟩
    obtain ⟨l', -, haccepts⟩ := (h.parse (.leaf l)).mp ((hparse _).mpr ⟨l, rfl, hserves⟩)
    exact hlong.not_accepts l' haccepts
  · intro hlong
    refine ⟨fun c => ?_, fun hnone hwords ending beyond hsent => ?_⟩
    · rw [hparse]
      exact ⟨fun ⟨l, hc, h⟩ => ⟨l, hc, accepts_of_serves hlong h⟩, fun ⟨l, hc, h⟩ => ⟨l, hc, h.serves⟩⟩
    · have hlength := length_le_spaced hwords
      have hdata : spaced ws ++ ending ≠ [] := by
        refine append_ne_nil_of_left_ne_nil (length_pos_iff.mp ?_) _
        exact (length_pos_iff.mpr hne).trans_le hlength
      rw [hsent.socketReadCommand_eq hdata]
      refine serveLine_error fun c arg hrun => ?_
      obtain ⟨⟨l, -, hserves⟩, -⟩ :=
        (serveLine_spaced_iff hwords (hlength.trans_lt hsent.short)).mp hrun
      exact hnone l (accepts_of_serves hlong hserves)

theorem agrees_iff_reload : Agrees ["interface".toList, "reload".toList, "wan".toList] := by
  have hpath : Path firstLevel ["interface".toList, "reload".toList] interfaceReload :=
    .level (mem_cons_of_mem _ mem_cons_self) (.leaf (mem_cons_of_mem _ mem_cons_self))
  have haccepts : Accepts ["interface".toList, "reload".toList, "wan".toList] interfaceReload :=
    .inr ⟨nofun, _, _, hpath, rfl⟩
  exact (agrees_iff (by decide)).mpr fun h => h.not_accepts _ haccepts

/-- **A word too many is not noticed.**  `filter reload` takes no argument, and is run with one. -/
theorem extra_word_run :
    socketReadCommand [] false [.data "filter reload now\n".toList]
        = .run (.leaf filterReload) (.word "now".toList) ∧
      Path firstLevel ["filter".toList, "reload".toList] filterReload ∧ filterReload.type = .NON ∧
      ∀ l, ¬Accepts ["filter".toList, "reload".toList, "now".toList] l := by
  have hpath : Path firstLevel ["filter".toList, "reload".toList] filterReload :=
    .level mem_cons_self (.leaf mem_cons_self)
  have hlong : Overlong ["filter".toList, "reload".toList, "now".toList] :=
    ⟨_, _, _, hpath, rfl, rfl⟩
  exact ⟨rfl, hpath, rfl, hlong.not_accepts⟩

/-! ## Blanks -/

lemma argAt_last (hne : ws ≠ []) :
    ∃ w, ws.getLast? = some w ∧ argAt ws (ws.length - 1) = .word w := by
  refine ⟨ws.getLast hne, getLast?_eq_some_getLast hne, ?_⟩
  rw [argAt, ← getLast?_eq_getElem?, getLast?_eq_some_getLast hne]

lemma argAt_ne_word {k : ℕ} (hk : ws.length ≤ k) (w : Text) : argAt ws k ≠ .word w := by
  rw [argAt, getElem?_eq_none hk]
  split_ifs <;> exact fun h => by cases h

lemma mem_spaced {c : Char} (hc : c ∈ spaced ws) : c = ' ' ∨ ∃ w ∈ ws, c ∈ w := by
  induction ws with
  | nil => exact absurd hc not_mem_nil
  | cons w ws ih =>
    cases ws with
    | nil => exact .inr ⟨w, mem_cons_self, hc⟩
    | cons v vs =>
      rw [spaced, mem_append, mem_cons] at hc
      · rcases hc with hc | rfl | hc
        · exact .inr ⟨w, mem_cons_self, hc⟩
        · exact .inl rfl
        · rcases ih hc with hc | ⟨u, hu, hc⟩
          · exact .inl hc
          · exact .inr ⟨u, mem_cons_of_mem _ hu, hc⟩
      · exact cons_ne_nil _ _

section Blanks

variable {line ending : Text} (h : Sent line ending)

include h

lemma Sent.spaced_words : Sent (spaced (words line)) [] where
  printable c hc := by
    rcases mem_spaced hc with rfl | ⟨w, hw, hc⟩
    · rfl
    · exact h.printable c ((mem_words line w hw).2 c hc)
  short := (length_spaced_words line).trans_lt h.short
  fits := by
    rw [append_nil]
    exact (length_spaced_words line).trans h.short.le
  ends := .inl rfl

lemma Sent.length_words : (words line).length < bufsize :=
  (length_le_spaced fun w hw => (mem_words line w hw).1).trans_lt h.spaced_words.short

lemma Sent.ran_iff {beyond : Text} :
    (socketReadCommand beyond false [.data (line ++ ending)]).ran = some (c, arg) ↔
      (∃ l, c = .leaf l ∧ Serves firstLevel (empties line) (words line) l) ∧
        arg = argAt (words line) ((words line).length + empties line - 1) := by
  rw [h.ran_eq, Outcome.ran_eq_some, serveLine_run_iff h.length_words]

lemma Sent.ran_spaced_iff {beyond : Text} :
    (socketReadCommand beyond false [.data (spaced (words line))]).ran = some (c, arg) ↔
      (∃ l, c = .leaf l ∧ Serves firstLevel 0 (words line) l) ∧
        arg = argAt (words line) ((words line).length - 1) := by
  have hspaced := h.spaced_words.ran_eq beyond
  rw [append_nil] at hspaced
  rw [hspaced, Outcome.ran_eq_some,
    serveLine_spaced_iff (fun w hw => (mem_words line w hw).1) h.length_words]

end Blanks

/-- **A line is served as its words are**, with the last of them as the argument, exactly if no blank
in it is too many, or its words are no command. -/
theorem served_as_words_iff {line ending : Text} (h : Sent line ending) (beyond : Text) :
    ((socketReadCommand beyond false [.data (line ++ ending)]).ran
          = (socketReadCommand beyond false [.data (spaced (words line))]).ran ∧
        ∀ c arg, (socketReadCommand beyond false [.data (line ++ ending)]).ran = some (c, arg) →
          ∃ w, (words line).getLast? = some w ∧ arg = .word w) ↔
      [] ∉ pieces line ∨ ∀ l, ¬Serves firstLevel 0 (words line) l := by
  have hne : ∀ {e l}, Serves firstLevel e (words line) l → words line ≠ [] := by
    intro e l hserves hnil
    rw [hnil] at hserves
    exact not_serves_nil hserves
  by_cases hempties : empties line = 0
  · refine iff_of_true ⟨Option.ext fun x => ?_, fun c arg hran => ?_⟩ (.inl (empties_eq_zero.mp hempties))
    · rw [h.ran_iff, h.ran_spaced_iff, hempties, Nat.add_zero]
    · obtain ⟨⟨l, -, hserves⟩, rfl⟩ := h.ran_iff.mp hran
      rw [hempties]
      exact argAt_last (hne hserves)
  · rw [or_iff_right fun hnot => hempties (empties_eq_zero.mpr hnot)]
    constructor
    · -- the argument is not the same
      rintro ⟨hsame, -⟩ l hserves
      obtain ⟨w, -, hw⟩ := argAt_last (hne hserves)
      rw [h.ran_spaced_iff.mpr ⟨⟨l, rfl, hserves⟩, rfl⟩, h.ran_iff, hw] at hsame
      exact argAt_ne_word (by omega) w hsame.2.symm
    · intro hnone
      have hran : ∀ c arg,
          (socketReadCommand beyond false [.data (line ++ ending)]).ran ≠ some (c, arg) := by
        intro c arg hran
        obtain ⟨⟨l, -, hserves⟩, -⟩ := h.ran_iff.mp hran
        exact hnone l hserves.exact
      refine ⟨Option.ext fun x => iff_of_false (hran x.1 x.2) fun hspaced => ?_,
        fun c arg hline => absurd hline (hran c arg)⟩
      obtain ⟨⟨l, -, hserves⟩, -⟩ := h.ran_spaced_iff.mp hspaced
      exact hnone l hserves

theorem served_as_words_iff_tab :
    let line := "interface\treload wan".toList
    let ran := (socketReadCommand [] false [.data (line ++ ['\n'])]).ran
    ran = (socketReadCommand [] false [.data (spaced (words line))]).ran ∧
      ∀ c arg, ran = some (c, arg) → ∃ w, (words line).getLast? = some w ∧ arg = .word w :=
  (served_as_words_iff
    ⟨all_eq_true.mp (by decide +kernel), by decide +kernel, by decide +kernel, .inr (.inl rfl)⟩ []).mpr
    (.inl (by decide +kernel))

/-- **A second blank changes the command.**  `interface reload wan` is run, and with another blank in
it there are too many arguments.  `filter reload` is run as well with a second blank, and is given a
pointer in place of its last word, `NULL`. -/
theorem second_blank_counts :
    (socketReadCommand [] false [.data "interface reload wan\n".toList]).ran
        = some (.leaf interfaceReload, .word "wan".toList) ∧
      (socketReadCommand [] false [.data "interface  reload wan\n".toList]).ran = none ∧
      (socketReadCommand [] false [.data "filter reload\n".toList]).ran
        = some (.leaf filterReload, .word "reload".toList) ∧
      (socketReadCommand [] false [.data "filter  reload\n".toList]).ran
        = some (.leaf filterReload, .null) ∧
      words "interface  reload wan".toList = words "interface reload wan".toList ∧
      words "filter  reload".toList = words "filter reload".toList :=
  ⟨rfl, rfl, rfl, rfl, by decide +kernel, by decide +kernel⟩

end FreeSense.CheckReload
