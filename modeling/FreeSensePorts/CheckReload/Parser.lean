import FreeSensePorts.CheckReload.Queue

/-!
# The commands a client can send

`socket_read_command`, `parse_command` and `match_command`, from what is read from a client to the
leaf of the table that is run, or to the answer.  The entry of `argv` behind its words is `NULL`, and
those behind that were never set (`Arg`).  If the line fills `buf`, what lies `beyond` it is read.

`Path` is the table as a grammar.  `parseLoop_ok_iff` says what is accepted when `argc` is too large
by `e`, which is what empty pieces between blanks do to it.
-/

namespace FreeSense.CheckReload

open List

variable {level : List Command} {words : List Text} {l : Leaf} {c : Command}

/-! ## The table -/

def Command.type : Command → ArgType
  | .level type _ _ => type
  | .leaf l => l.type

def Command.keyword : Command → Text
  | .level _ keyword _ => keyword.toList
  | .leaf l => l.keyword.toList

def Command.next : Command → Option (List Command)
  | .level _ _ next => some next
  | .leaf _ => none

def matchCommand (target : List Command) (wordpassed : Text) : Option Command :=
  target.find? fun c => c.keyword = wordpassed

/-! ## `show_command_list` -/

/-- What stands behind the keyword. -/
def ArgType.hint : ArgType → String
  | .NON => " <cr>\n"
  | .COMPOUND => "\n"
  | .ADDRESS => " <address>\n"
  | .PREFIX => " <address>[/len]\n"
  | .INTEGER => " <number>\n"
  | .IFNAME => " <interface>\n"
  | .STRING => " <string>\n"

def valueSize : ℕ := 2048

def showCommandList (list : List Command) : Text :=
  list.flatMap fun c => ('\t' :: c.keyword ++ c.type.hint.toList).take (valueSize - 1)

/-! ## `parse_command` -/

inductive ParseError
  | noMatch | extra | incomplete
  deriving DecidableEq, Repr

def ParseError.errstring : ParseError → String
  | .noMatch => "ERROR:\tNo match found.\n"
  | .extra => "ERROR:\textra arguments passed.\n"
  | .incomplete => "ERROR:\tincomplete command.\n"

/-- The loop over the words: a row, or the error with the level that is shown.  `argc` is not
negative when the loop is entered. -/
def parseLoop : List Command → ℤ → List Text → Except (ParseError × List Command) Command
  | start, _, [] => .error (.noMatch, start)
  | start, argc, word :: argv =>
    match matchCommand start word with
    | none => .error (.noMatch, start)
    | some found =>
      let argc := argc - 1
      if argc > 0 ∧ found.next.isNone then .error (.extra, start)
      else if argc < 0 ∧ found.type ≠ .NON then .error (.incomplete, found.next.getD start)
      else if argc = 0 ∧ argv = [] ∧ found.type ≠ .NON then
        .error (.incomplete, found.next.getD start)
      else
        match found.next with
        | none => .ok found
        | some next => if argc < 0 then .ok found else parseLoop next argc argv

def parseCommand (argc : ℕ) (argv : List Text) : Except (ParseError × List Command) Command :=
  parseLoop firstLevel argc argv

/-! ## `socket_read_command` -/

def bufsize : ℕ := 2048

def isBlank (c : Char) : Bool := c = ' ' ∨ c = '\t'

/-- The loop around `strsep`, with `ap` words kept and `i` pieces counted so far: the words of
`argv` from `ap` on, and `i` in the end. -/
def collect : ℕ → ℕ → List Text → List Text × ℕ
  | _, i, [] => ([], i)
  | ap, i, piece :: pieces =>
    if piece ≠ [] then
      if ap + 1 ≥ bufsize then ([piece], i)
      else
        let (argv, i) := collect (ap + 1) (i + 1) pieces
        (piece :: argv, i)
    else collect ap (i + 1) pieces

/-- An entry of `argv`. -/
inductive Arg
  | word (w : Text) | null | unset
  deriving DecidableEq, Repr

def argAt (argv : List Text) (k : ℕ) : Arg :=
  match argv[k]? with
  | some w => .word w
  | none => if k = argv.length then .null else .unset

/-- What becomes of a request. -/
inductive Outcome
  /-- The connection is closed. -/
  | closed
  /-- The connection is closed after this answer. -/
  | refused (answer : Text)
  | error (answer : Text)
  /-- `OK`, and the row is run with the argument. -/
  | run (cmd : Command) (arg : Arg)

/-- A line, from `strsep` on. -/
def serveLine (line : Text) : Outcome :=
  let (argv, i) := collect 0 0 (line.splitOnP isBlank)
  let (p, argc) := if i > 0 then (argAt argv (i - 1), i - 1) else (argAt argv i, i)
  match parseCommand argc argv with
  | .error (e, list) => .error (e.errstring.toList ++ showCommandList list)
  | .ok cmd => .run cmd p

def nul : Char := Char.ofNat 0

/-- The characters that `isalpha`, `isspace`, `isdigit` or `ispunct` is true of. -/
def isAllowed (c : Char) : Bool :=
  c.isAlpha ∨ Text.isSpace c ∨ c.isDigit ∨ (33 ≤ c.toNat ∧ c.toNat ≤ 126)

/-- The end of the line is cut off: `n`, and the buffer. -/
def cutEnd (n : ℕ) (buf : Text) : ℕ × Text :=
  let buf := if buf[n - 1]? = some '\n' then buf.set (n - 1) nul else buf
  if n > 1 ∧ buf[n - 2]? = some '\r' then (n - 1, buf.set (n - 2) nul) else (n, buf)

/-- A request that was read. -/
def serveData (beyond data : Text) : Outcome :=
  let (n, buf) := cutEnd data.length data
  if (buf.take (n - 1)).all isAllowed then
    let behind := if buf.length < bufsize then [] else beyond
    serveLine ((buf ++ behind).takeWhile (· ≠ nul))
  else .refused "ERROR:\tonly alphanumeric chars allowd".toList

/-- What `read` returns: `again` stands for `EWOULDBLOCK` and `EINTR`. -/
inductive ReadResult
  | failed (again : Bool)
  | data (bytes : Text)

/-- The part of `socket_read_command` up to a successful `read`. -/
def readRequest : ℕ → List ReadResult → Option Text
  | _, [] => none
  | _, .data bytes :: _ => if bytes = [] then none else some (bytes.take bufsize)
  | loop, .failed again :: results =>
    if again = false ∨ loop > 3 then none else readRequest (loop + 1) results

def socketReadCommand (beyond : Text) (timedOut : Bool) (results : List ReadResult) : Outcome :=
  if timedOut then .closed
  else
    match readRequest 0 results with
    | none => .closed
    | some data => serveData beyond data

/-! ## The table as a grammar -/

/-- The words lead from this level to the leaf. -/
inductive Path : List Command → List Text → Leaf → Prop
  | leaf {level : List Command} {l : Leaf} (h : .leaf l ∈ level) : Path level [l.keyword.toList] l
  | level {level next : List Command} {type : ArgType} {keyword : String} {words : List Text}
      {l : Leaf} (h : .level type keyword next ∈ level) (hnext : Path next words l) :
      Path level (keyword.toList :: words) l

mutual

/-- No row that leads to another level is `NON`. -/
def Command.proper : Command → Bool
  | .level type _ next => type ≠ .NON && properLevel next
  | .leaf _ => true

/-- No keyword stands twice in a level, here and below. -/
def properLevel : List Command → Bool
  | [] => true
  | c :: cs => c.proper && (cs.all fun d => d.keyword ≠ c.keyword) && properLevel cs

end

lemma properLevel_firstLevel : properLevel firstLevel = true := by
  decide +kernel

lemma Path.ne_nil (h : Path level words l) : words ≠ [] := by
  cases h <;> exact cons_ne_nil _ _

section Match

variable {level : List Command} (hlevel : properLevel level = true) {word : Text}

include hlevel

lemma proper_of_mem (hc : c ∈ level) : c.proper = true := by
  induction level with
  | nil => exact absurd hc not_mem_nil
  | cons d ds ih =>
    simp only [properLevel, Bool.and_eq_true] at hlevel
    rcases mem_cons.mp hc with rfl | hc
    · exact hlevel.1.1
    · exact ih hlevel.2 hc

lemma matchCommand_eq_some : matchCommand level word = some c ↔ c ∈ level ∧ c.keyword = word := by
  induction level with
  | nil => simp [matchCommand]
  | cons d ds ih =>
    simp only [properLevel, Bool.and_eq_true, all_eq_true, decide_eq_true_eq] at hlevel
    obtain ⟨⟨-, hdistinct⟩, hds⟩ := hlevel
    have hds := ih hds
    rw [matchCommand] at hds ⊢
    rw [find?_cons, mem_cons]
    by_cases hd : d.keyword = word
    · have hnone : ¬(c ∈ ds ∧ c.keyword = word) := fun h =>
        hdistinct c h.1 (h.2.trans hd.symm)
      simp only [hd, decide_true, Option.some.injEq]
      constructor
      · rintro rfl
        exact ⟨.inl rfl, hd⟩
      · rintro ⟨rfl | hc, hword⟩
        · rfl
        · exact absurd ⟨hc, hword⟩ hnone
    · simp only [hd, decide_false, hds]
      constructor
      · exact fun h => ⟨.inr h.1, h.2⟩
      · rintro ⟨rfl | hc, hword⟩
        · exact absurd hword hd
        · exact ⟨hc, hword⟩

lemma Path.cons_inv (h : Path level (word :: words) l) :
    (matchCommand level word = some (.leaf l) ∧ words = []) ∨
      ∃ type keyword next, matchCommand level word = some (.level type keyword next) ∧
        Path next words l := by
  cases h with
  | leaf h => exact .inl ⟨(matchCommand_eq_some hlevel).mpr ⟨h, rfl⟩, rfl⟩
  | level h hnext => exact .inr ⟨_, _, _, (matchCommand_eq_some hlevel).mpr ⟨h, rfl⟩, hnext⟩

lemma path_cons_of_leaf {l l' : Leaf} (h : matchCommand level word = some (.leaf l')) :
    Path level (word :: words) l ↔ l = l' ∧ words = [] := by
  constructor
  · intro hpath
    rcases hpath.cons_inv hlevel with ⟨hfound, rfl⟩ | ⟨_, _, _, hfound, -⟩
    · rw [h] at hfound
      cases hfound
      exact ⟨rfl, rfl⟩
    · rw [h] at hfound
      cases hfound
  · rintro ⟨rfl, rfl⟩
    obtain ⟨hmem, rfl⟩ := (matchCommand_eq_some hlevel).mp h
    exact .leaf hmem

lemma path_cons_of_level {type : ArgType} {keyword : String} {next : List Command}
    (h : matchCommand level word = some (.level type keyword next)) :
    Path level (word :: words) l ↔ Path next words l := by
  constructor
  · intro hpath
    rcases hpath.cons_inv hlevel with ⟨hfound, rfl⟩ | ⟨_, _, _, hfound, hnext⟩
    · rw [h] at hfound
      cases hfound
    · rw [h] at hfound
      cases hfound
      exact hnext
  · intro hnext
    obtain ⟨hmem, rfl⟩ := (matchCommand_eq_some hlevel).mp h
    exact .level hmem hnext

end Match

/-! ## What is accepted -/

/-- What `parse_command` accepts when `argc` is too large by `e`. -/
def Serves (level : List Command) (e : ℕ) (words : List Text) (l : Leaf) : Prop :=
  (Path level words l ∧ l.type = .NON ∧ e ≤ 1) ∨
    (e = 0 ∧ ∃ path w, Path level path l ∧ words = path ++ [w])

lemma not_serves_nil {e : ℕ} : ¬Serves level e [] l := by
  rintro (⟨h, -, -⟩ | ⟨-, path, w, -, h⟩)
  · exact h.ne_nil rfl
  · exact absurd h.symm (append_ne_nil_of_right_ne_nil _ (cons_ne_nil _ _))

lemma exists_path_snoc {word : Text} : (∃ path w, Path level path l ∧ word :: words = path ++ [w]) ↔
      ∃ path w, Path level (word :: path) l ∧ words = path ++ [w] := by
  constructor
  · rintro ⟨_ | ⟨k, path⟩, w, hpath, heq⟩
    · exact absurd rfl hpath.ne_nil
    · obtain ⟨rfl, rfl⟩ := cons_eq_cons.mp heq
      exact ⟨path, w, hpath, rfl⟩
  · rintro ⟨path, w, hpath, rfl⟩
    exact ⟨word :: path, w, hpath, rfl⟩

lemma Path.unique (hlevel : properLevel level = true) {path rest : List Text} {l l' : Leaf}
    (h : Path level path l) (h' : Path level (path ++ rest) l') : rest = [] ∧ l' = l := by
  induction h with
  | @leaf level l hmem =>
    have hfound := (matchCommand_eq_some hlevel).mpr ⟨hmem, rfl⟩
    exact ((path_cons_of_leaf hlevel hfound).mp h').symm
  | @level level next type keyword words l hmem hnext ih =>
    have hfound := (matchCommand_eq_some hlevel).mpr ⟨hmem, rfl⟩
    have hproper := proper_of_mem hlevel hmem
    simp only [Command.proper, Bool.and_eq_true] at hproper
    exact ih hproper.2 ((path_cons_of_level hlevel hfound).mp h')

lemma mem_levelLeaves (hc : c ∈ level) (hl : l ∈ c.leaves) : l ∈ levelLeaves level := by
  induction level with
  | nil => exact absurd hc not_mem_nil
  | cons d ds ih =>
    rw [levelLeaves, mem_append]
    rcases mem_cons.mp hc with rfl | hc
    · exact .inl hl
    · exact .inr (ih hc)

lemma Path.mem_leaves {path : List Text} (h : Path level path l) : l ∈ levelLeaves level := by
  induction h with
  | leaf h => exact mem_levelLeaves h mem_cons_self
  | level h hnext ih => exact mem_levelLeaves h ih

section Loop

variable {level : List Command} (hlevel : properLevel level = true) {word : Text}
  {words : List Text} {e : ℕ} {l : Leaf}

include hlevel

lemma not_serves_of_none (h : matchCommand level word = none) : ¬Serves level e (word :: words) l := by
  have hpath : ∀ words, ¬Path level (word :: words) l := by
    intro words hpath
    rcases hpath.cons_inv hlevel with ⟨hfound, -⟩ | ⟨_, _, _, hfound, -⟩ <;>
      · rw [h] at hfound
        cases hfound
  rw [Serves, exists_path_snoc]
  rintro (⟨h, -, -⟩ | ⟨-, path, w, h, -⟩) <;> exact hpath _ h

lemma serves_cons_of_leaf {l' : Leaf} (h : matchCommand level word = some (.leaf l')) :
    Serves level e (word :: words) l ↔
      l = l' ∧ ((words = [] ∧ l.type = .NON ∧ e ≤ 1) ∨ (e = 0 ∧ words.length = 1)) := by
  have hone : words.length = 1 ↔ ∃ w, words = [w] := length_eq_one_iff
  rw [Serves, exists_path_snoc, hone]
  simp only [path_cons_of_leaf hlevel h]
  constructor
  · rintro (⟨⟨rfl, rfl⟩, htype, he⟩ | ⟨he, path, w, ⟨rfl, rfl⟩, rfl⟩)
    · exact ⟨rfl, .inl ⟨rfl, htype, he⟩⟩
    · exact ⟨rfl, .inr ⟨he, w, rfl⟩⟩
  · rintro ⟨rfl, ⟨rfl, htype, he⟩ | ⟨he, w, rfl⟩⟩
    · exact .inl ⟨⟨rfl, rfl⟩, htype, he⟩
    · exact .inr ⟨he, [], w, ⟨rfl, rfl⟩, rfl⟩

lemma serves_cons_of_level {type : ArgType} {keyword : String} {next : List Command}
    (h : matchCommand level word = some (.level type keyword next)) :
    Serves level e (word :: words) l ↔ Serves next e words l := by
  rw [Serves, exists_path_snoc, Serves]
  simp only [path_cons_of_level hlevel h]

end Loop

lemma accepted_iff {e : ℕ} {type : ArgType} :
    (words = [] ∧ type = .NON ∧ e ≤ 1) ∨ (e = 0 ∧ words.length = 1) ↔
      ¬(words.length + e - 1 > (0 : ℤ)) ∧ ¬(words.length + e - 1 < (0 : ℤ) ∧ type ≠ .NON) ∧
        ¬(words.length + e - 1 = (0 : ℤ) ∧ words = [] ∧ type ≠ .NON) := by
  rw [← length_eq_zero_iff]
  by_cases htype : type = .NON
  · simp only [htype, ne_eq, not_true_eq_false, and_false, not_false_eq_true, true_and, and_true]
    omega
  · simp only [htype, ne_eq, not_false_eq_true, and_true, false_and, and_false, false_or]
    omega

/-- **The loop over the words** ends with the leaf they lead to, and with no other row. -/
lemma parseLoop_ok_iff (hlevel : properLevel level = true) {e : ℕ} :
    parseLoop level (words.length + e - 1) words = .ok c ↔
      ∃ l, c = .leaf l ∧ Serves level e words l := by
  induction words generalizing level with
  | nil =>
    refine iff_of_false (fun h => ?_) fun ⟨l, _, h⟩ => not_serves_nil h
    cases h
  | cons word words ih =>
    have hargc : (((word :: words).length : ℤ) + e - 1 - 1) = words.length + e - 1 := by
      rw [length_cons]
      omega
    rw [parseLoop]
    cases hfound : matchCommand level word with
    | none =>
      refine iff_of_false (fun h => ?_) fun ⟨l, _, h⟩ => not_serves_of_none hlevel hfound h
      cases h
    | some found =>
      cases found with
      | leaf l' =>
        have hserves : (∃ l, c = .leaf l ∧ Serves level e (word :: words) l) ↔
            c = .leaf l' ∧ ((words = [] ∧ l'.type = .NON ∧ e ≤ 1) ∨
              (e = 0 ∧ words.length = 1)) := by
          simp only [serves_cons_of_leaf hlevel hfound]
          constructor
          · rintro ⟨l, hc, rfl, h⟩
            exact ⟨hc, h⟩
          · rintro ⟨hc, h⟩
            exact ⟨l', hc, rfl, h⟩
        simp only [Command.next, Command.type, Option.isNone_none, and_true, hargc, hserves]
        rw [accepted_iff]
        split_ifs with hextra hlast hargument
        · exact iff_of_false (fun h => by cases h) fun h => h.2.1 hextra
        · exact iff_of_false (fun h => by cases h) fun h => h.2.2.1 hlast
        · exact iff_of_false (fun h => by cases h) fun h => h.2.2.2 hargument
        · rw [Except.ok.injEq, eq_comm, and_iff_left ⟨hextra, hlast, hargument⟩]
      | level type keyword next =>
        obtain ⟨hmem, -⟩ := (matchCommand_eq_some hlevel).mp hfound
        have hproper := proper_of_mem hlevel hmem
        simp only [Command.proper, Bool.and_eq_true, decide_eq_true_eq] at hproper
        have hstep : parseLoop next (words.length + e - 1) words = .ok c ↔ ∃ l, c = .leaf l ∧
            Serves level e (word :: words) l := by
          simp only [serves_cons_of_level hlevel hfound]
          exact ih hproper.2
        simp only [Command.next, Command.type, Option.isNone_some, Bool.false_eq_true,
          and_false, if_false, hargc]
        have hnone : words = [] → ¬∃ l, c = .leaf l ∧ Serves level e (word :: words) l := by
          rintro rfl ⟨l, -, h⟩
          exact not_serves_nil ((serves_cons_of_level hlevel hfound).mp h)
        split_ifs with hlast hargument hneg
        · refine iff_of_false (fun h => by cases h) (hnone ?_)
          exact length_eq_zero_iff.mp (by omega)
        · exact iff_of_false (fun h => by cases h) (hnone hargument.2.1)
        · exact absurd ⟨hneg, hproper.1⟩ hlast
        · exact hstep

/-- Whatever `argc` is, the loop ends with a leaf. -/
lemma parseLoop_path (hlevel : properLevel level = true) {argc : ℤ} {argv : List Text}
    (h : parseLoop level argc argv = .ok c) : ∃ path l, c = .leaf l ∧ Path level path l := by
  induction argv generalizing level argc with
  | nil => cases h
  | cons word argv ih =>
    rw [parseLoop] at h
    cases hfound : matchCommand level word with
    | none =>
      rw [hfound] at h
      cases h
    | some found =>
      obtain ⟨hmem, -⟩ := (matchCommand_eq_some hlevel).mp hfound
      rw [hfound] at h
      dsimp only at h
      split at h
      · cases h
      · split at h
        · cases h
        · split at h
          · cases h
          · rename_i hincomplete _
            cases found with
            | leaf l =>
              cases h
              exact ⟨_, l, rfl, .leaf hmem⟩
            | level type keyword next =>
              have hproper := proper_of_mem hlevel hmem
              simp only [Command.proper, Bool.and_eq_true, decide_eq_true_eq] at hproper
              dsimp only [Command.next] at h
              split at h
              · rename_i hneg
                exact absurd ⟨hneg, hproper.1⟩ hincomplete
              · obtain ⟨path, l, hc, hpath⟩ := ih hproper.2 h
                exact ⟨_, l, hc, .level hmem hpath⟩

/-- **What a client can have run** is a leaf of the table: it is a request to the queue. -/
theorem socketReadCommand_enabled {beyond : Text} {timedOut : Bool} {results : List ReadResult}
    {w : Text} (h : socketReadCommand beyond timedOut results = .run c (.word w)) (s : State)
    (alloc : Bool) : ∃ l, c = .leaf l ∧ Enabled s (.request l w alloc) := by
  have hline : ∀ line, serveLine line = .run c (.word w) → ∃ l, c = .leaf l ∧ l ∈ leaves := by
    intro line hline
    rw [serveLine] at hline
    dsimp only at hline
    split at hline
    · cases hline
    · rename_i cmd hparse
      obtain ⟨path, l, hc, hpath⟩ := parseLoop_path properLevel_firstLevel hparse
      obtain rfl := (Outcome.run.inj hline).1
      exact ⟨l, hc, hpath.mem_leaves⟩
  rw [socketReadCommand] at h
  split_ifs at h
  split at h
  · cases h
  · rw [serveData] at h
    dsimp only at h
    split_ifs at h <;> exact hline _ h

theorem socketReadCommand_enabled_filter :
    ∃ l, Command.leaf filterReload = .leaf l ∧
      Enabled State.init (.request l "reload".toList true) :=
  socketReadCommand_enabled
    (rfl : socketReadCommand [] false [.data "filter reload\n".toList] = _) State.init true

end FreeSense.CheckReload
