import FreeSensePorts.Core.Text
import Mathlib.Data.List.Chain
import Mathlib.Tactic

/-!
# The lexer of the `filterdns` configuration

`lgetc`, `lungetc`, `findeol` and `yylex` of `parse.y`, byte by byte.

`lgetc` takes away a backslash whatever follows, joins lines, and turns each run of blanks and tabs into
one blank, inside quotes as well: its argument is unused.  `yylex` then looks for a backslash before a
quote, in what is left.  What the two make of a string written with backslashes is
`unquote (squeeze s)` (`quoted_written`), which is `s` exactly for the strings that are `Plain`.

`parsebuf` is never set in the source and left out.  The loops are bounded by the number of bytes.
-/

namespace FreeSense.Filterdns

open List

variable {c : UInt8} {n : ℕ} {buf : List UInt8} {signed : Bool}

/-! ## Bytes -/

namespace Byte

def tab : UInt8 := 9
def newline : UInt8 := 10
def space : UInt8 := 32
def quote : UInt8 := 34
def hash : UInt8 := 35
def apostrophe : UInt8 := 39
def backslash : UInt8 := 92

end Byte

open Byte

def isBlank (c : UInt8) : Bool := c = tab ∨ c = space

def isalnum (c : UInt8) : Bool := (48 ≤ c ∧ c ≤ 57) ∨ (65 ≤ c ∧ c ≤ 90) ∨ (97 ≤ c ∧ c ≤ 122)

def ispunct (c : UInt8) : Bool :=
  (33 ≤ c ∧ c ≤ 47) ∨ (58 ≤ c ∧ c ≤ 64) ∨ (91 ≤ c ∧ c ≤ 96) ∨ (123 ≤ c ∧ c ≤ 126)

/-- Punctuation but not one of `(){}!=#,`. -/
def allowedInString (c : UInt8) : Bool :=
  isalnum c ∨ ispunct c ∧ c ∉ [40, 41, 123, 125, 33, 61, 35, 44]

/-! ## Characters -/

/-- The file, `pushback_buffer` from its top, `file->lineno`, `yylval.lineno` and what `yyerror` has
printed. -/
structure Lex where
  stream : List UInt8
  pushback : List UInt8
  lineno : ℕ
  tokline : ℕ
  errors : List (ℕ × String)
  deriving DecidableEq, Repr

variable {l' : Lex}

def Lex.size (l : Lex) : ℕ := l.stream.length + l.pushback.length

/-- The loop of `lgetc` over backslashes, with the lines it has joined. -/
def getcEscaped : List UInt8 → Option UInt8 × List UInt8 × ℕ
  | [] => (none, [], 0)
  | c :: rest =>
    if c ≠ backslash then (some c, rest, 0)
    else match rest with
      | [] => (none, [], 0)
      | next :: rest =>
        if next ≠ newline then (some next, rest, 0)
        else
          let (c, rest, k) := getcEscaped rest
          (c, rest, k + 1)

/-- What a `char` gives as an `int`.  Where `char` is signed, `0xff` comes back as `EOF`. -/
def fromChar (signed : Bool) (b : UInt8) : Option UInt8 := if signed ∧ b = 0xff then none else some b

def maxPushback : ℕ := 128

/-- `lgetc`; `none` is `EOF`. -/
def Lex.lgetc (signed : Bool) (l : Lex) : Option UInt8 × Lex :=
  match l.pushback with
  | b :: pushback => (fromChar signed b, { l with pushback := pushback })
  | [] =>
    let (c, rest, k) := getcEscaped l.stream
    let l := { l with
      stream := rest
      lineno := l.lineno + k
      tokline := if k = 0 then l.tokline else l.lineno + k - 1 }
    match c with
    | none => (none, l)
    | some c =>
      if isBlank c then (some space, { l with stream := rest.dropWhile isBlank })
      else (some c, l)

def Lex.lungetc (l : Lex) : Option UInt8 → Lex
  | none => l
  | some c =>
    if l.pushback.length < maxPushback - 1 then { l with pushback := c :: l.pushback } else l

/-! ## Tokens -/

/-- `eof` is the token 0, and `char` any other character. -/
inductive Token
  | STRING (s : List UInt8)
  | CMD | IPFW | PF | PIPE
  | ERROR
  | char (c : UInt8)
  | eof
  deriving DecidableEq, Repr

def lookup (s : List UInt8) : Token :=
  if s = [99, 109, 100] then .CMD
  else if s = [105, 112, 102, 119] then .IPFW
  else if s = [112, 102] then .PF
  else if s = [112, 105, 112, 101] then .PIPE
  else .STRING s

def bufSize : ℕ := 8096

section Yylex

variable (signed : Bool)

/-- Read up to a character of some kind, which is returned. -/
def readUntil (stop : UInt8 → Bool) : ℕ → Lex → Option (Option UInt8 × Lex)
  | 0, _ => none
  | n + 1, l =>
    match l.lgetc signed with
    | (none, l) => some (none, l)
    | (some c, l) => if stop c then some (some c, l) else readUntil stop n l

def findeol (l : Lex) : Option (Token × Lex) := do
  let l := { l with pushback := [] }
  let (c, l) ← readUntil signed (· = newline) (l.size + 1) l
  return (.ERROR, if c = none then l else { l with lineno := l.lineno + 1 })

def yyerror (message : String) (l : Lex) : Lex := { l with errors := l.errors ++ [(l.tokline, message)] }

/-- What one turn of the loop over a quoted string finds. -/
inductive Quoted
  | eof
  | close
  | skip
  | char (c : UInt8)
  deriving DecidableEq, Repr

def quotedChar (quotec : UInt8) (l : Lex) : Quoted × Lex :=
  match l.lgetc signed with
  | (none, l) => (.eof, l)
  | (some c, l) =>
    if c = quotec then (.close, l)
    else if c = newline then (.skip, { l with lineno := l.lineno + 1 })
    else if c = backslash then
      match l.lgetc signed with
      | (none, l) => (.eof, l)
      | (some next, l) =>
        if next = quotec then (.char next, l)
        else if next = newline then (.skip, l)
        else (.char c, l.lungetc (some next))
    else (.char c, l)

def quoted (quotec : UInt8) : ℕ → List UInt8 → Lex → Option (Token × Lex)
  | 0, _, _ => none
  | n + 1, buf, l =>
    match quotedChar signed quotec l with
    | (.eof, l) => some (.eof, l)
    | (.close, l) => some (.STRING (cstr buf), l)
    | (.skip, l) => quoted quotec n buf l
    | (.char c, l) =>
      if buf.length + 1 ≥ bufSize - 1 then findeol signed (yyerror "string too long" l)
      else quoted quotec n (buf ++ [c]) l

/-- The loop over a bare word, which has just read `c`. -/
def word : ℕ → List UInt8 → UInt8 → Lex → Option (Token × Lex)
  | 0, _, _, _ => none
  | n + 1, buf, c, l =>
    let buf := buf ++ [c]
    if buf.length ≥ bufSize then findeol signed (yyerror "string too long" l)
    else match l.lgetc signed with
      | (none, l) => some (lookup (cstr buf), l)
      | (some c, l) =>
        if allowedInString c then word n buf c l
        else some (lookup (cstr buf), l.lungetc (some c))

/-- A comment is read up to its line end, which is then the character. -/
def skipComment (c : Option UInt8) (l : Lex) : Option (Option UInt8 × Lex) :=
  if c = some hash then readUntil signed (· = newline) (l.size + 1) l else some (c, l)

/-- The rest of `yylex`, from its `switch`. -/
def token (c : Option UInt8) (l : Lex) : Option (Token × Lex) :=
  match c with
  | none => some (.eof, l)
  | some c =>
    if c = apostrophe ∨ c = quote then quoted signed c (l.size + 1) [] l
    else if isalnum c ∨ c = 58 ∨ c = 95 then word signed (l.size + 1) [] c l
    else if c = newline then
      some (.char c, { l with tokline := l.lineno, lineno := l.lineno + 1 })
    else some (.char c, l)

def yylex (l : Lex) : Option (Token × Lex) := do
  let (c, l) ← readUntil signed (fun c => !isBlank c) (l.size + 1) l
  let (c, l) ← skipComment signed c { l with tokline := l.lineno }
  token signed c l

end Yylex

/-! ## The lexer always returns -/

lemma getcEscaped_of_ne (h : c ≠ backslash) (rest : List UInt8) :
    getcEscaped (c :: rest) = (some c, rest, 0) := by
  rw [getcEscaped.eq_def]
  exact if_pos h

lemma getcEscaped_backslash (h : c ≠ newline) (rest : List UInt8) :
    getcEscaped (backslash :: c :: rest) = (some c, rest, 0) := by
  rw [getcEscaped.eq_def]
  simp [h]

lemma length_getcEscaped {s rest : List UInt8} {k : ℕ} (h : getcEscaped s = (some c, rest, k)) :
    rest.length < s.length := by
  induction s using getcEscaped.induct generalizing rest k with
  | case1 => simp [getcEscaped] at h
  | case2 b s hb =>
    rw [getcEscaped_of_ne hb] at h
    cases h
    exact Nat.lt_succ_self _
  | case3 b hb =>
    rw [getcEscaped.eq_def] at h
    simp only [if_neg hb] at h
    cases h
  | case4 b hb d s hd =>
    rw [not_not.mp hb, getcEscaped_backslash hd] at h
    cases h
    simp only [length_cons]
    omega
  | case5 b hb d s hd c' rest' k' hs ih =>
    rw [getcEscaped.eq_def] at h
    simp only [if_neg hb, if_neg hd, hs] at h
    cases h
    have := ih hs
    simp only [length_cons]
    omega

section Total

variable {signed : Bool} {l l' : Lex}

/-- **Reading takes at least one byte away.** -/
lemma size_lgetc (h : l.lgetc signed = (some c, l')) : l'.size < l.size := by
  unfold Lex.lgetc at h
  cases hp : l.pushback with
  | cons b pushback =>
    obtain ⟨-, rfl⟩ := Prod.mk.inj h
    simp [Lex.size, hp]
  | nil =>
    rw [hp] at h
    rcases hg : getcEscaped l.stream with ⟨d, rest, k⟩
    rw [hg] at h
    cases d with
    | none => cases h
    | some d =>
      have hlt := length_getcEscaped hg
      have hdrop : (rest.dropWhile isBlank).length ≤ rest.length :=
        (dropWhile_sublist _).length_le
      have hl' : l'.pushback = [] ∧ l'.stream.length ≤ rest.length := by
        by_cases hblank : isBlank d = true
        · simp only [if_pos hblank] at h
          exact (Prod.mk.inj h).2 ▸ ⟨rfl, hdrop⟩
        · simp only [if_neg hblank] at h
          exact (Prod.mk.inj h).2 ▸ ⟨rfl, le_rfl⟩
      simp only [Lex.size, hp, hl'.1]
      omega

lemma size_lungetc (l : Lex) (c : Option UInt8) : (l.lungetc c).size ≤ l.size + 1 := by
  cases c with
  | none => exact Nat.le_succ _
  | some c =>
    unfold Lex.lungetc
    split_ifs
    · simp only [Lex.size, length_cons]
      omega
    · exact Nat.le_succ _

lemma size_quotedChar {quotec : UInt8} {r : Quoted} (h : quotedChar signed quotec l = (r, l'))
    (hr : r ≠ .eof) : l'.size < l.size := by
  unfold quotedChar at h
  rcases h₁ : l.lgetc signed with ⟨c, l₁⟩
  rw [h₁] at h
  cases c with
  | none =>
    obtain ⟨rfl, -⟩ := Prod.mk.inj h
    exact absurd rfl hr
  | some c =>
    have hlt := size_lgetc h₁
    simp only at h
    split_ifs at h
    · exact (Prod.mk.inj h).2 ▸ hlt
    · exact (Prod.mk.inj h).2 ▸ hlt
    · rcases h₂ : l₁.lgetc signed with ⟨d, l₂⟩
      rw [h₂] at h
      cases d with
      | none =>
        obtain ⟨rfl, -⟩ := Prod.mk.inj h
        exact absurd rfl hr
      | some d =>
        have hlt' := size_lgetc h₂
        simp only at h
        split_ifs at h <;> obtain ⟨-, rfl⟩ := Prod.mk.inj h
        · omega
        · omega
        · have := size_lungetc l₂ (some d)
          omega
    · exact (Prod.mk.inj h).2 ▸ hlt

lemma readUntil_isSome {stop : UInt8 → Bool} : ∀ {n : ℕ} {l : Lex}, l.size < n →
    (readUntil signed stop n l).isSome
  | 0, _, h => absurd h (Nat.not_lt_zero _)
  | n + 1, l, h => by
    rw [readUntil]
    rcases h₁ : l.lgetc signed with ⟨c, l₁⟩
    cases c with
    | none => rfl
    | some c =>
      have hlt := size_lgetc h₁
      simp only
      split_ifs
      · rfl
      · exact readUntil_isSome (by omega)

lemma findeol_isSome (l : Lex) : (findeol signed l).isSome := by
  have hread : (readUntil signed (· = newline) (({ l with pushback := [] } : Lex).size + 1)
      { l with pushback := [] }).isSome := readUntil_isSome (Nat.lt_succ_self _)
  obtain ⟨r, hr⟩ := Option.isSome_iff_exists.mp hread
  simp [findeol, hr]

lemma quoted_isSome {quotec : UInt8} : ∀ {n : ℕ} {buf : List UInt8} {l : Lex}, l.size < n →
    (quoted signed quotec n buf l).isSome
  | 0, _, _, h => absurd h (Nat.not_lt_zero _)
  | n + 1, buf, l, h => by
    rw [quoted]
    rcases h₁ : quotedChar signed quotec l with ⟨r, l₁⟩
    cases r with
    | eof => rfl
    | close => rfl
    | skip =>
      have := size_quotedChar h₁ nofun
      exact quoted_isSome (by omega)
    | char c =>
      have := size_quotedChar h₁ nofun
      split_ifs
      · exact findeol_isSome _
      · exact quoted_isSome (by omega)

lemma word_isSome : ∀ {n : ℕ} {buf : List UInt8} {c : UInt8} {l : Lex}, l.size < n →
    (word signed n buf c l).isSome
  | 0, _, _, _, h => absurd h (Nat.not_lt_zero _)
  | n + 1, buf, c, l, h => by
    rw [word]
    split_ifs
    · exact findeol_isSome _
    · rcases h₁ : l.lgetc signed with ⟨d, l₁⟩
      cases d with
      | none => rfl
      | some d =>
        have := size_lgetc h₁
        simp only
        split_ifs
        · exact word_isSome (by omega)
        · rfl

lemma token_isSome (c : Option UInt8) (l : Lex) : (token signed c l).isSome := by
  cases c with
  | none => rfl
  | some c =>
    unfold token
    simp only
    split_ifs
    · exact quoted_isSome (Nat.lt_succ_self _)
    · exact word_isSome (Nat.lt_succ_self _)
    · rfl
    · rfl

/-- **Every input gives a token.** -/
theorem yylex_isSome (l : Lex) : (yylex signed l).isSome := by
  have hread : (readUntil signed (fun c => !isBlank c) (l.size + 1) l).isSome :=
    readUntil_isSome (Nat.lt_succ_self _)
  obtain ⟨⟨c, l₁⟩, h₁⟩ := Option.isSome_iff_exists.mp hread
  have hcomment : (skipComment signed c { l₁ with tokline := l₁.lineno }).isSome := by
    unfold skipComment
    split_ifs
    · exact readUntil_isSome (Nat.lt_succ_self _)
    · rfl
  obtain ⟨⟨d, l₂⟩, h₂⟩ := Option.isSome_iff_exists.mp hcomment
  have hlex : yylex signed l = token signed d l₂ := by
    simp only [yylex, h₁, h₂, Option.bind_eq_bind, Option.bind_some]
  rw [hlex]
  exact token_isSome d l₂

end Total

/-! ## Written strings -/

/-- A string with a backslash before each quote and each backslash. -/
def escape (s : List UInt8) : List UInt8 :=
  s.flatMap fun c => if c = quote ∨ c = backslash then [backslash, c] else [c]

/-- What follows the opening quote. -/
def written (s : List UInt8) : List UInt8 := escape s ++ [quote]

/-- Each run of blanks as one blank; `after` says that one has just gone by. -/
def squeezeAfter : Bool → List UInt8 → List UInt8
  | _, [] => []
  | after, c :: s =>
    if isBlank c then (if after then squeezeAfter true s else space :: squeezeAfter true s)
    else c :: squeezeAfter false s

def squeeze (s : List UInt8) : List UInt8 := squeezeAfter false s

/-- What the loop of `yylex` makes of the characters it is given before a closing quote; `none` where
it runs into the end of the file. -/
def unquote (signed : Bool) : List UInt8 → Option (List UInt8)
  | [] => some []
  | c :: s =>
    if c = quote then some []
    else if c = backslash then
      match s with
      | [] => none
      | d :: s =>
        if d = quote then (unquote signed s).map (quote :: ·)
        else if fromChar signed d = none then none
        else (unquote signed (d :: s)).map (backslash :: ·)
    else (unquote signed s).map (c :: ·)

lemma squeeze_cons (h : isBlank c ≠ true) (s : List UInt8) : squeeze (c :: s) = c :: squeeze s := by
  rw [squeeze, squeezeAfter, if_neg h]
  rfl

lemma squeezeAfter_true : ∀ s : List UInt8, squeezeAfter true s = squeeze (s.dropWhile isBlank)
  | [] => rfl
  | c :: s => by
    rw [dropWhile_cons]
    by_cases h : isBlank c = true
    · rw [squeezeAfter, if_pos h, if_pos h]
      exact squeezeAfter_true s
    · rw [squeezeAfter, if_neg h, if_neg h, squeeze_cons h]
      rfl

lemma squeeze_cons_blank (h : isBlank c = true) (s : List UInt8) :
    squeeze (c :: s) = space :: squeeze (s.dropWhile isBlank) := by
  rw [squeeze, squeezeAfter, if_pos h, squeezeAfter_true]
  rfl

@[simp] lemma written_nil : written [] = [quote] := rfl

lemma written_cons (c : UInt8) (s : List UInt8) :
    written (c :: s)
      = (if c = quote ∨ c = backslash then [backslash, c] else [c]) ++ written s := by
  simp [written, escape]

lemma dropWhile_written : ∀ s : List UInt8,
    (written s).dropWhile isBlank = written (s.dropWhile isBlank)
  | [] => by decide
  | c :: s => by
    rw [written_cons]
    by_cases hc : c = quote ∨ c = backslash
    · have hblank : isBlank c = false := by
        rcases hc with rfl | rfl <;> decide
      simp [hblank, written_cons, hc, show isBlank backslash = false by decide]
    · by_cases hblank : isBlank c = true
      · simp [hc, hblank, dropWhile_written s]
      · simp [hc, hblank, written_cons]

section Written

variable {signed : Bool} {l : Lex} {s : List UInt8}

lemma lgetc_written_nil (hp : l.pushback = []) (hl : l.stream = written []) :
    l.lgetc signed = (some quote, { l with stream := [] }) := by
  unfold Lex.lgetc
  rw [hp, hl]
  rfl

/-- **`lgetc` takes the backslashes away**, one character at a time. -/
lemma lgetc_written (hp : l.pushback = []) (hc : c ≠ newline) (hblank : isBlank c ≠ true)
    (hl : l.stream = written (c :: s)) :
    l.lgetc signed = (some c, { l with stream := written s }) := by
  have hget : getcEscaped l.stream = (some c, written s, 0) := by
    rw [hl, written_cons]
    split_ifs with hq
    · exact getcEscaped_backslash hc _
    · exact getcEscaped_of_ne (fun h => hq (Or.inr h)) _
  unfold Lex.lgetc
  simp_all

/-- **`lgetc` makes one blank of a run.** -/
lemma lgetc_written_blank (hp : l.pushback = []) (hblank : isBlank c = true)
    (hl : l.stream = written (c :: s)) :
    l.lgetc signed = (some space, { l with stream := written (s.dropWhile isBlank) }) := by
  have hq : ¬(c = quote ∨ c = backslash) := by
    rintro (rfl | rfl) <;> revert hblank <;> decide
  have hget : getcEscaped l.stream = (some c, written s, 0) := by
    rw [hl, written_cons, if_neg hq]
    exact getcEscaped_of_ne (fun h => hq (Or.inr h)) _
  unfold Lex.lgetc
  simp only [hget, if_pos hblank, dropWhile_written]
  simp_all

end Written

/-! ## What is read of a written string -/

section Unquote

variable {signed : Bool} {t : List UInt8}

lemma unquote_quote : unquote signed (quote :: t) = some [] := by
  rw [unquote.eq_def]
  exact if_pos rfl

lemma unquote_cons (hq : c ≠ quote) (hb : c ≠ backslash) :
    unquote signed (c :: t) = (unquote signed t).map (c :: ·) := by
  rw [unquote.eq_def]
  simp only [if_neg hq, if_neg hb]

lemma unquote_backslash_nil : unquote signed [backslash] = none := by
  rfl

lemma unquote_backslash_quote :
    unquote signed (backslash :: quote :: t) = (unquote signed t).map (quote :: ·) := by
  rfl

lemma unquote_backslash {d : UInt8} (hd : d ≠ quote) :
    unquote signed (backslash :: d :: t) = if fromChar signed d = none then none
      else (unquote signed (d :: t)).map (backslash :: ·) := by
  rw [unquote.eq_def]
  simp only [show backslash ≠ quote by decide, if_false, if_true, if_neg hd]

end Unquote

/-- `l` is about to give the characters `t`, and then a closing quote and nothing more. -/
def Reads (l : Lex) (t : List UInt8) : Prop :=
  ∃ s, l.stream = written s ∧ newline ∉ s ∧
    (l.pushback = [] ∧ t = squeeze s ∨
      ∃ d, l.pushback = [d] ∧ d ≠ newline ∧ t = d :: squeeze s)

lemma mem_squeeze_newline {s : List UInt8} : newline ∈ squeeze s → newline ∈ s := by
  have h : ∀ (after : Bool) (s : List UInt8), newline ∈ squeezeAfter after s → newline ∈ s := by
    intro after s
    induction s generalizing after with
    | nil => exact id
    | cons c s ih =>
      intro hmem
      rw [squeezeAfter] at hmem
      split_ifs at hmem
      · exact mem_cons_of_mem _ (ih true hmem)
      · rcases mem_cons.mp hmem with heq | hmem
        · exact absurd heq (by decide)
        · exact mem_cons_of_mem _ (ih true hmem)
      · rcases mem_cons.mp hmem with heq | hmem
        · exact heq ▸ mem_cons_self
        · exact mem_cons_of_mem _ (ih false hmem)
  exact h false s

section Reading

variable {signed : Bool} {l : Lex} {t : List UInt8}

lemma Reads.newline_notMem (h : Reads l t) : newline ∉ t := by
  obtain ⟨s, -, hs, ⟨-, rfl⟩ | ⟨d, -, hd, rfl⟩⟩ := h
  · exact fun hmem => hs (mem_squeeze_newline hmem)
  · intro hmem
    rcases mem_cons.mp hmem with heq | hmem
    · exact hd heq.symm
    · exact hs (mem_squeeze_newline hmem)

/-- At the end `lgetc` gives the closing quote. -/
lemma Reads.lgetc_nil (h : Reads l []) :
    l.lgetc signed = (some quote, { l with stream := [] }) ∧ l.pushback = [] := by
  obtain ⟨s, hl, -, ⟨hp, hs⟩ | ⟨d, -, -, hs⟩⟩ := h
  · have hnil : s = [] := by
      cases s with
      | nil => rfl
      | cons c s =>
        by_cases hblank : isBlank c = true
        · rw [squeeze_cons_blank hblank] at hs
          cases hs
        · rw [squeeze_cons hblank] at hs
          cases hs
    exact ⟨lgetc_written_nil hp (hnil ▸ hl), hp⟩
  · cases hs

/-- Otherwise it gives the next character, which a `char` may have turned into `EOF`. -/
lemma Reads.lgetc_cons (h : Reads l (c :: t)) : ∃ l', Reads l' t ∧ l'.pushback = [] ∧
      (l.lgetc signed = (some c, l') ∨ l.pushback = [c] ∧ l.lgetc signed = (fromChar signed c, l')) := by
  obtain ⟨s, hl, hs, ⟨hp, ht⟩ | ⟨d, hp, -, ht⟩⟩ := h
  · cases s with
    | nil => cases ht
    | cons b s =>
      have hnl : newline ∉ s := fun hmem => hs (mem_cons_of_mem _ hmem)
      by_cases hblank : isBlank b = true
      · rw [squeeze_cons_blank hblank] at ht
        cases ht
        refine ⟨{ l with stream := written (s.dropWhile isBlank) },
          ⟨s.dropWhile isBlank, rfl, ?_, Or.inl ⟨hp, rfl⟩⟩, hp,
          Or.inl (lgetc_written_blank hp hblank hl)⟩
        exact fun hmem => hnl ((dropWhile_sublist _).subset hmem)
      · rw [squeeze_cons hblank] at ht
        cases ht
        have hb : c ≠ newline := fun heq => hs (heq ▸ mem_cons_self)
        exact ⟨{ l with stream := written s }, ⟨s, rfl, hnl, Or.inl ⟨hp, rfl⟩⟩, hp,
          Or.inl (lgetc_written hp hb hblank hl)⟩
  · cases ht
    refine ⟨{ l with pushback := [] }, ⟨s, hl, hs, Or.inl ⟨rfl, rfl⟩⟩, rfl, Or.inr ⟨hp, ?_⟩⟩
    unfold Lex.lgetc
    rw [hp]

/-- The result of the loop over the characters `t`. -/
def QuotedAs (signed : Bool) (t buf : List UInt8) (r : Option (Token × Lex)) : Prop :=
  ∃ tok l', r = some (tok, l') ∧
    match unquote signed t with
    | none => tok = .eof
    | some v => tok = .STRING (cstr (buf ++ v)) ∧ (quote ∉ t → l'.stream = [] ∧ l'.pushback = [])

lemma fromChar_eq (signed : Bool) (b : UInt8) : fromChar signed b = none ∨ fromChar signed b = some b := by
  unfold fromChar
  split_ifs
  · exact Or.inl rfl
  · exact Or.inr rfl

lemma QuotedAs.cons {u buf : List UInt8} {r : Option (Token × Lex)}
    (h : QuotedAs signed u (buf ++ [c]) r) (ht : unquote signed t = (unquote signed u).map (c :: ·))
    (hq : quote ∉ t → quote ∉ u) : QuotedAs signed t buf r := by
  obtain ⟨tok, l', rfl, h⟩ := h
  refine ⟨tok, l', rfl, ?_⟩
  rw [ht]
  cases hu : unquote signed u with
  | none =>
    rw [hu] at h
    exact h
  | some v =>
    rw [hu] at h
    obtain ⟨htok, hempty⟩ := h
    rw [append_assoc] at htok
    exact ⟨htok, fun hnot => hempty (hq hnot)⟩

/-- The character after a backslash goes back where it can be read again. -/
lemma Reads.lungetc {d : UInt8} (h : Reads l t) (hp : l.pushback = []) (hd : d ≠ newline) :
    l.lungetc (some d) = { l with pushback := [d] } ∧ Reads { l with pushback := [d] } (d :: t) := by
  obtain ⟨s, hl, hs, ⟨-, rfl⟩ | ⟨d', hp', -⟩⟩ := h
  · refine ⟨?_, s, hl, hs, Or.inr ⟨d, rfl, hd, rfl⟩⟩
    simp [Lex.lungetc, hp, maxPushback]
  · rw [hp] at hp'
    cases hp'

lemma quoted_eof (h : l.lgetc signed = (none, l')) :
    quoted signed quote (n + 1) buf l = some (.eof, l') := by
  rw [quoted, quotedChar, h]

lemma quoted_close (h : l.lgetc signed = (some quote, l')) :
    quoted signed quote (n + 1) buf l = some (.STRING (cstr buf), l') := by
  rw [quoted, quotedChar, h]
  simp

lemma quoted_char (h : quotedChar signed quote l = (.char c, l'))
    (hbuf : buf.length + 1 < bufSize - 1) :
    quoted signed quote (n + 1) buf l = quoted signed quote n (buf ++ [c]) l' := by
  rw [quoted, h]
  exact if_neg (Nat.not_le.mpr hbuf)

/-- The turn of a backslash.  What is left to read is given to `ih`. -/
lemma quoted_backslash (h : Reads l' t) (hp : l'.pushback = [])
    (hget : l.lgetc signed = (some backslash, l')) (hn : l'.size < n)
    (hbuf : buf.length + t.length + 2 < bufSize - 1)
    (ih : ∀ {buf : List UInt8} {l : Lex} {t : List UInt8}, l.size < n → Reads l t → (∀ d ∈ l.pushback, fromChar signed d = some d) → buf.length + t.length + 1 < bufSize - 1 → QuotedAs signed t buf (quoted signed quote n buf l)) :
    QuotedAs signed (backslash :: t) buf (quoted signed quote (n + 1) buf l) := by
  obtain ⟨m, rfl⟩ : ∃ m, n = m + 1 := ⟨n - 1, by omega⟩
  cases t with
  | nil =>
    -- the closing quote is taken for a protected one
    have hnext : l'.lgetc signed = (some quote, { l' with stream := [] }) ∧ l'.pushback = [] :=
      h.lgetc_nil
    have hchar : quotedChar signed quote l = (.char quote, { l' with stream := [] }) := by
      simp [quotedChar, hget, hnext.1, show backslash ≠ quote by decide,
        show backslash ≠ newline by decide]
    have heof : ({ l' with stream := [] } : Lex).lgetc signed = (none, { l' with stream := [] }) := by
      simp [Lex.lgetc, hp, getcEscaped]
    rw [quoted_char hchar (by omega), quoted_eof heof]
    exact ⟨_, _, rfl, by rw [unquote_backslash_nil]⟩
  | cons d t =>
    rw [length_cons] at hbuf
    obtain ⟨l₂, h₂, hp₂, hnext⟩ : ∃ l₂, Reads l₂ t ∧ l₂.pushback = [] ∧
        l'.lgetc signed = (some d, l₂) := by
      obtain ⟨l₂, h₂, hp₂, hnext | ⟨hp', -⟩⟩ := h.lgetc_cons
      · exact ⟨l₂, h₂, hp₂, hnext⟩
      · rw [hp] at hp'
        cases hp'
    have hsize := size_lgetc hnext
    have hd : d ≠ newline := fun heq => h.newline_notMem (heq ▸ mem_cons_self)
    by_cases hq : d = quote
    · subst hq
      have hchar : quotedChar signed quote l = (.char quote, l₂) := by
        simp [quotedChar, hget, hnext, show backslash ≠ quote by decide,
          show backslash ≠ newline by decide]
      rw [quoted_char hchar (by omega)]
      refine (ih (by omega) h₂ (by simp [hp₂]) ?_).cons unquote_backslash_quote ?_
      · rw [length_append, length_singleton]
        omega
      · exact fun hnot => absurd (mem_cons_of_mem _ mem_cons_self) hnot
    · obtain ⟨hback, hreads⟩ := h₂.lungetc hp₂ hd
      have hchar : quotedChar signed quote l
          = (.char backslash, { l₂ with pushback := [d] }) := by
        simp [quotedChar, hget, hnext, hq, hd, hback, show backslash ≠ quote by decide,
          show backslash ≠ newline by decide]
      rw [quoted_char hchar (by omega)]
      rcases fromChar_eq signed d with hnone | hsome
      · -- the character comes back as the end of the file
        have heof : ({ l₂ with pushback := [d] } : Lex).lgetc signed
            = (none, { l₂ with pushback := [] }) := by
          simp [Lex.lgetc, hnone]
        rw [quoted_eof heof]
        refine ⟨_, _, rfl, ?_⟩
        rw [unquote_backslash hq, if_pos hnone]
      · refine (ih ?_ hreads ?_ ?_).cons ?_ ?_
        · simp only [Lex.size, length_singleton] at hsize ⊢
          simp only [Lex.size] at hn
          omega
        · intro e he
          rw [mem_singleton.mp he]
          exact hsome
        · rw [length_append, length_singleton, length_cons]
          omega
        · rw [unquote_backslash hq, if_neg (by simp [hsome])]
        · exact fun hnot hmem => hnot (mem_cons_of_mem _ hmem)

/-- **The loop over a quoted string** computes `unquote`. -/
lemma quoted_reads : ∀ {n : ℕ} {buf : List UInt8} {l : Lex} {t : List UInt8}, l.size < n →
    Reads l t → (∀ d ∈ l.pushback, fromChar signed d = some d) →
    buf.length + t.length + 1 < bufSize - 1 →
    QuotedAs signed t buf (quoted signed quote n buf l)
  | 0, _, _, _, hn, _, _, _ => absurd hn (Nat.not_lt_zero _)
  | n + 1, buf, l, [], hn, h, hpush, hbuf => by
    have hget : l.lgetc signed = (some quote, { l with stream := [] }) ∧ l.pushback = [] :=
      h.lgetc_nil
    rw [quoted_close hget.1]
    exact ⟨_, _, rfl, by rw [append_nil], fun _ => ⟨rfl, hget.2⟩⟩
  | n + 1, buf, l, c :: t, hn, h, hpush, hbuf => by
    obtain ⟨l', hl', hp', hget⟩ : ∃ l', Reads l' t ∧ l'.pushback = [] ∧
        l.lgetc signed = (some c, l') := by
      obtain ⟨l', hl', hp', hget | ⟨hp, hget⟩⟩ := h.lgetc_cons
      · exact ⟨l', hl', hp', hget⟩
      · exact ⟨l', hl', hp', by rw [hget, hpush c (hp ▸ mem_cons_self)]⟩
    have hsize := size_lgetc hget
    rw [length_cons] at hbuf
    have hnl : c ≠ newline := fun heq => h.newline_notMem (heq ▸ mem_cons_self)
    by_cases hq : c = quote
    · subst hq
      rw [quoted_close hget]
      refine ⟨_, _, rfl, ?_⟩
      rw [unquote_quote]
      exact ⟨by rw [append_nil], fun hnot => absurd mem_cons_self hnot⟩
    by_cases hb : c = backslash
    · subst hb
      exact quoted_backslash hl' hp' hget (by omega) (by omega) fun hn h hpush hbuf =>
        quoted_reads hn h hpush hbuf
    · have hchar : quotedChar signed quote l = (.char c, l') := by
        simp [quotedChar, hget, hq, hnl, hb]
      rw [quoted_char hchar (by omega)]
      refine (quoted_reads (by omega) hl' (by simp [hp']) ?_).cons (unquote_cons hq hb) ?_
      · rw [length_append, length_singleton]
        omega
      · exact fun hnot hmem => hnot (mem_cons_of_mem _ hmem)

end Reading

/-! ## Plain strings -/

/-- The strings that survive both layers. -/
structure Plain (signed : Bool) (s : List UInt8) : Prop where
  quote : quote ∉ s
  tab : tab ∉ s
  blanks : s.IsChain fun a b => ¬(isBlank a = true ∧ isBlank b = true)
  backslash : s.getLast? ≠ some backslash
  char : s.IsChain fun a b => ¬(a = Byte.backslash ∧ fromChar signed b = none)

/-- Blanks are as many as before only if no two of them were next to each other. -/
lemma squeeze_spec : ∀ {n : ℕ} {s : List UInt8}, s.length ≤ n → (squeeze s).length ≤ s.length ∧
    ((squeeze s).length = s.length →
      squeeze s = s.map (fun c => if isBlank c then space else c) ∧
      s.IsChain fun a b => ¬(isBlank a = true ∧ isBlank b = true))
  | _, [], _ => ⟨le_rfl, fun _ => ⟨rfl, .nil⟩⟩
  | 0, _ :: _, hn => absurd hn (Nat.not_succ_le_zero _)
  | n + 1, c :: s, hn => by
    rw [length_cons] at hn ⊢
    by_cases hc : isBlank c = true
    · have hdrop : (s.dropWhile isBlank).length ≤ s.length :=
        (dropWhile_sublist _).length_le
      obtain ⟨hle, heq⟩ := squeeze_spec (n := n) (s := s.dropWhile isBlank) (by omega)
      rw [squeeze_cons_blank hc, length_cons]
      refine ⟨by omega, fun hlen => ?_⟩
      have hsame : s.dropWhile isBlank = s :=
        (dropWhile_sublist _).eq_of_length_le (by omega)
      rw [hsame] at heq ⊢
      obtain ⟨hmap, hchain⟩ := heq (by rw [hsame] at hlen; omega)
      refine ⟨by rw [hmap, map_cons, if_pos hc], ?_⟩
      cases s with
      | nil => exact .singleton c
      | cons d s =>
        refine .cons_cons (fun hboth => ?_) hchain
        rw [dropWhile_cons, if_pos hboth.2] at hsame
        have := (dropWhile_sublist (l := s) isBlank).length_le
        rw [hsame, length_cons] at this
        omega
    · obtain ⟨hle, heq⟩ := squeeze_spec (n := n) (s := s) (by omega)
      rw [squeeze_cons hc, length_cons]
      refine ⟨by omega, fun hlen => ?_⟩
      obtain ⟨hmap, hchain⟩ := heq (by omega)
      refine ⟨by rw [hmap, map_cons, if_neg hc], ?_⟩
      cases s with
      | nil => exact .singleton c
      | cons d s => exact .cons_cons (fun hboth => hc hboth.1) hchain

/-- No character is lost only where there is no quote, and no backslash that is taken for a
protecting one. -/
lemma unquote_spec : ∀ {t v : List UInt8}, unquote signed t = some v →
    v.length ≤ t.length ∧ (v.length = t.length → v = t ∧ quote ∉ t ∧
      t.getLast? ≠ some backslash ∧
      t.IsChain fun a b => ¬(a = backslash ∧ fromChar signed b = none))
  | [], v, h => by
    obtain rfl : [] = v := Option.some.inj h
    exact ⟨le_rfl, fun _ => ⟨rfl, not_mem_nil, nofun, .nil⟩⟩
  | c :: t, v, h => by
    by_cases hq : c = quote
    · rw [hq, unquote_quote, Option.some.injEq] at h
      subst h
      exact ⟨Nat.zero_le _, fun hlen => absurd hlen.symm (Nat.succ_ne_zero _)⟩
    by_cases hb : c = backslash
    · subst hb
      cases t with
      | nil =>
        cases h
      | cons d t =>
        by_cases hd : d = quote
        · rw [hd] at h
          obtain ⟨w, hw, rfl⟩ := Option.map_eq_some_iff.mp h
          obtain ⟨hle, -⟩ := unquote_spec hw
          simp only [length_cons]
          exact ⟨by omega, fun hlen => by omega⟩
        · rw [unquote_backslash hd] at h
          split_ifs at h with hnone
          obtain ⟨w, hw, rfl⟩ := Option.map_eq_some_iff.mp h
          obtain ⟨hle, heq⟩ := unquote_spec hw
          rw [length_cons, length_cons (a := backslash)]
          refine ⟨by omega, fun hlen => ?_⟩
          obtain ⟨rfl, hquote, hlast, hchain⟩ := heq (by omega)
          refine ⟨rfl, ?_, ?_, .cons_cons (fun hboth => hnone hboth.2) hchain⟩
          · rw [mem_cons, not_or]
            exact ⟨by decide, hquote⟩
          · rwa [getLast?_cons_cons]
    · rw [unquote_cons hq hb] at h
      obtain ⟨w, hw, rfl⟩ := Option.map_eq_some_iff.mp h
      obtain ⟨hle, heq⟩ := unquote_spec hw
      rw [length_cons, length_cons (a := c)]
      refine ⟨by omega, fun hlen => ?_⟩
      obtain ⟨rfl, hquote, hlast, hchain⟩ := heq (by omega)
      refine ⟨rfl, ?_, ?_, ?_⟩
      · rw [mem_cons, not_or]
        exact ⟨Ne.symm hq, hquote⟩
      · cases w with
        | nil => simpa using hb
        | cons d w => rwa [getLast?_cons_cons]
      · cases w with
        | nil => exact .singleton c
        | cons d w => exact .cons_cons (fun hboth => hb hboth.1) hchain

lemma squeeze_eq : ∀ {s : List UInt8}, tab ∉ s →
    (s.IsChain fun a b => ¬(isBlank a = true ∧ isBlank b = true)) → squeeze s = s
  | [], _, _ => rfl
  | c :: s, htab, hchain => by
    have hs : squeeze s = s :=
      squeeze_eq (fun hmem => htab (mem_cons_of_mem _ hmem)) hchain.tail
    by_cases hc : isBlank c = true
    · have hspace : c = space := by
        have hne : c ≠ tab := fun heq => htab (heq ▸ mem_cons_self)
        simpa [isBlank, hne] using hc
      have hsame : s.dropWhile isBlank = s := by
        cases s with
        | nil => rfl
        | cons d s =>
          rw [isChain_cons_cons] at hchain
          rw [dropWhile_cons, if_neg fun hd => hchain.1 ⟨hc, hd⟩]
      rw [squeeze_cons_blank hc, hsame, hs, hspace]
    · rw [squeeze_cons hc, hs]

lemma unquote_eq : ∀ {s : List UInt8}, quote ∉ s → s.getLast? ≠ some backslash →
    (s.IsChain fun a b => ¬(a = backslash ∧ fromChar signed b = none)) → unquote signed s = some s
  | [], _, _, _ => rfl
  | c :: s, hquote, hlast, hchain => by
    rw [mem_cons, not_or] at hquote
    by_cases hb : c = backslash
    · subst hb
      cases s with
      | nil => exact absurd rfl hlast
      | cons d s =>
        rw [isChain_cons_cons] at hchain
        have hd : d ≠ quote := fun heq => hquote.2 (heq ▸ mem_cons_self)
        rw [unquote_backslash hd, if_neg fun hnone => hchain.1 ⟨rfl, hnone⟩,
          unquote_eq hquote.2 hlast hchain.2, Option.map_some]
    · have hs : unquote signed s = some s := by
        refine unquote_eq hquote.2 ?_ hchain.tail
        cases s with
        | nil => exact nofun
        | cons d s => rwa [getLast?_cons_cons] at hlast
      rw [unquote_cons (Ne.symm hquote.1) hb, hs, Option.map_some]

/-- **Which strings are read as they are.** -/
theorem unquote_squeeze_iff {s : List UInt8} :
    unquote signed (squeeze s) = some s ↔ Plain signed s := by
  constructor
  · intro h
    obtain ⟨hle, hfull⟩ := unquote_spec h
    obtain ⟨hle', hfull'⟩ := squeeze_spec (le_refl s.length)
    obtain ⟨hsame, hquote, hlast, hchar⟩ := hfull (by omega)
    obtain ⟨hmap, hblanks⟩ := hfull' (by omega)
    rw [← hsame] at hquote hlast hchar hmap
    refine ⟨hquote, fun htab => ?_, hblanks, hlast, hchar⟩
    rw [hmap] at htab
    obtain ⟨c, -, hc⟩ := mem_map.mp htab
    split_ifs at hc with hblank
    · exact absurd hc (by decide)
    · subst hc
      exact hblank (by decide)
  · intro h
    rw [squeeze_eq h.tab h.blanks]
    exact unquote_eq h.quote h.backslash h.char

/-- **What `yylex` makes of a written string.** -/
theorem yylex_written {l : Lex} {s : List UInt8} (hnl : newline ∉ s) (hlen : s.length < 8000)
    (hl : l.stream = quote :: written s) (hp : l.pushback = []) :
    QuotedAs signed (squeeze s) [] (yylex signed l) := by
  have hget : l.lgetc signed = (some quote, { l with stream := written s }) := by
    unfold Lex.lgetc
    rw [hl, getcEscaped_of_ne (by decide)]
    simp_all [show isBlank quote = false by decide]
  have hread : readUntil signed (fun c => !isBlank c) (l.size + 1) l
      = some (some quote, { l with stream := written s }) := by
    rw [readUntil, hget]
    rfl
  set l₁ : Lex := { l with stream := written s, tokline := l.lineno } with hl₁
  have hlex : yylex signed l = quoted signed quote (l₁.size + 1) [] l₁ := by
    simp only [yylex, hread, Option.bind_eq_bind, Option.bind_some]
    rfl
  have hsqueeze := (squeeze_spec (le_refl s.length)).1
  rw [hlex]
  refine quoted_reads (Nat.lt_succ_self _) ⟨s, rfl, hnl, Or.inl ⟨hp, rfl⟩⟩ ?_ ?_
  · intro d hd
    rw [show l₁.pushback = [] from hp] at hd
    exact absurd hd not_mem_nil
  · rw [length_nil, bufSize]
    omega

/-- **Which quoted strings are read literally.**  A string without NUL and line end, written between
double quotes with a backslash before each double quote and each backslash, is one `STRING` token with
that value, and the whole input, exactly if it is plain. -/
theorem yylex_literal_iff {signed : Bool} {l : Lex} {s : List UInt8} (hnul : 0 ∉ s)
    (hnl : newline ∉ s) (hlen : s.length < 8000) (hl : l.stream = quote :: written s)
    (hp : l.pushback = []) :
    (∃ l', yylex signed l = some (.STRING s, l') ∧ l'.stream = [] ∧ l'.pushback = []) ↔
      Plain signed s := by
  have hread : QuotedAs signed (squeeze s) [] (yylex signed l) := yylex_written hnl hlen hl hp
  obtain ⟨tok, l', hlex, hres⟩ := hread
  rw [hlex, ← unquote_squeeze_iff]
  cases hu : unquote signed (squeeze s) with
  | none =>
    rw [hu] at hres
    subst hres
    exact iff_of_false (by rintro ⟨_, h, -⟩; cases h) nofun
  | some v =>
    rw [hu] at hres
    obtain ⟨rfl, hempty⟩ := hres
    rw [nil_append] at hlex ⊢
    constructor
    · rintro ⟨_, h, -⟩
      have hv : cstr v = s := Token.STRING.inj (congrArg Prod.fst (Option.some.inj h))
      -- nothing can have been cut off, since nothing is longer than `s`
      have hsub : (cstr v).Sublist v := takeWhile_sublist _
      have hle : v.length ≤ s.length :=
        (unquote_spec hu).1.trans (squeeze_spec (le_refl s.length)).1
      rw [← hsub.eq_of_length_le (by rw [hv]; exact hle), hv]
    · intro hv
      obtain rfl : v = s := Option.some.inj hv
      have hquote : quote ∉ squeeze v := by
        have hplain := unquote_squeeze_iff.mp hu
        rw [squeeze_eq hplain.tab hplain.blanks]
        exact hplain.quote
      exact ⟨l', by rw [cstr_eq hnul], hempty hquote⟩

def quotedFile (s : List UInt8) : Lex := ⟨quote :: written s, [], 1, 1, []⟩

/-- **A tab, a quote and a backslash.**  `a`, tab, `b` is read with a blank; of `a"b` only `a` is, and
the rest stays; `a` with a backslash at its end runs into the end of the file. -/
theorem quoted_not_literal :
    (∀ signed, (yylex signed (quotedFile [97, tab, 98])).map Prod.fst
      = some (.STRING [97, space, 98])) ∧
    (∀ signed, (yylex signed (quotedFile [97, quote, 98])).map (fun r => (r.1, r.2.stream))
      = some (.STRING [97], [98, quote])) ∧
    ∀ signed, (yylex signed (quotedFile [97, backslash])).map Prod.fst = some .eof := by
  decide +kernel

theorem yylex_literal_iff_plain :
    let s : List UInt8 := [97, space, 98, backslash, 99]
    ∃ l', yylex true (quotedFile s) = some (.STRING s, l') ∧ l'.stream = [] ∧ l'.pushback = [] :=
  (yylex_literal_iff (by decide) (by decide) (by decide) rfl rfl).mpr
    ⟨by decide, by decide, by decide, by decide, by decide⟩

end FreeSense.Filterdns
