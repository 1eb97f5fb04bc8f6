import FreeSensePorts.Fcgicli.Packets

/-!
# What is printed of a response

A response is its header lines, a blank line and a body.  `main` keeps whether the header has ended
from one record to the next, but a record in which it ends is gone through line by line, and the loop
is left after the first line that is printed, so that the rest of this record is lost
(`mainLoop_reads`, `printLines_splitOn_iff`).
-/

namespace FreeSense.Fcgicli

open FastCgi Chunks
open List hiding after

/-! ## From the stream to the records -/

/-- A record of this type ends the program. -/
def EndsProgram (type : UInt8) : Prop := ∀ endHeader buf, (printRecord endHeader type buf).1 = none

def recordsOf (frames : List Frame) : List (UInt8 × Bytes) :=
  frames.map fun f => (f.type, f.body ++ [0])

/-- **The loop over records that are read** prints what `printRecords` says. -/
lemma mainLoop_reads {frames : List Frame} {fuel : ℕ} {endHeader : Bool} {header : Bytes}
    {chunks : List Bytes} (hreads : ReadsAll header chunks frames) (hfuel : frames.length ≤ fuel)
    (hends : ∃ f ∈ frames, EndsProgram f.type) :
    mainLoop fuel endHeader header chunks = (printRecords endHeader (recordsOf frames), none) := by
  induction frames generalizing fuel endHeader header chunks with
  | nil =>
    obtain ⟨f, hf, -⟩ := hends
    exact absurd hf not_mem_nil
  | cons f fs ih =>
    obtain ⟨fuel, rfl⟩ := Nat.exists_eq_add_one_of_ne_zero (Nat.ne_zero_of_lt hfuel)
    obtain ⟨hread, hrest⟩ := hreads
    have htype : (readPacket true header chunks).header.getD 1 0 = f.type := by
      rw [hread.header]
      rfl
    rw [mainLoop, recordsOf, map_cons, printRecords, hread.buf, htype]
    dsimp only
    rcases hprint : printRecord endHeader f.type (f.body ++ [0]) with ⟨_ | next, out⟩
    · rfl
    · have hlater : ∃ g ∈ fs, EndsProgram g.type := by
        obtain ⟨g, hg, hgends⟩ := hends
        rcases mem_cons.mp hg with rfl | hg
        · exact absurd (hgends endHeader _) (by rw [hprint]; exact Option.some_ne_none next)
        · exact ⟨g, hg, hgends⟩
      dsimp only
      rw [ih hrest (Nat.le_of_succ_le_succ hfuel) hlater, recordsOf]

/-! ## The lines of a record -/

lemma exists_line (b : Bytes) :
    newline ∉ b ∨ ∃ line rest, newline ∉ line ∧ b = line ++ newline :: rest := by
  by_cases h : newline ∈ b
  · obtain ⟨line, rest, rfl, hline⟩ := eq_append_cons_of_mem h
    exact .inr ⟨line, rest, hline, rfl⟩
  · exact .inl h

lemma splitOn_line {line : Bytes} (hline : newline ∉ line) (rest : Bytes) :
    (line ++ newline :: rest).splitOn newline = line :: rest.splitOn newline :=
  splitOn_append_cons_self_of_not_mem hline rest

lemma startsScript_line (line rest : Bytes) :
    startsScript (line ++ newline :: rest) = startsScript line := by
  match line with
  | [] => rfl
  | [c] => simp [startsScript, newline]
  | _ :: _ :: _ => rfl

lemma printLines_fst (lines : List Bytes) : (printLines true lines).1 = true := by
  induction lines with
  | nil => rfl
  | cons line lines ih =>
    rw [printLines]
    by_cases hscript : startsScript line
    · rwa [if_pos hscript]
    · rw [if_neg hscript]

/-- A line that is not skipped is printed, and with a line behind it, its end as well. -/
lemma printLines_line {line rest : Bytes} (hline : newline ∉ line) :
    printLines true ((line ++ newline :: rest).splitOn newline)
      = if startsScript line then printLines true (rest.splitOn newline)
        else (true, line ++ [newline]) := by
  rw [splitOn_line hline, printLines, if_pos (splitOn_ne_nil _ _)]

lemma printLines_last {line : Bytes} (hline : newline ∉ line) :
    printLines true (line.splitOn newline) = (true, if startsScript line then [] else line) := by
  rw [splitOn_eq_singleton hline]
  split_ifs <;> simp_all [printLines]

lemma length_printLines (b : Bytes) : (printLines true (b.splitOn newline)).2.length ≤ b.length := by
  induction b using pieces_induction (· = newline) with
  | last line hline =>
    rw [printLines_last fun hmem => absurd (hline newline hmem) (by decide)]
    split_ifs <;> simp
  | step line sep rest hline hsep ih =>
    obtain rfl : sep = newline := of_decide_eq_true hsep
    rw [printLines_line fun hmem => absurd (hline newline hmem) (by decide), length_append,
      length_cons]
    split_ifs
    · omega
    · simp

/-- **The loop over the lines** prints a text as it is exactly if the text is one line, at most, that
is not skipped. -/
lemma printLines_splitOn_iff (b : Bytes) :
    (printLines true (b.splitOn newline)).2 = b ↔ newline ∉ b.dropLast ∧ startsScript b = false := by
  rcases exists_line b with hlast | ⟨line, rest, hline, rfl⟩
  · have hdrop : newline ∉ b.dropLast := fun h => hlast (mem_of_mem_dropLast h)
    rw [printLines_last hlast]
    cases hscript : startsScript b
    · simp [hdrop]
    · have hne : b ≠ [] := by
        rintro rfl
        cases hscript
      simp [hne.symm]
  · rw [printLines_line hline, startsScript_line]
    cases hscript : startsScript line
    · -- the line and its end
      cases rest with
      | nil => simp [hline]
      | cons c cs => simp [dropLast_append_of_ne_nil]
    · -- the line is missing
      have hshort := length_printLines rest
      refine iff_of_false (fun h => ?_) (by simp)
      have hlen := congrArg List.length h
      rw [if_pos rfl, length_append, length_cons] at hlen
      omega

/-! ## The `#!` line -/

/-- The line at the beginning of a text that names an interpreter, with its end. -/
def scriptLine (b : Bytes) : Bytes :=
  if startsScript b then b.take (b.idxOf newline + 1) else []

lemma scriptLine_line {line : Bytes} (hline : newline ∉ line) (rest : Bytes) :
    scriptLine (line ++ newline :: rest) = if startsScript line then line ++ [newline] else [] := by
  have hidx : (line ++ newline :: rest).idxOf newline = line.length := by
    rw [idxOf_append_of_notMem hline, idxOf_cons_self, Nat.add_zero]
  rw [scriptLine, startsScript_line, hidx, take_length_add_append]
  rfl

lemma scriptLine_last {line : Bytes} (hline : newline ∉ line) :
    scriptLine line = if startsScript line then line else [] := by
  rw [scriptLine, idxOf_eq_length hline, take_of_length_le (Nat.le_succ _)]

/-- The `#!` line is skipped. -/
lemma printLines_scriptLine (b : Bytes) :
    printLines true (b.splitOn newline)
      = printLines true ((b.drop (scriptLine b).length).splitOn newline) := by
  rcases exists_line b with hlast | ⟨line, rest, hline, rfl⟩
  · rw [scriptLine_last hlast]
    cases hscript : startsScript b
    · rfl
    · rw [printLines_last hlast, hscript, if_pos rfl, if_pos rfl, drop_length]
      rfl
  · rw [scriptLine_line hline]
    cases hscript : startsScript line
    · rfl
    · rw [printLines_line hline, hscript, if_pos rfl, if_pos rfl, append_cons line newline rest,
        drop_left]

lemma startsScript_append {b : Bytes} (h : startsScript b = true) (c : Bytes) :
    startsScript (b ++ c) = true := by
  match b, h with
  | [_], h => simp [startsScript] at h
  | _ :: _ :: _, h => exact h

/-- A `#!` line is found in a part of the text that it fits in. -/
lemma scriptLine_append {b c : Bytes} (h : (scriptLine (b ++ c)).length ≤ b.length) :
    scriptLine b = scriptLine (b ++ c) := by
  rcases exists_line b with hb | ⟨line, rest, hline, rfl⟩
  · cases hscript : startsScript (b ++ c)
    · have hpart : startsScript b ≠ true := fun hb => by
        rw [startsScript_append hb] at hscript
        cases hscript
      rw [scriptLine, scriptLine, if_neg hpart, hscript]
      rfl
    · -- the line goes on behind `b`, if there is anything
      rw [scriptLine, if_pos hscript, idxOf_append_of_notMem hb, length_take,
        length_append] at h
      have hc : c = [] := eq_nil_of_length_eq_zero (by omega)
      rw [hc, append_nil]
  · rw [append_assoc, cons_append, scriptLine_line hline, scriptLine_line hline]

/-! ## Responses -/

/-- A response: header lines, and a body behind a blank line. -/
structure Response where
  headers : List Bytes
  body : Bytes
  headers_text : ∀ line ∈ headers, line ≠ [] ∧ newline ∉ line ∧ 0 ∉ line
  body_text : 0 ∉ body

def carriageReturn : UInt8 := 13

namespace Response

variable (r : Response)

def head : Bytes :=
  r.headers.flatMap (· ++ [carriageReturn, newline]) ++ [carriageReturn, newline]

def printed : Bytes := r.body.drop (scriptLine r.body).length

/-- **The records of a response**: what each carries.  No border lies inside the header part or the
`#!` line. -/
structure Split (pieces : List Bytes) : Prop where
  nonempty : ∀ p ∈ pieces, p ≠ []
  flatten : pieces.flatten = r.head ++ r.body
  borders : ∀ before behind, pieces = before ++ behind →
    ¬(0 < before.flatten.length ∧ before.flatten.length < r.head.length) ∧
      ¬(r.head.length < before.flatten.length ∧
        before.flatten.length < r.head.length + (scriptLine r.body).length)

def start (pieces : List Bytes) : Bytes := (pieces.headD []).drop r.head.length

lemma head_ne_nil : r.head ≠ [] := by
  simp [head]

lemma zero_not_mem : 0 ∉ r.head ++ r.body := by
  rw [mem_append, not_or]
  refine ⟨fun h => ?_, r.body_text⟩
  rw [head, mem_append, mem_flatMap] at h
  rcases h with ⟨line, hline, hmem⟩ | hmem
  · rcases mem_append.mp hmem with hmem | hmem
    · exact (r.headers_text line hline).2.2 hmem
    · exact absurd hmem (by decide)
  · exact absurd hmem (by decide)

lemma length_scriptLine_le : (scriptLine r.body).length ≤ r.body.length := by
  rw [scriptLine]
  split_ifs
  · exact length_take_le' _ _
  · exact Nat.zero_le _

lemma split_whole : r.Split [r.head ++ r.body] where
  nonempty p hp := by
    rw [mem_singleton.mp hp]
    exact append_ne_nil_of_left_ne_nil r.head_ne_nil _
  flatten := flatten_singleton
  borders before behind h := by
    have hle := r.length_scriptLine_le
    rcases singleton_eq_append_iff.mp h with ⟨rfl, -⟩ | ⟨rfl, -⟩
    · exact ⟨fun h => absurd h.1 (lt_irrefl _), fun h => absurd h.1 (Nat.not_lt_zero _)⟩
    · rw [flatten_singleton, length_append]
      omega

/-- **The header part** is skipped by lines. -/
lemma printLines_head (b : Bytes) :
    printLines false ((r.head ++ b).splitOn newline) = printLines true (b.splitOn newline) := by
  have hheaders := r.headers_text
  rw [head]
  generalize r.headers = headers at hheaders ⊢
  induction headers with
  | nil =>
    have hblank := @splitOn_line [carriageReturn] (by decide) b
    exact congrArg (printLines false) hblank
  | cons line lines ih =>
    obtain ⟨hne, hline, -⟩ := hheaders line mem_cons_self
    have hcr : newline ∉ line ++ [carriageReturn] := by
      rw [mem_append]
      exact not_or.mpr ⟨hline, by decide⟩
    have hlong : (line ++ [carriageReturn]).length ≠ 1 := by
      simp [hne]
    have htext := splitOn_line hcr
      (lines.flatMap (· ++ [carriageReturn, newline]) ++ [carriageReturn, newline] ++ b)
    have hcons : (line :: lines).flatMap (· ++ [carriageReturn, newline]) ++ [carriageReturn, newline]
          ++ b
        = line ++ [carriageReturn] ++ newline ::
          (lines.flatMap (· ++ [carriageReturn, newline]) ++ [carriageReturn, newline] ++ b) := by
      simp
    rw [hcons, htext, printLines, decide_eq_false hlong]
    exact ih fun l hl => hheaders l (mem_cons_of_mem _ hl)

end Response

/-! ## The records of a response -/

lemma cstr_terminated {b : Bytes} (h : 0 ∉ b) : cstr (b ++ [0]) = b := by
  have hne : ∀ c ∈ b, decide (c ≠ 0) = true := fun c hc => decide_eq_true fun h0 => h (h0 ▸ hc)
  rw [cstr, takeWhile_append_of_pos hne]
  exact append_nil b

/-- The record at the end of an answer that is complete. -/
structure Completes (f : Frame) : Prop where
  type : f.type = 3
  length : f.content.length = 8
  status : f.content.getD 4 0 = 0

lemma Completes.printRecord {f : Frame} (h : Completes f) (endHeader : Bool) :
    printRecord endHeader f.type (f.body ++ [0]) = (none, []) := by
  have hstatus : (f.body ++ [0]).getD 4 0 = 0 := by
    rw [Frame.body, append_assoc, getD_eq_getElem?_getD,
      getElem?_append_left (by rw [h.length]; decide), ← getD_eq_getElem?_getD, h.status]
  have hprint : Fcgicli.printRecord endHeader 3 (f.body ++ [0])
      = (none, statusText ((f.body ++ [0]).getD 4 0)) := rfl
  rw [h.type, hprint, hstatus]
  rfl

section Records

variable {frames : List Frame} {last : Frame}
  (hstdout : ∀ f ∈ frames, f.type = 6 ∧ f.padding = []) (hlast : Completes last)

include hstdout hlast

lemma printRecords_stdout (htext : ∀ f ∈ frames, 0 ∉ f.content) :
    printRecords true (recordsOf (frames ++ [last])) = (frames.map Frame.content).flatten := by
  induction frames with
  | nil =>
    rw [nil_append, recordsOf, map_singleton, printRecords, hlast.printRecord]
    rfl
  | cons f fs ih =>
    obtain ⟨htype, hpadding⟩ := hstdout f mem_cons_self
    have hrest := ih (fun g hg => hstdout g (mem_cons_of_mem _ hg))
      fun g hg => htext g (mem_cons_of_mem _ hg)
    have hbody : f.body = f.content := by rw [Frame.body, hpadding, append_nil]
    have hprint : printRecord true f.type (f.body ++ [0]) = (some true, f.content) := by
      rw [htype, hbody]
      exact congrArg (Prod.mk _) (cstr_terminated (htext f mem_cons_self))
    rw [cons_append, recordsOf, map_cons, printRecords, hprint, map_cons,
      flatten_cons]
    dsimp only
    rw [← recordsOf, hrest]

/-- **The records of a response**: the first is gone through by lines, the others are printed as they
are. -/
lemma printRecords_split {r : Response} (hsplit : r.Split (frames.map Frame.content)) :
    ∃ rest, r.body = r.start (frames.map Frame.content) ++ rest ∧
      printRecords false (recordsOf (frames ++ [last]))
        = (printLines true ((r.start (frames.map Frame.content)).splitOn newline)).2 ++ rest ∧
      (r.start (frames.map Frame.content) = [] ∨
        (scriptLine r.body).length ≤ (r.start (frames.map Frame.content)).length) := by
  cases frames with
  | nil => exact absurd hsplit.flatten.symm (append_ne_nil_of_left_ne_nil r.head_ne_nil _)
  | cons f fs =>
    obtain ⟨htype, hpadding⟩ := hstdout f mem_cons_self
    have hflatten : f.content ++ (fs.map Frame.content).flatten = r.head ++ r.body := hsplit.flatten
    have hborder := hsplit.borders [f.content] (fs.map Frame.content) rfl
    rw [flatten_singleton] at hborder
    have hpos := length_pos_iff.mpr (hsplit.nonempty _ mem_cons_self)
    -- the first record holds the whole header part
    obtain ⟨start, hcontent⟩ : r.head <+: f.content :=
      prefix_of_prefix_length_le (prefix_append _ _) ⟨_, hflatten⟩ (by omega)
    have hstart : r.start ((f :: fs).map Frame.content) = start := by
      rw [Response.start, map_cons, headD_cons, ← hcontent, drop_left]
    rw [← hcontent, append_assoc] at hflatten
    have hbody := append_cancel_left hflatten
    have hzero : ∀ g ∈ f :: fs, 0 ∉ g.content := by
      intro g hg hmem
      refine r.zero_not_mem ?_
      rw [← hsplit.flatten]
      exact mem_flatten_of_mem (mem_map_of_mem hg) hmem
    have hprint : printRecord false f.type (f.body ++ [0])
        = (some true, (printLines true (start.splitOn newline)).2) := by
      rw [htype, Frame.body, hpadding, append_nil]
      have hlines := r.printLines_head start
      rw [hcontent, ← cstr_terminated (hzero f mem_cons_self)] at hlines
      exact congrArg (fun l => (some l.1, l.2)) hlines |>.trans
        (by rw [printLines_fst])
    refine ⟨(fs.map Frame.content).flatten, by rw [hstart, hbody], ?_, ?_⟩
    · have hlater := printRecords_stdout (fun g hg => hstdout g (mem_cons_of_mem _ hg)) hlast
        fun g hg => hzero g (mem_cons_of_mem _ hg)
      rw [hstart, cons_append, recordsOf, map_cons, printRecords, hprint]
      dsimp only
      rw [← recordsOf, hlater]
    · rw [hstart]
      rw [← hcontent, length_append] at hborder
      by_cases hnil : start.length = 0
      · exact .inl (eq_nil_of_length_eq_zero hnil)
      · exact .inr (by omega)

end Records

/-- What the first record carries behind the `#!` line. -/
def Response.remainder (r : Response) (pieces : List Bytes) : Bytes :=
  (r.start pieces).drop (scriptLine r.body).length

/-- **The body is printed** as it should be exactly if the first record carries the `#!` line, if there
is one, and behind it no second one and not more than one line.  The records are those of a split of
the response, with the record at the end of an answer behind them, and they are read. -/
theorem printed_iff {r : Response} {frames : List Frame} {last : Frame}
    (hstdout : ∀ f ∈ frames, f.type = 6 ∧ f.padding = []) (hlast : Completes last)
    (hsplit : r.Split (frames.map Frame.content)) {fuel : ℕ} {header : Bytes} {chunks : List Bytes}
    (hreads : ReadsAll header chunks (frames ++ [last])) (hfuel : frames.length + 1 ≤ fuel) :
    mainLoop fuel false header chunks = (r.printed, none) ↔
      (scriptLine r.body ≠ [] → r.start (frames.map Frame.content) ≠ []) ∧
        newline ∉ (r.remainder (frames.map Frame.content)).dropLast ∧
        startsScript (r.remainder (frames.map Frame.content)) = false := by
  obtain ⟨rest, hbody, hprint, hfits⟩ := printRecords_split hstdout hlast hsplit
  have hends : ∃ f ∈ frames ++ [last], EndsProgram f.type :=
    ⟨last, mem_append_right _ mem_cons_self, fun _ _ => by rw [hlast.type]; rfl⟩
  rw [mainLoop_reads hreads (by simpa using hfuel) hends, hprint, Prod.mk_inj, and_iff_left rfl,
    Response.printed, Response.remainder]
  generalize r.start (frames.map Frame.content) = start at hbody hfits ⊢
  by_cases hle : (scriptLine r.body).length ≤ start.length
  · have hscript : scriptLine start = scriptLine r.body := by
      rw [hbody] at hle ⊢
      exact scriptLine_append hle
    have hthere : scriptLine r.body ≠ [] → start ≠ [] := by
      rintro hne rfl
      exact hne (eq_nil_of_length_eq_zero (Nat.le_zero.mp hle))
    have hdrop : r.body.drop (scriptLine r.body).length
        = start.drop (scriptLine r.body).length ++ rest := by
      rw [← drop_append_of_le_length hle, ← hbody]
    rw [hdrop, printLines_scriptLine, hscript, append_left_inj, printLines_splitOn_iff,
      and_iff_right hthere]
  · -- the `#!` line comes after the first record
    obtain rfl := hfits.resolve_right hle
    refine iff_of_false (fun h => ?_) (fun h => ?_)
    · obtain rfl : rest = r.body := hbody.symm
      have hlen : r.body.length = (r.body.drop (scriptLine r.body).length).length :=
        congrArg List.length h
      have hpos : 0 < r.body.length := by
        refine length_pos_iff.mpr fun hnil => hle ?_
        rw [hnil]
        exact le_rfl
      rw [length_drop] at hlen
      omega
    · refine h.1 (fun hnil => hle ?_) rfl
      rw [hnil]

/-- `A`, and a body in which a line follows the `#!` line. -/
def scriptResponse : Response :=
  ⟨[[65]], [35, 33, 10, 104, 105, 10], by decide, by decide⟩

/-- `A`, and a body of two lines. -/
def twoLines : Response := ⟨[[65]], [97, 10, 98, 10], by decide, by decide⟩

lemma completes_requestComplete : Completes .requestComplete := ⟨by decide, by decide, by decide⟩

def scriptFrame : Frame := .ofContent 6 (scriptResponse.head ++ scriptResponse.body) (by decide)

def twoLinesFrame : Frame := .ofContent 6 (twoLines.head ++ twoLines.body) (by decide)

theorem printed_iff_script :
    mainLoop 2 false (List.replicate 8 0) [scriptFrame.bytes, Frame.requestComplete.bytes]
      = (scriptResponse.printed, none) := by
  have hreads : ReadsAll (List.replicate 8 0) [scriptFrame.bytes, Frame.requestComplete.bytes]
      ([scriptFrame] ++ [.requestComplete]) :=
    ⟨⟨by decide +kernel, by decide +kernel, by decide +kernel, by decide +kernel, by decide +kernel⟩,
      ⟨by decide +kernel, by decide +kernel, by decide +kernel, by decide +kernel, by decide +kernel⟩,
      trivial⟩
  exact (printed_iff (by decide) completes_requestComplete scriptResponse.split_whole hreads
    (by decide)).mpr ⟨by decide +kernel, by decide +kernel, by decide +kernel⟩

/-- **The second line is lost.**  The response is sent in one record: `a` is printed, and `b` is not. -/
theorem second_line_lost :
    twoLines.Split [twoLinesFrame.content] ∧ twoLines.printed = [97, 10, 98, 10] ∧
      mainLoop 2 false (List.replicate 8 0) [twoLinesFrame.bytes, Frame.requestComplete.bytes]
        = ([97, 10], none) :=
  ⟨twoLines.split_whole, by decide +kernel, by decide +kernel⟩

end FreeSense.Fcgicli
