import Mathlib.Data.List.Basic
import FreeSensePorts.Core.Text

/-!
# Reading lines into variables

The loop `while IFS=c read -r v₁ … vₙ; do … done <file` of a shell, for a separator that is not white
space.  The last variable takes what is left of the line; only a separator that does nothing but end
it is cut off.  What was joined by separators is read back as it was, if no part holds one
(`readLines_intercalate`), but no lines at all are read as one empty line.
-/

namespace FreeSense.Shell

open List

/-- The last variable, from the rest of the line. -/
def lastVariable (ifs : Char) (rest : Text) : Text :=
  if rest.getLast? = some ifs ∧ ifs ∉ rest.dropLast then rest.dropLast else rest

/-- The values of that many variables. -/
def readVariables (ifs : Char) : ℕ → Text → List Text
  | 0, _ => []
  | 1, line => [lastVariable ifs line]
  | n + 2, line =>
    line.takeWhile (· ≠ ifs) :: readVariables ifs (n + 1) ((line.dropWhile (· ≠ ifs)).drop 1)

/-- The lines for which `read` succeeds: it fails for what stands behind the last line feed.  A zero
byte is left out. -/
def readLines (file : Text) : List Text := ((file.filter (· ≠ '\x00')).splitOn '\n').dropLast

lemma lastVariable_of_notMem {ifs : Char} {rest : Text} (h : ifs ∉ rest) :
    lastVariable ifs rest = rest :=
  if_neg fun hlast => h (mem_of_getLast? hlast.1)

theorem readVariables_intercalate {ifs : Char} : ∀ {fields : List Text}, (∀ f ∈ fields, ifs ∉ f) →
    readVariables ifs fields.length ([ifs].intercalate fields) = fields
  | [], _ => rfl
  | [f], h => by
    rw [intercalate_singleton]
    exact congrArg (fun v => [v]) (lastVariable_of_notMem (h f mem_cons_self))
  | f :: g :: fields, h => by
    have hline : [ifs].intercalate (f :: g :: fields) = f ++ ifs :: [ifs].intercalate (g :: fields) := by
      simp [intercalate_cons_cons]
    have hfield : ∀ c ∈ f, decide (c ≠ ifs) = true := fun c hc => decide_eq_true fun heq =>
      h f mem_cons_self (heq ▸ hc)
    have htake : (f ++ ifs :: [ifs].intercalate (g :: fields)).takeWhile (· ≠ ifs) = f := by
      rw [takeWhile_append_of_pos hfield, takeWhile_cons_of_neg (by simp), append_nil]
    have hdrop : (f ++ ifs :: [ifs].intercalate (g :: fields)).dropWhile (· ≠ ifs) =
        ifs :: [ifs].intercalate (g :: fields) := by
      rw [dropWhile_append_of_pos hfield, dropWhile_cons_of_neg (by simp)]
    rw [hline, length_cons, length_cons, readVariables, htake, hdrop, drop_succ_cons]
    exact congrArg (f :: ·)
      (readVariables_intercalate fun f' hf' => h f' (mem_cons_of_mem f hf'))

lemma notMem_intercalate {c : Char} {sep : Text} (hsep : c ∉ sep) {parts : List Text}
    (h : ∀ part ∈ parts, c ∉ part) : c ∉ sep.intercalate parts := by
  induction parts with
  | nil => exact not_mem_nil
  | cons part parts ih =>
    obtain ⟨hpart, hparts⟩ := forall_mem_cons.1 h
    cases parts with
    | nil => rwa [intercalate_singleton]
    | cons next parts =>
      rw [intercalate_cons_cons, mem_append, mem_append]
      rintro ((hc | hc) | hc)
      · exact hpart hc
      · exact hsep hc
      · exact ih hparts hc

lemma intercalate_concat_nil (sep : Text) {parts : List Text} (h : parts ≠ []) :
    sep.intercalate (parts ++ [[]]) = sep.intercalate parts ++ sep := by
  induction parts with
  | nil => exact absurd rfl h
  | cons part parts ih =>
    cases parts with
    | nil => simp [intercalate_cons_cons]
    | cons next parts =>
      rw [cons_append, intercalate_cons_of_ne_nil (by simp),
        intercalate_cons_cons, ih (cons_ne_nil _ _), append_assoc,
        append_assoc, append_assoc]

theorem readLines_intercalate {lines : List Text} (hne : lines ≠ [])
    (h : ∀ line ∈ lines, '\n' ∉ line ∧ '\x00' ∉ line) :
    readLines (['\n'].intercalate lines ++ ['\n']) = lines := by
  have hparts : ∀ line ∈ lines ++ [[]], '\n' ∉ line ∧ '\x00' ∉ line := by
    intro line hline
    rcases mem_append.1 hline with hline | hline
    · exact h line hline
    · rw [mem_singleton.1 hline]
      exact ⟨not_mem_nil, not_mem_nil⟩
  have hzero : '\x00' ∉ ['\n'].intercalate (lines ++ [[]]) :=
    notMem_intercalate (by decide) fun line hline => (hparts line hline).2
  have hfilter : (['\n'].intercalate (lines ++ [[]])).filter (· ≠ '\x00') =
      ['\n'].intercalate (lines ++ [[]]) := by
    rw [filter_eq_self]
    exact fun c hc => decide_eq_true fun heq => hzero (heq ▸ hc)
  rw [readLines, ← intercalate_concat_nil _ hne, hfilter,
    splitOn_intercalate '\n' (fun line hline => (hparts line hline).1) (by simp),
    dropLast_concat]

end FreeSense.Shell
