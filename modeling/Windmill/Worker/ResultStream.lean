import Windmill.Lib.Replace

/-! # Result streams

A script streams its result by printing lines that start with `WM_STREAM: `. The clients and the
wrappers of a main function that yields write a line break in a chunk as `\n`; the worker undoes
this (`windmill-common/src/result_stream.rs`), but backslashes are not escaped. -/

namespace Windmill.Worker.ResultStream

open Lib.Replace List
open Lib.JsonText (replaceText)

def streamPrefix : List Char := "WM_STREAM: ".toList

def encoded (text : List Char) : List Char := replaceText ['\n'] ['\\', 'n'] text 0

inductive Writer where
  | typescriptClient
  | pythonClient
  | mainFunction

/-- The line that is printed: `appendToResultStream`, `append_to_result_stream`, and the loop over
the chunks that a main function yields. -/
def Writer.line : Writer → List Char → List Char
  | .typescriptClient, text => streamPrefix ++ encoded text
  | .pythonClient, text => streamPrefix ++ encoded text
  | .mainFunction, chunk => streamPrefix ++ encoded chunk

def extractStreamFromLogs (line : List Char) : Option (List Char) :=
  if streamPrefix <+: line then
    let streamContent := line.drop streamPrefix.length
    if streamContent = [] then none else some (replaceText ['\\', 'n'] ['\n'] streamContent 0)
  else none

/-- What the process prints for the chunks. -/
def printed (writer : Writer) (chunks : List (List Char)) : List Char :=
  chunks.flatMap fun chunk => writer.line chunk ++ ['\n']

/-- What the worker decodes, line by line. -/
def received (output : List Char) : List (List Char) :=
  (output.splitOn '\n').filterMap extractStreamFromLogs

/-! ### Chunks -/

lemma encoded_cons (c : Char) (text : List Char) :
    encoded (c :: text) = (if c = '\n' then ['\\', 'n'] else [c]) ++ encoded text := by
  by_cases hc : c = '\n'
  · subst hc
    exact replaceText_match (cons_ne_nil _ _) text
  · have hno : ¬['\n'] <+: c :: text := fun h => hc (cons_prefix_cons.mp h).1.symm
    rw [encoded, replaceText, if_neg hno, if_neg hc]
    rfl

lemma lineBreak_notMem_encoded (text : List Char) : '\n' ∉ encoded text := by
  induction text with
  | nil => exact not_mem_nil
  | cons c text ih =>
    rw [encoded_cons, mem_append, not_or]
    refine ⟨?_, ih⟩
    split_ifs with hc
    · decide
    · simpa using Ne.symm hc

def decoded (text : List Char) : List Char := replaceText ['\\', 'n'] ['\n'] (encoded text) 0

lemma decoded_escaped (text : List Char) :
    decoded ('\\' :: 'n' :: text) = '\n' :: decoded text := by
  rw [decoded, encoded_cons, encoded_cons]
  exact replaceText_match (cons_ne_nil _ _) _

lemma decoded_cons {c text} (h : ¬['\\', 'n'] <+: c :: text) :
    decoded (c :: text) = c :: decoded text := by
  rw [decoded, encoded_cons]
  by_cases hc : c = '\n'
  · subst hc
    exact replaceText_match (cons_ne_nil _ _) _
  rw [if_neg hc]
  -- the next character is an `n` before it is encoded if it is one after that
  refine if_neg fun hpref => ?_
  obtain ⟨rfl, hn⟩ := cons_prefix_cons.mp hpref
  cases text with
  | nil => cases prefix_nil.mp hn
  | cons d text =>
    rw [encoded_cons] at hn
    split_ifs at hn with hd
    · cases (cons_prefix_cons.mp hn).1
    · obtain ⟨rfl, -⟩ := cons_prefix_cons.mp hn
      exact h (prefix_append ['\\', 'n'] text)

lemma decoded_cases (text : List Char) : decoded text = text ∧ ¬['\\', 'n'] <:+: text ∨
    (decoded text).length < text.length ∧ ['\\', 'n'] <:+: text := by
  induction text with
  | nil => exact .inl ⟨rfl, by simp⟩
  | cons c text ih =>
    by_cases hpref : ['\\', 'n'] <+: c :: text
    · refine .inr ⟨?_, infix_cons_iff.mpr (.inl hpref)⟩
      obtain ⟨rest, rfl, rfl⟩ : ∃ rest, c = '\\' ∧ text = 'n' :: rest := by
        obtain ⟨rest, heq⟩ := hpref
        exact ⟨rest, (cons.inj heq).1.symm, (cons.inj heq).2.symm⟩
      have hle : (decoded ('n' :: rest)).length ≤ ('n' :: rest).length := by
        rcases ih with ⟨heq, -⟩ | ⟨hlt, -⟩
        · rw [heq]
        · exact hlt.le
      rw [decoded_cons fun h => by cases (cons_prefix_cons.mp h).1] at hle
      rw [decoded_escaped]
      simp only [length_cons] at hle ⊢
      omega
    · rw [decoded_cons hpref, infix_cons_iff, or_iff_right hpref]
      rcases ih with ⟨heq, hno⟩ | ⟨hlt, hinfix⟩
      · exact .inl ⟨congrArg (c :: ·) heq, hno⟩
      · exact .inr ⟨Nat.succ_lt_succ hlt, hinfix⟩

/-! ### The stream -/

lemma Writer.line_eq (writer : Writer) (chunk : List Char) :
    writer.line chunk = streamPrefix ++ encoded chunk := by
  cases writer <;> rfl

lemma received_printed (writer : Writer) {chunks} (h : ∀ chunk ∈ chunks, chunk ≠ []) :
    received (printed writer chunks) = chunks.map decoded := by
  induction chunks with
  | nil => rfl
  | cons chunk chunks ih =>
    have hline : ∀ c ∈ writer.line chunk, (c == '\n') = false := fun c hc => by
      rw [writer.line_eq, mem_append] at hc
      refine beq_eq_false_iff_ne.mpr ?_
      rintro rfl
      exact hc.elim (by decide) (lineBreak_notMem_encoded chunk)
    have hsplit : (printed writer (chunk :: chunks)).splitOn '\n' =
        writer.line chunk :: (printed writer chunks).splitOn '\n' := by
      rw [printed, flatMap_cons, append_assoc]
      exact splitOnP_append_cons_of_forall_mem hline '\n' rfl _
    have hextract : extractStreamFromLogs (writer.line chunk) = some (decoded chunk) := by
      have hne : encoded chunk ≠ [] := by
        cases chunk with
        | nil => exact absurd rfl (h [] mem_cons_self)
        | cons c chunk =>
          rw [encoded_cons]
          split_ifs <;> exact cons_ne_nil _ _
      rw [extractStreamFromLogs, writer.line_eq, if_pos (prefix_append _ _), drop_left]
      exact if_neg hne
    rw [received, hsplit, filterMap_cons_some hextract, map_cons]
    exact congrArg (decoded chunk :: ·) (ih fun c hc => h c (mem_cons_of_mem chunk hc))

/-- **A streamed text arrives unchanged if and only if** no chunk has a backslash before an `n`. -/
theorem stream_unchanged_iff (writer : Writer) {chunks : List (List Char)}
    (h : ∀ chunk ∈ chunks, chunk ≠ []) :
    (received (printed writer chunks)).flatten = chunks.flatten ↔ ∀ chunk ∈ chunks,
    ¬['\\', 'n'] <:+: chunk := by
  rw [received_printed writer h]
  constructor
  · intro heq chunk hmem hinfix
    have hlt : ((chunks.map decoded).map length).sum < (chunks.map length).sum := by
      rw [map_map]
      refine sum_lt_sum _ _ (fun c _ => ?_) ⟨chunk, hmem, ?_⟩
      · rcases decoded_cases c with ⟨hsame, -⟩ | ⟨hlt, -⟩
        · exact (congrArg length hsame).le
        · exact hlt.le
      · exact ((decoded_cases chunk).resolve_left fun hsame => hsame.2 hinfix).1
    rw [← length_flatten, ← length_flatten, heq] at hlt
    exact lt_irrefl _ hlt
  · intro hno
    have hsame : ∀ chunk ∈ chunks, decoded chunk = chunk := fun chunk hmem =>
      (decoded_cases chunk).elim (·.1) fun hinfix => absurd hinfix.2 (hno chunk hmem)
    rw [map_congr_left hsame, map_id']

theorem path_changed : (received (printed .pythonClient ["C:\\new".toList])).flatten =
    "C:\new".toList ∧ "C:\new".toList ≠ ["C:\\new".toList].flatten := by
  decide

theorem plain_unchanged :
    (received (printed .typescriptClient ["a\\".toList, "n\n".toList])).flatten = "a\\n\n".toList :=
  (stream_unchanged_iff .typescriptClient (by decide)).mpr (by decide)

end Windmill.Worker.ResultStream
