import ApiSchema.Diagnostic.Message
import Mathlib.Data.List.TakeWhile

/-!
# Arguments in templates

Arguments are inserted one after the other, into a text that has the earlier ones. If no argument
has an opening brace, and in the template every opening brace begins a placeholder, then no
insertion touches what another one has inserted.
-/

namespace ApiSchema

open List

/-- Texts, each followed by the value of a number, and a last text. -/
def interleave (value : Nat → List Char) (parts : List (List Char × Nat)) (last : List Char) :
    List Char :=
  parts.flatMap (fun part => part.1 ++ value part.2) ++ last

variable {k i : Nat} {a text rest : List Char} {value : Nat → List Char}

theorem replaceFrom_text (h : '\x7b' ∉ text) :
    replaceFrom (placeholder k) a 0 (text ++ rest) = text ++ replaceFrom (placeholder k) a 0 rest := by
  induction text with
  | nil => rfl
  | cons c cs ih =>
    rw [mem_cons, not_or] at h
    have hnot : ¬ (placeholder k).isPrefixOf (c :: (cs ++ rest)) = true := by simp [placeholder, h.1]
    rw [cons_append, replaceFrom, if_neg hnot, ih h.2, cons_append]

theorem replaceFrom_skip (pattern : List Char) :
    replaceFrom pattern a text.length (text ++ rest) = replaceFrom pattern a 0 rest := by
  induction text with
  | nil => rfl
  | cons c cs ih => exact ih

theorem no_brace_of_digit {c : Char} (h : c ∈ Nat.toDigits 10 i) : c ≠ '\x7b' ∧ c ≠ '\x7d' := by
  have hdigit := Nat.isDigit_of_mem_toDigits (by decide) (by decide) h
  constructor <;> rintro rfl <;> simp at hdigit

/-- Placeholders that begin alike are the same. -/
theorem eq_of_isPrefixOf (h : (placeholder k).isPrefixOf (placeholder i ++ rest) = true) : k = i := by
  obtain ⟨suffix, hsuffix⟩ := isPrefixOf_iff_prefix.mp h
  have hdigits : ∀ n more, (Nat.toDigits 10 n ++ '\x7d' :: more).takeWhile (· ≠ '\x7d') =
      Nat.toDigits 10 n := fun n more => by
    rw [takeWhile_append_of_pos fun c hc => by simpa using (no_brace_of_digit hc).2]
    simp
  have hsame : Nat.toDigits 10 k ++ '\x7d' :: suffix = Nat.toDigits 10 i ++ '\x7d' :: rest := by
    simpa [placeholder] using hsuffix
  calc
    k = Nat.ofDigitChars 10 (Nat.toDigits 10 k) 0 := Nat.ofDigitChars_ten_toDigits.symm
    _ = Nat.ofDigitChars 10 (Nat.toDigits 10 i) 0 := by rw [← hdigits k, hsame, hdigits]
    _ = i := Nat.ofDigitChars_ten_toDigits

theorem replaceFrom_placeholder : replaceFrom (placeholder k) a 0 (placeholder i ++ rest) =
    (if i = k then a else placeholder i) ++ replaceFrom (placeholder k) a 0 rest := by
  change replaceFrom (placeholder k) a 0 ('\x7b' :: (Nat.toDigits 10 i ++ ['\x7d'] ++ rest)) = _
  rw [replaceFrom]
  split
  next hprefix =>
    obtain rfl := @eq_of_isPrefixOf k i rest hprefix
    rw [if_pos rfl]
    exact congrArg (a ++ ·) (replaceFrom_skip _)
  next hnot =>
    have hbrace : '\x7b' ∉ Nat.toDigits 10 i ++ ['\x7d'] := by
      rw [mem_append, not_or]
      exact ⟨fun hmem => (no_brace_of_digit hmem).1 rfl, by decide⟩
    have hne : i ≠ k := fun heq =>
      hnot (heq ▸ isPrefixOf_iff_prefix.mpr (prefix_append (placeholder i) rest))
    rw [if_neg hne, replaceFrom_text hbrace]
    rfl

variable {parts : List (List Char × Nat)} {last : List Char}
  (hparts : ∀ part ∈ parts, '\x7b' ∉ part.1) (hlast : '\x7b' ∉ last)

include hparts hlast

/-- A placeholder is replaced everywhere. -/
theorem replaceFrom_interleave
    (hvalue : ∀ j, if j < k then '\x7b' ∉ value j else value j = placeholder j) :
    replaceFrom (placeholder k) a 0 (interleave value parts last) =
      interleave (fun j => if j = k then a else value j) parts last := by
  induction parts with
  | nil => simpa [interleave, replaceFrom] using @replaceFrom_text k a last [] hlast
  | cons part others ih =>
    rw [forall_mem_cons] at hparts
    have hpart : ∀ more, replaceFrom (placeholder k) a 0 (value part.2 ++ more) =
        (if part.2 = k then a else value part.2) ++ replaceFrom (placeholder k) a 0 more := fun more => by
      have hcases := hvalue part.2
      split at hcases
      · rw [if_neg (Nat.ne_of_lt ‹_›), replaceFrom_text hcases]
      · rw [hcases, replaceFrom_placeholder]
    have hrest := ih hparts.2
    rw [interleave] at hrest
    rw [interleave, flatMap_cons, append_assoc, append_assoc,
      replaceFrom_text hparts.1, hpart, hrest, interleave, interleave, flatMap_cons]
    simp only [append_assoc]

theorem insertArguments_interleave (arguments : List String)
    (hargs : ∀ argument ∈ arguments, '\x7b' ∉ argument.toList)
    (hvalue : ∀ j, if j < k then '\x7b' ∉ value j else value j = placeholder j) :
    insertArguments k (interleave value parts last) arguments = interleave (fun j =>
      if j < k then value j else (arguments[j - k]?).elim (value j) String.toList) parts last := by
  induction arguments generalizing k value with
  | nil => simp [insertArguments]
  | cons argument others ih =>
    rw [forall_mem_cons] at hargs
    rw [insertArguments, replaceFrom_interleave hparts hlast hvalue, ih hargs.2 fun j => ?_]
    · refine congrArg (interleave · parts last) (funext fun j => ?_)
      grind
    · have hcases := hvalue j
      grind

/-- Arguments without opening braces are inserted at the same time. -/
theorem formatTemplate_interleave (arguments : List String)
    (harguments : ∀ argument ∈ arguments, '\x7b' ∉ argument.toList) :
    formatTemplate (String.ofList (interleave placeholder parts last)) arguments =
      String.ofList (interleave (fun j => (arguments[j]?).elim (placeholder j) String.toList)
        parts last) := by
  rw [formatTemplate, String.toList_ofList, insertArguments_interleave hparts hlast arguments
    harguments fun j => by simp]
  simp

omit hparts hlast

/-- A template with two places. -/
theorem formatTemplate_interleave_member :
    formatTemplate "Namespace \x7b0\x7d has no member \x7b1\x7d." ["Pets", "Cat"] =
      "Namespace Pets has no member Cat." :=
  @formatTemplate_interleave [("Namespace ".toList, 0), (" has no member ".toList, 1)] ['.']
    (by decide) (by decide) ["Pets", "Cat"] (by decide)

/-- An argument that reads like a placeholder is replaced in turn. -/
theorem formatTemplate_reinserts : formatTemplate "\x7b0\x7d\x7b1\x7d" ["\x7b1\x7d", "x"] = "xx" := by
  decide +kernel

end ApiSchema
