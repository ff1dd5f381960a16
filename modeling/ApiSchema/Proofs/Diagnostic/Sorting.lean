import ApiSchema.Program
import Mathlib.Data.List.Lex
import Mathlib.Data.Prod.Lex
import Mathlib.Data.String.Basic
import Mathlib.Order.WithBot

/-!
# Diagnostics in order

A check answers the reported diagnostics sorted by their places. The place of a diagnostic is its
file, none before any, and its position. Names of files are compared by the bytes of their encoding,
which is the same as comparing them character by character. Diagnostics at one place stay in the
order of reporting, and the cap cuts the sorted list.
-/

namespace ApiSchema

open Diagnostics List

/-! ### Bytes of texts -/

/-- The bytes of the encoding of a text. -/
def utf8 (text : String) : List ℕ := text.toUTF8.data.toList.map UInt8.toNat

/-- The bytes of a character come before those of a greater one, whatever follows. -/
theorem utf8EncodeChar_lt {c d : Char} (h : c < d) (rest more : List ℕ) :
    (String.utf8EncodeChar c).map UInt8.toNat ++ rest <
      (String.utf8EncodeChar d).map UInt8.toNat ++ more := by
  have hlt : c.val.toNat < d.val.toNat := h
  have hd : d.val.toNat < 0x110000 := by
    have hvalid := d.valid
    simp only [UInt32.isValidChar, Nat.isValidChar] at hvalid
    omega
  simp only [String.utf8EncodeChar]
  generalize c.val.toNat = v at hlt ⊢
  generalize d.val.toNat = w at hlt hd ⊢
  -- Codes of the same length are compared by their digits to base 64, of other lengths by the first
  -- byte alone.
  have hone : v / 64 < w / 64 ∨ v / 64 = w / 64 ∧ v % 64 < w % 64 := by omega
  have htwo : v / 4096 < w / 4096 ∨ v / 4096 = w / 4096 ∧ (v / 64 % 64 < w / 64 % 64 ∨
      v / 64 % 64 = w / 64 % 64 ∧ v % 64 < w % 64) := by omega
  have hthree : v / 262144 < w / 262144 ∨ v / 262144 = w / 262144 ∧
      (v / 4096 % 64 < w / 4096 % 64 ∨ v / 4096 % 64 = w / 4096 % 64 ∧
        (v / 64 % 64 < w / 64 % 64 ∨ v / 64 % 64 = w / 64 % 64 ∧ v % 64 < w % 64)) := by omega
  have hbyte : ∀ {n : ℕ}, n < 256 → (UInt8.ofNat n).toNat = n := UInt8.toNat_ofNat_of_lt'
  split_ifs <;> simp (disch := omega) only [map_cons, cons_append, cons_lt_cons_iff,
    hbyte, Nat.mod_eq_of_lt] <;> omega

/-- Texts are ordered as their bytes are. -/
theorem utf8_strictMono : StrictMono utf8 := by
  have hutf8 : ∀ text, utf8 text =
      text.toList.flatMap fun c => (String.utf8EncodeChar c).map UInt8.toNat := by
    intro text
    have hbytes : text.toUTF8 = text.toList.utf8Encode := by simp
    rw [utf8, hbytes, List.utf8Encode, toList_data_toByteArray, map_flatMap]
  intro a b h
  rw [hutf8, hutf8]
  replace h := String.lt_iff.mp h
  generalize a.toList = x, b.toList = y at h
  induction h with
  | @nil c rest =>
    obtain ⟨byte, more, hcons⟩ := exists_cons_of_ne_nil (String.utf8EncodeChar_ne_nil (c := c))
    simp [hcons]
  | rel h => exact utf8EncodeChar_lt h _ _
  | cons _ ih => exact append_left_lt ih

/-! ### Places of diagnostics -/

namespace Diagnostic

/-- The bytes of the name of a file. No file comes before all others. -/
def fileKey : Option String → WithBot (List ℕ)
  | none => ⊥
  | some file => ↑(utf8 file)

/-- Where a diagnostic belongs among others. -/
def place (d : Diagnostic) : WithBot (List ℕ) ×ₗ ℕ := toLex (fileKey d.file, d.position)

/-- Diagnostics are compared by their places. -/
theorem le_iff (a b : Diagnostic) : a.le b = true ↔ a.place ≤ b.place := by
  rw [le, place, place, Prod.Lex.toLex_le_toLex]
  cases a.file with
  | none =>
    cases b.file with
    | none => simp [compareFiles]
    | some y => simp [compareFiles, fileKey]
  | some x =>
    cases b.file with
    | none => simp [compareFiles, fileKey]
    | some y =>
      simp only [compareFiles, fileKey, WithBot.coe_lt_coe, WithBot.coe_inj,
        utf8_strictMono.lt_iff_lt, utf8_strictMono.injective.eq_iff]
      rcases lt_trichotomy x y with hlt | rfl | hgt
      · simp [compare_lt_iff_lt.mpr hlt, hlt]
      · simp
      · simp [compare_gt_iff_gt.mpr hgt, hgt.ne', hgt.not_gt]

end Diagnostic

/-- A list sorted by places in which diagnostics at one place stand as they did before. -/
structure Diagnostics.StableSort (reported sorted : List Diagnostic) : Prop where
  perm : sorted.Perm reported
  ordered : sorted.Pairwise fun a b => a.place ≤ b.place
  stable (file : Option String) (position : ℕ) :
    (sorted.filter fun d => d.file = file ∧ d.position = position) =
      reported.filter fun d => d.file = file ∧ d.position = position

/-- Sorting is stable. -/
theorem Diagnostics.sort_stableSort (ds : Diagnostics) : StableSort ds.toList ds.sort.toList := by
  have htrans : ∀ a b c : Diagnostic, a.le b = true → b.le c = true → a.le c = true := by
    simp only [Diagnostic.le_iff]
    exact fun a b c => le_trans
  have htotal : ∀ a b : Diagnostic, (a.le b || b.le a) = true := by
    simp only [Bool.or_eq_true, Diagnostic.le_iff]
    exact fun a b => le_total _ _
  have hperm : ds.sort.toList.Perm ds.toList := mergeSort_perm _ _
  refine ⟨hperm, ?_, fun file position => ?_⟩
  · exact (pairwise_mergeSort htrans htotal ds.toList).imp (Diagnostic.le_iff _ _).mp
  · -- Those at one place are in order as they are, so that sorting keeps them in a row.
    have hequal : (ds.toList.filter fun d => d.file = file ∧ d.position = position).Pairwise
        fun a b => a.le b = true := by
      refine pairwise_of_forall_mem_list fun a ha b hb => ?_
      simp only [mem_filter, decide_eq_true_eq] at ha hb
      rw [Diagnostic.le_iff, Diagnostic.place, Diagnostic.place, ha.2.1, ha.2.2, hb.2.1, hb.2.2]
    have hsub := (sublist_mergeSort htrans htotal hequal filter_sublist).filter
      fun d => decide (d.file = file ∧ d.position = position)
    rw [filter_filter] at hsub
    simp only [Bool.and_self] at hsub
    exact (hsub.eq_of_length (hperm.filter _).length_eq.symm).symm

/-! ### The answer of a check -/

/-- The diagnostics that a cap leaves. -/
def Diagnostics.cut (cap : Option UInt64) (ds : List Diagnostic) : List Diagnostic :=
  match cap with
  | none => ds
  | some limit => ds.take limit.toNat

/-- A cap that lets through no more than another one. -/
def Diagnostics.CutsMore : Option UInt64 → Option UInt64 → Prop
  | _, none => True
  | none, some _ => False
  | some small, some large => small ≤ large

theorem Diagnostics.cut_prefix {small large : Option UInt64} (h : CutsMore small large)
    (ds : List Diagnostic) : cut small ds <+: cut large ds := by
  cases large with
  | none =>
    cases small with
    | none => exact prefix_rfl
    | some small => exact take_prefix _ _
  | some large =>
    cases small with
    | none => exact h.elim
    | some small => exact take_prefix_take_left (UInt64.le_iff_toNat_le.mp h)

namespace Program

/-- The program with another cap. -/
def withCap (program : Program) (cap : Option UInt64) : Program :=
  { program with options := { program.options with maxDiagnostics := cap } }

/-- A check that does not fail answers what is left of the sorted diagnostics. -/
theorem check_withCap {program : Program} {depth : ℕ} {state : Checking.State}
    (h : program.run depth = some (none, state)) (cap : Option UInt64) :
    (program.withCap cap).check depth = some (.ok ⟨{ state with diagnostics := .empty },
      ⟨cut cap state.diagnostics.sort.toList⟩⟩) := by
  have hrun : (program.withCap cap).run depth = some (none, state) := h
  rw [check, hrun]
  cases cap <;> rfl

/-- A run without a failure gives a result. -/
theorem check_of_run {program : Program} {depth : ℕ} {state : Checking.State}
    (h : program.run depth = some (none, state)) :
    program.check depth = some (.ok ⟨{ state with diagnostics := .empty },
      ⟨cut program.options.maxDiagnostics state.diagnostics.sort.toList⟩⟩) :=
  check_withCap h program.options.maxDiagnostics

/-- A result comes of a run without a failure. -/
theorem exists_run {program : Program} {depth : ℕ} {result : CheckResult}
    (h : program.check depth = some (.ok result)) :
    ∃ state, program.run depth = some (none, state) := by
  obtain ⟨⟨failure, state⟩, hrun, hconclude⟩ := Option.map_eq_some_iff.mp h
  cases failure with
  | none => exact ⟨state, hrun⟩
  | some failure => simp [conclude] at hconclude

/-- Whatever the cap, a check answers what the cap leaves of one stable sort of the reported
diagnostics, so that a smaller cap answers a prefix of what a larger one does. -/
theorem diagnostics_capped_stable_sort (program : Program) (depth : ℕ) {result : CheckResult}
    (h : program.check depth = some (.ok result)) :
    ∃ state sorted, program.run depth = some (none, state) ∧
      Diagnostics.StableSort state.diagnostics.toList sorted ∧
      result.diagnostics.toList = cut program.options.maxDiagnostics sorted ∧
      ∀ cap, ∃ other, (program.withCap cap).check depth = some (.ok other) ∧
        other.diagnostics.toList = cut cap sorted ∧
        (Diagnostics.CutsMore cap program.options.maxDiagnostics →
          other.diagnostics.toList <+: result.diagnostics.toList) := by
  obtain ⟨state, hrun⟩ := exists_run h
  have hanswer : result.diagnostics.toList =
      cut program.options.maxDiagnostics state.diagnostics.sort.toList := by
    obtain rfl := Except.ok.inj (Option.some.inj (h.symm.trans (check_of_run hrun)))
    rfl
  refine ⟨state, _, hrun, sort_stableSort _, hanswer, fun cap =>
    ⟨_, check_withCap hrun cap, rfl, fun hmore => ?_⟩⟩
  rw [hanswer]
  exact cut_prefix hmore _

/-- Two files that refer to what does not exist, the later one by name first, of which one report
may be answered: `alias Left = Missing` in `b` and `alias Right = Missing` in `a`. -/
def strays : Program :=
  ((Program.empty ⟨false, some 1⟩).addFile
    ⟨"b", [.aliasDecl "Left" [] (.reference "Missing" [])]⟩).addFile
    ⟨"a", [.aliasDecl "Right" [] (.reference "Missing" [])]⟩

/-- Of two files the first by name is listed. -/
theorem diagnostics_capped_stable_sort_strays :
    ∃ result state sorted, strays.check 20 = some (.ok result) ∧
      strays.run 20 = some (none, state) ∧
      state.diagnostics.toList.map Diagnostic.file = [some "b", some "a"] ∧
      Diagnostics.StableSort state.diagnostics.toList sorted ∧
      result.diagnostics.toList = sorted.take 1 := by
  have hrun : ((strays.run 20).any fun outcome => outcome.1 = none ∧
      outcome.2.diagnostics.toList.map Diagnostic.file = [some "b", some "a"]) = true := by
    decide +kernel
  obtain ⟨⟨failure, state⟩, hrun, hreports⟩ := (Option.any_eq_true _ _).mp hrun
  obtain ⟨rfl, hfiles⟩ := of_decide_eq_true hreports
  obtain ⟨state', sorted, hrun', hsorted, hanswer, -⟩ :=
    diagnostics_capped_stable_sort strays 20 (check_of_run hrun)
  obtain rfl := (Prod.mk.inj (Option.some.inj (hrun.symm.trans hrun'))).2
  exact ⟨_, state, sorted, check_of_run hrun, hrun, hfiles, hsorted, hanswer⟩

end Program

end ApiSchema
