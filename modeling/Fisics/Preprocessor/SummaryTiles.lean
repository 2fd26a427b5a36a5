import Fisics.Preprocessor.GuardLaws
import Mathlib.Data.List.TakeWhile

/-!
# What the actions of a summary cover

The actions of a candidate follow each other without a gap up to the end of the file,
and no text between directives is lost. A directive's action is its line, but for an
include whose operand is a string on a later line: the scan checks the line of what
stands behind the string, and not that of the string.
-/

namespace Fisics

/-- The actions cover the tokens from `i` to `stop`, one after the other. -/
def Tiles : (i stop : Nat) → List IncludeSummaryAction → Prop
  | i, stop, [] => i = stop
  | i, stop, action :: rest => action.start = i ∧ i < action.stop ∧ Tiles action.stop stop rest

/-- Text has no directive in it, and any other range is one directive with its line. -/
def coversLine (buffer : List Token) (action : IncludeSummaryAction) : Bool :=
  let range := (buffer.drop action.start).take (action.stop - action.start)
  if action.kind = .rawRange then range.all fun tok => directiveActionKind tok == none
  else
    match buffer.drop action.start with
    | [] => false
    | tok :: rest =>
      directiveActionKind tok == some (some action.kind) && range == tok :: directiveLine tok rest

def operandOnLine (tok : Token) (rest : List Token) : Bool :=
  !isIncludeType tok.type || rest.head?.any (·.line == tok.line)

/-- No include directive stands on a line by itself. -/
def operandsOnLine : (skip : Nat) → List Token → Bool
  | _, [] => true
  | skip + 1, _ :: rest => operandsOnLine skip rest
  | 0, tok :: rest =>
    if tok.type = .eof then true
    else if directiveActionKind tok = none then operandsOnLine 0 rest
    else operandOnLine tok rest && operandsOnLine (directiveLine tok rest).length rest

def beforeEof (tokens : List Token) : List Token := tokens.takeWhile fun tok => tok.type != .eof

-- One action

theorem takeWhile_eq_take {l : List α} (hn : n ≤ (l.takeWhile p).length)
    (hstop : (l.drop n).takeWhile p = []) : l.takeWhile p = l.take n := by
  induction n generalizing l with
  | zero => simpa using hstop
  | succ n ih =>
    cases l with
    | nil => rfl
    | cons x l => ?_
    rw [List.takeWhile_cons] at hn ⊢
    split at hn
    · rw [if_pos ‹_›, List.take_succ_cons, ih (Nat.le_of_succ_le_succ hn) hstop]
    · cases hn

theorem angleIncludeName_taken (h : angleIncludeName p name tokens = (some name', n)) :
    n ≤ (tokens.takeWhile p).length := by
  induction tokens generalizing name n with
  | nil => cases h
  | cons tok rest ih =>
    rw [angleIncludeName] at h
    split at h
    · cases h
    rename_i hp
    rw [List.takeWhile_cons, if_pos (by simpa using hp), List.length_cons]
    split at h
    · cases h
      exact Nat.le_add_left 1 _
    split at h
    · cases h
    · simp only [Prod.mk.injEq] at h
      obtain ⟨hname, rfl⟩ := h
      exact Nat.succ_le_succ (ih (Prod.ext hname rfl))

theorem parseIncludeOperand_taken (h : parseIncludeOperand tok (first :: after) = some (name, s, taken)) :
    first.type ≠ .eof ∧ ∃ n, taken = n + 1 ∧ n ≤ after.length ∧ directiveLine tok after = after.take n := by
  obtain ⟨⟨name', s', taken'⟩, hoperand, hline⟩ := Option.bind_eq_some_iff.mp h
  dsimp only at hline
  split at hline
  · rename_i hempty
    cases hline
    rw [List.isEmpty_iff] at hempty
    split at hoperand
    · rename_i htype _
      cases hoperand
      exact ⟨by simp [htype], 0, rfl, Nat.zero_le _, hempty⟩
    · rename_i htype
      obtain ⟨name', hname, heq⟩ := Option.map_eq_some_iff.mp hoperand
      cases heq
      have hn := angleIncludeName_taken (Prod.ext hname rfl)
      exact ⟨by simp [htype], _, rfl, Nat.le_trans hn (List.takeWhile_sublist _).length_le,
        takeWhile_eq_take hn hempty⟩
    · cases hoperand
  · cases hline

/-- An action takes the line of its directive exactly where the operand of an include
stands on it. -/
theorem actionTaken_spec (h : actionTaken tok rest = some taken) :
    taken ≤ rest.length ∧ (∀ t ∈ rest.take taken, t.type ≠ .eof) ∧
      (rest.take taken = directiveLine tok rest ↔ operandOnLine tok rest = true) := by
  unfold actionTaken at h
  unfold operandOnLine
  cases hinclude : isIncludeType tok.type with
  | false =>
    rw [hinclude] at h
    cases h
    have htake : rest.take (directiveLine tok rest).length = directiveLine tok rest :=
      (List.prefix_iff_eq_take.mp (List.takeWhile_prefix _)).symm
    refine ⟨(List.takeWhile_sublist _).length_le, fun t ht => ?_, by simp [htake]⟩
    have hin := List.mem_takeWhile_imp (htake ▸ ht)
    simp_all
  | true => ?_
  rw [hinclude, if_pos rfl] at h
  obtain ⟨⟨name, s, _⟩, hparse, rfl⟩ := Option.map_eq_some_iff.mp h
  cases rest with
  | nil => cases hparse
  | cons first after => ?_
  obtain ⟨hfirst, n, rfl, hn, hline⟩ := parseIncludeOperand_taken hparse
  refine ⟨Nat.succ_le_succ hn, fun t ht => ?_, ?_⟩
  · rcases List.mem_cons.mp ht with rfl | ht
    · exact hfirst
    · rw [← hline] at ht
      have hin := List.mem_takeWhile_imp ht
      simp_all
  · rw [List.take_succ_cons, ← hline]
    simp only [directiveLine, lineTokens, List.takeWhile_cons]
    by_cases hon : first.line = tok.line
    · simp [hfirst, hon]
    · simp [hon]

theorem coversLine_directive (hkind : directiveActionKind tok = some (some kind))
    (hdrop : buffer.drop i = tok :: rest) :
    coversLine buffer (includeSummaryActionMake buffer kind i (i + 1 + taken)) = true ↔
      rest.take taken = directiveLine tok rest := by
  have hraw : kind ≠ .rawRange := by
    rintro rfl
    unfold directiveActionKind at hkind
    repeat' split at hkind
    all_goals cases hkind
  have hstop : i + 1 + taken - i = taken + 1 := by omega
  simp [coversLine, includeSummaryActionMake, hraw, hdrop, hkind, hstop]

theorem appendRawAction_tiles (hraw : rawStart ≤ i)
    (hplain : ∀ tok ∈ (buffer.drop rawStart).take (i - rawStart), directiveActionKind tok = none)
    (actions : List IncludeSummaryAction) :
    ∃ raw, appendRawAction buffer actions rawStart i = actions ++ raw ∧
      (∀ stop more, Tiles i stop more → Tiles rawStart stop (raw ++ more)) ∧
      raw.all (coversLine buffer) = true := by
  unfold appendRawAction
  split
  · rename_i hlt
    refine ⟨_, rfl, fun stop more h => ⟨rfl, hlt, h⟩, ?_⟩
    simpa [coversLine, includeSummaryActionMake] using hplain
  · obtain rfl : rawStart = i := by omega
    exact ⟨[], (List.append_nil _).symm, fun stop more h => h, rfl⟩

-- The scan

theorem operandsOnLine_skip (ts after : List Token) :
    operandsOnLine ts.length (ts ++ after) = operandsOnLine 0 after := by
  induction ts with
  | nil => rfl
  | cons t ts ih => exact ih

theorem analyzeLoop_tiles (h : analyzeLoop buffer 0 i rawStart actions tokens = .ok result)
    (hdrop : buffer.drop i = tokens) (hraw : rawStart ≤ i)
    (hplain : ∀ tok ∈ (buffer.drop rawStart).take (i - rawStart), directiveActionKind tok = none) :
    ∃ more, result = actions ++ more ∧ Tiles rawStart (i + (beforeEof tokens).length) more ∧
      more.all (coversLine buffer) = operandsOnLine 0 tokens := by
  induction hn : tokens.length using Nat.strong_induction_on generalizing tokens i rawStart actions with
  | _ n ih => ?_
  obtain ⟨raw, happend, htiles, hcovers⟩ := appendRawAction_tiles hraw hplain actions
  have hend : Tiles rawStart i raw := List.append_nil raw ▸ htiles i [] rfl
  cases tokens with
  | nil =>
    cases h
    exact ⟨raw, happend, hend, hcovers⟩
  | cons tok rest => ?_
  have hrest : buffer.drop (i + 1) = rest := by
    rw [← List.drop_drop, hdrop]
    rfl
  rw [analyzeLoop] at h
  rw [operandsOnLine]
  split at h
  · rename_i heof
    cases h
    exact ⟨raw, happend, by simpa [beforeEof, heof] using hend, by rw [if_pos heof, hcovers]⟩
  rename_i heof
  have hbefore : beforeEof (tok :: rest) = tok :: beforeEof rest := by simp [beforeEof, heof]
  rw [if_neg heof, hbefore, List.length_cons]
  split at h
  · rename_i htext
    have hplain' : ∀ t ∈ (buffer.drop rawStart).take (i + 1 - rawStart), directiveActionKind t = none := by
      have hat : (buffer.drop rawStart)[i - rawStart]? = some tok := by
        rw [List.getElem?_drop, Nat.add_sub_of_le hraw, ← Nat.add_zero i, ← List.getElem?_drop, hdrop]
        rfl
      rw [Nat.sub_add_comm hraw, List.take_add_one, hat]
      intro t ht
      rcases List.mem_append.mp ht with ht | ht
      · exact hplain t ht
      · exact List.mem_singleton.mp ht ▸ htext
    have hlt : rest.length < n := by simp [← hn]
    have := ih _ hlt h hrest (Nat.le_succ_of_le hraw) hplain' rfl
    rw [if_pos htext]
    rwa [Nat.add_right_comm] at this
  · cases h
  rename_i kind hkind
  split at h
  · cases h
  rename_i taken htaken
  obtain ⟨hlength, hnoEof, hline⟩ := actionTaken_spec htaken
  have hact : coversLine buffer (includeSummaryActionMake buffer kind i (i + 1 + taken)) =
      operandOnLine tok rest := Bool.eq_iff_iff.mpr ((coversLine_directive hkind hdrop).trans hline)
  have htake := List.length_take_of_le hlength
  have hskip := fun rawStart actions =>
    analyzeLoop_skip buffer (rest.take taken) (rest.drop taken) (i + 1) rawStart actions
  rw [htake, List.take_append_drop] at hskip
  rw [hskip] at h
  have hlt : (rest.drop taken).length < n := by
    rw [List.length_drop, ← hn, List.length_cons]
    omega
  obtain ⟨more, rfl, htiles', hcovers'⟩ := ih _ hlt h (by rw [← List.drop_drop, hrest]) (Nat.le_refl _)
    (by simp) rfl
  have hbehind : beforeEof rest = rest.take taken ++ beforeEof (rest.drop taken) := by
    conv_lhs => rw [← List.take_append_drop taken rest]
    exact List.takeWhile_append_of_pos fun t ht => by simpa using hnoEof t ht
  refine ⟨raw ++ includeSummaryActionMake buffer kind i (i + 1 + taken) :: more, ?_, ?_, ?_⟩
  · rw [happend, List.append_assoc, List.append_assoc]
    rfl
  · have hstop : i + ((beforeEof rest).length + 1) =
        i + 1 + taken + (beforeEof (rest.drop taken)).length := by
      rw [hbehind, List.length_append, htake]
      omega
    rw [hstop]
    exact htiles _ _ ⟨rfl, (by simp only [includeSummaryActionMake]; omega), htiles'⟩
  · rw [List.all_append, hcovers, List.all_cons, hact, hcovers', if_neg (by simp [hkind])]
    cases hon : operandOnLine tok rest with
    | false => rfl
    | true => ?_
    have hskip' := operandsOnLine_skip (rest.take taken) (rest.drop taken)
    rw [List.take_append_drop, hline.mpr hon] at hskip'
    rw [hskip']
    rfl

theorem analyzeLoop_rejects (buffer : List Token) (skip i rawStart : Nat)
    (actions : List IncludeSummaryAction) (tokens : List Token) :
    analyzeLoop buffer skip i rawStart actions tokens ≠ .error .candidate := by
  fun_induction analyzeLoop <;> first | assumption | nofun

def Tiled (buffer : List Token) : Prop :=
  let actions := (analyzeIncludeSummaryProbe buffer).2
  Tiles 0 (beforeEof buffer).length actions ∧ actions.all (coversLine buffer) = true

/-- A candidate is tiled by its actions, each directive's action being one line, exactly
when every include directive has the beginning of its operand on its line. -/
theorem candidate_tiled_iff (buffer : List Token) :
    ((analyzeIncludeSummaryProbe buffer).1.status = .candidate ∧ Tiled buffer) ↔
      (analyzeIncludeSummaryProbe buffer).1.status = .candidate ∧ operandsOnLine 0 buffer = true := by
  refine and_congr_right fun h => ?_
  unfold Tiled
  unfold analyzeIncludeSummaryProbe at h ⊢
  split at h
  · cases h
  rename_i hne
  rw [if_neg hne]
  split at h
  · rename_i actions hactions
    obtain ⟨more, rfl, htiles, hcovers⟩ := analyzeLoop_tiles hactions rfl (Nat.le_refl 0) (by simp)
    rw [Nat.zero_add] at htiles
    simp [htiles, hcovers]
  · rename_i status hstatus
    obtain rfl : status = .candidate := h
    exact absurd hstatus (analyzeLoop_rejects _ _ _ _ _ _)

/-- `#include` and `"n.h"` on the next line. -/
def splitInclude : List Token :=
  [lineHead "include" .include 1, operand "n.h" .string 2, lineHead "EOF" .eof 3]

theorem splitInclude_covers_two :
    (analyzeIncludeSummaryProbe splitInclude).1.status = .candidate ∧ ¬Tiled splitInclude :=
  ⟨rfl, fun h => absurd h.2 (by decide)⟩

end Fisics
