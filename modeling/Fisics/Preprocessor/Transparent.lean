import Fisics.Preprocessor.BlocksCorrect

/-!
# Included files are transparent

An include directive leaves the line mapping and the include stack of the file
that it stands in, whatever becomes of the included file. The mapping is saved
before the file is lexed and put back at every return; what the walk of the body
does to it in between does not matter.
-/

namespace Fisics

/-- How the lines of the current file are mapped. -/
def Preprocessor.location (pp : Preprocessor) : Int × Option String × Bool :=
  (pp.lineOffset, pp.logicalFile, pp.lineRemapActive)

theorem includeOperand_location (h : includeOperand pp tok rest = (parsed, pp')) :
    pp'.location = pp.location := by
  unfold includeOperand at h
  split at h
  · cases h; rfl
  dsimp only at h
  split at h
  · split at h <;> (cases h; rfl)
  · cases h; rfl
  · cases h; rfl

theorem missingInclude_location (h : missingInclude pp tok name isSystem = (ok, pp')) :
    pp'.location = pp.location := by
  unfold missingInclude at h
  split at h
  · split at h <;> (cases h; rfl)
  · cases h; rfl

theorem externalInclude_location (h : externalInclude host pp tok index file output =
    (ok, pp', output')) : pp'.location = pp.location := by
  unfold externalInclude at h
  split at h
  · split at h <;> (cases h; rfl)
  · cases h; rfl

theorem includeFile_location (h : includeFile host handler pp tok index file origin originIndex output =
    some (ok, pp', output')) : pp'.location = pp.location := by
  unfold includeFile at h
  dsimp only at h
  iterate 3
    split at h
    · cases h; rfl
  split at h
  · unfold recursiveInclude at h
    split at h <;> (cases h; rfl)
  · obtain ⟨_, -, heq⟩ := Option.map_eq_some_iff.mp h
    cases heq
    rfl

theorem processIncludeWith_location (h : processIncludeWith host handler pp tok rest output isNext =
    some (ok, pp', output')) : pp'.location = pp.location := by
  unfold processIncludeWith at h
  split at h
  · rename_i hop
    cases h
    have hoperand := includeOperand_location hop
    exact hoperand
  rename_i name isSystem taken pp₁ hop
  have hoperand := includeOperand_location hop
  dsimp only at h
  split at h
  · cases h
    exact (missingInclude_location rfl).trans hoperand
  split at h
  · simp only [Option.some.injEq] at h
    exact (externalInclude_location h).trans hoperand
  split at h
  · cases h; exact hoperand
  split at h
  · cases h; exact hoperand
  · exact (includeFile_location h).trans hoperand

/-- At every return of an include directive the includer's line mapping and the
include stack are what they were at its start. -/
theorem include_transparent (host : Host) (depth : Nat) (pp : Preprocessor) (tok : Token)
    (rest output : List Token) (isNext ok : Bool) (pp' : Preprocessor) (output' : List Token)
    (h : processInclude host depth pp tok rest output isNext = some (ok, pp', output')) :
    pp'.lineOffset = pp.lineOffset ∧ pp'.logicalFile = pp.logicalFile ∧
      pp'.lineRemapActive = pp.lineRemapActive ∧ pp'.includeStack = pp.includeStack := by
  have hframes := (processInclude_config host depth _ _ _ _ _ _ _ _ h).frames
  cases depth with
  | zero => cases h
  | succ depth => ?_
  have hlocation := processIncludeWith_location h
  simp only [Preprocessor.location, Prod.mk.injEq] at hlocation
  exact ⟨hlocation.1, hlocation.2.1, hlocation.2.2, hframes⟩

/-- `n.h` with the lines `#line 90` and `x`. -/
def renumberedHeader : IncludeFile where
  path := "n.h"
  contents := []
  lexedTokens := some
    [lineHead "line" .preprocessorOther 1, operand "90" .number 1, lineHead "x" .identifier 2]
  cachedGuardName := none
  summaryProbe := ⟨.rejectUnsupportedDirective, .unknown, false, false⟩
  summaryActions := []
  pragmaOnce := false
  includedOnce := false
  origin := .sameDir
  originIndex := 0

def renumberedHost : Host :=
  { noFiles with includeResolverLoad := fun resolver _ => (some (0, .sameDir, 0), resolver) }

def renumberedState : Preprocessor :=
  { preprocessorInit false false false .internal with
    resolver := ⟨[renumberedHeader], []⟩, lineOffset := 7, lineRemapActive := true }

theorem include_transparent_renumbered :
    ∃ pp' output', processInclude renumberedHost 1 renumberedState (lineHead "include" .include 1)
        [operand "n.h" .string 1] [] false = some (true, pp', output') ∧ output' ≠ [] ∧
      pp'.lineOffset = 7 ∧ pp'.logicalFile = none ∧ pp'.lineRemapActive = true ∧
        pp'.includeStack = [] := by
  obtain ⟨⟨ok, pp', output'⟩, h⟩ := Option.isSome_iff_exists.mp
    (show (processInclude renumberedHost 1 renumberedState (lineHead "include" .include 1)
      [operand "n.h" .string 1] [] false).isSome by rfl)
  have hbody : (processInclude renumberedHost 1 renumberedState (lineHead "include" .include 1)
      [operand "n.h" .string 1] [] false).map (fun r => (r.1, r.2.2.isEmpty)) = some (true, false) := rfl
  rw [h] at hbody
  simp only [Option.map_some, Option.some.injEq, Prod.mk.injEq] at hbody
  obtain ⟨rfl, hout⟩ := hbody
  refine ⟨pp', output', h, ?_, include_transparent _ _ _ _ _ _ _ _ _ _ h⟩
  rintro rfl
  cases hout

end Fisics
