import TestRun.Cause
set_option autoImplicit false

namespace TestRun.Cause

variable {c : Cause} {line text : String}

/-- The line that tells of a cause: its type, and behind a colon its message, if it has one. -/
inductive HeadedBy (c : Cause) : String → Prop
  | silent : c.message = "" → HeadedBy c c.typeName
  | message : c.message ≠ "" → HeadedBy c (c.typeName ++ ": " ++ c.message)

/-- All that is told of a cause: the line, and below it the stack trace, if it has one. -/
inductive RenderedAs (c : Cause) : String → Prop
  | line {line : String} : c.stackTrace = "" → c.HeadedBy line → RenderedAs c line
  | traced {line : String} : c.stackTrace ≠ "" → c.HeadedBy line →
      RenderedAs c (line ++ "\n" ++ c.stackTrace)

theorem headedBy_iff : c.HeadedBy line ↔ c.headline = line := by
  have hfor {line : String} (h : c.HeadedBy line) : c.headline = line := by
    cases h with
    | silent h => exact if_pos (String.isEmpty_iff.2 h)
    | message h => exact if_neg fun hempty => h (String.isEmpty_iff.1 hempty)
  refine ⟨hfor, ?_⟩
  rintro rfl
  by_cases h : c.message = ""
  · have hline := HeadedBy.silent h
    rwa [hfor hline]
  · have hline := HeadedBy.message h
    rwa [hfor hline]

theorem renderedAs_iff : c.RenderedAs text ↔ c.render = text := by
  constructor
  · rintro (⟨htrace, hline⟩ | ⟨htrace, hline⟩)
    · rw [← headedBy_iff.1 hline]
      exact if_pos (String.isEmpty_iff.2 htrace)
    · rw [← headedBy_iff.1 hline]
      exact if_neg fun hempty => htrace (String.isEmpty_iff.1 hempty)
  · rintro rfl
    have hline : c.HeadedBy c.headline := headedBy_iff.2 rfl
    unfold render
    split
    · next hempty => exact .line (String.isEmpty_iff.1 hempty) hline
    · next hfull => exact .traced (fun h => hfull (String.isEmpty_iff.2 h)) hline

end TestRun.Cause
