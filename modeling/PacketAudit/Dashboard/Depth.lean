import PacketAudit.Dashboard.Pages
import PacketAudit.Json.Nesting

namespace PacketAudit

/-!
# The guards against deep nesting

The dashboard and `json_fields` count brackets in the same way, each with a
limit of its own, and what they count is the depth of the document.
-/

/-! ## One loop -/

namespace DepthState

theorem exceeded_foldl
    {state : DepthState}
    (isExceeded : state.exceeded = true)
    (line : Bytes) :
    line.foldl next state = state := by
  induction line with
  | nil => rfl
  | cons byte line inductionHypothesis =>
      rw [List.foldl_cons, next, if_pos isExceeded]
      exact inductionHypothesis

/-- Both guards walk the bytes in the same way. -/
theorem exceeded_foldl_eq
    (line : Bytes)
    (depth : Int)
    (quoted escaped : Bool)
    (escapedQuoted : escaped = true → quoted = true) :
    (line.foldl next ⟨depth, quoted, escaped, false⟩).exceeded =
      nestingExceeds maxJsonDepth depth quoted escaped line := by
  induction line generalizing depth quoted escaped with
  | nil =>
      rw [List.foldl_nil, nestingExceeds]
  | cons byte line inductionHypothesis =>
      rw [List.foldl_cons]
      cases quoted with
      | true =>
          cases escaped with
          | true =>
              rw [nestingExceeds]
              exact inductionHypothesis depth true false (by simp)
          | false =>
              rw [nestingExceeds]
              by_cases backslash : byte = 92
              · rw [if_pos backslash, ← inductionHypothesis _ _ _ (by simp)]
                simp [next, backslash]
              · rw [if_neg backslash, ← inductionHypothesis _ _ _ (by simp)]
                by_cases quote : byte = 34 <;>
                  simp [next, backslash, quote]
      | false =>
          obtain rfl : escaped = false := by simpa using escapedQuoted
          rw [nestingExceeds]
          by_cases quote : byte = 34
          · rw [if_pos quote, ← inductionHypothesis _ _ _ (by simp)]
            simp [next, quote]
          rw [if_neg quote]
          by_cases opens : byte = 91 ∨ byte = 123
          · rw [if_pos opens]
            by_cases beyond : (maxJsonDepth : Int) < depth + 1
            · rw [if_pos beyond, exceeded_foldl] <;>
                simp [next, quote, opens, beyond]
            · rw [if_neg beyond, ← inductionHypothesis _ _ _ (by simp)]
              simp [next, quote, opens, beyond]
          rw [if_neg opens]
          by_cases closes : byte = 93 ∨ byte = 125
          · rw [if_pos closes, ← inductionHypothesis _ _ _ (by simp)]
            simp [next, quote, opens, closes]
          · rw [if_neg closes, ← inductionHypothesis _ _ _ (by simp)]
            simp [next, quote, opens, closes]

end DepthState

/-- The guard of the dashboard is that of `json_fields` with another limit. -/
theorem jsonDepthAllowed_eq (line : Bytes) :
    jsonDepthAllowed line =
      !nestingExceeds maxJsonDepth 0 false false line := by
  rw [jsonDepthAllowed,
    ← DepthState.exceeded_foldl_eq line 0 false false (by simp)]

/-! ## Documents -/

/-- Each guard rejects the documents that nest beyond its limit, and no other. -/
theorem json_depth_guards_exact (document : JsonDocument) :
    (nestingExceeds maxJsonNesting 0 false false document.data = true ↔
      maxJsonNesting < document.value.depth) ∧
    (jsonDepthAllowed document.data = false ↔
      maxJsonDepth < document.value.depth) := by
  constructor
  · rw [nestingExceeds_document document (by decide), decide_eq_true_iff]
  · rw [jsonDepthAllowed_eq,
      nestingExceeds_document document (Int.natCast_nonneg _),
      Bool.not_eq_false', decide_eq_true_iff, Int.ofNat_lt]

/-- Brackets behind an escaped quote are still in the string. -/
example :
    nestingExceeds 1 0 false false (ascii "[\"\\\"[[\"]") = false := by
  decide

end PacketAudit
