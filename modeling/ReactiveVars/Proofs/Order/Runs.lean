import Mathlib.Data.List.Induction

/-!
# Properties kept by a run

A run takes one step for each item of a list. Often a step keeps a property under a condition that
can be told before the step; then the whole run keeps it exactly if the condition is met each time.
-/

namespace ReactiveVars

/-- **A property holds throughout a run exactly if every step is taken under the condition for
keeping it.** -/
theorem forall_prefix_foldl_iff {α β : Type} {step : β → α → β} {start : β} {as : List α}
    {P : β → Prop} {C : β → α → Prop} (hstart : P start)
    (hstep : ∀ (before : List α) (a : α), P (before.foldl step start) →
      (P (step (before.foldl step start) a) ↔ C (before.foldl step start) a)) :
    (∀ before : List α, before <+: as → P (before.foldl step start)) ↔
      ∀ (before : List α) (a : α), before ++ [a] <+: as → C (before.foldl step start) a := by
  have hlast (before : List α) (a : α) :
      (before ++ [a]).foldl step start = step (before.foldl step start) a := by
    rw [List.foldl_append, List.foldl_cons, List.foldl_nil]
  constructor
  · intro h before a hprefix
    have hafter := h _ hprefix
    rw [hlast] at hafter
    exact (hstep before a (h before ((List.prefix_append before _).trans hprefix))).mp hafter
  · intro h before
    -- a run is as good as the run before its last step, and this step
    induction before using List.reverseRecOn with
    | nil => exact fun _ ↦ hstart
    | append_singleton before a ih =>
      intro hprefix
      rw [hlast]
      exact (hstep before a (ih ((List.prefix_append before _).trans hprefix))).mpr
        (h before a hprefix)

end ReactiveVars
