import Mathlib.Data.List.Induction

/-!
# Traces whose every event was allowed

`Guarded ok log` says that each event of `log` was allowed by the events before it. A program that
appends to a log establishes it event by event (`snoc`); what a log says is read off an event and
what came before it (`Guarded.allowed`), or off its prefixes (`Guarded.of_append`).
-/

namespace Trace

variable {ε : Type*} {ok : List ε → ε → Prop}

/-- Every event of the log was allowed when it was added. -/
inductive Guarded (ok : List ε → ε → Prop) : List ε → Prop
  | nil : Guarded ok []
  | snoc {log : List ε} {e : ε} (h : Guarded ok log) (hok : ok log e) : Guarded ok (log ++ [e])

/-- A prefix of a guarded log is guarded. -/
theorem Guarded.of_append {pre post : List ε} (h : Guarded ok (pre ++ post)) : Guarded ok pre := by
  induction post using List.reverseRecOn with
  | nil => rwa [List.append_nil] at h
  | append_singleton post e ih =>
    rw [← List.append_assoc] at h
    generalize hlog : pre ++ post ++ [e] = log at h
    cases h with
    | nil => simp at hlog
    | snoc h hok =>
      rw [← List.append_inj_left' hlog rfl] at h
      exact ih h

/-- An event was allowed by what came before it. -/
theorem Guarded.allowed {pre post : List ε} {e : ε} (h : Guarded ok (pre ++ e :: post)) :
    ok pre e := by
  rw [List.append_cons] at h
  have hprefix : Guarded ok (pre ++ [e]) := h.of_append
  generalize hlog : pre ++ [e] = log at hprefix
  cases hprefix with
  | nil => simp at hlog
  | snoc _ hok =>
    obtain ⟨rfl, he⟩ := List.append_inj' hlog rfl
    cases he
    exact hok

end Trace
