import DocumentCode.Prog

/-!
# Total correctness

`DocumentCode.Prog.Ensures c s P` says that the program `c` returns from the
state `s`, and that `P` holds of what it returns and of the state it leaves. It
is `DocumentCode.Prog.Returns` with the two left open, and the form a rule for
loops is best given in: the invariant of a loop is a postcondition of its body.

A program has one outcome, so nothing is lost: a postcondition that names a
value and a state gives `DocumentCode.Prog.Returns` back
(`DocumentCode.Prog.Ensures.returns`). And as everywhere, a program that returns
does not fault.
-/

namespace DocumentCode

namespace Prog

variable {ε σ β γ : Type} {c : Prog ε σ β} {f : β → Prog ε σ γ} {s s' : σ} {b : β}
  {P P' : β → σ → Prop} {Q : γ → σ → Prop}

/-- **The program returns, and `P` holds then.** -/
def Ensures (c : Prog ε σ β) (s : σ) (P : β → σ → Prop) : Prop :=
  ∃ b s', c.Returns s b s' ∧ P b s'

theorem Returns.ensures (h : c.Returns s b s') (hP : P b s') : c.Ensures s P := ⟨b, s', h, hP⟩

theorem Ensures.pure (h : P b s) : (Pure.pure b : Prog ε σ β).Ensures s P :=
  (Returns.pure b s).ensures h

/-- **Consequence.** -/
theorem Ensures.mono (h : c.Ensures s P) (hP : ∀ b s', P b s' → P' b s') : c.Ensures s P' := by
  obtain ⟨b, s', hc, hb⟩ := h
  exact hc.ensures (hP b s' hb)

/-- **Sequencing.** -/
theorem Ensures.bind (h : c.Ensures s P) (hf : ∀ b s', P b s' → (f b).Ensures s' Q) :
    (c >>= f).Ensures s Q := by
  obtain ⟨b, s', hc, hb⟩ := h
  obtain ⟨d, s'', hd, hQ⟩ := hf b s' hb
  exact ⟨d, s'', Ends.bind hc hd, hQ⟩

theorem Returns.bind_ensures (h : c.Returns s b s') (hf : (f b).Ensures s' Q) :
    (c >>= f).Ensures s Q := by
  obtain ⟨d, s'', hd, hQ⟩ := hf
  exact ⟨d, s'', Ends.bind h hd, hQ⟩

/-- A postcondition that leaves one value and one state. -/
theorem Ensures.returns (h : c.Ensures s P) (hP : ∀ d t, P d t → d = b ∧ t = s') :
    c.Returns s b s' := by
  obtain ⟨d, t, hc, hd⟩ := h
  obtain ⟨rfl, rfl⟩ := hP d t hd
  exact hc

end Prog

end DocumentCode
