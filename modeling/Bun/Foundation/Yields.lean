/-
Computations that keep a state and may fail.

A computation yields a property if from every state it succeeds with a value that has the
property.
-/

import Mathlib.Data.Nat.Notation

set_option autoImplicit false

namespace Bun.Foundation

variable {σ β γ : Type}

/-- From every state the computation succeeds, with a value that `post` holds of. -/
def Yields (run : StateT σ Option β) (post : β → Prop) : Prop :=
  ∀ s, ∃ value s', run s = some (value, s') ∧ post value

namespace Yields

theorem pure {value : β} {post : β → Prop} (holds : post value) :
    Yields (Pure.pure value : StateT σ Option β) post :=
  fun s => ⟨value, s, rfl, holds⟩

theorem mono {run : StateT σ Option β} {post weaker : β → Prop} (yields : Yields run post)
    (implies : ∀ value, post value → weaker value) : Yields run weaker := by
  intro s
  obtain ⟨value, s', isRun, holds⟩ := yields s
  exact ⟨value, s', isRun, implies value holds⟩

theorem bind {run : StateT σ Option β} {next : β → StateT σ Option γ} {post : β → Prop}
    {final : γ → Prop} (first : Yields run post)
    (later : ∀ value, post value → Yields (next value) final) : Yields (run >>= next) final := by
  intro s
  obtain ⟨value, s', isRun, holds⟩ := first s
  obtain ⟨result, s'', isNext, isFinal⟩ := later value holds s'
  refine ⟨result, s'', ?_, isFinal⟩
  change (run s).bind (fun pair => next pair.1 pair.2) = _
  rw [isRun]
  exact isNext

theorem lift {value : Option β} {post : β → Prop} (holds : ∃ result, value = some result ∧ post result) :
    Yields (StateT.lift value : StateT σ Option β) post := by
  obtain ⟨result, rfl, isPost⟩ := holds
  exact fun s => ⟨result, s, rfl, isPost⟩

end Yields

end Bun.Foundation
