import BoxScript.Proofs.Course

/-!
# Every way out restores the context

Blocks and calls go one scope level deeper, the clauses of a `for` set a flag, methods switch to
other tables, and an import switches to copies of all of them. Each of these puts back by itself
what it has changed. The theorem says that they do so together: after an evaluation, which may well
have failed, the context is the one before it, and so is the depth. On the way the depth stays
within `maxCallDepth`.
-/

namespace BoxScript

/-- The depth stays within a bound. -/
def depthContract : Contract where
  lax := False
  inv m := m.depth ≤ maxCallDepth
  rel _ _ := True

/-- Only calls change the depth, and a call is refused at the bound. -/
theorem depthContract_frames : depthContract.Frames AnyNode AnyNode where
  everywhere := ⟨fun _ _ => trivial, fun _ _ => trivial⟩
  fragment := anyNode_language.toFragment
  scripts {m} _ := anyNode_language.scriptsIn m
  refl _ := trivial
  trans _ _ := trivial
  code {m} _ := m.codeIn_any
  console _ hm := ⟨hm, trivial⟩
  assign _ _ _ moves := ⟨moves.inv, trivial⟩
  declare _ _ hm := ⟨hm, trivial⟩
  register _ _ _ hm := ⟨hm, trivial⟩
  extend _ _ _ hm := ⟨hm, trivial⟩
  allocate _ _ _ _ hm := ⟨hm, trivial⟩
  setField _ _ _ hm := ⟨hm, trivial⟩
  linkIn _ hm := hm
  linkOut _ _ moves := ⟨moves.inv, trivial⟩
  linkRefused hm := ⟨hm, trivial⟩
  push _ hm := ⟨hm, trivial⟩
  dropSignal hm := ⟨hm, trivial⟩
  bindParams _ _ hm := ⟨hm, trivial⟩
  scopeIn _ hm := hm
  scopeOut _ _ moves := ⟨moves.inv, trivial⟩
  clauseIn hm := hm
  clauseOut _ moves := ⟨moves.inv, trivial⟩
  -- a call counts up where there is room, and down again on every way out
  callIn _ hlt := hlt
  callOut _ _ moves := ⟨Nat.le_trans (Nat.sub_le _ 1) moves.inv, trivial⟩
  methodIn hm _ := hm
  methodOut _ _ moves := ⟨moves.inv, trivial⟩
  fork hm := hm
  merge hm _ := ⟨hm, trivial⟩
  discard _ hm _ := ⟨hm, trivial⟩

/-- Calls are never nested deeper than the bound. -/
theorem Reachable.depth_le {m : Machine} (h : Reachable m) : m.depth ≤ maxCallDepth :=
  depthContract_frames.inv_of_reachable anyNode_language id (fun _ _ => Nat.zero_le _)
    (fun _ _ _ => Nat.zero_le _) h

/-- **Every way out restores the context.** From any machine that a session can get to, any
evaluation ends in the context and at the depth that it began with, whether it has a value or
fails. In its course the depth never exceeds the bound on nested calls. -/
theorem eval_restores {m : Machine} (h : Reachable m) (fuel : Nat) (node : Node) :
    (eval fuel node m).machine.context = m.context ∧ (eval fuel node m).machine.depth = m.depth ∧
      Throughout (fun _ there => there.depth ≤ maxCallDepth) fuel (· node) m := by
  have hdepth := h.depth_le
  have moves := depthContract_frames.moves_eval hdepth fuel (anyNode node)
  exact ⟨moves.restored.context, moves.restored.depth,
    depthContract_frames.throughout_eval id (fun _ _ _ h => h) hdepth fuel trivial⟩

/-- A loop that fails in its body on a new machine. -/
theorem eval_restores_failing :
    (eval 9 (.whileDo (.int 1) [.raise (.str "stop")]) (.new .empty (.ofBytes []))).result
        = .error (.thrown "stop") ∧
      (eval 9 (.whileDo (.int 1) [.raise (.str "stop")])
        (.new .empty (.ofBytes []))).machine.context
        = (Machine.new .empty (.ofBytes [])).context :=
  ⟨rfl, (eval_restores (.idle (.new .empty (.ofBytes []))) 9 _).1⟩

end BoxScript
