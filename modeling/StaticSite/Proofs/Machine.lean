/-!
# Machines that write while they read

A machine reads a list from left to right and writes as it goes; how it reads an element depends on
the state that it is in. What it makes of two lists one after the other is what it makes of the
first, followed by what it makes of the second from the state in which the first has left it.
-/

namespace StaticSite

/-- How a machine reads one element: the state after it, and what is written. -/
structure Machine (σ α β : Type) where
  step : σ → α → σ × List β

namespace Machine

variable {σ α β : Type} (machine : Machine σ α β)

/-- The state after a list, and all that is written for it. -/
def run (state : σ) : List α → σ × List β
  | [] => (state, [])
  | a :: l => ((run (machine.step state a).1 l).1,
      (machine.step state a).2 ++ (run (machine.step state a).1 l).2)

@[simp] theorem run_nil (state : σ) : machine.run state [] = (state, []) := rfl

variable {machine} {first next last : σ}

theorem run_singleton {a : α} {out : List β} (step : machine.step first a = (next, out)) :
    machine.run first [a] = (next, out) := by
  simp [run, step]

theorem run_cons {a : α} {l : List α} {out more : List β}
    (step : machine.step first a = (next, out)) (rest : machine.run next l = (last, more)) :
    machine.run first (a :: l) = (last, out ++ more) := by
  simp [run, step, rest]

theorem run_append {l m : List α} {out more : List β} (front : machine.run first l = (next, out))
    (rest : machine.run next m = (last, more)) :
    machine.run first (l ++ m) = (last, out ++ more) := by
  induction l generalizing first out with
  | nil =>
    obtain ⟨rfl, rfl⟩ := Prod.mk.inj front
    exact rest
  | cons a l ih =>
    obtain ⟨rfl, rfl⟩ := Prod.mk.inj front
    rw [List.cons_append, List.append_assoc]
    exact run_cons rfl (ih rfl)

/-- Elements that leave the state as it is are each read by themselves. -/
theorem run_of_stays {state : σ} {f : α → List β} {l : List α}
    (stays : ∀ a ∈ l, machine.step state a = (state, f a)) :
    machine.run state l = (state, l.flatMap f) := by
  induction l with
  | nil => rfl
  | cons a l ih =>
    obtain ⟨here, later⟩ := List.forall_mem_cons.mp stays
    rw [List.flatMap_cons]
    exact run_cons here (ih later)

/-- Elements that the state takes in one by one are taken in behind what it has seen. -/
theorem run_of_collects {state : List α → σ} {l : List α}
    (collects : ∀ seen, ∀ a ∈ l, machine.step (state seen) a = (state (seen ++ [a]), []))
    (seen : List α) : machine.run (state seen) l = (state (seen ++ l), []) := by
  induction l generalizing seen with
  | nil => rw [List.append_nil, run_nil]
  | cons a l ih =>
    have here := collects seen a List.mem_cons_self
    have rest := ih (fun seen b member => collects seen b (List.mem_cons_of_mem a member))
      (seen ++ [a])
    rw [List.append_assoc, List.singleton_append] at rest
    exact run_cons here rest

end Machine

end StaticSite
