import ResponseFraming.Proofs.Run

/-!
# Policies of a session

A policy is in force until another one is set.  No step changes it
(`Transition.policy`), so a session leaves the policy that was set last
(`Steps.policy`, `run_of_remaining`), and a rule that a step keeps under some
policies is kept by a session that asks for items under these only
(`session_invariant`).
-/

namespace ResponseFraming.Demux

variable {d d' : Demux} {es : List Event} {operations : List Operation}

/-- The policy in force after some operations. -/
def inForce (policy : Policy) : List Operation → Policy
  | [] => policy
  | .configure policy :: rest => inForce policy rest
  | _ :: rest => inForce policy rest

/-- The policies in force while the operations are carried out that do not set one. -/
def policies (policy : Policy) : List Operation → List Policy
  | [] => []
  | .configure policy :: rest => policies policy rest
  | _ :: rest => policy :: policies policy rest

theorem Transition.policy {s : Step} (h : Transition d s) : s.demux.policy = d.policy := by
  cases h <;> rfl

theorem Steps.policy (h : Steps d es d') (hd : d.Consistent) : d'.policy = d.policy := by
  induction h with
  | refl => rfl
  | tail prior ih => rw [(step_transition (prior.consistent hd)).policy, ih]

/-- An operation that keeps the demultiplexer sets a policy or takes steps. -/
theorem perform_keeping (hd : d.Consistent) {operation : Operation}
    (h : (d.perform operation).demux = some d') :
    (∃ policy, operation = .configure policy ∧ d' = d.configure policy) ∨
      (operation.drives ∧ Steps d (d.perform operation).events d' ∧
        (d.perform operation).result.given = items (d.perform operation).events) := by
  cases ho : operation.drives with
  | true =>
    obtain ⟨d'', hd', hs, hg⟩ := steps_perform hd ho
    obtain rfl : d'' = d' := Option.some.inj (hd'.symm.trans h)
    exact .inr ⟨rfl, hs, hg⟩
  | false =>
    cases operation with
    | configure policy => exact .inl ⟨policy, rfl, (Option.some.inj h).symm⟩
    | collect => cases h
    | drop => cases h
    | _ => cases ho

theorem remaining_cons {operation : Operation}
    (h : remaining (some d) (operation :: operations) = some d') :
    ∃ d₁, (d.perform operation).demux = some d₁ ∧ remaining (some d₁) operations = some d' := by
  change remaining (d.perform operation).demux operations = some d' at h
  cases hp : (d.perform operation).demux with
  | none => rw [hp, remaining_none] at h; cases h
  | some d₁ => exact ⟨d₁, rfl, hp ▸ h⟩

/-- **A session that keeps the demultiplexer is a run**, returns the items of its events and leaves
the policy that was set last. -/
theorem run_of_remaining (hd : d.Consistent) (h : remaining (some d) operations = some d') :
    Run d (record (some d) operations) d' ∧
      received (some d) operations = items (record (some d) operations) ∧
      d'.policy = inForce d.policy operations := by
  induction operations generalizing d with
  | nil =>
    obtain rfl : d = d' := Option.some.inj h
    exact ⟨.refl d, rfl, rfl⟩
  | cons operation rest ih =>
    obtain ⟨d₁, hp, hr⟩ := remaining_cons h
    rw [record_cons, received_cons, perform?, hp, Reading.of_append]
    rcases perform_keeping hd hp with ⟨policy, rfl, rfl⟩ | ⟨ho, hs, hg⟩
    · obtain ⟨hrun, hgiven, hpolicy⟩ := ih (hd.configure policy) hr
      have hc := ((Run.refl d).configure policy).trans hrun
      exact ⟨hc, by rw [hgiven]; rfl, hpolicy⟩
    · obtain ⟨hrun, hgiven, hpolicy⟩ := ih (hs.consistent hd) hr
      refine ⟨hs.run.trans hrun, by rw [hg, hgiven], ?_⟩
      rw [hpolicy, hs.policy hd]
      cases operation with
      | configure policy => cases ho
      | _ => rfl

section Invariant

variable {A : Policy → Prop} {I : Demux → List Event → Prop}
  (step : ∀ d es, d.Consistent → A d.policy → I d es → I d.step.demux (es ++ d.step.trace))

include step

theorem steps_invariant {fs : List Event} (h : Steps d fs d') (hd : d.Consistent) (hA : A d.policy)
    (hI : I d es) : I d' (es ++ fs) := by
  induction h with
  | refl => simpa using hI
  | tail prior ih =>
    rw [← List.append_assoc]
    exact step _ _ (prior.consistent hd) (prior.policy hd ▸ hA) ih

/-- **What a step keeps under certain policies is kept by a session** that is under these whenever
it asks for items. -/
theorem session_invariant
    (configure : ∀ d es policy, I d es → I (d.configure policy) es) (hd : d.Consistent)
    (hA : ∀ policy ∈ policies d.policy operations, A policy) (hI : I d es)
    (h : remaining (some d) operations = some d') :
    I d' (es ++ record (some d) operations) := by
  induction operations generalizing d es with
  | nil =>
    obtain rfl : d = d' := Option.some.inj h
    simpa [record, session] using hI
  | cons operation rest ih =>
    obtain ⟨d₁, hp, hr⟩ := remaining_cons h
    rw [record_cons, perform?, hp, ← List.append_assoc]
    rcases perform_keeping hd hp with ⟨policy, rfl, rfl⟩ | ⟨ho, hs, -⟩
    · have hc := ih (hd.configure policy) hA (configure d es policy hI) hr
      simpa [perform] using hc
    · have hnow : policies d.policy (operation :: rest) =
          d.policy :: policies d₁.policy rest := by
        rw [hs.policy hd]
        cases operation with
        | configure policy => cases ho
        | _ => rfl
      rw [hnow] at hA
      have hs' := steps_invariant step hs hd (hA _ List.mem_cons_self) hI
      exact ih (hs.consistent hd) (fun p hm => hA p (List.mem_cons_of_mem _ hm)) hs' hr

end Invariant

end ResponseFraming.Demux
