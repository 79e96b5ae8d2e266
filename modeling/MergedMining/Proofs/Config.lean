/-
What is known of a configuration that was loaded.

Each side chain is compared with those before it when it is judged, so of any two side
chains that are served the later one was compared with the earlier one. They have neither
the first block nor its address in common.
-/
import MergedMining.Config
import MergedMining.Proofs.Outcome

namespace MergedMining

/-- Two side chains have nothing in common by which they are told apart. -/
structure SideChain.Apart (a b : SideChain) : Prop where
  address : a.address ≠ b.address
  genesis : a.genesis ≠ b.genesis

namespace Config

variable {earlier chains : List SideChain} {chain : SideChain} {config : Config}

/-- A side chain that passes its check is apart from those before it. -/
private theorem apart_of_checkSideChain (h : checkSideChain earlier chain = .ok ()) :
    ∀ before ∈ earlier, before.Apart chain := by
  unfold checkSideChain at h
  simp only [Outcome.throw_eq, Outcome.error_bind, Outcome.ite_error_eq_ok,
    Outcome.bind_eq_ok] at h
  obtain ⟨-, -, haddress, hgenesis, -⟩ := h
  rw [List.any_eq_true] at haddress hgenesis
  intro before hbefore
  exact {
    address := fun heq => haddress ⟨before, hbefore, decide_eq_true heq⟩
    genesis := fun heq => hgenesis ⟨before, hbefore, decide_eq_true heq⟩ }

/-- Side chains that pass are apart from those before them and from one another. -/
theorem apart_of_checkSideChains (h : checkSideChains earlier chains = .ok ()) :
    (∀ before ∈ earlier, ∀ chain ∈ chains, before.Apart chain)
      ∧ chains.Pairwise SideChain.Apart := by
  induction chains generalizing earlier with
  | nil => exact ⟨fun _ _ _ h => (nomatch h), .nil⟩
  | cons chain chains ih =>
      obtain ⟨_, hchain, hchains⟩ := Outcome.bind_eq_ok.1 h
      obtain ⟨hlater, hpairwise⟩ := ih hchains
      constructor
      · intro before hbefore
        refine List.forall_mem_cons.2 ⟨apart_of_checkSideChain hchain before hbefore, ?_⟩
        exact hlater before (List.mem_append_left _ hbefore)
      · exact .cons (hlater chain (List.mem_append_right _ List.mem_cons_self)) hpairwise

/-- In a configuration that passes its check any two side chains are apart. -/
theorem apart_of_check (h : config.check = .ok ()) :
    config.sideChains.Pairwise SideChain.Apart := by
  unfold check at h
  simp only [Outcome.throw_eq, Outcome.error_bind, Outcome.ite_error_eq_ok,
    Outcome.bind_eq_ok] at h
  obtain ⟨-, -, -, _, hchains, -⟩ := h
  exact (apart_of_checkSideChains hchains).2

/-- What is loaded was judged. -/
theorem check_of_load {lookup : String → Option String} (h : load lookup = .ok config) :
    config.check = .ok () := by
  obtain ⟨interval, -, h⟩ := Outcome.bind_eq_ok.1 h
  obtain ⟨timeout, -, h⟩ := Outcome.bind_eq_ok.1 h
  obtain ⟨maturity, -, h⟩ := Outcome.bind_eq_ok.1 h
  obtain ⟨sideChains, -, h⟩ := Outcome.bind_eq_ok.1 h
  obtain ⟨_, hcheck, h⟩ := Outcome.bind_eq_ok.1 h
  rw [← Outcome.pure_eq_ok.1 h]
  exact hcheck

end Config

end MergedMining
