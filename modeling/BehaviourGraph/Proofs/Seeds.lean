import Mathlib.Logic.Function.Basic
import BehaviourGraph.Chance.Source

/-!
# Seeds of agents

An agent's number is multiplied by the mixing constant before the global seed is laid over it.  The
constant has an inverse in 64 bits, so the mixing can be undone: a seed tells its agent, and no two
agents of one run share a seed.
-/

namespace BehaviourGraph

def mixingInverse : UInt64 := 0xf1de83e19937733d

/-- The agent that a seed belongs to. -/
def agentOf (globalSeed seed : UInt64) : UInt64 := (globalSeed ^^^ seed) * mixingInverse

theorem mixingConstant_mul_inverse : mixingConstant * mixingInverse = 1 := by decide

theorem xor_xor_self (x y : UInt64) : x ^^^ (x ^^^ y) = y := by
  rw [← UInt64.xor_assoc, UInt64.xor_self, UInt64.zero_xor]

theorem agentOf_agentSeed (globalSeed agent : UInt64) :
    agentOf globalSeed (agentSeed globalSeed agent) = agent := by
  unfold agentOf agentSeed
  rw [xor_xor_self, UInt64.mul_assoc, mixingConstant_mul_inverse, UInt64.mul_one]

theorem agentSeed_agentOf (globalSeed seed : UInt64) :
    agentSeed globalSeed (agentOf globalSeed seed) = seed := by
  unfold agentOf agentSeed
  rw [UInt64.mul_assoc, UInt64.mul_comm mixingInverse, mixingConstant_mul_inverse, UInt64.mul_one,
    xor_xor_self]

theorem bijective_agentSeed (globalSeed : UInt64) : Function.Bijective (agentSeed globalSeed) := by
  have hleft : Function.LeftInverse (agentOf globalSeed) (agentSeed globalSeed) :=
    agentOf_agentSeed globalSeed
  have hright : Function.RightInverse (agentOf globalSeed) (agentSeed globalSeed) :=
    agentSeed_agentOf globalSeed
  exact ⟨hleft.injective, hright.surjective⟩

/-- The sources of agents are seeded apart: under one global seed each seed is that of exactly one
agent, and other global seeds give an agent other seeds. -/
theorem agents_never_share_seeds :
    (∀ globalSeed agent, Xoshiro.forAgent globalSeed agent = .ofSeed (agentSeed globalSeed agent)) ∧
      (∀ globalSeed agent other, agent ≠ other →
        agentSeed globalSeed agent ≠ agentSeed globalSeed other) ∧
      (∀ agent globalSeed otherSeed, globalSeed ≠ otherSeed →
        agentSeed globalSeed agent ≠ agentSeed otherSeed agent) ∧
      ∀ globalSeed, Function.Bijective (agentSeed globalSeed) := by
  refine ⟨fun _ _ => rfl, fun globalSeed agent other hne hsame => ?_,
    fun agent globalSeed otherSeed hne hsame => ?_, bijective_agentSeed⟩
  · exact hne ((bijective_agentSeed globalSeed).injective hsame)
  · exact hne ((UInt64.xor_left_inj _).mp hsame)

/-- Agents 0 and 1 under the global seed 7, agent 1 under the global seeds 7 and 8, and the agent whose
seed is 0. -/
theorem neighbours_seeded_apart :
    (agentSeed 7 0 ≠ agentSeed 7 1 ∧ agentSeed 7 1 ≠ agentSeed 8 1) ∧
      ∃ agent, Xoshiro.forAgent 7 agent = .ofSeed 0 := by
  obtain ⟨hsource, hagents, hglobal, hbijective⟩ := agents_never_share_seeds
  obtain ⟨agent, hagent⟩ := (hbijective 7).surjective 0
  exact ⟨⟨hagents 7 0 1 (by decide), hglobal 1 7 8 (by decide)⟩, agent, hagent ▸ hsource 7 agent⟩

end BehaviourGraph
