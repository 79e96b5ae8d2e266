/-
Releasing what is open when the program ends.

Whatever is opened registers how it is to be released. Shutting down releases
everything registered, once and in the order of registration; what gets
registered meanwhile waits for the next shutdown.
-/
namespace MergedMining

/-- What waits to be released, in the order of registration. -/
structure Releases (ρ : Type) where
  pending : List ρ
  deriving Repr

namespace Releases

variable {ρ σ : Type}

/-- Nothing is registered. -/
def none : Releases ρ := ⟨[]⟩

/-- Adds a release behind those that are there. -/
def register (r : Releases ρ) (release : ρ) : Releases ρ := ⟨r.pending ++ [release]⟩

/-- How many releases are still to be done. -/
def count (r : Releases ρ) : Nat := r.pending.length

/-- Releases everything that waits. A release changes the world, and may register
others. -/
def shutdown (act : ρ → σ → σ × List ρ) (r : Releases ρ) (world : σ) : σ × Releases ρ :=
  r.pending.foldl
    (fun (world, waiting) release =>
      let (world, registered) := act release world
      (world, registered.foldl register waiting))
    (world, none)

end Releases

end MergedMining
