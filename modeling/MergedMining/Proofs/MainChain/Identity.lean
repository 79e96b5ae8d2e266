/-
The name of a transaction stands for all of it but the programs.

A payload has no length in front of it, so one might think that what is hashed for the name
could be cut in two ways, with more or less of it taken for the payload. But a transaction
without programs is written as just these bytes, with an empty list behind them, and what is
written is read back in one way. So the bytes settle everything that they were made of.

Byte strings that would not fit into any memory are left aside: a count wraps around for them.
-/
import MergedMining.Proofs.Collision
import MergedMining.Proofs.Wire.RoundTrip

namespace MergedMining.MainChain

open Wire

namespace Transaction

variable {t u : Transaction}

/-- The transaction without its programs. -/
def stripped (t : Transaction) : Transaction := { t with programs := [] }

private theorem write_stripped (t : Transaction) :
    write t.stripped = t.unsigned ++ writeSeq ([] : List Program) := rfl

/-- Without its programs a transaction has a written form if its payload has a layout. -/
theorem admits_stripped (hlayout : HasLayout t.kind t.payloadVersion t.payload)
    (hlen : t.unsigned.length < 2 ^ 64) : Exact.Admits t.stripped := by
  refine ⟨hlayout, counted_of_unsigned hlen ⟨?_, fun p hp => ?_⟩⟩
  · simp [stripped]
  · simp [stripped] at hp

/-- What is hashed for the name tells everything but the programs. -/
theorem stripped_eq_of_unsigned_eq (ht : HasLayout t.kind t.payloadVersion t.payload)
    (hu : HasLayout u.kind u.payloadVersion u.payload) (hlen : t.unsigned.length < 2 ^ 64)
    (h : t.unsigned = u.unsigned) : t.stripped = u.stripped := by
  apply Exact.write_inj
  · exact admits_stripped ht hlen
  · exact admits_stripped hu (h ▸ hlen)
  · rw [write_stripped, write_stripped, h]

private theorem unsigned_eq_of_stripped_eq (h : t.stripped = u.stripped) :
    t.unsigned = u.unsigned := by
  have hunsigned := congrArg unsigned h
  exact hunsigned

/-- Two transactions without their programs are the same if at most the programs differ. -/
private theorem stripped_eq_iff :
    t.stripped = u.stripped ↔ t = { u with programs := t.programs } := by
  constructor
  · intro h
    exact congrArg (fun bare => { bare with programs := t.programs }) h
  · intro h
    have hstripped := congrArg stripped h
    exact hstripped

/-- A transaction that was read has a payload with the layout of its kind and version. Two
transactions with such payloads give the same bytes to hash for the name exactly if they are the
same but for the programs. If they have one name, they are the same but for the programs, or
what is hashed for one and for the other collides. -/
theorem identified :
    (∀ (input : Bytes) (t : Transaction) (rest : Bytes),
        (read : Reader Transaction) input = .ok t rest →
          HasLayout t.kind t.payloadVersion t.payload)
      ∧ ∀ t u : Transaction, HasLayout t.kind t.payloadVersion t.payload →
          HasLayout u.kind u.payloadVersion u.payload → t.unsigned.length < 2 ^ 64 →
        (t.unsigned = u.unsigned ↔ t = { u with programs := t.programs })
          ∧ (t.id = u.id →
            t = { u with programs := t.programs } ∨ Collides [t.unsigned, u.unsigned]) := by
  constructor
  · intro input t rest hread
    obtain ⟨⟨hlayout, -⟩, -⟩ := Exact.read_eq_ok.1 hread
    exact hlayout
  · intro t u ht hu hlen
    have hsame : t.unsigned = u.unsigned ↔ t = { u with programs := t.programs } := by
      rw [← stripped_eq_iff]
      exact ⟨stripped_eq_of_unsigned_eq ht hu hlen, unsigned_eq_of_stripped_eq⟩
    refine ⟨hsame, fun hid => ?_⟩
    have hcases : t.unsigned = u.unsigned ∨ Collides [t.unsigned, u.unsigned] :=
      Collides.eq_or (by simp) (by simp) hid
    exact hcases.imp_left hsame.1

/-- A withdrawal and its copy without programs have the same unsigned bytes. -/
theorem identified_withdrawal :
    HasLayout Kind.withdraw 0 Sample.withdrawal.payload
      ∧ Sample.withdrawal.unsigned.length < 2 ^ 64
      ∧ Sample.withdrawal.unsigned = { Sample.withdrawal with programs := [] }.unsigned
      ∧ Sample.withdrawal.unsigned ≠ { Sample.withdrawal with lockTime := 1501 }.unsigned := by
  have hlayout : HasLayout Kind.withdraw 0 Sample.withdrawal.payload :=
    ⟨Sample.withdrawal.payload, rfl⟩
  have hlen : Sample.withdrawal.unsigned.length < 2 ^ 64 := by decide +kernel
  refine ⟨hlayout, hlen, ?_, ?_⟩
  · exact (identified.2 Sample.withdrawal { Sample.withdrawal with programs := [] }
      hlayout hlayout hlen).1.2 rfl
  · intro h
    have hsame := (identified.2 Sample.withdrawal { Sample.withdrawal with lockTime := 1501 }
      hlayout hlayout hlen).1.1 h
    have hlock := congrArg Transaction.lockTime hsame
    simp [Sample.withdrawal] at hlock

end Transaction

end MergedMining.MainChain
