import CodeIndex.Store.Write

/-!
Connections to an index, and transactions.

What a statement changes is stored at once unless a transaction is open. In a transaction it is only
pending: statements see it, but it is stored when the transaction is committed, and never if it is
rolled back.
-/
namespace CodeIndex

/-- A connection to an index. -/
structure Connection where
  /-- The index as it is stored. -/
  stored : Store
  /-- In a transaction, the index as it will be stored. -/
  pending : Option Store

namespace Connection

/-- A connection outside a transaction. -/
def idle (s : Store) : Connection := ⟨s, none⟩

/-- The index as statements see it. -/
def seen (c : Connection) : Store := c.pending.getD c.stored

/-- The connection after a statement that leaves the index it sees as `s`. -/
def leave (c : Connection) (s : Store) : Connection :=
  match c.pending with
  | none => ⟨s, none⟩
  | some _ => ⟨c.stored, some s⟩

/-- The connection with a transaction open. -/
def begun (c : Connection) : Connection := ⟨c.stored, some c.seen⟩

/-- The connection after its transaction has been committed. -/
def committed (c : Connection) : Connection := ⟨c.seen, none⟩

/-- The connection after its transaction has been rolled back. -/
def rolledBack (c : Connection) : Connection := ⟨c.stored, none⟩

/-- Whether a transaction is open. -/
def inTransaction (c : Connection) : Bool := c.pending.isSome

/-! ## Small facts -/

@[simp] theorem seen_leave (c : Connection) (s : Store) : (c.leave s).seen = s := by
  unfold leave; split <;> rfl

@[simp] theorem inTransaction_leave (c : Connection) (s : Store) :
    (c.leave s).inTransaction = c.inTransaction := by
  unfold leave inTransaction; split <;> simp_all

/-- In a transaction no statement touches what is stored. -/
theorem stored_leave {c : Connection} (h : c.inTransaction = true) (s : Store) :
    (c.leave s).stored = c.stored := by
  unfold leave; split
  · rename_i hp; simp [inTransaction, hp] at h
  · rfl

end Connection

end CodeIndex
