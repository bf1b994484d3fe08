import CodeIndex.Sync

/-!
Transactions of a run.

While a transaction is open, what is stored does not change, whichever statements are carried out and
wherever one of them is refused. So a transaction that fails has changed nothing.

* `Keeps` says that a step keeps a property of the run, also when it fails, and `Keeps.bind` and
  `Keeps.forM` that the parts of a step suffice;
* `body_keeps`: what each kind of step keeps (`Kept`) a whole run keeps, and `isolated_kept` is that for
  what is stored;
* `transaction_error`: after a failed transaction the connection is as it was.
-/
namespace CodeIndex.Sync

/-! ## What steps keep -/

/-- The run after a step, whether it has failed or not. -/
def left {α : Type} : EStateM.Result Failure Progress α → Progress
  | .ok _ p => p
  | .error _ p => p

/-- A step keeps a property of the run. -/
def Keeps {α : Type} (I : Progress → Prop) (x : Step α) : Prop := ∀ p, I p → I (left (x.run p))

namespace Keeps

variable {α β : Type} {I : Progress → Prop}

theorem pure (a : α) : Keeps I (Pure.pure a : Step α) := fun _ h => h

theorem bind {x : Step α} {f : α → Step β} (hx : Keeps I x) (hf : ∀ a, Keeps I (f a)) :
    Keeps I (x >>= f) := by
  intro p hp
  have h := hx p hp
  change I (left (EStateM.bind x f p))
  unfold EStateM.bind
  cases hr : x p with
  | ok a q =>
    rw [EStateM.run, hr] at h
    exact hf a q h
  | error failure q =>
    rw [EStateM.run, hr] at h
    exact h

theorem forM {f : α → Step Unit} (hf : ∀ a, Keeps I (f a)) (l : List α) : Keeps I (l.forM f) := by
  induction l with
  | nil => exact pure _
  | cons a l ih => exact bind (hf a) fun _ => ih

theorem get : Keeps I (MonadState.get : Step Progress) := fun _ h => h

theorem modified {f : Progress → Progress} (hf : ∀ p, I p → I (f p)) : Keeps I (modify f) :=
  fun p h => hf p h

end Keeps

/-! ## What all steps keep -/

/-- A property of the run that its steps are too weak to break: a statement on the index, a call of the
provider, counting and announcing each keep it. -/
structure Kept (I : Progress → Prop) : Prop where
  statement : ∀ {α : Type} (f : Store → Except Failure α × Store), Keeps I (statement f)
  embed : ∀ text, Keeps I (embed text)
  count : ∀ f, Keeps I (count f)
  announce : ∀ relative, Keeps I (announce relative)
  startAnnouncing : Keeps I startAnnouncing

section Steps

variable {I : Progress → Prop} {c : SyncConfig} {project : String}

section Statements

variable (hI : ∀ {α : Type} (f : Store → Except Failure α × Store), Keeps I (statement f))
include hI

theorem query_keeps {α : Type} (f : Store → Except Failure (α × Store)) : Keeps I (query f) := by
  unfold query
  exact hI _

theorem change_keeps (f : Store → Except Failure Store) : Keeps I (change f) := by
  unfold change
  exact query_keeps hI _

theorem finish_keeps (now : String) : Keeps I (finish project now) :=
  (hI _).bind fun _ => Keeps.get.bind fun _ => change_keeps hI _

end Statements

theorem addChunk_keeps (hI : Kept I) (chunk : Chunk) : Keeps I (addChunk c project chunk) := by
  refine (hI.embed _).bind fun embedding => (hI.count _).bind fun _ => ?_
  refine (query_keeps hI.statement _).bind fun id => (hI.count _).bind fun _ => ?_
  exact Keeps.forM (fun name => (change_keeps hI.statement _).bind fun _ => hI.count _) _

theorem addFile_keeps (hI : Kept I) (file : String × Option String) :
    Keeps I (addFile c project file) := by
  refine (hI.announce _).bind fun _ => ?_
  obtain ⟨relative, text⟩ := file
  cases text with
  | none => exact hI.count _
  | some text =>
    refine (change_keeps hI.statement _).bind fun _ => (hI.count _).bind fun _ => ?_
    exact Keeps.forM (addChunk_keeps hI) _

theorem addComponent_keeps (hI : Kept I) (file : Component × Option String) :
    Keeps I (addComponent c project file) := by
  have hask : Keeps I (embedComponent c file) := by
    unfold embedComponent
    split
    · exact hI.embed _
    · exact Keeps.pure _
  refine hask.bind fun embedding => (hI.count _).bind fun _ => ?_
  exact (change_keeps hI.statement _).bind fun _ => hI.count _

theorem prune_keeps (hI : Kept I) (w : Work) : Keeps I (prune c project w) := by
  unfold prune
  split
  · exact (query_keeps hI.statement _).bind fun _ => hI.count _
  · exact Keeps.pure _

/-- What all steps keep a whole run keeps, in whichever statement it ends. -/
theorem body_keeps (hI : Kept I) (w : Work) (now : String) : Keeps I (body w c project now) := by
  refine (hI.statement _).bind fun _ => hI.startAnnouncing.bind fun _ => ?_
  refine (Keeps.forM (addFile_keeps hI) _).bind fun _ => ?_
  refine (Keeps.forM (addComponent_keeps hI) _).bind fun _ => ?_
  exact (prune_keeps hI w).bind fun _ => finish_keeps hI.statement now

end Steps

/-! ## What is stored -/

/-- A transaction is open, and `s` is what is stored. -/
def Isolated (s : Store) (p : Progress) : Prop := p.link.inTransaction = true ∧ p.link.stored = s

/-- A statement in a transaction does not touch what is stored, also when it is refused halfway. -/
theorem statement_isolated {s : Store} {α : Type} (f : Store → Except Failure α × Store) :
    Keeps (Isolated s) (statement f) := by
  intro p ⟨hopen, hstored⟩
  have hleft : (left ((statement f).run p)).link = p.link.leave (f p.link.seen).2 := by
    simp only [statement, EStateM.run]
    split <;> rfl
  refine ⟨?_, ?_⟩
  · rw [hleft, Connection.inTransaction_leave, hopen]
  · rw [hleft, Connection.stored_leave hopen, hstored]

/-- **No step of a run touches what is stored.** -/
theorem isolated_kept (s : Store) : Kept (Isolated s) where
  statement := statement_isolated
  embed _ := fun _ h => h
  count _ := Keeps.modified fun _ h => h
  announce _ := fun _ h => h
  startAnnouncing := fun _ h => h

/-! ## The end of a transaction -/

theorem transaction_of_ok {α : Type} {x : Step α} {p q : Progress} {a : α}
    (h : x.run { p with link := p.link.begun } = .ok a q) :
    (transaction x).run p = .ok a { q with link := q.link.committed } := by
  change transaction x p = _
  rw [transaction, show x { p with link := p.link.begun } = .ok a q from h]

theorem transaction_of_error {α : Type} {x : Step α} {p q : Progress} {failure : Failure}
    (h : x.run { p with link := p.link.begun } = .error failure q) :
    (transaction x).run p = .error failure { q with link := q.link.rolledBack } := by
  change transaction x p = _
  rw [transaction, show x { p with link := p.link.begun } = .error failure q from h]

/-- A transaction that fails leaves the connection with what was stored before it. -/
theorem transaction_error {α : Type} {x : Step α} {p q : Progress} {failure : Failure}
    (hx : Keeps (Isolated p.link.stored) x)
    (h : x.run { p with link := p.link.begun } = .error failure q) :
    q.link.rolledBack = .idle p.link.stored := by
  have hkeep := hx { p with link := p.link.begun } ⟨rfl, rfl⟩
  rw [h] at hkeep
  exact congrArg Connection.idle hkeep.2

end CodeIndex.Sync
