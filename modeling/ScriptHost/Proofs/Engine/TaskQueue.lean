import ScriptHost.Engine.TaskQueue
/-!
What happens at a queue of tasks accounts for what waits there. Tasks are taken in the order in
which they were accepted, and only a queue without room refuses one.
-/
namespace ScriptHost.TaskQueue

variable {τ : Type} {q r s : TaskQueue τ} {capacity : Nat} {history : List (Event τ)}
  {waiting : List τ}

/-- The tasks that were accepted, oldest first. -/
def acceptedIn : (history : List (Event τ)) → List τ
  | [] => []
  | .accepted task :: before => acceptedIn before ++ [task]
  | .refused _ :: before | .taken _ :: before => acceptedIn before

/-- The tasks that were taken, oldest first. -/
def takenIn : (history : List (Event τ)) → List τ
  | [] => []
  | .taken task :: before => takenIn before ++ [task]
  | .accepted _ :: before | .refused _ :: before => takenIn before

/-- The tasks that a queue accepted, oldest first. -/
def accepted (q : TaskQueue τ) : List τ :=
  acceptedIn q.history

/-- The tasks that were taken from a queue, oldest first. -/
def taken (q : TaskQueue τ) : List τ :=
  takenIn q.history

/-- Which tasks wait after what happened, the latest first. A task is accepted, behind the others, as
long as there is room, and refused when as many wait as may. It is the oldest when it is taken. -/
inductive Explains (capacity : Nat) : (history : List (Event τ)) → (waiting : List τ) → Prop
  | start : Explains capacity [] []
  | accepted {history : List (Event τ)} {waiting : List τ} (task : τ)
      (before : Explains capacity history waiting) (room : waiting.length < capacity) :
      Explains capacity (.accepted task :: history) (waiting ++ [task])
  | refused {history : List (Event τ)} {waiting : List τ} (task : τ)
      (before : Explains capacity history waiting) (full : waiting.length = capacity) :
      Explains capacity (.refused task :: history) waiting
  | taken {history : List (Event τ)} {waiting : List τ} {task : τ}
      (before : Explains capacity history (task :: waiting)) :
      Explains capacity (.taken task :: history) waiting

/-- A queue of which the history says what waits. -/
def Lawful (q : TaskQueue τ) : Prop :=
  Explains q.capacity q.history q.waiting

theorem lawful_empty (capacity : Nat) (arriving : List (List τ)) :
    Lawful { capacity, arriving } := .start

/-- No more tasks wait than may. -/
theorem Explains.length_le (explains : Explains capacity history waiting) :
    waiting.length ≤ capacity := by
  induction explains with
  | start => exact Nat.zero_le capacity
  | accepted task _ room _ =>
    rw [List.length_append]
    exact room
  | refused _ _ _ ih => exact ih
  | taken _ ih => exact Nat.le_of_succ_le ih

/-- What was accepted was taken, or waits. -/
theorem Explains.taken_append_waiting (explains : Explains capacity history waiting) :
    takenIn history ++ waiting = acceptedIn history := by
  induction explains with
  | start => rfl
  | accepted task _ _ ih => rw [takenIn, acceptedIn, ← ih, List.append_assoc]
  | refused _ _ _ ih => exact ih
  | taken _ ih => rw [takenIn, acceptedIn, ← ih, List.append_assoc, List.singleton_append]

/-! ## Posting -/

/-- Nothing happens at a queue but that tasks are posted. -/
structure Gathers (q r : TaskQueue τ) : Prop where
  capacity : r.capacity = q.capacity
  taken : r.taken = q.taken
  lawful : q.Lawful → r.Lawful

theorem Gathers.refl (q : TaskQueue τ) : q.Gathers q :=
  ⟨rfl, rfl, id⟩

theorem Gathers.trans (first : q.Gathers r) (second : r.Gathers s) : q.Gathers s :=
  ⟨second.capacity.trans first.capacity, second.taken.trans first.taken,
    second.lawful ∘ first.lawful⟩

theorem gathers_post (q : TaskQueue τ) (task : τ) : q.Gathers (q.post task).2 := by
  unfold post
  split
  · rename_i room
    exact ⟨rfl, rfl, fun lawful => .accepted task lawful room⟩
  · rename_i noRoom
    refine ⟨rfl, rfl, fun lawful => .refused task lawful ?_⟩
    exact Nat.le_antisymm lawful.length_le (Nat.le_of_not_lt noRoom)

theorem gathers_postAll (q : TaskQueue τ) (tasks : List τ) : q.Gathers (q.postAll tasks) := by
  induction tasks generalizing q with
  | nil => exact .refl q
  | cons task rest ih => exact (gathers_post q task).trans (ih _)

/-- What other senders do, they do by posting. -/
theorem gathers_gather (q : TaskQueue τ) : q.Gathers q.gather := by
  unfold gather
  split
  · exact .refl q
  · rename_i tasks later _
    have same : q.Gathers { q with arriving := later } := ⟨rfl, rfl, id⟩
    exact same.trans (gathers_postAll _ tasks)

/-! ## Taking -/

theorem Lawful.take? (lawful : q.Lawful) : q.take?.2.Lawful := by
  unfold TaskQueue.take?
  split
  · exact lawful
  · rename_i task rest first
    unfold Lawful at lawful
    rw [first] at lawful
    exact .taken lawful

theorem capacity_take? (q : TaskQueue τ) : q.take?.2.capacity = q.capacity := by
  unfold take?
  split <;> rfl

/-- The oldest task is taken, if any waits. -/
theorem take?_fst (q : TaskQueue τ) : q.take?.1 = q.waiting.head? := by
  unfold take?
  cases q.waiting <;> rfl

/-- What was taken is noted. -/
theorem taken_take? (q : TaskQueue τ) : q.take?.2.taken = q.taken ++ q.take?.1.toList := by
  unfold take?
  cases q.waiting with
  | nil => exact (List.append_nil q.taken).symm
  | cons task rest => rfl

end ScriptHost.TaskQueue
