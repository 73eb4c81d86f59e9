import Mathlib.Data.List.Forall2
/-!
Computations that may fail, read from their success.
-/
namespace ScriptHost.Results

open List (Forall₂)

variable {α β ε δ : Type}

/-- Two steps succeed if the first one does and the second one does on its result. -/
theorem bind_eq_ok {m : Except ε α} {f : α → Except ε β} {b : β} :
    m >>= f = .ok b ↔ ∃ a, m = .ok a ∧ f a = .ok b := by
  cases m with
  | error e => simp [bind, Except.bind]
  | ok a => simp [bind, Except.bind]

/-- Two steps fail if the first one does or the second one does on its result. -/
theorem bind_eq_error {m : Except ε α} {f : α → Except ε β} {e : ε} :
    m >>= f = .error e ↔ m = .error e ∨ ∃ a, m = .ok a ∧ f a = .error e := by
  cases m with
  | error e => simp [bind, Except.bind]
  | ok a => simp [bind, Except.bind]

/-- A mapped result is the image of a result. -/
theorem map_eq_ok {m : Except ε α} {f : α → β} {b : β} :
    m.map f = .ok b ↔ ∃ a, m = .ok a ∧ f a = b := by
  cases m <;> simp [Except.map]

/-- Outcomes that look the same fail alike or are results that look the same. -/
theorem eq_of_map_eq {γ κ : Type} {u : α → κ} {v : γ → κ} {m : Except ε α} {n : Except ε γ}
    (same : m.map u = n.map v) :
    (∃ e, m = .error e ∧ n = .error e) ∨ ∃ c d, m = .ok c ∧ n = .ok d ∧ u c = v d := by
  cases m with
  | error e =>
    cases n with
    | error e' =>
      cases same
      exact .inl ⟨e, rfl, rfl⟩
    | ok d => cases same
  | ok c =>
    cases n with
    | error e => cases same
    | ok d => exact .inr ⟨c, d, rfl, rfl, Except.ok.inj same⟩

/-- Changing errors leaves results alone. -/
theorem mapError_eq_ok {m : Except ε α} {f : ε → δ} {a : α} :
    m.mapError f = .ok a ↔ m = .ok a := by
  cases m with
  | error e => constructor <;> intro same <;> cases same
  | ok b => constructor <;> intro same <;> cases same <;> rfl

/-- A failure with a changed error is the change of a failure. -/
theorem mapError_eq_error {m : Except ε α} {f : ε → δ} {d : δ} :
    m.mapError f = .error d ↔ ∃ e, m = .error e ∧ f e = d := by
  cases m <;> simp [Except.mapError]

/-- The results of mapping a list belong to its elements one by one. -/
theorem forall₂_of_mapM {f : α → Except ε β} {as : List α} {bs : List β}
    (mapped : as.mapM f = .ok bs) : Forall₂ (fun a b => f a = .ok b) as bs := by
  induction as generalizing bs with
  | nil =>
    cases mapped
    exact .nil
  | cons a rest ih =>
    rw [List.mapM_cons] at mapped
    obtain ⟨b, head, mapped⟩ := bind_eq_ok.1 mapped
    obtain ⟨others, tail, mapped⟩ := bind_eq_ok.1 mapped
    cases mapped
    exact .cons head (ih tail)

/-- In lists that correspond every element has a counterpart. -/
theorem exists_of_forall₂ {R : α → β → Prop} {as : List α} {bs : List β} {b : β}
    (related : Forall₂ R as bs) (member : b ∈ bs) : ∃ a ∈ as, R a b := by
  induction related with
  | nil => cases member
  | cons head _ ih =>
    rcases List.mem_cons.1 member with rfl | later
    · exact ⟨_, List.mem_cons_self, head⟩
    · obtain ⟨a, inside, same⟩ := ih later
      exact ⟨a, List.mem_cons_of_mem _ inside, same⟩

/-- What corresponds to what corresponds to the elements of a list corresponds to them. -/
theorem forall₂_comp {γ : Type} {R : α → β → Prop} {S : β → γ → Prop} {as : List α} {bs : List β}
    {cs : List γ} (first : Forall₂ R as bs) (second : Forall₂ S bs cs) :
    Forall₂ (fun a c => ∃ b, R a b ∧ S b c) as cs := by
  induction first generalizing cs with
  | nil =>
    cases second
    exact .nil
  | cons head _ ih =>
    cases second with
    | cons head' tail' => exact .cons ⟨_, head, head'⟩ (ih tail')

/-- A list is mapped element by element. -/
theorem mem_of_mapM {f : α → Except ε β} {as : List α} {bs : List β}
    (mapped : as.mapM f = .ok bs) :
    (∀ a ∈ as, ∃ b ∈ bs, f a = .ok b) ∧ ∀ b ∈ bs, ∃ a ∈ as, f a = .ok b := by
  have related := forall₂_of_mapM mapped
  refine ⟨fun a member => ?_, fun b member => ?_⟩
  · exact exists_of_forall₂ (R := fun b a => f a = .ok b) related.flip member
  · exact exists_of_forall₂ (R := fun a b => f a = .ok b) related member

/-- The results of mapping a list lie at the positions of its elements. -/
theorem getElem?_of_mapM {f : α → Except ε β} {as : List α} {bs : List β}
    (mapped : as.mapM f = .ok bs) :
    bs.length = as.length ∧
      ∀ (i : Nat) (a : α), as[i]? = some a → ∃ b, bs[i]? = some b ∧ f a = .ok b := by
  have related := forall₂_of_mapM mapped
  refine ⟨related.length_eq.symm, fun i a found => ?_⟩
  obtain ⟨inBounds, rfl⟩ := List.getElem?_eq_some_iff.1 found
  have inBounds' : i < bs.length := related.length_eq ▸ inBounds
  exact ⟨bs[i], List.getElem?_eq_getElem inBounds', related.get inBounds inBounds'⟩

/-- A list is mapped if each of its elements is. -/
theorem exists_mapM {f : α → Except ε β} {as : List α} (each : ∀ a ∈ as, ∃ b, f a = .ok b) :
    ∃ bs, as.mapM f = .ok bs := by
  induction as with
  | nil => exact ⟨[], rfl⟩
  | cons a rest ih =>
    obtain ⟨⟨b, head⟩, tail⟩ := List.forall_mem_cons.1 each
    obtain ⟨bs, others⟩ := ih tail
    exact ⟨b :: bs, by rw [List.mapM_cons, head, others]; rfl⟩

/-- A list that cannot be mapped has an element that cannot. -/
theorem exists_of_mapM_error {f : α → Except ε β} {as : List α} {e : ε}
    (failed : as.mapM f = .error e) : ∃ a ∈ as, f a = .error e := by
  induction as with
  | nil => cases failed
  | cons a rest ih =>
    rw [List.mapM_cons] at failed
    cases head : f a with
    | error cause =>
      rw [head] at failed
      cases failed
      exact ⟨a, List.mem_cons_self, head⟩
    | ok b =>
      rw [head] at failed
      cases tail : rest.mapM f with
      | error cause =>
        rw [tail] at failed
        cases failed
        obtain ⟨x, member, cause⟩ := ih tail
        exact ⟨x, List.mem_cons_of_mem _ member, cause⟩
      | ok bs =>
        rw [tail] at failed
        cases failed

/-- A list passes exactly if each of its elements does. -/
theorem forM_eq_ok {f : α → Except ε PUnit} {as : List α} :
    as.forM f = .ok () ↔ ∀ a ∈ as, f a = .ok () := by
  induction as with
  | nil => exact ⟨fun _ _ member => (List.not_mem_nil member).elim, fun _ => rfl⟩
  | cons a rest ih =>
    have unfolded : (a :: rest).forM f = f a >>= fun _ => rest.forM f := rfl
    rw [unfolded, bind_eq_ok, List.forall_mem_cons, ← ih]
    exact ⟨fun ⟨_, head, tail⟩ => ⟨head, tail⟩, fun ⟨head, tail⟩ => ⟨(), head, tail⟩⟩

end ScriptHost.Results
